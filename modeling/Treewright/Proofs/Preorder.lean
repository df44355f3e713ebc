import Treewright.Proofs.Numbering
set_option autoImplicit false

namespace Treewright

namespace Node

theorem sizeOf_lt_of_mem_edges {n m : Node} (h : m ∈ n.edges) : sizeOf m < sizeOf n := by
  obtain ⟨mark, form⟩ := n
  have among {ns : List Node} (h : m ∈ ns) : sizeOf m < sizeOf ns := List.sizeOf_lt_of_mem h
  have given {o : Option Node} (h : o = some m) : sizeOf m < sizeOf o := by simp [h]
  cases form <;> simp only [edges, Node.form, Form.edges, List.mem_append, List.mem_cons,
    Option.mem_toList, List.not_mem_nil, or_false] at h <;>
    simp only [mk.sizeOf_spec, Form.binding.sizeOf_spec, Form.declaration.sizeOf_spec,
      Form.operation.sizeOf_spec, Form.assignment.sizeOf_spec, Form.block.sizeOf_spec,
      Form.conditional.sizeOf_spec, Form.loop.sizeOf_spec, Form.function.sizeOf_spec,
      Form.ret.sizeOf_spec, Form.arguments.sizeOf_spec, Form.call.sizeOf_spec,
      Form.access.sizeOf_spec, Form.wrapper.sizeOf_spec]
  case declaration | operation | block | arguments =>
    have := among h
    omega
  case binding | ret =>
    have := given h
    omega
  case call | access | wrapper =>
    subst h
    omega
  case assignment => rcases h with rfl | rfl <;> omega
  case conditional =>
    rcases h with rfl | rfl | h
    · omega
    · omega
    · have := given h
      omega
  case loop =>
    rcases h with h | rfl | h | rfl
    · have := given h
      omega
    · omega
    · have := given h
      omega
    · omega
  case function => rcases h with h | h <;> have := given h <;> omega

/-- The node and all that is below it, in preorder. -/
def preorder (n : Node) : List Node := n :: n.edges.attach.flatMap fun m => m.1.preorder
termination_by sizeOf n
decreasing_by exact sizeOf_lt_of_mem_edges m.2

def descendants (n : Node) : List Node := n.edges.flatMap preorder

theorem preorder_eq (n : Node) : n.preorder = n :: n.descendants := by
  rw [preorder, descendants]
  simp

theorem mem_preorder_self (n : Node) : n ∈ n.preorder := by
  rw [preorder_eq]
  exact List.mem_cons_self

theorem mem_descendants_of_mem_edges {n m : Node} (h : m ∈ n.edges) : m ∈ n.descendants :=
  List.mem_flatMap.mpr ⟨m, h, m.mem_preorder_self⟩

theorem mem_preorder_of_mem_descendants {n m : Node} (h : m ∈ n.descendants) : m ∈ n.preorder := by
  rw [preorder_eq]
  exact List.mem_cons_of_mem _ h

theorem edges_induction {P : Node → Prop} (step : ∀ n, (∀ m ∈ n.edges, P m) → P n) (n : Node) :
    P n :=
  step n fun m _ => edges_induction step m
termination_by sizeOf n
decreasing_by exact sizeOf_lt_of_mem_edges ‹_›

theorem descendants_induction {P : Node → Prop} (step : ∀ n, (∀ m ∈ n.descendants, P m) → P n)
    (n : Node) : P n := by
  have all : ∀ m ∈ n.preorder, P m := by
    induction n using edges_induction with
    | step n ih =>
      have below : ∀ m ∈ n.descendants, P m := by
        intro m hm
        obtain ⟨child, hc, hm⟩ := List.mem_flatMap.mp hm
        exact ih child hc m hm
      rw [preorder_eq]
      exact List.forall_mem_cons.mpr ⟨step n below, below⟩
  exact all n n.mem_preorder_self

theorem descendants_trans {n m k : Node} (hm : m ∈ n.descendants) (hk : k ∈ m.preorder) :
    k ∈ n.descendants := by
  induction n using edges_induction with
  | step n ih =>
    obtain ⟨child, hc, hm⟩ := List.mem_flatMap.mp hm
    refine List.mem_flatMap.mpr ⟨child, hc, ?_⟩
    rw [preorder_eq] at hm
    rcases List.mem_cons.mp hm with rfl | hm
    · exact hk
    · exact mem_preorder_of_mem_descendants (ih child hc hm)

section Ids

variable (ids : Nat → Int)

theorem edges_numbered (next : Nat) (n : Node) :
    (numbered ids next n).1.edges = (numberedAll ids (next + 1) n.edges).1 ∧
      (numbered ids next n).2 = (numberedAll ids (next + 1) n.edges).2 := by
  obtain ⟨mark, form⟩ := n
  cases form with
  | binding _ _ value _ => cases value <;> exact ⟨rfl, rfl⟩
  | conditional _ _ rejected _ => cases rejected <;> exact ⟨rfl, rfl⟩
  | loop init _ update _ _ => cases init <;> cases update <;> exact ⟨rfl, rfl⟩
  | function _ _ params body _ => cases params <;> cases body <;> exact ⟨rfl, rfl⟩
  | ret operand => cases operand <;> exact ⟨rfl, rfl⟩
  | _ => exact ⟨rfl, rfl⟩

/-- So many ids of the supply, from the one in place `next` on. -/
def idsFrom (next count : Nat) : List (Option Int) :=
  (List.range' next count).map fun k => some (ids k)

theorem idsFrom_append (next count count' : Nat) :
    idsFrom ids next count ++ idsFrom ids (next + count) count' =
      idsFrom ids next (count + count') := by
  rw [idsFrom, idsFrom, ← List.map_append, List.range'_append_1]
  rfl

def Counts (n : Node) : Prop :=
  ∀ next, (numbered ids next n).1.preorder.map (·.mark.id) = idsFrom ids next n.preorder.length ∧
    (numbered ids next n).2 = next + n.preorder.length

variable {ids}

theorem counts_all {ns : List Node} (h : ∀ n ∈ ns, n.Counts ids) (next : Nat) :
    ((numberedAll ids next ns).1.flatMap preorder).map (·.mark.id) =
        idsFrom ids next (ns.flatMap preorder).length ∧
      (numberedAll ids next ns).2 = next + (ns.flatMap preorder).length := by
  induction ns generalizing next with
  | nil => exact ⟨rfl, rfl⟩
  | cons n ns ih =>
    obtain ⟨hn, hns⟩ := List.forall_mem_cons.mp h
    obtain ⟨own, after⟩ := hn next
    obtain ⟨others, after'⟩ := ih hns (next + n.preorder.length)
    simp only [numberedAll, after, List.flatMap_cons, List.map_append, List.length_append, own,
      others, idsFrom_append, after', Nat.add_assoc, and_self]

theorem counts (n : Node) : n.Counts ids := by
  induction n using edges_induction with
  | step n ih =>
    intro next
    obtain ⟨edges, after⟩ := edges_numbered ids next n
    obtain ⟨below, last⟩ := counts_all ih (next + 1)
    have own : (numbered ids next n).1.mark.id = some (ids next) := by
      cases n
      rfl
    rw [preorder_eq, preorder_eq n, List.map_cons, own, descendants, edges, below, after, last,
      List.length_cons, descendants]
    exact ⟨rfl, by omega⟩

theorem nodup_idsFrom (fresh : Function.Injective ids) (next count : Nat) :
    (idsFrom ids next count).Nodup := by
  refine List.pairwise_map.mpr ((List.nodup_range' 1).imp fun h same => h ?_)
  exact fresh (Option.some.inj same)

theorem ids_numbered (n : Node) :
    (numbered ids 0 n).1.preorder.map (·.mark.id) =
      idsFrom ids 0 (numbered ids 0 n).1.preorder.length := by
  have own : (numbered ids 0 n).1.preorder.map (·.mark.id) = idsFrom ids 0 n.preorder.length :=
    (counts n 0).1
  have length : (numbered ids 0 n).1.preorder.length = n.preorder.length := by
    simpa [idsFrom] using congrArg List.length own
  rw [own, length]

theorem exists_place {n m : Node}
    (own : n.preorder.map (·.mark.id) = idsFrom ids 0 n.preorder.length) (h : m ∈ n.preorder) :
    ∃ k : Nat, m.mark.id = some (ids k) ∧ n.preorder[k]? = some m := by
  obtain ⟨k, hk, rfl⟩ := List.mem_iff_getElem.mp h
  refine ⟨k, ?_, List.getElem?_eq_getElem hk⟩
  have place := congrArg (·[k]?) own
  simpa [idsFrom, hk] using place

end Ids

end Node

/-- The tree that is shown has a row for each node, in the same order, with the label of the node
and its failure. -/
inductive Outline.Shows : Outline → Node → Prop where
  | intro {o : Outline} {n : Node} (label : o.label = n.label) (failed : o.failed = n.error)
      (children : List.Forall₂ Shows o.children n.edges) : Shows o n

theorem Outline.preorderAll_eq_flatMap (os : List Outline) :
    preorderAll os = os.flatMap preorder := by
  induction os with
  | nil => rfl
  | cons o os ih => rw [preorderAll, ih, List.flatMap_cons]

namespace Node

theorem label_outline (n : Node) : n.outline.label = n.label := by
  obtain ⟨m, form⟩ := n
  cases form <;> rfl

theorem shows_outline (n : Node) : n.outline.Shows n := by
  induction n using edges_induction with
  | step n ih =>
    refine .intro n.label_outline n.failed_outline ?_
    rw [children_outline, List.forall₂_map_left_iff]
    exact List.forall₂_same.mpr ih

theorem preorder_outline (n : Node) : n.outline.preorder = n.preorder.map outline := by
  induction n using edges_induction with
  | step n ih =>
    have own (o : Outline) : o.preorder = o :: Outline.preorderAll o.children := by
      cases o
      rfl
    rw [own, children_outline, Outline.preorderAll_eq_flatMap, List.flatMap_map, preorder_eq,
      List.map_cons, descendants, List.map_flatMap]
    exact congrArg _ (List.flatMap_congr ih)

theorem preorderAll_outlines (n : Node) :
    Outline.preorderAll (n.edges.map outline) = n.descendants.map outline := by
  rw [Outline.preorderAll_eq_flatMap, List.flatMap_map, descendants, List.map_flatMap]
  exact List.flatMap_congr fun m _ => m.preorder_outline

theorem Every.of_mem_preorder {P : Node → Prop} {n : Node} (h : n.Every P) :
    ∀ m ∈ n.preorder, P m := by
  induction h with
  | @intro n here _ ih =>
    rw [preorder_eq]
    refine List.forall_mem_cons.mpr ⟨here, fun m hm => ?_⟩
    obtain ⟨child, hc, hm⟩ := List.mem_flatMap.mp hm
    exact ih child hc m hm

end Node
end Treewright
