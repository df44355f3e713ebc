import Treewright.Proofs.Documents
import Treewright.Proofs.Scopes
set_option autoImplicit false

namespace Treewright

open Build

/-- The tables that one can come to from a fresh one by opening and closing scopes, declaring
whatever variables and functions, and marking functions as defined. -/
inductive Table.Reachable : Table → Prop where
  | fresh : Reachable {}
  | entered {t : Table} (h : t.Reachable) (name : Name) : Reachable (t.enter name)
  | left {t u : Table} (h : t.Reachable) (hl : t.leave? = some u) : Reachable u
  | declared {t u : Table} (h : t.Reachable) {name : Name} {type : Ty} {line : Int}
      (hd : t.declare? name type line = some u) : Reachable u
  | bound {t u : Table} (h : t.Reachable) {name : Name} {params : List (Value × Ty)}
      {returns : Option Ty} {line : Int}
      (hd : t.declareFunction? name params returns line = some u) : Reachable u
  | defined {t u : Table} (h : t.Reachable) {name : Name} (hd : t.define? name = some u) :
      Reachable u

theorem steps_reachable : Steps fun c d => c.table.Reachable → d.table.Reachable where
  refl _ h := h
  trans h h' hr := h' (h hr)
  advance _ _ h := h
  report _ _ h := h
  declare c name type line _ h := by
    unfold Context.declare
    split
    · rename_i table hd
      exact h.declared hd
    · exact h
  declareFunction c name params returns line _ _ h := by
    unfold Context.declareFunction
    split
    · rename_i table hd
      exact h.bound hd
    · split <;> exact h
  define hd h := h.defined hd
  scope {c d e name} h hl hr := by
    obtain ⟨table, ht, rfl⟩ := Option.map_eq_some_iff.mp hl
    exact (h (hr.entered name)).left ht

/-- Symbols have their places as their numbers, what stands in open scopes is listed, no function
stands in two of them, and only symbols of the table count as defined. -/
structure Table.Ordered (t : Table) : Prop where
  places : Placed t.symbols
  listed : ∀ scope ∈ t.scopes, scope.values ++ scope.functions ⊆ t.symbols
  apart : (t.scopes.flatMap (·.functions)).Pairwise fun f g => f.id ≠ g.id
  defined : ∀ i ∈ t.defined, i < t.symbols.length

namespace Table.Ordered

variable {t : Table}

theorem fresh : Table.Ordered {} where
  places i s hs := by simp at hs
  listed := by simp [Table.scopes]
  apart := by simp [Table.scopes]
  defined := by simp

theorem defined_append (h : t.Ordered) (s : Symbol) :
    ∀ i ∈ t.defined, i < (t.symbols ++ [s]).length := by
  intro i hi
  have hlt := h.defined i hi
  rw [List.length_append]
  omega

theorem enter (h : t.Ordered) (name : Name) : (t.enter name).Ordered where
  places := h.places
  listed scope hs := by
    rcases List.mem_cons.mp hs with rfl | hs
    · exact List.nil_subset _
    · exact h.listed scope hs
  apart := h.apart
  defined := h.defined

theorem leave {u : Table} (h : t.Ordered) (hl : t.leave? = some u) : u.Ordered := by
  unfold Table.leave? at hl
  split at hl
  · cases hl
  · rename_i scope outer ho
    cases hl
    have hs : t.scopes = t.inner :: scope :: outer := by simp [Table.scopes, ho]
    refine ⟨h.places, fun s hm => h.listed s ?_, ?_, h.defined⟩
    · rw [hs]
      exact List.mem_cons_of_mem _ hm
    · have ha := h.apart
      rw [hs, List.flatMap_cons] at ha
      exact (List.pairwise_append.mp ha).2.1

theorem declare {u : Table} (h : t.Ordered) {name : Name} {type : Ty} {line : Int}
    (hd : t.declare? name type line = some u) : u.Ordered := by
  unfold Table.declare? at hd
  split at hd
  · cases hd
  · cases hd
    refine ⟨h.places.append rfl, fun scope hs f hf => ?_, h.apart, h.defined_append _⟩
    rcases List.mem_cons.mp hs with rfl | hs
    · have hi : f ∈ t.inner.values ++ t.inner.functions → f ∈ t.symbols := fun hf =>
        h.listed t.inner (by simp [Table.scopes]) hf
      simp only [List.mem_append] at hf hi ⊢
      rcases hf with (hf | hf) | hf
      · exact .inl (hi (.inl hf))
      · exact .inr hf
      · exact .inl (hi (.inr hf))
    · exact List.mem_append_left _ (h.listed scope (List.mem_cons_of_mem _ hs) hf)

theorem declareFunction {u : Table} (h : t.Ordered) {name : Name} {params : List (Value × Ty)}
    {returns : Option Ty} {line : Int}
    (hd : t.declareFunction? name params returns line = some u) : u.Ordered := by
  unfold Table.declareFunction? at hd
  split at hd
  · cases hd
  · cases hd
    have old : ∀ f ∈ t.scopes.flatMap (·.functions), f.id < t.symbols.length := by
      intro f hf
      obtain ⟨scope, hs, hf⟩ := List.mem_flatMap.mp hf
      exact h.places.id_lt (h.listed scope hs (List.mem_append_right _ hf))
    refine ⟨h.places.append rfl, fun scope hs f hf => ?_, ?_, h.defined_append _⟩
    · rcases List.mem_cons.mp hs with rfl | hs
      · have hi : f ∈ t.inner.values ++ t.inner.functions → f ∈ t.symbols := fun hf =>
        h.listed t.inner (by simp [Table.scopes]) hf
        simp only [List.mem_append] at hf hi ⊢
        rcases hf with hf | hf | hf
        · exact .inl (hi (.inl hf))
        · exact .inl (hi (.inr hf))
        · exact .inr hf
      · exact List.mem_append_left _ (h.listed scope (List.mem_cons_of_mem _ hs) hf)
    · have ha := h.apart
      simp only [Table.scopes, List.flatMap_cons] at ha old ⊢
      obtain ⟨hi, ho, hio⟩ := List.pairwise_append.mp ha
      -- The new function has the next number, and all the others have earlier ones.
      refine List.pairwise_append.mpr ⟨List.pairwise_append.mpr ⟨hi, by simp, ?_⟩, ho, ?_⟩
      · intro f hf g hg
        have hlt := old f (List.mem_append_left _ hf)
        rw [List.mem_singleton.mp hg]
        simp only
        omega
      · intro f hf g hg
        rcases List.mem_append.mp hf with hf | hf
        · exact hio f hf g hg
        · have hlt := old g (List.mem_append_right _ hg)
          rw [List.mem_singleton.mp hf]
          simp only
          omega

theorem define {u : Table} (h : t.Ordered) {name : Name} (hd : t.define? name = some u) :
    u.Ordered := by
  obtain ⟨s, hs, rfl⟩ := Option.map_eq_some_iff.mp hd
  split
  · exact h
  · refine ⟨h.places, h.listed, h.apart, fun i hi => ?_⟩
    rcases List.mem_append.mp hi with hi | hi
    · exact h.defined i hi
    · obtain ⟨scope, hm, hf⟩ := List.exists_of_findSome?_eq_some hs
      rw [List.mem_singleton.mp hi]
      have hin := List.mem_append_right scope.values (Scope.mem_of_functionNamed hf).1
      exact h.places.id_lt (h.listed scope hm hin)

end Table.Ordered

theorem Table.Reachable.ordered {t : Table} (h : t.Reachable) : t.Ordered := by
  induction h with
  | fresh => exact .fresh
  | entered _ name ih => exact ih.enter name
  | left _ hl ih => exact ih.leave hl
  | declared _ hd ih => exact ih.declare hd
  | bound _ hd ih => exact ih.declareFunction hd
  | defined _ hd ih => exact ih.define hd

def Grown (old new : List Symbol) : Prop :=
  ∃ added, new = old ++ added ∧ ∀ s ∈ added, old.find? (·.name.same s.name) = none

theorem Grown.refl (old : List Symbol) : Grown old old := ⟨[], by simp, by simp⟩

theorem Grown.trans {a b c : List Symbol} (h : Grown a b) (h' : Grown b c) : Grown a c := by
  obtain ⟨added, rfl, hn⟩ := h
  obtain ⟨added', rfl, hn'⟩ := h'
  refine ⟨added ++ added', by simp, fun s hs => ?_⟩
  rcases List.mem_append.mp hs with hs | hs
  · exact hn s hs
  · have hb := hn' s hs
    rw [List.find?_append, Option.or_eq_none_iff] at hb
    exact hb.1

theorem Grown.add {old : List Symbol} {s : Symbol}
    (h : old.find? (·.name.same s.name) = none) : Grown old (old ++ [s]) :=
  ⟨[s], rfl, by simpa using h⟩

/-- The second context has grown out of the first: its innermost scope has new names, and of the
symbols that there were only functions of that scope, and such as are `also` allowed, have become
defined. -/
structure Context.Frames (also : List Nat) (c d : Context) : Prop where
  grown : c.Extends d
  values : Grown c.table.inner.values d.table.inner.values
  functions : Grown c.table.inner.functions d.table.inner.functions
  marks : ∀ i ∈ d.table.defined, i ∈ c.table.defined ∨ c.table.symbols.length ≤ i ∨
    i ∈ c.table.inner.functions.map (·.id) ∨ i ∈ also

namespace Context.Frames

variable {also : List Nat} {c d e : Context}

theorem refl (c : Context) : c.Frames also c where
  grown := .refl c
  values := .refl _
  functions := .refl _
  marks _ hi := .inl hi

theorem mono {also' : List Nat} (h : c.Frames also d) (hs : also ⊆ also') : c.Frames also' d where
  grown := h.grown
  values := h.values
  functions := h.functions
  marks i hi := by
    rcases h.marks i hi with h1 | h2 | h3 | h4
    · exact .inl h1
    · exact .inr (.inl h2)
    · exact .inr (.inr (.inl h3))
    · exact .inr (.inr (.inr (hs h4)))

theorem trans (h : c.Frames also d) (h' : d.Frames also e) : c.Frames also e where
  grown := h.grown.trans h'.grown
  values := h.values.trans h'.values
  functions := h.functions.trans h'.functions
  marks i hi := by
    have hlen := h.grown.table.symbols.length_le
    rcases h'.marks i hi with h1 | h2 | h3 | h4
    · exact h.marks i h1
    · exact .inr (.inl (by omega))
    · -- A function of the innermost scope was there before, or has a new number.
      obtain ⟨f, hf, rfl⟩ := List.mem_map.mp h3
      obtain ⟨new, he, hn⟩ := h.grown.table.functions
      rw [he] at hf
      rcases List.mem_append.mp hf with hf | hf
      · exact .inr (.inr (.inl (List.mem_map.mpr ⟨f, hf, rfl⟩)))
      · exact .inr (.inl (hn f hf))
    · exact .inr (.inr (.inr h4))

theorem of_same (h : c.Extends d) (ht : d.table = c.table) : c.Frames also d where
  grown := h
  values := by rw [ht]; exact .refl _
  functions := by rw [ht]; exact .refl _
  marks i hi := .inl (by rwa [ht] at hi)

theorem declare (c : Context) (name : Name) {type : Ty} (line : Int) (h : type.Stored) :
    c.Frames also (c.declare name type line).2 := by
  have hg := steps_extends.declare c name line h
  rcases c.declare_cases name type line with ⟨hn, he⟩ | ⟨-, he⟩
  · rw [he] at hg ⊢
    exact { grown := hg, values := .add hn, functions := .refl _, marks := fun _ hi => .inl hi }
  · rw [he] at hg ⊢
    exact .of_same hg rfl

theorem declareFunction (c : Context) (name : Name) {params : List (Ty × Value)} {returns : Ty}
    (line : Int) (hp : ∀ p ∈ params, p.1.isWritten = true) (hr : returns.isWritten = true) :
    c.Frames also (c.declareFunction name params returns line).2 := by
  have hg := steps_extends.declareFunction c name line hp hr
  rcases c.declareFunction_cases name params returns line with ⟨hn, he⟩ | ⟨s, -, ⟨-, he⟩ | ⟨-, he⟩⟩
  · rw [he] at hg ⊢
    exact { grown := hg, values := .refl _, functions := .add hn, marks := fun _ hi => .inl hi }
  · rw [he]
    exact .refl c
  · rw [he] at hg ⊢
    exact .of_same hg rfl

theorem scope {name : Name} (h : (c.enter name).Frames also d)
    (ha : also ⊆ c.table.inner.functions.map (·.id)) (hl : d.leave? = some e) :
    c.Frames [] e := by
  have hg := Context.Extends.scope h.grown hl
  obtain ⟨scope, outer, ho, rfl⟩ := Context.leave?_eq hl
  have houter : d.table.outer = c.table.inner :: c.table.outer := h.grown.table.outer
  rw [ho] at houter
  cases houter
  refine { grown := hg, values := .refl _, functions := .refl _, marks := fun i hi => ?_ }
  rcases h.marks i hi with h1 | h2 | h3 | h4
  · exact .inl h1
  · exact .inr (.inl h2)
  · exact absurd h3 List.not_mem_nil
  · exact .inr (.inr (.inl (ha h4)))

theorem define {name : Name} {table : Table} {scope : Scope} {f : Symbol}
    (ho : c.table.outer.head? = some scope) (hf : scope.functionNamed name = some f)
    (h : c.table.define? name = some table) : c.Frames [f.id] { c with table } := by
  have hg := steps_extends.define h
  rw [Table.define?_eq] at h
  obtain ⟨s, hs, rfl⟩ := Option.map_eq_some_iff.mp h
  have same : (c.table.mark s).inner = c.table.inner := by
    unfold Table.mark
    split <;> rfl
  refine { grown := hg, values := ?_, functions := ?_, marks := fun i hi => ?_ }
  · simp only [same]
    exact .refl _
  · simp only [same]
    exact .refl _
  · rcases Table.mem_defined_mark.mp hi with hi | rfl
    · exact .inl hi
    · cases hin : c.table.inner.functionNamed name with
      | some g =>
        rw [Table.functionNamed_of_inner hin] at hs
        obtain rfl := Option.some.inj hs
        exact .inr (.inr (.inl (List.mem_map.mpr ⟨g, (Scope.mem_of_functionNamed hin).1, rfl⟩)))
      | none =>
        obtain ⟨outer, ho⟩ := List.head?_eq_some_iff.mp ho
        rw [Table.functionNamed_of_outer hin, ho, List.findSome?_cons_of_isSome (by simp [hf]),
          hf] at hs
        cases hs
        exact .inr (.inr (.inr (by simp)))

end Context.Frames

def Context.BodyFrames (name : Name) (c d : Context) : Prop :=
  ∀ scope f, c.table.outer.head? = some scope → scope.functionNamed name = some f →
    c.Frames [f.id] d

theorem contract_frames : Contract (fun _ => True) (Context.Frames []) Context.BodyFrames where
  refl := .refl
  trans _ _ _ := .trans
  advance c line _ := .of_same (steps_extends.advance c line) rfl
  report c problems := .of_same (.report c problems) rfl
  declare := .declare
  declareFunction := .declareFunction
  scope h hl := h.scope (List.nil_subset _) hl
  line h _ _ _ _ := h.mono (List.nil_subset _)
  chain h h' scope f ho hf := by
    have hcd := h scope f ho hf
    have houter := (congrArg List.head? hcd.grown.table.outer).trans ho
    exact hcd.trans (h' scope f houter hf)
  define h _ _ ho hf := .define ho hf h
  body {c d e name} hf h hl := by
    obtain ⟨f, hf⟩ := Option.isSome_iff_exists.mp hf
    refine (h c.table.inner f rfl hf).scope (fun i hi => ?_) hl
    rw [List.mem_singleton.mp hi]
    exact List.mem_map.mpr ⟨f, (Scope.mem_of_functionNamed hf).1, rfl⟩

theorem frames_build (action : Value) (c : Context) :
    c.Frames [] (exec (build (.ofValue action)) c).2 :=
  (contract_frames.keeps_build (Action.wellFormed_ofValue action) (fun _ _ => trivial) c).1

namespace Context.Frames

variable {c d : Context}

theorem isDefined_of_isDefined {also : List Nat} (h : c.Frames also d) {s : Symbol}
    (hs : c.table.isDefined s = true) : d.table.isDefined s = true := by
  simp only [Table.isDefined, List.contains_iff_mem] at hs ⊢
  exact h.grown.table.defined.subset hs

theorem mem_of_isDefined (h : c.Frames [] d) (ordered : c.table.Ordered) {s : Symbol}
    (hs : s ∈ c.table.symbols) (hc : c.table.isDefined s = false)
    (hd : d.table.isDefined s = true) : s ∈ c.table.inner.functions := by
  simp only [Table.isDefined, List.contains_iff_mem] at hd
  have hlt := ordered.places.id_lt hs
  rcases h.marks s.id hd with h1 | h2 | h3 | h4
  · simp [Table.isDefined, h1] at hc
  · omega
  · obtain ⟨f, hf, hid⟩ := List.mem_map.mp h3
    have hfs := ordered.listed c.table.inner (by simp [Table.scopes]) (List.mem_append_right _ hf)
    rwa [← ordered.places.eq_of_id hfs hs hid]
  · exact absurd h4 List.not_mem_nil

theorem isDefined_outer (h : c.Frames [] d) (ordered : c.table.Ordered) {scope : Scope}
    (hm : scope ∈ c.table.outer) {f : Symbol} (hf : f ∈ scope.functions) :
    d.table.isDefined f = c.table.isDefined f := by
  have hfs := ordered.listed scope (List.mem_cons_of_mem _ hm) (List.mem_append_right _ hf)
  cases hc : c.table.isDefined f with
  | true => exact h.isDefined_of_isDefined hc
  | false =>
    cases hd : d.table.isDefined f with
    | false => rfl
    | true =>
      have ha := ordered.apart
      simp only [Table.scopes, List.flatMap_cons] at ha
      have hfo : f ∈ c.table.outer.flatMap (·.functions) := List.mem_flatMap.mpr ⟨scope, hm, hf⟩
      have hne := (List.pairwise_append.mp ha).2.2 f (h.mem_of_isDefined ordered hfs hc hd) f hfo
      exact absurd rfl hne

end Context.Frames

/-- How a table may change while the innermost scope stays open: the stack has the same scopes,
those around the innermost one are the same with the same functions defined, the innermost one has
new names at most, no function stops to be defined, and what was declared stays listed. -/
structure Table.KeepsScopes (t u : Table) : Prop where
  names : u.scopes.map (·.name) = t.scopes.map (·.name)
  outer : u.outer = t.outer
  outer_defined : ∀ scope ∈ t.outer, ∀ f ∈ scope.functions, u.isDefined f = t.isDefined f
  values : Grown t.inner.values u.inner.values
  functions : Grown t.inner.functions u.inner.functions
  symbols : t.symbols <+: u.symbols
  still_defined : ∀ s, t.isDefined s = true → u.isDefined s = true
  newly_defined : ∀ s ∈ t.symbols, t.isDefined s = false → u.isDefined s = true →
    s ∈ t.inner.functions

/-- From every reachable table and with whatever log, the build of any document keeps the scopes and
what was reported, be it that it ends well or with a fault, and comes to a reachable table again. -/
theorem build_keepsScopes {c : Context} (reachable : c.table.Reachable) (action : Value) :
    let d := (exec (build (.ofValue action)) c).2
    c.table.KeepsScopes d.table ∧ c.log.diagnostics <+: d.log.diagnostics ∧
      d.table.Reachable := by
  intro d
  have frames : c.Frames [] d := frames_build action c
  have ordered := reachable.ordered
  have again := (keeps_build steps_reachable (Action.wellFormed_ofValue action) c).1 reachable
  refine ⟨?_, frames.grown.log, again⟩
  exact
    { names := by simp [Table.scopes, frames.grown.table.name, frames.grown.table.outer]
      outer := frames.grown.table.outer
      outer_defined := fun _ hm _ hf => frames.isDefined_outer ordered hm hf
      values := frames.values
      functions := frames.functions
      symbols := frames.grown.table.symbols
      still_defined := fun _ hs => frames.isDefined_of_isDefined hs
      newly_defined := fun _ hs hc hd => frames.mem_of_isDefined ordered hs hc hd }

def nestedPrototypes : Table :=
  ((Table.addFunction {} (.text "f") [] (some .void) 1).enter .nothing).addFunction (.text "g") []
    (some .void) 1

def brokenDefinition : Value :=
  .object [("node", .string "function"), ("name", .string "g"), ("returns", .string "void"),
    ("body", .list [.object [("node", .string "array_decl"), ("type", .string "int"),
      ("name", .string "x"), ("size", .int 3)], .null])]

/-- The build stops in the middle of the body. The inner function is defined by then and the outer
one is not, and the scope of the body is closed. -/
theorem build_keepsScopes_broken :
    let c : Context := { table := nestedPrototypes }
    let d := (exec (build (.ofValue brokenDefinition)) c).2
    c.table.Reachable ∧ (exec (build (.ofValue brokenDefinition)) c).1.isOk = false ∧
      c.table.defined = [] ∧ d.table.defined = [1] ∧ d.table.symbols.length = 3 ∧
      c.table.KeepsScopes d.table ∧ c.log.diagnostics <+: d.log.diagnostics ∧
      d.table.Reachable := by
  have outer : (Table.addFunction {} (.text "f") [] (some .void) 1).Reachable := .bound .fresh rfl
  have reachable : nestedPrototypes.Reachable := .bound (outer.entered .nothing) rfl
  have checked :
      let c : Context := { table := nestedPrototypes }
      let d := (exec (build (.ofValue brokenDefinition)) c).2
      (exec (build (.ofValue brokenDefinition)) c).1.isOk = false ∧ c.table.defined = [] ∧
      d.table.defined = [1] ∧ d.table.symbols.length = 3 := by decide +kernel
  obtain ⟨stopped, undefined, defined, declared⟩ := checked
  exact ⟨reachable, stopped, undefined, defined, declared,
    build_keepsScopes reachable brokenDefinition⟩

end Treewright
