import Treewright.Proofs.Preorder
import Treewright.Proofs.Simulation
set_option autoImplicit false

namespace Treewright

open Build

namespace Node

/-- The node puts out reports, each of them beside the node that emits it. A report is emitted by
the node itself, or in the course of rendering a node below it. -/
inductive Emits : Node → List (Node × Report) → Prop where
  | nil (n : Node) : Emits n []
  | own {n : Node} {es : List (Node × Report)} (message code : String) (rest : Emits n es) :
      Emits n ((n, n.mark.report message code) :: es)
  | child {n m : Node} {es fs : List (Node × Report)} (below : m ∈ n.descendants) (depth : Int)
      (whole : es.map Prod.snd = m.reports depth) (emits : Emits m es) (rest : Emits n fs) :
      Emits n (es ++ fs)

namespace Emits

variable {n : Node} {es fs : List (Node × Report)}

theorem append (h : n.Emits es) (h' : n.Emits fs) : n.Emits (es ++ fs) := by
  induction h with
  | nil => exact h'
  | own message code _ ih => exact .own message code (ih h')
  | child below depth whole emits _ _ ih =>
    rw [List.append_assoc]
    exact .child below depth whole emits (ih h')

theorem mem (h : n.Emits es) : ∀ e ∈ es, e.1 ∈ n.preorder ∧ e.2.node = e.1.mark.id := by
  induction h with
  | nil => simp
  | own message code _ ih => exact List.forall_mem_cons.mpr ⟨⟨mem_preorder_self _, rfl⟩, ih⟩
  | child below _ _ _ _ ih ih' =>
    refine List.forall_mem_append.mpr ⟨fun e he => ⟨?_, (ih e he).2⟩, ih'⟩
    exact mem_preorder_of_mem_descendants (descendants_trans below (ih e he).1)

end Emits

def Gives (n : Node) (reports : List Report) : Prop :=
  ∃ es : List (Node × Report), es.map Prod.snd = reports ∧ n.Emits es

namespace Gives

variable {n : Node} {rs ts : List Report}

theorem nil : n.Gives [] := ⟨[], rfl, .nil n⟩

theorem own {message code : String} (h : n.Gives rs) :
    n.Gives (n.mark.report message code :: rs) := by
  obtain ⟨es, rfl, h⟩ := h
  exact ⟨_, rfl, .own message code h⟩

theorem one {message code : String} : n.Gives [n.mark.report message code] := nil.own

theorem append (h : n.Gives rs) (h' : n.Gives ts) : n.Gives (rs ++ ts) := by
  obtain ⟨es, rfl, h⟩ := h
  obtain ⟨fs, rfl, h'⟩ := h'
  exact ⟨es ++ fs, List.map_append, h.append h'⟩

theorem ite {p : Prop} [Decidable p] (h : n.Gives rs) (h' : n.Gives ts) :
    n.Gives (if p then rs else ts) := by
  split
  · exact h
  · exact h'

theorem child {m : Node} {depth : Int} (below : m ∈ n.descendants)
    (h : m.Gives (m.reports depth)) : n.Gives (m.reports depth) := by
  obtain ⟨es, whole, h⟩ := h
  exact ⟨es ++ [], by rw [List.append_nil, whole], .child below depth whole h (.nil n)⟩

theorem joinReports {message code : String} {parts : List (List Report)}
    (h : ∀ part ∈ parts, n.Gives part) :
    n.Gives (joinReports (n.mark.report message code) parts) := by
  induction parts with
  | nil => exact nil
  | cons part parts ih =>
    obtain ⟨head, tail⟩ := List.forall_mem_cons.mp h
    cases parts with
    | nil => exact head
    | cons next parts => exact head.append (ih tail).own

theorem coerceParts {coerced : List Nat} {i : Nat} {parts : List (List Report)}
    (h : ∀ part ∈ parts, n.Gives part) :
    ∀ part ∈ coerceParts n.mark coerced i parts, n.Gives part := by
  induction parts generalizing i with
  | nil => simp [Treewright.coerceParts]
  | cons part parts ih =>
    obtain ⟨head, tail⟩ := List.forall_mem_cons.mp h
    exact List.forall_mem_cons.mpr ⟨.ite head.own head, ih tail⟩

theorem flatten {parts : List (List Report)} (h : ∀ part ∈ parts, n.Gives part) :
    n.Gives parts.flatten := by
  induction parts with
  | nil => exact nil
  | cons part parts ih =>
    obtain ⟨head, tail⟩ := List.forall_mem_cons.mp h
    exact head.append (ih tail)

theorem nested {empty : Bool} (h : n.Gives rs) : n.Gives (nested n.mark empty rs) :=
  .ite .nil (h.append .one)

theorem all {ns : List Node} {depth : Int} (h : ∀ m ∈ ns, n.Gives (m.reports depth)) :
    ∀ part ∈ reportsAll depth ns, n.Gives part := by
  rw [reportsAll_eq_map]
  exact List.forall_mem_map.mpr h

theorem option {o : Option Node} {depth : Int} (h : ∀ m ∈ o, n.Gives (m.reports depth)) :
    n.Gives (optionReports depth o) := by
  cases o with
  | none => exact nil
  | some m => exact h m rfl

end Gives

theorem mem_argumentReports {args : Node} {part : List Report} (h : part ∈ argumentReports args) :
    ∃ m ∈ args.edges, part = m.reports 0 := by
  obtain ⟨mark, form⟩ := args
  cases form with
  | arguments | block =>
    rw [argumentReports, reportsAll_eq_map] at h
    obtain ⟨m, hm, rfl⟩ := List.mem_map.mp h
    exact ⟨m, hm, rfl⟩
  | _ => cases h

theorem gives_reports (n : Node) (depth : Int) : n.Gives (n.reports depth) := by
  induction n using descendants_induction generalizing depth with
  | step n ih =>
    have child : ∀ m ∈ n.edges, ∀ depth, n.Gives (m.reports depth) := fun m hm depth =>
      .child (mem_descendants_of_mem_edges hm) (ih m (mem_descendants_of_mem_edges hm) depth)
    obtain ⟨mark, form⟩ := n
    cases form with
    | bare | nop => exact .nil
    | constant | «variable» | arrayDecl | signature => exact .one
    | binding type name value failed =>
      have given : Gives _ (optionReports 0 value) :=
        .option fun m hm => child m (Option.mem_toList.mpr hm) 0
      exact .append (.append (.own (.ite .one .nil)) given) .one
    | declaration type kind symbolType bindings =>
      exact .joinReports (.all fun m hm => child m hm _)
    | operation style op operands expected result coerced failed =>
      have parts : ∀ part ∈ coerceParts mark coerced 0 (reportsAll 0 operands), Gives _ part :=
        Gives.coerceParts (.all fun m hm => child m hm 0)
      rw [reports]
      exact .ite (.append (.own (.flatten parts)) .one) (.append (.own (.joinReports parts)) .one)
    | assignment target value coerced failed =>
      have left := child target (List.mem_cons_self ..) 0
      have right := child value (by simp [edges, Node.form, Form.edges]) 0
      exact .append (.append (.own left) (.own right)) .one
    | block title lines =>
      rw [reports, lineReports_eq_map]
      refine .joinReports (List.forall_mem_map.mpr fun m hm => child m ?_ _)
      exact (List.mem_filter.mp hm).1
    | conditional condition accepted rejected failed =>
      have test := child condition (List.mem_cons_self ..) 0
      have first := child accepted (by simp [edges, Node.form, Form.edges]) (depth + 1)
      have second : Gives _ (optionReports (depth + 1) rejected) :=
        .option fun m hm => child m (by simp_all [edges, Node.form, Form.edges]) _
      exact .append (.append (.append (.own (.ite test (.append (.own test) .one)))
        (.own (.nested first))) (.ite (.own (.nested second)) .nil)) .one
    | loop init test update body failed =>
      have inside := child body (by simp [edges, Node.form, Form.edges]) (depth + 1)
      exact .append (.own (.nested inside)) .one
    | function returns name params body failed =>
      have signature : Gives _ (optionReports 0 params) :=
        .option fun m hm => child m (by simp_all [edges, Node.form, Form.edges]) _
      have inside : Gives _ (optionReports (depth + 1) body) :=
        .option fun m hm => child m (by simp_all [edges, Node.form, Form.edges]) _
      exact .append (.own signature) (.ite (.append (.own (.nested inside)) .one) .one)
    | ret operand =>
      have given : Gives _ (optionReports 0 operand) :=
        .option fun m hm => child m (Option.mem_toList.mpr hm) 0
      exact .ite (.append (.own given) .one) .one
    | arguments items =>
      refine .joinReports ?_
      cases items with
      | nil => simp [itemReports]
      | cons m ms =>
        refine List.forall_mem_cons.mpr ⟨child m (List.mem_cons_self ..) depth, ?_⟩
        exact .all fun k hk => child k (List.mem_cons_of_mem _ hk) 0
    | call name args type coerced failed =>
      -- The arguments are rendered by the call; the node that holds them emits nothing.
      have parts : ∀ part ∈ argumentReports args,
          Gives (.mk mark (.call name args type coerced failed)) part := by
        intro part hp
        obtain ⟨m, hm, rfl⟩ := mem_argumentReports hp
        have held : args ∈ (mk mark (.call name args type coerced failed)).descendants :=
          mem_descendants_of_mem_edges (List.mem_singleton_self args)
        have below := descendants_trans held
          (mem_preorder_of_mem_descendants (mem_descendants_of_mem_edges hm))
        exact .child below (ih m below 0)
      exact .append (.own (.joinReports (.coerceParts parts))) .one
    | access name index type failed =>
      exact .append (.own (child index (List.mem_cons_self ..) 0)) .one
    | wrapper wrap target type failed => exact .own (child target (List.mem_cons_self ..) 0)

def Spoiled (n : Node) : Prop := ∀ m ∈ n.edges, m.error = true → n.error = true

namespace Spoiled

variable {c : Context}

theorem made {action : Action} {ns : List Node} {trace : List Event}
    (h : Accounts (action.made ns c).1 ns trace) : (action.made ns c).1.Spoiled := by
  intro m hm he
  refine h.error.mpr (.inl ?_)
  rcases mem_edges_made hm with hm | rfl
  · exact ⟨m, hm, he⟩
  · exact anyError_iff.mp he

theorem bound {type : Ty} {name : Name} {value : Option Node}
    (clean : ∀ n ∈ value, n.operand.Clean) : (boundNode type name value c).1.Spoiled := by
  intro m hm he
  cases value with
  | none => cases hm
  | some v =>
    obtain rfl := List.mem_singleton.mp hm
    have failed := (accounts_checkInitial (clean m rfl) type).mpr (.inl he)
    change (!(c.declare name type c.line).1 || (checkInitial type m.operand).failed) = true
    rw [failed, Bool.or_true]

theorem conditional {n b : Node} {r : Option Node} (clean : n.operand.Clean) :
    (conditionalNode n b r c).1.Spoiled := by
  intro m hm he
  change m ∈ n :: b :: r.toList at hm
  change ((checkTest n.operand).failed || b.error || optionError r) = true
  simp only [List.mem_cons, Option.mem_toList] at hm
  rcases hm with rfl | rfl | hm
  · simp [(accounts_checkTest clean).mpr (.inl he)]
  · simp [he]
  · simp [hm, optionError, he]

theorem loop {i u : Option Node} {n b : Node} : (loopNode i n u b c).1.Spoiled := by
  intro m hm he
  change m ∈ i.toList ++ n :: (u.toList ++ [b]) at hm
  change ((checkTest n.operand).failed || optionError i || n.error || optionError u || b.error) =
    true
  simp only [List.mem_append, List.mem_cons, Option.mem_toList, List.not_mem_nil, or_false] at hm
  rcases hm with hm | rfl | hm | rfl
  · simp [hm, optionError, he]
  · simp [he]
  · simp [hm, optionError, he]
  · simp [he]

theorem function {line : Int} {returns : Ty} {name : Name} {params : List (Ty × Name)}
    {rejected : Bool} {b : Option Node} :
    (functionNode line returns name params rejected b).Spoiled := by
  intro m hm he
  rw [error_functionNode]
  change m ∈ .mk {} (.signature (signatureOf params)) :: b.toList at hm
  simp only [List.mem_cons, Option.mem_toList] at hm
  rcases hm with rfl | hm
  · cases he
  · simp [hm, optionError, he]

end Spoiled

theorem failed_of_child {n : Node} (h : n.Every Spoiled) :
    ∀ row ∈ Outline.preorderAll (n.edges.map outline), ∀ child ∈ row.children,
      child.failed = true → row.failed = true := by
  intro row hr child hc he
  rw [preorderAll_outlines] at hr
  obtain ⟨m, hm, rfl⟩ := List.mem_map.mp hr
  rw [children_outline] at hc
  obtain ⟨k, hk, rfl⟩ := List.mem_map.mp hc
  rw [failed_outline] at he ⊢
  exact h.of_mem_preorder m (mem_preorder_of_mem_descendants hm) k hk he

end Node

theorem invariant_spoiled : Invariant (fun c => c.table.Sound)
    (Node.Every fun n => n.operand.Clean ∧ n.Spoiled) where
  advance h _ := h
  enter h name := h.enter name
  leave h hl := h.leave hl
  param {c} h name _ ht := steps_sound.declare c name c.line (.plain ht) h
  declareFunction {c} h name _ _ hp hr := steps_sound.declareFunction c name c.line hp hr h
  define h _ _ hd := steps_sound.define hd h
  made {action items} ho proper ns hl hn c h := by
    have accounts := accounts_made ho hl proper h fun n hm => (hn n hm).here.1
    have arguments : Node.Spoiled (.mk {} (.arguments ns)) := fun m hm he =>
      anyError_iff.mpr ⟨m, hm, he⟩
    exact ⟨.made ⟨accounts.clean, .made accounts⟩ ⟨.of_isWritten rfl _, arguments⟩ hn,
      steps_sound.made action proper ns c h⟩
  bound {type} ht name value hv c h :=
    ⟨.bound ⟨.of_isWritten ht _, .bound fun n hn => (hv n hn).here.1⟩ hv,
      steps_sound.declare c name c.line (.plain ht) h⟩
  declaration ht _ _ _ hn _ :=
    .intro ⟨.of_isWritten ht _, fun m hm he => anyError_iff.mpr ⟨m, hm, he⟩⟩ hn
  block _ _ hn := .intro ⟨.of_isWritten rfl _, fun m hm he => anyError_iff.mpr ⟨m, hm, he⟩⟩ hn
  conditional hn hb _ hr _ h :=
    ⟨.conditional ⟨.of_isWritten rfl _, .conditional hn.here.1⟩ hn hb hr, h⟩
  loop hi _ hn hu _ hb _ h := ⟨.loop ⟨.of_isWritten rfl _, .loop⟩ hi hn hu hb, h⟩
  function hr _ _ _ _ hb _ :=
    .function ⟨.of_isWritten hr _, .function⟩ ⟨.of_isWritten rfl _, fun _ hm => by cases hm⟩ hb
  nop := .intro ⟨.of_isWritten rfl _, fun _ hm => by cases hm⟩ fun _ hm => by cases hm

theorem Session.tree_numbered (s : Session) (ids : Nat → Int) :
    (s.numbered ids).tree = (Node.numbered ids 0 s.tree).1 :=
  rfl

/-- The nodes of a program that is built without a fault can be rendered, and a failure below one
spoils it. -/
theorem Session.sound_of_built {s s₁ s₂ : Session} {program : Value} {name : String}
    (begun : s.begin program name = (.ok (), s₁)) (built : s₁.finishBuilding = (.ok (), s₂)) :
    s₂.tree.fault? = none ∧ s₂.tree.Every Node.Spoiled := by
  obtain ⟨actions, nodes, d, read, -, exec, rfl⟩ := Session.built_ok begun built
  have proper := Action.wellFormed_sequence read
  obtain ⟨trace, run⟩ := runs_all (fun a ha => (proper a ha).runs) _ nodes d exec
  have below := (invariant_spoiled.actions proper .empty).2 nodes d exec
  refine ⟨Node.lineFault?_eq_none run.renders, .intro (fun m hm he => ?_) fun m hm => ?_⟩
  · exact anyError_iff.mpr ⟨m, hm, he⟩
  · exact (below m hm).imp fun _ h => h.2

/-- A tree is shown for the nodes that were built, which have got ids, so that a report leads from
its id to a row. -/
structure ShownTree.Tracks (t : ShownTree) (tree root : Node) : Prop where
  numbered : root = (Node.numbered t.ids 0 tree).1
  /-- There is a row for each node that was built, with or without its id. -/
  built : List.Forall₂ Outline.Shows t.lines tree.edges
  shows : List.Forall₂ Outline.Shows t.lines root.edges
  rows : Outline.preorderAll t.lines = root.descendants.map Node.outline
  /-- A failed row is below a failed one, or below the title. -/
  failures : ∀ row ∈ Outline.preorderAll t.lines, ∀ child ∈ row.children,
    child.failed = true → row.failed = true
  ids : root.preorder.map (·.mark.id) = Node.idsFrom t.ids 0 root.preorder.length
  distinct : (root.preorder.map (·.mark.id)).Nodup
  /-- The program is rendered, and each report has the id of the node that emits it, which is that
  of the title if the node is the root and else that of the row of the node. -/
  emitters : ∀ depth, ∃ es, root.Emits es ∧ root.renderReports depth = .ok (es.map Prod.snd) ∧
    ∀ e ∈ es, ∃ k : Nat, e.2.node = some (t.ids k) ∧ e.1.mark.id = some (t.ids k) ∧
      root.preorder[k]? = some e.1 ∧
      ∀ j, k = j + 1 → (Outline.preorderAll t.lines)[j]? = some e.1.outline

/-- When a program was begun and built without a fault, and the tree never gives an id twice, the
tree that is shown of it keeps track of its rendering: the cursor is always led to the node that
emits the report. -/
theorem cursor_follows_emitter {ε : Type} [Editor ε] {s s₁ s₂ : Session} {program : Value}
    {name : String} (begun : s.begin program name = (.ok (), s₁))
    (built : s₁.finishBuilding = (.ok (), s₂)) (i : Inspection ε) (ended : i.session = s₂)
    (fresh : Function.Injective i.tree.ids) :
    i.showBuild.tree.Tracks s₂.tree i.showBuild.session.tree := by
  obtain ⟨renders, spoiled⟩ := Session.sound_of_built begun built
  generalize hroot : i.showBuild.session.tree = root
  have numbered : root = (Node.numbered i.tree.ids 0 s₂.tree).1 := by
    rw [← hroot, ← ended, ← Session.tree_finish i.session, ← Session.tree_numbered]
    rfl
  have lines : i.showBuild.tree.lines = root.edges.map Node.outline := by
    rw [← hroot]
    rfl
  have outlines : root.edges.map Node.outline = s₂.tree.edges.map Node.outline := by
    rw [← Node.children_outline, numbered, Node.outline_numbered, Node.children_outline]
  have shows (n : Node) : List.Forall₂ Outline.Shows (n.edges.map Node.outline) n.edges :=
    List.forall₂_map_left_iff.mpr (List.forall₂_same.mpr fun m _ => m.shows_outline)
  have rows : Outline.preorderAll i.showBuild.tree.lines = root.descendants.map Node.outline := by
    rw [lines, Node.preorderAll_outlines]
  have ids : root.preorder.map (·.mark.id) = Node.idsFrom i.tree.ids 0 root.preorder.length := by
    rw [numbered]
    exact Node.ids_numbered s₂.tree
  refine
    { numbered, rows, ids
      built := by rw [lines, outlines]; exact shows s₂.tree
      shows := by rw [lines]; exact shows root
      failures := by rw [lines, outlines]; exact Node.failed_of_child spoiled
      distinct := by rw [ids]; exact Node.nodup_idsFrom fresh _ _
      emitters := fun depth => ?_ }
  have given : root.Gives (root.mark.report "Starting code generation." "" ::
      root.reports depth) := .own (root.gives_reports depth)
  obtain ⟨es, reports, emits⟩ := given
  refine ⟨es, emits, ?_, fun e he => ?_⟩
  · rw [Node.renderReports, numbered, Node.fault?_numbered, renders, ← numbered, reports]
  · obtain ⟨mem, number⟩ := emits.mem e he
    obtain ⟨k, id, place⟩ := Node.exists_place ids mem
    refine ⟨k, number.trans id, id, place, ?_⟩
    rintro j rfl
    rw [Node.preorder_eq, List.getElem?_cons_succ] at place
    rw [rows, List.getElem?_map, place, Option.map_some]

def unknownInside : Value :=
  .list [.object [("node", .string "if"),
    ("condition", .object [("node", .string "var"), ("name", .string "x")]),
    ("then", .list [.object [("node", .string "call"), ("name", .string "g"),
      ("args", .list [.object [("node", .string "const"), ("type", .string "int"),
        ("value", .string "1")]])]])]]

/-- The failures reach up from the name and from the call, and the cursor goes from the condition
over the name to the call and to its argument. -/
theorem cursor_follows_emitter_unknown :
    let s := (Session.new {}).begin unknownInside "main"
    let i : Inspection String :=
      { session := s.2.finishBuilding.2, panel := "", tree := { ids := fun k => 2 * k + 7 } }
    s.1 = .ok () ∧ s.2.finishBuilding.1 = .ok () ∧
      (Outline.preorderAll i.showBuild.tree.lines).map (fun row => (row.label, row.failed)) =
        [("If Statement (error)", true), ("Identifier: x : any (error)", true),
          ("Then Branch", true), ("Function Call: g : any (error)", true), ("Argument", false),
          ("LITERAL : 1 : int", false)] ∧
      (i.showBuild.session.tree.renderReports 0).toOption.map (·.map (·.node)) =
        some ([7, 9, 9, 11, 9, 9, 15, 19, 15, 9, 9].map some) ∧
      i.showBuild.tree.Tracks i.session.tree i.showBuild.session.tree := by
  intro s i
  obtain ⟨begun, built, rows, nodes⟩ : s.1 = .ok () ∧ s.2.finishBuilding.1 = .ok () ∧
      (Outline.preorderAll i.showBuild.tree.lines).map (fun row => (row.label, row.failed)) =
        [("If Statement (error)", true), ("Identifier: x : any (error)", true),
          ("Then Branch", true), ("Function Call: g : any (error)", true), ("Argument", false),
          ("LITERAL : 1 : int", false)] ∧
      (i.showBuild.session.tree.renderReports 0).toOption.map (·.map (·.node)) =
        some ([7, 9, 9, 11, 9, 9, 15, 19, 15, 9, 9].map some) := by decide +kernel
  have fresh : Function.Injective i.tree.ids := by
    intro k l same
    change (2 * k + 7 : Int) = 2 * l + 7 at same
    omega
  exact ⟨begun, built, rows, nodes,
    cursor_follows_emitter (Prod.ext begun rfl) (Prod.ext built rfl) i rfl fresh⟩

end Treewright
