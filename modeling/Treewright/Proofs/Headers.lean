import Treewright.Proofs.Format
import Treewright.Proofs.Grammar
import Treewright.Proofs.Nesting
set_option autoImplicit false

namespace Treewright

open Build

/-- A binding of an action, and the node that stands for it. -/
inductive Realizes (type : Ty) : Name × Option Action → Node → Prop where
  | intro {mark : Mark} {name : Name} {value : Option Action} {given : Option Node} {failed : Bool}
      (same : given.isSome = value.isSome) :
      Realizes type (name, value) (.mk mark (.binding type name given failed))

/-- What stands in a header for an action and the node that was built for it. -/
inductive HeaderPart : Option Action → Option Node → List Char → Prop where
  | absent : HeaderPart none none []
  | lined {action : Action} {n : Option Node} {s : List Char} (line : Int)
      (h : HeaderPart (some action) n s) : HeaderPart (some (.lined line action)) n s
  | nop (n : Node) : HeaderPart (some .nop) (some n) []
  | expression {action : Action} (n : Node) (kind : action.kind.isExpression = true) :
      HeaderPart (some action) (some n) (n.text 0).toList
  | statement {action : Action} {n : Node} {s : List Char}
      (kind : action.kind = .assign ∨ action.kind = .arrayDecl)
      (text : (n.text 0).toList = s ++ [';']) : HeaderPart (some action) (some n) s
  | declaration {mark : Mark} {type : Ty} {kind symbolType : String}
      {items : List (Name × Option Action)} {ns : List Node} (declares : items ≠ [])
      (bound : List.Forall₂ (Realizes type) items ns) :
      HeaderPart (some (.declaration type kind symbolType items))
        (some (.mk mark (.declaration type kind symbolType ns)))
        ((type.spelling ++ " ").toList ++ ", ".toList.intercalate (ns.map Node.boundText))
  | undeclared (type : Ty) (kind symbolType : String) (n : Node) :
      HeaderPart (some (.declaration type kind symbolType [])) (some n) []

def headerLine (init test update : List Char) : List Char :=
  "for (".toList ++
    (init ++ ("; ".toList ++ (test ++ ("; ".toList ++ (update ++ ") \x7b".toList)))))

def isClause (s : String) : Bool := s.toList.all isInner

def Fabric.clauses : Fabric := .ofClass isInner (fun _ h => h) true

theorem takes_isClause : Fabric.clauses.Takes isClause := fun _ h => ⟨h, .inl rfl⟩

theorem dropWhile_of_inner {s : List Char} (h : s.all isInner = true) :
    s.dropWhile (· = ';') = s := by
  cases s with
  | nil => rfl
  | cons c s =>
    rw [List.all_cons, Bool.and_eq_true] at h
    have other : c ≠ ';' := by
      rintro rfl
      cases h.1
    simp [other]

theorem dropSemicolons_of_inner {s : String} (h : s.toList.all isInner = true) :
    dropSemicolons s = s := by
  rw [dropSemicolons, dropWhile_of_inner (by rwa [List.all_reverse]), List.reverse_reverse,
    String.ofList_toList]

theorem toList_dropSemicolons_of_ended {s : String} {t : List Char}
    (h : s.toList = t ++ [';']) (ht : t.all isInner = true) : (dropSemicolons s).toList = t := by
  have rest : (';' :: t.reverse).dropWhile (· = ';') = t.reverse := by
    rw [List.dropWhile_cons_of_pos (by decide)]
    exact dropWhile_of_inner (by rwa [List.all_reverse])
  rw [dropSemicolons, h, List.reverse_append, String.toList_ofList]
  change ((';' :: t.reverse).dropWhile (· = ';')).reverse = t
  rw [rest, List.reverse_reverse]

namespace Node

theorem toList_headerText_bindings {mark : Mark} {type : Ty} {kind symbolType : String} {n : Node}
    {ns : List Node} (h : ∀ m ∈ n :: ns, m.Binding isClause type)
    (written : type.isWritten = true) :
    (headerText (some (.mk mark (.declaration type kind symbolType (n :: ns))))).toList =
      (type.spelling ++ " ").toList ++ ", ".toList.intercalate ((n :: ns).map boundText) := by
  have front : Fabric.clauses.Within (type.spelling ++ " ").toList := by
    rw [String.toList_append]
    exact Fabric.append _ (Fabric.within _ (Fabric.spelling _ written)) rfl
  have cut {m : Node} (hm : m.Binding isClause type) :
      (dropSemicolons (m.text 0)).toList = (type.spelling ++ " ").toList ++ m.boundText := by
    refine toList_dropSemicolons_of_ended ?_ (Fabric.append _ front (hm.within takes_isClause))
    rw [hm.toList_text, List.append_assoc (type.spelling ++ " ").toList]
    rfl
  obtain ⟨first, others⟩ := List.forall_mem_cons.mp h
  have rest : ((ns.map (·.text 0)).map fun t =>
      (dropFront (type.spelling ++ " ") (dropSemicolons t)).toList) = ns.map boundText := by
    rw [List.map_map]
    exact List.map_congr_left fun m hm => toList_dropFront (cut (others m hm))
  rw [headerText_declaration, List.map_cons, toList_joinBindings, cut first, rest,
    intercalate_append_cons, List.map_cons]

end Node

theorem realizes_of_run {type : Ty} {items : List (Name × Option Action)} {c d : Context}
    {t : List Event} {ns : List Node} (run : Run (.bindings type items) c t ns d) :
    List.Forall₂ (Realizes type) items ns := by
  induction items generalizing c t ns with
  | nil =>
    cases run
    exact .nil
  | cons b items ih =>
    cases run with
    | @binding _ name value _ vs _ n _ _ _ _ _ _ _ given bound others =>
      have hl := length_of_exec_buildAll (exec_of_run given)
      cases bound
      refine .cons (.intro ?_) (ih others)
      cases value <;> cases vs <;> simp_all

/-- What stands in a header for a part of it has no semicolon of its own, and no line end. -/
structure Cut (part : Option Action) (n : Option Node) : Prop where
  stands : HeaderPart part n (Node.headerText n).toList
  inner : (Node.headerText n).toList.all isInner = true

namespace Cut

variable {action : Action} {n : Node}

theorem of_expression (kind : action.kind.isExpression = true) (h : n.Expression isClause) :
    Cut (some action) (some n) := by
  have plain := (h.flat takes_isClause).row.1
  have text : (Node.headerText (some n)).toList = (n.text 0).toList := by
    rw [Node.headerText_some h.isDeclaration, dropSemicolons_of_inner plain]
  constructor
  · rw [text]
    exact .expression n kind
  · rw [text, plain]

theorem of_ended (kind : action.kind = .assign ∨ action.kind = .arrayDecl)
    (hd : n.isDeclaration = false) (h : n.Ended .clauses) : Cut (some action) (some n) := by
  obtain ⟨s, ⟨plain, -⟩, text⟩ := h
  have here : (n.text 0).toList = s ++ [';'] := text 0
  have cut : (Node.headerText (some n)).toList = s := by
    rw [Node.headerText_some hd]
    exact toList_dropSemicolons_of_ended here plain
  constructor
  · rw [cut]
    exact .statement kind here
  · rw [cut, plain]

theorem of_nop (mark : Mark) : Cut (some .nop) (some (.mk mark .nop)) := by
  have text : Node.headerText (some (.mk mark .nop)) = "" := by
    rw [Node.headerText_some rfl]
    exact dropSemicolons_of_inner rfl
  constructor
  · rw [text]
    exact .nop _
  · rw [text]
    rfl

theorem of_declaration {mark : Mark} {type : Ty} {kind symbolType : String}
    {items : List (Name × Option Action)} {ns : List Node} (written : type.isWritten = true)
    (bound : List.Forall₂ (Realizes type) items ns) (h : ∀ n ∈ ns, n.Binding isClause type) :
    Cut (some (.declaration type kind symbolType items))
      (some (.mk mark (.declaration type kind symbolType ns))) := by
  cases bound with
  | nil => exact ⟨.undeclared .., rfl⟩
  | @cons b n items ns hb hbs =>
    have text : (Node.headerText (some (.mk mark
        (.declaration type kind symbolType (n :: ns))))).toList = _ :=
      Node.toList_headerText_bindings h written
    constructor
    · rw [text]
      exact .declaration (by simp) (.cons hb hbs)
    · rw [text, String.toList_append]
      have spelled := Fabric.clauses.within (Fabric.spelling _ written)
      refine Fabric.clauses.append (Fabric.append _ spelled rfl) (Fabric.intercalate _ rfl ?_)
      exact List.forall_mem_map.mpr fun m hm => (h m hm).within takes_isClause

theorem of_made {items : List Action} {nodes : List Node}
    (stays : action.kind.staysInHeader = true) (ho : action.operands? = some items)
    (hl : nodes.length = items.length) (proper : action.Proper)
    (own : ∀ s ∈ action.spellings, isClause s = true) (h : ∀ n ∈ nodes, n.Expression isClause)
    (c : Context) : Cut (some action) (some (action.made nodes c).1) := by
  cases hk : action.kind.isExpression with
  | true => exact of_expression hk (expression_made ho hl hk proper own h c)
  | false =>
    cases action <;> simp only [Action.operands?, reduceCtorEq, Option.some.injEq] at ho
    case arrayDecl type name size =>
      simp only [Action.spellings, List.forall_mem_cons] at own
      exact of_ended (.inr rfl) rfl (.arrayDecl takes_isClause proper own.1 own.2.1)
    case assign =>
      subst ho
      obtain ⟨target, value, rfl⟩ := List.length_eq_two.mp hl
      exact of_ended (.inl rfl) rfl
        (.assignment takes_isClause (h target (by simp)) (h value (by simp)))
    case nop => exact .of_nop _
    case ret => cases stays
    all_goals cases hk

end Cut

theorem Action.Fits.cut {action : Action} (h : action.Fits layout .header)
    (spelled : action.Spells isClause) {c d : Context} {t : List Event} {n : Node}
    (run : Run (.one action) c t [n] d) : Cut (some action) (some n) := by
  generalize hp : Position.header = position at h
  induction h generalizing c t with
  | lined line _ ih =>
    cases run with
    | check operands _ _ => cases operands
    | lined inner =>
      obtain ⟨stands, plain⟩ := ih (spelled.inside _ (List.mem_singleton_self _)) inner hp
      exact ⟨.lined line stands, plain⟩
  | @intro position action unlined here proper inside ih =>
    subst hp
    have own := spelled.own
    have placed : ∀ part ∈ action.parts, part.2.Places isClause part.1 := fun part hp =>
      (inside part hp).places (spelled.inside part hp)
    cases run with
    | lined _ => cases unlined
    | check operands _ inner =>
      have values := inner.forall_nodes fun a ha => placed _ (mem_parts_of_operands? operands ha)
      exact .of_made here operands (length_of_exec_buildAll (exec_of_run inner)) proper own values _
    | declaration _ inner =>
      refine .of_declaration proper (realizes_of_run inner) ?_
      refine places_bindings (fun b hb => own _ (List.mem_map_of_mem hb)) (fun b hb a ha => ?_)
        inner
      exact placed (.expression, a) (List.mem_flatMap.mpr ⟨b, hb, List.mem_map_of_mem ha⟩)
    | @sizedArray type name size text m n _ _ _ _ _ inner render made =>
      have value : m.Expression isClause :=
        placed (.size, size) (List.mem_singleton_self _) _ _ _ _ inner
      have word := own name.written (List.mem_singleton_self _)
      cases made
      rw [Node.text_of_render render]
      exact .of_ended (.inr rfl) rfl
        (.arrayDecl takes_isClause proper word (value.flat takes_isClause).row.1)
    | _ => cases here

theorem cut_option {part : Option Action} (h : ∀ a ∈ part.toList, a.Fits layout .header)
    (spelled : ∀ a ∈ part.toList, a.Spells isClause) {c d : Context} {t : List Event}
    {ns : List Node} (run : Run (.all part.toList) c t ns d) : Cut part ns.head? := by
  cases part with
  | none =>
    cases run
    exact ⟨.absent, rfl⟩
  | some a =>
    cases run with
    | cons head tail => exact (h a (by simp)).cut (spelled a (by simp)) head

theorem count_headerLine {init test update : List Char} (hi : init.all isInner = true)
    (ht : test.all isInner = true) (hu : update.all isInner = true) :
    (headerLine init test update).count ';' = 2 ∧ '\n' ∉ headerLine init test update := by
  have without {s : List Char} (h : s.all isInner = true) : ';' ∉ s ∧ '\n' ∉ s :=
    ⟨fun hc => absurd (List.all_eq_true.mp h _ hc) (by decide),
      fun hc => absurd (List.all_eq_true.mp h _ hc) (by decide)⟩
  unfold headerLine
  constructor
  · simp [List.count_append, List.count_eq_zero.mpr (without hi).1,
      List.count_eq_zero.mpr (without ht).1, List.count_eq_zero.mpr (without hu).1]
  · simp [(without hi).2, (without ht).2, (without hu).2]

/-- A loop with a value for its test, parts that stay in its header, and no semicolon and no line
end in what it spells out is built from any context. At every depth its first line is the header
over what its parts say, which holds two semicolons. -/
theorem loop_opens_with_header {position : Position} {init update : Option Action} {test : Action}
    {body : List Action} (fits : (Action.loop init test update body).Fits layout position)
    (spelled : (Action.loop init test update body).Spells isClause) (c : Context) :
    ∃ n d i t u c₁ c₂ c₃,
      exec (build (.loop init test update body)) c = (.ok n, d) ∧
      exec (buildOption init) (c.enter .nothing) = (.ok i, c₁) ∧
      exec (build test) c₁ = (.ok t, c₂) ∧ exec (buildOption update) c₂ = (.ok u, c₃) ∧
      ∃ first next header, HeaderPart init i first ∧ HeaderPart update u next ∧
        header = headerLine first (t.text 0).toList next ∧ header.count ';' = 2 ∧ '\n' ∉ header ∧
        ∀ depth, ∃ code rest, n.render depth = .ok code ∧
          code.toList = (indentation depth).toList ++ (header ++ '\n' :: rest) := by
  obtain ⟨trace, n, d, run⟩ := (fits.imp layout_flawless fun _ _ => layout_flawless).total c
  have built : exec (build (.loop init test update body)) c = (.ok n, d) :=
    exec_one_node.mp (exec_of_run run)
  have renders : n.fault? = none := run.renders n (by simp)
  have inside : ∀ part ∈ (Action.loop init test update body).parts, part.2.Fits layout part.1 := by
    cases fits with
    | intro _ _ _ inside => exact inside
  cases run with
  | check operands _ _ => cases operands
  | @loop _ _ _ _ m b _ is us _ _ _ _ _ _ _ _ _ _ _ start condition step lines _ made =>
    have value : m.Expression isClause :=
      (inside (.expression, test) (by simp [Action.parts])).places
        (spelled.inside (.expression, test) (by simp [Action.parts])) _ _ _ _ condition
    have plain := (value.flat takes_isClause).row.1
    have held : ∀ a ∈ init.toList ++ update.toList, a.Fits layout .header ∧ a.Spells isClause :=
      fun a ha => ⟨inside _ (Action.mem_parts_header ha),
        spelled.inside _ (Action.mem_parts_header ha)⟩
    have first := cut_option (fun a ha => (held a (List.mem_append_left _ ha)).1)
      (fun a ha => (held a (List.mem_append_left _ ha)).2) start
    have next := cut_option (fun a ha => (held a (List.mem_append_right _ ha)).1)
      (fun a ha => (held a (List.mem_append_right _ ha)).2) step
    have parts {item : Option Action} {c d : Context} {t : List Event} {ns : List Node}
        (h : Run (.all item.toList) c t ns d) : exec (buildOption item) c = (.ok ns.head?, d) := by
      have hx := exec_of_run h
      rw [exec_buildOption_ok, toList_head?_of_exec hx]
      exact hx
    obtain ⟨count, unbroken⟩ := count_headerLine first.inner plain next.inner
    refine ⟨n, d, is.head?, m, us.head?, _, _, _, built, parts start,
      exec_one_node.mp (exec_of_run condition), parts step, _, _, _, first.stands, next.stands, rfl,
      count, unbroken, fun depth => ⟨n.text depth, Node.nestedText (depth + 1) b ++
        (indentation depth ++ "\x7d").toList, by rw [Node.render, renders], ?_⟩⟩
    cases made
    refine (Node.toList_text_loop ..).trans ?_
    unfold headerLine
    simp [Node.seen]

def counting : Value :=
  let i := Value.object [("node", .string "var"), ("name", .string "i")]
  let n := Value.object [("node", .string "var"), ("name", .string "n")]
  let zero :=
    Value.object [("node", .string "const"), ("type", .string "int"), ("value", .string "0")]
  .object [("node", .string "for"),
    ("init", .object [("node", .string "declaration"), ("type", .string "int"),
      ("bindings", .list [.object [("name", .string "i"), ("init", zero)],
        .object [("name", .string "n")]])]),
    ("test", .object [("node", .string "op"), ("op", .string "<"), ("operands", .list [i, n])]),
    ("update", .object [("node", .string "assign"), ("target", i), ("value", n)]),
    ("body", .list [])]

theorem loop_opens_with_header_counting :
    ∃ init test update, Action.ofValue counting = .loop init test update [] ∧
      (Action.loop init test update []).Fits layout .item ∧
      (Action.loop init test update []).Spells isClause ∧
      (exec (build (.loop init test update [])) {}).1.toOption.map (·.text 0) =
        some "for (int i = 0, n; (i < n); i = n) \x7b\n\x7d" ∧
      ∃ n d i t u c₁ c₂ c₃,
        exec (build (.loop init test update [])) {} = (.ok n, d) ∧
        exec (buildOption init) (Context.enter {} .nothing) = (.ok i, c₁) ∧
        exec (build test) c₁ = (.ok t, c₂) ∧ exec (buildOption update) c₂ = (.ok u, c₃) ∧
        ∃ first next header, HeaderPart init i first ∧ HeaderPart update u next ∧
          header = headerLine first (t.text 0).toList next ∧ header.count ';' = 2 ∧ '\n' ∉ header ∧
          ∀ depth, ∃ code rest, n.render depth = .ok code ∧
            code.toList = (indentation depth).toList ++ (header ++ '\n' :: rest) := by
  obtain ⟨hconforms, hspells, text⟩ : counting.conforms layout 5 .item = true ∧
      (Action.ofValue counting).spells isClause 5 = true ∧
      (exec (build (.ofValue counting)) {}).1.toOption.map (·.text 0) =
        some "for (int i = 0, n; (i < n); i = n) \x7b\n\x7d" := by decide +kernel
  have fits : (Action.ofValue counting).Fits layout .item := (Conforms.of_check hconforms).fits rfl
  have spelled : (Action.ofValue counting).Spells isClause := .of_check hspells
  obtain ⟨init, test, update, read⟩ :
      ∃ init test update, Action.ofValue counting = .loop init test update [] := ⟨_, _, _, rfl⟩
  rw [read] at fits spelled text
  exact ⟨init, test, update, read, fits, spelled, text, loop_opens_with_header fits spelled {}⟩

end Treewright
