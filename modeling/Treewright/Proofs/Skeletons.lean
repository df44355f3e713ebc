import Treewright.Proofs.Expressions
import Treewright.Proofs.Format
import Treewright.Proofs.Sessions
import Treewright.Proofs.Simulation
set_option autoImplicit false

namespace Treewright

open Build

namespace Action

mutual
/-- An expression through and through, which moves to no line. -/
def plain : Action → Bool
  | .variable _ | .constant _ _ => true
  | .operation _ items | .call _ items => plainAll items
  | .paren a | .cast _ a | .access _ a | .address a | .reference a => a.plain
  | _ => false

def plainAll : List Action → Bool
  | [] => true
  | a :: as => a.plain && plainAll as
end

def blank : Action := .constant .int "0"

mutual
/-- The action with a blank for every expression. All else is kept, also the lines that are said
within an expression and the size of an array. -/
def skeleton (action : Action) : Action :=
  if action.plain then blank
  else match action with
    | .faulty before flaw => .faulty (skeletonAll before) flaw
    | .lined line action => .lined line action.skeleton
    | .declaration type kind symbolType bindings =>
      .declaration type kind symbolType (skeletonBindings bindings)
    | .operation op items => .operation op (skeletonAll items)
    | .paren operand => .paren operand.skeleton
    | .cast target operand => .cast target operand.skeleton
    | .assign target value => .assign target.skeleton value.skeleton
    | .block lines => .block (skeletonAll lines)
    | .conditional condition accepted rejected =>
      .conditional condition.skeleton (skeletonAll accepted) (skeletonLines rejected)
    | .loop init test update body =>
      .loop (skeletonOption init) test.skeleton (skeletonOption update) (skeletonAll body)
    | .function returns name params body => .function returns name params (skeletonLines body)
    | .ret operand => .ret (skeletonOption operand)
    | .call name args => .call name (skeletonAll args)
    | .access name index => .access name index.skeleton
    | .address operand => .address operand.skeleton
    | .reference operand => .reference operand.skeleton
    | other => other

def skeletonAll : List Action → List Action
  | [] => []
  | a :: as => a.skeleton :: skeletonAll as

def skeletonOption : Option Action → Option Action
  | none => none
  | some a => some a.skeleton

def skeletonLines : Option (List Action) → Option (List Action)
  | none => none
  | some lines => some (skeletonAll lines)

def skeletonBindings : List (Name × Option Action) → List (Name × Option Action)
  | [] => []
  | (name, value) :: rest => (name, skeletonOption value) :: skeletonBindings rest
end

theorem skeleton_of_plain {action : Action} (h : action.plain = true) :
    action.skeleton = blank := by
  rw [skeleton.eq_def, if_pos h]

theorem skeletonAll_eq (actions : List Action) : skeletonAll actions = actions.map skeleton := by
  induction actions with
  | nil => rfl
  | cons a as ih => rw [skeletonAll, ih, List.map_cons]

theorem skeletonOption_eq (action : Option Action) :
    skeletonOption action = action.map skeleton := by
  cases action <;> rfl

theorem skeletonLines_eq (lines : Option (List Action)) :
    skeletonLines lines = lines.map (·.map skeleton) := by
  cases lines with
  | none => rfl
  | some lines => rw [skeletonLines, skeletonAll_eq, Option.map_some]

theorem skeletonBindings_eq (bindings : List (Name × Option Action)) :
    skeletonBindings bindings = bindings.map fun b => (b.1, b.2.map skeleton) := by
  induction bindings with
  | nil => rfl
  | cons b bs ih => rw [skeletonBindings, ih, skeletonOption_eq, List.map_cons]

theorem plainAll_iff {actions : List Action} :
    plainAll actions = true ↔ ∀ a ∈ actions, a.plain = true := by
  induction actions with
  | nil => simp [plainAll]
  | cons a as ih => simp [plainAll, ih]

theorem isExpression_of_plain {action : Action} (h : action.plain = true) :
    action.kind.isExpression = true := by
  cases action <;> simp_all [plain, kind, Kind.isExpression]

theorem plain_of_operands? {action : Action} {items : List Action} (h : action.plain = true)
    (ho : action.operands? = some items) : ∀ a ∈ items, a.plain = true := by
  unfold operands? at ho
  split at ho <;> cases ho
  all_goals simp_all [plain, plainAll_iff]

theorem skeleton_eq_mapParts {action : Action} (h : ¬action.plain = true)
    (unsized : ∀ type name size, action ≠ .sizedArray type name size) :
    action.skeleton = action.mapParts skeleton := by
  rw [skeleton.eq_def, if_neg h]
  cases action
  case sizedArray type name size => exact absurd rfl (unsized type name size)
  all_goals
    simp only [mapParts, skeletonAll_eq, skeletonOption_eq, skeletonLines_eq, skeletonBindings_eq]

end Action

structure Context.Abreast (c c' : Context) : Prop where
  table : c.table = c'.table
  line : c.line = c'.line

namespace Context.Abreast

variable {c c' d : Context}

theorem symm (h : c.Abreast c') : c'.Abreast c := ⟨h.table.symm, h.line.symm⟩

theorem trans (h : c.Abreast c') (h' : c'.Abreast d) : c.Abreast d :=
  ⟨h.table.trans h'.table, h.line.trans h'.line⟩

theorem report (h : c.Abreast c') (problems problems' : List Problem) :
    (c.report problems).Abreast (c'.report problems') :=
  ⟨h.table, by simp [h.line]⟩

theorem withTable (h : c.Abreast c') (table : Table) :
    Abreast { c with table } { c' with table } :=
  ⟨rfl, h.line⟩

theorem advanceTo (h : c.Abreast c') (line : Int) :
    (c.advanceTo line).Abreast (c'.advanceTo line) where
  table := h.table
  line := by
    have hline := h.line
    unfold Context.line at hline
    simp [Context.line, Context.advanceTo, Log.line_advanceTo, hline]

theorem enter (h : c.Abreast c') (name : Name) : (c.enter name).Abreast (c'.enter name) := by
  unfold Context.enter
  rw [h.table]
  exact h.withTable _

theorem leave (h : c.Abreast c') : Option.Rel Abreast c.leave? c'.leave? := by
  unfold Context.leave?
  rw [h.table]
  cases c'.table.leave? with
  | none => exact .none
  | some table => exact .some (h.withTable table)

theorem declare (h : c.Abreast c') (name : Name) (type : Ty) :
    (c.declare name type c.line).2.Abreast (c'.declare name type c'.line).2 := by
  unfold Context.declare
  rw [h.table, h.line]
  cases c'.table.declare? name type c'.line with
  | none => exact h.report _ _
  | some table => exact h.withTable table

theorem declareFunction (h : c.Abreast c') (name : Name) (params : List (Ty × Value))
    (returns : Ty) :
    (c.declareFunction name params returns c.line).1 =
        (c'.declareFunction name params returns c'.line).1 ∧
      (c.declareFunction name params returns c.line).2.Abreast
        (c'.declareFunction name params returns c'.line).2 := by
  unfold Context.declareFunction
  rw [h.table, h.line]
  cases c'.table.declareFunction? name (params.map fun p => (p.2, p.1)) returns.given? c'.line with
  | some table => exact ⟨rfl, h.withTable table⟩
  | none =>
    dsimp only
    split
    · exact ⟨rfl, h⟩
    · exact ⟨rfl, h.report _ _⟩

theorem define (h : c.Abreast c') (name : Name) :
    Option.Rel (fun t t' => Abreast { c with table := t } { c' with table := t' })
      (c.table.define? name) (c'.table.define? name) := by
  rw [h.table]
  cases c'.table.define? name with
  | none => exact .none
  | some table => exact .some (h.withTable table)

end Context.Abreast

theorem reports_made {action : Action} (h : action.kind ≠ .arrayDecl) (nodes : List Node)
    (c : Context) : ∃ problems, (action.made nodes c).2 = c.report problems := by
  rcases made_cases action nodes c with hm | ⟨type, name, size, rfl, -⟩
  · exact hm
  · exact absurd rfl h

theorem coupling_abreast : Coupling Context.Abreast fun _ _ => True where
  advance h line := h.advanceTo line
  enter h name := h.enter name
  leave h := h.leave
  param h name _ _ := h.declare name _
  declareFunction h name _ _ _ _ := h.declareFunction name _ _
  define h name := h.define name
  made {action _} ho _ {ns ns'} _ _ {c c'} h := by
    refine ⟨trivial, ?_⟩
    by_cases hk : action.kind = .arrayDecl
    · obtain ⟨type, name, size, rfl⟩ : ∃ type name size, action = .arrayDecl type name size := by
        cases action <;> simp_all [Action.kind, Action.operands?]
      exact h.declare name _
    · obtain ⟨problems, hm⟩ := reports_made hk ns c
      obtain ⟨problems', hm'⟩ := reports_made hk ns' c'
      rw [hm, hm']
      exact h.report problems problems'
  bound {type} _ name {_ _} _ {_ _} h := ⟨trivial, (h.declare name type).report _ _⟩
  declaration _ _ _ _ _ _ _ _ _ := trivial
  block _ _ _ _ := trivial
  conditional _ _ _ _ _ _ _ h := ⟨trivial, h.report _ _⟩
  loop _ _ _ _ _ _ _ _ _ _ h := ⟨trivial, h.report _ _⟩
  function _ _ _ _ _ _ _ _ _ _ := trivial
  nop := trivial

def Build.Quiet {α : Type} (x : Build α) : Prop :=
  ∀ c, ∃ a d, exec x c = (.ok a, d) ∧ c.Abreast d

theorem quiet_all {items : List Action} (h : ∀ a ∈ items, Quiet (build a)) :
    Quiet (buildAll items) := by
  induction items with
  | nil => exact fun c => ⟨[], c, rfl, rfl, rfl⟩
  | cons a items ih =>
    intro c
    obtain ⟨n, d, ha, hd⟩ := h a (by simp) c
    obtain ⟨ns, e, hitems, he⟩ := ih (fun b hb => h b (by simp [hb])) d
    refine ⟨n :: ns, e, ?_, hd.trans he⟩
    simp only [buildAll, exec_bind, exec_pure, ha, hitems]

theorem Action.Fits.quiet {allowed : Policy} {position : Position} {action : Action}
    (h : action.Fits allowed position) (plain : action.plain = true) : Quiet (build action) := by
  induction h with
  | lined => cases plain
  | @intro position action unlined here proper inside ih =>
    have expression := isExpression_of_plain plain
    obtain ⟨items, ho⟩ := operands?_of_isExpression unlined expression proper
    have hitems := quiet_all fun a ha =>
      ih (.expression, a) (mem_parts_of_operands? ho ha) (plain_of_operands? plain ho a ha)
    intro c
    obtain ⟨ns, d, hx, hd⟩ := hitems c
    have hk : action.kind ≠ .arrayDecl := fun hk => by simp [hk, Kind.isExpression] at expression
    obtain ⟨problems, hm⟩ := reports_made hk ns d
    refine ⟨(action.made ns d).1, (action.made ns d).2, ?_, ?_⟩
    · rw [exec_build_of_operands ho, hx]
    · rw [hm]
      exact ⟨hd.table, by simp [hd.line]⟩

theorem coupled_blank {action : Action} (h : Quiet (build action)) :
    Coupled Context.Abreast (fun _ _ => True) action .blank := by
  intro c c' hs
  obtain ⟨n, d, hx, hd⟩ := h c
  have hblank : exec (build .blank) c' = (.ok (Action.blank.made [] c').1, c') := by
    have ho : Action.blank.operands? = some [] := rfl
    rw [exec_build_of_operands ho]
    rfl
  rw [hx, hblank]
  exact .ok trivial (hd.symm.trans hs)

def sizeless : Policy := fun position kind => kind ≠ .flawed ∧ position ≠ .size

theorem Action.Fits.coupled_skeleton {position : Position} {action : Action}
    (h : action.Fits sizeless position) :
    Coupled Context.Abreast (fun _ _ => True) action action.skeleton := by
  induction h with
  | lined line _ ih => exact coupling_abreast.coupled_lined line ih
  | @intro position action unlined here proper inside ih =>
    by_cases plain : action.plain = true
    · have quiet := Fits.quiet (.intro unlined here proper inside) plain
      rw [skeleton_of_plain plain]
      exact coupled_blank quiet
    · -- A size would stand where nothing may.
      have unsized : ∀ type name size, action ≠ .sizedArray type name size := by
        rintro type name size rfl
        exact (inside (.size, size) (by simp [parts])).allowed.2 rfl
      rw [skeleton_eq_mapParts plain unsized]
      exact coupling_abreast.coupled_mapParts proper unsized ih

theorem exists_build_skeletons {actions : List Action} (h : ∀ a ∈ actions, a.Fits sizeless .item)
    {c c' : Context} (hs : c.Abreast c') :
    ∃ ns d ms e, exec (buildAll actions) c = (.ok ns, d) ∧
      exec (buildAll (actions.map .skeleton)) c' = (.ok ms, e) ∧ d.Abreast e := by
  have total : ∀ a ∈ actions, a.Total := by
    intro a ha
    have flawless : a.Fits flawless .item := (h a ha).imp And.left fun _ _ => And.left
    exact flawless.total
  obtain ⟨t, ns, d, run⟩ := exists_run_all total c
  have built : exec (buildAll actions) c = (.ok ns, d) := exec_of_run run
  have hends := Couples.all (forall₂_map fun a ha => (h a ha).coupled_skeleton) c c' hs
  rw [built] at hends
  generalize exec (buildAll (actions.map .skeleton)) c' = q at hends ⊢
  cases hends with
  | ok _ hde => exact ⟨ns, d, _, _, built, rfl, hde⟩

theorem Slot.ne_size_of_mem_parts {slot : Slot} (h : slot ≠ .action .size)
    (h' : slot ≠ .actions .size) {v : Value} {part : Position × Value} (hp : part ∈ slot.parts v) :
    part.1 ≠ .size := by
  unfold parts at hp
  split at hp <;> grind

theorem Kind.ne_size_of_mem_parts {kind : Kind} {e : Entry} (he : e ∈ kind.format)
    {fields : List (String × Value)} {part : Position × Value} (hp : part ∈ e.parts fields) :
    part.1 ≠ .size := by
  have hslot : ∀ e ∈ kind.format, e.slot ≠ .action .size ∧ e.slot ≠ .actions .size := by
    cases kind <;> decide
  unfold Entry.parts at hp
  cases hv : e.value? fields with
  | none => simp [hv] at hp
  | some v =>
    rw [hv] at hp
    exact Slot.ne_size_of_mem_parts (hslot e he).1 (hslot e he).2 hp

theorem Conforms.sizeless {position : Position} {v : Value} (h : Conforms flawless position v)
    (hp : position ≠ .size) : Conforms sizeless position v := by
  induction h with
  | intro node known here line own _ ih =>
    exact .intro node known ⟨here, hp⟩ line own fun e he part hpart =>
      ih e he part hpart (Kind.ne_size_of_mem_parts he hpart)

def skeletonOf (program : List Value) : List Action :=
  (program.map Action.ofValue).map .skeleton

namespace Session

theorem finishBuilding_of_exec {s : Session} {program : List Value} {nodes : List Node}
    {d : Context} (built : exec (buildAll (program.map Action.ofValue))
      { reportAll := s.options.reportAll } = (.ok nodes, d)) (name : String) :
    let result := (s.begin (.list program) name).2.finishBuilding
    result.1 = .ok () ∧ result.2.context = d ∧ result.2.finished = false := by
  rw [begin_of_read (Reading.sequence_list program), finishBuilding_of_built built]
  exact ⟨rfl, rfl, rfl⟩

end Session

/-- Two programs that differ in their expressions only are both built to the end, whatever is
reported on the way. They lead to one table of symbols, with the same functions defined, and at the
end the same functions are reported as never defined. -/
theorem expressions_declare_nothing (s s' : Session) {program program' : List Value}
    (name name' : String) (conforms : ∀ v ∈ program, Conforms flawless .item v)
    (conforms' : ∀ v ∈ program', Conforms flawless .item v)
    (skeletons : skeletonOf program = skeletonOf program') :
    let built := (s.begin (.list program) name).2.finishBuilding
    let built' := (s'.begin (.list program') name').2.finishBuilding
    let table := built.2.context.table
    let undefined := table.undefined.map fun f =>
      Diagnostic.mk built.2.context.line (.neverDefined f.name)
    built.1 = .ok () ∧ built'.1 = .ok () ∧ built'.2.context.table = table ∧
      built.2.finish.1.diagnostics = undefined ∧ built'.2.finish.1.diagnostics = undefined := by
  intro built built' table undefined
  have fits {program : List Value} (h : ∀ v ∈ program, Conforms flawless .item v) :
      ∀ a ∈ program.map Action.ofValue, a.Fits sizeless .item := by
    intro a ha
    obtain ⟨v, hv, rfl⟩ := List.mem_map.mp ha
    exact ((h v hv).sizeless (by simp)).fits (by simp [sizeless])
  -- Both programs are compared with their one skeleton, built from a context of its own.
  have start (reportAll : Bool) : Context.Abreast { reportAll } {} := ⟨rfl, rfl⟩
  obtain ⟨ns, d, ms, e, hd, he, hde⟩ :=
    exists_build_skeletons (fits conforms) (start s.options.reportAll)
  obtain ⟨ns', d', ms', e', hd', he', hde'⟩ :=
    exists_build_skeletons (fits conforms') (start s'.options.reportAll)
  change exec (buildAll (skeletonOf program)) {} = _ at he
  change exec (buildAll (skeletonOf program')) {} = _ at he'
  rw [← skeletons, he] at he'
  cases he'
  have abreast : d'.Abreast d := hde'.trans hde.symm
  obtain ⟨hok, hcontext, hfinished⟩ := Session.finishBuilding_of_exec hd name
  obtain ⟨hok', hcontext', hfinished'⟩ := Session.finishBuilding_of_exec hd' name'
  refine ⟨hok, hok', ?_, Session.diagnostics_finish hfinished, ?_⟩
  · simp only [built', table, built, hcontext, hcontext']
    exact abreast.table
  · rw [Session.diagnostics_finish hfinished']
    simp only [undefined, table, built, hcontext, hcontext', abreast.table, abreast.line]

def priced (value condition argument : Value) : List Value :=
  [.object [("node", .string "function"), ("returns", .string "int"), ("name", .string "price"),
      ("params", .list [.list [.string "int", .string "item"]]), ("line", .int 2)],
    .object [("node", .string "function"), ("returns", .string "void"), ("name", .string "main"),
      ("body", .list [
        .object [("node", .string "declaration"), ("type", .string "int"), ("line", .int 4),
          ("bindings", .list [.object [("name", .string "n"), ("init", value)]])],
        .object [("node", .string "if"), ("condition", condition),
          ("then", .list [.object [("node", .string "array_decl"), ("type", .string "float"),
            ("name", .string "r"), ("size", .int 3)]])],
        .object [("node", .string "call"), ("name", .string "price"), ("args", .list [argument]),
          ("line", .int 6)]])]]

def literalOf (type value : String) : Value :=
  .object [("node", .string "const"), ("type", .string type), ("value", .string value)]

def variableOf (name : String) : Value :=
  .object [("node", .string "var"), ("name", .string name)]

def careful : List Value := priced (literalOf "int" "1") (literalOf "bool" "true") (variableOf "n")

/-- None of these expressions passes: the variables were not declared, a number is no condition, and
the call has no argument. -/
def careless : List Value :=
  priced (.object [("node", .string "op"), ("op", .string "+"),
      ("operands", .list [variableOf "m", variableOf "r"])])
    (literalOf "int" "1") (.object [("node", .string "call"), ("name", .string "price")])

/-- All these problems come before the end of the second program, and none before that of the
first. -/
theorem expressions_declare_nothing_careless :
    let built := ((Session.new {}).begin (.list careful) "").2.finishBuilding
    let built' := ((Session.new {}).begin (.list careless) "").2.finishBuilding
    (∀ v ∈ careful, Conforms flawless .item v) ∧ (∀ v ∈ careless, Conforms flawless .item v) ∧
      skeletonOf careful = skeletonOf careless ∧ built.2.diagnostics = [] ∧
      built'.2.diagnostics = [⟨4, .undeclared (.text "m")⟩, ⟨4, .undeclared (.text "r")⟩,
        ⟨4, .test .int⟩, ⟨6, .paramCount (.text "price") 1 0⟩] ∧
      built'.2.context.table = built.2.context.table ∧
      built'.2.finish.1.diagnostics = [⟨6, .neverDefined (.text "price")⟩] := by
  have checked :
      let built := ((Session.new {}).begin (.list careful) "").2.finishBuilding
      let built' := ((Session.new {}).begin (.list careless) "").2.finishBuilding
      (careful.all fun v => v.conforms flawless 5 .item) = true ∧
      (careless.all fun v => v.conforms flawless 5 .item) = true ∧
      built.2.diagnostics = [] ∧
      built'.2.diagnostics = [⟨4, .undeclared (.text "m")⟩, ⟨4, .undeclared (.text "r")⟩,
        ⟨4, .test .int⟩, ⟨6, .paramCount (.text "price") 1 0⟩] ∧
      (built.2.context.table.undefined.map fun f => Diagnostic.mk built.2.context.line
        (.neverDefined f.name)) = [⟨6, .neverDefined (.text "price")⟩] := by decide +kernel
  obtain ⟨hcareful, hcareless, quiet, reported, undefined⟩ := checked
  have conforms := Conforms.forall_of_check hcareful
  have conforms' := Conforms.forall_of_check hcareless
  have skeletons : skeletonOf careful = skeletonOf careless := rfl
  obtain ⟨-, -, htable, -, hfinish⟩ :=
    expressions_declare_nothing (Session.new {}) (Session.new {}) "" "" conforms conforms' skeletons
  exact ⟨conforms, conforms', skeletons, quiet, reported, htable, hfinish.trans undefined⟩

end Treewright
