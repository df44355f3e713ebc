import Mathlib.Data.List.Induction
import Treewright.Proofs.Format
import Treewright.Proofs.Lines
import Treewright.Proofs.Programs
set_option autoImplicit false

namespace Treewright

open Build

def prototypes : Policy := fun position kind =>
  (kind = .function ↔ position = .item) ∧ kind ≠ .flawed

instance (position : Position) (kind : Kind) : Decidable (prototypes position kind) :=
  inferInstanceAs (Decidable (_ ∧ _))

def functionless : Policy := fun _ kind => kind ≠ .function ∧ kind ≠ .flawed

namespace Action

theorem ne_item_of_parts {action : Action} (unlined : action.isLined = false)
    (unflawed : action.kind ≠ .flawed) {part : Position × Action} (hp : part ∈ action.parts) :
    part.1 ≠ .item := by
  cases action with
  | faulty => exact absurd rfl unflawed
  | lined => cases unlined
  | _ => grind [parts]

theorem Fits.functionless_of_ne_item {position : Position} {action : Action}
    (h : action.Fits prototypes position) (below : position ≠ .item) :
    action.Fits functionless position := by
  induction h with
  | lined line _ ih => exact .lined line (ih below)
  | intro unlined here proper _ ih =>
    refine .intro unlined ⟨fun hk => below (here.1.mp hk), here.2⟩ proper fun part hp => ?_
    exact ih part hp (ne_item_of_parts unlined here.2 hp)

def Functionless (action : Action) : Prop := action.Fits functionless .item

theorem Fits.anywhere {position : Position} {action : Action}
    (h : action.Fits functionless position) : action.Functionless :=
  h.imp (fun hk => hk) fun _ _ hk => hk

theorem Functionless.kind_ne {action : Action} (h : action.Functionless) :
    action.kind ≠ .function := h.allowed.1

theorem Functionless.part {action : Action} (h : action.Functionless) (part : Position × Action)
    (hp : part ∈ action.parts) : part.2.Functionless := by
  cases h with
  | lined line h =>
    obtain rfl := List.mem_singleton.mp hp
    exact h
  | intro _ _ _ inside => exact (inside part hp).anywhere

end Action

def Context.redeclarations (c : Context) : List Diagnostic :=
  c.log.diagnostics.filter fun d => d.kind = .multipleDefinitionFn

structure Undisturbed (c d : Context) : Prop extends Steady c d where
  redeclarations : d.redeclarations = c.redeclarations

namespace Undisturbed

variable {c d e : Context}

theorem refl (c : Context) : Undisturbed c c := ⟨.of_table rfl, rfl⟩

theorem trans (h : Undisturbed c d) (h' : Undisturbed d e) : Undisturbed c e :=
  ⟨h.toSteady.trans h'.toSteady, h'.redeclarations.trans h.redeclarations⟩

theorem report (c : Context) {problems : List Problem}
    (h : ∀ p ∈ problems, p.kind ≠ .multipleDefinitionFn) : Undisturbed c (c.report problems) where
  toSteady := .of_table rfl
  redeclarations := by
    have others : (problems.map fun p => (⟨c.log.line, p⟩ : Diagnostic)).filter
        (fun d => d.kind = .multipleDefinitionFn) = [] := by
      rw [List.filter_eq_nil_iff]
      intro d hd
      obtain ⟨p, hp, rfl⟩ := List.mem_map.mp hd
      exact decide_eq_true_iff.not.mpr (h p hp)
    simp only [Context.redeclarations, Context.report, Log.diagnostics_reportAll,
      List.filter_append, others, List.append_nil]

theorem advanceTo (c : Context) (line : Int) : Undisturbed c (c.advanceTo line) where
  toSteady := .of_table rfl
  redeclarations := by simp [Context.redeclarations, Context.advanceTo]

theorem declare (c : Context) (name : Name) (type : Ty) (line : Int) :
    Undisturbed c (c.declare name type line).2 := by
  refine ⟨.declare c name type line, ?_⟩
  rcases c.declare_cases name type line with ⟨-, he⟩ | ⟨-, he⟩
  · rw [he]
    rfl
  · rw [he]
    exact (Undisturbed.report c (by simp [Problem.kind])).redeclarations

theorem declareAll (params : List (Ty × Name)) (c : Context) :
    Undisturbed c (c.declareAll params) := by
  induction params generalizing c with
  | nil => exact .refl c
  | cons p params ih => exact (Undisturbed.declare c p.2 p.1 c.line).trans (ih _)

theorem scope {name : Name} (h : Undisturbed (c.enter name) d) (hext : (c.enter name).Extends d)
    (hl : d.leave? = some e) : Undisturbed c e where
  toSteady := h.toSteady.scope hext hl
  redeclarations := by
    rw [Context.redeclarations, Context.log_leave? hl]
    exact h.redeclarations

theorem made (action : Action) (nodes : List Node) (c : Context) :
    Undisturbed c (action.made nodes c).2 := by
  unfold Action.made
  split
  case h_1 => exact .declare c _ _ c.line
  case h_2 => exact .report c (kind_ne (kind_checkVariable _ _) (by simp))
  case h_4 | h_5 | h_6 => exact .report c (kind_ne (kind_fold _ _) (by simp))
  case h_7 => exact .report c (kind_ne (kind_checkAssignment _ _) (by simp))
  case h_9 =>
    refine .report c fun p hp again => ?_
    have kind := kind_checkCall _ _ _ _ p hp
    simp [again] at kind
  case h_10 =>
    refine .report c fun p hp again => ?_
    have kind := kind_checkAccess _ _ _ p hp
    simp [again] at kind
  all_goals exact .refl c

theorem boundNode {type : Ty} {name : Name} {value : Option Node} {n : Node}
    (h : boundNode type name value c = (n, d)) : Undisturbed c d := by
  obtain ⟨rfl, rfl⟩ := Prod.ext_iff.mp h
  refine (Undisturbed.declare c name type c.line).trans (.report _ ?_)
  cases value with
  | none => simp
  | some v => exact kind_ne (kind_checkInitial _ _) (by simp)

theorem conditionalNode {condition accepted n : Node} {rejected : Option Node}
    (h : conditionalNode condition accepted rejected c = (n, d)) : Undisturbed c d := by
  obtain ⟨rfl, rfl⟩ := Prod.ext_iff.mp h
  exact .report c (kind_ne (kind_checkTest _) (by simp))

theorem loopNode {init update : Option Node} {test body n : Node}
    (h : loopNode init test update body c = (n, d)) : Undisturbed c d := by
  obtain ⟨rfl, rfl⟩ := Prod.ext_iff.mp h
  exact .report c (kind_ne (kind_checkTest _) (by simp))

end Undisturbed

def Task.Functionless : Task → Prop
  | .one action => action.Functionless
  | .all items => ∀ a ∈ items, a.Functionless
  | .blocks items => ∀ b ∈ items, ∀ a ∈ b.2, a.Functionless
  | .bindings _ items => ∀ b ∈ items, ∀ a ∈ b.2.toList, a.Functionless
  | .body _ _ _ => False

theorem Run.undisturbed {task : Task} {c d : Context} {t : List Event} {ns : List Node}
    (h : Run task c t ns d) (free : task.Functionless) : Undisturbed c d := by
  induction h with
  | nil c | noBlock c | noBinding _ c => exact .refl c
  | noLine | line => exact free.elim
  | cons _ _ ih ih' =>
    obtain ⟨ha, has⟩ := List.forall_mem_cons.mp free
    exact (ih ha).trans (ih' has)
  | block inside leave _ ih ih' =>
    obtain ⟨hb, hbs⟩ := List.forall_mem_cons.mp free
    exact ((ih hb).scope inside.extends leave).trans (ih' hbs)
  | binding _ _ bound _ ih ih' =>
    obtain ⟨hb, hbs⟩ := List.forall_mem_cons.mp free
    exact ((ih hb).trans (.boundNode bound)).trans (ih' hbs)
  | lined _ ih =>
    have inner := ih (free.part (.item, _) (by simp [Action.parts]))
    exact (Undisturbed.advanceTo _ _).trans inner
  | check operands _ _ ih =>
    refine (ih fun a ha => ?_).trans (.made _ _ _)
    exact free.part _ (Action.mem_parts_of_operands? operands ha)
  | declaration _ _ ih =>
    exact ih fun b hb a ha => free.part (.expression, a) (Action.mem_parts_binding hb ha)
  | sizedArray _ _ _ made ih =>
    have inner := ih (free.part (.size, _) (by simp [Action.parts]))
    obtain ⟨rfl, rfl⟩ := Prod.ext_iff.mp made
    exact inner.trans (.made _ _ _)
  | scope _ ih =>
    refine ih fun b hb a ha => free.part (.statement, a) ?_
    rw [List.mem_singleton.mp hb] at ha
    simpa [Action.parts] using ha
  | conditional _ _ made ih ih' =>
    have test := ih (free.part (.expression, _) (by simp [Action.parts]))
    have inside := ih' fun b hb a ha => free.part (.statement, a) (mem_parts_branches hb ha)
    exact (test.trans inside).trans (.conditionalNode made)
  | loop first condition next inside leave made ih₁ ih₂ ih₃ ih₄ =>
    have header := fun a ha => free.part (.header, a) (Action.mem_parts_header ha)
    have opening := ih₁ fun a ha => header a (List.mem_append_left _ ha)
    have test := ih₂ (free.part (.expression, _) (by simp [Action.parts]))
    have update := ih₃ fun a ha => header a (List.mem_append_right _ ha)
    have body := ih₄ fun b hb a ha => free.part (.statement, a) (by
      rw [List.mem_singleton.mp hb] at ha
      simp [Action.parts, ha])
    have hext := ((first.extends.trans condition.extends).trans next.extends).trans inside.extends
    have parts := ((opening.trans test).trans update).trans body
    exact (parts.scope hext leave).trans (.loopNode made)
  | prototype | emptyBody | function => exact absurd rfl free.kind_ne

/-- What a body does to the functions of the table: it defines its own one, if that was accepted. -/
structure Settles (own : Option Symbol) (c d : Context) : Prop where
  functions : d.table.inner.functions = c.table.inner.functions
  declared : d.table.declaredFunctions = c.table.declaredFunctions
  redeclarations : d.redeclarations = c.redeclarations
  rejected : own = none → d.table.defined = c.table.defined
  accepted : ∀ s, own = some s → ∀ i, i ∈ d.table.defined ↔ i ∈ c.table.defined ∨ i = s.id

namespace Settles

variable {own : Option Symbol} {c d e : Context}

theorem after (h : Settles own d e) (before : Undisturbed c d) : Settles own c e where
  functions := h.functions.trans before.functions
  declared := h.declared.trans before.declared
  redeclarations := h.redeclarations.trans before.redeclarations
  rejected ho := (h.rejected ho).trans before.defined
  accepted s ho i := by rw [h.accepted s ho, before.defined]

theorem trans (h : Settles own c d) (h' : Settles own d e) : Settles own c e where
  functions := h'.functions.trans h.functions
  declared := h'.declared.trans h.declared
  redeclarations := h'.redeclarations.trans h.redeclarations
  rejected ho := (h'.rejected ho).trans (h.rejected ho)
  accepted s ho i := by rw [h'.accepted s ho, h.accepted s ho, or_assoc, or_self]

theorem scope {name : Name} (h : Settles own (c.enter name) d) (hext : (c.enter name).Extends d)
    (hl : d.leave? = some e) : Settles own c e := by
  obtain ⟨inner, symbols, defined⟩ := Context.inner_leave hext hl
  exact
    { functions := by rw [inner]
      declared := by
        unfold Table.declaredFunctions
        rw [symbols]
        exact h.declared
      redeclarations := by
        rw [Context.redeclarations, Context.log_leave? hl]
        exact h.redeclarations
      rejected := fun ho => defined.trans (h.rejected ho)
      accepted := fun s ho i => by
        rw [defined]
        exact h.accepted s ho i }

theorem mark {name : Name} {marks : List Event} (h : c.mark? name own = some (marks, d))
    (visible : ∀ s, own = some s → c.table.functionNamed name = some s) : Settles own c d := by
  cases own with
  | none =>
    cases h
    exact ⟨rfl, rfl, rfl, fun _ => rfl, fun s ho => by cases ho⟩
  | some own =>
    rw [Context.mark?_of_functionNamed (visible own rfl)] at h
    cases h
    have marked : (c.table.mark own).inner = c.table.inner ∧
        (c.table.mark own).declaredFunctions = c.table.declaredFunctions := by
      unfold Table.mark
      split <;> exact ⟨rfl, rfl⟩
    refine ⟨by rw [marked.1], marked.2, rfl, (absurd · (by simp)), fun s ho i => ?_⟩
    cases ho
    exact Table.mem_defined_mark

end Settles

theorem functionNamed_of_mark {c d : Context} {name : Name} {own : Option Symbol}
    {marks : List Event} (h : c.mark? name own = some (marks, d)) (other : Name) :
    d.table.functionNamed other = c.table.functionNamed other := by
  cases own with
  | none =>
    cases h
    rfl
  | some own =>
    obtain ⟨found, -, he⟩ := Option.map_eq_some_iff.mp h
    cases he
    exact c.table.functionNamed_mark found other

theorem Run.settles_body {name : Name} {own : Option Symbol} {a : Action} {as : List Action}
    {c d : Context} {t : List Event} {ns : List Node} (h : Run (.body name own (a :: as)) c t ns d)
    (free : ∀ b ∈ a :: as, b.Functionless)
    (visible : ∀ s, own = some s → c.table.functionNamed name = some s) : Settles own c d := by
  induction as generalizing a c t ns with
  | nil =>
    cases h with
    | line head mark tail =>
      cases tail
      have quiet := head.undisturbed (free a (by simp))
      refine (Settles.mark mark fun s ho => ?_).after quiet
      rw [quiet.functionNamed head.extends, visible s ho]
  | cons b as ih =>
    cases h with
    | line head mark tail =>
      have quiet := head.undisturbed (free a (by simp))
      have visible' (s : Symbol) (ho : own = some s) :=
        (quiet.functionNamed head.extends name).trans (visible s ho)
      have rest := ih tail (fun x hx => free x (by simp [hx])) fun s ho => by
        rw [functionNamed_of_mark mark, visible' s ho]
      exact ((Settles.mark mark visible').trans rest).after quiet

theorem Run.settles_function {returns : Ty} {name : Name} {params : List (Ty × Name)}
    {body : Option (List Action)} {c d : Context} {t : List Event} {n : Node}
    (h : Run (.one (.function returns name params body)) c t [n] d)
    (free : ∀ a ∈ body.getD [], a.Functionless) :
    ∃ own e b, c.bind returns name params = (own, e) ∧
      n = functionNode c.line returns name params own.isNone b ∧
      (body.isSome = false ∧ d = e ∨ body.isSome = true ∧ Settles own e d) := by
  cases h with
  | check operands => cases operands
  | prototype _ bound => exact ⟨_, _, _, bound, rfl, .inl ⟨rfl, rfl⟩⟩
  | @emptyBody _ _ _ own _ e _ _ _ proper bound mark leave =>
    have opened := Undisturbed.declareAll params (e.enter name)
    have hext := (extends_inside proper e).trans (steps_extends.mark mark)
    have marked : Settles own (e.inside name params) _ := .mark mark fun s ho =>
      inside_functionNamed proper (ho ▸ bound)
    exact ⟨_, _, _, bound, rfl, .inr ⟨rfl, (marked.after opened).scope hext leave⟩⟩
  | @function _ _ _ own _ _ _ _ e _ _ _ proper bound lines leave =>
    have opened := Undisturbed.declareAll params (e.enter name)
    have hext := (extends_inside proper e).trans lines.extends
    have settled := lines.settles_body free fun s ho => inside_functionNamed proper (ho ▸ bound)
    exact ⟨_, _, _, bound, rfl, .inr ⟨rfl, (settled.after opened).scope hext leave⟩⟩

structure Heading where
  name : Name
  signature : Signature
  line : Int

def Symbol.heading (s : Symbol) : Heading := ⟨s.name, s.signature, s.line⟩

/-- What became of a function at the top of a program. -/
structure Ruling extends Heading where
  bodied : Bool
  accepted : Bool

/-- Whether a function was rejected itself, whatever its body has in it. -/
def Node.isRejected : Node → Bool
  | .mk _ (.function _ _ _ _ rejected) => rejected
  | _ => false

/-- The ruling on a function that was built as the node. -/
def Action.ruling? (n : Node) : Action → Option Ruling
  | .lined _ action => action.ruling? n
  | .function returns name params body =>
    some ⟨⟨name, ⟨params.map (·.1), returns⟩, n.line⟩, body.isSome, !n.isRejected⟩
  | _ => none

/-- The ruling on the first function of the name. -/
def firstOf (name : Name) (rulings : List Ruling) : Option Ruling :=
  rulings.find? fun r => r.name.same name

/-- An accepted function of the name had a body. -/
def hasBody (name : Name) (rulings : List Ruling) : Bool :=
  rulings.any fun r => r.name.same name && r.accepted && r.bodied

def firsts (rulings : List Ruling) : List Ruling :=
  rulings.foldl (fun seen r => if (firstOf r.name seen).isSome then seen else seen ++ [r]) []

section

variable {rulings : List Ruling} {r : Ruling} {name : Name}

theorem firstOf_congr {other : Name} (h : name.same other = true) :
    firstOf name rulings = firstOf other rulings := by
  simp only [firstOf, Name.same_congr h]

theorem hasBody_congr {other : Name} (h : name.same other = true) :
    hasBody name rulings = hasBody other rulings := by
  simp only [hasBody, Name.same_congr h]

theorem firstOf_concat : firstOf name (rulings ++ [r]) =
    (firstOf name rulings).or (if r.name.same name then some r else none) := by
  simp [firstOf, List.find?_append, List.find?_singleton]

theorem hasBody_concat : hasBody name (rulings ++ [r]) =
    (hasBody name rulings || r.name.same name && r.accepted && r.bodied) := by
  simp [hasBody]

theorem firsts_concat : firsts (rulings ++ [r]) =
    if (firstOf r.name (firsts rulings)).isSome then firsts rulings else firsts rulings ++ [r] := by
  rw [firsts, List.foldl_append]
  rfl

theorem firstOf_firsts : firstOf name (firsts rulings) = firstOf name rulings := by
  induction rulings using List.reverseRecOn with
  | nil => rfl
  | append_singleton rulings r ih =>
    rw [firsts_concat, firstOf_concat, ← ih]
    by_cases known : (firstOf r.name (firsts rulings)).isSome = true
    · rw [if_pos known]
      by_cases same : r.name.same name = true
      · rw [firstOf_congr same] at known
        obtain ⟨first, hf⟩ := Option.isSome_iff_exists.mp known
        simp [hf]
      · simp [same]
    · rw [if_neg known, firstOf_concat]

theorem firsts_concat_eq : firsts (rulings ++ [r]) =
    if (firstOf r.name rulings).isSome then firsts rulings else firsts rulings ++ [r] := by
  rw [firsts_concat, firstOf_firsts]

end

/-- The table has the functions that came first, and those count as defined whose name has got a
body. -/
structure Records (rulings : List Ruling) (t : Table) : Prop where
  outer : t.outer = []
  headings : t.inner.functions.map Symbol.heading = (firsts rulings).map Ruling.toHeading
  declared : t.declaredFunctions = t.inner.functions
  distinct : ∀ s ∈ t.inner.functions, t.inner.functionNamed s.name = some s
  defined : ∀ s ∈ t.inner.functions, s.id ∈ t.defined ↔ hasBody s.name rulings = true

namespace Records

variable {rulings : List Ruling} {t : Table} {c d : Context}

theorem empty : Records [] {} where
  outer := rfl
  headings := rfl
  declared := rfl
  distinct _ hs := absurd hs List.not_mem_nil
  defined _ hs := absurd hs List.not_mem_nil

theorem functionNamed (h : Records rulings t) (name : Name) :
    (t.inner.functionNamed name).map Symbol.heading =
      (firstOf name rulings).map Ruling.toHeading := by
  let has : Heading → Bool := fun x => x.name.same name
  calc (t.inner.functionNamed name).map Symbol.heading
    _ = (t.inner.functions.map Symbol.heading).find? has := by
      rw [List.find?_map]
      rfl
    _ = ((firsts rulings).map Ruling.toHeading).find? has := by rw [h.headings]
    _ = (firstOf name (firsts rulings)).map Ruling.toHeading := by
      rw [List.find?_map]
      rfl
    _ = (firstOf name rulings).map Ruling.toHeading := by rw [firstOf_firsts]

theorem functionNamed_eq_none (h : Records rulings t) {name : Name} :
    t.inner.functionNamed name = none ↔ firstOf name rulings = none := by
  rw [← Option.map_eq_none_iff, h.functionNamed, Option.map_eq_none_iff]

theorem defined_iff (h : Records rulings t) {name : Name} {s : Symbol}
    (hs : t.inner.functionNamed name = some s) :
    s.id ∈ t.defined ↔ hasBody name rulings = true := by
  obtain ⟨hm, same⟩ := Scope.mem_of_functionNamed hs
  rw [h.defined s hm, hasBody_congr same]

theorem addFunction (h : Records rulings t) (sound : t.Sound) {name : Name}
    (fresh : t.inner.functionNamed name = none) (params : List (Value × Ty)) (returns : Option Ty)
    (line : Int) {r : Ruling} (unbodied : r.bodied = false)
    (heading : r.toHeading = ⟨name, ⟨params.map (·.2), returns.getD .void⟩, line⟩) :
    Records (rulings ++ [r]) (t.addFunction name params returns line) where
  outer := h.outer
  headings := by
    have first : firstOf r.name rulings = none := by
      rw [← h.functionNamed_eq_none, heading]
      exact fresh
    have own : Symbol.heading ⟨t.symbols.length, name, line, t.current, .function params returns⟩ =
        r.toHeading := heading.symm
    simp [Table.addFunction, firsts_concat_eq, first, h.headings, own]
  declared := by
    rw [Table.declaredFunctions, Table.addFunction, List.filter_append]
    exact congrArg (· ++ _) h.declared
  distinct := by
    intro s hs
    rw [Table.functionNamed_addFunction]
    rcases List.mem_append.mp hs with hs | hs
    · simp [h.distinct s hs]
    · rw [List.mem_singleton.mp hs]
      simp [fresh]
  defined := by
    intro s hs
    rw [hasBody_concat, unbodied, Bool.and_false, Bool.or_false]
    rcases List.mem_append.mp hs with hs | hs
    · exact h.defined s hs
    · -- The place of the new function is beyond all that were defined.
      rw [List.mem_singleton.mp hs]
      refine iff_of_false (fun hd => Nat.lt_irrefl _ (sound.defined _ hd)) fun bodied => ?_
      obtain ⟨q, hq, hb⟩ := List.any_eq_true.mp bodied
      have unknown := h.functionNamed_eq_none.mp fresh
      rw [firstOf, List.find?_eq_none] at unknown
      simp only [Bool.and_eq_true] at hb
      exact unknown q hq hb.1.1

theorem later (h : Records rulings t) {r : Ruling} (known : firstOf r.name rulings ≠ none)
    (unbodied : (r.accepted && r.bodied) = false) : Records (rulings ++ [r]) t where
  outer := h.outer
  headings := by
    rw [firsts_concat_eq, if_pos (Option.isSome_iff_ne_none.mpr known), h.headings]
  declared := h.declared
  distinct := h.distinct
  defined s hs := by
    rw [hasBody_concat, Bool.and_assoc, unbodied, Bool.and_false, Bool.or_false]
    exact h.defined s hs

theorem id_eq_iff (h : Records rulings t) (sound : t.Sound) {s own : Symbol}
    (hs : s ∈ t.inner.functions) {name : Name} (found : t.inner.functionNamed name = some own) :
    s.id = own.id ↔ name.same s.name = true := by
  obtain ⟨ho, same⟩ := Scope.mem_of_functionNamed found
  have within := (sound.scopes t.inner (by simp [Table.scopes])).functions
  constructor
  · intro hid
    obtain rfl := sound.eq_of_id (within s hs).1 (within own ho).1 hid
    rwa [Name.same_comm]
  · intro hname
    have here := h.distinct s hs
    rw [← Scope.functionNamed_congr hname, found] at here
    rw [Option.some.inj here]

theorem settle {rulings : List Ruling} {heading : Heading} {own : Option Symbol}
    (h : Records (rulings ++ [⟨heading, false, own.isSome⟩]) c.table) (sound : c.table.Sound)
    (found : ∀ s, own = some s → c.table.inner.functionNamed heading.name = some s)
    (settles : Settles own c d) (outer : d.table.outer = c.table.outer) :
    Records (rulings ++ [⟨heading, true, own.isSome⟩]) d.table := by
  have same (name : Name) :
      d.table.inner.functionNamed name = c.table.inner.functionNamed name := by
    simp only [Scope.functionNamed, settles.functions]
  refine ⟨outer.trans h.outer, ?_, ?_, fun s hs => ?_, fun s hs => ?_⟩
  · have headings := h.headings
    rw [firsts_concat_eq] at headings ⊢
    rw [settles.functions, headings]
    split <;> simp
  · rw [settles.declared, h.declared, settles.functions]
  · rw [settles.functions] at hs
    rw [same, h.distinct s hs]
  · rw [settles.functions] at hs
    have old := h.defined s hs
    rw [hasBody_concat] at old ⊢
    simp only [Bool.and_false, Bool.or_false] at old
    cases own with
    | none =>
      rw [settles.rejected rfl, old]
      simp
    | some own =>
      rw [settles.accepted own rfl, old, h.id_eq_iff sound hs (found own rfl)]
      simp

end Records

structure Ruling.Follows (r : Ruling) (earlier : List Ruling) (c d : Context) : Prop where
  log : c.log.diagnostics <+: d.log.diagnostics
  accepted : r.accepted = true ↔ ∀ first ∈ firstOf r.name earlier,
    r.signature = first.signature ∧ hasBody r.name earlier = false
  redeclarations : d.redeclarations = c.redeclarations ++
    if r.accepted then [] else [⟨r.line, .redeclaredFunction r.name⟩]
  rejected : r.accepted = false → d.table.defined = c.table.defined

theorem Records.repeats_iff {rulings : List Ruling} {t : Table} (h : Records rulings t)
    (sound : t.Sound) {name : Name} {s : Symbol} (hs : t.inner.functionNamed name = some s)
    (signature : Signature) :
    repeatsDeclaration t name signature.params (some signature.returns) = true ↔
      ∀ first ∈ firstOf name rulings,
        signature = first.signature ∧ hasBody name rulings = false := by
  have found := h.functionNamed name
  rw [hs] at found
  obtain ⟨first, hf, heading⟩ := Option.map_eq_some_iff.mp found.symm
  have own : s.signature = first.signature := congrArg Heading.signature heading.symm
  rw [repeatsDeclaration_iff sound hs, hf, h.defined_iff hs, own, Bool.not_eq_true, and_comm]
  simp only [Option.mem_def, Option.some.injEq, forall_eq']
  exact and_congr_left' eq_comm

theorem signatureOf_types (params : List (Ty × Name)) :
    (signatureOf params).map (·.1) = params.map (·.1) := by
  simp [signatureOf, Function.comp_def]

section

variable {rulings : List Ruling} {c d e : Context} {returns : Ty} {name : Name}
  {params : List (Ty × Name)} {own : Option Symbol}

theorem Records.bind (h : Records rulings c.table) (sound : c.table.Sound)
    (proper : (Action.function returns name params none).Proper)
    (bound : c.bind returns name params = (own, e)) :
    let r : Ruling := ⟨⟨name, ⟨params.map (·.1), returns⟩, c.line⟩, false, own.isSome⟩
    r.Follows rulings c e ∧ Records (rulings ++ [r]) e.table := by
  intro r
  have hr : returns.isWritten = true := proper.1
  have log := (steps_extends.bind proper bound).log
  rcases c.bind_cases returns name params with ⟨fresh, he⟩ | ⟨s, hs, ⟨repeats, he⟩ | ⟨apart, he⟩⟩
  · cases bound.symm.trans he
    have unknown := h.functionNamed_eq_none.mp fresh
    refine ⟨⟨log, ?_, ?_, ?_⟩, h.addFunction sound fresh _ _ _ rfl ?_⟩
    · simp [r, unknown]
    · simp [r, Context.redeclarations]
    · exact fun _ => rfl
    · simp [r, signatureOf, Ty.given?_of_isWritten hr, Function.comp_def]
  · cases bound.symm.trans he
    rw [Ty.given?_of_isWritten hr, signatureOf_types] at repeats
    refine ⟨⟨log, ?_, ?_, ?_⟩, h.later ?_ rfl⟩
    · exact iff_of_true rfl ((h.repeats_iff sound hs _).mp repeats)
    · simp [r]
    · exact fun _ => rfl
    · exact fun unknown => by cases hs.symm.trans (h.functionNamed_eq_none.mpr unknown)
  · cases bound.symm.trans he
    rw [Ty.given?_of_isWritten hr, signatureOf_types] at apart
    refine ⟨⟨log, ?_, ?_, ?_⟩, h.later ?_ rfl⟩
    · refine iff_of_false (by simp [r]) fun fits => ?_
      rw [(h.repeats_iff sound hs r.signature).mpr fits] at apart
      cases apart
    · simp [r, Context.redeclarations, Context.report, Context.line, Diagnostic.kind, Problem.kind]
    · exact fun _ => rfl
    · exact fun unknown => by cases hs.symm.trans (h.functionNamed_eq_none.mpr unknown)

theorem Records.function {body : Option (List Action)} {t : List Event} {n : Node}
    (h : Records rulings c.table) (sound : c.table.Sound)
    (proper : (Action.function returns name params body).Proper)
    (free : ∀ a ∈ body.getD [], a.Functionless)
    (run : Run (.one (.function returns name params body)) c t [n] d) :
    ∃ r, (Action.function returns name params body).ruling? n = some r ∧ r.Follows rulings c d ∧
      Records (rulings ++ [r]) d.table := by
  obtain ⟨own, e, b, bound, rfl, rest⟩ := run.settles_function free
  obtain ⟨follows, records⟩ := h.bind sound proper bound
  have accepted : own.isSome = !own.isNone := by cases own <;> rfl
  refine ⟨⟨⟨name, ⟨params.map (·.1), returns⟩, c.line⟩, body.isSome, own.isSome⟩, ?_, ?_⟩
  · rw [accepted]
    rfl
  rcases rest with ⟨unbodied, rfl⟩ | ⟨bodied, settles⟩
  · rw [unbodied]
    exact ⟨⟨run.extends.log, follows.accepted, follows.redeclarations, follows.rejected⟩, records⟩
  · have sound' := steps_sound.bind proper bound sound
    have outer : d.table.outer = e.table.outer := by
      rw [run.extends.table.outer, (steps_extends.bind proper bound).table.outer]
    have found (s : Symbol) (ho : own = some s) : e.table.inner.functionNamed name = some s := by
      rw [bind_visible bound (by simp [ho]), ho]
    rw [bodied]
    refine ⟨⟨run.extends.log, follows.accepted, ?_, fun rejected => ?_⟩,
      records.settle sound' found settles outer⟩
    · rw [settles.redeclarations]
      exact follows.redeclarations
    · rw [settles.rejected (by simpa using rejected)]
      exact follows.rejected rejected

end

theorem Ruling.Follows.advance {r : Ruling} {earlier : List Ruling} {c d : Context} {line : Int}
    (h : r.Follows earlier (c.advanceTo line) d) : r.Follows earlier c d where
  log := by simpa [Context.advanceTo] using h.log
  accepted := h.accepted
  redeclarations := by rw [h.redeclarations, (Undisturbed.advanceTo c line).redeclarations]
  rejected := h.rejected

theorem Records.item {rulings : List Ruling} {position : Position} {action : Action}
    (fits : action.Fits prototypes position) (top : position = .item) {c d : Context}
    (h : Records rulings c.table) (sound : c.table.Sound) {t : List Event} {n : Node}
    (run : Run (.one action) c t [n] d) :
    ∃ r, action.ruling? n = some r ∧ r.Follows rulings c d ∧
      Records (rulings ++ [r]) d.table := by
  induction fits generalizing c t with
  | lined line _ ih =>
    cases run with
    | check operands => cases operands
    | lined inner =>
      have h' : Records rulings (c.advanceTo line).table := h
      obtain ⟨r, hr, follows, records⟩ := ih top h' sound inner
      exact ⟨r, hr, follows.advance, records⟩
  | @intro position action unlined here proper inside ih =>
    have kind := here.1.mpr top
    cases action with
    | function returns name params body =>
      refine h.function sound proper (fun a ha => ?_) run
      have fits := inside (.statement, a) (by simpa [Action.parts] using ha)
      exact (fits.functionless_of_ne_item (by simp)).anywhere
    | lined => cases unlined
    | _ => cases kind

def contextAfter (c : Context) (actions : List Action) : Context := (exec (buildAll actions) c).2

@[simp] theorem contextAfter_nil (c : Context) : contextAfter c [] = c := rfl

theorem contextAfter_cons {a : Action} {actions : List Action} {c d : Context} {n : Node}
    (h : exec (build a) c = (.ok n, d)) :
    contextAfter c (a :: actions) = contextAfter d actions := by
  unfold contextAfter
  rw [buildAll, exec_bind, h]
  change (exec (buildAll actions >>= fun ns => pure (n :: ns)) d).2 = _
  rw [exec_bind]
  cases exec (buildAll actions) d with
  | mk r e => cases r <;> rfl

structure Judged (earlier : List Ruling) (actions : List Action) (c : Context) (nodes : List Node)
    (rulings : List Ruling) : Prop where
  ruled : List.zipWith (fun a n => a.ruling? n) actions nodes = rulings.map some
  length : rulings.length = actions.length
  follows : ∀ (k : Nat) (r : Ruling), rulings[k]? = some r → r.Follows (earlier ++ rulings.take k)
    (contextAfter c (actions.take k)) (contextAfter c (actions.take (k + 1)))
  records : ∀ k, Records (earlier ++ rulings.take k) (contextAfter c (actions.take k)).table
  sound : ∀ k, (contextAfter c (actions.take k)).table.Sound

theorem Judged.cons {earlier : List Ruling} {a : Action} {actions : List Action} {c d : Context}
    {n : Node} {nodes : List Node} {r : Ruling} {rulings : List Ruling}
    (h : Judged (earlier ++ [r]) actions d nodes rulings) (head : exec (build a) c = (.ok n, d))
    (ruled : a.ruling? n = some r) (follows : r.Follows earlier c d)
    (records : Records earlier c.table) (sound : c.table.Sound) :
    Judged earlier (a :: actions) c (n :: nodes) (r :: rulings) where
  ruled := by rw [List.zipWith_cons_cons, ruled, h.ruled, List.map_cons]
  length := by rw [List.length_cons, List.length_cons, h.length]
  follows k q hq := by
    cases k with
    | zero =>
      obtain rfl : r = q := by simpa using hq
      simpa [contextAfter_cons head] using follows
    | succ k =>
      have later := h.follows k q (by simpa using hq)
      simpa [contextAfter_cons head] using later
  records k := by
    cases k with
    | zero => simpa using records
    | succ k => simpa [contextAfter_cons head] using h.records k
  sound k := by
    cases k with
    | zero => simpa using sound
    | succ k => simpa [contextAfter_cons head] using h.sound k

theorem judged {earlier : List Ruling} {actions : List Action}
    (fits : ∀ a ∈ actions, a.Fits prototypes .item) {c : Context} (h : Records earlier c.table)
    (sound : c.table.Sound) :
    ∃ nodes d rulings, exec (buildAll actions) c = (.ok nodes, d) ∧
      Judged earlier actions c nodes rulings := by
  induction actions generalizing earlier c with
  | nil =>
    refine ⟨[], c, [], rfl, rfl, rfl, by simp, fun k => ?_, fun k => ?_⟩
    · simpa using h
    · simpa using sound
  | cons a actions ih =>
    obtain ⟨ha, hactions⟩ := List.forall_mem_cons.mp fits
    have flawless : a.Fits flawless .item := ha.imp And.right fun _ _ => And.right
    obtain ⟨t, n, d, run⟩ := flawless.total c
    obtain ⟨r, hr, follows, records⟩ := h.item ha rfl sound run
    obtain ⟨nodes, e, rulings, built, rest⟩ := ih hactions records (run.sound sound)
    have head := exec_one_node.mp (exec_of_run run)
    refine ⟨n :: nodes, e, r :: rulings, exec_buildAll_cons.mpr ⟨n, nodes, d, head, built, rfl⟩, ?_⟩
    exact rest.cons head hr follows h sound

namespace Ruling.Follows

variable {r : Ruling} {earlier : List Ruling} {c d : Context}

theorem hasBody_eq_false (h : r.Follows earlier c d) (accepted : r.accepted = true) :
    hasBody r.name earlier = false := by
  cases first : firstOf r.name earlier with
  | some q => exact (h.accepted.mp accepted q first).2
  | none =>
    rw [firstOf, List.find?_eq_none] at first
    rw [hasBody, List.any_eq_false]
    intro q hq bodied
    simp only [Bool.and_eq_true] at bodied
    exact first q hq bodied.1.1

theorem reported (h : r.Follows earlier c d) :
    (d.log.diagnostics.drop c.log.diagnostics.length).filter
        (fun x => x.kind = .multipleDefinitionFn) =
      if r.accepted then [] else [⟨r.line, .redeclaredFunction r.name⟩] := by
  obtain ⟨new, hd⟩ := h.log
  have all := h.redeclarations
  simp only [Context.redeclarations, ← hd, List.filter_append] at all
  rw [← hd, List.drop_left]
  exact List.append_cancel_left all

end Ruling.Follows

theorem Records.undefined {rulings : List Ruling} {t : Table} (h : Records rulings t) :
    t.undefined.map Symbol.name =
      ((firsts rulings).filter fun r => !hasBody r.name rulings).map fun r => r.name := by
  have functions : t.undefined = t.inner.functions.filter fun s => !t.isDefined s := by
    rw [← h.declared, Table.declaredFunctions, List.filter_filter, Table.undefined]
    simp only [Bool.and_comm]
  have bodies : (t.inner.functions.filter fun s => !t.isDefined s) =
      t.inner.functions.filter fun s => !hasBody s.name rulings := by
    refine List.filter_congr fun s hs => ?_
    rw [Table.isDefined, Bool.eq_iff_iff.mpr (List.contains_iff_mem.trans (h.defined s hs))]
  let lacks : Heading → Bool := fun x => !hasBody x.name rulings
  calc t.undefined.map Symbol.name
    _ = ((t.inner.functions.map Symbol.heading).filter lacks).map Heading.name := by
      rw [functions, bodies, List.filter_map, List.map_map]
      rfl
    _ = (((firsts rulings).map Ruling.toHeading).filter lacks).map Heading.name := by
      rw [h.headings]
    _ = _ := by
      rw [List.filter_map, List.map_map]
      rfl

theorem firstOf_take {rulings : List Ruling} {k later : Nat} {r : Ruling}
    (hr : rulings[k]? = some r) (first : firstOf r.name (rulings.take k) = none)
    (hk : k < later) : firstOf r.name (rulings.take later) = some r := by
  have own : firstOf r.name (rulings.take (k + 1)) = some r := by
    rw [List.take_add_one, hr, Option.toList_some, firstOf_concat, first]
    simp
  obtain ⟨rest, hrest⟩ := List.take_prefix_take_left (l := rulings) hk
  rw [firstOf] at own ⊢
  rw [← hrest, List.find?_append, own, Option.some_or]

namespace Judged

variable {actions : List Action} {c : Context} {nodes : List Node} {rulings : List Ruling}

theorem functionNamed (h : Judged [] actions c nodes rulings) {k : Nat} {r : Ruling}
    (hr : rulings[k]? = some r) (first : firstOf r.name (rulings.take k) = none) {later : Nat}
    (hk : k < later) :
    ∃ f, (contextAfter c (actions.take later)).table.functionNamed r.name = some f ∧
      f.paramTypes = r.signature.params ∧ f.returns? = some r.signature.returns ∧
      f.line = r.line := by
  have found := (h.records later).functionNamed r.name
  rw [List.nil_append, firstOf_take hr first hk] at found
  obtain ⟨f, hf, heading⟩ := Option.map_eq_some_iff.mp found
  have visible := Table.functionNamed_of_inner hf
  obtain ⟨-, ⟨params, returns, shape, -⟩, -⟩ := (h.sound later).functionNamed visible
  have signature : f.signature = r.signature := congrArg Heading.signature heading
  have given : f.returns? = some returns := by rw [Symbol.returns?, shape]
  refine ⟨f, visible, congrArg Signature.params signature, ?_, congrArg Heading.line heading⟩
  rw [← signature, Symbol.signature, given]
  rfl

theorem pairwise (h : Judged [] actions c nodes rulings) :
    rulings.Pairwise fun q r => q.name.same r.name = true → q.accepted = true →
      q.bodied = true → r.accepted = true → r.bodied = false := by
  rw [List.pairwise_iff_getElem]
  intro i j hi hj hij same accepted bodied accepted'
  have follows := h.follows j rulings[j] (List.getElem?_eq_getElem hj)
  have earlier : rulings[i] ∈ rulings.take j := by
    rw [List.mem_take_iff_getElem]
    exact ⟨i, by omega, rfl⟩
  have unbodied := follows.hasBody_eq_false accepted'
  rw [List.nil_append, hasBody, List.any_eq_false] at unbodied
  exact absurd (by simp [same, accepted, bodied]) (unbodied _ earlier)

end Judged

namespace Session

theorem context_ticks (s : Session) (program : List Value) (name : String) (k : Nat) :
    let built := ((s.begin (.list program) name).2.ticks k).2
    built.context = contextAfter { reportAll := s.options.reportAll }
      ((program.map Action.ofValue).take k) ∧ built.finished = false := by
  intro built
  obtain ⟨building, context, finished, -⟩ := s.begin_list program name
  obtain ⟨reached, unfinished⟩ := ticks_spec building k
  rw [context] at reached
  exact ⟨reached, unfinished.trans finished⟩

/-- Each name has its own protocol: the first function settles what the name means, later ones are
accepted or reported, one body is taken, and the end reports the names without one. -/
theorem prototypes_follow_protocol (s : Session) {program : List Value} (name : String)
    (functions : ∀ v ∈ program, (Action.ofValue v).Fits prototypes .item) :
    let begun := (s.begin (.list program) name).2
    let built (k : Nat) := (begun.ticks k).2
    (begun.ticks program.length).1 = .ok () ∧
      ∃ rulings : List Ruling, rulings.length = program.length ∧
        List.zipWith (fun v n => (Action.ofValue v).ruling? n) program
          (built program.length).lines = rulings.map some ∧
        (∀ (k : Nat) (r : Ruling), rulings[k]? = some r →
          (r.accepted = true ↔ ∀ first ∈ firstOf r.name (rulings.take k),
            r.signature = first.signature ∧ hasBody r.name (rulings.take k) = false) ∧
          (firstOf r.name (rulings.take k) = none → ∀ later > k, ∃ f,
            (built later).context.table.functionNamed r.name = some f ∧
              f.paramTypes = r.signature.params ∧ f.returns? = some r.signature.returns ∧
              f.line = r.line) ∧
          ((built (k + 1)).diagnostics.drop (built k).diagnostics.length).filter
              (fun d => d.kind = .multipleDefinitionFn) =
            (if r.accepted then [] else [⟨r.line, .redeclaredFunction r.name⟩]) ∧
          (r.accepted = false →
            (built (k + 1)).context.table.defined = (built k).context.table.defined)) ∧
        (rulings.Pairwise fun q r => q.name.same r.name = true → q.accepted = true →
          q.bodied = true → r.accepted = true → r.bodied = false) ∧
        (built program.length).finish.1.diagnostics.map (·.problem) =
          ((firsts rulings).filter fun r => !hasBody r.name rulings).map fun r =>
            .neverDefined r.name := by
  intro begun built
  obtain ⟨building, context, -, lines⟩ := s.begin_list program name
  have fits : ∀ a ∈ program.map Action.ofValue, a.Fits prototypes .item := by
    simpa using functions
  have sound : ({ reportAll := s.options.reportAll } : Context).table.Sound := .empty
  obtain ⟨nodes, d, rulings, all, judged⟩ := judged fits Records.empty sound
  have done := (ticks_ok building).mpr ⟨nodes, d, by rw [context]; exact all, rfl⟩
  rw [List.length_map] at done
  have reached (k : Nat) := s.context_ticks program name k
  refine ⟨congrArg Prod.fst done, rulings, ?_, ?_, fun k r hr => ⟨?_, ?_, ?_, ?_⟩,
    judged.pairwise, ?_⟩
  · rw [judged.length, List.length_map]
  · have shown : (built program.length).lines = nodes := by
      simp only [built, begun, done, lines, List.nil_append]
    rw [shown, ← judged.ruled, List.zipWith_map_left]
  · exact (judged.follows k r hr).accepted
  · intro first later hk
    rw [(reached later).1]
    exact judged.functionNamed hr first hk
  · rw [diagnostics, diagnostics, (reached k).1, (reached (k + 1)).1]
    exact (judged.follows k r hr).reported
  · rw [(reached k).1, (reached (k + 1)).1]
    exact (judged.follows k r hr).rejected
  · have records := judged.records program.length
    rw [List.nil_append, List.take_of_length_le (by simp [judged.length])] at records
    rw [diagnostics_finish (reached program.length).2, (reached program.length).1, List.map_map]
    have names := congrArg (List.map Problem.neverDefined) records.undefined
    simpa [Function.comp_def] using names

def rivals : List Value :=
  let function (returns name : String) (line : Int) (body : List (String × Value)) : Value :=
    .object ([("node", .string "function"), ("returns", .string returns), ("name", .string name),
      ("params", .list []), ("line", .int line)] ++ body)
  [function "int" "f" 2 [], function "float" "f" 3 [], function "int" "f" 4 [("body", .list [])],
    function "int" "f" 5 [("body", .list [])], function "void" "g" 6 []]

theorem prototypes_follow_protocol_rivals : ∃ (built : Session) (rulings : List Ruling),
    ((Session.new {}).begin (.list rivals) "").2.ticks rivals.length = (.ok (), built) ∧
      (∀ v ∈ rivals, (Action.ofValue v).Fits prototypes .item) ∧
      rulings.map Ruling.accepted = [true, false, true, false, true] ∧
      built.finish.1.diagnostics.map (·.problem) =
        ((firsts rulings).filter fun r => !hasBody r.name rulings).map
          (fun r => .neverDefined r.name) ∧
      built.finish.1.diagnostics.map (·.problem) = [.neverDefined (.text "g")] := by
  obtain ⟨hcheck, accepted, last⟩ :
      (rivals.all fun v => v.conforms prototypes 2 .item) = true ∧
      (List.zipWith (fun v n => (Action.ofValue v).ruling? n) rivals
        (((Session.new {}).begin (.list rivals) "").2.ticks rivals.length).2.lines).map
          (Option.map Ruling.accepted) = [true, false, true, false, true].map some ∧
      (((Session.new {}).begin (.list rivals) "").2.ticks
        rivals.length).2.finish.1.diagnostics.map (·.problem) = [.neverDefined (.text "g")] := by
    decide +kernel
  have functions : ∀ v ∈ rivals, (Action.ofValue v).Fits prototypes .item := fun v hv =>
    (Conforms.forall_of_check hcheck v hv).fits (by decide)
  obtain ⟨done, rulings, -, ruled, -, -, finish⟩ :=
    prototypes_follow_protocol (Session.new {}) "" functions
  dsimp only at ruled finish
  rw [ruled, List.map_map] at accepted
  generalize ((Session.new {}).begin (.list rivals) "").2.ticks rivals.length = ticked at *
  refine ⟨ticked.2, rulings, Prod.ext done rfl, functions, ?_, finish, last⟩
  refine List.map_injective_iff.mpr (fun _ _ => Option.some.inj) ?_
  rw [List.map_map]
  exact accepted

end Session

end Treewright
