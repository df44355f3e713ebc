import Treewright.Proofs.Effects
import Treewright.Proofs.Format
set_option autoImplicit false

namespace Treewright

/-- The fields in which one action may stand, for a list of them or for a text. -/
def Kind.loose : Kind → List String
  | .arrayDecl => ["size"]
  | .block => ["lines"]
  | .conditional => ["then", "else"]
  | .loop => ["body"]
  | _ => []

/-- An action in a document is built, or it is a block of which only the lines are. -/
inductive Standing where
  | built
  | opened
  deriving DecidableEq, Repr, Inhabited

def kindOf? (fs : List (String × Value)) : Option Kind :=
  match fieldOf? "node" fs with
  | some (.string word) => Kind.ofWord? word
  | _ => none

namespace Value

def isBlock : Value → Bool
  | .object fs => fieldOf? "node" fs = some (.string "block")
  | _ => false

/-- The lines of a block that has a list of them. -/
def lines? : Value → Option (List Value)
  | .object fs =>
    match fieldOf? "lines" fs with
    | some (.list items) => some items
    | _ => none
  | _ => none

theorem eq_of_lines? {v : Value} {items : List Value} (h : v.lines? = some items) :
    ∃ fs, v = .object fs ∧ fieldOf? "lines" fs = some (.list items) := by
  cases v with
  | object fs =>
    simp only [lines?] at h
    split at h
    · rename_i lines hl
      cases h
      exact ⟨fs, rfl, hl⟩
    · cases h
  | _ => cases h

end Value

namespace Entry

variable (k : Kind) (e : Entry) (fs : List (String × Value))

def alone? : Option Value := (e.value? fs).filter fun v => v.isObject && k.loose.contains e.key

/-- A block is opened where statements are asked for. -/
def standing (v : Value) : Standing := if v.isBlock ∧ e.slot ≠ .plain then .opened else .built

/-- The field follows the format, or one action stands in it. -/
def follows : Bool :=
  match e.alone? k fs with
  | some v => e.standing v = .built || v.lines?.isSome
  | none => e.admits fs

def documents : List (Standing × Value) :=
  match e.alone? k fs with
  | some v => [(e.standing v, v)]
  | none => (e.parts fs).map fun part => (.built, part.2)

end Entry

def Value.documents : Value → List (Standing × Value)
  | .object fs => (kindOf? fs).elim [] fun k => k.format.flatMap (·.documents k fs)
  | _ => []

/-- Checks a document down to a depth: every action in it is of a known kind, has the fields of its
kind, and says no line or a whole number. -/
def Value.isLoose : Nat → Value → Bool
  | depth + 1, .object fs => (kindOf? fs).any fun k =>
    (fieldOf? "line" fs).all (fun v => v.whole?.any fun n => v = .int n) &&
      k.format.all (·.follows k fs) &&
      (Value.object fs).documents.all fun part => part.2.isLoose depth
  | _, _ => false

/-- The line is at an action of the document that stands in the given way. How the document itself
stands is said apart. -/
inductive Notes (line : Int) (how : Standing) : Standing → Value → Prop where
  | here {v : Value} (h : v.line? = some line) : Notes line how how v
  | inside {standing : Standing} {v : Value} {part : Standing × Value} (hp : part ∈ v.documents)
      (h : Notes line how part.1 part.2) : Notes line how standing v

theorem notes_iff {line : Int} {how standing : Standing} {v : Value} :
    Notes line how standing v ↔ how = standing ∧ v.line? = some line ∨
      ∃ part ∈ v.documents, Notes line how part.1 part.2 := by
  constructor
  · intro h
    cases h with
    | here h => exact .inl ⟨rfl, h⟩
    | inside hp h => exact .inr ⟨_, hp, h⟩
  · intro h
    rcases h with ⟨rfl, h⟩ | ⟨part, hp, h⟩
    · exact .here h
    · exact .inside hp h

def notes (how : Standing) : Nat → Standing × Value → List Int
  | 0, _ => []
  | depth + 1, (standing, v) =>
    (if how = standing then v.line?.toList else []) ++ v.documents.flatMap (notes how depth ·)

def actionsOf : Standing × Value → List Action
  | (.built, v) => [Action.ofValue v]
  | (.opened, v) => (v.lines?.getD []).map Action.ofValue

namespace Entry

variable {k : Kind} {e : Entry} {fs : List (String × Value)}

def actions (k : Kind) (e : Entry) (fs : List (String × Value)) : List Action :=
  (e.documents k fs).flatMap actionsOf

theorem actions_of_usual (h : e.alone? k fs = none) :
    e.actions k fs = (e.parts fs).map fun part => Action.ofValue part.2 := by
  simp only [actions, documents, h, List.flatMap_map, actionsOf]
  exact List.map_eq_flatMap.symm

theorem actions_of_alone {v : Value} (h : e.alone? k fs = some v) :
    e.actions k fs = actionsOf (e.standing v, v) := by
  simp [actions, documents, h]

theorem alone?_of_not_mem (h : e.key ∉ k.loose) : e.alone? k fs = none := by
  simp [alone?, h]

theorem actions_of_not_mem (h : e.key ∉ k.loose) :
    e.actions k fs = (e.parts fs).map fun part => Action.ofValue part.2 :=
  actions_of_usual (alone?_of_not_mem h)

theorem admits_of_follows (h : e.key ∉ k.loose) (hf : e.follows k fs = true) :
    e.admits fs = true := by
  simpa [follows, alone?_of_not_mem h] using hf

theorem value?_of_alone? {v : Value} (h : e.alone? k fs = some v) :
    e.value? fs = some v ∧ v.isObject = true := by
  obtain ⟨hv, ho⟩ := Option.filter_eq_some_iff.mp h
  simp only [Bool.and_eq_true] at ho
  exact ⟨hv, ho.1⟩

theorem field_of_follows {key : String} {slot : Slot}
    (hf : (Entry.mk key .required slot).follows k fs = true) : ∃ v, fieldOf? key fs = some v := by
  cases hv : fieldOf? key fs with
  | some v => exact ⟨v, rfl⟩
  | none => simp [follows, alone?, admits, value?, hv] at hf

theorem opened_of_documents (hf : e.follows k fs = true) {part : Standing × Value}
    (hp : part ∈ e.documents k fs) (ho : part.1 = .opened) :
    part.2.isBlock = true ∧ ∃ items, part.2.lines? = some items := by
  unfold documents at hp
  split at hp
  · rename_i v hv
    obtain rfl := List.mem_singleton.mp hp
    replace ho : e.standing v = .opened := ho
    have hblock : v.isBlock = true := by
      cases hb : v.isBlock with
      | true => rfl
      | false => simp [standing, hb] at ho
    simp only [follows, hv, ho, reduceCtorEq, decide_false, Bool.false_or] at hf
    exact ⟨hblock, Option.isSome_iff_exists.mp hf⟩
  · obtain ⟨doc, -, rfl⟩ := List.mem_map.mp hp
    cases ho

end Entry

namespace Reading

theorem valueOf_readFields (fs : List (String × Value)) (key : String) :
    valueOf (readFields fs) key = (fieldOf? key fs).getD .null := by
  cases h : fieldOf? key fs <;> simp [valueOf, fieldOf?_readFields, h, Value.value_read]

theorem statements_block {v : Value} {items : List Value} (h : v.isBlock = true)
    (hl : v.lines? = some items) : v.read.statements = .ok (items.map Action.ofValue) := by
  obtain ⟨fs, rfl, hlines⟩ := Value.eq_of_lines? hl
  have hnode : fieldOf? "node" fs = some (.string "block") := by simpa [Value.isBlock] using h
  have hopen : (Value.object fs).read.statements = (Value.list items).read.sequence := by
    simp only [Value.read, ofObject, valueOf_readFields, hnode, Option.getD_some, if_true,
      require_readFields hlines]
    rfl
  rw [hopen, sequence_list]

theorem statements_single {v : Value} (h : v.isObject = true) (hb : v.isBlock = false) :
    v.read.statements = .ok [Action.ofValue v] := by
  cases v with
  | object fs =>
    have hnode : (fieldOf? "node" fs).getD .null ≠ .string "block" := by
      intro he
      cases hn : fieldOf? "node" fs <;> simp_all [Value.isBlock]
    simp [Value.read, ofObject, valueOf_readFields, hnode, Action.ofValue]
  | _ => cases h

theorem statements_of_follows {k : Kind} {e : Entry} {fs : List (String × Value)} {v : Value}
    (hslot : e.slot = .actions .statement) (hf : e.follows k fs = true)
    (hv : e.value? fs = some v) : v.read.statements = .ok (e.actions k fs) := by
  cases ha : e.alone? k fs with
  | some w =>
    obtain ⟨hw, ho⟩ := Entry.value?_of_alone? ha
    cases hv.symm.trans hw
    rw [Entry.actions_of_alone ha]
    cases hb : v.isBlock with
    | false =>
      have hs : e.standing v = .built := by simp [Entry.standing, hb]
      rw [hs, statements_single ho hb, actionsOf]
    | true =>
      have hs : e.standing v = .opened := by simp [Entry.standing, hb, hslot]
      simp only [Entry.follows, ha, hs, reduceCtorEq, decide_false, Bool.false_or] at hf
      obtain ⟨items, hl⟩ := Option.isSome_iff_exists.mp hf
      rw [hs, statements_block hb hl, actionsOf, hl, Option.getD_some]
  | none =>
    have hadmits : e.admits fs = true := by simpa [Entry.follows, ha] using hf
    have hlist := Entry.admits_of_value? hadmits hv
    rw [hslot] at hlist
    obtain ⟨items, rfl⟩ := Slot.list_of_actions hlist
    rw [statements_list, Entry.actions_of_usual ha]
    simp [Entry.parts, hv, hslot, Slot.parts]

theorem required_statements {k : Kind} {fs : List (String × Value)} {key : String}
    (hf : (Entry.mk key .required (.actions .statement)).follows k fs = true) :
    ∃ v, fieldOf? key fs = some v ∧
      v.read.statements = .ok ((Entry.mk key .required (.actions .statement)).actions k fs) := by
  obtain ⟨v, hv⟩ := Entry.field_of_follows hf
  exact ⟨v, hv, statements_of_follows rfl hf hv⟩

theorem optional_statements {k : Kind} {fs : List (String × Value)} {key : String}
    (hf : (Entry.mk key .optional (.actions .statement)).follows k fs = true) :
    ∃ items, (Value.given? key fs).mapM (·.read.statements) = .ok items ∧
      items.getD [] = (Entry.mk key .optional (.actions .statement)).actions k fs := by
  cases hv : Value.given? key fs with
  | none =>
    refine ⟨none, rfl, ?_⟩
    simp [Entry.actions, Entry.documents, Entry.alone?, Entry.parts, Entry.value?, hv]
  | some v =>
    refine ⟨some _, ?_, rfl⟩
    rw [Option.mapM_some, statements_of_follows rfl hf hv]
    rfl

end Reading

namespace Entry

variable {k : Kind} {fs : List (String × Value)} {key : String} {presence : Presence}

theorem actions_plain {slot : Slot} (h : key ∉ k.loose)
    (plain : slot ∈ [.name, .type, .operator, .label, .plain, .params]) :
    (Entry.mk key presence slot).actions k fs = [] := by
  rw [actions_of_not_mem h, parts]
  cases (Entry.mk key presence slot).value? fs with
  | none => rfl
  | some v => cases slot <;> simp_all [Slot.parts]

theorem actions_action {position : Position} (h : key ∉ k.loose) :
    (Entry.mk key presence (.action position)).actions k fs =
      ((Entry.mk key presence (.action position)).value? fs).toList.map Action.ofValue := by
  rw [actions_of_not_mem h, parts]
  cases (Entry.mk key presence (.action position)).value? fs <;> rfl

theorem actions_actions {position : Position} {items : List Value} (h : key ∉ k.loose)
    (hv : ((Entry.mk key presence (.actions position)).value? fs).getD (.list []) = .list items) :
    (Entry.mk key presence (.actions position)).actions k fs = items.map Action.ofValue := by
  rw [actions_of_not_mem h, parts]
  cases hw : (Entry.mk key presence (.actions position)).value? fs with
  | none =>
    rw [hw] at hv
    cases hv
    rfl
  | some w =>
    rw [hw] at hv
    cases hv
    simp [Slot.parts]

end Entry

/-- The parts of the action are what is built for the fields. Constants are left out, as no document
stands for the value of a literal. -/
structure Spells (k : Kind) (fs : List (String × Value)) (action : Action) : Prop where
  kind : action.kind = k
  unlined : action.isLined = false
  parts (P : Action → Prop) (constants : ∀ type text, P (.constant type text)) :
    (∀ part ∈ action.parts, P part.2) ↔ ∀ e ∈ k.format, ∀ a ∈ e.actions k fs, P a

namespace Reading

variable {fs : List (String × Value)}

theorem spells_declaration (own : ∀ e ∈ Kind.declaration.format, e.admits fs = true) :
    Spells .declaration fs (declaration (readFields fs)) := by
  obtain ⟨type, kind, symbolType, bindings, items, heq, -, hb, hinside⟩ :=
    declaration_readFields own
  have hactions : (Entry.mk "bindings" .required .bindings).actions .declaration fs =
      (items.flatMap Value.initial).map Action.ofValue := by
    rw [Entry.actions_of_not_mem (by simp [Kind.loose])]
    simp [Entry.parts, Entry.value?, hb, Slot.parts, List.map_flatMap, Function.comp_def]
  rw [heq]
  refine ⟨rfl, rfl, fun P constants => ?_⟩
  simp only [Action.parts, List.forall_mem_flatMap, List.forall_mem_map, hinside P constants,
    Kind.format, List.forall_mem_cons, hactions]
  simp [Kind.loose, Entry.actions_plain]

theorem spells_constant (own : ∀ e ∈ Kind.constant.format, e.admits fs = true) :
    Spells .constant fs (constant (readFields fs)) := by
  obtain ⟨type, text, heq⟩ := constant_readFields own
  rw [heq]
  refine ⟨rfl, rfl, fun P _ => ?_⟩
  simp [Action.parts, Kind.format, Kind.loose, Entry.actions_plain]

theorem spells_operation (own : ∀ e ∈ Kind.operation.format, e.admits fs = true) :
    Spells .operation fs (operation (readFields fs)) := by
  obtain ⟨op, items, hv, heq⟩ := operation_readFields own
  have hactions : (Entry.mk "operands" .required .operands).actions .operation fs =
      items.map Action.ofValue := by
    rw [Entry.actions_of_not_mem (by simp [Kind.loose])]
    simp [Entry.parts, Entry.value?, hv, Slot.parts]
  rw [heq]
  refine ⟨rfl, rfl, fun P _ => ?_⟩
  simp [Action.parts, Kind.format, Kind.loose, Entry.actions_plain, hactions]

theorem spells_unary {k : Kind} {make : Action → Action} (hk : ∀ a, (make a).kind = k)
    (hu : ∀ a, (make a).isLined = false) (hp : ∀ a, (make a).parts = [(.expression, a)])
    (hf : k.format = [⟨"operand", .required, .action .expression⟩]) (hl : k.loose = [])
    (own : ∀ e ∈ k.format, e.admits fs = true) : Spells k fs (unary make (readFields fs)) := by
  have hoperand : ⟨"operand", .required, .action .expression⟩ ∈ k.format := by simp [hf]
  obtain ⟨v, hv, -⟩ := Entry.of_required (own _ hoperand)
  rw [unary_readFields make hv]
  refine ⟨hk _, hu _, fun P _ => ?_⟩
  simp [hp, hf, hl, Entry.actions_action, Entry.value?, hv]

theorem spells_cast (own : ∀ e ∈ Kind.cast.format, e.admits fs = true) :
    Spells .cast fs (cast (readFields fs)) := by
  obtain ⟨type, v, hv, heq⟩ := cast_readFields own
  rw [heq]
  refine ⟨rfl, rfl, fun P _ => ?_⟩
  simp [Action.parts, Kind.format, Kind.loose, Entry.actions_plain, Entry.actions_action,
    Entry.value?, hv]

theorem spells_call (own : ∀ e ∈ Kind.call.format, e.admits fs = true) :
    Spells .call fs (call (readFields fs)) := by
  obtain ⟨name, items, hitems, heq⟩ := call_readFields own
  have hactions : (Entry.mk "args" .defaulted (.actions .expression)).actions .call fs =
      items.map Action.ofValue :=
    Entry.actions_actions (by simp [Kind.loose]) (by simpa [Entry.value?] using hitems)
  rw [heq]
  refine ⟨rfl, rfl, fun P _ => ?_⟩
  simp [Action.parts, Kind.format, Kind.loose, Entry.actions_plain, hactions]

theorem spells_access (own : ∀ e ∈ Kind.access.format, e.admits fs = true) :
    Spells .access fs (access (readFields fs)) := by
  obtain ⟨name, v, hv, heq⟩ := access_readFields own
  rw [heq]
  refine ⟨rfl, rfl, fun P _ => ?_⟩
  simp [Action.parts, Kind.format, Kind.loose, Entry.actions_plain, Entry.actions_action,
    Entry.value?, hv]

theorem spells_assign (own : ∀ e ∈ Kind.assign.format, e.admits fs = true) :
    Spells .assign fs (assign (readFields fs)) := by
  obtain ⟨v, hv, -⟩ :=
    Entry.of_required (own ⟨"target", .required, .action .expression⟩ (by decide))
  obtain ⟨w, hw, -⟩ := Entry.of_required (own ⟨"value", .required, .action .expression⟩ (by decide))
  rw [assign_readFields hv hw]
  refine ⟨rfl, rfl, fun P _ => ?_⟩
  simp [Action.parts, Kind.format, Kind.loose, Entry.actions_action, Entry.value?, hv, hw]

theorem spells_function (own : ∀ e ∈ Kind.function.format, e.admits fs = true) :
    Spells .function fs (function (readFields fs)) := by
  obtain ⟨returns, name, params, heq⟩ := function_readFields own
  obtain ⟨lines, hlines, hbody⟩ : ∃ lines, (Value.given? "body" fs).getD (.list []) = .list lines ∧
      ((Value.given? "body" fs).map fun v => bodyOf v.read).getD [] =
        lines.map Action.ofValue := by
    cases hr : Value.given? "body" fs with
    | none => exact ⟨[], rfl, rfl⟩
    | some r =>
      have hadmits := own ⟨"body", .optional, .actions .statement⟩ (by decide)
      obtain ⟨lines, rfl⟩ := Slot.list_of_actions (Entry.admits_of_value? hadmits hr)
      exact ⟨lines, rfl, by simp [bodyOf, sequence_list]⟩
  have hactions : (Entry.mk "body" .optional (.actions .statement)).actions .function fs =
      lines.map Action.ofValue :=
    Entry.actions_actions (by simp [Kind.loose]) hlines
  rw [heq]
  refine ⟨rfl, rfl, fun P _ => ?_⟩
  simp [Action.parts, Kind.format, Kind.loose, Entry.actions_plain, hactions, hbody]

theorem spells_ret :
    Spells .ret fs (.ret ((optional (readFields fs) "operand").map (·.action))) := by
  refine ⟨rfl, rfl, fun P _ => ?_⟩
  simp [Action.parts, Kind.format, Kind.loose, Entry.actions_action, Entry.value?,
    optional_readFields, Action.ofValue]

theorem spells_variable (own : ∀ e ∈ Kind.variable.format, e.admits fs = true) :
    Spells .variable fs (orFaulty [] do return .variable (← nameField (readFields fs))) := by
  obtain ⟨n, hn, hname⟩ := Entry.of_required (own ⟨"name", .required, .name⟩ (by decide))
  obtain ⟨name, hna⟩ := nameField_readFields hn hname
  rw [hna]
  refine ⟨rfl, rfl, fun P _ => ?_⟩
  change (∀ part ∈ (Action.variable (.text name)).parts, P part.2) ↔ _
  simp [Action.parts, Kind.format, Kind.loose, Entry.actions_plain]

theorem spells_nop : Spells .nop fs .nop := by
  refine ⟨rfl, rfl, fun P _ => ?_⟩
  simp [Action.parts, Kind.format]

theorem spells_arrayDecl (own : ∀ e ∈ Kind.arrayDecl.format, e.follows .arrayDecl fs = true) :
    Spells .arrayDecl fs (arrayDecl (readFields fs)) := by
  obtain ⟨t, ht, htype⟩ := Entry.of_required (Entry.admits_of_follows (by simp [Kind.loose])
    (own ⟨"type", .required, .type⟩ (by decide)))
  obtain ⟨n, hn, hname⟩ := Entry.of_required (Entry.admits_of_follows (by simp [Kind.loose])
    (own ⟨"name", .required, .name⟩ (by decide)))
  have follows := own ⟨"size", .required, .plain⟩ (by decide)
  obtain ⟨v, hv⟩ := Entry.field_of_follows follows
  obtain ⟨type, hty⟩ := typeField_readFields ht htype
  obtain ⟨name, hna⟩ := nameField_readFields hn hname
  have written (plain : v.isObject = false) : v.writable = true := by
    have usual : (Entry.mk "size" .required .plain).alone? .arrayDecl fs = none := by
      simp [Entry.alone?, Entry.value?, hv, plain]
    rw [Entry.follows, usual] at follows
    have admitted := Entry.admits_of_value? follows hv
    simpa [Slot.admits, plain] using admitted
  rw [arrayDecl_of_header hty hna hv written]
  cases ho : v.isObject with
  | false =>
    have hactions : (Entry.mk "size" .required .plain).actions .arrayDecl fs = [] := by
      rw [Entry.actions_of_usual (by simp [Entry.alone?, Entry.value?, hv, ho])]
      simp [Entry.parts, Entry.value?, hv, Slot.parts]
    refine ⟨rfl, rfl, fun P _ => ?_⟩
    simp [Action.parts, Kind.format, Kind.loose, Entry.actions_plain, hactions]
  | true =>
    have halone : (Entry.mk "size" .required .plain).alone? .arrayDecl fs = some v := by
      simp [Entry.alone?, Entry.value?, hv, Option.filter, ho, Kind.loose]
    have hactions : (Entry.mk "size" .required .plain).actions .arrayDecl fs =
        [Action.ofValue v] := by
      simp [Entry.actions_of_alone halone, Entry.standing, actionsOf]
    refine ⟨rfl, rfl, fun P _ => ?_⟩
    simp [Action.parts, Kind.format, Kind.loose, Entry.actions_plain, hactions]

theorem spells_block (own : ∀ e ∈ Kind.block.format, e.follows .block fs = true) :
    Spells .block fs (block (readFields fs)) := by
  obtain ⟨v, hv, hs⟩ :=
    required_statements (own ⟨"lines", .required, .actions .statement⟩ (by decide))
  rw [block_readFields hv hs]
  refine ⟨rfl, rfl, fun P _ => ?_⟩
  simp [Action.parts, Kind.format]

theorem spells_conditional (own : ∀ e ∈ Kind.conditional.format, e.follows .conditional fs = true) :
    Spells .conditional fs (conditional (readFields fs)) := by
  obtain ⟨v, hv⟩ :=
    Entry.field_of_follows (own ⟨"condition", .required, .action .expression⟩ (by decide))
  obtain ⟨w, hw, hs⟩ :=
    required_statements (own ⟨"then", .required, .actions .statement⟩ (by decide))
  obtain ⟨rejected, hr, hactions⟩ :=
    optional_statements (own ⟨"else", .optional, .actions .statement⟩ (by decide))
  rw [conditional_readFields hv hw hs hr]
  refine ⟨rfl, rfl, fun P _ => ?_⟩
  simp [Action.parts, Kind.format, Kind.loose, Entry.actions_action, Entry.value?, hv, hactions,
    or_imp, forall_and]

theorem spells_loop (own : ∀ e ∈ Kind.loop.format, e.follows .loop fs = true) :
    Spells .loop fs (loop (readFields fs)) := by
  obtain ⟨v, hv⟩ :=
    Entry.field_of_follows (own ⟨"test", .required, .action .expression⟩ (by decide))
  obtain ⟨w, hw, hs⟩ :=
    required_statements (own ⟨"body", .required, .actions .statement⟩ (by decide))
  rw [loop_readFields hv hw hs]
  refine ⟨rfl, rfl, fun P _ => ?_⟩
  simp only [Action.parts, Kind.format, List.forall_mem_cons, List.forall_mem_append,
    List.forall_mem_map, List.cons_append]
  simp [Kind.loose, Entry.actions_action, Entry.value?, hv, and_assoc, and_left_comm]

theorem spells_rule {word : String} {k : Kind} (known : Kind.ofWord? word = some k)
    (own : ∀ e ∈ k.format, e.follows k fs = true) :
    ∃ rule, ruleFor? word = some rule ∧ Spells k fs (rule (readFields fs)) := by
  have usual (h : k.loose = []) : ∀ e ∈ k.format, e.admits fs = true := fun e he =>
    Entry.admits_of_follows (by simp [h]) (own e he)
  unfold Kind.ofWord? at known
  split at known <;> cases known
  · exact ⟨_, rfl, spells_declaration (usual rfl)⟩
  · exact ⟨_, rfl, spells_arrayDecl own⟩
  · exact ⟨_, rfl, spells_variable (usual rfl)⟩
  · exact ⟨_, rfl, spells_constant (usual rfl)⟩
  · exact ⟨_, rfl, spells_operation (usual rfl)⟩
  · exact ⟨_, rfl, spells_unary (fun _ => rfl) (fun _ => rfl) (fun _ => rfl) rfl rfl (usual rfl)⟩
  · exact ⟨_, rfl, spells_cast (usual rfl)⟩
  · exact ⟨_, rfl, spells_assign (usual rfl)⟩
  · exact ⟨_, rfl, spells_block own⟩
  · exact ⟨_, rfl, spells_conditional own⟩
  · exact ⟨_, rfl, spells_loop own⟩
  · exact ⟨_, rfl, spells_function (usual rfl)⟩
  · exact ⟨_, rfl, spells_ret⟩
  · exact ⟨_, rfl, spells_call (usual rfl)⟩
  · exact ⟨_, rfl, spells_access (usual rfl)⟩
  · exact ⟨_, rfl, spells_unary (fun _ => rfl) (fun _ => rfl) (fun _ => rfl) rfl rfl (usual rfl)⟩
  · exact ⟨_, rfl, spells_unary (fun _ => rfl) (fun _ => rfl) (fun _ => rfl) rfl rfl (usual rfl)⟩
  · exact ⟨_, rfl, spells_nop⟩

end Reading

theorem Kind.ne_flawed_of_ofWord? {word : String} {k : Kind} (h : ofWord? word = some k) :
    k ≠ .flawed := by
  unfold ofWord? at h
  split at h <;> cases h <;> simp

structure Value.Means (v : Value) (action : Action) : Prop where
  ofValue : Action.ofValue v = v.line?.elim action fun n => .lined n action
  unlined : action.isLined = false
  unflawed : action.kind ≠ .flawed
  wellFormed : action.WellFormed
  parts (P : Action → Prop) (constants : ∀ type text, P (.constant type text)) :
    (∀ part ∈ action.parts, P part.2) ↔ ∀ doc ∈ v.documents, ∀ a ∈ actionsOf doc, P a

/-- A document that was checked, and a block with a list of lines if it is to be opened. -/
structure Checked (depth : Nat) (doc : Standing × Value) : Prop where
  isLoose : doc.2.isLoose depth = true
  opened : doc.1 = .opened → doc.2.isBlock = true ∧ ∃ items, doc.2.lines? = some items

namespace Value

theorem isLoose_object {depth : Nat} {v : Value} (h : v.isLoose (depth + 1) = true) :
    ∃ fs word k, v = .object fs ∧ fieldOf? "node" fs = some (.string word) ∧
      Kind.ofWord? word = some k ∧
      (∀ w, fieldOf? "line" fs = some w → ∃ n : Int, w = .int n) ∧
      (∀ e ∈ k.format, e.follows k fs = true) ∧
      v.documents = k.format.flatMap (·.documents k fs) ∧
      ∀ doc ∈ v.documents, doc.2.isLoose depth = true := by
  cases v with
  | object fs =>
    obtain ⟨k, hk, h⟩ := (Option.any_eq_true ..).mp h
    have hdocuments : (Value.object fs).documents = k.format.flatMap (·.documents k fs) := by
      simp [documents, hk]
    unfold kindOf? at hk
    split at hk
    · rename_i word node
      simp only [Bool.and_eq_true, Option.all_eq_true, Option.any_eq_true, decide_eq_true_eq,
        List.all_eq_true] at h
      obtain ⟨⟨line, own⟩, inside⟩ := h
      refine ⟨fs, word, k, rfl, node, hk, fun w hw => ?_, own, hdocuments, inside⟩
      obtain ⟨n, -, hn⟩ := line w hw
      exact ⟨n, hn⟩
    · cases hk
  | _ => simp [isLoose] at h

theorem mem_notes_iff {line : Int} {how standing : Standing} {depth : Nat} {v : Value}
    (h : v.isLoose depth = true) :
    line ∈ notes how depth (standing, v) ↔ Notes line how standing v := by
  induction depth generalizing standing v with
  | zero => simp [isLoose] at h
  | succ depth ih =>
    obtain ⟨-, -, -, -, -, -, -, -, -, inside⟩ := isLoose_object h
    rw [notes_iff, notes, List.mem_append, List.mem_flatMap]
    refine or_congr ?_ (exists_congr fun part => and_congr_right fun hp => ih (inside part hp))
    split <;> simp_all

theorem exists_means {depth : Nat} {v : Value} (h : v.isLoose (depth + 1) = true) :
    ∃ action, v.Means action := by
  obtain ⟨fs, word, k, rfl, node, known, line, own, hdocuments, -⟩ := isLoose_object h
  obtain ⟨rule, hrule, hspells⟩ := Reading.spells_rule known own
  refine ⟨rule (readFields fs), Reading.ofValue_object node hrule line, hspells.unlined, ?_, ?_, ?_⟩
  · rw [hspells.kind]
    exact Kind.ne_flawed_of_ofWord? known
  · exact Reading.holds_rule Action.inherited_wellFormed (wellFormed_readFields fs) hrule
  · intro P constants
    rw [hspells.parts P constants, hdocuments]
    simp only [Entry.actions, List.forall_mem_flatMap]

theorem checked_documents {depth : Nat} {v : Value} (h : v.isLoose (depth + 1) = true)
    {doc : Standing × Value} (hd : doc ∈ v.documents) : Checked depth doc := by
  obtain ⟨fs, word, k, rfl, -, -, -, own, hdocuments, inside⟩ := isLoose_object h
  refine ⟨inside doc hd, fun ho => ?_⟩
  rw [hdocuments] at hd
  obtain ⟨e, he, hd⟩ := List.mem_flatMap.mp hd
  exact Entry.opened_of_documents (own e he) hd ho

theorem actionsOf_opened {v : Value} {items : List Value} (hb : v.isBlock = true)
    (hl : v.lines? = some items) : actionsOf (.opened, v) = v.documents.flatMap actionsOf := by
  obtain ⟨fs, rfl, hlines⟩ := eq_of_lines? hl
  have hnode : fieldOf? "node" fs = some (.string "block") := by simpa [isBlock] using hb
  have hkind : kindOf? fs = some .block := by
    rw [kindOf?, hnode]
    rfl
  have halone : (Entry.mk "lines" .required (.actions .statement)).alone? .block fs = none := by
    simp [Entry.alone?, Entry.value?, hlines, isObject]
  have hdocuments : (Value.object fs).documents = items.map fun w => (.built, w) := by
    simp [documents, hkind, Kind.format, Entry.documents, halone, Entry.parts, Entry.value?, hlines,
      Slot.parts]
  rw [hdocuments, actionsOf, hl, Option.getD_some, List.flatMap_map]
  exact List.map_eq_flatMap

end Value

namespace Action

theorem says_iff_of_unlined {action : Action} (h : action.isLined = false) {line : Int} :
    action.Says line ↔ ∃ part ∈ action.parts, part.2.Says line := by
  constructor
  · intro hs
    cases hs with
    | here => cases h
    | inside hp hs => exact ⟨_, hp, hs⟩
  · intro hs
    obtain ⟨part, hp, hs⟩ := hs
    exact .inside hp hs

theorem says_lined_iff {action : Action} {line line' : Int} :
    (Action.lined line' action).Says line ↔ line' = line ∨ action.Says line := by
  constructor
  · intro h
    cases h with
    | here => exact .inl rfl
    | inside hp h =>
      rw [List.mem_singleton.mp hp] at h
      exact .inr h
  · intro h
    rcases h with rfl | h
    · exact .here action
    · exact h.lined line'

end Action

theorem Value.Means.says_iff {v : Value} {action : Action} (h : v.Means action) {line : Int} :
    (Action.ofValue v).Says line ↔
      v.line? = some line ∨ ∃ doc ∈ v.documents, ∃ a ∈ actionsOf doc, a.Says line := by
  have silent (type : Ty) (text : String) : ¬(Action.constant type text).Says line := by
    rw [Action.says_iff_of_unlined rfl]
    simp [Action.parts]
  have inside : action.Says line ↔ ∃ doc ∈ v.documents, ∃ a ∈ actionsOf doc, a.Says line := by
    rw [Action.says_iff_of_unlined h.unlined]
    simpa using not_congr (h.parts (fun a => ¬a.Says line) silent)
  rw [h.ofValue]
  cases v.line? with
  | none => simpa using inside
  | some n => simp [Action.says_lined_iff, inside]

theorem Checked.says_iff {line : Int} {depth : Nat} {doc : Standing × Value}
    (h : Checked depth doc) :
    (∃ a ∈ actionsOf doc, a.Says line) ↔ Notes line .built doc.1 doc.2 := by
  induction depth generalizing doc with
  | zero => exact absurd h.isLoose (by simp [Value.isLoose])
  | succ depth ih =>
    obtain ⟨standing, v⟩ := doc
    have inside : (∃ part ∈ v.documents, ∃ a ∈ actionsOf part, a.Says line) ↔
        ∃ part ∈ v.documents, Notes line .built part.1 part.2 :=
      exists_congr fun part => and_congr_right fun hp => ih (Value.checked_documents h.isLoose hp)
    rw [notes_iff, ← inside]
    cases standing with
    | built =>
      obtain ⟨action, means⟩ := Value.exists_means h.isLoose
      simp [actionsOf, means.says_iff]
    | opened =>
      obtain ⟨hblock, items, hlines⟩ := h.opened rfl
      rw [Value.actionsOf_opened hblock hlines]
      simp only [reduceCtorEq, false_and, false_or, List.mem_flatMap]
      grind

theorem Checked.fits {depth : Nat} {doc : Standing × Value} (h : Checked depth doc) :
    ∀ a ∈ actionsOf doc, a.Fits flawless .item := by
  induction depth generalizing doc with
  | zero => exact absurd h.isLoose (by simp [Value.isLoose])
  | succ depth ih =>
    obtain ⟨standing, v⟩ := doc
    have inside : ∀ part ∈ v.documents, ∀ a ∈ actionsOf part, a.Fits flawless .item :=
      fun part hp => ih (Value.checked_documents h.isLoose hp)
    cases standing with
    | built =>
      obtain ⟨action, means⟩ := Value.exists_means h.isLoose
      obtain ⟨proper, hwell⟩ := means.wellFormed.inside means.unlined
      -- The constants of literals are not documents, but they are well formed like all parts.
      have hparts := (means.parts (fun a => a.WellFormed → a.Fits flawless .item)
        fun type text hw => .flawless_intro rfl (by simp [Action.kind]) (hw.inside rfl).1
          (by simp [Action.parts])).mpr fun part hp a ha _ => inside part hp a ha
      have hfits : action.Fits flawless .item :=
        .flawless_intro means.unlined means.unflawed proper
          fun part hp => hparts part hp (hwell part hp)
      intro a ha
      rw [List.mem_singleton.mp ha, means.ofValue]
      cases v.line? with
      | none => exact hfits
      | some n => exact .lined n hfits
    | opened =>
      obtain ⟨hblock, items, hlines⟩ := h.opened rfl
      rw [Value.actionsOf_opened hblock hlines]
      exact List.forall_mem_flatMap.mpr inside

end Treewright
