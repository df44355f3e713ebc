import Treewright.Proofs.Documents
set_option autoImplicit false

namespace Treewright

/-- Whether a field must be there, may be missing, or may also be empty. -/
inductive Presence where
  | required
  | defaulted
  | optional
  deriving DecidableEq, Repr, Inhabited

/-- What a field may hold. -/
inductive Slot where
  | name
  | type
  | operator
  | label
  | plain
  | action (position : Position)
  | actions (position : Position)
  | operands
  | params
  | bindings
  deriving DecidableEq, Repr, Inhabited

structure Entry where
  key : String
  presence : Presence
  slot : Slot
  deriving DecidableEq, Repr, Inhabited

def Name.isText : Name → Bool
  | .text _ => true
  | .nothing | .flag _ | .whole _ | .real _ => false

namespace Value

def isText : Value → Bool
  | .string _ => true
  | _ => false

def isTypeName : Value → Bool
  | .string s => (Ty.ofName? s).isSome
  | _ => false

def isOperator : Value → Bool
  | .string s => (Op.ofText? s).any fun op => !op.isReserved
  | _ => false

def isObject : Value → Bool
  | .object _ => true
  | _ => false

def isParam : Value → Bool
  | .list [type, name] => type.isTypeName && name.isText
  | _ => false

def isLiteral : Value → Bool
  | .object fields =>
    (fieldOf? "type" fields).any isTypeName && (fieldOf? "value" fields).any writable
  | _ => false

def isBinding : Value → Bool
  | .object fields =>
    (fieldOf? "name" fields).any isText && (fieldOf? "literal" fields).all isLiteral
  | _ => false

def line? : Value → Option Int
  | .object fields =>
    match fieldOf? "line" fields with
    | some (.int n) => some n
    | _ => none
  | _ => none

def given? (key : String) (fields : List (String × Value)) : Option Value :=
  (fieldOf? key fields).filter (· ≠ .null)

/-- The action that gives a binding its initial value; a literal has none. -/
def initial : Value → List Value
  | .object fields =>
    if (fieldOf? "literal" fields).isSome then [] else (given? "init" fields).toList
  | _ => []

end Value

namespace Slot

def admits : Slot → Value → Bool
  | .name, v => v.isText
  | .type, v => v.isTypeName
  | .operator, v => v.isOperator
  | .label, v => v.writable
  | .plain, v => !v.isObject && v.writable
  | .action _, _ => true
  | .actions _, .list _ => true
  | .operands, .list (_ :: _) => true
  | .params, .list items => items.all Value.isParam
  | .bindings, .list items => items.all Value.isBinding
  | _, _ => false

/-- The documents of actions in a field, each with its position. -/
def parts : Slot → Value → List (Position × Value)
  | .action position, v => [(position, v)]
  | .actions position, .list items => items.map fun v => (position, v)
  | .operands, .list items => items.map fun v => (.expression, v)
  | .bindings, .list items => items.flatMap fun b => b.initial.map fun v => (.expression, v)
  | _, _ => []

end Slot

namespace Entry

def value? (e : Entry) (fields : List (String × Value)) : Option Value :=
  if e.presence = .optional then Value.given? e.key fields else fieldOf? e.key fields

def admits (e : Entry) (fields : List (String × Value)) : Bool :=
  match e.value? fields with
  | none => e.presence ≠ .required
  | some v => e.slot.admits v

def parts (e : Entry) (fields : List (String × Value)) : List (Position × Value) :=
  ((e.value? fields).map e.slot.parts).getD []

end Entry

namespace Kind

def ofWord? : String → Option Kind
  | "declaration" => some .declaration
  | "array_decl" => some .arrayDecl
  | "var" => some .variable
  | "const" => some .constant
  | "op" => some .operation
  | "paren" => some .paren
  | "cast" => some .cast
  | "assign" => some .assign
  | "block" => some .block
  | "if" => some .conditional
  | "for" => some .loop
  | "function" => some .function
  | "return" => some .ret
  | "call" => some .call
  | "index" => some .access
  | "address" => some .address
  | "reference" => some .reference
  | "nop" => some .nop
  | _ => none

/-- The fields of an action, beside its kind and its line. -/
def format : Kind → List Entry
  | .declaration =>
    [⟨"type", .required, .type⟩, ⟨"kind", .defaulted, .label⟩, ⟨"symbol_type", .defaulted, .label⟩,
      ⟨"bindings", .required, .bindings⟩]
  | .arrayDecl =>
    [⟨"type", .required, .type⟩, ⟨"name", .required, .name⟩, ⟨"size", .required, .plain⟩]
  | .variable => [⟨"name", .required, .name⟩]
  | .constant => [⟨"type", .required, .type⟩, ⟨"value", .required, .plain⟩]
  | .operation => [⟨"op", .required, .operator⟩, ⟨"operands", .required, .operands⟩]
  | .paren | .address | .reference => [⟨"operand", .required, .action .expression⟩]
  | .cast => [⟨"type", .required, .type⟩, ⟨"operand", .required, .action .expression⟩]
  | .assign =>
    [⟨"target", .required, .action .expression⟩, ⟨"value", .required, .action .expression⟩]
  | .block => [⟨"lines", .required, .actions .statement⟩]
  | .conditional =>
    [⟨"condition", .required, .action .expression⟩, ⟨"then", .required, .actions .statement⟩,
      ⟨"else", .optional, .actions .statement⟩]
  | .loop =>
    [⟨"init", .optional, .action .header⟩, ⟨"test", .required, .action .expression⟩,
      ⟨"update", .optional, .action .header⟩, ⟨"body", .required, .actions .statement⟩]
  | .function =>
    [⟨"returns", .required, .type⟩, ⟨"name", .required, .name⟩, ⟨"params", .defaulted, .params⟩,
      ⟨"body", .optional, .actions .statement⟩]
  | .ret => [⟨"operand", .optional, .action .expression⟩]
  | .call => [⟨"name", .required, .name⟩, ⟨"args", .defaulted, .actions .expression⟩]
  | .access => [⟨"name", .required, .name⟩, ⟨"index", .required, .action .expression⟩]
  | .flawed | .nop => []

end Kind

/-- The document is an object of a known kind that may stand here, its line is a whole number when
it has one, and its fields are those of its kind. -/
inductive Conforms (allowed : Policy) : Position → Value → Prop where
  | intro {position : Position} {fields : List (String × Value)} {word : String} {kind : Kind}
      (node : fieldOf? "node" fields = some (.string word)) (known : Kind.ofWord? word = some kind)
      (here : allowed position kind)
      (line : ∀ v, fieldOf? "line" fields = some v → ∃ n : Int, v = .int n)
      (own : ∀ e ∈ kind.format, e.admits fields = true)
      (inside : ∀ e ∈ kind.format, ∀ part ∈ e.parts fields, Conforms allowed part.1 part.2) :
      Conforms allowed position (.object fields)

def Value.conforms (allowed : Policy) [∀ p k, Decidable (allowed p k)] :
    Nat → Position → Value → Bool
  | depth + 1, position, .object fields =>
    match fieldOf? "node" fields with
    | some (.string word) => (Kind.ofWord? word).any fun kind =>
      decide (allowed position kind) &&
        (fieldOf? "line" fields).all (fun v => v.whole?.any fun n => v = .int n) &&
        kind.format.all (·.admits fields) &&
        (kind.format.flatMap (·.parts fields)).all fun part => part.2.conforms allowed depth part.1
    | _ => false
  | _, _, _ => false

theorem Conforms.of_check {allowed : Policy} [∀ p k, Decidable (allowed p k)] {depth : Nat}
    {position : Position} {v : Value} (h : v.conforms allowed depth position = true) :
    Conforms allowed position v := by
  induction depth generalizing position v with
  | zero => simp [Value.conforms] at h
  | succ depth ih =>
    cases v with
    | object fields =>
      unfold Value.conforms at h
      split at h
      · rename_i word node
        obtain ⟨kind, known, h⟩ := (Option.any_eq_true ..).mp h
        simp only [Bool.and_eq_true, decide_eq_true_eq, List.all_eq_true, Option.all_eq_true,
          Option.any_eq_true, List.mem_flatMap] at h
        obtain ⟨⟨⟨here, line⟩, own⟩, inside⟩ := h
        refine .intro node known here (fun w hw => ?_) own fun e he part hp => ?_
        · obtain ⟨n, -, hn⟩ := line w hw
          exact ⟨n, hn⟩
        · exact ih (inside part ⟨e, he, hp⟩)
      · cases h
    | _ => simp [Value.conforms] at h

theorem Conforms.forall_of_check {allowed : Policy} [∀ p k, Decidable (allowed p k)] {depth : Nat}
    {position : Position} {program : List Value}
    (h : (program.all fun v => v.conforms allowed depth position) = true) :
    ∀ v ∈ program, Conforms allowed position v := fun v hv =>
  .of_check (List.all_eq_true.mp h v hv)

theorem Value.value_read (v : Value) : v.read.value = v := by cases v <;> rfl

theorem Value.string_of_isText {v : Value} (h : v.isText = true) : ∃ s, v = .string s := by
  cases v <;> simp only [isText, Bool.false_eq_true] at h
  exact ⟨_, rfl⟩

theorem readAll_eq_map (vs : List Value) : readAll vs = vs.map Value.read := by
  induction vs with
  | nil => rfl
  | cons v vs ih => simp [readAll, ih]

theorem fieldOf?_readFields (key : String) (fs : List (String × Value)) :
    fieldOf? key (readFields fs) = (fieldOf? key fs).map Value.read := by
  induction fs with
  | nil => rfl
  | cons f fs ih =>
    simp only [readFields, fieldOf?, ih]
    split <;> rfl

namespace Reading

section Lookup

variable {fs : List (String × Value)} {key : String} {v : Value}

theorem require_readFields (h : fieldOf? key fs = some v) :
    require (readFields fs) key = .ok v.read := by
  simp [require, fieldOf?_readFields, h]

theorem optional_readFields :
    optional (readFields fs) key = (Value.given? key fs).map Value.read := by
  simp only [optional, fieldOf?_readFields, Value.given?]
  cases fieldOf? key fs with
  | none => rfl
  | some v =>
    simp only [Option.map_some, Value.value_read]
    by_cases hv : v = .null <;> simp [Option.filter, hv]

theorem textOf_of_writable (h : v.writable = true) (flaw : Flaw) : textOf flaw v = .ok v.text :=
  if_pos h

theorem textOf_string (flaw : Flaw) (s : String) : textOf flaw (.string s) = .ok s := rfl

theorem typeNamed_of_isTypeName (h : v.isTypeName = true) : ∃ type, typeNamed v = .ok type := by
  cases v with
  | string s =>
    rw [Value.isTypeName] at h
    obtain ⟨type, ht⟩ := Option.isSome_iff_exists.mp h
    refine ⟨type, Except.bind_eq_ok.mpr ⟨s, textOf_string _ s, ?_⟩⟩
    rw [ht]
  | _ => cases h

theorem typeField_readFields (h : fieldOf? key fs = some v) (hv : v.isTypeName = true) :
    ∃ type, typeField (readFields fs) key = .ok type := by
  obtain ⟨type, ht⟩ := typeNamed_of_isTypeName hv
  refine ⟨type, Except.bind_eq_ok.mpr ⟨_, require_readFields h, ?_⟩⟩
  rwa [Value.value_read]

theorem nameOf_of_isText (h : v.isText = true) : ∃ text, nameOf v = .ok (.text text) := by
  obtain ⟨s, rfl⟩ := Value.string_of_isText h
  exact ⟨s, rfl⟩

theorem nameField_readFields (h : fieldOf? "name" fs = some v) (hv : v.isText = true) :
    ∃ text, nameField (readFields fs) = .ok (.text text) := by
  obtain ⟨name, hn⟩ := nameOf_of_isText hv
  refine ⟨name, Except.bind_eq_ok.mpr ⟨_, require_readFields h, ?_⟩⟩
  rwa [Value.value_read]

end Lookup

theorem sequence_list (items : List Value) :
    (Value.list items).read.sequence = .ok (items.map Action.ofValue) := by
  simp [Value.read, ofList, plain, readAll_eq_map, Action.ofValue]

theorem statements_list (items : List Value) :
    (Value.list items).read.statements = .ok (items.map Action.ofValue) := by
  simp [Value.read, ofList, readAll_eq_map, Action.ofValue]

theorem literalOf_of_isLiteral {v : Value} (h : v.isLiteral = true) :
    ∃ type text, literalOf v = .ok (.constant type text) := by
  cases v with
  | object inner =>
    simp only [Value.isLiteral, Bool.and_eq_true, Option.any_eq_true] at h
    obtain ⟨⟨t, ht, htype⟩, value, hv, written⟩ := h
    obtain ⟨type, hty⟩ := typeNamed_of_isTypeName htype
    refine ⟨type, value.text, ?_⟩
    simp [literalOf, literalField, ht, hv, hty, textOf_of_writable written, bind, Except.bind, pure,
      Except.pure]
  | _ => cases h

/-- What a binding has for its value is read from the document of one, but for a literal, which is
a constant that no document stands for. -/
theorem binding_read {v : Value} (h : v.isBinding = true) :
    ∃ name value, v.read.binding = .bound (.text name) value ∧
      ∀ P : Action → Prop, (∀ type text, P (.constant type text)) →
        ((∀ a ∈ value.toList, P a) ↔ ∀ init ∈ v.initial, P (Action.ofValue init)) := by
  cases v with
  | object fs =>
    simp only [Value.isBinding, Bool.and_eq_true, Option.any_eq_true, Option.all_eq_true] at h
    obtain ⟨⟨w, hw, ht⟩, hliteral⟩ := h
    obtain ⟨name, hn⟩ := nameOf_of_isText ht
    have hbinding : (Value.object fs).read.binding = bindingOf (readFields fs) := rfl
    rw [hbinding, bindingOf, require_readFields hw, initialOf]
    simp only [Value.value_read, hn, fieldOf?_readFields, Value.initial]
    cases hl : fieldOf? "literal" fs with
    | none =>
      refine ⟨name, _, rfl, fun P _ => ?_⟩
      simp [optional_readFields, Action.ofValue]
    | some l =>
      obtain ⟨type, text, hlit⟩ := literalOf_of_isLiteral (hliteral l hl)
      refine ⟨name, some (.constant type text), ?_, fun P constants => by simp [constants]⟩
      simp [Value.value_read, hlit, bind, Except.bind, pure, Except.pure]
  | _ => simp [Value.isBinding] at h

theorem bindings_list {items : List Value} (h : items.all Value.isBinding = true) :
    ∃ readings bindings, (Value.list items).read.bindings = .ok readings ∧
      splitBindings readings = (bindings, none) ∧ (∀ b ∈ bindings, b.1.isText = true) ∧
      ∀ P : Action → Prop, (∀ type text, P (.constant type text)) →
        ((∀ b ∈ bindings, ∀ a ∈ b.2.toList, P a) ↔
          ∀ item ∈ items, ∀ init ∈ item.initial, P (Action.ofValue init)) := by
  refine ⟨(readAll items).map (·.binding), ?_⟩
  simp only [Value.read, ofList, plain, true_and]
  induction items with
  | nil => exact ⟨[], rfl, by simp, by simp⟩
  | cons v items ih =>
    simp only [List.all_cons, Bool.and_eq_true] at h
    obtain ⟨name, value, hread, hvalue⟩ := binding_read h.1
    obtain ⟨bindings, hsplit, htexts, hinside⟩ := ih h.2
    refine ⟨(.text name, value) :: bindings, ?_, by simpa [Name.isText] using htexts,
      fun P constants => ?_⟩
    · simp [readAll, hread, splitBindings, hsplit]
    · rw [List.forall_mem_cons, List.forall_mem_cons, hvalue P constants, hinside P constants]

theorem mapM_paramOf {items : List Value} (h : items.all Value.isParam = true) (function : Value) :
    ∃ params, items.mapM (paramOf function) = .ok params := by
  induction items with
  | nil => exact ⟨[], rfl⟩
  | cons v items ih =>
    simp only [List.all_cons, Bool.and_eq_true] at h
    obtain ⟨params, hp⟩ := ih h.2
    have hv := h.1
    unfold Value.isParam at hv
    split at hv
    · rename_i type name
      simp only [Bool.and_eq_true] at hv
      obtain ⟨t, ht⟩ := typeNamed_of_isTypeName hv.1
      obtain ⟨s, rfl⟩ := Value.string_of_isText hv.2
      exact ⟨(t, .text s) :: params, by
        simp [List.mapM_cons, paramOf, ht, hp, textOf_string, bind, Except.bind, pure, Except.pure]⟩
    · cases hv

end Reading

theorem Entry.of_required {key : String} {slot : Slot} {fs : List (String × Value)}
    (h : (Entry.mk key .required slot).admits fs = true) :
    ∃ v, fieldOf? key fs = some v ∧ slot.admits v = true := by
  simp only [admits, value?] at h
  cases hv : fieldOf? key fs with
  | none => simp [hv] at h
  | some v => exact ⟨v, rfl, by simpa [hv] using h⟩

theorem Entry.admits_of_value? {e : Entry} {fs : List (String × Value)} (h : e.admits fs = true)
    {v : Value} (hv : e.value? fs = some v) : e.slot.admits v = true := by
  simpa [admits, hv] using h

theorem Slot.list_of_actions {position : Position} {v : Value}
    (h : (Slot.actions position).admits v = true) : ∃ items, v = .list items := by
  cases v <;> simp [admits] at h
  exact ⟨_, rfl⟩

theorem Slot.list_of_operands {v : Value} (h : Slot.operands.admits v = true) :
    ∃ item items, v = .list (item :: items) := by
  cases v with
  | list items =>
    cases items with
    | nil => simp [admits] at h
    | cons item items => exact ⟨item, items, rfl⟩
  | _ => simp [admits] at h

def Documented (k : Kind) (fs : List (String × Value)) (part : Position × Action) : Prop :=
  ∃ e ∈ k.format, ∃ doc ∈ e.parts fs, part = (doc.1, Action.ofValue doc.2)

theorem Documented.action {k : Kind} {fs : List (String × Value)} {key : String}
    {presence : Presence} {position : Position} {v : Value}
    (he : ⟨key, presence, .action position⟩ ∈ k.format)
    (hv : (Entry.mk key presence (.action position)).value? fs = some v) :
    Documented k fs (position, Action.ofValue v) :=
  ⟨_, he, (position, v), by simp [Entry.parts, hv, Slot.parts], rfl⟩

theorem Documented.actions {k : Kind} {fs : List (String × Value)} {key : String}
    {presence : Presence} {position : Position} {items : List Value}
    (he : ⟨key, presence, .actions position⟩ ∈ k.format)
    (hv : (Entry.mk key presence (.actions position)).value? fs = some (.list items)) {a : Action}
    (ha : a ∈ items.map Action.ofValue) : Documented k fs (position, a) := by
  obtain ⟨v, hm, rfl⟩ := List.mem_map.mp ha
  exact ⟨_, he, (position, v), by simpa [Entry.parts, hv, Slot.parts] using hm, rfl⟩

/-- The action has the kind, and its parts are read from the documents in the fields. The value of a
literal is the only part that no document stands for. -/
structure ReadsAs (k : Kind) (fs : List (String × Value)) (action : Action) : Prop where
  kind : action.kind = k
  unlined : action.isLined = false
  parts : ∀ part ∈ action.parts,
    Documented k fs part ∨ part.1 = .expression ∧ ∃ type text, part.2 = .constant type text

theorem ReadsAs.leaf {k : Kind} {fs : List (String × Value)} {action : Action}
    (kind : action.kind = k) (unlined : action.isLined = false) (empty : action.parts = []) :
    ReadsAs k fs action :=
  ⟨kind, unlined, fun part hp => by simp [empty] at hp⟩

theorem ReadsAs.of_documents {k : Kind} {fs : List (String × Value)} {action : Action}
    (kind : action.kind = k) (unlined : action.isLined = false)
    (parts : ∀ part ∈ action.parts, Documented k fs part) : ReadsAs k fs action :=
  ⟨kind, unlined, fun part hp => .inl (parts part hp)⟩

namespace Reading

section Rules

variable {fs : List (String × Value)}

theorem textField_readFields {key : String} (h : (Entry.mk key .defaulted .label).admits fs = true)
    (default : String) : ∃ text, textField (readFields fs) key default = .ok text := by
  rw [textField, fieldOf?_readFields]
  cases hv : fieldOf? key fs with
  | none => exact ⟨default, rfl⟩
  | some v =>
    refine ⟨v.text, ?_⟩
    have written : v.writable = true := Entry.admits_of_value? h hv
    simp only [Option.map_some, Value.value_read, textOf_of_writable written]

theorem declaration_readFields (own : ∀ e ∈ Kind.declaration.format, e.admits fs = true) :
    ∃ type kind symbolType bindings items,
      declaration (readFields fs) = .declaration type kind symbolType bindings ∧
      (∀ b ∈ bindings, b.1.isText = true) ∧ fieldOf? "bindings" fs = some (.list items) ∧
      ∀ P : Action → Prop, (∀ type text, P (.constant type text)) →
        ((∀ b ∈ bindings, ∀ a ∈ b.2.toList, P a) ↔
          ∀ item ∈ items, ∀ init ∈ item.initial, P (Action.ofValue init)) := by
  obtain ⟨t, ht, htype⟩ := Entry.of_required (own ⟨"type", .required, .type⟩ (by decide))
  obtain ⟨b, hb, hbindings⟩ :=
    Entry.of_required (own ⟨"bindings", .required, .bindings⟩ (by decide))
  obtain ⟨type, hty⟩ := typeField_readFields ht htype
  obtain ⟨kind, hkind⟩ := textField_readFields (own ⟨"kind", .defaulted, .label⟩ (by decide)) "var"
  obtain ⟨symbolType, hsymbol⟩ :=
    textField_readFields (own ⟨"symbol_type", .defaulted, .label⟩ (by decide)) ""
  cases b with
  | list items =>
    obtain ⟨readings, bindings, hread, hsplit, htexts, hinside⟩ := bindings_list hbindings
    refine ⟨type, kind, symbolType, bindings, items, ?_, htexts, hb, hinside⟩
    simp [declaration, orFaulty, hty, hkind, hsymbol, require_readFields hb, hread, hsplit, bind,
      Except.bind, pure, Except.pure]
  | _ => simp [Slot.admits] at hbindings

theorem readsAs_declaration (own : ∀ e ∈ Kind.declaration.format, e.admits fs = true) :
    ReadsAs .declaration fs (declaration (readFields fs)) := by
  obtain ⟨type, kind, symbolType, bindings, items, heq, -, hb, hinside⟩ :=
    declaration_readFields own
  have documented : ∀ b ∈ bindings, ∀ a ∈ b.2.toList,
      (∃ type text, a = .constant type text) ∨ Documented .declaration fs (.expression, a) := by
    refine (hinside _ fun type text => .inl ⟨type, text, rfl⟩).mpr fun item hitem init hinit => ?_
    refine .inr ⟨⟨"bindings", .required, .bindings⟩, by decide, (.expression, init), ?_, rfl⟩
    simp only [Entry.parts, Entry.value?, hb, reduceCtorEq, if_false, Option.map_some,
      Option.getD_some, Slot.parts, List.mem_flatMap, List.mem_map]
    exact ⟨item, hitem, init, hinit, rfl⟩
  rw [heq]
  refine ⟨rfl, rfl, fun part hp => ?_⟩
  simp only [Action.parts, List.mem_flatMap, List.mem_map] at hp
  obtain ⟨b, hm, a, ha, rfl⟩ := hp
  rcases documented b hm a ha with hc | hd
  · exact .inr ⟨rfl, hc⟩
  · exact .inl hd

theorem arrayDecl_of_header {type : Ty} {name : String} {v : Value}
    (hty : typeField (readFields fs) "type" = .ok type)
    (hna : nameField (readFields fs) = .ok (.text name)) (hv : fieldOf? "size" fs = some v)
    (written : v.isObject = false → v.writable = true) :
    arrayDecl (readFields fs) =
      if v.isObject then .sizedArray type (.text name) (Action.ofValue v)
      else .arrayDecl type (.text name) v.text := by
  cases hob : v.isObject with
  | true =>
    cases v <;> cases hob
    simp [arrayDecl, orFaulty, hty, hna, require_readFields hv, Value.value_read, Action.ofValue,
      bind, Except.bind, pure, Except.pure]
  | false =>
    have text := textOf_of_writable (written hob) .longNumber
    cases v with
    | object _ => cases hob
    | _ =>
      simp [arrayDecl, orFaulty, hty, hna, require_readFields hv, Value.value_read, text, bind,
        Except.bind, pure, Except.pure]

theorem arrayDecl_readFields (own : ∀ e ∈ Kind.arrayDecl.format, e.admits fs = true) :
    ∃ type name size, arrayDecl (readFields fs) = .arrayDecl type (.text name) size := by
  obtain ⟨t, ht, htype⟩ := Entry.of_required (own ⟨"type", .required, .type⟩ (by decide))
  obtain ⟨n, hn, hname⟩ := Entry.of_required (own ⟨"name", .required, .name⟩ (by decide))
  obtain ⟨v, hv, hsize⟩ := Entry.of_required (own ⟨"size", .required, .plain⟩ (by decide))
  obtain ⟨type, hty⟩ := typeField_readFields ht htype
  obtain ⟨name, hna⟩ := nameField_readFields hn hname
  obtain ⟨plain, written⟩ : v.isObject = false ∧ v.writable = true := by
    simpa [Slot.admits] using hsize
  refine ⟨type, name, v.text, ?_⟩
  simp [arrayDecl_of_header hty hna hv fun _ => written, plain]

theorem readsAs_arrayDecl (own : ∀ e ∈ Kind.arrayDecl.format, e.admits fs = true) :
    ReadsAs .arrayDecl fs (arrayDecl (readFields fs)) := by
  obtain ⟨type, name, size, heq⟩ := arrayDecl_readFields own
  rw [heq]
  exact .leaf rfl rfl rfl

theorem constant_readFields (own : ∀ e ∈ Kind.constant.format, e.admits fs = true) :
    ∃ type text, constant (readFields fs) = .constant type text := by
  obtain ⟨t, ht, htype⟩ := Entry.of_required (own ⟨"type", .required, .type⟩ (by decide))
  obtain ⟨v, hv, hvalue⟩ := Entry.of_required (own ⟨"value", .required, .plain⟩ (by decide))
  obtain ⟨type, hty⟩ := typeField_readFields ht htype
  obtain ⟨-, written⟩ : v.isObject = false ∧ v.writable = true := by
    simpa [Slot.admits] using hvalue
  refine ⟨type, v.text, ?_⟩
  simp [constant, orFaulty, hty, require_readFields hv, Value.value_read,
    textOf_of_writable written, bind, Except.bind, pure, Except.pure]

theorem readsAs_constant (own : ∀ e ∈ Kind.constant.format, e.admits fs = true) :
    ReadsAs .constant fs (constant (readFields fs)) := by
  obtain ⟨type, text, heq⟩ := constant_readFields own
  rw [heq]
  exact .leaf rfl rfl rfl

theorem operation_readFields (own : ∀ e ∈ Kind.operation.format, e.admits fs = true) :
    ∃ op items, fieldOf? "operands" fs = some (.list items) ∧
      operation (readFields fs) = .operation op (items.map Action.ofValue) := by
  obtain ⟨o, ho, hop⟩ := Entry.of_required (own ⟨"op", .required, .operator⟩ (by decide))
  obtain ⟨v, hv, hoperands⟩ :=
    Entry.of_required (own ⟨"operands", .required, .operands⟩ (by decide))
  obtain ⟨item, items, rfl⟩ := Slot.list_of_operands hoperands
  cases o with
  | string text =>
    simp only [Slot.admits, Value.isOperator, Option.any_eq_true, Bool.not_eq_true'] at hop
    obtain ⟨op, hof, hfree⟩ := hop
    refine ⟨op, item :: items, hv, ?_⟩
    simp [operation, orFaulty, require_readFields ho, require_readFields hv, Value.value_read,
      textOf_string, sequence_list, hof, hfree, bind, Except.bind, pure, Except.pure]
  | _ => simp [Slot.admits, Value.isOperator] at hop

theorem readsAs_operation (own : ∀ e ∈ Kind.operation.format, e.admits fs = true) :
    ReadsAs .operation fs (operation (readFields fs)) := by
  obtain ⟨op, items, hv, heq⟩ := operation_readFields own
  rw [heq]
  refine .of_documents rfl rfl fun part hp => ?_
  obtain ⟨a, ha, rfl⟩ := List.mem_map.mp hp
  obtain ⟨w, hw, rfl⟩ := List.mem_map.mp ha
  refine ⟨⟨"operands", .required, .operands⟩, by decide, (.expression, w), ?_, rfl⟩
  simpa [Entry.parts, Entry.value?, hv, Slot.parts] using hw

theorem unary_readFields (make : Action → Action) {v : Value}
    (hv : fieldOf? "operand" fs = some v) :
    unary make (readFields fs) = make (Action.ofValue v) := by
  simp [unary, orFaulty, require_readFields hv, Action.ofValue, bind, Except.bind, pure,
    Except.pure]

theorem readsAs_unary {k : Kind} {make : Action → Action} (hk : ∀ a, (make a).kind = k)
    (hu : ∀ a, (make a).isLined = false) (hp : ∀ a, (make a).parts = [(.expression, a)])
    (hf : ⟨"operand", .required, .action .expression⟩ ∈ k.format)
    (own : ∀ e ∈ k.format, e.admits fs = true) : ReadsAs k fs (unary make (readFields fs)) := by
  obtain ⟨v, hv, -⟩ := Entry.of_required (own _ hf)
  rw [unary_readFields make hv]
  refine .of_documents (hk _) (hu _) fun part hpart => ?_
  rw [hp, List.mem_singleton] at hpart
  exact hpart ▸ .action hf hv

theorem cast_readFields (own : ∀ e ∈ Kind.cast.format, e.admits fs = true) :
    ∃ type v, fieldOf? "operand" fs = some v ∧
      cast (readFields fs) = .cast type (Action.ofValue v) := by
  obtain ⟨t, ht, htype⟩ := Entry.of_required (own ⟨"type", .required, .type⟩ (by decide))
  obtain ⟨v, hv, -⟩ :=
    Entry.of_required (own ⟨"operand", .required, .action .expression⟩ (by decide))
  obtain ⟨type, hty⟩ := typeField_readFields ht htype
  exact ⟨type, v, hv, by simp [cast, orFaulty, hty, require_readFields hv, Action.ofValue, bind,
    Except.bind, pure, Except.pure]⟩

theorem readsAs_cast (own : ∀ e ∈ Kind.cast.format, e.admits fs = true) :
    ReadsAs .cast fs (cast (readFields fs)) := by
  have hoperand : ⟨"operand", .required, .action .expression⟩ ∈ Kind.cast.format := by decide
  obtain ⟨type, v, hv, heq⟩ := cast_readFields own
  rw [heq]
  refine .of_documents rfl rfl fun part hp => ?_
  rw [List.mem_singleton.mp hp]
  exact .action hoperand hv

theorem call_readFields (own : ∀ e ∈ Kind.call.format, e.admits fs = true) :
    ∃ name items, (fieldOf? "args" fs).getD (.list []) = .list items ∧
      call (readFields fs) = .call (.text name) (items.map Action.ofValue) := by
  obtain ⟨n, hn, hname⟩ := Entry.of_required (own ⟨"name", .required, .name⟩ (by decide))
  obtain ⟨name, hna⟩ := nameField_readFields hn hname
  cases hv : fieldOf? "args" fs with
  | none =>
    exact ⟨name, [], rfl, by simp [call, orFaulty, hna, fieldOf?_readFields, hv, bind, Except.bind,
      pure, Except.pure]⟩
  | some v =>
    have hargs := own ⟨"args", .defaulted, .actions .expression⟩ (by decide)
    obtain ⟨items, rfl⟩ := Slot.list_of_actions (Entry.admits_of_value? hargs hv)
    exact ⟨name, items, rfl, by simp [call, orFaulty, hna, fieldOf?_readFields, hv, sequence_list,
      bind, Except.bind, pure, Except.pure]⟩

theorem readsAs_call (own : ∀ e ∈ Kind.call.format, e.admits fs = true) :
    ReadsAs .call fs (call (readFields fs)) := by
  have hargs : ⟨"args", .defaulted, .actions .expression⟩ ∈ Kind.call.format := by decide
  obtain ⟨name, items, hitems, heq⟩ := call_readFields own
  rw [heq]
  cases hv : fieldOf? "args" fs with
  | none =>
    rw [hv] at hitems
    cases hitems
    exact .leaf rfl rfl rfl
  | some v =>
    rw [hv] at hitems
    cases hitems
    refine .of_documents rfl rfl fun part hp => ?_
    obtain ⟨a, ha, rfl⟩ := List.mem_map.mp hp
    exact .actions hargs hv ha

theorem access_readFields (own : ∀ e ∈ Kind.access.format, e.admits fs = true) :
    ∃ name v, fieldOf? "index" fs = some v ∧
      access (readFields fs) = .access (.text name) (Action.ofValue v) := by
  obtain ⟨n, hn, hname⟩ := Entry.of_required (own ⟨"name", .required, .name⟩ (by decide))
  obtain ⟨v, hv, -⟩ := Entry.of_required (own ⟨"index", .required, .action .expression⟩ (by decide))
  obtain ⟨name, hna⟩ := nameOf_of_isText hname
  exact ⟨name, v, hv, by simp [access, orFaulty, require_readFields hn, require_readFields hv,
    Value.value_read, hna, Action.ofValue, bind, Except.bind, pure, Except.pure]⟩

theorem readsAs_access (own : ∀ e ∈ Kind.access.format, e.admits fs = true) :
    ReadsAs .access fs (access (readFields fs)) := by
  have hindex : ⟨"index", .required, .action .expression⟩ ∈ Kind.access.format := by decide
  obtain ⟨name, v, hv, heq⟩ := access_readFields own
  rw [heq]
  refine .of_documents rfl rfl fun part hp => ?_
  rw [List.mem_singleton.mp hp]
  exact .action hindex hv

theorem assign_readFields {v w : Value} (hv : fieldOf? "target" fs = some v)
    (hw : fieldOf? "value" fs = some w) :
    assign (readFields fs) = .assign (Action.ofValue v) (Action.ofValue w) := by
  simp [assign, orFaulty, require_readFields hv, require_readFields hw, Action.ofValue, bind,
    Except.bind, pure, Except.pure]

theorem readsAs_assign (own : ∀ e ∈ Kind.assign.format, e.admits fs = true) :
    ReadsAs .assign fs (assign (readFields fs)) := by
  have htarget : ⟨"target", .required, .action .expression⟩ ∈ Kind.assign.format := by decide
  have hvalue : ⟨"value", .required, .action .expression⟩ ∈ Kind.assign.format := by decide
  obtain ⟨v, hv, -⟩ := Entry.of_required (own _ htarget)
  obtain ⟨w, hw, -⟩ := Entry.of_required (own _ hvalue)
  rw [assign_readFields hv hw]
  refine .of_documents rfl rfl fun part hp => ?_
  simp only [Action.parts, List.mem_cons, List.not_mem_nil, or_false] at hp
  rcases hp with rfl | rfl
  · exact .action htarget hv
  · exact .action hvalue hw

theorem block_readFields {v : Value} {items : List Action} (hv : fieldOf? "lines" fs = some v)
    (hs : v.read.statements = .ok items) : block (readFields fs) = .block items := by
  simp [block, orFaulty, require_readFields hv, hs, bind, Except.bind, pure, Except.pure]

theorem readsAs_block (own : ∀ e ∈ Kind.block.format, e.admits fs = true) :
    ReadsAs .block fs (block (readFields fs)) := by
  have hlines : ⟨"lines", .required, .actions .statement⟩ ∈ Kind.block.format := by decide
  obtain ⟨v, hv, hv'⟩ := Entry.of_required (own _ hlines)
  obtain ⟨items, rfl⟩ := Slot.list_of_actions hv'
  rw [block_readFields hv (statements_list items)]
  refine .of_documents rfl rfl fun part hp => ?_
  obtain ⟨a, ha, rfl⟩ := List.mem_map.mp hp
  exact .actions hlines hv ha

theorem conditional_readFields {v w : Value} {accepted : List Action}
    {rejected : Option (List Action)} (hv : fieldOf? "condition" fs = some v)
    (hw : fieldOf? "then" fs = some w) (hs : w.read.statements = .ok accepted)
    (hr : (Value.given? "else" fs).mapM (·.read.statements) = .ok rejected) :
    conditional (readFields fs) = .conditional (Action.ofValue v) accepted rejected := by
  cases he : Value.given? "else" fs with
  | none =>
    rw [he] at hr
    cases hr
    simp [conditional, orFaulty, require_readFields hv, require_readFields hw, optional_readFields,
      he, hs, Action.ofValue, bind, Except.bind, pure, Except.pure]
  | some r =>
    rw [he] at hr
    obtain ⟨others, ho, hr⟩ := Except.bind_eq_ok.mp hr
    cases hr
    simp [conditional, orFaulty, require_readFields hv, require_readFields hw, optional_readFields,
      he, hs, ho, Action.ofValue, bind, Except.bind, pure, Except.pure]

theorem readsAs_conditional (own : ∀ e ∈ Kind.conditional.format, e.admits fs = true) :
    ReadsAs .conditional fs (conditional (readFields fs)) := by
  have hcondition : ⟨"condition", .required, .action .expression⟩ ∈ Kind.conditional.format := by
    decide
  have hthen : ⟨"then", .required, .actions .statement⟩ ∈ Kind.conditional.format := by decide
  have helse : ⟨"else", .optional, .actions .statement⟩ ∈ Kind.conditional.format := by decide
  obtain ⟨v, hv, -⟩ := Entry.of_required (own _ hcondition)
  obtain ⟨w, hw, hw'⟩ := Entry.of_required (own _ hthen)
  obtain ⟨items, rfl⟩ := Slot.list_of_actions hw'
  cases hr : Value.given? "else" fs with
  | none =>
    rw [conditional_readFields hv hw (statements_list items) (by rw [hr]; rfl)]
    refine .of_documents rfl rfl fun part hp => ?_
    simp only [Action.parts, Option.getD_none, List.append_nil, List.mem_cons, List.mem_map] at hp
    rcases hp with rfl | ⟨a, ha, rfl⟩
    · exact .action hcondition hv
    · exact .actions hthen hw (List.mem_map.mpr ha)
  | some r =>
    obtain ⟨others, rfl⟩ := Slot.list_of_actions (Entry.admits_of_value? (own _ helse) hr)
    have hothers : (Value.given? "else" fs).mapM (·.read.statements) =
        .ok (some (others.map Action.ofValue)) := by
      rw [hr, Option.mapM_some, statements_list]
      rfl
    rw [conditional_readFields hv hw (statements_list items) hothers]
    refine .of_documents rfl rfl fun part hp => ?_
    simp only [Action.parts, Option.getD_some, List.map_append, List.mem_cons,
      List.mem_append] at hp
    rcases hp with rfl | ha | ha
    · exact .action hcondition hv
    · obtain ⟨a, hm, rfl⟩ := List.mem_map.mp ha
      exact .actions hthen hw hm
    · obtain ⟨a, hm, rfl⟩ := List.mem_map.mp ha
      exact .actions helse hr hm

theorem loop_readFields {v w : Value} {items : List Action} (hv : fieldOf? "test" fs = some v)
    (hw : fieldOf? "body" fs = some w) (hs : w.read.statements = .ok items) :
    loop (readFields fs) = .loop ((Value.given? "init" fs).map Action.ofValue) (Action.ofValue v)
      ((Value.given? "update" fs).map Action.ofValue) items := by
  simp only [loop, require_readFields hv, require_readFields hw, optional_readFields,
    Option.map_map, bind, Except.bind, hs]
  rfl

theorem readsAs_loop (own : ∀ e ∈ Kind.loop.format, e.admits fs = true) :
    ReadsAs .loop fs (loop (readFields fs)) := by
  have hinit : ⟨"init", .optional, .action .header⟩ ∈ Kind.loop.format := by decide
  have htest : ⟨"test", .required, .action .expression⟩ ∈ Kind.loop.format := by decide
  have hupdate : ⟨"update", .optional, .action .header⟩ ∈ Kind.loop.format := by decide
  have hbody : ⟨"body", .required, .actions .statement⟩ ∈ Kind.loop.format := by decide
  obtain ⟨v, hv, -⟩ := Entry.of_required (own _ htest)
  obtain ⟨w, hw, hw'⟩ := Entry.of_required (own _ hbody)
  obtain ⟨items, rfl⟩ := Slot.list_of_actions hw'
  rw [loop_readFields hv hw (statements_list items)]
  refine .of_documents rfl rfl fun part hp => ?_
  simp only [Action.parts, List.map_append, List.cons_append, List.mem_cons, List.mem_append,
    List.mem_map, Option.mem_toList, Option.map_eq_some_iff] at hp
  rcases hp with rfl | (⟨_, ⟨u, hu, rfl⟩, rfl⟩ | ⟨_, ⟨u, hu, rfl⟩, rfl⟩) | ⟨a, ha, rfl⟩
  · exact .action htest hv
  · exact .action hinit hu
  · exact .action hupdate hu
  · exact .actions hbody hw (List.mem_map.mpr ha)

theorem function_readFields (own : ∀ e ∈ Kind.function.format, e.admits fs = true) :
    ∃ returns name params, function (readFields fs) = .function returns (.text name) params
      ((Value.given? "body" fs).map fun v => bodyOf v.read) := by
  have hparams := own ⟨"params", .defaulted, .params⟩ (by decide)
  obtain ⟨t, ht, htype⟩ := Entry.of_required (own ⟨"returns", .required, .type⟩ (by decide))
  obtain ⟨n, hn, hname⟩ := Entry.of_required (own ⟨"name", .required, .name⟩ (by decide))
  obtain ⟨returns, hty⟩ := typeField_readFields ht htype
  obtain ⟨name, hna⟩ := nameOf_of_isText hname
  obtain ⟨items, params, hitems, hps⟩ : ∃ items params,
      ((fieldOf? "params" (readFields fs)).map fun r => itemsOf r.value).getD (.ok []) = .ok items ∧
        items.mapM (paramOf n) = .ok params := by
    rw [fieldOf?_readFields]
    cases hv : fieldOf? "params" fs with
    | none => exact ⟨[], [], rfl, rfl⟩
    | some v =>
      have hall := Entry.admits_of_value? hparams hv
      cases v with
      | list items =>
        obtain ⟨params, hps⟩ := mapM_paramOf hall n
        exact ⟨items, params, by simp [Value.value_read, itemsOf], hps⟩
      | _ => simp [Slot.admits] at hall
  refine ⟨returns, name, params, ?_⟩
  simp [function, orFaulty, require_readFields hn, Value.value_read, hitems, hps, hty, hna,
    optional_readFields, Function.comp_def, bind, Except.bind, pure, Except.pure]

theorem readsAs_function (own : ∀ e ∈ Kind.function.format, e.admits fs = true) :
    ReadsAs .function fs (function (readFields fs)) := by
  have hbody : ⟨"body", .optional, .actions .statement⟩ ∈ Kind.function.format := by decide
  obtain ⟨returns, name, params, heq⟩ := function_readFields own
  rw [heq]
  refine .of_documents rfl rfl fun part hp => ?_
  cases hr : Value.given? "body" fs with
  | none => simp [hr, Action.parts] at hp
  | some r =>
    obtain ⟨lines, rfl⟩ := Slot.list_of_actions (Entry.admits_of_value? (own _ hbody) hr)
    rw [hr] at hp
    obtain ⟨a, ha, rfl⟩ := List.mem_map.mp hp
    exact .actions hbody hr (by simpa [bodyOf, sequence_list] using ha)

theorem readsAs_ret :
    ReadsAs .ret fs (.ret ((optional (readFields fs) "operand").map (·.action))) := by
  have hoperand : ⟨"operand", .optional, .action .expression⟩ ∈ Kind.ret.format := by decide
  refine .of_documents rfl rfl fun part hp => ?_
  simp only [Action.parts, optional_readFields, Option.map_map, List.mem_map, Option.mem_toList,
    Option.map_eq_some_iff] at hp
  obtain ⟨_, ⟨v, hv, rfl⟩, rfl⟩ := hp
  exact .action hoperand hv

theorem readsAs_variable (own : ∀ e ∈ Kind.variable.format, e.admits fs = true) :
    ReadsAs .variable fs (orFaulty [] do return .variable (← nameField (readFields fs))) := by
  obtain ⟨n, hn, hname⟩ := Entry.of_required (own ⟨"name", .required, .name⟩ (by decide))
  obtain ⟨name, hna⟩ := nameField_readFields hn hname
  rw [hna]
  exact .leaf rfl rfl rfl

theorem readsAs_rule {word : String} {k : Kind} (known : Kind.ofWord? word = some k)
    (own : ∀ e ∈ k.format, e.admits fs = true) :
    ∃ rule, ruleFor? word = some rule ∧ ReadsAs k fs (rule (readFields fs)) := by
  unfold Kind.ofWord? at known
  split at known <;> cases known
  · exact ⟨_, rfl, readsAs_declaration own⟩
  · exact ⟨_, rfl, readsAs_arrayDecl own⟩
  · exact ⟨_, rfl, readsAs_variable own⟩
  · exact ⟨_, rfl, readsAs_constant own⟩
  · exact ⟨_, rfl, readsAs_operation own⟩
  · exact ⟨_, rfl, readsAs_unary (fun _ => rfl) (fun _ => rfl) (fun _ => rfl) (by decide) own⟩
  · exact ⟨_, rfl, readsAs_cast own⟩
  · exact ⟨_, rfl, readsAs_assign own⟩
  · exact ⟨_, rfl, readsAs_block own⟩
  · exact ⟨_, rfl, readsAs_conditional own⟩
  · exact ⟨_, rfl, readsAs_loop own⟩
  · exact ⟨_, rfl, readsAs_function own⟩
  · exact ⟨_, rfl, readsAs_ret⟩
  · exact ⟨_, rfl, readsAs_call own⟩
  · exact ⟨_, rfl, readsAs_access own⟩
  · exact ⟨_, rfl, readsAs_unary (fun _ => rfl) (fun _ => rfl) (fun _ => rfl) (by decide) own⟩
  · exact ⟨_, rfl, readsAs_unary (fun _ => rfl) (fun _ => rfl) (fun _ => rfl) (by decide) own⟩
  · exact ⟨_, rfl, .leaf rfl rfl rfl⟩

end Rules

end Reading

theorem Action.WellFormed.inside {action : Action} (h : action.WellFormed)
    (unlined : action.isLined = false) :
    action.Proper ∧ ∀ part ∈ action.parts, part.2.WellFormed := by
  cases h with
  | lined => cases unlined
  | intro _ _ proper inside => exact ⟨proper, fun part hp => (inside part hp).wellFormed⟩

theorem Reading.ofValue_object {fs : List (String × Value)} {word : String}
    {rule : Fields → Action} (node : fieldOf? "node" fs = some (.string word))
    (hrule : ruleFor? word = some rule)
    (line : ∀ v, fieldOf? "line" fs = some v → ∃ n : Int, v = .int n) :
    Action.ofValue (.object fs) =
      (Value.object fs).line?.elim (rule (readFields fs))
        fun n => .lined n (rule (readFields fs)) := by
  have hnode : valueOf (readFields fs) "node" = .string word := by
    simp [valueOf, fieldOf?_readFields, node, Value.value_read]
  have haction : Action.ofValue (.object fs) = actionOf (readFields fs) := rfl
  simp only [haction, actionOf, hnode, hrule, fieldOf?_readFields, Value.line?]
  cases hl : fieldOf? "line" fs with
  | none => rfl
  | some v =>
    obtain ⟨n, rfl⟩ := line v hl
    rfl

theorem Conforms.fits {allowed : Policy} (literals : allowed .expression .constant)
    {position : Position} {v : Value} (h : Conforms allowed position v) :
    (Action.ofValue v).Fits allowed position := by
  induction h with
  | @intro position fs word k node known here line own _ ih =>
    obtain ⟨rule, hrule, hreads⟩ := Reading.readsAs_rule known own
    have hrule' := Reading.holds_rule Action.inherited_wellFormed (wellFormed_readFields fs) hrule
    obtain ⟨proper, hwell⟩ := hrule'.inside hreads.unlined
    have hfits : (rule (readFields fs)).Fits allowed position := by
      refine .intro hreads.unlined (by rwa [hreads.kind]) proper fun part hp => ?_
      rcases hreads.parts part hp with ⟨e, he, doc, hdoc, rfl⟩ | ⟨hpos, type, text, heq⟩
      · exact ih e he doc hdoc
      · have hconstant := (hwell part hp).inside
        rw [heq] at hconstant
        rw [hpos, heq]
        exact .intro rfl literals (hconstant rfl).1 fun _ hn => absurd hn List.not_mem_nil
    rw [Reading.ofValue_object node hrule line]
    cases (Value.object fs).line? with
    | none => exact hfits
    | some n => exact .lined n hfits

namespace Action

def declares : Action → List Name
  | .declaration _ _ _ bindings => bindings.map (·.1)
  | .arrayDecl _ name _ | .sizedArray _ name _ => [name]
  | _ => []

inductive Textual : Action → Prop where
  | intro {action : Action} (own : ∀ name ∈ action.declares, name.isText = true)
      (inside : ∀ part ∈ action.parts, part.2.Textual) : Textual action

theorem Textual.own {action : Action} (h : action.Textual) :
    ∀ name ∈ action.declares, name.isText = true := by
  cases h with
  | intro own _ => exact own

theorem Textual.inside {action : Action} (h : action.Textual) :
    ∀ part ∈ action.parts, part.2.Textual := by
  cases h with
  | intro _ inside => exact inside

theorem declares_eq_nil {action : Action} (hd : action.kind ≠ .declaration)
    (ha : action.kind ≠ .arrayDecl) : action.declares = [] := by
  cases action with
  | declaration => exact absurd rfl hd
  | arrayDecl | sizedArray => exact absurd rfl ha
  | _ => rfl

end Action

theorem Reading.isText_of_rule {fs : List (String × Value)} {word : String} {k : Kind}
    {rule : Fields → Action} (known : Kind.ofWord? word = some k)
    (own : ∀ e ∈ k.format, e.admits fs = true) (hrule : ruleFor? word = some rule) :
    ∀ name ∈ (rule (readFields fs)).declares, name.isText = true := by
  obtain ⟨rule', hrule', hreads⟩ := readsAs_rule known own
  cases hrule.symm.trans hrule'
  have hkind := hreads.kind
  unfold Kind.ofWord? at known
  split at known <;> cases known
  case h_1 =>
    cases hrule
    obtain ⟨type, kind, symbolType, bindings, items, heq, htexts, -⟩ := declaration_readFields own
    rw [heq]
    simpa [Action.declares] using htexts
  case h_2 =>
    cases hrule
    obtain ⟨type, name, size, heq⟩ := arrayDecl_readFields own
    rw [heq]
    simp [Action.declares, Name.isText]
  all_goals
    rw [Action.declares_eq_nil (by simp [hkind]) (by simp [hkind])]
    simp

theorem Conforms.textual {allowed : Policy} {position : Position} {v : Value}
    (h : Conforms allowed position v) : (Action.ofValue v).Textual := by
  induction h with
  | @intro position fs word k node known here line own _ ih =>
    obtain ⟨rule, hrule, hreads⟩ := Reading.readsAs_rule known own
    have htextual : (rule (readFields fs)).Textual := by
      refine .intro (Reading.isText_of_rule known own hrule) fun part hp => ?_
      rcases hreads.parts part hp with ⟨e, he, doc, hdoc, rfl⟩ | ⟨-, type, text, heq⟩
      · exact ih e he doc hdoc
      · rw [heq]
        exact .intro (fun _ hn => by cases hn) fun _ hn => by cases hn
    rw [Reading.ofValue_object node hrule line]
    cases (Value.object fs).line? with
    | none => exact htextual
    | some n =>
      refine .intro (fun _ hn => by cases hn) fun part hp => ?_
      rw [List.mem_singleton.mp hp]
      exact htextual

end Treewright
