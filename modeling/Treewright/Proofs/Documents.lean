import Treewright.Action.Reading
import Treewright.Proofs.Shape
set_option autoImplicit false

namespace Treewright

theorem Except.bind_eq_ok {ε α β : Type} {x : Except ε α} {f : α → Except ε β} {b : β} :
    x >>= f = .ok b ↔ ∃ a, x = .ok a ∧ f a = .ok b := by
  cases x with
  | error e => simp [bind, Except.bind]
  | ok a => simp [bind, Except.bind]

/-- The result is good, or the flaw is one of those that are allowed. -/
def Gives {α : Type} (allowed : Flaw → Prop) (good : α → Prop) : Except Flaw α → Prop
  | .ok a => good a
  | .error flaw => allowed flaw

theorem Gives.bind {α β : Type} {allowed : Flaw → Prop} {good : α → Prop} {good' : β → Prop}
    {x : Except Flaw α} {f : α → Except Flaw β} (hx : Gives allowed good x)
    (hf : ∀ a, good a → Gives allowed good' (f a)) : Gives allowed good' (x >>= f) := by
  cases x with
  | error flaw => exact hx
  | ok a => exact hf a hx

def Action.Excused (allowed : Flaw → Prop) : Action → Prop
  | .faulty _ flaw => allowed flaw
  | _ => True

/-- The action gets the property from the actions right inside, unless it only says a line. Among
the flaws only that of a number with too many digits may not be allowed. -/
structure Action.Inherited (allowed : Flaw → Prop) (P : Action → Prop) : Prop where
  other (flaw : Flaw) (h : flaw ≠ .longNumber) : allowed flaw
  intro {action : Action} (unlined : action.isLined = false) (proper : action.Proper)
    (excused : action.Excused allowed) (inside : ∀ part ∈ action.parts, P part.2) : P action

def Action.IgnoresLines (P : Action → Prop) : Prop :=
  ∀ (line : Int) (action : Action), P action → P (.lined line action)

/-- Only a value that cannot be written needs the flaw of a number with too many digits. -/
def Value.Bears (allowed : Flaw → Prop) (v : Value) : Prop :=
  v.writable = false → allowed .longNumber

namespace Value.Bears

variable {G : Flaw → Prop} {v : Value}

theorem items {vs : List Value} (h : (list (v :: vs)).Bears G) : v.Bears G ∧ (list vs).Bears G := by
  constructor <;> exact fun long => h (by simp_all [writable, writableList])

theorem fields {key : String} {fs : List (String × Value)} (h : (object ((key, v) :: fs)).Bears G) :
    v.Bears G ∧ (object fs).Bears G := by
  constructor <;> exact fun long => h (by simp_all [writable, writableFields])

theorem field {key : String} {fs : List (String × Value)} (h : (object fs).Bears G)
    (hv : fieldOf? key fs = some v) : v.Bears G := by
  induction fs with
  | nil => cases hv
  | cons f fs ih =>
    obtain ⟨here, rest⟩ := h.fields
    rw [fieldOf?] at hv
    split at hv
    · cases hv
      exact here
    · exact ih rest hv

end Value.Bears

namespace Action.Inherited

variable {G : Flaw → Prop} {P : Action → Prop}

theorem faulty (hP : Inherited G P) {before : List Action} (h : ∀ a ∈ before, P a) {flaw : Flaw}
    (hflaw : G flaw) : P (.faulty before flaw) := by
  refine hP.intro rfl trivial hflaw fun part hp => ?_
  obtain ⟨a, ha, rfl⟩ := List.mem_map.mp hp
  exact h a ha

theorem leaf (hP : Inherited G P) {action : Action} (unlined : action.isLined = false)
    (proper : action.Proper) (excused : action.Excused G) (empty : action.parts = []) : P action :=
  hP.intro unlined proper excused fun part hp => by simp [empty] at hp

theorem around (hP : Inherited G P) {action inner : Action} {position : Position}
    (unlined : action.isLined = false) (proper : action.Proper) (excused : action.Excused G)
    (parts : action.parts = [(position, inner)]) (h : P inner) : P action :=
  hP.intro unlined proper excused fun part hp => by
    rw [parts, List.mem_singleton] at hp
    exact hp ▸ h

end Action.Inherited

def BindingReading.Every (G : Flaw → Prop) (P : Action → Prop) : BindingReading → Prop
  | .flawed before flaw => (∀ a ∈ before, P a) ∧ G flaw
  | .bound _ value => ∀ a ∈ value.toList, P a

structure Reading.Every (G : Flaw → Prop) (P : Action → Prop) (r : Reading) : Prop where
  value : r.value.Bears G
  action : P r.action
  sequence : Gives G (fun as => ∀ a ∈ as, P a) r.sequence
  statements : Gives G (fun as => ∀ a ∈ as, P a) r.statements
  binding : r.binding.Every G P
  bindings : Gives G (fun bs => ∀ b ∈ bs, b.Every G P) r.bindings

namespace Reading

variable {G : Flaw → Prop} {P : Action → Prop} (hP : Action.Inherited G P)

include hP

theorem holds_orFaulty {before : List Action} {x : Except Flaw Action}
    (hb : ∀ a ∈ before, P a) (hx : Gives G P x) : P (orFaulty before x) := by
  cases x with
  | error flaw => exact hP.faulty hb hx
  | ok a => exact hx

theorem allowed_told {value : Value} (hv : value.Bears G) {flaw : Flaw} (h : flaw ≠ .longNumber) :
    G (told value flaw) := by
  unfold told
  split
  · exact hP.other flaw h
  · rename_i long
    exact hv (by simpa using long)

omit hP in
theorem gives_textOf {value : Value} {flaw : Flaw} (h : value.writable = false → G flaw) :
    Gives G (fun _ => True) (textOf flaw value) := by
  unfold textOf
  split
  · trivial
  · rename_i long
    exact h (by simpa using long)

theorem gives_typeNamed (value : Value) : Gives G (·.isWritten = true) (typeNamed value) := by
  refine (gives_textOf fun _ => hP.other .longWord (by simp)).bind fun word _ => ?_
  cases ht : Ty.ofName? word with
  | none => exact hP.other (.unknownType word) (by simp)
  | some type => exact Ty.isWritten_of_ofName? ht

theorem gives_nameOf {value : Value} (hv : value.Bears G) :
    Gives G (fun _ => True) (nameOf value) := by
  unfold nameOf
  split
  · split
    · trivial
    · rename_i long
      exact hv (by simpa using long)
  · exact hP.other (.notName _) (by simp)

theorem gives_itemsOf (value : Value) : Gives G (fun _ => True) (itemsOf value) := by
  cases value with
  | list _ => trivial
  | string _ => trivial
  | object _ => trivial
  | _ => exact hP.other (.notIterable _) (by simp)

theorem gives_paramOf {function : Value} (hv : function.Bears G) (value : Value) :
    Gives G (·.1.isWritten = true) (paramOf function value) := by
  unfold paramOf
  split
  · refine (gives_typeNamed hP _).bind fun type ht => ?_
    exact (gives_textOf fun _ => hP.other .longWord (by simp)).bind fun _ _ => ht
  · exact allowed_told hP hv (by simp)

theorem gives_params {function : Value} (hv : function.Bears G) (items : List Value) :
    Gives G (fun params : List (Ty × Name) => ∀ p ∈ params, p.1.isWritten = true)
      (items.mapM (paramOf function)) := by
  induction items with
  | nil => simp [Gives, pure, Except.pure]
  | cons item items ih =>
    rw [List.mapM_cons]
    refine (gives_paramOf hP hv item).bind fun param hp => ih.bind fun params hps => ?_
    exact List.forall_mem_cons.mpr ⟨hp, hps⟩

theorem gives_lineOf {value : Value} (hv : value.Bears G) :
    Gives G (fun _ => True) (lineOf value) := by
  have bad : G (.badLine value) := hP.other _ (by simp)
  unfold lineOf
  split
  · trivial
  · trivial
  · split
    · trivial
    · split
      · exact bad
      · exact hP.other .infiniteLine (by simp)
  · split
    · trivial
    · exact bad
  all_goals exact allowed_told hP hv (by simp)

section Rules

variable {fields : Fields} (hf : ∀ key r, fieldOf? key fields = some r → r.Every G P)

include hf

omit hP in
theorem bears_valueOf (key : String) : (valueOf fields key).Bears G := by
  intro long
  cases hr : fieldOf? key fields with
  | none => simp [valueOf, hr, Value.writable] at long
  | some r => exact (hf key r hr).value (by simpa [valueOf, hr] using long)

theorem gives_require (key : String) : Gives G (Every G P) (require fields key) := by
  unfold require
  cases hr : fieldOf? key fields with
  | some r => exact hf key r hr
  | none => exact allowed_told hP (bears_valueOf hf "node") (by simp)

omit hP in
theorem every_optional {key : String} {r : Reading} (h : optional fields key = some r) :
    r.Every G P := by
  unfold optional at h
  split at h
  · rename_i r' hr
    split at h
    · cases h
    · cases h
      exact hf key _ hr
  · cases h

omit hP in
theorem holds_optional_action (key : String) :
    ∀ a ∈ ((optional fields key).map (·.action)).toList, P a := by
  intro a ha
  obtain ⟨r, hr, rfl⟩ := Option.map_eq_some_iff.mp (Option.mem_toList.mp ha)
  exact (every_optional hf hr).action

theorem gives_typeField (key : String) : Gives G (·.isWritten = true) (typeField fields key) :=
  (gives_require hP hf key).bind fun r _ => gives_typeNamed hP r.value

theorem gives_nameField : Gives G (fun _ => True) (nameField fields) :=
  (gives_require hP hf "name").bind fun _ hr => gives_nameOf hP hr.value

omit hP in
theorem gives_textField (key default : String) :
    Gives G (fun _ => True) (textField fields key default) := by
  unfold textField
  split
  · rename_i r hr
    exact gives_textOf (hf key r hr).value
  · trivial

omit hP hf in
theorem splitBindings_actions {readings : List BindingReading} (h : ∀ b ∈ readings, b.Every G P) :
    (∀ b ∈ (splitBindings readings).1, ∀ a ∈ b.2.toList, P a) ∧
      ∀ before flaw, (splitBindings readings).2 = some (before, flaw) →
        (∀ a ∈ before, P a) ∧ G flaw := by
  induction readings with
  | nil => simp [splitBindings]
  | cons b readings ih =>
    have hb := h b (by simp)
    cases b with
    | flawed before flaw =>
      refine ⟨by simp [splitBindings], fun before' flaw' he => ?_⟩
      cases he
      exact hb
    | bound name value =>
      obtain ⟨h1, h2⟩ := ih fun b' hb' => h b' (by simp [hb'])
      refine ⟨fun b' hb' => ?_, h2⟩
      rcases List.mem_cons.mp hb' with rfl | hb'
      · exact hb
      · exact h1 b' hb'

theorem holds_declaration : P (declaration fields) := by
  refine holds_orFaulty hP (by simp) ?_
  refine (gives_typeField hP hf "type").bind fun type ht => ?_
  refine (gives_textField hf "kind" "var").bind fun kind _ => ?_
  refine (gives_textField hf "symbol_type" "").bind fun symbolType _ => ?_
  refine (gives_require hP hf "bindings").bind fun r hr => hr.bindings.bind fun readings hs => ?_
  obtain ⟨hb, hfl⟩ := splitBindings_actions hs
  cases hsplit : splitBindings readings with
  | mk bindings flaw =>
    rw [hsplit] at hb hfl
    have whole : P (Action.declaration type kind symbolType bindings) := by
      refine hP.intro rfl ht trivial fun part hp => ?_
      simp only [Action.parts, List.mem_flatMap, List.mem_map] at hp
      obtain ⟨b, hb', a, ha, rfl⟩ := hp
      exact hb b hb' a ha
    cases flaw with
    | none => exact whole
    | some flaw =>
      obtain ⟨hbefore, hflaw⟩ := hfl _ _ rfl
      exact hP.faulty (List.forall_mem_cons.mpr ⟨whole, hbefore⟩) hflaw

theorem holds_arrayDecl : P (arrayDecl fields) := by
  refine holds_orFaulty hP (by simp) ?_
  refine (gives_require hP hf "size").bind fun size hs => ?_
  have header : Gives G (fun h : Ty × Name => h.1.isWritten = true)
      (do
        let type ← typeField fields "type"
        return (type, ← nameField fields)) :=
    (gives_typeField hP hf "type").bind fun _ ht => (gives_nameField hP hf).bind fun _ _ => ht
  dsimp only
  split
  · rename_i he
    rw [he] at header
    exact hP.around rfl header trivial rfl hs.action
  · rename_i he
    rw [he] at header
    exact hP.faulty (by simpa using hs.action) header
  · refine (gives_textOf hs.value).bind fun text _ => header.bind fun h hh => ?_
    exact hP.leaf rfl hh trivial rfl

theorem holds_constant : P (constant fields) := by
  refine holds_orFaulty hP (by simp) ?_
  refine (gives_typeField hP hf "type").bind fun type ht => ?_
  refine (gives_require hP hf "value").bind fun r hr => ?_
  exact (gives_textOf hr.value).bind fun _ _ => hP.leaf rfl ht trivial rfl

theorem holds_operation : P (operation fields) := by
  refine holds_orFaulty hP (by simp) ?_
  refine (gives_require hP hf "op").bind fun r _ => ?_
  refine (gives_textOf fun _ => hP.other .longWord (by simp)).bind fun text _ => ?_
  cases Op.ofText? text with
  | none => exact hP.other (.unknownOperator text) (by simp)
  | some op =>
    dsimp only
    split
    · exact hP.other (.reservedOperator op) (by simp)
    · rename_i hreserved
      refine (gives_require hP hf "operands").bind fun r hr => hr.sequence.bind fun items hi => ?_
      split
      · exact hP.other (.noOperands op) (by simp)
      · rename_i hne
        refine hP.intro rfl ⟨by simpa using hreserved, by simpa using hne⟩ trivial fun part hp => ?_
        obtain ⟨a, ha, rfl⟩ := List.mem_map.mp hp
        exact hi a ha

theorem holds_unary {make : Action → Action} (hm : ∀ a, P a → P (make a)) :
    P (unary make fields) := by
  refine holds_orFaulty hP (by simp) ?_
  exact (gives_require hP hf "operand").bind fun r hr => hm _ hr.action

theorem holds_cast : P (cast fields) := by
  refine holds_orFaulty hP (by simp) ?_
  refine (gives_typeField hP hf "type").bind fun type ht => ?_
  exact (gives_require hP hf "operand").bind fun r hr => hP.around rfl ht trivial rfl hr.action

theorem holds_call : P (call fields) := by
  refine holds_orFaulty hP (by simp) ?_
  have given : Gives G (fun as => ∀ a ∈ as, P a)
      (((fieldOf? "args" fields).map (·.sequence)).getD (.ok [])) := by
    cases hargs : fieldOf? "args" fields with
    | none => exact fun a ha => absurd ha List.not_mem_nil
    | some r => exact (hf _ r hargs).sequence
  refine given.bind fun args hargs => holds_orFaulty hP hargs ?_
  refine (gives_nameField hP hf).bind fun name _ => ?_
  refine hP.intro rfl trivial trivial fun part hp => ?_
  obtain ⟨a, ha, rfl⟩ := List.mem_map.mp hp
  exact hargs a ha

theorem holds_access : P (access fields) := by
  refine holds_orFaulty hP (by simp) ?_
  refine (gives_require hP hf "name").bind fun name hname => ?_
  refine (gives_require hP hf "index").bind fun index hindex => ?_
  refine holds_orFaulty hP (by simpa using hindex.action) ?_
  refine (gives_nameOf hP hname.value).bind fun _ _ => ?_
  exact hP.around rfl trivial trivial rfl hindex.action

theorem holds_assign : P (assign fields) := by
  refine holds_orFaulty hP (by simp) ?_
  refine (gives_require hP hf "target").bind fun target ht => ?_
  refine holds_orFaulty hP (by simpa using ht.action) ?_
  refine (gives_require hP hf "value").bind fun value hv => ?_
  refine hP.intro rfl trivial trivial fun part hp => ?_
  simp only [Action.parts, List.mem_cons, List.not_mem_nil, or_false] at hp
  rcases hp with rfl | rfl
  · exact ht.action
  · exact hv.action

omit hf in
theorem holds_lines {lines : List Action} (h : ∀ a ∈ lines, P a) :
    P (Action.block lines) := by
  refine hP.intro rfl trivial trivial fun part hp => ?_
  obtain ⟨a, ha, rfl⟩ := List.mem_map.mp hp
  exact h a ha

theorem holds_block : P (block fields) := by
  refine holds_orFaulty hP (by simp) ?_
  refine (gives_require hP hf "lines").bind fun r hr => hr.statements.bind fun lines hl => ?_
  exact holds_lines hP hl

theorem holds_conditional : P (conditional fields) := by
  refine holds_orFaulty hP (by simp) ?_
  refine (gives_require hP hf "condition").bind fun r hr => ?_
  refine holds_orFaulty hP (by simpa using hr.action) ?_
  refine (gives_require hP hf "then").bind fun r' hr' => hr'.statements.bind fun accepted ha => ?_
  have whole {rejected : Option (List Action)} (hrej : ∀ a ∈ rejected.getD [], P a) :
      P (Action.conditional r.action accepted rejected) := by
    refine hP.intro rfl trivial trivial fun part hp => ?_
    simp only [Action.parts, List.mem_cons, List.mem_map, List.mem_append] at hp
    rcases hp with rfl | ⟨a, ha' | ha', rfl⟩
    · exact hr.action
    · exact ha a ha'
    · exact hrej a ha'
  cases helse : optional fields "else" with
  | none => exact whole (by simp)
  | some rejected =>
    have before : ∀ a ∈ [r.action, .block accepted], P a :=
      List.forall_mem_cons.mpr ⟨hr.action, by simpa using holds_lines hP ha⟩
    refine holds_orFaulty hP before ?_
    exact (every_optional hf helse).statements.bind fun lines hl => whole hl

theorem holds_loop : P (loop fields) := by
  have hinit := holds_optional_action hf "init"
  have hupdate := holds_optional_action hf "update"
  have stopped {before : List Action} (hb : ∀ a ∈ before, P a) {flaw : Flaw} (hflaw : G flaw) :
      P (.faulty [.block (((optional fields "init").map (·.action)).toList ++ before ++
        [.faulty [] flaw])] flaw) := by
    refine hP.faulty (fun a ha => ?_) hflaw
    rw [List.mem_singleton.mp ha]
    refine holds_lines hP fun a ha => ?_
    simp only [List.mem_append, List.mem_singleton] at ha
    rcases ha with (ha | ha) | rfl
    · exact hinit a ha
    · exact hb a ha
    · exact hP.faulty (by simp) hflaw
  have test := gives_require hP hf "test"
  have body : Gives G (fun as => ∀ a ∈ as, P a) (require fields "body" >>= (·.statements)) :=
    (gives_require hP hf "body").bind fun _ hr => hr.statements
  unfold loop
  split
  · rename_i he
    rw [he] at test
    exact stopped (by simp) test
  · rename_i test' he
    rw [he] at test
    split
    · rename_i he'
      rw [he'] at body
      exact stopped (List.forall_mem_cons.mpr ⟨test.action, hupdate⟩) body
    · rename_i lines he'
      rw [he'] at body
      refine hP.intro rfl trivial trivial fun part hp => ?_
      simp only [Action.parts, List.mem_append, List.mem_cons, List.mem_map] at hp
      rcases hp with (rfl | ⟨a, ha | ha, rfl⟩) | ⟨a, ha, rfl⟩
      · exact test.action
      · exact hinit a ha
      · exact hupdate a ha
      · exact body a ha

omit hf in
theorem holds_bodyOf {body : Reading} (h : body.Every G P) :
    ∀ a ∈ bodyOf body, P a := by
  have lines := h.sequence
  intro a ha
  unfold bodyOf at ha
  split at ha
  · rename_i he
    rw [he] at lines
    exact lines a ha
  · rename_i he
    rw [he] at lines
    have hflaw : P (.faulty [] _) := hP.faulty (by simp) lines
    split at ha
    · rw [List.mem_singleton.mp ha]
      exact hflaw
    · simp only [List.mem_cons, List.not_mem_nil, or_false] at ha
      rcases ha with rfl | rfl
      · exact hP.leaf rfl trivial trivial rfl
      · exact hflaw

theorem holds_function : P (function fields) := by
  refine holds_orFaulty hP (by simp) ?_
  refine (gives_require hP hf "name").bind fun name hname => ?_
  have given : Gives G (fun _ => True)
      (((fieldOf? "params" fields).map fun r => itemsOf r.value).getD (.ok [])) := by
    cases fieldOf? "params" fields with
    | none => trivial
    | some r => exact gives_itemsOf hP r.value
  refine given.bind fun items _ => (gives_params hP hname.value items).bind fun params hp => ?_
  refine (gives_typeField hP hf "returns").bind fun returns hr => ?_
  refine (gives_nameOf hP hname.value).bind fun _ _ => ?_
  refine hP.intro rfl ⟨hr, hp⟩ trivial fun part hp => ?_
  obtain ⟨a, ha, rfl⟩ := List.mem_map.mp hp
  cases hbody : optional fields "body" with
  | none => simp [hbody] at ha
  | some body =>
    simp only [hbody, Option.map_some, Option.getD_some] at ha
    exact holds_bodyOf hP (every_optional hf hbody) a ha

theorem holds_rule {kind : String} {rule : Fields → Action} (h : ruleFor? kind = some rule) :
    P (rule fields) := by
  unfold ruleFor? at h
  split at h <;> cases h
  case h_1 => exact holds_declaration hP hf
  case h_2 => exact holds_arrayDecl hP hf
  case h_3 =>
    refine holds_orFaulty hP (by simp) ?_
    exact (gives_nameField hP hf).bind fun _ _ => hP.leaf rfl trivial trivial rfl
  case h_4 => exact holds_constant hP hf
  case h_5 => exact holds_operation hP hf
  case h_6 => exact holds_unary hP hf fun a ha => hP.around rfl trivial trivial rfl ha
  case h_7 => exact holds_cast hP hf
  case h_8 => exact holds_assign hP hf
  case h_9 => exact holds_block hP hf
  case h_10 => exact holds_conditional hP hf
  case h_11 => exact holds_loop hP hf
  case h_12 => exact holds_function hP hf
  case h_13 =>
    refine hP.intro rfl trivial trivial fun part hp => ?_
    obtain ⟨a, ha, rfl⟩ := List.mem_map.mp hp
    exact holds_optional_action hf "operand" a ha
  case h_14 => exact holds_call hP hf
  case h_15 => exact holds_access hP hf
  case h_16 => exact holds_unary hP hf fun a ha => hP.around rfl trivial trivial rfl ha
  case h_17 => exact holds_unary hP hf fun a ha => hP.around rfl trivial trivial rfl ha
  case h_18 => exact hP.leaf rfl trivial trivial rfl

theorem holds_actionOf (hl : (fieldOf? "line" fields).isSome = true → Action.IgnoresLines P) :
    P (actionOf fields) := by
  refine holds_orFaulty hP (by simp) ?_
  refine (?_ : Gives G (fun rule => P (rule fields)) _).bind fun rule hrule => ?_
  · split
    · split
      · rename_i hr
        exact holds_rule hP hf hr
      · exact hP.other (.unknownKind _) (by simp)
    · exact hP.other (.notName _) (by simp)
    · exact hP.other (.notName _) (by simp)
    · exact allowed_told hP (bears_valueOf hf "node") (by simp)
  · split
    · exact hrule
    · rename_i r hr
      refine (gives_lineOf hP (hf "line" r hr).value).bind fun line _ => ?_
      exact hl (by simp [hr]) line _ hrule

omit hf in
theorem gives_literalOf {value : Value} (hv : value.Bears G) : Gives G P (literalOf value) := by
  cases value with
  | object inner =>
    have field {flaw : Flaw} (hflaw : G .longNumber → G flaw) (key : String) :
        Gives G (Value.Bears G) (literalField flaw inner key) := by
      unfold literalField
      split
      · rename_i v h
        exact hv.field h
      · refine (gives_textOf fun long => hflaw ?_).bind fun _ _ => hP.other (.missing _ _) (by simp)
        cases hn : fieldOf? "node" inner with
        | none => simp [hn, Value.writable] at long
        | some node => exact hv.field hn (by simpa [hn] using long)
    refine (field id "value").bind fun value hvalue => (gives_textOf hvalue).bind fun text _ => ?_
    refine (field (fun _ => hP.other .longWord (by simp)) "type").bind fun type _ => ?_
    exact (gives_typeNamed hP type).bind fun _ ht => hP.leaf rfl ht trivial rfl
  | _ => exact hP.other (.notObject _ _) (by simp)

theorem gives_initialOf : Gives G (fun value => ∀ a ∈ value.toList, P a) (initialOf fields) := by
  unfold initialOf
  split
  · rename_i r hr
    refine (gives_literalOf hP (hf _ r hr).value).bind fun a ha => ?_
    exact List.forall_mem_singleton.mpr ha
  · exact holds_optional_action hf "init"

theorem every_bindingOf : (bindingOf fields).Every G P := by
  have name := gives_require hP hf "name"
  have value := gives_initialOf hP hf
  unfold bindingOf
  split
  · rename_i he
    rw [he] at name
    exact ⟨by simp, name⟩
  · rename_i r he
    rw [he] at name
    have key := gives_nameOf hP name.value
    split
    · rename_i given
      rw [given] at value
      exact ⟨by simp, value⟩
    · rename_i given named
      rw [given] at value
      rw [named] at key
      exact ⟨value, key⟩
    · rename_i given _
      rw [given] at value
      exact value

end Rules

theorem every_plain {value : Value} (hv : value.Bears G) {sequence : Except Flaw (List Action)}
    {bindings : Except Flaw (List BindingReading)}
    (hs : Gives G (fun as => ∀ a ∈ as, P a) sequence)
    (hb : Gives G (fun bs => ∀ b ∈ bs, b.Every G P) bindings) :
    (plain value sequence bindings).Every G P where
  value := hv
  action := hP.faulty (by simp) (hP.other (.notAction _) (by simp))
  sequence := hs
  statements := hP.other .notStatements (by simp)
  binding := ⟨by simp, hP.other (.notObject _ _) (by simp)⟩
  bindings := hb

theorem every_ofAtom (value : Value) (hv : value.Bears G) : (ofAtom value).Every G P :=
  every_plain hP hv (hP.other (.notIterable _) (by simp)) (hP.other (.notIterable _) (by simp))

theorem every_ofTexts (value : Value) (hv : value.Bears G) (count : Nat) :
    (ofTexts value count).Every G P := by
  refine every_plain hP hv ?_ ?_
  · intro a ha
    rw [List.eq_of_mem_replicate ha]
    exact hP.faulty (by simp) (hP.other (.notAction _) (by simp))
  · intro b hb
    rw [List.eq_of_mem_replicate hb]
    exact ⟨by simp, hP.other (.notObject _ _) (by simp)⟩

theorem every_ofList (value : Value) (hv : value.Bears G) {items : List Reading}
    (h : ∀ r ∈ items, r.Every G P) : (ofList value items).Every G P := by
  have hactions : Gives G (fun as => ∀ a ∈ as, P a) (.ok (items.map (·.action))) := by
    intro a ha
    obtain ⟨r, hr, rfl⟩ := List.mem_map.mp ha
    exact (h r hr).action
  have hbindings : Gives G (fun bs => ∀ b ∈ bs, b.Every G P) (.ok (items.map (·.binding))) := by
    intro b hb
    obtain ⟨r, hr, rfl⟩ := List.mem_map.mp hb
    exact (h r hr).binding
  exact { every_plain hP hv hactions hbindings with statements := hactions }

theorem every_ofObject (value : Value) (hv : value.Bears G) {fields : Fields}
    (hf : ∀ key r, fieldOf? key fields = some r → r.Every G P)
    (hl : (fieldOf? "line" fields).isSome = true → Action.IgnoresLines P) :
    (ofObject value fields).Every G P := by
  have haction := holds_actionOf hP hf hl
  refine { every_ofTexts hP value hv fields.length with
    action := haction
    binding := every_bindingOf hP hf
    statements := ?_ }
  simp only [ofObject]
  split
  · refine (gives_require hP hf "lines").bind fun lines hlines => ?_
    split
    · exact hlines.sequence
    · exact hP.other .notStatements (by simp)
  · simpa [Gives] using haction

end Reading

mutual
def Value.mentions (key : String) : Value → Bool
  | .list items => mentionsAny key items
  | .object fields => mentionsField key fields
  | .null | .bool _ | .int _ | .float _ | .string _ => false

def mentionsAny (key : String) : List Value → Bool
  | [] => false
  | v :: vs => v.mentions key || mentionsAny key vs

def mentionsField (key : String) : List (String × Value) → Bool
  | [] => false
  | (k, v) :: fs => k == key || v.mentions key || mentionsField key fs
end

theorem mentionsField_of_fieldOf? {key : String} {fs : List (String × Value)}
    (h : (fieldOf? key (readFields fs)).isSome = true) : mentionsField key fs = true := by
  induction fs with
  | nil => simp [readFields] at h
  | cons f fs ih =>
    obtain ⟨k, v⟩ := f
    by_cases hk : k = key
    · simp [mentionsField, hk]
    · simp only [readFields, fieldOf?, hk, if_false] at h
      simp [mentionsField, ih h]

section Readings

variable {G : Flaw → Prop} {P : Action → Prop}

mutual
theorem Value.every_read (hP : Action.Inherited G P) : (v : Value) → v.Bears G →
    (v.mentions "line" = true → Action.IgnoresLines P) → v.read.Every G P
  | .list items => fun hv hl =>
    Reading.every_ofList hP (.list items) hv (every_readAll hP items hv hl)
  | .object fields => fun hv hl =>
    Reading.every_ofObject hP (.object fields) hv (every_readFields hP fields hv hl) fun h =>
      hl (mentionsField_of_fieldOf? h)
  | .string s => fun hv _ => Reading.every_ofTexts hP (.string s) hv s.length
  | .null => fun hv _ => Reading.every_ofAtom hP .null hv
  | .bool b => fun hv _ => Reading.every_ofAtom hP (.bool b) hv
  | .int n => fun hv _ => Reading.every_ofAtom hP (.int n) hv
  | .float x => fun hv _ => Reading.every_ofAtom hP (.float x) hv

theorem every_readAll (hP : Action.Inherited G P) : (vs : List Value) →
    (Value.list vs).Bears G → (mentionsAny "line" vs = true → Action.IgnoresLines P) →
    ∀ r ∈ readAll vs, r.Every G P
  | [], _, _, _, hr => absurd hr List.not_mem_nil
  | v :: vs, hv, hl, r, hr => by
    obtain ⟨here, rest⟩ := hv.items
    rcases List.mem_cons.mp hr with rfl | hr
    · exact v.every_read hP here fun h => hl (by simp [mentionsAny, h])
    · exact every_readAll hP vs rest (fun h => hl (by simp [mentionsAny, h])) r hr

theorem every_readFields (hP : Action.Inherited G P) : (fs : List (String × Value)) →
    (Value.object fs).Bears G → (mentionsField "line" fs = true → Action.IgnoresLines P) →
    ∀ key r, fieldOf? key (readFields fs) = some r → r.Every G P
  | [], _, _, _, _, h => by simp [readFields] at h
  | (k, v) :: fs, hv, hl, key, r, h => by
    obtain ⟨here, rest⟩ := hv.fields
    simp only [readFields, fieldOf?] at h
    split at h
    · cases h
      exact v.every_read hP here fun h => hl (by simp [mentionsField, h])
    · exact every_readFields hP fs rest (fun h => hl (by simp [mentionsField, h])) key r h
end

end Readings

theorem Action.inherited_wellFormed : Action.Inherited (fun _ => True) Action.WellFormed :=
  ⟨fun _ _ => trivial, fun unlined proper _ => .intro unlined proper⟩

theorem Action.wellFormed_lined : Action.IgnoresLines Action.WellFormed :=
  fun line _ h => .lined line h

theorem wellFormed_readFields (fs : List (String × Value)) (key : String) (r : Reading)
    (h : fieldOf? key (readFields fs) = some r) : r.Every (fun _ => True) Action.WellFormed :=
  every_readFields Action.inherited_wellFormed fs (fun _ => trivial)
    (fun _ => Action.wellFormed_lined) key r h

theorem Value.wellFormed_read (v : Value) : v.read.Every (fun _ => True) Action.WellFormed :=
  v.every_read Action.inherited_wellFormed (fun _ => trivial) fun _ => Action.wellFormed_lined

theorem Action.wellFormed_ofValue (v : Value) : (Action.ofValue v).WellFormed :=
  v.wellFormed_read.action

theorem Action.wellFormed_sequence {v : Value} {actions : List Action}
    (h : Action.sequence v = .ok actions) : ∀ a ∈ actions, a.WellFormed := by
  have read : Gives (fun _ => True) (fun as => ∀ a ∈ as, a.WellFormed) (sequence v) :=
    v.wellFormed_read.sequence
  rwa [h] at read

theorem Action.inherited_says (line : Int) :
    Action.Inherited (fun _ => True) fun a => ¬a.Says line where
  other _ _ := trivial
  intro unlined _ _ inside h := by
    cases h with
    | here => cases unlined
    | inside hp h => exact inside _ hp h

theorem Action.not_says_ofValue {v : Value} (h : v.mentions "line" = false) (line : Int) :
    ¬(Action.ofValue v).Says line := by
  have read := v.every_read (Action.inherited_says line) (fun _ => trivial) fun mentioned => by
    rw [h] at mentioned
    cases mentioned
  exact read.action

end Treewright
