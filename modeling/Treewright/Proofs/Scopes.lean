import Treewright.Proofs.Steps
set_option autoImplicit false

namespace Treewright

namespace Table

def addVariable (t : Table) (name : Name) (type : Ty) (line : Int) : Table :=
  let symbol : Symbol := ⟨t.symbols.length, name, line, t.current, .variable type⟩
  { t with
    inner := { t.inner with values := t.inner.values ++ [symbol] }
    symbols := t.symbols ++ [symbol] }

def addFunction (t : Table) (name : Name) (params : List (Value × Ty)) (returns : Option Ty)
    (line : Int) : Table :=
  let symbol : Symbol := ⟨t.symbols.length, name, line, t.current, .function params returns⟩
  { t with
    inner := { t.inner with functions := t.inner.functions ++ [symbol] }
    symbols := t.symbols ++ [symbol] }

def mark (t : Table) (symbol : Symbol) : Table :=
  if t.isDefined symbol then t else { t with defined := t.defined ++ [symbol.id] }

theorem define?_eq (t : Table) (name : Name) : t.define? name = (t.functionNamed name).map t.mark :=
  rfl

theorem functionNamed_of_inner {t : Table} {name : Name} {s : Symbol}
    (h : t.inner.functionNamed name = some s) : t.functionNamed name = some s := by
  simp [functionNamed, scopes, h]

theorem functionNamed_of_outer {t : Table} {name : Name}
    (h : t.inner.functionNamed name = none) :
    t.functionNamed name = t.outer.findSome? (·.functionNamed name) := by
  simp [functionNamed, scopes, h]

theorem mem_defined_mark {t : Table} {s : Symbol} {i : Nat} :
    i ∈ (t.mark s).defined ↔ i ∈ t.defined ∨ i = s.id := by
  unfold mark
  split
  · rename_i h
    have hm : s.id ∈ t.defined := by simpa [isDefined] using h
    constructor
    · exact .inl
    · rintro (hi | rfl)
      · exact hi
      · exact hm
  · simp

end Table

theorem Scope.mem_of_functionNamed {scope : Scope} {name : Name} {s : Symbol}
    (h : scope.functionNamed name = some s) : s ∈ scope.functions ∧ s.name.same name = true :=
  ⟨List.mem_of_find?_eq_some h, by simpa using List.find?_some h⟩

theorem Scope.mem_of_variableNamed {scope : Scope} {name : Name} {s : Symbol}
    (h : scope.variableNamed name = some s) : s ∈ scope.values ∧ s.name.same name = true :=
  ⟨List.mem_of_find?_eq_some h, by simpa using List.find?_some h⟩

theorem Name.same_congr {a b : Name} (h : a.same b = true) (name : Name) :
    name.same a = name.same b := by
  simp only [Name.same, decide_eq_true_eq] at h
  simp [Name.same, h]

theorem Scope.functionNamed_congr {a b : Name} (h : a.same b = true) (scope : Scope) :
    scope.functionNamed a = scope.functionNamed b := by
  simp only [functionNamed, Name.same_congr h]

theorem Table.functionNamed_addFunction (t : Table) (name : Name) (params : List (Value × Ty))
    (returns : Option Ty) (line : Int) (other : Name) :
    (t.addFunction name params returns line).inner.functionNamed other =
      (t.inner.functionNamed other).or (if name.same other then
        some ⟨t.symbols.length, name, line, t.current, .function params returns⟩ else none) := by
  simp [addFunction, Scope.functionNamed, List.find?_append, List.find?_singleton]

namespace Context

theorem declare_cases (c : Context) (name : Name) (type : Ty) (line : Int) :
    (c.table.inner.variableNamed name = none ∧
      c.declare name type line = (true, { c with table := c.table.addVariable name type line })) ∨
    ((c.table.inner.variableNamed name).isSome = true ∧
      c.declare name type line = (false, c.report [.redeclared name])) := by
  unfold declare Table.declare?
  cases c.table.inner.variableNamed name with
  | none => exact .inl ⟨rfl, rfl⟩
  | some s => exact .inr ⟨rfl, rfl⟩

theorem declareFunction_cases (c : Context) (name : Name) (params : List (Ty × Value))
    (returns : Ty) (line : Int) :
    (c.table.inner.functionNamed name = none ∧
      c.declareFunction name params returns line =
        (false, { c with
          table := c.table.addFunction name (params.map fun p => (p.2, p.1)) returns.given?
            line })) ∨
    ∃ s, c.table.inner.functionNamed name = some s ∧
      ((repeatsDeclaration c.table name (params.map (·.1)) returns.given? = true ∧
          c.declareFunction name params returns line = (false, c)) ∨
        (repeatsDeclaration c.table name (params.map (·.1)) returns.given? = false ∧
          c.declareFunction name params returns line =
            (true, c.report [.redeclaredFunction name]))) := by
  unfold declareFunction Table.declareFunction?
  cases c.table.inner.functionNamed name with
  | none => exact .inl ⟨rfl, rfl⟩
  | some s =>
    refine .inr ⟨s, rfl, ?_⟩
    cases repeatsDeclaration c.table name (params.map (·.1)) returns.given? with
    | true => exact .inl ⟨rfl, rfl⟩
    | false => exact .inr ⟨rfl, rfl⟩

theorem leave?_eq {c d : Context} (h : c.leave? = some d) :
    ∃ scope outer, c.table.outer = scope :: outer ∧
      d = { c with table := { c.table with inner := scope, outer } } := by
  unfold leave? Table.leave? at h
  cases ho : c.table.outer with
  | nil => simp [ho] at h
  | cons scope outer =>
    rw [ho] at h
    exact ⟨scope, outer, rfl, by simpa using h.symm⟩

end Context

/-- The second table has grown out of the first: the innermost scope has new entries at its end,
those for functions with new numbers, and the other scopes are the same. -/
structure Table.Extends (s t : Table) : Prop where
  name : t.inner.name = s.inner.name
  outer : t.outer = s.outer
  values : s.inner.values <+: t.inner.values
  functions : ∃ new, t.inner.functions = s.inner.functions ++ new ∧
    ∀ f ∈ new, s.symbols.length ≤ f.id
  symbols : s.symbols <+: t.symbols
  defined : s.defined <+: t.defined

structure Context.Extends (c d : Context) : Prop where
  table : c.table.Extends d.table
  log : c.log.diagnostics <+: d.log.diagnostics
  line : c.line ≤ d.line
  reportAll : d.reportAll = c.reportAll

theorem Table.Extends.refl (t : Table) : t.Extends t where
  name := rfl
  outer := rfl
  values := List.prefix_rfl
  functions := ⟨[], by simp, by simp⟩
  symbols := List.prefix_rfl
  defined := List.prefix_rfl

theorem Table.Extends.trans {s t u : Table} (h : s.Extends t) (h' : t.Extends u) :
    s.Extends u where
  name := h'.name.trans h.name
  outer := h'.outer.trans h.outer
  values := h.values.trans h'.values
  functions := by
    obtain ⟨new, he, hn⟩ := h.functions
    obtain ⟨new', he', hn'⟩ := h'.functions
    refine ⟨new ++ new', by rw [he', he, List.append_assoc], fun f hf => ?_⟩
    rcases List.mem_append.mp hf with hf | hf
    · exact hn f hf
    · exact Nat.le_trans h.symbols.length_le (hn' f hf)
  symbols := h.symbols.trans h'.symbols
  defined := h.defined.trans h'.defined

theorem Table.extends_addVariable (t : Table) (name : Name) (type : Ty) (line : Int) :
    t.Extends (t.addVariable name type line) where
  name := rfl
  outer := rfl
  values := List.prefix_append _ _
  functions := ⟨[], by simp [addVariable], by simp⟩
  symbols := List.prefix_append _ _
  defined := List.prefix_rfl

theorem Table.extends_addFunction (t : Table) (name : Name) (params : List (Value × Ty))
    (returns : Option Ty) (line : Int) : t.Extends (t.addFunction name params returns line) where
  name := rfl
  outer := rfl
  values := List.prefix_rfl
  functions := ⟨_, rfl, by simp⟩
  symbols := List.prefix_append _ _
  defined := List.prefix_rfl

theorem Table.extends_mark (t : Table) (s : Symbol) : t.Extends (t.mark s) := by
  unfold mark
  split
  · exact .refl t
  · exact { Table.Extends.refl t with defined := List.prefix_append _ _ }

namespace Context.Extends

theorem refl (c : Context) : c.Extends c where
  table := .refl c.table
  log := List.prefix_rfl
  line := Int.le_refl _
  reportAll := rfl

theorem trans {c d e : Context} (h : c.Extends d) (h' : d.Extends e) : c.Extends e where
  table := h.table.trans h'.table
  log := h.log.trans h'.log
  line := Int.le_trans h.line h'.line
  reportAll := h'.reportAll.trans h.reportAll

theorem of_table {c : Context} {table : Table} (h : c.table.Extends table) :
    c.Extends { c with table } := { refl c with table := h }

theorem report (c : Context) (problems : List Problem) : c.Extends (c.report problems) :=
  { refl c with
    log := by simp [Context.report]
    line := by simp }

theorem scope {c d e : Context} {name : Name} (h : (c.enter name).Extends d)
    (hl : d.leave? = some e) : c.Extends e := by
  obtain ⟨scope, outer, ho, rfl⟩ := Context.leave?_eq hl
  have houter : d.table.outer = c.table.inner :: c.table.outer := h.table.outer
  rw [ho] at houter
  cases houter
  exact { table := { Table.Extends.refl c.table with
            symbols := h.table.symbols
            defined := h.table.defined }
          log := h.log
          line := h.line
          reportAll := h.reportAll }

end Context.Extends

theorem steps_extends : Steps Context.Extends where
  refl := .refl
  trans := .trans
  advance c line :=
    { Context.Extends.refl c with
      log := by simp [Context.advanceTo]
      line := by simp only [Context.line, Context.advanceTo, Log.line_advanceTo]; omega }
  report := .report
  declare c name type line _ := by
    rcases c.declare_cases name type line with ⟨-, he⟩ | ⟨-, he⟩
    · rw [he]
      exact .of_table (c.table.extends_addVariable name type line)
    · rw [he]
      exact .report c _
  declareFunction c name params returns line _ _ := by
    rcases c.declareFunction_cases name params returns line with ⟨-, he⟩ | ⟨s, -, ⟨-, he⟩ | ⟨-, he⟩⟩
    · rw [he]
      exact .of_table (c.table.extends_addFunction name _ _ line)
    · rw [he]
      exact .refl c
    · rw [he]
      exact .report c _
  define {c name table} h := by
    rw [Table.define?_eq] at h
    obtain ⟨s, -, rfl⟩ := Option.map_eq_some_iff.mp h
    exact .of_table (c.table.extends_mark s)
  scope := .scope

def Placed (symbols : List Symbol) : Prop :=
  ∀ (i : Nat) (s : Symbol), symbols[i]? = some s → s.id = i

namespace Placed

theorem id_lt {symbols : List Symbol} (h : Placed symbols) {s : Symbol} (hs : s ∈ symbols) :
    s.id < symbols.length := by
  obtain ⟨i, hi, rfl⟩ := List.getElem_of_mem hs
  rwa [h i _ (List.getElem?_eq_getElem hi)]

theorem eq_of_id {symbols : List Symbol} (h : Placed symbols) {s s' : Symbol} (hs : s ∈ symbols)
    (hs' : s' ∈ symbols) (hid : s.id = s'.id) : s = s' := by
  obtain ⟨i, hi, rfl⟩ := List.getElem_of_mem hs
  obtain ⟨j, hj, rfl⟩ := List.getElem_of_mem hs'
  rw [h i _ (List.getElem?_eq_getElem hi), h j _ (List.getElem?_eq_getElem hj)] at hid
  subst hid
  rfl

theorem append {symbols : List Symbol} (h : Placed symbols) {s : Symbol}
    (hs : s.id = symbols.length) : Placed (symbols ++ [s]) := by
  intro i s' hi
  rw [List.getElem?_append] at hi
  split at hi
  · exact h i s' hi
  · obtain ⟨hlt, rfl⟩ := List.getElem?_eq_some_iff.mp hi
    simp only [List.length_singleton] at hlt
    simp only [List.getElem_singleton, hs]
    omega

end Placed

def Symbol.IsVariable (s : Symbol) : Prop := ∃ type, s.shape = .variable type ∧ type.Stored

def Symbol.IsSignature (s : Symbol) : Prop :=
  ∃ params returns, s.shape = .function params (some returns) ∧ returns.isWritten = true ∧
    ∀ p ∈ params, p.2.isWritten = true

structure Scope.Within (symbols : List Symbol) (scope : Scope) : Prop where
  values : ∀ s ∈ scope.values, s ∈ symbols ∧ s.IsVariable
  functions : ∀ s ∈ scope.functions, s ∈ symbols ∧ s.IsSignature

structure Table.Sound (t : Table) : Prop where
  places : ∀ (i : Nat) (s : Symbol), t.symbols[i]? = some s → s.id = i
  scopes : ∀ scope ∈ t.scopes, scope.Within t.symbols
  defined : ∀ i ∈ t.defined, i < t.symbols.length

theorem Scope.Within.mono {symbols symbols' : List Symbol} {scope : Scope}
    (h : scope.Within symbols) (hs : symbols ⊆ symbols') : scope.Within symbols' where
  values s hv := ⟨hs (h.values s hv).1, (h.values s hv).2⟩
  functions s hf := ⟨hs (h.functions s hf).1, (h.functions s hf).2⟩

theorem Ty.given?_of_isWritten {t : Ty} (h : t.isWritten = true) : t.given? = some t := by
  cases t <;> simp_all [isWritten, given?]

theorem Ty.Stored.given? {t : Ty} (h : t.Stored) : t.given? = some t := by
  cases h with
  | plain hw => exact Ty.given?_of_isWritten hw
  | array size hw => rfl

namespace Table.Sound

theorem empty : Table.Sound {} where
  places i s hs := by simp at hs
  scopes scope hs := by
    rw [List.mem_singleton.mp hs]
    exact ⟨fun _ hv => absurd hv List.not_mem_nil, fun _ hf => absurd hf List.not_mem_nil⟩
  defined i hi := absurd hi List.not_mem_nil

theorem id_lt {t : Table} (h : t.Sound) {s : Symbol} (hs : s ∈ t.symbols) :
    s.id < t.symbols.length := Placed.id_lt h.places hs

theorem eq_of_id {t : Table} (h : t.Sound) {s s' : Symbol} (hs : s ∈ t.symbols)
    (hs' : s' ∈ t.symbols) (hid : s.id = s'.id) : s = s' := Placed.eq_of_id h.places hs hs' hid

theorem addVariable {t : Table} (h : t.Sound) (name : Name) {type : Ty} (line : Int)
    (ht : type.Stored) : (t.addVariable name type line).Sound where
  places := Placed.append h.places rfl
  scopes scope hs := by
    have hsub : t.symbols ⊆ (t.addVariable name type line).symbols := List.subset_append_left _ _
    rcases List.mem_cons.mp hs with rfl | hs
    · have hin := (h.scopes t.inner (by simp [Table.scopes])).mono hsub
      refine ⟨fun s hv => ?_, hin.functions⟩
      rcases List.mem_append.mp hv with hv | hv
      · exact hin.values s hv
      · rw [List.mem_singleton.mp hv]
        exact ⟨by simp [Table.addVariable], type, rfl, ht⟩
    · exact (h.scopes scope (List.mem_cons_of_mem _ hs)).mono hsub
  defined i hi := by
    have := h.defined i hi
    simp only [Table.addVariable, List.length_append, List.length_singleton]
    omega

theorem addFunction {t : Table} (h : t.Sound) (name : Name) {params : List (Value × Ty)}
    {returns : Ty} (line : Int) (hp : ∀ p ∈ params, p.2.isWritten = true)
    (hr : returns.isWritten = true) : (t.addFunction name params (some returns) line).Sound where
  places := Placed.append h.places rfl
  scopes scope hs := by
    have hsub : t.symbols ⊆ (t.addFunction name params (some returns) line).symbols :=
      List.subset_append_left _ _
    rcases List.mem_cons.mp hs with rfl | hs
    · have hin := (h.scopes t.inner (by simp [Table.scopes])).mono hsub
      refine ⟨hin.values, fun s hf => ?_⟩
      rcases List.mem_append.mp hf with hf | hf
      · exact hin.functions s hf
      · rw [List.mem_singleton.mp hf]
        exact ⟨by simp [Table.addFunction], params, returns, rfl, hr, hp⟩
    · exact (h.scopes scope (List.mem_cons_of_mem _ hs)).mono hsub
  defined i hi := by
    have := h.defined i hi
    simp only [Table.addFunction, List.length_append, List.length_singleton]
    omega

theorem enter {t : Table} (h : t.Sound) (name : Name) : (t.enter name).Sound where
  places := h.places
  scopes scope hs := by
    rcases List.mem_cons.mp hs with rfl | hs
    · exact ⟨fun _ hv => absurd hv List.not_mem_nil, fun _ hf => absurd hf List.not_mem_nil⟩
    · exact h.scopes scope hs
  defined := h.defined

theorem leave {c d : Context} (h : c.table.Sound) (hl : c.leave? = some d) : d.table.Sound := by
  obtain ⟨scope, outer, ho, rfl⟩ := c.leave?_eq hl
  refine ⟨h.places, fun s hm => h.scopes s ?_, h.defined⟩
  rw [Table.scopes, ho]
  exact List.mem_cons_of_mem _ hm

theorem functionNamed {t : Table} (h : t.Sound) {name : Name} {s : Symbol}
    (hs : t.functionNamed name = some s) :
    s ∈ t.symbols ∧ s.IsSignature ∧ s.name.same name = true := by
  obtain ⟨scope, hm, hf⟩ := List.exists_of_findSome?_eq_some hs
  have hin := Scope.mem_of_functionNamed hf
  obtain ⟨hsym, hsig⟩ := (h.scopes scope hm).functions s hin.1
  exact ⟨hsym, hsig, hin.2⟩

theorem lookup {t : Table} (h : t.Sound) {name : Name} {type : Ty}
    (hl : t.lookup name = some type) : type.Stored := by
  obtain ⟨s, hs, ht⟩ := Option.bind_eq_some_iff.mp hl
  obtain ⟨scope, hm, hv⟩ := List.exists_of_findSome?_eq_some hs
  obtain ⟨-, stored, hshape, hstored⟩ :=
    (h.scopes scope hm).values s (Scope.mem_of_variableNamed hv).1
  simp only [Symbol.type?, hshape, hstored.given?, Option.some.injEq] at ht
  exact ht ▸ hstored

theorem mark {t : Table} (h : t.Sound) {s : Symbol} (hs : s ∈ t.symbols) : (t.mark s).Sound where
  places := by
    unfold Table.mark
    split <;> exact h.places
  scopes := by
    unfold Table.mark
    split <;> exact h.scopes
  defined i hi := by
    have hlen : (t.mark s).symbols = t.symbols := by unfold Table.mark; split <;> rfl
    rw [hlen]
    rcases Table.mem_defined_mark.mp hi with hi | rfl
    · exact h.defined i hi
    · exact h.id_lt hs

end Table.Sound

theorem steps_sound : Steps fun c d => c.table.Sound → d.table.Sound where
  refl _ h := h
  trans h h' hs := h' (h hs)
  advance _ _ h := h
  report _ _ h := h
  declare c name type line ht h := by
    rcases c.declare_cases name type line with ⟨-, he⟩ | ⟨-, he⟩
    · rw [he]
      exact h.addVariable name line ht
    · rw [he]
      exact h
  declareFunction c name params returns line hp hr h := by
    rcases c.declareFunction_cases name params returns line with ⟨-, he⟩ | ⟨s, -, ⟨-, he⟩ | ⟨-, he⟩⟩
    · rw [he, Ty.given?_of_isWritten hr]
      refine h.addFunction name line (fun p hp' => ?_) hr
      obtain ⟨q, hq, rfl⟩ := List.mem_map.mp hp'
      exact hp q hq
    · rw [he]
      exact h
    · rw [he]
      exact h
  define {c name table} hd h := by
    rw [Table.define?_eq] at hd
    obtain ⟨s, hs, rfl⟩ := Option.map_eq_some_iff.mp hd
    exact h.mark (h.functionNamed hs).1
  scope h hl hs := (h (hs.enter _)).leave hl

end Treewright
