import Treewright.Proofs.Format
import Treewright.Proofs.Frames
import Treewright.Proofs.Simulation
set_option autoImplicit false

namespace Treewright

open Build

def shifted (start count i : Nat) : Nat := if i < start then i else i + count

theorem shifted_inj {start count i j : Nat} (h : shifted start count i = shifted start count j) :
    i = j := by
  unfold shifted at h
  split at h <;> split at h <;> omega

/-- The second symbol is the first one under another number; their lines and the names of their
scopes may differ. -/
structure Symbol.Twin (number : Nat → Nat) (s s' : Symbol) : Prop where
  id : s'.id = number s.id
  name : s'.name = s.name
  shape : s'.shape = s.shape

structure Scope.Twin (number : Nat → Nat) (a b : Scope) : Prop where
  values : List.Forall₂ (Symbol.Twin number) a.values b.values
  functions : List.Forall₂ (Symbol.Twin number) a.functions b.functions

/-- The second table has the same scopes, and `count` more symbols from the place `start` on that no
scope holds. -/
structure Table.Twin (start count : Nat) (t t' : Table) : Prop where
  start_le : start ≤ t.symbols.length
  size : t'.symbols.length = t.symbols.length + count
  inner : Scope.Twin (shifted start count) t.inner t'.inner
  outer : List.Forall₂ (Scope.Twin (shifted start count)) t.outer t'.outer
  defined : ∀ i, shifted start count i ∈ t'.defined ↔ i ∈ t.defined

theorem rel_find? {R : Symbol → Symbol → Prop} {p : Symbol → Bool}
    (hp : ∀ s s', R s s' → p s' = p s) {l l' : List Symbol} (h : List.Forall₂ R l l') :
    Option.Rel R (l.find? p) (l'.find? p) := by
  induction h with
  | nil => exact .none
  | @cons s s' l l' hs _ ih =>
    rw [List.find?_cons, List.find?_cons, hp s s' hs]
    cases p s with
    | true => exact .some hs
    | false => exact ih

theorem rel_findSome? {Q : Scope → Scope → Prop} {R : Symbol → Symbol → Prop}
    {f : Scope → Option Symbol} (hf : ∀ a b, Q a b → Option.Rel R (f a) (f b)) {l l' : List Scope}
    (h : List.Forall₂ Q l l') : Option.Rel R (l.findSome? f) (l'.findSome? f) := by
  induction h with
  | nil => exact .none
  | @cons a b l l' hab _ ih =>
    have hr := hf a b hab
    rw [List.findSome?_cons, List.findSome?_cons]
    generalize f a = x at hr ⊢
    generalize f b = y at hr ⊢
    cases hr with
    | none => exact ih
    | some hs => exact .some hs

namespace Symbol.Twin

variable {number : Nat → Nat} {s s' : Symbol}

theorem type? (h : s.Twin number s') : s'.type? = s.type? := by simp [Symbol.type?, h.shape]

theorem returns? (h : s.Twin number s') : s'.returns? = s.returns? := by
  simp [Symbol.returns?, h.shape]

theorem paramTypes (h : s.Twin number s') : s'.paramTypes = s.paramTypes := by
  simp [Symbol.paramTypes, Symbol.params?, h.shape]

end Symbol.Twin

namespace Scope.Twin

variable {number : Nat → Nat} {a b : Scope}

theorem variableNamed (h : Scope.Twin number a b) (name : Name) :
    Option.Rel (Symbol.Twin number) (a.variableNamed name) (b.variableNamed name) :=
  rel_find? (fun _ _ hs => by rw [hs.name]) h.values

theorem functionNamed (h : Scope.Twin number a b) (name : Name) :
    Option.Rel (Symbol.Twin number) (a.functionNamed name) (b.functionNamed name) :=
  rel_find? (fun _ _ hs => by rw [hs.name]) h.functions

end Scope.Twin

namespace Table.Twin

variable {start count : Nat} {t t' : Table}

theorem variableNamed (h : t.Twin start count t') (name : Name) :
    Option.Rel (Symbol.Twin (shifted start count)) (t.variableNamed name) (t'.variableNamed name) :=
  rel_findSome? (fun _ _ hs => hs.variableNamed name) (.cons h.inner h.outer)

theorem functionNamed (h : t.Twin start count t') (name : Name) :
    Option.Rel (Symbol.Twin (shifted start count)) (t.functionNamed name) (t'.functionNamed name) :=
  rel_findSome? (fun _ _ hs => hs.functionNamed name) (.cons h.inner h.outer)

theorem lookup (h : t.Twin start count t') (name : Name) : t'.lookup name = t.lookup name := by
  have hv := h.variableNamed name
  unfold Table.lookup
  generalize t.variableNamed name = v at hv ⊢
  generalize t'.variableNamed name = v' at hv ⊢
  cases hv with
  | none => rfl
  | some hs => exact hs.type?

theorem isDefined (h : t.Twin start count t') {s s' : Symbol}
    (hs : s.Twin (shifted start count) s') : t'.isDefined s' = t.isDefined s := by
  rw [Bool.eq_iff_iff]
  simp only [Table.isDefined, List.contains_iff_mem, hs.id]
  exact h.defined s.id

theorem checkCall (h : t.Twin start count t') (all : Bool) (name : Name) (args : List Operand) :
    checkCall all t' name args = checkCall all t name args := by
  have hf := h.functionNamed name
  unfold Treewright.checkCall
  generalize t.functionNamed name = f at hf ⊢
  generalize t'.functionNamed name = f' at hf ⊢
  cases hf with
  | none => rfl
  | some hs => simp only [hs.paramTypes, hs.returns?]

theorem repeatsDeclaration (h : t.Twin start count t') (name : Name) (params : List Ty)
    (returns : Option Ty) :
    repeatsDeclaration t' name params returns = repeatsDeclaration t name params returns := by
  have hf := h.functionNamed name
  unfold Treewright.repeatsDeclaration
  generalize t.functionNamed name = f at hf ⊢
  generalize t'.functionNamed name = f' at hf ⊢
  cases hf with
  | none => rfl
  | some hs => simp only [hs.paramTypes, hs.returns?, h.isDefined hs]

theorem enter (h : t.Twin start count t') (name : Name) :
    (t.enter name).Twin start count (t'.enter name) where
  start_le := h.start_le
  size := h.size
  inner := ⟨.nil, .nil⟩
  outer := .cons h.inner h.outer
  defined := h.defined

theorem leave (h : t.Twin start count t') :
    Option.Rel (Table.Twin start count) t.leave? t'.leave? := by
  have ho := h.outer
  unfold Table.leave?
  generalize t.outer = outer at ho ⊢
  generalize t'.outer = outer' at ho ⊢
  cases ho with
  | nil => exact .none
  | cons hi ho => exact .some ⟨h.start_le, h.size, hi, ho, h.defined⟩

theorem next (h : t.Twin start count t') (name : Name) (line line' : Int) (shape : Shape) :
    Symbol.Twin (shifted start count) ⟨t.symbols.length, name, line, t.current, shape⟩
      ⟨t'.symbols.length, name, line', t'.current, shape⟩ where
  id := by
    have hle := h.start_le
    have hsize := h.size
    simp only [shifted]
    split <;> omega
  name := rfl
  shape := rfl

theorem add (h : t.Twin start count t') {inner inner' : Scope}
    (hi : Scope.Twin (shifted start count) inner inner') (s s' : Symbol) :
    Table.Twin start count { t with inner, symbols := t.symbols ++ [s] }
      { t' with inner := inner', symbols := t'.symbols ++ [s'] } where
  start_le := by
    have hle := h.start_le
    simp only [List.length_append]
    omega
  size := by
    have hsize := h.size
    simp only [List.length_append, List.length_singleton]
    omega
  inner := hi
  outer := h.outer
  defined := h.defined

theorem declare (h : t.Twin start count t') (name : Name) (type : Ty) (line line' : Int) :
    Option.Rel (Table.Twin start count) (t.declare? name type line)
      (t'.declare? name type line') := by
  have hv := h.inner.variableNamed name
  unfold Table.declare?
  generalize t.inner.variableNamed name = v at hv ⊢
  generalize t'.inner.variableNamed name = v' at hv ⊢
  cases hv with
  | some => exact .none
  | none =>
    have hs := h.next name line line' (.variable type)
    refine .some (h.add ?_ _ _)
    exact ⟨List.rel_append h.inner.values (.cons hs .nil), h.inner.functions⟩

theorem declareFunction (h : t.Twin start count t') (name : Name) (params : List (Value × Ty))
    (returns : Option Ty) (line line' : Int) :
    Option.Rel (Table.Twin start count) (t.declareFunction? name params returns line)
      (t'.declareFunction? name params returns line') := by
  have hf := h.inner.functionNamed name
  unfold Table.declareFunction?
  generalize t.inner.functionNamed name = f at hf ⊢
  generalize t'.inner.functionNamed name = f' at hf ⊢
  cases hf with
  | some => exact .none
  | none =>
    have hs := h.next name line line' (.function params returns)
    refine .some (h.add ?_ _ _)
    exact ⟨h.inner.values, List.rel_append h.inner.functions (.cons hs .nil)⟩

theorem define (h : t.Twin start count t') (name : Name) :
    Option.Rel (Table.Twin start count) (t.define? name) (t'.define? name) := by
  have hf := h.functionNamed name
  unfold Table.define?
  generalize t.functionNamed name = f at hf ⊢
  generalize t'.functionNamed name = f' at hf ⊢
  cases hf with
  | none => exact .none
  | @some s s' hs =>
    refine .some ?_
    simp only [h.isDefined hs]
    split
    · exact h
    · refine ⟨h.start_le, h.size, h.inner, h.outer, fun i => ?_⟩
      have hi := h.defined i
      simp only [List.mem_append, List.mem_singleton, hs.id, hi]
      constructor
      · intro hm
        rcases hm with hm | hm
        · exact .inl hm
        · exact .inr (shifted_inj hm)
      · intro hm
        rcases hm with hm | hm
        · exact .inl hm
        · exact .inr (by rw [hm])

end Table.Twin

/-- The tables differ in numbers alone, and since the two logs were `seen` and `seen'` the same has
been reported to both. -/
structure Context.Twin (start count : Nat) (seen seen' : List Diagnostic) (c c' : Context) :
    Prop where
  table : c.table.Twin start count c'.table
  line : c'.line = c.line
  reportAll : c'.reportAll = c.reportAll
  log : ∃ new, c.log.diagnostics = seen ++ new ∧ c'.log.diagnostics = seen' ++ new

namespace Context.Twin

variable {start count : Nat} {seen seen' : List Diagnostic} {c c' : Context}

theorem withTable (h : c.Twin start count seen seen' c') {t t' : Table}
    (ht : t.Twin start count t') :
    Context.Twin start count seen seen' { c with table := t } { c' with table := t' } :=
  ⟨ht, h.line, h.reportAll, h.log⟩

theorem report (h : c.Twin start count seen seen' c') (problems : List Problem) :
    (c.report problems).Twin start count seen seen' (c'.report problems) where
  table := h.table
  line := by simp [h.line]
  reportAll := h.reportAll
  log := by
    obtain ⟨new, hc, hc'⟩ := h.log
    have hline : c'.log.line = c.log.line := h.line
    refine ⟨new ++ problems.map (Diagnostic.mk c.log.line), ?_, ?_⟩
    · simp [Context.report, hc]
    · simp [Context.report, hc', hline]

theorem advance (h : c.Twin start count seen seen' c') (line : Int) :
    (c.advanceTo line).Twin start count seen seen' (c'.advanceTo line) where
  table := h.table
  line := by
    have hline : c'.log.line = c.log.line := h.line
    simp [Context.line, Context.advanceTo, Log.line_advanceTo, hline]
  reportAll := h.reportAll
  log := by simpa [Context.advanceTo] using h.log

theorem leave (h : c.Twin start count seen seen' c') :
    Option.Rel (Context.Twin start count seen seen') c.leave? c'.leave? := by
  have hl := h.table.leave
  unfold Context.leave?
  generalize c.table.leave? = t at hl ⊢
  generalize c'.table.leave? = t' at hl ⊢
  cases hl with
  | none => exact .none
  | some ht => exact .some (h.withTable ht)

theorem declare (h : c.Twin start count seen seen' c') (name : Name) (type : Ty)
    (line line' : Int) :
    (c'.declare name type line').1 = (c.declare name type line).1 ∧
      (c.declare name type line).2.Twin start count seen seen' (c'.declare name type line').2 := by
  have hd := h.table.declare name type line line'
  unfold Context.declare
  generalize c.table.declare? name type line = t at hd ⊢
  generalize c'.table.declare? name type line' = t' at hd ⊢
  cases hd with
  | none => exact ⟨rfl, h.report _⟩
  | some ht => exact ⟨rfl, h.withTable ht⟩

theorem declareFunction (h : c.Twin start count seen seen' c') (name : Name)
    (params : List (Ty × Value)) (returns : Ty) (line line' : Int) :
    (c.declareFunction name params returns line).1 =
        (c'.declareFunction name params returns line').1 ∧
      (c.declareFunction name params returns line).2.Twin start count seen seen'
        (c'.declareFunction name params returns line').2 := by
  have hd := h.table.declareFunction name (params.map fun p => (p.2, p.1)) returns.given? line line'
  have hr := h.table.repeatsDeclaration name (params.map (·.1)) returns.given?
  unfold Context.declareFunction
  rw [hr]
  generalize c.table.declareFunction? name _ _ line = t at hd ⊢
  generalize c'.table.declareFunction? name _ _ line' = t' at hd ⊢
  cases hd with
  | some ht => exact ⟨rfl, h.withTable ht⟩
  | none =>
    simp only
    split
    · exact ⟨rfl, h⟩
    · exact ⟨rfl, h.report _⟩

theorem define (h : c.Twin start count seen seen' c') (name : Name) :
    Option.Rel (fun t t' => Context.Twin start count seen seen' { c with table := t }
      { c' with table := t' }) (c.table.define? name) (c'.table.define? name) := by
  have hd := h.table.define name
  generalize c.table.define? name = t at hd ⊢
  generalize c'.table.define? name = t' at hd ⊢
  cases hd with
  | none => exact .none
  | some ht => exact .some (h.withTable ht)

theorem made (h : c.Twin start count seen seen' c') (action : Action) (ns : List Node) :
    (action.made ns c).1 = (action.made ns c').1 ∧
      (action.made ns c).2.Twin start count seen seen' (action.made ns c').2 := by
  unfold Action.made
  split
  case h_1 type name size =>
    obtain ⟨hd, ht⟩ := h.declare name (.array type (.string size)) c.line c'.line
    simp only [Form.ofArrayDecl, h.line, Prod.map_fst, Prod.map_snd]
    rw [h.line] at hd ht
    exact ⟨by rw [hd], ht⟩
  case h_2 =>
    simp only [Form.ofVariable, checkVariable, h.table.lookup, h.line, Prod.map_fst, Prod.map_snd]
    exact ⟨trivial, h.report _⟩
  case h_4 | h_5 | h_6 =>
    exact ⟨by simp [Form.ofOperation, Form.ofFold, h.line], h.report _⟩
  case h_7 => exact ⟨by simp [Form.ofAssignment, h.line], h.report _⟩
  case h_9 =>
    simp only [Form.ofCall, h.reportAll, h.table.checkCall, h.line, Prod.map_fst, Prod.map_snd]
    exact ⟨trivial, h.report _⟩
  case h_10 =>
    simp only [Form.ofAccess, checkArray, h.table.lookup, h.line, Prod.map_fst, Prod.map_snd]
    exact ⟨trivial, h.report _⟩
  all_goals exact ⟨by simp [h.line], h⟩

theorem boundNode (h : c.Twin start count seen seen' c') (type : Ty) (name : Name)
    (value : Option Node) :
    (boundNode type name value c).1 = (boundNode type name value c').1 ∧
      (boundNode type name value c).2.Twin start count seen seen'
        (boundNode type name value c').2 := by
  obtain ⟨hd, ht⟩ := h.declare name type c.line c'.line
  simp only [Treewright.boundNode, Form.ofBinding, h.line, Prod.map_fst, Prod.map_snd]
  rw [h.line] at hd ht
  exact ⟨by rw [hd], ht.report _⟩

end Context.Twin

theorem Option.eq_of_rel {α : Type} {x y : Option α} (h : Option.Rel (· = ·) x y) : x = y := by
  cases h with
  | none => rfl
  | some h => rw [h]

theorem simulation_twin (start count : Nat) (seen seen' : List Diagnostic) :
    Simulation (Context.Twin start count seen seen') (· = ·) where
  advance h line := h.advance line
  enter h name := h.withTable (h.table.enter name)
  leave h := h.leave
  param h name _ _ := (h.declare name _ _ _).2
  declareFunction h name _ _ _ _ := h.declareFunction name _ _ _ _
  define h name := h.define name
  render h := by rw [h]
  made {action _} _ _ {ns ns'} _ hn _ _ h := by
    obtain rfl := List.forall₂_eq_eq_eq ▸ hn
    exact h.made action ns
  bound {type} _ name {value value'} hv _ _ h := by
    obtain rfl := Option.eq_of_rel hv
    exact h.boundNode type name value
  declaration _ _ _ _ _ hn _ _ h := by
    obtain rfl := List.forall₂_eq_eq_eq ▸ hn
    rw [h.line]
  block _ _ _ hn := by
    obtain rfl := List.forall₂_eq_eq_eq ▸ hn
    rfl
  conditional hn hb _ _ hr _ _ h := by
    obtain rfl := Option.eq_of_rel hr
    subst hn hb
    exact ⟨by simp [conditionalNode, Form.ofConditional, h.line], h.report _⟩
  loop hi _ _ hn hu _ _ hb _ _ h := by
    obtain rfl := Option.eq_of_rel hi
    obtain rfl := Option.eq_of_rel hu
    subst hn hb
    exact ⟨by simp [loopNode, Form.ofLoop, h.line], h.report _⟩
  function _ _ _ _ _ _ hb _ _ h := by
    obtain rfl := Option.eq_of_rel hb
    rw [h.line]
  nop := rfl

/-- A scope was opened and closed again: the open scopes are the same, and so is what is defined of
the symbols that there were. -/
structure Context.Closes (c d : Context) : Prop where
  inner : d.table.inner = c.table.inner
  outer : d.table.outer = c.table.outer
  symbols : c.table.symbols.length ≤ d.table.symbols.length
  defined : ∀ i < c.table.symbols.length, i ∈ d.table.defined ↔ i ∈ c.table.defined
  line : d.line = c.line
  reportAll : d.reportAll = c.reportAll

theorem contract_line : Contract (fun _ => False) (fun c d => d.line = c.line)
    fun _ c d => d.line = c.line where
  refl _ := rfl
  trans _ _ _ h h' := h'.trans h
  advance _ _ h := h.elim
  report c problems := by simp
  declare c name type line _ := by
    rcases c.declare_cases name type line with ⟨-, he⟩ | ⟨-, he⟩
    · rw [he]
      rfl
    · rw [he]
      simp
  declareFunction c name params returns line _ _ := by
    rcases c.declareFunction_cases name params returns line with ⟨-, he⟩ | ⟨s, -, ⟨-, he⟩ | ⟨-, he⟩⟩
    · rw [he]
      rfl
    · rw [he]
    · rw [he]
      simp
  scope h hl := by
    obtain ⟨_, _, _, rfl⟩ := Context.leave?_eq hl
    exact h
  line h := h
  chain h h' := h'.trans h
  define _ := rfl
  body _ h hl := by
    obtain ⟨_, _, _, rfl⟩ := Context.leave?_eq hl
    exact h

theorem closes_build {action : Action} (opens : action.opensScope = true)
    (wellFormed : action.WellFormed) (unlined : ∀ line, ¬action.Says line) (c : Context) :
    c.Closes (exec (build action) c).2 := by
  have hline := (contract_line.keeps_build wellFormed unlined c).1
  have hparts : ∀ part ∈ action.parts, Keeps (Context.Frames []) (build part.2) := by
    cases wellFormed with
    | lined => cases opens
    | intro _ _ _ inside =>
      exact fun part hp => contract_frames.keeps_build (inside part hp) fun _ _ => trivial
  obtain ⟨α, x, f, he, hx, hf⟩ := contract_frames.opensScope opens hparts
  obtain ⟨frames, hdepth⟩ := hx (c.enter .nothing)
  generalize hd : (exec x (c.enter .nothing)).2 = d at frames
  obtain ⟨e, hl, hs, -⟩ := exec_inScope_of_depth hdepth
  rw [hd] at hl
  -- Whether or not the step after the scope is come to, it only reports.
  obtain ⟨problems, hp⟩ : ∃ problems, (exec (build action) c).2 = e.report problems := by
    rw [he, exec_bind]
    cases hr : exec (inScope .nothing x) c with
    | mk r d =>
      rw [hr] at hs
      subst hs
      cases r with
      | error fault => exact ⟨[], rfl⟩
      | ok a => exact hf a d
  rw [hp] at hline ⊢
  obtain ⟨scope, outer, ho, rfl⟩ := Context.leave?_eq hl
  have houter : d.table.outer = c.table.inner :: c.table.outer := frames.grown.table.outer
  rw [ho] at houter
  cases houter
  refine ⟨rfl, rfl, frames.grown.table.symbols.length_le, fun i hi => ⟨fun hm => ?_, fun hm => ?_⟩,
    hline, frames.grown.reportAll⟩
  · rcases frames.marks i hm with h1 | h2 | h3 | h4
    · exact h1
    · have hle : c.table.symbols.length ≤ i := h2
      omega
    · exact absurd h3 List.not_mem_nil
    · exact absurd h4 List.not_mem_nil
  · exact frames.grown.table.defined.subset hm

namespace Context.Closes

variable {c d : Context}

theorem twin_scope {t : Table} (ordered : t.Ordered) (count : Nat) {scope : Scope}
    (hm : scope ∈ t.scopes) : Scope.Twin (shifted t.symbols.length count) scope scope := by
  have same : ∀ s ∈ scope.values ++ scope.functions,
      Symbol.Twin (shifted t.symbols.length count) s s := by
    intro s hs
    have hlt := ordered.places.id_lt (ordered.listed scope hm hs)
    exact ⟨by simp [shifted, hlt], rfl, rfl⟩
  refine ⟨List.forall₂_same.mpr fun s hs => ?_, List.forall₂_same.mpr fun s hs => ?_⟩
  · exact same s (List.mem_append_left _ hs)
  · exact same s (List.mem_append_right _ hs)

theorem twin (h : c.Closes d) (hc : c.table.Ordered) (hd : d.table.Ordered) :
    c.Twin c.table.symbols.length (d.table.symbols.length - c.table.symbols.length)
      c.log.diagnostics d.log.diagnostics d where
  table :=
    { start_le := Nat.le_refl _
      size := by
        have hle := h.symbols
        omega
      inner := by
        rw [h.inner]
        exact twin_scope hc _ (by simp [Table.scopes])
      outer := by
        rw [h.outer]
        exact List.forall₂_same.mpr fun scope hm => twin_scope hc _ (List.mem_cons_of_mem _ hm)
      defined := fun i => by
        unfold shifted
        split
        · rename_i hlt
          exact h.defined i hlt
        · -- No table has a mark beyond its last symbol.
          constructor
          · intro hm
            have hlt := hd.defined _ hm
            omega
          · intro hm
            have hlt := hc.defined i hm
            omega }
  line := h.line
  reportAll := h.reportAll
  log := ⟨[], by simp, by simp⟩

end Context.Closes

theorem exec_faulty {before : List Action} {flaw : Flaw} {c d : Context} {n : Node}
    (h : exec (build (.faulty before flaw)) c = (.ok n, d)) : False := by
  rw [build] at h
  obtain ⟨_, _, -, h⟩ := exec_bind_ok.mp h
  cases h

theorem Reading.opensScope_block (fields : Fields) :
    (block fields).opensScope = true ∨ ∃ before flaw, block fields = .faulty before flaw := by
  unfold block
  cases h : (do return Action.block (← (← require fields "lines").statements)) with
  | error flaw => exact .inr ⟨[], flaw, rfl⟩
  | ok action =>
    obtain ⟨_, -, h⟩ := Except.bind_eq_ok.mp h
    obtain ⟨_, -, h⟩ := Except.bind_eq_ok.mp h
    cases h
    exact .inl rfl

theorem Reading.opensScope_loop (fields : Fields) :
    (loop fields).opensScope = true ∨ ∃ before flaw, loop fields = .faulty before flaw := by
  unfold loop
  split
  · exact .inr ⟨_, _, rfl⟩
  · split
    · exact .inr ⟨_, _, rfl⟩
    · exact .inl rfl

/-- A block or a loop that says no line, and that can be built, stands in a scope of its own. -/
theorem opensScope_of_exec {fields : List (String × Value)} {word : String}
    (kind : word = "block" ∨ word = "for") (node : fieldOf? "node" fields = some (.string word))
    (unlined : (Value.object fields).mentions "line" = false) {c d : Context} {n : Node}
    (built : exec (build (.ofValue (.object fields))) c = (.ok n, d)) :
    (Action.ofValue (.object fields)).opensScope = true := by
  have hline : fieldOf? "line" (readFields fields) = none := by
    rw [← Option.not_isSome_iff_eq_none]
    intro h
    have hm : mentionsField "line" fields = true := mentionsField_of_fieldOf? h
    rw [Value.mentions, hm] at unlined
    cases unlined
  have hread {rule : Reading.Fields → Action} (hrule : Reading.ruleFor? word = some rule) :
      Action.ofValue (.object fields) = rule (readFields fields) := by
    have hnode : Reading.valueOf (readFields fields) "node" = .string word := by
      simp [Reading.valueOf, fieldOf?_readFields, node, Value.value_read]
    change Reading.actionOf (readFields fields) = _
    simp only [Reading.actionOf, hnode, hrule, hline]
    rfl
  rcases kind with rfl | rfl
  · rw [hread rfl] at built ⊢
    rcases Reading.opensScope_block (readFields fields) with h | ⟨before, flaw, h⟩
    · exact h
    · rw [h] at built
      exact (exec_faulty built).elim
  · rw [hread rfl] at built ⊢
    rcases Reading.opensScope_loop (readFields fields) with h | ⟨before, flaw, h⟩
    · exact h
    · rw [h] at built
      exact (exec_faulty built).elim

theorem reachable_buildAll (documents : List Value) {c : Context} (h : c.table.Reachable) :
    (exec (buildAll (documents.map .ofValue)) c).2.table.Reachable := by
  have hkeeps : Keeps _ (buildAll (documents.map .ofValue)) :=
    keeps_buildAll steps_reachable.contract fun a ha => by
      obtain ⟨v, -, rfl⟩ := List.mem_map.mp ha
      exact keeps_build steps_reachable (Action.wellFormed_ofValue v)
  exact (hkeeps c).1 h

/-- Let two programs be built from one reachable table, which differ by a block or a loop that says
no line and stands between what comes `before` and what comes `after` it. Then the nodes of what
comes after it are the same, and the same is reported while they are built. -/
theorem build_after_closed_scope {c : Context} (reachable : c.table.Reachable)
    {before after : List Value} {fields : List (String × Value)} {word : String}
    (kind : word = "block" ∨ word = "for") (node : fieldOf? "node" fields = some (.string word))
    (unlined : (Value.object fields).mentions "line" = false) {ns ms : List Node} {d e : Context}
    (without : exec (buildAll ((before ++ after).map .ofValue)) c = (.ok ns, d))
    (within : exec (buildAll ((before ++ [Value.object fields] ++ after).map .ofValue)) c =
      (.ok ms, e)) :
    ∃ front scope back d₁ e₁ new,
      exec (buildAll (before.map .ofValue)) c = (.ok front, d₁) ∧
      exec (build (.ofValue (.object fields))) d₁ = (.ok scope, e₁) ∧
      exec (buildAll (after.map .ofValue)) d₁ = (.ok back, d) ∧
      exec (buildAll (after.map .ofValue)) e₁ = (.ok back, e) ∧
      ns = front ++ back ∧ ms = front ++ scope :: back ∧
      d.log.diagnostics = d₁.log.diagnostics ++ new ∧
      e.log.diagnostics = e₁.log.diagnostics ++ new := by
  rw [List.map_append, exec_buildAll_append] at without
  rw [List.append_assoc, List.map_append, exec_buildAll_append] at within
  obtain ⟨front, back, d₁, hfront, hback, rfl⟩ := without
  obtain ⟨front', rest, d₁', hfront', hrest, rfl⟩ := within
  cases hfront.symm.trans hfront'
  obtain ⟨scope, back', e₁, hscope, hback', rfl⟩ := exec_buildAll_cons.mp hrest
  have hd₁ : d₁.table.Reachable := by
    have h := reachable_buildAll before reachable
    rwa [hfront] at h
  have he₁ : e₁.table.Reachable := by
    have h := (keeps_build steps_reachable (Action.wellFormed_ofValue (.object fields)) d₁).1 hd₁
    rwa [hscope] at h
  have closes : d₁.Closes e₁ := by
    have h := closes_build (opensScope_of_exec kind node unlined hscope)
      (Action.wellFormed_ofValue _) (Action.not_says_ofValue unlined) d₁
    rwa [hscope] at h
  have hsim := simulation_twin d₁.table.symbols.length
    (e₁.table.symbols.length - d₁.table.symbols.length) d₁.log.diagnostics e₁.log.diagnostics
  have hends := hsim.documents after d₁ e₁ (closes.twin hd₁.ordered he₁.ordered)
  change exec (buildAll (after.map .ofValue)) e₁ = _ at hback'
  rw [hback, hback'] at hends
  cases hends with
  | ok hnodes htwin =>
    obtain rfl := List.forall₂_eq_eq_eq ▸ hnodes
    obtain ⟨new, hd, he⟩ := htwin.log
    exact ⟨front, scope, back, d₁, e₁, new, hfront, hscope, hback, hback', rfl, rfl, hd, he⟩

def declaredF (body : Value) : Value :=
  .object [("node", .string "function"), ("name", .string "f"), ("returns", .string "void"),
    ("body", body)]

def callOfG : Value := .object [("node", .string "call"), ("name", .string "g")]

def blockOfF : List (String × Value) :=
  [("node", .string "block"), ("lines", .list [declaredF (.list []), callOfG])]

/-- The block defines its own `f` before the outer one is defined, and reports as well. The outer
one is defined all the same afterwards, and what is reported then is reported in both programs. -/
theorem build_after_closed_scope_shadowing :
    let before := [declaredF .null]
    let after := [declaredF (.list []), callOfG]
    let c : Context := {}
    ∃ ns ms d e,
      exec (buildAll ((before ++ after).map .ofValue)) c = (.ok ns, d) ∧
      exec (buildAll ((before ++ [Value.object blockOfF] ++ after).map .ofValue)) c = (.ok ms, e) ∧
      d.table.defined = [0] ∧ e.table.defined = [1, 0] ∧
      ∃ front scope back d₁ e₁ new,
        exec (buildAll (before.map .ofValue)) c = (.ok front, d₁) ∧
        exec (build (.ofValue (.object blockOfF))) d₁ = (.ok scope, e₁) ∧
        exec (buildAll (after.map .ofValue)) d₁ = (.ok back, d) ∧
        exec (buildAll (after.map .ofValue)) e₁ = (.ok back, e) ∧
        ns = front ++ back ∧ ms = front ++ scope :: back ∧
        d.log.diagnostics = d₁.log.diagnostics ++ new ∧
        e.log.diagnostics = e₁.log.diagnostics ++ new := by
  intro before after c
  let x := buildAll ((before ++ after).map .ofValue)
  let y := buildAll ((before ++ [Value.object blockOfF] ++ after).map .ofValue)
  obtain ⟨hx, hy, own, inner⟩ : (exec x c).1.isOk = true ∧ (exec y c).1.isOk = true ∧
      (exec x c).2.table.defined = [0] ∧ (exec y c).2.table.defined = [1, 0] := by decide +kernel
  obtain ⟨ns, without⟩ := exec_of_isOk hx
  obtain ⟨ms, within⟩ := exec_of_isOk hy
  refine ⟨ns, ms, _, _, without, within, own, inner, ?_⟩
  exact build_after_closed_scope .fresh (.inl rfl) rfl rfl without within

end Treewright
