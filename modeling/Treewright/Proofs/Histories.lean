import Treewright.Proofs.Scopes
import Mathlib.Data.List.Forall2
import Mathlib.Data.List.Induction
import Mathlib.Data.List.TakeWhile
set_option autoImplicit false

namespace Treewright

/-- What a call to declare asks for. -/
structure Declaration where
  name : Name
  line : Int
  shape : Shape
  deriving DecidableEq, Repr

namespace Declaration

def isFunction (d : Declaration) : Bool :=
  match d.shape with
  | .variable _ => false
  | .function _ _ => true

def type? (d : Declaration) : Option Ty :=
  match d.shape with
  | .variable type => type.given?
  | .function _ returns => returns

end Declaration

def Symbol.declaration (s : Symbol) : Declaration := ⟨s.name, s.line, s.shape⟩

namespace Table

/-- The calls that may change a table. -/
inductive Call where
  | enter (name : Name)
  | leave
  | declare (d : Declaration)
  | define (name : Name)
  deriving DecidableEq, Repr

inductive Answer where
  | scope (name : Name)
  | verdict (accepted : Bool)
  | done
  | misuse (m : Misuse)
  deriving DecidableEq, Repr

def Answer.failed : Answer → Bool
  | .verdict accepted => !accepted
  | .misuse _ => true
  | .scope _ | .done => false

def declaring (t : Table) (d : Declaration) : Option Table :=
  match d.shape with
  | .variable type => t.declare? d.name type d.line
  | .function params returns => t.declareFunction? d.name params returns d.line

def perform (t : Table) : Call → Answer × Table
  | .enter name => (.scope (t.enter name).current, t.enter name)
  | .leave =>
    match t.leave? with
    | some u => (.scope u.current, u)
    | none => (.misuse .leaveGlobal, t)
  | .declare d =>
    match t.declaring d with
    | some u => (.verdict true, u)
    | none => (.verdict false, t)
  | .define name =>
    match t.define? name with
    | some u => (.done, u)
    | none => (.misuse (.defineUndeclared name), t)

def after (t : Table) : List Call → Table
  | [] => t
  | call :: calls => (t.perform call).2.after calls

theorem after_append (t : Table) (calls more : List Call) :
    t.after (calls ++ more) = (t.after calls).after more := by
  induction calls generalizing t with
  | nil => rfl
  | cons call calls ih => exact ih _

/-- A call, the innermost scope when it was made, and what it answered. -/
structure Entry where
  scope : Name
  call : Call
  answer : Answer
  deriving DecidableEq, Repr

def entry (t : Table) (call : Call) : Entry := ⟨t.current, call, (t.perform call).1⟩

def transcript (t : Table) : List Call → List Entry
  | [] => []
  | call :: calls => t.entry call :: (t.perform call).2.transcript calls

theorem transcript_append (t : Table) (calls more : List Call) :
    t.transcript (calls ++ more) = t.transcript calls ++ (t.after calls).transcript more := by
  induction calls generalizing t with
  | nil => rfl
  | cons call calls ih => simp [transcript, after, ih]

namespace Entry

def opens (e : Entry) : Bool :=
  match e.call with
  | .enter _ => true
  | _ => false

def closes (e : Entry) : Bool := e.call = .leave

def accepted (e : Entry) : Bool := e.answer = .verdict true

/-- What the call declares, if it declares a variable, or a function, of the name. -/
def declares? (e : Entry) (function : Bool) (name : Name) : Option Declaration :=
  match e.call with
  | .declare d => if d.isFunction = function ∧ d.name.same name = true then some d else none
  | _ => none

/-- An accepted declaration with the scope it was made in. -/
def accepted? (e : Entry) : Option (Name × Declaration) :=
  match e.call with
  | .declare d => if e.accepted then some (e.scope, d) else none
  | _ => none

end Entry

/-- `left` is `log` without some scopes that were closed, and without some calls to leave that had
nothing to close. An erased scope goes with every call in it; those inside were erased before. -/
inductive Erases : List Entry → List Entry → Prop where
  | refl (log : List Entry) : Erases log log
  | closed {before inside after left : List Entry} {first last : Entry}
      (opens : first.opens = true) (closes : last.closes = true)
      (direct : ∀ e ∈ inside, e.opens = false ∧ e.closes = false)
      (rest : Erases (before ++ after) left) :
      Erases (before ++ first :: inside ++ last :: after) left
  | refused {before after left : List Entry} {last : Entry} (closes : last.closes = true)
      (direct : ∀ e ∈ before, e.opens = false ∧ e.closes = false)
      (rest : Erases (before ++ after) left) :
      Erases (before ++ last :: after) left

/-- One more call on what is left, latest first. -/
def keep (kept : List Entry) (e : Entry) : List Entry :=
  if e.closes then
    match kept.dropWhile (!·.opens) with
    | [] => kept
    | _ :: before => before
  else e :: kept

/-- What is left once nothing more can be erased. -/
def remaining (log : List Entry) : List Entry := (log.foldl keep []).reverse

theorem keep_of_not_closes {e : Entry} (h : e.closes = false) (kept : List Entry) :
    keep kept e = e :: kept := by
  simp [keep, h]

theorem foldl_keep {log : List Entry} (h : ∀ e ∈ log, e.closes = false) (kept : List Entry) :
    log.foldl keep kept = log.reverse ++ kept := by
  induction log generalizing kept with
  | nil => rfl
  | cons e log ih =>
    rw [List.foldl_cons, keep_of_not_closes (h e (by simp)), ih (fun x hx => h x (by simp [hx]))]
    simp

theorem keep_closed {first last : Entry} {inside kept : List Entry} (opens : first.opens = true)
    (closes : last.closes = true) (direct : ∀ e ∈ inside, e.opens = false) :
    keep (inside ++ first :: kept) last = kept := by
  have skipped : (inside ++ first :: kept).dropWhile (!·.opens) = first :: kept := by
    rw [List.dropWhile_append_of_pos (by simpa using direct)]
    simp [opens]
  simp [keep, closes, skipped]

theorem keep_refused {last : Entry} {kept : List Entry} (closes : last.closes = true)
    (direct : ∀ e ∈ kept, e.opens = false) : keep kept last = kept := by
  have skipped : kept.dropWhile (!·.opens) = [] :=
    List.dropWhile_eq_nil_iff.mpr (by simpa using direct)
  simp [keep, closes, skipped]

theorem keep_cases {last : Entry} (closes : last.closes = true) (kept : List Entry) :
    (∃ inside first before, kept = inside ++ first :: before ∧ first.opens = true ∧
      (∀ e ∈ inside, e.opens = false) ∧ keep kept last = before) ∨
    ((∀ e ∈ kept, e.opens = false) ∧ keep kept last = kept) := by
  have direct : ∀ e ∈ kept.takeWhile (!·.opens), e.opens = false := by
    intro e he
    simpa using List.mem_takeWhile_imp he
  cases found : kept.dropWhile (!·.opens) with
  | nil =>
    have none_opens : ∀ e ∈ kept, e.opens = false := by
      simpa using List.dropWhile_eq_nil_iff.mp found
    exact .inr ⟨none_opens, keep_refused closes none_opens⟩
  | cons first before =>
    have split : kept = kept.takeWhile (!·.opens) ++ first :: before := by
      rw [← found, List.takeWhile_append_dropWhile]
    have opens : first.opens = true := by
      have := List.head?_dropWhile_not (!·.opens) kept
      simpa [found] using this
    refine .inl ⟨_, first, before, split, opens, direct, ?_⟩
    rw [split]
    exact keep_closed opens closes direct

theorem remaining_concat (log : List Entry) (e : Entry) :
    remaining (log ++ [e]) = (keep (remaining log).reverse e).reverse := by
  simp [remaining]

theorem closes_remaining (log : List Entry) : ∀ e ∈ remaining log, e.closes = false := by
  induction log using List.reverseRecOn with
  | nil => simp [remaining]
  | append_singleton log e ih =>
    rw [remaining_concat]
    cases closes : e.closes with
    | false =>
      rw [keep_of_not_closes closes]
      simpa [or_imp, forall_and, closes] using ih
    | true =>
      obtain ⟨inside, first, before, split, -, -, kept⟩ | ⟨-, kept⟩ :=
        keep_cases closes (remaining log).reverse
      · intro x hx
        refine ih x ?_
        rw [← List.mem_reverse, split]
        simp only [kept, List.mem_reverse] at hx
        simp [hx]
      · rw [kept, List.reverse_reverse]
        exact ih

theorem Erases.append {log left more last : List Entry} (h : Erases log left)
    (h' : Erases (left ++ more) last) : Erases (log ++ more) last := by
  induction h with
  | refl => exact h'
  | closed opens closes direct _ ih =>
    have step := Erases.closed opens closes direct (by simpa using ih h')
    simpa using step
  | refused closes direct _ ih =>
    have step := Erases.refused closes direct (by simpa using ih h')
    simpa using step

theorem erases_remaining (log : List Entry) : Erases log (remaining log) := by
  induction log using List.reverseRecOn with
  | nil => exact .refl []
  | append_singleton log e ih =>
    refine ih.append ?_
    have unclosed := closes_remaining log
    rw [remaining_concat]
    cases closes : e.closes with
    | false =>
      rw [keep_of_not_closes closes]
      simpa using Erases.refl (remaining log ++ [e])
    | true =>
      obtain ⟨inside, first, before, split, opens, inside_direct, kept⟩ | ⟨all_direct, kept⟩ :=
        keep_cases closes (remaining log).reverse
      · have split' : remaining log = before.reverse ++ first :: inside.reverse := by
          rw [List.reverse_eq_iff] at split
          simpa using split
        rw [kept]
        rw [split'] at unclosed ⊢
        have rest : Erases (before.reverse ++ []) before.reverse := by
          rw [List.append_nil]
          exact .refl _
        refine .closed opens closes ?_ rest
        intro x hx
        exact ⟨inside_direct x (by simpa using hx), unclosed x (by simp [hx])⟩
      · rw [kept, List.reverse_reverse]
        have rest : Erases (remaining log ++ []) (remaining log) := by
          rw [List.append_nil]
          exact .refl _
        refine .refused closes ?_ rest
        intro x hx
        exact ⟨all_direct x (by simpa using hx), unclosed x hx⟩

theorem Entry.closes_of_opens {e : Entry} (h : e.opens = true) : e.closes = false := by
  cases call : e.call with
  | enter name => simp [closes, call]
  | leave => simp [opens, call] at h
  | declare d => simp [opens, call] at h
  | define name => simp [opens, call] at h

theorem Erases.remaining_eq {log left : List Entry} (h : Erases log left) :
    remaining log = remaining left := by
  induction h with
  | refl => rfl
  | @closed before inside after left first last opens closes direct _ ih =>
    have inside_kept := foldl_keep (fun e he => (direct e he).2) (first :: before.foldl keep [])
    have back : keep (inside.reverse ++ first :: before.foldl keep []) last =
        before.foldl keep [] :=
      keep_closed opens closes (fun e he => (direct e (List.mem_reverse.mp he)).1)
    rw [← ih]
    simp [remaining, keep_of_not_closes (Entry.closes_of_opens opens), inside_kept, back]
  | @refused before after left last closes direct _ ih =>
    have before_kept := foldl_keep (fun e he => (direct e he).2) []
    have back : keep (before.reverse ++ []) last = before.reverse ++ [] :=
      keep_refused closes (fun e he => (direct e (by simpa using he)).1)
    rw [← ih]
    simp only [remaining, List.foldl_append, List.foldl_cons, before_kept, back]

theorem remaining_of_closes {log : List Entry} (h : ∀ e ∈ log, e.closes = false) :
    remaining log = log := by
  simp [remaining, foldl_keep h]

theorem erases_iff_remaining (log left : List Entry) :
    (Erases log left ∧ ∀ e ∈ left, e.closes = false) ↔ left = remaining log := by
  constructor
  · rintro ⟨erased, unclosed⟩
    rw [erased.remaining_eq, remaining_of_closes unclosed]
  · rintro rfl
    exact ⟨erases_remaining log, closes_remaining log⟩

/-- The calls made directly in the innermost scope and in the scopes around it from the inside out,
each in the order of the calls. -/
structure Nest where
  inner : List Entry := []
  outer : List (List Entry) := []
  deriving DecidableEq, Repr

namespace Nest

def scopes (n : Nest) : List (List Entry) := n.inner :: n.outer

/-- Cuts calls, given latest first, at those that opened a scope. -/
def cut : List Entry → Nest
  | [] => {}
  | e :: before =>
    if e.opens then { outer := (cut before).scopes }
    else { cut before with inner := (cut before).inner ++ [e] }

theorem cut_direct {inside : List Entry} (h : ∀ e ∈ inside, e.opens = false)
    (before : List Entry) :
    cut (inside ++ before) =
      { cut before with inner := (cut before).inner ++ inside.reverse } := by
  induction inside with
  | nil => simp
  | cons e inside ih =>
    have inside_cut := ih (fun x hx => h x (by simp [hx]))
    simp [cut, h e (by simp), inside_cut]

theorem length_outer_cut (kept : List Entry) :
    (cut kept).outer.length = kept.countP (·.opens) := by
  induction kept with
  | nil => rfl
  | cons e kept ih => cases h : e.opens <;> simp [cut, h, scopes, ih]

end Nest

def nest (log : List Entry) : Nest := .cut (remaining log).reverse

theorem nest_enter {log : List Entry} {e : Entry} (h : e.opens = true) :
    nest (log ++ [e]) = { outer := (nest log).scopes } := by
  rw [nest, remaining_concat, keep_of_not_closes (Entry.closes_of_opens h)]
  simp [Nest.cut, h, nest]

theorem nest_direct (log : List Entry) {e : Entry} (opens : e.opens = false)
    (closes : e.closes = false) :
    nest (log ++ [e]) = { nest log with inner := (nest log).inner ++ [e] } := by
  rw [nest, remaining_concat, keep_of_not_closes closes]
  simp [Nest.cut, opens, nest]

theorem nest_leave {log : List Entry} {e : Entry} (h : e.closes = true) :
    nest (log ++ [e]) =
      match (nest log).outer with
      | [] => nest log
      | calls :: around => ⟨calls, around⟩ := by
  rw [nest, remaining_concat, List.reverse_reverse, nest]
  obtain ⟨inside, first, before, split, opens, direct, kept⟩ | ⟨direct, kept⟩ :=
    keep_cases h (remaining log).reverse
  · rw [kept, split, Nest.cut_direct direct]
    simp [Nest.cut, opens, Nest.scopes]
  · have closed : (Nest.cut (remaining log).reverse).outer = [] := by
      rw [← List.length_eq_zero_iff, Nest.length_outer_cut, List.countP_eq_zero]
      simpa using direct
    rw [kept, closed]

end Table

namespace Scope

def kind (scope : Scope) (function : Bool) : List Symbol :=
  if function then scope.functions else scope.values

def named (scope : Scope) (function : Bool) (name : Name) : Option Symbol :=
  (scope.kind function).find? (·.name.same name)

def add (scope : Scope) (s : Symbol) : Scope :=
  if s.isFunction then { scope with functions := scope.functions ++ [s] }
  else { scope with values := scope.values ++ [s] }

theorem name_add (scope : Scope) (s : Symbol) : (scope.add s).name = scope.name := by
  unfold add
  split <;> rfl

theorem named_add (scope : Scope) (s : Symbol) (function : Bool) (name : Name) :
    (scope.add s).named function name =
      (scope.named function name).or
        (if s.isFunction = function ∧ s.name.same name = true then some s else none) := by
  cases function <;> cases h : s.isFunction <;>
    simp [add, named, kind, h, List.find?_append, List.find?_singleton]

theorem named_congr {a b : Name} (h : a.same b = true) (scope : Scope) (function : Bool) :
    scope.named function a = scope.named function b := by
  simp only [named, Name.same_congr h]

/-- The scope has what the calls made directly in it declare, the first of each name; a call that
declares a name first is an accepted one. -/
structure Mirrors (scope : Scope) (calls : List Table.Entry) : Prop where
  declared : ∀ function name, (scope.named function name).map (·.declaration) =
    calls.findSome? (·.declares? function name)
  accepted : ∀ function name, (scope.named function name).map (·.declaration) =
    (calls.filter (·.accepted)).findSome? (·.declares? function name)

namespace Mirrors

variable {scope : Scope} {calls : List Table.Entry}

theorem opened (name : Name) : Mirrors { name } [] where
  declared function name := by cases function <;> rfl
  accepted function name := by cases function <;> rfl

theorem idle (h : scope.Mirrors calls) {e : Table.Entry} (answer : e.accepted = false)
    (old : ∀ function name, (e.declares? function name).isSome = true →
      (scope.named function name).isSome = true) : scope.Mirrors (calls ++ [e]) where
  declared function name := by
    rw [List.findSome?_append, ← h.declared]
    cases found : scope.named function name with
    | some s => rfl
    | none =>
      cases declares : e.declares? function name with
      | none => simp [declares]
      | some d => simpa [found] using old function name (by simp [declares])
  accepted function name := by
    rw [List.filter_append, List.filter_singleton]
    simp [answer, h.accepted]

theorem declares_declaration {e : Table.Entry} {s : Symbol} (call : e.call = .declare s.declaration)
    (function : Bool) (name : Name) :
    e.declares? function name =
      if s.isFunction = function ∧ s.name.same name = true then some s.declaration else none := by
  simp only [Table.Entry.declares?, call]
  rfl

theorem add (h : scope.Mirrors calls) {e : Table.Entry} {s : Symbol} (answer : e.accepted = true)
    (call : e.call = .declare s.declaration) : (scope.add s).Mirrors (calls ++ [e]) where
  declared function name := by
    rw [List.findSome?_append, ← h.declared, named_add, Option.map_or]
    simp [declares_declaration call, apply_ite (Option.map Symbol.declaration)]
  accepted function name := by
    rw [List.filter_append, List.findSome?_append, ← h.accepted, named_add, Option.map_or]
    simp [answer, declares_declaration call, apply_ite (Option.map Symbol.declaration)]

end Mirrors
end Scope

namespace Table

def record (t : Table) (d : Declaration) : Table :=
  let symbol : Symbol := ⟨t.symbols.length, d.name, d.line, t.current, d.shape⟩
  { t with inner := t.inner.add symbol, symbols := t.symbols ++ [symbol] }

theorem declaring_eq (t : Table) (d : Declaration) :
    t.declaring d =
      match t.inner.named d.isFunction d.name with
      | some _ => none
      | none => some (t.record d) := by
  obtain ⟨name, line, shape⟩ := d
  cases shape with
  | «variable» type => rfl
  | function params returns => rfl

theorem same_of_define? {t u : Table} {name : Name} (h : t.define? name = some u) :
    u.inner = t.inner ∧ u.outer = t.outer ∧ u.symbols = t.symbols ∧ u.parents = t.parents := by
  rw [define?_eq, Option.map_eq_some_iff] at h
  obtain ⟨s, -, rfl⟩ := h
  unfold mark
  split <;> exact ⟨rfl, rfl, rfl, rfl⟩

/-- The accepted declarations of a history in the order of the calls. -/
def listed (log : List Entry) : List Symbol :=
  (log.filterMap (·.accepted?)).mapIdx fun i (scope, d) => ⟨i, d.name, d.line, scope, d.shape⟩

theorem listed_of_none {e : Entry} (h : e.accepted? = none) (log : List Entry) :
    listed (log ++ [e]) = listed log := by
  simp [listed, h]

theorem listed_of_some {e : Entry} {scope : Name} {d : Declaration}
    (h : e.accepted? = some (scope, d)) (log : List Entry) :
    listed (log ++ [e]) =
      listed log ++ [⟨(listed log).length, d.name, d.line, scope, d.shape⟩] := by
  simp [listed, h, List.mapIdx_append]

structure Mirrors (t : Table) (log : List Entry) : Prop where
  inner : t.inner.Mirrors (nest log).inner
  outer : List.Forall₂ Scope.Mirrors t.outer (nest log).outer
  symbols : t.symbols = listed log

namespace Mirrors

variable {t : Table} {log : List Entry}

theorem fresh : Mirrors {} [] where
  inner := .opened _
  outer := .nil
  symbols := rfl

theorem enter (h : t.Mirrors log) (name : Name) :
    (t.enter name).Mirrors (log ++ [t.entry (.enter name)]) where
  inner := by
    rw [nest_enter rfl]
    exact .opened _
  outer := by
    rw [nest_enter rfl]
    exact .cons h.inner h.outer
  symbols := by
    rw [listed_of_none rfl]
    exact h.symbols

theorem leave (h : t.Mirrors log) :
    (t.perform .leave).2.Mirrors (log ++ [t.entry .leave]) := by
  have closes : (t.entry .leave).closes = true := rfl
  have symbols : t.symbols = listed (log ++ [t.entry .leave]) := by
    rw [listed_of_none rfl]
    exact h.symbols
  cases around : t.outer with
  | nil =>
    have none_open : (nest log).outer = [] := by simpa [around] using h.outer
    have same : (t.perform .leave).2 = t := by simp [perform, leave?, around]
    have nested : nest (log ++ [t.entry .leave]) = nest log := by rw [nest_leave closes, none_open]
    rw [same]
    exact ⟨nested ▸ h.inner, nested ▸ h.outer, symbols⟩
  | cons scope outer =>
    obtain ⟨calls, rest, inner, outer', eq⟩ := List.forall₂_cons_left_iff.mp (around ▸ h.outer)
    have left : (t.perform .leave).2 = { t with inner := scope, outer } := by
      simp [perform, leave?, around]
    have nested : nest (log ++ [t.entry .leave]) = ⟨calls, rest⟩ := by rw [nest_leave closes, eq]
    rw [left]
    exact ⟨nested ▸ inner, nested ▸ outer', symbols⟩

theorem idle (h : t.Mirrors log) {e : Entry} (opens : e.opens = false) (closes : e.closes = false)
    (answer : e.accepted = false)
    (old : ∀ function name, (e.declares? function name).isSome = true →
      (t.inner.named function name).isSome = true) : t.Mirrors (log ++ [e]) := by
  have nested := nest_direct log opens closes
  have rejected : e.accepted? = none := by
    unfold Entry.accepted?
    split <;> simp [answer]
  exact
    { inner := nested ▸ h.inner.idle answer old
      outer := nested ▸ h.outer
      symbols := (listed_of_none rejected log).symm ▸ h.symbols }

theorem declare (h : t.Mirrors log) (d : Declaration) :
    (t.perform (.declare d)).2.Mirrors (log ++ [t.entry (.declare d)]) := by
  cases found : t.inner.named d.isFunction d.name with
  | some s =>
    have refused : t.perform (.declare d) = (.verdict false, t) := by
      simp [perform, declaring_eq, found]
    rw [refused]
    refine h.idle rfl rfl (by simp [Entry.accepted, entry, refused]) ?_
    intro function name declares
    obtain ⟨rfl, same⟩ : d.isFunction = function ∧ d.name.same name = true := by
      simpa [Entry.declares?, entry] using declares
    simp [← Scope.named_congr same, found]
  | none =>
    have granted : t.perform (.declare d) = (.verdict true, t.record d) := by
      simp [perform, declaring_eq, found]
    have answer : (t.entry (.declare d)).accepted = true := by
      simp [Entry.accepted, entry, granted]
    have nested := nest_direct log (e := t.entry (.declare d)) rfl rfl
    have accepted : (t.entry (.declare d)).accepted? = some (t.current, d) := if_pos answer
    rw [granted]
    exact
      { inner := nested ▸ h.inner.add answer rfl
        outer := nested ▸ h.outer
        symbols := by
          rw [listed_of_some accepted, ← h.symbols]
          rfl }

theorem define (h : t.Mirrors log) (name : Name) :
    (t.perform (.define name)).2.Mirrors (log ++ [t.entry (.define name)]) := by
  have nothing (function : Bool) (other : Name) :
      (t.entry (.define name)).declares? function other = none := rfl
  cases defined : t.define? name with
  | none =>
    have answer : t.perform (.define name) = (.misuse (.defineUndeclared name), t) := by
      simp [perform, defined]
    rw [answer]
    exact h.idle rfl rfl (by simp [Entry.accepted, entry, answer]) (by simp [nothing])
  | some u =>
    have answer : t.perform (.define name) = (.done, u) := by simp [perform, defined]
    obtain ⟨inner, outer, symbols, -⟩ := same_of_define? defined
    have same := h.idle (e := t.entry (.define name)) rfl rfl
      (by simp [Entry.accepted, entry, answer]) (by simp [nothing])
    rw [answer]
    exact ⟨inner ▸ same.inner, outer ▸ same.outer, symbols ▸ same.symbols⟩

theorem step (h : t.Mirrors log) (call : Call) :
    (t.perform call).2.Mirrors (log ++ [t.entry call]) := by
  cases call with
  | enter name => exact h.enter name
  | leave => exact h.leave
  | declare d => exact h.declare d
  | define name => exact h.define name

end Mirrors

theorem mirrors_after (calls : List Call) : (after {} calls).Mirrors (transcript {} calls) := by
  induction calls using List.reverseRecOn with
  | nil => exact .fresh
  | append_singleton calls call ih =>
    rw [after_append, transcript_append]
    exact ih.step call

/-- What the calls made directly in the open scopes declare under a name: the first declaration in
the innermost scope that has one. -/
def Nest.means (n : Nest) (function : Bool) (name : Name) : Option Declaration :=
  n.scopes.findSome? fun calls => calls.findSome? (·.declares? function name)

/-- The table is lexically scoped with respect to the history of its calls. -/
structure Lexical (t : Table) (log : List Entry) : Prop where
  /-- What remains of the history is what is left when all that can be erased is erased. -/
  erased : ∀ left, (Erases log left ∧ ∀ e ∈ left, e.closes = false) ↔ left = remaining log
  lookup : ∀ name, t.lookup name = ((nest log).means false name).bind (·.type?)
  variableNamed : ∀ name, (t.variableNamed name).map (·.declaration) = (nest log).means false name
  functionNamed : ∀ name, (t.functionNamed name).map (·.declaration) = (nest log).means true name
  /-- A declaration is accepted unless the innermost scope has an accepted one of the name. -/
  declare : ∀ d, (t.perform (.declare d)).1 = .verdict (((nest log).inner.filter (·.accepted)).all
    fun e => (e.declares? d.isFunction d.name).isNone)
  /-- A function is defined only where its name means one. -/
  define : ∀ name, (t.perform (.define name)).1.failed = ((nest log).means true name).isNone
  symbols : t.symbols = listed log
  depth : t.depth = (remaining log).countP (·.opens)
  /-- A call that fails leaves the whole table as it is. -/
  failed : ∀ call, (t.perform call).1.failed = true → (t.perform call).2 = t

theorem means_of_mirrors {scopes : List Scope} {nested : List (List Entry)}
    (h : List.Forall₂ Scope.Mirrors scopes nested) (function : Bool) (name : Name) :
    (scopes.findSome? (·.named function name)).map (·.declaration) =
      nested.findSome? fun calls => calls.findSome? (·.declares? function name) := by
  induction h with
  | nil => rfl
  | @cons scope calls scopes nested mirrors _ ih =>
    rw [List.findSome?_cons, List.findSome?_cons, ← mirrors.declared, ← ih]
    cases scope.named function name <;> rfl

theorem unchanged_of_failed {t : Table} {call : Call} (h : (t.perform call).1.failed = true) :
    (t.perform call).2 = t := by
  cases call with
  | enter name => simp [perform, Answer.failed] at h
  | leave =>
    cases left : t.leave? with
    | none => simp [perform, left]
    | some u => simp [perform, left, Answer.failed] at h
  | declare d =>
    cases declared : t.declaring d with
    | none => simp [perform, declared]
    | some u => simp [perform, declared, Answer.failed] at h
  | define name =>
    cases defined : t.define? name with
    | none => simp [perform, defined]
    | some u => simp [perform, defined, Answer.failed] at h

namespace Mirrors

variable {t : Table} {log : List Entry}

theorem means (h : t.Mirrors log) (function : Bool) (name : Name) :
    (t.scopes.findSome? (·.named function name)).map (·.declaration) =
      (nest log).means function name :=
  means_of_mirrors (.cons h.inner h.outer) function name

theorem lookup (h : t.Mirrors log) (name : Name) :
    t.lookup name = ((nest log).means false name).bind (·.type?) := by
  rw [← h.means, Option.bind_map]
  rfl

theorem verdict (h : t.Mirrors log) (d : Declaration) :
    (t.perform (.declare d)).1 = .verdict (((nest log).inner.filter (·.accepted)).all
      fun e => (e.declares? d.isFunction d.name).isNone) := by
  have found := h.inner.accepted d.isFunction d.name
  cases here : t.inner.named d.isFunction d.name with
  | none =>
    have free : ∀ e ∈ (nest log).inner.filter (·.accepted),
        e.declares? d.isFunction d.name = none := by
      rw [here] at found
      exact List.findSome?_eq_none_iff.mp found.symm
    have answer : (t.perform (.declare d)).1 = .verdict true := by
      simp [perform, declaring_eq, here]
    rw [answer, List.all_eq_true.mpr (fun e he => by simp [free e he])]
  | some s =>
    rw [here] at found
    obtain ⟨e, he, declares⟩ := List.exists_of_findSome?_eq_some found.symm
    have answer : (t.perform (.declare d)).1 = .verdict false := by
      simp [perform, declaring_eq, here]
    rw [answer, List.all_eq_false.mpr ⟨e, he, by simp [declares]⟩]

theorem failed_define (h : t.Mirrors log) (name : Name) :
    (t.perform (.define name)).1.failed = ((nest log).means true name).isNone := by
  have found : (t.functionNamed name).map (·.declaration) = (nest log).means true name :=
    h.means true name
  rw [← found]
  cases named : t.functionNamed name <;> simp [perform, define?, named, Answer.failed]

theorem depth (h : t.Mirrors log) : t.depth = (remaining log).countP (·.opens) := by
  calc t.depth = (nest log).outer.length := h.outer.length_eq
    _ = (remaining log).reverse.countP (·.opens) := Nest.length_outer_cut _
    _ = (remaining log).countP (·.opens) := List.countP_reverse

end Mirrors

/-- After any calls on a fresh table, those that were refused included, the table is lexically
scoped with respect to its history. -/
theorem lexical_after (calls : List Call) : (after {} calls).Lexical (transcript {} calls) := by
  have mirrors := mirrors_after calls
  exact
    { erased := erases_iff_remaining _
      lookup := mirrors.lookup
      variableNamed := mirrors.means false
      functionNamed := mirrors.means true
      declare := mirrors.verdict
      define := mirrors.failed_define
      symbols := mirrors.symbols
      depth := mirrors.depth
      failed := fun _ => unchanged_of_failed }

end Table
end Treewright
