import Treewright.Action.Reading
import Treewright.Proofs.Calls
import Mathlib.Data.List.Chain
set_option autoImplicit false

namespace Treewright
namespace Table

def names (t : Table) : List Name := t.scopes.map (·.name)

/-- The map of parents has one scope right beneath another. -/
def Leads (t : Table) (scope beneath : Name) : Prop :=
  (t.parent? scope).any (·.same beneath) = true

/-- Every open scope but the outermost leads to the one right beneath it. -/
def Chained (t : Table) : Prop := t.names.IsChain t.Leads

/-- Follows the map of parents from a name for some steps. -/
def climb (t : Table) : Nat → Name → Option Name
  | 0, name => some name
  | k + 1, name => (t.parent? name).bind (t.climb k)

/-- What the map of parents says of the open scopes. -/
structure Describes (t : Table) : Prop where
  beneath : t.Chained
  climbs : ∀ (k : Nat) (name : Name), t.names[k]? = some name →
    (t.climb k t.current).any (·.same name) = true
  outermost : (t.climb t.depth t.current).any (·.same (.text "global")) = true

/-- A scope may be opened when every open scope of its name, the outermost one apart, stands on one
that is named as the current scope. -/
def Admits (t : Table) : Call → Prop
  | .enter name => t.names.IsChain fun scope beneath =>
    (t.enter name).current.same scope = true → t.current.same beneath = true
  | _ => True

theorem parent?_congr {a b : Name} (h : a.same b = true) (t : Table) :
    t.parent? a = t.parent? b := by
  simp only [parent?, Name.same_congr h]

theorem climb_of_isChain {t : Table} {first start : Name} {rest : List Name}
    (chain : (first :: rest).IsChain t.Leads) (same : start.same first = true) {k : Nat}
    {name : Name} (h : (first :: rest)[k]? = some name) :
    (t.climb k start).any (·.same name) = true := by
  induction k generalizing first start rest with
  | zero =>
    obtain rfl : first = name := by simpa using h
    simpa [climb] using same
  | succ k ih =>
    cases rest with
    | nil => simp at h
    | cons second rest =>
      obtain ⟨leads, chain⟩ := List.isChain_cons_cons.mp chain
      cases parent : t.parent? first with
      | none => simp [Leads, parent] at leads
      | some p =>
        have same' : p.same second = true := by simpa [Leads, parent] using leads
        have climbed := ih chain same' (by simpa using h)
        simpa [climb, parent?_congr same, parent] using climbed

def Rooted (t : Table) : Prop := t.names.getLast? = some (.text "global")

theorem Chained.describes {t : Table} (h : t.Chained) (rooted : t.Rooted) : t.Describes := by
  have climbs : ∀ (k : Nat) (name : Name), t.names[k]? = some name →
      (t.climb k t.current).any (·.same name) = true :=
    fun _ _ hk => climb_of_isChain h (Name.same_self _) hk
  have last : t.names[t.depth]? = some (.text "global") := by
    rw [← rooted, List.getLast?_eq_getElem?]
    simp [names, scopes, depth]
  exact ⟨h, climbs, climbs _ _ last⟩

theorem parent?_setParent (scope parent name : Name) (parents : List (Name × Name)) :
    ((setParent scope parent parents).find? (·.1.same name)).map (·.2) =
      if scope.same name then some parent
      else (parents.find? (·.1.same name)).map (·.2) := by
  induction parents with
  | nil => cases h : scope.same name <;> simp [setParent, h]
  | cons entry parents ih =>
    obtain ⟨s, p⟩ := entry
    cases found : s.same scope with
    | true =>
      have alike : s.same name = scope.same name := by
        rw [Name.same_comm s, Name.same_comm scope, Name.same_congr found]
      cases h : scope.same name <;> simp [setParent, found, alike, h]
    | false =>
      cases here : s.same name with
      | false => simp [setParent, found, here, ih]
      | true =>
        have other : scope.same name = false := by
          rw [← Name.same_congr here, Name.same_comm, found]
        simp [setParent, found, here, other]

theorem leads_enter (t : Table) (name scope beneath : Name) :
    (t.enter name).Leads scope beneath ↔
      if (t.enter name).current.same scope then t.current.same beneath = true
      else t.Leads scope beneath := by
  have written : (t.enter name).parent? scope =
      if (t.enter name).current.same scope then some t.current else t.parent? scope :=
    parent?_setParent _ t.current scope t.parents
  unfold Leads
  rw [written]
  cases (t.enter name).current.same scope <;> simp

theorem isChain_iff_of_isChain {α : Type} {R S T : α → α → Prop}
    (h : ∀ a b, R a b → (S a b ↔ T a b)) {l : List α} (chain : l.IsChain R) :
    l.IsChain S ↔ l.IsChain T := by
  induction chain with
  | nil => simp
  | singleton => simp
  | cons_cons r _ ih => rw [List.isChain_cons_cons, List.isChain_cons_cons, h _ _ r, ih]

theorem chained_enter {t : Table} (h : t.Chained) (name : Name) :
    (t.enter name).Chained ↔ t.Admits (.enter name) := by
  have first : (t.enter name).Leads (t.enter name).current t.current := by
    simp [leads_enter]
  have rest : t.names.IsChain (t.enter name).Leads ↔ t.Admits (.enter name) := by
    refine isChain_iff_of_isChain (fun scope beneath leads => ?_) h
    rw [leads_enter]
    cases (t.enter name).current.same scope <;> simp [leads]
  rw [← rest]
  exact List.isChain_cons_cons.trans (and_iff_right first)

theorem perform_cases (t : Table) (call : Call) :
    (∃ name, call = .enter name) ∨
      t.Admits call ∧ (t.perform call).2.parents = t.parents ∧
        ((t.perform call).2.names = t.names ∨
          ∃ name, t.names = name :: (t.perform call).2.names) := by
  cases call with
  | enter name => exact .inl ⟨name, rfl⟩
  | leave =>
    refine .inr ⟨trivial, ?_⟩
    cases around : t.outer with
    | nil => simp [perform, leave?, around]
    | cons scope outer => simp [perform, leave?, around, names, scopes]
  | declare d =>
    refine .inr ⟨trivial, ?_⟩
    simp only [perform, declaring_eq]
    cases t.inner.named d.isFunction d.name with
    | some s => exact ⟨rfl, .inl rfl⟩
    | none => exact ⟨rfl, .inl (by simp [names, scopes, record, Scope.name_add])⟩
  | define name =>
    refine .inr ⟨trivial, ?_⟩
    cases defined : t.define? name with
    | none => simp [perform, defined]
    | some u =>
      obtain ⟨inner, outer, -, parents⟩ := same_of_define? defined
      simp [perform, defined, names, scopes, inner, outer, parents]

theorem leads_of_parents {t u : Table} (h : u.parents = t.parents) : u.Leads = t.Leads := by
  funext scope beneath
  simp [Leads, parent?, h]

/-- A call keeps the description exactly when it is not one that opens a scope where it may not be
opened. -/
theorem chained_perform {t : Table} (h : t.Chained) (call : Call) :
    (t.perform call).2.Chained ↔ t.Admits call := by
  obtain ⟨name, rfl⟩ | ⟨admitted, parents, names⟩ := t.perform_cases call
  · exact chained_enter h name
  · refine iff_of_true ?_ admitted
    unfold Chained at h ⊢
    rw [leads_of_parents parents]
    obtain same | ⟨name, left⟩ := names
    · rw [same]
      exact h
    · rw [left] at h
      exact h.tail

theorem rooted_perform {t : Table} (h : t.Rooted) (call : Call) : (t.perform call).2.Rooted := by
  unfold Rooted at h ⊢
  obtain ⟨name, rfl⟩ | ⟨-, -, same | ⟨name, left⟩⟩ := t.perform_cases call
  · exact (List.getLast?_cons_cons).trans h
  · rw [same]
    exact h
  · rw [left] at h
    exact (List.getLast?_cons_cons).symm.trans h

/-- The tables that calls lead through, from the one they start at. -/
def states (t : Table) : List Call → List Table
  | [] => [t]
  | call :: calls => t :: (t.perform call).2.states calls

theorem mem_states (t : Table) (calls : List Call) : t ∈ t.states calls := by
  cases calls <;> simp [states]

theorem rooted_states {t u : Table} (h : t.Rooted) {calls : List Call} (hu : u ∈ t.states calls) :
    u.Rooted := by
  induction calls generalizing t with
  | nil =>
    obtain rfl : u = t := by simpa [states] using hu
    exact h
  | cons call calls ih =>
    obtain rfl | later := List.mem_cons.mp hu
    · exact h
    · exact ih (rooted_perform h call) later

theorem chained_states_iff {t : Table} (h : t.Chained) (calls : List Call) :
    (∀ u ∈ t.states calls, u.Chained) ↔
      ∀ step ∈ (t.states calls).zip calls, step.1.Admits step.2 := by
  induction calls generalizing t with
  | nil => simpa [states] using h
  | cons call calls ih =>
    have here := chained_perform h call
    simp only [states, List.zip_cons_cons, List.forall_mem_cons]
    constructor
    · intro chained
      have next := chained.2 _ (mem_states _ calls)
      exact ⟨here.mp next, (ih next).mp chained.2⟩
    · intro admitted
      exact ⟨h, (ih (here.mpr admitted.1)).mpr admitted.2⟩

end Table

open Build

/-- Through the whole build of any actions, the map of parents describes the open scopes exactly
when every scope is opened where it may be. -/
theorem describes_building_iff (actions : List Action) (reportAll : Bool) :
    let calls := callsAll actions { reportAll }
    let tables := Table.states {} calls
    (exec (buildAll actions) { reportAll }).2.table = Table.after {} calls ∧
      ((∀ t ∈ tables, t.Describes) ↔ ∀ step ∈ tables.zip calls, step.1.Admits step.2) := by
  intro calls tables
  refine ⟨tells_buildAll actions _, ?_⟩
  have fresh : Table.Chained {} := List.isChain_singleton _
  have rooted : Table.Rooted {} := rfl
  rw [← Table.chained_states_iff fresh calls]
  constructor
  · intro described t ht
    exact (described t ht).beneath
  · intro chained t ht
    exact (chained t ht).describes (Table.rooted_states rooted ht)

def homonyms : Value :=
  let function (body : List Value) : Value :=
    .object [("node", .string "function"), ("name", .string "f"), ("returns", .string "void"),
      ("body", .list body)]
  function [.object [("node", .string "block"), ("lines", .list [function []])]]

/-- Once the inner function is closed, the outer one leads to the block inside of it, and the block
to the function: no step leads to the outermost scope. -/
theorem describes_homonyms_false :
    ∃ t ∈ Table.states {} (callsAll [.ofValue homonyms] {}),
      t.names = [.text "block1", .text "f", .text "global"] ∧
      t.parent? (.text "block1") = some (.text "f") ∧
      t.parent? (.text "f") = some (.text "block1") ∧ ¬ t.Describes := by
  have around : ∃ t ∈ Table.states {} (callsAll [.ofValue homonyms] {}),
      t.names = [.text "block1", .text "f", .text "global"] ∧
      t.parent? (.text "block1") = some (.text "f") ∧
      t.parent? (.text "f") = some (.text "block1") ∧
      t.climb t.depth t.current = some (.text "block1") := by
    decide +kernel
  obtain ⟨t, ht, names, outwards, inwards, climbed⟩ := around
  refine ⟨t, ht, names, outwards, inwards, fun described => ?_⟩
  have outermost := described.outermost
  simp [climbed, Name.same_text_iff] at outermost

end Treewright
