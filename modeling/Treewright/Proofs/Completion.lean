import Treewright.Proofs.Schedules
set_option autoImplicit false

namespace Treewright
namespace Session

open Build

variable {c : Context} {actions : List Action} {k : Nat} {s : Session}

theorem Built.length_lines (h : Built c actions k s) : s.lines.length = min k actions.length := by
  rw [length_of_exec_buildAll h.lines, List.length_take]

structure Broken (actions : List Action) (s : Session) : Prop where
  building : s.building = some []
  short : s.lines.length < actions.length

theorem tick_of_spent (h : s.building = some []) : s.tick = (.ok none, s) := by
  simp [tick, h]

theorem Broken.ticks (h : Broken actions s) (n : Nat) :
    Broken actions (s.after (.replicate n .tick)) := by
  induction n with
  | zero => exact h
  | succ n ih =>
    have same : s.move .tick = (.ok (.built none), s) := move_tick (tick_of_spent h.building)
    rw [List.replicate_succ, after, same]
    exact ih

theorem Built.broken (h : Built c actions k s) (fault : s.tick.1.isOk = false) :
    Broken actions s.tick.2 := by
  obtain ⟨unbegun, -⟩ | ⟨-, ticked⟩ | ⟨_, _, _, _, -, -, ticked⟩ |
    ⟨action, rest, _, d, ahead, -, ticked⟩ := s.tick_cases
  · cases h.building.symm.trans unbegun
  · rw [ticked] at fault
    cases fault
  · rw [ticked] at fault
    cases fault
  · have next : actions.drop k = action :: rest := Option.some.inj (h.building.symm.trans ahead)
    have more := congrArg List.length next
    rw [List.length_drop, List.length_cons] at more
    rw [ticked]
    refine ⟨rfl, ?_⟩
    rw [h.length_lines]
    omega

theorem isOk_move_tick (s : Session) : (s.move .tick).1.isOk = s.tick.1.isOk := by
  rw [move]
  cases s.tick.1 <;> rfl

theorem Built.ticks (h : Built c actions k s) (n : Nat) :
    ((∀ reply ∈ s.replies (.replicate n .tick), reply.isOk = true) ∧
      Built c actions (k + n) (s.after (.replicate n .tick))) ∨
    ((∃ reply ∈ s.replies (.replicate n .tick), reply.isOk = false) ∧
      Broken actions (s.after (.replicate n .tick))) := by
  induction n generalizing k s with
  | zero => exact .inl ⟨by simp [replies], h⟩
  | succ n ih =>
    rw [List.replicate_succ, replies, Session.after]
    cases first : s.tick.1.isOk with
    | false =>
      have broken := (h.broken first).ticks n
      exact .inr ⟨⟨_, List.mem_cons_self, (isOk_move_tick s).trans first⟩, broken⟩
    | true =>
      obtain ⟨ok, built⟩ | ⟨⟨reply, later, fault⟩, broken⟩ := ih (h.tick first)
      · rw [Nat.add_right_comm] at built
        refine .inl ⟨?_, built⟩
        rw [List.forall_mem_cons]
        exact ⟨(isOk_move_tick s).trans first, ok⟩
      · exact .inr ⟨⟨reply, List.mem_cons_of_mem _ later, fault⟩, broken⟩

theorem Built.whole (h : Built c actions k s) (done : s.tick.1 = .ok none) :
    exec (buildAll actions) c = (.ok s.lines, s.context) := by
  obtain ⟨-, ticked⟩ | ⟨spent, -⟩ | ⟨_, _, _, _, -, -, ticked⟩ | ⟨_, _, _, _, -, -, ticked⟩ :=
    s.tick_cases
  · rw [ticked] at done
    cases done
  · have nothing : actions.drop k = [] := Option.some.inj (h.building.symm.trans spent)
    have all := h.lines
    rwa [List.take_of_length_le (List.drop_eq_nil_iff.mp nothing)] at all
  · rw [ticked] at done
    cases done
  · rw [ticked] at done
    cases done

/-- After any ticks of a begun session, a tick that says nothing is left finds a line for every
action exactly when no tick before it stopped with a fault; the lines are then what the actions
build in a row. -/
theorem done_complete_iff {s₀ s : Session} {program : Value} {name : String}
    (begun : s₀.begin program name = (.ok (), s)) (n : Nat)
    (done : (s.after (.replicate n .tick)).tick.1 = .ok none) :
    let u := s.after (.replicate n .tick)
    (u.lines.length = s.actions.length ↔
      ∀ reply ∈ s.replies (.replicate n .tick), reply.isOk = true) ∧
    (exec (buildAll s.actions) s.context = (.ok u.lines, u.context) ↔
      ∀ reply ∈ s.replies (.replicate n .tick), reply.isOk = true) := by
  intro u
  have begins : Built s.context s.actions 0 s := by
    obtain ⟨actions, -, rfl⟩ := begin_ok begun
    exact ⟨rfl, by rw [List.take_zero, buildAll]; rfl⟩
  obtain ⟨ok, built⟩ | ⟨⟨reply, told, fault⟩, broken⟩ := begins.ticks n
  · have whole := built.whole done
    exact ⟨iff_of_true (length_of_exec_buildAll whole) ok, iff_of_true whole ok⟩
  · have faulty : ¬∀ reply ∈ s.replies (.replicate n .tick), reply.isOk = true := by
      intro ok
      rw [ok reply told] at fault
      cases fault
    have short : u.lines.length < s.actions.length := broken.short
    refine ⟨iff_of_false (by omega) faulty, iff_of_false (fun whole => ?_) faulty⟩
    have complete := length_of_exec_buildAll whole
    omega

def twoConstants : Value :=
  .list [.object [("node", .string "const"), ("type", .string "int"), ("value", .string "1")],
    .object [("node", .string "const"), ("type", .string "int"), ("value", .string "2")]]

theorem done_complete_two_constants :
    let s := (begin {} twoConstants "").2
    let u := s.after (.replicate 3 .tick)
    (begin {} twoConstants "").1 = .ok () ∧ u.tick.1 = .ok none ∧
      (∀ reply ∈ s.replies (.replicate 3 .tick), reply.isOk = true) ∧
      u.lines.length = s.actions.length ∧
      exec (buildAll s.actions) s.context = (.ok u.lines, u.context) := by
  intro s u
  have begun : begin {} twoConstants "" = (.ok (), s) := Prod.ext rfl rfl
  have done : u.tick.1 = .ok none := by decide +kernel
  have ok : ∀ reply ∈ s.replies (.replicate 3 .tick), reply.isOk = true := by decide +kernel
  obtain ⟨complete, whole⟩ := done_complete_iff begun 3 done
  exact ⟨rfl, done, ok, complete.mpr ok, whole.mpr ok⟩

def unknownThenConstant : Value :=
  .list [.object [("node", .string "bogus")],
    .object [("node", .string "const"), ("type", .string "int"), ("value", .string "1")]]

/-- The first tick stops with a fault. The second says that nothing is left, and nothing was built
of the two actions. -/
theorem done_after_fault :
    let s := (begin {} unknownThenConstant "").2
    let u := s.after [.tick]
    (begin {} unknownThenConstant "").1 = .ok () ∧ s.tick.1.isOk = false ∧ u.tick.1 = .ok none ∧
      u.lines.length = 0 ∧ s.actions.length = 2 := by
  decide +kernel

end Session
end Treewright
