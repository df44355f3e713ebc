import Treewright.Gate
import Treewright.Proofs.Encoding
import Treewright.Proofs.Flaws
import Treewright.Proofs.Inspections
set_option autoImplicit false

namespace Treewright

theorem exists_fieldOf?_iff {α : Type} {key : String} {fs : List (String × α)} :
    (∃ v, fieldOf? key fs = some v) ↔ key ∈ fs.map (·.1) := by
  induction fs with
  | nil => simp
  | cons f fs ih =>
    by_cases hk : f.1 = key
    · simp [fieldOf?, hk]
    · simpa [fieldOf?, hk, Ne.symm hk] using ih

namespace Gate

open Build

variable {d : Disk} {cases : List (String × Value)} {name : String}

/-- The file of expectations is there, and these are the cases in it. -/
def Expects (d : Disk) (cases : List (String × Value)) : Prop :=
  ∃ bytes text fields, d.read expectedFile = .ok bytes ∧ Program.textOf bytes = .ok text ∧
    Json.read text = .ok (.object fields) ∧ fieldOf? "cases" fields = some (.object cases)

theorem Expects.loadCases (h : Expects d cases) : loadCases d = .ok cases := by
  obtain ⟨bytes, text, fields, held, decoded, read, given⟩ := h
  rw [Gate.loadCases, held]
  simp [Except.mapError, bind, Except.bind, decoded, read, casesOf, given]

theorem Expects.found (h : Expects d cases) : (d.find? expectedFile).isNone = false := by
  obtain ⟨bytes, -, -, held, -⟩ := h
  obtain ⟨loc, located, held⟩ := Except.bind_eq_ok.mp held
  cases there : d.get? loc with
  | none => simp [there] at held
  | some item => simp [Disk.find?, located, there]

/-- The texts of what was found by the end of a build: in the build itself, and the functions that
are left without a body. -/
def found (c : Context) : List String :=
  let unfinished : List Diagnostic :=
    c.table.undefined.map fun f => ⟨c.line, .neverDefined f.name⟩
  (c.log.diagnostics ++ unfinished).map (·.text)

/-- The program is built to its end, with these diagnostics. -/
def Diagnosed (d : Disk) (name : String) (texts : List String) : Prop :=
  ∃ program nodes c, Program.load d (programPath name) = .ok program ∧
    exec (buildAll (program.actions.map .ofValue)) {} = (.ok nodes, c) ∧ texts = found c

/-- The file holds no program, or an action of it is malformed. -/
inductive Malformed (d : Disk) (name : String) : String → Prop where
  | notJson {source : String} {flaw : Json.Flaw} {line : Nat}
      (h : Program.load d (programPath name) = .error (.notJson source flaw line)) :
      Malformed d name (LoadFault.notJson source flaw line).message
  | shape {source : String} (h : Program.load d (programPath name) = .error (.shape source)) :
      Malformed d name (LoadFault.shape source).message
  | action {program : Program} {flaw : Flaw} {c : Context}
      (loaded : Program.load d (programPath name) = .ok program)
      (stopped : exec (buildAll (program.actions.map .ofValue)) {} = (.error (.flaw flaw), c))
      (family : flaw.family = .build) : Malformed d name flaw.message

theorem Diagnosed.not_malformed {texts : List String} (h : Diagnosed d name texts)
    (message : String) : ¬Malformed d name message := by
  obtain ⟨program, nodes, c, loaded, built, -⟩ := h
  rintro (failed | failed | ⟨loaded', stopped, -⟩)
  · cases loaded.symm.trans failed
  · cases loaded.symm.trans failed
  · cases loaded.symm.trans loaded'
    cases built.symm.trans stopped

theorem Diagnosed.unique {texts texts' : List String} (h : Diagnosed d name texts)
    (h' : Diagnosed d name texts') : texts = texts' := by
  obtain ⟨program, nodes, c, loaded, built, rfl⟩ := h
  obtain ⟨program', nodes', c', loaded', built', rfl⟩ := h'
  cases loaded.symm.trans loaded'
  cases built.symm.trans built'
  rfl

/-- The finding is the right one. -/
inductive Judged (d : Disk) (cases : List (String × Value)) (name : String) : Finding → Prop where
  | malformed {message : String} (h : Malformed d name message) :
      Judged d cases name (.malformed message)
  | unexpected {texts : List String} (h : Diagnosed d name texts)
      (nothing : ∀ value, fieldOf? (programPath name).text cases = some value → value = .null) :
      Judged d cases name .unexpected
  | agrees {texts : List String} (h : Diagnosed d name texts)
      (same : fieldOf? (programPath name).text cases = some (.list (texts.map .string))) :
      Judged d cases name (.agrees texts.length)
  | differs {texts : List String} {value : Value} (h : Diagnosed d name texts)
      (given : fieldOf? (programPath name).text cases = some value) (nonnull : value ≠ .null)
      (other : value ≠ .list (texts.map .string)) : Judged d cases name (.differs value texts)

def Finding.mismatch : Finding → Bool
  | .malformed _ | .differs _ _ => true
  | .unexpected | .agrees _ => false

def Finding.missing : Finding → Bool
  | .unexpected => true
  | _ => false

/-- What the gate prints when it finds nothing wrong with a program begins so. -/
def fine : List Char := "OK ".toList

def isFine (entry : String) : Bool := fine.isPrefixOf entry.toList

theorem countP_details {finding : Finding} {details : List String}
    (h : finding.details = .ok details) : details.countP isFine = 0 := by
  cases finding with
  | differs value texts =>
    obtain ⟨items, -, h⟩ := Except.bind_eq_ok.mp h
    cases h
    simp [isFine, fine]
  | _ =>
    cases h
    rfl

theorem countP_entries {finding : Finding} {details : List String}
    (h : finding.details = .ok details) (path : String) :
    (finding.lines path ++ details).countP isFine + [finding].countP (·.mismatch) +
      [finding].countP (·.missing) = 1 := by
  rw [List.countP_append, countP_details h]
  cases finding <;> simp [Finding.lines, isFine, fine, Finding.mismatch, Finding.missing]

theorem Tally.count_eq (t : Tally) (finding : Finding) :
    t.count finding = { t with
      mismatches := t.mismatches + [finding].countP (·.mismatch)
      missing := t.missing + [finding].countP (·.missing) } := by
  cases finding <;> rfl

structure Gone (d : Disk) (cases : List (String × Value)) (names : List String) (t u : Tally)
    (findings : List Finding) (entries : List String) : Prop where
  judged : List.Forall₂ (Judged d cases) names findings
  printed : u.printed = t.printed ++ entries
  mismatches : u.mismatches = t.mismatches + findings.countP (·.mismatch)
  missing : u.missing = t.missing + findings.countP (·.missing)
  balanced : entries.countP isFine + findings.countP (·.mismatch) + findings.countP (·.missing) =
    names.length

theorem Gone.nil (t : Tally) : Gone d cases [] t t [] [] :=
  ⟨.nil, (List.append_nil _).symm, rfl, rfl, rfl⟩

theorem Gone.cons {names : List String} {t u : Tally} {finding : Finding}
    {findings : List Finding} {details entries : List String} (judged : Judged d cases name finding)
    (detailed : finding.details = .ok details)
    (h : Gone d cases names
      (((t.print (finding.lines (programPath name).text)).print details).count finding) u findings
      entries) :
    Gone d cases (name :: names) t u (finding :: findings)
      (finding.lines (programPath name).text ++ details ++ entries) := by
  have one := countP_entries detailed (programPath name).text
  have step (p : Finding → Bool) :
      (finding :: findings).countP p = [finding].countP p + findings.countP p :=
    @List.countP_append _ p [finding] findings
  obtain ⟨others, printed, mismatches, missing, balanced⟩ := h
  rw [Tally.count_eq] at printed mismatches missing
  refine ⟨.cons judged others, ?_, ?_, ?_, ?_⟩
  · simpa [Tally.print] using printed
  · rw [step, mismatches, Nat.add_assoc]
    rfl
  · rw [step, missing, Nat.add_assoc]
    rfl
  · rw [step, step, List.countP_append, List.length_cons]
    omega

/-- No program is malformed, and the expectations are the diagnostics of the programs, each list
under the path of its program. -/
structure Agrees (d : Disk) (cases : List (String × Value)) : Prop where
  sound : ∀ name ∈ programNames d, ∀ message, ¬Malformed d name message
  same : ∀ key value, fieldOf? key cases = some value ↔
    ∃ name ∈ programNames d, ∃ texts, Diagnosed d name texts ∧ key = (programPath name).text ∧
      value = .list (texts.map .string)

theorem stale_eq_nil_iff {names : List String} :
    stale cases names = [] ↔ ∀ key value, fieldOf? key cases = some value →
      ∃ name ∈ names, key = (programPath name).text := by
  have sorted (l : List String) : (l.mergeSort fun a b => decide (a ≤ b)) = [] ↔ l = [] :=
    ⟨fun h => List.nil_perm.mp (h ▸ List.mergeSort_perm l _), by rintro rfl; simp⟩
  have kept (key : String) :
      ¬(!(names.map fun name => (programPath name).text).contains key) = true ↔
        ∃ name ∈ names, key = (programPath name).text := by
    rw [Bool.not_eq_true, Bool.not_eq_false', List.contains_iff_mem, List.mem_map]
    exact exists_congr fun name => and_congr_right fun _ => eq_comm
  rw [stale, sorted, List.filter_eq_nil_iff]
  constructor
  · exact fun h key value given => (kept key).mp (h key (exists_fieldOf?_iff.mp ⟨value, given⟩))
  · intro h key hk
    obtain ⟨value, given⟩ := exists_fieldOf?_iff.mpr hk
    exact (kept key).mpr (h key value given)

def Matched (d : Disk) (cases : List (String × Value)) (name : String) : Prop :=
  ∃ texts, Diagnosed d name texts ∧
    fieldOf? (programPath name).text cases = some (.list (texts.map .string))

theorem Judged.matched_iff {finding : Finding} (h : Judged d cases name finding) :
    finding.mismatch = false ∧ finding.missing = false ↔ Matched d cases name := by
  constructor
  · rintro ⟨mismatch, missing⟩
    cases h with
    | malformed | differs => cases mismatch
    | unexpected => cases missing
    | agrees diagnosed same => exact ⟨_, diagnosed, same⟩
  · rintro ⟨texts, diagnosed, same⟩
    cases h with
    | malformed h => exact absurd h (diagnosed.not_malformed _)
    | unexpected _ nothing => cases nothing _ same
    | agrees => exact ⟨rfl, rfl⟩
    | differs h given _ other =>
      cases given.symm.trans same
      cases h.unique diagnosed
      exact absurd rfl other

theorem uncounted_iff {names : List String} {findings : List Finding}
    (h : List.Forall₂ (Judged d cases) names findings) :
    findings.countP (·.mismatch) = 0 ∧ findings.countP (·.missing) = 0 ↔
      ∀ name ∈ names, Matched d cases name := by
  induction h with
  | nil => simp
  | cons judged _ ih =>
    rw [List.forall_mem_cons, ← judged.matched_iff, ← ih]
    simp only [List.countP_eq_zero, List.forall_mem_cons, Bool.not_eq_true]
    exact and_and_and_comm

theorem malformed_or_diagnosed {names : List String} {findings : List Finding}
    (h : List.Forall₂ (Judged d cases) names findings) :
    ∀ name ∈ names, (∃ message, Malformed d name message) ∨ ∃ texts, Diagnosed d name texts := by
  induction h with
  | nil => simp
  | cons judged _ ih =>
    refine List.forall_mem_cons.mpr ⟨?_, ih⟩
    cases judged with
    | malformed h => exact .inl ⟨_, h⟩
    | unexpected h | agrees h | differs h => exact .inr ⟨_, h⟩

theorem agrees_iff {findings : List Finding}
    (h : List.Forall₂ (Judged d cases) (programNames d) findings) :
    Agrees d cases ↔ (findings.countP (·.mismatch) = 0 ∧ findings.countP (·.missing) = 0) ∧
      stale cases (programNames d) = [] := by
  rw [uncounted_iff h, stale_eq_nil_iff]
  constructor
  · rintro ⟨sound, same⟩
    refine ⟨fun name hn => ?_, fun key value given => ?_⟩
    · obtain ⟨message, malformed⟩ | ⟨texts, diagnosed⟩ := malformed_or_diagnosed h name hn
      · exact absurd malformed (sound name hn message)
      · exact ⟨texts, diagnosed, (same _ _).mpr ⟨name, hn, texts, diagnosed, rfl, rfl⟩⟩
    · obtain ⟨name, hn, texts, -, rfl, -⟩ := (same key value).mp given
      exact ⟨name, hn, rfl⟩
  · rintro ⟨matched, kept⟩
    refine ⟨fun name hn message => ?_, fun key value => ⟨fun given => ?_, ?_⟩⟩
    · obtain ⟨texts, diagnosed, -⟩ := matched name hn
      exact diagnosed.not_malformed message
    · obtain ⟨name, hn, rfl⟩ := kept key value given
      obtain ⟨texts, diagnosed, same⟩ := matched name hn
      exact ⟨name, hn, texts, diagnosed, rfl, Option.some.inj (given.symm.trans same)⟩
    · rintro ⟨name, hn, texts, diagnosed, rfl, rfl⟩
      obtain ⟨texts', diagnosed', same⟩ := matched name hn
      rwa [diagnosed.unique diagnosed']

end Gate
end Treewright
