import Treewright.Command
import Treewright.Proofs.Outputs
set_option autoImplicit false

namespace Treewright

namespace Disk

variable {d d' d'' : Disk} {path : Path} {loc : Location}

def Gained (d d' : Disk) : Prop :=
  ∀ loc, d'.get? loc = d.get? loc ∨ d.get? loc = none ∧ d'.get? loc = some .folder

namespace Gained

theorem refl (d : Disk) : d.Gained d := fun _ => .inl rfl

theorem trans (h : d.Gained d') (h' : d'.Gained d'') : d.Gained d'' := by
  intro loc
  rcases h' loc with he | ⟨hnone, hfolder⟩
  · rw [he]
    exact h loc
  · rcases h loc with he | ⟨-, hfolder'⟩
    · exact .inr ⟨he ▸ hnone, hfolder⟩
    · cases hnone.symm.trans hfolder'

theorem get?_eq (h : d.Gained d') (hloc : d'.get? loc ≠ some .folder) :
    d'.get? loc = d.get? loc :=
  (h loc).resolve_right fun hnew => hloc hnew.2

end Gained

theorem ne_nil_of_get? (h : d.get? loc ≠ some .folder) : loc ≠ [] := by
  rintro rfl
  exact h (by simp [get?])

theorem gained_put (h : d.get? loc = none) : d.Gained (d.put loc .folder) := by
  intro other
  by_cases he : other = loc
  · subst he
    have hne : other ≠ [] := ne_nil_of_get? (d := d) (by simp [h])
    exact .inr ⟨h, d.get?_put_self hne .folder⟩
  · exact .inl (d.get?_put_of_ne he .folder)

theorem gained_makeFolder (h : d.makeFolder path = .ok d') : d.Gained d' := by
  unfold makeFolder at h
  cases hloc : d.locate path with
  | error fault =>
    rw [hloc] at h
    cases h
  | ok loc =>
    rw [hloc] at h
    cases hget : d.get? loc with
    | some item =>
      simp only [bind, Except.bind, hget] at h
      cases h
    | none =>
      simp only [bind, Except.bind, hget] at h
      cases h
      exact gained_put hget

theorem gained_ensureFolder (h : d.ensureFolder path = .ok d') : d.Gained d' := by
  unfold ensureFolder at h
  split at h
  · cases h
  · split at h
    · cases h
      exact .refl d
    · cases h
  · rename_i made
    cases h
    exact gained_makeFolder made

theorem gained_ensureFolders (levels : Nat) (d : Disk) (path : Path) :
    d.Gained (ensureFolders levels d path).2 := by
  induction levels generalizing path with
  | zero =>
    unfold ensureFolders
    split
    · rename_i made
      exact gained_ensureFolder made
    · exact .refl d
    · exact .refl d
  | succ levels ih =>
    have above := ih path.parent
    unfold ensureFolders
    split
    · rename_i made
      exact gained_ensureFolder made
    · dsimp only
      split
      · rename_i he
        rwa [he] at above
      · rename_i he
        rw [he] at above
        split
        · rename_i made
          exact above.trans (gained_ensureFolder made)
        · exact above
    · exact .refl d

/-- A path to something that is no folder leads there also when it is written to: the folders on
the way are others. -/
theorem walk_put {start : Location} {parts : List String} {bytes : List UInt8}
    (h : d.walk start parts = .ok loc) (free : d.get? loc ≠ some .folder) :
    (d.put loc (.file bytes)).walk start parts = .ok loc := by
  induction parts generalizing start with
  | nil => exact h
  | cons part parts ih =>
    unfold walk at h ⊢
    cases hstart : d.get? start with
    | none =>
      rw [hstart] at h
      cases h
    | some item =>
      rw [hstart] at h
      cases item with
      | file held => cases h
      | folder =>
        have hne : start ≠ loc := by
          rintro rfl
          exact free hstart
        rw [d.get?_put_of_ne hne, hstart]
        dsimp only at h ⊢
        by_cases hup : part = ".."
        · rw [if_pos hup] at h ⊢
          exact ih h
        · rw [if_neg hup] at h ⊢
          split at h
          · cases h
          · rename_i hlong
            rw [if_neg hlong]
            exact ih h

theorem get?_put_eq_folder {bytes : List UInt8} (free : d.get? loc ≠ some .folder)
    (other : Location) :
    (d.put loc (.file bytes)).get? other = some .folder ↔ d.get? other = some .folder := by
  by_cases he : other = loc
  · subst he
    simp [d.get?_put_self (ne_nil_of_get? free), free]
  · rw [d.get?_put_of_ne he]

theorem locate_put {bytes : List UInt8} (h : d.locate path = .ok loc)
    (free : d.get? loc ≠ some .folder) :
    (d.put loc (.file bytes)).locate path = .ok loc := by
  unfold locate at h ⊢
  split at h
  · cases h
  rename_i hnull
  split at h
  · cases h
  rename_i hlong
  rw [if_neg hnull, if_neg hlong]
  unfold follow at h ⊢
  simp only [get?_put_eq_folder free]
  split at h
  · rename_i hdown
    rw [show (d.put loc (.file bytes)).start path = d.start path from rfl, if_pos hdown]
    exact h
  · rename_i hdown
    rw [show (d.put loc (.file bytes)).start path = d.start path from rfl, if_neg hdown]
    cases hwalk : d.walk (d.start path) path.parts with
    | error refusal =>
      rw [hwalk] at h
      cases h
    | ok found =>
      rw [hwalk] at h
      cases h
      rw [walk_put hwalk free]
      rfl

/-- One file is written, in a place that was no folder: it holds the bytes. In any other place is
what was there, or a folder where there was nothing. -/
def WroteOne (d : Disk) (path : Path) (bytes : List UInt8) (d' : Disk) : Prop :=
  ∃ loc, d'.locate path = .ok loc ∧ d.get? loc ≠ some .folder ∧
    d'.get? loc = some (.file bytes) ∧
    ∀ other ≠ loc, d'.get? other = d.get? other ∨
      d.get? other = none ∧ d'.get? other = some .folder

theorem Wrote.one {folder : Path} {bytes : List UInt8} (h : d.Wrote folder path bytes d') :
    d.WroteOne path bytes d' := by
  obtain ⟨d₁, loc, made, hloc, free, rfl⟩ := h
  have gained : d.Gained d₁ := by
    have := gained_ensureFolders folder.parts.length d folder
    rwa [← makeFolders, made] at this
  refine ⟨loc, locate_put hloc free, ?_, d₁.get?_put_self (ne_nil_of_get? free) _,
    fun other hne => ?_⟩
  · rwa [← gained.get?_eq free]
  · rw [d₁.get?_put_of_ne hne]
    exact gained other

end Disk

namespace Output

end Output

namespace Compilation

end Compilation

end Treewright
