import Mathlib.Control.Monad.Basic
import Treewright.Compilation
import Treewright.Proofs.Encoding
import Treewright.Proofs.Flaws
set_option autoImplicit false

namespace Treewright

namespace Program

variable {path : Path} {bytes : List UInt8}

end Program

namespace Disk

variable {d d' : Disk} {path : Path}

/-- The folder was made, as far as it was not there, and then the file was written. -/
def Wrote (d : Disk) (folder path : Path) (bytes : List UInt8) (d' : Disk) : Prop :=
  ∃ d₁ loc, d.makeFolders folder = (.ok (), d₁) ∧ d₁.locate path = .ok loc ∧
    d₁.get? loc ≠ some .folder ∧ d' = d₁.put loc (.file bytes)

end Disk

namespace Compilation

variable {c : Compilation} {d d' : Disk} {program : Program} {outcome : Outcome}

section Answerable

variable {folder : Path} {bytes : List UInt8}

end Answerable

end Compilation

end Treewright
