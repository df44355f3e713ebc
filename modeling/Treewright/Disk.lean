import Treewright.Path
import Treewright.Text.Utf8
set_option autoImplicit false

namespace Treewright

abbrev Location := List String

inductive Item where
  | folder
  | file (bytes : List UInt8)
  deriving DecidableEq, Repr, Inhabited

inductive Refusal where
  | notFound
  | alreadyThere
  | notFolder
  | isFolder
  | longName
  deriving DecidableEq, Repr, Inhabited

def Refusal.number : Refusal → Nat
  | .notFound => 2
  | .alreadyThere => 17
  | .notFolder => 20
  | .isFolder => 21
  | .longName => 36

def Refusal.reason : Refusal → String
  | .notFound => "No such file or directory"
  | .alreadyThere => "File exists"
  | .notFolder => "Not a directory"
  | .isFolder => "Is a directory"
  | .longName => "File name too long"

inductive FileFault where
  | refused (refusal : Refusal) (path : Path)
  | nullInPath
  deriving DecidableEq, Repr, Inhabited

def FileFault.message : FileFault → String
  | .refused refusal path =>
    s!"[Errno {refusal.number}] " ++ refusal.reason ++ ": " ++ path.quoted
  | .nullInPath => "embedded null byte"

structure Disk where
  /-- The folder that paths without a root start from. -/
  here : Location := []
  items : List (Location × Item) := []
  deriving DecidableEq, Repr, Inhabited

namespace Disk

def get? (d : Disk) (loc : Location) : Option Item :=
  if loc = [] then some .folder else (d.items.find? (·.1 = loc)).map (·.2)

def putItem (loc : Location) (item : Item) : List (Location × Item) → List (Location × Item)
  | [] => [(loc, item)]
  | entry :: rest => if entry.1 = loc then (loc, item) :: rest else entry :: putItem loc item rest

def put (d : Disk) (loc : Location) (item : Item) : Disk :=
  { d with items := putItem loc item d.items }

theorem get?_put_self (d : Disk) {loc : Location} (h : loc ≠ []) (item : Item) :
    (d.put loc item).get? loc = some item := by
  have key (l : List (Location × Item)) :
      (putItem loc item l).find? (·.1 = loc) = some (loc, item) := by
    induction l with
    | nil => simp [putItem]
    | cons e l ih => by_cases he : e.1 = loc <;> simp [putItem, he, ih]
  simp [get?, put, h, key]

theorem get?_put_of_ne (d : Disk) {loc other : Location} (h : other ≠ loc) (item : Item) :
    (d.put loc item).get? other = d.get? other := by
  have key (l : List (Location × Item)) :
      (putItem loc item l).find? (·.1 = other) = l.find? (·.1 = other) := by
    induction l with
    | nil => simp [putItem, Ne.symm h]
    | cons e l ih =>
      by_cases he : e.1 = loc
      · simp [putItem, he, Ne.symm h]
      · by_cases ho : e.1 = other <;> simp [putItem, he, ho, h, ih]
  simp [get?, put, key]

def nameLimit : Nat := 255

/-- Follows the parts of a path. All but the last must lead to folders; the last need not be
there. -/
def walk (d : Disk) : Location → List String → Except Refusal Location
  | loc, [] => .ok loc
  | loc, part :: parts =>
    match d.get? loc with
    | none => .error .notFound
    | some (.file _) => .error .notFolder
    | some .folder =>
      if part = ".." then d.walk loc.dropLast parts
      else if nameLimit < part.utf8ByteSize then .error .longName
      else d.walk (loc ++ [part]) parts

def start (d : Disk) (path : Path) : Location := if path.isAbsolute then [] else d.here

def pathLimit : Nat := 4096

def descends (parts : List String) : Bool :=
  parts.all fun p => p ≠ ".." && p.utf8ByteSize ≤ nameLimit

/-- The location below `loc`. Down to something in a folder that is there no step can fail, so
only other ways are walked. -/
def follow (d : Disk) (loc : Location) (parts : List String) : Except Refusal Location :=
  if !parts.isEmpty && descends parts && d.get? (loc ++ parts).dropLast = some .folder then
    .ok (loc ++ parts)
  else d.walk loc parts

def Closed (d : Disk) : Prop :=
  ∀ loc ≠ [], (d.get? loc).isSome → d.get? loc.dropLast = some .folder

theorem Closed.folder_of_append {d : Disk} (h : d.Closed) {loc rest : Location} (hr : rest ≠ [])
    (hs : (d.get? (loc ++ rest)).isSome) : d.get? loc = some .folder := by
  induction rest generalizing loc with
  | nil => exact absurd rfl hr
  | cons name rest ih =>
    have below : (d.get? (loc ++ [name])).isSome := by
      cases rest with
      | nil => exact hs
      | cons a as =>
        have := @ih (loc ++ [name]) (by simp) (by simpa using hs)
        simp [this]
    simpa using h (loc ++ [name]) (by simp) below

theorem walk_of_descends {d : Disk} (h : d.Closed) {loc : Location} {parts : List String}
    (hp : parts ≠ []) (hd : descends parts)
    (hf : d.get? (loc ++ parts).dropLast = some .folder) :
    d.walk loc parts = .ok (loc ++ parts) := by
  induction parts generalizing loc with
  | nil => exact absurd rfl hp
  | cons part parts ih =>
    simp only [descends, List.all_cons, Bool.and_eq_true, decide_eq_true_eq] at hd
    have here : d.get? loc = some .folder := by
      cases parts with
      | nil => simpa using hf
      | cons a as =>
        rw [List.dropLast_append_of_ne_nil (by simp)] at hf
        exact h.folder_of_append (by simp : (part :: a :: as).dropLast ≠ []) (by rw [hf]; rfl)
    have step : d.walk loc (part :: parts) = d.walk (loc ++ [part]) parts := by
      simp [walk, here, hd.1.1, Nat.not_lt.2 hd.1.2]
    rw [step]
    cases parts with
    | nil => simp [walk]
    | cons a as =>
      have := @ih (loc ++ [part]) (by simp) (by simpa [descends] using hd.2) (by simpa using hf)
      simpa using this

theorem follow_eq_walk {d : Disk} (h : d.Closed) (loc : Location) (parts : List String) :
    d.follow loc parts = d.walk loc parts := by
  unfold follow
  split
  · next hc =>
    simp only [Bool.and_eq_true, decide_eq_true_eq] at hc
    exact (walk_of_descends h (by rintro rfl; simp at hc) hc.1.2 hc.2).symm
  · rfl

def locate (d : Disk) (path : Path) : Except FileFault Location :=
  if path.parts.any fun p => p.toList.contains '\x00' then .error .nullInPath
  else if pathLimit ≤ path.text.utf8ByteSize then .error (.refused .longName path)
  else (d.follow (d.start path) path.parts).mapError (.refused · path)

def find? (d : Disk) (path : Path) : Option Item :=
  match d.locate path with
  | .ok loc => d.get? loc
  | .error _ => none

def isFolder (d : Disk) (path : Path) : Bool := d.find? path = some .folder

def read (d : Disk) (path : Path) : Except FileFault (List UInt8) := do
  match d.get? (← d.locate path) with
  | some (.file bytes) => return bytes
  | some .folder => throw (.refused .isFolder path)
  | none => throw (.refused .notFound path)

def write (d : Disk) (path : Path) (bytes : List UInt8) : Except FileFault Disk := do
  let loc ← d.locate path
  if d.get? loc = some .folder then throw (.refused .isFolder path)
  else return d.put loc (.file bytes)

def makeFolder (d : Disk) (path : Path) : Except FileFault Disk := do
  let loc ← d.locate path
  if (d.get? loc).isSome then throw (.refused .alreadyThere path)
  else return d.put loc .folder

def ensureFolder (d : Disk) (path : Path) : Except FileFault Disk :=
  match d.makeFolder path with
  | .error (.refused .notFound p) => .error (.refused .notFound p)
  | .error fault => if d.isFolder path then .ok d else .error fault
  | .ok d => .ok d

/-- Makes a folder with all folders above it, as far as they are not there; at most so many. What
was made before a fault stays. -/
def ensureFolders : (levels : Nat) → Disk → Path → Except FileFault Unit × Disk
  | levels, d, path =>
    match d.ensureFolder path with
    | .ok d => (.ok (), d)
    | .error (.refused .notFound p) =>
      match levels with
      | 0 => (.error (.refused .notFound p), d)
      | levels + 1 =>
        match ensureFolders levels d path.parent with
        | (.error fault, d) => (.error fault, d)
        | (.ok (), d) =>
          match d.ensureFolder path with
          | .ok d => (.ok (), d)
          | .error fault => (.error fault, d)
    | .error fault => (.error fault, d)

def makeFolders (d : Disk) (path : Path) : Except FileFault Unit × Disk :=
  ensureFolders path.parts.length d path

def names (d : Disk) (path : Path) : List String :=
  match d.locate path with
  | .error _ => []
  | .ok folder =>
    let names := d.items.filterMap fun (loc, _) =>
      if loc.dropLast = folder then loc.getLast? else none
    names.mergeSort fun a b => decide (a ≤ b)

def files (d : Disk) : List (String × List UInt8) :=
  d.items.filterMap fun (loc, item) =>
    match item with
    | .file bytes =>
      if d.here.isPrefixOf loc then some ("/".intercalate (loc.drop d.here.length), bytes) else none
    | .folder => none

end Disk
end Treewright
