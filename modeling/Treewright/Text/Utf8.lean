import Treewright.Text.Quoted
set_option autoImplicit false

namespace Treewright.Text

inductive ByteFault where
  | badStart
  | badTail
  | cutOff
  deriving DecidableEq, Repr, Inhabited

/-- The bytes at fault are those from `start` up to `stop`, of which `byte` is the first. -/
structure ByteFlaw where
  fault : ByteFault
  byte : UInt8
  start : Nat
  stop : Nat
  deriving DecidableEq, Repr, Inhabited

def ByteFault.message : ByteFault → String
  | .badStart => "invalid start byte"
  | .badTail => "invalid continuation byte"
  | .cutOff => "unexpected end of data"

def ByteFlaw.message (f : ByteFlaw) : String :=
  let place :=
    if f.stop = f.start + 1 then
      "byte 0x" ++ String.ofList (hex 2 f.byte.toNat) ++ " in position " ++ toString f.start
    else s!"bytes in position {f.start}-{f.stop - 1}"
  "'utf-8' codec can't decode " ++ place ++ ": " ++ f.fault.message

/-- A character that is not complete yet: where it began and with which byte, how many bytes are
still to come and between which bounds the next one lies, and the number read so far. -/
structure Unfinished where
  start : Nat
  lead : UInt8
  missing : Nat
  low : Nat
  high : Nat
  code : Nat
  deriving DecidableEq, Repr, Inhabited

def Unfinished.begin? (start : Nat) (lead : UInt8) : Option Unfinished :=
  let n := lead.toNat
  if 0xc2 ≤ n && n ≤ 0xdf then some ⟨start, lead, 1, 0x80, 0xbf, n % 0x20⟩
  else if n = 0xe0 then some ⟨start, lead, 2, 0xa0, 0xbf, n % 0x10⟩
  else if n = 0xed then some ⟨start, lead, 2, 0x80, 0x9f, n % 0x10⟩
  else if 0xe1 ≤ n && n ≤ 0xef then some ⟨start, lead, 2, 0x80, 0xbf, n % 0x10⟩
  else if n = 0xf0 then some ⟨start, lead, 3, 0x90, 0xbf, n % 0x08⟩
  else if n = 0xf4 then some ⟨start, lead, 3, 0x80, 0x8f, n % 0x08⟩
  else if 0xf1 ≤ n && n ≤ 0xf3 then some ⟨start, lead, 3, 0x80, 0xbf, n % 0x08⟩
  else none

/-- One byte more of a character; only the first tail has bounds of its own. -/
def Unfinished.extend (u : Unfinished) (n : Nat) : Unfinished :=
  { u with missing := u.missing - 1, low := 0x80, high := 0xbf, code := 0x40 * u.code + n % 0x40 }

def decodeFrom : (pos : Nat) → Option Unfinished → List UInt8 → Except ByteFlaw (List Char)
  | _, none, [] => .ok []
  | pos, some u, [] => .error ⟨.cutOff, u.lead, u.start, pos⟩
  | pos, none, b :: bs =>
    if b.toNat < 0x80 then (decodeFrom (pos + 1) none bs).map (Char.ofNat b.toNat :: ·)
    else
      match Unfinished.begin? pos b with
      | some u => decodeFrom (pos + 1) (some u) bs
      | none => .error ⟨.badStart, b, pos, pos + 1⟩
  | pos, some u, b :: bs =>
    if u.low ≤ b.toNat && b.toNat ≤ u.high then
      let u := u.extend b.toNat
      if u.missing = 0 then (decodeFrom (pos + 1) none bs).map (Char.ofNat u.code :: ·)
      else decodeFrom (pos + 1) (some u) bs
    else .error ⟨.badTail, u.lead, u.start, pos⟩

def decode (bytes : List UInt8) : Except ByteFlaw String :=
  (decodeFrom 0 none bytes).map String.ofList

def encode (s : String) : List UInt8 := s.toUTF8.toList

def feedLines : List Char → List Char
  | [] => []
  | '\r' :: '\n' :: cs => '\n' :: feedLines cs
  | '\r' :: cs => '\n' :: feedLines cs
  | c :: cs => c :: feedLines cs

end Treewright.Text
