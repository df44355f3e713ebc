import Treewright.Document.Value
import Treewright.Text.Digits
set_option autoImplicit false

/-!
Reading a document from JSON text, with the position of the first flaw. Besides the standard
grammar the words `NaN`, `Infinity` and `-Infinity` are numbers. A number with a fraction or an
exponent is binary, any other is whole and has at most `Text.digitLimit` digits.
-/

namespace Treewright.Json

open Decimal

inductive Flaw where
  | value
  | comma
  | colon
  | fieldName
  | unterminated
  | control
  | badEscape
  | badUnicode
  | extra
  | byteOrderMark
  deriving DecidableEq, Repr, Inhabited

def Flaw.message : Flaw → String
  | .value => "Expecting value"
  | .comma => "Expecting ',' delimiter"
  | .colon => "Expecting ':' delimiter"
  | .fieldName => "Expecting property name enclosed in double quotes"
  | .unterminated => "Unterminated string starting at"
  | .control => "Invalid control character at"
  | .badEscape => "Invalid \\escape"
  | .badUnicode => "Invalid \\uXXXX escape"
  | .extra => "Extra data"
  | .byteOrderMark => "Unexpected UTF-8 BOM (decode using utf-8-sig)"

/-- Why reading stopped: a flaw with the text that remains from it on, or an oversized number. -/
inductive Stop where
  | flaw (flaw : Flaw) (rest : List Char)
  | longNumber (digits : Nat)

def isSpace (c : Char) : Bool := c = ' ' || c = '\t' || c = '\n' || c = '\r'

def skip (cs : List Char) : List Char := cs.dropWhile isSpace

def hexValue? (c : Char) : Option Nat :=
  if '0' ≤ c && c ≤ '9' then some (c.toNat - '0'.toNat)
  else if 'a' ≤ c && c ≤ 'f' then some (c.toNat - 'a'.toNat + 10)
  else if 'A' ≤ c && c ≤ 'F' then some (c.toNat - 'A'.toNat + 10)
  else none

def isHigh (n : Nat) : Bool := 0xd800 ≤ n && n < 0xdc00

def isLow (n : Nat) : Bool := 0xdc00 ≤ n && n < 0xe000

/-- Where the reader of a quoted text stands: between characters, after a backslash, or inside a
numbered escape that began at the given text. -/
inductive Mode where
  | plain
  | escape (start : List Char)
  | number (start : List Char) (count value : Nat)

def shortEscape? : Char → Option Char
  | '"' => some '"'
  | '\\' => some '\\'
  | '/' => some '/'
  | 'b' => some '\x08'
  | 'f' => some '\x0c'
  | 'n' => some '\n'
  | 'r' => some '\r'
  | 't' => some '\t'
  | _ => none

/-- Characters read so far, last first, with a pending first half of a pair. A half that stays
alone has no character and becomes the replacement character; `loneHalf` tells whether there is
one. -/
structure Heap where
  chars : List Char
  high : Option Nat

def Heap.flush (h : Heap) : List Char :=
  match h.high with
  | none => h.chars
  | some _ => '�' :: h.chars

def Heap.push (h : Heap) (c : Char) : Heap := ⟨c :: h.flush, none⟩

def Heap.pushUnit (h : Heap) (n : Nat) : Heap :=
  match h.high with
  | some m =>
    if isLow n then ⟨Char.ofNat (0x10000 + (m - 0xd800) * 0x400 + (n - 0xdc00)) :: h.chars, none⟩
    else if isHigh n then ⟨h.flush, some n⟩
    else ⟨Char.ofNat n :: h.flush, none⟩
  | none =>
    if isHigh n then ⟨h.chars, some n⟩
    else if isLow n then ⟨'�' :: h.chars, none⟩
    else ⟨Char.ofNat n :: h.chars, none⟩

/-- The rest of a text whose opening quote stands at `start`. A numbered escape needs one more
character after its last digit. -/
def scanText (start : List Char) : Mode → Heap → List Char → Except Stop (String × List Char)
  | .plain, _, [] => .error (.flaw .unterminated start)
  | .escape _, _, [] => .error (.flaw .unterminated start)
  | .number begun _ _, _, [] => .error (.flaw .badUnicode begun)
  | .plain, h, c :: cs =>
    if c = '"' then .ok (String.ofList h.flush.reverse, cs)
    else if c = '\\' then scanText start (.escape (c :: cs)) h cs
    else if c.toNat < 0x20 then .error (.flaw .control (c :: cs))
    else scanText start .plain (h.push c) cs
  | .escape begun, h, c :: cs =>
    if c = 'u' then scanText start (.number (c :: cs) 0 0) h cs
    else
      match shortEscape? c with
      | some e => scanText start .plain (h.push e) cs
      | none => .error (.flaw .badEscape begun)
  | .number begun count value, h, c :: cs =>
    match hexValue? c with
    | none => .error (.flaw .badUnicode begun)
    | some d =>
      if count = 3 then
        match cs with
        | [] => .error (.flaw .badUnicode begun)
        | _ :: _ => scanText start .plain (h.pushUnit (16 * value + d)) cs
      else scanText start (.number begun (count + 1) (16 * value + d)) h cs

def isDigit (c : Char) : Bool := '0' ≤ c && c ≤ '9'

def after? : (word : List Char) → List Char → Option (List Char)
  | [], cs => some cs
  | _ :: _, [] => none
  | w :: ws, c :: cs => if w = c then after? ws cs else none

def natOf (ds : List Char) : Nat := ds.foldl (fun n d => 10 * n + (d.toNat - '0'.toNat)) 0

def scanFraction : List Char → List Char × List Char
  | '.' :: cs =>
    match cs.takeWhile isDigit with
    | [] => ([], '.' :: cs)
    | ds => (ds, cs.dropWhile isDigit)
  | cs => ([], cs)

def scanExponent (cs : List Char) : Option Int × List Char :=
  match cs with
  | [] => (none, cs)
  | e :: tail =>
    if e = 'e' || e = 'E' then
      let (negative, tail) : Bool × List Char :=
        match tail with
        | '-' :: rest => (true, rest)
        | '+' :: rest => (false, rest)
        | rest => (false, rest)
      match tail.takeWhile isDigit with
      | [] => (none, cs)
      | ds => (some (if negative then -(natOf ds : Int) else natOf ds), tail.dropWhile isDigit)
    else (none, cs)

/-- A number without its sign; `start` is the text from the sign on. -/
def scanNumber (start : List Char) (negative : Bool) (cs : List Char) :
    Except Stop (Value × List Char) :=
  let whole : List Char × List Char :=
    match cs with
    | '0' :: rest => (['0'], rest)
    | _ => (cs.takeWhile isDigit, cs.dropWhile isDigit)
  match whole with
  | ([], _) => .error (.flaw .value start)
  | (ds, rest) =>
    let (fs, rest) := scanFraction rest
    let (e?, rest) := scanExponent rest
    if fs.isEmpty && e?.isNone then
      if Text.digitLimit < ds.length then .error (.longNumber ds.length)
      else .ok (.int (if negative then -(natOf ds : Int) else natOf ds), rest)
    else
      .ok (.float (Binary64.ofDecimal negative (natOf (ds ++ fs)) (e?.getD 0 - fs.length)), rest)

def words : List (String × Value) :=
  [("null", .null), ("true", .bool true), ("false", .bool false), ("NaN", .float .nan),
    ("Infinity", .float (.infinite false)), ("-Infinity", .float (.infinite true))]

def scanWord (cs : List Char) : Option (Value × List Char) :=
  words.findSome? fun (w, v) => (after? w.toList cs).map (v, ·)

def scanScalar (cs : List Char) : Except Stop (Value × List Char) :=
  match scanWord cs with
  | some r => .ok r
  | none =>
    match cs with
    | '-' :: rest => scanNumber cs true rest
    | _ => scanNumber cs false cs

mutual
/-- One value. Every step takes at least one character, so the length of the text is enough
fuel. -/
def scan : (fuel : Nat) → List Char → Except Stop (Value × List Char)
  | 0, cs => .error (.flaw .value cs)
  | fuel + 1, cs =>
    match cs with
    | '"' :: rest => do
      let (s, rest) ← scanText cs .plain ⟨[], none⟩ rest
      return (.string s, rest)
    | '{' :: rest =>
      match skip rest with
      | '}' :: rest => .ok (.object [], rest)
      | rest => scanFields fuel [] rest
    | '[' :: rest =>
      match skip rest with
      | ']' :: rest => .ok (.list [], rest)
      | rest => scanItems fuel [] rest
    | cs => scanScalar cs

def scanItems : (fuel : Nat) → List Value → List Char → Except Stop (Value × List Char)
  | 0, _, cs => .error (.flaw .value cs)
  | fuel + 1, items, cs => do
    let (v, rest) ← scan fuel cs
    match skip rest with
    | ']' :: rest => return (.list (v :: items).reverse, rest)
    | ',' :: rest => scanItems fuel (v :: items) (skip rest)
    | rest => throw (.flaw .comma rest)

def scanFields : (fuel : Nat) → List (String × Value) → List Char →
    Except Stop (Value × List Char)
  | 0, _, cs => .error (.flaw .value cs)
  | fuel + 1, fields, cs =>
    match cs with
    | '"' :: rest => do
      let (key, rest) ← scanText cs .plain ⟨[], none⟩ rest
      match skip rest with
      | ':' :: rest =>
        let (v, rest) ← scan fuel (skip rest)
        let fields := setField key v fields
        match skip rest with
        | '}' :: rest => return (.object fields, rest)
        | ',' :: rest => scanFields fuel fields (skip rest)
        | rest => throw (.flaw .comma rest)
      | rest => throw (.flaw .colon rest)
    | cs => .error (.flaw .fieldName cs)
end

/-- Why a text is no document. Lines and columns count from one, positions from zero. -/
inductive Fault where
  | flaw (flaw : Flaw) (line column position : Nat)
  | longNumber (digits : Nat)
  deriving DecidableEq, Repr, Inhabited

def Fault.locate (text : List Char) : Stop → Fault
  | .longNumber digits => .longNumber digits
  | .flaw f rest =>
    let before := text.take (text.length - rest.length)
    let column := (before.reverse.takeWhile (· ≠ '\n')).length + 1
    .flaw f (before.count '\n' + 1) column before.length

def Fault.message : Fault → String
  | .flaw f line column position =>
    s!"{f.message}: line {line} column {column} (char {position})"
  | .longNumber digits =>
    "Exceeds the limit (4300 digits) for integer string conversion: value has " ++
      s!"{digits} digits; use sys.set_int_max_str_digits() to increase the limit"

def scanDocument (cs : List Char) : Except Stop Value := do
  if cs.head? = some '\ufeff' then throw (.flaw .byteOrderMark cs)
  let (v, rest) ← scan (2 * cs.length + 2) (skip cs)
  match skip rest with
  | [] => return v
  | rest => throw (.flaw .extra rest)

/-- Whether half of a pair stands alone among the numbered escapes; `high` says that the text comes
right after a first half. -/
def loneHalf (high : Bool) : List Char → Bool
  | '\\' :: 'u' :: a :: b :: c :: d :: rest =>
    match [a, b, c, d].foldlM (fun n d => (hexValue? d).map (16 * n + ·)) 0 with
    | none => true
    | some n =>
      if isLow n then !high || loneHalf false rest else high || loneHalf (isHigh n) rest
  | '\\' :: _ :: rest => high || loneHalf false rest
  | _ :: rest => high || loneHalf false rest
  | [] => high

def read (text : String) : Except Fault Value :=
  (scanDocument text.toList).mapError (Fault.locate text.toList)

end Treewright.Json
