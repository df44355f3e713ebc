import Treewright.Text.Digits
import Treewright.Text.Quoted
set_option autoImplicit false

namespace Treewright.Command

inductive Switch where
  | help
  | output
  | firstOnly
  | quiet
  deriving DecidableEq, Repr, Inhabited

namespace Switch

def spellings : List (String × Switch) :=
  [("-h", .help), ("--help", .help), ("-o", .output), ("--output", .output),
    ("--first-param-mismatch-only", .firstOnly), ("-q", .quiet), ("--quiet", .quiet)]

def ofSpelling? (s : String) : Option Switch := (spellings.find? (·.1 = s)).map (·.2)

def shown (s : Switch) : String := "/".intercalate ((spellings.filter (·.2 = s)).map (·.1))

def takesValue : Switch → Bool
  | .output => true
  | _ => false

end Switch

/-- An argument as it reads by itself. What is joined to an option, after an equals sign or
directly, stands beside it. -/
inductive Word where
  | plain (text : String)
  | divider
  | switch (spelling : String) (means : Switch) (joined : Option (List Char))
  | unknown (text : String)
  deriving DecidableEq, Repr, Inhabited

inductive Fault where
  | ambiguous (text : String) (candidates : List String)
  | valueMissing (s : Switch)
  | valueIgnored (s : Switch) (value : String)
  | unrecognized (texts : List String)
  deriving DecidableEq, Repr, Inhabited

def Fault.message : Fault → String
  | .ambiguous text candidates =>
    "ambiguous option: " ++ text ++ " could match " ++ ", ".intercalate candidates
  | .valueMissing s => "argument " ++ s.shown ++ ": expected one argument"
  | .valueIgnored s value =>
    "argument " ++ s.shown ++ ": ignored explicit argument " ++ Text.quote value
  | .unrecognized texts => "unrecognized arguments: " ++ " ".intercalate texts

def splitEquals (cs : List Char) : List Char × Option (List Char) :=
  match cs.dropWhile (· ≠ '=') with
  | [] => (cs, none)
  | _ :: value => (cs.takeWhile (· ≠ '='), some value)

def isDigits (cs : List Char) : Bool :=
  !cs.isEmpty && cs.all fun c => (Text.digitValue? c).isSome

def dropLineEnd (cs : List Char) : List Char :=
  if cs.getLast? = some '\n' then cs.dropLast else cs

/-- A minus sign before a number is no option; the number may end its line. -/
def isNegativeNumber : List Char → Bool
  | '-' :: cs =>
    let cs := dropLineEnd cs
    isDigits cs ||
      match cs.dropWhile fun c => (Text.digitValue? c).isSome with
      | '.' :: places => isDigits places
      | _ => false
  | _ => false

/-- The options that an argument may stand for, when it is none of them as it is. -/
def candidates (cs : List Char) : List Word :=
  match cs with
  | '-' :: '-' :: _ =>
    let (front, value) := splitEquals cs
    Switch.spellings.filterMap fun (spelling, s) =>
      if front.isPrefixOf spelling.toList then some (.switch spelling s value) else none
  | '-' :: c :: rest =>
    Switch.spellings.filterMap fun (spelling, s) =>
      if spelling = String.ofList ['-', c] then
        some (.switch spelling s (some rest))
      else none
  | _ => []

def Word.spelling : Word → String
  | .switch spelling _ _ => spelling
  | .plain text | .unknown text => text
  | .divider => "--"

def Word.ofText (text : String) : Except Fault Word :=
  let cs := text.toList
  let (front, value) := splitEquals cs
  if cs.head? ≠ some '-' then .ok (.plain text)
  else
    match Switch.ofSpelling? text, Switch.ofSpelling? (String.ofList front), value with
    | some s, _, _ => .ok (.switch text s none)
    | none, some s, some value =>
      .ok (.switch (String.ofList front) s (some value))
    | _, _, _ =>
      if cs.length = 1 then .ok (.plain text)
      else
        match candidates cs with
        | [word] => .ok word
        | [] =>
          if isNegativeNumber cs || cs.contains ' ' then .ok (.plain text)
          else .ok (.unknown text)
        | words => .error (.ambiguous text (words.map (·.spelling)))

/-- Reads all arguments; after the first divider they are taken as they are. -/
def words : List String → Except Fault (List Word)
  | [] => .ok []
  | "--" :: rest => .ok (.divider :: rest.map .plain)
  | text :: rest => do return (← Word.ofText text) :: (← words rest)

structure Arguments where
  help : Bool := false
  program : Option String := none
  /-- The folder to write to. A divider that is joined to its option leaves none. -/
  output : Option String := some "outputs"
  firstOnly : Bool := false
  quiet : Bool := false
  deriving DecidableEq, Repr, Inhabited

def Arguments.set (a : Arguments) : Switch → Arguments
  | .help => { a with help := true }
  | .firstOnly => { a with firstOnly := true }
  | .quiet => { a with quiet := true }
  | .output => a

/-- What one argument with joined options ends in: nothing more, the value of an option that takes
one, or such an option whose value is still to come. -/
inductive Tail where
  | none
  | value (text : List Char)
  | wanted (s : Switch)
  deriving DecidableEq, Repr, Inhabited

/-- Reads the options that are joined to the short option `s`, each by its letter; what follows one
that takes a value is that value. Nothing else may be joined. -/
def unjoin (s : Switch) : List Char → Except Fault (List Switch × Tail)
  | [] => .ok (if s.takesValue then ([], .wanted s) else ([s], .none))
  | c :: rest =>
    if s.takesValue then .ok ([], .value (c :: rest))
    else
      match Switch.ofSpelling? (String.ofList ['-', c]) with
      | none => .error (.valueIgnored s (String.ofList (c :: rest)))
      | some next => do
        let (switches, tail) ← unjoin next rest
        return (s :: switches, tail)

/-- Reads an option with what is joined to it. A value that is joined to an option without one is
refused, but to a short option others may be joined. -/
def expand (spelling : String) (s : Switch) :
    Option (List Char) → Except Fault (List Switch × Tail)
  | none => unjoin s []
  | some joined =>
    if s.takesValue then .ok ([], .value joined)
    else if "--".toList.isPrefixOf spelling.toList || joined.isEmpty then
      .error (.valueIgnored s (String.ofList joined))
    else unjoin s joined

def Arguments.setOutput (a : Arguments) (value : List Char) : Arguments :=
  { a with output := if value = "--".toList then none else some (String.ofList value) }

/-- Goes through the arguments in order. Whoever asks for help gets it at once. The first plain
argument is the program, and a divider beside it belongs to it. -/
def gather (a : Arguments) (extras : List String) : List Word → Except Fault Arguments
  | [] => if extras.isEmpty then .ok a else .error (.unrecognized extras)
  | .plain text :: .divider :: rest =>
    if a.program.isNone then gather { a with program := some text } extras rest
    else gather a (extras ++ [text, "--"]) rest
  | .plain text :: rest =>
    if a.program.isNone then gather { a with program := some text } extras rest
    else gather a (extras ++ [text]) rest
  | .divider :: rest => gather a (if a.program.isNone then extras else extras ++ ["--"]) rest
  | .unknown text :: rest => gather a (extras ++ [text]) rest
  | .switch spelling s joined :: rest => do
    let (switches, tail) ← expand spelling s joined
    let a := switches.foldl Arguments.set a
    match tail, rest with
    | .none, rest => if a.help then return a else gather a extras rest
    | .value text, rest => if a.help then return a else gather (a.setOutput text) extras rest
    | .wanted _, .plain text :: rest =>
      if a.help then return a else gather { a with output := some text } extras rest
    | .wanted s, _ => throw (.valueMissing s)

def Arguments.ofTexts (texts : List String) : Except Fault Arguments := do
  gather {} [] (← words texts)

end Treewright.Command
