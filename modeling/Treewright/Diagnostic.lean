import Treewright.Topic
set_option autoImplicit false

namespace Treewright

inductive ErrorKind where
  | multipleDefinition
  | multipleDefinitionFn
  | undeclaredVariable
  | incompatibleOperands
  | incompatibleAssignment
  | incompatibleTest
  | declaredButNeverDefined
  | wrongParamCount
  | incompatibleParam
  | incompatibleIndex
  | nonArrayIndex
  deriving DecidableEq, Repr, Inhabited

namespace ErrorKind

def all : List ErrorKind :=
  [.multipleDefinition, .multipleDefinitionFn, .undeclaredVariable, .incompatibleOperands,
    .incompatibleAssignment, .incompatibleTest, .declaredButNeverDefined, .wrongParamCount,
    .incompatibleParam, .incompatibleIndex, .nonArrayIndex]

theorem mem_all (kind : ErrorKind) : kind ∈ all := by cases kind <;> decide

def tag : ErrorKind → String
  | .multipleDefinition => "MULTIPLE_DEFINITION"
  | .multipleDefinitionFn => "MULTIPLE_DEFINITION_FN"
  | .undeclaredVariable => "UNDECLARED_VARIABLE"
  | .incompatibleOperands => "INCOMPATIBLE_OPERANDS"
  | .incompatibleAssignment => "INCOMPATIBLE_ASSIGNMENT"
  | .incompatibleTest => "INCOMPATIBLE_TEST"
  | .declaredButNeverDefined => "DECLARED_BUT_NEVER_DEFINED"
  | .wrongParamCount => "WRONG_PARAM_COUNT"
  | .incompatibleParam => "INCOMPATIBLE_PARAM"
  | .incompatibleIndex => "INCOMPATIBLE_INDEX"
  | .nonArrayIndex => "NON_ARRAY_INDEX"

def number (kind : ErrorKind) : Nat := all.idxOf kind + 1

end ErrorKind

namespace Wording

def redeclared (name : String) : String := "re-declaration of variable " ++ name

def redeclaredFunction (name : String) : String := "re-declaration of function " ++ name

def undeclared (name : String) : String := "undeclared variable " ++ name

def mismatch (what expected actual : String) : String :=
  what ++ " " ++ expected ++ " but received " ++ actual

def operands (op : Op) (expected actual : String) : String :=
  mismatch (op.phrase ++ " operation expected") expected actual

def neverDefined (name : String) : String :=
  "function " ++ name ++ " is declared but never defined"

def paramCount (name expected actual : String) : String :=
  mismatch ("function " ++ name ++ " expects") (expected ++ " parameters") actual

def param (name expected actual : String) : String :=
  mismatch ("parameter " ++ name ++ " expected") expected actual

def index (expected actual : String) : String := mismatch "index operator expects" expected actual

def notArray : String := "index operator expects an array"

end Wording

inductive TopicFault where
  | count (kind : ErrorKind) (given : Nat)
  | notOperator (topic : Topic)
  /-- Something that can be no key stands for an operator. -/
  | unkeyed (value : Value)
  deriving DecidableEq, Repr, Inhabited

namespace ErrorKind

def topics : ErrorKind → List String
  | .multipleDefinition | .multipleDefinitionFn | .undeclaredVariable
  | .declaredButNeverDefined => ["name"]
  | .incompatibleOperands => ["op", "expected", "actual"]
  | .incompatibleAssignment | .incompatibleIndex => ["expected", "actual"]
  | .incompatibleTest => ["actual"]
  | .wrongParamCount | .incompatibleParam => ["name", "expected", "actual"]
  | .nonArrayIndex => []

def message (kind : ErrorKind) (given : List Topic) : Except TopicFault String :=
  match kind, given with
  | .multipleDefinition, [name] => .ok (Wording.redeclared name.written)
  | .multipleDefinitionFn, [name] => .ok (Wording.redeclaredFunction name.written)
  | .undeclaredVariable, [name] => .ok (Wording.undeclared name.written)
  | .incompatibleOperands, [.op op, expected, actual] =>
    .ok (Wording.operands op expected.phrase actual.phrase)
  | .incompatibleOperands, [topic, _, _] =>
    match topic.unkeyed? with
    | some value => .error (.unkeyed value)
    | none => .error (.notOperator topic)
  | .incompatibleAssignment, [expected, actual] =>
    .ok (Wording.operands .assign expected.phrase actual.phrase)
  | .incompatibleTest, [actual] => .ok (Wording.operands .test Ty.bool.phrase actual.phrase)
  | .declaredButNeverDefined, [name] => .ok (Wording.neverDefined name.written)
  | .wrongParamCount, [name, expected, actual] =>
    .ok (Wording.paramCount name.written expected.written actual.written)
  | .incompatibleParam, [name, expected, actual] =>
    .ok (Wording.param name.written expected.phrase actual.phrase)
  | .incompatibleIndex, [expected, actual] => .ok (Wording.index expected.phrase actual.phrase)
  | .nonArrayIndex, [] => .ok Wording.notArray
  | kind, given => .error (.count kind given.length)

end ErrorKind

namespace TopicFault

def listed : List String → String
  | [] => ""
  | [a] => a
  | [a, b] => a ++ " and " ++ b
  | words => ", ".intercalate words.dropLast ++ ", and " ++ words.getLastD ""

def plural (n : Nat) (word : String) : String := if n = 1 then word else word ++ "s"

def message : TopicFault → String
  | .count kind given =>
    let wanted := kind.topics.length
    let self := if kind = .incompatibleOperands then "_operands_message()" else "<lambda>()"
    if given < wanted then
      let missing := (kind.topics.drop given).map Text.quote
      s!"{self} missing {missing.length} required positional " ++
        plural missing.length "argument" ++ ": " ++ listed missing
    else
      s!"{self} takes {wanted} positional " ++ plural wanted "argument" ++ s!" but {given} " ++
        (if given = 1 then "was" else "were") ++ " given"
  | .notOperator topic => topic.shown
  | .unkeyed value => "unhashable type: '" ++ value.kindName ++ "'"

end TopicFault

inductive Problem where
  | redeclared (name : Name)
  | redeclaredFunction (name : Name)
  | undeclared (name : Name)
  | operands (op : Op) (expected actual : Ty)
  | assignment (expected actual : Ty)
  | test (actual : Ty)
  | neverDefined (name : Name)
  | paramCount (name : Name) (expected actual : Int)
  | param (name : Name) (expected actual : Ty)
  | index (expected actual : Ty)
  | notArray
  /-- A problem of any kind that comes with its message. No check finds one. -/
  | stated (kind : ErrorKind) (message : String)
  deriving DecidableEq, Repr, Inhabited

namespace Problem

def kind : Problem → ErrorKind
  | .redeclared _ => .multipleDefinition
  | .redeclaredFunction _ => .multipleDefinitionFn
  | .undeclared _ => .undeclaredVariable
  | .operands _ _ _ => .incompatibleOperands
  | .assignment _ _ => .incompatibleAssignment
  | .test _ => .incompatibleTest
  | .neverDefined _ => .declaredButNeverDefined
  | .paramCount _ _ _ => .wrongParamCount
  | .param _ _ _ => .incompatibleParam
  | .index _ _ => .incompatibleIndex
  | .notArray => .nonArrayIndex
  | .stated kind _ => kind

def message : Problem → String
  | .redeclared name => Wording.redeclared name.written
  | .redeclaredFunction name => Wording.redeclaredFunction name.written
  | .undeclared name => Wording.undeclared name.written
  | .operands op expected actual => Wording.operands op expected.phrase actual.phrase
  | .assignment expected actual => Wording.operands .assign expected.phrase actual.phrase
  | .test actual => Wording.operands .test Ty.bool.phrase actual.phrase
  | .neverDefined name => Wording.neverDefined name.written
  | .paramCount name expected actual =>
    Wording.paramCount name.written (toString expected) (toString actual)
  | .param name expected actual => Wording.param name.written expected.phrase actual.phrase
  | .index expected actual => Wording.index expected.phrase actual.phrase
  | .notArray => Wording.notArray
  | .stated _ message => message

/-- What the message of a problem is about, unless it came with one. -/
def topics? : Problem → Option (List Topic)
  | .redeclared name | .redeclaredFunction name | .undeclared name | .neverDefined name =>
    some [.value name.toValue]
  | .operands op expected actual => some [.op op, .type expected, .type actual]
  | .assignment expected actual | .index expected actual => some [.type expected, .type actual]
  | .test actual => some [.type actual]
  | .paramCount name expected actual =>
    some [.value name.toValue, .value (.int expected), .value (.int actual)]
  | .param name expected actual => some [.value name.toValue, .type expected, .type actual]
  | .notArray => some []
  | .stated _ _ => none

theorem message_topics {p : Problem} {topics : List Topic} (h : p.topics? = some topics) :
    p.kind.message topics = .ok p.message := by
  cases p <;> simp only [topics?, Option.some.injEq, reduceCtorEq] at h <;> subst h <;> rfl

end Problem

def lineHead (line : Int) (category : String) : String :=
  s!"[Line {line}] {category} error: "

structure Diagnostic where
  line : Int
  problem : Problem
  deriving DecidableEq, Repr, Inhabited

namespace Diagnostic

def kind (d : Diagnostic) : ErrorKind := d.problem.kind

def message (d : Diagnostic) : String := d.problem.message

def text (d : Diagnostic) : String := lineHead d.line "semantic" ++ d.message

end Diagnostic
end Treewright
