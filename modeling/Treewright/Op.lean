import Treewright.Text.Blank
import Treewright.Text.Case
set_option autoImplicit false

namespace Treewright

inductive Op where
  | equal
  | notEqual
  | greaterThan
  | lessThan
  | greaterEqualThan
  | lessEqualThan
  | and
  | or
  | not
  | plus
  | minus
  | times
  | divide
  | unaryMinus
  | assign
  | par
  | cast
  | test
  deriving DecidableEq, Repr, Inhabited

namespace Op

def all : List Op :=
  [.equal, .notEqual, .greaterThan, .lessThan, .greaterEqualThan, .lessEqualThan, .and, .or, .not,
    .plus, .minus, .times, .divide, .unaryMinus, .assign, .par, .cast, .test]

theorem mem_all (op : Op) : op ∈ all := by cases op <;> decide

def tag : Op → String
  | .equal => "EQUAL"
  | .notEqual => "NOT_EQUAL"
  | .greaterThan => "GREATER_THAN"
  | .lessThan => "LESS_THAN"
  | .greaterEqualThan => "GREATER_EQUAL_THAN"
  | .lessEqualThan => "LESS_EQUAL_THAN"
  | .and => "AND"
  | .or => "OR"
  | .not => "NOT"
  | .plus => "PLUS"
  | .minus => "MINUS"
  | .times => "TIMES"
  | .divide => "DIVIDE"
  | .unaryMinus => "UNARY_MINUS"
  | .assign => "ASSIGN"
  | .par => "PAR"
  | .cast => "CAST"
  | .test => "TEST"

def number (op : Op) : Nat := all.idxOf op + 1

/-- The glyph in rendered code. A cast is spelled by its type and a test not at all. -/
def glyph? : Op → Option String
  | .equal => some "=="
  | .notEqual => some "!="
  | .greaterThan => some ">"
  | .lessThan => some "<"
  | .greaterEqualThan => some ">="
  | .lessEqualThan => some "<="
  | .and => some "&"
  | .or => some "|"
  | .not => some "!"
  | .plus => some "+"
  | .minus => some "-"
  | .times => some "*"
  | .divide => some "/"
  | .unaryMinus => some "-"
  | .assign => some "="
  | .par => some ""
  | .cast | .test => none

def phrase : Op → String
  | .equal => "equal"
  | .notEqual => "different"
  | .greaterThan => "greater than"
  | .lessThan => "less than"
  | .greaterEqualThan => "greater or equal than"
  | .lessEqualThan => "less or equal than"
  | .and => "and"
  | .or => "or"
  | .not => "negation"
  | .plus => "addition"
  | .minus => "subtraction"
  | .times => "multiplication"
  | .divide => "division"
  | .unaryMinus => "unary minus"
  | .assign => "attribution"
  | .par => "parenthesis"
  | .cast => "cast"
  | .test => "test"

def isComparison : Op → Bool
  | .equal | .notEqual | .greaterThan | .lessThan | .greaterEqualThan | .lessEqualThan => true
  | _ => false

def isConnective : Op → Bool
  | .and | .or | .not => true
  | _ => false

/-- Operators that have a node of their own and never stand between operands. -/
def isReserved : Op → Bool
  | .assign | .par | .cast | .test => true
  | _ => false

theorem glyph?_isSome_of_not_reserved {op : Op} (h : op.isReserved = false) :
    op.glyph?.isSome = true := by
  cases op <;> simp_all [isReserved, glyph?]

/-- The operator with a given glyph; the minus sign is the binary one. -/
def ofGlyph? (glyph : String) : Option Op :=
  all.find? fun op => glyph ≠ "" && op.glyph? = some glyph && op ≠ .unaryMinus

/-- A written operator: its tag in any case or its glyph, with blanks around it. -/
def ofText? (text : String) : Option Op :=
  let word := Text.stripped text
  (all.find? (·.tag = Text.capitals word)).or (ofGlyph? word)

end Op
end Treewright
