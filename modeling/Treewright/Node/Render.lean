import Treewright.Node.Basic
import Treewright.Text.Case
set_option autoImplicit false

namespace Treewright

/-- One step of rendering: what is being done, for which node of a shown tree, and the code that it
adds. -/
structure Report where
  message : String
  node : Option Int
  code : String
  deriving DecidableEq, Repr, Inhabited

def Mark.report (m : Mark) (message code : String) : Report := ⟨message, m.id, code⟩

def codeText (reports : List Report) : String := String.join (reports.map (·.code))

def indentation (depth : Int) : String := String.ofList (List.replicate (4 * depth.toNat) ' ')

def coercionMark : String := "[" ++ Ty.float.spelling ++ "] "

def joinReports (between : Report) : List (List Report) → List Report
  | [] => []
  | [part] => part
  | part :: parts => part ++ between :: joinReports between parts

/-- The parts in order, those at coerced positions with the mark of a widening. -/
def coerceParts (m : Mark) (coerced : List Nat) (index : Nat) :
    List (List Report) → List (List Report)
  | [] => []
  | part :: parts =>
    let part :=
      if coerced.contains index then
        m.report "Inserting implicit cast to float..." coercionMark :: part
      else part
    part :: coerceParts m coerced (index + 1) parts

def dropSemicolons (s : String) : String :=
  String.ofList (s.toList.reverse.dropWhile (· = ';')).reverse

def dropFront (front s : String) : String :=
  if front.toList.isPrefixOf s.toList then String.ofList (s.toList.drop front.length) else s

/-- Several bindings of one type on one line, which names the type once. -/
def joinBindings (type : Ty) : List String → String
  | [] => ""
  | b :: bs =>
    let rest := bs.map fun t => dropFront (type.spelling ++ " ") (dropSemicolons t)
    ", ".intercalate (dropSemicolons b :: rest)

def Style.glyph (style : Style) (op : Op) : String :=
  match style with
  | .paren => ""
  | .negation => "-"
  | .cast target => "[" ++ target.spelling ++ "]"
  | .plain | .comparison | .connective => op.glyph?.getD ""

def Style.before (style : Style) (op : Op) : String :=
  match style with
  | .cast _ => style.glyph op ++ " "
  | _ => style.glyph op

def Node.isOperation : Node → Bool
  | .mk _ (.operation ..) => true
  | _ => false

namespace Node

def optionEmpty : Option Node → Bool
  | none => true
  | some n => n.isEmpty

/-- A body between braces is followed by a line end, unless it is empty. -/
def nested (m : Mark) (empty : Bool) (body : List Report) : List Report :=
  if empty then [] else body ++ [m.report "Closing nested block..." "\n"]

mutual
def reports : Int → Node → List Report
  | _, .mk _ (.bare _) => []
  | _, .mk _ .nop => []
  | depth, .mk m (.constant _ value) =>
    [m.report ("Generating code for literal: " ++ value) (indentation depth ++ value)]
  | depth, .mk m (.variable name _ _) =>
    [m.report ("Generating code for variable: " ++ name.written)
      (indentation depth ++ name.written)]
  | depth, .mk m (.binding type name value _) =>
    m.report ("Generating code for variable declaration: " ++ name.written)
        (indentation depth ++ type.spelling ++ " " ++ name.written) ::
      (if value.isSome then
        [m.report ("Generating code for initializer of " ++ name.written ++ "...") " = "]
      else []) ++
      optionReports 0 value ++
      [m.report ("Finishing variable declaration: " ++ name.written) ";"]
  | depth, .mk m (.declaration _ _ _ bindings) =>
    joinReports (m.report "Generating code for declaration (next binding)..." "\n")
      (reportsAll depth bindings)
  | depth, .mk m (.arrayDecl type name size _) =>
    [m.report ("Generating code for array declaration: " ++ name.written)
      (indentation depth ++ type.spelling ++ " " ++ name.written ++ "[" ++ size ++ "];")]
  | depth, .mk m (.operation style op operands _ _ coerced _) =>
    let parts := coerceParts m coerced 0 (reportsAll 0 operands)
    let start := s!"Generating code for {op.tag} operation..."
    let finish := [m.report s!"Finishing code for {op.tag} operation..." ")"]
    if operands.length = 1 then
      m.report start (indentation depth ++ "(" ++ style.before op) :: parts.flatten ++ finish
    else
      m.report start (indentation depth ++ "(") ::
        joinReports (m.report s!"Generating code for {op.tag} operation (operator)..."
          (" " ++ style.glyph op ++ " ")) parts ++ finish
  | depth, .mk m (.assignment target value coerced _) =>
    m.report "Generating code for assignment statement..." (indentation depth) ::
      reports 0 target ++
      m.report "Generating code for assignment statement: ... = "
        (" = " ++ if coerced then coercionMark else "") ::
      reports 0 value ++
      [m.report "Finishing code for assignment statement" ";"]
  | depth, .mk m (.block title lines) =>
    joinReports (m.report ("Generating code for " ++ Text.lower title ++ " (next line)...") "\n")
      (lineReports depth lines)
  | depth, .mk m (.conditional condition accepted rejected _) =>
    let brace := m.report "Generating code for condition..."
    m.report "Generating code for if statement..." (indentation depth ++ "if ") ::
      (if condition.isOperation then reports 0 condition
      else brace "(" :: reports 0 condition ++ [brace ")"]) ++
      m.report "Generating code for if statement (then branch)..." " \x7b\n" ::
      nested m (accepted.isEmpty) (reports (depth + 1) accepted) ++
      (if rejected.isSome then
        m.report "Generating code for if statement (else branch)..."
            (indentation depth ++ "\x7d else \x7b\n") ::
          nested m (optionEmpty rejected) (optionReports (depth + 1) rejected)
      else []) ++
      [m.report "Finishing if statement..." (indentation depth ++ "\x7d")]
  | depth, .mk m (.loop init test update body _) =>
    m.report "Generating code for loop header..."
        (indentation depth ++ "for (" ++ headerText init ++ "; " ++ codeText (reports 0 test) ++
          "; " ++ headerText update ++ ") \x7b\n") ::
      nested m body.isEmpty (reports (depth + 1) body) ++
      [m.report "Finishing loop..." (indentation depth ++ "\x7d")]
  | _, .mk m (.signature params) =>
    [m.report "Generating code for parameters..." (paramsText params)]
  | depth, .mk m (.function returns name params body _) =>
    let finish :=
      if body.isSome then
        m.report ("Generating code for function: " ++ name.text ++ " (body)...") ") \x7b\n" ::
          nested m (optionEmpty body) (optionReports (depth + 1) body) ++
          [m.report ("Finishing function: " ++ name.text) (indentation depth ++ "\x7d")]
      else [m.report ("Finishing declaration of " ++ name.text ++ "...") ");"]
    m.report ("Generating code for function: " ++ name.text ++ "...")
        (indentation depth ++ returns.spelling ++ " " ++ name.text ++ "(") ::
      optionReports 0 params ++ finish
  | depth, .mk m (.ret operand) =>
    if operand.isSome then
      m.report "Generating code for return statement..." (indentation depth ++ "return ") ::
        optionReports 0 operand ++ [m.report "Finishing code for return statement..." ";"]
    else [m.report "Generating code for return statement..." (indentation depth ++ "return;")]
  | depth, .mk m (.arguments items) =>
    joinReports (m.report "Generating code for argument (adding comma)..." ", ")
      (itemReports depth items)
  | depth, .mk m (.call name args _ coerced _) =>
    m.report ("Generating code for function call: " ++ name.written ++ "...")
        (indentation depth ++ name.written ++ "(") ::
      joinReports (m.report "Generating code for argument (adding comma)..." ", ")
        (coerceParts m coerced 0 (argumentReports args)) ++
      [m.report ("Finishing code for function call: " ++ name.written ++ "...") ")"]
  | depth, .mk m (.access name index _ _) =>
    m.report ("Generating code for array access: " ++ name.written ++ "[...]")
        (indentation depth ++ name.written ++ "[") ::
      reports 0 index ++
      [m.report ("Finishing code for array access: " ++ name.written) "]"]
  | depth, .mk m (.wrapper wrap target _ _) =>
    m.report ("Generating code for " ++ Text.lower wrap.label ++ "...")
        (indentation depth ++ wrap.glyph) ::
      reports 0 target

def optionReports : Int → Option Node → List Report
  | _, none => []
  | depth, some n => reports depth n

def reportsAll : Int → List Node → List (List Report)
  | _, [] => []
  | depth, n :: ns => reports depth n :: reportsAll depth ns

/-- The reports of each item of a list on one line, of which only the first is indented. -/
def itemReports : Int → List Node → List (List Report)
  | _, [] => []
  | depth, n :: ns => reports depth n :: reportsAll 0 ns

/-- The reports of each line of a block; a line that renders nothing is passed over. -/
def lineReports : Int → List Node → List (List Report)
  | _, [] => []
  | depth, n :: ns =>
    if n.isEmpty then lineReports depth ns else reports depth n :: lineReports depth ns

def argumentReports : Node → List (List Report)
  | .mk _ (.arguments items) => reportsAll 0 items
  | .mk _ (.block _ lines) => reportsAll 0 lines
  | _ => []

/-- A part of a loop header: its code without semicolons, where a declaration takes one line. -/
def headerText : Option Node → String
  | none => ""
  | some (.mk _ (.declaration type _ _ bindings)) =>
    joinBindings type ((reportsAll 0 bindings).map codeText)
  | some n => dropSemicolons (codeText (reports 0 n))
end

def text (n : Node) (depth : Int) : String := codeText (n.reports depth)

theorem reportsAll_eq_map (depth : Int) (ns : List Node) :
    reportsAll depth ns = ns.map (reports depth) := by
  induction ns with
  | nil => rfl
  | cons n ns ih => simp [reportsAll, ih]

theorem lineReports_eq_map (depth : Int) (ns : List Node) :
    lineReports depth ns = (ns.filter (!·.isEmpty)).map (reports depth) := by
  induction ns with
  | nil => rfl
  | cons n ns ih => cases h : n.isEmpty <;> simp [lineReports, ih, h]

theorem text_of_isEmpty {n : Node} (h : n.isEmpty = true) (depth : Int) : n.text depth = "" := by
  obtain ⟨mark, form⟩ := n
  cases form with
  | nop => rfl
  | block title lines =>
    have hall : ∀ n ∈ lines, n.isEmpty = true := by
      simpa [isEmpty, allEmpty_eq_all] using h
    have hlines : lineReports depth lines = [] := by
      simpa [lineReports_eq_map] using hall
    rw [text, reports, hlines]
    rfl
  | _ => cases h

end Node

inductive RenderFault where
  | noCode
  | noGlyph (op : Op)
  deriving DecidableEq, Repr, Inhabited

def RenderFault.message : RenderFault → String
  | .noCode => "Subclasses must implement generate_code method"
  | .noGlyph op => op.shown

def Style.fault? (style : Style) (op : Op) : Option RenderFault :=
  match style with
  | .plain | .comparison | .connective => if op.glyph?.isNone then some (.noGlyph op) else none
  | .paren | .negation | .cast _ => none

namespace Node

mutual
/-- The first fault that rendering meets. The glyph comes before a single operand and after the
first of several. -/
def fault? : Node → Option RenderFault
  | .mk _ (.bare _) => some .noCode
  | .mk _ (.binding _ _ value _) => optionFault? value
  | .mk _ (.declaration _ _ _ bindings) => firstFault? bindings
  | .mk _ (.operation style op operands _ _ _ _) =>
    match operands with
    | [] => none
    | [operand] => (style.fault? op).or operand.fault?
    | operand :: rest => operand.fault?.or ((style.fault? op).or (firstFault? rest))
  | .mk _ (.assignment target value _ _) => target.fault?.or value.fault?
  | .mk _ (.block _ lines) => lineFault? lines
  | .mk _ (.conditional condition accepted rejected _) =>
    condition.fault?.or
      ((if accepted.isEmpty then none else accepted.fault?).or (bodyFault? rejected))
  | .mk _ (.loop init test update body _) =>
    (optionFault? init).or (test.fault?.or
      ((optionFault? update).or (if body.isEmpty then none else body.fault?)))
  | .mk _ (.function _ _ params body _) => (optionFault? params).or (bodyFault? body)
  | .mk _ (.ret operand) => optionFault? operand
  | .mk _ (.arguments items) => firstFault? items
  | .mk _ (.call _ args _ _ _) => args.fault?
  | .mk _ (.access _ index _ _) => index.fault?
  | .mk _ (.wrapper _ target _ _) => target.fault?
  | .mk _ .nop | .mk _ (.constant _ _) | .mk _ (.variable _ _ _) | .mk _ (.arrayDecl _ _ _ _)
  | .mk _ (.signature _) => none

def optionFault? : Option Node → Option RenderFault
  | none => none
  | some n => n.fault?

def bodyFault? : Option Node → Option RenderFault
  | none => none
  | some n => if n.isEmpty then none else n.fault?

def firstFault? : List Node → Option RenderFault
  | [] => none
  | n :: ns => n.fault?.or (firstFault? ns)

def lineFault? : List Node → Option RenderFault
  | [] => none
  | n :: ns => if n.isEmpty then lineFault? ns else n.fault?.or (lineFault? ns)
end

def render (n : Node) (depth : Int) : Except RenderFault String :=
  match n.fault? with
  | some fault => .error fault
  | none => .ok (n.text depth)

/-- All reports of a rendering, the first of which only says that it starts. -/
def renderReports (n : Node) (depth : Int) : Except RenderFault (List Report) :=
  match n.fault? with
  | some fault => .error fault
  | none => .ok (n.mark.report "Starting code generation." "" :: n.reports depth)

end Node
end Treewright
