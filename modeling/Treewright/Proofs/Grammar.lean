import Treewright.Proofs.Expressions
import Treewright.Proofs.Nesting
import Treewright.Proofs.Regions
set_option autoImplicit false

/-!
The grammar of trees. Where expressions stand in the places of expressions, and loop headers hold
what leaves them on their line, every node that is built is an expression, a step or a statement.
What is spelled out is good in a sense that is left open. An expression takes one line, whatever
texts its lines are made of, as long as these take the spellings.
-/

namespace Treewright

open Build

/-- Whether an action stays on the line of a loop header. -/
def Kind.staysInHeader : Kind → Bool
  | .declaration | .arrayDecl | .assign | .nop => true
  | kind => kind.isExpression

/-- Where the actions of a program may stand so that it is laid out well. Values are needed in
expressions, and the header of a loop takes what leaves it on its line. -/
def layout : Policy
  | .expression, kind | .size, kind => kind.isExpression = true
  | .header, kind => kind.staysInHeader = true
  | .statement, kind | .item, kind => kind ≠ .flawed

instance (position : Position) (kind : Kind) : Decidable (layout position kind) :=
  match position with
  | .expression | .size => inferInstanceAs (Decidable (kind.isExpression = true))
  | .header => inferInstanceAs (Decidable (kind.staysInHeader = true))
  | .statement | .item => inferInstanceAs (Decidable (kind ≠ .flawed))

theorem layout_flawless {position : Position} {kind : Kind} (h : layout position kind) :
    flawless position kind := by
  rintro rfl
  cases position with
  | header | expression | size => cases h
  | statement | item => exact h rfl

namespace Node

inductive Expression (good : String → Bool) : Node → Prop where
  | ofVariable {mark : Mark} {name : Name} {type : Ty} {failed : Bool}
      (spelled : good name.written = true) :
      Expression good (.mk mark (.variable name type failed))
  | ofConstant {mark : Mark} {type : Ty} {value : String} (spelled : good value = true) :
      Expression good (.mk mark (.constant type value))
  | operation {mark : Mark} {style : Style} {op : Op} {ns : List Node} {expected : Ty}
      {result : Option Ty} {coerced : List Nat} {failed : Bool}
      (written : ∀ target, style = .cast target → target.isWritten = true)
      (operands : ∀ n ∈ ns, Expression good n) :
      Expression good (.mk mark (.operation style op ns expected result coerced failed))
  | call {mark list : Mark} {name : Name} {ns : List Node} {type : Ty} {coerced : List Nat}
      {failed : Bool} (spelled : good name.written = true) (args : ∀ n ∈ ns, Expression good n) :
      Expression good (.mk mark (.call name (.mk list (.arguments ns)) type coerced failed))
  | access {mark : Mark} {name : Name} {n : Node} {type : Ty} {failed : Bool}
      (spelled : good name.written = true) (index : Expression good n) :
      Expression good (.mk mark (.access name n type failed))
  | wrapper {mark : Mark} {wrap : Wrap} {n : Node} {type : Ty} {failed : Bool}
      (target : Expression good n) : Expression good (.mk mark (.wrapper wrap n type failed))

inductive Binding (good : String → Bool) (type : Ty) : Node → Prop where
  | intro {mark : Mark} {name : Name} {value : Option Node} {failed : Bool}
      (spelled : good name.written = true) (given : ∀ n ∈ value, n.Expression good) :
      Binding good type (.mk mark (.binding type name value failed))

inductive Step (good : String → Bool) : Node → Prop where
  | ofExpression {n : Node} (h : n.Expression good) : Step good n
  | nop (mark : Mark) : Step good (.mk mark .nop)
  | assignment {mark : Mark} {n m : Node} {coerced failed : Bool} (target : n.Expression good)
      (value : m.Expression good) : Step good (.mk mark (.assignment n m coerced failed))
  | arrayDecl {mark : Mark} {type : Ty} {name : Name} {size : String} {failed : Bool}
      (written : type.isWritten = true) (spelled : good name.written = true)
      (sized : good size = true) : Step good (.mk mark (.arrayDecl type name size failed))
  | sizedArray {mark : Mark} {type : Ty} {name : Name} {n : Node} {failed : Bool}
      (written : type.isWritten = true) (spelled : good name.written = true)
      (sized : n.Expression good) :
      Step good (.mk mark (.arrayDecl type name (n.text 0) failed))
  | declaration {mark : Mark} {type : Ty} {kind symbolType : String} {ns : List Node}
      (written : type.isWritten = true) (bindings : ∀ n ∈ ns, n.Binding good type) :
      Step good (.mk mark (.declaration type kind symbolType ns))

inductive Statement (good : String → Bool) : Node → Prop where
  | ofStep {n : Node} (h : n.Step good) : Statement good n
  | ret {mark : Mark} {operand : Option Node} (given : ∀ n ∈ operand, n.Expression good) :
      Statement good (.mk mark (.ret operand))
  | block {mark : Mark} {title : String} {ns : List Node} (lines : ∀ n ∈ ns, Statement good n) :
      Statement good (.mk mark (.block title ns))
  | conditional {mark : Mark} {condition accepted : Node} {rejected : Option Node} {failed : Bool}
      (test : condition.Expression good) (first : Statement good accepted)
      (second : ∀ n ∈ rejected, Statement good n) :
      Statement good (.mk mark (.conditional condition accepted rejected failed))
  | loop {mark : Mark} {init update : Option Node} {test body : Node} {failed : Bool}
      (first : ∀ n ∈ init, n.Step good) (condition : test.Expression good)
      (next : ∀ n ∈ update, n.Step good) (lines : Statement good body) :
      Statement good (.mk mark (.loop init test update body failed))
  | function {line : Int} {returns : Ty} {name : Name} {params : List (Ty × Name)}
      {lines : Option (List Action)} {rejected : Bool} {body : Option Node}
      (proper : (Action.function returns name params lines).Proper)
      (spelled : ∀ s ∈ (Action.function returns name params lines).spellings, good s = true)
      (inside : ∀ n ∈ body, Statement good n) :
      Statement good (functionNode line returns name params rejected body)

def Stands (good : String → Bool) (n : Node) : Position → Prop
  | .expression | .size => n.Expression good
  | .header => n.Step good
  | .item | .statement => n.Statement good

variable {good : String → Bool} {n : Node}

theorem Expression.isDeclaration (h : n.Expression good) : n.isDeclaration = false := by
  cases h <;> rfl

theorem Expression.stands (h : n.Expression good) (position : Position) :
    n.Stands good position := by
  cases position with
  | expression | size => exact h
  | header => exact .ofExpression h
  | item | statement => exact .ofStep (.ofExpression h)

theorem Step.stands (h : n.Step good) {position : Position} {kind : Kind}
    (here : layout position kind) (other : kind.isExpression = false) :
    n.Stands good position := by
  cases position with
  | expression | size => cases here.symm.trans other
  | header => exact h
  | item | statement => exact .ofStep h

theorem Stands.statement {position : Position} (h : n.Stands good position) :
    n.Statement good := by
  cases position with
  | expression | size => exact .ofStep (.ofExpression h)
  | header => exact .ofStep h
  | item | statement => exact h

theorem Statement.stands (h : n.Statement good) {position : Position} {kind : Kind}
    (here : layout position kind) (other : kind.staysInHeader = false)
    (other' : kind.isExpression = false) : n.Stands good position := by
  cases position with
  | expression | size => cases here.symm.trans other'
  | header => cases here.symm.trans other
  | item | statement => exact h

end Node

section Made

variable {good : String → Bool} {action : Action} {items : List Action} {nodes : List Node}

theorem expression_operation {style : Style}
    (hs : ∀ target, style = .cast target → target.isWritten = true) (op : Op)
    (h : ∀ n ∈ nodes, n.Expression good) (mark : Mark) (c : Context) :
    Node.Expression good
      (.mk mark (Form.ofOperation style op none (nodes.map Node.seen) c).1) := by
  refine .operation hs ?_
  rwa [Node.map_fst_seen]

theorem expression_made (ho : action.operands? = some items) (hl : nodes.length = items.length)
    (hk : action.kind.isExpression = true) (proper : action.Proper)
    (own : ∀ s ∈ action.spellings, good s = true) (h : ∀ n ∈ nodes, n.Expression good)
    (c : Context) : (action.made nodes c).1.Expression good := by
  cases action <;> simp only [Action.operands?, reduceCtorEq, Option.some.injEq] at ho
  case «variable» name => exact .ofVariable (own _ (by simp [Action.spellings]))
  case constant type value => exact .ofConstant (own _ (by simp [Action.spellings]))
  case operation op operands =>
    exact expression_operation (fun target ht => absurd ht (styleOf_ne_cast op _ target)) _ h _ c
  case paren => exact expression_operation (by simp) _ h _ c
  case cast target operand =>
    refine expression_operation ?_ _ h _ c
    rintro _ ⟨⟩
    exact proper
  case call name args => exact .call (own _ (by simp [Action.spellings])) h
  case access name index =>
    subst ho
    obtain ⟨n, rfl⟩ := List.length_eq_one_iff.mp hl
    exact .access (own _ (by simp [Action.spellings])) (h n (by simp))
  case address | reference =>
    subst ho
    obtain ⟨n, rfl⟩ := List.length_eq_one_iff.mp hl
    exact .wrapper (h n (by simp))
  case arrayDecl | assign | ret | nop => cases hk

theorem stands_made {position : Position} (here : layout position action.kind)
    (ho : action.operands? = some items) (hl : nodes.length = items.length)
    (proper : action.Proper) (own : ∀ s ∈ action.spellings, good s = true)
    (h : ∀ n ∈ nodes, n.Expression good) (c : Context) :
    (action.made nodes c).1.Stands good position := by
  cases hk : action.kind.isExpression with
  | true => exact (expression_made ho hl hk proper own h c).stands position
  | false =>
    cases action <;> simp only [Action.operands?, reduceCtorEq, Option.some.injEq] at ho
    case arrayDecl type name size =>
      simp only [Action.spellings, List.forall_mem_cons] at own
      exact (Node.Step.arrayDecl proper own.1 own.2.1).stands here hk
    case assign =>
      subst ho
      obtain ⟨target, value, rfl⟩ := List.length_eq_two.mp hl
      exact (Node.Step.assignment (h target (by simp)) (h value (by simp))).stands here hk
    case ret =>
      exact (Node.Statement.ret fun n hn => h n (List.mem_of_mem_head? hn)).stands here rfl hk
    case nop => exact (Node.Step.nop _).stands here hk
    all_goals cases hk

end Made

namespace Action

def Places (good : String → Bool) (action : Action) (position : Position) : Prop :=
  ∀ (c d : Context) (t : List Event) (n : Node), Run (.one action) c t [n] d →
    n.Stands good position

variable {good : String → Bool} {c d : Context} {t : List Event} {ns : List Node}
  {position : Position}

theorem places_blocks {items : List (String × List Action)}
    (h : ∀ b ∈ items, ∀ a ∈ b.2, a.Places good .statement) (run : Run (.blocks items) c t ns d) :
    ∀ n ∈ ns, n.Statement good := by
  induction items generalizing c t ns with
  | nil =>
    cases run
    simp
  | cons b items ih =>
    obtain ⟨hb, hitems⟩ := List.forall_mem_cons.mp h
    cases run with
    | block inside _ others =>
      exact List.forall_mem_cons.mpr ⟨.block (inside.forall_nodes hb), ih hitems others⟩

theorem places_bindings {type : Ty} {items : List (Name × Option Action)}
    (words : ∀ b ∈ items, good b.1.written = true)
    (h : ∀ b ∈ items, ∀ a ∈ b.2.toList, a.Places good .expression)
    (run : Run (.bindings type items) c t ns d) : ∀ n ∈ ns, n.Binding good type := by
  induction items generalizing c t ns with
  | nil =>
    cases run
    simp
  | cons b items ih =>
    obtain ⟨hb, hitems⟩ := List.forall_mem_cons.mp h
    obtain ⟨word, words'⟩ := List.forall_mem_cons.mp words
    cases run with
    | @binding _ name value _ vs _ n _ _ _ _ _ _ _ given bound others =>
      have first : n.Binding good type := by
        cases bound
        have values := given.forall_nodes hb
        refine .intro word fun m hm => ?_
        cases vs with
        | nil => cases hm
        | cons v vs =>
          cases hm
          exact values v (by simp)
      exact List.forall_mem_cons.mpr ⟨first, ih words' hitems others⟩

theorem places_body {name : Name} {own : Option Symbol} {items : List Action}
    (h : ∀ a ∈ items, a.Places good .statement) (run : Run (.body name own items) c t ns d) :
    ∀ n ∈ ns, n.Statement good := by
  induction items generalizing c t ns with
  | nil =>
    cases run
    simp
  | cons a items ih =>
    obtain ⟨ha, hitems⟩ := List.forall_mem_cons.mp h
    cases run with
    | line head _ tail => exact List.forall_mem_cons.mpr ⟨ha _ _ _ _ head, ih hitems tail⟩

theorem Fits.places {action : Action} (h : action.Fits layout position)
    (words : action.Spells good) : action.Places good position := by
  induction h with
  | lined line _ ih =>
    intro c d t n run
    cases run with
    | check operands _ _ => cases operands
    | lined inner => exact ih (words.inside _ (List.mem_singleton_self _)) _ _ _ _ inner
  | @intro position action unlined here proper inside ih =>
    intro c d t n run
    have own := words.own
    have placed : ∀ part ∈ action.parts, part.2.Places good part.1 := fun part hp =>
      ih part hp (words.inside part hp)
    cases run with
    | lined _ => cases unlined
    | check operands _ inner =>
      have values := inner.forall_nodes fun a ha => placed _ (mem_parts_of_operands? operands ha)
      exact stands_made here operands (length_of_exec_buildAll (exec_of_run inner)) proper own
        values _
    | @declaration type kind symbolType items ns _ _ _ _ inner =>
      have bindings : ∀ n ∈ ns, n.Binding good type := by
        refine places_bindings (fun b hb => own _ (List.mem_map_of_mem hb)) (fun b hb a ha => ?_)
          inner
        exact placed (.expression, a) (List.mem_flatMap.mpr ⟨b, hb, List.mem_map_of_mem ha⟩)
      exact (Node.Step.declaration proper bindings).stands here rfl
    | @sizedArray type name size text m n _ _ _ _ _ inner render made =>
      have value : m.Expression good :=
        placed (.size, size) (List.mem_singleton_self _) _ _ _ _ inner
      have word := own name.written (List.mem_singleton_self _)
      cases made
      rw [Node.text_of_render render]
      exact (Node.Step.sizedArray proper word value).stands here rfl
    | @scope lines _ _ _ _ inner =>
      refine (places_blocks (List.forall_mem_singleton.mpr fun a ha => ?_) inner n
        (by simp)).stands here rfl rfl
      exact placed (.statement, a) (List.mem_map_of_mem ha)
    | @conditional condition accepted rejected m b _ bs _ _ _ _ _ _ test lines made =>
      have value : m.Expression good :=
        placed (.expression, condition) (by simp [parts]) _ _ _ _ test
      have blocks : ∀ x ∈ b :: bs, x.Statement good := by
        exact places_blocks
          (fun branch hb a ha => placed (.statement, a) (mem_parts_branches hb ha)) lines
      obtain ⟨first, others⟩ := List.forall_mem_cons.mp blocks
      cases made
      refine (Node.Statement.conditional value first fun x hx => ?_).stands here rfl rfl
      exact others x (List.mem_of_mem_head? hx)
    | @loop init update test body m b _ is us _ _ _ _ _ _ _ _ _ _ _ first condition next lines _
        made =>
      have value : m.Expression good :=
        placed (.expression, test) (by simp [parts]) _ _ _ _ condition
      have headers : ∀ a ∈ init.toList ++ update.toList, a.Places good .header := fun a ha =>
        placed (.header, a) (mem_parts_header ha)
      have inits := first.forall_nodes fun a ha => headers a (List.mem_append_left _ ha)
      have updates := next.forall_nodes fun a ha => headers a (List.mem_append_right _ ha)
      have block : b.Statement good := by
        refine places_blocks (List.forall_mem_singleton.mpr fun a ha => ?_) lines b (by simp)
        exact placed (.statement, a) (by simp [parts, ha])
      cases made
      exact (Node.Statement.loop (fun x hx => inits x (List.mem_of_mem_head? hx)) value
        (fun x hx => updates x (List.mem_of_mem_head? hx)) block).stands here rfl rfl
    | prototype => exact (Node.Statement.function proper own (by simp)).stands here rfl rfl
    | emptyBody =>
      refine (Node.Statement.function proper own ?_).stands here rfl rfl
      rintro _ ⟨⟩
      exact .block (List.forall_mem_singleton.mpr (.ofStep (.nop _)))
    | function _ _ lines _ =>
      refine (Node.Statement.function proper own ?_).stands here rfl rfl
      rintro _ ⟨⟩
      exact .block (places_body (fun a ha => placed (.statement, a) (List.mem_map_of_mem ha)) lines)

end Action

def isInner (c : Char) : Bool := c ≠ '\n' && c ≠ ';'

theorem isInner_of_isLetter {c : Char} (h : isLetter c = true) : isInner c = true := by
  simp_all [isLetter, isPlain, isInner]

namespace Fabric

def ofClass (p : Char → Bool) (inner : ∀ c, isInner c = true → p c = true) (empty : Bool) :
    Fabric where
  Within s := s.all p = true
  Begins s := s.all p = true ∧ (empty = true ∨ s ≠ [])
  within h := h.1
  letters h := List.all_eq_true.mpr fun c hc =>
    inner c (isInner_of_isLetter (List.all_eq_true.mp h c hc))
  word _ h := ⟨List.all_eq_true.mpr fun c hc =>
    inner c (isInner_of_isLetter (List.all_eq_true.mp h c hc)), .inr (by simp)⟩
  append hs ht := by rw [List.all_append, hs, ht]; rfl
  extend hs ht := ⟨by rw [List.all_append, hs.1, ht]; rfl, hs.2.imp_right (by simp_all)⟩
  parens h := ⟨by simp [h, inner '(' rfl, inner ')' rfl], .inr (by simp)⟩
  square h := by simp [h, inner '[' rfl, inner ']' rfl]
  cutFront h _ := by
    rw [List.all_append, Bool.and_eq_true] at h
    exact h.2
  cutEnd h _ := by
    rw [List.all_append, Bool.and_eq_true] at h
    exact h.1

def Takes (F : Fabric) (good : String → Bool) : Prop := ∀ s, good s = true → F.Begins s.toList

variable (F : Fabric)

theorem spelling {type : Ty} (h : type.isWritten = true) : F.Begins type.spelling.toList := by
  cases type <;> simp only [Ty.isWritten, Bool.false_eq_true] at h
  all_goals exact F.word (by decide) (by decide)

theorem style {style : Style} (h : ∀ target, style = .cast target → target.isWritten = true)
    (op : Op) : F.Within (style.glyph op).toList ∧ F.Within (style.before op).toList := by
  have glyph : F.Within (op.glyph?.getD "").toList := F.letters (by cases op <;> decide)
  cases style with
  | cast target =>
    have name : F.Within ("[" ++ target.spelling ++ "]").toList := by
      simpa using F.square (F.within (F.spelling (h target rfl)))
    refine ⟨name, ?_⟩
    simpa [Style.before, Style.glyph] using F.append name (F.letters (s := [' ']) rfl)
  | paren => exact ⟨F.nil, F.nil⟩
  | negation =>
    have minus : F.Within "-".toList := F.letters (by decide)
    exact ⟨minus, minus⟩
  | plain | comparison | connective => exact ⟨glyph, glyph⟩

end Fabric

namespace Node

structure Flat (F : Fabric) (n : Node) : Prop where
  indented : ∀ depth, (n.text depth).toList = (indentation depth).toList ++ (n.text 0).toList
  row : F.Begins (n.text 0).toList

variable {F : Fabric} {good : String → Bool}

theorem Flat.intro {n : Node} {s : List Char} (hs : F.Begins s)
    (h : ∀ depth, (n.text depth).toList = (indentation depth).toList ++ s) : n.Flat F := by
  have here : (n.text 0).toList = s := h 0
  exact ⟨fun depth => by rw [h, here], by rw [here]; exact hs⟩

theorem Flat.within {n : Node} (h : n.Flat F) : F.Within (n.text 0).toList := F.within h.row

theorem within_items {between : List Char} (hb : F.Within between) {ns : List Node}
    (h : ∀ n ∈ ns, n.Flat F) (coerced : Nat → Bool) :
    F.Within (between.intercalate (markParts coerced 0 (ns.map fun n => (n.text 0).toList))) :=
  F.intercalate hb (F.markParts (List.forall_mem_map.mpr fun n hn => (h n hn).within) coerced 0)

theorem Expression.flat (takes : F.Takes good) {n : Node} (h : n.Expression good) : n.Flat F := by
  induction h with
  | ofVariable spelled => exact .intro (takes _ spelled) fun depth => by simp [text, reports]
  | ofConstant spelled => exact .intro (takes _ spelled) fun depth => by simp [text, reports]
  | @operation mark style op ns expected result coerced failed written _ ih =>
    obtain ⟨glyph, before⟩ := F.style written op
    have between : F.Within (" " ++ style.glyph op ++ " ").toList := by
      have blank : F.Within [' '] := F.letters rfl
      simpa using F.append blank (F.append glyph blank)
    have first : F.Within (if ns.length = 1 then style.before op else "").toList := by
      split
      · exact before
      · exact F.nil
    refine .intro (F.parens (F.append first (within_items between ih coerced.contains))) ?_
    intro depth
    rw [toList_text_operation]
    simp
  | @call mark list name ns type coerced failed spelled _ ih =>
    have comma : F.Within ", ".toList := F.letters (by decide)
    refine .intro (F.extend (takes _ spelled)
      (F.within (F.parens (within_items comma ih coerced.contains)))) fun depth => ?_
    rw [toList_text_call]
    simp
  | @access mark name n type failed spelled _ ih =>
    exact .intro (F.extend (takes _ spelled) (F.square ih.within)) fun depth => by
      simp [text, reports]
  | @wrapper mark wrap n type failed _ ih =>
    cases wrap with
    | plain => exact .intro ih.row fun depth => by simp [text, reports, Wrap.glyph]
    | address =>
      have sign : F.Begins ['&'] := F.word (by decide) rfl
      exact .intro (F.extend sign ih.within) fun depth => by simp [text, reports, Wrap.glyph]
    | reference =>
      have sign : F.Begins ['*'] := F.word (by decide) rfl
      exact .intro (F.extend sign ih.within) fun depth => by simp [text, reports, Wrap.glyph]

def Ended (F : Fabric) (n : Node) : Prop :=
  ∃ s, F.Begins s ∧ ∀ depth, (n.text depth).toList = (indentation depth).toList ++ (s ++ [';'])

def boundText : Node → List Char
  | .mk _ (.binding _ name value _) =>
    name.written.toList ++ (value.map fun n => " = ".toList ++ (n.text 0).toList).getD []
  | _ => []

section Ended

variable {mark : Mark} {type : Ty} {failed : Bool} {n m : Node}

theorem Ended.flat (semicolon : F.Within [';']) (h : n.Ended F) : n.Flat F := by
  obtain ⟨s, row, text⟩ := h
  exact .intro (F.extend row semicolon) text

theorem Ended.assignment (takes : F.Takes good) {coerced : Bool} (target : n.Expression good)
    (value : m.Expression good) : Ended F (.mk mark (.assignment n m coerced failed)) := by
  have equals : F.Within " = ".toList := F.letters (by decide)
  have row := F.extend (target.flat takes).row
    (F.append equals (F.append (F.markIf coerced) (value.flat takes).within))
  refine ⟨_, row, fun depth => ?_⟩
  cases coerced <;> simp [text, reports, markIf]

theorem begins_typed (written : type.isWritten = true) {s : List Char} (h : F.Within s) :
    F.Begins (type.spelling.toList ++ ([' '] ++ s)) :=
  F.extend (F.spelling written) (F.append (F.letters rfl) h)

theorem Ended.arrayDecl (takes : F.Takes good) {name : Name} {size : String}
    (written : type.isWritten = true) (spelled : good name.written = true)
    (sized : F.Within size.toList) : Ended F (.mk mark (.arrayDecl type name size failed)) :=
  ⟨_, begins_typed written (F.append (F.within (takes _ spelled)) (F.square sized)),
    fun depth => by simp [text, reports]⟩

theorem Ended.ret (takes : F.Takes good) {operand : Option Node}
    (given : ∀ n ∈ operand, n.Expression good) : Ended F (.mk mark (.ret operand)) := by
  cases operand with
  | none =>
    exact ⟨"return".toList, F.word (by decide) (by decide), fun depth => by simp [text, reports]⟩
  | some n =>
    have word : F.Begins "return ".toList := F.word (by decide) (by decide)
    exact ⟨_, F.extend word ((given n rfl).flat takes).within, fun depth => by
      simp [text, reports, optionReports]⟩

theorem Binding.toList_text (h : n.Binding good type) (depth : Int) :
    (n.text depth).toList =
      (indentation depth).toList ++ ((type.spelling ++ " ").toList ++ (n.boundText ++ [';'])) := by
  cases h with
  | @intro _ _ value _ _ _ => cases value <;> simp [text, reports, optionReports, boundText]

theorem Binding.within (takes : F.Takes good) (h : n.Binding good type) :
    F.Within n.boundText := by
  cases h with
  | @intro _ _ value _ spelled given =>
    refine F.append (F.within (takes _ spelled)) ?_
    cases value with
    | none => exact F.nil
    | some v => exact F.append (F.letters (by decide)) ((given v rfl).flat takes).within

theorem Binding.ended (takes : F.Takes good) (written : type.isWritten = true)
    (h : n.Binding good type) : n.Ended F :=
  ⟨_, begins_typed written (h.within takes), fun depth => by simp [h.toList_text]⟩

end Ended

end Node
end Treewright
