import Treewright.Proofs.Account
import Treewright.Proofs.Divergence
import Treewright.Proofs.Format
import Treewright.Proofs.Sessions
set_option autoImplicit false

namespace Treewright

open Build

namespace Node

def isBlock : Node → Bool
  | .mk _ (.block _ _) => true
  | _ => false

def lines : Node → List Node
  | .mk _ (.block _ lines) => lines
  | _ => []

mutual
/-- The rows that a node takes up in the text around it. A declaration takes one for each name, and
a block is laid out row by row when it counts, which `nested` says. -/
def rows (nested : Bool) : Node → List Node
  | .mk _ .nop => []
  | .mk _ (.block _ lines) => if nested then rowsAll nested lines else []
  | .mk _ (.declaration _ _ _ (binding :: bindings)) => binding :: bindings
  | n => [n]

def rowsAll (nested : Bool) : List Node → List Node
  | [] => []
  | n :: ns => n.rows nested ++ rowsAll nested ns
end

def declares? : Node → Option Name
  | .mk _ (.binding _ name _ _) => some name
  | .mk _ (.arrayDecl _ name _ _) => some name
  | _ => none

def declaredIn (rows : List Node) : List Name := rows.filterMap declares?

theorem rowsAll_eq_flatMap (nested : Bool) (ns : List Node) :
    rowsAll nested ns = ns.flatMap (rows nested) := by
  induction ns with
  | nil => rfl
  | cons n ns ih => rw [rowsAll, ih, List.flatMap_cons]

def onNextLine (depth : Int) (n : Node) : List Char := "\n".toList ++ (n.text depth).toList

theorem toList_text_block (mark : Mark) (title : String) (lines : List Node) (depth : Int) :
    (text (.mk mark (.block title lines)) depth).toList = "\n".toList.intercalate
      ((lines.filter (!·.isEmpty)).map fun n => (n.text depth).toList) := by
  simp only [text, reports, lineReports_eq_map, toList_codeText_joinReports, List.map_map]
  rfl

theorem toList_text_declaration (mark : Mark) (type : Ty) (kind symbolType : String)
    (bindings : List Node) (depth : Int) :
    (text (.mk mark (.declaration type kind symbolType bindings)) depth).toList =
      "\n".toList.intercalate (bindings.map fun n => (n.text depth).toList) := by
  simp only [text, reports, reportsAll_eq_map, toList_codeText_joinReports, List.map_map]
  rfl

theorem onNextLine_eq_flatMap {n : Node} {depth : Int} {parts : List Node} (hp : parts ≠ [])
    (h : (n.text depth).toList = "\n".toList.intercalate
      (parts.map fun m => (m.text depth).toList)) :
    onNextLine depth n = parts.flatMap (onNextLine depth) := by
  rw [onNextLine, h, append_intercalate (by simpa using hp), List.flatMap_map]
  rfl

theorem flatMap_filter_nonempty (depth : Int) (lines : List Node) :
    (lines.filter (!·.isEmpty)).flatMap (onNextLine depth) =
      lines.flatMap fun n => if n.isEmpty then [] else onNextLine depth n := by
  induction lines with
  | nil => rfl
  | cons n lines ih => cases h : n.isEmpty <;> simp [h, ih]

theorem flatMap_rows (depth : Int) (n : Node) :
    (n.rows true).flatMap (onNextLine depth) = if n.isEmpty then [] else onNextLine depth n := by
  obtain ⟨mark, form⟩ := n
  cases form with
  | nop => rfl
  | block title lines =>
    have ih : ∀ line ∈ lines, (line.rows true).flatMap (onNextLine depth) =
        if line.isEmpty then [] else onNextLine depth line :=
      fun line hline => flatMap_rows depth line
    have hlines : (rowsAll true lines).flatMap (onNextLine depth) =
        (lines.filter (!·.isEmpty)).flatMap (onNextLine depth) := by
      rw [rowsAll_eq_flatMap, List.flatMap_assoc, flatMap_filter_nonempty]
      exact List.flatMap_congr ih
    rw [rows, if_pos rfl, hlines, isEmpty]
    cases hempty : allEmpty lines with
    | true =>
      have hnone : lines.filter (!·.isEmpty) = [] := by
        simpa [allEmpty_eq_all] using hempty
      simp [hnone]
    | false =>
      have hsome : lines.filter (!·.isEmpty) ≠ [] := by
        simpa [allEmpty_eq_all] using hempty
      rw [onNextLine_eq_flatMap hsome (toList_text_block mark title lines depth)]
      simp
  | declaration type kind symbolType bindings =>
    cases bindings with
    | nil => simp [rows, isEmpty]
    | cons binding bindings =>
      have htext := toList_text_declaration mark type kind symbolType (binding :: bindings) depth
      rw [onNextLine_eq_flatMap (by simp) htext]
      simp [rows, isEmpty]
  | _ => simp [rows, isEmpty]
termination_by sizeOf n
decreasing_by
  have hlt := List.sizeOf_lt_of_mem hline
  simp only [mk.sizeOf_spec, Form.block.sizeOf_spec]
  omega

theorem toList_text_rows (n : Node) (depth : Int) :
    (n.text depth).toList = "\n".toList.intercalate
      ((n.rows true).map fun row => (row.text depth).toList) := by
  have hrows := flatMap_rows depth n
  cases hempty : n.isEmpty with
  | true =>
    have hnone : n.rows true = [] := by
      cases hr : n.rows true with
      | nil => rfl
      | cons row rows => simp [hr, hempty, onNextLine] at hrows
    simp [hnone, text_of_isEmpty hempty]
  | false =>
    have hsome : n.rows true ≠ [] := by
      intro hnone
      simp [hnone, hempty, onNextLine] at hrows
    have hjoin : "\n".toList ++ (n.text depth).toList = "\n".toList ++ "\n".toList.intercalate
        ((n.rows true).map fun row => (row.text depth).toList) := by
      rw [append_intercalate (by simpa using hsome), List.flatMap_map]
      rw [hempty] at hrows
      exact hrows.symm
    exact List.append_cancel_left hjoin

end Node

def Table.Apart (t : Table) : Prop :=
  ∀ scope ∈ t.scopes, scope.values.Pairwise fun r s => r.name.same s.name = false

namespace Table.Apart

variable {t : Table}

theorem empty : Table.Apart {} := by
  intro scope hs
  rw [List.mem_singleton.mp hs]
  exact .nil

theorem enter (h : t.Apart) (name : Name) : (t.enter name).Apart := by
  intro scope hs
  rcases List.mem_cons.mp hs with rfl | hs
  · exact .nil
  · exact h scope hs

theorem addVariable (h : t.Apart) {name : Name} (type : Ty) (line : Int)
    (fresh : t.inner.variableNamed name = none) : (t.addVariable name type line).Apart := by
  intro scope hs
  rcases List.mem_cons.mp hs with rfl | hs
  · have hinner := h t.inner (by simp [Table.scopes])
    refine List.pairwise_append.mpr ⟨hinner, List.pairwise_singleton _ _, fun r hr s hs => ?_⟩
    rw [List.mem_singleton.mp hs]
    simpa using List.find?_eq_none.mp fresh r hr
  · exact h scope (List.mem_cons_of_mem _ hs)

end Table.Apart

theorem steps_apart : Steps fun c d => c.table.Apart → d.table.Apart where
  refl _ h := h
  trans h h' hs := h' (h hs)
  advance _ _ h := h
  report _ _ h := h
  declare c name type line _ h := by
    rcases c.declare_cases name type line with ⟨fresh, he⟩ | ⟨-, he⟩
    · rw [he]
      exact h.addVariable type line fresh
    · rw [he]
      exact h
  declareFunction c name params returns line _ _ h := by
    rcases c.declareFunction_cases name params returns line with ⟨-, he⟩ | ⟨s, -, ⟨-, he⟩ | ⟨-, he⟩⟩
    · rw [he]
      intro scope hs
      rcases List.mem_cons.mp hs with rfl | hs
      · exact h c.table.inner (by simp [Table.scopes])
      · exact h scope (List.mem_cons_of_mem _ hs)
    · rw [he]
      exact h
    · rw [he]
      exact h
  define {c name table} hd h := by
    rw [Table.define?_eq] at hd
    obtain ⟨s, -, rfl⟩ := Option.map_eq_some_iff.mp hd
    unfold Table.mark
    split <;> exact h
  scope {c d e name} h hl hs := by
    obtain ⟨scope, outer, ho, rfl⟩ := Context.leave?_eq hl
    intro s hm
    have happart := h (hs.enter name) s
    rw [Table.scopes, ho] at happart
    exact happart (List.mem_cons_of_mem _ hm)

/-- Between the two contexts the innermost scope got new variables. Among them are those of the
given names, which are texts. -/
structure Introduced (names : List Name) (c d : Context) : Prop where
  texts : ∀ name ∈ names, name.isText = true
  grown : ∃ new, d.table.inner.values = c.table.inner.values ++ new ∧
    names.Sublist (new.map (·.name))

namespace Introduced

variable {c d e : Context} {names names' : List Name}

theorem of_values (h : d.table.inner.values = c.table.inner.values) : Introduced [] c d :=
  ⟨by simp, [], by simp [h], by simp⟩

theorem trans (h : Introduced names c d) (h' : Introduced names' d e) :
    Introduced (names ++ names') c e := by
  obtain ⟨new, hnew, hnames⟩ := h.grown
  obtain ⟨new', hnew', hnames'⟩ := h'.grown
  refine ⟨fun name hn => ?_, new ++ new', by simp [hnew', hnew], ?_⟩
  · exact (List.mem_append.mp hn).elim (h.texts name) (h'.texts name)
  · rw [List.map_append]
    exact hnames.append hnames'

theorem forget (h : Introduced names c d) : Introduced [] c d := by
  obtain ⟨new, hnew, -⟩ := h.grown
  exact ⟨by simp, new, hnew, by simp⟩

theorem declare {name : Name} {type : Ty} {line : Int} (text : name.isText = true)
    (quiet : reported .node c (c.declare name type line).2 = []) :
    Introduced [name] c (c.declare name type line).2 := by
  have hdeclared : (c.declare name type line).1 = true := by
    rw [← Bool.not_eq_false, ← blamed_declare, quiet]
    exact blamed_nil
  rcases c.declare_cases name type line with ⟨-, he⟩ | ⟨-, he⟩
  · rw [he]
    exact ⟨by simpa using text, [_], rfl, by simp⟩
  · rw [he] at hdeclared
    cases hdeclared

theorem nodup (h : Introduced names c d) (apart : d.table.Apart) :
    (names.map Name.written).Nodup := by
  obtain ⟨new, hnew, hnames⟩ := h.grown
  have hvalues := apart d.table.inner (by simp [Table.scopes])
  rw [hnew] at hvalues
  have hpairs : names.Pairwise fun a b => a.same b = false :=
    (List.pairwise_map.mpr (List.pairwise_append.mp hvalues).2.1).sublist hnames
  refine List.pairwise_map.mpr (hpairs.imp_of_mem fun {a b} ha hb hab => ?_)
  have hta := h.texts a ha
  have htb := h.texts b hb
  cases a <;> cases b <;> simp_all [Name.isText, Name.same]

end Introduced

def Form.bodies {ν : Type} : Form ν → List ν
  | .conditional _ accepted rejected _ => accepted :: rejected.toList
  | .loop _ _ _ body _ => [body]
  | .function _ _ _ body _ => body.toList
  | _ => []

/-- What stands between braces is a block, and the rows that are a block's own declare each name
once. -/
structure Node.Orderly (n : Node) : Prop where
  bodies : ∀ body ∈ n.form.bodies, body.isBlock = true
  apart : ((declaredIn (rowsAll false n.lines)).map Name.written).Nodup

structure Laid (ns : List Node) (c d : Context) : Prop where
  introduced : Introduced (Node.declaredIn (Node.rowsAll false ns)) c d
  orderly : ∀ n ∈ ns, n.Every Node.Orderly

namespace Node.Orderly

variable {n : Node}

theorem of_bodies (bodies : ∀ body ∈ n.form.bodies, body.isBlock = true) (lines : n.lines = []) :
    n.Orderly := by
  refine ⟨bodies, ?_⟩
  rw [lines]
  exact .nil

theorem of_plain (bodies : n.form.bodies = []) (lines : n.lines = []) : n.Orderly :=
  .of_bodies (by simp [bodies]) lines

end Node.Orderly

namespace Laid

variable {c d e : Context} {n : Node} {ns : List Node}

theorem nil (c : Context) : Laid [] c c := ⟨.of_values rfl, by simp⟩

theorem cons (h : Laid [n] c d) (h' : Laid ns d e) : Laid (n :: ns) c e := by
  refine ⟨?_, fun m hm => ?_⟩
  · have hi := h.introduced.trans h'.introduced
    simpa [Node.rowsAll, Node.declaredIn] using hi
  · rcases List.mem_cons.mp hm with rfl | hm
    · exact h.orderly m (by simp)
    · exact h'.orderly m hm

theorem one {names : List Name} (hn : Node.declaredIn (n.rows false) = names)
    (h : Introduced names c d) (orderly : n.Every Node.Orderly) : Laid [n] c d := by
  refine ⟨?_, by simpa using orderly⟩
  simpa [Node.rowsAll, hn] using h

theorem block (h : Laid ns c d) (apart : d.table.Apart) (title : String) :
    (Build.block title ns).Every Node.Orderly :=
  .intro ⟨by simp [Build.block, Node.form, Form.bodies], h.introduced.nodup apart⟩ h.orderly

theorem forget (h : Laid ns c d) : Introduced [] c d := h.introduced.forget

theorem of_values (h : Laid ns c d) (hv : e.table.inner.values = d.table.inner.values) :
    Laid ns c e := by
  refine ⟨?_, h.orderly⟩
  simpa using h.introduced.trans (.of_values hv)

theorem head? (h : Laid ns c d) : ∀ m ∈ ns.head?, m.Every Node.Orderly :=
  fun m hm => h.orderly m (List.mem_of_head? hm)

end Laid

theorem declaredIn_made {action : Action} {items : List Action} (ho : action.operands? = some items)
    (ns : List Node) (c : Context) :
    Node.declaredIn ((action.made ns c).1.rows false) = action.declares := by
  unfold Action.made
  split
  case h_13 =>
    cases action with
    | declaration | sizedArray => cases ho
    | arrayDecl => simp_all
    | _ => rfl
  all_goals rfl

theorem plain_made (action : Action) (ns : List Node) (c : Context) :
    (action.made ns c).1.form.bodies = [] ∧ (action.made ns c).1.lines = [] := by
  unfold Action.made
  split <;> exact ⟨rfl, rfl⟩

theorem introduced_made {action : Action} {items : List Action} (ho : action.operands? = some items)
    (texts : ∀ name ∈ action.declares, name.isText = true) {ns : List Node} {c : Context}
    (quiet : reported .node c (action.made ns c).2 = []) :
    Introduced action.declares c (action.made ns c).2 := by
  cases action with
  | arrayDecl type name size => exact .declare (texts name (by simp [Action.declares])) quiet
  | declaration | sizedArray => cases ho
  | _ =>
    rcases made_cases _ ns c with ⟨problems, hm⟩ | ⟨type, name, size, he, -⟩
    · rw [hm]
      exact .of_values rfl
    · cases he

theorem introduced_bound {type : Ty} (proper : type.isWritten = true) {name : Name}
    (text : name.isText = true) {value : Option Node} {c : Context}
    (quiet : reported .node c (boundNode type name value c).2 = []) :
    Introduced [name] c (boundNode type name value c).2 := by
  obtain ⟨problems, hb⟩ : ∃ problems,
      (boundNode type name value c).2 = (c.declare name type c.line).2.report problems := ⟨_, rfl⟩
  have hdeclare := (steps_extends.declare c name c.line (.plain proper)).log
  have hreport := (Context.Extends.report (c.declare name type c.line).2 problems).log
  rw [hb, reported_trans hdeclare hreport, List.append_eq_nil_iff] at quiet
  rw [hb]
  exact (Introduced.declare text quiet.1).trans (.of_values rfl)

theorem isBlock_of_run {items : List (String × List Action)} {c d : Context} {t : List Event}
    {ns : List Node} (h : Run (.blocks items) c t ns d) : ∀ n ∈ ns, n.isBlock = true := by
  induction items generalizing c t ns with
  | nil =>
    cases h
    simp
  | cons item items ih =>
    cases h with
    | block _ _ others =>
      intro n hn
      rcases List.mem_cons.mp hn with rfl | hn
      · rfl
      · exact ih others n hn

theorem isBlock_of_mem_branches {n b : Node} {bs : List Node} {c : Context}
    (blocks : ∀ k ∈ b :: bs, k.isBlock = true) :
    ∀ body ∈ (conditionalNode n b bs.head? c).1.form.bodies, body.isBlock = true := by
  intro body hm
  change body ∈ b :: bs.head?.toList at hm
  rcases List.mem_cons.mp hm with rfl | hm
  · exact blocks body (List.mem_cons_self ..)
  · exact blocks body (List.mem_cons_of_mem _ (List.mem_of_head? (Option.mem_toList.mp hm)))

theorem rowsAll_of_run {type : Ty} {items : List (Name × Option Action)} {c d : Context}
    {t : List Event} {ns : List Node} (h : Run (.bindings type items) c t ns d) :
    Node.rowsAll false ns = ns := by
  induction items generalizing c t ns with
  | nil =>
    cases h
    rfl
  | cons item items ih =>
    cases h with
    | binding _ _ bound others =>
      obtain ⟨rfl, rfl⟩ := Prod.ext_iff.mp bound
      rw [Node.rowsAll, ih others]
      rfl

namespace Laid

variable {c d e f : Context}

theorem conditional {n b m : Node} {bs : List Node} (hn : Laid [n] c d) (hb : Laid (b :: bs) d e)
    (blocks : ∀ k ∈ b :: bs, k.isBlock = true) (made : conditionalNode n b bs.head? e = (m, f)) :
    Laid [m] c f := by
  obtain ⟨rfl, rfl⟩ := Prod.ext_iff.mp made
  have horderly : (conditionalNode n b bs.head? e).1.Orderly :=
    .of_bodies (isBlock_of_mem_branches blocks) rfl
  refine .one rfl ((hn.forget.trans hb.forget).trans (.of_values rfl)) ?_
  exact .conditional horderly (hn.orderly n (by simp)) (hb.orderly b (by simp)) fun k hk =>
    hb.orderly k (List.mem_cons_of_mem _ (List.mem_of_head? hk))

theorem loop {c₁ c₂ c₃ c₄ : Context} {is us : List Node} {n b m : Node} (hi : Laid is c c₁)
    (hn : Laid [n] c₁ c₂) (hu : Laid us c₂ c₃) (hb : Laid [b] c₃ c₄) (block : b.isBlock = true)
    (closed : e.table.inner.values = d.table.inner.values)
    (made : loopNode is.head? n us.head? b e = (m, f)) : Laid [m] d f := by
  obtain ⟨rfl, rfl⟩ := Prod.ext_iff.mp made
  have horderly : (loopNode is.head? n us.head? b e).1.Orderly :=
    .of_bodies (fun body hm => by rwa [List.mem_singleton.mp hm]) rfl
  refine .one rfl (.of_values closed) ?_
  exact .loop horderly hi.head? (hn.orderly n (by simp)) hu.head? (hb.orderly b (by simp))

theorem function {line : Int} {returns : Ty} {name : Name} {params : List (Ty × Name)}
    {rejected : Bool} {body : Option Node} (blocks : ∀ b ∈ body, b.isBlock = true)
    (orderly : ∀ b ∈ body, b.Every Node.Orderly)
    (closed : d.table.inner.values = c.table.inner.values) :
    Laid [functionNode line returns name params rejected body] c d := by
  have hbodies : (functionNode line returns name params rejected body).Orderly :=
    .of_bodies (fun b hb => blocks b (Option.mem_toList.mp hb)) rfl
  exact .one rfl (.of_values closed) (.function hbodies (.of_plain rfl rfl) orderly)

end Laid

structure Task.Textual (task : Task) : Prop where
  actions : ∀ a ∈ task.actions, a.Textual
  names : ∀ type items, task = .bindings type items → ∀ b ∈ items, b.1.isText = true

namespace Task.Textual

theorem all {items : List Action} (h : ∀ a ∈ items, a.Textual) : (Task.all items).Textual :=
  ⟨h, fun _ _ he => by cases he⟩

theorem one {action : Action} (h : action.Textual) : (Task.one action).Textual :=
  ⟨by simpa [Task.actions] using h, fun _ _ he => by cases he⟩

theorem blocks {items : List (String × List Action)} (h : ∀ b ∈ items, ∀ a ∈ b.2, a.Textual) :
    (Task.blocks items).Textual := by
  refine ⟨fun a ha => ?_, fun _ _ he => by cases he⟩
  obtain ⟨b, hb, ha⟩ := List.mem_flatMap.mp ha
  exact h b hb a ha

theorem body {name : Name} {own : Option Symbol} {items : List Action}
    (h : ∀ a ∈ items, a.Textual) : (Task.body name own items).Textual :=
  ⟨h, fun _ _ he => by cases he⟩

theorem bindings {type : Ty} {kind symbolType : String} {items : List (Name × Option Action)}
    (h : (Action.declaration type kind symbolType items).Textual) :
    (Task.bindings type items).Textual := by
  refine ⟨fun a ha => ?_, fun _ _ he b hb => ?_⟩
  · obtain ⟨b, hb, hm⟩ := List.mem_flatMap.mp ha
    exact h.inside (.expression, a) (Action.mem_parts_binding hb hm)
  · cases he
    exact h.own b.1 (List.mem_map.mpr ⟨b, hb, rfl⟩)

theorem branches {condition : Action} {accepted : List Action} {rejected : Option (List Action)}
    (h : (Action.conditional condition accepted rejected).Textual) :
    (Task.blocks (branches accepted rejected)).Textual := by
  exact .blocks fun b hb a ha => h.inside (.statement, a) (mem_parts_branches hb ha)

end Task.Textual

theorem Action.Textual.loop {init update : Option Action} {test : Action} {body : List Action}
    (h : (Action.loop init test update body).Textual) :
    (∀ a ∈ init.toList, a.Textual) ∧ test.Textual ∧ (∀ a ∈ update.toList, a.Textual) ∧
      ∀ a ∈ body, a.Textual := by
  refine ⟨fun a ha => h.inside (.header, a) ?_, h.inside (.expression, test) ?_,
    fun a ha => h.inside (.header, a) ?_, fun a ha => h.inside (.statement, a) ?_⟩
  all_goals simp_all [Action.parts]

theorem quiet_append {t t' : List Event} (h : diagnosticsOf (t ++ t') = []) :
    diagnosticsOf t = [] ∧ diagnosticsOf t' = [] := by
  rwa [diagnosticsOf_append, List.append_eq_nil_iff] at h

theorem values_bind {c d : Context} {returns : Ty} {name : Name} {params : List (Ty × Name)}
    {own : Option Symbol} (h : c.bind returns name params = (own, d)) :
    d.table.inner.values = c.table.inner.values := by
  rcases c.bind_cases returns name params with ⟨-, he⟩ | ⟨s, -, ⟨-, he⟩ | ⟨-, he⟩⟩
  all_goals
    cases he.symm.trans h
    rfl

theorem Run.laid {task : Task} {c d : Context} {t : List Event} {ns : List Node}
    (h : Run task c t ns d) (apart : c.table.Apart) (quiet : diagnosticsOf t = [])
    (textual : task.Textual) : Laid ns c d := by
  -- An initial value, a condition or an operand may declare names as well. They go into the same
  -- scope, though no row declares them, so the rows name only some of what was introduced.
  induction h with
  | nil | noBlock | noBinding | noLine => exact .nil _
  | cons head tail ih ih' =>
    obtain ⟨hq, hq'⟩ := quiet_append quiet
    have htexts := textual.actions
    refine .cons (ih apart hq (.one (htexts _ (by simp [Task.actions])))) (ih' ?_ hq' ?_)
    · exact head.respects steps_apart apart
    · exact .all fun a ha => htexts a (by simp [Task.actions, ha])
  | @block title lines rest ns ms c d e f t t' inside leave others ih ih' =>
    obtain ⟨hq, hq'⟩ := quiet_append quiet
    have htexts := textual.actions
    simp only [Task.actions, List.flatMap_cons, List.mem_append] at htexts
    have hin := ih (apart.enter _) hq (.all fun a ha => htexts a (.inl ha))
    have hd := inside.respects steps_apart (apart.enter _)
    have hvalues := (Context.inner_leave inside.extends leave).1
    refine .cons (.one rfl (.of_values (by rw [hvalues])) (hin.block hd title)) (ih' ?_ hq' ?_)
    · exact steps_apart.scope (inside.respects steps_apart) leave apart
    · exact ⟨fun a ha => htexts a (.inr ha), fun _ _ he => by cases he⟩
  | @binding type name value rest vs ns n c d e f t t' proper given bound others ih ih' =>
    obtain ⟨hq, hothers⟩ := quiet_append quiet
    obtain ⟨hgiven, hbound⟩ := quiet_append hq
    have htexts := textual.actions
    simp only [Task.actions, List.flatMap_cons, List.mem_append] at htexts
    have hnames := textual.names type _ rfl
    have he := steps_apart.boundNode proper bound (given.respects steps_apart apart)
    have hvalue := ih apart hgiven (.all fun a ha => htexts a (.inl ha))
    obtain ⟨rfl, rfl⟩ := Prod.ext_iff.mp bound
    have hname := introduced_bound proper (hnames (name, value) (by simp))
      (diagnosticsOf_reported_eq_nil.mp hbound)
    refine .cons (.one rfl (hvalue.forget.trans hname) ?_) (ih' he hothers ?_)
    · exact .bound (.of_plain rfl rfl) hvalue.head?
    · refine ⟨fun a ha => htexts a (.inr ha), fun _ _ heq b hb => hnames b ?_⟩
      cases heq
      exact List.mem_cons_of_mem _ hb
  | line head mark tail ih ih' =>
    obtain ⟨hq, htail⟩ := quiet_append quiet
    obtain ⟨hhead, -⟩ := quiet_append hq
    have htexts := textual.actions
    have hn := ih apart hhead (.one (htexts _ (by simp [Task.actions])))
    refine .cons (hn.of_values (by rw [inner_of_mark mark])) (ih' ?_ htail ?_)
    · exact steps_apart.mark mark (head.respects steps_apart apart)
    · exact .body fun a ha => htexts a (by simp [Task.actions, ha])
  | @lined line a ns c d t inner ih =>
    have ha : (Action.lined line a).Textual := textual.actions _ (by simp [Task.actions])
    have hn := ih apart quiet (.one (ha.inside (.item, a) (by simp [Action.parts])))
    exact ⟨⟨hn.introduced.texts, hn.introduced.grown⟩, hn.orderly⟩
  | @check action items ns c d t operands proper inner ih =>
    obtain ⟨hinner, hchecked⟩ := quiet_append quiet
    rw [diagnosticsOf_checked, diagnosticsOf_reported_eq_nil] at hchecked
    have ha : action.Textual := textual.actions _ (by simp [Task.actions])
    have hn := ih apart hinner
      (.all fun a hm => ha.inside _ (Action.mem_parts_of_operands? operands hm))
    have hmade := introduced_made operands ha.own hchecked
    obtain ⟨hbodies, hlines⟩ := plain_made action ns d
    refine .one (declaredIn_made operands ns d) (hn.forget.trans hmade) ?_
    exact .made (.of_plain hbodies hlines) (.of_plain rfl rfl) hn.orderly
  | @declaration type kind symbolType items ns c d t proper inner ih =>
    have ha : (Action.declaration type kind symbolType items).Textual :=
      textual.actions _ (by simp [Task.actions])
    have hn := ih apart quiet (.bindings ha)
    have hrows : Node.declaredIn ((Node.mk { line := c.line }
        (.declaration type kind symbolType ns)).rows false) =
          Node.declaredIn (Node.rowsAll false ns) := by
      rw [rowsAll_of_run inner]
      cases ns <;> rfl
    exact .one hrows hn.introduced (.intro (.of_plain rfl rfl) hn.orderly)
  | @sizedArray type name size text n m c d e t proper inner render made ih =>
    obtain ⟨hinner, hmade⟩ := quiet_append quiet
    rw [diagnosticsOf_inSize] at hinner
    have ha : (Action.sizedArray type name size).Textual :=
      textual.actions _ (by simp [Task.actions])
    have hn := ih apart hinner (.one (ha.inside (.size, size) (by simp [Action.parts])))
    obtain ⟨rfl, rfl⟩ := Prod.ext_iff.mp made
    have ho : (Action.arrayDecl type name text).operands? = some [] := rfl
    have hname := introduced_made ho ha.own (diagnosticsOf_reported_eq_nil.mp hmade)
    exact .one rfl (hn.forget.trans hname) (.intro (.of_plain rfl rfl) fun _ hm => by cases hm)
  | @scope lines ns c d t inner ih =>
    have ha : (Action.block lines).Textual := textual.actions _ (by simp [Task.actions])
    refine ih apart quiet (.blocks fun b hb a hm => ?_)
    rw [List.mem_singleton.mp hb] at hm
    exact ha.inside (.statement, a) (List.mem_map.mpr ⟨a, hm, rfl⟩)
  | @conditional condition accepted rejected n b m bs c d e f t t' test inside made ih ih' =>
    obtain ⟨hq, -⟩ := quiet_append quiet
    obtain ⟨htest, hinside⟩ := quiet_append hq
    have ha : (Action.conditional condition accepted rejected).Textual :=
      textual.actions _ (by simp [Task.actions])
    have hn := ih apart htest (.one (ha.inside (.expression, condition) (by simp [Action.parts])))
    have hb := ih' (test.respects steps_apart apart) hinside (.branches ha)
    exact .conditional hn hb (isBlock_of_run inside) made
  | @loop init update test body n b m is us c c₁ c₂ c₃ c₄ d e t₁ t₂ t₃ t₄ first condition next
      inside leave made ih₁ ih₂ ih₃ ih₄ =>
    obtain ⟨hq, -⟩ := quiet_append quiet
    obtain ⟨hq, hq₄⟩ := quiet_append hq
    obtain ⟨hq, hq₃⟩ := quiet_append hq
    obtain ⟨hq₁, hq₂⟩ := quiet_append hq
    have ha : (Action.loop init test update body).Textual :=
      textual.actions _ (by simp [Task.actions])
    have apart₁ := first.respects steps_apart (apart.enter .nothing)
    have apart₂ := condition.respects steps_apart apart₁
    have apart₃ := next.respects steps_apart apart₂
    have h₁ := ih₁ (apart.enter .nothing) hq₁ (.all ha.loop.1)
    have h₂ := ih₂ apart₁ hq₂ (.one ha.loop.2.1)
    have h₃ := ih₃ apart₂ hq₃ (.all ha.loop.2.2.1)
    have h₄ := ih₄ apart₃ hq₄ (.blocks (by simpa using ha.loop.2.2.2))
    have hout := first.extends.trans (condition.extends.trans (next.extends.trans inside.extends))
    have hclosed := (Context.inner_leave hout leave).1
    exact .loop h₁ h₂ h₃ h₄ (isBlock_of_run inside b (by simp)) (by rw [hclosed]) made
  | prototype proper bound => exact .function (by simp) (by simp) (values_bind bound)
  | @emptyBody returns name params own c d e f marks proper bound mark leave =>
    have hout := (extends_inside proper d).trans (steps_extends.mark mark)
    have hclosed := (Context.inner_leave hout leave).1
    have hnop : Laid [.mk {} .nop] c c :=
      .one rfl (.of_values rfl) (.intro (.of_plain rfl rfl) fun _ hm => by cases hm)
    exact .function (by simp [Build.block, Node.isBlock]) (by simpa using hnop.block apart "Body")
      (by rw [hclosed, values_bind bound])
  | @function returns name params own a as ns c d e f t proper bound lines leave ih =>
    obtain ⟨-, hlines⟩ := quiet_append quiet
    have ha : (Action.function returns name params (some (a :: as))).Textual :=
      textual.actions _ (by simp [Task.actions])
    have hd := steps_apart.bind proper bound apart
    have hinside : (d.inside name params).table.Apart :=
      steps_apart.declareAll proper.2 _ (hd.enter name)
    have hn := ih hinside hlines (.body fun b hb => ha.inside (.statement, b) ?_)
    · have hout := (extends_inside proper d).trans lines.extends
      have hclosed := (Context.inner_leave hout leave).1
      have hbody := hn.block (lines.respects steps_apart hinside) "Body"
      exact .function (by simp [Build.block, Node.isBlock]) (by simpa using hbody)
        (by rw [hclosed, values_bind bound])
    · exact List.mem_map.mpr ⟨b, hb, rfl⟩

theorem exists_run_of_conforms {program : List Value}
    (conforms : ∀ v ∈ program, Conforms flawless .item v) (reportAll : Bool) :
    ∃ t nodes d, Run (.all (program.map Action.ofValue)) { reportAll } t nodes d := by
  refine exists_run_all (fun a ha => ?_) { reportAll }
  obtain ⟨v, hv, rfl⟩ := List.mem_map.mp ha
  exact ((conforms v hv).fits (by simp [flawless])).total

/-- A program that conforms to the format, and of which nothing is reported, is rendered as a tree
of blocks. What stands between braces is a block. Each block is laid out row by row, with the rows
of the blocks inside among its own, and of its own rows no two declare one name. -/
theorem own_rows_declare_once (s : Session) (program : List Value) (name : String)
    (conforms : ∀ v ∈ program, Conforms flawless .item v)
    (quiet : (s.runAll (.list program) name).2.diagnostics = []) :
    let r := s.runAll (.list program) name
    r.1 = .ok (r.2.tree.text 0) ∧ r.2.tree.isBlock = true ∧ r.2.tree.Every fun n =>
      (∀ body ∈ n.form.bodies, body.isBlock = true) ∧
      (∀ depth, (n.text depth).toList = "\n".toList.intercalate
        ((n.rows true).map fun row => (row.text depth).toList)) ∧
      ((Node.declaredIn (Node.rowsAll false n.lines)).map Name.written).Nodup := by
  intro r
  have htextual : ∀ a ∈ program.map Action.ofValue, a.Textual := by
    intro a ha
    obtain ⟨v, hv, rfl⟩ := List.mem_map.mp ha
    exact (conforms v hv).textual
  obtain ⟨t, nodes, d, run⟩ := exists_run_of_conforms conforms s.options.reportAll
  obtain ⟨hcode, htree, hlog⟩ :=
    Session.runAll_built (Reading.sequence_list program) (exec_of_run run) name
  have hquiet : diagnosticsOf t = [] := by
    have hdiagnostics : d.log.diagnostics = diagnosticsOf t := run.diagnostics
    rw [quiet, hdiagnostics] at hlog
    exact List.prefix_nil.mp hlog
  have hlaid := run.laid Table.Apart.empty hquiet (.all htextual)
  have hevery := hlaid.block (run.respects steps_apart Table.Apart.empty) "Program"
  refine ⟨by rw [htree]; exact hcode, by rw [htree]; rfl, ?_⟩
  rw [htree]
  exact hevery.imp fun n h => ⟨h.bodies, n.toList_text_rows, h.apart⟩

def declarationOfX : Value :=
  .object [("node", .string "declaration"), ("type", .string "int"),
    ("bindings", .list [.object [("name", .string "x")]])]

def blockOf (lines : List Value) : Value :=
  .object [("node", .string "block"), ("lines", .list lines)]

/-- The name `x` in the program, in a block, in the header of a loop and in its body, where an array
is declared as well. -/
def layeredX : List Value :=
  [declarationOfX, blockOf [declarationOfX,
    .object [("node", .string "for"), ("init", declarationOfX),
      ("test", .object [("node", .string "const"), ("type", .string "bool"),
        ("value", .string "true")]),
      ("body", .list [declarationOfX, .object [("node", .string "array_decl"),
        ("type", .string "int"), ("name", .string "y"), ("size", .int 3)]])]]]

theorem own_rows_declare_once_layered :
    let r := (Session.new {}).runAll (.list layeredX) "main"
    (∀ v ∈ layeredX, Conforms flawless .item v) ∧ r.2.diagnostics = [] ∧
      r.1.toOption =
        some "int x;\nint x;\nfor (int x; true; ) \x7b\n    int x;\n    int y[3];\n\x7d" ∧
      r.1 = .ok (r.2.tree.text 0) ∧ r.2.tree.isBlock = true ∧ r.2.tree.Every fun n =>
        (∀ body ∈ n.form.bodies, body.isBlock = true) ∧
        (∀ depth, (n.text depth).toList = "\n".toList.intercalate
          ((n.rows true).map fun row => (row.text depth).toList)) ∧
        ((Node.declaredIn (Node.rowsAll false n.lines)).map Name.written).Nodup := by
  intro r
  obtain ⟨hcheck, quiet, written⟩ :
      (layeredX.all fun v => v.conforms flawless 4 .item) = true ∧ r.2.diagnostics = [] ∧
      r.1.toOption =
        some "int x;\nint x;\nfor (int x; true; ) \x7b\n    int x;\n    int y[3];\n\x7d" := by
    decide +kernel
  have conforms := Conforms.forall_of_check hcheck
  exact ⟨conforms, quiet, written,
    own_rows_declare_once (Session.new {}) layeredX "main" conforms quiet⟩

/-- A name and the same name in a block after it. Nothing is reported, as the block is a scope of
its own, and yet two rows of one region declare the name. -/
theorem nested_block_repeats_name :
    let program := [declarationOfX, blockOf [declarationOfX]]
    let r := (Session.new {}).runAll (.list program) "main"
    (∀ v ∈ program, Conforms flawless .item v) ∧ r.2.diagnostics = [] ∧
      r.1.toOption = some "int x;\nint x;" ∧
      ¬((Node.declaredIn (r.2.tree.rows true)).map Name.written).Nodup := by
  intro program r
  have checked : (program.all fun v => v.conforms flawless 2 .item) = true ∧
      r.2.diagnostics = [] ∧ r.1.toOption = some "int x;\nint x;" ∧
      ¬((Node.declaredIn (r.2.tree.rows true)).map Name.written).Nodup := by decide +kernel
  exact ⟨.forall_of_check checked.1, checked.2⟩

end Treewright
