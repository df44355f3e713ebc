import Treewright.Proofs.Scopes
set_option autoImplicit false

namespace Treewright

/-- A primitive step on a context. Names are declared on the line that was reached. -/
inductive Step where
  | advance (line : Int)
  | report (problems : List Problem)
  | declare (name : Name) (type : Ty)
  | declareFunction (name : Name) (params : List (Ty × Value)) (returns : Ty)
  | define (name : Name)
  | enter (name : Name)
  | leave

namespace Context

def take (c : Context) : Step → Context
  | .advance line => c.advanceTo line
  | .report problems => c.report problems
  | .declare name type => (c.declare name type c.line).2
  | .declareFunction name params returns => (c.declareFunction name params returns c.line).2
  | .define name => { c with table := (c.table.define? name).getD c.table }
  | .enter name => c.enter name
  | .leave => c.leave?.getD c

def replay (c : Context) (steps : List Step) : Context := steps.foldl take c

@[simp] theorem replay_nil (c : Context) : c.replay [] = c := rfl

@[simp] theorem replay_cons (c : Context) (step : Step) (steps : List Step) :
    c.replay (step :: steps) = (c.take step).replay steps := rfl

theorem replay_append (c : Context) (steps steps' : List Step) :
    c.replay (steps ++ steps') = (c.replay steps).replay steps' := List.foldl_append

end Context

namespace Build

variable {α β : Type}

/-- The script of a step and, when it ends well, of what comes after it. -/
def scriptThen (x : Build α) (script : Context → List Step) (next : α → Context → List Step)
    (c : Context) : List Step :=
  script c ++
    match exec x c with
    | (.ok a, d) => next a d
    | (.error _, _) => []

/-- A scope is left however the step in it ends. -/
def scriptInScope (name : Name) (script : Context → List Step) (c : Context) : List Step :=
  .enter name :: script (c.enter name) ++ [.leave]

/-- A check does nothing but report what it finds. -/
def reports (x : Build α) (c : Context) : List Step :=
  [.report (((exec x c).2.log.diagnostics.drop c.log.diagnostics.length).map (·.problem))]

/-- A function whose declaration was rejected is not marked as defined. -/
def scriptDefine (name : Name) (rejected : Bool) (_ : Context) : List Step :=
  if rejected then [] else [.define name]

def scriptParams (params : List (Ty × Name)) (_ : Context) : List Step :=
  params.map fun p => .declare p.2 p.1

/-- The declaration of a variable comes before the check of its initial value. -/
def scriptBinding (type : Ty) (name : Name) (value : Option (Node × Operand)) (_ : Context) :
    List Step :=
  let verdict : Verdict := (value.map fun v => checkInitial type v.2).getD ⟨false, []⟩
  [.declare name type, .report verdict.problems]

def loopParts (init : Option Action) (test : Action) (update : Option Action)
    (body : List Action) : Build (Option Node × Node × Option Node × Node) := do
  let init ← buildOption init
  let test ← build test
  let update ← buildOption update
  let body ← inScope .nothing (buildAll body)
  return (init, test, update, block "Body" body)

end Build

open Build

mutual
def script : Action → Context → List Step
  | .faulty before _ => scriptAll before
  | .lined line action => fun c => .advance line :: script action (c.advanceTo line)
  | .declaration type _ _ bindings => scriptBindings type bindings
  | .arrayDecl type name size => fun _ => [.declare name (.array type (.string size))]
  | .sizedArray type name size =>
    scriptThen (build size) (script size) fun size =>
    scriptThen (sizeText size) (fun _ => []) fun text _ =>
      [.declare name (.array type (.string text))]
  | .variable name => reports (make (Form.ofVariable name))
  | .constant _ _ | .nop => fun _ => []
  | .operation op operands =>
    scriptThen (buildAll operands) (scriptAll operands) fun operands =>
      let (style, op) := styleOf op operands.length
      reports (operation style op operands)
  | .paren operand =>
    scriptThen (build operand) (script operand) fun operand =>
      reports (operation .paren .par [operand])
  | .cast target operand =>
    scriptThen (build operand) (script operand) fun operand =>
      reports (operation (.cast target) .cast [operand])
  | .assign target value =>
    scriptThen (build target) (script target) fun target =>
    scriptThen (build value) (script value) fun value =>
      reports (make (Form.ofAssignment target.seen value.seen))
  | .block lines => scriptInScope .nothing (scriptAll lines)
  | .conditional condition accepted rejected =>
    scriptThen (build condition) (script condition) fun condition =>
    scriptThen (inScope .nothing (buildAll accepted)) (scriptInScope .nothing (scriptAll accepted))
      fun accepted =>
    scriptThen (buildBranch rejected) (scriptBranch rejected) fun rejected =>
      reports (make
        (Form.ofConditional condition.seen (block "Then Branch" accepted) rejected))
  | .loop init test update body =>
    scriptThen (inScope .nothing (loopParts init test update body))
      (scriptInScope .nothing <|
        scriptThen (buildOption init) (scriptOption init) fun _ =>
        scriptThen (build test) (script test) fun _ =>
        scriptThen (buildOption update) (scriptOption update) fun _ =>
        scriptInScope .nothing (scriptAll body))
      fun parts => reports (make (Form.ofLoop parts.1 parts.2.1.seen parts.2.2.1 parts.2.2.2))
  | .function returns name params body => fun c =>
    let (rejected, after) := c.declareFunction name (signatureOf params) returns c.line
    .declareFunction name (signatureOf params) returns ::
      scriptBody name params rejected body after
  | .ret operand => scriptOption operand
  | .call name args =>
    scriptThen (buildAll args) (scriptAll args) fun args =>
      reports (make (Form.ofCall name (.mk {} (.arguments args)) (args.map Node.operand)))
  | .access name index =>
    scriptThen (build index) (script index) fun index =>
      reports (make (Form.ofAccess name index.seen))
  | .address operand => script operand
  | .reference operand => script operand

def scriptAll : List Action → Context → List Step
  | [] => fun _ => []
  | a :: as => scriptThen (build a) (script a) fun _ => scriptAll as

def scriptOption : Option Action → Context → List Step
  | none => fun _ => []
  | some a => script a

def scriptBranch : Option (List Action) → Context → List Step
  | none => fun _ => []
  | some lines => scriptInScope .nothing (scriptAll lines)

def scriptBindings (type : Ty) : List (Name × Option Action) → Context → List Step
  | [] => fun _ => []
  | (name, none) :: rest =>
    scriptThen (make (Form.ofBinding type name none)) (scriptBinding type name none) fun _ =>
      scriptBindings type rest
  | (name, some value) :: rest =>
    scriptThen (build value) (script value) fun value =>
    scriptThen (make (Form.ofBinding type name (some value.seen)))
        (scriptBinding type name (some value.seen)) fun _ =>
      scriptBindings type rest

def scriptBody (name : Name) (params : List (Ty × Name)) (rejected : Bool) :
    Option (List Action) → Context → List Step
  | none => fun _ => []
  | some lines =>
    scriptInScope name <|
      scriptThen (declareParams params) (scriptParams params) fun _ =>
      scriptThen (buildLines name rejected lines) (scriptLines name rejected lines) fun lines =>
        if lines.isEmpty then scriptDefine name rejected else fun _ => []

def scriptLines (name : Name) (rejected : Bool) : List Action → Context → List Step
  | [] => fun _ => []
  | a :: as =>
    scriptThen (build a) (script a) fun _ =>
    scriptThen (define name rejected) (scriptDefine name rejected) fun _ =>
      scriptLines name rejected as
end

namespace Build

variable {α β : Type}

def Plays (x : Build α) (script : Context → List Step) : Prop :=
  ∀ c, (exec x c).2 = c.replay (script c)

theorem plays_pure (a : α) : Plays (pure a) fun _ => [] := fun _ => rfl

theorem plays_fail (fault : Fault) : Plays (fail fault : Build α) fun _ => [] := fun _ => rfl

theorem plays_get {f : Context → Build β} {script : Context → List Step}
    (hf : ∀ c, Plays (f c) script) : Plays ((get : Build Context) >>= f) script := fun c => hf c c

theorem plays_bind {x : Build α} {f : α → Build β} {script : Context → List Step}
    {next : α → Context → List Step} (hx : Plays x script) (hf : ∀ a, Plays (f a) (next a)) :
    Plays (x >>= f) (scriptThen x script next) := by
  intro c
  have step := hx c
  rw [exec_bind, scriptThen, Context.replay_append, ← step]
  cases exec x c with
  | mk r d =>
    cases r with
    | error fault => rfl
    | ok a => exact hf a d

theorem Plays.quiet {x : Build α} {f : α → Build β} {script : Context → List Step}
    (hx : Plays x script) (hf : ∀ a, Plays (f a) fun _ => []) : Plays (x >>= f) script := by
  have played := plays_bind hx hf
  intro c
  rw [played c, scriptThen]
  cases exec x c with
  | mk r d => cases r <;> simp

theorem plays_inScope {x : Build α} {script : Context → List Step} (hx : Plays x script)
    (name : Name) : Plays (inScope name x) (scriptInScope name script) := by
  intro c
  have inside := hx (c.enter name)
  have played : c.replay (scriptInScope name script c) =
      (exec x (c.enter name)).2.take .leave := by
    rw [inside, scriptInScope, List.cons_append, Context.replay_cons, Context.replay_append]
    rfl
  rw [played, exec_inScope, Context.take]
  cases (exec x (c.enter name)).2.leave? <;> rfl

theorem plays_reports {x : Build α} (h : ∀ c, ∃ problems, (exec x c).2 = c.report problems) :
    Plays x (reports x) := by
  intro c
  obtain ⟨problems, he⟩ := h c
  have hnew : ((c.report problems).log.diagnostics.drop c.log.diagnostics.length).map
      (·.problem) = problems := by
    simp [Context.report, Function.comp_def]
  rw [reports, he, hnew]
  rfl

theorem plays_operation (style : Style) (op : Op) (operands : List Node) :
    Plays (operation style op operands) (reports (operation style op operands)) := by
  refine plays_reports fun c => ?_
  unfold operation
  split
  · exact ⟨[], rfl⟩
  · exact ⟨_, rfl⟩

theorem plays_sizeText (size : Node) : Plays (sizeText size) fun _ => [] := by
  unfold sizeText
  cases size.render 0 with
  | ok text => exact plays_pure text
  | error fault => exact plays_fail _

theorem plays_define (name : Name) (rejected : Bool) :
    Plays (define name rejected) (scriptDefine name rejected) := by
  intro c
  cases rejected with
  | true => rfl
  | false =>
    cases h : c.table.define? name <;>
      simp [define, scriptDefine, exec_bind, exec_get, exec_fail, exec_set, h, Context.take]

theorem plays_declareParams (params : List (Ty × Name)) :
    Plays (declareParams params) (scriptParams params) := by
  induction params with
  | nil => exact plays_pure PUnit.unit
  | cons p params ih => exact fun c => ih (c.declare p.2 p.1 c.line).2

theorem plays_binding (type : Ty) (name : Name) (value : Option (Node × Operand)) :
    Plays (make (Form.ofBinding type name value)) (scriptBinding type name value) := fun _ => rfl

theorem plays_array (type : Ty) (name : Name) (size : String) :
    Plays (make (Form.ofArrayDecl type name size))
      fun _ => [.declare name (.array type (.string size))] := fun _ => rfl

end Build

-- By recursion on the actions, along the equations of the builder.
mutual
theorem plays_build (action : Action) : Plays (build action) (script action) := by
  cases action with
  | faulty before flaw =>
    rw [build, script]
    exact (plays_buildAll before).quiet fun _ => plays_fail _
  | lined line action =>
    rw [build, script]
    exact fun c => plays_build action (c.advanceTo line)
  | declaration type kind symbolType bindings =>
    rw [build, script]
    exact plays_get fun _ => (plays_buildBindings type bindings).quiet fun _ _ => rfl
  | arrayDecl type name size =>
    rw [build, script]
    exact plays_array type name size
  | sizedArray type name size =>
    rw [build, script]
    refine plays_bind (plays_build size) fun size => ?_
    exact plays_bind (plays_sizeText size) fun text => plays_array type name text
  | «variable» name =>
    rw [build, script]
    exact plays_reports fun _ => ⟨_, rfl⟩
  | constant type value =>
    rw [build, script]
    exact fun _ => rfl
  | operation op operands =>
    rw [build, script]
    exact plays_bind (plays_buildAll operands) fun _ => plays_operation _ _ _
  | paren operand =>
    rw [build, script]
    exact plays_bind (plays_build operand) fun _ => plays_operation _ _ _
  | cast target operand =>
    rw [build, script]
    exact plays_bind (plays_build operand) fun _ => plays_operation _ _ _
  | assign target value =>
    rw [build, script]
    refine plays_bind (plays_build target) fun _ => ?_
    exact plays_bind (plays_build value) fun _ => plays_reports fun _ => ⟨_, rfl⟩
  | block lines =>
    rw [build, script]
    exact (plays_inScope (plays_buildAll lines) .nothing).quiet fun _ _ => rfl
  | conditional condition accepted rejected =>
    rw [build, script]
    refine plays_bind (plays_build condition) fun _ => ?_
    refine plays_bind (plays_inScope (plays_buildAll accepted) .nothing) fun _ => ?_
    exact plays_bind (plays_buildBranch rejected) fun _ => plays_reports fun _ => ⟨_, rfl⟩
  | loop init test update body =>
    rw [build, script]
    refine plays_bind (plays_inScope ?_ .nothing) fun _ => plays_reports fun _ => ⟨_, rfl⟩
    refine plays_bind (plays_buildOption init) fun _ => ?_
    refine plays_bind (plays_build test) fun _ => ?_
    refine plays_bind (plays_buildOption update) fun _ => ?_
    exact (plays_inScope (plays_buildAll body) .nothing).quiet fun _ _ => rfl
  | function returns name params body =>
    intro c
    have played := plays_buildBody name params
      (c.declareFunction name (signatureOf params) returns c.line).1 body
      (c.declareFunction name (signatureOf params) returns c.line).2
    rw [exec_build_function, script, Context.replay_cons, Context.take, ← played]
    dsimp only
    cases exec (buildBody _ _ _ _) _ with
    | mk r d => cases r <;> rfl
  | ret operand =>
    rw [build, script]
    exact (plays_buildOption operand).quiet fun _ _ => rfl
  | call name args =>
    rw [build, script]
    exact plays_bind (plays_buildAll args) fun _ => plays_reports fun _ => ⟨_, rfl⟩
  | access name index =>
    rw [build, script]
    exact plays_bind (plays_build index) fun _ => plays_reports fun _ => ⟨_, rfl⟩
  | address operand =>
    rw [build, script]
    exact (plays_build operand).quiet fun _ _ => rfl
  | reference operand =>
    rw [build, script]
    exact (plays_build operand).quiet fun _ _ => rfl
  | nop =>
    rw [build, script]
    exact fun _ => rfl

theorem plays_buildAll (actions : List Action) :
    Plays (buildAll actions) (scriptAll actions) := by
  cases actions with
  | nil =>
    rw [buildAll, scriptAll]
    exact plays_pure []
  | cons a as =>
    rw [buildAll, scriptAll]
    refine plays_bind (plays_build a) fun _ => ?_
    exact (plays_buildAll as).quiet fun _ _ => rfl

theorem plays_buildOption (action : Option Action) :
    Plays (buildOption action) (scriptOption action) := by
  cases action with
  | none =>
    rw [buildOption, scriptOption]
    exact plays_pure none
  | some a =>
    rw [buildOption, scriptOption]
    exact (plays_build a).quiet fun _ _ => rfl

theorem plays_buildBranch (lines : Option (List Action)) :
    Plays (buildBranch lines) (scriptBranch lines) := by
  cases lines with
  | none =>
    rw [buildBranch, scriptBranch]
    exact plays_pure none
  | some lines =>
    rw [buildBranch, scriptBranch]
    exact (plays_inScope (plays_buildAll lines) .nothing).quiet fun _ _ => rfl

theorem plays_buildBindings (type : Ty) (bindings : List (Name × Option Action)) :
    Plays (buildBindings type bindings) (scriptBindings type bindings) := by
  match bindings with
  | [] =>
    rw [buildBindings, scriptBindings]
    exact plays_pure []
  | (name, none) :: rest =>
    rw [buildBindings, scriptBindings]
    refine plays_bind (plays_binding type name none) fun _ => ?_
    exact (plays_buildBindings type rest).quiet fun _ _ => rfl
  | (name, some value) :: rest =>
    rw [buildBindings, scriptBindings]
    refine plays_bind (plays_build value) fun value => ?_
    refine plays_bind (plays_binding type name (some value.seen)) fun _ => ?_
    exact (plays_buildBindings type rest).quiet fun _ _ => rfl

theorem plays_buildBody (name : Name) (params : List (Ty × Name)) (rejected : Bool)
    (body : Option (List Action)) :
    Plays (buildBody name params rejected body) (scriptBody name params rejected body) := by
  cases body with
  | none =>
    rw [buildBody, scriptBody]
    exact plays_pure none
  | some lines =>
    rw [buildBody, scriptBody]
    refine (plays_inScope ?_ name).quiet fun _ _ => rfl
    refine plays_bind (plays_declareParams params) fun _ => ?_
    refine plays_bind (plays_buildLines name rejected lines) fun nodes => ?_
    cases nodes with
    | nil => exact (plays_define name rejected).quiet fun _ _ => rfl
    | cons n ns => exact plays_pure (n :: ns)

theorem plays_buildLines (name : Name) (rejected : Bool) (lines : List Action) :
    Plays (buildLines name rejected lines) (scriptLines name rejected lines) := by
  cases lines with
  | nil =>
    rw [buildLines, scriptLines]
    exact plays_pure []
  | cons a as =>
    rw [buildLines, scriptLines]
    refine plays_bind (plays_build a) fun _ => ?_
    refine plays_bind (plays_define name rejected) fun _ => ?_
    exact (plays_buildLines name rejected as).quiet fun _ _ => rfl
end

end Treewright
