import Treewright.Proofs.Histories
set_option autoImplicit false

namespace Treewright

open Table (Call)

namespace Build

variable {α β : Type}

/-- The calls of a step and, when it ends well, of what comes after it. -/
def callsThen (x : Build α) (calls : Context → List Call) (next : α → Context → List Call)
    (c : Context) : List Call :=
  calls c ++
    match exec x c with
    | (.ok a, d) => next a d
    | (.error _, _) => []

/-- A scope is left however the step in it ends. -/
def callsInScope (name : Name) (calls : Context → List Call) (c : Context) : List Call :=
  .enter name :: calls (c.enter name) ++ [.leave]

def callOfVariable (name : Name) (type : Ty) (c : Context) : List Call :=
  [.declare ⟨name, c.line, .variable type⟩]

def callOfFunction (returns : Ty) (name : Name) (params : List (Ty × Name)) (c : Context) :
    List Call :=
  [.declare ⟨name, c.line,
    .function ((signatureOf params).map fun p => (p.2, p.1)) returns.given?⟩]

/-- A function whose declaration was rejected is not marked as defined. -/
def callOfDefine (name : Name) (rejected : Bool) (_ : Context) : List Call :=
  if rejected then [] else [.define name]

def callsOfParams : List (Ty × Name) → Context → List Call
  | [] => fun _ => []
  | (type, name) :: params =>
    callsThen (modify fun c => (c.declare name type c.line).2) (callOfVariable name type) fun _ =>
      callsOfParams params

end Build

open Build

mutual
def calls : Action → Context → List Call
  | .faulty before _ => callsAll before
  | .lined line action => fun c => calls action (c.advanceTo line)
  | .declaration type _ _ bindings => callsBindings type bindings
  | .arrayDecl type name size => callOfVariable name (.array type (.string size))
  | .sizedArray type name size =>
    callsThen (build size) (calls size) fun size =>
    callsThen (sizeText size) (fun _ => []) fun text =>
      callOfVariable name (.array type (.string text))
  | .variable _ | .constant _ _ | .nop => fun _ => []
  | .operation _ operands => callsAll operands
  | .paren operand => calls operand
  | .cast _ operand => calls operand
  | .assign target value => callsThen (build target) (calls target) fun _ => calls value
  | .block lines => callsInScope .nothing (callsAll lines)
  | .conditional condition accepted rejected =>
    callsThen (build condition) (calls condition) fun _ =>
    callsThen (inScope .nothing (buildAll accepted)) (callsInScope .nothing (callsAll accepted))
      fun _ => callsBranch rejected
  | .loop init test update body =>
    callsInScope .nothing <|
      callsThen (buildOption init) (callsOption init) fun _ =>
      callsThen (build test) (calls test) fun _ =>
      callsThen (buildOption update) (callsOption update) fun _ =>
      callsInScope .nothing (callsAll body)
  | .function returns name params body => fun c =>
    let (rejected, after) := c.declareFunction name (signatureOf params) returns c.line
    callOfFunction returns name params c ++ callsBody name params rejected body after
  | .ret operand => callsOption operand
  | .call _ args => callsAll args
  | .access _ index => calls index
  | .address operand => calls operand
  | .reference operand => calls operand

def callsAll : List Action → Context → List Call
  | [] => fun _ => []
  | a :: as => callsThen (build a) (calls a) fun _ => callsAll as

def callsOption : Option Action → Context → List Call
  | none => fun _ => []
  | some a => calls a

def callsBranch : Option (List Action) → Context → List Call
  | none => fun _ => []
  | some lines => callsInScope .nothing (callsAll lines)

def callsBindings (type : Ty) : List (Name × Option Action) → Context → List Call
  | [] => fun _ => []
  | (name, none) :: rest =>
    callsThen (make (Form.ofBinding type name none)) (callOfVariable name type) fun _ =>
      callsBindings type rest
  | (name, some value) :: rest =>
    callsThen (build value) (calls value) fun value =>
    callsThen (make (Form.ofBinding type name (some value.seen)))
        (callOfVariable name type) fun _ =>
      callsBindings type rest

def callsBody (name : Name) (params : List (Ty × Name)) (rejected : Bool) :
    Option (List Action) → Context → List Call
  | none => fun _ => []
  | some lines =>
    callsInScope name <|
      callsThen (declareParams params) (callsOfParams params) fun _ =>
      callsThen (buildLines name rejected lines) (callsLines name rejected lines) fun lines =>
        if lines.isEmpty then callOfDefine name rejected else fun _ => []

def callsLines (name : Name) (rejected : Bool) : List Action → Context → List Call
  | [] => fun _ => []
  | a :: as =>
    callsThen (build a) (calls a) fun _ =>
    callsThen (define name rejected) (callOfDefine name rejected) fun _ =>
      callsLines name rejected as
end

namespace Build

variable {α β : Type}

def Tells (x : Build α) (calls : Context → List Call) : Prop :=
  ∀ c, (exec x c).2.table = c.table.after (calls c)

theorem tells_pure (a : α) : Tells (pure a) fun _ => [] := fun _ => rfl

theorem tells_fail (fault : Fault) : Tells (fail fault : Build α) fun _ => [] := fun _ => rfl

theorem tells_get {f : Context → Build β} {calls : Context → List Call}
    (hf : ∀ c, Tells (f c) calls) : Tells ((get : Build Context) >>= f) calls := fun c => hf c c

theorem tells_bind {x : Build α} {f : α → Build β} {calls : Context → List Call}
    {next : α → Context → List Call} (hx : Tells x calls) (hf : ∀ a, Tells (f a) (next a)) :
    Tells (x >>= f) (callsThen x calls next) := by
  intro c
  have step := hx c
  rw [exec_bind, callsThen, Table.after_append, ← step]
  cases exec x c with
  | mk r d =>
    cases r with
    | error fault => rfl
    | ok a => exact hf a d

theorem Tells.quiet {x : Build α} {f : α → Build β} {calls : Context → List Call}
    (hx : Tells x calls) (hf : ∀ a, Tells (f a) fun _ => []) : Tells (x >>= f) calls := by
  have told := tells_bind hx hf
  intro c
  rw [told c, callsThen]
  cases exec x c with
  | mk r d => cases r <;> simp

theorem tells_inScope {x : Build α} {calls : Context → List Call} (hx : Tells x calls)
    (name : Name) : Tells (inScope name x) (callsInScope name calls) := by
  intro c
  have inside : (exec x (c.enter name)).2.table =
      (c.table.enter name).after (calls (c.enter name)) := hx (c.enter name)
  have told : c.table.after (callsInScope name calls c) =
      ((exec x (c.enter name)).2.table.perform .leave).2 := by
    rw [inside, callsInScope, List.cons_append, Table.after, Table.after_append]
    rfl
  rw [told, exec_inScope, Context.leave?, Table.perform]
  cases (exec x (c.enter name)).2.table.leave? <;> rfl

theorem table_declare (c : Context) (name : Name) (type : Ty) :
    (c.declare name type c.line).2.table = c.table.after (callOfVariable name type c) := by
  simp only [Context.declare, callOfVariable, Table.after, Table.perform, Table.declaring]
  cases c.table.declare? name type c.line <;> rfl

theorem table_declareFunction (c : Context) (returns : Ty) (name : Name)
    (params : List (Ty × Name)) :
    (c.declareFunction name (signatureOf params) returns c.line).2.table =
      c.table.after (callOfFunction returns name params c) := by
  simp only [Context.declareFunction, callOfFunction, Table.after, Table.perform, Table.declaring]
  cases c.table.declareFunction? name ((signatureOf params).map fun p => (p.2, p.1)) returns.given?
    c.line with
  | some table => rfl
  | none =>
    dsimp only
    split <;> rfl

theorem tells_binding (type : Ty) (name : Name) (value : Option (Node × Operand)) :
    Tells (make (Form.ofBinding type name value)) (callOfVariable name type) :=
  fun c => table_declare c name type

theorem tells_arrayDecl (type : Ty) (name : Name) (size : String) :
    Tells (make (Form.ofArrayDecl type name size))
      (callOfVariable name (.array type (.string size))) :=
  fun c => table_declare c name _

theorem tells_define (name : Name) (rejected : Bool) :
    Tells (define name rejected) (callOfDefine name rejected) := by
  intro c
  cases rejected with
  | true => rfl
  | false =>
    cases h : c.table.define? name <;>
      simp [define, callOfDefine, exec_bind, exec_get, exec_fail, exec_set, h, Table.after,
        Table.perform]

theorem tells_declareParams (params : List (Ty × Name)) :
    Tells (declareParams params) (callsOfParams params) := by
  induction params with
  | nil => exact tells_pure PUnit.unit
  | cons p params ih =>
    exact tells_bind (fun c => table_declare c p.2 p.1) fun _ => ih

theorem tells_sizeText (size : Node) : Tells (sizeText size) fun _ => [] := by
  unfold sizeText
  cases size.render 0 with
  | ok text => exact tells_pure text
  | error fault => exact tells_fail _

theorem tells_operation (style : Style) (op : Op) (operands : List Node) :
    Tells (operation style op operands) fun _ => [] := by
  unfold operation
  split
  · exact tells_fail _
  · exact fun _ => rfl

end Build

-- By recursion on the actions, along the equations of the builder.
mutual
theorem tells_build (action : Action) : Tells (build action) (calls action) := by
  cases action with
  | faulty before flaw =>
    rw [build, calls]
    exact (tells_buildAll before).quiet fun _ => tells_fail _
  | lined line action =>
    rw [build, calls]
    exact fun c => tells_build action (c.advanceTo line)
  | declaration type kind symbolType bindings =>
    rw [build, calls]
    exact tells_get fun _ => (tells_buildBindings type bindings).quiet fun _ _ => rfl
  | arrayDecl type name size =>
    rw [build, calls]
    exact tells_arrayDecl type name size
  | sizedArray type name size =>
    rw [build, calls]
    refine tells_bind (tells_build size) fun size => ?_
    exact tells_bind (tells_sizeText size) fun text => tells_arrayDecl type name text
  | «variable» name =>
    rw [build, calls]
    exact fun _ => rfl
  | constant type value =>
    rw [build, calls]
    exact fun _ => rfl
  | operation op operands =>
    rw [build, calls]
    exact (tells_buildAll operands).quiet fun _ => tells_operation _ _ _
  | paren operand =>
    rw [build, calls]
    exact (tells_build operand).quiet fun _ => tells_operation _ _ _
  | cast target operand =>
    rw [build, calls]
    exact (tells_build operand).quiet fun _ => tells_operation _ _ _
  | assign target value =>
    rw [build, calls]
    refine tells_bind (tells_build target) fun _ => ?_
    exact (tells_build value).quiet fun _ _ => rfl
  | block lines =>
    rw [build, calls]
    exact (tells_inScope (tells_buildAll lines) .nothing).quiet fun _ _ => rfl
  | conditional condition accepted rejected =>
    rw [build, calls]
    refine tells_bind (tells_build condition) fun _ => ?_
    refine tells_bind (tells_inScope (tells_buildAll accepted) .nothing) fun _ => ?_
    exact (tells_buildBranch rejected).quiet fun _ _ => rfl
  | loop init test update body =>
    rw [build, calls]
    refine (tells_inScope ?_ .nothing).quiet fun _ _ => rfl
    refine tells_bind (tells_buildOption init) fun _ => ?_
    refine tells_bind (tells_build test) fun _ => ?_
    refine tells_bind (tells_buildOption update) fun _ => ?_
    exact (tells_inScope (tells_buildAll body) .nothing).quiet fun _ _ => rfl
  | function returns name params body =>
    intro c
    have body_told := tells_buildBody name params
      (c.declareFunction name (signatureOf params) returns c.line).1 body
      (c.declareFunction name (signatureOf params) returns c.line).2
    rw [exec_build_function, calls, Table.after_append, ← table_declareFunction, ← body_told]
    dsimp only
    cases exec (buildBody _ _ _ _) _ with
    | mk r d => cases r <;> rfl
  | ret operand =>
    rw [build, calls]
    exact (tells_buildOption operand).quiet fun _ _ => rfl
  | call name args =>
    rw [build, calls]
    exact (tells_buildAll args).quiet fun _ _ => rfl
  | access name index =>
    rw [build, calls]
    exact (tells_build index).quiet fun _ _ => rfl
  | address operand =>
    rw [build, calls]
    exact (tells_build operand).quiet fun _ _ => rfl
  | reference operand =>
    rw [build, calls]
    exact (tells_build operand).quiet fun _ _ => rfl
  | nop =>
    rw [build, calls]
    exact fun _ => rfl

theorem tells_buildAll (actions : List Action) : Tells (buildAll actions) (callsAll actions) := by
  cases actions with
  | nil =>
    rw [buildAll, callsAll]
    exact tells_pure []
  | cons a as =>
    rw [buildAll, callsAll]
    refine tells_bind (tells_build a) fun _ => ?_
    exact (tells_buildAll as).quiet fun _ _ => rfl

theorem tells_buildOption (action : Option Action) :
    Tells (buildOption action) (callsOption action) := by
  cases action with
  | none =>
    rw [buildOption, callsOption]
    exact tells_pure none
  | some a =>
    rw [buildOption, callsOption]
    exact (tells_build a).quiet fun _ _ => rfl

theorem tells_buildBranch (lines : Option (List Action)) :
    Tells (buildBranch lines) (callsBranch lines) := by
  cases lines with
  | none =>
    rw [buildBranch, callsBranch]
    exact tells_pure none
  | some lines =>
    rw [buildBranch, callsBranch]
    exact (tells_inScope (tells_buildAll lines) .nothing).quiet fun _ _ => rfl

theorem tells_buildBindings (type : Ty) (bindings : List (Name × Option Action)) :
    Tells (buildBindings type bindings) (callsBindings type bindings) := by
  match bindings with
  | [] =>
    rw [buildBindings, callsBindings]
    exact tells_pure []
  | (name, none) :: rest =>
    rw [buildBindings, callsBindings]
    refine tells_bind (tells_binding type name none) fun _ => ?_
    exact (tells_buildBindings type rest).quiet fun _ _ => rfl
  | (name, some value) :: rest =>
    rw [buildBindings, callsBindings]
    refine tells_bind (tells_build value) fun value => ?_
    refine tells_bind (tells_binding type name (some value.seen)) fun _ => ?_
    exact (tells_buildBindings type rest).quiet fun _ _ => rfl

theorem tells_buildBody (name : Name) (params : List (Ty × Name)) (rejected : Bool)
    (body : Option (List Action)) :
    Tells (buildBody name params rejected body) (callsBody name params rejected body) := by
  cases body with
  | none =>
    rw [buildBody, callsBody]
    exact tells_pure none
  | some lines =>
    rw [buildBody, callsBody]
    refine (tells_inScope ?_ name).quiet fun _ _ => rfl
    refine tells_bind (tells_declareParams params) fun _ => ?_
    refine tells_bind (tells_buildLines name rejected lines) fun nodes => ?_
    cases nodes with
    | nil => exact (tells_define name rejected).quiet fun _ _ => rfl
    | cons n ns => exact tells_pure (n :: ns)

theorem tells_buildLines (name : Name) (rejected : Bool) (lines : List Action) :
    Tells (buildLines name rejected lines) (callsLines name rejected lines) := by
  cases lines with
  | nil =>
    rw [buildLines, callsLines]
    exact tells_pure []
  | cons a as =>
    rw [buildLines, callsLines]
    refine tells_bind (tells_build a) fun _ => ?_
    refine tells_bind (tells_define name rejected) fun _ => ?_
    exact (tells_buildLines name rejected as).quiet fun _ _ => rfl
end

end Treewright
