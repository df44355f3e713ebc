import Treewright.Proofs.Effects
import Treewright.Proofs.Format
import Treewright.Proofs.Sessions
set_option autoImplicit false

/-!
What stops a build. The flaws of an action stand in the order in which a build comes to them, and
the first one is all that can stop it: whatever the context, a build ends with that flaw, or there
is none and it gives a node. No table is misused on the way and no code is missing, so a session
that is given any list of documents answers with a text or with a flaw of theirs. Documents that
conform to the format have no flaw.
-/

namespace Treewright

open Build

mutual
def Action.flaw? : Action → Option Flaw
  | .faulty before flaw => (firstFlaw? before).or (some flaw)
  | .lined _ a | .sizedArray _ _ a | .paren a | .cast _ a | .access _ a | .address a
  | .reference a => a.flaw?
  | .declaration _ _ _ bindings => bindingsFlaw? bindings
  | .operation _ items | .call _ items | .block items => firstFlaw? items
  | .assign target value => target.flaw?.or value.flaw?
  | .conditional condition accepted rejected =>
    condition.flaw?.or ((firstFlaw? accepted).or (linesFlaw? rejected))
  | .loop init test update body =>
    (optionFlaw? init).or (test.flaw?.or ((optionFlaw? update).or (firstFlaw? body)))
  | .function _ _ _ body => linesFlaw? body
  | .ret operand => optionFlaw? operand
  | .arrayDecl _ _ _ | .variable _ | .constant _ _ | .nop => none

def firstFlaw? : List Action → Option Flaw
  | [] => none
  | a :: as => a.flaw?.or (firstFlaw? as)

def optionFlaw? : Option Action → Option Flaw
  | none => none
  | some a => a.flaw?

def linesFlaw? : Option (List Action) → Option Flaw
  | none => none
  | some lines => firstFlaw? lines

def bindingsFlaw? : List (Name × Option Action) → Option Flaw
  | [] => none
  | (_, none) :: rest => bindingsFlaw? rest
  | (_, some value) :: rest => value.flaw?.or (bindingsFlaw? rest)
end

theorem firstFlaw?_toList (item : Option Action) : firstFlaw? item.toList = optionFlaw? item := by
  cases item with
  | none => rfl
  | some a => simp [firstFlaw?, optionFlaw?]

theorem linesFlaw?_eq_firstFlaw? (lines : Option (List Action)) :
    linesFlaw? lines = firstFlaw? (lines.getD []) := by
  cases lines <;> rfl

theorem Action.flaw?_of_operands? {action : Action} {items : List Action}
    (h : action.operands? = some items) : action.flaw? = firstFlaw? items := by
  unfold operands? at h
  split at h <;> cases h
  case h_14 operand => rw [flaw?, firstFlaw?_toList]
  all_goals simp [flaw?, firstFlaw?]

theorem exists_of_firstFlaw? {items : List Action} {flaw : Flaw}
    (h : firstFlaw? items = some flaw) : ∃ a ∈ items, a.flaw? = some flaw := by
  induction items with
  | nil => cases h
  | cons a items ih =>
    rw [firstFlaw?, Option.or_eq_some_iff] at h
    rcases h with here | ⟨-, h⟩
    · exact ⟨a, by simp, here⟩
    · obtain ⟨b, hb, hflaw⟩ := ih h
      exact ⟨b, by simp [hb], hflaw⟩

theorem exists_of_bindingsFlaw? {bindings : List (Name × Option Action)} {flaw : Flaw}
    (h : bindingsFlaw? bindings = some flaw) : ∃ b ∈ bindings, ∃ a ∈ b.2, a.flaw? = some flaw := by
  induction bindings with
  | nil => cases h
  | cons b bindings ih =>
    have later (h : bindingsFlaw? bindings = some flaw) :
        ∃ b' ∈ b :: bindings, ∃ a ∈ b'.2, a.flaw? = some flaw := by
      obtain ⟨b', hb', found⟩ := ih h
      exact ⟨b', by simp [hb'], found⟩
    obtain ⟨name, value⟩ := b
    cases value with
    | none => exact later h
    | some a =>
      rw [bindingsFlaw?, Option.or_eq_some_iff] at h
      rcases h with here | ⟨-, h⟩
      · exact ⟨(name, some a), by simp, a, rfl, here⟩
      · exact later h

theorem Action.flaw?_origin {action : Action} {flaw : Flaw} (h : action.flaw? = some flaw) :
    (∃ before, action = .faulty before flaw) ∨
      ∃ part ∈ action.parts, part.2.flaw? = some flaw := by
  have among {items : List Action} (h : firstFlaw? items = some flaw) (position : Position)
      (hp : ∀ a ∈ items, (position, a) ∈ action.parts) :
      ∃ part ∈ action.parts, part.2.flaw? = some flaw := by
    obtain ⟨a, ha, found⟩ := exists_of_firstFlaw? h
    exact ⟨(position, a), hp a ha, found⟩
  cases ho : action.operands? with
  | some items =>
    rw [flaw?_of_operands? ho] at h
    exact .inr (among h .expression fun a ha => mem_parts_of_operands? ho ha)
  | none =>
    cases action <;> simp only [operands?, reduceCtorEq] at ho
    all_goals
      simp only [flaw?, ← firstFlaw?_toList, linesFlaw?_eq_firstFlaw?, Option.or_eq_some_iff] at h
    case faulty before own =>
      rcases h with h | ⟨-, h⟩
      · exact .inr (among h .item fun a ha => List.mem_map_of_mem ha)
      · cases h
        exact .inl ⟨before, rfl⟩
    case declaration =>
      obtain ⟨b, hb, a, ha, found⟩ := exists_of_bindingsFlaw? h
      exact .inr ⟨_, mem_parts_binding hb (Option.mem_toList.mpr ha), found⟩
    case lined | sizedArray => exact .inr ⟨_, List.mem_singleton.mpr rfl, h⟩
    case operation op items =>
      cases items with
      | nil => cases h
      | cons => cases ho
    case block | function => exact .inr (among h .statement fun a ha => List.mem_map_of_mem ha)
    case conditional condition accepted rejected =>
      rcases h with h | ⟨-, h | ⟨-, h⟩⟩
      · exact .inr ⟨_, List.mem_cons_self, h⟩
      · exact .inr (among h .statement fun a ha => by simp [parts, ha])
      · exact .inr (among h .statement fun a ha => by simp [parts, ha])
    case loop init test update body =>
      rcases h with h | ⟨-, h | ⟨-, h | ⟨-, h⟩⟩⟩
      · exact .inr (among h .header fun a ha => mem_parts_header (List.mem_append_left _ ha))
      · exact .inr ⟨_, List.mem_cons_self, h⟩
      · exact .inr (among h .header fun a ha => mem_parts_header (List.mem_append_right _ ha))
      · exact .inr (among h .statement fun a ha => by simp [parts, ha])

theorem Action.inherited_family : Action.Inherited (·.family ≠ .digits)
    fun a => ∀ flaw, a.flaw? = some flaw → flaw.family ≠ .digits where
  other flaw h := by cases flaw <;> simp_all [Flaw.family]
  intro _ _ excused inside flaw h := by
    rcases flaw?_origin h with ⟨before, rfl⟩ | ⟨part, hp, found⟩
    · exact excused
    · exact inside part hp flaw found

namespace Build

variable {α β : Type} {c : Context} {flaw? other? : Option Flaw}

/-- From the context the step comes to its end, unless there is a flaw that it stops at. Either way
it only adds to the context. -/
structure Meets (c : Context) (flaw? : Option Flaw) (x : Build α) : Prop where
  grows : c.Extends (exec x c).2
  ends : match flaw? with
    | none => ∃ a, (exec x c).1 = .ok a
    | some flaw => (exec x c).1 = .error (.flaw flaw)

theorem Meets.of_exec {x : Build α} {a : α} {d : Context} (h : exec x c = (.ok a, d))
    (grows : c.Extends d) : Meets c none x :=
  ⟨by rwa [h], a, by rw [h]⟩

theorem meets_pure (c : Context) (a : α) : Meets c none (pure a : Build α) :=
  .of_exec (exec_pure a c) (.refl c)

theorem meets_fail (c : Context) (flaw : Flaw) :
    Meets c (some flaw) (fail (.flaw flaw) : Build α) :=
  ⟨.refl c, rfl⟩

theorem Meets.bind {x : Build α} {f : α → Build β} (hx : Meets c flaw? x)
    (hf : ∀ a d, exec x c = (.ok a, d) → c.Extends d → Meets d other? (f a)) :
    Meets c (flaw?.or other?) (x >>= f) := by
  -- The first step settles which of the two flaws is the one met.
  cases hr : exec x c with
  | mk r d =>
    have grows : c.Extends d := by
      have h := hx.grows
      rwa [hr] at h
    have ends := hx.ends
    rw [hr] at ends
    cases flaw? with
    | some flaw =>
      have he : r = .error (.flaw flaw) := ends
      subst he
      constructor
      · rwa [exec_bind, hr]
      · change (exec (x >>= f) c).1 = _
        rw [exec_bind, hr]
    | none =>
      obtain ⟨a, he⟩ : ∃ a, r = .ok a := ends
      subst he
      have next := hf a d hr grows
      have heq : exec (x >>= f) c = exec (f a) d := by rw [exec_bind, hr]
      constructor
      · rw [heq]
        exact grows.trans next.grows
      · rw [heq]
        exact next.ends

theorem Meets.after {x : Build α} {f : α → Build β} (hx : Meets c none x)
    (hf : ∀ a d, exec x c = (.ok a, d) → c.Extends d → Meets d other? (f a)) :
    Meets c other? (x >>= f) := hx.bind hf

theorem Meets.before {x : Build α} {f : α → Build β} (hx : Meets c flaw? x)
    (hf : ∀ a d, exec x c = (.ok a, d) → c.Extends d → Meets d none (f a)) :
    Meets c flaw? (x >>= f) := by
  have h := hx.bind hf
  rwa [Option.or_none] at h

theorem meets_get {f : Context → Build β} (hf : Meets c flaw? (f c)) :
    Meets c flaw? ((get : Build Context) >>= f) :=
  Meets.after (.of_exec (exec_get c) (.refl c)) fun a d h _ => by
    cases h
    exact hf

theorem meets_modify {f : Context → Context} (grows : c.Extends (f c)) :
    Meets c none (modify f : Build PUnit) :=
  .of_exec (exec_modify f c) grows

theorem meets_make {form : Context → Form Node × Context} (grows : c.Extends (form c).2) :
    Meets c none (make form) :=
  .of_exec (exec_make form c) grows

theorem Meets.inScope {name : Name} {x : Build α} (hx : Meets (c.enter name) flaw? x) :
    Meets c flaw? (inScope name x) := by
  obtain ⟨e, hl⟩ := hx.grows.exists_leave
  have heq : exec (Build.inScope name x) c = ((exec x (c.enter name)).1, e) := by
    rw [exec_inScope, hl]
  constructor
  · rw [heq]
    exact .scope hx.grows hl
  · rw [heq]
    exact hx.ends

theorem meets_define {name : Name} (visible : (c.table.functionNamed name).isSome = true)
    (rejected : Bool) : Meets c none (define name rejected) := by
  cases rejected with
  | true => exact meets_pure c PUnit.unit
  | false =>
    obtain ⟨found, hf⟩ := Option.isSome_iff_exists.mp visible
    have ht : c.table.define? name = some (c.table.mark found) := by
      rw [Table.define?_eq, hf]
      rfl
    have he : exec (define name false) c = (.ok ⟨⟩, { c with table := c.table.mark found }) := by
      simp [define, exec_bind, exec_get, ht, exec_set]
    exact .of_exec he (steps_extends.define ht)

theorem meets_declareParams {params : List (Ty × Name)} (h : ∀ p ∈ params, p.1.isWritten = true)
    (c : Context) : Meets c none (declareParams params) :=
  .of_exec (exec_declareParams params c) (steps_extends.declareAll h c)

theorem meets_sizeText {size : Node} (h : size.fault? = none) (c : Context) :
    Meets c none (sizeText size) := by
  have heq : sizeText size = pure (size.text 0) := by
    unfold sizeText
    rw [Node.render, h]
  rw [heq]
  exact meets_pure c _

end Build

def Action.Stops (action : Action) : Prop := ∀ c, Meets c action.flaw? (build action)

section Parts

theorem meets_buildAll {items : List Action} (h : ∀ a ∈ items, a.Stops) (c : Context) :
    Meets c (firstFlaw? items) (buildAll items) := by
  induction items generalizing c with
  | nil =>
    rw [buildAll, firstFlaw?]
    exact meets_pure c []
  | cons a items ih =>
    rw [buildAll, firstFlaw?]
    refine (h a (by simp) c).bind fun n d _ _ => ?_
    exact (ih (fun b hb => h b (by simp [hb])) d).before fun ns e _ _ => meets_pure e (n :: ns)

theorem meets_buildOption {item : Option Action} (h : ∀ a ∈ item.toList, a.Stops) (c : Context) :
    Meets c (optionFlaw? item) (buildOption item) := by
  cases item with
  | none =>
    rw [buildOption, optionFlaw?]
    exact meets_pure c none
  | some a =>
    rw [buildOption, optionFlaw?]
    exact (h a (by simp) c).before fun n d _ _ => meets_pure d (some n)

theorem meets_block {lines : List Action} (h : ∀ a ∈ lines, a.Stops) (c : Context) :
    Meets c (firstFlaw? lines) (inScope .nothing (buildAll lines)) :=
  (meets_buildAll h (c.enter .nothing)).inScope

theorem meets_buildBranch {lines : Option (List Action)} (h : ∀ a ∈ lines.getD [], a.Stops)
    (c : Context) : Meets c (linesFlaw? lines) (buildBranch lines) := by
  cases lines with
  | none =>
    rw [buildBranch, linesFlaw?]
    exact meets_pure c none
  | some lines =>
    rw [buildBranch, linesFlaw?]
    exact (meets_block h c).before fun ns d _ _ => meets_pure d _

theorem meets_binding {type : Ty} (ht : type.isWritten = true) (name : Name)
    (value : Option (Node × Operand)) (c : Context) :
    Meets c none (make (Form.ofBinding type name value)) :=
  meets_make (steps_extends.trans (steps_extends.declare c name c.line (.plain ht)) (.report _ _))

theorem meets_buildBindings {type : Ty} (ht : type.isWritten = true)
    {bindings : List (Name × Option Action)} (h : ∀ b ∈ bindings, ∀ a ∈ b.2, a.Stops)
    (c : Context) : Meets c (bindingsFlaw? bindings) (buildBindings type bindings) := by
  induction bindings generalizing c with
  | nil =>
    rw [buildBindings, bindingsFlaw?]
    exact meets_pure c []
  | cons b bindings ih =>
    have rest (c : Context) := ih (fun b' hb' => h b' (by simp [hb'])) c
    obtain ⟨name, value⟩ := b
    cases value with
    | none =>
      rw [buildBindings, bindingsFlaw?]
      refine (meets_binding ht name none c).after fun n d _ _ => ?_
      exact (rest d).before fun ns e _ _ => meets_pure e (n :: ns)
    | some value =>
      rw [buildBindings, bindingsFlaw?]
      refine (h (name, some value) (by simp) value rfl c).bind fun v d _ _ => ?_
      refine (meets_binding ht name _ d).after fun n e _ _ => ?_
      exact (rest e).before fun ns f _ _ => meets_pure f (n :: ns)

theorem meets_buildLines {name : Name} {lines : List Action} (h : ∀ a ∈ lines, a.Stops)
    (rejected : Bool) {c : Context} (visible : (c.table.functionNamed name).isSome = true) :
    Meets c (firstFlaw? lines) (buildLines name rejected lines) := by
  induction lines generalizing c with
  | nil =>
    rw [buildLines, firstFlaw?]
    exact meets_pure c []
  | cons a lines ih =>
    rw [buildLines, firstFlaw?]
    refine (h a (by simp) c).bind fun n d _ hd => ?_
    have seen := hd.table.functionNamed_isSome visible
    refine (meets_define seen rejected).after fun _ e _ he => ?_
    have seen' := he.table.functionNamed_isSome seen
    exact (ih (fun b hb => h b (by simp [hb])) seen').before fun ns f _ _ => meets_pure f (n :: ns)

theorem meets_buildBody {params : List (Ty × Name)} (hp : ∀ p ∈ params, p.1.isWritten = true)
    {body : Option (List Action)} (h : ∀ a ∈ body.getD [], a.Stops) {name : Name}
    (rejected : Bool) {c : Context} (visible : (c.table.functionNamed name).isSome = true) :
    Meets c (linesFlaw? body) (buildBody name params rejected body) := by
  cases body with
  | none =>
    rw [buildBody, linesFlaw?]
    exact meets_pure c none
  | some lines =>
    rw [buildBody, linesFlaw?]
    refine Meets.before (Meets.inScope ?_) fun ns d _ _ => meets_pure d _
    refine (meets_declareParams hp (c.enter name)).after fun _ d _ hd => ?_
    have seen : (d.table.functionNamed name).isSome = true :=
      hd.table.functionNamed_isSome (by rwa [Context.enter, Table.functionNamed_enter])
    refine (meets_buildLines h rejected seen).before fun ns e _ he => ?_
    split
    · refine (meets_define (he.table.functionNamed_isSome seen) rejected).after fun _ f _ _ => ?_
      exact meets_pure f _
    · exact meets_pure e ns

theorem meets_of_operands {action : Action} {items : List Action}
    (ho : action.operands? = some items) (proper : action.Proper) (h : ∀ a ∈ items, a.Stops) :
    action.Stops := by
  intro c
  rw [Action.flaw?_of_operands? ho]
  have all := meets_buildAll h c
  have heq := exec_build_of_operands ho c
  cases hr : exec (buildAll items) c with
  | mk r d =>
    obtain ⟨grows, ends⟩ := all
    rw [hr] at grows ends heq
    cases hf : firstFlaw? items with
    | some flaw =>
      rw [hf] at ends
      have he : r = .error (.flaw flaw) := ends
      subst he
      exact ⟨by rwa [heq], by rw [heq]⟩
    | none =>
      rw [hf] at ends
      obtain ⟨nodes, he⟩ : ∃ nodes, r = .ok nodes := ends
      subst he
      exact .of_exec heq (grows.trans (steps_extends.made action proper nodes d))

theorem meets_loop {init update : Option Action} {test : Action} {body : List Action}
    (hh : ∀ a ∈ init.toList ++ update.toList, a.Stops) (ht : test.Stops)
    (hb : ∀ a ∈ body, a.Stops) : (Action.loop init test update body).Stops := by
  intro c
  rw [build, Action.flaw?]
  refine Meets.before (Meets.inScope ?_) fun _ d _ _ => meets_make (.report d _)
  refine (meets_buildOption (fun a ha => hh a (by simp [ha])) _).bind fun _ d _ _ => ?_
  refine (ht d).bind fun _ e _ _ => ?_
  refine (meets_buildOption (fun a ha => hh a (by simp [ha])) e).bind fun _ f _ _ => ?_
  exact (meets_block hb f).before fun _ g _ _ => meets_pure g _

theorem meets_conditional {condition : Action} {accepted : List Action}
    {rejected : Option (List Action)} (hc : condition.Stops)
    (hs : ∀ a ∈ accepted ++ rejected.getD [], a.Stops) :
    (Action.conditional condition accepted rejected).Stops := by
  intro c
  rw [build, Action.flaw?]
  refine (hc c).bind fun _ d _ _ => ?_
  refine (meets_block (fun a ha => hs a (by simp [ha])) d).bind fun _ e _ _ => ?_
  refine (meets_buildBranch (fun a ha => hs a (by simp [ha])) e).before fun _ f _ _ => ?_
  exact meets_make (.report f _)

theorem meets_function {returns : Ty} {name : Name} {params : List (Ty × Name)}
    {body : Option (List Action)} (proper : (Action.function returns name params body).Proper)
    (h : ∀ a ∈ body.getD [], a.Stops) : (Action.function returns name params body).Stops := by
  intro c
  have grows : c.Extends (c.declareFunction name (signatureOf params) returns c.line).2 := by
    refine steps_extends.declareFunction c name c.line (fun p hp => ?_) proper.1
    obtain ⟨q, hq, rfl⟩ := List.mem_map.mp hp
    exact proper.2 q hq
  have inner := c.functionNamed_declareFunction name (signatureOf params) returns c.line
  rw [build, Action.flaw?]
  refine meets_get ?_
  change Meets c _ (do
    set (c.declareFunction name (signatureOf params) returns c.line).2
    let body ← buildBody name params
      (c.declareFunction name (signatureOf params) returns c.line).1 body
    return functionNode c.line returns name params
      (c.declareFunction name (signatureOf params) returns c.line).1 body)
  generalize c.declareFunction name (signatureOf params) returns c.line = bound at grows inner
  refine Meets.after (.of_exec (exec_set c bound.2) grows) fun _ d hd _ => ?_
  cases hd
  have visible : (bound.2.table.functionNamed name).isSome = true := by
    obtain ⟨s, hs⟩ := Option.isSome_iff_exists.mp inner
    rw [Table.functionNamed_of_inner hs]
    rfl
  exact (meets_buildBody proper.2 h bound.1 visible).before fun _ e _ _ => meets_pure e _

end Parts

theorem Action.Fits.stops {allowed : Policy} {position : Position} {action : Action}
    (h : action.Fits allowed position) : action.Stops := by
  induction h with
  | lined line _ ih =>
    intro c
    rw [build, flaw?]
    exact (meets_modify (steps_extends.advance c line)).after fun _ d _ _ => ih d
  | @intro position action unlined here proper inside ih =>
    -- Forms that only have operands are alike; the others open scopes, declare or stop.
    cases ho : action.operands? with
    | some items =>
      exact meets_of_operands ho proper fun a ha => ih _ (mem_parts_of_operands? ho ha)
    | none =>
      cases action <;> simp only [operands?, isLined, reduceCtorEq] at ho unlined
      case faulty before flaw =>
        intro c
        rw [build, flaw?]
        refine (meets_buildAll (fun a ha => ?_) c).bind fun _ d _ _ => meets_fail d flaw
        exact ih (.item, a) (by simpa [parts] using ha)
      case declaration type kind symbolType bindings =>
        intro c
        rw [build, flaw?]
        refine meets_get ((meets_buildBindings proper (fun b hb a ha => ?_) c).before
          fun _ d _ _ => meets_pure d _)
        exact ih (.expression, a) (mem_parts_binding hb (Option.mem_toList.mpr ha))
      case sizedArray type name size =>
        have hsize : (Position.size, size) ∈ (sizedArray type name size).parts := by simp [parts]
        intro c
        rw [build, flaw?]
        refine (ih _ hsize c).before fun n d hn _ => ?_
        -- What was built can be rendered, so there is a text for the size.
        obtain ⟨t, run⟩ := (inside _ hsize).runs c [n] d (exec_one_node.mpr hn)
        refine (meets_sizeText (run.renders n (by simp)) d).after fun text e _ _ => ?_
        exact meets_make (steps_extends.declare e name e.line (.array text proper))
      case operation op items => cases (operands?_operation proper).symm.trans ho
      case block lines =>
        intro c
        rw [build, flaw?]
        refine (meets_block (fun a ha => ?_) c).before fun _ d _ _ => meets_pure d _
        exact ih (.statement, a) (by simpa [parts] using ha)
      case conditional condition accepted rejected =>
        refine meets_conditional (ih (.expression, condition) (by simp [parts])) fun a ha => ?_
        exact ih (.statement, a) (by simpa [parts] using ha)
      case loop init test update body =>
        exact meets_loop (fun a ha => ih (.header, a) (mem_parts_header ha))
          (ih (.expression, test) (by simp [parts]))
          (fun a ha => ih (.statement, a) (by simp [parts, ha]))
      case function returns name params body =>
        exact meets_function proper fun a ha => ih (.statement, a) (by simpa [parts] using ha)

namespace Session

variable {s : Session}

theorem ticks_error {rest : List Action} {fault : Fault} (hb : s.building = some rest)
    (h : (exec (buildAll rest) s.context).1 = .error fault) :
    (s.ticks rest.length).1 = .error (.build fault) := by
  -- The session changes with each tick, and what is left of the build with it.
  induction rest generalizing s with
  | nil => cases h
  | cons action rest ih =>
    rw [List.length_cons, ticks, tick_of_building hb]
    rw [buildAll, exec_bind] at h
    cases hx : exec (build action) s.context with
    | mk r d =>
      rw [hx] at h
      cases r with
      | error found =>
        cases h
        rfl
      | ok node =>
        refine ih rfl ?_
        change (exec (buildAll rest) d).1 = .error fault
        change (exec (buildAll rest >>= fun ns => pure (node :: ns)) d).1 = .error fault at h
        rw [exec_bind] at h
        cases hr : exec (buildAll rest) d with
        | mk r' e =>
          rw [hr] at h
          cases r' with
          | error found =>
            cases h
            rfl
          | ok nodes => cases h

theorem runAll_error {program : Value} {actions : List Action} {fault : Fault}
    (read : Action.sequence program = .ok actions)
    (stopped : (exec (buildAll actions) { reportAll := s.options.reportAll }).1 = .error fault)
    (name : String) : (s.runAll program name).1 = .error (.build fault) := by
  have hticks := ticks_error (s := { s.reset with name, actions, building := some actions }) rfl
    stopped
  unfold runAll
  rw [begin_of_read read]
  simp only [finishBuilding]
  split
  · rename_i hr
    rw [hr] at hticks
    cases hticks
    rfl
  · rename_i hr
    rw [hr] at hticks
    cases hticks

theorem exists_unwritable {program : List Value} {flaw : Flaw}
    (h : firstFlaw? (program.map Action.ofValue) = some flaw) (digits : flaw.family = .digits) :
    ∃ v ∈ program, v.writable = false := by
  obtain ⟨a, ha, found⟩ := exists_of_firstFlaw? h
  obtain ⟨v, hv, rfl⟩ := List.mem_map.mp ha
  cases written : v.writable with
  | false => exact ⟨v, hv, written⟩
  | true =>
    have bears : v.Bears (·.family ≠ .digits) := fun long => by simp [written] at long
    have read := v.every_read Action.inherited_family bears fun _ _ _ h => h
    cases read.action flaw found digits

theorem meets_program (program : List Value) (c : Context) :
    Meets c (firstFlaw? (program.map Action.ofValue)) (buildAll (program.map Action.ofValue)) := by
  refine meets_buildAll (List.forall_mem_map.mpr fun v _ => ?_) c
  exact (Action.wellFormed_ofValue v).stops

theorem runAll_of_flaw {program : List Value} {flaw : Flaw}
    (h : firstFlaw? (program.map Action.ofValue) = some flaw) (name : String) :
    (s.runAll (.list program) name).1 = .error (.build (.flaw flaw)) := by
  have ends := (meets_program program { reportAll := s.options.reportAll }).ends
  rw [h] at ends
  exact runAll_error (Reading.sequence_list program) ends name

/-- A program without a flaw has a tree with a line for each document, and the session answers with
the text that the tree renders to. -/
theorem runAll_of_no_flaw {program : List Value}
    (h : firstFlaw? (program.map Action.ofValue) = none) (name : String) :
    let r := s.runAll (.list program) name
    ∃ code nodes, r.1 = .ok code ∧ r.2.tree = .mk {} (.block "Program" nodes) ∧
      nodes.length = program.length ∧ r.2.tree.render 0 = .ok code := by
  intro r
  let c : Context := { reportAll := s.options.reportAll }
  have ends := (meets_program program c).ends
  rw [h] at ends
  obtain ⟨nodes, ends⟩ :
      ∃ nodes, (exec (buildAll (program.map Action.ofValue)) c).1 = .ok nodes := ends
  have built : exec (buildAll (program.map Action.ofValue)) c =
      (.ok nodes, (exec (buildAll (program.map Action.ofValue)) c).2) := by
    rw [← ends]
  obtain ⟨hcode, htree, -⟩ := runAll_built (Reading.sequence_list program) built name
  have runs : (Task.all (program.map Action.ofValue)).Runs :=
    runs_all (List.forall_mem_map.mpr fun v _ => (Action.wellFormed_ofValue v).runs)
  obtain ⟨t, run⟩ := runs c nodes _ built
  have renders : r.2.tree.fault? = none := by
    rw [htree]
    exact Node.lineFault?_eq_none run.renders
  refine ⟨_, nodes, hcode, htree, ?_, ?_⟩
  · simpa [Task.count] using run.length_eq
  · rw [Node.render, renders, htree]

/-- Whatever the documents of a program are, a session either gives the text that its tree renders
to, or stops with a flaw of the documents: the one that a build comes to first. It does not stop at
a number with too many digits unless there is one. -/
theorem runAll_text_or_flaw (s : Session) (program : List Value) (name : String) :
    let r := s.runAll (.list program) name
    (firstFlaw? (program.map Action.ofValue) = none ∧
        ∃ code, r.1 = .ok code ∧ r.2.tree.render 0 = .ok code) ∨
      ∃ flaw, firstFlaw? (program.map Action.ofValue) = some flaw ∧
        r.1 = .error (.build (.flaw flaw)) ∧
        (flaw.family = .digits → ∃ v ∈ program, v.writable = false) := by
  intro r
  cases h : firstFlaw? (program.map Action.ofValue) with
  | none =>
    obtain ⟨code, _, hcode, _, _, renders⟩ := runAll_of_no_flaw h name
    exact .inl ⟨rfl, code, hcode, renders⟩
  | some flaw => exact .inr ⟨flaw, rfl, runAll_of_flaw h name, exists_unwritable h⟩

/-- The least whole number that has too many digits to be written. -/
theorem runAll_long_constant :
    let constant := Value.object [("node", .string "const"), ("type", .string "int"),
      ("value", .int (.ofNat (Nat.pow 10 4300)))]
    ((Session.new {}).runAll (.list [constant]) "main").1 = .error (.build (.flaw .longNumber)) ∧
      Flaw.longNumber.family = .digits := by
  intro constant
  have found : firstFlaw? ([constant].map Action.ofValue) = some .longNumber := by decide +kernel
  exact ⟨runAll_of_flaw found "main", rfl⟩

end Session

theorem Action.Fits.flaw?_eq_none {position : Position} {action : Action}
    (h : action.Fits flawless position) : action.flaw? = none := by
  obtain ⟨t, n, d, run⟩ := h.total {}
  have built := exec_one_node.mp (exec_of_run run)
  have ends := (h.stops {}).ends
  cases hf : action.flaw? with
  | none => rfl
  | some flaw =>
    rw [hf, built] at ends
    cases ends

theorem firstFlaw?_eq_none {items : List Action} (h : ∀ a ∈ items, a.flaw? = none) :
    firstFlaw? items = none := by
  induction items with
  | nil => rfl
  | cons a items ih =>
    rw [firstFlaw?, h a (by simp), Option.none_or]
    exact ih fun b hb => h b (by simp [hb])

/-- Whatever there is to report about it, a program whose documents conform to the format is built
to its end, with a line for each document, and rendered. -/
theorem Session.runAll_of_conforms (s : Session) (program : List Value) (name : String)
    (conforms : ∀ v ∈ program, Conforms flawless .item v) :
    let r := s.runAll (.list program) name
    ∃ code nodes, r.1 = .ok code ∧ r.2.tree = .mk {} (.block "Program" nodes) ∧
      nodes.length = program.length ∧ r.2.tree.render 0 = .ok code := by
  refine runAll_of_no_flaw (firstFlaw?_eq_none (List.forall_mem_map.mpr fun v hv => ?_)) name
  exact ((conforms v hv).fits (by simp [flawless])).flaw?_eq_none

/-- A program in which nearly everything is wrong: names that are not declared or declared twice, a
function inside one of its name, two parameters of one name, a call that does not match and a
condition that is no truth value. -/
def muddle : List Value :=
  let ghost := Value.object [("node", .string "var"), ("name", .string "ghost")]
  let half := Value.object
    [("node", .string "const"), ("type", .string "float"), ("value", .string "0.5")]
  let inner := Value.object [("node", .string "function"), ("returns", .string "void"),
    ("name", .string "f"), ("body", .list [])]
  [.object [("node", .string "declaration"), ("type", .string "int"), ("line", .int 3),
      ("bindings", .list [.object [("name", .string "x"), ("init", ghost)],
        .object [("name", .string "x")]])],
    .object [("node", .string "function"), ("returns", .string "int"), ("name", .string "f"),
      ("params", .list [.list [.string "int", .string "a"], .list [.string "bool", .string "a"]]),
      ("body", .list [inner, .object [("node", .string "return")]])],
    .object [("node", .string "if"), ("then", .list []),
      ("condition", .object [("node", .string "call"), ("name", .string "f"),
        ("args", .list [.object [("node", .string "op"), ("op", .string "-"),
          ("operands", .list [half])]])])],
    .object [("node", .string "function"), ("returns", .string "void"), ("name", .string "g")]]

theorem Session.runAll_of_conforms_muddle :
    let r := (Session.new {}).runAll (.list muddle) "main"
    (∀ v ∈ muddle, Conforms flawless .item v) ∧ r.2.diagnostics.length = 6 ∧
      ∃ code nodes, r.1 = .ok code ∧ r.2.tree = .mk {} (.block "Program" nodes) ∧
        nodes.length = muddle.length ∧ r.2.tree.render 0 = .ok code := by
  intro r
  obtain ⟨hcheck, reported⟩ : (muddle.all fun v => v.conforms flawless 4 .item) = true ∧
      r.2.diagnostics.length = 6 := by decide +kernel
  have conforms := Conforms.forall_of_check hcheck
  exact ⟨conforms, reported, runAll_of_conforms (Session.new {}) muddle "main" conforms⟩

end Treewright
