import Treewright.Proofs.Joins
set_option autoImplicit false

namespace Treewright

open Build

/-- The argument got a type, which is neither that of the parameter nor an integer for a float. -/
def Clashes (param : Ty) (arg : Node) : Prop :=
  arg.error = false ∧ arg.type ≠ .any ∧ param.agrees arg.type = false ∧
    ¬(param = .float ∧ arg.type = .int)

instance (param : Ty) (arg : Node) : Decidable (Clashes param arg) :=
  inferInstanceAs (Decidable (_ ∧ _ ∧ _ ∧ ¬_))

theorem mismatches_operand (param : Ty) (arg : Node) :
    arg.operand.mismatches param = true ↔ Clashes param arg := by
  simp only [Operand.mismatches, Operand.spoiled, Ty.isAssignable, Node.operand, Clashes,
    Bool.and_eq_true, Bool.not_eq_true', ← Bool.not_eq_true, Bool.or_eq_true, not_or, and_assoc,
    Ty.isError_iff, Ty.canCoerce_iff, ne_eq]

theorem spoiled_operand (arg : Node) :
    arg.operand.spoiled = true ↔ arg.error = true ∨ arg.type = .any := by
  simp [Operand.spoiled, Node.operand]

theorem widens_operand (param : Ty) (arg : Node) :
    arg.operand.widens param = true ↔ arg.error = false ∧ arg.type = .int ∧ param = .float := by
  rw [Operand.widens_iff]
  constructor
  · rintro ⟨unspoiled, float, int⟩
    have sound := mt (spoiled_operand arg).mpr (by simp [unspoiled])
    exact ⟨by simpa using fun h => sound (.inl h), int, float⟩
  · rintro ⟨unfailed, int, float⟩
    have int' : arg.operand.type = .int := int
    refine ⟨?_, float, int⟩
    rw [← Bool.not_eq_true, spoiled_operand, unfailed, int]
    simp

theorem canCoerce_of_agrees {param type : Ty} (h : param.agrees type = true) :
    param.canCoerce type = false := by
  rw [Bool.eq_false_iff]
  intro hc
  obtain ⟨rfl, rfl⟩ := (Ty.canCoerce_iff _ _).mp hc
  cases h

theorem checkArguments_all (name : Name) (i : Nat) (params : List Ty) (args : List Operand) :
    checkArguments true name i params args =
      { coerced := (((params.zip args).zipIdx i).filter fun x => x.1.2.widens x.1.1).map (·.2)
        failed := (params.zip args).any fun x => x.2.spoiled || x.2.mismatches x.1
        problems := ((params.zip args).filter fun x => x.2.mismatches x.1).map fun x =>
          .param name x.1 x.2.type } := by
  induction params generalizing i args with
  | nil => simp [checkArguments]
  | cons param params ih =>
    cases args with
    | nil => simp [checkArguments]
    | cons arg args =>
      rw [checkArguments, ih, List.zip_cons_cons, List.zipIdx_cons, List.filter_cons,
        List.filter_cons, List.any_cons]
      cases hs : arg.spoiled with
      | true => simp [Operand.widens, Operand.mismatches, hs]
      | false =>
        cases ha : param.agrees arg.type with
        | true =>
          have hc := canCoerce_of_agrees ha
          simp [Operand.widens, Operand.mismatches, Ty.isAssignable, hs, ha, hc]
        | false =>
          cases hc : param.canCoerce arg.type with
          | true => simp [Operand.widens, Operand.mismatches, Ty.isAssignable, hs, ha, hc]
          | false => simp [Operand.widens, Operand.mismatches, Ty.isAssignable, hs, ha, hc]

section

variable (name : Name) (params : List Ty) (args : List Node)

theorem problems_checkArguments_all :
    (checkArguments true name 0 params (args.map Node.operand)).problems =
      ((params.zip args).filter fun x => Clashes x.1 x.2).map fun x =>
        .param name x.1 x.2.type := by
  rw [checkArguments_all, List.zip_map_right, List.filter_map, List.map_map]
  have same : (fun x : Ty × Operand => x.2.mismatches x.1) ∘ Prod.map id Node.operand =
      fun x : Ty × Node => decide (Clashes x.1 x.2) := by
    funext x
    rw [Bool.eq_iff_iff, decide_eq_true_iff]
    exact mismatches_operand x.1 x.2
  rw [same]
  rfl

theorem mem_coerced_checkArguments_all (i : Nat) :
    i ∈ (checkArguments true name 0 params (args.map Node.operand)).coerced ↔
      params[i]? = some .float ∧
        ∃ arg, args[i]? = some arg ∧ arg.error = false ∧ arg.type = .int := by
  have place (x : Ty × Operand) : (x, i) ∈ (params.zip (args.map Node.operand)).zipIdx ↔
      params[i]? = some x.1 ∧ ∃ arg, args[i]? = some arg ∧ arg.operand = x.2 := by
    rw [List.mem_zipIdx_iff_getElem?, List.getElem?_zip_eq_some, List.getElem?_map,
      Option.map_eq_some_iff]
  rw [checkArguments_all]
  simp only [List.mem_map, List.mem_filter]
  constructor
  · rintro ⟨⟨⟨param, operand⟩, j⟩, ⟨found, widens⟩, rfl⟩
    obtain ⟨hp, arg, ha, rfl⟩ := (place _).mp found
    obtain ⟨unfailed, int, rfl⟩ := (widens_operand param arg).mp widens
    exact ⟨hp, arg, ha, unfailed, int⟩
  · rintro ⟨hp, arg, ha, unfailed, int⟩
    exact ⟨((.float, arg.operand), i), ⟨(place _).mpr ⟨hp, arg, ha, rfl⟩,
      (widens_operand .float arg).mpr ⟨unfailed, int, rfl⟩⟩, rfl⟩

theorem failed_checkArguments_all (h : params.length = args.length) :
    (checkArguments true name 0 params (args.map Node.operand)).failed = true ↔
      (∃ arg ∈ args, arg.error = true ∨ arg.type = .any) ∨
        ∃ x ∈ params.zip args, Clashes x.1 x.2 := by
  have all_args : (∃ arg ∈ args, arg.error = true ∨ arg.type = .any) ↔
      ∃ x ∈ params.zip args, x.2.error = true ∨ x.2.type = .any := by
    conv_lhs => rw [← List.map_snd_zip h.ge]
    simp only [List.mem_map, exists_exists_and_eq_and]
  rw [checkArguments_all, List.zip_map_right, List.any_map, List.any_eq_true, all_args]
  simp only [Function.comp_apply, Prod.map_snd, Prod.map_fst, id_eq, Bool.or_eq_true,
    spoiled_operand, mismatches_operand, and_or_left, exists_or]

end

theorem exec_call (name : Name) (args : List Node) (c : Context) :
    let checked := checkCall c.reportAll c.table name (args.map Node.operand)
    ∃ node, exec (make (Form.ofCall name (.mk {} (.arguments args)) (args.map Node.operand))) c =
        (.ok node, c.report checked.2.problems) ∧
      node.error = checked.2.failed ∧ node.type = checked.1 ∧ node.widened = checked.2.coerced :=
  ⟨_, exec_make _ c, rfl, rfl, rfl⟩

/-- The three ways of a call, and what is reported, widened and failed in each. -/
theorem call_checked_exactly (name : Name) (args : List Node) (c : Context) :
    ∃ node d,
      exec (make (Form.ofCall name (.mk {} (.arguments args)) (args.map Node.operand))) c =
        (.ok node, d) ∧
      (c.table.functionNamed name = none →
        node.error = true ∧ node.type = .any ∧ d = c.report [.undeclared name]) ∧
      ∀ f, c.table.functionNamed name = some f →
        (f.paramTypes.length ≠ args.length →
          node.error = true ∧ node.type = .any ∧
            d = c.report [.paramCount name f.paramTypes.length args.length]) ∧
        (f.paramTypes.length = args.length →
          node.type = f.returns?.getD .void ∧
            (c.reportAll = true →
              d = c.report (((f.paramTypes.zip args).filter fun x => Clashes x.1 x.2).map fun x =>
                .param name x.1 x.2.type) ∧
              (∀ i, i ∈ node.widened ↔ f.paramTypes[i]? = some .float ∧
                ∃ arg, args[i]? = some arg ∧ arg.error = false ∧ arg.type = .int) ∧
              (node.error = true ↔ (∃ arg ∈ args, arg.error = true ∨ arg.type = .any) ∨
                ∃ x ∈ f.paramTypes.zip args, Clashes x.1 x.2))) := by
  obtain ⟨node, made, error, type, widened⟩ := exec_call name args c
  refine ⟨node, _, made, fun unknown => ?_, fun f found => ⟨fun other => ?_, fun same => ?_⟩⟩
  · rw [error, type, checkCall, unknown]
    exact ⟨rfl, rfl, rfl⟩
  · have counts : f.paramTypes.length ≠ (args.map Node.operand).length := by simpa using other
    have checked : checkCall c.reportAll c.table name (args.map Node.operand) =
        (.any, { failed := true,
                 problems := [.paramCount name f.paramTypes.length args.length] }) := by
      rw [checkCall, found, ← List.length_map Node.operand]
      exact if_pos counts
    rw [error, type, checked]
    exact ⟨rfl, rfl, rfl⟩
  · have checked : checkCall c.reportAll c.table name (args.map Node.operand) =
        (f.returns?.getD .void,
          checkArguments c.reportAll name 0 f.paramTypes (args.map Node.operand)) := by
      rw [checkCall, found]
      exact if_neg (by simpa using same)
    rw [error, type, widened, checked]
    refine ⟨rfl, fun all => ?_⟩
    rw [all]
    exact ⟨by rw [problems_checkArguments_all], mem_coerced_checkArguments_all name _ args,
      failed_checkArguments_all name _ args same⟩

/-- A function of a float, an integer and a boolean, called with two integers and a float. -/
theorem call_checked_exactly_mixed :
    let g := Name.text "g"
    let params := [(Ty.float, Value.string "a"), (.int, .string "b"), (.bool, .string "c")]
    let args := [Ty.int, .int, .float].map fun type => Node.mk {} (.constant type "1")
    let c := (Context.declareFunction {} g params .int 1).2
    ∃ node d,
      exec (make (Form.ofCall g (.mk {} (.arguments args)) (args.map Node.operand))) c =
        (.ok node, d) ∧
      node.type = .int ∧ d = c.report [.param g .bool .float] ∧ node.error = true ∧
      0 ∈ node.widened ∧ 1 ∉ node.widened := by
  intro g params args c
  let symbol : Symbol :=
    ⟨0, g, 1, .text "global",
      .function [(.string "a", .float), (.string "b", .int), (.string "c", .bool)] (some .int)⟩
  obtain ⟨node, d, made, -, checked⟩ := call_checked_exactly g args c
  obtain ⟨type, rest⟩ := (checked symbol (by decide)).2 rfl
  obtain ⟨reports, widened, error⟩ := rest rfl
  refine ⟨node, d, made, type, reports, error.mpr ?_, (widened 0).mpr ?_, fun h => ?_⟩
  · exact .inr ⟨(.bool, .mk {} (.constant .float "1")), by simp [symbol, Symbol.paramTypes,
      Symbol.params?, args], by decide⟩
  · exact ⟨rfl, _, rfl, rfl, rfl⟩
  · cases ((widened 1).mp h).1

end Treewright
