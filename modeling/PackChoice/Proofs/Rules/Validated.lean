import PackChoice.Proofs.Sequencing
import PackChoice.Proofs.Walk
import PackChoice.Rules.Evaluation
import PackChoice.Rules.Validation

/-!
Rules that pass validation can be evaluated. The walk of `validate` leaves the ids in an order in
which each stands behind those it refers to, and evaluation follows the references the other way:
the ids of a chain lead to the id in which evaluation stands, so none of them is met again
(`evalReference_ok_of_mem`). Hence every expression of a pack or a requirement has a value, whatever
the variables (`evalExpression_ok_of_validate`).
-/

namespace PackChoice.Rules

open Relation (ReflTransGen TransGen)

variable {r : Rules} {vars : Variables} {chain : List String} {id : String}

/-! ## One step of evaluation -/

theorem evalReference_of_some (hid : id ∉ chain) {condition : Condition}
    (hg : r.conditions.get? id = some condition) :
    r.evalReference vars chain id = (r.evalCondition vars (chain ++ [id]) condition).map some := by
  rw [evalReference, if_neg hid]
  split
  · next hn => rw [hg] at hn; cases hn
  · next condition' hg' =>
    rw [hg] at hg'
    obtain rfl := Option.some.inj hg'
    cases r.evalCondition vars (chain ++ [id]) condition <;> rfl

theorem evalReference_of_none (hid : id ∉ chain) (hg : r.conditions.get? id = none)
    (hk : r.checkKnown id = .ok ()) : r.evalReference vars chain id = .ok none := by
  rw [checkKnown, NameMap.contains, hg] at hk
  rw [evalReference, if_neg hid]
  split
  · cases hp : r.policy with
    | fail => simp [hp] at hk
    | assumeFalse => rfl
  · next hg' => rw [hg] at hg'; cases hg'

theorem evalCondition_ok (condition : Condition)
    (h : ∀ id ∈ condition.references, ∃ v, r.evalReference vars chain id = .ok v) :
    ∃ b, r.evalCondition vars chain condition = .ok b := by
  induction condition with
  | «variable» name value =>
    rw [evalCondition]
    exact ⟨_, rfl⟩
  | not condition ih =>
    obtain ⟨b, hb⟩ := ih h
    rw [evalCondition, hb]
    exact ⟨_, rfl⟩
  | ref id =>
    obtain ⟨v, hv⟩ := h id (List.mem_singleton_self id)
    rw [evalCondition, hv]
    exact ⟨_, rfl⟩
  | join op left right ihl ihr =>
    obtain ⟨a, ha⟩ := ihl fun id hid => h id (List.mem_append_left _ hid)
    obtain ⟨b, hb⟩ := ihr fun id hid => h id (List.mem_append_right _ hid)
    rw [evalCondition, ha, hb]
    exact ⟨_, rfl⟩

theorem evalExpression_ok (expression : Expression)
    (h : ∀ id ∈ expression.references, ∃ v, r.evalReference vars [] id = .ok v) :
    ∃ b, r.evalExpression vars expression = .ok b := by
  induction expression with
  | term id negated =>
    obtain ⟨v, hv⟩ := h id (List.mem_singleton_self id)
    rw [evalExpression, hv]
    cases v <;> exact ⟨_, rfl⟩
  | join op left right ihl ihr =>
    obtain ⟨a, ha⟩ := ihl fun id hid => h id (List.mem_append_left _ hid)
    obtain ⟨b, hb⟩ := ihr fun id hid => h id (List.mem_append_right _ hid)
    rw [evalExpression, ha, hb]
    exact ⟨_, rfl⟩

/-! ## The graph of references -/

theorem next_of_some {condition : Condition} (h : r.conditions.get? id = some condition) :
    r.referenceGraph.next id = .ok condition.references := by
  simp only [referenceGraph, h]

theorem next_of_none (h : r.conditions.get? id = none) :
    r.referenceGraph.next id = (r.checkKnown id).map fun _ => [] := by
  simp only [referenceGraph, h]
  cases r.checkKnown id <;> rfl

theorem covers (r : Rules) (id : String) : r.referenceGraph.Covers id := by
  rintro x y - ⟨ids, hnext, hy⟩
  cases hg : r.conditions.get? x with
  | some condition => exact NameMap.mem_keys_of_get? hg
  | none =>
    rw [next_of_none hg] at hnext
    cases hk : r.checkKnown x with
    | error e =>
      rw [hk] at hnext
      cases hnext
    | ok u =>
      rw [hk] at hnext
      rw [← Except.ok.inj hnext] at hy
      cases hy

/-- The ids of a chain refer to the id in which evaluation stands. That none of them can be
reached from it is what the chain must satisfy. -/
theorem evalReference_ok_of_mem {order : List String} (h : r.referenceGraph.Finished order) :
    ∀ id ∈ order, ∀ chain, (∀ x ∈ chain, ¬ r.referenceGraph.Reaches id x) →
      ∃ v, r.evalReference vars chain id = .ok v := by
  refine h.induct fun id ids hfree hnext ih chain hchain => ?_
  have hid : id ∉ chain := fun hid => hchain id hid ReflTransGen.refl
  cases hg : r.conditions.get? id with
  | none =>
    rw [next_of_none hg] at hnext
    cases hk : r.checkKnown id with
    | error e =>
      rw [hk] at hnext
      cases hnext
    | ok u => exact ⟨none, evalReference_of_none hid hg hk⟩
  | some condition =>
    have hids := hnext
    rw [next_of_some hg] at hids
    obtain rfl := Except.ok.inj hids
    have hrefs : ∀ x ∈ condition.references,
        ∃ v, r.evalReference vars (chain ++ [id]) x = .ok v := by
      intro x hx
      have hstep : r.referenceGraph.Leads id x := ⟨_, hnext, hx⟩
      refine ih x hx _ fun y hy hxy => ?_
      rcases List.mem_append.1 hy with hy | hy
      · exact hchain y hy (ReflTransGen.head hstep hxy)
      · rw [List.mem_singleton.1 hy] at hxy
        exact hfree (TransGen.head' hstep hxy)
    obtain ⟨b, hb⟩ := evalCondition_ok condition hrefs
    rw [evalReference_of_some hid hg, hb]
    exact ⟨_, rfl⟩

/-! ## Validation -/

theorem validateIn_eq_ok_iff {ofPacks : List Expression} :
    r.validateIn ofPacks = .ok () ↔
      (∃ order, r.referenceGraph.finishOrder r.conditions.keys = .ok order) ∧
        ∀ e ∈ r.expressionsWith ofPacks, ∀ id ∈ e.references, r.checkKnown id = .ok () := by
  rw [validateIn]
  split
  · next e he => simp [he]
  · next order ho =>
    rw [forM_eq_ok_iff]
    constructor
    · intro h
      exact ⟨⟨order, ho⟩, fun e he id hid => h id (List.mem_flatMap.2 ⟨e, he, hid⟩)⟩
    · rintro ⟨-, h⟩ id hid
      obtain ⟨e, he, hid⟩ := List.mem_flatMap.1 hid
      exact h e he id hid

theorem validate_eq_ok_iff :
    r.validate = .ok () ↔
      (∃ order, r.referenceGraph.finishOrder r.conditions.keys = .ok order) ∧
        ∀ e ∈ r.expressions, ∀ id ∈ e.references, r.checkKnown id = .ok () :=
  validateIn_eq_ok_iff

theorem evalExpression_ok_of_validate (h : r.validate = .ok ()) (vars : Variables) :
    ∀ e ∈ r.expressions, ∃ b, r.evalExpression vars e = .ok b := by
  obtain ⟨⟨order, ho⟩, hknown⟩ := validate_eq_ok_iff.1 h
  obtain ⟨hf, hmem⟩ := Graph.finishOrder_eq_ok (fun id _ => covers r id) ho
  intro e he
  refine evalExpression_ok e fun id hid => ?_
  cases hg : r.conditions.get? id with
  | none => exact ⟨none, evalReference_of_none List.not_mem_nil hg (hknown e he id hid)⟩
  | some condition =>
    have hid : id ∈ order := (hmem id).2 ⟨id, NameMap.mem_keys_of_get? hg, ReflTransGen.refl⟩
    exact evalReference_ok_of_mem hf id hid [] (by simp)

theorem unmetRequirements_ok_of_validate (h : r.validate = .ok ()) (vars : Variables) :
    ∃ unmet, r.unmetRequirements vars = .ok unmet := by
  have htest : ∀ q ∈ r.requirements, ∃ b,
      (do return !(← r.evalExpression vars q.expression) : Except Error Bool) = .ok b := by
    intro q hq
    have hmem : q.expression ∈ r.expressions := List.mem_append_right _ (List.mem_map_of_mem hq)
    obtain ⟨b, hb⟩ := evalExpression_ok_of_validate h vars _ hmem
    rw [hb]
    exact ⟨_, rfl⟩
  obtain ⟨unmet, hu⟩ := sift_ok htest
  unfold unmetRequirements
  rw [hu]
  exact ⟨_, rfl⟩

end PackChoice.Rules
