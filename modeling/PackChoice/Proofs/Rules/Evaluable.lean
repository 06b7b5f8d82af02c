import Mathlib.Data.List.Permutation
import PackChoice.Proofs.Rules.Registration
import PackChoice.Proofs.Rules.Validated

/-!
Validation tells exactly whether the rules can be evaluated (`Built.validate_exact`). Where a
registered id can be evaluated, so can every id that it refers to, in a longer chain
(`evalReference_ok_of_leads`); so no id leads back into its own chain, and none is unknown where
that is not allowed. A validation that fails names a flaw of the rules as it stands in them
(`Flaw`).
-/

namespace PackChoice.Rules

open Relation (ReflTransGen TransGen)

variable {r r' : Rules} {vars : Variables} {chain : List String} {id : String}

/-! ## Rules built step by step -/

/-- The rules that can be built from rules without entries. A step that is refused leaves the rules
as they are. -/
inductive Built : Rules → Prop where
  | empty (policy : UnknownPolicy) : Built { policy }
  | register {r r' : Rules} {id : String} {condition : Condition} :
    Built r → r.register id condition = .ok r' → Built r'
  | setPackCondition {r : Rules} (key : String) (expression : Expression) :
    Built r → Built (r.setPackCondition key expression)
  | addRequirement {r r' : Rules} {requirement : Requirement} :
    Built r → r.addRequirement requirement = .ok r' → Built r'
  | setPolicy {r : Rules} (policy : UnknownPolicy) : Built r → Built { r with policy }

namespace Built

/-- The expression kept beside the text of a requirement is the one written in the text. -/
theorem parse_requirement (h : r.Built) :
    ∀ q ∈ r.requirements, Expression.parse? q.condition = some q.expression := by
  induction h with
  | empty policy => exact fun q hq => absurd hq List.not_mem_nil
  | @register r r' id condition _ hr ih =>
    unfold Rules.register at hr
    split at hr
    · split at hr
      · cases hr
      · obtain rfl := Except.ok.inj hr
        exact ih
    · cases hr
  | setPackCondition key expression _ ih => exact ih
  | @addRequirement r r' requirement _ hr ih =>
    obtain ⟨expression, he, hr⟩ := bind_eq_ok_iff.1 hr
    obtain rfl := pure_eq_ok_iff.1 hr
    intro q hq
    rcases List.mem_append.1 hq with hq | hq
    · exact ih q hq
    · rw [List.mem_singleton.1 hq]
      unfold Expression.parse at he
      split at he
      · next e hp => rw [hp, Except.ok.inj he]
      · cases he
  | setPolicy policy _ ih => exact ih

theorem registerAll {conditions : List (String × Condition)} (h : r.Built)
    (hr : r.registerAll conditions = .ok r') : r'.Built :=
  foldlM_keeps (fun _ _ _ _ ha hstep => ha.register hstep) h hr

end Built

/-! ## What an evaluation that succeeds has met -/

theorem evalReference_of_mem (h : id ∈ chain) :
    r.evalReference vars chain id = .error (.cyclicCondition (chain ++ [id])) := by
  rw [evalReference, if_pos h]

theorem not_mem_of_evalReference {v : Option Bool} (h : r.evalReference vars chain id = .ok v) :
    id ∉ chain := by
  intro hid
  rw [evalReference_of_mem hid] at h
  cases h

theorem checkKnown_of_evalReference {v : Option Bool}
    (h : r.evalReference vars chain id = .ok v) : r.checkKnown id = .ok () := by
  unfold checkKnown
  split
  · rfl
  · next hid =>
    have hnone : r.conditions.get? id = none := by
      simpa [NameMap.contains] using hid
    have hchain := not_mem_of_evalReference h
    rw [evalReference, if_neg hchain] at h
    split at h
    · cases hp : r.policy with
      | fail => rw [hp] at h; cases h
      | assumeFalse => rfl
    · next hsome => rw [hnone] at hsome; cases hsome

theorem references_ok_of_evalCondition (condition : Condition) {b : Bool}
    (h : r.evalCondition vars chain condition = .ok b) :
    ∀ id ∈ condition.references, ∃ v, r.evalReference vars chain id = .ok v := by
  induction condition generalizing b with
  | «variable» name value => exact fun id hid => absurd hid List.not_mem_nil
  | not condition ih =>
    rw [evalCondition] at h
    split at h
    · cases h
    · next value hv => exact ih hv
  | ref id =>
    rw [evalCondition] at h
    split at h
    · cases h
    · next value hv =>
      intro id' hid
      rw [List.mem_singleton.1 hid]
      exact ⟨value, hv⟩
  | join op left right ihl ihr =>
    rw [evalCondition] at h
    split at h
    · cases h
    · next a ha =>
      split at h
      · cases h
      · next c hc =>
        intro id hid
        exact (List.mem_append.1 hid).elim (ihl ha id) (ihr hc id)

theorem references_ok_of_evalExpression (expression : Expression) {b : Bool}
    (h : r.evalExpression vars expression = .ok b) :
    ∀ id ∈ expression.references, ∃ v, r.evalReference vars [] id = .ok v := by
  induction expression generalizing b with
  | term id negated =>
    intro id' hid
    rw [List.mem_singleton.1 hid]
    rw [evalExpression] at h
    split at h
    · cases h
    · next hv => exact ⟨_, hv⟩
    · next hv => exact ⟨_, hv⟩
  | join op left right ihl ihr =>
    rw [evalExpression] at h
    split at h
    · cases h
    · next a ha =>
      split at h
      · cases h
      · next c hc =>
        intro id hid
        exact (List.mem_append.1 hid).elim (ihl ha id) (ihr hc id)

/-- A condition refers to an id. -/
def RefersTo (r : Rules) (owner id : String) : Prop :=
  ∃ condition, r.conditions.get? owner = some condition ∧ id ∈ condition.references

theorem leads_iff {owner : String} :
    r.referenceGraph.Leads owner id ↔ r.RefersTo owner id := by
  constructor
  · rintro ⟨ids, hids, hid⟩
    cases hg : r.conditions.get? owner with
    | some condition =>
      rw [next_of_some hg] at hids
      exact ⟨condition, hg, Except.ok.inj hids ▸ hid⟩
    | none =>
      rw [next_of_none hg] at hids
      cases hk : r.checkKnown owner with
      | error e => rw [hk] at hids; cases hids
      | ok u =>
        rw [hk] at hids
        rw [← Except.ok.inj hids] at hid
        cases hid
  · rintro ⟨condition, hg, hid⟩
    exact ⟨condition.references, next_of_some hg, hid⟩

theorem RefersTo.mem_keys {owner : String} (h : r.RefersTo owner id) :
    owner ∈ r.conditions.keys := by
  obtain ⟨condition, hg, -⟩ := h
  exact NameMap.mem_keys_of_get? hg

theorem evalReference_ok_of_leads {owner : String} {v : Option Bool}
    (h : r.evalReference vars chain owner = .ok v) (hid : r.referenceGraph.Leads owner id) :
    ∃ w, r.evalReference vars (chain ++ [owner]) id = .ok w := by
  obtain ⟨condition, hg, hid⟩ := leads_iff.1 hid
  rw [evalReference_of_some (not_mem_of_evalReference h) hg] at h
  cases hc : r.evalCondition vars (chain ++ [owner]) condition with
  | error e => rw [hc] at h; cases h
  | ok b => exact references_ok_of_evalCondition condition hc id hid

theorem evalReference_ok_of_reaches {x y : String} {v : Option Bool}
    (h : r.evalReference vars chain x = .ok v) (hxy : r.referenceGraph.Reaches x y) :
    ∃ longer w, (∀ z ∈ chain, z ∈ longer) ∧ r.evalReference vars longer y = .ok w := by
  induction hxy with
  | refl => exact ⟨chain, v, fun _ hz => hz, h⟩
  | tail _ hyz ih =>
    obtain ⟨longer, w, hsub, hw⟩ := ih
    obtain ⟨w', hw'⟩ := evalReference_ok_of_leads hw hyz
    exact ⟨_, w', fun z hz => List.mem_append_left _ (hsub z hz), hw'⟩

theorem not_onCircle_of_evalReference {v : Option Bool}
    (h : r.evalReference vars chain id = .ok v) : ¬ r.referenceGraph.OnCircle id := by
  intro hcircle
  obtain ⟨next, hnext, hback⟩ := TransGen.head'_iff.1 hcircle
  obtain ⟨w, hw⟩ := evalReference_ok_of_leads h hnext
  obtain ⟨longer, w', hsub, hw'⟩ := evalReference_ok_of_reaches hw hback
  exact not_mem_of_evalReference hw' (hsub id (List.mem_append_right _ List.mem_cons_self))

theorem next_ok_of_checkKnown (h : r.checkKnown id = .ok ()) :
    ∃ ids, r.referenceGraph.next id = .ok ids := by
  cases hg : r.conditions.get? id with
  | some condition => exact ⟨_, next_of_some hg⟩
  | none => exact ⟨[], by rw [next_of_none hg, h]; rfl⟩

/-! ## Rules that can be evaluated -/

/-- Everything that the rules are asked for has a value. -/
structure Evaluable (r : Rules) (vars : Variables) : Prop where
  conditions : ∀ id ∈ r.conditions.keys, ∃ b, r.evaluate vars id = .ok b
  packs : ∀ key, ∃ b, r.canInstall vars key = .ok b
  requirements : ∃ unmet, r.unmetRequirements vars = .ok unmet

theorem evaluate_of_mem_keys (h : id ∈ r.conditions.keys) :
    r.evaluate vars id = r.evalExpression vars (.term id false) :=
  evaluate_of_isId (r.ids_valid id h)

theorem mem_expressions {e : Expression} :
    e ∈ r.expressions ↔
      (∃ key, r.packConditions.get? key = some e) ∨ ∃ q ∈ r.requirements, q.expression = e := by
  simp only [expressions, expressionsWith, List.mem_append, NameMap.values, List.mem_map,
    Prod.exists, exists_eq_right, NameMap.get?_eq_some_iff]

namespace Evaluable

theorem expression_ok (h : r.Evaluable vars) :
    ∀ e ∈ r.expressions, ∃ b, r.evalExpression vars e = .ok b := by
  intro e he
  rcases mem_expressions.1 he with ⟨key, hg⟩ | ⟨q, hq, rfl⟩
  · obtain ⟨b, hb⟩ := h.packs key
    rw [canInstall, hg] at hb
    exact ⟨b, hb⟩
  · obtain ⟨unmet, hu⟩ := h.requirements
    obtain ⟨kept, hs, -⟩ := bind_eq_ok_iff.1 hu
    obtain ⟨b, hb⟩ := ok_of_sift_eq_ok hs q hq
    obtain ⟨value, hvalue, -⟩ := bind_eq_ok_iff.1 hb
    exact ⟨value, hvalue⟩

theorem reference_ok (h : r.Evaluable vars) (hid : id ∈ r.conditions.keys) :
    ∃ v, r.evalReference vars [] id = .ok v := by
  obtain ⟨b, hb⟩ := h.conditions id hid
  rw [evaluate_of_mem_keys hid] at hb
  exact references_ok_of_evalExpression _ hb id List.mem_cons_self

theorem validate_ok (h : r.Evaluable vars) : r.validate = .ok () := by
  refine validate_eq_ok_iff.2 ⟨?_, fun e he id hid => ?_⟩
  · refine (Graph.finishOrder_ok_iff fun id _ => covers r id).2 fun x hx y hxy => ?_
    obtain ⟨v, hv⟩ := h.reference_ok hx
    obtain ⟨longer, w, -, hw⟩ := evalReference_ok_of_reaches hv hxy
    exact ⟨next_ok_of_checkKnown (checkKnown_of_evalReference hw), not_onCircle_of_evalReference hw⟩
  · obtain ⟨b, hb⟩ := h.expression_ok e he
    obtain ⟨v, hv⟩ := references_ok_of_evalExpression e hb id hid
    exact checkKnown_of_evalReference hv

end Evaluable

theorem evaluate_ok_of_validate (h : r.validate = .ok ()) (vars : Variables) :
    ∀ id ∈ r.conditions.keys, ∃ b, r.evaluate vars id = .ok b := by
  obtain ⟨⟨order, ho⟩, -⟩ := validate_eq_ok_iff.1 h
  obtain ⟨hf, hmem⟩ := Graph.finishOrder_eq_ok (fun id _ => covers r id) ho
  intro id hid
  rw [evaluate_of_mem_keys hid]
  refine evalExpression_ok _ fun id' hid' => ?_
  rw [List.mem_singleton.1 hid']
  exact evalReference_ok_of_mem hf id ((hmem id).2 ⟨id, hid, ReflTransGen.refl⟩) [] (by simp)

theorem evaluable_of_validate (h : r.validate = .ok ()) (vars : Variables) : r.Evaluable vars where
  conditions := evaluate_ok_of_validate h vars
  packs key := by
    unfold canInstall
    split
    · exact ⟨true, rfl⟩
    · next e hg => exact evalExpression_ok_of_validate h vars e (mem_expressions.2 (.inl ⟨key, hg⟩))
  requirements := unmetRequirements_ok_of_validate h vars

/-! ## Flaws -/

/-- Something in the rules refers to an id: a condition, the expression of a pack or the text of a
requirement. -/
inductive Mentions (r : Rules) (id : String) : Prop where
  | condition {owner : String} : r.RefersTo owner id → Mentions r id
  | pack {key : String} {e : Expression} :
    r.packConditions.get? key = some e → id ∈ e.references → Mentions r id
  | requirement {q : CheckedRequirement} {e : Expression} : q ∈ r.requirements →
    Expression.parse? q.condition = some e → id ∈ e.references → Mentions r id

/-- What can be wrong with rules. -/
inductive Flaw (r : Rules) : Error → Prop where
  /-- Registered conditions refer to each other in a circle, each to the next. -/
  | circle {first : String} {others : List String} : (first :: others).Nodup →
    (∀ id ∈ first :: others, id ∈ r.conditions.keys) →
    List.IsChain r.RefersTo (first :: others ++ [first]) →
    Flaw r (.cyclicCondition (first :: others ++ [first]))
  /-- An id is referred to that names no condition, and the policy does not allow that. -/
  | unknown {id : String} : r.policy = .fail → id ∉ r.conditions.keys → r.Mentions id →
    Flaw r (.unknownCondition id)

theorem checkKnown_eq_error_iff {e : Error} :
    r.checkKnown id = .error e ↔
      r.policy = .fail ∧ id ∉ r.conditions.keys ∧ e = .unknownCondition id := by
  rw [← NameMap.contains_eq_true_iff, checkKnown]
  cases r.conditions.contains id <;> cases r.policy <;> simp [eq_comm]

theorem exists_of_mem_chain {α : Type} {R : α → α → Prop} {xs : List α} {last : α}
    (h : List.IsChain R (xs ++ [last])) : ∀ x ∈ xs, ∃ y, R x y := by
  induction xs with
  | nil => exact fun x hx => absurd hx List.not_mem_nil
  | cons x xs ih =>
    intro y hy
    rcases List.mem_cons.1 hy with rfl | hy
    · cases xs with
      | nil => exact ⟨last, List.isChain_pair.1 h⟩
      | cons z xs => exact ⟨z, (List.isChain_cons_cons.1 h).1⟩
    · exact ih h.tail y hy

/-- A walk starts from a registered id, so an unknown id that it meets has been referred to. -/
theorem flaw_of_fault {e : Error} (hid : id ∈ r.conditions.keys)
    (h : r.referenceGraph.Fault id e) : r.Flaw e := by
  cases h with
  | @stuck y e hxy hn =>
    cases hg : r.conditions.get? y with
    | some condition =>
      rw [next_of_some hg] at hn
      cases hn
    | none =>
      have hk : r.checkKnown y = .error e := by
        rw [next_of_none hg] at hn
        cases hk : r.checkKnown y with
        | error e' => rw [hk] at hn; exact congrArg _ (Except.error.inj hn)
        | ok u => rw [hk] at hn; cases hn
      obtain ⟨hp, hy, rfl⟩ := checkKnown_eq_error_iff.1 hk
      rcases ReflTransGen.cases_tail hxy with rfl | ⟨owner, -, howner⟩
      · exact absurd hid hy
      · exact .unknown hp hy (.condition (leads_iff.1 howner))
  | circle _ hnodup hchain =>
    have hchain' := hchain.imp fun _ _ => leads_iff.1
    refine .circle hnodup (fun x hx => ?_) hchain'
    obtain ⟨y, hxy⟩ := exists_of_mem_chain hchain' x hx
    exact hxy.mem_keys

/-! ## The order of the packs -/

section Order

variable {ofPacks : List Expression}

theorem mem_expressionsWith (ho : ofPacks.Perm r.packConditions.values) {e : Expression} :
    e ∈ r.expressionsWith ofPacks ↔ e ∈ r.expressions :=
  (ho.append_right _).mem_iff

theorem validateIn_ok_iff (ho : ofPacks.Perm r.packConditions.values) :
    r.validateIn ofPacks = .ok () ↔ r.validate = .ok () := by
  rw [validateIn_eq_ok_iff, validate_eq_ok_iff]
  simp only [mem_expressionsWith ho]

theorem Built.flaw_of_validateIn {e : Error} (h : r.Built)
    (ho : ofPacks.Perm r.packConditions.values) (he : r.validateIn ofPacks = .error e) :
    r.Flaw e := by
  unfold validateIn at he
  split at he
  · next e' hf =>
    obtain rfl := Except.error.inj he
    obtain ⟨id, hid, hfault⟩ := Graph.finishOrder_eq_error hf
    exact flaw_of_fault hid hfault
  · obtain ⟨id, hid, hk⟩ := exists_of_forM_eq_error he
    obtain ⟨expression, hexp, hid⟩ := List.mem_flatMap.1 hid
    obtain ⟨hp, hkeys, rfl⟩ := checkKnown_eq_error_iff.1 hk
    refine .unknown hp hkeys ?_
    rcases mem_expressions.1 ((mem_expressionsWith ho).1 hexp) with ⟨key, hg⟩ | ⟨q, hq, rfl⟩
    · exact .pack hg hid
    · exact .requirement hq (h.parse_requirement q hq) hid

end Order

/-- Rules pass validation exactly when all that is asked of them has a value, whatever the
variables; what fails validation is wrong with the rules. That holds for every order in which the
expressions of the packs may be looked at; the order decides which unknown id is told. -/
theorem Built.validate_exact (h : r.Built) :
    (r.validate = .ok () ↔ ∀ vars, r.Evaluable vars) ∧
      (∀ e, r.validate = .error e → r.Flaw e) ∧
      ∀ ofPacks, ofPacks.Perm r.packConditions.values →
        (r.validateIn ofPacks = .ok () ↔ ∀ vars, r.Evaluable vars) ∧
          ∀ e, r.validateIn ofPacks = .error e → r.Flaw e := by
  have hvalid : r.validate = .ok () ↔ ∀ vars, r.Evaluable vars :=
    ⟨evaluable_of_validate, fun hall => (hall ∅).validate_ok⟩
  refine ⟨hvalid, fun e => h.flaw_of_validateIn (.refl _), fun ofPacks ho => ?_⟩
  exact ⟨(validateIn_ok_iff ho).trans hvalid, fun e => h.flaw_of_validateIn ho⟩

/-! ## Rules with a circle -/

theorem isId_of_mem_keys_empty :
    ∀ id ∈ (∅ : NameMap Condition).keys, Expression.isId id = true :=
  fun _ hid => absurd hid List.not_mem_nil

/-- Two conditions that refer to each other, a pack that depends on one of them and a pack that
depends on a condition that nobody has registered. -/
def tangledEntries : Except Error Rules := do
  let r ← registerAll { ids_valid := isId_of_mem_keys_empty }
    [("dawn", .not (.ref "dusk")), ("dusk", .ref "dawn")]
  let r := r.setPackCondition "lamp" (.term "dusk" false)
  return r.setPackCondition "stool" (.term "noon" false)

theorem tangled_builds : tangledEntries.toOption.isSome = true := by cbv

/-- The rules of `tangledEntries`. -/
def tangled : Rules := tangledEntries.toOption.get tangled_builds

/-- The circle is found before any pack is looked at. -/
theorem tangled_validate_exact : tangled.Built ∧
    tangled.validate = .error (.cyclicCondition ["dawn", "dusk", "dawn"]) ∧
      tangled.Flaw (.cyclicCondition ["dawn", "dusk", "dawn"]) ∧
        (¬ ∀ vars, tangled.Evaluable vars) ∧
          tangled.packConditions.values.reverse.Perm tangled.packConditions.values ∧
            tangled.validateIn tangled.packConditions.values.reverse ≠ .ok () := by
  have hbuilt : tangled.Built := by
    obtain ⟨r, hr, he⟩ := bind_eq_ok_iff.1 (eq_ok_get tangled_builds)
    rw [tangled, ← pure_eq_ok_iff.1 he]
    have hlamp := ((Built.empty .fail).registerAll hr).setPackCondition "lamp" (.term "dusk" false)
    exact hlamp.setPackCondition "stool" _
  have hcircle : tangled.validate = .error (.cyclicCondition ["dawn", "dusk", "dawn"]) := by cbv
  obtain ⟨hiff, hflaw, horder⟩ := hbuilt.validate_exact
  have hstuck : ¬ ∀ vars, tangled.Evaluable vars := by
    intro hall
    rw [hiff.2 hall] at hcircle
    cases hcircle
  have hperm := tangled.packConditions.values.reverse_perm
  exact ⟨hbuilt, hcircle, hflaw _ hcircle, hstuck, hperm,
    fun hok => hstuck ((horder _ hperm).1.1 hok)⟩

end PackChoice.Rules
