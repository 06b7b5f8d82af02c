import PackChoice.Proofs.Rules.Evaluable

/-!
What an expression means. In its expansion every reference is replaced by the condition it stands
for, whose own references are replaced in turn, until nothing is left to look up (`Unfolds`). There
is at most one expansion, and there is one where no circle can be reached
(`Settled.exists_unfolds`). Evaluation succeeds just where that is so and where every id that can be
reached may be referred to (`evalExpression_ok_iff`), and then it gives the value of the expansion
(`value_of_evalExpression`).
-/

namespace PackChoice

/-- A condition in which nothing is left to look up. -/
inductive Formula where
  /-- False, whatever the variables. -/
  | never
  /-- The variable has exactly this value. -/
  | variable (name value : String)
  | not (formula : Formula)
  | join (op : Connective) (left right : Formula)

/-- The truth value of a formula. -/
def Formula.value (vars : Variables) : Formula → Bool
  | .never => false
  | .variable name value => decide (vars.get? name = some value)
  | .not f => !f.value vars
  | .join op f g => op.apply (f.value vars) (g.value vars)

namespace Rules

open Relation (ReflTransGen TransGen)

/-! ## Expansions -/

/-- The expansion of a condition. A reference to an id that names no condition is false. -/
inductive Expands (r : Rules) : Condition → Formula → Prop where
  | variable (name value : String) : Expands r (.variable name value) (.variable name value)
  | not {c : Condition} {f : Formula} : Expands r c f → Expands r (.not c) (.not f)
  | ref {id : String} {c : Condition} {f : Formula} :
    r.conditions.get? id = some c → Expands r c f → Expands r (.ref id) f
  | unknown {id : String} : r.conditions.get? id = none → Expands r (.ref id) .never
  | join (op : Connective) {a b : Condition} {f g : Formula} :
    Expands r a f → Expands r b g → Expands r (.join op a b) (.join op f g)

/-- The expansion of an expression. A term whose id names no condition is false, negated or not. -/
inductive Unfolds (r : Rules) : Expression → Formula → Prop where
  | term {id : String} {c : Condition} {f : Formula} :
    r.conditions.get? id = some c → r.Expands c f → Unfolds r (.term id false) f
  | negated {id : String} {c : Condition} {f : Formula} :
    r.conditions.get? id = some c → r.Expands c f → Unfolds r (.term id true) (.not f)
  | unknown {id : String} (negated : Bool) :
    r.conditions.get? id = none → Unfolds r (.term id negated) .never
  | join (op : Connective) {a b : Expression} {f g : Formula} :
    Unfolds r a f → Unfolds r b g → Unfolds r (.join op a b) (.join op f g)

variable {r : Rules} {vars : Variables} {chain : List String} {id : String} {c : Condition}
  {e : Expression} {f g : Formula}

theorem Expands.unique (h : r.Expands c f) (h' : r.Expands c g) : f = g := by
  induction h generalizing g with
  | «variable» name value =>
    cases h'
    rfl
  | not _ ih =>
    cases h' with
    | not h' => rw [ih h']
  | ref hc _ ih =>
    cases h' with
    | ref hd h' =>
      rw [hc] at hd
      obtain rfl := Option.some.inj hd
      exact ih h'
    | unknown hd =>
      rw [hc] at hd
      cases hd
  | unknown hc =>
    cases h' with
    | ref hd h' =>
      rw [hc] at hd
      cases hd
    | unknown => rfl
  | join op _ _ iha ihb =>
    cases h' with
    | join _ ha hb => rw [iha ha, ihb hb]

theorem Unfolds.unique (h : r.Unfolds e f) (h' : r.Unfolds e g) : f = g := by
  induction h generalizing g with
  | term hc hf =>
    cases h' with
    | term hd hg =>
      rw [hc] at hd
      obtain rfl := Option.some.inj hd
      exact hf.unique hg
    | unknown _ hd =>
      rw [hc] at hd
      cases hd
  | negated hc hf =>
    cases h' with
    | negated hd hg =>
      rw [hc] at hd
      obtain rfl := Option.some.inj hd
      rw [hf.unique hg]
    | unknown _ hd =>
      rw [hc] at hd
      cases hd
  | unknown _ hc =>
    cases h' with
    | term hd _ | negated hd _ =>
      rw [hc] at hd
      cases hd
    | unknown => rfl
  | join op _ _ iha ihb =>
    cases h' with
    | join _ ha hb => rw [iha ha, ihb hb]

/-- References can be replaced wherever the conditions they stand for have an expansion. -/
theorem exists_expands_of_references (c : Condition)
    (h : ∀ id ∈ c.references, ∀ d, r.conditions.get? id = some d → ∃ f, r.Expands d f) :
    ∃ f, r.Expands c f := by
  induction c with
  | «variable» name value => exact ⟨_, .variable name value⟩
  | not c ih =>
    obtain ⟨f, hf⟩ := ih h
    exact ⟨_, .not hf⟩
  | ref id =>
    cases hg : r.conditions.get? id with
    | none => exact ⟨_, .unknown hg⟩
    | some d =>
      obtain ⟨f, hf⟩ := h id (List.mem_singleton_self id) d hg
      exact ⟨f, .ref hg hf⟩
  | join op a b iha ihb =>
    obtain ⟨f, hf⟩ := iha fun id hid => h id (List.mem_append_left _ hid)
    obtain ⟨g, hg⟩ := ihb fun id hid => h id (List.mem_append_right _ hid)
    exact ⟨_, .join op hf hg⟩

theorem exists_unfolds_of_references (e : Expression)
    (h : ∀ id ∈ e.references, ∀ d, r.conditions.get? id = some d → ∃ f, r.Expands d f) :
    ∃ f, r.Unfolds e f := by
  induction e with
  | term id negated =>
    cases hg : r.conditions.get? id with
    | none => exact ⟨_, .unknown negated hg⟩
    | some d =>
      obtain ⟨f, hf⟩ := h id (List.mem_singleton_self id) d hg
      cases negated with
      | false => exact ⟨_, .term hg hf⟩
      | true => exact ⟨_, .negated hg hf⟩
  | join op a b iha ihb =>
    obtain ⟨f, hf⟩ := iha fun id hid => h id (List.mem_append_left _ hid)
    obtain ⟨g, hg⟩ := ihb fun id hid => h id (List.mem_append_right _ hid)
    exact ⟨_, .join op hf hg⟩

/-! ## Values -/

theorem evalReference_value (hg : r.conditions.get? id = some c)
    (hvalue : ∀ chain b, r.evalCondition vars chain c = .ok b → f.value vars = b)
    {v : Option Bool} (h : r.evalReference vars chain id = .ok v) : v = some (f.value vars) := by
  rw [evalReference_of_some (not_mem_of_evalReference h) hg] at h
  cases hc : r.evalCondition vars (chain ++ [id]) c with
  | error err =>
    rw [hc] at h
    cases h
  | ok b =>
    rw [hc] at h
    rw [hvalue _ b hc]
    exact (Except.ok.inj h).symm

theorem evalReference_none (hg : r.conditions.get? id = none) {v : Option Bool}
    (h : r.evalReference vars chain id = .ok v) : v = none := by
  rw [evalReference_of_none (not_mem_of_evalReference h) hg (checkKnown_of_evalReference h)] at h
  exact (Except.ok.inj h).symm

theorem value_of_evalCondition (hf : r.Expands c f) :
    ∀ chain b, r.evalCondition vars chain c = .ok b → f.value vars = b := by
  induction hf with
  | «variable» name value =>
    intro chain b h
    rw [evalCondition] at h
    exact Except.ok.inj h
  | not _ ih =>
    intro chain b h
    rw [evalCondition] at h
    split at h
    · cases h
    · next x hx =>
      rw [Formula.value, ih chain x hx]
      exact Except.ok.inj h
  | ref hg _ ih =>
    intro chain b h
    rw [evalCondition] at h
    split at h
    · cases h
    · next v hv =>
      rw [evalReference_value hg ih hv] at h
      exact Except.ok.inj h
  | unknown hg =>
    intro chain b h
    rw [evalCondition] at h
    split at h
    · cases h
    · next v hv =>
      rw [evalReference_none hg hv] at h
      exact Except.ok.inj h
  | join op _ _ iha ihb =>
    intro chain b h
    rw [evalCondition] at h
    split at h
    · cases h
    · next x hx =>
      split at h
      · cases h
      · next y hy =>
        rw [Formula.value, iha chain x hx, ihb chain y hy]
        exact Except.ok.inj h

theorem value_of_evalExpression (hf : r.Unfolds e f) {b : Bool}
    (h : r.evalExpression vars e = .ok b) : f.value vars = b := by
  induction hf generalizing b with
  | term hg hf =>
    rw [evalExpression] at h
    split at h
    · cases h
    · next hv => cases evalReference_value hg (value_of_evalCondition hf) hv
    · next x hv =>
      obtain rfl := Option.some.inj (evalReference_value hg (value_of_evalCondition hf) hv)
      rw [← Except.ok.inj h, Bool.bne_false]
  | negated hg hf =>
    rw [evalExpression] at h
    split at h
    · cases h
    · next hv => cases evalReference_value hg (value_of_evalCondition hf) hv
    · next x hv =>
      obtain rfl := Option.some.inj (evalReference_value hg (value_of_evalCondition hf) hv)
      rw [← Except.ok.inj h, Bool.bne_true, Formula.value]
  | unknown negated hg =>
    rw [evalExpression] at h
    split at h
    · cases h
    · exact Except.ok.inj h
    · next hv => cases evalReference_none hg hv
  | join op _ _ iha ihb =>
    rw [evalExpression] at h
    split at h
    · cases h
    · next x hx =>
      split at h
      · cases h
      · next y hy =>
        rw [Formula.value, iha hx, ihb hy]
        exact Except.ok.inj h

/-! ## Success -/

/-- An id that an expression refers to, at once or through conditions. -/
def Involves (r : Rules) (e : Expression) (id : String) : Prop :=
  ∃ start ∈ e.references, ReflTransGen r.RefersTo start id

/-- Nothing stands in the way of evaluating an expression: no id that it involves leads back to
itself, and each names a condition where the policy asks for that. -/
structure Settled (r : Rules) (e : Expression) : Prop where
  no_circle : ∀ id, r.Involves e id → ¬TransGen r.RefersTo id id
  known : r.policy = .fail → ∀ id, r.Involves e id → id ∈ r.conditions.keys

theorem leads_eq (r : Rules) : r.referenceGraph.Leads = r.RefersTo :=
  funext fun _ => funext fun _ => propext leads_iff

theorem checkKnown_eq_ok_iff :
    r.checkKnown id = .ok () ↔ (r.policy = .fail → id ∈ r.conditions.keys) := by
  rw [← NameMap.contains_eq_true_iff, checkKnown]
  cases r.conditions.contains id <;> cases r.policy <;> simp

theorem settled_of_evalExpression {b : Bool} (h : r.evalExpression vars e = .ok b) :
    r.Settled e := by
  have hok : ∀ id, r.Involves e id → ∃ longer v, r.evalReference vars longer id = .ok v := by
    intro id hid
    obtain ⟨start, hstart, hreach⟩ := hid
    obtain ⟨v, hv⟩ := references_ok_of_evalExpression e h start hstart
    rw [← leads_eq] at hreach
    obtain ⟨longer, w, -, hw⟩ := evalReference_ok_of_reaches hv hreach
    exact ⟨longer, w, hw⟩
  refine ⟨fun id hid hcircle => ?_, fun hp id hid => ?_⟩
  · obtain ⟨longer, v, hv⟩ := hok id hid
    rw [← leads_eq] at hcircle
    exact not_onCircle_of_evalReference hv hcircle
  · obtain ⟨longer, v, hv⟩ := hok id hid
    exact checkKnown_eq_ok_iff.1 (checkKnown_of_evalReference hv) hp

/-- The ids an expression involves can be put in an order in which each stands behind those that its
condition refers to. -/
theorem Settled.finished (h : r.Settled e) :
    ∃ order, r.referenceGraph.Finished order ∧ ∀ id ∈ e.references, id ∈ order := by
  have hcovers : ∀ id ∈ e.references, r.referenceGraph.Covers id := fun id _ => covers r id
  obtain ⟨order, ho⟩ := (Graph.finishOrder_ok_iff hcovers).2 fun start hstart id hreach => by
    have hid : r.Involves e id := by
      rw [Graph.Reaches, leads_eq] at hreach
      exact ⟨start, hstart, hreach⟩
    refine ⟨next_ok_of_checkKnown (checkKnown_eq_ok_iff.2 fun hp => h.known hp id hid), ?_⟩
    rw [Graph.OnCircle, leads_eq]
    exact h.no_circle id hid
  obtain ⟨hf, hmem⟩ := Graph.finishOrder_eq_ok hcovers ho
  exact ⟨order, hf, fun id hid => (hmem id).2 ⟨id, hid, .refl⟩⟩

theorem Settled.exists_unfolds (h : r.Settled e) : ∃ f, r.Unfolds e f := by
  obtain ⟨order, hf, hmem⟩ := h.finished
  refine exists_unfolds_of_references e fun id hid => ?_
  refine hf.induct (P := fun id => ∀ c, r.conditions.get? id = some c → ∃ f, r.Expands c f)
    (fun id ids _ hnext ih c hc => ?_) id (hmem id hid)
  rw [next_of_some hc] at hnext
  obtain rfl := Except.ok.inj hnext
  exact exists_expands_of_references c ih

theorem Settled.evalExpression_ok (h : r.Settled e) (vars : Variables) :
    ∃ b, r.evalExpression vars e = .ok b := by
  obtain ⟨order, hf, hmem⟩ := h.finished
  refine Rules.evalExpression_ok e fun id hid => ?_
  exact evalReference_ok_of_mem hf id (hmem id hid) [] (by simp)

theorem evalExpression_ok_iff : (∃ b, r.evalExpression vars e = .ok b) ↔ r.Settled e := by
  constructor
  · intro h
    obtain ⟨b, hb⟩ := h
    exact settled_of_evalExpression hb
  · intro h
    exact h.evalExpression_ok vars

end Rules

end PackChoice
