import PackChoice.Proofs.Rules.Evaluable

/-!
Evaluation as a system of rules. The rules say what a condition comes to in a chain of ids, and what
an expression comes to, without a reason why evaluation should end; an evaluation that went on for
ever would have no derivation. Each expression has exactly one, which is what evaluation gives
(`results_iff`). The reason is the one for every induction over chains (`chain_induct`): the ids of
a chain are distinct and registered, so chains cannot grow for ever.
-/

namespace PackChoice.Rules

/-- The rules for a condition that is met in a chain of ids. -/
inductive Evaluates (r : Rules) (vars : Variables) :
    List String → Condition → Except Error Bool → Prop where
  | variable (chain : List String) (name value : String) :
    Evaluates r vars chain (.variable name value) (.ok (decide (vars.get? name = some value)))
  | not {chain : List String} {c : Condition} {x : Except Error Bool} :
    Evaluates r vars chain c x → Evaluates r vars chain (.not c) (x.map (!·))
  | join {chain : List String} (op : Connective) {a b : Condition} {x : Bool}
    {y : Except Error Bool} :
    Evaluates r vars chain a (.ok x) → Evaluates r vars chain b y →
      Evaluates r vars chain (.join op a b) (y.map (op.apply x))
  | joinFailed {chain : List String} (op : Connective) {a b : Condition} {err : Error} :
    Evaluates r vars chain a (.error err) → Evaluates r vars chain (.join op a b) (.error err)
  | ref {chain : List String} {id : String} {c : Condition} {x : Except Error Bool} :
    id ∉ chain → r.conditions.get? id = some c → Evaluates r vars (chain ++ [id]) c x →
      Evaluates r vars chain (.ref id) x
  | circle {chain : List String} {id : String} :
    id ∈ chain → Evaluates r vars chain (.ref id) (.error (.cyclicCondition (chain ++ [id])))
  | unknown {chain : List String} {id : String} :
    id ∉ chain → r.conditions.get? id = none → r.policy = .fail →
      Evaluates r vars chain (.ref id) (.error (.unknownCondition id))
  | assumed {chain : List String} {id : String} :
    id ∉ chain → r.conditions.get? id = none → r.policy = .assumeFalse →
      Evaluates r vars chain (.ref id) (.ok false)

/-- The rules for an expression, with which every chain begins. -/
inductive Results (r : Rules) (vars : Variables) : Expression → Except Error Bool → Prop where
  | term {id : String} (negated : Bool) {c : Condition} {x : Except Error Bool} :
    r.conditions.get? id = some c → r.Evaluates vars [id] c x →
      Results r vars (.term id negated) (x.map (· != negated))
  | unknown {id : String} (negated : Bool) :
    r.conditions.get? id = none → r.policy = .fail →
      Results r vars (.term id negated) (.error (.unknownCondition id))
  | assumed {id : String} (negated : Bool) :
    r.conditions.get? id = none → r.policy = .assumeFalse →
      Results r vars (.term id negated) (.ok false)
  | join (op : Connective) {a b : Expression} {x : Bool} {y : Except Error Bool} :
    Results r vars a (.ok x) → Results r vars b y →
      Results r vars (.join op a b) (y.map (op.apply x))
  | joinFailed (op : Connective) {a b : Expression} {err : Error} :
    Results r vars a (.error err) → Results r vars (.join op a b) (.error err)

variable {r : Rules} {vars : Variables} {chain : List String} {id : String}

/-! ## Uniqueness -/

theorem Evaluates.unique {c : Condition} {x y : Except Error Bool}
    (h : r.Evaluates vars chain c x) (h' : r.Evaluates vars chain c y) : x = y := by
  induction h generalizing y with
  | «variable» chain name value =>
    cases h'
    rfl
  | not _ ih =>
    cases h' with
    | not h' => rw [ih h']
  | join op _ _ iha ihb =>
    cases h' with
    | join _ ha hb =>
      rw [Except.ok.inj (iha ha), ihb hb]
    | joinFailed _ ha => cases iha ha
  | joinFailed op _ iha =>
    cases h' with
    | join _ ha hb => cases iha ha
    | joinFailed _ ha => exact iha ha
  | ref hid hc _ ih => cases h' <;> grind
  | circle hid => cases h' <;> grind
  | unknown hid hc hp => cases h' <;> grind
  | assumed hid hc hp => cases h' <;> grind

theorem Results.unique {e : Expression} {x y : Except Error Bool}
    (h : r.Results vars e x) (h' : r.Results vars e y) : x = y := by
  induction h generalizing y with
  | term negated hc hx =>
    cases h' with
    | term _ hd hy =>
      rw [hc] at hd
      obtain rfl := Option.some.inj hd
      rw [hx.unique hy]
    | unknown _ hd _ | assumed _ hd _ =>
      rw [hc] at hd
      cases hd
  | unknown negated hc hp => cases h' <;> grind
  | assumed negated hc hp => cases h' <;> grind
  | join op _ _ iha ihb =>
    cases h' with
    | join _ ha hb => rw [Except.ok.inj (iha ha), ihb hb]
    | joinFailed _ ha => cases iha ha
  | joinFailed op _ iha =>
    cases h' with
    | join _ ha hb => cases iha ha
    | joinFailed _ ha => exact iha ha

/-! ## Existence -/

/-- What a reference comes to. -/
theorem evalReference_cases (r : Rules) (vars : Variables) (chain : List String) (id : String) :
    (id ∈ chain ∧ r.evalReference vars chain id = .error (.cyclicCondition (chain ++ [id]))) ∨
    (id ∉ chain ∧ r.conditions.get? id = none ∧ r.policy = .fail ∧
      r.evalReference vars chain id = .error (.unknownCondition id)) ∨
    (id ∉ chain ∧ r.conditions.get? id = none ∧ r.policy = .assumeFalse ∧
      r.evalReference vars chain id = .ok none) ∨
    (id ∉ chain ∧ ∃ c, r.conditions.get? id = some c ∧
      r.evalReference vars chain id = (r.evalCondition vars (chain ++ [id]) c).map some) := by
  by_cases hid : id ∈ chain
  · exact .inl ⟨hid, evalReference_of_mem hid⟩
  · cases hc : r.conditions.get? id with
    | some c => exact .inr (.inr (.inr ⟨hid, c, rfl, evalReference_of_some hid hc⟩))
    | none =>
      rw [evalReference, if_neg hid]
      cases hp : r.policy with
      | fail => exact .inr (.inl ⟨hid, rfl, rfl, by split <;> simp_all⟩)
      | assumeFalse => exact .inr (.inr (.inl ⟨hid, rfl, rfl, by split <;> simp_all⟩))

/-- What holds of an id in a chain whenever it holds, in the longer chain, of the ids that its
condition refers to holds of every id in every chain. -/
theorem chain_induct {P : List String → String → Prop}
    (step : ∀ chain id, (id ∉ chain → ∀ c, r.conditions.get? id = some c →
      ∀ next ∈ c.references, P (chain ++ [id]) next) → P chain id) (chain : List String)
    (id : String) : P chain id := by
  refine step chain id fun hid c hc next _ => ?_
  have hkey : id ∈ r.conditions.keys := NameMap.mem_keys_of_get? hc
  have hlt : Graph.unmet r.conditions.keys (chain ++ [id]) < Graph.unmet r.conditions.keys chain :=
    Graph.unmet_lt_of_mem (fun y hy => List.mem_append_left _ hy) hkey hid
      (List.mem_append_right _ List.mem_cons_self)
  exact chain_induct step (chain ++ [id]) next
termination_by Graph.unmet r.conditions.keys chain

theorem evaluates_of_references (c : Condition)
    (h : ∀ id ∈ c.references, r.Evaluates vars chain (.ref id)
      (r.evalCondition vars chain (.ref id))) :
    r.Evaluates vars chain c (r.evalCondition vars chain c) := by
  induction c with
  | «variable» name value =>
    rw [evalCondition]
    exact .variable chain name value
  | not c ih =>
    have hc := ih h
    rw [evalCondition]
    cases hx : r.evalCondition vars chain c <;> rw [hx] at hc <;> exact .not hc
  | ref id => exact h id (List.mem_singleton_self id)
  | join op a b iha ihb =>
    have ha := iha fun id hid => h id (List.mem_append_left _ hid)
    have hb := ihb fun id hid => h id (List.mem_append_right _ hid)
    rw [evalCondition]
    cases hx : r.evalCondition vars chain a with
    | error err =>
      rw [hx] at ha
      exact .joinFailed op ha
    | ok x =>
      rw [hx] at ha
      cases hy : r.evalCondition vars chain b <;> rw [hy] at hb <;> exact .join op ha hb

theorem evaluates_ref (chain : List String) (id : String) :
    r.Evaluates vars chain (.ref id) (r.evalCondition vars chain (.ref id)) := by
  refine chain_induct (r := r)
    (P := fun chain id => r.Evaluates vars chain (.ref id) (r.evalCondition vars chain (.ref id)))
    (fun chain id ih => ?_) chain id
  rw [evalCondition]
  rcases evalReference_cases r vars chain id with ⟨hid, h⟩ | ⟨hid, hc, hp, h⟩ | ⟨hid, hc, hp, h⟩ |
    ⟨hid, c, hc, h⟩
  · rw [h]
    exact .circle hid
  · rw [h]
    exact .unknown hid hc hp
  · rw [h]
    exact .assumed hid hc hp
  · have hx := evaluates_of_references c (ih hid c hc)
    rw [h]
    cases hv : r.evalCondition vars (chain ++ [id]) c <;> rw [hv] at hx <;> exact .ref hid hc hx

theorem evaluates_evalCondition (chain : List String) (c : Condition) :
    r.Evaluates vars chain c (r.evalCondition vars chain c) :=
  evaluates_of_references c fun id _ => evaluates_ref chain id

theorem results_evalExpression (e : Expression) : r.Results vars e (r.evalExpression vars e) := by
  induction e with
  | term id negated =>
    rw [evalExpression]
    rcases evalReference_cases r vars [] id with ⟨hid, -⟩ | ⟨-, hc, hp, h⟩ | ⟨-, hc, hp, h⟩ |
      ⟨-, c, hc, h⟩
    · exact absurd hid List.not_mem_nil
    · rw [h]
      exact .unknown negated hc hp
    · rw [h]
      exact .assumed negated hc hp
    · have hx : r.Evaluates vars [id] c (r.evalCondition vars [id] c) :=
        evaluates_evalCondition [id] c
      rw [h, List.nil_append]
      cases hv : r.evalCondition vars [id] c <;> rw [hv] at hx <;> exact .term negated hc hx
  | join op a b iha ihb =>
    rw [evalExpression]
    cases hx : r.evalExpression vars a with
    | error err =>
      rw [hx] at iha
      exact .joinFailed op iha
    | ok x =>
      rw [hx] at iha
      cases hy : r.evalExpression vars b <;> rw [hy] at ihb <;> exact .join op iha ihb

/-- Every expression comes to one result by the rules, and evaluation finds it. -/
theorem results_iff {e : Expression} {x : Except Error Bool} :
    r.Results vars e x ↔ r.evalExpression vars e = x := by
  constructor
  · intro h
    exact (results_evalExpression e).unique h
  · intro h
    rw [← h]
    exact results_evalExpression e

end PackChoice.Rules
