import PackChoice.Proofs.Expression.Grammar
import PackChoice.Rules.Evaluation

/-!
Which ids can be registered. What registering looks for in an id (`Unfit`) and what parsing makes of
it say the same: an id that is fit is read as the term of that very id (`parse_eq_term_iff`), and
parsing finds no other ids in any text (`fit_of_parse`). So a condition that can be registered can
be referred to. Looking its id up, with a negation in front or without, is the same as evaluating
what is written there, although the lookup takes the negation off without parsing. The three are
put together in `register_refuses_exactly`.
-/

namespace PackChoice.Rules

open Expression (isId parse isCut)

variable {r : Rules} {vars : Variables} {id : String} {condition : Condition}

/-! ## Fit and unfit ids -/

/-- What can be wrong with an id: it has nothing but blanks, it starts with a negation, it holds a
connective, or it has blanks around it. -/
inductive Unfit (id : String) : Prop where
  | blank : Text.trim id.toList = [] → Unfit id
  | negated : id.toList.head? = some '!' → Unfit id
  | joined {c : Char} : c ∈ id.toList → isCut c = true → Unfit id
  | padded : Text.trim id.toList ≠ id.toList → Unfit id

theorem not_unfit_iff : ¬Unfit id ↔ isId id = true := by
  rw [Expression.isId_iff]
  constructor
  · intro h
    have htrim : Text.trim id.toList = id.toList := by
      by_contra hne
      exact h (.padded hne)
    refine ⟨fun hnil => h (.blank (htrim.trans hnil)), htrim, fun hneg => h (.negated hneg), ?_⟩
    intro c hc
    rw [← Option.not_isSome_iff_eq_none, ← Expression.isCut_eq]
    exact fun hcut => h (.joined hc hcut)
  · rintro ⟨hnil, htrim, hneg, hplain⟩ h
    cases h with
    | blank hblank => exact hnil (htrim.symm.trans hblank)
    | negated hneg' => exact hneg hneg'
    | joined hc hcut =>
      rw [Expression.isCut_eq, hplain _ hc] at hcut
      cases hcut
    | padded hne => exact hne htrim

theorem register_eq_error_iff {e : Error} :
    r.register id condition = .error e ↔
      Unfit id ∧ e = .invalidConditionId id ∨
        ¬Unfit id ∧ id ∈ r.conditions.keys ∧ e = .duplicateCondition id := by
  unfold register
  split
  · next hid =>
    have hfit := not_unfit_iff.2 hid
    split
    · next hin =>
      have hkeys := NameMap.contains_eq_true_iff.1 hin
      constructor
      · exact fun h => .inr ⟨hfit, hkeys, (Except.error.inj h).symm⟩
      · rintro (⟨hunfit, -⟩ | ⟨-, -, rfl⟩)
        · exact absurd hunfit hfit
        · rfl
    · next hin =>
      constructor
      · exact fun h => by cases h
      · rintro (⟨hunfit, -⟩ | ⟨-, hkeys, -⟩)
        · exact absurd hunfit hfit
        · exact absurd (NameMap.contains_eq_true_iff.2 hkeys) hin
  · next hid =>
    have hunfit : Unfit id := by
      by_contra hfit
      exact hid (not_unfit_iff.1 hfit)
    constructor
    · exact fun h => .inl ⟨hunfit, (Except.error.inj h).symm⟩
    · rintro (⟨-, rfl⟩ | ⟨hfit, -⟩)
      · rfl
      · exact absurd hunfit hfit

/-! ## Ids in expressions -/

theorem parse_eq_term_iff : parse id = .ok (.term id false) ↔ isId id = true := by
  rw [Expression.parse_eq_ok_iff]
  constructor
  · intro h
    cases Expression.isChain_of_parse? h with
    | term _ hid => exact hid
  · intro hid
    have hread := (Expression.IsChain.term false hid).parse?_text
    rwa [Expression.text, Expression.render, String.ofList_toList] at hread

-- Blanks inside an id are part of it.
example : parse "full moon" = .ok (.term "full moon" false) := by cbv

theorem parse_negated (hid : isId id = true) : parse ("!" ++ id) = .ok (.term id true) := by
  have htext : (Expression.term id true).text = "!" ++ id := by
    rw [Expression.text, Expression.render, String.ofList_cons, String.ofList_toList]
    rfl
  rw [Expression.parse_eq_ok_iff, ← htext]
  exact (Expression.IsChain.term true hid).parse?_text

theorem fit_of_parse {text : String} {e : Expression} (h : parse text = .ok e) :
    ∀ name ∈ e.references, isId name = true :=
  (Expression.isChain_iff.1 (Expression.isChain_of_parse? (Expression.parse_eq_ok_iff.1 h))).2

/-! ## Looking ids up -/

/-- An id that can be registered does not start with a negation. -/
theorem evaluate_of_isId (hid : isId id = true) :
    r.evaluate vars id = r.evalExpression vars (.term id false) := by
  obtain ⟨-, -, hneg, -⟩ := Expression.isId_iff.1 hid
  unfold evaluate
  split
  · next hcs => exact absurd (congrArg List.head? hcs) hneg
  · rfl

theorem evaluate_negated (r : Rules) (vars : Variables) (id : String) :
    r.evaluate vars ("!" ++ id) = r.evalExpression vars (.term id true) := by
  have hcs : ("!" ++ id).toList = '!' :: id.toList := by rw [String.toList_append]; rfl
  unfold evaluate
  rw [hcs]
  show r.evalExpression vars (.term (String.ofList id.toList) true) = _
  rw [String.ofList_toList]

theorem evaluateText_of_parse {text : String} {e : Expression} (h : parse text = .ok e) :
    r.evaluateText vars text = r.evalExpression vars e := by
  unfold evaluateText
  rw [h]
  rfl

/-- An id is refused just where a text of the same characters is not read as the term of that id,
and no id that parsing finds in a text is refused. An id that is not refused has the same value, or
the same error, looked up and written as an expression; so has its negation. -/
theorem register_refuses_exactly (r : Rules) (vars : Variables) (id : String)
    (condition : Condition) :
    (∀ e, r.register id condition = .error e ↔
      Unfit id ∧ e = .invalidConditionId id ∨
        ¬Unfit id ∧ id ∈ r.conditions.keys ∧ e = .duplicateCondition id) ∧
      (Unfit id ↔ parse id ≠ .ok (.term id false)) ∧
      (∀ text e, parse text = .ok e → ∀ name ∈ e.references, ¬Unfit name) ∧
      (¬Unfit id → r.evaluate vars id = r.evaluateText vars id ∧
        r.evaluate vars ("!" ++ id) = r.evaluateText vars ("!" ++ id)) := by
  refine ⟨fun e => register_eq_error_iff, ?_, fun text e h name hname => ?_, fun hfit => ?_⟩
  · rw [ne_eq, parse_eq_term_iff, ← not_unfit_iff, not_not]
  · exact not_unfit_iff.2 (fit_of_parse h name hname)
  · have hid := not_unfit_iff.1 hfit
    constructor
    · rw [evaluate_of_isId hid, evaluateText_of_parse (parse_eq_term_iff.2 hid)]
    · rw [evaluate_negated, evaluateText_of_parse (parse_negated hid)]

end PackChoice.Rules
