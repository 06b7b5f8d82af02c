import Mathlib.Data.List.Nodup
import PackChoice.Proofs.Rules.Derivation
import PackChoice.Proofs.Rules.Expansion

/-!
What evaluation reports when it fails. References lead from an expression to places below it: a place
tells which reference is followed on each level. At some places something is wrong, because an id is
met below itself or names no condition where the policy asks for one. Evaluation reports the first of
these places, from left to right and depth first, which is the lexicographic order of places
(`evalExpression_eq_error_iff`). All parts of what evaluation does are put together in
`evalExpression_exact`.
-/

namespace PackChoice.Rules

variable {r : Rules} {vars : Variables} {chain ids way : List String} {place : List Nat}
  {id : String} {c : Condition} {e : Expression} {err : Error}

/-! ## Places -/

/-- The places below some ids, each with the ids that are met on the way to it. -/
inductive Place (r : Rules) : List String → List Nat → List String → Prop where
  | here {ids : List String} {i : Nat} {id : String} : ids[i]? = some id → Place r ids [i] [id]
  | under {ids way : List String} {i : Nat} {place : List Nat} {id : String} {c : Condition} :
    ids[i]? = some id → r.conditions.get? id = some c → Place r c.references place way →
      Place r ids (i :: place) (id :: way)

namespace Place

theorem index (h : r.Place ids place way) :
    ∃ i rest id tail, place = i :: rest ∧ way = id :: tail ∧ ids[i]? = some id := by
  cases h with
  | here hid => exact ⟨_, _, _, _, rfl, rfl, hid⟩
  | under hid _ _ => exact ⟨_, _, _, _, rfl, rfl, hid⟩

theorem mem_of_head (h : r.Place ids place (id :: way)) : id ∈ ids := by
  obtain ⟨i, rest, id', tail, hplace, hway, hid⟩ := h.index
  rw [(List.cons.inj hway).1]
  exact List.mem_of_getElem? hid

theorem unique {way' : List String} (h : r.Place ids place way) (h' : r.Place ids place way') :
    way = way' := by
  induction h generalizing way' with
  | here hid =>
    cases h' with
    | here hid' => rw [Option.some.inj (hid.symm.trans hid')]
    | under _ _ hbelow => cases hbelow
  | under hid hc hbelow ih =>
    cases h' with
    | here _ => cases hbelow
    | under hid' hc' hbelow' =>
      obtain rfl := Option.some.inj (hid.symm.trans hid')
      obtain rfl := Option.some.inj (hc.symm.trans hc')
      rw [ih hbelow']

theorem isChain (h : r.Place ids place way) : way.IsChain r.RefersTo := by
  induction h with
  | here => exact List.isChain_singleton _
  | @under ids way i place id c _ hc hbelow ih =>
    obtain ⟨-, -, next, tail, -, rfl, -⟩ := hbelow.index
    exact List.isChain_cons_cons.2 ⟨⟨c, hc, hbelow.mem_of_head⟩, ih⟩

end Place

/-! ## Problems -/

/-- What is wrong with the last id of a chain: it is one of those before it, or it names no condition
and the policy does not allow that. -/
inductive Problem (r : Rules) : List String → Error → Prop where
  | circle {front : List String} {last : String} :
    last ∈ front → Problem r (front ++ [last]) (.cyclicCondition (front ++ [last]))
  | unknown {front : List String} {last : String} :
    r.policy = .fail → last ∉ r.conditions.keys →
      Problem r (front ++ [last]) (.unknownCondition last)

/-- The first problem below some ids that are met behind a chain. No problem stands at a place further
left or on the way to the place of this one. -/
def FirstProblem (r : Rules) (chain ids : List String) (err : Error) : Prop :=
  ∃ place way, r.Place ids place way ∧ r.Problem (chain ++ way) err ∧
    ∀ place' way' err', r.Place ids place' way' → r.Problem (chain ++ way') err' →
      place' = place ∨ place < place'

theorem problem_concat_iff : r.Problem (chain ++ [id]) err ↔
    (id ∈ chain ∧ err = .cyclicCondition (chain ++ [id])) ∨
      (r.policy = .fail ∧ id ∉ r.conditions.keys ∧ err = .unknownCondition id) := by
  constructor
  · intro h
    generalize hall : chain ++ [id] = all at h
    cases h with
    | circle hlast =>
      obtain ⟨rfl, hid⟩ := List.append_inj' hall rfl
      obtain rfl := List.singleton_inj.1 hid
      exact .inl ⟨hlast, rfl⟩
    | unknown hp hkey =>
      obtain ⟨rfl, hid⟩ := List.append_inj' hall rfl
      obtain rfl := List.singleton_inj.1 hid
      exact .inr ⟨hp, hkey, rfl⟩
  · intro h
    rcases h with ⟨hid, rfl⟩ | ⟨hp, hkey, rfl⟩
    · exact .circle hid
    · exact .unknown hp hkey

/-- Nothing is wrong below an id that can be evaluated. -/
theorem Place.no_problem (h : r.Place ids place way) :
    ∀ chain, (∀ id ∈ way.head?, ∃ v, r.evalReference vars chain id = .ok v) →
      ¬r.Problem (chain ++ way) err := by
  induction h with
  | @here ids i id hid =>
    intro chain hok hproblem
    obtain ⟨v, hv⟩ := hok id rfl
    rcases problem_concat_iff.1 hproblem with ⟨hmem, -⟩ | ⟨hp, hkey, -⟩
    · exact not_mem_of_evalReference hv hmem
    · exact hkey (checkKnown_eq_ok_iff.1 (checkKnown_of_evalReference hv) hp)
  | @under ids way i place id c hid hc hbelow ih =>
    intro chain hok hproblem
    obtain ⟨v, hv⟩ := hok id rfl
    rw [List.append_cons] at hproblem
    refine ih (chain ++ [id]) (fun next hnext => ?_) hproblem
    obtain ⟨tail, rfl⟩ := List.head?_eq_some_iff.1 hnext
    exact evalReference_ok_of_leads hv (leads_iff.2 ⟨c, hc, hbelow.mem_of_head⟩)

/-! ## The first problem -/

/-- One of some ids is the first that cannot be evaluated. -/
def FailsAmong (r : Rules) (vars : Variables) (chain ids : List String) (err : Error) : Prop :=
  ∃ before id after, ids = before ++ id :: after ∧
    (∀ x ∈ before, ∃ v, r.evalReference vars chain x = .ok v) ∧
      r.evalReference vars chain id = .error err

namespace FailsAmong

theorem singleton (h : r.evalReference vars chain id = .error err) :
    r.FailsAmong vars chain [id] err :=
  ⟨[], id, [], rfl, fun _ hx => absurd hx List.not_mem_nil, h⟩

theorem append_right (h : r.FailsAmong vars chain ids err) (more : List String) :
    r.FailsAmong vars chain (ids ++ more) err := by
  obtain ⟨before, id, after, rfl, hok, herr⟩ := h
  refine ⟨before, id, after ++ more, ?_, hok, herr⟩
  rw [List.append_assoc, List.cons_append]

theorem append_left {first : List String}
    (hfirst : ∀ x ∈ first, ∃ v, r.evalReference vars chain x = .ok v)
    (h : r.FailsAmong vars chain ids err) : r.FailsAmong vars chain (first ++ ids) err := by
  obtain ⟨before, id, after, rfl, hok, herr⟩ := h
  refine ⟨first ++ before, id, after, ?_, fun x hx => ?_, herr⟩
  · rw [List.append_assoc]
  · exact (List.mem_append.1 hx).elim (hfirst x) (hok x)

end FailsAmong

theorem failsAmong_of_evalCondition (h : r.evalCondition vars chain c = .error err) :
    r.FailsAmong vars chain c.references err := by
  induction c with
  | «variable» name value =>
    rw [evalCondition] at h
    cases h
  | not c ih =>
    rw [evalCondition] at h
    split at h
    · next err' hc =>
      obtain rfl := Except.error.inj h
      exact ih hc
    · cases h
  | ref id =>
    rw [evalCondition] at h
    split at h
    · next err' hid =>
      obtain rfl := Except.error.inj h
      exact .singleton hid
    · cases h
  | join op a b iha ihb =>
    rw [evalCondition] at h
    split at h
    · next err' ha =>
      obtain rfl := Except.error.inj h
      exact (iha ha).append_right b.references
    · next x ha =>
      split at h
      · next err' hb =>
        obtain rfl := Except.error.inj h
        exact .append_left (references_ok_of_evalCondition a ha) (ihb hb)
      · cases h

theorem failsAmong_of_evalExpression (h : r.evalExpression vars e = .error err) :
    r.FailsAmong vars [] e.references err := by
  induction e with
  | term id negated =>
    rw [evalExpression] at h
    split at h
    · next err' hid =>
      obtain rfl := Except.error.inj h
      exact .singleton hid
    · cases h
    · cases h
  | join op a b iha ihb =>
    rw [evalExpression] at h
    split at h
    · next err' ha =>
      obtain rfl := Except.error.inj h
      exact (iha ha).append_right b.references
    · next x ha =>
      split at h
      · next err' hb =>
        obtain rfl := Except.error.inj h
        exact .append_left (references_ok_of_evalExpression a ha) (ihb hb)
      · cases h

/-- What makes a reference fail is wrong with its id itself or below it. -/
theorem problem_or_failsAmong (h : r.evalReference vars chain id = .error err) :
    r.Problem (chain ++ [id]) err ∨ id ∉ chain ∧ ∃ c, r.conditions.get? id = some c ∧
      r.FailsAmong vars (chain ++ [id]) c.references err := by
  rcases evalReference_cases r vars chain id with ⟨hid, he⟩ | ⟨hid, hc, hp, he⟩ | ⟨hid, hc, hp, he⟩ |
    ⟨hid, c, hc, he⟩
  · rw [he] at h
    obtain rfl := Except.error.inj h
    exact .inl (.circle hid)
  · rw [he] at h
    obtain rfl := Except.error.inj h
    refine .inl (.unknown hp fun hkey => ?_)
    obtain ⟨c, hsome⟩ := NameMap.mem_keys_iff.1 hkey
    rw [hc] at hsome
    cases hsome
  · rw [he] at h
    cases h
  · rw [he] at h
    cases hx : r.evalCondition vars (chain ++ [id]) c with
    | ok b =>
      rw [hx] at h
      cases h
    | error err' =>
      rw [hx] at h
      obtain rfl := Except.error.inj h
      exact .inr ⟨hid, c, hc, failsAmong_of_evalCondition hx⟩

/-- A failure is traced down to the problem it comes from. -/
theorem FailsAmong.induct {P : List String → List String → Prop}
    (here : ∀ {chain before id after}, (∀ x ∈ before, ∃ v, r.evalReference vars chain x = .ok v) →
      r.Problem (chain ++ [id]) err → P chain (before ++ id :: after))
    (under : ∀ {chain before id after c},
      (∀ x ∈ before, ∃ v, r.evalReference vars chain x = .ok v) → id ∉ chain →
        r.conditions.get? id = some c → P (chain ++ [id]) c.references →
          P chain (before ++ id :: after))
    (h : r.FailsAmong vars chain ids err) : P chain ids := by
  obtain ⟨before, id, after, rfl, hok, herr⟩ := h
  refine chain_induct (r := r) (P := fun chain id => ∀ before after,
    (∀ x ∈ before, ∃ v, r.evalReference vars chain x = .ok v) →
      r.evalReference vars chain id = .error err → P chain (before ++ id :: after))
    (fun chain id ih before after hok herr => ?_) chain id before after hok herr
  rcases problem_or_failsAmong herr with hproblem | ⟨hid, c, hc, hbelow⟩
  · exact here hok hproblem
  · obtain ⟨before', id', after', hrefs, hok', herr'⟩ := hbelow
    have hid' : id' ∈ c.references := hrefs ▸ List.mem_append_right _ List.mem_cons_self
    have hP := ih hid c hc id' hid' before' after' hok' herr'
    rw [← hrefs] at hP
    exact under hok hid hc hP

/-- Among ids of which the first ones can be evaluated, a problem stands at the next one or further
right. -/
theorem Place.not_before {before after : List String} {err' : Error}
    (h : r.Place (before ++ id :: after) place way) (hproblem : r.Problem (chain ++ way) err')
    (hok : ∀ x ∈ before, ∃ v, r.evalReference vars chain x = .ok v) :
    (∃ rest, place = before.length :: rest) ∨
      ∃ i rest, before.length < i ∧ place = i :: rest := by
  obtain ⟨i, rest, x, tail, rfl, rfl, hx⟩ := h.index
  rcases Nat.lt_trichotomy i before.length with hlt | rfl | hgt
  · rw [List.getElem?_append_left hlt] at hx
    have hmem := hok x (List.mem_of_getElem? hx)
    exact absurd hproblem (h.no_problem chain fun y hy => Option.some.inj hy ▸ hmem)
  · exact .inl ⟨rest, rfl⟩
  · exact .inr ⟨i, rest, hgt, rfl⟩

/-- What is wrong with an id itself comes before everything below it and behind it. -/
theorem firstProblem_here {before after : List String} (hproblem : r.Problem (chain ++ [id]) err)
    (hok : ∀ x ∈ before, ∃ v, r.evalReference vars chain x = .ok v) :
    r.FirstProblem chain (before ++ id :: after) err := by
  refine ⟨[before.length], [id], .here (by simp), hproblem,
    fun place' way' err' hplace hproblem' => ?_⟩
  rcases hplace.not_before hproblem' hok with ⟨rest, rfl⟩ | ⟨i, rest, hi, rfl⟩
  · cases rest with
    | nil => exact .inl rfl
    | cons j rest => exact .inr (List.Lex.cons List.Lex.nil)
  · exact .inr (List.Lex.rel hi)

/-- Where nothing is wrong with an id itself, the first problem below it comes before everything
behind it. -/
theorem FirstProblem.under {before after : List String}
    (hfirst : r.FirstProblem (chain ++ [id]) c.references err) (hid : id ∉ chain)
    (hc : r.conditions.get? id = some c)
    (hok : ∀ x ∈ before, ∃ v, r.evalReference vars chain x = .ok v) :
    r.FirstProblem chain (before ++ id :: after) err := by
  have hat : (before ++ id :: after)[before.length]? = some id := by simp
  obtain ⟨place, way, hplace, hproblem, hmin⟩ := hfirst
  rw [← List.append_cons] at hproblem
  refine ⟨_, _, .under hat hc hplace, hproblem, fun place' way' err' hplace' hproblem' => ?_⟩
  rcases hplace'.not_before hproblem' hok with ⟨rest, rfl⟩ | ⟨i, rest, hi, rfl⟩
  · cases hplace' with
    -- The place of the id itself comes before those below it, but nothing is wrong there.
    | here hx =>
      obtain rfl := Option.some.inj (hat.symm.trans hx)
      rcases problem_concat_iff.1 hproblem' with ⟨hmem, -⟩ | ⟨-, hkey, -⟩
      · exact absurd hmem hid
      · exact absurd (NameMap.mem_keys_of_get? hc) hkey
    | under hx hd hbelow =>
      obtain rfl := Option.some.inj (hat.symm.trans hx)
      obtain rfl := Option.some.inj (hc.symm.trans hd)
      rw [List.append_cons] at hproblem'
      rcases hmin _ _ _ hbelow hproblem' with rfl | hlt
      · exact .inl rfl
      · exact .inr (List.Lex.cons hlt)
  · exact .inr (List.Lex.rel hi)

theorem firstProblem_of_failsAmong (h : r.FailsAmong vars chain ids err) :
    r.FirstProblem chain ids err := by
  refine h.induct (P := fun chain ids => r.FirstProblem chain ids err) ?_ ?_
  · intro chain before id after hok hproblem
    exact firstProblem_here hproblem hok
  · intro chain before id after c hok hid hc hfirst
    exact hfirst.under hid hc hok

/-! ## Uniqueness -/

/-- An id that leads on is registered, so what is wrong at a place can be wrong in one way only. -/
theorem Place.problem_unique {err' : Error} (h : r.Place ids place way)
    (hproblem : r.Problem way err) (hproblem' : r.Problem way err') : err = err' := by
  have hkeys : ∀ {front : List String} {last : String}, way = front ++ [last] →
      ∀ x ∈ front, x ∈ r.conditions.keys := by
    intro front last hway x hx
    have hchain := h.isChain
    rw [hway] at hchain
    obtain ⟨y, hxy⟩ := exists_of_mem_chain hchain x hx
    exact hxy.mem_keys
  obtain ⟨front, last, rfl⟩ : ∃ front last, way = front ++ [last] := by
    cases hproblem with
    | circle => exact ⟨_, _, rfl⟩
    | unknown => exact ⟨_, _, rfl⟩
  rcases problem_concat_iff.1 hproblem with ⟨hmem, rfl⟩ | ⟨-, hkey, rfl⟩ <;>
    rcases problem_concat_iff.1 hproblem' with ⟨hmem', rfl⟩ | ⟨-, hkey', rfl⟩
  · rfl
  · exact absurd (hkeys rfl last hmem) hkey'
  · exact absurd (hkeys rfl last hmem') hkey
  · rfl

theorem FirstProblem.unique {err' : Error} (h : r.FirstProblem [] ids err)
    (h' : r.FirstProblem [] ids err') : err = err' := by
  obtain ⟨place, way, hplace, hproblem, hmin⟩ := h
  obtain ⟨place', way', hplace', hproblem', hmin'⟩ := h'
  have heq : place' = place := by
    rcases hmin _ _ _ hplace' hproblem' with heq | hlt
    · exact heq
    · rcases hmin' _ _ _ hplace hproblem with heq | hgt
      · exact heq.symm
      · exact absurd hgt (List.lt_asymm hlt)
  subst heq
  obtain rfl := hplace.unique hplace'
  exact hplace.problem_unique hproblem hproblem'

/-- Evaluation fails with the first problem below the ids of the expression. -/
theorem evalExpression_eq_error_iff :
    r.evalExpression vars e = .error err ↔ r.FirstProblem [] e.references err := by
  constructor
  · intro h
    exact firstProblem_of_failsAmong (failsAmong_of_evalExpression h)
  · intro h
    cases hx : r.evalExpression vars e with
    | error err' =>
      rw [h.unique (firstProblem_of_failsAmong (failsAmong_of_evalExpression hx))]
    | ok b =>
      obtain ⟨place, way, hplace, hproblem, -⟩ := h
      have hok : ∀ id ∈ way.head?, ∃ v, r.evalReference vars [] id = .ok v := by
        intro id hid
        obtain ⟨tail, rfl⟩ := List.head?_eq_some_iff.1 hid
        exact references_ok_of_evalExpression e hx id hplace.mem_of_head
      exact absurd hproblem (hplace.no_problem [] hok)

/-! ## Circles -/

/-- A way that leads from an id of an expression from each id to the next into a circle. The last id
is the only one that is met twice. -/
structure RunsIntoCircle (r : Rules) (e : Expression) (way : List String) : Prop where
  starts : ∃ id ∈ e.references, way.head? = some id
  follows : way.IsChain r.RefersTo
  repeats : ∃ front last, way = front ++ [last] ∧ front.Nodup ∧ last ∈ front

theorem repeats_of_failsAmong (h : r.FailsAmong vars chain ids (.cyclicCondition way))
    (hchain : chain.Nodup) :
    ∃ front last, way = front ++ [last] ∧ front.Nodup ∧ last ∈ front := by
  refine h.induct (P := fun chain _ => chain.Nodup →
    ∃ front last, way = front ++ [last] ∧ front.Nodup ∧ last ∈ front) ?_ ?_ hchain
  · intro chain before id after _ hproblem hchain
    rcases problem_concat_iff.1 hproblem with ⟨hid, heq⟩ | ⟨-, -, heq⟩
    · exact ⟨chain, id, Error.cyclicCondition.inj heq, hchain, hid⟩
    · cases heq
  · intro chain before id after c _ hid _ ih hchain
    exact ih (List.nodup_append_comm.1 (List.nodup_cons.2 ⟨hid, hchain⟩))

theorem runsIntoCircle_of_evalExpression
    (h : r.evalExpression vars e = .error (.cyclicCondition way)) : r.RunsIntoCircle e way := by
  obtain ⟨place, way', hplace, hproblem, -⟩ := evalExpression_eq_error_iff.1 h
  have hway : way' = way := by
    generalize herr : Error.cyclicCondition way = err at hproblem
    cases hproblem with
    | circle => exact (Error.cyclicCondition.inj herr).symm
    | unknown => cases herr
  subst hway
  obtain ⟨i, rest, id, tail, -, hway, hid⟩ := hplace.index
  refine ⟨⟨id, List.mem_of_getElem? hid, ?_⟩, hplace.isChain, ?_⟩
  · rw [hway]
    rfl
  · exact repeats_of_failsAmong (failsAmong_of_evalExpression h) List.nodup_nil

/-! ## Evaluation as a whole -/

/-- Evaluation gives every expression the one result it comes to by the rules. It succeeds just where
no circle and no forbidden id can be reached, with the value of the one expansion of the
expression; elsewhere it fails with the first problem, and a circle is told by a way into it. The
variables have no part in whether and how it fails. -/
theorem evalExpression_exact (r : Rules) (e : Expression) :
    (∀ vars x, r.Results vars e x ↔ r.evalExpression vars e = x) ∧
    (∀ vars, (∃ b, r.evalExpression vars e = .ok b) ↔ r.Settled e) ∧
    (r.Settled e → ∃ f, (∀ g, r.Unfolds e g ↔ g = f) ∧
      ∀ vars, r.evalExpression vars e = .ok (f.value vars)) ∧
    (∀ vars err, r.evalExpression vars e = .error err ↔ r.FirstProblem [] e.references err) ∧
    (∀ vars way, r.evalExpression vars e = .error (.cyclicCondition way) →
      r.RunsIntoCircle e way) ∧
    ∀ vars vars' err,
      r.evalExpression vars e = .error err ↔ r.evalExpression vars' e = .error err := by
  refine ⟨fun vars x => results_iff, fun vars => evalExpression_ok_iff, fun hsettled => ?_,
    fun vars err => evalExpression_eq_error_iff,
    fun vars way => runsIntoCircle_of_evalExpression, fun vars vars' err => ?_⟩
  · obtain ⟨f, hf⟩ := hsettled.exists_unfolds
    refine ⟨f, fun g => ⟨fun hg => hg.unique hf, fun hg => hg ▸ hf⟩, fun vars => ?_⟩
    obtain ⟨b, hb⟩ := hsettled.evalExpression_ok vars
    rw [hb, value_of_evalExpression hf hb]
  · rw [evalExpression_eq_error_iff, evalExpression_eq_error_iff]

/-- The left side runs into the circle of `tangled`; the unknown id on the right is not reported. -/
theorem tangled_evalExpression_exact :
    tangled.evalExpression ∅ (.join .and (.term "dusk" true) (.term "noon" false)) =
      .error (.cyclicCondition ["dusk", "dawn", "dusk"]) ∧
    tangled.RunsIntoCircle (.join .and (.term "dusk" true) (.term "noon" false))
      ["dusk", "dawn", "dusk"] ∧
    ¬tangled.Settled (.join .and (.term "dusk" true) (.term "noon" false)) ∧
    tangled.FirstProblem [] ["noon", "dusk"] (.unknownCondition "noon") ∧
    Settled { tangled with policy := .assumeFalse } (.term "noon" true) := by
  have hcircle : tangled.evalExpression ∅ (.join .and (.term "dusk" true) (.term "noon" false)) =
      .error (.cyclicCondition ["dusk", "dawn", "dusk"]) := by cbv
  obtain ⟨-, hsettled, -, -, hreport, -⟩ :=
    evalExpression_exact tangled (.join .and (.term "dusk" true) (.term "noon" false))
  obtain ⟨-, -, -, hfirst, -⟩ :=
    evalExpression_exact tangled (.join .or (.term "noon" true) (.term "dusk" false))
  obtain ⟨-, hassumed, -⟩ :=
    evalExpression_exact { tangled with policy := .assumeFalse } (.term "noon" true)
  refine ⟨hcircle, hreport ∅ _ hcircle, fun h => ?_, (hfirst ∅ _).1 (by cbv),
    (hassumed ∅).1 ⟨false, by cbv⟩⟩
  obtain ⟨b, hb⟩ := (hsettled ∅).2 h
  rw [hcircle] at hb
  cases hb

end PackChoice.Rules
