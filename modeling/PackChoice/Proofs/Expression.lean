import PackChoice.Expression
import PackChoice.Proofs.Text.Blank

/-!
Expressions and their texts. Parsing gives chains: trees that group to the left and whose ids can
all be registered (`isChain_of_parse?`). The text of a chain is parsed as that chain
(`IsChain.parse?_text`), so an expression that was parsed is got back from its text
(`parse?_text_of_parse?`), and no tree but a chain is (`parse_text_exact`).
-/

namespace PackChoice.Expression

variable {e : Expression} {id : String} {negated : Bool} {piece cs : List Char} {side : Side}
  {op : Connective}

/-! ## Terms -/

/-- Whether characters hold no connective, as those of one term do. -/
def IsPlain (cs : List Char) : Prop := ∀ c ∈ cs, Connective.ofSymbol? c = none

theorem isId_iff : isId id = true ↔ id.toList ≠ [] ∧ Text.trim id.toList = id.toList ∧
    id.toList.head? ≠ some '!' ∧ IsPlain id.toList := by
  simp [isId, IsPlain, and_assoc]

theorem namedTerm?_eq_some (h : namedTerm? negated cs = some e) :
    cs ≠ [] ∧ cs.head? ≠ some '!' ∧ e = .term (String.ofList cs) negated := by
  unfold namedTerm? at h
  split at h
  · cases h
  · cases h
  · next hnil hneg =>
    refine ⟨hnil, fun hhead => ?_, (Option.some.inj h).symm⟩
    obtain ⟨ds, rfl⟩ := List.head?_eq_some_iff.1 hhead
    exact hneg ds rfl

theorem namedTerm?_of_isId (hid : isId id = true) :
    namedTerm? negated id.toList = some (.term id negated) := by
  obtain ⟨hnil, -, hhead, -⟩ := isId_iff.1 hid
  unfold namedTerm?
  split
  · next h => exact absurd h hnil
  · next ds h => exact absurd (congrArg List.head? h) hhead
  · rw [String.ofList_toList]

/-- The term in a piece without connectives has an id that can be registered. -/
theorem exists_of_term? (hp : IsPlain piece) (h : term? piece = some e) :
    ∃ id negated, isId id = true ∧ e = .term id negated := by
  -- With or without a negation the id is what trimming leaves of characters of the piece.
  have key : ∀ {negated ds}, namedTerm? negated (Text.trim ds) = some e →
      (∀ c ∈ Text.trim ds, c ∈ piece) → ∃ id negated, isId id = true ∧ e = .term id negated := by
    intro negated ds hterm hsub
    obtain ⟨hnil, hhead, he⟩ := namedTerm?_eq_some hterm
    refine ⟨_, negated, isId_iff.2 ?_, he⟩
    rw [String.toList_ofList]
    exact ⟨hnil, Text.trim_trim ds, hhead, fun c hc => hp c (hsub c hc)⟩
  unfold term? at h
  split at h
  · next ds hds =>
    refine key h fun c hc => Text.mem_of_mem_trim ?_
    rw [hds]
    exact List.mem_cons_of_mem _ (Text.mem_of_mem_trim hc)
  · exact key h fun c hc => Text.mem_of_mem_trim hc

theorem isPlain_render_term (hid : isId id = true) : IsPlain (term id negated).render := by
  obtain ⟨-, -, -, hplain⟩ := isId_iff.1 hid
  cases negated with
  | false => exact hplain
  | true => exact List.forall_mem_cons.2 ⟨rfl, hplain⟩

theorem term?_render_term (hid : isId id = true) :
    term? (term id negated).render = some (.term id negated) := by
  obtain ⟨-, htrim, hhead, -⟩ := isId_iff.1 hid
  unfold term?
  cases negated with
  | false =>
    rw [render, htrim]
    split
    · next ds h => exact absurd (congrArg List.head? h) hhead
    · exact namedTerm?_of_isId hid
  | true =>
    rw [render, Text.trim_cons (by decide) htrim]
    simp only [htrim]
    exact namedTerm?_of_isId hid

/-! ## Chains -/

/-- The trees that group to the left and whose ids can all be registered. -/
inductive IsChain : Expression → Prop where
  | term {id : String} (negated : Bool) : isId id = true → IsChain (.term id negated)
  | join {left : Expression} {id : String} (op : Connective) (negated : Bool) :
    IsChain left → isId id = true → IsChain (.join op left (.term id negated))

/-- Whether what stands to the left of a term is a chain. -/
def Side.IsChain : Side → Prop
  | .start => True
  | .after left _ => left.IsChain

theorem Side.IsChain.complete (h : side.IsChain) (hid : isId id = true) :
    (side.complete (.term id negated)).IsChain := by
  cases side with
  | start => exact .term negated hid
  | after left op => exact .join op negated h hid

theorem isChain_of_parseFrom (hside : side.IsChain) (hpiece : IsPlain piece)
    (h : parseFrom side piece cs = some e) : e.IsChain := by
  have hplain : IsPlain piece.reverse := fun c hc => hpiece c (List.mem_reverse.1 hc)
  induction cs generalizing side piece with
  | nil =>
    obtain ⟨t, ht, rfl⟩ := Option.map_eq_some_iff.1 h
    obtain ⟨id, negated, hid, rfl⟩ := exists_of_term? hplain ht
    exact hside.complete hid
  | cons c cs ih =>
    rw [parseFrom] at h
    split at h
    · next hc =>
      have hpiece' : IsPlain (c :: piece) := List.forall_mem_cons.2 ⟨hc, hpiece⟩
      exact ih hside hpiece' h fun d hd => hpiece' d (List.mem_reverse.1 hd)
    · next op _ =>
      obtain ⟨t, ht, h⟩ := Option.bind_eq_some_iff.1 h
      obtain ⟨id, negated, hid, rfl⟩ := exists_of_term? hplain ht
      have hleft : (Side.after (side.complete (.term id negated)) op).IsChain := hside.complete hid
      exact ih hleft (fun d hd => absurd hd List.not_mem_nil) h
        fun d hd => absurd hd List.not_mem_nil

theorem isChain_of_parse? {text : String} (h : parse? text = some e) : e.IsChain := by
  have hside : Side.start.IsChain := trivial
  exact isChain_of_parseFrom hside (fun _ hc => absurd hc List.not_mem_nil) h

/-! ## Texts of chains -/

theorem parseFrom_of_isPlain (h : IsPlain cs) :
    parseFrom side piece cs = (term? (piece.reverse ++ cs)).map side.complete := by
  induction cs generalizing piece with
  | nil => rw [parseFrom, List.append_nil]
  | cons c cs ih =>
    obtain ⟨hc, hcs⟩ := List.forall_mem_cons.1 h
    rw [parseFrom, hc, List.append_cons piece.reverse, ← List.reverse_cons]
    exact ih hcs

theorem parseFrom_append_symbol (h : IsPlain cs) (op : Connective) (rest : List Char) :
    parseFrom side piece (cs ++ op.symbol :: rest) = (term? (piece.reverse ++ cs)).bind fun t =>
      parseFrom (.after (side.complete t) op) [] rest := by
  induction cs generalizing piece with
  | nil =>
    rw [List.nil_append, parseFrom, Connective.ofSymbol?_symbol, List.append_nil]
    rfl
  | cons c cs ih =>
    obtain ⟨hc, hcs⟩ := List.forall_mem_cons.1 h
    rw [List.cons_append, parseFrom, hc, List.append_cons piece.reverse, ← List.reverse_cons]
    exact ih hcs

namespace IsChain

/-- The text of a chain in front of a connective is read as the chain to its left. -/
theorem parseFrom_render (h : e.IsChain) (op : Connective) (rest : List Char) :
    parseFrom .start [] (e.render ++ op.symbol :: rest) = parseFrom (.after e op) [] rest := by
  induction h generalizing op rest with
  | term negated hid =>
    rw [parseFrom_append_symbol (isPlain_render_term hid), List.reverse_nil, List.nil_append,
      term?_render_term hid]
    rfl
  | join op' negated _ hid ih =>
    rw [render, List.append_assoc, List.cons_append, ih,
      parseFrom_append_symbol (isPlain_render_term hid), List.reverse_nil, List.nil_append,
      term?_render_term hid]
    rfl

theorem parse?_text (h : e.IsChain) : parse? e.text = some e := by
  rw [parse?, text, String.toList_ofList]
  cases h with
  | term negated hid =>
    rw [parseFrom_of_isPlain (isPlain_render_term hid), List.reverse_nil, List.nil_append,
      term?_render_term hid]
    rfl
  | join op negated hleft hid =>
    rw [render, hleft.parseFrom_render, parseFrom_of_isPlain (isPlain_render_term hid),
      List.reverse_nil, List.nil_append, term?_render_term hid]
    rfl

end IsChain

theorem parse?_text_of_parse? {text : String} (h : parse? text = some e) :
    parse? e.text = some e :=
  (isChain_of_parse? h).parse?_text

/-- What can be parsed is not empty. -/
theorem ne_empty_of_parse? {text : String} (h : parse? text = some e) : text ≠ "" := by
  rintro rfl
  cases h

theorem parse_eq_ok_iff {text : String} : parse text = .ok e ↔ parse? text = some e := by
  unfold parse
  cases parse? text <;> simp

/-! ## Trees that can be read back -/

/-- Whether every right operand is a term, so that the grouping is the one that parsing gives. -/
def LeftNested : Expression → Prop
  | .term _ _ => True
  | .join _ left (.term _ _) => left.LeftNested
  | .join _ _ (.join _ _ _) => False

theorem isChain_iff :
    e.IsChain ↔ e.LeftNested ∧ ∀ id ∈ e.references, isId id = true := by
  constructor
  · intro h
    induction h with
    | term negated hid => exact ⟨trivial, List.forall_mem_singleton.2 hid⟩
    | join op negated _ hid ih =>
      exact ⟨ih.1, List.forall_mem_append.2 ⟨ih.2, List.forall_mem_singleton.2 hid⟩⟩
  · intro h
    obtain ⟨hnested, hids⟩ := h
    induction e with
    | term id negated => exact .term negated (hids id List.mem_cons_self)
    | join op left right ih _ =>
      obtain ⟨hleft, hright⟩ := List.forall_mem_append.1 hids
      cases right with
      | term id negated => exact .join op negated (ih hnested hleft) (hright id List.mem_cons_self)
      | join _ _ _ => exact absurd hnested not_false

/-- A tree is read back from its text just where it groups to the left and each of its ids can be
registered: one that is not empty, is trimmed, holds no connective and does not start with a
negation. Parsing gives no other trees, so what has been parsed is read back from its own text. -/
theorem parse_text_exact :
    (∀ e : Expression, parse e.text = .ok e ↔
      e.LeftNested ∧ ∀ id ∈ e.references, isId id = true) ∧
    ∀ text e, parse text = .ok e →
      (e.LeftNested ∧ ∀ id ∈ e.references, isId id = true) ∧ parse e.text = .ok e := by
  have hread : ∀ e : Expression, parse e.text = .ok e ↔
      e.LeftNested ∧ ∀ id ∈ e.references, isId id = true := by
    intro e
    rw [parse_eq_ok_iff, ← isChain_iff]
    exact ⟨isChain_of_parse?, IsChain.parse?_text⟩
  refine ⟨hread, fun text e h => ?_⟩
  have hchain : e.IsChain := isChain_of_parse? (parse_eq_ok_iff.1 h)
  exact ⟨isChain_iff.1 hchain, (hread e).2 (isChain_iff.1 hchain)⟩

example : parse (join .and (.term "a" false) (.join .or (.term "b" true) (.term "c" false))).text =
    .ok (.join .or (.join .and (.term "a" false) (.term "b" true)) (.term "c" false)) := by cbv

end PackChoice.Expression
