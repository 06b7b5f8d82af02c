import PackChoice.Proofs.Expression

/-!
What parsing accepts and which tree it gives. A text is cut at its connectives into pieces, and each
piece must name a condition (`NamesTerm`); the tree joins the terms of the pieces from the left. The
same is found by a single walk over the characters and their byte offsets, which looks back at the
text for each piece and gives the connective it has just met to the next term (`scan`). Of the ways
in which that walk could break down only a missing id can happen. Both are put together in
`parse_exact`.
-/

namespace PackChoice.Expression

variable {e : Expression} {piece cs : List Char} {side : Side}

/-! ## Pieces -/

/-- The characters at which a text is cut. -/
def isCut (c : Char) : Bool := c == '+' || c == '|' || c == '\\'

/-- The pieces of a text between its connectives. -/
def pieces (text : String) : List (List Char) := text.toList.splitOnP isCut

/-- The connectives of a text in order. -/
def connectives (text : String) : List Connective := text.toList.filterMap Connective.ofSymbol?

/-- The characters behind a negation, if there is one. -/
def dropNegation : List Char → List Char
  | '!' :: cs => cs
  | cs => cs

/-- What is left of a piece as an id: a single negation is taken off, and so are the blanks on either
side of it. -/
def stem (piece : List Char) : List Char := Text.trim (dropNegation (Text.trim piece))

/-- A piece has an id, and not another negation in its place. -/
def NamesTerm (piece : List Char) : Prop := stem piece ≠ [] ∧ (stem piece).head? ≠ some '!'

/-- The id in a piece. -/
def idOf (piece : List Char) : String := String.ofList (stem piece)

/-- The term in a piece. -/
def termOf (piece : List Char) : Expression :=
  .term (idOf piece) (decide ((Text.trim piece).head? = some '!'))

/-- The terms behind an expression joined to it from left to right. -/
def joinAll (first : Expression) (others : List (Connective × Expression)) : Expression :=
  others.foldl (fun left x => .join x.1 left x.2) first

theorem isCut_eq (c : Char) : isCut c = (Connective.ofSymbol? c).isSome := by
  unfold isCut Connective.ofSymbol?
  split <;> simp_all

theorem namedTerm?_eq_some_iff {negated : Bool} :
    namedTerm? negated cs = some e ↔
      (cs ≠ [] ∧ cs.head? ≠ some '!') ∧ e = .term (String.ofList cs) negated := by
  constructor
  · intro h
    obtain ⟨hnil, hhead, he⟩ := namedTerm?_eq_some h
    exact ⟨⟨hnil, hhead⟩, he⟩
  · intro h
    obtain ⟨⟨hnil, hhead⟩, he⟩ := h
    unfold namedTerm?
    split
    · exact absurd rfl hnil
    · exact absurd rfl hhead
    · rw [he]

theorem term?_eq_some_iff : term? piece = some e ↔ NamesTerm piece ∧ e = termOf piece := by
  unfold term? NamesTerm termOf idOf stem
  split
  · next ds hds => rw [namedTerm?_eq_some_iff, hds, dropNegation, List.head?_cons, decide_eq_true rfl]
  · next hneg =>
    have hhead : (Text.trim piece).head? ≠ some '!' := by
      intro h
      obtain ⟨ds, hds⟩ := List.head?_eq_some_iff.1 h
      exact hneg ds hds
    have hdrop : dropNegation (Text.trim piece) = Text.trim piece := by
      unfold dropNegation
      split
      · next ds hds => exact absurd hds (hneg ds)
      · rfl
    rw [namedTerm?_eq_some_iff, hdrop, Text.trim_trim, decide_eq_false hhead]

/-! ## Parsing piece by piece -/

theorem length_pieces (cs : List Char) :
    (cs.splitOnP isCut).length = (cs.filterMap Connective.ofSymbol?).length + 1 := by
  induction cs with
  | nil => rfl
  | cons c cs ih =>
    rw [List.splitOnP_cons_eq_if_modifyHead, isCut_eq]
    cases hc : Connective.ofSymbol? c with
    | none => simp [hc, ih]
    | some op => simp [hc, ih]

/-- Reading on behind a piece gives the terms of all pieces from there on, joined to what stands to
the left. -/
theorem parseFrom_eq_some_iff : parseFrom side piece cs = some e ↔
    (∀ p ∈ cs.splitOnPPrepend isCut piece, NamesTerm p) ∧
      ∃ first others, (cs.splitOnPPrepend isCut piece).map termOf = first :: others ∧
        e = joinAll (side.complete first) ((cs.filterMap Connective.ofSymbol?).zip others) := by
  induction cs generalizing side piece with
  | nil =>
    rw [parseFrom, Option.map_eq_some_iff, List.splitOnPPrepend_nil]
    constructor
    · intro h
      obtain ⟨t, ht, he⟩ := h
      obtain ⟨hnames, rfl⟩ := term?_eq_some_iff.1 ht
      exact ⟨by simpa using hnames, _, _, rfl, he.symm⟩
    · intro h
      obtain ⟨hnames, first, others, hmap, he⟩ := h
      obtain ⟨rfl, rfl⟩ := List.cons.inj hmap
      exact ⟨_, term?_eq_some_iff.2 ⟨hnames _ List.mem_cons_self, rfl⟩, he.symm⟩
  | cons c cs ih =>
    rw [parseFrom]
    cases hc : Connective.ofSymbol? c with
    | none =>
      have hcut : isCut c = false := by rw [isCut_eq, hc, Option.isSome_none]
      rw [List.splitOnPPrepend_cons_neg hcut, List.filterMap_cons_none hc]
      exact ih
    | some op =>
      have hcut : isCut c = true := by rw [isCut_eq, hc, Option.isSome_some]
      rw [List.splitOnPPrepend_cons_pos hcut, List.filterMap_cons_some hc,
        ← List.splitOnPPrepend_nil_right, List.forall_mem_cons]
      constructor
      · intro h
        obtain ⟨t, ht, h⟩ := Option.bind_eq_some_iff.1 h
        obtain ⟨hnames, rfl⟩ := term?_eq_some_iff.1 ht
        obtain ⟨hrest, first, others, hmap, he⟩ := ih.1 h
        exact ⟨⟨hnames, hrest⟩, termOf piece.reverse, first :: others, by rw [List.map_cons, hmap], he⟩
      · intro h
        obtain ⟨⟨hnames, hrest⟩, first, others, hmap, he⟩ := h
        obtain ⟨rfl, htail⟩ := List.cons.inj hmap
        refine Option.bind_eq_some_iff.2 ⟨_, term?_eq_some_iff.2 ⟨hnames, rfl⟩, ih.2 ⟨hrest, ?_⟩⟩
        cases others with
        | nil =>
          rw [List.map_eq_nil_iff] at htail
          exact absurd htail (List.splitOnPPrepend_ne_nil isCut cs [])
        | cons second others => exact ⟨second, others, htail, he⟩

theorem references_joinAll (first : Expression) {ops : List Connective} {others : List Expression}
    (h : others.length = ops.length) :
    (joinAll first (ops.zip others)).references = (first :: others).flatMap references := by
  unfold joinAll
  induction ops generalizing first others with
  | nil =>
    rw [List.eq_nil_of_length_eq_zero h]
    simp
  | cons op ops ih =>
    obtain ⟨second, others, rfl⟩ := List.exists_cons_of_length_eq_add_one h
    have hlength : others.length = ops.length := Nat.succ.inj h
    rw [List.zip_cons_cons, List.foldl_cons, ih _ hlength]
    simp [references]

theorem references_termOf (ps : List (List Char)) :
    (ps.map termOf).flatMap references = ps.map idOf := by
  rw [List.flatMap_map, List.map_eq_flatMap]
  rfl

/-! ## The walk over offsets -/

/-- What a walk over a text could break down on. -/
inductive Breakdown where
  /-- A piece has no id. -/
  | missingId
  /-- The bounds of a piece do not lie between characters of the text. -/
  | badBounds
  /-- A term follows another one and no connective has been met. -/
  | noConnective
  /-- The text has come to an end without a term. -/
  | noTerm
deriving DecidableEq

/-- The number of bytes of characters in UTF-8. -/
def byteLength : List Char → Nat
  | [] => 0
  | c :: cs => c.utf8Size + byteLength cs

/-- The characters behind the first `n` bytes, where these are whole characters. -/
def dropBytes? : Nat → List Char → Option (List Char)
  | 0, cs => some cs
  | _ + 1, [] => none
  | n + 1, c :: cs => if c.utf8Size ≤ n + 1 then dropBytes? (n + 1 - c.utf8Size) cs else none

/-- The characters in the first `n` bytes, where these are whole characters. -/
def takeBytes? : Nat → List Char → Option (List Char)
  | 0, _ => some []
  | _ + 1, [] => none
  | n + 1, c :: cs =>
    if c.utf8Size ≤ n + 1 then (takeBytes? (n + 1 - c.utf8Size) cs).map (c :: ·) else none

/-- The characters between two byte offsets. -/
def slice? (cs : List Char) (start stop : Nat) : Option (List Char) :=
  if start ≤ stop then (dropBytes? start cs).bind (takeBytes? (stop - start)) else none

/-- Characters with the offsets of their first bytes, from an offset on. -/
def offsets (start : Nat) : List Char → List (Nat × Char)
  | [] => []
  | c :: cs => (start, c) :: offsets (start + c.utf8Size) cs

/-- What the walk keeps: the tree so far, the last connective and the offset behind it. -/
structure Scanner where
  tree : Option Expression := none
  pending : Option Connective := none
  start : Nat := 0

namespace Scanner

/-- The walk has just met a connective. -/
def behind (tree : Expression) (op : Connective) (start : Nat) : Scanner :=
  { tree := some tree, pending := some op, start }

/-- The tree with one more term. -/
def extend (s : Scanner) (t : Expression) : Except Breakdown Expression :=
  match s.tree, s.pending with
  | none, _ => .ok t
  | some left, some op => .ok (.join op left t)
  | some _, none => .error .noConnective

/-- A connective ends a piece of the text, whose term is joined by the connective before it. Nothing
happens at other characters. -/
def step (cs : List Char) (s : Scanner) (i : Nat) (c : Char) : Except Breakdown Scanner :=
  match Connective.ofSymbol? c with
  | none => .ok s
  | some op =>
    match slice? cs s.start i with
    | none => .error .badBounds
    | some piece =>
      match term? piece with
      | none => .error .missingId
      | some t => do
        let tree ← s.extend t
        return behind tree op (i + c.utf8Size)

/-- The tree at the end of the text. -/
def finish (s : Scanner) : Except Breakdown Expression :=
  match s.tree with
  | some e => .ok e
  | none => .error .noTerm

end Scanner

/-- A single walk over a text, behind which a connective is supposed to stand. -/
def scan (text : String) : Except Breakdown Expression := do
  let cs := text.toList
  let s ← (offsets 0 cs ++ [(text.utf8ByteSize, '+')]).foldlM
    (fun (s : Scanner) x => s.step cs x.1 x.2) {}
  s.finish

theorem byteLength_append (cs ds : List Char) :
    byteLength (cs ++ ds) = byteLength cs + byteLength ds := by
  induction cs with
  | nil => rw [List.nil_append, byteLength, Nat.zero_add]
  | cons c cs ih => rw [List.cons_append, byteLength, byteLength, ih, Nat.add_assoc]

theorem byteLength_concat (cs : List Char) (c : Char) :
    byteLength (cs ++ [c]) = byteLength cs + c.utf8Size := by
  rw [byteLength_append, byteLength, byteLength, Nat.add_zero]

theorem exists_byteLength_cons (c : Char) (cs : List Char) :
    ∃ n, byteLength (c :: cs) = n + 1 := by
  have hc := c.utf8Size_pos
  exact Nat.exists_eq_succ_of_ne_zero (by unfold byteLength; omega)

theorem byteLength_toList (text : String) : byteLength text.toList = text.utf8ByteSize := by
  have h : ∀ cs : List Char, byteLength cs = (String.ofList cs).utf8ByteSize := by
    intro cs
    induction cs with
    | nil => rfl
    | cons c cs ih =>
      rw [byteLength, ih, String.ofList_cons, String.utf8ByteSize_append,
        String.utf8ByteSize_singleton]
  rw [h, String.ofList_toList]

theorem dropBytes?_append (cs ds : List Char) : dropBytes? (byteLength cs) (cs ++ ds) = some ds := by
  induction cs with
  | nil => rw [byteLength, List.nil_append, dropBytes?]
  | cons c cs ih =>
    obtain ⟨n, hn⟩ := exists_byteLength_cons c cs
    rw [hn, List.cons_append, dropBytes?, ← hn, byteLength, if_pos (Nat.le_add_right _ _),
      Nat.add_sub_cancel_left, ih]

theorem takeBytes?_append (cs ds : List Char) : takeBytes? (byteLength cs) (cs ++ ds) = some cs := by
  induction cs with
  | nil => rw [byteLength, takeBytes?]
  | cons c cs ih =>
    obtain ⟨n, hn⟩ := exists_byteLength_cons c cs
    rw [hn, List.cons_append, takeBytes?, ← hn, byteLength, if_pos (Nat.le_add_right _ _),
      Nat.add_sub_cancel_left, ih, Option.map_some]

/-- The characters that stand between two others are found by their offsets. -/
theorem slice?_append (front mid back : List Char) :
    slice? (front ++ mid ++ back) (byteLength front) (byteLength (front ++ mid)) = some mid := by
  rw [slice?, byteLength_append, if_pos (Nat.le_add_right _ _), Nat.add_sub_cancel_left,
    List.append_assoc, dropBytes?_append, Option.bind_some, takeBytes?_append]

/-- What has been read of an expression agrees with what stands to the left of the next term. -/
def Scanner.Holds (s : Scanner) : Side → Prop
  | .start => s.tree = none
  | .after left op => s.tree = some left ∧ s.pending = some op

theorem Scanner.Holds.extend_eq {s : Scanner} (h : s.Holds side) (t : Expression) :
    s.extend t = .ok (side.complete t) := by
  unfold extend
  cases side with
  | start =>
    have htree : s.tree = none := h
    rw [htree]
    rfl
  | after left op =>
    obtain ⟨htree, hpending⟩ := h
    rw [htree, hpending]
    rfl

/-- At a connective the walk takes the piece behind the last one. -/
theorem Scanner.Holds.step_eq {s : Scanner} {text front mid back : List Char} {c : Char}
    {op : Connective} (h : s.Holds side) (hstart : s.start = byteLength front)
    (htext : front ++ mid ++ back = text) (hc : Connective.ofSymbol? c = some op) :
    s.step text (byteLength (front ++ mid)) c =
      match term? mid with
      | none => .error .missingId
      | some t => .ok (behind (side.complete t) op (byteLength (front ++ mid) + c.utf8Size)) := by
  unfold step
  rw [hc, hstart, ← htext]
  dsimp only
  rw [slice?_append]
  dsimp only
  cases term? mid with
  | none => rfl
  | some t =>
    dsimp only
    rw [h.extend_eq]
    rfl

/-- The walk goes on as parsing does. -/
theorem foldlM_step {s : Scanner} {text front : List Char} (h : s.Holds side)
    (hstart : s.start = byteLength front) (htext : front ++ piece.reverse ++ cs = text) :
    ((offsets (byteLength (front ++ piece.reverse)) cs ++ [(byteLength text, '+')]).foldlM
      (fun (s : Scanner) x => s.step text x.1 x.2) s).bind Scanner.finish =
        match parseFrom side piece cs with
        | some e => .ok e
        | none => .error .missingId := by
  -- `front` holds the characters before the offset that the walk keeps, `piece` those behind it.
  induction cs generalizing s side piece front with
  | nil =>
    -- The connective that is supposed to stand at the end completes the last piece.
    have hsymbol : Connective.ofSymbol? '+' = some .and := rfl
    have hstep := h.step_eq hstart htext hsymbol
    rw [List.append_nil] at htext
    rw [htext] at hstep
    rw [offsets, List.nil_append, List.foldlM_cons, hstep, parseFrom]
    cases term? piece.reverse <;> rfl
  | cons c cs ih =>
    rw [offsets, List.cons_append, List.foldlM_cons, parseFrom]
    cases hc : Connective.ofSymbol? c with
    | none =>
      have hstep : s.step text (byteLength (front ++ piece.reverse)) c = .ok s := by
        rw [Scanner.step, hc]
      have hoffset : byteLength (front ++ (c :: piece).reverse) =
          byteLength (front ++ piece.reverse) + c.utf8Size := by
        rw [List.reverse_cons, ← List.append_assoc, byteLength_concat]
      rw [hstep, ← hoffset]
      exact ih h hstart (by rw [List.reverse_cons, ← htext]; simp)
    | some op =>
      rw [h.step_eq hstart htext hc]
      cases ht : term? piece.reverse with
      | none => rfl
      | some t =>
        have hleft : (Scanner.behind (side.complete t) op
            (byteLength (front ++ piece.reverse) + c.utf8Size)).Holds (.after (side.complete t) op) :=
          ⟨rfl, rfl⟩
        have hrest := ih hleft (byteLength_concat _ c).symm
          (show front ++ piece.reverse ++ [c] ++ [].reverse ++ cs = text by rw [← htext]; simp)
        rw [List.reverse_nil, List.append_nil, byteLength_concat] at hrest
        exact hrest

theorem scan_eq (text : String) :
    scan text = match parse? text with
      | some e => .ok e
      | none => .error .missingId := by
  have hempty : ({} : Scanner).Holds .start := rfl
  have h := foldlM_step hempty rfl (show [] ++ [].reverse ++ text.toList = text.toList from rfl)
  rw [byteLength_toList] at h
  exact h

/-! ## Parsing as a whole -/

/-- Parsing accepts a text just where every piece between connectives names a condition. The tree
then joins the terms of the pieces from the left with the connectives between them, and it refers to
their ids in order. The walk over offsets gives the same tree, and where there is none it has met a
piece without an id. -/
theorem parse_exact (text : String) :
    ((∃ e, parse text = .ok e) ↔ ∀ piece ∈ pieces text, NamesTerm piece) ∧
    (∀ e, parse text = .ok e →
      (∃ first others, (pieces text).map termOf = first :: others ∧
        others.length = (connectives text).length ∧
          e = joinAll first ((connectives text).zip others)) ∧
      e.references = (pieces text).map idOf) ∧
    scan text = (parse text).mapError fun _ => .missingId := by
  have hiff : ∀ e, parse text = .ok e ↔ (∀ piece ∈ pieces text, NamesTerm piece) ∧
      ∃ first others, (pieces text).map termOf = first :: others ∧
        e = joinAll first ((connectives text).zip others) := by
    intro e
    rw [parse_eq_ok_iff]
    exact parseFrom_eq_some_iff
  have hlength : (pieces text).length = (connectives text).length + 1 := length_pieces text.toList
  refine ⟨⟨fun h => ?_, fun hnames => ?_⟩, fun e h => ?_, ?_⟩
  · obtain ⟨e, he⟩ := h
    exact ((hiff e).1 he).1
  · obtain ⟨piece, rest, hpieces⟩ := List.exists_cons_of_length_eq_add_one hlength
    exact ⟨_, (hiff _).2 ⟨hnames, _, _, by rw [hpieces, List.map_cons], rfl⟩⟩
  · obtain ⟨-, first, others, hmap, rfl⟩ := (hiff e).1 h
    have hothers : others.length = (connectives text).length := by
      have hmapped := congrArg List.length hmap
      rw [List.length_map, List.length_cons] at hmapped
      omega
    refine ⟨⟨first, others, hmap, hothers, rfl⟩, ?_⟩
    rw [references_joinAll first hothers, ← hmap, references_termOf]
  · rw [scan_eq]
    unfold parse
    cases parse? text <;> rfl

example : scan " sun |! moon" = .ok (.join .or (.term "sun" false) (.term "moon" true)) := by cbv

end PackChoice.Expression
