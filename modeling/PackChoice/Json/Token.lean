import PackChoice.Json.Number

/-!
Documents as tokens. A text is cut into tokens from the left; where no token can be read the list
ends with `bad`. A string token keeps its escapes by code unit, and a number token its digits, so
that a reader which only skips a value does not ask for their meaning.
-/

namespace PackChoice.Json

/-- A part of a string: a character, or a code unit given by number. -/
inductive StringPart where
  | char (c : Char)
  | unit (n : Nat)

inductive Token where
  | openObject
  | closeObject
  | openArray
  | closeArray
  | colon
  | comma
  | null
  | bool (b : Bool)
  | number (t : NumberText)
  | string (parts : List StringPart)
  | bad

/-- The code point that a pair of surrogate code units stands for. -/
def surrogatePair (high low : Nat) : Nat := 0x10000 + (high - 0xD800) * 0x400 + (low - 0xDC00)

/-- The characters of a string; a surrogate code unit must stand in a pair. -/
def StringPart.chars? : List StringPart → Option (List Char)
  | [] => some []
  | .char c :: parts => (chars? parts).map (c :: ·)
  | .unit n :: parts =>
    if n < 0xD800 || 0xDFFF < n then (chars? parts).map (Char.ofNat n :: ·)
    else if 0xDC00 ≤ n then none
    else match parts with
      | .unit m :: rest =>
        if 0xDC00 ≤ m && m ≤ 0xDFFF then (chars? rest).map (Char.ofNat (surrogatePair n m) :: ·)
        else none
      | _ => none

/-- The string that a token stands for. -/
def StringPart.value? (parts : List StringPart) : Option String :=
  (chars? parts).map String.ofList

/-- The value of a digit in base sixteen. -/
def hexDigit? (c : Char) : Option Nat :=
  let n := c.toNat
  if 48 ≤ n && n ≤ 57 then some (n - 48)
  else if 97 ≤ n && n ≤ 102 then some (n - 87)
  else if 65 ≤ n && n ≤ 70 then some (n - 55)
  else none

/-- The code unit that four digits in base sixteen give. -/
def codeUnit? (a b c d : Char) : Option Nat := do
  some ((((← hexDigit? a) * 16 + (← hexDigit? b)) * 16 + (← hexDigit? c)) * 16 + (← hexDigit? d))

/-- The character that a letter after a backslash stands for. -/
def shortEscape? : Char → Option Char
  | '"' => some '"'
  | '\\' => some '\\'
  | '/' => some '/'
  | 'b' => some '\x08'
  | 'f' => some '\x0c'
  | 'n' => some '\n'
  | 'r' => some '\r'
  | 't' => some '\t'
  | _ => none

/-- The parts of a string up to its closing quotation mark, and the text behind it. -/
def scanString : List Char → Option (List StringPart × List Char)
  | [] => none
  | '"' :: cs => some ([], cs)
  | '\\' :: 'u' :: a :: b :: c :: d :: cs => do
    let n ← codeUnit? a b c d
    let (parts, rest) ← scanString cs
    some (.unit n :: parts, rest)
  | '\\' :: e :: cs => do
    let c ← shortEscape? e
    let (parts, rest) ← scanString cs
    some (.char c :: parts, rest)
  | c :: cs =>
    if c.toNat < 0x20 then none
    else do
      let (parts, rest) ← scanString cs
      some (.char c :: parts, rest)

/-- Whether a character is a decimal digit. -/
def isDigit (c : Char) : Bool := decide (48 ≤ c.toNat) && decide (c.toNat ≤ 57)

/-- The values of the digits at the start of a text. -/
def digits (cs : List Char) : List Nat := (cs.takeWhile isDigit).map fun c => c.toNat - 48

/-- The text behind the digits at its start. -/
def afterDigits (cs : List Char) : List Char := cs.dropWhile isDigit

/-- The digits before the point, without needless zeros in front, and the text behind them. -/
def scanWhole (cs : List Char) : Option (List Nat × List Char) :=
  match digits cs with
  | [] => none
  | 0 :: _ :: _ => none
  | ds => some (ds, afterDigits cs)

/-- The digits behind a point, if there is one, and the text behind them. -/
def scanFraction : List Char → Option (Option (List Nat) × List Char)
  | '.' :: cs =>
    match digits cs with
    | [] => none
    | ds => some (some ds, afterDigits cs)
  | cs => some (none, cs)

/-- The number that digits stand for. -/
def ofDigits (ds : List Nat) : Nat := ds.foldl (fun n d => n * 10 + d) 0

/-- The digits of an exponent behind its sign, and the text behind them. -/
def scanExponentDigits (sign : Int) (cs : List Char) : Option (Option Int × List Char) :=
  match digits cs with
  | [] => none
  | ds => some (some (sign * ofDigits ds), afterDigits cs)

/-- The exponent, if there is one, and the text behind it. -/
def scanExponent : List Char → Option (Option Int × List Char)
  | [] => some (none, [])
  | c :: cs =>
    if c = 'e' || c = 'E' then
      match cs with
      | '+' :: cs => scanExponentDigits 1 cs
      | '-' :: cs => scanExponentDigits (-1) cs
      | cs => scanExponentDigits 1 cs
    else some (none, c :: cs)

/-- A number without its sign, and the text behind it. -/
def scanUnsigned (negative : Bool) (cs : List Char) : Option (NumberText × List Char) := do
  let (whole, cs) ← scanWhole cs
  let (fraction, cs) ← scanFraction cs
  let (exponent, cs) ← scanExponent cs
  some (⟨negative, whole, fraction, exponent⟩, cs)

/-- A number, and the text behind it. -/
def scanNumber : List Char → Option (NumberText × List Char)
  | '-' :: cs => scanUnsigned true cs
  | cs => scanUnsigned false cs

theorem length_of_scanString {cs : List Char} {parts : List StringPart} {rest : List Char}
    (h : scanString cs = some (parts, rest)) : rest.length < cs.length := by
  fun_induction scanString cs generalizing parts rest with
  | case1 => cases h
  | case2 cs => cases h; simp
  | case3 a b c d cs ih =>
    simp only [Option.bind_eq_bind, Option.bind_eq_some_iff, Option.some.injEq,
      Prod.mk.injEq] at h
    obtain ⟨_, _, ⟨_, r⟩, hs, _, rfl⟩ := h
    have := ih hs
    simp only [List.length_cons]; omega
  | case4 e cs _ ih =>
    simp only [Option.bind_eq_bind, Option.bind_eq_some_iff, Option.some.injEq,
      Prod.mk.injEq] at h
    obtain ⟨_, _, ⟨_, r⟩, hs, _, rfl⟩ := h
    have := ih hs
    simp only [List.length_cons]; omega
  | case5 => cases h
  | case6 c cs _ _ _ _ ih =>
    simp only [Option.bind_eq_bind, Option.bind_eq_some_iff, Option.some.injEq,
      Prod.mk.injEq] at h
    obtain ⟨⟨_, r⟩, hs, _, rfl⟩ := h
    have := ih hs
    simp only [List.length_cons]; omega

theorem length_afterDigits_le (cs : List Char) : (afterDigits cs).length ≤ cs.length :=
  (List.dropWhile_sublist isDigit).length_le

theorem length_of_scanWhole {cs : List Char} {ds : List Nat} {rest : List Char}
    (h : scanWhole cs = some (ds, rest)) : rest.length < cs.length := by
  unfold scanWhole at h
  split at h
  · cases h
  · cases h
  · next hd _ =>
    cases h
    cases cs with
    | nil => simp [digits] at hd
    | cons c cs =>
      by_cases hc : isDigit c = true
      · have := length_afterDigits_le cs
        simp only [afterDigits, List.dropWhile_cons, hc, if_true, List.length_cons] at *
        omega
      · simp [digits, hc] at hd

theorem length_of_scanFraction {cs : List Char} {f : Option (List Nat)} {rest : List Char}
    (h : scanFraction cs = some (f, rest)) : rest.length ≤ cs.length := by
  unfold scanFraction at h
  split at h
  · next cs =>
    split at h
    · cases h
    · cases h
      have := length_afterDigits_le cs
      simp only [List.length_cons]; omega
  · cases h; exact Nat.le_refl _

theorem length_of_scanExponentDigits {sign : Int} {cs : List Char} {e : Option Int}
    {rest : List Char} (h : scanExponentDigits sign cs = some (e, rest)) :
    rest.length ≤ cs.length := by
  unfold scanExponentDigits at h
  split at h
  · cases h
  · cases h; exact length_afterDigits_le cs

theorem length_of_scanExponent {cs : List Char} {e : Option Int} {rest : List Char}
    (h : scanExponent cs = some (e, rest)) : rest.length ≤ cs.length := by
  unfold scanExponent at h
  split at h
  · cases h; simp
  · split at h
    · split at h <;>
        have := length_of_scanExponentDigits h <;> simp only [List.length_cons] <;> omega
    · cases h; simp

theorem length_of_scanUnsigned {negative : Bool} {cs : List Char} {t : NumberText}
    {rest : List Char} (h : scanUnsigned negative cs = some (t, rest)) :
    rest.length < cs.length := by
  simp only [scanUnsigned, Option.bind_eq_bind, Option.bind_eq_some_iff, Option.some.injEq,
    Prod.mk.injEq] at h
  obtain ⟨⟨_, _⟩, hw, ⟨_, _⟩, hf, ⟨_, _⟩, he, _, rfl⟩ := h
  have := length_of_scanWhole hw
  have := length_of_scanFraction hf
  have := length_of_scanExponent he
  simp only at *
  omega

theorem length_of_scanNumber {cs : List Char} {t : NumberText} {rest : List Char}
    (h : scanNumber cs = some (t, rest)) : rest.length < cs.length := by
  unfold scanNumber at h
  split at h
  · have := length_of_scanUnsigned h
    simp only [List.length_cons]; omega
  · exact length_of_scanUnsigned h

/-- Whether a character may stand between tokens. -/
def isSpace (c : Char) : Bool := c == ' ' || c == '\t' || c == '\n' || c == '\r'

/-- The tokens of a text. -/
def tokens : List Char → List Token
  | [] => []
  | '\x7b' :: cs => .openObject :: tokens cs
  | '\x7d' :: cs => .closeObject :: tokens cs
  | '[' :: cs => .openArray :: tokens cs
  | ']' :: cs => .closeArray :: tokens cs
  | ':' :: cs => .colon :: tokens cs
  | ',' :: cs => .comma :: tokens cs
  | 'n' :: 'u' :: 'l' :: 'l' :: cs => .null :: tokens cs
  | 't' :: 'r' :: 'u' :: 'e' :: cs => .bool true :: tokens cs
  | 'f' :: 'a' :: 'l' :: 's' :: 'e' :: cs => .bool false :: tokens cs
  | '"' :: cs =>
    match h : scanString cs with
    | none => [.bad]
    | some (parts, rest) =>
      have := length_of_scanString h
      .string parts :: tokens rest
  | c :: cs =>
    if isSpace c then tokens cs
    else
      match h : scanNumber (c :: cs) with
      | none => [.bad]
      | some (t, rest) =>
        have := length_of_scanNumber h
        .number t :: tokens rest
termination_by cs => cs.length
decreasing_by all_goals simp_all <;> omega

end PackChoice.Json
