import Sentential.Json.Number
import Sentential.Json.Quoted

/-! The tokens of JSON texts. A number and a string are tokens by their form alone, also where they
stand for nothing because the number is too great or the string has half of a surrogate pair. -/

namespace Sentential.Json

inductive Token where
  | openObject
  | closeObject
  | openArray
  | closeArray
  | comma
  | colon
  | null
  | bool (value : Bool)
  | number (value : Option Number)
  | string (value : Option String)
deriving Repr, Inhabited

def isSpace (c : Char) : Bool := c == ' ' || c == '\t' || c == '\n' || c == '\r'

/-- The digits that start a text, of which there is at least one, and the text after them. -/
def scanDigits? (text : List Char) : Option (List Char × List Char) :=
  match text.takeWhile isDigit with
  | [] => none
  | digit :: digits => some (digit :: digits, text.dropWhile isDigit)

namespace Literal

/-- The digits before the point, and the text after them. Only zero starts with a zero. -/
def scanWhole? : List Char → Option (List Char × List Char)
  | '0' :: rest => some (['0'], rest)
  | text => scanDigits? text

/-- The digits after a point, if a point starts the text, and the text after them. -/
def scanFraction? : List Char → Option (Option (List Char) × List Char)
  | '.' :: rest => (scanDigits? rest).map fun (digits, after) => (some digits, after)
  | text => some (none, text)

/-- The sign of an exponent, which may be missing, and the text after it. -/
def scanSign : List Char → Bool × List Char
  | '+' :: rest => (false, rest)
  | '-' :: rest => (true, rest)
  | text => (false, text)

/-- The exponent, if one starts the text, and the text after it. -/
def scanExponent? : List Char → Option (Option (Bool × List Char) × List Char)
  | c :: rest =>
    if c = 'e' ∨ c = 'E' then
      let (negative, rest) := scanSign rest
      (scanDigits? rest).map fun (digits, after) => (some (negative, digits), after)
    else some (none, c :: rest)
  | [] => some (none, [])

/-- The number without sign that starts a text, and the text after it. -/
def scan? (negative : Bool) (text : List Char) : Option (Literal × List Char) := do
  let (whole, text) ← scanWhole? text
  let (fraction, text) ← scanFraction? text
  let (exponent, text) ← scanExponent? text
  some (⟨negative, whole, fraction, exponent⟩, text)

end Literal

/-- The text after a word that starts it. -/
def afterWord? : List Char → List Char → Option (List Char)
  | [], text => some text
  | c :: word, d :: text => if c = d then afterWord? word text else none
  | _ :: _, [] => none

/-- The token that starts with a character, and the text after it. -/
def scanToken? (c : Char) (rest : List Char) : Option (Token × List Char) :=
  match c with
  | '\x7b' => some (.openObject, rest)
  | '\x7d' => some (.closeObject, rest)
  | '[' => some (.openArray, rest)
  | ']' => some (.closeArray, rest)
  | ',' => some (.comma, rest)
  | ':' => some (.colon, rest)
  | 'n' => (afterWord? "ull".toList rest).map fun after => (.null, after)
  | 't' => (afterWord? "rue".toList rest).map fun after => (.bool true, after)
  | 'f' => (afterWord? "alse".toList rest).map fun after => (.bool false, after)
  | '"' => (Quoted.scan rest).map fun (pieces, after) =>
    (.string ((Quoted.decode pieces).map String.ofList), after)
  | '-' => (Literal.scan? true rest).map fun (literal, after) => (.number literal.number?, after)
  | c => (Literal.scan? false (c :: rest)).map fun (literal, after) =>
    (.number literal.number?, after)

theorem length_scanDigits? {text digits after : List Char}
    (h : scanDigits? text = some (digits, after)) : after.length < text.length := by
  unfold scanDigits? at h
  split at h
  · simp at h
  · next digit digits ht =>
    simp only [Option.some.injEq, Prod.mk.injEq] at h
    have := congrArg List.length (List.takeWhile_append_dropWhile (p := isDigit) (l := text))
    rw [ht, h.2] at this
    simp at this
    omega

namespace Literal

theorem length_scanWhole? {text whole after : List Char}
    (h : scanWhole? text = some (whole, after)) : after.length < text.length := by
  unfold scanWhole? at h
  split at h
  · simp only [Option.some.injEq, Prod.mk.injEq] at h
    simp [← h.2]
  · exact length_scanDigits? h

theorem length_scanFraction? {text after : List Char} {fraction : Option (List Char)}
    (h : scanFraction? text = some (fraction, after)) : after.length ≤ text.length := by
  unfold scanFraction? at h
  split at h
  · simp only [Option.map_eq_some_iff, Prod.mk.injEq] at h
    obtain ⟨⟨digits, last⟩, hd, -, rfl⟩ := h
    have := length_scanDigits? hd
    simp only [List.length_cons]
    omega
  · simp only [Option.some.injEq, Prod.mk.injEq] at h
    simp [h.2]

theorem length_scanSign (text : List Char) : (scanSign text).2.length ≤ text.length := by
  unfold scanSign
  split <;> simp

theorem length_scanExponent? {text after : List Char} {exponent : Option (Bool × List Char)}
    (h : scanExponent? text = some (exponent, after)) : after.length ≤ text.length := by
  unfold scanExponent? at h
  split at h
  · next c rest =>
    split at h
    · simp only [Option.map_eq_some_iff, Prod.mk.injEq] at h
      obtain ⟨⟨digits, last⟩, hd, -, rfl⟩ := h
      have := length_scanDigits? hd
      have := length_scanSign rest
      simp only [List.length_cons]
      omega
    · simp only [Option.some.injEq, Prod.mk.injEq] at h
      simp [← h.2]
  · simp only [Option.some.injEq, Prod.mk.injEq] at h
    simp [← h.2]

theorem length_scan? {negative : Bool} {text after : List Char} {literal : Literal}
    (h : scan? negative text = some (literal, after)) : after.length < text.length := by
  simp only [scan?, Option.bind_eq_bind, Option.bind_eq_some_iff] at h
  obtain ⟨⟨whole, text1⟩, h1, ⟨fraction, text2⟩, h2, ⟨exponent, text3⟩, h3, h⟩ := h
  simp only [Option.some.injEq, Prod.mk.injEq] at h
  obtain ⟨-, rfl⟩ := h
  have := length_scanWhole? h1
  have := length_scanFraction? h2
  have := length_scanExponent? h3
  simp only at *
  omega

end Literal

theorem length_afterWord? {word text after : List Char} (h : afterWord? word text = some after) :
    after.length ≤ text.length := by
  induction word generalizing text with
  | nil => simp [afterWord?] at h; simp [h]
  | cons c word ih =>
    cases text with
    | nil => simp [afterWord?] at h
    | cons d text =>
      simp only [afterWord?] at h
      split at h
      · have := ih h; simp only [List.length_cons]; omega
      · simp at h

theorem length_scanToken? {c : Char} {rest after : List Char} {token : Token}
    (h : scanToken? c rest = some (token, after)) : after.length ≤ rest.length := by
  unfold scanToken? at h
  split at h
  case h_7 | h_8 | h_9 =>
    simp only [Option.map_eq_some_iff, Prod.mk.injEq] at h
    obtain ⟨last, hw, -, rfl⟩ := h
    exact length_afterWord? hw
  case h_10 =>
    simp only [Option.map_eq_some_iff, Prod.mk.injEq] at h
    obtain ⟨⟨pieces, last⟩, hs, -, rfl⟩ := h
    exact Nat.le_of_lt (Quoted.length_scan hs)
  case h_11 =>
    simp only [Option.map_eq_some_iff, Prod.mk.injEq] at h
    obtain ⟨⟨literal, last⟩, hs, -, rfl⟩ := h
    exact Nat.le_of_lt (Literal.length_scan? hs)
  case h_12 =>
    simp only [Option.map_eq_some_iff, Prod.mk.injEq] at h
    obtain ⟨⟨literal, last⟩, hs, -, rfl⟩ := h
    exact Nat.le_of_lt_succ (Literal.length_scan? hs)
  all_goals
    simp only [Option.some.injEq, Prod.mk.injEq] at h
    simp [h.2]

/-- The tokens of a text, if it consists of tokens and space. -/
def scan? : List Char → Option (List Token)
  | [] => some []
  | c :: rest =>
    if isSpace c then scan? rest
    else match h : scanToken? c rest with
      | none => none
      | some (token, after) =>
        have := length_scanToken? h
        (scan? after).map (token :: ·)
termination_by text => text.length

end Sentential.Json
