/-! The strings of JSON texts. A string is written as units, each a character or an escape. An
escape with four hexadecimal digits is a code unit of UTF-16, and two of them in a row may be the
surrogates of one character. -/

namespace Sentential.Json

/-- A unit of a written string: a character, or a code unit of UTF-16. -/
inductive Piece where
  | character (c : Char)
  | codeUnit (value : Nat)
deriving DecidableEq, Repr, Inhabited

namespace Quoted

def isHighSurrogate (value : Nat) : Bool := 0xD800 ≤ value && value < 0xDC00

def isLowSurrogate (value : Nat) : Bool := 0xDC00 ≤ value && value < 0xE000

/-- The characters that units write, unless one is a surrogate without its other half. -/
def decode : List Piece → Option (List Char)
  | [] => some []
  | .character c :: rest => (decode rest).map (c :: ·)
  | .codeUnit value :: rest =>
    if isHighSurrogate value then
      match rest with
      | .codeUnit low :: rest =>
        if isLowSurrogate low then
          let c := Char.ofNat (0x10000 + (value - 0xD800) * 0x400 + (low - 0xDC00))
          (decode rest).map (c :: ·)
        else none
      | _ => none
    else if isLowSurrogate value then none
    else (decode rest).map (Char.ofNat value :: ·)

/-- The characters that have a short escape, each with the letter of its escape. -/
def shortEscapes : List (Char × Char) :=
  [('"', '"'), ('\\', '\\'), ('\x08', 'b'), ('\x0c', 'f'), ('\n', 'n'), ('\r', 'r'), ('\t', 't')]

/-- The character that the letter of a short escape stands for. A slash may be escaped too. -/
def ofEscape? (letter : Char) : Option Char :=
  if letter = '/' then some '/'
  else (shortEscapes.find? (·.2 = letter)).map (·.1)

def hexDigit? (c : Char) : Option Nat :=
  if '0' ≤ c ∧ c ≤ '9' then some (c.toNat - '0'.toNat)
  else if 'a' ≤ c ∧ c ≤ 'f' then some (c.toNat - 'a'.toNat + 10)
  else if 'A' ≤ c ∧ c ≤ 'F' then some (c.toNat - 'A'.toNat + 10)
  else none

/-- The number that hexadecimal digits write after those of `value`. -/
def ofHex? (value : Nat) : List Char → Option Nat
  | [] => some value
  | c :: rest => (hexDigit? c).bind fun digit => ofHex? (value * 16 + digit) rest

/-- The units of a string of which the opening quote was read, and the text after the closing
quote. A control character has to be escaped. -/
def scan : List Char → Option (List Piece × List Char)
  | [] => none
  | '"' :: rest => some ([], rest)
  | '\\' :: 'u' :: a :: b :: c :: d :: rest => do
    let value ← ofHex? 0 [a, b, c, d]
    let (pieces, after) ← scan rest
    some (.codeUnit value :: pieces, after)
  | '\\' :: letter :: rest => do
    let c ← ofEscape? letter
    let (pieces, after) ← scan rest
    some (.character c :: pieces, after)
  | c :: rest =>
    if c.toNat < 0x20 then none
    else do
      let (pieces, after) ← scan rest
      some (.character c :: pieces, after)

/-- A character of a string as it is written. -/
def encodeChar (c : Char) : List Char :=
  match shortEscapes.lookup c with
  | some letter => ['\\', letter]
  | none =>
    if c.toNat < 0x20 then
      ['\\', 'u', '0', '0', Nat.digitChar (c.toNat / 16), Nat.digitChar (c.toNat % 16)]
    else [c]

/-- The text of a string, with its quotes. -/
def encode (text : List Char) : List Char := '"' :: text.flatMap encodeChar ++ ['"']

theorem length_scan {text after : List Char} {pieces : List Piece}
    (h : scan text = some (pieces, after)) : after.length < text.length := by
  fun_induction scan text generalizing pieces with
  | case1 => simp at h
  | case2 rest =>
    simp only [Option.some.injEq, Prod.mk.injEq] at h
    simp [← h.2]
  | case3 a b c d rest ih =>
    simp only [Option.bind_eq_bind, Option.bind_eq_some_iff] at h
    obtain ⟨_, -, ⟨more, last⟩, hs, h⟩ := h
    simp only [Option.some.injEq, Prod.mk.injEq] at h
    obtain ⟨-, rfl⟩ := h
    have := ih hs
    simp only [List.length_cons]
    omega
  | case4 letter rest _ ih =>
    simp only [Option.bind_eq_bind, Option.bind_eq_some_iff] at h
    obtain ⟨_, -, ⟨more, last⟩, hs, h⟩ := h
    simp only [Option.some.injEq, Prod.mk.injEq] at h
    obtain ⟨-, rfl⟩ := h
    have := ih hs
    simp only [List.length_cons]
    omega
  | case5 => simp at h
  | case6 c rest _ _ _ _ ih =>
    simp only [Option.bind_eq_bind, Option.bind_eq_some_iff] at h
    obtain ⟨⟨more, last⟩, hs, h⟩ := h
    simp only [Option.some.injEq, Prod.mk.injEq] at h
    obtain ⟨-, rfl⟩ := h
    have := ih hs
    simp only [List.length_cons]
    omega

end Quoted

end Sentential.Json
