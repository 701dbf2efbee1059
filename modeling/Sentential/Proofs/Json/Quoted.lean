import Sentential.Json.Quoted

/-! Strings of JSON texts that were written. Each character is read back as one unit, and the units
mean the characters. -/

namespace Sentential.Json.Quoted

/-- The unit as which a character is written. -/
def piece (c : Char) : Piece :=
  if shortEscapes.lookup c = none ∧ c.toNat < 0x20 then .codeUnit c.toNat else .character c

theorem ofEscape?_of_lookup {c letter : Char} (h : shortEscapes.lookup c = some letter) :
    ofEscape? letter = some c ∧ letter ≠ 'u' := by
  have key : ∀ p ∈ shortEscapes, ofEscape? p.2 = some p.1 ∧ p.2 ≠ 'u' := by decide
  obtain ⟨before, after, he, -⟩ := List.lookup_eq_some_iff.mp h
  exact key (c, letter) (by simp [he])

theorem ne_of_lookup {c : Char} (h : shortEscapes.lookup c = none) : c ≠ '"' ∧ c ≠ '\\' := by
  constructor <;> rintro rfl <;> exact absurd h (by decide)

theorem ofHex?_digitChar {n : Nat} (h : n < 0x20) :
    ofHex? 0 ['0', '0', Nat.digitChar (n / 16), Nat.digitChar (n % 16)] = some n := by
  revert n
  decide

variable (rest : List Char)

theorem scan_codeUnit {a b c d : Char} {value : Nat} (h : ofHex? 0 [a, b, c, d] = some value) :
    scan ('\\' :: 'u' :: a :: b :: c :: d :: rest) =
      (scan rest).map (Prod.map (.codeUnit value :: ·) id) := by
  rw [scan, h]
  cases scan rest <;> rfl

theorem scan_escape {letter c : Char} (h : ofEscape? letter = some c) (hu : letter ≠ 'u') :
    scan ('\\' :: letter :: rest) = (scan rest).map (Prod.map (.character c :: ·) id) := by
  rw [scan.eq_4 _ _ (fun _ _ _ _ _ he _ => hu he), h]
  cases scan rest <;> rfl

theorem scan_character {c : Char} (hq : c ≠ '"') (hb : c ≠ '\\') (hc : ¬ c.toNat < 0x20) :
    scan (c :: rest) = (scan rest).map (Prod.map (.character c :: ·) id) := by
  rw [scan.eq_5 _ _ hq (fun _ _ _ _ _ he _ => hb he) (fun _ _ he _ => hb he), if_neg hc]
  cases scan rest <;> rfl

/-- Whatever follows a written character, it is read as the unit as which it was written. -/
theorem scan_encodeChar (c : Char) :
    scan (encodeChar c ++ rest) = (scan rest).map (Prod.map (piece c :: ·) id) := by
  unfold encodeChar piece
  cases hl : shortEscapes.lookup c with
  | some letter =>
    obtain ⟨he, hu⟩ := ofEscape?_of_lookup hl
    simpa using scan_escape rest he hu
  | none =>
    obtain ⟨hq, hb⟩ := ne_of_lookup hl
    by_cases hc : c.toNat < 0x20
    · simpa [hc] using scan_codeUnit rest (ofHex?_digitChar hc)
    · simpa [hc] using scan_character rest hq hb hc

theorem scan_encode (text : List Char) :
    scan (text.flatMap encodeChar ++ '"' :: rest) = some (text.map piece, rest) := by
  induction text with
  | nil => rw [List.flatMap_nil, List.nil_append, scan]; rfl
  | cons c text ih =>
    rw [List.flatMap_cons, List.append_assoc, scan_encodeChar, ih]
    rfl

/-- A character is no surrogate, so the code unit of its code point means it alone. -/
theorem decode_codeUnit (c : Char) (pieces : List Piece) :
    decode (.codeUnit c.toNat :: pieces) = (decode pieces).map (c :: ·) := by
  have hvalid : c.toNat < 0xD800 ∨ 0xDFFF < c.toNat ∧ c.toNat < 0x110000 := c.valid
  have hhigh : isHighSurrogate c.toNat = false := by simp [isHighSurrogate]; omega
  have hlow : isLowSurrogate c.toNat = false := by simp [isLowSurrogate]; omega
  rw [decode.eq_def]
  simp [hhigh, hlow]

theorem decode_piece (c : Char) (pieces : List Piece) :
    decode (piece c :: pieces) = (decode pieces).map (c :: ·) := by
  unfold piece
  split
  · exact decode_codeUnit c pieces
  · rfl

theorem decode_encode (text : List Char) : decode (text.map piece) = some text := by
  induction text with
  | nil => rfl
  | cons c text ih => rw [List.map_cons, decode_piece, ih]; rfl

end Sentential.Json.Quoted
