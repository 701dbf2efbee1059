import Sentential.Json.Value
import Sentential.Proofs.Json.Grammar
import Sentential.Proofs.Json.Quoted

/-! What is written as JSON is in the grammar of JSON: strings, natural numbers, and the objects whose
values are. -/

namespace Sentential.Json

/-! ### Natural numbers -/

theorem digits_toDigits (n : Nat) : Digits (Nat.toDigits 10 n) := by
  refine ⟨Nat.toDigits_ne_nil, fun c hc => ?_⟩
  have hdigit := Nat.isDigit_of_mem_toDigits (by decide) (by decide) hc
  simpa [isDigit, Char.isDigit, Char.le_def] using hdigit

/-- No number but zero starts with a zero. -/
theorem head?_toDigits {n : Nat} (h : 0 < n) : (Nat.toDigits 10 n).head? ≠ some '0' := by
  induction n using Nat.strongRecOn with
  | ind n ih =>
    by_cases hn : n < 10
    · have hdigit : ∀ n < 10, 0 < n → some n.digitChar ≠ some '0' := by decide
      rw [Nat.toDigits_of_lt_base hn]
      exact hdigit n hn h
    · have hless : n / 10 < n := Nat.div_lt_self h (by decide)
      have hpos : 0 < n / 10 := Nat.div_pos (Nat.not_lt.mp hn) (by decide)
      rw [Nat.toDigits_of_base_le (by decide) (Nat.not_lt.mp hn),
        List.head?_append_of_ne_nil _ Nat.toDigits_ne_nil]
      exact ih (n / 10) hless hpos

theorem numberText_toDigits (n : Nat) :
    NumberText (Nat.toDigits 10 n) ⟨false, Nat.toDigits 10 n, none, none⟩ := by
  have hwhole : WholeText (Nat.toDigits 10 n) := by
    rcases Nat.eq_zero_or_pos n with rfl | hn
    · exact .zero
    · exact .digits (head?_toDigits hn) (digits_toDigits n)
  exact ⟨[], [], hwhole, .none, .none, by simp⟩

/-- Decimal digits are the integer that they write, if it has 64 bits. -/
theorem number?_toDigits {n : Nat} (h : n < UInt64.size) :
    Literal.number? ⟨false, Nat.toDigits 10 n, none, none⟩ = some (.integer n) := by
  have hvalue : ofDigits 0 (Nat.toDigits 10 n) = n := by
    have hsame : ofDigits 0 (Nat.toDigits 10 n) = Nat.ofDigitChars 10 (Nat.toDigits 10 n) 0 := by
      simp only [ofDigits, Nat.ofDigitChars_eq_foldl, Nat.mul_comm]
    rw [hsame, Nat.ofDigitChars_toDigits (by decide) (by decide)]
  simp [Literal.number?, hvalue, h]

/-! ### Strings -/

namespace Quoted

theorem stands_pieces (text : List Char) : Stands (text.map piece) text := by
  induction text with
  | nil => exact .nil
  | cons c text ih =>
    rw [List.map_cons, piece]
    split
    · exact .codeUnit c ih
    · exact .character c ih

theorem written_encode (text : List Char) : Written (text.flatMap encodeChar) (text.map piece) := by
  have hshort : ∀ p ∈ shortEscapes, p ∈ escapes := by decide
  have hhex : ∀ n < 16, (n.digitChar, n) ∈ hexDigits := by decide
  induction text with
  | nil => exact .nil
  | cons c text ih =>
    rw [List.flatMap_cons, List.map_cons, encodeChar, piece]
    cases hlookup : shortEscapes.lookup c with
    | some letter =>
      obtain ⟨before, after, hmem, -⟩ := List.lookup_eq_some_iff.mp hlookup
      have hescape := hshort (c, letter) (by simp [hmem])
      simpa using Written.escape hescape ih
    | none =>
      obtain ⟨hquote, hbackslash⟩ := ne_of_lookup hlookup
      by_cases hc : c.toNat < 0x20
      · have hzero : ('0', 0) ∈ hexDigits := by decide
        have hunit := Written.codeUnit hzero hzero (hhex (c.toNat / 16) (by omega))
          (hhex (c.toNat % 16) (by omega)) ih
        have hvalue : ((0 * 16 + 0) * 16 + c.toNat / 16) * 16 + c.toNat % 16 = c.toNat := by omega
        rw [hvalue] at hunit
        simpa [hc] using hunit
      · simpa [hc] using Written.character hquote hbackslash (Nat.not_lt.mp hc) ih

end Quoted

theorem nameText_encode (key : String) :
    NameText (Quoted.encode key.toList) (key.toList.map Quoted.piece) :=
  ⟨_, ⟨_, Quoted.written_encode key.toList, rfl⟩, padded_self _⟩

/-! ### Objects -/

theorem membersText_write {members : List (String × Value)}
    (h : ∀ member ∈ members, ValueText member.2.write) :
    MembersText (Value.writeMembers members)
      (members.map fun member => (member.1.toList.map Quoted.piece, member.2.write)) := by
  induction members with
  | nil => exact .none spaces_nil
  | cons member members ih =>
    obtain ⟨hvalue, hothers⟩ := List.forall_mem_cons.mp h
    have hname := nameText_encode member.1
    cases members with
    | nil => exact .one hname hvalue (padded_self _)
    | cons next members => exact .more hname hvalue (padded_self _) (ih hothers)

theorem objectText_write {members : List (String × Value)}
    (h : ∀ member ∈ members, ValueText member.2.write) :
    ObjectText (Value.object members).write
      (members.map fun member => (member.1, member.2.write)) := by
  refine ⟨_, _, membersText_write h, padded_self _, ?_⟩
  rw [List.forall₂_map_left_iff, List.forall₂_map_right_iff, List.forall₂_same]
  exact fun member _ => ⟨Quoted.stands_pieces member.1.toList, rfl⟩

end Sentential.Json
