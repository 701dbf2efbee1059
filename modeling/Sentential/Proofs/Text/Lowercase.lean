import Sentential.Symbolic.Scanner
import Sentential.Text.Lowercase

/-! What lower-casing takes from a text and what it keeps: no letter from `A` to `Z` is left, and a
text without blanks at its ends has none at its ends in lower case. -/

namespace Sentential.Text

open Symbolic

/-- The lower-case letters of every run lie past `Z`, and no blank is among them. -/
theorem lower_run : ∀ run ∈ caseRuns, 'Z'.toNat < run.lower ∧
    ∀ code ∈ blanks, code < run.lower ∨ run.lower + (run.last - run.first) < code := by
  decide +kernel

/-- A character by its code point, which is zero if there is no such character. -/
theorem toNat_ofNat_or (code : Nat) :
    (Char.ofNat code).toNat = code ∨ (Char.ofNat code).toNat = 0 := by
  by_cases h : code.isValidChar
  · rw [Char.ofNat, dif_pos h]
    exact .inl rfl
  · rw [Char.ofNat, dif_neg h]
    exact .inr rfl

/-- In lower case, a character is itself or belongs to the lower-case letters of a run. The capital
I with a dot is apart from both. -/
theorem lowerChar_cases (c : Char) :
    lowerChar c = ['i', '\u0307'] ∨ (lowerChar c = [c] ∧ Token.isLetter c = false) ∨
      ∃ run ∈ caseRuns, ∃ code, lowerChar c = [Char.ofNat code] ∧ run.lower ≤ code ∧
        code ≤ run.lower + (run.last - run.first) := by
  unfold lowerChar
  split
  · left
    rfl
  split
  · next run hrun =>
    have hcovers := List.find?_some hrun
    simp only [CaseRun.covers, Bool.and_eq_true, decide_eq_true_eq] at hcovers
    exact .inr (.inr ⟨run, List.mem_of_find?_eq_some hrun, _, rfl, by omega, by omega⟩)
  · next hnone =>
    refine .inr (.inl ⟨rfl, Bool.eq_false_iff.mpr fun hletter => ?_⟩)
    -- The first run has the lower-case letters of `A` to `Z`, so it would have been found.
    have hfirst := List.find?_eq_none.mp hnone ⟨0x41, 0x5A, 1, 0x61⟩ List.mem_cons_self
    simp only [Token.isLetter, Bool.and_eq_true, decide_eq_true_eq, Char.le_def] at hletter
    have hlow : 0x41 ≤ c.toNat := hletter.1
    have hhigh : c.toNat ≤ 0x5A := hletter.2
    simp [CaseRun.covers, hlow, hhigh, Nat.mod_one] at hfirst

theorem isLetter_lowerChar {c d : Char} (hd : d ∈ lowerChar c) : Token.isLetter d = false := by
  rcases lowerChar_cases c with h | ⟨h, hc⟩ | ⟨run, hrun, code, h, hlow, -⟩
  · rw [h, List.mem_cons, List.mem_singleton] at hd
    rcases hd with rfl | rfl <;> rfl
  · rw [h, List.mem_singleton] at hd
    rwa [hd]
  · rw [h, List.mem_singleton] at hd
    subst hd
    refine Bool.eq_false_iff.mpr fun hletter => ?_
    simp only [Token.isLetter, Bool.and_eq_true, decide_eq_true_eq, Char.le_def] at hletter
    have hA : 'A'.toNat ≤ (Char.ofNat code).toNat := hletter.1
    have hZ : (Char.ofNat code).toNat ≤ 'Z'.toNat := hletter.2
    have hrun := (lower_run run hrun).1
    have hA' : 0 < 'A'.toNat := by decide
    rcases toNat_ofNat_or code with hcode | hcode <;> omega

theorem isBlank_lowerChar {c d : Char} (hc : isBlank c = false) (hd : d ∈ lowerChar c) :
    isBlank d = false := by
  rcases lowerChar_cases c with h | ⟨h, -⟩ | ⟨run, hrun, code, h, hlow, hhigh⟩
  · rw [h, List.mem_cons, List.mem_singleton] at hd
    rcases hd with rfl | rfl <;> rfl
  · rw [h, List.mem_singleton] at hd
    rwa [hd]
  · rw [h, List.mem_singleton] at hd
    subst hd
    refine Bool.eq_false_iff.mpr fun hblank => ?_
    have hmem := isBlank_iff.mp hblank
    rcases toNat_ofNat_or code with hcode | hcode
    · have hapart := (lower_run run hrun).2 _ hmem
      omega
    · rw [hcode] at hmem
      exact absurd hmem (by decide)

theorem lowerChar_ne_nil (c : Char) : lowerChar c ≠ [] := by
  rcases lowerChar_cases c with h | ⟨h, -⟩ | ⟨run, hrun, code, h, -⟩ <;> simp [h]

/-- A text in lower case starts with the lower case of its first character. -/
theorem lowerFrom_cons (before : List Char) (c : Char) (rest : List Char) :
    ∃ part, lowerFrom before (c :: rest) = part ++ lowerFrom (c :: before) rest ∧ part ≠ [] ∧
      ∀ d ∈ part, Token.isLetter d = false ∧ (isBlank c = false → isBlank d = false) := by
  rw [lowerFrom]
  refine ⟨_, rfl, ?_⟩
  split
  · refine ⟨by simp, fun d hd => ?_⟩
    have hsigma : d = 'ς' ∨ d = 'σ' := by
      split at hd <;> simp_all
    rcases hsigma with rfl | rfl <;> exact ⟨rfl, fun _ => rfl⟩
  · exact ⟨lowerChar_ne_nil c, fun d hd => ⟨isLetter_lowerChar hd, (isBlank_lowerChar · hd)⟩⟩

theorem isLetter_lowerFrom {before text : List Char} {d : Char} (hd : d ∈ lowerFrom before text) :
    Token.isLetter d = false := by
  induction text generalizing before with
  | nil => simp [lowerFrom] at hd
  | cons c rest ih =>
    obtain ⟨part, h, -, hpart⟩ := lowerFrom_cons before c rest
    rw [h, List.mem_append] at hd
    rcases hd with hd | hd
    · exact (hpart d hd).1
    · exact ih hd

theorem head?_lowerFrom {before text : List Char}
    (h : ∀ c, text.head? = some c → isBlank c = false) {d : Char}
    (hd : (lowerFrom before text).head? = some d) : isBlank d = false := by
  cases text with
  | nil => simp [lowerFrom] at hd
  | cons c rest =>
    obtain ⟨part, hlower, hne, hpart⟩ := lowerFrom_cons before c rest
    obtain ⟨first, others, rfl⟩ := List.exists_cons_of_ne_nil hne
    rw [hlower] at hd
    cases hd
    exact (hpart d List.mem_cons_self).2 (h c rfl)

theorem getLast?_lowerFrom {before text : List Char}
    (h : ∀ c, text.getLast? = some c → isBlank c = false) {d : Char}
    (hd : (lowerFrom before text).getLast? = some d) : isBlank d = false := by
  induction text generalizing before with
  | nil => simp [lowerFrom] at hd
  | cons c rest ih =>
    obtain ⟨part, hlower, -, hpart⟩ := lowerFrom_cons before c rest
    rw [hlower, List.getLast?_append] at hd
    cases rest with
    | nil =>
      have hlast : part.getLast? = some d := by simpa [lowerFrom] using hd
      exact (hpart d (List.mem_of_getLast? hlast)).2 (h c rfl)
    | cons next rest =>
      have hrest : ∀ c, (next :: rest).getLast? = some c → isBlank c = false := by
        intro last hlast
        apply h last
        rw [List.getLast?_cons_cons, hlast]
      obtain ⟨part', hlower', hne', -⟩ := lowerFrom_cons (c :: before) next rest
      have hne : lowerFrom (c :: before) (next :: rest) ≠ [] := by simp [hlower', hne']
      rw [List.getLast?_eq_some_getLast hne] at hd
      exact ih hrest ((List.getLast?_eq_some_getLast hne).trans hd)

theorem isLetter_lower {text : List Char} {d : Char} (hd : d ∈ lower text) :
    Token.isLetter d = false := isLetter_lowerFrom hd

theorem trimmed_lower {text : List Char} (h : Trimmed text) : Trimmed (lower text) :=
  ⟨fun _ hd => head?_lowerFrom h.1 hd, fun _ hd => getLast?_lowerFrom h.2 hd⟩

end Sentential.Text
