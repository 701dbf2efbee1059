import Mathlib.Data.List.Forall2
import Sentential.Text.Blank
import Sentential.Text.Pattern

/-! Pieces of a text, in the order in which they stand there and without overlap. What is cut out of
a text, trimmed, and split off is made of such pieces. -/

namespace Sentential.Text

/-- The pieces stand in the text one after the other, with any gaps before, between, and after
them. -/
inductive Pieces : List (List Char) → List Char → Prop
  | nil (text : List Char) : Pieces [] text
  | cons (gap piece : List Char) {pieces : List (List Char)} {rest : List Char} :
      Pieces pieces rest → Pieces (piece :: pieces) (gap ++ piece ++ rest)

namespace Pieces

variable {pieces parts : List (List Char)} {piece text : List Char}

theorem single (text : List Char) : Pieces [text] text := by
  simpa using Pieces.cons [] text (.nil [])

theorem after (gap : List Char) (h : Pieces pieces text) : Pieces pieces (gap ++ text) := by
  cases h with
  | nil => exact .nil _
  | cons gap' piece h =>
    simpa only [List.append_assoc] using Pieces.cons (gap ++ gap') piece h

/-- Parts of pieces are pieces. -/
theorem shrink (h : Pieces pieces text) (hparts : List.Forall₂ (· <:+: ·) parts pieces) :
    Pieces parts text := by
  induction h generalizing parts with
  | nil text =>
    cases hparts
    exact .nil text
  | cons gap piece h ih =>
    cases hparts with
    | cons hpart hparts =>
      obtain ⟨front, back, rfl⟩ := hpart
      simpa only [List.append_assoc] using
        Pieces.cons (gap ++ front) _ ((ih hparts).after back)

theorem sublist (h : Pieces pieces text) (hparts : parts.Sublist pieces) : Pieces parts text := by
  induction h generalizing parts with
  | nil text =>
    rw [List.sublist_nil.mp hparts]
    exact .nil text
  | cons gap piece h ih =>
    rcases List.sublist_cons_iff.mp hparts with hskip | ⟨others, rfl, hothers⟩
    · exact (ih hskip).after (gap ++ piece)
    · exact .cons gap piece (ih hothers)

theorem subset (h : Pieces pieces text) (hmem : piece ∈ pieces) : piece ⊆ text := by
  induction h with
  | nil => simp at hmem
  | cons gap piece' h ih =>
    intro c hc
    rcases List.mem_cons.mp hmem with rfl | hmem
    · simp [hc]
    · simp [ih hmem hc]

theorem split (pattern : Pattern) (nonempty : 0 < pattern.length) (text : List Char) :
    Pieces (pattern.split nonempty text) text := by
  fun_induction Pattern.split pattern nonempty text with
  | case1 text => exact .single text
  | case2 text before rest h _ ih =>
    obtain ⟨part, rfl, -⟩ := Pattern.split_of_cut? h
    simpa using Pieces.cons [] before (ih.after part)

end Pieces

theorem stripWhile_within (p : Char → Bool) (text : List Char) : stripWhile p text <:+: text := by
  obtain ⟨front, back, h, -⟩ := stripWhile_split p text
  exact ⟨front, back, h.symm⟩

theorem trim_within (text : List Char) : trim text <:+: text := stripWhile_within isBlank text

theorem Stripped.mono {p q : Char → Bool} {text : List Char} (h : Stripped p text)
    (hq : ∀ c, q c = true → p c = true) : Stripped q text := by
  have hnot : ∀ c, p c = false → q c = false := fun c hc => by
    refine Bool.eq_false_iff.mpr fun hqc => ?_
    simp [hq c hqc] at hc
  exact ⟨fun c hc => hnot c (h.1 c hc), fun c hc => hnot c (h.2 c hc)⟩

/-- A text that ends in a character other than a blank still does so without the blanks before. -/
theorem trimmed_trimStart {text : List Char} (h : ∀ c, text.getLast? = some c → isBlank c = false) :
    Trimmed (trimStart text) := by
  refine ⟨fun c hc => dropWhile_head hc, fun c hc => h c ?_⟩
  obtain ⟨front, hsplit, -⟩ := dropWhile_split isBlank text
  rw [hsplit, List.getLast?_append, show (text.dropWhile isBlank).getLast? = some c from hc]
  rfl

theorem trim_ne_nil {text : List Char} {c : Char} (hc : c ∈ text) (hblank : isBlank c = false) :
    trim text ≠ [] := by
  intro h
  rw [trim_eq_nil_iff.mp h c hc] at hblank
  cases hblank

end Sentential.Text
