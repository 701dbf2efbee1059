import Sentential.Proofs.Conversion.Delivery
import Sentential.Proofs.Guess.Canonical

/-! What is read back from the answer with a guess. The meanings of a guess are in lower case, so no
line of them passes for the line of another atom, and each atom keeps the first line of its meaning. -/

namespace Sentential

open Symbolic Text

/-- The text of a formula has no colon, so it contains no heading. -/
theorem Formula.not_accepts_heading {f : Formula} (h : ∀ t ∈ f.tokens, t.Legible) {part : List Char}
    (hpart : part <:+: f.text.toList) : ¬Answer.propositionsHeading.Accepts part := by
  refine Answer.not_accepts_of_not_mem (fun hmem => ?_) part hpart
  rw [text, String.toList_ofList] at hmem
  obtain ⟨t, ht, hspelling⟩ := List.mem_flatMap.mp hmem
  rcases Token.mem_spelling hspelling with hspace | hsymbol
  · cases hspace
  · have hlegible : Token.ofChar? ':' = some t := hsymbol ▸ h t ht
    cases hlegible

namespace Answer

variable {formula : String} {propositions : Glossary}

theorem isEmpty_firstLine {text : List Char} (h : Trimmed text) :
    (firstLine (String.ofList text)).isEmpty = (String.ofList text).isEmpty := by
  have hiff : trim (text.takeWhile (· ≠ '\n')) = [] ↔ text = [] := by
    constructor
    · intro htrim
      cases text with
      | nil => rfl
      | cons c rest =>
        have hc : isBlank c = false := h.1 c rfl
        have hne : c ≠ '\n' := by
          rintro rfl
          cases hc
        refine absurd htrim (trim_ne_nil (c := c) ?_ hc)
        simp [hne]
    · rintro rfl
      rfl
  rw [Bool.eq_iff_iff, firstLine, String.toList_ofList]
  simpa using hiff

/-- If no meaning gives another entry, each entry with something on its first line is read back with
that. -/
theorem propositions_compose
    (hheading : ∀ part, part <:+: formula.toList → ¬propositionsHeading.Accepts part)
    (hquiet : Lettered Quiet propositions.entries) :
    (ofText (compose formula propositions)).propositions.entries =
      (propositions.entries.filter fun entry => !(firstLine entry.2).isEmpty).map
        fun entry => (entry.1, firstLine entry.2) := by
  have hsorted : Table.Sorted ((propositions.entries.filter
      fun entry => !(firstLine entry.2).isEmpty).map fun entry => (entry.1, firstLine entry.2)) :=
    List.pairwise_map.mpr (propositions.sorted.sublist List.filter_sublist)
  rw [ofText, propositionsIn_lines hheading hquiet, entries_of_lettered hquiet]
  exact Table.ofList_of_sorted hsorted

end Answer

namespace Guess

variable {text : List Char} {guess : Guess} {part : Char × List Char}

theorem Excerpted.part_cases (h : guess.Excerpted text) (hpart : part ∈ guess.parts) :
    part.2 ⊆ text ∨ part.2 = "proposição ".toList ++ [part.1] := by
  obtain ⟨pieces, hpieces, -, hparts⟩ := h
  rw [hparts, ← List.map_uncurry_zip_eq_zipWith] at hpart
  obtain ⟨⟨letter, piece⟩, hzip, rfl⟩ := List.mem_map.mp hpart
  show meaning guess.formula letter piece ⊆ text ∨
    meaning guess.formula letter piece = "proposição ".toList ++ [letter]
  unfold meaning
  split
  · exact .inr rfl
  · exact .inl (hpieces.subset (List.of_mem_zip hzip).2)

theorem Faithful.isLetter_part (h : guess.Faithful text) (hpart : part ∈ guess.parts) :
    Token.isLetter part.1 = true :=
  h.isLetter_leaves _ (h.atoms ▸ List.mem_map_of_mem hpart)

theorem entryIn?_eq_none {line : List Char} (h : ∀ c ∈ line, Token.isLetter c = false) :
    Answer.entryIn? line = none := by
  cases line with
  | nil => rfl
  | cons c rest => simp [Answer.entryIn?, h c List.mem_cons_self]

/-- Past the first line of a meaning there are only lines of a sentence in lower case. -/
theorem quiet_entry (h : guess.Faithful text) (htext : ∀ c ∈ text, Token.isLetter c = false)
    (hpart : part ∈ guess.parts) : Answer.Quiet (Glossary.entryOf part) := by
  intro line hline
  rw [Glossary.entryOf, String.toList_ofList] at hline
  obtain ⟨others, hlines, hothers⟩ := exists_lines part.2
  rw [hlines, List.tail_cons] at hline
  rcases h.excerpted.part_cases hpart with hsubset | hplaceholder
  · refine entryIn?_eq_none fun c hc => htext c ?_
    exact hsubset (hothers line hline ((trim_within line).subset hc))
  · have hsingle : lines part.2 = [part.2] := by
      refine lines_of_not_mem fun hmem => ?_
      rw [hplaceholder, List.mem_append, List.mem_singleton] at hmem
      rcases hmem with hmem | hletter
      · exact absurd hmem (by decide)
      · have hletter' := h.isLetter_part hpart
        rw [← hletter] at hletter'
        cases hletter'
    rw [hsingle] at hlines
    obtain ⟨-, hnil⟩ := List.cons.inj hlines
    rw [← hnil] at hline
    cases hline

theorem lettered_meanings (h : guess.Faithful text) (htext : ∀ c ∈ text, Token.isLetter c = false) :
    Answer.Lettered Answer.Quiet guess.meanings.entries := by
  rw [h.entries_meanings]
  intro entry hentry
  obtain ⟨part, hpart, rfl⟩ := List.mem_map.mp hentry
  exact ⟨part.1, h.isLetter_part hpart, rfl, quiet_entry h htext hpart⟩

theorem Faithful.isEmpty_firstLine (h : guess.Faithful text) :
    ∀ entry ∈ guess.meanings.entries, (Answer.firstLine entry.2).isEmpty = entry.2.isEmpty := by
  rw [h.entries_meanings, List.forall_mem_map]
  exact fun part hpart => Answer.isEmpty_firstLine (h.trimmed part hpart)

theorem Faithful.formula_answer (h : guess.Faithful text) :
    (Answer.ofText (Answer.compose guess.formula.text guess.meanings)).formula =
      some guess.formula.text :=
  Answer.formulaIn?_compose (Formula.inline_text h.legible) guess.meanings

/-- The answer with a guess gives the guessed formula back. Of the meanings it gives back those that
are not empty, each up to the end of its first line and without blanks at its ends. -/
theorem ofText_compose_meanings (sentence : String) :
    let guess := ofSentence sentence
    let answer := Answer.ofText (Answer.compose guess.formula.text guess.meanings)
    answer.formula = some guess.formula.text ∧
      answer.propositions.entries = (guess.meanings.entries.filter fun entry => !entry.2.isEmpty).map
        fun entry => (entry.1, Answer.firstLine entry.2) := by
  have hguess := faithful_ofSentence sentence
  generalize ofSentence sentence = guess at hguess
  have hquiet := lettered_meanings hguess fun c => isLetter_lower
  have hnonempty : ∀ entry ∈ guess.meanings.entries,
      (!entry.2.isEmpty) = !(Answer.firstLine entry.2).isEmpty :=
    fun entry hentry => congrArg (!·) (hguess.isEmpty_firstLine entry hentry).symm
  refine ⟨hguess.formula_answer, ?_⟩
  rw [List.filter_congr hnonempty]
  exact Answer.propositions_compose (fun part => Formula.not_accepts_heading hguess.legible) hquiet

end Guess

end Sentential
