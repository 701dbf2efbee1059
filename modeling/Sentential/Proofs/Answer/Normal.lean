import Sentential.Proofs.Answer.RoundTrip
import Sentential.Proofs.Text.Pieces

/-! What is read from a text is in normal form, whatever the text is: a formula fits on one line, keys
are letters, and each meaning fits on one line. So it is read again from the answer composed of it,
unless the formula contains the heading of the meanings. -/

namespace Sentential

open Symbolic Text

namespace Answer

variable {text line meaning : List Char} {letter : Char}

theorem inline_formulaIn? {formula : String} (h : formulaIn? text = some formula) :
    Inline formula.toList := by
  obtain ⟨⟨before, rest⟩, -, hformula⟩ := Option.bind_eq_some_iff.mp h
  dsimp only at hformula
  split at hformula
  · cases hformula
  · next hnonempty =>
    cases hformula
    rw [String.toList_ofList]
    refine ⟨by simpa using hnonempty, trimmed_trim _, fun hmem => ?_⟩
    have hline := List.all_eq_true.mp List.all_takeWhile _ ((trim_within _).subset hmem)
    simp at hline

/-- A line is an entry if it is a letter and a colon, with any blanks before and after the colon, and a
meaning that does not start with a blank. -/
theorem entryIn?_eq_some_iff :
    entryIn? line = some (letter, meaning) ↔ Token.isLetter letter = true ∧ meaning ≠ [] ∧
      (∀ c, meaning.head? = some c → isBlank c = false) ∧
      ∃ gap after, (∀ c ∈ gap, isBlank c = true) ∧ (∀ c ∈ after, isBlank c = true) ∧
        line = letter :: (gap ++ ':' :: (after ++ meaning)) := by
  constructor
  · intro h
    cases line with
    | nil => cases h
    | cons c rest =>
      rw [entryIn?] at h
      split at h
      · next hletter =>
        split at h
        · next after hcolon =>
          dsimp only at h
          split at h
          · cases h
          · next hnonempty =>
            cases h
            obtain ⟨gap, hgap, hblank⟩ := dropWhile_split isBlank rest
            obtain ⟨space, hspace, hblank'⟩ := dropWhile_split isBlank after
            refine ⟨hletter, by simpa using hnonempty, fun c => dropWhile_head, gap, space, hblank,
              hblank', ?_⟩
            rw [show trimStart after = after.dropWhile isBlank from rfl, ← hspace, ← hcolon]
            exact congrArg (_ :: ·) hgap
        · cases h
      · cases h
  · rintro ⟨hletter, hnonempty, hhead, gap, after, hgap, hafter, rfl⟩
    have hcolon : trimStart (gap ++ ':' :: (after ++ meaning)) = ':' :: (after ++ meaning) :=
      (List.dropWhile_append_of_pos hgap).trans rfl
    have hmeaning : trimStart (after ++ meaning) = meaning :=
      (List.dropWhile_append_of_pos hafter).trans (dropWhile_eq_self hhead)
    rw [entryIn?, if_pos hletter, hcolon]
    show (if (trimStart (after ++ meaning)).isEmpty then none
      else some (letter, trimStart (after ++ meaning))) = _
    rw [hmeaning, if_neg (by simpa using hnonempty)]

theorem inline_entryIn? (h : entryIn? (trim line) = some (letter, meaning)) (hline : '\n' ∉ line) :
    Token.isLetter letter = true ∧ Inline meaning := by
  obtain ⟨hletter, hnonempty, hhead, gap, after, -, -, hsplit⟩ := entryIn?_eq_some_iff.mp h
  have hsuffix : meaning <:+ trim line :=
    ⟨letter :: (gap ++ ':' :: after), by rw [hsplit]; simp⟩
  refine ⟨hletter, hnonempty, ⟨hhead, fun c => ?_⟩, fun hmem => hline ?_⟩
  · exact getLast?_of_suffix hsuffix (trimmed_trim line).2
  · exact (trim_within line).subset (hsuffix.subset hmem)

theorem plain_propositionsIn (text : List Char) : Plain (propositionsIn text).entries := by
  intro entry hentry
  unfold propositionsIn at hentry
  split at hentry
  · next before rest hcut =>
    obtain ⟨⟨letter, meaning⟩, hfound, rfl⟩ := List.mem_map.mp (Table.mem_of_mem_ofList hentry)
    obtain ⟨line, hline, hread⟩ := List.mem_filterMap.mp hfound
    obtain ⟨line, hmem, rfl⟩ := List.mem_map.mp hline
    obtain ⟨hletter, hmeaning⟩ := inline_entryIn? hread (newline_not_mem_lines _ _ hmem)
    refine ⟨letter, hletter, rfl, ?_⟩
    rwa [Glossary.entryOf, String.toList_ofList]
  · cases hentry

/-- Whatever is read from a text fits on its line, the keys are letters, and it is read again from the
answer composed of it if the formula does not contain the heading of the meanings. -/
theorem ofText_normal (text : String) :
    let answer := ofText text
    Plain answer.propositions.entries ∧
      ∀ formula, answer.formula = some formula → Inline formula.toList ∧
        ((∀ part, part <:+: formula.toList → ¬propositionsHeading.Accepts part) →
          ofText (compose formula answer.propositions) = answer) := by
  intro answer
  have hplain : Plain answer.propositions.entries := plain_propositionsIn text.toList
  refine ⟨hplain, fun formula hformula => ?_⟩
  have hinline : Inline formula.toList := inline_formulaIn? hformula
  refine ⟨hinline, fun hheading => ?_⟩
  rw [ofText, formulaIn?_compose hinline, propositionsIn_compose hheading hplain, ← hformula]

/-- Headings in other spellings, a key in lower case, blanks around the parts, a carriage return, and
a key that occurs again. -/
theorem ofText_normal_loose :
    let text := "FORMULA: \n P ∧ Q \r\nProposicoes: p: nada\nQ :  faz sol\r\nP: neva\nP: a: b\nQ:"
    let answer : Answer := ⟨some "P ∧ Q", ⟨[("P", "a: b"), ("Q", "faz sol")], by decide⟩⟩
    ofText text = answer ∧
      (∀ part, part <:+: "P ∧ Q".toList → ¬propositionsHeading.Accepts part) ∧
      ofText (compose "P ∧ Q" answer.propositions) = answer := by
  intro text answer
  have hread : ofText text = answer := by decide
  have hheading : ∀ part, part <:+: "P ∧ Q".toList → ¬propositionsHeading.Accepts part :=
    not_accepts_of_not_mem (by decide)
  obtain ⟨-, hformula⟩ := ofText_normal text
  have hagain := (hformula "P ∧ Q" (congrArg Answer.formula hread)).2 hheading
  exact ⟨hread, hheading, by rw [← hread]; exact hagain⟩

end Answer

end Sentential
