import Sentential.Proofs.Guess.Excerpts
import Sentential.Proofs.Text.Occurrences

/-! When a sentence with `se` and a later `então` is guessed as a conditional. The condition ends at
the first `então` of the sentence, so an `então` that comes before `se` hides the later one: the
sentence is guessed as a conditional exactly if there is none. -/

namespace Sentential

open Text

namespace Guess

variable {text before afterIf condition consequent : List Char} {guess : Guess}

/-- A word that ends in front of a character that is not in it ends before that character. -/
theorem exists_gap {word after front rest : List Char} {c : Char} (hc : c ∉ word)
    (h : word ++ after = front ++ c :: rest) : ∃ gap, front = word ++ gap := by
  obtain ⟨gap, hfront, -⟩ | ⟨others, hword, hothers⟩ := List.append_eq_append_iff.mp h
  · exact ⟨gap, hfront⟩
  · cases others with
    | nil => exact ⟨[], by simpa using hword.symm⟩
    | cons d others =>
      obtain ⟨rfl, -⟩ := List.cons.inj hothers
      exact absurd (hword ▸ List.mem_append_right front List.mem_cons_self) hc

/-- An `então` that does not start after a `se` ends before it. -/
theorem occurs_of_le {front back : List Char}
    (h : before ++ "se ".toList ++ afterIf = front ++ "então".toList ++ back)
    (hle : front.length ≤ before.length) : "então".toList <:+: before := by
  rw [List.append_assoc, List.append_assoc] at h
  obtain ⟨rest, rfl⟩ : front <+: before :=
    List.prefix_of_prefix_length_le ⟨_, h.symm⟩ (List.prefix_append before _) hle
  rw [List.append_assoc] at h
  obtain ⟨gap, rfl⟩ := exists_gap (by decide) (List.append_cancel_left h).symm
  exact ⟨front, gap, List.append_assoc _ _ _⟩

/-- If none is before `se`, the first `então` after it is the first of all. -/
theorem firstSplit_of_absent
    (hthen : FirstSplit "então".toList afterIf condition consequent)
    (hbefore : ¬"então".toList <:+: before) :
    FirstSplit "então".toList (before ++ "se ".toList ++ afterIf)
      (before ++ "se ".toList ++ condition) consequent := by
  obtain ⟨rfl, hfirst⟩ := hthen
  refine ⟨by simp, fun front back h => ?_⟩
  rcases Nat.lt_or_ge before.length front.length with hlater | hle
  · obtain ⟨other, rfl, hother⟩ := exists_condition h hlater
    have := hfirst other back hother
    simp only [List.length_append]
    omega
  · exact absurd (occurs_of_le h hle) hbefore

theorem conditional?_eq_some (hif : FirstSplit "se ".toList text before afterIf)
    (hthen : FirstSplit "então".toList text (before ++ "se ".toList ++ condition) consequent) :
    conditional? text =
      some (joining .implies (stripWhile isCommaOrBlank condition) (trim consequent)) := by
  have hlength : before.length + ifWord.length = (before ++ "se ".toList).length := by
    rw [List.length_append]
    rfl
  have hlater : before.length < (before ++ "se ".toList ++ condition).length := by
    rw [List.length_append, ← hlength]
    exact Nat.lt_add_right _ (Nat.lt_add_of_pos_right (by decide))
  rw [conditional?, ifWord, thenWord, Pattern.cut?_word_eq_some_iff.mpr hif,
    Pattern.cut?_word_eq_some_iff.mpr hthen]
  dsimp only
  rw [if_pos hlater, ← ifWord, hlength, List.drop_left]

/-- An `então` before the first `se` keeps the sentence from being a conditional. -/
theorem conditional?_eq_none (hif : FirstSplit "se ".toList text before afterIf)
    (hbefore : "então".toList <:+: before) : conditional? text = none := by
  refine Option.eq_none_iff_forall_ne_some.mpr fun guess hguess => ?_
  obtain ⟨before', condition, after, rfl, hcutIf, hcutThen, -⟩ := conditional_cases hguess
  rw [ifWord, Pattern.cut?_word_eq_some_iff.mpr hif] at hcutIf
  cases hcutIf
  obtain ⟨-, hfirst⟩ := Pattern.cut?_word_eq_some_iff.mp hcutThen
  obtain ⟨front, back, rfl⟩ := hbefore
  have hle := hfirst front (back ++ "se ".toList ++ (condition ++ "então".toList ++ after)) (by simp)
  have hword : "então".toList.length = 5 := rfl
  simp only [List.length_append, hword] at hle
  omega

theorem biconditional?_eq_none (h : ¬"se e somente se".toList <:+: text) :
    biconditional? text = none := by
  rw [biconditional?, iffWords, Pattern.cut?_word_eq_none_iff.mpr h]
  rfl

/-- The formula does not have `→` at its top. -/
def NotConditional (guess : Guess) : Prop := ∀ f g, guess.formula ≠ .binary .implies f g

theorem notConditional_chain {op : Binary} (hop : op ≠ .implies) {parts : List (Char × List Char)}
    (h : chain op parts = some guess) : guess.NotConditional := by
  obtain ⟨part, others, -, rfl⟩ := chain_cases h
  intro f g
  have hatom : Formula.atom part.1 ≠ .binary .implies f g := nofun
  exact joined_ne hop hatom others

theorem notConditional_junction (h : junction? text = some guess) : guess.NotConditional := by
  obtain ⟨-, hchain⟩ | ⟨-, -, hchain⟩ := junction_cases h
  · exact notConditional_chain (by decide) hchain
  · exact notConditional_chain (by decide) hchain

theorem notConditional_ofSentence {sentence : String}
    (h : conditional? (normal sentence) = none) : (ofSentence sentence).NotConditional := by
  refine ofSentence_cases sentence (fun guess hiff => ?_) (fun guess hif => ?_)
    (fun _ => notConditional_junction) (fun guess hnot => ?_) nofun
  · obtain ⟨first, second, -, -, -, rfl⟩ := biconditional_cases hiff
    exact nofun
  · rw [h] at hif
    cases hif
  · obtain ⟨rest, -, rfl⟩ := Option.map_eq_some_iff.mp hnot
    exact nofun

/-- A sentence without `se e somente se` in which `então` occurs after the first `se` is guessed as a
conditional if and only if no `então` comes before that `se`. The condition then goes up to the first
`então` after it, and all that follows is the consequence. -/
theorem ofSentence_conditional_iff {sentence : String} {before afterIf front back : List Char}
    (hiff : ¬"se e somente se".toList <:+: normal sentence)
    (hif : FirstSplit "se ".toList (normal sentence) before afterIf)
    (hthen : normal sentence = front ++ "então".toList ++ back)
    (hlater : before.length < front.length) :
    ((ofSentence sentence).formula = .binary .implies (.atom 'P') (.atom 'Q') ↔
      ¬"então".toList <:+: before) ∧
    ∃ condition consequent, FirstSplit "então".toList afterIf condition consequent ∧
      (¬"então".toList <:+: before → ofSentence sentence =
        joining .implies (stripWhile isCommaOrBlank condition) (trim consequent)) := by
  obtain ⟨other, -, hother⟩ := exists_condition (hif.1.symm.trans hthen) hlater
  have hoccurs : "então".toList <:+: afterIf := ⟨other, back, hother.symm⟩
  obtain ⟨condition, consequent, hfirst⟩ := exists_firstSplit hoccurs
  have hguess (hbefore : ¬"então".toList <:+: before) : ofSentence sentence =
      joining .implies (stripWhile isCommaOrBlank condition) (trim consequent) := by
    have hwhole := firstSplit_of_absent hfirst hbefore
    rw [← hif.1] at hwhole
    rw [ofSentence, biconditional?_eq_none hiff,
      conditional?_eq_some hif hwhole]
    rfl
  refine ⟨⟨fun hformula hbefore => ?_, fun hbefore => ?_⟩, condition, consequent, hfirst, hguess⟩
  · exact notConditional_ofSentence (conditional?_eq_none hif hbefore) _ _ hformula
  · rw [hguess hbefore]
    rfl

theorem ofSentence_conditional_iff_rain :
    let sentence := "Se chove, então molha"
    ¬"se e somente se".toList <:+: normal sentence ∧
      FirstSplit "se ".toList (normal sentence) [] "chove, então molha".toList ∧
      normal sentence = "se chove, ".toList ++ "então".toList ++ " molha".toList ∧
      ([] : List Char).length < "se chove, ".toList.length ∧
      ofSentence sentence = joining .implies "chove".toList "molha".toList := by
  intro sentence
  have hnormal : normal sentence = "se chove, então molha".toList := by decide
  have hiff : ¬"se e somente se".toList <:+: normal sentence := by
    rw [hnormal]
    exact Pattern.cut?_word_eq_none_iff.mp (by decide)
  have hif : FirstSplit "se ".toList (normal sentence) [] "chove, então molha".toList := by
    rw [hnormal]
    exact Pattern.cut?_word_eq_some_iff.mp (by decide)
  have hthen : normal sentence = "se chove, ".toList ++ "então".toList ++ " molha".toList := hnormal
  have hlater : ([] : List Char).length < "se chove, ".toList.length := by decide
  obtain ⟨-, condition, consequent, hfirst, hguess⟩ :=
    ofSentence_conditional_iff hiff hif hthen hlater
  have hcut := Pattern.cut?_word_eq_some_iff.mpr hfirst
  obtain ⟨rfl, rfl⟩ : "chove, ".toList = condition ∧ " molha".toList = consequent :=
    Prod.mk.inj (Option.some.inj hcut)
  refine ⟨hiff, hif, hthen, hlater, (hguess fun h => ?_).trans rfl⟩
  exact absurd h.length_le (by decide)

/-- In `Então, se chove, então molha` the first word hides the condition, and the sentence is guessed
as one atom. -/
theorem ofSentence_conditional_hidden :
    let sentence := "Então, se chove, então molha"
    ¬"se e somente se".toList <:+: normal sentence ∧
      FirstSplit "se ".toList (normal sentence) "então, ".toList "chove, então molha".toList ∧
      FirstSplit "então".toList "chove, então molha".toList "chove, ".toList " molha".toList ∧
      ofSentence sentence = ⟨.atom 'P', [('P', "então, se chove, então molha".toList)]⟩ ∧
      ofSentence sentence ≠ joining .implies (stripWhile isCommaOrBlank "chove, ".toList)
        (trim " molha".toList) := by
  intro sentence
  have hnormal : normal sentence = "então, se chove, então molha".toList := by decide
  have hguess : ofSentence sentence =
      ⟨.atom 'P', [('P', "então, se chove, então molha".toList)]⟩ := by
    rw [ofSentence, hnormal]
    rfl
  rw [hguess, hnormal]
  exact ⟨Pattern.cut?_word_eq_none_iff.mp (by decide), Pattern.cut?_word_eq_some_iff.mp (by decide),
    Pattern.cut?_word_eq_some_iff.mp (by decide), rfl,
    fun h => absurd (congrArg Guess.formula h) (by decide)⟩

end Guess

end Sentential
