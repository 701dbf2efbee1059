import Sentential.Proofs.Sentence.Dependence

/-! The atoms that a sentence says by placeholders. They are those at the leaves of the formula that
have no meaning, and a change to the placeholder of an atom shows in the sentence exactly if the atom
is one of them. -/

namespace Sentential

variable {f : Formula} {meanings : Meanings} {atom : Char}

namespace Meanings

theorem isNone_find? (meanings : Meanings) (atom : Char) :
    (meanings.find? atom).isNone = (meanings atom).all (·.isEmpty) := by
  unfold find?
  cases meanings atom with
  | none => rfl
  | some meaning => cases h : meaning.isEmpty <;> simp [h]

/-- An atom is said by its meaning unless that is missing or empty. -/
theorem find?_ne_none_iff : meanings.find? atom ≠ .none ↔
    ∃ meaning, meaning ≠ "" ∧ meanings atom = some meaning ∧ meanings.text atom = meaning := by
  rw [Option.ne_none_iff_exists']
  constructor
  · rintro ⟨meaning, hfind⟩
    obtain ⟨hmeaning, hnonempty⟩ := Option.filter_eq_some_iff.mp hfind
    exact ⟨meaning, by simpa using hnonempty, hmeaning, by rw [text, hfind]; rfl⟩
  · rintro ⟨meaning, hnonempty, hmeaning, -⟩
    exact ⟨meaning, Option.filter_eq_some_iff.mpr ⟨hmeaning, by simpa using hnonempty⟩⟩

end Meanings

namespace Formula

/-- The sentence for a formula with other texts in place of the placeholders. -/
def sentenceWith (blank : Char → String) (formula : Formula) (meanings : Meanings) : String :=
  String.ofList (formula.phrase fun atom => ((meanings.find? atom).getD (blank atom)).toList)

/-- The sentence shows the placeholder of the atom: it is another one if that placeholder is
another text. -/
def ShowsPlaceholder (formula : Formula) (meanings : Meanings) (atom : Char) : Prop :=
  ∃ blank : Char → String, (∀ other ≠ atom, blank other = placeholder other) ∧
    formula.sentenceWith blank meanings ≠ formula.sentence meanings

/-- A sentence shows the placeholders of the atoms at its leaves that have no meaning. -/
theorem showsPlaceholder_iff :
    f.ShowsPlaceholder meanings atom ↔ atom ∈ f.leaves ∧ meanings.find? atom = none := by
  constructor
  · rintro ⟨blank, hblank, hne⟩
    refine Decidable.byContradiction fun hatom => hne (congrArg String.ofList ?_)
    refine phrase_congr fun other hother => ?_
    by_cases heq : other = atom
    · subst heq
      obtain ⟨meaning, hmeaning⟩ : ∃ meaning, meanings.find? other = some meaning :=
        Option.ne_none_iff_exists'.mp fun hnone => hatom ⟨hother, hnone⟩
      simp [Meanings.text, hmeaning]
    · rw [hblank other heq, Meanings.text]
  · rintro ⟨hatom, hnone⟩
    let blank : Char → String := fun other => if other = atom then "" else placeholder other
    refine ⟨blank, fun other hother => if_neg hother, fun heq => ?_⟩
    have hother : ∀ other, other ≠ atom →
        ((meanings.find? other).getD (blank other)).toList = (meanings.text other).toList := by
      intro other hne
      rw [Meanings.text, show blank other = placeholder other from if_neg hne]
    have hsaid := eq_of_phrase_eq hatom hother (String.ofList_inj.mp heq)
    simp [Meanings.text, hnone, blank, placeholder] at hsaid

end Formula

end Sentential
