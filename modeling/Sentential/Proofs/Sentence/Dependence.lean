import Mathlib.Algebra.Order.BigOperators.Group.List
import Mathlib.Algebra.Order.Group.Nat
import Sentential.Proofs.Sentence.Words

/-! What the sentence for a formula depends on. It depends on what is said for the atoms of the
formula and on nothing else: a change to what is said for one of them always changes the sentence,
however often the atom occurs, since all its occurrences get longer, or all get shorter, or all
change in place. -/

namespace Sentential

variable {f : Formula} {atom : Char} {say say' : Char → List Char}

namespace Word

/-- Texts that are put together from pieces of the same lengths have the same pieces. -/
theorem eq_of_flatMap_eq {spell spell' : Word → List Char} {words : List Word}
    (hlength : ∀ word ∈ words, (spell word).length = (spell' word).length)
    (h : words.flatMap spell = words.flatMap spell') : ∀ word ∈ words, spell word = spell' word := by
  induction words with
  | nil => simp
  | cons first rest ih =>
    obtain ⟨hfirst, hrest⟩ := List.forall_mem_cons.mp hlength
    rw [List.flatMap_cons, List.flatMap_cons] at h
    obtain ⟨heq, hothers⟩ := List.append_inj h hfirst
    exact List.forall_mem_cons.mpr ⟨heq, ih hrest hothers⟩

/-- Only the words for atoms depend on what is said for atoms. -/
theorem spelling_rel {R : List Char → List Char → Prop} (hrefl : ∀ text, R text text)
    (h : ∀ name, R (say name) (say' name)) (word : Word) :
    R (word.spelling say) (word.spelling say') := by
  cases word with
  | atom name => exact h name
  | join op => cases op <;> exact hrefl _
  | not | premise | opening | closing => exact hrefl _

theorem mem_enclose {word : Word} {outer : Connective} {precedence : Nat} {words : List Word}
    (h : word ∈ words) : word ∈ enclose outer precedence words := by
  rw [enclose]
  split
  · simp [h]
  · exact h

end Word

namespace Formula

/-- Each leaf has its word in the sentence. -/
theorem atom_mem_words (h : atom ∈ f.leaves) : Word.atom atom ∈ f.words := by
  induction f with
  | atom name => simpa [leaves, words] using h
  | not f ih => exact List.mem_cons_of_mem _ (Word.mem_enclose (ih h))
  | binary op f g ihf ihg =>
    rw [words, List.mem_append, List.mem_append, List.mem_cons]
    rcases List.mem_append.mp h with h | h
    · exact .inl (.inr (Word.mem_enclose (ihf h)))
    · exact .inr (.inr (Word.mem_enclose (ihg h)))

/-- A phrase depends on what is said for the leaves alone. -/
theorem phrase_congr (h : ∀ atom ∈ f.leaves, say atom = say' atom) :
    f.phrase say = f.phrase say' := by
  induction f with
  | atom name => exact h name List.mem_cons_self
  | not f ih => rw [phrase_not, phrase_not, ih h]
  | binary op f g ihf ihg =>
    have hf := ihf fun atom hatom => h atom (List.mem_append_left _ hatom)
    have hg := ihg fun atom hatom => h atom (List.mem_append_right _ hatom)
    simp only [phrase, hf, hg]

/-- A phrase gets shorter if less is said for one of the leaves, and for no atom more. -/
theorem length_phrase_lt (hle : ∀ other, (say other).length ≤ (say' other).length)
    (hatom : atom ∈ f.leaves) (hlt : (say atom).length < (say' atom).length) :
    (f.phrase say).length < (f.phrase say').length := by
  have hwords : ∀ word ∈ f.words,
      (word.spelling say).length ≤ (word.spelling say').length :=
    fun word _ => word.spelling_rel (R := fun a b => a.length ≤ b.length)
      (fun _ => Nat.le_refl _) hle
  rw [phrase_eq, phrase_eq, List.length_flatMap, List.length_flatMap]
  exact List.sum_lt_sum _ _ hwords ⟨.atom atom, atom_mem_words hatom, hlt⟩

section OneLeaf

variable (hatom : atom ∈ f.leaves) (hother : ∀ other, other ≠ atom → say other = say' other)
  (h : f.phrase say = f.phrase say')

include hatom hother h

theorem length_le_of_phrase_eq : (say' atom).length ≤ (say atom).length := by
  refine Nat.not_lt.mp fun hlt => ?_
  have hle : ∀ other, (say other).length ≤ (say' other).length := by
    intro other
    by_cases heq : other = atom
    · exact heq ▸ Nat.le_of_lt hlt
    · rw [hother other heq]
  exact Nat.ne_of_lt (length_phrase_lt hle hatom hlt) (congrArg List.length h)

/-- If all other atoms are said alike, a phrase shows what is said for one of its leaves. -/
theorem eq_of_phrase_eq : say atom = say' atom := by
  have hlength : (say atom).length = (say' atom).length := by
    apply Nat.le_antisymm
    · exact length_le_of_phrase_eq hatom (fun other hne => (hother other hne).symm) h.symm
    · exact length_le_of_phrase_eq hatom hother h
  have hlengths : ∀ other, (say other).length = (say' other).length := by
    intro other
    by_cases heq : other = atom
    · exact heq ▸ hlength
    · rw [hother other heq]
  -- All words take up the same places in the two phrases, so they are the same one by one.
  have hwords : ∀ word ∈ f.words, (word.spelling say).length = (word.spelling say').length :=
    fun word _ => word.spelling_rel (R := fun a b => a.length = b.length) (fun _ => rfl) hlengths
  rw [phrase_eq, phrase_eq] at h
  exact Word.eq_of_flatMap_eq hwords h (.atom atom) (atom_mem_words hatom)

end OneLeaf

/-- A sentence depends on what is said for the atoms of its formula: it stays the same if that stays
the same, and a change to what is said for a single atom shows in it exactly if the atom is one of
them. -/
theorem sentence_depends_on_atoms (f : Formula) (meanings others : Meanings) :
    ((∀ atom ∈ f.atoms, meanings.text atom = others.text atom) →
      f.sentence meanings = f.sentence others) ∧
    ∀ atom, meanings.text atom ≠ others.text atom →
      (∀ other, other ≠ atom → meanings.text other = others.text other) →
      (f.sentence meanings ≠ f.sentence others ↔ atom ∈ f.atoms) := by
  have hsame : (∀ atom ∈ f.atoms, meanings.text atom = others.text atom) →
      f.sentence meanings = f.sentence others := by
    intro h
    refine congrArg String.ofList (phrase_congr fun atom hatom => ?_)
    rw [h atom (mem_atoms.mpr hatom)]
  refine ⟨hsame, fun atom hne hother => ⟨fun hdiffers => ?_, fun hatom heq => hne ?_⟩⟩
  · refine Decidable.byContradiction fun hatom => hdiffers (hsame fun other hmem => ?_)
    exact hother other fun he => hatom (he ▸ hmem)
  · have hother' : ∀ other, other ≠ atom →
        (meanings.text other).toList = (others.text other).toList :=
      fun other hne => congrArg String.toList (hother other hne)
    have hphrase := eq_of_phrase_eq (mem_atoms.mp hatom) hother' (String.ofList_inj.mp heq)
    exact String.toList_inj.mp hphrase

/-- An empty meaning is none. A new meaning of an atom that occurs twice shows in the sentence. -/
theorem sentence_depends_on_atoms_contradiction :
    let f : Formula := .binary .and (.atom 'A') (.not (.atom 'A'))
    let empty : Meanings := fun atom => if atom = 'A' then some "" else none
    let rain : Meanings := fun atom => if atom = 'A' then some "chove" else none
    (∀ atom ∈ f.atoms, empty.text atom = Meanings.none.text atom) ∧
      f.sentence empty = f.sentence .none ∧
      rain.text 'A' ≠ Meanings.none.text 'A' ∧
      (∀ other, other ≠ 'A' → rain.text other = Meanings.none.text other) ∧
      f.sentence rain ≠ f.sentence .none := by
  intro f empty rain
  have hatoms : f.atoms = ['A'] := by decide
  have hempty : ∀ atom ∈ f.atoms, empty.text atom = Meanings.none.text atom := by
    rw [hatoms]
    exact List.forall_mem_singleton.mpr rfl
  have hrain : rain.text 'A' ≠ Meanings.none.text 'A' := by decide
  have hother : ∀ other, other ≠ 'A' → rain.text other = Meanings.none.text other := by
    intro other hne
    simp [rain, Meanings.text, Meanings.find?, Meanings.none, hne]
  have hsame := (sentence_depends_on_atoms f empty .none).1 hempty
  have hdiffers := (sentence_depends_on_atoms f rain .none).2 'A' hrain hother
  have hmem : 'A' ∈ f.atoms := hatoms ▸ List.mem_singleton_self 'A'
  exact ⟨hempty, hsame, hrain, hother, hdiffers.mpr hmem⟩

end Formula

end Sentential
