import Sentential.Proofs.Guess.Faithful

/-! The formula of a guess in symbols. Its text is read strictly as the formula, which is written as
that text again, and its atoms are those that the guess gives meanings to. It is one of ten texts. -/

namespace Sentential

open Symbolic Text

/-- Names that are in order and occur once are the atoms. -/
theorem Formula.atoms_eq_leaves {f : Formula} (h : f.leaves.Pairwise (· < ·)) :
    f.atoms = f.leaves := by
  unfold atoms
  generalize f.leaves = names at h ⊢
  induction names with
  | nil => rfl
  | cons name names ih =>
    obtain ⟨hname, hnames⟩ := List.pairwise_cons.mp h
    rw [List.foldr_cons, ih hnames]
    cases names with
    | nil => rfl
    | cons next names => rw [insertName, if_pos (hname next List.mem_cons_self)]

namespace Guess

variable {text : List Char} {guess : Guess}

namespace Faithful

theorem letters_parts (h : guess.Faithful text) : guess.parts.map (·.1) <+: letters :=
  h.atoms ▸ h.ordered

theorem atoms_eq (h : guess.Faithful text) : guess.formula.atoms = guess.parts.map (·.1) := by
  have hletters : letters.Pairwise (· < ·) := by decide
  rw [h.atoms, Formula.atoms_eq_leaves (hletters.sublist h.ordered.sublist)]

/-- The letters are in the order of keys, so no meaning gives way to another. -/
theorem entries_meanings (h : guess.Faithful text) :
    guess.meanings.entries = guess.parts.map Glossary.entryOf := by
  have hletters : letters.Pairwise fun a b => String.singleton a < String.singleton b := by decide
  have hparts := List.pairwise_map.mp (hletters.sublist h.letters_parts.sublist)
  exact Table.ofList_of_sorted (List.pairwise_map.mpr hparts)

theorem isLetter_leaves (h : guess.Faithful text) :
    ∀ name ∈ guess.formula.leaves, Token.isLetter name = true := by
  have hletters : ∀ name ∈ letters, Token.isLetter name = true :=
    List.all_eq_true.mp (by decide)
  exact fun name hname => hletters name (h.ordered.subset hname)

theorem legible (h : guess.Faithful text) : ∀ t ∈ guess.formula.tokens, t.Legible :=
  Formula.legible_tokens h.isLetter_leaves

theorem read_text (h : guess.Faithful text) (strict : Bool) :
    Formula.ofText strict guess.formula.text = .ok guess.formula := by
  have hdepth := h.depth
  have hnesting := h.nesting
  have hlimit : levelLimit = 256 := rfl
  rw [Formula.ofText_text_eq h.legible]
  exact readTokens_eq_ok_iff.mpr ⟨_, .formula _, by omega, by omega⟩

end Faithful

/-- The text of a guessed formula is read, also strictly, as a formula with this text. The atoms of
that formula are the keys of the meanings, and they are the first letters from `P` on. If the formula
joins the parts between `e` or `ou`, there are two to four of them. -/
theorem ofSentence_canonical (sentence : String) :
    let guess := ofSentence sentence
    (∃ f, (∀ strict, Formula.ofText strict guess.formula.text = .ok f) ∧
      f.text = guess.formula.text ∧
      guess.meanings.entries.map (·.1) = f.atoms.map String.singleton ∧
      f.atoms <+: ['P', 'Q', 'R', 'S']) ∧
    ∀ joined, junction? (normal sentence) = some joined →
      2 ≤ joined.formula.atoms.length ∧ joined.formula.atoms.length ≤ 4 := by
  intro guess
  have hguess : guess.Faithful (normal sentence) := faithful_ofSentence sentence
  refine ⟨⟨guess.formula, hguess.read_text, rfl, ?_, ?_⟩, fun joined hjoined => ?_⟩
  · rw [hguess.entries_meanings, hguess.atoms_eq, List.map_map, List.map_map]
    rfl
  · rw [hguess.atoms_eq]
    exact hguess.letters_parts
  · obtain ⟨hfaithful, hlow, hhigh⟩ := faithful_junction (trimmed_normal sentence) hjoined
    rw [hfaithful.atoms_eq, List.length_map]
    exact ⟨hlow, hhigh⟩

/-- The texts that a guessed formula can have. -/
def texts : List String :=
  ["P ↔ Q", "P → Q", "P ∧ Q", "P ∧ Q ∧ R", "P ∧ Q ∧ R ∧ S", "P ∨ Q", "P ∨ Q ∨ R", "P ∨ Q ∨ R ∨ S",
    "¬P", "P"]

/-- The number of parts and the word between them decide the text of a chain. -/
theorem text_mem_of_junction (htext : Trimmed text) (h : junction? text = some guess) :
    guess.formula.text ∈ texts := by
  obtain ⟨hfaithful, hlow, hhigh⟩ := faithful_junction htext h
  have hletters : guess.parts.map (·.1) = letters.take guess.parts.length := by
    have htake := List.prefix_iff_eq_take.mp hfaithful.letters_parts
    rwa [List.length_map] at htake
  have hnames : guess.parts.map (fun part => String.singleton part.1) =
      (letters.take guess.parts.length).map String.singleton := by
    rw [← hletters, List.map_map]
    rfl
  have hcount : guess.parts.length = 2 ∨ guess.parts.length = 3 ∨ guess.parts.length = 4 := by
    omega
  rw [text_junction h, hnames]
  generalize andWord.occursIn text = conjunction
  rcases hcount with hcount | hcount | hcount <;> rw [hcount] <;> cases conjunction <;> decide

theorem text_ofSentence (sentence : String) : (ofSentence sentence).formula.text ∈ texts := by
  refine ofSentence_cases (motive := fun guess => guess.formula.text ∈ texts) sentence
    (fun guess hiff => ?_) (fun guess hif => ?_)
    (fun guess => text_mem_of_junction (trimmed_normal sentence)) (fun guess hnot => ?_)
    (by decide : (Formula.atom 'P').text ∈ texts)
  · rw [text_biconditional hiff]
    decide
  · rw [text_conditional hif]
    decide
  · rw [text_negation hnot]
    decide

end Guess

end Sentential
