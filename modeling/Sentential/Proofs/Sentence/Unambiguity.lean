import Sentential.Proofs.Formula.Grouping
import Sentential.Proofs.Sentence.Words

/-! Sentences determine their formulas up to the grouping of chains. Among formulas whose chains
group to the right, the words of an operand determine it, whatever words follow, as long as these
do not go on with the operand. -/

namespace Sentential.Formula

/-- The words of an operand of a connective. -/
def operandWords (outer : Connective) (f : Formula) : List Word :=
  Word.enclose outer f.precedence f.words

/-- The words do not go on with an operand of the connective: they do not start with a word that
joins two formulas at least as tightly as the connective does. What follows the word of `→` is a
part of no premise. -/
def Ends (outer : Connective) (rest : List Word) : Prop :=
  ∀ op tail, rest = .join op :: tail →
    op = .implies ∨ (Connective.binary op).precedence < outer.precedence

theorem Ends.not (rest : List Word) : Ends .not rest :=
  fun op _ _ => .inr (by cases op <;> decide)

theorem Ends.closing (outer : Connective) (rest : List Word) : Ends outer (.closing :: rest) :=
  fun _ _ he => nomatch he

theorem Ends.tighter {op : Binary} {rest : List Word} (h : Ends (.binary op) rest) :
    Ends op.tighter rest := by
  intro other tail he
  rcases h other tail he with hop | hlt
  · exact .inl hop
  · rw [op.precedence_tighter]
    exact .inr (Nat.lt_succ_of_lt hlt)

/-- The connective of which the first operand of a chain is an operand, when the chain groups to
the right. -/
def firstLevel : Binary → Connective
  | .implies => .binary .implies
  | op => op.tighter

theorem firstLevel_eq_tighter {op : Binary} (hop : op ≠ .implies) : firstLevel op = op.tighter := by
  cases op with
  | implies => exact absurd rfl hop
  | and | or | iff => rfl

theorem Ends.join (op : Binary) (tail : List Word) : Ends (firstLevel op) (.join op :: tail) := by
  intro other _ he
  cases he
  cases op <;> first | exact .inl rfl | exact .inr (by decide)

/-- Two formulas are told apart by their words as operands of the connective. -/
def Distinct (outer : Connective) (f g : Formula) : Prop :=
  ∀ rest rest', Ends outer rest → Ends outer rest' →
    f.operandWords outer ++ rest = g.operandWords outer ++ rest' → f = g ∧ rest = rest'

theorem Distinct.symm {outer : Connective} {f g : Formula} (h : Distinct outer f g) :
    Distinct outer g f := by
  intro rest rest' hrest hrest' he
  obtain ⟨hfg, hrests⟩ := h rest' rest hrest' hrest he.symm
  exact ⟨hfg.symm, hrests.symm⟩

section Operands

variable {op : Binary} {f g f' g' : Formula}

theorem connective_of_precedence (h : f.precedence = (Connective.binary op).precedence) :
    f.connective = some (.binary op) := by
  have hlt := Connective.precedence_binary_lt op
  cases f with
  | atom name => exact absurd h (Nat.ne_of_gt hlt)
  | not f => exact absurd h (Nat.ne_of_gt hlt)
  | binary other f g => rw [connective, Binary.eq_of_precedence h]

/-- An operand of `op` without `op` at its top is like an operand of the next tighter connective. -/
theorem operandWords_tighter (h : f.connective ≠ some (.binary op)) :
    f.operandWords (.binary op) = f.operandWords op.tighter := by
  have hne : f.precedence ≠ (Connective.binary op).precedence :=
    fun he => h (connective_of_precedence he)
  have hiff : f.precedence < (Connective.binary op).precedence ↔
      f.precedence < op.tighter.precedence := by
    rw [op.precedence_tighter]
    omega
  simp only [operandWords, Word.enclose, hiff]

theorem operandWords_bare {outer : Connective} (h : outer.precedence ≤ f.precedence) :
    f.operandWords outer = f.words := if_neg (Nat.not_lt.mpr h)

theorem operandWords_enclosed {outer : Connective} (h : f.precedence < outer.precedence) :
    f.operandWords outer = .opening :: f.words ++ [.closing] := if_pos h

theorem operandWords_firstLevel (h : op ≠ .implies → f.connective ≠ some (.binary op)) :
    f.operandWords (.binary op) = f.operandWords (firstLevel op) := by
  cases op with
  | implies => rfl
  | and | or | iff => exact operandWords_tighter (h (by decide))

theorem words_binary (hf : op ≠ .implies → f.connective ≠ some (.binary op)) :
    (binary op f g).words =
      Word.lead op ++ f.operandWords (firstLevel op) ++
        .join op :: g.operandWords (.binary op) := by
  rw [← operandWords_firstLevel hf]
  rfl

/-- Two chains of one connective are told apart by their operands. -/
theorem Distinct.binary (hf : op ≠ .implies → f.connective ≠ some (.binary op))
    (hg : op ≠ .implies → g.connective ≠ some (.binary op)) (hfirst : Distinct (firstLevel op) f g)
    (hlast : Distinct (.binary op) f' g') :
    Distinct (.binary op) (.binary op f f') (.binary op g g') := by
  intro rest rest' hrest hrest' he
  rw [operandWords_bare (Nat.le_refl _), operandWords_bare (Nat.le_refl _), words_binary hf,
    words_binary hg] at he
  simp only [List.append_assoc, List.append_cancel_left_eq, List.cons_append] at he
  obtain ⟨rfl, htail⟩ := hfirst _ _ (.join op _) (.join op _) he
  obtain ⟨rfl, hrests⟩ := hlast rest rest' hrest hrest' (List.cons.inj htail).2
  exact ⟨rfl, hrests⟩

/-- Only an operand of a loose connective starts with a premise. -/
theorem operandWords_ne_premise {outer : Connective} (h : 2 < outer.precedence)
    (rest tail : List Word) : f.operandWords outer ++ rest ≠ .premise :: tail := by
  induction f generalizing outer rest with
  | atom name =>
    rw [operandWords_bare outer.precedence_le]
    exact fun he => nomatch he
  | not f =>
    rw [operandWords_bare outer.precedence_le]
    exact fun he => nomatch he
  | binary op f g ih =>
    by_cases hlt : (binary op f g).precedence < outer.precedence
    · rw [operandWords_enclosed hlt]
      exact fun he => nomatch he
    · have hop : 2 < (Connective.binary op).precedence :=
        Nat.lt_of_lt_of_le h (Nat.le_of_not_lt hlt)
      have hne : op ≠ .implies := by
        rintro rfl
        exact absurd hop (by decide)
      rw [operandWords_bare (Nat.le_of_not_lt hlt), words, Word.lead_eq_nil hne, List.nil_append,
        List.append_assoc]
      exact ih hop _

/-- A chain of `op` is told apart from what is not one, if its first operand is. -/
theorem Distinct.operand (hf : op ≠ .implies → f.connective ≠ some (.binary op))
    (hg : g.connective ≠ some (.binary op)) (h : Distinct op.tighter f g) :
    Distinct (.binary op) (.binary op f f') g := by
  intro rest rest' _ hrest' he
  rw [operandWords_bare (Nat.le_refl _), words_binary hf, operandWords_tighter hg] at he
  by_cases hop : op = .implies
  · subst hop
    exact absurd he.symm (operandWords_ne_premise (by decide) _ _)
  · have hlevel := firstLevel_eq_tighter hop
    rw [Word.lead_eq_nil hop, hlevel, List.nil_append, List.append_assoc] at he
    obtain ⟨-, hjoin⟩ := h _ _ (hlevel ▸ Ends.join op _) hrest'.tighter he
    -- Now `g` is the first operand alone, so its words would be followed by `op`.
    rcases hrest' op _ hjoin.symm with h | h
    · exact absurd h hop
    · exact absurd h (Nat.lt_irrefl _)

theorem Distinct.looser (hf : f.connective ≠ some (.binary op))
    (hg : g.connective ≠ some (.binary op)) (h : Distinct op.tighter f g) :
    Distinct (.binary op) f g := by
  intro rest rest' hrest hrest' he
  rw [operandWords_tighter hf, operandWords_tighter hg] at he
  exact h rest rest' hrest.tighter hrest'.tighter he

end Operands

/-- All formulas that are smaller together are told apart. -/
def SmallerDistinct (f g : Formula) : Prop :=
  ∀ outer f' g', f'.RightGrouped → g'.RightGrouped → f'.depth + g'.depth < f.depth + g.depth →
    Distinct outer f' g'

theorem SmallerDistinct.symm {f g : Formula} (h : SmallerDistinct f g) : SmallerDistinct g f :=
  fun outer f' g' hf' hg' hlt => h outer f' g' hf' hg' (Nat.add_comm g.depth f.depth ▸ hlt)

theorem distinct_chain {op : Binary} {f f' g : Formula}
    (ih : SmallerDistinct (.binary op f f') g) (hf : (binary op f f').RightGrouped)
    (hg : g.RightGrouped) : Distinct (.binary op) (.binary op f f') g := by
  obtain ⟨hfirst, hleft, hright⟩ := hf
  by_cases hop : g.connective = some (.binary op)
  · match g, hop with
    | .binary _ g g', rfl =>
      obtain ⟨hfirst', hleft', hright'⟩ := hg
      refine .binary hfirst hfirst' (ih _ _ _ hleft hleft' ?_) (ih _ _ _ hright hright' ?_)
      · simp only [depth]
        omega
      · simp only [depth]
        omega
  · refine .operand hfirst hop (ih _ _ _ hleft hg ?_)
    simp only [depth]
    omega

theorem operandWords_not_binary (op : Binary) (f g : Formula) :
    (binary op f g).operandWords .not = .opening :: (binary op f g).words ++ [.closing] :=
  operandWords_enclosed (Connective.precedence_binary_lt op)

/-- Chains in parentheses are compared where the looser of their connectives is around them. -/
theorem distinct_parentheses {op op' : Binary} {f f' g g' : Formula}
    (hle : (Connective.binary op).precedence ≤ (Connective.binary op').precedence)
    (h : Distinct (.binary op) (.binary op f f') (.binary op' g g')) :
    Distinct .not (.binary op f f') (.binary op' g g') := by
  intro rest rest' _ _ he
  rw [operandWords_not_binary, operandWords_not_binary] at he
  simp only [List.cons_append, List.append_assoc, List.nil_append, List.cons.injEq, true_and] at he
  -- Inside the parentheses no connective is around the chains, so `op` may be.
  have hbare : (binary op f f').operandWords (.binary op) = (binary op f f').words :=
    operandWords_bare (Nat.le_refl _)
  have hbare' : (binary op' g g').operandWords (.binary op) = (binary op' g g').words :=
    operandWords_bare hle
  rw [← hbare, ← hbare'] at he
  obtain ⟨hfg, hrests⟩ := h _ _ (.closing _ rest) (.closing _ rest') he
  exact ⟨hfg, (List.cons.inj hrests).2⟩

theorem distinct_not {f g : Formula} (ih : SmallerDistinct f g) (hf : f.RightGrouped)
    (hg : g.RightGrouped) : Distinct .not f g := by
  match f, g with
  | .atom _, .atom _ =>
    rintro rest rest' - - he
    obtain ⟨hname, hrests⟩ := List.cons.inj he
    cases hname
    exact ⟨rfl, hrests⟩
  | .not f, .not g =>
    rintro rest rest' - - he
    have hsmaller : f.depth + g.depth < (not f).depth + (not g).depth := by
      simp only [depth]
      omega
    obtain ⟨rfl, hrests⟩ := ih .not f g hf hg hsmaller rest rest' (.not rest) (.not rest')
      (List.cons.inj he).2
    exact ⟨rfl, hrests⟩
  | .binary op f f', .binary op' g g' =>
    rcases Nat.le_total (Connective.binary op).precedence (Connective.binary op').precedence
      with hle | hle
    · exact distinct_parentheses hle (distinct_chain ih hf hg)
    · exact (distinct_parentheses hle (distinct_chain ih.symm hg hf)).symm
  | .atom _, .not _ | .not _, .atom _ =>
    rintro rest rest' - - he
    cases he
  | .atom _, .binary op _ _ | .not _, .binary op _ _ | .binary op _ _, .atom _
  | .binary op _ _, .not _ =>
    rintro rest rest' - - he
    rw [operandWords_not_binary] at he
    cases he

theorem distinct_looser {op : Binary} {f g : Formula} (ih : SmallerDistinct f g)
    (hf : f.RightGrouped) (hg : g.RightGrouped) (h : Distinct op.tighter f g) :
    Distinct (.binary op) f g := by
  by_cases hop : f.connective = some (.binary op)
  · match f, hop with
    | .binary _ f f', rfl => exact distinct_chain ih hf hg
  · by_cases hop' : g.connective = some (.binary op)
    · match g, hop' with
      | .binary _ g g', rfl =>
        exact (distinct_chain ih.symm hg hf).symm
    · exact h.looser hop hop'

/-- Formulas whose chains group to the right are told apart by their words. -/
theorem distinct (outer : Connective) (f g : Formula) (hf : f.RightGrouped) (hg : g.RightGrouped) :
    Distinct outer f g := by
  induction hn : f.depth + g.depth using Nat.strongRecOn generalizing outer f g with
  | ind n ih =>
  subst hn
  have hsmaller : SmallerDistinct f g :=
    fun outer f' g' hf' hg' hlt => ih _ hlt outer f' g' hf' hg' rfl
  -- The same two formulas are compared at every level, each of which rests on the next tighter one.
  induction outer using Connective.tighterInduction with
  | not => exact distinct_not hsmaller hf hg
  | binary op htighter => exact distinct_looser hsmaller hf hg htighter

theorem words_injective {f g : Formula} (hf : f.RightGrouped) (hg : g.RightGrouped)
    (h : f.words = g.words) : f = g := by
  have hbare : ∀ f : Formula, f.operandWords (.binary .iff) = f.words :=
    fun f => operandWords_bare f.precedence_pos
  refine (distinct (.binary .iff) f g hf hg [] [] ?_ ?_ ?_).1
  · exact fun _ _ he => nomatch he
  · exact fun _ _ he => nomatch he
  · rw [hbare, hbare, h]

/-- Words do not show how chains are grouped. -/
theorem Regrouped.words_eq {f g : Formula} (h : Regrouped f g) :
    f.words = g.words ∧ f.precedence = g.precedence := by
  induction h with
  | refl f => exact ⟨rfl, rfl⟩
  | symm _ ih => exact ⟨ih.1.symm, ih.2.symm⟩
  | trans _ _ ih1 ih2 => exact ⟨ih1.1.trans ih2.1, ih1.2.trans ih2.2⟩
  | not _ ih => exact ⟨by rw [words, words, ih.1, ih.2], rfl⟩
  | binary op _ _ ih1 ih2 => exact ⟨by rw [words, words, ih1.1, ih1.2, ih2.1, ih2.2], rfl⟩
  | group hop f g h =>
    rename_i op
    have hbare : ∀ f g : Formula, Word.enclose (.binary op) (Formula.binary op f g).precedence
        (Formula.binary op f g).words = (Formula.binary op f g).words :=
      fun _ _ => if_neg (Nat.lt_irrefl _)
    refine ⟨?_, rfl⟩
    rw [words, hbare, words, words, hbare, words, Word.lead_eq_nil hop]
    simp

/-- With every atom said by its placeholder, two formulas have the same sentence exactly if they
differ in the grouping of chains alone, and then they are true together. -/
theorem sentence_eq_iff_regrouped (f g : Formula) :
    (f.sentence .none = g.sentence .none ↔ Regrouped f g) ∧
      (f.sentence .none = g.sentence .none → ∀ truth, f.holds truth = g.holds truth) := by
  have hwords : f.sentence .none = g.sentence .none ↔ f.words = g.words := by
    rw [sentence, sentence, phrase_eq, phrase_eq, String.ofList_inj]
    exact ⟨Word.spelling_injective, fun h => by rw [h]⟩
  have hregrouped : f.sentence .none = g.sentence .none ↔ Regrouped f g := by
    rw [hwords]
    constructor
    · intro h
      have hf := regrouped_regroup f
      have hg := regrouped_regroup g
      have heq : f.regroup = g.regroup := words_injective (rightGrouped_regroup f)
        (rightGrouped_regroup g) (hf.words_eq.1.symm.trans (h.trans hg.words_eq.1))
      exact hf.trans (heq ▸ hg.symm)
    · exact fun h => h.words_eq.1
  exact ⟨hregrouped, fun h truth => (hregrouped.mp h).holds_eq truth⟩

end Sentential.Formula
