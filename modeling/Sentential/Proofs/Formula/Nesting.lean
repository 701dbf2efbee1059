import Sentential.Proofs.Formula.Exchange
import Sentential.Proofs.Symbolic.RoundTrip

/-! How deeply the text of a formula nests. A connective costs up to two levels, one for itself and
one for the parentheses around it, but never does each of two connectives in a row cost two. So the
nesting is at most one and a half times the depth below the top, some formula of every depth reaches
that, and a formula of a depth up to 172 is always read back from its text. -/

namespace Sentential

open Symbolic

namespace Formula

variable {f : Formula}

/-- What is left for parentheses around a formula, in half levels. A negation is never in
parentheses, and `↔` is in them in more places than the other connectives. -/
def slack : Formula → Nat
  | atom _ | not _ => 0
  | binary .iff _ _ => 2
  | binary _ _ _ => 1

/-- Each level of the tree allows for three half levels of nesting, and the slack is among them. -/
def Spare (f : Formula) : Prop := 2 * f.nesting + f.slack + 3 ≤ 3 * f.depth

theorem slack_pos (h : f.precedence < Connective.not.precedence) : 0 < f.slack := by
  cases f with
  | atom _ | not _ => exact absurd h (Nat.lt_irrefl 5)
  | binary op f g => cases op <;> exact Nat.le_of_ble_eq_true rfl

theorem slack_of_loosest (h : f.precedence < (Connective.binary .implies).precedence) :
    f.slack = 2 := by
  cases f with
  | atom _ | not _ => exact absurd h (by decide : ¬5 < 2)
  | binary op f g =>
    cases op with
    | iff => rfl
    | and | or | implies => simp [precedence, Connective.precedence] at h

theorem slack_le (f : Formula) : f.slack ≤ 2 := by
  cases f with
  | atom _ | not _ => exact Nat.zero_le 2
  | binary op f g => cases op <;> exact Nat.le_of_ble_eq_true rfl

namespace Spare

/-- The slack of an operand pays for one half of its parentheses. -/
theorem nestingAt (h : Spare f) (level : Connective) : 2 * f.nestingAt level + 2 ≤ 3 * f.depth := by
  unfold Spare at h
  by_cases hlt : f.precedence < level.precedence
  · have := slack_pos (Nat.lt_of_lt_of_le hlt level.precedence_le)
    rw [nestingAt_enclosed hlt]
    omega
  · rw [nestingAt_bare (Nat.le_of_not_lt hlt)]
    omega

/-- Only an operand with `↔` at its top is in parentheses on the right of `→`, and its slack pays for
all of them. -/
theorem nestingAt_implies (h : Spare f) :
    2 * f.nestingAt (.binary .implies) + 3 ≤ 3 * f.depth := by
  unfold Spare at h
  by_cases hlt : f.precedence < (Connective.binary .implies).precedence
  · have := slack_of_loosest hlt
    rw [nestingAt_enclosed hlt]
    omega
  · rw [nestingAt_bare (Nat.le_of_not_lt hlt)]
    omega

end Spare

theorem spare (f : Formula) : Spare f := by
  induction f with
  | atom name => exact Nat.le_refl 3
  | not f ih =>
    have hoperand := ih.nestingAt .not
    simp only [Spare, nesting_not, slack, depth]
    omega
  | binary op f g ihf ihg =>
    have hslack := (binary op f g).slack_le
    have hleft := ihf.nestingAt (op.operandLevel .left)
    have hright : 2 * (g.nestingAt (op.operandLevel .right) + op.rightAssociative.toNat) +
        (binary op f g).slack ≤ 3 * g.depth := by
      cases op with
      | implies => exact ihg.nestingAt_implies
      | and | or | iff => exact Nat.le_trans (Nat.add_le_add_left hslack _) (ihg.nestingAt _)
    simp only [Spare, nesting_binary, depth]
    omega

theorem nesting_le (f : Formula) : f.nesting ≤ 3 * (f.depth - 1) / 2 := by
  have hspare := spare f
  unfold Spare at hspare
  omega

/-- A formula of depth `n + 1` with the greatest nesting: negated implications, each the conclusion
of the one around it. -/
def steepest : Nat → Formula
  | 0 => atom 'P'
  | 1 => not (atom 'P')
  | n + 2 => not (binary .implies (atom 'P') (steepest n))

theorem depth_steepest (n : Nat) : (steepest n).depth = n + 1 := by
  fun_induction steepest n with
  | case1 | case2 => rfl
  | case3 n ih =>
    simp only [depth, ih]
    omega

theorem precedence_steepest (n : Nat) : (steepest n).precedence = 5 := by
  fun_cases steepest n <;> rfl

theorem nesting_steepest (n : Nat) : (steepest n).nesting = 3 * n / 2 := by
  fun_induction steepest n with
  | case1 | case2 => rfl
  | case3 n ih =>
    -- The implication is in parentheses, and its conclusion is not.
    have himplies : (binary .implies (atom 'P') (steepest n)).precedence <
        Connective.not.precedence := Connective.precedence_binary_lt .implies
    have hconclusion : (Connective.binary .implies).precedence ≤ (steepest n).precedence := by
      rw [precedence_steepest]
      exact Connective.precedence_le _
    have hnesting : (binary .implies (atom 'P') (steepest n)).nesting =
        (steepest n).nestingAt (.binary .implies) + 1 := by
      rw [nesting_binary]
      exact Nat.max_eq_right (Nat.zero_le _)
    rw [nesting_not, nestingAt_enclosed himplies, hnesting, nestingAt_bare hconclusion, ih]
    omega

theorem overLetters_steepest (n : Nat) : OverLetters (steepest n) := by
  have hleaves : ∀ name ∈ (steepest n).leaves, name = 'P' := by
    fun_induction steepest n with
    | case1 | case2 => exact List.forall_mem_singleton.mpr rfl
    | case3 n ih => exact List.forall_mem_cons.mpr ⟨rfl, ih⟩
  intro name hname
  rw [hleaves name (mem_atoms.mp hname)]
  rfl

/-- A formula of a depth up to 172 keeps to the limit of the nesting as well. -/
theorem ofText_text_of_depth (hletters : OverLetters f) (hdepth : f.depth ≤ 172) (strict : Bool) :
    Formula.ofText strict f.text = .ok f := by
  have hnesting := nesting_le f
  rw [ofText_text_eq hletters.legible]
  refine readTokens_eq_ok_iff.mpr ⟨f.nesting, .formula f, ?_, ?_⟩
  · rw [levelLimit]
    omega
  · rw [levelLimit]
    omega

/-- The text of a formula nests at most one and a half times as deeply as the tree below its top, and
some formula of every depth does. So every formula of a depth up to 172 is read back from its text, and
with it every formula that was read from JSON, but not every formula of depth 173. -/
theorem nesting_sharp_bound :
    (∀ f : Formula, OverLetters f →
      Derives (.binary .iff) (tokenize f.text) f f.nesting ∧ f.nesting ≤ 3 * (f.depth - 1) / 2) ∧
    (∀ depth, 1 ≤ depth → ∃ f : Formula, OverLetters f ∧ f.depth = depth ∧
      Derives (.binary .iff) (tokenize f.text) f (3 * (depth - 1) / 2)) ∧
    (∀ f : Formula, OverLetters f → f.depth ≤ 172 →
      ∀ strict, Formula.ofText strict f.text = .ok f) ∧
    (∀ json f, ofJson? json = some f → OverLetters f →
      ∀ strict, Formula.ofText strict f.text = .ok f) ∧
    ∃ f : Formula, OverLetters f ∧ f.depth = 173 ∧
      ∀ strict, Formula.ofText strict f.text = .error (.tooDeep 256) := by
  have hderives {f : Formula} (h : OverLetters f) :
      Derives (.binary .iff) (tokenize f.text) f f.nesting := by
    rw [tokenize_text h.legible]
    exact .formula f
  refine ⟨fun f h => ⟨hderives h, nesting_le f⟩, fun depth hpos => ?_,
    fun f h => ofText_text_of_depth h, fun json f hjson h => ?_, ?_⟩
  · obtain ⟨n, rfl⟩ := Nat.exists_eq_add_of_le' hpos
    refine ⟨steepest n, overLetters_steepest n, depth_steepest n, ?_⟩
    rw [Nat.add_sub_cancel, ← nesting_steepest]
    exact hderives (overLetters_steepest n)
  · exact ofText_text_of_depth h (Nat.le_trans (depth_of_ofJson? hjson) (by decide))
  · have hletters := overLetters_steepest 172
    refine ⟨steepest 172, hletters, depth_steepest 172, fun strict => ?_⟩
    rw [ofText_text_eq hletters.legible]
    refine readTokens_tooDeep (.formula _) fun hwithin => ?_
    rw [nesting_steepest] at hwithin
    exact absurd hwithin.1 (by decide)

/-- `¬(P → ¬P)`, in which four levels are open at the last `P`. -/
theorem nesting_sharp_bound_negations :
    let f := not (binary .implies (atom 'P') (not (atom 'P')))
    let json := f.toJson
    OverLetters f ∧ f.depth = 4 ∧ f.text = "¬(P → ¬P)" ∧ ofJson? json = some f ∧
      Derives (.binary .iff) (tokenize "¬(P → ¬P)") f 4 ∧
      (∃ g : Formula, g.depth = 4 ∧ Derives (.binary .iff) (tokenize g.text) g 4) ∧
      f.depth ≤ 172 ∧ Formula.ofText true "¬(P → ¬P)" = .ok f ∧
      Formula.ofText false "¬(P → ¬P)" = .ok f := by
  intro f json
  have hletters : OverLetters f := overLetters_steepest 3
  have htext : f.text = "¬(P → ¬P)" := by decide
  have hread : ofJson? json = some f := by decide +kernel
  obtain ⟨hbound, hsharp, hshallow, hjson, -⟩ := nesting_sharp_bound
  obtain ⟨g, -, hdepth, hderives⟩ := hsharp 4 (by decide)
  rw [← htext]
  exact ⟨hletters, rfl, rfl, hread, (hbound f hletters).1, ⟨g, hdepth, hderives⟩, by decide,
    hshallow f hletters (by decide) true, hjson json f hread hletters false⟩

end Formula

end Sentential
