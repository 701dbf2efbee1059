import Sentential.Formula

/-! The grouping of chains of `∧`, `∨`, and `↔`. Formulas that differ in it alone are true together,
and every formula is such a variant of one whose chains all group to the right. -/

namespace Sentential.Formula

/-- The truth of a formula, given the truth of its atoms. -/
def holds (truth : Char → Bool) : Formula → Bool
  | atom name => truth name
  | not operand => !operand.holds truth
  | binary .and left right => left.holds truth && right.holds truth
  | binary .or left right => left.holds truth || right.holds truth
  | binary .implies left right => !left.holds truth || right.holds truth
  | binary .iff left right => left.holds truth == right.holds truth

/-- The formulas differ at most in how chains of `∧`, `∨`, and `↔` are grouped. -/
inductive Regrouped : Formula → Formula → Prop
  | refl (f : Formula) : Regrouped f f
  | symm {f g : Formula} : Regrouped f g → Regrouped g f
  | trans {f g h : Formula} : Regrouped f g → Regrouped g h → Regrouped f h
  | group {op : Binary} (hop : op ≠ .implies) (f g h : Formula) :
      Regrouped (binary op (binary op f g) h) (binary op f (binary op g h))
  | not {f g : Formula} : Regrouped f g → Regrouped (not f) (not g)
  | binary (op : Binary) {f f' g g' : Formula} :
      Regrouped f f' → Regrouped g g' → Regrouped (binary op f g) (binary op f' g')

theorem Regrouped.holds_eq {f g : Formula} (h : Regrouped f g) (truth : Char → Bool) :
    f.holds truth = g.holds truth := by
  induction h with
  | refl f => rfl
  | symm _ ih => exact ih.symm
  | trans _ _ ih1 ih2 => exact ih1.trans ih2
  | group hop f g h =>
    rename_i op
    cases op with
    | and => exact Bool.and_assoc _ _ _
    | or => exact Bool.or_assoc _ _ _
    | implies => exact absurd rfl hop
    | iff =>
      simp only [holds]
      cases f.holds truth <;> cases g.holds truth <;> cases h.holds truth <;> rfl
  | not _ ih => simp only [holds, ih]
  | binary op _ _ ih1 ih2 => cases op <;> simp only [holds, ih1, ih2]

/-- No operand on the left of `∧`, `∨`, or `↔` has the same connective. -/
def RightGrouped : Formula → Prop
  | atom _ => True
  | not f => f.RightGrouped
  | binary op f g =>
    (op ≠ .implies → f.connective ≠ some (.binary op)) ∧ f.RightGrouped ∧ g.RightGrouped

/-- The chain of the operands of `f`, as a chain of `op`, and a last operand. -/
def chain (op : Binary) : Formula → Formula → Formula
  | atom name, last => binary op (atom name) last
  | not f, last => binary op (not f) last
  | binary other f g, last =>
    if other = op then binary op f (chain op g last) else binary op (binary other f g) last

/-- The formula with its chains grouped to the right. -/
def regroup : Formula → Formula
  | atom name => atom name
  | not f => not f.regroup
  | binary op f g =>
    if op = .implies then binary op f.regroup g.regroup else chain op f.regroup g.regroup

theorem regrouped_chain {op : Binary} (hop : op ≠ .implies) (f last : Formula) :
    Regrouped (binary op f last) (chain op f last) := by
  induction f with
  | atom name => exact .refl _
  | not f => exact .refl _
  | binary other f g _ ih =>
    rw [chain]
    split
    · next he =>
      subst he
      exact (Regrouped.group hop f g last).trans (.binary other (.refl f) ih)
    · exact .refl _

theorem regrouped_regroup (f : Formula) : Regrouped f f.regroup := by
  induction f with
  | atom name => exact .refl _
  | not f ih => exact .not ih
  | binary op f g ihf ihg =>
    rw [regroup]
    split
    · exact .binary op ihf ihg
    · next hop => exact (Regrouped.binary op ihf ihg).trans (regrouped_chain hop _ _)

theorem rightGrouped_chain {op : Binary} {f last : Formula} (hf : f.RightGrouped)
    (hlast : last.RightGrouped) : (chain op f last).RightGrouped := by
  induction f with
  | atom name => exact ⟨fun _ => by simp [connective], trivial, hlast⟩
  | not f => exact ⟨fun _ => by simp [connective], hf, hlast⟩
  | binary other f g _ ih =>
    obtain ⟨hleft, hf', hg⟩ := hf
    rw [chain]
    split
    · next he =>
      subst he
      exact ⟨hleft, hf', ih hg⟩
    · next hne => exact ⟨fun _ => by simpa [connective] using hne, ⟨hleft, hf', hg⟩, hlast⟩

theorem rightGrouped_regroup (f : Formula) : f.regroup.RightGrouped := by
  induction f with
  | atom name => trivial
  | not f ih => exact ih
  | binary op f g ihf ihg =>
    rw [regroup]
    split
    · next hop => exact ⟨fun hne => absurd hop hne, ihf, ihg⟩
    · exact rightGrouped_chain ihf ihg

end Sentential.Formula
