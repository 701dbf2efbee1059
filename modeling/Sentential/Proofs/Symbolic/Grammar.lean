import Sentential.Symbolic.Token

/-! The grammar of symbolic formulas as a relation between tokens and the formula that they are,
with the nesting of the derivation. A level is named by its connective, and the level of negation is
that of the operands of `∧`:

    unary         ::= "¬" unary | "(" biconditional ")" | ATOM
    conjunction   ::= conjunction "∧" unary | unary
    disjunction   ::= disjunction "∨" conjunction | conjunction
    implication   ::= disjunction "→" implication | disjunction
    biconditional ::= biconditional "↔" implication | implication -/

namespace Sentential.Symbolic

/-- The tokens are a phrase of the level, and the phrase is the formula. The number is the nesting
of the derivation: the greatest number of negations, parentheses, and right sides of `→` that are
open at one point of it. -/
inductive Derives : Connective → List Token → Formula → Nat → Prop
  | atom (name : Char) : Derives .not [.atom name] (.atom name) 0
  | negation {ts : List Token} {f : Formula} {n : Nat} :
      Derives .not ts f n → Derives .not (.connective .not :: ts) (.not f) (n + 1)
  | parentheses {ts : List Token} {f : Formula} {n : Nat} :
      Derives (.binary .iff) ts f n → Derives .not (.opening :: ts ++ [.closing]) f (n + 1)
  | conjunct {ts : List Token} {f : Formula} {n : Nat} :
      Derives .not ts f n → Derives (.binary .and) ts f n
  | conjunction {ts us : List Token} {f g : Formula} {m n : Nat} :
      Derives (.binary .and) ts f m → Derives .not us g n →
      Derives (.binary .and) (ts ++ .connective (.binary .and) :: us) (.binary .and f g) (max m n)
  | disjunct {ts : List Token} {f : Formula} {n : Nat} :
      Derives (.binary .and) ts f n → Derives (.binary .or) ts f n
  | disjunction {ts us : List Token} {f g : Formula} {m n : Nat} :
      Derives (.binary .or) ts f m → Derives (.binary .and) us g n →
      Derives (.binary .or) (ts ++ .connective (.binary .or) :: us) (.binary .or f g) (max m n)
  | conclusion {ts : List Token} {f : Formula} {n : Nat} :
      Derives (.binary .or) ts f n → Derives (.binary .implies) ts f n
  | implication {ts us : List Token} {f g : Formula} {m n : Nat} :
      Derives (.binary .or) ts f m → Derives (.binary .implies) us g n →
      Derives (.binary .implies) (ts ++ .connective (.binary .implies) :: us)
        (.binary .implies f g) (max m (n + 1))
  | equivalent {ts : List Token} {f : Formula} {n : Nat} :
      Derives (.binary .implies) ts f n → Derives (.binary .iff) ts f n
  | biconditional {ts us : List Token} {f g : Formula} {m n : Nat} :
      Derives (.binary .iff) ts f m → Derives (.binary .implies) us g n →
      Derives (.binary .iff) (ts ++ .connective (.binary .iff) :: us) (.binary .iff f g) (max m n)

namespace Derives

variable {op : Binary} {ts us : List Token} {f g : Formula} {m n : Nat}

/-- A phrase of the next tighter level is a chain of one operand. -/
theorem operand (h : Derives op.tighter ts f n) : Derives (.binary op) ts f n := by
  cases op with
  | and => exact conjunct h
  | or => exact disjunct h
  | implies => exact conclusion h
  | iff => exact equivalent h

/-- A chain that groups to the left grows at its right end. -/
theorem left (hop : op.rightAssociative = false) (hf : Derives (.binary op) ts f m)
    (hg : Derives op.tighter us g n) :
    Derives (.binary op) (ts ++ .connective (.binary op) :: us) (.binary op f g) (max m n) := by
  cases op with
  | and => exact conjunction hf hg
  | or => exact disjunction hf hg
  | implies => exact absurd hop (by decide)
  | iff => exact biconditional hf hg

/-- A chain that groups to the right grows at its left end. -/
theorem right (hop : op.rightAssociative = true) (hf : Derives op.tighter ts f m)
    (hg : Derives (.binary op) us g n) :
    Derives (.binary op) (ts ++ .connective (.binary op) :: us) (.binary op f g)
      (max m (n + 1)) := by
  cases op with
  | implies => exact implication hf hg
  | and | or | iff => exact absurd hop (by decide)

/-- Induction on derivations in which the levels of the connectives that join two formulas are one
case. -/
@[elab_as_elim]
theorem levelInduction
    {motive : (level : Connective) → (ts : List Token) → (f : Formula) → (n : Nat) →
      Derives level ts f n → Prop}
    (atom : ∀ name, motive .not [.atom name] (.atom name) 0 (.atom name))
    (negation : ∀ {ts f n} (h : Derives .not ts f n), motive .not ts f n h →
      motive .not (.connective .not :: ts) (.not f) (n + 1) h.negation)
    (parentheses : ∀ {ts f n} (h : Derives (.binary .iff) ts f n), motive (.binary .iff) ts f n h →
      motive .not (.opening :: ts ++ [.closing]) f (n + 1) h.parentheses)
    (operand : ∀ (op : Binary) {ts f n} (h : Derives op.tighter ts f n),
      motive op.tighter ts f n h → motive (.binary op) ts f n h.operand)
    (left : ∀ (op : Binary) {ts us f g m n} (hop : op.rightAssociative = false)
      (hf : Derives (.binary op) ts f m) (hg : Derives op.tighter us g n),
      motive (.binary op) ts f m hf → motive op.tighter us g n hg →
      motive (.binary op) (ts ++ .connective (.binary op) :: us) (.binary op f g) (max m n)
        (left hop hf hg))
    (right : ∀ (op : Binary) {ts us f g m n} (hop : op.rightAssociative = true)
      (hf : Derives op.tighter ts f m) (hg : Derives (.binary op) us g n),
      motive op.tighter ts f m hf → motive (.binary op) us g n hg →
      motive (.binary op) (ts ++ .connective (.binary op) :: us) (.binary op f g) (max m (n + 1))
        (right hop hf hg))
    {level : Connective} {ts : List Token} {f : Formula} {n : Nat} (h : Derives level ts f n) :
    motive level ts f n h := by
  induction h with
  | atom name => exact atom name
  | negation h ih => exact negation h ih
  | parentheses h ih => exact parentheses h ih
  | conjunct h ih => exact operand .and h ih
  | disjunct h ih => exact operand .or h ih
  | conclusion h ih => exact operand .implies h ih
  | equivalent h ih => exact operand .iff h ih
  | conjunction hf hg ihf ihg => exact left .and rfl hf hg ihf ihg
  | disjunction hf hg ihf ihg => exact left .or rfl hf hg ihf ihg
  | biconditional hf hg ihf ihg => exact left .iff rfl hf hg ihf ihg
  | implication hf hg ihf ihg => exact right .implies rfl hf hg ihf ihg

end Derives

end Sentential.Symbolic
