/-! Formulas of sentential logic over named atoms: the connectives with their symbols, words, and
binding strength, the trees they build, and the depth and atoms of a tree. -/

namespace Sentential

/-- The connectives that join two formulas, from strongest to weakest binding. -/
inductive Binary where
  | and
  | or
  | implies
  | iff
deriving DecidableEq, Repr, Inhabited

/-- The connectives, from strongest to weakest binding. -/
inductive Connective where
  | not
  | binary (op : Binary)
deriving DecidableEq, Repr, Inhabited

/-- A formula is an atom, the negation of a formula, or two formulas joined by a connective. -/
inductive Formula where
  | atom (name : Char)
  | not (operand : Formula)
  | binary (op : Binary) (left right : Formula)
deriving DecidableEq, Repr, Inhabited

namespace Binary

/-- A chain of a right associative connective groups to the right, so that `P → Q → R` is
`P → (Q → R)`; a chain of any other groups to the left. -/
def rightAssociative : Binary → Bool
  | implies => true
  | and | or | iff => false

end Binary

namespace Connective

/-- Negation binds tightest. -/
def precedence : Connective → Nat
  | not => 5
  | binary .and => 4
  | binary .or => 3
  | binary .implies => 2
  | binary .iff => 1

/-- The sign of a connective in symbolic formulas. -/
def symbol : Connective → Char
  | not => '¬'
  | binary .and => '∧'
  | binary .or => '∨'
  | binary .implies => '→'
  | binary .iff => '↔'

/-- The Portuguese word for a connective, which stands between its operands or before its one
operand. -/
def word : Connective → String
  | not => "não"
  | binary .and => "e"
  | binary .or => "ou"
  | binary .implies => "então"
  | binary .iff => "se e somente se"

/-- The name of a connective in exchanged data. -/
def name : Connective → String
  | not => "not"
  | binary .and => "and"
  | binary .or => "or"
  | binary .implies => "implies"
  | binary .iff => "iff"

def all : List Connective := [not, binary .and, binary .or, binary .implies, binary .iff]

def ofName? (name : String) : Option Connective := all.find? (·.name == name)

def isBinary : Connective → Bool
  | not => false
  | binary _ => true

def rightAssociative : Connective → Bool
  | not => false
  | binary op => op.rightAssociative

theorem precedence_le (c : Connective) : c.precedence ≤ 5 := by
  rcases c with _ | op
  · decide
  · cases op <;> decide

theorem precedence_binary_lt (op : Binary) : (binary op).precedence < 5 := by
  cases op <;> decide

end Connective

/-- The loosest connective in the operands of a chain: operands of `∧` are built with `¬` alone,
operands of `∨` with `∧` too, and so on. -/
def Binary.tighter : Binary → Connective
  | and => .not
  | or => .binary .and
  | implies => .binary .or
  | iff => .binary .implies

theorem Binary.precedence_tighter (op : Binary) :
    op.tighter.precedence = (Connective.binary op).precedence + 1 := by
  cases op <;> rfl

/-- What holds of `¬`, and of a connective if it holds of the next tighter one, holds of all. -/
@[elab_as_elim]
theorem Connective.tighterInduction {motive : Connective → Prop} (not : motive .not)
    (binary : ∀ op : Binary, motive op.tighter → motive (.binary op)) (c : Connective) :
    motive c := by
  have hand := binary .and not
  have hor := binary .or hand
  have himplies := binary .implies hor
  cases c with
  | not => exact not
  | binary op =>
    cases op with
    | and => exact hand
    | or => exact hor
    | implies => exact himplies
    | iff => exact binary .iff himplies

theorem Binary.eq_of_precedence {op other : Binary}
    (h : (Connective.binary op).precedence = (Connective.binary other).precedence) :
    op = other := by
  cases op <;> cases other <;> first | rfl | exact absurd h (by decide)

theorem Connective.eq_of_precedence {c other : Connective} (h : c.precedence = other.precedence) :
    c = other := by
  cases c with
  | not =>
    cases other with
    | not => rfl
    | binary op => exact absurd h.symm (Nat.ne_of_lt (Connective.precedence_binary_lt op))
  | binary op =>
    cases other with
    | not => exact absurd h (Nat.ne_of_lt (Connective.precedence_binary_lt op))
    | binary other => rw [Binary.eq_of_precedence h]

namespace Formula

/-- The connective at the top of a formula; an atom has none. -/
def connective : Formula → Option Connective
  | atom _ => none
  | not _ => some .not
  | binary op _ _ => some (.binary op)

/-- The binding strength of the top connective. An atom never needs parentheses, like a
negation. -/
def precedence : Formula → Nat
  | atom _ => 5
  | not _ => Connective.precedence .not
  | binary op _ _ => Connective.precedence (.binary op)

theorem precedence_pos (f : Formula) : 0 < f.precedence := by
  cases f with
  | atom name => exact Nat.zero_lt_succ 4
  | not f => exact Nat.zero_lt_succ 4
  | binary op f g =>
    show 0 < (Connective.binary op).precedence
    cases op <;> decide

/-- The formula that a connective makes of two operands, when it takes two. -/
def join? : Connective → Formula → Formula → Option Formula
  | .not, _, _ => none
  | .binary op, left, right => some (binary op left right)

def operands : Formula → Option (Formula × Formula)
  | binary _ left right => some (left, right)
  | atom _ | not _ => none

/-- The height of the tree: an atom has depth 1. -/
def depth : Formula → Nat
  | atom _ => 1
  | not operand => operand.depth + 1
  | binary _ left right => max left.depth right.depth + 1

/-- The names at the leaves, from left to right. -/
def leaves : Formula → List Char
  | atom name => [name]
  | not operand => operand.leaves
  | binary _ left right => left.leaves ++ right.leaves

/-- Adds a name to a strictly increasing list of names. -/
def insertName (name : Char) : List Char → List Char
  | [] => [name]
  | other :: others =>
    if name < other then name :: other :: others
    else if name = other then other :: others
    else other :: insertName name others

/-- The names of the atoms in increasing order, each once. -/
def atoms (formula : Formula) : List Char := formula.leaves.foldr insertName []

theorem depth_pos (formula : Formula) : 0 < formula.depth := by
  cases formula <;> simp [depth]

theorem mem_insertName {name other : Char} {names : List Char} :
    other ∈ insertName name names ↔ other = name ∨ other ∈ names := by
  induction names with
  | nil => simp [insertName]
  | cons first rest ih =>
    simp only [insertName]
    split
    · simp
    · split
      · next h => subst h; simp
      · simp [ih, or_left_comm]

theorem sorted_insertName (name : Char) {names : List Char} (h : names.Pairwise (· < ·)) :
    (insertName name names).Pairwise (· < ·) := by
  induction names with
  | nil => exact List.pairwise_singleton _ name
  | cons first rest ih =>
    obtain ⟨hfirst, hrest⟩ := List.pairwise_cons.mp h
    rw [insertName]
    split
    · next hlt =>
      have hall : ∀ other ∈ rest, name < other :=
        fun other hother => Char.lt_trans hlt (hfirst other hother)
      exact List.pairwise_cons.mpr ⟨List.forall_mem_cons.mpr ⟨hlt, hall⟩, h⟩
    · next hge =>
      split
      · exact h
      · next hne =>
        have hlt : first < name := by
          refine Decidable.byContradiction fun hle => hne ?_
          exact Char.le_antisymm (Char.not_lt.mp hle) (Char.not_lt.mp hge)
        refine List.pairwise_cons.mpr ⟨fun other hother => ?_, ih hrest⟩
        rcases mem_insertName.mp hother with rfl | hother
        · exact hlt
        · exact hfirst other hother

theorem sorted_atoms (formula : Formula) : formula.atoms.Pairwise (· < ·) := by
  have h : ∀ names : List Char, (names.foldr insertName []).Pairwise (· < ·) := by
    intro names
    induction names with
    | nil => exact List.Pairwise.nil
    | cons first rest ih => exact sorted_insertName first ih
  exact h formula.leaves

theorem mem_atoms {name : Char} {formula : Formula} :
    name ∈ formula.atoms ↔ name ∈ formula.leaves := by
  have h : ∀ names : List Char, name ∈ names.foldr insertName [] ↔ name ∈ names := by
    intro names
    induction names with
    | nil => simp
    | cons first rest ih => simp [mem_insertName, ih]
  exact h formula.leaves

end Formula

end Sentential
