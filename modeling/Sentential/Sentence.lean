import Sentential.Formula
import Sentential.Glossary

/-! Portuguese sentences for formulas. An atom is said by its meaning and a connective by its word.
An operand stands in parentheses if its connective binds less tightly than the one around it. -/

namespace Sentential

/-- The meaning of each atom, where it has one. -/
abbrev Meanings := Char → Option String

/-- The meanings that a glossary gives to the atoms that are its keys. -/
def Glossary.meanings (glossary : Glossary) : Meanings := fun atom =>
  glossary.get? (String.singleton atom)

/-- What is said for an atom without a meaning. -/
def placeholder (atom : Char) : String := "proposição " ++ String.singleton atom

namespace Meanings

def none : Meanings := fun _ => .none

/-- The meaning of an atom, if it has one that is not empty. -/
def find? (meanings : Meanings) (atom : Char) : Option String :=
  (meanings atom).filter fun meaning => !meaning.isEmpty

def text (meanings : Meanings) (atom : Char) : String :=
  (meanings.find? atom).getD (placeholder atom)

end Meanings

namespace Formula

/-- A phrase within the phrase of a connective. -/
def within (outer : Connective) (precedence : Nat) (phrase : List Char) : List Char :=
  if precedence < outer.precedence then '(' :: phrase ++ [')'] else phrase

/-- The phrase for a formula, given what is said for each atom. -/
def phrase (say : Char → List Char) : Formula → List Char
  | atom name => say name
  | not operand =>
    Connective.not.word.toList ++ ' ' :: within .not operand.precedence (operand.phrase say)
  | binary op left right =>
    let first := within (.binary op) left.precedence (left.phrase say)
    let second := within (.binary op) right.precedence (right.phrase say)
    match op with
    | .implies =>
      "se ".toList ++ first ++ ", ".toList ++ (Connective.binary op).word.toList ++ ' ' :: second
    | _ => first ++ ' ' :: (Connective.binary op).word.toList ++ ' ' :: second

theorem phrase_not (say : Char → List Char) (f : Formula) :
    (not f).phrase say =
      Connective.not.word.toList ++ ' ' :: within .not f.precedence (f.phrase say) := rfl

theorem phrase_implies (say : Char → List Char) (f g : Formula) :
    (binary .implies f g).phrase say =
      "se ".toList ++ within (.binary .implies) f.precedence (f.phrase say) ++ ", ".toList ++
        (Connective.binary .implies).word.toList ++
        ' ' :: within (.binary .implies) g.precedence (g.phrase say) := rfl

theorem phrase_binary (say : Char → List Char) {op : Binary} (hop : op ≠ .implies)
    (f g : Formula) :
    (binary op f g).phrase say =
      within (.binary op) f.precedence (f.phrase say) ++
        ' ' :: (Connective.binary op).word.toList ++
        ' ' :: within (.binary op) g.precedence (g.phrase say) := by
  cases op with
  | implies => exact absurd rfl hop
  | and | or | iff => rfl

def sentence (formula : Formula) (meanings : Meanings) : String :=
  String.ofList (formula.phrase fun atom => (meanings.text atom).toList)

end Formula

end Sentential
