import Sentential.Glossary
import Sentential.Symbolic.Token
import Sentential.Text.Blank
import Sentential.Text.Pattern

/-! The text that shows a formula to people with the meanings of its atoms: a line for the formula,
a heading, and a line for each meaning. Reading such a text back accepts the headings in any case and
without accents, and skips lines that give no meaning. -/

namespace Sentential

open Text

/-- What such a text says: a formula, if it has one, and meanings. -/
structure Answer where
  formula : Option String
  propositions : Glossary
deriving DecidableEq, Inhabited

namespace Answer

/-- The text that shows a formula and meanings. -/
def compose (formula : String) (propositions : Glossary) : String :=
  "Fórmula: " ++ formula ++ "\nProposições:\n" ++
    "\n".intercalate (propositions.entries.map fun (atom, meaning) => atom ++ ": " ++ meaning)

/-- The spellings of the heading `Fórmula:`. -/
def formulaHeading : Pattern :=
  ["Ff", "OoÓó", "Rr", "Mm", "Uu", "Ll", "Aa", ":"].map String.toList

/-- The spellings of the heading `Proposições:`. The letter s may be a long one. -/
def propositionsHeading : Pattern :=
  ["Pp", "Rr", "Oo", "Pp", "Oo", "Ssſ", "Ii", "CcÇç", "OoÕõ", "Ee", "Ssſ", ":"].map String.toList

/-- The formula after the first heading, blanks and line ends skipped, up to the end of its line. -/
def formulaIn? (text : List Char) : Option String :=
  (formulaHeading.cut? text).bind fun (_, rest) =>
    let formula := trim ((trimStart rest).takeWhile (· ≠ '\n'))
    if formula.isEmpty then none else some (String.ofList formula)

/-- The letter and the meaning in a line without blanks at its ends. -/
def entryIn? : List Char → Option (Char × List Char)
  | c :: rest =>
    if Symbolic.Token.isLetter c then
      match trimStart rest with
      | ':' :: rest =>
        let meaning := trimStart rest
        if meaning.isEmpty then none else some (c, meaning)
      | _ => none
    else none
  | [] => none

/-- The entries that lines give, blanks at their ends aside. -/
def entriesIn (texts : List (List Char)) : List (String × String) :=
  (texts.map trim).filterMap entryIn? |>.map Glossary.entryOf

theorem entriesIn_cons (line : List Char) (texts : List (List Char)) :
    entriesIn (line :: texts) =
      ((entryIn? (trim line)).map Glossary.entryOf).toList ++ entriesIn texts := by
  rw [entriesIn, List.map_cons, List.filterMap_cons]
  cases entryIn? (trim line) <;> rfl

theorem entriesIn_append (before after : List (List Char)) :
    entriesIn (before ++ after) = entriesIn before ++ entriesIn after := by
  simp only [entriesIn, List.map_append, List.filterMap_append]

/-- The meanings in the lines after the first heading. -/
def propositionsIn (text : List Char) : Glossary :=
  match propositionsHeading.cut? text with
  | some (_, rest) => Glossary.ofList (entriesIn (lines (trimStart rest)))
  | none => .empty

def ofText (text : String) : Answer :=
  ⟨formulaIn? text.toList, propositionsIn text.toList⟩

end Answer

end Sentential
