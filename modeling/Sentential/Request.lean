import Sentential.Glossary
import Sentential.Json.Record

/-! Requests for conversions, and their JSON form. -/

namespace Sentential

open Json

/-- The direction of a conversion. -/
inductive Direction where
  | formulaToSentence
  | sentenceToFormula
deriving DecidableEq, Repr, Inhabited

namespace Direction

def name : Direction → String
  | formulaToSentence => "cpc-to-nl"
  | sentenceToFormula => "nl-to-cpc"

def ofName? (name : String) : Option Direction :=
  [formulaToSentence, sentenceToFormula].find? (·.name == name)

def ofJson? (text : String) : Option Direction :=
  ((Document.ofText? text.toList).bind Document.choice?).bind ofName?

def toJson (direction : Direction) : String := (Value.string direction.name).text

/-- A name is read back as its direction. -/
theorem ofName?_name (direction : Direction) : ofName? direction.name = some direction := by
  cases direction <;> decide

end Direction

namespace Glossary

/-- The entries that the members of an object are, if all of them are texts. -/
def entriesOfMembers? : List (Option String × Document) → Option (List (String × String))
  | [] => some []
  | (some key, .string (some meaning)) :: members =>
    (entriesOfMembers? members).map ((key, meaning) :: ·)
  | _ => none

def ofDocument? : Document → Option Glossary
  | .object members => (entriesOfMembers? members).map ofList
  | _ => none

def toValue (glossary : Glossary) : Value :=
  .object (glossary.entries.map fun (key, meaning) => (key, .string meaning))

end Glossary

/-- A conversion that is asked for. The meanings of atoms serve the direction to sentences alone. -/
structure Request where
  direction : Direction
  input : String
  propositions : Glossary
deriving DecidableEq, Inhabited

namespace Request

def fields : List String := ["mode", "input", "propositions"]

/-- The request that a document makes. Without meanings there are none. -/
def ofDocument? (document : Document) : Option Request := do
  let [some mode, some input, propositions] ← document.fields? fields | none
  let direction ← mode.choice?.bind Direction.ofName?
  let input ← input.string?
  let propositions ← fieldOr Glossary.empty Glossary.ofDocument? propositions
  some { direction, input, propositions }

def ofJson? (text : String) : Option Request :=
  (Document.ofText? text.toList).bind ofDocument?

def toValue (request : Request) : Value :=
  .object [("mode", .string request.direction.name), ("input", .string request.input),
    ("propositions", request.propositions.toValue)]

def toJson (request : Request) : String := request.toValue.text

end Request

end Sentential
