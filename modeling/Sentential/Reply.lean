import Sentential.Glossary
import Sentential.Json.Value
import Sentential.Text.Blank
import Sentential.Text.Pattern

/-! What a language model replies. A reply should be one JSON object, which may stand between fences
or in prose, and which refuses, or gives a formula with meanings, or gives a sentence. -/

namespace Sentential

open Text Json

inductive Reply where
  | refused (reason : String)
  | formula (text : String) (propositions : Option Glossary)
  | sentence (text : String)
  | unrecognized
deriving DecidableEq, Inhabited

namespace Reply

def fence : Pattern := .word "```"

/-- The spellings of the label `json` after a fence. The letter s may be a long one. -/
def fenceLabel : Pattern := ["Jj", "Ssſ", "Oo", "Nn"].map String.toList

/-- The text after a fence that starts it, blanks skipped, and after the label of the fence. -/
def afterFence (text : List Char) : List Char :=
  match fence.after? (trimStart text) with
  | some rest => (fenceLabel.after? rest).getD rest
  | none => text

/-- The text before a fence that ends it, blanks skipped. -/
def beforeFence (text : List Char) : List Char :=
  match fence.after? (trimEnd text).reverse with
  | some rest => rest.reverse
  | none => text

/-- The text between its fences, without the blanks around it. Either fence may be missing. -/
def stripFences (raw : String) : String :=
  String.ofList (trim (beforeFence (afterFence raw.toList)))

/-- The text from the first opening brace to the last closing one. -/
def objectSpan (text : List Char) : List Char :=
  dropEndWhile (· ≠ '\x7d') (text.dropWhile (· ≠ '\x7b'))

/-- The JSON value that a text is, or that a part of the text between braces is. -/
def valueIn? (text : List Char) : Option Value :=
  Value.ofText? text <|> Value.ofText? (objectSpan text)

/-- A value as a text: the characters of a string, and the JSON text of every other value. -/
def plainText : Value → String
  | .string text => text
  | value => value.text

/-- The text of a field that counts as given, which null, false, zero, and the empty string do
not. -/
def givenText? (value : Value) : Option String :=
  match value with
  | .null | .bool false => none
  | .string text => if text.isEmpty then none else some text
  | .number number => if number.isZero then none else some (plainText value)
  | _ => some (plainText value)

/-- The text of the member with a key, if it counts as given. -/
def field? (members : List (String × Value)) (key : String) : Option String :=
  (members.lookup key).bind givenText?

/-- The meanings among the members, if they are an object. -/
def propositions? (members : List (String × Value)) : Option Glossary :=
  match members.lookup "propositions" with
  | some (.object meanings) =>
    some (Glossary.ofList (meanings.map fun (atom, meaning) => (atom, plainText meaning)))
  | _ => none

/-- The reply that an object is. An error comes first, then a formula, then a sentence. -/
def ofMembers (members : List (String × Value)) : Reply :=
  match field? members "error", field? members "formula", field? members "sentence" with
  | some reason, _, _ => refused reason
  | none, some text, _ => formula text (propositions? members)
  | none, none, some text => sentence text
  | none, none, none => unrecognized

/-- The reply that a raw text holds, if it holds an object or an array. -/
def ofText? (raw : String) : Option Reply :=
  match valueIn? (stripFences raw).toList with
  | some (.object members) => some (ofMembers members)
  | some (.array _) => some unrecognized
  | _ => none

end Reply

end Sentential
