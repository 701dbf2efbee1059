import Sentential.Json.Document
import Sentential.Text.Table

/-! The values of JSON texts. A value is what a document means: its numbers and strings stand for
something, and an object has each key once. -/

namespace Sentential.Json

inductive Value where
  | null
  | bool (value : Bool)
  | number (value : Number)
  | string (value : String)
  | array (items : List Value)
  | object (members : List (String × Value))
deriving Inhabited

/-- The greatest nesting of a value that is read. -/
def nestingLimit : Nat := 127

mutual

/-- What a document means, if everything in it means something. The members of an object are in the
order of their keys, and the last member of a key counts. -/
def Document.meaning? : Document → Option Value
  | .null => some .null
  | .bool value => some (.bool value)
  | .number value => value.map .number
  | .string value => value.map .string
  | .array items => (meaningOfItems? items).map .array
  | .object members => (meaningOfMembers? members).map fun members =>
    .object (Text.Table.ofList members)

def Document.meaningOfItems? : List Document → Option (List Value)
  | [] => some []
  | item :: items =>
    match item.meaning?, meaningOfItems? items with
    | some value, some values => some (value :: values)
    | _, _ => none

def Document.meaningOfMembers? : List (Option String × Document) → Option (List (String × Value))
  | [] => some []
  | (key, item) :: members =>
    match key, item.meaning?, meaningOfMembers? members with
    | some key, some value, some entries => some ((key, value) :: entries)
    | _, _, _ => none

end

/-- The value of a document of limited nesting. -/
def Document.value? (document : Document) : Option Value :=
  if document.nesting ≤ nestingLimit then document.meaning? else none

namespace Value

def ofText? (text : List Char) : Option Value := (Document.ofText? text).bind Document.value?

mutual

/-- The text of a value, without space. -/
def write : Value → List Char
  | null => "null".toList
  | bool value => (if value then "true" else "false").toList
  | number value => value.text
  | string value => Quoted.encode value.toList
  | array items => '[' :: writeItems items ++ [']']
  | object members => '\x7b' :: writeMembers members ++ ['\x7d']

def writeItems : List Value → List Char
  | [] => []
  | [item] => item.write
  | item :: items => item.write ++ ',' :: writeItems items

def writeMembers : List (String × Value) → List Char
  | [] => []
  | [(key, value)] => Quoted.encode key.toList ++ ':' :: value.write
  | (key, value) :: members =>
    Quoted.encode key.toList ++ ':' :: value.write ++ ',' :: writeMembers members

end

def text (value : Value) : String := String.ofList value.write

end Value

end Sentential.Json
