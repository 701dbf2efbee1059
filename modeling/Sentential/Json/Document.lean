import Sentential.Json.Token

/-! The trees of JSON texts. A document keeps what a text says: the order of the members of its
objects, keys that occur more than once, and numbers and strings that stand for nothing. It is
assembled from tokens one by one, with the arrays and objects that are still open on a stack. -/

namespace Sentential.Json

inductive Document where
  | null
  | bool (value : Bool)
  | number (value : Option Number)
  | string (value : Option String)
  | array (items : List Document)
  | object (members : List (Option String × Document))
deriving Inhabited

/-- An open array or object, with what it contains so far, the last first. An object waits for the
value of a key. -/
inductive Frame where
  | array (items : List Document)
  | object (members : List (Option String × Document)) (key : Option String)

/-- What may come next: a value, a key, a colon after a key, or what follows a document. A first
value or key may be missing. -/
inductive Expected where
  | value (first : Bool)
  | key (first : Bool) (members : List (Option String × Document))
  | colon (members : List (Option String × Document)) (key : Option String)
  | after (document : Document)

/-- A document that is partly assembled. -/
structure Assembly where
  expected : Expected
  frames : List Frame

def Token.leaf? : Token → Option Document
  | null => some .null
  | bool value => some (.bool value)
  | number value => some (.number value)
  | string value => some (.string value)
  | _ => none

namespace Assembly

def start : Assembly := ⟨.value false, []⟩

/-- The assembly after one more token, if the token may come next. -/
def step (assembly : Assembly) (token : Token) : Option Assembly :=
  match assembly.expected, token, assembly.frames with
  | .value true, .closeArray, .array _ :: frames => some ⟨.after (.array []), frames⟩
  | .value _, .openArray, frames => some ⟨.value true, .array [] :: frames⟩
  | .value _, .openObject, frames => some ⟨.key true [], frames⟩
  | .value _, token, frames => token.leaf?.map fun document => ⟨.after document, frames⟩
  | .key true _, .closeObject, frames => some ⟨.after (.object []), frames⟩
  | .key _ members, .string key, frames => some ⟨.colon members key, frames⟩
  | .colon members key, .colon, frames => some ⟨.value false, .object members key :: frames⟩
  | .after document, .comma, .array items :: frames =>
    some ⟨.value false, .array (document :: items) :: frames⟩
  | .after document, .closeArray, .array items :: frames =>
    some ⟨.after (.array (document :: items).reverse), frames⟩
  | .after document, .comma, .object members key :: frames =>
    some ⟨.key false ((key, document) :: members), frames⟩
  | .after document, .closeObject, .object members key :: frames =>
    some ⟨.after (.object ((key, document) :: members).reverse), frames⟩
  | _, _, _ => none

/-- The document, if nothing is open and nothing is missing. -/
def finish? : Assembly → Option Document
  | ⟨.after document, []⟩ => some document
  | _ => none

end Assembly

namespace Document

def ofTokens? (tokens : List Token) : Option Document :=
  (tokens.foldlM Assembly.step .start).bind Assembly.finish?

def ofText? (text : List Char) : Option Document := (scan? text).bind ofTokens?

mutual

/-- The greatest number of arrays and objects that are open at once. -/
def nesting : Document → Nat
  | array items => nestingOfItems items + 1
  | object members => nestingOfMembers members + 1
  | null | bool _ | number _ | string _ => 0

def nestingOfItems : List Document → Nat
  | [] => 0
  | item :: items => max item.nesting (nestingOfItems items)

def nestingOfMembers : List (Option String × Document) → Nat
  | [] => 0
  | (_, value) :: members => max value.nesting (nestingOfMembers members)

end

end Document

end Sentential.Json
