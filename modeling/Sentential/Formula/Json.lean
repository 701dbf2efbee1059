import Sentential.Formula
import Sentential.Json.Record

/-! Formulas as JSON. A formula is a record that has its kind under the key `type`, next to the name
of an atom or to the operands of a connective. -/

namespace Sentential

open Json

inductive Formula.Kind where
  | atom
  | connective (c : Connective)
deriving DecidableEq, Repr, Inhabited

namespace Formula.Kind

/-- The kinds in the order of their indices. -/
def all : List Kind := atom :: Connective.all.map connective

def name : Kind → String
  | atom => "atom"
  | connective c => c.name

def fields : Kind → List String
  | atom => ["name"]
  | connective .not => ["operand"]
  | connective (.binary _) => ["left", "right"]

/-- The kind that a document names. Inside another formula the index of a kind names it too. -/
def ofDocument? (inner : Bool) : Document → Option Kind
  | .string (some name) => all.find? (·.name == name)
  | .number (some (.integer index)) =>
    if inner && decide (0 ≤ index) then all[index.toNat]? else none
  | _ => none

end Formula.Kind

namespace Formula

/-- The formula of a kind with given fields. A field is a document with the formula that it is, if
it is one. -/
def ofFields? : Kind → List (Document × Option Formula) → Option Formula
  | .atom, [(.string (some name), _)] =>
    match name.toList with
    | [c] => some (atom c)
    | _ => none
  | .connective .not, [(_, some operand)] => some (not operand)
  | .connective (.binary op), [(_, some left), (_, some right)] => some (binary op left right)
  | _, _ => none

/-- The formula of a record. -/
def ofMembers? (inner : Bool) (members : List (Option String × Document × Option Formula)) :
    Option Formula := do
  let [some (tag, _)] ← fieldsOfMembers? ["type"] members | none
  let kind ← Kind.ofDocument? inner tag
  let fields ← fieldsOfMembers? kind.fields members
  ofFields? kind (← fields.mapM id)

/-- The formula of an array with the kind and all fields. -/
def ofItems? (inner : Bool) : List (Document × Option Formula) → Option Formula
  | [] => none
  | (tag, _) :: fields => do ofFields? (← Kind.ofDocument? inner tag) fields

mutual

/-- The formula that a document is, where `inner` tells if it is part of another formula. -/
def ofDocument? (inner : Bool) : Document → Option Formula
  | .object members => ofMembers? inner (withFormulas members)
  | .array items => ofItems? inner (withFormulasOfItems items)
  | _ => none

/-- The members with the formula that each value is, if it is one. -/
def withFormulas :
    List (Option String × Document) → List (Option String × Document × Option Formula)
  | [] => []
  | (key, value) :: members => (key, value, ofDocument? true value) :: withFormulas members

/-- The items with the formula that each is, if it is one. -/
def withFormulasOfItems : List Document → List (Document × Option Formula)
  | [] => []
  | item :: items => (item, ofDocument? true item) :: withFormulasOfItems items

end

/-- The formula that a JSON text writes. All of the text has to mean something. -/
def ofJson? (text : String) : Option Formula := do
  let document ← Document.ofText? text.toList
  let _ ← document.value?
  ofDocument? false document

def toValue : Formula → Value
  | atom name =>
    .object [("type", .string "atom"), ("name", .string (String.singleton name))]
  | not operand =>
    .object [("type", .string Connective.not.name), ("operand", operand.toValue)]
  | binary op left right =>
    .object [("type", .string (Connective.binary op).name), ("left", left.toValue),
      ("right", right.toValue)]

def toJson (formula : Formula) : String := formula.toValue.text

end Formula

namespace Connective

def ofJson? (text : String) : Option Connective :=
  ((Document.ofText? text.toList).bind Document.choice?).bind ofName?

def toJson (c : Connective) : String := (Value.string c.name).text

end Connective

end Sentential
