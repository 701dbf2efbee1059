import Sentential.Json.Value

/-! Records and choices in JSON documents. A record is an object with certain fields among members
that are ignored, or the array of its fields in order. A choice is the name of what is chosen. -/

namespace Sentential.Json

/-- The values of fields by their names, where all keys mean something and no field occurs twice.
Other members are ignored. -/
def fieldsOfMembers? {α : Type} (names : List String) (members : List (Option String × α)) :
    Option (List (Option α)) :=
  if members.all (·.1.isSome) &&
      names.all (fun name => members.countP (·.1 == some name) ≤ 1) then
    some (names.map fun name => members.lookup (some name))
  else none

/-- The values of fields by their order, where fields at the end may be missing. -/
def fieldsOfItems? {α : Type} (names : List String) (items : List α) : Option (List (Option α)) :=
  if items.length ≤ names.length then some (names.mapIdx fun index _ => items[index]?) else none

/-- What a field says, or a default if the field is missing. -/
def fieldOr {α β : Type} (standard : β) (read? : α → Option β) : Option α → Option β
  | none => some standard
  | some value => read? value

namespace Document

def fields? (names : List String) : Document → Option (List (Option Document))
  | object members => fieldsOfMembers? names members
  | array items => fieldsOfItems? names items
  | _ => none

/-- The name of what is chosen: a string, or the key of an object of which the only value is
null. -/
def choice? : Document → Option String
  | string value => value
  | object [(key, null)] => key
  | _ => none

def bool? : Document → Option Bool
  | bool value => some value
  | _ => none

def string? : Document → Option String
  | string value => value
  | _ => none

/-- An integer of 64 bits without sign. -/
def word? : Document → Option UInt64
  | number (some (.integer value)) =>
    if 0 ≤ value ∧ value.toNat < UInt64.size then some (UInt64.ofNat value.toNat) else none
  | _ => none

end Document

end Sentential.Json
