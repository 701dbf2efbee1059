import Sentential.Json.Value
import Sentential.Proofs.Json.Assembly
import Sentential.Proofs.Json.Quoted

/-! Values that were written and are read back as documents. What a number is read as depends on
what follows it, so the values here have none. -/

namespace Sentential.Json

/-- A text that is read as certain tokens, whatever follows it. -/
def Scans (text : List Char) (tokens : List Token) : Prop :=
  ∀ rest, scan? (text ++ rest) = (scan? rest).map (tokens ++ ·)

namespace Scans

variable {text more : List Char} {tokens others : List Token}

theorem nil : Scans [] [] := by
  intro rest
  rw [List.nil_append]
  cases scan? rest <;> rfl

theorem append (h : Scans text tokens) (hm : Scans more others) :
    Scans (text ++ more) (tokens ++ others) := by
  intro rest
  rw [List.append_assoc, h, hm]
  cases scan? rest <;> simp

theorem eq_some (h : Scans text tokens) : scan? text = some tokens := by
  have hs := h []
  rwa [List.append_nil, scan?, Option.map_some, List.append_nil] at hs

theorem token {c : Char} {token : Token} (hc : isSpace c = false)
    (h : ∀ rest, scanToken? c (text ++ rest) = some (token, rest)) : Scans (c :: text) [token] := by
  intro rest
  rw [List.cons_append, scan?, if_neg (by simp [hc])]
  split
  next hn => rw [h] at hn; cases hn
  next hs =>
    rw [h] at hs
    cases hs
    rfl

end Scans

theorem afterWord?_append (word rest : List Char) : afterWord? word (word ++ rest) = some rest := by
  induction word with
  | nil => rfl
  | cons c word ih => rw [List.cons_append, afterWord?, if_pos rfl, ih]

theorem scans_encode (text : String) :
    Scans (Quoted.encode text.toList) [.string (some text)] := by
  refine Scans.token (by decide) fun rest => ?_
  rw [List.append_eq, List.append_assoc, List.singleton_append, scanToken?, Quoted.scan_encode]
  simp [Quoted.decode_encode]

/-- A word is read as the token that its first letter decides. -/
theorem scans_word {c : Char} {word : List Char} {token : Token} (hc : isSpace c = false)
    (h : ∀ rest, scanToken? c rest = (afterWord? word rest).map fun after => (token, after)) :
    Scans (c :: word) [token] :=
  Scans.token hc fun rest => by rw [h, afterWord?_append, Option.map_some]

theorem scans_null : Scans "null".toList [.null] :=
  scans_word (c := 'n') rfl fun _ => rfl

theorem scans_bool (value : Bool) :
    Scans (if value then "true" else "false").toList [.bool value] := by
  cases value with
  | false => exact scans_word (c := 'f') rfl fun _ => rfl
  | true => exact scans_word (c := 't') rfl fun _ => rfl

namespace Value

mutual

/-- The document that the text of a value says. -/
def document : Value → Document
  | null => .null
  | bool value => .bool value
  | number value => .number (some value)
  | string value => .string (some value)
  | array items => .array (documentOfItems items)
  | object members => .object (documentOfMembers members)

def documentOfItems : List Value → List Document
  | [] => []
  | item :: items => item.document :: documentOfItems items

def documentOfMembers : List (String × Value) → List (Option String × Document)
  | [] => []
  | (key, value) :: members => (some key, value.document) :: documentOfMembers members

end

mutual

/-- Everything in a written value means something. -/
theorem isSome_meaning (value : Value) : value.document.meaning?.isSome := by
  match value with
  | null | bool _ | number _ | string _ => rfl
  | array items =>
    rw [document, Document.meaning?, Option.isSome_map]
    exact isSome_meaningOfItems items
  | object members =>
    rw [document, Document.meaning?, Option.isSome_map]
    exact isSome_meaningOfMembers members

theorem isSome_meaningOfItems (items : List Value) :
    (Document.meaningOfItems? (documentOfItems items)).isSome := by
  match items with
  | [] => rfl
  | item :: items =>
    obtain ⟨value, hv⟩ := Option.isSome_iff_exists.mp (isSome_meaning item)
    obtain ⟨values, hs⟩ := Option.isSome_iff_exists.mp (isSome_meaningOfItems items)
    simp [documentOfItems, Document.meaningOfItems?, hv, hs]

theorem isSome_meaningOfMembers (members : List (String × Value)) :
    (Document.meaningOfMembers? (documentOfMembers members)).isSome := by
  match members with
  | [] => rfl
  | (key, item) :: members =>
    obtain ⟨value, hv⟩ := Option.isSome_iff_exists.mp (isSome_meaning item)
    obtain ⟨values, hs⟩ := Option.isSome_iff_exists.mp (isSome_meaningOfMembers members)
    simp [documentOfMembers, Document.meaningOfMembers?, hv, hs]

end

/-- A value in which there are no numbers. -/
inductive Numberless : Value → Prop
  | null : Numberless null
  | bool (value : Bool) : Numberless (bool value)
  | string (value : String) : Numberless (string value)
  | array {items : List Value} : (∀ item ∈ items, Numberless item) → Numberless (array items)
  | object {members : List (String × Value)} : (∀ m ∈ members, Numberless m.2) →
    Numberless (object members)

theorem scans_writeItems {items : List Value}
    (h : ∀ item ∈ items, Scans item.write item.document.tokens) :
    Scans (writeItems items) (Document.tokensOfItems (documentOfItems items)) := by
  have hcomma : Scans [','] [.comma] := .token rfl fun _ => rfl
  induction items with
  | nil => exact .nil
  | cons item items ih =>
    have hi := h item List.mem_cons_self
    cases items with
    | nil => exact hi
    | cons next items =>
      exact hi.append (hcomma.append (ih fun other ho => h other (List.mem_cons_of_mem _ ho)))

theorem scans_writeMembers {members : List (String × Value)}
    (h : ∀ m ∈ members, Scans m.2.write m.2.document.tokens) :
    Scans (writeMembers members) (Document.tokensOfMembers (documentOfMembers members)) := by
  have hcomma : Scans [','] [.comma] := .token rfl fun _ => rfl
  have hcolon : Scans [':'] [.colon] := .token rfl fun _ => rfl
  induction members with
  | nil => exact .nil
  | cons member members ih =>
    obtain ⟨key, value⟩ := member
    have hm := (scans_encode key).append (hcolon.append (h (key, value) List.mem_cons_self))
    cases members with
    | nil => exact hm
    | cons next members =>
      exact hm.append (hcomma.append (ih fun other ho => h other (List.mem_cons_of_mem _ ho)))

theorem scans_write {value : Value} (h : value.Numberless) :
    Scans value.write value.document.tokens := by
  induction h with
  | null => exact scans_null
  | bool value => exact scans_bool value
  | string value => exact scans_encode value
  | array _ ih =>
    have hopen : Scans ['['] [.openArray] := .token rfl fun _ => rfl
    have hclose : Scans [']'] [.closeArray] := .token rfl fun _ => rfl
    exact (hopen.append (scans_writeItems ih)).append hclose
  | object _ ih =>
    have hopen : Scans ['\x7b'] [.openObject] := .token rfl fun _ => rfl
    have hclose : Scans ['\x7d'] [.closeObject] := .token rfl fun _ => rfl
    exact (hopen.append (scans_writeMembers ih)).append hclose

end Value

theorem Document.ofText?_write {value : Value} (h : value.Numberless) :
    ofText? value.write = some value.document := by
  rw [ofText?, (Value.scans_write h).eq_some, Option.bind_some, ofTokens?_tokens]

end Sentential.Json
