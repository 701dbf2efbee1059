import Mathlib.Data.List.Forall2
import Sentential.Json.Number
import Sentential.Json.Quoted

/-! The grammar of JSON texts. It says which texts are values, with space wherever JSON allows it, and
it neither limits the nesting nor asks what the numbers and strings stand for. -/

namespace Sentential.Json

/-- The text is space. -/
def Spaces (text : List Char) : Prop := ∀ c ∈ text, c ∈ [' ', '\t', '\n', '\r']

/-- The text is a part with space around it. -/
def Padded (part text : List Char) : Prop :=
  ∃ before after, Spaces before ∧ Spaces after ∧ text = before ++ part ++ after

/-! ### Numbers -/

/-- The text is made of digits, of which there is at least one. -/
def Digits (text : List Char) : Prop := text ≠ [] ∧ ∀ c ∈ text, isDigit c = true

/-- The text is the part of a number before its point. Only zero starts with a zero. -/
inductive WholeText : List Char → Prop
  | zero : WholeText ['0']
  | digits {text : List Char} (hzero : text.head? ≠ some '0') (h : Digits text) : WholeText text

inductive FractionText : List Char → Option (List Char) → Prop
  | none : FractionText [] none
  | digits {text : List Char} (h : Digits text) : FractionText ('.' :: text) (some text)

/-- The text is the sign of an exponent, which is negative or not. -/
def SignText (text : List Char) (negative : Bool) : Prop :=
  (text, negative) ∈ [([], false), (['+'], false), (['-'], true)]

inductive ExponentText : List Char → Option (Bool × List Char) → Prop
  | none : ExponentText [] none
  | digits {mark : Char} {sign text : List Char} {negative : Bool} (hmark : mark ∈ ['e', 'E'])
    (hsign : SignText sign negative) (h : Digits text) :
    ExponentText (mark :: (sign ++ text)) (some (negative, text))

/-- The text is a number of certain digits. -/
def NumberText (text : List Char) (literal : Literal) : Prop :=
  ∃ fraction exponent, WholeText literal.whole ∧ FractionText fraction literal.fraction ∧
    ExponentText exponent literal.exponent ∧
    text = (if literal.negative then ['-'] else []) ++ literal.whole ++ fraction ++ exponent

/-! ### Strings -/

/-- The characters that have a short escape, each with the letter of its escape. -/
def escapes : List (Char × Char) :=
  [('"', '"'), ('\\', '\\'), ('/', '/'), ('\x08', 'b'), ('\x0c', 'f'), ('\n', 'n'), ('\r', 'r'),
    ('\t', 't')]

/-- The hexadecimal digits with their values. -/
def hexDigits : List (Char × Nat) :=
  "0123456789abcdef".toList.zipIdx ++ "ABCDEF".toList.zipIdx 10

/-- The text between the quotes of a string is certain units. -/
inductive Written : List Char → List Piece → Prop
  | nil : Written [] []
  | character {c : Char} {text : List Char} {pieces : List Piece} (hquote : c ≠ '"')
    (hbackslash : c ≠ '\\') (hcontrol : 0x20 ≤ c.toNat) (h : Written text pieces) :
    Written (c :: text) (.character c :: pieces)
  | escape {c letter : Char} {text : List Char} {pieces : List Piece}
    (hescape : (c, letter) ∈ escapes) (h : Written text pieces) :
    Written ('\\' :: letter :: text) (.character c :: pieces)
  | codeUnit {a b c d : Char} {i j k l : Nat} {text : List Char} {pieces : List Piece}
    (ha : (a, i) ∈ hexDigits) (hb : (b, j) ∈ hexDigits) (hc : (c, k) ∈ hexDigits)
    (hd : (d, l) ∈ hexDigits) (h : Written text pieces) :
    Written ('\\' :: 'u' :: a :: b :: c :: d :: text)
      (.codeUnit (((i * 16 + j) * 16 + k) * 16 + l) :: pieces)

def StringText (text : List Char) (pieces : List Piece) : Prop :=
  ∃ inside, Written inside pieces ∧ text = '"' :: inside ++ ['"']

/-- The units stand for characters: each for itself, for the character of its code point, or with the
next one for a character past the first plane. -/
inductive Stands : List Piece → List Char → Prop
  | nil : Stands [] []
  | character (c : Char) {pieces : List Piece} {chars : List Char} (h : Stands pieces chars) :
    Stands (.character c :: pieces) (c :: chars)
  | codeUnit (c : Char) {pieces : List Piece} {chars : List Char} (h : Stands pieces chars) :
    Stands (.codeUnit c.toNat :: pieces) (c :: chars)
  | pair {c : Char} {high low : Nat} {pieces : List Piece} {chars : List Char}
    (hhigh : 0xD800 ≤ high ∧ high < 0xDC00) (hlow : 0xDC00 ≤ low ∧ low < 0xE000)
    (hc : c.toNat = 0x10000 + (high - 0xD800) * 0x400 + (low - 0xDC00))
    (h : Stands pieces chars) :
    Stands (.codeUnit high :: .codeUnit low :: pieces) (c :: chars)

/-! ### Values -/

/-- The text is a key with space around it. -/
def NameText (text : List Char) (pieces : List Piece) : Prop :=
  ∃ key, StringText key pieces ∧ Padded key text

mutual

/-- The text is a value without space around it. -/
inductive ValueText : List Char → Prop
  | null : ValueText "null".toList
  | bool (value : Bool) : ValueText (if value then "true" else "false").toList
  | number {text : List Char} {literal : Literal} (h : NumberText text literal) : ValueText text
  | string {text : List Char} {pieces : List Piece} (h : StringText text pieces) : ValueText text
  | array {text : List Char} {items : List (List Char)} (h : ItemsText text items) :
    ValueText ('[' :: text ++ [']'])
  | object {text : List Char} {members : List (List Piece × List Char)}
    (h : MembersText text members) : ValueText ('\x7b' :: text ++ ['\x7d'])

/-- The text between the brackets of an array has certain items. -/
inductive ItemsText : List Char → List (List Char) → Prop
  | none {text : List Char} (h : Spaces text) : ItemsText text []
  | one {text item : List Char} (hitem : ValueText item) (hpad : Padded item text) :
    ItemsText text [item]
  | more {text item rest next : List Char} {others : List (List Char)} (hitem : ValueText item)
    (hpad : Padded item text) (hrest : ItemsText rest (next :: others)) :
    ItemsText (text ++ ',' :: rest) (item :: next :: others)

/-- The text between the braces of an object has certain members, each with the units of its key and
the text of its value. -/
inductive MembersText : List Char → List (List Piece × List Char) → Prop
  | none {text : List Char} (h : Spaces text) : MembersText text []
  | one {name text value : List Char} {pieces : List Piece} (hname : NameText name pieces)
    (hvalue : ValueText value) (hpad : Padded value text) :
    MembersText (name ++ ':' :: text) [(pieces, value)]
  | more {name text value rest : List Char} {pieces : List Piece} {next : List Piece × List Char}
    {others : List (List Piece × List Char)} (hname : NameText name pieces)
    (hvalue : ValueText value) (hpad : Padded value text)
    (hrest : MembersText rest (next :: others)) :
    MembersText (name ++ ':' :: text ++ ',' :: rest) ((pieces, value) :: next :: others)

end

/-- The text is an object with certain members, of which the keys stand for characters. -/
def ObjectText (text : List Char) (members : List (String × List Char)) : Prop :=
  ∃ inside written, MembersText inside written ∧ Padded ('\x7b' :: inside ++ ['\x7d']) text ∧
    List.Forall₂ (fun member found => Stands found.1 member.1.toList ∧ found.2 = member.2)
      members written

/-! ### What is written without space -/

theorem spaces_nil : Spaces [] := by
  simp [Spaces]

theorem padded_self (text : List Char) : Padded text text :=
  ⟨[], [], spaces_nil, spaces_nil, by simp⟩

end Sentential.Json
