import Sentential.Symbolic.Token

/-! The reasons why tokens are not a formula, with the place of each and its message. Positions
count tokens and offsets count characters. -/

namespace Sentential.Symbolic

inductive Fault where
  /-- The tokens end where a formula has to start. -/
  | unexpectedEnd
  /-- Another lexeme stands where one certain token has to. -/
  | mismatch (expected : Token) (found : Lexeme) (position : Nat)
  /-- No formula starts with the token found. -/
  | invalidAtom (found : Token) (position : Nat)
  /-- The token found follows a complete formula. -/
  | trailing (found : Token) (position : Nat)
  /-- The character is in no formula. -/
  | illegalCharacter (c : Char) (offset : Nat)
  /-- The formula has more levels than the limit. -/
  | tooDeep (limit : Nat)
deriving DecidableEq, Repr, Inhabited

def Fault.message : Fault → String
  | unexpectedEnd => "unexpected end of formula"
  | mismatch expected found position =>
    s!"expected '{expected.text}' at token {position}, found '{found.text}'"
  | invalidAtom found position =>
    s!"expected an atom (A-Z) at token {position}, found '{found.text}'"
  | trailing found position =>
    s!"unexpected '{found.text}' at token {position} after a complete formula"
  | illegalCharacter c offset => s!"illegal character '{c}' at offset {offset}"
  | tooDeep limit => s!"formula nests deeper than {limit} levels"

end Sentential.Symbolic
