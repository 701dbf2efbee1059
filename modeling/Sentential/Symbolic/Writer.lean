import Sentential.Symbolic.Token

/-! Writing a formula in symbols, with the fewest parentheses from which the same tree is read
back. A formula is written as tokens, and the tokens as text with a blank on either side of a
connective that joins two formulas. -/

namespace Sentential

/-- The side of a connective on which an operand stands. The operand of a negation stands on the
right. -/
inductive Side where
  | left
  | right
deriving DecidableEq, Repr, Inhabited

/-- An operand that binds less tightly than its connective needs parentheses, and so does one that
binds equally and stands on the side to which a chain of the connective does not group. -/
def Formula.needsParentheses (parent : Connective) (side : Side) (operand : Formula) : Bool :=
  operand.precedence < parent.precedence ||
    (operand.precedence == parent.precedence && parent.isBinary &&
      (side == .left) == parent.rightAssociative)

namespace Symbolic

/-- Tokens, in parentheses if these are needed. -/
def enclose (needed : Bool) (tokens : List Token) : List Token :=
  if needed then .opening :: tokens ++ [.closing] else tokens

/-- The text of a token between other tokens. -/
def Token.spelling : Token → List Char
  | connective (.binary op) => [' ', (Connective.binary op).symbol, ' ']
  | token => [token.symbol]

end Symbolic

namespace Formula

open Symbolic

def tokens : Formula → List Token
  | atom name => [.atom name]
  | not operand =>
    .connective .not :: enclose (operand.needsParentheses .not .right) operand.tokens
  | binary op left right =>
    enclose (left.needsParentheses (.binary op) .left) left.tokens ++
      .connective (.binary op) ::
        enclose (right.needsParentheses (.binary op) .right) right.tokens

def text (formula : Formula) : String := String.ofList (formula.tokens.flatMap Token.spelling)

end Formula

end Sentential
