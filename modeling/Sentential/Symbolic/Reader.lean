import Sentential.Symbolic.Fault
import Sentential.Symbolic.Scanner

/-! Reading a formula from tokens. A phrase of the level of a connective is built with that
connective and with those that bind tighter:

    unary         ::= "¬" unary | "(" biconditional ")" | ATOM
    conjunction   ::= conjunction "∧" unary | unary
    disjunction   ::= disjunction "∨" conjunction | conjunction
    implication   ::= disjunction "→" implication | disjunction
    biconditional ::= biconditional "↔" implication | implication

A formula is a biconditional. Two counts are limited: the depth of the formula, and the nesting,
which is the number of negations, parentheses, and right sides of `→` that are open at once. The
limit is an argument of the readers of phrases, and texts are read with `levelLimit`. -/

namespace Sentential.Symbolic

/-- The greatest depth of a formula that is read, and the greatest nesting. -/
def levelLimit : Nat := 256

/-- The tokens still to be read, the number of those read, and the number of levels entered and not
left. -/
structure State where
  rest : List Token
  position : Nat
  nesting : Nat
deriving DecidableEq, Repr, Inhabited

/-- The state with one level fewer open. -/
def State.leave (s : State) : State := { s with nesting := s.nesting - 1 }

/-- A formula that was read, with its depth. -/
structure Phrase where
  formula : Formula
  depth : Nat
deriving DecidableEq, Repr, Inhabited

namespace Phrase

def atom (name : Char) : Phrase := ⟨.atom name, 1⟩

def not (operand : Phrase) : Phrase := ⟨.not operand.formula, operand.depth + 1⟩

def binary (op : Binary) (left right : Phrase) : Phrase :=
  ⟨.binary op left.formula right.formula, 1 + max left.depth right.depth⟩

end Phrase

/-- The result of reading a phrase from `size` tokens: the phrase and the state after it, with fewer
tokens left, or a fault and the state in which it was found. -/
inductive Outcome (size : Nat) where
  | done (phrase : Phrase) (after : State) (shorter : after.rest.length < size)
  | fault (cause : Fault) (found : State)

/-- A phrase whose last level was just read, unless it is too deep. -/
def Outcome.ofPhrase {size : Nat} (limit : Nat) (phrase : Phrase) (after : State)
    (shorter : after.rest.length < size) : Outcome size :=
  if limit < phrase.depth then fault (.tooDeep limit) after
  else done phrase after shorter

mutual

/-- Reads the longest phrase of a level that starts the tokens. -/
def State.read (limit : Nat) (level : Connective) (s : State) : Outcome s.rest.length :=
  match level, s with
  | .not, ⟨[], p, k⟩ => .fault .unexpectedEnd ⟨[], p, k⟩
  | .not, ⟨.atom name :: rest, p, k⟩ => .done (.atom name) ⟨rest, p + 1, k⟩ (Nat.lt_add_one _)
  | .not, ⟨.connective .not :: rest, p, k⟩ =>
    if limit < k + 1 then .fault (.tooDeep limit) ⟨rest, p + 1, k + 1⟩
    else match State.read limit .not ⟨rest, p + 1, k + 1⟩ with
      | .fault cause found => .fault cause found
      | .done operand after shorter =>
        .ofPhrase limit operand.not after.leave (Nat.lt_succ_of_lt shorter)
  | .not, ⟨.opening :: rest, p, k⟩ =>
    if limit < k + 1 then .fault (.tooDeep limit) ⟨rest, p + 1, k + 1⟩
    else match State.read limit (.binary .iff) ⟨rest, p + 1, k + 1⟩ with
      | .fault cause found => .fault cause found
      | .done inner ⟨.closing :: rest, p, k⟩ shorter =>
        .done inner ⟨rest, p + 1, k - 1⟩ (Nat.lt_succ_of_lt (Nat.lt_of_succ_lt shorter))
      | .done _ ⟨[], p, k⟩ _ => .fault (.mismatch .closing .theEnd p) ⟨[], p, k⟩
      | .done _ ⟨found :: rest, p, k⟩ _ =>
        .fault (.mismatch .closing (.token found) p) ⟨found :: rest, p, k⟩
  | .not, ⟨.closing :: rest, p, k⟩ => .fault (.invalidAtom .closing p) ⟨rest, p + 1, k⟩
  | .not, ⟨.connective (.binary op) :: rest, p, k⟩ =>
    .fault (.invalidAtom (.connective (.binary op)) p) ⟨rest, p + 1, k⟩
  | .binary op, s =>
    match State.read limit op.tighter s with
    | .fault cause found => .fault cause found
    | .done left after shorter => State.extend limit op left after shorter
termination_by s.rest.length * 6 + (5 - level.precedence)
decreasing_by
  · simp only [List.length_cons]; omega
  · simp only [List.length_cons]; omega
  · have := op.precedence_tighter
    have := op.tighter.precedence_le
    omega
  · omega

/-- Extends a phrase by what is left of a chain of `op`. -/
def State.extend {size : Nat} (limit : Nat) (op : Binary) (left : Phrase) (s : State)
    (shorter : s.rest.length < size) : Outcome size :=
  match s, shorter with
  | ⟨.connective (.binary other) :: rest, p, k⟩, shorter =>
    if other ≠ op then .done left ⟨.connective (.binary other) :: rest, p, k⟩ shorter
    else if op.rightAssociative then
      if limit < k + 1 then .fault (.tooDeep limit) ⟨rest, p + 1, k + 1⟩
      else match State.read limit (.binary op) ⟨rest, p + 1, k + 1⟩ with
        | .fault cause found => .fault cause found
        | .done right after less =>
          .ofPhrase limit (.binary op left right) after.leave
            (Nat.lt_trans less (Nat.lt_of_succ_lt shorter))
    else match State.read limit op.tighter ⟨rest, p + 1, k⟩ with
      | .fault cause found => .fault cause found
      | .done right after less =>
        if limit < (Phrase.binary op left right).depth then
          .fault (.tooDeep limit) after
        else
          State.extend limit op (.binary op left right) after
            (Nat.lt_trans less (Nat.lt_of_succ_lt shorter))
  | s, shorter => .done left s shorter
termination_by s.rest.length * 6 + 5
decreasing_by
  · simp only [List.length_cons]; omega
  · simp only [List.length_cons]; omega
  · simp only [List.length_cons] at less ⊢; omega

end

/-- Reads the tokens as one formula. Tokens after the formula are a fault, and stay to be read. -/
def State.parse (limit : Nat) (s : State) : Except Fault Formula × State :=
  match s.read limit (.binary .iff) with
  | .fault cause found => (.error cause, found)
  | .done _ ⟨found :: rest, p, k⟩ _ => (.error (.trailing found p), ⟨found :: rest, p, k⟩)
  | .done phrase after _ => (.ok phrase.formula, after)

/-- The tokens of a text being read, and the first character in the text that is in no formula,
which keeps every formula from being read. -/
structure Reader where
  illegal : Option (Char × Nat)
  state : State
deriving DecidableEq, Repr, Inhabited

namespace Reader

def ofLocated (lexemes : List Located) : Reader where
  illegal := lexemes.findSome? Located.illegal?
  state := ⟨lexemes.filterMap (·.lexeme.token?), 0, 0⟩

/-- A reader of lexemes that are counted where a text would count characters. Ends among the
lexemes do not count. -/
def ofLexemes (lexemes : List Lexeme) : Reader :=
  ofLocated (((lexemes.filter (· ≠ .theEnd)).zipIdx).map fun entry => ⟨entry.1, entry.2⟩)

def ofText (strict : Bool) (text : String) : Reader := ofLocated (located strict text)

/-- Reads one formula, and stops after it or at the fault. -/
def parse (reader : Reader) : Except Fault Formula × Reader :=
  match reader.illegal with
  | some (c, offset) => (.error (.illegalCharacter c offset), reader)
  | none =>
    let (result, state) := reader.state.parse levelLimit
    (result, { reader with state })

end Reader

end Sentential.Symbolic

namespace Sentential

/-- The formula that a text is in symbols. A strict reading refuses characters that are in no
formula and are not blank, and any other reading drops them. -/
def Formula.ofText (strict : Bool) (text : String) : Except Symbolic.Fault Formula :=
  (Symbolic.Reader.ofText strict text).parse.1

end Sentential
