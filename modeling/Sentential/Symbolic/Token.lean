import Sentential.Formula

/-! The tokens of symbolic formulas. Each is written with one character: the letters `A` to `Z` are
atoms, and the connectives and parentheses are themselves. -/

namespace Sentential.Symbolic

/-- A token of a symbolic formula. A scanned atom is a letter from `A` to `Z`. -/
inductive Token where
  | atom (name : Char)
  | connective (c : Connective)
  | opening
  | closing
deriving DecidableEq, Repr, Inhabited

namespace Token

/-- The letters that name atoms in symbolic formulas. -/
def isLetter (c : Char) : Bool := 'A' ≤ c && c ≤ 'Z'

/-- The token that a character stands for, if it is in the alphabet of symbolic formulas. -/
def ofChar? (c : Char) : Option Token :=
  match Connective.all.find? (·.symbol = c) with
  | some op => some (connective op)
  | none =>
    if c = '(' then some opening
    else if c = ')' then some closing
    else if isLetter c then some (atom c)
    else none

def symbol : Token → Char
  | atom name => name
  | connective c => c.symbol
  | opening => '('
  | closing => ')'

def text (token : Token) : String := String.singleton token.symbol

/-- The character of a token is the one that it was read from. -/
theorem symbol_ofChar? {c : Char} {token : Token} (h : ofChar? c = some token) :
    token.symbol = c := by
  unfold ofChar? at h
  split at h
  · next op hop =>
    obtain rfl := Option.some.inj h
    simpa [symbol] using List.find?_some hop
  · split at h
    · next hc => obtain rfl := Option.some.inj h; exact hc.symm
    · split at h
      · next hc => obtain rfl := Option.some.inj h; exact hc.symm
      · split at h
        · obtain rfl := Option.some.inj h; rfl
        · simp at h

@[simp] theorem ofChar?_connective (c : Connective) :
    ofChar? (connective c).symbol = some (connective c) := by
  rcases c with _ | op
  · decide
  · cases op <;> decide

@[simp] theorem ofChar?_opening : ofChar? '(' = some opening := by decide

@[simp] theorem ofChar?_closing : ofChar? ')' = some closing := by decide

/-- The character of a letter's token is read back as that token. -/
theorem ofChar?_atom {name : Char} (h : isLetter name = true) :
    ofChar? name = some (atom name) := by
  have hn : name.toNat ≤ 90 := by
    simp only [isLetter, Bool.and_eq_true, decide_eq_true_eq] at h
    exact h.2
  have h65 : 65 ≤ name.toNat := by
    simp only [isLetter, Bool.and_eq_true, decide_eq_true_eq] at h
    exact h.1
  have hne : ∀ d : Char, d.toNat < 65 ∨ 90 < d.toNat → d ≠ name := by
    rintro d hd rfl
    omega
  unfold ofChar?
  rw [List.find?_eq_none.mpr (fun c _ => ?_)]
  · have h1 := hne '(' (by decide)
    have h2 := hne ')' (by decide)
    simp [h1.symm, h2.symm, h]
  · rcases c with _ | op
    · simpa using hne _ (by decide)
    · cases op <;> simpa using hne _ (by decide)

end Token

/-- What a scanner finds in a text: a token, a character that is in no formula, or the end. -/
inductive Lexeme where
  | token (t : Token)
  | illegal (c : Char)
  | theEnd
deriving DecidableEq, Repr, Inhabited

/-- The token that a lexeme is, if it is one. -/
def Lexeme.token? : Lexeme → Option Token
  | token t => some t
  | illegal _ | theEnd => none

/-- How messages show a lexeme. -/
def Lexeme.text : Lexeme → String
  | token t => t.text
  | illegal c => "ILLEGAL(" ++ String.singleton c ++ ")"
  | theEnd => "EOF"

end Sentential.Symbolic
