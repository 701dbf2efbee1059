import Sentential.Symbolic.Token
import Sentential.Text.Blank

/-! Scanning a text for the tokens of a symbolic formula. Spaces, tabs, and line ends before a token
are skipped. A permissive scanner drops every other character that is in no formula, and a strict
one reports it unless it is blank. -/

namespace Sentential.Symbolic

/-- The characters that are skipped before a lexeme. -/
def isSpacing (c : Char) : Bool := c == ' ' || c == '\t' || c == '\n'

/-- The lexeme that a character gives, if any. -/
def lexeme? (strict : Bool) (c : Char) : Option Lexeme :=
  match Token.ofChar? c with
  | some t => some (.token t)
  | none => if strict && !Text.isBlank c then some (.illegal c) else none

/-- A lexeme and the number of characters before it in the text. -/
structure Located where
  lexeme : Lexeme
  offset : Nat
deriving DecidableEq, Repr, Inhabited

/-- The character that is in no formula, with its offset, if the lexeme is one. -/
def Located.illegal? : Located → Option (Char × Nat)
  | ⟨.illegal c, offset⟩ => some (c, offset)
  | ⟨.token _, _⟩ | ⟨.theEnd, _⟩ => none

/-- A text being scanned: the characters still to be read and the number of those read. -/
structure Scanner where
  strict : Bool
  rest : List Char
  offset : Nat
deriving DecidableEq, Repr, Inhabited

theorem isBlank_of_ofChar? {c : Char} {t : Token} (h : Token.ofChar? c = some t) :
    Text.isBlank c = false := by
  have hnone : ∀ code ∈ Text.blanks, Token.ofChar? (Char.ofNat code) = none := by decide
  refine Bool.eq_false_iff.mpr fun hblank => ?_
  have hc := hnone c.toNat (Text.isBlank_iff.mp hblank)
  rw [Char.ofNat_toNat, h] at hc
  cases hc

theorem lexeme?_ne_theEnd (strict : Bool) (c : Char) : lexeme? strict c ≠ some .theEnd := by
  unfold lexeme?
  split
  · simp
  · split <;> simp

theorem lexeme?_of_isSpacing {c : Char} (h : isSpacing c = true) (strict : Bool) :
    lexeme? strict c = none := by
  simp only [isSpacing, Bool.or_eq_true, beq_iff_eq] at h
  rcases h with (rfl | rfl) | rfl <;> cases strict <;> rfl

namespace Scanner

def ofText (strict : Bool) (text : String) : Scanner := ⟨strict, text.toList, 0⟩

/-- The scanner after the spacing that comes first. -/
def skipSpacing (scanner : Scanner) : Scanner where
  strict := scanner.strict
  rest := scanner.rest.dropWhile isSpacing
  offset := scanner.offset + (scanner.rest.takeWhile isSpacing).length

theorem length_skipSpacing {scanner : Scanner} {c : Char} {rest : List Char}
    (h : scanner.skipSpacing.rest = c :: rest) : rest.length < scanner.rest.length := by
  have hle : scanner.skipSpacing.rest.length ≤ scanner.rest.length :=
    (List.dropWhile_sublist _).length_le
  rw [h] at hle
  exact hle

/-- The next lexeme and the scanner after it. Spacing is skipped, and a character that gives no
lexeme is dropped. A scanner at the end stays there. -/
def next (scanner : Scanner) : Located × Scanner :=
  match h : scanner.skipSpacing.rest with
  | [] => (⟨.theEnd, scanner.skipSpacing.offset⟩, scanner.skipSpacing)
  | c :: rest =>
    have := length_skipSpacing h
    let after : Scanner := ⟨scanner.strict, rest, scanner.skipSpacing.offset + 1⟩
    match lexeme? scanner.strict c with
    | some lexeme => (⟨lexeme, scanner.skipSpacing.offset⟩, after)
    | none => after.next
termination_by scanner.rest.length

theorem length_next {scanner : Scanner} (h : scanner.next.1.lexeme ≠ .theEnd) :
    scanner.next.2.rest.length < scanner.rest.length := by
  fun_induction next scanner with
  | case1 scanner hrest => exact absurd rfl h
  | case2 scanner c rest hrest hless after lexeme hlexeme => exact hless
  | case3 scanner c rest hrest hless after hlexeme ih => exact Nat.lt_trans (ih h) hless

/-- All lexemes still to come, without the end. -/
def remaining (scanner : Scanner) : List Located :=
  if h : scanner.next.1.lexeme = .theEnd then []
  else
    have := length_next h
    scanner.next.1 :: scanner.next.2.remaining
termination_by scanner.rest.length

/-- The scanner at the end of its text. -/
def finish (scanner : Scanner) : Scanner :=
  ⟨scanner.strict, [], scanner.offset + scanner.rest.length⟩

theorem finish_skipSpacing (scanner : Scanner) : scanner.skipSpacing.finish = scanner.finish := by
  have hlength := congrArg List.length
    (List.takeWhile_append_dropWhile (p := isSpacing) (l := scanner.rest))
  rw [List.length_append] at hlength
  simp only [finish, skipSpacing, Nat.add_assoc, hlength]

theorem finish_of_nil {scanner : Scanner} (h : scanner.rest = []) : scanner.finish = scanner := by
  obtain ⟨strict, rest, offset⟩ := scanner
  obtain rfl : rest = [] := h
  rfl

theorem finish_of_cons {scanner : Scanner} {c : Char} {rest : List Char}
    (h : scanner.rest = c :: rest) :
    finish ⟨scanner.strict, rest, scanner.offset + 1⟩ = scanner.finish := by
  simp only [finish, h, List.length_cons, Nat.add_assoc, Nat.add_comm 1]

/-- Scanning on does not move the end. -/
theorem finish_next (scanner : Scanner) : scanner.next.2.finish = scanner.finish := by
  fun_induction next scanner with
  | case1 scanner hrest => exact scanner.finish_skipSpacing
  | case2 scanner c rest hrest hless after lexeme hlexeme =>
    exact (finish_of_cons hrest).trans scanner.finish_skipSpacing
  | case3 scanner c rest hrest hless after hlexeme ih =>
    exact ih.trans ((finish_of_cons hrest).trans scanner.finish_skipSpacing)

/-- A scanner that has found the end is at it. -/
theorem next_eq_finish {scanner : Scanner} (h : scanner.next.1.lexeme = .theEnd) :
    scanner.next.2 = scanner.finish := by
  fun_induction next scanner with
  | case1 scanner hrest => exact (finish_of_nil hrest).symm.trans scanner.finish_skipSpacing
  | case2 scanner c rest hrest hless after lexeme hlexeme =>
    have hend : lexeme = .theEnd := h
    exact absurd (hend ▸ hlexeme) (lexeme?_ne_theEnd _ c)
  | case3 scanner c rest hrest hless after hlexeme ih =>
    exact (ih h).trans ((finish_of_cons hrest).trans scanner.finish_skipSpacing)

/-- The scanner after a number of calls of `next`. -/
def after (scanner : Scanner) : Nat → Scanner
  | 0 => scanner
  | calls + 1 => scanner.next.2.after calls

theorem after_finish (scanner : Scanner) (calls : Nat) :
    scanner.finish.after calls = scanner.finish := by
  induction calls with
  | zero => rfl
  | succ calls ih =>
    have hnext : scanner.finish.next.2 = scanner.finish := by
      unfold next
      rfl
    rw [after, hnext, ih]

/-- One call for each lexeme to come and one for the end lead to the end, and no call leads on. -/
theorem after_eq_finish {scanner : Scanner} {calls : Nat} (h : scanner.remaining.length < calls) :
    scanner.after calls = scanner.finish := by
  induction calls generalizing scanner with
  | zero => exact absurd h (Nat.not_lt_zero _)
  | succ calls ih =>
    rw [after]
    by_cases hend : scanner.next.1.lexeme = .theEnd
    · rw [next_eq_finish hend, after_finish]
    · rw [remaining, dif_neg hend, List.length_cons] at h
      rw [ih (Nat.lt_of_succ_lt_succ h), finish_next]

/-- The lexemes in `rest`, which starts at `offset`, one character after the other. -/
def locatedFrom (strict : Bool) : List Char → Nat → List Located
  | [], _ => []
  | c :: rest, offset =>
    match lexeme? strict c with
    | some lexeme => ⟨lexeme, offset⟩ :: locatedFrom strict rest (offset + 1)
    | none => locatedFrom strict rest (offset + 1)

theorem locatedFrom_skipSpacing (scanner : Scanner) :
    locatedFrom scanner.strict scanner.skipSpacing.rest scanner.skipSpacing.offset =
      locatedFrom scanner.strict scanner.rest scanner.offset := by
  obtain ⟨strict, rest, offset⟩ := scanner
  show locatedFrom strict (rest.dropWhile isSpacing)
    (offset + (rest.takeWhile isSpacing).length) = locatedFrom strict rest offset
  induction rest generalizing offset with
  | nil => rfl
  | cons c rest ih =>
    by_cases hc : isSpacing c = true
    · rw [List.dropWhile_cons_of_pos hc, List.takeWhile_cons_of_pos hc, List.length_cons,
        locatedFrom, lexeme?_of_isSpacing hc, ← ih, Nat.add_assoc, Nat.add_comm 1]
    · rw [List.dropWhile_cons_of_neg hc, List.takeWhile_cons_of_neg hc]
      rfl

/-- A scanner that has nothing left is at the end, and any other gives the first of the lexemes to
come and keeps the others. -/
theorem locatedFrom_next (scanner : Scanner) :
    locatedFrom scanner.strict scanner.rest scanner.offset =
      if scanner.next.1.lexeme = .theEnd then []
      else scanner.next.1 ::
        locatedFrom scanner.next.2.strict scanner.next.2.rest scanner.next.2.offset := by
  fun_induction next scanner with
  | case1 scanner hrest => rw [← locatedFrom_skipSpacing, hrest, if_pos rfl, locatedFrom]
  | case2 scanner c rest hrest hless after lexeme hlexeme =>
    have hne : lexeme ≠ .theEnd := fun he => lexeme?_ne_theEnd _ c (he ▸ hlexeme)
    rw [← locatedFrom_skipSpacing, hrest, locatedFrom, hlexeme, if_neg hne]
  | case3 scanner c rest hrest hless after hlexeme ih =>
    rw [← locatedFrom_skipSpacing, hrest, locatedFrom, hlexeme]
    exact ih

/-- The lexemes to come are those that the characters give one after the other. -/
theorem remaining_eq (scanner : Scanner) :
    scanner.remaining = locatedFrom scanner.strict scanner.rest scanner.offset := by
  fun_induction remaining scanner with
  | case1 scanner h => rw [locatedFrom_next, if_pos h]
  | case2 scanner h hless ih => rw [locatedFrom_next, if_neg h, ih]

end Scanner

/-- The lexemes of a text with their offsets. -/
def located (strict : Bool) (text : String) : List Located := (Scanner.ofText strict text).remaining

theorem located_eq (strict : Bool) (text : String) :
    located strict text = Scanner.locatedFrom strict text.toList 0 :=
  (Scanner.ofText strict text).remaining_eq

/-- The tokens of a text, other characters dropped. -/
def tokenize (text : String) : List Token := text.toList.filterMap Token.ofChar?

end Sentential.Symbolic
