import Sentential.Glossary
import Sentential.Symbolic.Writer
import Sentential.Text.Blank
import Sentential.Text.Lowercase
import Sentential.Text.Pattern

/-! Guessing a formula for a Portuguese sentence by the words that mark its parts. The shapes of
sentences are tried in order: two sides of `se e somente se`, a condition between `se` and `então`
with what follows from it, parts joined by `e` or by `ou`, a negation, and last one atom. -/

namespace Sentential

open Symbolic Text

/-- A formula over the letters from `P` on, with a part of the sentence for each. -/
structure Guess where
  formula : Formula
  parts : List (Char × List Char)
deriving DecidableEq, Repr, Inhabited

namespace Guess

def meanings (guess : Guess) : Glossary := Glossary.ofList (guess.parts.map Glossary.entryOf)

variable {text : List Char} {guess : Guess} {op : Binary} {parts : List (Char × List Char)}

/-- The letters of the atoms in order. -/
def letters : List Char := ['P', 'Q', 'R', 'S']

/-- A formula that joins two atoms. -/
def joining (op : Binary) (first second : List Char) : Guess :=
  ⟨.binary op (.atom 'P') (.atom 'Q'), [('P', first), ('Q', second)]⟩

theorem text_joining (op : Binary) (first second : List Char) :
    (joining op first second).formula.text =
      "P " ++ String.singleton (Connective.binary op).symbol ++ " Q" := by
  cases op <;> rfl

def iffWords : Pattern := .word "se e somente se"

def ifWord : Pattern := .word "se "

def thenWord : Pattern := .word "então"

def andWord : Pattern := .word " e "

def orWord : Pattern := .word " ou "

def notWord : Pattern := .word "não "

def isCommaOrBlank (c : Char) : Bool := c == ',' || isBlank c

/-- The text without `se` and a blank after it at its start. -/
def withoutIf : List Char → List Char
  | 's' :: 'e' :: c :: rest => if isBlank c then c :: rest else 's' :: 'e' :: c :: rest
  | text => text

/-- A text, or what stands for it if it is empty. -/
def orElse (text : List Char) (instead : String) : List Char :=
  if text.isEmpty then instead.toList else text

/-- The two sides of `se e somente se`, up to where the words occur again. -/
def biconditional? (sentence : List Char) : Option Guess :=
  (iffWords.cut? sentence).map fun (left, rest) =>
    let right := match iffWords.cut? rest with
      | some (right, _) => right
      | none => rest
    joining .iff (orElse (trim (withoutIf left)) "proposição P")
      (orElse (trim (right.dropWhile isCommaOrBlank)) "proposição Q")

theorem text_biconditional (h : biconditional? text = some guess) :
    guess.formula.text = "P ↔ Q" := by
  obtain ⟨sides, -, rfl⟩ := Option.map_eq_some_iff.mp h
  exact (text_joining .iff _ _).trans (by decide)

/-- The condition after the first `se` and what follows from it after the first `então`, which has
to come later. -/
def conditional? (sentence : List Char) : Option Guess :=
  match ifWord.cut? sentence, thenWord.cut? sentence with
  | some (beforeIf, _), some (beforeThen, afterThen) =>
    if beforeIf.length < beforeThen.length then
      let condition := beforeThen.drop (beforeIf.length + ifWord.length)
      some (joining .implies (stripWhile isCommaOrBlank condition) (trim afterThen))
    else none
  | _, _ => none

theorem text_conditional (h : conditional? text = some guess) : guess.formula.text = "P → Q" := by
  unfold conditional? at h
  split at h
  · split at h
    · cases h
      exact (text_joining .implies _ _).trans (by decide)
    · cases h
  · cases h

/-- A formula that is joined with the atoms of the parts from left to right. -/
def joined (op : Binary) (f : Formula) (parts : List (Char × List Char)) : Formula :=
  parts.foldl (fun left part => .binary op left (.atom part.1)) f

/-- The atoms of the parts, joined from left to right. -/
def chain (op : Binary) : List (Char × List Char) → Option Guess
  | [] => none
  | (atom, part) :: others => some ⟨joined op (.atom atom) others, (atom, part) :: others⟩

theorem chain_cases (h : chain op parts = some guess) :
    ∃ part others, parts = part :: others ∧ guess = ⟨joined op (.atom part.1) others, parts⟩ := by
  cases parts with
  | nil => cases h
  | cons part others => exact ⟨part, others, rfl, (Option.some.inj h).symm⟩

theorem joined_cons (op : Binary) (f : Formula) (part : Char × List Char)
    (parts : List (Char × List Char)) :
    joined op f (part :: parts) = joined op (.binary op f (.atom part.1)) parts := rfl

theorem leaves_joined (f : Formula) (parts : List (Char × List Char)) :
    (joined op f parts).leaves = f.leaves ++ parts.map (·.1) := by
  induction parts generalizing f with
  | nil => simp [joined]
  | cons part parts ih =>
    rw [joined_cons, ih]
    simp [Formula.leaves]

theorem depth_joined (f : Formula) (parts : List (Char × List Char)) :
    (joined op f parts).depth = f.depth + parts.length := by
  induction parts generalizing f with
  | nil => rfl
  | cons part parts ih =>
    have := f.depth_pos
    rw [joined_cons, ih]
    simp only [Formula.depth, List.length_cons]
    omega

/-- A chain that grows at its right end is written without parentheses. -/
theorem tokens_joined (hop : op.rightAssociative = false) {f : Formula}
    (hf : (Connective.binary op).precedence ≤ f.precedence) (parts : List (Char × List Char)) :
    (joined op f parts).tokens =
      f.tokens ++ parts.flatMap fun part => [.connective (.binary op), .atom part.1] := by
  induction parts generalizing f with
  | nil => simp [joined]
  | cons part parts ih =>
    have hleft : f.needsParentheses (.binary op) .left = false := by
      simp [Formula.needsParentheses, Connective.rightAssociative, hop, Nat.not_lt.mpr hf]
    have hright : (Formula.atom part.1).needsParentheses (.binary op) .right = false := by
      cases op <;> rfl
    rw [joined_cons, ih (Nat.le_refl _), Formula.tokens, hleft, hright]
    simp [enclose, Formula.tokens]

/-- Characters with a text between them. -/
theorem intercalate_letters (separator : List Char) (letter : Char)
    (parts : List (Char × List Char)) :
    List.intercalate separator ([letter] :: parts.map fun part => [part.1]) =
      letter :: parts.flatMap fun part => separator ++ [part.1] := by
  induction parts generalizing letter with
  | nil => rfl
  | cons part parts ih =>
    rw [List.map_cons, List.intercalate_cons_cons, ih]
    simp

/-- The text of a chain is its letters with the symbol between them. -/
theorem text_chain (hop : op.rightAssociative = false) (h : chain op parts = some guess) :
    guess.formula.text = (String.ofList (Token.connective (.binary op)).spelling).intercalate
      (guess.parts.map fun part => String.singleton part.1) := by
  obtain ⟨part, others, rfl, rfl⟩ := chain_cases h
  let separator := (Token.connective (.binary op)).spelling
  have htokens := tokens_joined hop (f := .atom part.1) (Connective.precedence_le _) others
  have hspelling : (joined op (.atom part.1) others).tokens.flatMap Token.spelling =
      part.1 :: others.flatMap fun part => separator ++ [part.1] := by
    rw [htokens, List.flatMap_append, List.flatMap_assoc]
    simp only [List.flatMap_cons, List.flatMap_nil, List.append_nil]
    rfl
  apply String.toList_inj.mp
  rw [Formula.text, hspelling, ← intercalate_letters, String.toList_intercalate]
  simp [separator, Function.comp_def]

/-- The first four parts between a word that are not blank. -/
def partsBetween (word : Pattern) (nonempty : 0 < word.length) (sentence : List Char) :
    List (List Char) :=
  (((word.split nonempty sentence).map trim).filter (!·.isEmpty)).take letters.length

/-- The parts joined by `e`, or else the parts joined by `ou`. -/
def junction? (sentence : List Char) : Option Guess :=
  if andWord.occursIn sentence then
    chain .and (letters.zip (partsBetween andWord (by decide) sentence))
  else if orWord.occursIn sentence then
    chain .or (letters.zip (partsBetween orWord (by decide) sentence))
  else none

theorem junction_cases (h : junction? text = some guess) :
    (andWord.occursIn text = true ∧
      chain .and (letters.zip (partsBetween andWord (by decide) text)) = some guess) ∨
    (andWord.occursIn text = false ∧ orWord.occursIn text = true ∧
      chain .or (letters.zip (partsBetween orWord (by decide) text)) = some guess) := by
  unfold junction? at h
  split at h
  · next hand => exact .inl ⟨hand, h⟩
  · next hand =>
    split at h
    · next hor => exact .inr ⟨Bool.eq_false_iff.mpr hand, hor, h⟩
    · cases h

theorem text_junction (h : junction? text = some guess) :
    guess.formula.text = (if andWord.occursIn text then " ∧ " else " ∨ ").intercalate
      (guess.parts.map fun part => String.singleton part.1) := by
  have hconjunction : String.ofList (Token.connective (.binary .and)).spelling = " ∧ " := by decide
  have hdisjunction : String.ofList (Token.connective (.binary .or)).spelling = " ∨ " := by decide
  obtain ⟨hand, hchain⟩ | ⟨hand, -, hchain⟩ := junction_cases h
  · rw [text_chain rfl hchain, hconjunction, if_pos hand]
  · rw [text_chain rfl hchain, hdisjunction, if_neg (by simp [hand])]

/-- What follows `não` at the start. -/
def negation? (sentence : List Char) : Option Guess :=
  (notWord.after? sentence).map fun rest => ⟨.not (.atom 'P'), [('P', trimStart rest)]⟩

theorem text_negation (h : negation? text = some guess) : guess.formula.text = "¬P" := by
  obtain ⟨rest, -, rfl⟩ := Option.map_eq_some_iff.mp h
  rfl

/-- The sentence in the form in which its words are looked for. -/
def normal (sentence : String) : List Char := lower (trim sentence.toList)

def ofSentence (sentence : String) : Guess :=
  let text := normal sentence
  biconditional? text <|> conditional? text <|> junction? text <|> negation? text
    |>.getD ⟨.atom 'P', [('P', text)]⟩

end Guess

end Sentential
