import Sentential.Sentence

/-! Sentences as lists of words. A sentence is spelled from the words of its formula, and a spelling
in which each atom is said by its placeholder is read back: the first characters of what is left
decide on the next word. -/

namespace Sentential

/-- A word of a sentence. A premise starts with "se", and the word that joins it to its conclusion
is that of `→`. -/
inductive Word where
  | atom (name : Char)
  | not
  | premise
  | join (op : Binary)
  | opening
  | closing
deriving DecidableEq

namespace Word

/-- The characters of a word, with the blanks around it, given what is said for each atom. -/
def spelling (say : Char → List Char) : Word → List Char
  | atom name => say name
  | not => ['n', 'ã', 'o', ' ']
  | premise => ['s', 'e', ' ']
  | join .and => [' ', 'e', ' ']
  | join .or => [' ', 'o', 'u', ' ']
  | join .implies => [',', ' ', 'e', 'n', 't', 'ã', 'o', ' ']
  | join .iff =>
    [' ', 's', 'e', ' ', 'e', ' ', 's', 'o', 'm', 'e', 'n', 't', 'e', ' ', 's', 'e', ' ']
  | opening => ['(']
  | closing => [')']

theorem spelling_not (say : Char → List Char) :
    not.spelling say = Connective.not.word.toList ++ [' '] := rfl

theorem spelling_premise (say : Char → List Char) : premise.spelling say = "se ".toList := rfl

theorem spelling_join (say : Char → List Char) {op : Binary} (hop : op ≠ .implies) :
    (join op).spelling say = ' ' :: (Connective.binary op).word.toList ++ [' '] := by
  cases op with
  | implies => exact absurd rfl hop
  | and | or | iff => rfl

theorem spelling_implies (say : Char → List Char) :
    (join .implies).spelling say =
      ", ".toList ++ (Connective.binary .implies).word.toList ++ [' '] := rfl

/-- Words in parentheses if the connective around them binds more tightly. -/
def enclose (outer : Connective) (precedence : Nat) (words : List Word) : List Word :=
  if precedence < outer.precedence then opening :: words ++ [closing] else words

/-- The word that starts the phrase of a connective before its first operand. -/
def lead : Binary → List Word
  | .implies => [premise]
  | .and | .or | .iff => []

theorem lead_eq_nil {op : Binary} (hop : op ≠ .implies) : lead op = [] := by
  cases op with
  | implies => exact absurd rfl hop
  | and | or | iff => rfl

/-- The first word of a text, with what follows it. The length of a placeholder does not depend on
its atom. -/
def first? : List Char → Option (Word × List Char)
  | '(' :: rest => some (opening, rest)
  | ')' :: rest => some (closing, rest)
  | 'n' :: rest => some (not, rest.drop 3)
  | 's' :: rest => some (premise, rest.drop 2)
  | ',' :: rest => some (join .implies, rest.drop 7)
  | ' ' :: 'e' :: rest => some (join .and, rest.drop 1)
  | ' ' :: 'o' :: rest => some (join .or, rest.drop 2)
  | ' ' :: 's' :: rest => some (join .iff, rest.drop 15)
  | 'p' :: rest => (rest.drop 10).head?.map fun name => (atom name, rest.drop 11)
  | _ => none

theorem first?_spelling (w : Word) (rest : List Char) :
    first? (w.spelling (fun name => (placeholder name).toList) ++ rest) = some (w, rest) := by
  cases w with
  | atom name =>
    have hsaid : (placeholder name).toList = "proposição ".toList ++ [name] := by
      rw [placeholder, String.toList_append, String.toList_singleton]
    show first? ((placeholder name).toList ++ rest) = _
    rw [hsaid]
    rfl
  | join op => cases op <;> rfl
  | not | premise | opening | closing => rfl

theorem spelling_injective {ws vs : List Word}
    (h : ws.flatMap (spelling fun name => (placeholder name).toList) =
      vs.flatMap (spelling fun name => (placeholder name).toList)) : ws = vs := by
  induction ws generalizing vs with
  | nil =>
    cases vs with
    | nil => rfl
    | cons v vs =>
      have hv := first?_spelling v (vs.flatMap (spelling fun name => (placeholder name).toList))
      rw [← List.flatMap_cons, ← h] at hv
      cases hv
  | cons w ws ih =>
    have hw := first?_spelling w (ws.flatMap (spelling fun name => (placeholder name).toList))
    rw [← List.flatMap_cons, h] at hw
    cases vs with
    | nil => cases hw
    | cons v vs =>
      rw [List.flatMap_cons, first?_spelling] at hw
      obtain ⟨rfl, hrest⟩ := Prod.mk.inj (Option.some.inj hw)
      rw [ih hrest.symm]

end Word

namespace Formula

/-- The words of the sentence for a formula. -/
def words : Formula → List Word
  | atom name => [.atom name]
  | not operand => .not :: Word.enclose .not operand.precedence operand.words
  | binary op left right =>
    Word.lead op ++ Word.enclose (.binary op) left.precedence left.words ++
      .join op :: Word.enclose (.binary op) right.precedence right.words

theorem spelling_enclose (say : Char → List Char) (outer : Connective) (precedence : Nat)
    (words : List Word) :
    (Word.enclose outer precedence words).flatMap (Word.spelling say) =
      within outer precedence (words.flatMap (Word.spelling say)) := by
  rw [Word.enclose, within]
  split
  · rw [List.flatMap_append, List.flatMap_cons]
    rfl
  · rfl

/-- A phrase is spelled from its words. -/
theorem phrase_eq (say : Char → List Char) (f : Formula) :
    f.phrase say = f.words.flatMap (Word.spelling say) := by
  induction f with
  | atom name =>
    rw [words, List.flatMap_singleton]
    rfl
  | not f ih =>
    rw [words, List.flatMap_cons, spelling_enclose, ← ih, Word.spelling_not, phrase_not,
      List.append_assoc, List.singleton_append]
  | binary op f g ihf ihg =>
    rw [words, List.flatMap_append, List.flatMap_append, List.flatMap_cons, spelling_enclose,
      spelling_enclose, ← ihf, ← ihg]
    by_cases hop : op = .implies
    · subst hop
      rw [phrase_implies, Word.spelling_implies]
      simp only [Word.lead, List.flatMap_singleton, Word.spelling_premise, List.append_assoc,
        List.cons_append, List.nil_append]
    · rw [phrase_binary say hop, Word.spelling_join say hop, Word.lead_eq_nil hop,
        List.flatMap_nil]
      simp only [List.append_assoc, List.cons_append, List.nil_append]

end Formula

end Sentential
