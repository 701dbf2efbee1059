import Sentential.Answer
import Sentential.Symbolic.Scanner

/-! Answers are read back. The first heading of a composed answer is its own, whatever the meanings
say, so the formula is recovered in any case. The heading of the meanings is its own as well if the
formula does not contain one, and then each line gives its entry. -/

namespace Sentential

open Symbolic Text

namespace Answer

/-- The text fits on one line between blanks: it has characters, no line ends, and no blank at
either end. -/
structure Inline (text : List Char) : Prop where
  nonempty : text ≠ []
  trimmed : Trimmed text
  oneLine : '\n' ∉ text

/-- Each key is a letter, and each meaning fits on one line. -/
def Plain (entries : List (String × String)) : Prop :=
  ∀ entry ∈ entries, ∃ letter, Token.isLetter letter = true ∧
    entry.1 = String.singleton letter ∧ Inline entry.2.toList

def entryLine (entry : String × String) : List Char :=
  entry.1.toList ++ ':' :: ' ' :: entry.2.toList

variable {formula : String} {text rest : List Char} {c : Char}
  {entry : String × String} {entries : List (String × String)}

namespace Inline

instance : Decidable (Inline text) :=
  decidable_of_iff (text ≠ [] ∧ Trimmed text ∧ '\n' ∉ text)
    ⟨fun ⟨h1, h2, h3⟩ => ⟨h1, h2, h3⟩, fun h => ⟨h.nonempty, h.trimmed, h.oneLine⟩⟩

theorem trimStart_append (h : Inline text) (rest : List Char) :
    trimStart (text ++ rest) = text ++ rest := by
  apply dropWhile_eq_self
  intro c hc
  obtain ⟨first, others, rfl⟩ := List.exists_cons_of_ne_nil h.nonempty
  exact h.trimmed.1 c hc

theorem takeWhile_line (h : Inline text) (rest : List Char) :
    (text ++ '\n' :: rest).takeWhile (· ≠ '\n') = text := by
  have hline : ∀ c ∈ text, decide (c ≠ '\n') = true :=
    fun c hc => decide_eq_true fun he => h.oneLine (he ▸ hc)
  rw [List.takeWhile_append_of_pos hline]
  simp

end Inline

theorem toList_compose (formula : String) (propositions : Glossary) :
    (compose formula propositions).toList =
      "Fórmula:".toList ++ ' ' :: (formula.toList ++ '\n' :: ("Proposições:".toList ++
        '\n' :: List.intercalate ['\n'] (propositions.entries.map entryLine))) := by
  have hlines (line : String × String → String)
      (h : ∀ entry, line entry = entry.1 ++ ": " ++ entry.2) :
      (propositions.entries.map line).map String.toList = propositions.entries.map entryLine := by
    rw [List.map_map]
    refine List.map_congr_left fun entry _ => ?_
    simp [entryLine, h]
  simp only [compose, String.toList_append, String.toList_intercalate]
  rw [hlines _ fun entry => rfl]
  simp

/-- The formula of an answer is recovered with any meanings. -/
theorem formulaIn?_compose (h : Inline formula.toList) (propositions : Glossary) :
    formulaIn? (compose formula propositions).toList = some formula := by
  have hnonempty : formula.toList.isEmpty = false := by simpa using h.nonempty
  -- The answer starts with the heading, so no heading in the formula or in a meaning comes first.
  have hheading (rest : List Char) :
      formulaHeading.cut? ("Fórmula:".toList ++ ' ' :: rest) = some ([], ' ' :: rest) := rfl
  have hspace (rest : List Char) : trimStart (' ' :: rest) = trimStart rest := rfl
  rw [formulaIn?, toList_compose, hheading]
  dsimp only [Option.bind_some]
  rw [hspace, h.trimStart_append, h.takeWhile_line, trim_eq_self h.trimmed, hnonempty,
    String.ofList_toList]
  rfl

/-- A text without a colon contains no heading. -/
theorem not_accepts_of_not_mem (h : ':' ∉ text) :
    ∀ part, part <:+: text → ¬propositionsHeading.Accepts part := by
  intro part hpart haccepts
  obtain ⟨c, hc, hcolon⟩ := Pattern.exists_mem_of_accepts haccepts
    (by decide : [':'] ∈ propositionsHeading)
  obtain rfl : c = ':' := by simpa using hcolon
  exact h (hpart.subset hc)

/-- The meanings of an answer start after its second line, unless the formula has a heading. -/
theorem cut?_compose (h : ∀ part, part <:+: formula.toList → ¬propositionsHeading.Accepts part)
    (propositions : Glossary) :
    ∃ before, propositionsHeading.cut? (compose formula propositions).toList =
      some (before, '\n' :: List.intercalate ['\n'] (propositions.entries.map entryLine)) := by
  have hformula : propositionsHeading.cut? formula.toList = none := Pattern.cut?_eq_none h
  -- A heading has no space and no line end in it, so one in the first line would be in the formula.
  have hline : propositionsHeading.cut? ("Fórmula:".toList ++ ' ' :: formula.toList) = none := by
    rw [Pattern.cut?_append_cons (by decide) (by decide), hformula]
    rfl
  have hheading (rest : List Char) :
      propositionsHeading.cut? ("Proposições:".toList ++ rest) = some ([], rest) := rfl
  refine ⟨"Fórmula:".toList ++ ' ' :: formula.toList ++ ['\n'], ?_⟩
  rw [toList_compose, ← List.cons_append, ← List.append_assoc,
    Pattern.cut?_append_cons (by decide) hline, hheading]
  rfl

theorem isBlank_of_isLetter (h : Token.isLetter c = true) : isBlank c = false :=
  isBlank_of_ofChar? (Token.ofChar?_atom h)

/-- The line of a letter gives what follows the colon, unless that is blank. -/
theorem entryIn?_trim {letter : Char} (hletter : Token.isLetter letter = true) (line : List Char) :
    entryIn? (trim (letter :: ':' :: ' ' :: line)) =
      if (trim line).isEmpty then none else some (letter, trim line) := by
  have hblank : ¬isBlank letter = true := by simp [isBlank_of_isLetter hletter]
  have hspace : trim (' ' :: line) = trim line := rfl
  have htrim : trim (letter :: ':' :: ' ' :: line) = letter :: ':' :: trimEnd (' ' :: line) := by
    rw [trim, stripWhile, List.dropWhile_cons_of_neg hblank, dropEndWhile_cons,
      if_neg fun h => hblank h.2, dropEndWhile_cons, if_neg fun h => absurd h.2 (by decide)]
    rfl
  have hcolon (rest : List Char) : trimStart (':' :: rest) = ':' :: rest := rfl
  rw [htrim, entryIn?, if_pos hletter, hcolon]
  show (if (trimStart (trimEnd (' ' :: line))).isEmpty then none
    else some (letter, trimStart (trimEnd (' ' :: line)))) = _
  rw [trimStart_trimEnd, hspace]

/-- The key of each entry is a letter, and the entry has the property. -/
def Lettered (p : String × String → Prop) (entries : List (String × String)) : Prop :=
  ∀ entry ∈ entries, ∃ letter, Token.isLetter letter = true ∧
    entry.1 = String.singleton letter ∧ p entry

/-- No line of the meaning after its first gives a meaning. -/
def Quiet (entry : String × String) : Prop :=
  ∀ line ∈ (lines entry.2.toList).tail, entryIn? (trim line) = none

/-- The first line of a text without the blanks at its ends. -/
def firstLine (text : String) : String :=
  String.ofList (trim (text.toList.takeWhile (· ≠ '\n')))

theorem trimStart_lines {p : String × String → Prop} (h : Lettered p entries) :
    trimStart ('\n' :: List.intercalate ['\n'] (entries.map entryLine)) =
      List.intercalate ['\n'] (entries.map entryLine) := by
  cases entries with
  | nil => rfl
  | cons entry entries =>
    obtain ⟨letter, hletter, hkey, -⟩ := h entry List.mem_cons_self
    obtain ⟨rest, hrest⟩ : ∃ rest, List.intercalate ['\n'] ((entry :: entries).map entryLine) =
        letter :: rest := by
      cases entries <;> simp [entryLine, hkey]
    have hblank : ¬isBlank letter = true := by simp [isBlank_of_isLetter hletter]
    rw [hrest]
    exact List.dropWhile_cons_of_neg hblank

/-- The lines of an entry give the first line of its meaning, unless that is blank. -/
theorem entries_of_entryLine {letter : Char} (hletter : Token.isLetter letter = true)
    (hkey : entry.1 = String.singleton letter) (hquiet : Quiet entry) :
    entriesIn (lines (entryLine entry)) =
      if (firstLine entry.2).isEmpty then [] else [(entry.1, firstLine entry.2)] := by
  obtain ⟨others, hlines, -⟩ := exists_lines entry.2.toList
  have hline : lines (entryLine entry) =
      (letter :: ':' :: ' ' :: entry.2.toList.takeWhile (· ≠ '\n')) :: others := by
    have hne : letter ≠ '\n' := by
      rintro rfl
      cases hletter
    simp [entryLine, hkey, lines, hne, hlines]
  have hothers : entriesIn others = [] := by
    rw [Quiet, hlines] at hquiet
    rw [entriesIn, List.filterMap_map, List.map_eq_nil_iff, List.filterMap_eq_nil_iff]
    exact hquiet
  rw [hline, entriesIn_cons, entryIn?_trim hletter, hothers, firstLine, hkey]
  generalize trim (entry.2.toList.takeWhile (· ≠ '\n')) = meaning
  by_cases hempty : meaning = []
  · simp [hempty]
  · simp [hempty, Glossary.entryOf]

theorem entries_of_lettered (h : Lettered Quiet entries) :
    entriesIn (lines (List.intercalate ['\n'] (entries.map entryLine))) =
      (entries.filter fun entry => !(firstLine entry.2).isEmpty).map
        fun entry => (entry.1, firstLine entry.2) := by
  have heach : ∀ entry ∈ entries, entriesIn (lines (entryLine entry)) =
      if (firstLine entry.2).isEmpty then [] else [(entry.1, firstLine entry.2)] := by
    intro entry he
    obtain ⟨letter, hletter, hkey, hquiet⟩ := h entry he
    exact entries_of_entryLine hletter hkey hquiet
  by_cases hnil : entries = []
  · subst hnil
    rfl
  rw [lines_intercalate (by simpa using hnil)]
  clear hnil h
  induction entries with
  | nil => rfl
  | cons entry entries ih =>
    obtain ⟨hentry, hentries⟩ := List.forall_mem_cons.mp heach
    rw [List.map_cons, List.flatMap_cons, entriesIn_append, hentry, ih hentries, List.filter_cons]
    by_cases hempty : (firstLine entry.2).isEmpty = true <;> simp [hempty]

theorem Inline.lines_eq (h : Inline text) : lines text = [text] := lines_of_not_mem h.oneLine

theorem firstLine_of_inline {meaning : String} (h : Inline meaning.toList) :
    firstLine meaning = meaning := by
  have hline := h.takeWhile_line []
  obtain ⟨others, hlines, -⟩ := exists_lines meaning.toList
  rw [h.lines_eq] at hlines
  obtain ⟨hfirst, -⟩ := List.cons.inj hlines
  rw [firstLine, ← hfirst, trim_eq_self h.trimmed, String.ofList_toList]

/-- Meanings that fit on one line are read back as they are. -/
theorem entries_of_lines (h : Plain entries) :
    entriesIn (lines (List.intercalate ['\n'] (entries.map entryLine))) = entries := by
  have hquiet : Lettered Quiet entries := by
    intro entry he
    obtain ⟨letter, hletter, hkey, hmeaning⟩ := h entry he
    refine ⟨letter, hletter, hkey, ?_⟩
    rw [Quiet, hmeaning.lines_eq]
    simp
  have hfirst : ∀ entry ∈ entries, firstLine entry.2 = entry.2 ∧ entry.2 ≠ "" := by
    intro entry he
    obtain ⟨letter, -, -, hmeaning⟩ := h entry he
    refine ⟨firstLine_of_inline hmeaning, fun hempty => hmeaning.nonempty ?_⟩
    rw [hempty]
    rfl
  have hkept : entries.filter (fun entry => !(firstLine entry.2).isEmpty) = entries := by
    refine List.filter_eq_self.mpr fun entry he => ?_
    rw [(hfirst entry he).1]
    simpa using (hfirst entry he).2
  rw [entries_of_lettered hquiet, hkept]
  refine (List.map_congr_left fun entry he => ?_).trans (List.map_id entries)
  rw [(hfirst entry he).1]
  rfl

/-- Meanings are read from the lines of their entries, unless the formula has a heading. -/
theorem propositionsIn_lines {propositions : Glossary} {p : String × String → Prop}
    (hheading : ∀ part, part <:+: formula.toList → ¬propositionsHeading.Accepts part)
    (hlettered : Lettered p propositions.entries) :
    propositionsIn (compose formula propositions).toList =
      Glossary.ofList
        (entriesIn (lines (List.intercalate ['\n'] (propositions.entries.map entryLine)))) := by
  obtain ⟨before, hcut⟩ := cut?_compose hheading propositions
  rw [propositionsIn, hcut]
  dsimp only
  rw [trimStart_lines hlettered]

theorem propositionsIn_compose {propositions : Glossary}
    (hheading : ∀ part, part <:+: formula.toList → ¬propositionsHeading.Accepts part)
    (hplain : Plain propositions.entries) :
    propositionsIn (compose formula propositions).toList = propositions := by
  rw [propositionsIn_lines hheading hplain, entries_of_lines hplain, propositions.ofList_entries]

/-- An answer is read back if the formula fits on one line and contains no heading, the keys are
letters, and each meaning fits on one line. -/
theorem ofText_compose (formula : String) (propositions : Glossary)
    (hformula : Inline formula.toList)
    (hheading : ∀ part, part <:+: formula.toList → ¬propositionsHeading.Accepts part)
    (hplain : Plain propositions.entries) :
    ofText (compose formula propositions) = ⟨some formula, propositions⟩ := by
  rw [ofText, formulaIn?_compose hformula, propositionsIn_compose hheading hplain]

/-- A formula that is none, and meanings with headings, colons, and a carriage return. -/
theorem ofText_compose_headings :
    let formula := "P ? ("
    let propositions : Glossary :=
      ⟨[("A", "Proposições: B: c\rd"), ("Z", "Fórmula: Q")], by decide⟩
    Inline formula.toList ∧
      (∀ part, part <:+: formula.toList → ¬propositionsHeading.Accepts part) ∧
      Plain propositions.entries ∧
      ofText (compose formula propositions) = ⟨some formula, propositions⟩ := by
  intro formula propositions
  have hformula : Inline formula.toList := by decide
  have hheading : ∀ part, part <:+: formula.toList → ¬propositionsHeading.Accepts part := by
    intro part hpart haccepts
    obtain ⟨part', hpart', -, hlength⟩ := Pattern.split_of_after? haccepts
    rw [List.append_nil] at hpart'
    have hle := hpart.length_le
    rw [hpart', hlength] at hle
    exact absurd hle (by decide)
  have hplain : Plain propositions.entries := List.forall_mem_cons.mpr
    ⟨⟨'A', rfl, rfl, by decide⟩, List.forall_mem_singleton.mpr ⟨'Z', rfl, rfl, by decide⟩⟩
  exact ⟨hformula, hheading, hplain,
    ofText_compose formula propositions hformula hheading hplain⟩

end Answer

end Sentential
