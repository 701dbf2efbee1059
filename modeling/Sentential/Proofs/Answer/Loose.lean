import Sentential.Proofs.Answer.Normal
import Sentential.Proofs.Text.Occurrences

/-! Answers in a looser form are read like composed ones. The headings may be spelled in other ways,
there may be more blanks, lines may end in CRLF, and lines that give no meaning may stand among those
that do. -/

namespace Sentential

open Symbolic Text

namespace Answer

variable {formula : String} {propositions : Glossary} {entry : String × String}
  {entries : List (String × String)} {text line meaning : List Char} {letter : Char}
  {texts : List (List Char)}

/-- Blanks within a line. -/
def Gap (text : List Char) : Prop := ∀ c ∈ text, isBlank c = true ∧ c ≠ '\n'

def lineEnds : List (List Char) := [['\n'], ['\r', '\n']]

/-- Without the blanks at its ends, the line is a letter, a colon, and text that is not blank. -/
def GivesMeaning (line : List Char) : Prop :=
  ∃ letter gap rest, Token.isLetter letter = true ∧ (∀ c ∈ gap, isBlank c = true) ∧
    trim line = letter :: gap ++ ':' :: rest ∧ ∃ c ∈ rest, isBlank c = false

/-- The line of an entry with any blanks at its ends and around the colon. -/
inductive LooseLine (entry : String × String) : List Char → Prop
  | mk {before gap after back : List Char} : Gap before → Gap gap → Gap after → Gap back →
      LooseLine entry (before ++ (entry.1.toList ++ gap ++ ':' :: after ++ entry.2.toList) ++ back)

/-- The lines of entries in order, among any lines that give no meaning. -/
inductive LooseLines : List (String × String) → List (List Char) → Prop
  | nil : LooseLines [] []
  | entry {entry : String × String} {entries : List (String × String)} {line : List Char}
      {lines : List (List Char)} : LooseLine entry line → LooseLines entries lines →
      LooseLines (entry :: entries) (line :: lines)
  | other {entries : List (String × String)} {line : List Char} {lines : List (List Char)} :
      '\n' ∉ line → ¬GivesMeaning line → LooseLines entries lines →
      LooseLines entries (line :: lines)

/-- The text of lines, each of which starts after the end of the one before it. -/
inductive Broken : List (List Char) → List Char → Prop
  | nil : Broken [] []
  | line {lines : List (List Char)} {ending line text : List Char} : ending ∈ lineEnds →
      Broken lines text → Broken (line :: lines) (ending ++ line ++ text)

/-- The text is an answer in a looser form: with headings in any spelling, with blanks before the
formula and after it on its line, and with loose lines for the meanings. -/
inductive Loose (formula : String) (propositions : Glossary) : List Char → Prop
  | mk {first blanks gap ending second text : List Char} {lines : List (List Char)} :
      formulaHeading.Accepts first → (∀ c ∈ blanks, isBlank c = true) → Gap gap →
      ending ∈ lineEnds → propositionsHeading.Accepts second →
      LooseLines propositions.entries lines → Broken lines text →
      Loose formula propositions
        (first ++ blanks ++ formula.toList ++ gap ++ ending ++ second ++ text)

/-! ### Lines -/

/-- The lines that give a meaning are those that are read as an entry. -/
theorem entryIn?_trim_eq_none_iff : entryIn? (trim line) = none ↔ ¬GivesMeaning line := by
  constructor
  · rintro hnone ⟨letter, gap, rest, hletter, hgap, hline, c, hc, hnonblank⟩
    obtain ⟨after, hrest, hafter⟩ := dropWhile_split isBlank rest
    have hnonempty : rest.dropWhile isBlank ≠ [] := by
      intro hempty
      rw [hempty, List.append_nil] at hrest
      rw [hafter c (hrest ▸ hc)] at hnonblank
      cases hnonblank
    have hsome : entryIn? (trim line) = some (letter, rest.dropWhile isBlank) := by
      refine entryIn?_eq_some_iff.mpr ⟨hletter, hnonempty, fun d => dropWhile_head, gap, after, hgap,
        hafter, ?_⟩
      rw [hline, ← hrest]
      rfl
    rw [hsome] at hnone
    cases hnone
  · refine fun h => Option.eq_none_iff_forall_ne_some.mpr fun ⟨letter, meaning⟩ hread => h ?_
    obtain ⟨hletter, hnonempty, hhead, gap, after, hgap, -, hline⟩ := entryIn?_eq_some_iff.mp hread
    obtain ⟨c, rest, rfl⟩ := List.exists_cons_of_ne_nil hnonempty
    exact ⟨letter, gap, after ++ c :: rest, hletter, hgap, hline, c, by simp, hhead c rfl⟩

theorem gap_of_all (h : text.all (fun c => isBlank c && c != '\n') = true) : Gap text := by
  intro c hc
  simpa using List.all_eq_true.mp h c hc

theorem Gap.newline_not_mem (h : Gap text) : '\n' ∉ text := fun hmem => (h '\n' hmem).2 rfl

theorem Gap.blank (h : Gap text) : ∀ c ∈ text, isBlank c = true := fun c hc => (h c hc).1

/-- A line ends in a line feed, and what comes before it is blank. -/
theorem gap_lineEnd {ending : List Char} (h : ending ∈ lineEnds) :
    ∃ front, ending = front ++ ['\n'] ∧ Gap front := by
  rcases List.mem_pair.mp h with rfl | rfl
  · exact ⟨[], rfl, nofun⟩
  · exact ⟨['\r'], rfl, gap_of_all rfl⟩

/-- A loose line of an entry gives the entry. -/
theorem LooseLine.entryIn? (h : LooseLine entry line) (hletter : Token.isLetter letter = true)
    (hkey : entry.1 = String.singleton letter) (hmeaning : Inline entry.2.toList) :
    '\n' ∉ line ∧ Answer.entryIn? (trim line) = some (letter, entry.2.toList) := by
  obtain ⟨hbefore, hgap, hafter, hback⟩ := h
  next before gap after back =>
  have hcore : entry.1.toList ++ gap ++ ':' :: after ++ entry.2.toList =
      letter :: (gap ++ ':' :: (after ++ entry.2.toList)) := by simp [hkey]
  have htrimmed : Trimmed (letter :: (gap ++ ':' :: (after ++ entry.2.toList))) := by
    have hend : letter :: (gap ++ ':' :: (after ++ entry.2.toList)) =
        (letter :: gap ++ ':' :: after) ++ entry.2.toList := by simp
    refine ⟨fun c hc => ?_, fun c hc => hmeaning.trimmed.2 c ?_⟩
    · cases hc
      exact isBlank_of_isLetter hletter
    · rwa [hend, List.getLast?_append_of_ne_nil _ hmeaning.nonempty] at hc
  constructor
  · have hne : letter ≠ '\n' := by
      rintro rfl
      cases hletter
    simp [hkey, hne.symm, hbefore.newline_not_mem, hgap.newline_not_mem, hafter.newline_not_mem,
      hback.newline_not_mem, hmeaning.oneLine]
  · rw [trim_between hbefore.blank hback.blank, hcore, trim_eq_self htrimmed]
    exact entryIn?_eq_some_iff.mpr ⟨hletter, hmeaning.nonempty, hmeaning.trimmed.1, gap, after,
      hgap.blank, hafter.blank, rfl⟩

theorem LooseLines.read (h : LooseLines entries texts) (hplain : Plain entries) :
    (∀ line ∈ texts, '\n' ∉ line) ∧ entriesIn texts = entries := by
  induction h with
  | nil => exact ⟨nofun, rfl⟩
  | @entry entry entries line lines hline _ ih =>
    obtain ⟨⟨letter, hletter, hkey, hmeaning⟩, hothers⟩ := List.forall_mem_cons.mp hplain
    obtain ⟨hnewline, hread⟩ := hline.entryIn? hletter hkey hmeaning
    obtain ⟨hlines, hentries⟩ := ih hothers
    refine ⟨List.forall_mem_cons.mpr ⟨hnewline, hlines⟩, ?_⟩
    rw [entriesIn_cons, hread, hentries, Option.map_some, Glossary.entryOf, ← hkey,
      String.ofList_toList]
    rfl
  | other hnewline hother _ ih =>
    obtain ⟨hlines, hentries⟩ := ih hplain
    refine ⟨List.forall_mem_cons.mpr ⟨hnewline, hlines⟩, ?_⟩
    rw [entriesIn_cons, entryIn?_trim_eq_none_iff.mpr hother, hentries]
    rfl

/-- The lines of a broken text are its lines after what is before the first line end, and a carriage
return at the end of one is among the blanks there. -/
theorem Broken.map_trim (h : Broken texts text) (hlines : ∀ line ∈ texts, '\n' ∉ line)
    {first : List Char} (hfirst : '\n' ∉ first) :
    (lines (first ++ text)).map trim = (first :: texts).map trim := by
  induction h generalizing first with
  | nil => rw [List.append_nil, lines_of_not_mem hfirst]
  | @line texts ending line text hending _ ih =>
    obtain ⟨hline, hothers⟩ := List.forall_mem_cons.mp hlines
    obtain ⟨front, rfl, hfront⟩ := gap_lineEnd hending
    have hnewline : '\n' ∉ first ++ front := by
      simp [hfirst, hfront.newline_not_mem]
    have hsplit : first ++ (front ++ ['\n'] ++ line ++ text) =
        (first ++ front) ++ '\n' :: (line ++ text) := by simp
    rw [hsplit, lines_append_cons, List.map_append, lines_of_not_mem hnewline, ih hothers hline,
      List.map_singleton, trim_append_blanks hfront.blank]
    rfl

/-- Skipping blanks before a text is divided into lines loses no entry. -/
theorem entriesIn_trimStart (text : List Char) :
    entriesIn (lines (trimStart text)) = entriesIn (lines text) := by
  induction text with
  | nil => rfl
  | cons c text ih =>
    cases hc : isBlank c with
    | false => rw [trimStart, List.dropWhile_cons_of_neg (by simp [hc])]
    | true =>
      rw [trimStart, List.dropWhile_cons_of_pos hc, ← trimStart, ih]
      by_cases hnewline : c = '\n'
      · rw [hnewline, lines, if_pos rfl]
        rfl
      · obtain ⟨others, hlines, -⟩ := exists_lines text
        have htrim (line : List Char) : trim (c :: line) = trim line := by
          rw [trim, stripWhile, List.dropWhile_cons_of_pos hc]
          rfl
        rw [lines, if_neg hnewline, hlines]
        rw [entriesIn_cons, entriesIn_cons, htrim]

/-! ### Headings -/

/-- No blank is in a heading. -/
theorem contains_of_isBlank {c : Char} (hc : isBlank c = true) :
    ∀ accepted ∈ propositionsHeading, accepted.contains c = false :=
  Pattern.contains_of_all rfl hc

/-- The heading of the meanings does not start within that of the formula. -/
theorem not_first_of_formulaHeading {first : List Char} (h : formulaHeading.Accepts first) :
    ∀ c ∈ first, "Pp".toList.contains c = false := by
  intro c hc
  obtain ⟨accepted, haccepted, hcontains⟩ := h.exists_of_mem hc
  refine Bool.eq_false_iff.mpr fun hfirst => ?_
  rw [Pattern.contains_of_all rfl hfirst accepted haccepted] at hcontains
  cases hcontains

theorem formulaIn?_loose (h : Loose formula propositions text) (hformula : Inline formula.toList) :
    formulaIn? text = some formula := by
  obtain ⟨hfirst, hblanks, hgap, hending, -, -, -⟩ := h
  next first blanks gap ending second text lines =>
  obtain ⟨front, rfl, hfront⟩ := gap_lineEnd hending
  have hsplit : first ++ blanks ++ formula.toList ++ gap ++ (front ++ ['\n']) ++ second ++ text =
      first ++ (blanks ++ (formula.toList ++ (gap ++ front) ++ '\n' :: (second ++ text))) := by simp
  have hstart : trimStart (blanks ++ (formula.toList ++ (gap ++ front) ++ '\n' :: (second ++ text))) =
      formula.toList ++ (gap ++ front) ++ '\n' :: (second ++ text) := by
    refine (List.dropWhile_append_of_pos hblanks).trans ?_
    rw [List.append_assoc]
    exact hformula.trimStart_append _
  have hline : ∀ c ∈ formula.toList ++ (gap ++ front), decide (c ≠ '\n') = true := by
    intro c hc
    refine decide_eq_true fun hnewline => ?_
    subst hnewline
    simp [hformula.oneLine, hgap.newline_not_mem, hfront.newline_not_mem] at hc
  have htrim : trim (formula.toList ++ (gap ++ front)) = formula.toList := by
    have hblank : ∀ c ∈ gap ++ front, isBlank c = true :=
      List.forall_mem_append.mpr ⟨hgap.blank, hfront.blank⟩
    rw [trim_append_blanks hblank, trim_eq_self hformula.trimmed]
  have hnonempty : formula.toList.isEmpty = false := by simpa using hformula.nonempty
  rw [hsplit, formulaIn?, Pattern.cut?_of_after? (hfirst.after?_eq _), Option.bind_some]
  dsimp only
  rw [hstart, List.takeWhile_append_of_pos hline, List.takeWhile_cons_of_neg (by simp),
    List.append_nil, htrim, hnonempty, String.ofList_toList]
  rfl

/-- Blanks after a text are no part of a heading. -/
theorem cut?_append_blanks {blanks : List Char} (htext : propositionsHeading.cut? text = none)
    (hblanks : ∀ c ∈ blanks, isBlank c = true) :
    propositionsHeading.cut? (text ++ blanks) = none := by
  cases blanks with
  | nil => rwa [List.append_nil]
  | cons c others =>
    obtain ⟨hc, hothers⟩ := List.forall_mem_cons.mp hblanks
    have hrest : propositionsHeading.cut? (others ++ []) = none := by
      refine (Pattern.cut?_append_of_first (fun d hd => ?_) []).trans rfl
      exact contains_of_isBlank (hothers d hd) _ List.mem_cons_self
    rw [List.append_nil] at hrest
    rw [Pattern.cut?_append_cons (contains_of_isBlank hc) htext, hrest]
    rfl

/-- The meanings of a loose answer start after its own heading of them. -/
theorem cut?_loose (h : Loose formula propositions text)
    (hheading : ∀ part, part <:+: formula.toList → ¬propositionsHeading.Accepts part) :
    ∃ before rest texts, propositionsHeading.cut? text = some (before, rest) ∧ Broken texts rest ∧
      LooseLines propositions.entries texts := by
  obtain ⟨hfirst, hblanks, hgap, hending, hsecond, hlines, hbroken⟩ := h
  next first blanks gap ending second rest texts =>
  obtain ⟨front, rfl, hfront⟩ := gap_lineEnd hending
  have hstart : ∀ c ∈ first ++ blanks, "Pp".toList.contains c = false :=
    List.forall_mem_append.mpr ⟨not_first_of_formulaHeading hfirst,
      fun c hc => contains_of_isBlank (hblanks c hc) _ List.mem_cons_self⟩
  have hline : propositionsHeading.cut? (first ++ blanks ++ (formula.toList ++ (gap ++ front))) =
      none := by
    have hformula := cut?_append_blanks (Pattern.cut?_eq_none hheading)
      (List.forall_mem_append.mpr ⟨hgap.blank, hfront.blank⟩)
    refine (Pattern.cut?_append_of_first hstart _).trans ?_
    exact Option.map_eq_none_iff.mpr hformula
  have hsplit : first ++ blanks ++ formula.toList ++ gap ++ (front ++ ['\n']) ++ second ++ rest =
      first ++ blanks ++ (formula.toList ++ (gap ++ front)) ++ '\n' :: (second ++ rest) := by simp
  rw [hsplit, Pattern.cut?_append_cons (contains_of_isBlank rfl) hline,
    Pattern.cut?_of_after? (hsecond.after?_eq rest)]
  exact ⟨_, rest, texts, rfl, hbroken, hlines⟩

theorem propositionsIn_loose (h : Loose formula propositions text)
    (hheading : ∀ part, part <:+: formula.toList → ¬propositionsHeading.Accepts part)
    (hplain : Plain propositions.entries) : propositionsIn text = propositions := by
  obtain ⟨before, rest, texts, hcut, hbroken, hlines⟩ := cut?_loose h hheading
  obtain ⟨hnewline, hentries⟩ := hlines.read hplain
  have htrim : (lines ([] ++ rest)).map trim = [] :: texts.map trim :=
    hbroken.map_trim hnewline List.not_mem_nil
  rw [List.nil_append] at htrim
  rw [propositionsIn, hcut]
  dsimp only
  rw [entriesIn_trimStart, entriesIn, htrim]
  exact (congrArg Glossary.ofList hentries).trans propositions.ofList_entries

/-! ### Composed answers -/

theorem looseLines_entryLine (entries : List (String × String)) :
    LooseLines entries (entries.map entryLine) := by
  induction entries with
  | nil => exact .nil
  | cons entry entries ih =>
    have hline : LooseLine entry
        ([] ++ (entry.1.toList ++ [] ++ ':' :: [' '] ++ entry.2.toList) ++ []) :=
      .mk (gap_of_all rfl) (gap_of_all rfl) (gap_of_all rfl) (gap_of_all rfl)
    have heq : [] ++ (entry.1.toList ++ [] ++ ':' :: [' '] ++ entry.2.toList) ++ [] =
        entryLine entry := by simp [entryLine]
    exact .entry (heq ▸ hline) ih

theorem broken_intercalate (line : List Char) (texts : List (List Char)) :
    Broken (line :: texts) ('\n' :: List.intercalate ['\n'] (line :: texts)) := by
  induction texts generalizing line with
  | nil =>
    have h : Broken [line] (['\n'] ++ line ++ []) := .line List.mem_cons_self .nil
    simpa using h
  | cons next texts ih =>
    have h : Broken (line :: next :: texts)
        (['\n'] ++ line ++ ('\n' :: List.intercalate ['\n'] (next :: texts))) :=
      .line List.mem_cons_self (ih next)
    rw [List.intercalate_cons_cons]
    simpa using h

/-- A composed answer is one of its looser forms. -/
theorem loose_compose (formula : String) (propositions : Glossary) :
    Loose formula propositions (compose formula propositions).toList := by
  obtain ⟨lines, hlines, hbroken⟩ : ∃ lines, LooseLines propositions.entries lines ∧
      Broken lines ('\n' :: List.intercalate ['\n'] (propositions.entries.map entryLine)) := by
    cases hentries : propositions.entries with
    | nil =>
      have hempty : ¬GivesMeaning [] := entryIn?_trim_eq_none_iff.mp rfl
      exact ⟨[[]], .other List.not_mem_nil hempty .nil, .line List.mem_cons_self .nil⟩
    | cons entry entries =>
      exact ⟨_, looseLines_entryLine _, broken_intercalate _ _⟩
  have hfirst : formulaHeading.Accepts "Fórmula:".toList := rfl
  have hsecond : propositionsHeading.Accepts "Proposições:".toList := rfl
  have hblank : Gap [' '] := gap_of_all rfl
  have h : Loose formula propositions _ :=
    .mk hfirst hblank.blank (nofun : Gap []) List.mem_cons_self hsecond hlines hbroken
  rw [toList_compose]
  simpa using h

/-- All looser forms of a composed answer are read as it is, under the conditions that make it
readable. -/
theorem ofText_loose (formula : String) (propositions : Glossary)
    (hformula : Inline formula.toList)
    (hheading : ∀ part, part <:+: formula.toList → ¬propositionsHeading.Accepts part)
    (hplain : Plain propositions.entries) :
    Loose formula propositions (compose formula propositions).toList ∧
      ∀ text : String, Loose formula propositions text.toList →
        ofText text = ⟨some formula, propositions⟩ := by
  refine ⟨loose_compose formula propositions, fun text h => ?_⟩
  rw [ofText, formulaIn?_loose h hformula, propositionsIn_loose h hheading hplain]

/-- Headings in other spellings, a formula on the line after its heading, line ends of both kinds, and
lines that give no meaning. -/
theorem ofText_loose_lines :
    let formula := "P ? ("
    let propositions : Glossary := ⟨[("A", "x: y"), ("B", "z")], by decide⟩
    let text :=
      "fORMULA:\n\t P ? ( \r\nPROPOSIÇOES:\r\nnota: solta\n  A\t:x: y \r\nP:\n\nB :\tz"
    Inline formula.toList ∧
      (∀ part, part <:+: formula.toList → ¬propositionsHeading.Accepts part) ∧
      Plain propositions.entries ∧ Loose formula propositions text.toList ∧
      ofText text = ⟨some formula, propositions⟩ := by
  intro formula propositions text
  have hformula : Inline formula.toList := by decide
  have hheading : ∀ part, part <:+: formula.toList → ¬propositionsHeading.Accepts part :=
    not_accepts_of_not_mem (by decide)
  have hplain : Plain propositions.entries := List.forall_mem_cons.mpr
    ⟨⟨'A', rfl, rfl, by decide⟩, List.forall_mem_singleton.mpr ⟨'B', rfl, rfl, by decide⟩⟩
  have hA : LooseLine ("A", "x: y")
      ("  ".toList ++ ("A".toList ++ "\t".toList ++ ':' :: [] ++ "x: y".toList) ++ " ".toList) :=
    .mk (gap_of_all rfl) (gap_of_all rfl) (gap_of_all rfl) (gap_of_all rfl)
  have hB : LooseLine ("B", "z")
      ([] ++ ("B".toList ++ " ".toList ++ ':' :: "\t".toList ++ "z".toList) ++ []) :=
    .mk (gap_of_all rfl) (gap_of_all rfl) (gap_of_all rfl) (gap_of_all rfl)
  have hlines : LooseLines propositions.entries
      ["nota: solta".toList, "  A\t:x: y ".toList, "P:".toList, [], "B :\tz".toList] :=
    .other (by decide) (entryIn?_trim_eq_none_iff.mp rfl) (.entry hA
      (.other (by decide) (entryIn?_trim_eq_none_iff.mp rfl)
        (.other (by decide) (entryIn?_trim_eq_none_iff.mp rfl) (.entry hB .nil))))
  have hlf : ['\n'] ∈ lineEnds := List.mem_cons_self
  have hcrlf : ['\r', '\n'] ∈ lineEnds := List.mem_cons_of_mem _ List.mem_cons_self
  have hbroken : Broken
      ["nota: solta".toList, "  A\t:x: y ".toList, "P:".toList, [], "B :\tz".toList]
      "\r\nnota: solta\n  A\t:x: y \r\nP:\n\nB :\tz".toList :=
    Broken.line hcrlf (.line hlf (.line hcrlf (.line hlf (.line hlf .nil))))
  have hfirst : formulaHeading.Accepts "fORMULA:".toList := rfl
  have hblanks : ∀ c ∈ "\n\t ".toList, isBlank c = true := List.all_eq_true.mp rfl
  have hgap : Gap " ".toList := gap_of_all rfl
  have hsecond : propositionsHeading.Accepts "PROPOSIÇOES:".toList := rfl
  have htext : text.toList = "fORMULA:".toList ++ "\n\t ".toList ++ formula.toList ++ " ".toList ++
      ['\r', '\n'] ++ "PROPOSIÇOES:".toList ++
      "\r\nnota: solta\n  A\t:x: y \r\nP:\n\nB :\tz".toList := by decide
  have hloose : Loose formula propositions text.toList :=
    htext ▸ .mk hfirst hblanks hgap hcrlf hsecond hlines hbroken
  obtain ⟨-, hread⟩ := ofText_loose formula propositions hformula hheading hplain
  exact ⟨hformula, hheading, hplain, hloose, hread text hloose⟩

end Answer

end Sentential
