/-! Patterns of fixed length and their first occurrences in texts. A pattern has one class of
characters for each of its positions, so that a word may be looked for in several spellings. -/

namespace Sentential.Text

/-- The characters that a pattern accepts at each position. -/
abbrev Pattern := List (List Char)

namespace Pattern

/-- The pattern that accepts one word. -/
def word (text : String) : Pattern := text.toList.map ([·])

/-- The text after a part that the pattern accepts, if such a part starts the text. -/
def after? : Pattern → List Char → Option (List Char)
  | [], text => some text
  | accepted :: pattern, c :: text =>
    if accepted.contains c then after? pattern text else none
  | _ :: _, [] => none

/-- The text before and after the first part that the pattern accepts. -/
def cut? (pattern : Pattern) : List Char → Option (List Char × List Char)
  | [] => (pattern.after? []).map fun rest => ([], rest)
  | c :: text =>
    match pattern.after? (c :: text) with
    | some rest => some ([], rest)
    | none => (cut? pattern text).map fun (before, rest) => (c :: before, rest)

/-- The pattern accepts some part of the text. -/
def occursIn (pattern : Pattern) (text : List Char) : Bool := (pattern.cut? text).isSome

/-- The pattern accepts the text as a whole. -/
def Accepts (pattern : Pattern) (text : List Char) : Prop := pattern.after? text = some []

/-- A part that starts the text is accepted, and the rest follows it. -/
theorem split_of_after? {pattern : Pattern} {text rest : List Char}
    (h : pattern.after? text = some rest) :
    ∃ part, text = part ++ rest ∧ pattern.Accepts part ∧ part.length = pattern.length := by
  induction pattern generalizing text with
  | nil =>
    simp only [after?, Option.some.injEq] at h
    exact ⟨[], by simp [h], rfl, rfl⟩
  | cons accepted pattern ih =>
    cases text with
    | nil => simp [after?] at h
    | cons c text =>
      simp only [after?] at h
      split at h
      · next hc =>
        obtain ⟨part, rfl, ha, hl⟩ := ih h
        refine ⟨c :: part, rfl, ?_, by simp [hl]⟩
        rw [Accepts, after?, if_pos hc]
        exact ha
      · simp at h

/-- The part that is cut out of a text is accepted, and the rest is on its two sides. -/
theorem split_of_cut? {pattern : Pattern} {text before rest : List Char}
    (h : pattern.cut? text = some (before, rest)) :
    ∃ part, text = before ++ part ++ rest ∧ pattern.Accepts part ∧
      part.length = pattern.length := by
  induction text generalizing before with
  | nil =>
    simp only [cut?, Option.map_eq_some_iff, Prod.mk.injEq] at h
    obtain ⟨rest', hr, rfl, rfl⟩ := h
    simpa using split_of_after? hr
  | cons c text ih =>
    simp only [cut?] at h
    split at h
    · next rest' hr =>
      simp only [Option.some.injEq, Prod.mk.injEq] at h
      obtain ⟨rfl, rfl⟩ := h
      simpa using split_of_after? hr
    · simp only [Option.map_eq_some_iff, Prod.mk.injEq] at h
      obtain ⟨⟨before', rest'⟩, hr, rfl, rfl⟩ := h
      obtain ⟨part, rfl, ha, hl⟩ := ih hr
      exact ⟨part, rfl, ha, hl⟩

/-- Nothing is cut out of a text of which no part is accepted. -/
theorem cut?_eq_none {pattern : Pattern} {text : List Char}
    (h : ∀ part, part <:+: text → ¬pattern.Accepts part) : pattern.cut? text = none := by
  refine Option.eq_none_iff_forall_ne_some.mpr fun ⟨before, rest⟩ hfound => ?_
  obtain ⟨part, hpart, haccepts, -⟩ := split_of_cut? hfound
  exact h part ⟨before, rest, hpart.symm⟩ haccepts

/-- An accepted part has a character of each class. -/
theorem exists_mem_of_accepts {pattern : Pattern} {accepted part : List Char}
    (h : pattern.Accepts part) (hmem : accepted ∈ pattern) :
    ∃ c ∈ part, accepted.contains c = true := by
  unfold Accepts at h
  induction pattern generalizing part with
  | nil => simp at hmem
  | cons first pattern ih =>
    cases part with
    | nil => simp [after?] at h
    | cons c part =>
      simp only [after?] at h
      split at h
      · next hc =>
        rcases List.mem_cons.mp hmem with rfl | hmem
        · exact ⟨c, List.mem_cons_self, hc⟩
        · obtain ⟨d, hd, haccepted⟩ := ih h hmem
          exact ⟨d, List.mem_cons_of_mem c hd, haccepted⟩
      · cases h

/-- A word accepts nothing but itself. -/
theorem eq_of_accepts_word {text : String} {part : List Char} (h : (word text).Accepts part) :
    part = text.toList := by
  unfold Accepts word at h
  generalize text.toList = word at h ⊢
  induction word generalizing part with
  | nil => simpa [after?] using h
  | cons c word ih =>
    cases part with
    | nil => simp [after?] at h
    | cons d part =>
      simp only [List.map_cons, after?] at h
      split at h
      · next hd =>
        rw [ih h, show d = c by simpa using hd]
      · cases h

theorem length_cut? {pattern : Pattern} {text before rest : List Char}
    (h : pattern.cut? text = some (before, rest)) :
    before.length + pattern.length + rest.length = text.length := by
  obtain ⟨part, rfl, -, hl⟩ := split_of_cut? h
  simp [hl, Nat.add_assoc]

/-- A pattern that accepts a character nowhere accepts no part around it. -/
theorem after?_append_cons {pattern : Pattern} {c : Char}
    (hc : ∀ accepted ∈ pattern, accepted.contains c = false) (before rest : List Char) :
    pattern.after? (before ++ c :: rest) = (pattern.after? before).map (· ++ c :: rest) := by
  induction pattern generalizing before with
  | nil => rfl
  | cons accepted pattern ih =>
    obtain ⟨hfirst, hothers⟩ := List.forall_mem_cons.mp hc
    cases before with
    | nil => simp only [List.nil_append, after?, hfirst, Bool.false_eq_true, if_false]; rfl
    | cons d before =>
      simp only [List.cons_append, after?]
      split
      · exact ih hothers before
      · rfl

/-- The first accepted part is after such a character if none is before it. -/
theorem cut?_append_cons {pattern : Pattern} {c : Char} {before : List Char}
    (hc : ∀ accepted ∈ pattern, accepted.contains c = false) (hbefore : pattern.cut? before = none)
    (rest : List Char) :
    pattern.cut? (before ++ c :: rest) =
      (pattern.cut? rest).map fun found => (before ++ c :: found.1, found.2) := by
  induction before with
  | nil =>
    have hnone : pattern.after? [] = none := by simpa [cut?] using hbefore
    have hfirst := after?_append_cons hc [] rest
    rw [hnone] at hfirst
    rw [List.nil_append] at hfirst ⊢
    rw [cut?, hfirst]
    rfl
  | cons d before ih =>
    have hfirst := after?_append_cons hc (d :: before) rest
    rw [cut?] at hbefore
    cases hd : pattern.after? (d :: before) with
    | some found => rw [hd] at hbefore; cases hbefore
    | none =>
      rw [hd] at hbefore hfirst
      rw [List.cons_append] at hfirst ⊢
      rw [cut?, hfirst, Option.map_none]
      dsimp only
      rw [ih (Option.map_eq_none_iff.mp hbefore), Option.map_map]
      rfl

/-- The parts of a text between the parts that a pattern, which is not empty, accepts. -/
def split (pattern : Pattern) (nonempty : 0 < pattern.length) (text : List Char) :
    List (List Char) :=
  match h : pattern.cut? text with
  | none => [text]
  | some (before, rest) =>
    have := length_cut? h
    before :: split pattern nonempty rest
termination_by text.length

theorem split_of_cut?_eq {pattern : Pattern} (nonempty : 0 < pattern.length)
    {text before rest : List Char} (h : pattern.cut? text = some (before, rest)) :
    pattern.split nonempty text = before :: pattern.split nonempty rest := by
  rw [split]
  split
  · next hnone => rw [h] at hnone; cases hnone
  · next hsome => rw [h] at hsome; cases hsome; rfl

end Pattern

/-- The lines of a text, which end before each line feed and at the end. -/
def lines : List Char → List (List Char)
  | [] => [[]]
  | c :: text =>
    if c = '\n' then [] :: lines text
    else match lines text with
      | [] => [[c]]
      | line :: others => (c :: line) :: others

/-- The first line of a text goes up to its first line feed, and the other lines are made of
characters of the text. -/
theorem exists_lines (text : List Char) :
    ∃ others, lines text = text.takeWhile (· ≠ '\n') :: others ∧ ∀ line ∈ others, line ⊆ text := by
  induction text with
  | nil => exact ⟨[], rfl, by simp⟩
  | cons c text ih =>
    obtain ⟨others, hlines, hothers⟩ := ih
    by_cases hc : c = '\n'
    · subst hc
      refine ⟨lines text, by simp [lines], ?_⟩
      rw [hlines, List.forall_mem_cons]
      constructor
      · exact fun d hd => List.mem_cons_of_mem _ ((List.takeWhile_sublist _).subset hd)
      · exact fun line hline d hd => List.mem_cons_of_mem _ (hothers line hline hd)
    · refine ⟨others, by simp [lines, hlines, hc], ?_⟩
      exact fun line hline d hd => List.mem_cons_of_mem _ (hothers line hline hd)

theorem newline_not_mem_lines (text : List Char) : ∀ line ∈ lines text, '\n' ∉ line := by
  induction text with
  | nil => simp [lines]
  | cons c text ih =>
    obtain ⟨others, hlines, -⟩ := exists_lines text
    by_cases hc : c = '\n'
    · rw [lines, if_pos hc]
      exact List.forall_mem_cons.mpr ⟨by simp, ih⟩
    · rw [hlines] at ih
      obtain ⟨hfirst, hothers⟩ := List.forall_mem_cons.mp ih
      rw [lines, if_neg hc, hlines]
      refine List.forall_mem_cons.mpr ⟨?_, hothers⟩
      exact List.not_mem_cons_of_ne_of_not_mem (Ne.symm hc) hfirst

theorem lines_of_not_mem {line : List Char} (h : '\n' ∉ line) : lines line = [line] := by
  induction line with
  | nil => rfl
  | cons c line ih =>
    simp only [List.mem_cons, not_or] at h
    obtain ⟨hc, hline⟩ := h
    rw [lines, if_neg (Ne.symm hc), ih hline]

theorem lines_append_cons (before rest : List Char) :
    lines (before ++ '\n' :: rest) = lines before ++ lines rest := by
  induction before with
  | nil => simp [lines]
  | cons c before ih =>
    obtain ⟨others, hlines, -⟩ := exists_lines before
    by_cases hc : c = '\n'
    · simp [lines, hc, ih]
    · simp [lines, hc, ih, hlines]

/-- Texts that are joined by line feeds have the lines of each, unless there are none. -/
theorem lines_intercalate {texts : List (List Char)} (h : texts ≠ []) :
    lines (List.intercalate ['\n'] texts) = texts.flatMap lines := by
  induction texts with
  | nil => exact absurd rfl h
  | cons text others ih =>
    cases others with
    | nil => simp
    | cons next others =>
      rw [List.intercalate_cons_cons, List.append_assoc, List.singleton_append, lines_append_cons,
        ih (List.cons_ne_nil _ _)]
      rfl

end Sentential.Text
