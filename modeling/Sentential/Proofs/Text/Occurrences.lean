import Sentential.Text.Pattern

/-! Where a word first occurs in a text. Cutting a text at a word finds the first occurrence if there
is one, so it fails for exactly those texts that do not contain the word. -/

namespace Sentential.Text

/-- The word stands between the two parts of the text, and nowhere earlier. -/
def FirstSplit (word text before rest : List Char) : Prop :=
  text = before ++ word ++ rest ∧
    ∀ front back, text = front ++ word ++ back → before.length ≤ front.length

namespace Pattern

variable {pattern : Pattern} {part text before rest : List Char} {word : String}

theorem after?_append (h : pattern.after? text = some rest) (more : List Char) :
    pattern.after? (text ++ more) = some (rest ++ more) := by
  induction pattern generalizing text with
  | nil =>
    cases h
    rfl
  | cons accepted pattern ih =>
    cases text with
    | nil => cases h
    | cons c text =>
      rw [List.cons_append, after?]
      rw [after?] at h
      split at h
      · next hc =>
        rw [if_pos hc]
        exact ih h
      · cases h

theorem Accepts.after?_eq (h : pattern.Accepts part) (rest : List Char) :
    pattern.after? (part ++ rest) = some rest := after?_append h rest

theorem accepts_word (text : String) : (Pattern.word text).Accepts text.toList := by
  unfold Accepts Pattern.word
  induction text.toList with
  | nil => rfl
  | cons c word ih => simpa [after?] using ih

theorem cut?_of_after? (h : pattern.after? text = some rest) :
    pattern.cut? text = some ([], rest) := by
  cases text with
  | nil =>
    rw [cut?, h]
    rfl
  | cons c text => rw [cut?, h]

/-- The first accepted part is no later than any other. -/
theorem Accepts.exists_cut? (h : pattern.Accepts part) (front back : List Char) :
    ∃ before rest, pattern.cut? (front ++ part ++ back) = some (before, rest) ∧
      before.length ≤ front.length := by
  induction front with
  | nil => exact ⟨[], back, cut?_of_after? (h.after?_eq back), Nat.le_refl 0⟩
  | cons c front ih =>
    rw [List.cons_append, List.cons_append, cut?]
    cases hstart : pattern.after? (c :: (front ++ part ++ back)) with
    | some rest => exact ⟨[], rest, rfl, Nat.zero_le _⟩
    | none =>
      obtain ⟨before, rest, hcut, hle⟩ := ih
      exact ⟨c :: before, rest, by rw [hcut]; rfl, Nat.succ_le_succ hle⟩

/-- No accepted part starts in a text without a character of the first class. -/
theorem cut?_append_of_first {accepted front : List Char}
    (h : ∀ c ∈ front, accepted.contains c = false) (rest : List Char) :
    cut? (accepted :: pattern) (front ++ rest) =
      (cut? (accepted :: pattern) rest).map fun found => (front ++ found.1, found.2) := by
  induction front with
  | nil => simp
  | cons c front ih =>
    obtain ⟨hc, hfront⟩ := List.forall_mem_cons.mp h
    have hstart : after? (accepted :: pattern) (c :: (front ++ rest)) = none := by
      rw [after?, hc]
      rfl
    rw [List.cons_append, cut?, hstart]
    dsimp only
    rw [ih hfront, Option.map_map]
    rfl

/-- Each character of an accepted part is in one of the classes. -/
theorem Accepts.exists_of_mem {c : Char} (h : pattern.Accepts part) (hc : c ∈ part) :
    ∃ accepted ∈ pattern, accepted.contains c = true := by
  unfold Accepts at h
  induction pattern generalizing part with
  | nil =>
    rw [after?, Option.some.injEq] at h
    exact absurd hc (h ▸ List.not_mem_nil)
  | cons accepted pattern ih =>
    cases part with
    | nil => cases hc
    | cons d part =>
      rw [after?] at h
      split at h
      · next hd =>
        rcases List.mem_cons.mp hc with rfl | hc
        · exact ⟨accepted, List.mem_cons_self, hd⟩
        · obtain ⟨other, hother, hcontains⟩ := ih h hc
          exact ⟨other, List.mem_cons_of_mem _ hother, hcontains⟩
      · cases h

/-- A character with a property that none of the classes allows is in none of them. -/
theorem contains_of_all {p : Char → Bool} {c : Char}
    (h : pattern.all (fun accepted => accepted.all (!p ·)) = true) (hc : p c = true) :
    ∀ accepted ∈ pattern, accepted.contains c = false := by
  intro accepted haccepted
  refine Bool.eq_false_iff.mpr fun hcontains => ?_
  have hmem : c ∈ accepted := by simpa using hcontains
  have hnot := List.all_eq_true.mp (List.all_eq_true.mp h accepted haccepted) c hmem
  rw [hc] at hnot
  cases hnot

theorem cut?_word_eq_some_iff :
    (Pattern.word word).cut? text = some (before, rest) ↔
      FirstSplit word.toList text before rest := by
  constructor
  · intro h
    obtain ⟨part, rfl, haccepts, -⟩ := split_of_cut? h
    obtain rfl := eq_of_accepts_word haccepts
    refine ⟨rfl, fun front back hsplit => ?_⟩
    obtain ⟨before', rest', hcut, hle⟩ := (accepts_word word).exists_cut? front back
    rw [← hsplit, h] at hcut
    cases hcut
    exact hle
  · rintro ⟨rfl, hfirst⟩
    obtain ⟨before', rest', hcut, hle⟩ := (accepts_word word).exists_cut? before rest
    obtain ⟨part, hsplit, haccepts, -⟩ := split_of_cut? hcut
    obtain rfl := eq_of_accepts_word haccepts
    have hlength : before.length = before'.length :=
      Nat.le_antisymm (hfirst before' rest' hsplit) hle
    rw [List.append_assoc, List.append_assoc] at hsplit
    obtain ⟨rfl, hrest⟩ := List.append_inj hsplit hlength
    rw [hcut, List.append_cancel_left hrest]

theorem cut?_word_eq_none_iff :
    (Pattern.word word).cut? text = none ↔ ¬word.toList <:+: text := by
  constructor
  · rintro h ⟨front, back, rfl⟩
    obtain ⟨before, rest, hcut, -⟩ := (accepts_word word).exists_cut? front back
    rw [hcut] at h
    cases h
  · intro h
    refine Option.eq_none_iff_forall_ne_some.mpr fun ⟨before, rest⟩ hcut => h ?_
    obtain ⟨hsplit, -⟩ := cut?_word_eq_some_iff.mp hcut
    exact ⟨before, rest, hsplit.symm⟩

end Pattern

theorem exists_firstSplit {word : String} {text : List Char} (h : word.toList <:+: text) :
    ∃ before rest, FirstSplit word.toList text before rest := by
  cases hcut : (Pattern.word word).cut? text with
  | none => exact absurd h (Pattern.cut?_word_eq_none_iff.mp hcut)
  | some found => exact ⟨found.1, found.2, Pattern.cut?_word_eq_some_iff.mp hcut⟩

end Sentential.Text
