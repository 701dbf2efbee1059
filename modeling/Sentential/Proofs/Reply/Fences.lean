import Sentential.Proofs.Text.Occurrences
import Sentential.Reply
import Sentential.Text.Blank

/-! The fences of a reply. Stripping them takes at most one fence and the blanks around it from either
end of a text, and of a text within two fences it leaves what is between them, even if there are more
fences there. -/

namespace Sentential

open Text

/-- If each class accepts the characters that fold to one letter, the pattern accepts the texts that
fold to the word of these letters. -/
theorem Text.Pattern.accepts_iff_map {pattern : Pattern} {word : List Char} {fold : Char → Char}
    (hlength : pattern.length = word.length)
    (h : ∀ p ∈ pattern.zip word, ∀ c, p.1.contains c = true ↔ fold c = p.2) (text : List Char) :
    pattern.Accepts text ↔ text.map fold = word := by
  unfold Accepts
  induction pattern generalizing word text with
  | nil =>
    obtain rfl := List.eq_nil_of_length_eq_zero hlength.symm
    simp [after?]
  | cons accepted pattern ih =>
    cases word with
    | nil => cases hlength
    | cons letter word =>
      rw [List.zip_cons_cons, List.forall_mem_cons] at h
      cases text with
      | nil => simp [after?]
      | cons c text =>
        rw [after?, List.map_cons, List.cons.injEq, ← h.1 c, ← ih (Nat.succ.inj hlength) h.2 text]
        by_cases hc : accepted.contains c = true
        · rw [if_pos hc, and_iff_right hc]
        · rw [if_neg hc]
          exact iff_of_false (by simp) fun hboth => hc hboth.1

namespace Reply

variable {front back text : List Char}

/-- Simple case folding, as far as it leads to a letter from `a` to `z`. The long s and the Kelvin
sign fold to such letters too. -/
def foldCase (c : Char) : Char :=
  if c = 'ſ' then 's' else if c = '\u212a' then 'k' else c.toLower

/-- A fence at the start of a block, which may have a label. -/
def OpeningFence (text : String) : Prop :=
  ∃ label : String, text = "```" ++ label ∧
    (label = "" ∨ label.toList.map foldCase = "json".toList)

/-- A letter in lower case is the letter itself, or the capital is 32 places before it. -/
theorem toLower_cases (c : Char) : c.toLower = c ∨ c = Char.ofNat (c.toLower.toNat - 32) := by
  unfold Char.toLower
  split
  · next h =>
    have hle : c.val.toNat ≤ 90 := UInt32.le_iff_toNat_le.mp h.2
    have hlower : (c.val + ('a'.val - 'A'.val)).toNat = c.toNat + 32 := by
      rw [UInt32.toNat_add, show ('a'.val - 'A'.val).toNat = 32 from rfl]
      exact Nat.mod_eq_of_lt (by omega)
    right
    show c = Char.ofNat ((c.val + ('a'.val - 'A'.val)).toNat - 32)
    rw [hlower, Nat.add_sub_cancel, Char.ofNat_toNat]
  · exact .inl rfl

/-- Each class of the label accepts the letters that fold to one letter. -/
theorem contains_iff_foldCase {accepted : List Char} {letter : Char}
    (h : (accepted, letter) ∈ fenceLabel.zip "json".toList) (c : Char) :
    accepted.contains c = true ↔ foldCase c = letter := by
  have hclasses : ∀ p ∈ fenceLabel.zip "json".toList, p.1.all (foldCase · = p.2) ∧
      p.1.contains p.2 = true ∧ p.1.contains (Char.ofNat (p.2.toNat - 32)) = true ∧
      (p.2 = 's' → p.1.contains 'ſ' = true) ∧ p.2 ≠ 'k' := by decide
  obtain ⟨hfold, hsmall, hcapital, hlong, hkelvin⟩ := hclasses _ h
  constructor
  · intro hc
    exact of_decide_eq_true (List.all_eq_true.mp hfold c (List.contains_iff_mem.mp hc))
  · intro hc
    unfold foldCase at hc
    split at hc
    · next he => exact he ▸ hlong hc.symm
    split at hc
    · exact absurd hc.symm hkelvin
    · rcases toLower_cases c with hlower | hlower
      · rwa [← hlower, hc]
      · rwa [hlower, hc]

theorem accepts_fenceLabel_iff (label : List Char) :
    fenceLabel.Accepts label ↔ label.map foldCase = "json".toList :=
  Pattern.accepts_iff_map rfl (fun _ hp => contains_iff_foldCase hp) label

theorem split_of_fence {rest : List Char} (h : fence.after? text = some rest) :
    text = "```".toList ++ rest := by
  obtain ⟨part, hpart, haccepts, -⟩ := Pattern.split_of_after? h
  rwa [Pattern.eq_of_accepts_word haccepts] at hpart

/-- What is before the text after an opening fence are blanks and the fence, if there is one. -/
theorem afterFence_split (text : List Char) :
    ∃ (front : List Char) (opening : String), text = front ++ opening.toList ++ afterFence text ∧
      (∀ c ∈ front, isBlank c = true) ∧ (opening = "" ∨ OpeningFence opening) := by
  unfold afterFence
  split
  · next rest hfence =>
    obtain ⟨front, hfront, hblank⟩ := dropWhile_split isBlank text
    have hpart := split_of_fence hfence
    cases hlabel : fenceLabel.after? rest with
    | none =>
      refine ⟨front, "```", ?_, hblank, .inr ⟨"", (String.append_empty).symm, .inl rfl⟩⟩
      rw [List.append_assoc, Option.getD_none, ← hpart]
      exact hfront
    | some others =>
      obtain ⟨label, hsplit, hlabel', -⟩ := Pattern.split_of_after? hlabel
      refine ⟨front, "```" ++ String.ofList label, ?_, hblank, .inr ⟨_, rfl, .inr ?_⟩⟩
      · have hopening : ("```" ++ String.ofList label).toList = "```".toList ++ label := by
          rw [String.toList_append, String.toList_ofList (l := label)]
        rw [hopening, List.append_assoc, List.append_assoc, Option.getD_some, ← hsplit, ← hpart]
        exact hfront
      · rw [String.toList_ofList]
        exact (accepts_fenceLabel_iff label).mp hlabel'
  · exact ⟨[], "", rfl, by simp, .inl rfl⟩

/-- What is after the text before a closing fence are the fence, if there is one, and blanks. -/
theorem beforeFence_split (text : List Char) :
    ∃ (closing : String) (back : List Char), text = beforeFence text ++ closing.toList ++ back ∧
      (∀ c ∈ back, isBlank c = true) ∧ (closing = "" ∨ closing = "```") := by
  unfold beforeFence
  split
  · next rest hfence =>
    obtain ⟨back, hback, hblank⟩ := dropEndWhile_split isBlank text
    have hpart := split_of_fence hfence
    have htrim : trimEnd text = rest.reverse ++ "```".toList := by
      rw [← List.reverse_reverse (trimEnd text), hpart, List.reverse_append]
      rfl
    exact ⟨"```", back, htrim ▸ hback, hblank, .inr rfl⟩
  · exact ⟨"", [], by simp, by simp, .inl rfl⟩

/-- After an opening fence on a line of its own comes the end of that line. -/
theorem afterFence_fenced {opening : String} (hopening : OpeningFence opening)
    (hfront : ∀ c ∈ front, isBlank c = true) (rest : List Char) :
    afterFence (front ++ opening.toList ++ '\n' :: rest) = '\n' :: rest := by
  obtain ⟨label, rfl, hlabel⟩ := hopening
  have htrim : trimStart (front ++ ("```" ++ label).toList ++ '\n' :: rest) =
      "```".toList ++ (label.toList ++ '\n' :: rest) := by
    rw [String.toList_append, List.append_assoc, List.append_assoc, trimStart,
      List.dropWhile_append_of_pos hfront]
    rfl
  have hfence := (Pattern.accepts_word "```").after?_eq (label.toList ++ '\n' :: rest)
  rw [← htrim] at hfence
  have hafter : (fenceLabel.after? (label.toList ++ '\n' :: rest)).getD
      (label.toList ++ '\n' :: rest) = '\n' :: rest := by
    rcases hlabel with rfl | hlabel
    · rfl
    · rw [((accepts_fenceLabel_iff label.toList).mpr hlabel).after?_eq, Option.getD_some]
  rw [afterFence, fence, hfence]
  exact hafter

theorem beforeFence_fenced (hback : ∀ c ∈ back, isBlank c = true) (text : List Char) :
    beforeFence (text ++ "```".toList ++ back) = text := by
  have htrim : (trimEnd (text ++ "```".toList ++ back)).reverse =
      "```".toList ++ text.reverse := by
    have hreverse : ∀ c ∈ back.reverse, isBlank c = true :=
      fun c hc => hback c (List.mem_reverse.mp hc)
    rw [trimEnd, dropEndWhile, List.reverse_reverse, List.reverse_append,
      List.dropWhile_append_of_pos hreverse, List.reverse_append]
    rfl
  have hfence := (Pattern.accepts_word "```").after?_eq text.reverse
  rw [← htrim] at hfence
  rw [beforeFence, fence, hfence]
  exact List.reverse_reverse text

/-- Nothing but a fence and blanks is stripped from either end of a text, and of a text on lines
between two fences nothing is left but that text, without the blanks at its ends. -/
theorem stripFences_fences :
    (∀ raw : String, ∃ front opening before after closing back : String,
      raw = front ++ opening ++ before ++ stripFences raw ++ after ++ closing ++ back ∧
      (opening = "" ∨ OpeningFence opening) ∧ (closing = "" ∨ closing = "```") ∧
      ∀ c ∈ (front ++ before ++ after ++ back).toList, isBlank c = true) ∧
    ∀ front opening body back : String, OpeningFence opening →
      (∀ c ∈ (front ++ back).toList, isBlank c = true) →
      stripFences (front ++ opening ++ "\n" ++ body ++ "\n```" ++ back) =
        String.ofList (trim body.toList) := by
  constructor
  · intro raw
    obtain ⟨front, opening, hopen, hfront, hopening⟩ := afterFence_split raw.toList
    obtain ⟨closing, back, hclose, hback, hclosing⟩ := beforeFence_split (afterFence raw.toList)
    obtain ⟨before, after, htrim, hbefore, hafter⟩ :=
      stripWhile_split isBlank (beforeFence (afterFence raw.toList))
    refine ⟨String.ofList front, opening, String.ofList before, String.ofList after, closing,
      String.ofList back, String.toList_inj.mp ?_, hopening, hclosing, ?_⟩
    · simp only [String.toList_append, String.toList_ofList, stripFences, List.append_assoc]
      calc raw.toList
        _ = front ++ opening.toList ++ afterFence raw.toList := hopen
        _ = front ++ opening.toList ++
              (beforeFence (afterFence raw.toList) ++ closing.toList ++ back) :=
          congrArg (front ++ opening.toList ++ ·) hclose
        _ = front ++ opening.toList ++
              (before ++ trim (beforeFence (afterFence raw.toList)) ++ after ++ closing.toList ++
                back) :=
          congrArg (fun inner => front ++ opening.toList ++ (inner ++ closing.toList ++ back)) htrim
        _ = _ := by simp only [List.append_assoc]
    · simp only [String.toList_append, String.toList_ofList, List.forall_mem_append]
      exact ⟨⟨⟨hfront, hbefore⟩, hafter⟩, hback⟩
  · intro front opening body back hopening hblank
    rw [String.toList_append, List.forall_mem_append] at hblank
    have htext : (front ++ opening ++ "\n" ++ body ++ "\n```" ++ back).toList =
        front.toList ++ opening.toList ++
          '\n' :: (body.toList ++ '\n' :: ("```".toList ++ back.toList)) := by
      simp [String.toList_append]
    have hbody : '\n' :: (body.toList ++ '\n' :: ("```".toList ++ back.toList)) =
        ['\n'] ++ body.toList ++ ['\n'] ++ "```".toList ++ back.toList := by simp
    have hline : ∀ c ∈ ['\n'], isBlank c = true := List.forall_mem_singleton.mpr rfl
    rw [stripFences, htext, afterFence_fenced hopening hblank.1, hbody,
      beforeFence_fenced hblank.2, trim_between hline hline]

/-- A block with a label in mixed case, of which the body has fences of its own at its end. -/
theorem stripFences_fences_nested :
    OpeningFence "```jSON" ∧ (∀ c ∈ (" " ++ "\n").toList, isBlank c = true) ∧
      stripFences " ```jSON\n{}\n```\n````\n```\n" = "{}\n```\n````" := by
  have hopening : OpeningFence "```jSON" := ⟨"jSON", rfl, .inr (by decide)⟩
  have hblank : ∀ c ∈ (" " ++ "\n").toList, isBlank c = true := List.all_eq_true.mp rfl
  exact ⟨hopening, hblank,
    stripFences_fences.2 " " "```jSON" "{}\n```\n````" "\n" hopening hblank⟩

end Reply

end Sentential
