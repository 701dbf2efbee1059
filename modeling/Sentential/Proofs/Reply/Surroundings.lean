import Mathlib.Data.List.TakeWhile
import Sentential.Proofs.Json.Scanning
import Sentential.Proofs.Json.Writer
import Sentential.Proofs.Reply.Fences
import Sentential.Reply

/-! Replies in which prose and fences stand around an object. Fences are stripped from the prose and
not from the object, the text between the outer braces is the object, and the whole text has no other
value. So the reply is read as the object alone. -/

namespace Sentential

open Text Json

namespace Reply

variable {before inside after : List Char}

/-- A fence before a brace is in the text before the brace. -/
theorem afterFence_append_cons (before rest : List Char) :
    afterFence (before ++ '\x7b' :: rest) = afterFence before ++ '\x7b' :: rest := by
  have htrim : trimStart (before ++ '\x7b' :: rest) = trimStart before ++ '\x7b' :: rest :=
    dropWhile_append_cons rfl before rest
  have hclean : ∀ accepted ∈ fence, accepted.contains '\x7b' = false := by decide
  have hfence := Pattern.after?_append_cons hclean (trimStart before) rest
  rw [afterFence, afterFence, htrim, hfence]
  cases fence.after? (trimStart before) with
  | none => rfl
  | some text =>
    have hclean : ∀ accepted ∈ fenceLabel, accepted.contains '\x7b' = false := by decide
    have hlabel := Pattern.after?_append_cons hclean text rest
    dsimp only [Option.map_some]
    rw [hlabel]
    cases fenceLabel.after? text <;> rfl

theorem beforeFence_append_cons (rest after : List Char) :
    beforeFence (rest ++ '\x7d' :: after) = rest ++ '\x7d' :: beforeFence after := by
  have htrim : trimEnd (rest ++ '\x7d' :: after) = rest ++ '\x7d' :: trimEnd after :=
    dropEndWhile_append_cons rfl rest after
  have hreverse : (rest ++ '\x7d' :: trimEnd after).reverse =
      (trimEnd after).reverse ++ '\x7d' :: rest.reverse := by simp
  have hclean : ∀ accepted ∈ fence, accepted.contains '\x7d' = false := by decide
  have hfence := Pattern.after?_append_cons hclean (trimEnd after).reverse rest.reverse
  rw [beforeFence, beforeFence, htrim, hreverse, hfence]
  cases fence.after? (trimEnd after).reverse with
  | none => rfl
  | some text => simp

theorem afterFence_suffix (text : List Char) : afterFence text <:+ text := by
  obtain ⟨front, opening, hsplit, -⟩ := afterFence_split text
  exact ⟨front ++ opening.toList, hsplit.symm⟩

theorem beforeFence_start (text : List Char) : beforeFence text <+: text := by
  obtain ⟨closing, back, hsplit, -⟩ := beforeFence_split text
  exact ⟨closing.toList ++ back, by rw [← List.append_assoc, ← hsplit]⟩

/-- What is left of the prose around an object after fences and blanks are stripped. -/
def lead (before : List Char) : List Char := trimStart (afterFence before)

def trail (after : List Char) : List Char := trimEnd (beforeFence after)

theorem lead_subset (before : List Char) : lead before ⊆ before :=
  ((List.dropWhile_suffix isBlank).trans (afterFence_suffix before)).subset

theorem trail_subset (after : List Char) : trail after ⊆ after := by
  obtain ⟨back, hback, -⟩ := dropEndWhile_split isBlank (beforeFence after)
  exact (List.IsPrefix.trans ⟨back, hback.symm⟩ (beforeFence_start after)).subset

theorem trim_fences (before inside after : List Char) :
    trim (beforeFence (afterFence (before ++ '\x7b' :: (inside ++ '\x7d' :: after)))) =
      lead before ++ '\x7b' :: (inside ++ '\x7d' :: trail after) := by
  have hassoc (start rest : List Char) : start ++ '\x7b' :: (inside ++ '\x7d' :: rest) =
      (start ++ '\x7b' :: inside) ++ '\x7d' :: rest := by simp
  rw [afterFence_append_cons, hassoc, beforeFence_append_cons, ← hassoc, trim, stripWhile,
    dropWhile_append_cons rfl, hassoc, dropEndWhile_append_cons rfl, ← hassoc]
  rfl

theorem objectSpan_eq (hbefore : '\x7b' ∉ before) (hafter : '\x7d' ∉ after) :
    objectSpan (before ++ '\x7b' :: (inside ++ '\x7d' :: after)) =
      '\x7b' :: (inside ++ ['\x7d']) := by
  have hstart : before.dropWhile (· ≠ '\x7b') = [] :=
    List.dropWhile_eq_nil_iff.mpr fun c hc => decide_eq_true fun he => hbefore (he ▸ hc)
  have hend : dropEndWhile (· ≠ '\x7d') after = [] := by
    rw [dropEndWhile, List.reverse_eq_nil_iff, List.dropWhile_eq_nil_iff]
    exact fun c hc => decide_eq_true fun he => hafter (he ▸ List.mem_reverse.mp hc)
  rw [objectSpan, dropWhile_append_cons (by decide), hstart, List.nil_append, ← List.cons_append,
    dropEndWhile_append_cons (by decide), hend]
  rfl

/-- The whole text has no value but that of the object, so the text has the value of the object. -/
theorem valueIn?_eq {value : Value}
    (hobject : Value.ofText? ('\x7b' :: (inside ++ ['\x7d'])) = some value)
    (hbefore : '\x7b' ∉ before) (hafter : '\x7d' ∉ after)
    (hfirst : ∀ c, before.head? = some c → isSpace c = false ∧ c ≠ '[' ∧ c ≠ '"') :
    valueIn? (before ++ '\x7b' :: (inside ++ '\x7d' :: after)) = some value := by
  obtain ⟨document, hdocument, hvalue⟩ := Option.bind_eq_some_iff.mp hobject
  have hwhole : Document.ofText? (before ++ '\x7b' :: (inside ++ '\x7d' :: after)) = none ∨
      Document.ofText? (before ++ '\x7b' :: (inside ++ '\x7d' :: after)) = some document := by
    cases before with
    | nil =>
      have hlast : ∀ c, ('\x7b' :: (inside ++ ['\x7d'])).getLast? = some c →
          Literal.isPart c = false := by
        intro c hc
        rw [← List.cons_append, List.getLast?_append] at hc
        cases hc
        rfl
      simpa using Document.ofText?_append hdocument hlast after
    | cons c before =>
      obtain ⟨hspace, hbracket, hquote⟩ := hfirst c rfl
      have hbrace : c ≠ '\x7b' := fun he => hbefore (he ▸ List.mem_cons_self)
      left
      exact Document.ofText?_eq_none hspace hbrace hbracket hquote (by simp)
  rw [valueIn?, objectSpan_eq hbefore hafter, hobject]
  rcases hwhole with hnone | hsome
  · rw [Value.ofText?, hnone]
    rfl
  · rw [Value.ofText?, hsome, Option.bind_some, hvalue]
    rfl

theorem exists_inside {text : List Char} (hopen : text.head? = some '\x7b')
    (hclose : text.getLast? = some '\x7d') : ∃ inside, text = '\x7b' :: (inside ++ ['\x7d']) := by
  obtain ⟨rest, rfl⟩ := List.head?_eq_some_iff.mp hopen
  cases rest with
  | nil => cases hclose
  | cons c rest =>
    rw [List.getLast?_cons_cons] at hclose
    obtain ⟨inside, hrest⟩ := List.getLast?_eq_some_iff.mp hclose
    exact ⟨inside, by rw [hrest]⟩

theorem isSpace_of_not_isBlank {c : Char} (h : isBlank c = false) : isSpace c = false := by
  refine Bool.eq_false_iff.mpr fun hspace => ?_
  simp only [isSpace, Bool.or_eq_true, beq_iff_eq] at hspace
  rcases hspace with ((rfl | rfl) | rfl) | rfl <;> cases h

/-- A reply is read as the object in it, whatever stands around the object, if no brace opens before
it, none closes after it, and the text does not start as an array or a string. -/
theorem ofText?_surrounded (before object after : String)
    (hopen : object.toList.head? = some '\x7b') (hclose : object.toList.getLast? = some '\x7d')
    (hobject : (Value.ofText? object.toList).isSome)
    (hbefore : '\x7b' ∉ before.toList) (hafter : '\x7d' ∉ after.toList)
    (hfirst : ∀ c, (stripFences (before ++ object ++ after)).toList.head? = some c →
      c ≠ '[' ∧ c ≠ '"') :
    ofText? (before ++ object ++ after) = ofText? object := by
  obtain ⟨inside, hinside⟩ := exists_inside hopen hclose
  obtain ⟨value, hvalue⟩ := Option.isSome_iff_exists.mp hobject
  have hstrip : (stripFences (before ++ object ++ after)).toList =
      lead before.toList ++ '\x7b' :: (inside ++ '\x7d' :: trail after.toList) := by
    simp [stripFences, hinside, trim_fences]
  have halone : (stripFences object).toList = '\x7b' :: (inside ++ ['\x7d']) := by
    rw [stripFences, String.toList_ofList, hinside]
    exact trim_fences [] inside []
  rw [hstrip] at hfirst
  have hread : valueIn? (stripFences (before ++ object ++ after)).toList = some value := by
    rw [hstrip]
    refine valueIn?_eq (hinside ▸ hvalue) (fun h => hbefore (lead_subset _ h))
      (fun h => hafter (trail_subset _ h)) fun c hc => ⟨?_, hfirst c (by simp [hc])⟩
    exact isSpace_of_not_isBlank (dropWhile_head hc)
  have hreadAlone : valueIn? (stripFences object).toList = some value := by
    rw [valueIn?, halone, ← hinside, hvalue]
    rfl
  rw [ofText?, ofText?, hread, hreadAlone]

/-- Prose with a number, a quote, and brackets, and two fences around an object. -/
theorem ofText?_surrounded_fences :
    let before := "12 [\" ```json\n"
    let object := "\x7b\"sentence\":\"chove\"\x7d"
    let after := "\n``` ] null ```"
    object.toList.head? = some '\x7b' ∧ object.toList.getLast? = some '\x7d' ∧
      (Value.ofText? object.toList).isSome ∧ '\x7b' ∉ before.toList ∧ '\x7d' ∉ after.toList ∧
      (∀ c, (stripFences (before ++ object ++ after)).toList.head? = some c → c ≠ '[' ∧ c ≠ '"') ∧
      ofText? (before ++ object ++ after) = some (.sentence "chove") := by
  intro before object after
  have hopen : object.toList.head? = some '\x7b' := by decide
  have hclose : object.toList.getLast? = some '\x7d' := by decide
  let value := Value.object [("sentence", .string "chove")]
  have hvalue : Value.ofText? object.toList = some value := by
    have hnumberless : value.Numberless := .object (by simp [Value.Numberless.string])
    have hwritten : object.toList = value.write := by decide
    rw [hwritten, Value.ofText?, Document.ofText?_write hnumberless]
    rfl
  have hobject : (Value.ofText? object.toList).isSome := by rw [hvalue]; rfl
  have hbefore : '\x7b' ∉ before.toList := by decide
  have hafter : '\x7d' ∉ after.toList := by decide
  have hstart : (stripFences (before ++ object ++ after)).toList.head? = some '1' := by decide
  have hfirst : ∀ c, (stripFences (before ++ object ++ after)).toList.head? = some c →
      c ≠ '[' ∧ c ≠ '"' := by
    intro c hc
    cases hstart.symm.trans hc
    decide
  have hread : ofText? object = some (.sentence "chove") := by
    have hstripped : (stripFences object).toList = object.toList := by decide
    rw [ofText?, hstripped, valueIn?, hvalue]
    rfl
  refine ⟨hopen, hclose, hobject, hbefore, hafter, hfirst, ?_⟩
  rw [ofText?_surrounded before object after hopen hclose hobject hbefore hafter hfirst, hread]

end Reply

end Sentential
