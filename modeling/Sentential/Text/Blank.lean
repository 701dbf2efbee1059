/-! Blank characters, which are the characters with the Unicode property White_Space, and the
trimming of a text at its ends. Trimming splits a text into blanks, what is kept, and blanks, and
what is kept neither starts nor ends with a blank. -/

namespace Sentential.Text

/-- The code points of the blank characters. -/
def blanks : List Nat :=
  [0x09, 0x0A, 0x0B, 0x0C, 0x0D, 0x20, 0x85, 0xA0, 0x1680, 0x2000, 0x2001, 0x2002, 0x2003, 0x2004,
    0x2005, 0x2006, 0x2007, 0x2008, 0x2009, 0x200A, 0x2028, 0x2029, 0x202F, 0x205F, 0x3000]

def isBlank (c : Char) : Bool := blanks.contains c.toNat

theorem isBlank_iff {c : Char} : isBlank c = true ↔ c.toNat ∈ blanks := by
  simp [isBlank]

/-- The text without the characters of a class at its end. -/
def dropEndWhile (p : Char → Bool) (text : List Char) : List Char :=
  (text.reverse.dropWhile p).reverse

/-- The text without the characters of a class at either end. -/
def stripWhile (p : Char → Bool) (text : List Char) : List Char :=
  dropEndWhile p (text.dropWhile p)

def trimStart (text : List Char) : List Char := text.dropWhile isBlank

def trimEnd (text : List Char) : List Char := dropEndWhile isBlank text

/-- The text without the blanks at either end. -/
def trim (text : List Char) : List Char := stripWhile isBlank text

/-- Neither end of the text is in the class. -/
def Stripped (p : Char → Bool) (text : List Char) : Prop :=
  (∀ c, text.head? = some c → p c = false) ∧ (∀ c, text.getLast? = some c → p c = false)

instance (p : Char → Bool) (text : List Char) : Decidable (Stripped p text) :=
  decidable_of_iff (text.head?.all (!p ·) = true ∧ text.getLast?.all (!p ·) = true)
    (by simp only [Stripped, Option.all_eq_true, Bool.not_eq_true'])

/-- The text has no blank at either end. -/
abbrev Trimmed (text : List Char) : Prop := Stripped isBlank text

theorem dropWhile_head {p : Char → Bool} {text : List Char} {c : Char}
    (h : (text.dropWhile p).head? = some c) : p c = false := by
  have := List.head?_dropWhile_not p text
  rwa [h] at this

/-- A text ends as the texts do of which it is the end. -/
theorem getLast?_of_suffix {P : Char → Prop} {text part : List Char} (h : part <:+ text)
    (hlast : ∀ c, text.getLast? = some c → P c) {c : Char} (hc : part.getLast? = some c) : P c := by
  obtain ⟨front, rfl⟩ := h
  apply hlast c
  rw [List.getLast?_append, hc]
  rfl

theorem dropWhile_split (p : Char → Bool) (text : List Char) :
    ∃ front, text = front ++ text.dropWhile p ∧ ∀ c ∈ front, p c = true :=
  ⟨text.takeWhile p, List.takeWhile_append_dropWhile.symm,
    fun c hc => List.all_eq_true.mp List.all_takeWhile c hc⟩

theorem dropEndWhile_split (p : Char → Bool) (text : List Char) :
    ∃ back, text = dropEndWhile p text ++ back ∧ ∀ c ∈ back, p c = true := by
  obtain ⟨front, h, hp⟩ := dropWhile_split p text.reverse
  refine ⟨front.reverse, ?_, fun c hc => hp c (List.mem_reverse.mp hc)⟩
  have := congrArg List.reverse h
  rwa [List.reverse_reverse, List.reverse_append] at this

theorem dropEndWhile_getLast {p : Char → Bool} {text : List Char} {c : Char}
    (h : (dropEndWhile p text).getLast? = some c) : p c = false := by
  rw [dropEndWhile, List.getLast?_reverse] at h
  exact dropWhile_head h

/-- What is stripped from a text is in the class. -/
theorem stripWhile_split (p : Char → Bool) (text : List Char) :
    ∃ front back, text = front ++ stripWhile p text ++ back ∧
      (∀ c ∈ front, p c = true) ∧ ∀ c ∈ back, p c = true := by
  obtain ⟨front, hf, hpf⟩ := dropWhile_split p text
  obtain ⟨back, hb, hpb⟩ := dropEndWhile_split p (text.dropWhile p)
  refine ⟨front, back, ?_, hpf, hpb⟩
  rw [List.append_assoc, stripWhile, ← hb]
  exact hf

theorem stripped_stripWhile (p : Char → Bool) (text : List Char) :
    Stripped p (stripWhile p text) := by
  refine ⟨fun c hc => ?_, fun c hc => dropEndWhile_getLast hc⟩
  obtain ⟨back, hb, -⟩ := dropEndWhile_split p (text.dropWhile p)
  have h : (text.dropWhile p).head? = some c := by
    rw [hb, List.head?_append, show (dropEndWhile p (text.dropWhile p)).head? = some c from hc]
    rfl
  exact dropWhile_head h

theorem dropWhile_eq_self {p : Char → Bool} {text : List Char}
    (h : ∀ c, text.head? = some c → p c = false) : text.dropWhile p = text := by
  cases text with
  | nil => rfl
  | cons c rest => simp [h c rfl]

theorem dropEndWhile_eq_self {p : Char → Bool} {text : List Char}
    (h : ∀ c, text.getLast? = some c → p c = false) : dropEndWhile p text = text := by
  rw [dropEndWhile, dropWhile_eq_self (fun c hc => h c (by rwa [List.head?_reverse] at hc)),
    List.reverse_reverse]

theorem stripWhile_eq_self {p : Char → Bool} {text : List Char} (h : Stripped p text) :
    stripWhile p text = text := by
  rw [stripWhile, dropWhile_eq_self h.1, dropEndWhile_eq_self h.2]

theorem trimmed_trim (text : List Char) : Trimmed (trim text) := stripped_stripWhile isBlank text

theorem trim_eq_nil_iff {text : List Char} : trim text = [] ↔ ∀ c ∈ text, isBlank c = true := by
  constructor
  · intro h
    obtain ⟨front, back, hsplit, hfront, hback⟩ := stripWhile_split isBlank text
    rw [show stripWhile isBlank text = [] from h, List.append_nil] at hsplit
    rw [hsplit, List.forall_mem_append]
    exact ⟨hfront, hback⟩
  · intro h
    have hdrop : (text ++ []).dropWhile isBlank = [] := List.dropWhile_append_of_pos h
    rw [List.append_nil] at hdrop
    rw [trim, stripWhile, hdrop]
    rfl

theorem dropEndWhile_cons (p : Char → Bool) (c : Char) (text : List Char) :
    dropEndWhile p (c :: text) =
      if dropEndWhile p text = [] ∧ p c = true then [] else c :: dropEndWhile p text := by
  simp only [dropEndWhile, List.reverse_cons, List.dropWhile_append, List.reverse_eq_nil_iff]
  by_cases h : text.reverse.dropWhile p = []
  · cases hc : p c <;> simp [h, hc]
  · simp [h]

/-- Dropping from the start stops at the latest at a character that is not in the class. -/
theorem dropWhile_append_cons {p : Char → Bool} {c : Char} (hc : p c = false)
    (before rest : List Char) :
    (before ++ c :: rest).dropWhile p = before.dropWhile p ++ c :: rest := by
  induction before with
  | nil => exact List.dropWhile_cons_of_neg (by simp [hc])
  | cons d before ih =>
    simp only [List.cons_append, List.dropWhile_cons, ih]
    split <;> rfl

theorem dropEndWhile_append_cons {p : Char → Bool} {c : Char} (hc : p c = false)
    (rest after : List Char) :
    dropEndWhile p (rest ++ c :: after) = rest ++ c :: dropEndWhile p after := by
  have hreverse : (rest ++ c :: after).reverse = after.reverse ++ c :: rest.reverse := by simp
  rw [dropEndWhile, hreverse, dropWhile_append_cons hc]
  simp [dropEndWhile]

/-- The blanks at the two ends may be dropped in any order. -/
theorem trimStart_trimEnd (text : List Char) : trimStart (trimEnd text) = trim text := by
  induction text with
  | nil => rfl
  | cons c text ih =>
    have hend : trimEnd (c :: text) =
        if trimEnd text = [] ∧ isBlank c = true then [] else c :: trimEnd text :=
      dropEndWhile_cons isBlank c text
    cases hc : isBlank c with
    | false =>
      have hneg : ¬isBlank c = true := by simp [hc]
      rw [hend, if_neg (fun h => hneg h.2), trim, stripWhile, trimStart,
        List.dropWhile_cons_of_neg hneg, List.dropWhile_cons_of_neg hneg]
      exact (hend.trans (if_neg fun h => hneg h.2)).symm
    | true =>
      have htrim : trim (c :: text) = trim text := by
        rw [trim, stripWhile, List.dropWhile_cons_of_pos hc]
        rfl
      rw [htrim, ← ih, hend]
      split
      · next h => rw [h.1]
      · exact List.dropWhile_cons_of_pos hc

theorem trim_append_blanks {back : List Char} (hback : ∀ c ∈ back, isBlank c = true)
    (text : List Char) : trim (text ++ back) = trim text := by
  have hreverse : ∀ c ∈ back.reverse, isBlank c = true :=
    fun c hc => hback c (List.mem_reverse.mp hc)
  have hend : trimEnd (text ++ back) = trimEnd text := by
    rw [trimEnd, dropEndWhile, List.reverse_append, List.dropWhile_append_of_pos hreverse]
    rfl
  rw [← trimStart_trimEnd, hend, trimStart_trimEnd]

/-- Blanks around a text do not count. -/
theorem trim_between {front back : List Char} (hfront : ∀ c ∈ front, isBlank c = true)
    (hback : ∀ c ∈ back, isBlank c = true) (text : List Char) :
    trim (front ++ text ++ back) = trim text := by
  rw [trim_append_blanks hback, trim, stripWhile, List.dropWhile_append_of_pos hfront]
  rfl

theorem trim_eq_self {text : List Char} (h : Trimmed text) : trim text = text :=
  stripWhile_eq_self h

end Sentential.Text
