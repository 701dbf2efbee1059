import Sentential.Proofs.Json.Writer
import Sentential.Text.Blank

/-! What a scanner of JSON texts has read stays as it is when more text follows. A number is the only
token that may go on where the text ended, so a text that does not end in one is read the same
whatever follows it. -/

namespace Sentential.Json

namespace Literal

/-- The characters of which numbers are made. -/
def isPart (c : Char) : Bool := isDigit c || ['.', 'e', 'E', '+', '-'].contains c

/-- A scanner of a part of a number takes characters of numbers from the front of a text. If it
leaves some text, then more text at the end makes no difference. -/
def Steady {α : Type} (scan : List Char → Option (α × List Char)) : Prop :=
  ∀ text part after, scan text = some (part, after) →
    (∃ used, text = used ++ after ∧ ∀ c ∈ used, isPart c = true) ∧
      (after ≠ [] → ∀ more, scan (text ++ more) = some (part, after ++ more))

variable {α β : Type}

theorem Steady.pure (part : α) : Steady fun text => some (part, text) := by
  intro text part' after h
  cases h
  exact ⟨⟨[], rfl, by simp⟩, fun _ _ => rfl⟩

theorem Steady.bind {first : List Char → Option (α × List Char)}
    {next : α → List Char → Option (β × List Char)} (hfirst : Steady first)
    (hnext : ∀ part, Steady (next part)) :
    Steady fun text => (first text).bind fun found => next found.1 found.2 := by
  intro text result after h
  obtain ⟨⟨part, mid⟩, hpart, hresult⟩ := Option.bind_eq_some_iff.mp h
  obtain ⟨⟨used, rfl, hused⟩, hmore⟩ := hfirst _ _ _ hpart
  obtain ⟨⟨used', rfl, hused'⟩, hmore'⟩ := hnext part _ _ _ hresult
  refine ⟨⟨used ++ used', by simp, ?_⟩, fun hne more => ?_⟩
  · exact List.forall_mem_append.mpr ⟨hused, hused'⟩
  · have hmid : used' ++ after ≠ [] := by simp [hne]
    show (first _).bind _ = _
    rw [hmore hmid more]
    exact hmore' hne more

theorem Steady.map {scan : List Char → Option (α × List Char)} (h : Steady scan) (f : α → β) :
    Steady fun text => (scan text).map fun found => (f found.1, found.2) := by
  have hbind : (fun text => (scan text).map fun found => (f found.1, found.2)) =
      fun text => (scan text).bind fun found => some (f found.1, found.2) := by
    funext text
    exact Option.map_eq_bind
  rw [hbind]
  exact h.bind fun part => .pure (f part)

theorem steady_digits : Steady scanDigits? := by
  intro text digits after h
  have hsplit := List.takeWhile_append_dropWhile (p := isDigit) (l := text)
  unfold scanDigits? at h
  split at h
  · cases h
  · next digit others htake =>
    cases h
    refine ⟨⟨digit :: others, htake ▸ hsplit.symm, fun c hc => ?_⟩, fun hne more => ?_⟩
    · have hdigit : isDigit c = true := List.all_eq_true.mp List.all_takeWhile c (htake ▸ hc)
      simp [isPart, hdigit]
    · -- The first character that is left is no digit, so none after it counts.
      obtain ⟨first, rest, hdrop⟩ := List.exists_cons_of_ne_nil hne
      have hfirst : ¬isDigit first = true := by
        have := List.head?_dropWhile_not isDigit text
        simpa [hdrop] using this
      have hdigits : ∀ c ∈ digit :: others, isDigit c = true :=
        fun c hc => List.all_eq_true.mp List.all_takeWhile c (htake ▸ hc)
      have htext : text ++ more = (digit :: others) ++ first :: (rest ++ more) := by
        rw [← hsplit, htake, hdrop, List.append_assoc]
        rfl
      rw [hdrop, htext, scanDigits?, List.takeWhile_append_of_pos hdigits,
        List.dropWhile_append_of_pos hdigits, List.takeWhile_cons_of_neg hfirst,
        List.dropWhile_cons_of_neg hfirst, List.append_nil]
      rfl

/-- A character of a number that starts the text may be taken before the scanner goes on. -/
theorem Steady.after {scan : List Char → Option (α × List Char)} {text after : List Char} {part : α}
    {c : Char} (h : Steady scan) (hc : isPart c = true) (hscan : scan text = some (part, after)) :
    (∃ used, c :: text = used ++ after ∧ ∀ d ∈ used, isPart d = true) ∧
      (after ≠ [] → ∀ more, scan (text ++ more) = some (part, after ++ more)) := by
  obtain ⟨⟨used, rfl, hused⟩, hmore⟩ := h _ _ _ hscan
  exact ⟨⟨c :: used, rfl, List.forall_mem_cons.mpr ⟨hc, hused⟩⟩, hmore⟩

theorem steady_whole : Steady scanWhole? := by
  intro text whole after h
  match text with
  | [] => cases h
  | c :: rest =>
    by_cases hc : c = '0'
    · subst hc
      cases h
      exact ⟨⟨['0'], rfl, List.forall_mem_singleton.mpr rfl⟩, fun _ _ => rfl⟩
    · have hdigits (rest : List Char) : scanWhole? (c :: rest) = scanDigits? (c :: rest) :=
        scanWhole?.eq_2 _ fun _ he => hc (List.cons_eq_cons.mp he).1
      rw [hdigits] at h
      simp only [List.cons_append, hdigits]
      exact steady_digits _ _ _ h

theorem steady_fraction : Steady scanFraction? := by
  intro text fraction after h
  match text with
  | [] =>
    cases h
    exact ⟨⟨[], rfl, by simp⟩, fun hne => absurd rfl hne⟩
  | c :: rest =>
    by_cases hc : c = '.'
    · subst hc
      exact (steady_digits.map some).after rfl h
    · have hnone (rest : List Char) : scanFraction? (c :: rest) = some (none, c :: rest) :=
        scanFraction?.eq_2 _ fun _ he => hc (List.cons_eq_cons.mp he).1
      rw [hnone] at h
      cases h
      exact ⟨⟨[], rfl, by simp⟩, fun _ _ => hnone _⟩

theorem steady_sign : Steady fun text => some (scanSign text) := by
  intro text negative after h
  match text with
  | [] =>
    cases h
    exact ⟨⟨[], rfl, by simp⟩, fun hne => absurd rfl hne⟩
  | c :: rest =>
    by_cases hc : c = '+' ∨ c = '-'
    · rcases hc with rfl | rfl <;> cases h
      · exact ⟨⟨['+'], rfl, List.forall_mem_singleton.mpr rfl⟩, fun _ _ => rfl⟩
      · exact ⟨⟨['-'], rfl, List.forall_mem_singleton.mpr rfl⟩, fun _ _ => rfl⟩
    · obtain ⟨hplus, hminus⟩ := not_or.mp hc
      have hnone (rest : List Char) : scanSign (c :: rest) = (false, c :: rest) :=
        scanSign.eq_3 _ (fun _ he => hplus (List.cons_eq_cons.mp he).1)
          fun _ he => hminus (List.cons_eq_cons.mp he).1
      cases (congrArg some (hnone rest)).symm.trans h
      exact ⟨⟨[], rfl, by simp⟩, fun _ _ => congrArg some (hnone _)⟩

theorem steady_exponent : Steady scanExponent? := by
  intro text exponent after h
  match text with
  | [] =>
    cases h
    exact ⟨⟨[], rfl, by simp⟩, fun hne => absurd rfl hne⟩
  | c :: rest =>
    by_cases hc : c = 'e' ∨ c = 'E'
    · have hpart : isPart c = true := by
        rcases hc with rfl | rfl <;> rfl
      have hdigits := steady_sign.bind fun negative =>
        steady_digits.map fun digits => some (negative, digits)
      have hscan (rest : List Char) : scanExponent? (c :: rest) =
          (some (scanSign rest)).bind fun found =>
            (scanDigits? found.2).map fun last => (some (found.1, last.1), last.2) := by
        rw [scanExponent?, if_pos hc]
        rfl
      rw [hscan] at h
      simp only [List.cons_append, hscan]
      exact hdigits.after hpart h
    · have hnone (rest : List Char) : scanExponent? (c :: rest) = some (none, c :: rest) := by
        rw [scanExponent?, if_neg hc]
      rw [hnone] at h
      cases h
      exact ⟨⟨[], rfl, by simp⟩, fun _ _ => hnone _⟩

theorem steady_scan (negative : Bool) : Steady (scan? negative) := by
  have hparts : scan? negative = fun text => (scanWhole? text).bind fun whole =>
      (scanFraction? whole.2).bind fun fraction => (scanExponent? fraction.2).map fun exponent =>
        (⟨negative, whole.1, fraction.1, exponent.1⟩, exponent.2) := by
    funext text
    simp only [Option.map_eq_bind]
    rfl
  rw [hparts]
  exact steady_whole.bind fun whole => steady_fraction.bind fun fraction =>
    steady_exponent.map (Literal.mk negative whole fraction)

theorem ne_nil_of_scan {negative : Bool} {text after : List Char} {literal : Literal}
    (h : scan? negative text = some (literal, after))
    (hlast : ∀ c, text.getLast? = some c → isPart c = false) : after ≠ [] := by
  rintro rfl
  obtain ⟨⟨used, hsplit, hused⟩, -⟩ := steady_scan negative _ _ _ h
  rw [List.append_nil] at hsplit
  subst hsplit
  have hne : text ≠ [] := List.ne_nil_of_length_pos (length_scan? h)
  have hpart := hused _ (List.getLast_mem hne)
  rw [hlast _ (List.getLast?_eq_some_getLast hne)] at hpart
  cases hpart

end Literal

theorem split_of_afterWord? {word text after : List Char} (h : afterWord? word text = some after) :
    text = word ++ after := by
  induction word generalizing text with
  | nil => simpa [afterWord?] using h
  | cons c word ih =>
    cases text with
    | nil => cases h
    | cons d text =>
      rw [afterWord?] at h
      split at h
      · next hd => rw [hd, ih h, List.cons_append]
      · cases h

namespace Quoted

theorem scan_append {text after : List Char} {pieces : List Piece}
    (h : scan text = some (pieces, after)) :
    after <:+ text ∧ ∀ more, scan (text ++ more) = some (pieces, after ++ more) := by
  fun_induction scan text generalizing pieces with
  | case1 => cases h
  | case2 rest =>
    cases h
    exact ⟨List.suffix_cons _ _, fun more => by rw [List.cons_append, scan]⟩
  | case3 a b c d rest ih =>
    obtain ⟨value, hvalue, h⟩ := Option.bind_eq_some_iff.mp h
    obtain ⟨⟨others, last⟩, hs, h⟩ := Option.bind_eq_some_iff.mp h
    cases h
    obtain ⟨hsuffix, hmore⟩ := ih hs
    refine ⟨hsuffix.trans ⟨['\\', 'u', a, b, c, d], rfl⟩, fun more => ?_⟩
    simp only [List.cons_append, scan_codeUnit _ hvalue, hmore]
    rfl
  | case4 letter rest hu ih =>
    obtain ⟨c, hc, h⟩ := Option.bind_eq_some_iff.mp h
    obtain ⟨⟨others, last⟩, hs, h⟩ := Option.bind_eq_some_iff.mp h
    cases h
    obtain ⟨hsuffix, hmore⟩ := ih hs
    have hletter : letter ≠ 'u' := by
      rintro rfl
      cases hc
    refine ⟨hsuffix.trans ⟨['\\', letter], rfl⟩, fun more => ?_⟩
    simp only [List.cons_append, scan_escape _ hc hletter, hmore]
    rfl
  | case5 => cases h
  | case6 c rest hquote hunit hescape hcontrol ih =>
    obtain ⟨⟨others, last⟩, hs, h⟩ := Option.bind_eq_some_iff.mp h
    cases h
    obtain ⟨hsuffix, hmore⟩ := ih hs
    have hbackslash : c ≠ '\\' := by
      rintro rfl
      cases rest with
      | nil => cases hs
      | cons letter rest => exact hescape letter rest rfl rfl
    refine ⟨hsuffix.trans (List.suffix_cons _ _), fun more => ?_⟩
    simp only [List.cons_append, scan_character _ hquote hbackslash hcontrol, hmore]
    rfl

end Quoted

/-- The token that starts a text is the same whatever follows the text, unless it is a number that
goes on to the end of the text. Only a string takes up a brace after its first character. -/
theorem scanToken?_append {c : Char} {rest after : List Char} {token : Token}
    (h : scanToken? c rest = some (token, after)) :
    ∃ used, rest = used ++ after ∧ (c ≠ '"' → '\x7b' ∉ used) ∧
      ((∀ d, (c :: rest).getLast? = some d → Literal.isPart d = false) →
        ∀ more, scanToken? c (rest ++ more) = some (token, after ++ more)) := by
  have hbrace {used : List Char} (hused : ∀ d ∈ used, Literal.isPart d = true) : '\x7b' ∉ used :=
    fun hmem => absurd (hused _ hmem) (by decide)
  unfold scanToken? at h
  split at h
  case h_7 | h_8 | h_9 =>
    obtain ⟨last, hword, he⟩ := Option.map_eq_some_iff.mp h
    cases he
    rw [split_of_afterWord? hword]
    exact ⟨_, rfl, by decide, fun _ _ => rfl⟩
  case h_10 =>
    obtain ⟨⟨pieces, last⟩, hscan, he⟩ := Option.map_eq_some_iff.mp h
    cases he
    obtain ⟨⟨used, hused⟩, hmore⟩ := Quoted.scan_append hscan
    refine ⟨used, hused.symm, fun hne => absurd rfl hne, fun _ more => ?_⟩
    exact congrArg (Option.map _) (hmore more)
  case h_11 =>
    obtain ⟨⟨literal, last⟩, hscan, he⟩ := Option.map_eq_some_iff.mp h
    cases he
    obtain ⟨⟨used, hused, hpart⟩, hmore⟩ := Literal.steady_scan true _ _ _ hscan
    refine ⟨used, hused, fun _ => hbrace hpart, fun hlast more => ?_⟩
    have hrest : ∀ d, rest.getLast? = some d → Literal.isPart d = false := by
      intro d hd
      apply hlast d
      rw [List.getLast?_cons, hd]
      rfl
    exact congrArg (Option.map _) (hmore (Literal.ne_nil_of_scan hscan hrest) more)
  case h_12 hne1 hne2 hne3 hne4 hne5 hne6 hne7 hne8 hne9 hne10 hne11 =>
    obtain ⟨⟨literal, last⟩, hscan, he⟩ := Option.map_eq_some_iff.mp h
    cases he
    obtain ⟨⟨used, hused, hpart⟩, hmore⟩ := Literal.steady_scan false _ _ _ hscan
    have hless := Literal.length_scan? hscan
    match used, hused with
    | [], hused =>
      rw [hused] at hless
      exact absurd hless (Nat.lt_irrefl _)
    | _ :: used, hused =>
      cases hused
      refine ⟨used, rfl, fun _ => hbrace (List.forall_mem_cons.mp hpart).2, fun hlast more => ?_⟩
      rw [scanToken?.eq_12 _ _ hne1 hne2 hne3 hne4 hne5 hne6 hne7 hne8 hne9 hne10 hne11]
      exact congrArg (Option.map _) (hmore (Literal.ne_nil_of_scan hscan hlast) more)
  all_goals
    cases h
    exact ⟨[], rfl, by simp, fun _ _ => rfl⟩

theorem ne_open_of_scanToken? {c : Char} {rest after : List Char} {token : Token}
    (h : scanToken? c rest = some (token, after)) (hbrace : c ≠ '\x7b') (hbracket : c ≠ '[') :
    token ≠ .openObject ∧ token ≠ .openArray := by
  unfold scanToken? at h
  split at h
  case h_1 => exact absurd rfl hbrace
  case h_3 => exact absurd rfl hbracket
  case h_2 | h_4 | h_5 | h_6 =>
    cases h
    exact ⟨nofun, nofun⟩
  all_goals
    obtain ⟨found, -, he⟩ := Option.map_eq_some_iff.mp h
    cases he
    exact ⟨nofun, nofun⟩

theorem scan?_cons {c : Char} {rest : List Char} (hc : isSpace c = false) :
    scan? (c :: rest) = (scanToken? c rest).bind fun found =>
      (scan? found.2).map (found.1 :: ·) := by
  rw [scan?, if_neg (by simp [hc])]
  split
  · next hnone => rw [hnone, Option.bind_none]
  · next token after hsome =>
    show (scan? after).map (token :: ·) = _
    rw [hsome, Option.bind_some]

/-- A text that does not end in a number is read as the same tokens whatever follows it. -/
theorem scans_of_scan? {text : List Char} {tokens : List Token} (h : scan? text = some tokens)
    (hlast : ∀ c, text.getLast? = some c → Literal.isPart c = false) : Scans text tokens := by
  fun_induction scan? text generalizing tokens with
  | case1 =>
    cases h
    exact .nil
  | case2 c rest hspace ih =>
    intro more
    rw [List.cons_append, scan?, if_pos hspace]
    exact ih h (fun d => Text.getLast?_of_suffix (List.suffix_cons c rest) hlast) more
  | case3 => cases h
  | case4 c rest hspace token after htoken _ ih =>
    intro more
    obtain ⟨others, hothers, rfl⟩ := Option.map_eq_some_iff.mp h
    obtain ⟨used, rfl, -, hstable⟩ := scanToken?_append htoken
    have hsuffix : after <:+ c :: (used ++ after) := ⟨c :: used, rfl⟩
    have hafter := ih hothers (fun d => Text.getLast?_of_suffix hsuffix hlast) more
    rw [List.cons_append, scan?_cons (Bool.eq_false_iff.mpr hspace), hstable hlast more,
      Option.bind_some, hafter, Option.map_map]
    rfl

theorem isSpace_of_scan? {text : List Char} (h : scan? text = some []) :
    ∀ c ∈ text, isSpace c = true := by
  fun_induction scan? text with
  | case1 => simp
  | case2 c rest hspace ih => exact List.forall_mem_cons.mpr ⟨hspace, ih h⟩
  | case3 => cases h
  | case4 c rest hspace token after htoken _ ih =>
    obtain ⟨tokens, -, he⟩ := Option.map_eq_some_iff.mp h
    cases he

/-! ### One document among other text -/

namespace Document

/-- A document is over after its last token. -/
theorem ofTokens?_append {tokens more : List Token} {document : Document}
    (h : ofTokens? tokens = some document) (hmore : more ≠ []) :
    ofTokens? (tokens ++ more) = none := by
  obtain ⟨token, others, rfl⟩ := List.exists_cons_of_ne_nil hmore
  obtain ⟨assembly, hrun, hfinish⟩ := Option.bind_eq_some_iff.mp h
  have hover : assembly.step token = none := by
    unfold Assembly.finish? at hfinish
    split at hfinish
    · cases token <;> rfl
    · cases hfinish
  rw [ofTokens?, List.foldlM_append, hrun]
  simp [hover]

/-- Only an array or object has other tokens after its first. -/
theorem ofTokens?_cons {token : Token} {more : List Token} (hobject : token ≠ .openObject)
    (harray : token ≠ .openArray) (hmore : more ≠ []) : ofTokens? (token :: more) = none := by
  have hover : ∀ document, ofTokens? [token] = some document → ofTokens? (token :: more) = none :=
    fun _ h => ofTokens?_append h hmore
  cases token with
  | null | bool value | number value | string value => exact hover _ rfl
  | openObject => exact absurd rfl hobject
  | openArray => exact absurd rfl harray
  | closeObject | closeArray | comma | colon => rfl

/-- With more text after it, a document that does not end in a number is itself or none. -/
theorem ofText?_append {text : List Char} {document : Document} (h : ofText? text = some document)
    (hlast : ∀ c, text.getLast? = some c → Literal.isPart c = false) (after : List Char) :
    ofText? (text ++ after) = none ∨ ofText? (text ++ after) = some document := by
  obtain ⟨tokens, htokens, hdocument⟩ := Option.bind_eq_some_iff.mp h
  rw [ofText?, scans_of_scan? htokens hlast after]
  cases hafter : scan? after with
  | none => exact .inl rfl
  | some more =>
    by_cases hmore : more = []
    · subst hmore
      right
      simpa using hdocument
    · left
      exact ofTokens?_append hdocument hmore

/-- Where there is a brace in a text, the text is no document unless it starts with one, or with a
bracket or a quote. -/
theorem ofText?_eq_none {c : Char} {rest : List Char} (hspace : isSpace c = false)
    (hbrace : c ≠ '\x7b') (hbracket : c ≠ '[') (hquote : c ≠ '"') (hrest : '\x7b' ∈ rest) :
    ofText? (c :: rest) = none := by
  rw [ofText?, scan?_cons hspace]
  cases htoken : scanToken? c rest with
  | none => rfl
  | some found =>
    obtain ⟨token, after⟩ := found
    obtain ⟨used, rfl, hused, -⟩ := scanToken?_append htoken
    have hafter : '\x7b' ∈ after := (List.mem_append.mp hrest).resolve_left (hused hquote)
    cases hmore : scan? after with
    | none => simp [hmore]
    | some more =>
      have hne : more ≠ [] := by
        rintro rfl
        exact absurd (isSpace_of_scan? hmore _ hafter) (by decide)
      obtain ⟨hobject, harray⟩ := ne_open_of_scanToken? htoken hbrace hbracket
      simp [hmore, ofTokens?_cons hobject harray hne]

end Document

end Sentential.Json
