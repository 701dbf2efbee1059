import Sentential.Proofs.Json.Grammar
import Sentential.Proofs.Json.Scanning

/-! Every text of the grammar is read. A number is read whole if what follows it cannot be a part of
it, which holds wherever a value may end, so the tokens of a value do not depend on what follows. -/

namespace Sentential.Json

/-- No number goes on in the text. -/
def Apart (text : List Char) : Prop := ∀ c, text.head? = some c → Literal.isPart c = false

theorem Apart.cons {c : Char} (h : Literal.isPart c = false) (text : List Char) :
    Apart (c :: text) := by
  rintro d hd
  cases hd
  exact h

theorem Apart.append {text rest : List Char} (h : Apart text) (hrest : Apart rest) :
    Apart (text ++ rest) := by
  cases text with
  | nil => exact hrest
  | cons c text => exact .cons (h c rfl) _

theorem Spaces.isSpace {text : List Char} (h : Spaces text) {c : Char} (hc : c ∈ text) :
    isSpace c = true ∧ Literal.isPart c = false := by
  have hspace := h c hc
  simp only [List.mem_cons, List.not_mem_nil, or_false] at hspace
  rcases hspace with rfl | rfl | rfl | rfl <;> exact ⟨rfl, rfl⟩

theorem Spaces.apart {text : List Char} (h : Spaces text) : Apart text :=
  fun _ hc => (h.isSpace (List.mem_of_head? hc)).2

/-! ### Numbers -/

/-- No digits go on in the text. -/
def PastDigits (text : List Char) : Prop := ∀ c, text.head? = some c → isDigit c = false

theorem Apart.pastDigits {text : List Char} (h : Apart text) : PastDigits text := by
  intro c hc
  have hpart := h c hc
  rw [Literal.isPart, Bool.or_eq_false_iff] at hpart
  exact hpart.1

theorem Digits.scan {text rest : List Char} (h : Digits text) (hrest : PastDigits rest) :
    scanDigits? (text ++ rest) = some (text, rest) := by
  obtain ⟨hne, hdigits⟩ := h
  have htake : rest.takeWhile isDigit = [] := by
    cases rest with
    | nil => rfl
    | cons c rest => exact List.takeWhile_cons_of_neg (by simp [hrest c rfl])
  have hdrop : rest.dropWhile isDigit = rest := Text.dropWhile_eq_self hrest
  obtain ⟨first, others, rfl⟩ := List.exists_cons_of_ne_nil hne
  rw [scanDigits?, List.takeWhile_append_of_pos hdigits, List.dropWhile_append_of_pos hdigits, htake,
    hdrop, List.append_nil]

namespace Literal

variable {text rest : List Char}

theorem scanWhole?_append (h : WholeText text) (hrest : PastDigits rest) :
    scanWhole? (text ++ rest) = some (text, rest) := by
  cases h with
  | zero => rfl
  | digits hzero h =>
    rw [← h.scan hrest]
    obtain ⟨first, others, rfl⟩ := List.exists_cons_of_ne_nil h.1
    exact scanWhole?.eq_2 _ fun _ he => hzero (congrArg some (List.cons_eq_cons.mp he).1)

theorem scanFraction?_append {fraction : Option (List Char)} (h : FractionText text fraction)
    (hrest : PastDigits rest) (hpoint : rest.head? ≠ some '.') :
    scanFraction? (text ++ rest) = some (fraction, rest) := by
  cases h with
  | none =>
    refine scanFraction?.eq_2 _ fun after he => hpoint ?_
    rw [List.nil_append] at he
    rw [he]
    rfl
  | digits h => rw [List.cons_append, scanFraction?, h.scan hrest, Option.map_some]

theorem scanSign_append {negative : Bool} (h : SignText text negative) (hdigits : Digits rest)
    (after : List Char) : scanSign (text ++ (rest ++ after)) = (negative, rest ++ after) := by
  obtain ⟨first, others, rfl⟩ := List.exists_cons_of_ne_nil hdigits.1
  have hfirst := hdigits.2 first List.mem_cons_self
  simp only [SignText, List.mem_cons, List.not_mem_nil, or_false, Prod.mk.injEq] at h
  rcases h with ⟨rfl, rfl⟩ | ⟨rfl, rfl⟩ | ⟨rfl, rfl⟩
  · rw [List.nil_append, List.cons_append]
    refine scanSign.eq_3 _ (fun _ he => ?_) fun _ he => ?_
    · exact absurd ((List.cons_eq_cons.mp he).1 ▸ hfirst) (by decide)
    · exact absurd ((List.cons_eq_cons.mp he).1 ▸ hfirst) (by decide)
  · rfl
  · rfl

theorem scanExponent?_append {exponent : Option (Bool × List Char)}
    (h : ExponentText text exponent) (hrest : Apart rest) :
    scanExponent? (text ++ rest) = some (exponent, rest) := by
  cases h with
  | none =>
    cases rest with
    | nil => rfl
    | cons c rest =>
      have hmark : ¬(c = 'e' ∨ c = 'E') := by
        rintro (rfl | rfl) <;> exact absurd (hrest _ rfl) (by decide)
      rw [List.nil_append, scanExponent?, if_neg hmark]
  | digits hmark hsign h =>
    have hmark' := by simpa using hmark
    rw [List.cons_append, List.append_assoc, scanExponent?, if_pos hmark',
      scanSign_append hsign h rest]
    dsimp only
    rw [h.scan hrest.pastDigits, Option.map_some]

theorem pastDigits_fraction {fraction : Option (List Char)} (h : FractionText text fraction)
    (hrest : PastDigits rest) : PastDigits (text ++ rest) := by
  cases h with
  | none => exact hrest
  | digits h =>
    rintro c hc
    cases hc
    decide

theorem head?_exponent {exponent : Option (Bool × List Char)} (h : ExponentText text exponent)
    (hrest : Apart rest) : PastDigits (text ++ rest) ∧ (text ++ rest).head? ≠ some '.' := by
  cases h with
  | none =>
    refine ⟨hrest.pastDigits, fun he => ?_⟩
    exact absurd (hrest '.' he) (by decide)
  | digits hmark hsign h =>
    simp only [List.mem_cons, List.not_mem_nil, or_false] at hmark
    rcases hmark with rfl | rfl <;> exact ⟨fun c hc => by cases hc; decide, by simp⟩

theorem scan?_append {literal : Literal} {fraction exponent : List Char}
    (hwhole : WholeText literal.whole) (hfraction : FractionText fraction literal.fraction)
    (hexponent : ExponentText exponent literal.exponent) (hrest : Apart rest) :
    scan? literal.negative (literal.whole ++ (fraction ++ (exponent ++ rest))) =
      some (literal, rest) := by
  obtain ⟨hpast, hpoint⟩ := head?_exponent hexponent hrest
  rw [scan?, scanWhole?_append hwhole (pastDigits_fraction hfraction hpast)]
  simp only [Option.bind_eq_bind, Option.bind_some, scanFraction?_append hfraction hpast hpoint,
    scanExponent?_append hexponent hrest]

end Literal

theorem scanToken?_digit {c : Char} (hc : isDigit c = true) (rest : List Char) :
    scanToken? c rest = (Literal.scan? false (c :: rest)).map fun (literal, after) =>
      (.number literal.number?, after) := by
  rw [scanToken?.eq_12]
  all_goals
    rintro rfl
    exact absurd hc (by decide)

theorem WholeText.exists_digit {text : List Char} (h : WholeText text) :
    ∃ first others, text = first :: others ∧ isDigit first = true := by
  cases h with
  | zero => exact ⟨'0', [], rfl, rfl⟩
  | digits _ h =>
    obtain ⟨first, others, rfl⟩ := List.exists_cons_of_ne_nil h.1
    exact ⟨first, others, rfl, h.2 first List.mem_cons_self⟩

/-- A text that is read as certain tokens where no number goes on after it. -/
def Reads (text : List Char) (tokens : List Token) : Prop :=
  ∀ rest, Apart rest → scan? (text ++ rest) = (scan? rest).map (tokens ++ ·)

theorem reads_number {text : List Char} {literal : Literal} (h : NumberText text literal) :
    Reads text [.number literal.number?] := by
  obtain ⟨fraction, exponent, hwhole, hfraction, hexponent, rfl⟩ := h
  intro rest hrest
  have hscan := Literal.scan?_append hwhole hfraction hexponent hrest
  cases hnegative : literal.negative with
  | true =>
    rw [hnegative] at hscan
    have htoken : scanToken? '-' (literal.whole ++ (fraction ++ (exponent ++ rest))) =
        some (.number literal.number?, rest) := congrArg (Option.map _) hscan
    simp only [if_pos, List.append_assoc, List.cons_append, List.nil_append]
    rw [scan?_cons rfl, htoken]
    rfl
  | false =>
    obtain ⟨first, others, hfirst, hdigit⟩ := hwhole.exists_digit
    rw [hnegative, hfirst] at hscan
    have htoken : scanToken? first (others ++ (fraction ++ (exponent ++ rest))) =
        some (.number literal.number?, rest) := by
      rw [scanToken?_digit hdigit]
      exact congrArg (Option.map _) hscan
    have hspace : isSpace first = false := by
      refine Bool.eq_false_iff.mpr fun hspace => ?_
      simp only [isSpace, Bool.or_eq_true, beq_iff_eq] at hspace
      rcases hspace with ((rfl | rfl) | rfl) | rfl <;> exact absurd hdigit (by decide)
    simp only [hfirst, List.append_assoc, List.cons_append, Bool.false_eq_true, if_false,
      List.nil_append]
    rw [scan?_cons hspace, htoken]
    rfl

/-! ### Strings -/

namespace Quoted

theorem scan_written {text : List Char} {pieces : List Piece} (h : Written text pieces)
    (rest : List Char) : scan (text ++ '"' :: rest) = some (pieces, rest) := by
  have hescapes : ∀ p ∈ escapes, ofEscape? p.2 = some p.1 ∧ p.2 ≠ 'u' := by decide
  have hhex : ∀ p ∈ hexDigits, hexDigit? p.1 = some p.2 := by decide
  induction h with
  | nil => rw [List.nil_append, scan]
  | character hquote hbackslash hcontrol _ ih =>
    rw [List.cons_append, scan_character _ hquote hbackslash (Nat.not_lt.mpr hcontrol), ih]
    rfl
  | escape hescape _ ih =>
    obtain ⟨hletter, hunit⟩ := hescapes _ hescape
    rw [List.cons_append, List.cons_append, scan_escape _ hletter hunit, ih]
    rfl
  | @codeUnit a b c d i j k l _ _ ha hb hc hd _ ih =>
    have hvalue : ofHex? 0 [a, b, c, d] = some (((i * 16 + j) * 16 + k) * 16 + l) := by
      simp [ofHex?, hhex _ ha, hhex _ hb, hhex _ hc, hhex _ hd]
    simp only [List.cons_append]
    rw [scan_codeUnit _ hvalue, ih]
    rfl

theorem decode_eq_of_stands {pieces : List Piece} {chars : List Char} (h : Stands pieces chars) :
    decode pieces = some chars := by
  induction h with
  | nil => rfl
  | character c _ ih => rw [decode, ih, Option.map_some]
  | codeUnit c _ ih => rw [decode_codeUnit, ih, Option.map_some]
  | @pair c high low _ _ hhigh hlow hc _ ih =>
    have hhigh' : isHighSurrogate high = true := by simpa [isHighSurrogate] using hhigh
    have hlow' : isLowSurrogate low = true := by simpa [isLowSurrogate] using hlow
    rw [decode, if_pos hhigh', if_pos hlow', ih, ← hc, Char.ofNat_toNat]
    rfl

end Quoted

theorem scans_string {text : List Char} {pieces : List Piece} (h : StringText text pieces) :
    Scans text [.string ((Quoted.decode pieces).map String.ofList)] := by
  obtain ⟨inside, hwritten, rfl⟩ := h
  refine Scans.token (by decide) fun rest => ?_
  rw [List.append_eq, List.append_assoc, List.singleton_append, scanToken?,
    Quoted.scan_written hwritten]
  rfl

/-! ### Values -/

namespace Reads

variable {text more : List Char} {tokens others : List Token}

theorem ofScans (h : Scans text tokens) : Reads text tokens := fun rest _ => h rest

theorem append (h : Reads text tokens) (hm : Reads more others) (hapart : Apart more) :
    Reads (text ++ more) (tokens ++ others) := by
  intro rest hrest
  rw [List.append_assoc, h _ (hapart.append hrest), hm rest hrest]
  cases scan? rest <;> simp

theorem prepend (hm : Scans more others) (h : Reads text tokens) :
    Reads (more ++ text) (others ++ tokens) := by
  intro rest hrest
  rw [List.append_assoc, hm, h rest hrest]
  cases scan? rest <;> simp

theorem scans_spaces (h : Spaces text) : Scans text [] := by
  induction text with
  | nil => exact .nil
  | cons c text ih =>
    intro rest
    rw [List.cons_append, scan?, if_pos (h.isSpace List.mem_cons_self).1,
      ih (List.forall_mem_cons.mp h).2 rest]

/-- Space around a text is read as nothing. -/
theorem padded {part : List Char} (h : Reads part tokens) (hpad : Padded part text) :
    Reads text tokens := by
  obtain ⟨before, after, hbefore, hafter, rfl⟩ := hpad
  have hend := h.append (ofScans (scans_spaces hafter)) hafter.apart
  rw [List.append_nil] at hend
  rw [List.append_assoc]
  exact hend.prepend (scans_spaces hbefore)

theorem ofText? {document : Document} (h : Reads text document.tokens) :
    Document.ofText? text = some document := by
  have hscan := h [] nofun
  rw [List.append_nil, scan?, Option.map_some, List.append_nil] at hscan
  rw [Document.ofText?, hscan, Option.bind_some, Document.ofTokens?_tokens]

end Reads

theorem Document.tokensOfItems_cons (item : Document) {items : List Document} (h : items ≠ []) :
    tokensOfItems (item :: items) = item.tokens ++ .comma :: tokensOfItems items := by
  obtain ⟨next, others, rfl⟩ := List.exists_cons_of_ne_nil h
  rfl

theorem Document.tokensOfMembers_cons (key : Option String) (value : Document)
    {members : List (Option String × Document)} (h : members ≠ []) :
    tokensOfMembers ((key, value) :: members) =
      .string key :: .colon :: value.tokens ++ .comma :: tokensOfMembers members := by
  obtain ⟨next, others, rfl⟩ := List.exists_cons_of_ne_nil h
  rfl

theorem reads_name {text : List Char} {pieces : List Piece} (h : NameText text pieces) :
    Reads text [.string ((Quoted.decode pieces).map String.ofList)] := by
  obtain ⟨key, hstring, hpad⟩ := h
  exact Reads.padded (.ofScans (scans_string hstring)) hpad

/-- The name and the value of a member, with the colon between them. -/
theorem reads_member {name text value : List Char} {pieces : List Piece} {document : Document}
    (hname : NameText name pieces) (hvalue : Reads value document.tokens)
    (hpad : Padded value text) :
    Reads (name ++ ':' :: text)
      (.string ((Quoted.decode pieces).map String.ofList) :: .colon :: document.tokens) := by
  have hcolon : Scans [':'] [.colon] := .token rfl fun _ => rfl
  exact (reads_name hname).append ((hvalue.padded hpad).prepend hcolon) (.cons rfl _)

theorem Reads.listed {text rest : List Char} {tokens others : List Token} (h : Reads text tokens)
    (hrest : Reads rest others) : Reads (text ++ ',' :: rest) (tokens ++ .comma :: others) := by
  have hcomma : Scans [','] [.comma] := .token rfl fun _ => rfl
  exact h.append (hrest.prepend hcomma) (.cons rfl _)

theorem Reads.array {text : List Char} {items : List Document}
    (h : Reads text (Document.tokensOfItems items)) :
    Reads ('[' :: text ++ [']']) (Document.array items).tokens := by
  have hopen : Scans ['['] [.openArray] := .token rfl fun _ => rfl
  have hclose : Scans [']'] [.closeArray] := .token rfl fun _ => rfl
  exact (h.prepend hopen).append (.ofScans hclose) (.cons rfl _)

theorem Reads.object {text : List Char} {members : List (Option String × Document)}
    (h : Reads text (Document.tokensOfMembers members)) :
    Reads ('\x7b' :: text ++ ['\x7d']) (Document.object members).tokens := by
  have hopen : Scans ['\x7b'] [.openObject] := .token rfl fun _ => rfl
  have hclose : Scans ['\x7d'] [.closeObject] := .token rfl fun _ => rfl
  exact (h.prepend hopen).append (.ofScans hclose) (.cons rfl _)

mutual

/-- Every value is read as a document. -/
theorem ValueText.reads {text : List Char} (h : ValueText text) :
    ∃ document : Document, Reads text document.tokens := by
  match h with
  | .null => exact ⟨.null, .ofScans scans_null⟩
  | .bool value => exact ⟨.bool value, .ofScans (scans_bool value)⟩
  | .number hnumber => exact ⟨.number _, reads_number hnumber⟩
  | .string hstring => exact ⟨.string _, .ofScans (scans_string hstring)⟩
  | .array hitems =>
    obtain ⟨documents, hdocuments, -⟩ := hitems.reads
    exact ⟨.array documents, hdocuments.array⟩
  | .object hmembers =>
    obtain ⟨documents, hdocuments, -⟩ := hmembers.reads
    exact ⟨.object documents, hdocuments.object⟩

/-- Items are read as the documents that their texts are. -/
theorem ItemsText.reads {text : List Char} {items : List (List Char)} (h : ItemsText text items) :
    ∃ documents, Reads text (Document.tokensOfItems documents) ∧
      documents.map some = items.map Document.ofText? := by
  match h with
  | .none hspace => exact ⟨[], .ofScans (Reads.scans_spaces hspace), rfl⟩
  | .one hitem hpad =>
    obtain ⟨document, hdocument⟩ := hitem.reads
    exact ⟨[document], hdocument.padded hpad, by simp [hdocument.ofText?]⟩
  | .more hitem hpad hrest =>
    obtain ⟨document, hdocument⟩ := hitem.reads
    obtain ⟨documents, hdocuments, hmap⟩ := hrest.reads
    have hne : documents ≠ [] := by
      rintro rfl
      cases hmap
    refine ⟨document :: documents, ?_, by simp [hdocument.ofText?, hmap]⟩
    rw [Document.tokensOfItems_cons document hne]
    exact (hdocument.padded hpad).listed hdocuments

/-- Members are read as the documents that the texts of their values are, with the keys for which
their units stand. -/
theorem MembersText.reads {text : List Char} {members : List (List Piece × List Char)}
    (h : MembersText text members) :
    ∃ documents, Reads text (Document.tokensOfMembers documents) ∧
      documents.map (Prod.map id some) =
        members.map (Prod.map (fun pieces => (Quoted.decode pieces).map String.ofList)
          Document.ofText?) := by
  match h with
  | .none hspace => exact ⟨[], .ofScans (Reads.scans_spaces hspace), rfl⟩
  | .one hname hvalue hpad =>
    obtain ⟨document, hdocument⟩ := hvalue.reads
    exact ⟨[(_, document)], reads_member hname hdocument hpad, by simp [hdocument.ofText?]⟩
  | @MembersText.more _ _ _ _ pieces _ _ hname hvalue hpad hrest =>
    obtain ⟨document, hdocument⟩ := hvalue.reads
    obtain ⟨documents, hdocuments, hmap⟩ := hrest.reads
    have hne : documents ≠ [] := by
      rintro rfl
      cases hmap
    let key := (Quoted.decode pieces).map String.ofList
    refine ⟨(key, document) :: documents, ?_, by simp [key, hdocument.ofText?, hmap]⟩
    rw [Document.tokensOfMembers_cons key document hne]
    exact (reads_member hname hdocument hpad).listed hdocuments

end

/-- An object is read as a document with its members. -/
theorem ObjectText.ofText? {text : List Char} {members : List (String × List Char)}
    (h : ObjectText text members) :
    ∃ documents, Document.ofText? text = some (.object documents) ∧
      documents.map (Prod.map id some) = members.map (Prod.map some Document.ofText?) := by
  obtain ⟨inside, written, hmembers, hpad, hnames⟩ := h
  obtain ⟨documents, hdocuments, hmap⟩ := hmembers.reads
  refine ⟨documents, (hdocuments.object.padded hpad).ofText?, hmap.trans ?_⟩
  clear hmap hmembers
  induction hnames with
  | nil => rfl
  | cons hfirst _ ih =>
    obtain ⟨hstands, hvalue⟩ := hfirst
    have hname := congrArg (Option.map String.ofList) (Quoted.decode_eq_of_stands hstands)
    rw [Option.map_some, String.ofList_toList] at hname
    rw [List.map_cons, List.map_cons, ih, Prod.map, Prod.map, hname, hvalue]

end Sentential.Json
