import Sentential.Proofs.Symbolic.Acceptance

/-! The strict and the permissive scanner. Both find the same tokens at the same offsets, and the
strict one finds the foreign characters besides. So a strict reading refuses a text for its first
foreign character, whatever else is wrong with it, and agrees with the permissive reading on every
other text. -/

namespace Sentential

namespace Symbolic

/-- The character is in no formula, and it is not blank. -/
def Foreign (c : Char) : Prop := Token.ofChar? c = none ∧ Text.isBlank c = false

variable {strict : Bool} {c d : Char} {t : Token}

theorem lexeme?_eq_token : lexeme? strict c = some (.token t) ↔ Token.ofChar? c = some t := by
  unfold lexeme?
  cases Token.ofChar? c with
  | some u => simp
  | none => cases strict <;> cases Text.isBlank c <;> simp

theorem lexeme?_eq_illegal :
    lexeme? strict c = some (.illegal d) ↔ strict = true ∧ Foreign c ∧ d = c := by
  unfold lexeme? Foreign
  cases Token.ofChar? c with
  | some u => simp
  | none => cases strict <;> cases Text.isBlank c <;> simp [eq_comm]

/-- A character without a lexeme is in no formula, and a strict scanner passes over blanks alone. -/
theorem lexeme?_eq_none :
    lexeme? strict c = none ↔
      Token.ofChar? c = none ∧ (strict = true → Text.isBlank c = true) := by
  unfold lexeme?
  cases Token.ofChar? c with
  | some u => simp
  | none => cases strict <;> cases Text.isBlank c <;> simp

/-- The lexemes of a text: they are in the order of their offsets, each is made from the character
at its offset, and the other characters are in no formula. In a strict scan, foreign characters are
lexemes, and the other characters are blank. -/
structure Scans (strict : Bool) (text : List Char) (lexemes : List Located) : Prop where
  increasing : lexemes.Pairwise fun a b => a.offset < b.offset
  made : ∀ l ∈ lexemes, ∃ c, text[l.offset]? = some c ∧
    ((∃ t, l.lexeme = .token t ∧ Token.ofChar? c = some t) ∨
      strict = true ∧ Foreign c ∧ l.lexeme = .illegal c)
  skipped : ∀ i c, text[i]? = some c → (∀ l ∈ lexemes, l.offset ≠ i) →
    Token.ofChar? c = none ∧ (strict = true → Text.isBlank c = true)

theorem Scanner.locatedFrom_eq_filterMap (strict : Bool) (cs : List Char) (offset : Nat) :
    locatedFrom strict cs offset =
      (cs.zipIdx offset).filterMap fun entry => (lexeme? strict entry.1).map (⟨·, entry.2⟩) := by
  induction cs generalizing offset with
  | nil => rfl
  | cons c cs ih =>
    rw [locatedFrom, List.zipIdx_cons, List.filterMap_cons]
    cases lexeme? strict c with
    | none => exact ih _
    | some lexeme => exact congrArg (⟨lexeme, offset⟩ :: ·) (ih _)

theorem mem_located {text : String} {l : Located} :
    l ∈ located strict text ↔
      ∃ c, text.toList[l.offset]? = some c ∧ lexeme? strict c = some l.lexeme := by
  rw [located_eq, Scanner.locatedFrom_eq_filterMap, List.mem_filterMap]
  constructor
  · rintro ⟨⟨c, i⟩, hc, hl⟩
    obtain ⟨lexeme, hlexeme, rfl⟩ := Option.map_eq_some_iff.mp hl
    exact ⟨c, List.mk_mem_zipIdx_iff_getElem?.mp hc, hlexeme⟩
  · rintro ⟨c, hc, hlexeme⟩
    refine ⟨(c, l.offset), List.mk_mem_zipIdx_iff_getElem?.mpr hc, ?_⟩
    rw [hlexeme]
    rfl

theorem pairwise_zipIdx (cs : List Char) (offset : Nat) :
    (cs.zipIdx offset).Pairwise fun a b => a.2 < b.2 := by
  have hoffsets : ((cs.zipIdx offset).map Prod.snd).Pairwise (· < ·) := by
    rw [List.zipIdx_map_snd]
    exact List.pairwise_lt_range'
  exact List.pairwise_map.mp hoffsets

theorem scans_located (strict : Bool) (text : String) :
    Scans strict text.toList (located strict text) := by
  constructor
  · rw [located_eq, Scanner.locatedFrom_eq_filterMap]
    refine (pairwise_zipIdx text.toList 0).filterMap _ fun a b hab l hl l' hl' => ?_
    obtain ⟨_, -, rfl⟩ := Option.map_eq_some_iff.mp hl
    obtain ⟨_, -, rfl⟩ := Option.map_eq_some_iff.mp hl'
    exact hab
  · intro l hl
    obtain ⟨c, hc, hlexeme⟩ := mem_located.mp hl
    refine ⟨c, hc, ?_⟩
    cases hl : l.lexeme with
    | token t => exact .inl ⟨t, rfl, lexeme?_eq_token.mp (hl ▸ hlexeme)⟩
    | illegal d =>
      obtain ⟨hstrict, hforeign, rfl⟩ := lexeme?_eq_illegal.mp (hl ▸ hlexeme)
      exact .inr ⟨hstrict, hforeign, rfl⟩
    | theEnd => exact absurd (hl ▸ hlexeme) (lexeme?_ne_theEnd strict c)
  · intro i c hc hnone
    cases hlexeme : lexeme? strict c with
    | none => exact lexeme?_eq_none.mp hlexeme
    | some lexeme => exact absurd rfl (hnone ⟨lexeme, i⟩ (mem_located.mpr ⟨c, hc, hlexeme⟩))

theorem filter_lexeme? (c : Char) (offset : Nat) :
    ((lexeme? true c).map (Located.mk · offset)).filter (·.illegal?.isNone) =
      (lexeme? false c).map (Located.mk · offset) := by
  unfold lexeme?
  cases Token.ofChar? c with
  | some t => rfl
  | none => cases Text.isBlank c <;> rfl

theorem filter_located (text : String) :
    (located true text).filter (·.illegal?.isNone) = located false text := by
  rw [located_eq, located_eq, Scanner.locatedFrom_eq_filterMap, Scanner.locatedFrom_eq_filterMap,
    List.filter_filterMap]
  congr 1
  funext entry
  exact filter_lexeme? entry.1 entry.2

theorem map_lexeme_located (text : String) :
    (located false text).map (·.lexeme) = (tokenize text).map .token := by
  rw [located_eq, tokenize]
  generalize 0 = offset
  induction text.toList generalizing offset with
  | nil => rfl
  | cons c cs ih =>
    rw [Scanner.locatedFrom, lexeme?, List.filterMap_cons]
    cases Token.ofChar? c with
    | none => exact ih _
    | some t => exact congrArg (.token t :: ·) (ih _)

theorem Scanner.locatedFrom_append (strict : Bool) (before after : List Char) (offset : Nat) :
    locatedFrom strict (before ++ after) offset =
      locatedFrom strict before offset ++ locatedFrom strict after (offset + before.length) := by
  simp only [locatedFrom_eq_filterMap, List.zipIdx_append, List.filterMap_append]

/-- A strict reader stops at the first foreign character. -/
theorem Reader.illegal_ofText {text : String} {before after : List Char}
    (htext : text.toList = before ++ c :: after) (hbefore : ∀ d ∈ before, ¬Foreign d)
    (hc : Foreign c) : (ofText true text).illegal = some (c, before.length) := by
  have hlegal : ∀ d ∈ before, ∀ e, lexeme? true d ≠ some (.illegal e) :=
    fun d hd e he => hbefore d hd (lexeme?_eq_illegal.mp he).2.1
  have hlexeme : lexeme? true c = some (.illegal c) := lexeme?_eq_illegal.mpr ⟨rfl, hc, rfl⟩
  show (located true text).findSome? Located.illegal? = some (c, before.length)
  rw [located_eq, htext, Scanner.locatedFrom_append, List.findSome?_append,
    List.findSome?_eq_none_iff.mpr (Scanner.illegal_locatedFrom hlegal 0), Option.none_or,
    Scanner.locatedFrom, hlexeme, Nat.zero_add]
  rfl

end Symbolic

namespace Formula

open Symbolic

theorem ofText_permissive (text : String) :
    Formula.ofText false text = readTokens (tokenize text) :=
  Reader.parse_ofText fun c _ => not_illegal_of_permissive c

theorem ofText_strict {text : String} (h : ∀ c ∈ text.toList, ¬Foreign c) :
    Formula.ofText true text = readTokens (tokenize text) :=
  Reader.parse_ofText fun c hc _ he => h c hc (lexeme?_eq_illegal.mp he).2.1

/-- Without its foreign characters, what a strict scanner finds is what a permissive one finds, and
each finds all there is. A strict reading fails at the first foreign character, and equals the
permissive reading if there is none. The permissive reading is that of the tokens alone, and it does
not change with characters that are in no formula. -/
theorem ofText_strict_permissive (text : String) :
    (located true text).filter (·.illegal?.isNone) = located false text ∧
      (∀ strict, Scans strict text.toList (located strict text)) ∧
      (∀ before c after, text.toList = before ++ c :: after → (∀ d ∈ before, ¬Foreign d) →
        Foreign c → Formula.ofText true text = .error (.illegalCharacter c before.length)) ∧
      ((∀ c ∈ text.toList, ¬Foreign c) → Formula.ofText true text = Formula.ofText false text) ∧
      (located false text).map (·.lexeme) = (tokenize text).map .token ∧
      Formula.ofText false text = (Reader.ofLexemes ((tokenize text).map .token)).parse.1 ∧
      ∀ before inserted after, text.toList = before ++ inserted ++ after →
        (∀ c ∈ inserted, Token.ofChar? c = none) →
        Formula.ofText false text = Formula.ofText false (String.ofList (before ++ after)) := by
  refine ⟨filter_located text, fun strict => scans_located strict text, ?_, ?_,
    map_lexeme_located text, ?_, ?_⟩
  · intro before c after htext hbefore hc
    rw [Formula.ofText, Reader.parse, Reader.illegal_ofText htext hbefore hc]
  · intro h
    rw [ofText_strict h, ofText_permissive]
  · rw [ofText_permissive, Reader.parse_ofTokens]
  · intro before inserted after htext hinserted
    rw [ofText_permissive, ofText_permissive, tokenize, tokenize, htext, String.toList_ofList,
      List.filterMap_append, List.filterMap_append, List.filterMap_append,
      List.filterMap_eq_nil_iff.mpr hinserted, List.append_nil]

/-- In `(P ? Q #`, the fault is the first foreign character, although a connective and a parenthesis
are missing too. -/
theorem ofText_strict_permissive_question :
    Formula.ofText true "(P ? Q #" = .error (.illegalCharacter '?' 3) ∧
      Formula.ofText false "(P ? Q #" = Formula.ofText false "(P Q #" := by
  obtain ⟨-, -, hstrict, -, -, -, hpermissive⟩ := ofText_strict_permissive "(P ? Q #"
  constructor
  · have hbefore : ∀ d ∈ ['(', 'P', ' '], ¬Foreign d := by
      rintro d hd ⟨hd', hblank⟩
      simp only [List.mem_cons, List.not_mem_nil, or_false] at hd
      rcases hd with rfl | rfl | rfl
      · cases hd'
      · cases hd'
      · cases hblank
    exact hstrict ['(', 'P', ' '] '?' [' ', 'Q', ' ', '#'] rfl hbefore ⟨rfl, rfl⟩
  · have hinserted : ∀ c ∈ [' ', '?'], Token.ofChar? c = none :=
      List.forall_mem_cons.mpr ⟨rfl, List.forall_mem_singleton.mpr rfl⟩
    exact hpermissive ['(', 'P'] [' ', '?'] [' ', 'Q', ' ', '#'] rfl hinserted

end Formula

end Sentential
