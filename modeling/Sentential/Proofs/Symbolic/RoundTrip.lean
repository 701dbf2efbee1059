import Sentential.Proofs.Symbolic.Acceptance
import Sentential.Symbolic.Writer

/-! Formulas in symbols are read back. The tokens of a formula are a phrase of every level that is
at least as loose as its connective, and in parentheses they are one of every other level, which is
where they are written in parentheses. So the text of a formula is read as the formula, unless the
formula or its text is nested too deeply. -/

namespace Sentential

open Symbolic

/-- The level of an operand on a side of the connective. -/
def Binary.operandLevel (op : Binary) (side : Side) : Connective :=
  if (side == .left) = op.rightAssociative then op.tighter else .binary op

theorem Binary.operandLevel_leftward {op : Binary} (h : op.rightAssociative = false) :
    op.operandLevel .left = .binary op ∧ op.operandLevel .right = op.tighter := by
  rw [operandLevel, operandLevel, h]
  exact ⟨rfl, rfl⟩

theorem Binary.operandLevel_rightward {op : Binary} (h : op.rightAssociative = true) :
    op.operandLevel .left = op.tighter ∧ op.operandLevel .right = .binary op := by
  rw [operandLevel, operandLevel, h]
  exact ⟨rfl, rfl⟩

namespace Formula

/-- The tightest level of which a formula is a phrase without parentheses. -/
def level : Formula → Connective
  | atom _ | not _ => .not
  | binary op _ _ => .binary op

/-- The nesting of the text of a formula: the greatest number of negations, parentheses, and right
sides of `→` that are open at once in it. -/
def nesting : Formula → Nat
  | atom _ => 0
  | not operand => operand.nesting + (operand.needsParentheses .not .right).toNat + 1
  | binary op left right =>
    max (left.nesting + (left.needsParentheses (.binary op) .left).toNat)
      (right.nesting + (right.needsParentheses (.binary op) .right).toNat +
        op.rightAssociative.toNat)

/-- The tokens of a formula as a phrase of a level. -/
def tokensAt (level : Connective) (f : Formula) : List Token :=
  enclose (f.precedence < level.precedence) f.tokens

/-- The nesting of the tokens of a formula as a phrase of a level. -/
def nestingAt (level : Connective) (f : Formula) : Nat :=
  f.nesting + (decide (f.precedence < level.precedence)).toNat

variable {op : Binary} {f g : Formula} {level : Connective}

theorem precedence_level (f : Formula) : f.level.precedence = f.precedence := by
  cases f <;> rfl

theorem tokensAt_bare (h : level.precedence ≤ f.precedence) : f.tokensAt level = f.tokens := by
  simp [tokensAt, enclose, Nat.not_lt.mpr h]

theorem tokensAt_enclosed (h : f.precedence < level.precedence) :
    f.tokensAt level = .opening :: f.tokens ++ [.closing] := by
  simp [tokensAt, enclose, h]

theorem nestingAt_bare (h : level.precedence ≤ f.precedence) : f.nestingAt level = f.nesting := by
  simp [nestingAt, Nat.not_lt.mpr h]

theorem nestingAt_enclosed (h : f.precedence < level.precedence) :
    f.nestingAt level = f.nesting + 1 := by
  simp [nestingAt, h]

theorem nestingAt_le (f : Formula) (level : Connective) : f.nestingAt level ≤ f.nesting + 1 := by
  rw [nestingAt]
  exact Nat.add_le_add_left (Bool.toNat_le _) _

/-- An operand is written as a phrase of the level that is read there. -/
theorem needsParentheses_binary (op : Binary) (side : Side) (f : Formula) :
    f.needsParentheses (.binary op) side =
      decide (f.precedence < (op.operandLevel side).precedence) := by
  rw [needsParentheses, Binary.operandLevel, Bool.eq_iff_iff]
  by_cases hside : (side == .left) = op.rightAssociative
  · rw [if_pos hside, op.precedence_tighter]
    simp only [Connective.isBinary, Connective.rightAssociative, hside, beq_self_eq_true,
      Bool.and_true, Bool.or_eq_true, decide_eq_true_eq, beq_iff_eq]
    omega
  · rw [if_neg hside]
    simp only [Connective.isBinary, Connective.rightAssociative, beq_eq_false_iff_ne.mpr hside,
      Bool.and_false, Bool.or_false]

theorem needsParentheses_not (side : Side) (f : Formula) :
    f.needsParentheses .not side = decide (f.precedence < Connective.not.precedence) := by
  rw [needsParentheses, Connective.isBinary, Bool.and_false, Bool.false_and, Bool.or_false]

theorem tokens_not (f : Formula) : (not f).tokens = .connective .not :: f.tokensAt .not := by
  rw [tokens, needsParentheses_not, tokensAt]

theorem tokens_binary (op : Binary) (f g : Formula) :
    (binary op f g).tokens = f.tokensAt (op.operandLevel .left) ++
      .connective (.binary op) :: g.tokensAt (op.operandLevel .right) := by
  rw [tokens, needsParentheses_binary, needsParentheses_binary, tokensAt, tokensAt]

theorem nesting_not (f : Formula) : (not f).nesting = f.nestingAt .not + 1 := by
  rw [nesting, needsParentheses_not, nestingAt]

theorem nesting_binary (op : Binary) (f g : Formula) :
    (binary op f g).nesting = max (f.nestingAt (op.operandLevel .left))
      (g.nestingAt (op.operandLevel .right) + op.rightAssociative.toNat) := by
  rw [nesting, needsParentheses_binary, needsParentheses_binary, nestingAt, nestingAt]

end Formula

namespace Symbolic

variable {ts : List Token} {f : Formula} {n : Nat}

/-- A phrase of a level is one of every looser level. -/
theorem Derives.looser {level outer : Connective} (h : Derives level ts f n)
    (hle : outer.precedence ≤ level.precedence) : Derives outer ts f n := by
  induction outer using Connective.tighterInduction with
  | not =>
    have heq : level = .not := Connective.eq_of_precedence (Nat.le_antisymm level.precedence_le hle)
    exact heq ▸ h
  | binary op ih =>
    rcases Nat.lt_or_eq_of_le hle with hlt | heq
    · refine (ih ?_).operand
      rw [op.precedence_tighter]
      exact hlt
    · exact Connective.eq_of_precedence heq ▸ h

/-- Tokens that are a formula at the level of its connective are one at every level, once they are
in parentheses where these are needed. -/
theorem Derives.tokensAt (h : Derives f.level f.tokens f f.nesting) (level : Connective) :
    Derives level (f.tokensAt level) f (f.nestingAt level) := by
  by_cases hlt : f.precedence < level.precedence
  · rw [Formula.tokensAt_enclosed hlt, Formula.nestingAt_enclosed hlt]
    have hinner : Derives (.binary .iff) f.tokens f f.nesting := by
      refine h.looser ?_
      rw [f.precedence_level]
      exact f.precedence_pos
    exact hinner.parentheses.looser level.precedence_le
  · have hle := Nat.le_of_not_lt hlt
    rw [Formula.tokensAt_bare hle, Formula.nestingAt_bare hle]
    exact h.looser (f.precedence_level ▸ hle)

/-- The tokens of a formula are the formula at every level. -/
theorem Derives.ofFormula (f : Formula) (level : Connective) :
    Derives level (f.tokensAt level) f (f.nestingAt level) := by
  induction f generalizing level with
  | atom name => exact Derives.tokensAt (f := .atom name) (.atom name) level
  | not f ih =>
    refine Derives.tokensAt ?_ level
    rw [Formula.tokens_not, Formula.nesting_not]
    exact (ih .not).negation
  | binary op f g ihf ihg =>
    refine Derives.tokensAt ?_ level
    rw [Formula.tokens_binary, Formula.nesting_binary]
    have hf := ihf (op.operandLevel .left)
    have hg := ihg (op.operandLevel .right)
    cases hop : op.rightAssociative with
    | false =>
      obtain ⟨hleft, hright⟩ := Binary.operandLevel_leftward hop
      rw [hleft] at hf ⊢
      rw [hright] at hg ⊢
      exact .left hop hf hg
    | true =>
      obtain ⟨hleft, hright⟩ := Binary.operandLevel_rightward hop
      rw [hleft] at hf ⊢
      rw [hright] at hg ⊢
      exact .right hop hf hg

theorem Derives.formula (f : Formula) : Derives (.binary .iff) f.tokens f f.nesting := by
  have hle : (Connective.binary .iff).precedence ≤ f.precedence := f.precedence_pos
  have h := ofFormula f (.binary .iff)
  rwa [Formula.tokensAt_bare hle, Formula.nestingAt_bare hle] at h

/-- A token that is read back from its character. -/
def Token.Legible (t : Token) : Prop := ofChar? t.symbol = some t

namespace Token

theorem legible_connective (c : Connective) : (connective c).Legible := ofChar?_connective c

theorem legible_opening : opening.Legible := ofChar?_opening

theorem legible_closing : closing.Legible := ofChar?_closing

theorem legible_of_ofChar? {c : Char} {t : Token} (h : ofChar? c = some t) : t.Legible := by
  rw [Legible, symbol_ofChar? h]
  exact h

theorem isLetter_of_legible {name : Char} (h : (atom name).Legible) : isLetter name = true := by
  unfold Legible ofChar? at h
  split at h
  · cases h
  · split at h
    · cases h
    · split at h
      · cases h
      · split at h
        · next hletter => exact hletter
        · cases h

theorem legible_of_mem_tokenize {text : String} {t : Token} (h : t ∈ tokenize text) :
    t.Legible := by
  obtain ⟨c, -, hc⟩ := List.mem_filterMap.mp h
  exact legible_of_ofChar? hc

theorem mem_spelling {c : Char} {t : Token} (h : c ∈ t.spelling) : c = ' ' ∨ c = t.symbol := by
  match t with
  | connective (.binary op) =>
    simp only [spelling, List.mem_cons, List.not_mem_nil, or_false] at h
    rcases h with h | h | h
    · exact .inl h
    · exact .inr h
    · exact .inl h
  | atom _ | connective .not | opening | closing => exact .inr (List.mem_singleton.mp h)

theorem filterMap_spelling {t : Token} (h : t.Legible) : t.spelling.filterMap ofChar? = [t] := by
  match t with
  | connective (.binary op) => cases op <;> rfl
  | atom _ | connective .not | opening | closing => exact List.filterMap_cons_some h

theorem not_illegal_of_mem_spelling {t : Token} (h : t.Legible) {strict : Bool} {c : Char}
    (hc : c ∈ t.spelling) (d : Char) : lexeme? strict c ≠ some (.illegal d) := by
  rcases mem_spelling hc with rfl | rfl
  · intro he
    cases strict <;> cases he
  · intro he
    rw [lexeme?, h] at he
    cases he

end Token

theorem tokenize_spelling (h : ∀ t ∈ ts, t.Legible) :
    tokenize (String.ofList (ts.flatMap Token.spelling)) = ts := by
  rw [tokenize, String.toList_ofList, List.filterMap_flatMap]
  induction ts with
  | nil => rfl
  | cons t ts ih =>
    have hrest : ∀ t ∈ ts, t.Legible := fun u hu => h u (List.mem_cons_of_mem t hu)
    rw [List.flatMap_cons, Token.filterMap_spelling (h t List.mem_cons_self), ih hrest]
    rfl

end Symbolic

namespace Formula

variable {f : Formula}

theorem tokenize_text (h : ∀ t ∈ f.tokens, t.Legible) : tokenize f.text = f.tokens :=
  tokenize_spelling h

/-- A text is read as its tokens are, whether or not the reading is strict. -/
theorem ofText_text_eq (h : ∀ t ∈ f.tokens, t.Legible) (strict : Bool) :
    Formula.ofText strict f.text = readTokens f.tokens := by
  have hread : Formula.ofText strict f.text = readTokens (tokenize f.text) := by
    refine Reader.parse_ofText fun c hc => ?_
    rw [text, String.toList_ofList] at hc
    obtain ⟨t, ht, hct⟩ := List.mem_flatMap.mp hc
    exact Token.not_illegal_of_mem_spelling (h t ht) hct
  rw [hread, tokenize_text h]

theorem legible_enclose {ts : List Token} (h : ∀ t ∈ ts, t.Legible) (needed : Bool) :
    ∀ t ∈ enclose needed ts, t.Legible := by
  cases needed with
  | false => exact h
  | true =>
    intro t ht
    simp only [enclose, if_true, List.cons_append, List.mem_cons, List.mem_append,
      List.not_mem_nil, or_false] at ht
    rcases ht with rfl | ht | rfl
    · exact Token.legible_opening
    · exact h t ht
    · exact Token.legible_closing

theorem legible_tokens (hletters : ∀ name ∈ f.leaves, Token.isLetter name = true) :
    ∀ t ∈ f.tokens, t.Legible := by
  induction f with
  | atom name =>
    have hname := hletters name (List.mem_singleton_self name)
    exact List.forall_mem_singleton.mpr (Token.ofChar?_atom hname)
  | not f ih =>
    rw [tokens, List.forall_mem_cons]
    exact ⟨Token.legible_connective .not, legible_enclose (ih hletters) _⟩
  | binary op f g ihf ihg =>
    have hf := fun name hname => hletters name (List.mem_append_left _ hname)
    have hg := fun name hname => hletters name (List.mem_append_right _ hname)
    rw [tokens, List.forall_mem_append, List.forall_mem_cons]
    exact ⟨legible_enclose (ihf hf) _, Token.legible_connective (.binary op),
      legible_enclose (ihg hg) _⟩

theorem atom_mem_tokens {name : Char} (h : name ∈ f.leaves) : Token.atom name ∈ f.tokens := by
  have henclose {ts : List Token} (needed : Bool) (ht : Token.atom name ∈ ts) :
      Token.atom name ∈ enclose needed ts := by
    cases needed <;> simp [enclose, ht]
  induction f with
  | atom name => simpa [leaves, tokens] using h
  | not f ih => exact List.mem_cons_of_mem _ (henclose _ (ih h))
  | binary op f g ihf ihg =>
    rw [tokens, List.mem_append, List.mem_cons]
    rcases List.mem_append.mp h with h | h
    · exact .inl (henclose _ (ihf h))
    · exact .inr (.inr (henclose _ (ihg h)))

/-- All atoms are letters from `A` to `Z`. -/
def OverLetters (f : Formula) : Prop := ∀ name ∈ f.atoms, Token.isLetter name = true

theorem OverLetters.legible (h : OverLetters f) : ∀ t ∈ f.tokens, t.Legible :=
  legible_tokens fun name hname => h name (mem_atoms.mpr hname)

/-- The text of a formula over letters derives the formula with the nesting of the text, and it is
read as the formula if the depth and the nesting are at most 256. Otherwise it is too deep. -/
theorem ofText_text (f : Formula) (hletters : OverLetters f) :
    Derives (.binary .iff) (tokenize f.text) f f.nesting ∧
      ∀ strict, Formula.ofText strict f.text =
        if f.depth ≤ 256 ∧ f.nesting ≤ 256 then .ok f else .error (.tooDeep 256) := by
  have hderives := Derives.formula f
  refine ⟨(tokenize_text hletters.legible).symm ▸ hderives, fun strict => ?_⟩
  rw [ofText_text_eq hletters.legible]
  split
  · next hwithin =>
    exact readTokens_eq_ok_iff.mpr ⟨f.nesting, hderives, hwithin.2, hwithin.1⟩
  · next hbeyond => exact readTokens_tooDeep hderives fun h => hbeyond ⟨h.2, h.1⟩

/-- `¬(P → Q)`, in which three levels are open at `Q`. -/
theorem ofText_text_negated_implication :
    let f := not (binary .implies (atom 'P') (atom 'Q'))
    OverLetters f ∧ f.text = "¬(P → Q)" ∧ f.nesting = 3 ∧
      Formula.ofText true "¬(P → Q)" = .ok f := by
  intro f
  have hatoms : f.atoms = ['P', 'Q'] := rfl
  have hletters : OverLetters f := by
    rw [OverLetters, hatoms, List.forall_mem_cons, List.forall_mem_singleton]
    exact ⟨rfl, rfl⟩
  have htext : f.text = "¬(P → Q)" := by decide
  refine ⟨hletters, htext, by decide, ?_⟩
  rw [← htext, (ofText_text f hletters).2 true]
  exact if_pos (by decide)

end Formula

end Sentential
