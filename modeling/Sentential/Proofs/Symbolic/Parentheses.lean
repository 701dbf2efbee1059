import Mathlib.Logic.Relation
import Sentential.Proofs.Symbolic.RoundTrip

/-! Redundant parentheses. From all tokens that derive a formula, the tokens of the formula are left
when pairs of parentheses are removed, and these are nested no deeper. So the text of a formula that
was read is read again, and no text of the formula has fewer parentheses. -/

namespace Sentential

open Symbolic Relation

namespace Symbolic

/-- Each parenthesis among the tokens has its partner among them. -/
inductive Balanced : List Token → Prop
  | nil : Balanced []
  | single {t : Token} : t ≠ .opening → t ≠ .closing → Balanced [t]
  | pair {ts : List Token} : Balanced ts → Balanced (.opening :: ts ++ [.closing])
  | append {ts us : List Token} : Balanced ts → Balanced us → Balanced (ts ++ us)

/-- A pair of parentheses that are partners is removed. -/
inductive Unwraps : List Token → List Token → Prop
  | pair {inside : List Token} (before after : List Token) :
      Balanced inside →
      Unwraps (before ++ (.opening :: inside ++ [.closing]) ++ after) (before ++ inside ++ after)

variable {op : Binary} {level outer : Connective} {ts us : List Token} {f g : Formula} {m n : Nat}

namespace Unwraps

theorem within (before after : List Token) (h : Unwraps ts us) :
    Unwraps (before ++ ts ++ after) (before ++ us ++ after) := by
  cases h with
  | pair before' after' hinside =>
    have hstep := pair (before ++ before') (after' ++ after) hinside
    simpa only [List.append_assoc] using hstep

theorem sublist (h : Unwraps ts us) : us.Sublist ts := by
  cases h with
  | @pair inside before after _ =>
    have hpair : inside.Sublist (.opening :: inside ++ [.closing]) :=
      List.sublist_append_of_sublist_left (List.sublist_cons_self .opening inside)
    exact (hpair.append_left before).append_right after

end Unwraps

theorem unwraps_within (before after : List Token) (h : ReflTransGen Unwraps ts us) :
    ReflTransGen Unwraps (before ++ ts ++ after) (before ++ us ++ after) := by
  induction h with
  | refl => exact .refl
  | tail _ hstep ih => exact ih.tail (hstep.within before after)

theorem sublist_of_unwraps (h : ReflTransGen Unwraps ts us) : us.Sublist ts := by
  induction h with
  | refl => exact .refl ts
  | tail _ hstep ih => exact hstep.sublist.trans ih

/-- Parentheses are removed from both operands of a connective. -/
theorem unwraps_join {ts' us' : List Token} (t : Token) (hts : ReflTransGen Unwraps ts ts')
    (hus : ReflTransGen Unwraps us us') :
    ReflTransGen Unwraps (ts ++ t :: us) (ts' ++ t :: us') := by
  have hfirst := unwraps_within [] (t :: us) hts
  have hsecond := unwraps_within (ts' ++ [t]) [] hus
  simp only [List.append_nil, List.nil_append, List.append_assoc, List.cons_append]
    at hfirst hsecond
  exact hfirst.trans hsecond

theorem balanced_enclose (h : Balanced ts) (needed : Bool) : Balanced (enclose needed ts) := by
  cases needed with
  | false => exact h
  | true => exact h.pair

theorem balanced_tokens (f : Formula) : Balanced f.tokens := by
  have hconnective : ∀ c, Balanced [.connective c] :=
    fun c => .single (fun he => nomatch he) (fun he => nomatch he)
  induction f with
  | atom name => exact .single (fun he => nomatch he) (fun he => nomatch he)
  | not f ih => exact (hconnective .not).append (balanced_enclose ih _)
  | binary op f g ihf ihg =>
    have hright := (hconnective (.binary op)).append (balanced_enclose ihg
      (g.needsParentheses (.binary op) .right))
    exact (balanced_enclose ihf _).append hright

/-- A formula in parentheses loses them where it does not need them. -/
theorem unwraps_tokensAt (f : Formula) (level : Connective) :
    ReflTransGen Unwraps (.opening :: f.tokens ++ [.closing]) (f.tokensAt level) := by
  by_cases hlt : f.precedence < level.precedence
  · rw [f.tokensAt_enclosed hlt]
  · have hpair := Unwraps.pair [] [] (balanced_tokens f)
    rw [List.nil_append, List.append_nil, List.nil_append, List.append_nil] at hpair
    rw [f.tokensAt_bare (Nat.le_of_not_lt hlt)]
    exact .single hpair

/-- When parentheses are removed from the tokens of a phrase, those of its formula are left, and
they are nested no deeper than the phrase. -/
structure Normalizes (level : Connective) (ts : List Token) (f : Formula) (n : Nat) : Prop where
  tokens : ReflTransGen Unwraps ts (f.tokensAt level)
  nesting : f.nestingAt level ≤ n

namespace Normalizes

theorem bare (h : Normalizes level ts f n) (hle : level.precedence ≤ f.precedence) :
    ReflTransGen Unwraps ts f.tokens ∧ f.nesting ≤ n := by
  obtain ⟨htokens, hnesting⟩ := h
  rw [f.tokensAt_bare hle] at htokens
  rw [f.nestingAt_bare hle] at hnesting
  exact ⟨htokens, hnesting⟩

theorem of_bare (htokens : ReflTransGen Unwraps ts f.tokens) (hnesting : f.nesting ≤ n)
    (hle : level.precedence ≤ f.precedence) : Normalizes level ts f n := by
  constructor
  · rw [f.tokensAt_bare hle]
    exact htokens
  · rw [f.nestingAt_bare hle]
    exact hnesting

theorem negation (h : Normalizes .not ts f n) :
    Normalizes .not (.connective .not :: ts) (.not f) (n + 1) := by
  refine of_bare ?_ ?_ (Nat.le_refl _)
  · rw [Formula.tokens_not]
    have hnegation := unwraps_within [.connective .not] [] h.tokens
    rwa [List.append_nil, List.append_nil] at hnegation
  · rw [Formula.nesting_not]
    exact Nat.succ_le_succ h.nesting

theorem parentheses (h : Normalizes (.binary .iff) ts f n) :
    Normalizes .not (.opening :: ts ++ [.closing]) f (n + 1) := by
  obtain ⟨htokens, hnesting⟩ := h.bare f.precedence_pos
  constructor
  · exact (unwraps_within [.opening] [.closing] htokens).trans (unwraps_tokensAt f .not)
  · have := f.nestingAt_le .not
    omega

theorem operand (h : Normalizes op.tighter ts f n) : Normalizes (.binary op) ts f n := by
  have htighter := op.precedence_tighter
  -- A formula that stands in parentheses at a level may stand without at a looser one.
  by_cases hlt : f.precedence < op.tighter.precedence
  · obtain ⟨htokens, hnesting⟩ := h
    rw [f.tokensAt_enclosed hlt] at htokens
    rw [f.nestingAt_enclosed hlt] at hnesting
    constructor
    · exact htokens.trans (unwraps_tokensAt f (.binary op))
    · have := f.nestingAt_le (.binary op)
      omega
  · obtain ⟨htokens, hnesting⟩ := h.bare (by omega)
    exact of_bare htokens hnesting (by omega)

theorem binary (hf : Normalizes (op.operandLevel .left) ts f m)
    (hg : Normalizes (op.operandLevel .right) us g n) :
    Normalizes (.binary op) (ts ++ .connective (.binary op) :: us) (.binary op f g)
      (max m (n + op.rightAssociative.toNat)) := by
  refine of_bare ?_ ?_ (Nat.le_refl _)
  · rw [Formula.tokens_binary]
    exact unwraps_join (.connective (.binary op)) hf.tokens hg.tokens
  · rw [Formula.nesting_binary]
    have := hf.nesting
    have := hg.nesting
    omega

end Normalizes

/-- All tokens of a formula are its own once some parentheses are removed. -/
theorem Derives.normalizes (h : Derives level ts f n) : Normalizes level ts f n := by
  induction h using Derives.levelInduction with
  | atom name => exact .of_bare (f := .atom name) .refl (Nat.le_refl 0) (Nat.le_refl _)
  | negation _ ih => exact ih.negation
  | parentheses _ ih => exact ih.parentheses
  | operand op _ ih => exact ih.operand
  | left op hop _ _ ihf ihg =>
    obtain ⟨hleft, hright⟩ := Binary.operandLevel_leftward hop
    rw [← hleft] at ihf
    rw [← hright] at ihg
    have hjoin := ihf.binary ihg
    rwa [hop] at hjoin
  | right op hop _ _ ihf ihg =>
    obtain ⟨hleft, hright⟩ := Binary.operandLevel_rightward hop
    rw [← hleft] at ihf
    rw [← hright] at ihg
    have hjoin := ihf.binary ihg
    rwa [hop] at hjoin

theorem count_tokenize {t : Token} (h : t.Legible) (text : String) :
    (tokenize text).count t = text.toList.count t.symbol := by
  rw [tokenize]
  induction text.toList with
  | nil => rfl
  | cons c cs ih =>
    rw [List.count_cons, ← ih]
    by_cases hc : c = t.symbol
    · subst hc
      rw [List.filterMap_cons_some h, List.count_cons_self, beq_self_eq_true, if_pos rfl]
    · have hne : ∀ u, Token.ofChar? c = some u → u ≠ t := by
        rintro u hu rfl
        exact hc (Token.symbol_ofChar? hu).symm
      rw [beq_false_of_ne hc]
      cases hu : Token.ofChar? c with
      | none => rw [List.filterMap_cons_none hu]; rfl
      | some u => rw [List.filterMap_cons_some hu, List.count_cons_of_ne (hne u hu)]; rfl

theorem readTokens_of_ofText {strict : Bool} {text : String}
    (h : Formula.ofText strict text = .ok f) : readTokens (tokenize text) = .ok f := by
  have htokens : (located strict text).filterMap (·.lexeme.token?) = tokenize text := by
    rw [located_eq]
    exact Scanner.token_locatedFrom strict text.toList 0
  have hstate : (Reader.ofText strict text).state = ⟨tokenize text, 0, 0⟩ := by
    rw [← htokens]
    rfl
  cases hillegal : (Reader.ofText strict text).illegal with
  | none => rw [← Reader.parse_eq_readTokens hillegal hstate, ← h, Formula.ofText]
  | some found =>
    rw [Formula.ofText, Reader.parse, hillegal] at h
    cases h

end Symbolic

namespace Formula

open Relation

variable {strict : Bool} {text : String} {f : Formula}

/-- The tokens of a formula that was read are left of those that were read, and they stay within
the limits. -/
theorem unwraps_of_ofText (h : Formula.ofText strict text = .ok f) :
    ReflTransGen Unwraps (tokenize text) f.tokens ∧ f.nesting ≤ levelLimit ∧
      f.depth ≤ levelLimit := by
  obtain ⟨n, hderives, hn, hdepth⟩ := readTokens_eq_ok_iff.mp (readTokens_of_ofText h)
  obtain ⟨htokens, hnesting⟩ := hderives.normalizes.bare f.precedence_pos
  exact ⟨htokens, Nat.le_trans hnesting hn, hdepth⟩

theorem legible_of_ofText (h : Formula.ofText strict text = .ok f) : ∀ t ∈ f.tokens, t.Legible :=
  fun _ ht => Token.legible_of_mem_tokenize ((sublist_of_unwraps (unwraps_of_ofText h).1).subset ht)

theorem isLetter_of_ofText (h : Formula.ofText strict text = .ok f) {name : Char}
    (hname : name ∈ f.leaves) : Token.isLetter name = true :=
  Token.isLetter_of_legible (legible_of_ofText h _ (atom_mem_tokens hname))

theorem count_text_le (h : Formula.ofText strict text = .ok f) {t : Token} (ht : t.Legible) :
    f.text.toList.count t.symbol ≤ text.toList.count t.symbol := by
  rw [← count_tokenize ht, ← count_tokenize ht, tokenize_text (legible_of_ofText h)]
  exact (sublist_of_unwraps (unwraps_of_ofText h).1).count_le t

/-- A formula that was read has a text that is read as the formula. -/
theorem ofText_text_of_ofText (h : Formula.ofText strict text = .ok f)
    (mode : Bool) : Formula.ofText mode f.text = .ok f := by
  obtain ⟨-, hnesting, hdepth⟩ := unwraps_of_ofText h
  rw [ofText_text_eq (legible_of_ofText h)]
  exact readTokens_eq_ok_iff.mpr ⟨f.nesting, .formula f, hnesting, hdepth⟩

/-- The text of a formula that was read differs from what was read in pairs of parentheses alone,
which it lacks. It is read again, and no text of the formula has fewer parentheses. -/
theorem text_of_ofText {strict : Bool} {text : String} {f : Formula}
    (h : Formula.ofText strict text = .ok f) :
    ReflTransGen Unwraps (tokenize text) (tokenize f.text) ∧
      (∀ strict, Formula.ofText strict f.text = .ok f) ∧
      ∀ strict text, Formula.ofText strict text = .ok f →
        f.text.toList.count '(' ≤ text.toList.count '(' ∧
          f.text.toList.count ')' ≤ text.toList.count ')' := by
  refine ⟨?_, ofText_text_of_ofText h, fun strict text hread => ⟨?_, ?_⟩⟩
  · rw [tokenize_text (legible_of_ofText h)]
    exact (unwraps_of_ofText h).1
  · exact count_text_le hread Token.legible_opening
  · exact count_text_le hread Token.legible_closing

theorem ofText_redundant :
    Formula.ofText false "((P) ∧ Q)" = .ok (binary .and (atom 'P') (atom 'Q')) := by
  have hfirst : Derives .not [.opening, .atom 'P', .closing] (atom 'P') 1 :=
    (Derives.atom 'P').conjunct.disjunct.conclusion.equivalent.parentheses
  have hinner := (hfirst.conjunct.conjunction (.atom 'Q')).disjunct.conclusion.equivalent
  have houter := hinner.parentheses.conjunct.disjunct.conclusion.equivalent
  exact (Reader.parse_ofText fun c _ => not_illegal_of_permissive c).trans
    (readTokens_eq_ok_iff.mpr ⟨2, houter, by decide, by decide⟩)

/-- `((P) ∧ Q)` loses both pairs. -/
theorem text_of_ofText_conjunction :
    let f := binary .and (atom 'P') (atom 'Q')
    Formula.ofText false "((P) ∧ Q)" = .ok f ∧ f.text = "P ∧ Q" ∧
      ReflTransGen Unwraps (tokenize "((P) ∧ Q)") (tokenize "P ∧ Q") := by
  intro f
  exact ⟨ofText_redundant, by decide, (text_of_ofText ofText_redundant).1⟩

end Formula

end Sentential
