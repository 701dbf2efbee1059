import Sentential.Proofs.Symbolic.RoundTrip

/-! Which token lists start a formula. Only two things about the tokens so far matter to those that
may follow: if an operand has to come next, and how many parentheses are open. Tokens that keep to
this can always be completed, and they are a formula if nothing is missing. -/

namespace Sentential.Symbolic

/-- The tokens are a formula, however deep. -/
def Formed (ts : List Token) : Prop := ∃ f n, Derives (.binary .iff) ts f n

/-- Some tokens after these make a formula. -/
def Viable (ts : List Token) : Prop := ∃ more, Formed (ts ++ more)

/-- What may follow some tokens: an operand, or else what can stand after one, with the number of
parentheses that are open. -/
structure Outlook where
  operand : Bool
  opened : Nat
deriving DecidableEq, Repr

namespace Outlook

def start : Outlook := ⟨true, 0⟩

/-- The outlook after one more token, if the token may come next. -/
def step : Outlook → Token → Option Outlook
  | ⟨true, k⟩, .atom _ => some ⟨false, k⟩
  | ⟨true, k⟩, .connective .not => some ⟨true, k⟩
  | ⟨true, k⟩, .opening => some ⟨true, k + 1⟩
  | ⟨false, k⟩, .connective (.binary _) => some ⟨true, k⟩
  | ⟨false, k + 1⟩, .closing => some ⟨false, k⟩
  | _, _ => none

def run (o : Outlook) (ts : List Token) : Option Outlook := ts.foldlM step o

theorem run_nil (o : Outlook) : o.run [] = some o := rfl

theorem run_cons (o : Outlook) (t : Token) (ts : List Token) :
    o.run (t :: ts) = (o.step t).bind fun next => next.run ts := rfl

theorem run_append (o : Outlook) (ts us : List Token) :
    o.run (ts ++ us) = (o.run ts).bind fun next => next.run us := by
  simp only [run, List.foldlM_append]
  rfl

theorem run_of_step {o next : Outlook} {t : Token} (h : o.step t = some next) (ts : List Token) :
    o.run (t :: ts) = next.run ts := by
  rw [run_cons, h]
  rfl

theorem run_of_run {o next : Outlook} {ts : List Token} (h : o.run ts = some next)
    (us : List Token) : o.run (ts ++ us) = next.run us := by
  rw [run_append, h]
  rfl

theorem run_closing (k : Nat) : (⟨false, k⟩ : Outlook).run (.replicate k .closing) = some ⟨false, 0⟩ := by
  induction k with
  | zero => rfl
  | succ k ih =>
    rw [List.replicate_succ, run_of_step rfl]
    exact ih

end Outlook

open Outlook

variable {level : Connective} {op : Binary} {ts us : List Token} {f g : Formula} {m n : Nat}

/-- The tokens of a phrase are an operand, and they close the parentheses that they open. -/
theorem Derives.run (h : Derives level ts f n) (k : Nat) :
    (⟨true, k⟩ : Outlook).run ts = some ⟨false, k⟩ := by
  induction h using Derives.levelInduction generalizing k with
  | atom name => rfl
  | negation _ ih => exact (run_of_step rfl _).trans (ih k)
  | parentheses _ ih =>
    rw [List.cons_append, run_of_step rfl, run_of_run (ih (k + 1))]
    rfl
  | operand op _ ih => exact ih k
  | left op _ _ _ ihf ihg =>
    rw [run_of_run (ihf k), run_of_step rfl]
    exact ihg k
  | right op _ _ _ ihf ihg =>
    rw [run_of_run (ihf k), run_of_step rfl]
    exact ihg k

/-! ### Every completed list is a formula -/

/-- A negation in front of a phrase negates its first operand. -/
theorem Derives.negate (h : Derives level ts f n) :
    ∃ g m, Derives level (.connective .not :: ts) g m := by
  induction h using Derives.levelInduction with
  | atom name => exact ⟨_, _, (Derives.atom name).negation⟩
  | negation h _ => exact ⟨_, _, h.negation.negation⟩
  | parentheses h _ => exact ⟨_, _, h.parentheses.negation⟩
  | operand op _ ih =>
    obtain ⟨g, m, hg⟩ := ih
    exact ⟨g, m, hg.operand⟩
  | left op hop _ hg ih _ =>
    obtain ⟨f, m, hf⟩ := ih
    exact ⟨_, _, .left hop hf hg⟩
  | right op hop _ hg ih _ =>
    obtain ⟨f, m, hf⟩ := ih
    exact ⟨_, _, .right hop hf hg⟩

/-- An operand in front of a phrase that binds tighter makes a chain of the two. -/
theorem Derives.chain (hf : Derives .not ts f m) (hg : Derives level us g n)
    (hlevel : (Connective.binary op).precedence < level.precedence) :
    ∃ h k, Derives (.binary op) (ts ++ .connective (.binary op) :: us) h k := by
  have hoperand : Derives op.tighter ts f m := hf.looser (Connective.precedence_le _)
  have htighter := op.precedence_tighter
  cases hop : op.rightAssociative with
  | false => exact ⟨_, _, .left hop hoperand.operand (hg.looser (by omega))⟩
  | true => exact ⟨_, _, .right hop hoperand (hg.looser (by omega))⟩

/-- An operand and a connective in front of a phrase make a phrase of the looser of the two levels:
the operand joins the first operands of the phrase that the connective binds. -/
theorem Derives.prepend (op : Binary) (hf : Derives .not ts f m) (hg : Derives level us g n) :
    ∀ outer : Connective, outer.precedence ≤ level.precedence →
      outer.precedence ≤ (Connective.binary op).precedence →
        ∃ h k, Derives outer (ts ++ .connective (.binary op) :: us) h k := by
  have hchain {level : Connective} {us : List Token} {g : Formula} {n : Nat}
      (hg : Derives level us g n) (hlevel : (Connective.binary op).precedence < level.precedence)
      (outer : Connective) (houter : outer.precedence ≤ (Connective.binary op).precedence) :
      ∃ h k, Derives outer (ts ++ .connective (.binary op) :: us) h k := by
    obtain ⟨h, k, hh⟩ := hf.chain hg hlevel
    exact ⟨h, k, hh.looser houter⟩
  have hunary := Connective.precedence_binary_lt op
  induction hg using Derives.levelInduction with
  | atom name => exact fun outer _ => hchain (.atom name) hunary outer
  | negation hg _ => exact fun outer _ => hchain hg.negation hunary outer
  | parentheses hg _ => exact fun outer _ => hchain hg.parentheses hunary outer
  | operand other _ ih =>
    intro outer hlevel houter
    have htighter := other.precedence_tighter
    exact ih outer (by omega) houter
  | left other hother hfirst hsecond ih _ =>
    intro outer hlevel houter
    by_cases htight : (Connective.binary op).precedence < (Connective.binary other).precedence
    · exact hchain (.left hother hfirst hsecond) htight outer houter
    · obtain ⟨h, k, hh⟩ := ih (.binary other) (Nat.le_refl _) (by omega)
      have hjoined := hh.left hother hsecond
      rw [List.append_assoc, List.cons_append] at hjoined
      exact ⟨_, _, hjoined.looser hlevel⟩
  | right other hother hfirst hsecond ih _ =>
    intro outer hlevel houter
    have htighter := other.precedence_tighter
    rcases Nat.lt_trichotomy (Connective.binary op).precedence
      (Connective.binary other).precedence with hlt | heq | hgt
    · exact hchain (.right hother hfirst hsecond) hlt outer houter
    · -- A chain to the right has the operand as its new first one.
      obtain rfl := Binary.eq_of_precedence heq
      have hoperand : Derives op.tighter ts f m := hf.looser (Connective.precedence_le _)
      exact ⟨_, _, (hoperand.right hother (hfirst.right hother hsecond)).looser hlevel⟩
    · obtain ⟨h, k, hh⟩ := ih other.tighter (Nat.le_refl _) (by omega)
      have hjoined := hh.right hother hsecond
      rw [List.append_assoc, List.cons_append] at hjoined
      exact ⟨_, _, hjoined.looser hlevel⟩

/-- Tokens that leave nothing open but what was open before are a formula, up to where a parenthesis
closes that was open before. -/
theorem exists_derives_of_run (ts : List Token) {k j : Nat} (hj : j ≤ k)
    (h : (⟨true, k⟩ : Outlook).run ts = some ⟨false, j⟩) :
    ∃ us vs, ts = us ++ vs ∧ Formed us ∧ (⟨false, k⟩ : Outlook).run vs = some ⟨false, j⟩ ∧
      (vs = [] ∨ ∃ rest, vs = .closing :: rest) := by
  induction hlen : ts.length using Nat.strongRecOn generalizing ts k with
  | ind len ih =>
  -- After an operand the tokens end, close a parenthesis, or go on with a connective.
  have hafter {us rest : List Token} {f : Formula} {n : Nat} (hus : Derives .not us f n)
      (hrest : (⟨false, k⟩ : Outlook).run rest = some ⟨false, j⟩) (hless : rest.length < len) :
      ∃ vs ws, us ++ rest = vs ++ ws ∧ Formed vs ∧
        (⟨false, k⟩ : Outlook).run ws = some ⟨false, j⟩ ∧
        (ws = [] ∨ ∃ rest, ws = .closing :: rest) := by
    have hformed : Formed us := ⟨f, n, hus.looser (Connective.precedence_le _)⟩
    match rest, hrest with
    | [], hrest => exact ⟨us, [], rfl, hformed, hrest, .inl rfl⟩
    | .closing :: rest, hrest => exact ⟨us, _, rfl, hformed, hrest, .inr ⟨rest, rfl⟩⟩
    | .connective (.binary op) :: rest, hrest =>
      obtain ⟨vs, ws, rfl, ⟨g, m, hg⟩, hws, hend⟩ :=
        ih _ (Nat.lt_of_succ_lt hless) rest hj hrest rfl
      obtain ⟨h, i, hh⟩ := hus.prepend op hg (.binary .iff) (Nat.le_refl _)
        (by cases op <;> decide)
      exact ⟨us ++ .connective (.binary op) :: vs, ws, by simp, ⟨h, i, hh⟩, hws, hend⟩
    | .atom _ :: _, hrest | .connective .not :: _, hrest | .opening :: _, hrest => cases hrest
  match ts, h with
  | .atom name :: rest, h =>
    exact hafter (.atom name) h (hlen ▸ Nat.lt_succ_self _)
  | .connective .not :: rest, h =>
    obtain ⟨us, vs, rfl, ⟨f, n, hf⟩, hvs, hend⟩ := ih _ (hlen ▸ Nat.lt_succ_self _) rest hj h rfl
    exact ⟨.connective .not :: us, vs, rfl, hf.negate, hvs, hend⟩
  | .opening :: rest, h =>
    obtain ⟨us, vs, rfl, ⟨f, n, hf⟩, hvs, hend⟩ :=
      ih _ (hlen ▸ Nat.lt_succ_self _) rest (Nat.le_succ_of_le hj) h rfl
    rcases hend with rfl | ⟨vs, rfl⟩
    · simp only [run_nil, Option.some.injEq, Outlook.mk.injEq, true_and] at hvs
      omega
    · have hless : vs.length < len := by
        simp only [← hlen, List.length_cons, List.length_append]
        omega
      have := hafter hf.parentheses hvs hless
      simpa using this
  | [], h | .closing :: _, h | .connective (.binary _) :: _, h => cases h

theorem formed_iff : Formed ts ↔ start.run ts = some ⟨false, 0⟩ := by
  constructor
  · rintro ⟨f, n, h⟩
    exact h.run 0
  · intro h
    obtain ⟨us, vs, rfl, hformed, hvs, rfl | ⟨rest, rfl⟩⟩ :=
      exists_derives_of_run ts (Nat.le_refl 0) h
    · rwa [List.append_nil]
    · cases hvs

/-- Tokens that keep to their outlook can be completed by an operand, if one is missing, and by the
parentheses that are still to be closed. -/
theorem viable_iff : Viable ts ↔ ∃ o, start.run ts = some o := by
  constructor
  · rintro ⟨more, hmore⟩
    have hrun := formed_iff.mp hmore
    rw [run_append] at hrun
    obtain ⟨o, ho, -⟩ := Option.bind_eq_some_iff.mp hrun
    exact ⟨o, ho⟩
  · rintro ⟨⟨_ | _, k⟩, ho⟩
    · refine ⟨.replicate k .closing, formed_iff.mpr ?_⟩
      rw [run_of_run ho]
      exact run_closing k
    · refine ⟨.atom 'P' :: .replicate k .closing, formed_iff.mpr ?_⟩
      rw [run_of_run ho, run_of_step rfl]
      exact run_closing k

end Sentential.Symbolic
