import Mathlib.Logic.Relation
import Sentential.Proofs.Symbolic.Resumption

/-! What the readers keep to. To read a phrase is to attempt the phrases in it one after the other,
and each attempt starts further on, or at the same token and at a tighter level. A level that is
entered for an attempt is still open when the phrase comes back, and the phrase comes back with the
depth of its formula. No reader ever sees a foreign character, for these are refused before anything
is read. -/

namespace Sentential.Symbolic

open Relation

/-- The attempt to read a phrase of the level from a state. -/
structure Attempt where
  level : Connective
  start : State

/-- Read from `s`, a chain of `op` is the phrase `chain` so far, and the state is `mid`. -/
inductive Chains (limit : Nat) (op : Binary) (s : State) : Phrase → State → Prop
  | first {chain : Phrase} {mid : State} :
      s.reading limit op.tighter = .ok (chain, mid) → Chains limit op s chain mid
  | next {chain right : Phrase} {rest : List Token} {p k : Nat} {mid : State} :
      op.rightAssociative = false →
      Chains limit op s chain ⟨.connective (.binary op) :: rest, p, k⟩ →
      (⟨rest, p + 1, k⟩ : State).reading limit op.tighter = .ok (right, mid) →
      (Phrase.binary op chain right).depth ≤ limit →
      Chains limit op s (.binary op chain right) mid

/-- The first attempt makes the second, to read an operand of its phrase. -/
inductive Makes (limit : Nat) : Attempt → Attempt → Prop
  | negated {rest : List Token} {p k : Nat} :
      k + 1 ≤ limit →
      Makes limit ⟨.not, ⟨.connective .not :: rest, p, k⟩⟩ ⟨.not, ⟨rest, p + 1, k + 1⟩⟩
  | enclosed {rest : List Token} {p k : Nat} :
      k + 1 ≤ limit →
      Makes limit ⟨.not, ⟨.opening :: rest, p, k⟩⟩ ⟨.binary .iff, ⟨rest, p + 1, k + 1⟩⟩
  | first (op : Binary) (s : State) : Makes limit ⟨.binary op, s⟩ ⟨op.tighter, s⟩
  | left {op : Binary} {s : State} {chain : Phrase} {rest : List Token} {p k : Nat} :
      op.rightAssociative = false →
      Chains limit op s chain ⟨.connective (.binary op) :: rest, p, k⟩ →
      Makes limit ⟨.binary op, s⟩ ⟨op.tighter, ⟨rest, p + 1, k⟩⟩
  | right {op : Binary} {s : State} {chain : Phrase} {rest : List Token} {p k : Nat} :
      op.rightAssociative = true →
      Chains limit op s chain ⟨.connective (.binary op) :: rest, p, k⟩ →
      k + 1 ≤ limit →
      Makes limit ⟨.binary op, s⟩ ⟨.binary op, ⟨rest, p + 1, k + 1⟩⟩

namespace Chains

variable {limit : Nat} {op : Binary} {s mid : State} {chain : Phrase}

/-- What is left of the reading is to extend the chain. -/
theorem reading_eq (h : Chains limit op s chain mid) :
    s.reading limit (.binary op) = mid.extension limit op chain := by
  induction h with
  | first hfirst =>
    rw [State.reading_chain, hfirst]
    rfl
  | @next chain right rest p k mid hop _ hright hdepth ih =>
    have hfinish : mid.finish limit (.binary op chain right) = .ok (.binary op chain right, mid) :=
      if_neg (Nat.not_lt.mpr hdepth)
    rw [ih, State.extension_left hop, hright]
    show mid.finish limit (.binary op chain right) >>= _ = _
    rw [hfinish]
    rfl

theorem consumes (hlimit : 0 < limit) (h : Chains limit op s chain mid) :
    ∃ ts n, Consumes limit (.binary op) s mid chain ts n := by
  induction h with
  | first hfirst =>
    obtain ⟨ts, n, hcons, -⟩ := State.sound hlimit _ s _ _ hfirst
    exact ⟨ts, n, hcons.operand⟩
  | next hop _ hright hdepth ih =>
    obtain ⟨ts, m, hchain⟩ := ih
    obtain ⟨us, n, hcons, -⟩ := State.sound hlimit _ _ _ _ hright
    exact ⟨_, _, hchain.left hop hcons hdepth⟩

end Chains

/-- The second attempt starts no earlier than the first, and later unless its level is tighter. -/
structure Attempt.Inside (outer inner : Attempt) : Prop where
  ahead : Ahead outer.start inner.start
  shorter : inner.level.precedence ≤ outer.level.precedence →
    inner.start.rest.length < outer.start.rest.length

namespace Attempt.Inside

variable {a b c : Attempt}

theorem trans (h : Inside a b) (h' : Inside b c) : Inside a c where
  ahead := h.ahead.trans h'.ahead
  shorter := by
    intro hlevel
    by_cases hb : b.level.precedence ≤ a.level.precedence
    · exact Nat.lt_of_le_of_lt h'.ahead.rest.length_le (h.shorter hb)
    · exact Nat.lt_of_lt_of_le (h'.shorter (by omega)) h.ahead.rest.length_le

/-- The attempt after a token that another attempt gets to is inside it. -/
theorem of_ahead {t : Token} {rest : List Token} {p j k : Nat} {outer inner : Connective}
    {s : State} (h : Ahead s ⟨t :: rest, p, j⟩) (hk : j ≤ k) :
    Inside ⟨outer, s⟩ ⟨inner, ⟨rest, p + 1, k⟩⟩ where
  ahead := h.trans ((Ahead.refl ⟨rest, p + 1, k⟩).cons hk)
  shorter := fun _ => Nat.lt_of_lt_of_le (Nat.lt_succ_self rest.length) h.rest.length_le

end Attempt.Inside

namespace Makes

variable {limit : Nat} {outer inner : Attempt}

/-- The readers give up at the first fault: that of an attempt is that of the attempt which made it,
found in the same state. -/
theorem fault (h : Makes limit outer inner) {fault : Fault × State}
    (hinner : inner.start.reading limit inner.level = .error fault) :
    outer.start.reading limit outer.level = .error fault := by
  cases h with
  | negated hk =>
    rw [State.reading_not, if_neg (Nat.not_lt.mpr hk), hinner]
    rfl
  | enclosed hk =>
    rw [State.reading_opening, if_neg (Nat.not_lt.mpr hk), hinner]
    rfl
  | first op s =>
    rw [State.reading_chain, hinner]
    rfl
  | left hop hchain =>
    rw [hchain.reading_eq, State.extension_left hop, hinner]
    rfl
  | right hop hchain hk =>
    rw [hchain.reading_eq, State.extension_right hop, if_neg (Nat.not_lt.mpr hk), hinner]
    rfl

/-- An attempt is inside the one that made it, with at most one more level open. -/
theorem inside (hlimit : 0 < limit) (h : Makes limit outer inner) :
    outer.Inside inner ∧ inner.start.nesting ≤ outer.start.nesting + 1 := by
  cases h with
  | negated hk => exact ⟨.of_ahead (.refl _) (Nat.le_succ _), Nat.le_refl _⟩
  | enclosed hk => exact ⟨.of_ahead (.refl _) (Nat.le_succ _), Nat.le_refl _⟩
  | first op s =>
    -- The first operand starts with the chain, and is of a tighter level.
    have htighter : ¬op.tighter.precedence ≤ (Connective.binary op).precedence := by
      rw [op.precedence_tighter]
      exact Nat.not_succ_le_self _
    exact ⟨⟨.refl s, fun hle => absurd hle htighter⟩, Nat.le_succ _⟩
  | left hop hchain =>
    obtain ⟨ts, n, hcons⟩ := hchain.consumes hlimit
    exact ⟨.of_ahead hcons.ahead (Nat.le_refl _), Nat.le_succ_of_le (Nat.le_of_eq hcons.nesting)⟩
  | right hop hchain hk =>
    obtain ⟨ts, n, hcons⟩ := hchain.consumes hlimit
    exact ⟨.of_ahead hcons.ahead (Nat.le_succ _), Nat.succ_le_succ (Nat.le_of_eq hcons.nesting)⟩

/-- Whatever is attempted in the course of an attempt is inside it. -/
theorem inside_of_transGen (hlimit : 0 < limit) (h : TransGen (Makes limit) outer inner) :
    outer.Inside inner := by
  induction h with
  | single hmakes => exact (hmakes.inside hlimit).1
  | tail _ hmakes ih => exact ih.trans (hmakes.inside hlimit).1

end Makes

/-- The state is at a place in `tokens`, at `p` or further on. -/
structure Place (tokens : List Token) (p : Nat) (s : State) : Prop where
  rest : s.rest = tokens.drop s.position
  follows : p ≤ s.position
  within : s.position ≤ tokens.length

/-- What holds of a phrase of the level that was read from `tokens`, from `p` on with `k` levels open,
and of the state after it. -/
structure Settled (tokens : List Token) (p k : Nat) (level : Connective) (phrase : Phrase)
    (after : State) : Prop where
  depth : phrase.depth = phrase.formula.depth
  shallow : phrase.depth ≤ 256
  place : Place tokens p after
  advances : p < after.position
  nesting : after.nesting = k
  stops : ∀ op, tokens[after.position]? = some (.connective (.binary op)) →
    (Connective.binary op).precedence < level.precedence

/-- What holds of the state in which a fault was found in `tokens`, from `p` on with `k` levels
open. -/
structure Halted (tokens : List Token) (p k : Nat) (found : State) : Prop where
  place : Place tokens p found
  nesting : k ≤ found.nesting

namespace Ahead

theorem place {tokens : List Token} {p k : Nat} {s : State} (hp : p ≤ tokens.length)
    (h : Ahead ⟨tokens.drop p, p, k⟩ s) : Place tokens p s := by
  obtain ⟨hstanding, htotal⟩ := Reader.standing_of_ahead hp h
  have hshorter : s.rest.length ≤ tokens.length - p :=
    List.length_drop (i := p) ▸ h.rest.length_le
  exact ⟨congrArg (·.state.rest) hstanding, by omega, by omega⟩

theorem position_lt {s s' : State} (h : Ahead s s') (hshorter : s'.rest.length < s.rest.length) :
    s.position < s'.position := by
  have htotal := h.total
  omega

end Ahead

namespace State

variable {tokens : List Token} {p k : Nat} {level : Connective}

theorem settled_of_reading {phrase : Phrase} {after : State} (hp : p ≤ tokens.length)
    (h : (⟨tokens.drop p, p, k⟩ : State).reading levelLimit level = .ok (phrase, after)) :
    Settled tokens p k level phrase after := by
  obtain ⟨ts, n, hcons, hstop⟩ := sound (by decide) level _ phrase after h
  have hplace := hcons.ahead.place hp
  refine ⟨hcons.depth, hcons.shallow, hplace, hcons.ahead.position_lt (length_reading h),
    hcons.nesting, fun op hop => ?_⟩
  obtain ⟨hlt, htoken⟩ := List.getElem?_eq_some_iff.mp hop
  refine hstop op (tokens.drop (after.position + 1)) ?_
  rw [hplace.rest, List.drop_eq_getElem_cons hlt, htoken]

theorem halted_of_reading {fault : Fault} {found : State} (hp : p ≤ tokens.length)
    (h : (⟨tokens.drop p, p, k⟩ : State).reading levelLimit level = .error (fault, found)) :
    Halted tokens p k found := by
  obtain ⟨hahead, -⟩ := advances (by decide) level _ fault found h
  exact ⟨hahead.place hp, hahead.nesting⟩

/-- A phrase that is read comes back with its depth, after one token or more, where no phrase of the
level goes on, and with the levels open that were. A fault leaves no level that was open. The depth
of a chain is right all along. A fault of an attempt is that of the reading, and if a phrase comes
back from an attempt with one more level open, that level can be left. An attempt at the same level
or a looser one is made one token further on or more. -/
theorem reading_invariant (tokens : List Token) {p : Nat} (k : Nat) (hp : p ≤ tokens.length)
    (level : Connective) :
    let s : State := ⟨tokens.drop p, p, k⟩
    (∀ phrase after, s.reading levelLimit level = .ok (phrase, after) →
      Settled tokens p k level phrase after) ∧
    (∀ fault found, s.reading levelLimit level = .error (fault, found) →
      Halted tokens p k found) ∧
    (∀ op chain mid, level = .binary op → Chains levelLimit op s chain mid →
      chain.depth = chain.formula.depth ∧ chain.depth ≤ 256) ∧
    (∀ inner, Makes levelLimit ⟨level, s⟩ inner →
      (∀ fault, inner.start.reading levelLimit inner.level = .error fault →
        s.reading levelLimit level = .error fault) ∧
      ∀ phrase after, inner.start.reading levelLimit inner.level = .ok (phrase, after) →
        k < inner.start.nesting → 0 < after.nesting ∧ after.leave.nesting = k) ∧
    ∀ inner, TransGen (Makes levelLimit) ⟨level, s⟩ inner →
      Place tokens p inner.start ∧
        (inner.level.precedence ≤ level.precedence → p < inner.start.position) := by
  intro s
  have hlimit : 0 < levelLimit := by decide
  refine ⟨fun _ _ => settled_of_reading hp, fun _ _ => halted_of_reading hp, ?_, ?_, ?_⟩
  · rintro op chain mid rfl hchain
    obtain ⟨ts, n, hcons⟩ := hchain.consumes hlimit
    exact ⟨hcons.depth, hcons.shallow⟩
  · refine fun inner hmakes => ⟨fun fault => hmakes.fault, fun phrase after hread hdeeper => ?_⟩
    obtain ⟨ts, n, hcons, -⟩ := sound hlimit _ _ _ _ hread
    have hle : inner.start.nesting ≤ k + 1 := (hmakes.inside hlimit).2
    have hopen : after.nesting = k + 1 := hcons.nesting.trans (by omega)
    refine ⟨by omega, ?_⟩
    show after.nesting - 1 = k
    omega
  · intro inner hattempts
    have hinside := Makes.inside_of_transGen hlimit hattempts
    exact ⟨hinside.ahead.place hp, fun hlevel => hinside.ahead.position_lt (hinside.shorter hlevel)⟩

/-- In `P ¬Q ∧ R → S` with 255 levels open, the conjunction is read up to `→`, and the negation in it
takes up the last level for `Q`. With 256 levels open the negation is too deep. -/
theorem reading_invariant_last_level :
    let tokens := [Token.atom 'P', .connective .not, .atom 'Q', .connective (.binary .and), .atom 'R',
      .connective (.binary .implies), .atom 'S']
    let conjunction : Phrase := ⟨.binary .and (.not (.atom 'Q')) (.atom 'R'), 3⟩
    let operand : State := ⟨tokens.drop 2, 2, 256⟩
    1 ≤ tokens.length ∧
      Settled tokens 1 255 (.binary .and) conjunction ⟨tokens.drop 5, 5, 255⟩ ∧
      Halted tokens 1 256 ⟨tokens.drop 2, 2, 257⟩ ∧
      Makes levelLimit ⟨.not, ⟨tokens.drop 1, 1, 255⟩⟩ ⟨.not, operand⟩ ∧
      operand.reading levelLimit .not = .ok (.atom 'Q', ⟨tokens.drop 3, 3, 256⟩) ∧
      (⟨tokens.drop 3, 3, 256⟩ : State).leave.nesting = 255 ∧
      1 < operand.position := by
  intro tokens conjunction operand
  have hp : 1 ≤ tokens.length := by decide
  have hoperand : operand.reading levelLimit .not = .ok (.atom 'Q', ⟨tokens.drop 3, 3, 256⟩) :=
    reading_atom
  have hnegation : (⟨tokens.drop 1, 1, 255⟩ : State).reading levelLimit .not =
      .ok (.not (.atom 'Q'), ⟨tokens.drop 3, 3, 255⟩) := by
    show (⟨.connective .not :: tokens.drop 2, 1, 255⟩ : State).reading levelLimit .not = _
    rw [reading_not, if_neg (by decide), hoperand]
    rfl
  have hconjunction : (⟨tokens.drop 1, 1, 255⟩ : State).reading levelLimit (.binary .and) =
      .ok (conjunction, ⟨tokens.drop 5, 5, 255⟩) := by
    rw [reading_chain, Binary.tighter, hnegation]
    show (⟨.connective (.binary .and) :: .atom 'R' :: tokens.drop 5, 3, 255⟩ : State).extension
      levelLimit .and (.not (.atom 'Q')) = _
    rw [extension_left rfl, Binary.tighter, reading_atom]
    exact extension_stop fun rest he => by cases he
  have hdeep : (⟨tokens.drop 1, 1, 256⟩ : State).reading levelLimit (.binary .and) =
      .error (.tooDeep levelLimit, ⟨tokens.drop 2, 2, 257⟩) := by
    rw [reading_chain, Binary.tighter]
    show (⟨.connective .not :: tokens.drop 2, 1, 256⟩ : State).reading levelLimit .not >>= _ = _
    rw [reading_not, if_pos (by decide)]
    rfl
  have hmakes : Makes levelLimit ⟨.not, ⟨tokens.drop 1, 1, 255⟩⟩ ⟨.not, operand⟩ :=
    .negated (by decide)
  obtain ⟨-, -, -, hattempts, hrecursion⟩ := reading_invariant tokens 255 hp .not
  obtain ⟨-, hleave⟩ := (hattempts _ hmakes).2 _ _ hoperand (by decide)
  exact ⟨hp, (reading_invariant tokens 255 hp _).1 _ _ hconjunction,
    (reading_invariant tokens 256 hp _).2.1 _ _ hdeep, hmakes, hoperand, hleave,
    (hrecursion _ (.single hmakes)).2 (Nat.le_refl _)⟩

end State

end Sentential.Symbolic
