import Sentential.Proofs.Symbolic.Diagnosis

/-! Reading on after a formula or a fault. A reader keeps its place and its open levels, so each
call reads what is left: as a fresh reader of those tokens would, with every position raised and
with the levels that a fault has left open. -/

namespace Sentential.Symbolic

namespace Fault

/-- The fault where `d` more tokens come first. -/
def raise (d : Nat) : Fault → Fault
  | unexpectedEnd => unexpectedEnd
  | mismatch expected found position => mismatch expected found (d + position)
  | invalidAtom found position => invalidAtom found (d + position)
  | trailing found position => trailing found (d + position)
  | illegalCharacter c offset => illegalCharacter c offset
  | tooDeep limit => tooDeep limit

end Fault

def State.raise (d : Nat) (s : State) : State := ⟨s.rest, d + s.position, s.nesting⟩

def Reading.raise (d : Nat) : Reading → Reading
  | .ok (phrase, after) => .ok (phrase, after.raise d)
  | .error (fault, found) => .error (fault.raise d, found.raise d)

theorem Reading.raise_bind {d : Nat} {r : Reading} {next next' : Phrase × State → Reading}
    (h : ∀ phrase s, r = .ok (phrase, s) → next' (phrase, s.raise d) = raise d (next (phrase, s))) :
    (raise d r >>= next') = raise d (r >>= next) := by
  cases r with
  | error fault => rfl
  | ok pair => exact h pair.1 pair.2 rfl

namespace State

variable {d limit : Nat} {op : Binary} {level : Connective} {s : State}

theorem raise_mk (rest : List Token) (p k : Nat) : raise d ⟨rest, p, k⟩ = ⟨rest, d + p, k⟩ := rfl

def Raises (d limit : Nat) (level : Connective) (s : State) : Prop :=
  (s.raise d).reading limit level = Reading.raise d (s.reading limit level)

theorem finish_raise (phrase : Phrase) (after : State) :
    (after.raise d).finish limit phrase = Reading.raise d (after.finish limit phrase) := by
  rw [finish, finish]
  split <;> rfl

theorem close_raise (inner : Phrase) (s : State) :
    (s.raise d).close inner = Reading.raise d (s.close inner) := by
  obtain ⟨_ | ⟨_ | _ | _ | _, rest⟩, p, k⟩ := s <;> rfl

theorem raises_not (hraises : ∀ level (s' : State), s'.rest.length < s.rest.length →
    Raises d limit level s') : Raises d limit .not s := by
  obtain ⟨_ | ⟨token, rest⟩, p, k⟩ := s
  · rw [Raises, raise_mk, reading_nil, reading_nil]
    rfl
  have hnext : ∀ level, Raises d limit level ⟨rest, p + 1, k + 1⟩ :=
    fun level => hraises level _ (Nat.lt_succ_self _)
  cases token with
  | atom name => rw [Raises, raise_mk, reading_atom, reading_atom]; rfl
  | closing => rw [Raises, raise_mk, reading_closing, reading_closing]; rfl
  | opening =>
    rw [Raises, raise_mk, reading_opening, reading_opening]
    split
    · rfl
    · exact (congrArg (· >>= _) (hnext _)).trans
        (Reading.raise_bind fun inner after _ => close_raise inner after)
  | connective c =>
    cases c with
    | binary op => rw [Raises, raise_mk, reading_connective, reading_connective]; rfl
    | not =>
      rw [Raises, raise_mk, reading_not, reading_not]
      split
      · rfl
      · exact (congrArg (· >>= _) (hnext _)).trans
          (Reading.raise_bind fun operand after _ => finish_raise operand.not after.leave)

theorem extension_raise {left : Phrase} (hraises : ∀ level (s' : State),
    s'.rest.length < s.rest.length → Raises d limit level s') :
    (s.raise d).extension limit op left = Reading.raise d (s.extension limit op left) := by
  induction s using chainInduction op generalizing left with
  | stop s hnext =>
    rw [extension_stop hnext, extension_stop (s := s.raise d) hnext]
    rfl
  | step rest p k ih =>
    cases hop : op.rightAssociative with
    | true =>
      rw [raise_mk, extension_right hop, extension_right hop]
      split
      · rfl
      · exact (congrArg (· >>= _) (hraises _ ⟨rest, p + 1, k + 1⟩ (Nat.lt_succ_self _))).trans
          (Reading.raise_bind fun right after _ => finish_raise _ after.leave)
    | false =>
      rw [raise_mk, extension_left hop, extension_left hop]
      refine (congrArg (· >>= _) (hraises _ ⟨rest, p + 1, k⟩ (Nat.lt_succ_self _))).trans
        (Reading.raise_bind fun right mid hright => ?_)
      refine (congrArg (· >>= _) (finish_raise _ mid)).trans
        (Reading.raise_bind fun chain last hfinish => ?_)
      obtain ⟨-, rfl, -⟩ := finish_ok hfinish
      have hless : last.rest.length < rest.length := length_reading hright
      exact ih last hless fun level s' hs' =>
        hraises level s' (Nat.lt_trans hs' (Nat.lt_succ_of_lt hless))

theorem raises (d limit : Nat) (level : Connective) (s : State) : Raises d limit level s := by
  induction level, s using levelInduction with
  | not s hraises => exact raises_not hraises
  | binary op s hraises hoperand =>
    rw [Raises, reading_chain, reading_chain, hoperand]
    refine Reading.raise_bind fun first mid hfirst => extension_raise fun level s' hs' => ?_
    exact hraises level s' (Nat.lt_trans hs' (length_reading hfirst))

theorem parse_raise (d limit : Nat) (s : State) :
    (s.raise d).parse limit =
      ((s.parse limit).1.mapError (Fault.raise d), (s.parse limit).2.raise d) := by
  rw [parse_eq, parse_eq, raises d limit]
  cases s.reading limit (.binary .iff) with
  | error result => rfl
  | ok result =>
    obtain ⟨phrase, _ | ⟨found, rest⟩, p, k⟩ := result <;> rfl

end State

/-- Reading on from one state leads to another: what is left is the end of what was, every token
gone is counted, and no level that was open is left. -/
structure Ahead (s s' : State) : Prop where
  rest : s'.rest <:+ s.rest
  total : s'.position + s'.rest.length = s.position + s.rest.length
  nesting : s.nesting ≤ s'.nesting

namespace Ahead

variable {s s' s'' found : State} {rest : List Token} {t : Token} {p k k' : Nat}

theorem refl (s : State) : Ahead s s := ⟨List.suffix_rfl, rfl, Nat.le_refl _⟩

theorem trans (h : Ahead s s') (h' : Ahead s' s'') : Ahead s s'' :=
  ⟨h'.rest.trans h.rest, h'.total.trans h.total, Nat.le_trans h.nesting h'.nesting⟩

theorem cons (h : Ahead ⟨rest, p + 1, k'⟩ found) (hk : k ≤ k') : Ahead ⟨t :: rest, p, k⟩ found where
  rest := h.rest.trans (List.suffix_cons t rest)
  total := by
    have htotal : found.position + found.rest.length = p + 1 + rest.length := h.total
    show found.position + found.rest.length = p + (rest.length + 1)
    omega
  nesting := Nat.le_trans hk h.nesting

theorem length_lt (h : Ahead ⟨rest, p, k⟩ found) : found.rest.length < (t :: rest).length :=
  Nat.lt_succ_of_le h.rest.length_le

end Ahead

theorem Consumes.ahead {limit n : Nat} {level : Connective} {s after : State} {phrase : Phrase}
    {ts : List Token} (h : Consumes limit level s after phrase ts n) : Ahead s after where
  rest := ⟨ts, h.rest.symm⟩
  total := by
    rw [h.position, h.rest, List.length_append]
    omega
  nesting := Nat.le_of_eq h.nesting.symm

theorem Consumes.ahead_leave {limit n p k : Nat} {level : Connective} {rest ts : List Token}
    {after : State} {phrase : Phrase}
    (h : Consumes limit level ⟨rest, p, k + 1⟩ after phrase ts n) :
    Ahead ⟨rest, p, k⟩ after.leave where
  rest := h.ahead.rest
  total := h.ahead.total
  nesting := by
    have hnesting : after.nesting = k + 1 := h.nesting
    show k ≤ after.nesting - 1
    omega

namespace State

variable {limit : Nat} {op : Binary} {level : Connective} {s : State}

/-- Every fault of the reader of the level is found ahead, and past the first token if there is
one. -/
def Advances (limit : Nat) (level : Connective) (s : State) : Prop :=
  ∀ fault found, s.reading limit level = .error (fault, found) →
    Ahead s found ∧ (s.rest ≠ [] → found.rest.length < s.rest.length)

theorem close_error {inner : Phrase} {found : State} {fault : Fault}
    (h : s.close inner = .error (fault, found)) : found = s := by
  obtain ⟨_ | ⟨_ | _ | _ | _, rest⟩, p, k⟩ := s <;> cases h <;> rfl

theorem advances_not (hlimit : 0 < limit) (hadvances : ∀ level (s' : State),
    s'.rest.length < s.rest.length → Advances limit level s') : Advances limit .not s := by
  intro fault found h
  obtain ⟨_ | ⟨token, rest⟩, p, k⟩ := s
  · rw [reading_nil] at h
    cases h
    exact ⟨.refl _, fun hne => absurd rfl hne⟩
  -- Whatever the fault is, the first token is gone, and perhaps one more level is open.
  suffices hahead : ∃ k', k ≤ k' ∧ Ahead ⟨rest, p + 1, k'⟩ found by
    obtain ⟨k', hk, hahead⟩ := hahead
    exact ⟨hahead.cons hk, fun _ => hahead.length_lt⟩
  cases token with
  | atom name => rw [reading_atom] at h; cases h
  | closing =>
    rw [reading_closing] at h
    cases h
    exact ⟨k, Nat.le_refl k, .refl _⟩
  | opening =>
    refine ⟨k + 1, Nat.le_succ k, ?_⟩
    rw [reading_opening] at h
    split at h
    · cases h
      exact .refl _
    · rcases Reading.bind_error h with hinner | ⟨inner, mid, hinner, hclose⟩
      · exact (hadvances _ _ (Nat.lt_succ_self _) fault found hinner).1
      · obtain ⟨ts, n, hcons, -⟩ := sound hlimit _ _ _ _ hinner
        rw [close_error hclose]
        exact hcons.ahead
  | connective c =>
    cases c with
    | binary op =>
      rw [reading_connective] at h
      cases h
      exact ⟨k, Nat.le_refl k, .refl _⟩
    | not =>
      rw [reading_not] at h
      split at h
      · cases h
        exact ⟨k + 1, Nat.le_succ k, .refl _⟩
      · rcases Reading.bind_error h with hoperand | ⟨operand, mid, hoperand, hfinish⟩
        · exact ⟨k + 1, Nat.le_succ k,
            (hadvances _ _ (Nat.lt_succ_self _) fault found hoperand).1⟩
        · obtain ⟨ts, n, hcons, -⟩ := sound hlimit _ _ _ _ hoperand
          rw [(finish_error hfinish).2]
          exact ⟨k, Nat.le_refl k, hcons.ahead_leave⟩

theorem ahead_extension (hlimit : 0 < limit) {left : Phrase} {found : State} {fault : Fault}
    (hadvances : ∀ level (s' : State), s'.rest.length < s.rest.length → Advances limit level s')
    (h : s.extension limit op left = .error (fault, found)) : Ahead s found := by
  induction s using chainInduction op generalizing left with
  | stop s hnext =>
    rw [extension_stop hnext] at h
    cases h
  | step rest p k ih =>
    cases hop : op.rightAssociative with
    | true =>
      rw [extension_right hop] at h
      split at h
      · cases h
        exact (Ahead.refl _).cons (Nat.le_succ k)
      · rcases Reading.bind_error h with hright | ⟨right, mid, hright, hfinish⟩
        · have hahead := (hadvances _ _ (Nat.lt_succ_self _) fault found hright).1
          exact hahead.cons (Nat.le_succ k)
        · obtain ⟨ts, n, hcons, -⟩ := sound hlimit _ _ _ _ hright
          rw [(finish_error hfinish).2]
          exact hcons.ahead_leave.cons (Nat.le_refl k)
    | false =>
      rw [extension_left hop] at h
      rcases Reading.bind_error h with hright | ⟨right, mid, hright, hchain⟩
      · have hahead := (hadvances _ _ (Nat.lt_succ_self _) fault found hright).1
        exact hahead.cons (Nat.le_refl k)
      obtain ⟨ts, n, hcons, -⟩ := sound hlimit _ _ _ _ hright
      have hmid : Ahead ⟨.connective (.binary op) :: rest, p, k⟩ mid :=
        hcons.ahead.cons (Nat.le_refl k)
      rcases Reading.bind_error hchain with hfinish | ⟨chain, last, hfinish, hrest⟩
      · rw [(finish_error hfinish).2]
        exact hmid
      obtain ⟨-, rfl, -⟩ := finish_ok hfinish
      have hless : last.rest.length < rest.length := length_reading hright
      exact hmid.trans (ih last hless
        (fun level s' hs' => hadvances level s' (Nat.lt_trans hs' (Nat.lt_succ_of_lt hless))) hrest)

theorem advances (hlimit : 0 < limit) (level : Connective) (s : State) :
    Advances limit level s := by
  induction level, s using levelInduction with
  | not s hadvances => exact advances_not hlimit hadvances
  | binary op s hadvances hoperand =>
    intro fault found h
    rw [reading_chain] at h
    rcases Reading.bind_error h with hfirst | ⟨first, mid, hfirst, hrest⟩
    · exact hoperand fault found hfirst
    · obtain ⟨ts, n, hcons, -⟩ := sound hlimit _ _ _ _ hfirst
      have hless : mid.rest.length < s.rest.length := length_reading hfirst
      have hfound := ahead_extension hlimit
        (fun level s' hs' => hadvances level s' (Nat.lt_trans hs' hless)) hrest
      exact ⟨hcons.ahead.trans hfound, fun _ => Nat.lt_of_le_of_lt hfound.rest.length_le hless⟩

theorem reading_end (limit : Nat) (level : Connective) (p k : Nat) :
    (⟨[], p, k⟩ : State).reading limit level = .error (.unexpectedEnd, ⟨[], p, k⟩) := by
  induction level using Connective.tighterInduction with
  | not => exact reading_nil
  | binary op hoperand =>
    rw [reading_chain, hoperand]
    rfl

theorem parse_end (limit p k : Nat) :
    (⟨[], p, k⟩ : State).parse limit = (.error .unexpectedEnd, ⟨[], p, k⟩) := by
  rw [parse_eq, reading_end]

/-- What a call leaves to be read. A call that reads a formula, with tokens after it or not, closes
the levels that it opens. -/
structure Leaves (s : State) (result : Except Fault Formula) (after : State) : Prop where
  ahead : Ahead s after
  shorter : s.rest ≠ [] → after.rest.length < s.rest.length
  formula : ∀ f, result = .ok f → after.nesting = s.nesting
  trailing : ∀ t q, result = .error (.trailing t q) → q = after.position ∧ after.nesting = s.nesting

theorem parse_leaves (hlimit : 0 < limit) (s : State) :
    Leaves s (s.parse limit).1 (s.parse limit).2 := by
  rw [parse_eq]
  cases hread : s.reading limit (.binary .iff) with
  | error result =>
    obtain ⟨cause, found⟩ := result
    obtain ⟨hahead, hshorter⟩ := advances hlimit _ s cause found hread
    refine ⟨hahead, hshorter, nofun, fun t q hcause => ?_⟩
    obtain ⟨_, _, -, hat⟩ := diagnosed hlimit _ s cause found hread 0
    cases hcause
    cases hat
  | ok result =>
    obtain ⟨phrase, after⟩ := result
    obtain ⟨ts, n, hcons, -⟩ := sound hlimit _ s phrase after hread
    have hshorter : after.rest.length < s.rest.length := length_reading hread
    obtain ⟨_ | ⟨t, rest⟩, p, k⟩ := after
    · exact ⟨hcons.ahead, fun _ => hshorter, fun _ _ => hcons.nesting, nofun⟩
    · refine ⟨hcons.ahead, fun _ => hshorter, nofun, fun t q hcause => ?_⟩
      cases hcause
      exact ⟨rfl, hcons.nesting⟩

end State

namespace Reader

/-- The reader of `tokens` that is at `p` with `k` levels open. -/
def standing (tokens : List Token) (p k : Nat) : Reader := ⟨none, ⟨tokens.drop p, p, k⟩⟩

/-- The reader after a number of calls. -/
def after (reader : Reader) : Nat → Reader
  | 0 => reader
  | calls + 1 => (reader.after calls).parse.2

/-- What a call gives at `p` with `k` levels open that leaves the reader at `p'` with `k'` levels
open. -/
structure Call (tokens : List Token) (p k : Nat) (result : Except Fault Formula) (p' k' : Nat) :
    Prop where
  suffix : result = (standing (tokens.drop p) 0 k).parse.1.mapError (.raise p)
  advances : p < tokens.length → p < p'
  within : p' ≤ tokens.length
  atEnd : p = tokens.length → result = .error .unexpectedEnd ∧ p' = p ∧ k' = k
  opened : k ≤ k'
  formula : ∀ f, result = .ok f → k' = k
  trailing : ∀ t q, result = .error (.trailing t q) → p' = q ∧ k' = k
  fresh : ∀ t q, result = .error (.trailing t q) → k = 0 →
    (standing tokens p' k').parse.1 =
      (ofLexemes ((tokens.drop q).map .token)).parse.1.mapError (.raise q)

variable {tokens : List Token} {p k : Nat}

theorem standing_of_ahead {after : State} (hp : p ≤ tokens.length)
    (h : Ahead ⟨tokens.drop p, p, k⟩ after) :
    (⟨none, after⟩ : Reader) = standing tokens after.position after.nesting ∧
      after.position + after.rest.length = tokens.length := by
  obtain ⟨rest, q, j⟩ := after
  have htotal : q + rest.length = tokens.length := by
    have htotal : q + rest.length = p + (tokens.drop p).length := h.total
    rw [List.length_drop] at htotal
    omega
  have hrest : rest <:+ tokens := h.rest.trans (List.drop_suffix p tokens)
  have hdrop : rest = tokens.drop q := by
    have hq : tokens.length - rest.length = q := by omega
    rw [List.suffix_iff_eq_drop.mp hrest, hq]
  exact ⟨by rw [standing, ← hdrop], htotal⟩

theorem parse_suffix (tokens : List Token) (p k : Nat) :
    (standing tokens p k).parse.1 = (standing (tokens.drop p) 0 k).parse.1.mapError (.raise p) :=
  congrArg Prod.fst (State.parse_raise p levelLimit ⟨tokens.drop p, 0, k⟩)

theorem parse_standing_end (tokens : List Token) (k : Nat) :
    (standing tokens tokens.length k).parse =
      (.error .unexpectedEnd, standing tokens tokens.length k) := by
  rw [standing, List.drop_length, parse]
  dsimp only
  rw [State.parse_end]

theorem call (hp : p ≤ tokens.length) :
    ∃ p' k', (standing tokens p k).parse.2 = standing tokens p' k' ∧
      Call tokens p k (standing tokens p k).parse.1 p' k' := by
  let s : State := ⟨tokens.drop p, p, k⟩
  have hleaves : s.Leaves (s.parse levelLimit).1 (s.parse levelLimit).2 :=
    s.parse_leaves (by decide)
  obtain ⟨hstanding, htotal⟩ := standing_of_ahead hp hleaves.ahead
  exact ⟨_, _, hstanding, {
    suffix := parse_suffix tokens p k
    advances := by
      intro hlt
      have hlength : s.rest.length = tokens.length - p := List.length_drop
      have hshorter := hleaves.shorter (List.ne_nil_of_length_pos (by omega))
      omega
    within := by omega
    atEnd := by
      rintro rfl
      have hend := parse_standing_end tokens k
      have hafter : (s.parse levelLimit).2 = s := congrArg (·.2.state) hend
      exact ⟨congrArg Prod.fst hend, by rw [hafter], by rw [hafter]⟩
    opened := hleaves.ahead.nesting
    formula := hleaves.formula
    trailing := by
      intro t q ht
      obtain ⟨hq, hnesting⟩ := hleaves.trailing t q ht
      exact ⟨hq.symm, hnesting⟩
    fresh := by
      intro t q ht hk
      obtain ⟨rfl, hnesting⟩ := hleaves.trailing t q ht
      rw [parse_suffix, hnesting, parse_ofTokens]
      subst hk
      rfl }⟩

theorem ofLocated_eq_standing {located : List Located} (legal : ∀ l ∈ located, l.illegal? = none) :
    ofLocated located = standing (located.filterMap (·.lexeme.token?)) 0 0 := by
  rw [ofLocated, List.findSome?_eq_none_iff.mpr legal]
  rfl

/-- A reader of legal tokens is led on by every call until it is at the end. -/
theorem after_standing (tokens : List Token) (calls : Nat) :
    ∃ p k, (standing tokens 0 0).after calls = standing tokens p k ∧
      min calls tokens.length ≤ p ∧ p ≤ tokens.length := by
  induction calls with
  | zero => exact ⟨0, 0, rfl, by omega, by omega⟩
  | succ calls ih =>
    obtain ⟨p, k, hafter, hcalls, hp⟩ := ih
    obtain ⟨p', k', hnext, hcall⟩ := call (k := k) hp
    refine ⟨p', k', by rw [after, hafter, hnext], ?_, hcall.within⟩
    by_cases hlt : p < tokens.length
    · have := hcall.advances hlt
      omega
    · have := (hcall.atEnd (by omega)).2.1
      omega

theorem after_illegal {reader : Reader} {c : Char} {offset : Nat}
    (h : reader.illegal = some (c, offset)) (calls : Nat) :
    (reader.after calls).parse = (.error (.illegalCharacter c offset), reader) := by
  have hparse : reader.parse = (.error (.illegalCharacter c offset), reader) := by rw [parse, h]
  induction calls with
  | zero => exact hparse
  | succ calls ih => rw [after, ih, hparse]

/-- A reader of legal tokens reads what is left of them with every call, and once it was called as
often as there are tokens it is at the end. An illegal character is found by every call. -/
theorem parse_after (located : List Located) :
    ((∀ l ∈ located, l.illegal? = none) →
      let tokens := located.filterMap (·.lexeme.token?)
      (∀ calls, ∃ p k p' k',
        (ofLocated located).after calls = standing tokens p k ∧ p ≤ tokens.length ∧
          (ofLocated located).after (calls + 1) = standing tokens p' k' ∧
          Call tokens p k ((ofLocated located).after calls).parse.1 p' k') ∧
      ∀ calls, tokens.length ≤ calls →
        ((ofLocated located).after calls).parse.1 = .error .unexpectedEnd) ∧
    ∀ before c offset others, located = before ++ ⟨.illegal c, offset⟩ :: others →
      (∀ l ∈ before, l.illegal? = none) →
      ∀ calls, ((ofLocated located).after calls).parse =
        (.error (.illegalCharacter c offset), ofLocated located) := by
  refine ⟨fun legal => ?_, ?_⟩
  · rw [ofLocated_eq_standing legal]
    intro tokens
    refine ⟨fun calls => ?_, fun calls hcalls => ?_⟩
    · obtain ⟨p, k, hafter, -, hp⟩ := after_standing tokens calls
      obtain ⟨p', k', hnext, hcall⟩ := call (k := k) hp
      exact ⟨p, k, p', k', hafter, hp, by rw [after, hafter, hnext], hafter ▸ hcall⟩
    · obtain ⟨p, k, hafter, hle, hp⟩ := after_standing tokens calls
      obtain rfl : p = tokens.length := by omega
      rw [hafter, parse_standing_end]
  · rintro before c offset others rfl legal calls
    refine after_illegal ?_ calls
    rw [ofLocated, List.findSome?_append, List.findSome?_eq_none_iff.mpr legal]
    rfl

/-- In `¬)PQ` the first fault leaves one level open, in which `P` is read with `Q` after it. -/
theorem parse_after_negation :
    let tokens := [Token.connective .not, .closing, .atom 'P', .atom 'Q']
    let located : List Located := tokens.zipIdx.map fun entry => ⟨.token entry.1, entry.2⟩
    (∀ l ∈ located, l.illegal? = none) ∧
      (∃ p' k', (ofLocated located).after 2 = standing tokens p' k' ∧
        Call tokens 2 1 (.error (.trailing (.atom 'Q') 3)) p' k') ∧
      ((ofLocated located).after 4).parse.1 = .error .unexpectedEnd ∧
      ((ofLocated (⟨.illegal '?', 0⟩ :: located)).after 2).parse.1 =
        .error (.illegalCharacter '?' 0) := by
  intro tokens located
  have legal : ∀ l ∈ located, l.illegal? = none := by decide
  have hfirst : (standing tokens 0 0).parse.2 = standing tokens 2 1 := by
    simp [tokens, standing, parse, State.parse_eq, State.reading_chain, Binary.tighter,
      State.reading_not, levelLimit, bind, Except.bind]
  have hsecond : (standing tokens 2 1).parse.1 = .error (.trailing (.atom 'Q') 3) := by
    simp [tokens, standing, parse, State.parse_eq, State.reading_chain, Binary.tighter,
      State.extension_stop, bind, Except.bind]
  have hafter : (ofLocated located).after 1 = standing tokens 2 1 := hfirst
  obtain ⟨hcalls, hend⟩ := (parse_after located).1 legal
  obtain ⟨p, k, p', k', hstanding, -, hnext, hcall⟩ := hcalls 1
  obtain rfl : p = 2 := congrArg (·.state.position) (hstanding.symm.trans hafter)
  obtain rfl : k = 1 := congrArg (·.state.nesting) (hstanding.symm.trans hafter)
  rw [hafter, hsecond] at hcall
  refine ⟨legal, ⟨p', k', hnext, hcall⟩, hend 4 (Nat.le_refl 4), ?_⟩
  rw [(parse_after (⟨.illegal '?', 0⟩ :: located)).2 [] '?' 0 located rfl (by simp) 2]

end Reader

end Sentential.Symbolic
