import Sentential.Proofs.Symbolic.Grammar
import Sentential.Proofs.Symbolic.Reading

/-! What is read is derived: a phrase that is read has a derivation from the tokens that are gone,
within the limit, and nothing in the tokens that are left extends it. -/

namespace Sentential.Symbolic

/-- From `s` to `after`, the tokens `ts` were read as a phrase of the level with the nesting `n`. -/
structure Consumes (limit : Nat) (level : Connective) (s after : State) (phrase : Phrase)
    (ts : List Token) (n : Nat) : Prop where
  rest : s.rest = ts ++ after.rest
  position : after.position = s.position + ts.length
  nesting : after.nesting = s.nesting
  derives : Derives level ts phrase.formula n
  within : n = 0 ∨ s.nesting + n ≤ limit
  depth : phrase.depth = phrase.formula.depth
  shallow : phrase.depth ≤ limit

namespace Consumes

variable {limit m n p q j k : Nat} {op : Binary} {s mid after : State}
  {phrase first second : Phrase} {ts us rest : List Token}

theorem atom (hlimit : 0 < limit) (name : Char) :
    Consumes limit .not ⟨.atom name :: rest, p, k⟩ ⟨rest, p + 1, k⟩ (.atom name) [.atom name] 0 :=
  ⟨rfl, rfl, rfl, .atom name, .inl rfl, rfl, hlimit⟩

theorem negation (h : Consumes limit .not ⟨rest, p + 1, k + 1⟩ mid phrase ts n)
    (hk : k + 1 ≤ limit) (hdepth : phrase.not.depth ≤ limit) :
    Consumes limit .not ⟨.connective .not :: rest, p, k⟩ mid.leave phrase.not
      (.connective .not :: ts) (n + 1) where
  rest := congrArg (.connective .not :: ·) h.rest
  position := by
    have hp : mid.position = p + 1 + ts.length := h.position
    show mid.position = p + (ts.length + 1)
    omega
  nesting := by
    have hn : mid.nesting = k + 1 := h.nesting
    show mid.nesting - 1 = k
    omega
  derives := h.derives.negation
  within := by
    have hw : n = 0 ∨ k + 1 + n ≤ limit := h.within
    show n + 1 = 0 ∨ k + (n + 1) ≤ limit
    omega
  depth := congrArg (· + 1) h.depth
  shallow := hdepth

theorem parentheses
    (h : Consumes limit (.binary .iff) ⟨rest, p + 1, k + 1⟩ ⟨.closing :: us, q, j⟩ phrase ts n)
    (hk : k + 1 ≤ limit) :
    Consumes limit .not ⟨.opening :: rest, p, k⟩ ⟨us, q + 1, j - 1⟩ phrase
      (.opening :: ts ++ [.closing]) (n + 1) where
  rest := by
    have hr : rest = ts ++ .closing :: us := h.rest
    simp [hr]
  position := by
    have hp : q = p + 1 + ts.length := h.position
    simp only [List.cons_append, List.length_cons, List.length_append, List.length_nil]
    omega
  nesting := by
    have hn : j = k + 1 := h.nesting
    show j - 1 = k
    omega
  derives := h.derives.parentheses
  within := by
    have hw : n = 0 ∨ k + 1 + n ≤ limit := h.within
    show n + 1 = 0 ∨ k + (n + 1) ≤ limit
    omega
  depth := h.depth
  shallow := h.shallow

theorem operand (h : Consumes limit op.tighter s after phrase ts n) :
    Consumes limit (.binary op) s after phrase ts n :=
  { h with derives := h.derives.operand }

theorem left (hop : op.rightAssociative = false)
    (hf : Consumes limit (.binary op) s ⟨.connective (.binary op) :: rest, p, k⟩ first ts m)
    (hg : Consumes limit op.tighter ⟨rest, p + 1, k⟩ after second us n)
    (hdepth : (Phrase.binary op first second).depth ≤ limit) :
    Consumes limit (.binary op) s after (.binary op first second)
      (ts ++ .connective (.binary op) :: us) (max m n) where
  rest := by
    have hr : rest = us ++ after.rest := hg.rest
    rw [hf.rest, hr, List.append_assoc]
    rfl
  position := by
    have hp : p = s.position + ts.length := hf.position
    have hq : after.position = p + 1 + us.length := hg.position
    simp only [List.length_append, List.length_cons]
    omega
  nesting := hg.nesting.trans hf.nesting
  derives := hf.derives.left hop hg.derives
  within := by
    have hk : k = s.nesting := hf.nesting
    have hm := hf.within
    have hn : n = 0 ∨ k + n ≤ limit := hg.within
    omega
  depth := by
    show 1 + max first.depth second.depth = max first.formula.depth second.formula.depth + 1
    rw [hf.depth, hg.depth, Nat.add_comm]
  shallow := hdepth

theorem right (hop : op.rightAssociative = true)
    (hf : Consumes limit op.tighter s ⟨.connective (.binary op) :: rest, p, k⟩ first ts m)
    (hg : Consumes limit (.binary op) ⟨rest, p + 1, k + 1⟩ after second us n)
    (hk : k + 1 ≤ limit) (hdepth : (Phrase.binary op first second).depth ≤ limit) :
    Consumes limit (.binary op) s after.leave (.binary op first second)
      (ts ++ .connective (.binary op) :: us) (max m (n + 1)) where
  rest := by
    have hr : rest = us ++ after.rest := hg.rest
    rw [hf.rest, hr, List.append_assoc]
    rfl
  position := by
    have hp : p = s.position + ts.length := hf.position
    have hq : after.position = p + 1 + us.length := hg.position
    show after.position = _
    simp only [List.length_append, List.length_cons]
    omega
  nesting := by
    have hj : after.nesting = k + 1 := hg.nesting
    have hs : k = s.nesting := hf.nesting
    show after.nesting - 1 = s.nesting
    omega
  derives := hf.derives.right hop hg.derives
  within := by
    have hs : k = s.nesting := hf.nesting
    have hm := hf.within
    have hn : n = 0 ∨ k + 1 + n ≤ limit := hg.within
    omega
  depth := by
    show 1 + max first.depth second.depth = max first.formula.depth second.formula.depth + 1
    rw [hf.depth, hg.depth, Nat.add_comm]
  shallow := hdepth

end Consumes

namespace State

variable {limit : Nat} {op : Binary} {level : Connective}

theorem finish_ok {after last : State} {phrase result : Phrase}
    (h : after.finish limit phrase = .ok (result, last)) :
    result = phrase ∧ last = after ∧ phrase.depth ≤ limit := by
  rw [finish] at h
  split at h
  · cases h
  · next hle => cases h; exact ⟨rfl, rfl, Nat.le_of_not_lt hle⟩

theorem close_ok {s after : State} {inner phrase : Phrase}
    (h : s.close inner = .ok (phrase, after)) :
    phrase = inner ∧ s.rest = .closing :: after.rest ∧
      after = ⟨after.rest, s.position + 1, s.nesting - 1⟩ := by
  obtain ⟨_ | ⟨_ | _ | _ | _, rest⟩, p, k⟩ := s <;> cases h
  exact ⟨rfl, rfl, rfl⟩

/-- Whatever is read from `s` as a phrase of the level is derived from the tokens that are gone, and
does not go on in the tokens that are left. -/
def Sound (limit : Nat) (level : Connective) (s : State) : Prop :=
  ∀ phrase after, s.reading limit level = .ok (phrase, after) →
    ∃ ts n, Consumes limit level s after phrase ts n ∧ Stops level after.rest

/-- A loop that extends a chain to the left keeps it a chain from where the first operand began. -/
theorem sound_extension_left (hop : op.rightAssociative = false) {start s after : State}
    {left phrase : Phrase} {ts : List Token} {m : Nat}
    (hsound : ∀ s' : State, s'.rest.length < s.rest.length → Sound limit op.tighter s')
    (hleft : Consumes limit (.binary op) start s left ts m) (hstop : Stops op.tighter s.rest)
    (h : s.extension limit op left = .ok (phrase, after)) :
    ∃ us n, Consumes limit (.binary op) start after phrase us n ∧
      Stops (.binary op) after.rest := by
  induction s using chainInduction op generalizing left ts m with
  | stop s hnext =>
    rw [extension_stop hnext] at h
    cases h
    exact ⟨ts, m, hleft, hstop.of_tighter hnext⟩
  | step rest p k ih =>
    rw [extension_left hop] at h
    obtain ⟨right, mid, hright, hchain⟩ := Reading.bind_ok h
    obtain ⟨chain, last, hfinish, hrest⟩ := Reading.bind_ok hchain
    obtain ⟨rfl, rfl, hdepth⟩ := finish_ok hfinish
    obtain ⟨us, n, hcons, hmid⟩ := hsound _ (Nat.lt_succ_self _) right last hright
    have hless : last.rest.length < rest.length := length_reading hright
    exact ih last hless (fun s' hs' => hsound s' (Nat.lt_trans hs' (Nat.lt_succ_of_lt hless)))
      (hleft.left hop hcons hdepth) hmid hrest

theorem sound_extension_right (hop : op.rightAssociative = true) {start s after : State}
    {left phrase : Phrase} {ts : List Token} {m : Nat}
    (hsound : ∀ s' : State, s'.rest.length < s.rest.length → Sound limit (.binary op) s')
    (hleft : Consumes limit op.tighter start s left ts m) (hstop : Stops op.tighter s.rest)
    (h : s.extension limit op left = .ok (phrase, after)) :
    ∃ us n, Consumes limit (.binary op) start after phrase us n ∧
      Stops (.binary op) after.rest := by
  induction s using chainInduction op with
  | stop s hnext =>
    rw [extension_stop hnext] at h
    cases h
    exact ⟨ts, m, hleft.operand, hstop.of_tighter hnext⟩
  | step rest p k =>
    rw [extension_right hop] at h
    split at h
    · cases h
    · next hk =>
      obtain ⟨right, mid, hright, hfinish⟩ := Reading.bind_ok h
      obtain ⟨rfl, rfl, hdepth⟩ := finish_ok hfinish
      obtain ⟨us, n, hcons, hmid⟩ := hsound _ (Nat.lt_succ_self _) right mid hright
      exact ⟨_, _, hleft.right hop hcons (Nat.le_of_not_lt hk) hdepth, hmid⟩

/-- The reader of operands of `∧` is sound if the readers are on fewer tokens. -/
theorem sound_not (hlimit : 0 < limit) {s : State}
    (hsound : ∀ level, ∀ s' : State, s'.rest.length < s.rest.length → Sound limit level s') :
    Sound limit .not s := by
  intro phrase after h
  obtain ⟨_ | ⟨token, rest⟩, p, k⟩ := s
  · rw [reading_nil] at h
    cases h
  cases token with
  | atom name =>
    rw [reading_atom] at h
    cases h
    exact ⟨_, _, .atom hlimit name, .not _⟩
  | closing => rw [reading_closing] at h; cases h
  | opening =>
    rw [reading_opening] at h
    split at h
    · cases h
    · next hk =>
      obtain ⟨inner, mid, hinner, hclose⟩ := Reading.bind_ok h
      obtain ⟨ts, n, hcons, -⟩ := hsound _ _ (Nat.lt_succ_self _) inner mid hinner
      obtain ⟨rfl, hmid, hafter⟩ := close_ok hclose
      obtain ⟨_, q, j⟩ := mid
      subst hmid
      rw [hafter]
      exact ⟨_, _, hcons.parentheses (Nat.le_of_not_lt hk), .not _⟩
  | connective c =>
    cases c with
    | binary op => rw [reading_connective] at h; cases h
    | not =>
      rw [reading_not] at h
      split at h
      · cases h
      · next hk =>
        obtain ⟨operand, mid, hoperand, hfinish⟩ := Reading.bind_ok h
        obtain ⟨rfl, rfl, hdepth⟩ := finish_ok hfinish
        obtain ⟨ts, n, hcons, -⟩ := hsound _ _ (Nat.lt_succ_self _) operand mid hoperand
        exact ⟨_, _, hcons.negation (Nat.le_of_not_lt hk) hdepth, .not _⟩

/-- The reader of chains of `op` is sound if the readers are on fewer tokens, and that of its
operands is. -/
theorem sound_chain {s : State}
    (hsound : ∀ level, ∀ s' : State, s'.rest.length < s.rest.length → Sound limit level s')
    (hoperand : Sound limit op.tighter s) : Sound limit (.binary op) s := by
  intro phrase after h
  rw [reading_chain] at h
  obtain ⟨first, mid, hfirst, hrest⟩ := Reading.bind_ok h
  obtain ⟨ts, m, hcons, hmid⟩ := hoperand first mid hfirst
  have hless : mid.rest.length < s.rest.length := length_reading hfirst
  cases hop : op.rightAssociative with
  | false =>
    exact sound_extension_left hop (fun s' hs' => hsound _ s' (Nat.lt_trans hs' hless))
      hcons.operand hmid hrest
  | true =>
    exact sound_extension_right hop (fun s' hs' => hsound _ s' (Nat.lt_trans hs' hless))
      hcons hmid hrest

/-- The readers of all levels are sound. -/
theorem sound (hlimit : 0 < limit) (level : Connective) (s : State) : Sound limit level s := by
  induction level, s using levelInduction with
  | not s hsound => exact sound_not hlimit hsound
  | binary op s hsound hoperand => exact sound_chain hsound hoperand

end State

end Sentential.Symbolic
