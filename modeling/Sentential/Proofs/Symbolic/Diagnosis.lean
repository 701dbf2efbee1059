import Sentential.Proofs.Symbolic.Soundness
import Sentential.Proofs.Symbolic.Viability

/-! What a fault says about the tokens. The token at fault is the first after which no formula can be
completed, and a fault at the end says that the tokens can be completed but are no formula yet. -/

namespace Sentential.Symbolic

open Outlook

/-- From one state and outlook, reading on leads to another state and outlook. -/
def Leads (s : State) (o : Outlook) (s' : State) (o' : Outlook) : Prop :=
  ∃ ts, s.rest = ts ++ s'.rest ∧ s'.position = s.position + ts.length ∧ o.run ts = some o'

/-- What the fault says where it is found, with the outlook that the tokens before it leave. -/
def Fault.At (limit : Nat) (s : State) (o : Outlook) : Fault → Prop
  | .unexpectedEnd => s.rest = [] ∧ o.operand = true
  | .invalidAtom found position =>
    position = s.position ∧ s.rest.head? = some found ∧ o.step found = none
  | .mismatch expected found position =>
    expected = .closing ∧ position = s.position ∧ 0 < o.opened ∧
      ((s.rest = [] ∧ found = .theEnd) ∨
        ∃ t, s.rest.head? = some t ∧ found = .token t ∧ o.step t = none)
  | .tooDeep bound => bound = limit
  | .trailing .. | .illegalCharacter .. => False

/-- Reading on from a state and outlook leads to where the fault is found. -/
def Finds (limit : Nat) (s : State) (o : Outlook) (fault : Fault) : Prop :=
  ∃ s' o', Leads s o s' o' ∧ fault.At limit s' o'

namespace Leads

variable {s s' s'' : State} {o o' o'' : Outlook}

theorem refl (s : State) (o : Outlook) : Leads s o s o := ⟨[], rfl, rfl, rfl⟩

theorem trans (h : Leads s o s' o') (h' : Leads s' o' s'' o'') : Leads s o s'' o'' := by
  obtain ⟨ts, hrest, hposition, hrun⟩ := h
  obtain ⟨us, hrest', hposition', hrun'⟩ := h'
  refine ⟨ts ++ us, by rw [hrest, hrest', List.append_assoc], ?_, (run_of_run hrun us).trans hrun'⟩
  rw [hposition', hposition, List.length_append]
  omega

theorem token {t : Token} (h : o.step t = some o') (rest : List Token) (p k k' : Nat) :
    Leads ⟨t :: rest, p, k⟩ o ⟨rest, p + 1, k'⟩ o' :=
  ⟨[t], rfl, rfl, run_of_step h []⟩

/-- A phrase that is read is an operand. -/
theorem phrase {limit n : Nat} {level : Connective} {phrase : Phrase} {ts : List Token}
    (h : Consumes limit level s s' phrase ts n) (k : Nat) : Leads s ⟨true, k⟩ s' ⟨false, k⟩ :=
  ⟨ts, h.rest, h.position, h.derives.run k⟩

end Leads

theorem Finds.after {limit : Nat} {s s' : State} {o o' : Outlook} {fault : Fault}
    (h : Finds limit s' o' fault) (hleads : Leads s o s' o') : Finds limit s o fault := by
  obtain ⟨found, outlook, hfound, hat⟩ := h
  exact ⟨found, outlook, hleads.trans hfound, hat⟩

theorem Finds.here {limit : Nat} {s : State} {o : Outlook} {fault : Fault}
    (h : fault.At limit s o) : Finds limit s o fault := ⟨s, o, .refl s o, h⟩

theorem Reading.bind_error {r : Reading} {next : Phrase × State → Reading} {fault : Fault × State}
    (h : (r >>= next) = .error fault) :
    r = .error fault ∨ ∃ phrase s, r = .ok (phrase, s) ∧ next (phrase, s) = .error fault := by
  cases r with
  | error found =>
    left
    exact h
  | ok pair =>
    right
    exact ⟨pair.1, pair.2, rfl, h⟩

/-- A token that no phrase goes on with may only come after an operand if it closes a
parenthesis. -/
theorem Stops.step_eq_none {t : Token} {rest : List Token} {k : Nat}
    (h : Stops (.binary .iff) (t :: rest)) (ht : t = .closing → k = 0) :
    (⟨false, k⟩ : Outlook).step t = none := by
  match t with
  | .connective (.binary op) =>
    have hlt := h op rest rfl
    exact absurd hlt (by cases op <;> decide)
  | .closing =>
    rw [ht rfl]
    rfl
  | .atom _ | .connective .not | .opening => rfl

namespace State

variable {limit : Nat} {op : Binary} {level : Connective} {s : State}

/-- Every fault of the reader of the level is found by reading on. -/
def Diagnosed (limit : Nat) (level : Connective) (s : State) : Prop :=
  ∀ fault found, s.reading limit level = .error (fault, found) →
    ∀ k, Finds limit s ⟨true, k⟩ fault

theorem finish_error {after found : State} {phrase : Phrase} {fault : Fault}
    (h : after.finish limit phrase = .error (fault, found)) :
    fault = .tooDeep limit ∧ found = after := by
  rw [finish] at h
  split at h
  · cases h
    exact ⟨rfl, rfl⟩
  · cases h

theorem finds_tooDeep (s : State) (o : Outlook) : Finds limit s o (.tooDeep limit) := .here rfl

theorem finds_close {inner : Phrase} {found : State} {fault : Fault} (k : Nat)
    (hstop : Stops (.binary .iff) s.rest) (h : s.close inner = .error (fault, found)) :
    Finds limit s ⟨false, k + 1⟩ fault := by
  obtain ⟨rest, p, j⟩ := s
  refine .here ?_
  match rest, h with
  | [], h =>
    cases h
    exact ⟨rfl, rfl, Nat.succ_pos k, .inl ⟨rfl, rfl⟩⟩
  | .atom _ :: _, h | .opening :: _, h | .connective _ :: _, h =>
    cases h
    exact ⟨rfl, rfl, Nat.succ_pos k, .inr ⟨_, rfl, rfl, hstop.step_eq_none nofun⟩⟩

theorem diagnosed_not (hlimit : 0 < limit)
    (hdiagnosed : ∀ level, ∀ s' : State, s'.rest.length < s.rest.length → Diagnosed limit level s') :
    Diagnosed limit .not s := by
  intro fault found h k
  obtain ⟨_ | ⟨token, rest⟩, p, j⟩ := s
  · rw [reading_nil] at h
    cases h
    exact .here ⟨rfl, rfl⟩
  cases token with
  | atom name => rw [reading_atom] at h; cases h
  | closing =>
    rw [reading_closing] at h
    cases h
    exact .here ⟨rfl, rfl, rfl⟩
  | opening =>
    rw [reading_opening] at h
    split at h
    · cases h
      exact finds_tooDeep _ _
    · have hleads := Leads.token (o := ⟨true, k⟩) (t := .opening) rfl rest p j (j + 1)
      rcases Reading.bind_error h with hinner | ⟨inner, mid, hinner, hclose⟩
      · exact (hdiagnosed _ _ (Nat.lt_succ_self _) fault found hinner (k + 1)).after hleads
      · obtain ⟨ts, n, hcons, hstop⟩ := sound hlimit _ _ _ _ hinner
        exact ((finds_close k hstop hclose).after (.phrase hcons (k + 1))).after hleads
  | connective c =>
    cases c with
    | binary op =>
      rw [reading_connective] at h
      cases h
      exact .here ⟨rfl, rfl, rfl⟩
    | not =>
      rw [reading_not] at h
      split at h
      · cases h
        exact finds_tooDeep _ _
      · have hleads := Leads.token (o := ⟨true, k⟩) (t := .connective .not) rfl rest p j (j + 1)
        rcases Reading.bind_error h with hoperand | ⟨operand, mid, -, hfinish⟩
        · exact (hdiagnosed _ _ (Nat.lt_succ_self _) fault found hoperand k).after hleads
        · rw [(finish_error hfinish).1]
          exact finds_tooDeep _ _

/-- A loop that extends a chain to the left finds its faults by reading on from its connectives. -/
theorem finds_extension_left (hlimit : 0 < limit) (hop : op.rightAssociative = false) {left : Phrase}
    {found : State} {fault : Fault} (k : Nat)
    (hdiagnosed : ∀ s' : State, s'.rest.length < s.rest.length → Diagnosed limit op.tighter s')
    (h : s.extension limit op left = .error (fault, found)) : Finds limit s ⟨false, k⟩ fault := by
  induction s using chainInduction op generalizing left with
  | stop s hnext =>
    rw [extension_stop hnext] at h
    cases h
  | step rest p j ih =>
    have hleads := Leads.token (o := ⟨false, k⟩) (t := .connective (.binary op)) rfl rest p j j
    rw [extension_left hop] at h
    rcases Reading.bind_error h with hright | ⟨right, mid, hright, hchain⟩
    · exact (hdiagnosed _ (Nat.lt_succ_self _) fault found hright k).after hleads
    rcases Reading.bind_error hchain with hfinish | ⟨chain, last, hfinish, hrest⟩
    · rw [(finish_error hfinish).1]
      exact finds_tooDeep _ _
    obtain ⟨rfl, rfl, -⟩ := finish_ok hfinish
    obtain ⟨ts, n, hcons, -⟩ := sound hlimit _ _ _ _ hright
    have hless : last.rest.length < rest.length := length_reading hright
    have hlast := ih last hless
      (fun s' hs' => hdiagnosed s' (Nat.lt_trans hs' (Nat.lt_succ_of_lt hless))) hrest
    exact (hlast.after (.phrase hcons k)).after hleads

theorem finds_extension_right (hop : op.rightAssociative = true) {left : Phrase} {found : State}
    {fault : Fault} (k : Nat)
    (hdiagnosed : ∀ s' : State, s'.rest.length < s.rest.length → Diagnosed limit (.binary op) s')
    (h : s.extension limit op left = .error (fault, found)) : Finds limit s ⟨false, k⟩ fault := by
  induction s using chainInduction op with
  | stop s hnext =>
    rw [extension_stop hnext] at h
    cases h
  | step rest p j =>
    rw [extension_right hop] at h
    split at h
    · cases h
      exact finds_tooDeep _ _
    · have hleads := Leads.token (o := ⟨false, k⟩) (t := .connective (.binary op)) rfl rest p j (j + 1)
      rcases Reading.bind_error h with hright | ⟨right, mid, -, hfinish⟩
      · exact (hdiagnosed _ (Nat.lt_succ_self _) fault found hright k).after hleads
      · rw [(finish_error hfinish).1]
        exact finds_tooDeep _ _

theorem diagnosed_chain (hlimit : 0 < limit)
    (hdiagnosed : ∀ level, ∀ s' : State, s'.rest.length < s.rest.length → Diagnosed limit level s')
    (hoperand : Diagnosed limit op.tighter s) : Diagnosed limit (.binary op) s := by
  intro fault found h k
  rw [reading_chain] at h
  rcases Reading.bind_error h with hfirst | ⟨first, mid, hfirst, hrest⟩
  · exact hoperand fault found hfirst k
  · obtain ⟨ts, n, hcons, -⟩ := sound hlimit _ _ _ _ hfirst
    have hless : mid.rest.length < s.rest.length := length_reading hfirst
    have hlast : Finds limit mid ⟨false, k⟩ fault := by
      cases hop : op.rightAssociative with
      | false =>
        exact finds_extension_left hlimit hop k
          (fun s' hs' => hdiagnosed _ s' (Nat.lt_trans hs' hless)) hrest
      | true =>
        exact finds_extension_right hop k
          (fun s' hs' => hdiagnosed _ s' (Nat.lt_trans hs' hless)) hrest
    exact hlast.after (.phrase hcons k)

/-- The readers of all levels find their faults by reading on. -/
theorem diagnosed (hlimit : 0 < limit) (level : Connective) (s : State) : Diagnosed limit level s := by
  induction level, s using levelInduction with
  | not s hdiagnosed => exact diagnosed_not hlimit hdiagnosed
  | binary op s hdiagnosed hoperand => exact diagnosed_chain hlimit hdiagnosed hoperand

end State

/-- The token at the position is the first after which the tokens start no formula. -/
structure FirstHopeless (ts : List Token) (t : Token) (position : Nat) : Prop where
  token : ts[position]? = some t
  before : Viable (ts.take position)
  after : ¬Viable (ts.take (position + 1))

/-- The tokens start a formula, but they are none. -/
structure Unfinished (ts : List Token) : Prop where
  viable : Viable ts
  unformed : ¬Formed ts

/-- What a fault has to say about the tokens in which it was found. -/
def Fault.Locates (ts : List Token) : Fault → Prop
  | .unexpectedEnd => Unfinished ts
  | .mismatch expected .theEnd position =>
    expected = .closing ∧ position = ts.length ∧ Unfinished ts
  | .mismatch expected (.token found) position =>
    expected = .closing ∧ FirstHopeless ts found position
  | .invalidAtom found position => FirstHopeless ts found position
  | .trailing found position => FirstHopeless ts found position ∧ Formed (ts.take position)
  | .tooDeep limit => limit = 256
  | .mismatch _ (.illegal _) _ | .illegalCharacter .. => False

variable {ts us rest : List Token} {t : Token} {o : Outlook}

theorem firstHopeless_of_step (hrun : start.run us = some o) (hstep : o.step t = none) :
    FirstHopeless (us ++ t :: rest) t us.length := by
  have hafter : (us ++ t :: rest).take (us.length + 1) = us ++ [t] := by
    rw [List.take_append, List.take_of_length_le (Nat.le_succ _)]
    simp
  refine ⟨by simp, by simpa using viable_iff.mpr ⟨o, hrun⟩, ?_⟩
  rw [hafter, viable_iff, run_of_run hrun, run_cons, hstep]
  rintro ⟨_, h⟩
  cases h

theorem unfinished_of_run (hrun : start.run ts = some o) (ho : o ≠ ⟨false, 0⟩) : Unfinished ts := by
  refine ⟨viable_iff.mpr ⟨o, hrun⟩, fun hformed => ho ?_⟩
  rw [formed_iff, hrun] at hformed
  exact Option.some.inj hformed

theorem Finds.locates {k : Nat} {fault : Fault} (h : Finds 256 ⟨ts, 0, k⟩ start fault) :
    fault.Locates ts := by
  obtain ⟨⟨rest, p, j⟩, o, ⟨us, hrest, hposition, hrun⟩, hat⟩ := h
  obtain rfl : ts = us ++ rest := hrest
  obtain rfl : p = us.length := by simpa using hposition
  match fault, hat with
  | .unexpectedEnd, ⟨hnil, hoperand⟩ =>
    obtain rfl : rest = [] := hnil
    rw [List.append_nil]
    refine unfinished_of_run hrun ?_
    rintro rfl
    cases hoperand
  | .invalidAtom found position, ⟨hposition, hhead, hstep⟩ =>
    obtain ⟨tail, rfl⟩ := List.head?_eq_some_iff.mp hhead
    rw [hposition]
    exact firstHopeless_of_step hrun hstep
  | .mismatch expected found position, ⟨hexpected, hposition, hopened, hfound⟩ =>
    rw [hposition]
    rcases hfound with ⟨hnil, rfl⟩ | ⟨t, hhead, rfl, hstep⟩
    · obtain rfl : rest = [] := hnil
      rw [List.append_nil]
      refine ⟨hexpected, rfl, unfinished_of_run hrun ?_⟩
      rintro rfl
      cases hopened
    · obtain ⟨tail, rfl⟩ := List.head?_eq_some_iff.mp hhead
      exact ⟨hexpected, firstHopeless_of_step hrun hstep⟩
  | .tooDeep limit, hlimit => exact hlimit

/-- A fault in tokens is found at the first that no formula goes on with, or at the end if the tokens
start a formula and are none. What was expected is always a closing parenthesis, and what trails
follows a formula. -/
theorem Reader.parse_locates (ts : List Token) {fault : Fault}
    (h : (ofLexemes (ts.map .token)).parse.1 = .error fault) : fault.Locates ts := by
  rw [parse_ofTokens, readTokens, State.parse_eq] at h
  have hlimit : 0 < levelLimit := by decide
  cases hread : (⟨ts, 0, 0⟩ : State).reading levelLimit (.binary .iff) with
  | error result =>
    obtain ⟨cause, found⟩ := result
    rw [hread] at h
    cases h
    exact (State.diagnosed hlimit _ _ _ _ hread 0).locates
  | ok result =>
    obtain ⟨phrase, _ | ⟨t, rest⟩, p, k⟩ := result
    · rw [hread] at h
      cases h
    · rw [hread] at h
      cases h
      obtain ⟨us, n, hcons, hstop⟩ := State.sound hlimit _ _ _ _ hread
      obtain rfl : ts = us ++ t :: rest := hcons.rest
      obtain rfl : p = us.length := by simpa using hcons.position
      refine ⟨firstHopeless_of_step (hcons.derives.run 0) (hstop.step_eq_none fun _ => rfl), ?_⟩
      rw [List.take_left]
      exact ⟨phrase.formula, n, hcons.derives⟩

/-- In `(P Q` the parenthesis may still be closed after `P`, and no longer after `Q`. -/
theorem Reader.parse_locates_unclosed :
    let ts := [Token.opening, .atom 'P', .atom 'Q']
    (ofLexemes (ts.map .token)).parse.1 = .error (.mismatch .closing (.token (.atom 'Q')) 2) ∧
      Viable [.opening, .atom 'P'] ∧ ¬Viable ts := by
  intro ts
  have hparse : (ofLexemes (ts.map .token)).parse.1 =
      .error (.mismatch .closing (.token (.atom 'Q')) 2) := by
    rw [parse_ofTokens]
    simp [ts, readTokens, State.parse_eq, State.reading_chain, Binary.tighter,
      State.reading_opening, State.extension_stop, State.close, levelLimit, bind, Except.bind]
  have hlocates := parse_locates ts hparse
  exact ⟨hparse, hlocates.2.before, hlocates.2.after⟩

end Sentential.Symbolic
