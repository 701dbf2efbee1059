import Sentential.Symbolic.Reader

/-! The readers of phrases without the measure that they end by: what each case of `State.read` and
`State.extend` gives, as equations between results. -/

namespace Sentential.Symbolic

/-- A phrase and the state after it, or a fault and the state in which it was found. -/
abbrev Reading := Except (Fault × State) (Phrase × State)

/-- An outcome without the proof that fewer tokens are left. -/
def Outcome.reading {size : Nat} : Outcome size → Reading
  | done phrase after _ => .ok (phrase, after)
  | fault cause found => .error (cause, found)

namespace State

/-- What reading a phrase of a level gives. -/
def reading (limit : Nat) (level : Connective) (s : State) : Reading := (s.read limit level).reading

/-- What extending a phrase by a chain of `op` gives. -/
def extension (limit : Nat) (op : Binary) (left : Phrase) (s : State) : Reading :=
  (State.extend limit op left s (Nat.lt_add_one s.rest.length)).reading

/-- What a phrase whose last level was just read gives. -/
def finish (limit : Nat) (phrase : Phrase) (after : State) : Reading :=
  if limit < phrase.depth then .error (.tooDeep limit, after) else .ok (phrase, after)

/-- What a formula in parentheses gives when the state is where they have to close. -/
def close (inner : Phrase) : State → Reading
  | ⟨.closing :: rest, p, k⟩ => .ok (inner, ⟨rest, p + 1, k - 1⟩)
  | ⟨[], p, k⟩ => .error (.mismatch .closing .theEnd p, ⟨[], p, k⟩)
  | ⟨found :: rest, p, k⟩ => .error (.mismatch .closing (.token found) p, ⟨found :: rest, p, k⟩)

end State

theorem Reading.bind_ok {r : Reading} {next : Phrase × State → Reading} {result : Phrase × State}
    (h : (r >>= next) = .ok result) :
    ∃ phrase s, r = .ok (phrase, s) ∧ next (phrase, s) = .ok result := by
  cases r with
  | error fault => cases h
  | ok pair => exact ⟨pair.1, pair.2, rfl, h⟩

theorem Outcome.reading_ofPhrase {size limit : Nat} {phrase : Phrase} {after : State}
    (shorter : after.rest.length < size) :
    (Outcome.ofPhrase limit phrase after shorter).reading = after.finish limit phrase := by
  rw [Outcome.ofPhrase, State.finish]
  split <;> rfl

/-- A phrase that was read leaves fewer tokens. -/
theorem State.length_reading {limit : Nat} {level : Connective} {s after : State} {phrase : Phrase}
    (h : s.reading limit level = .ok (phrase, after)) : after.rest.length < s.rest.length := by
  rw [State.reading] at h
  cases hr : s.read limit level with
  | done phrase' after' shorter =>
    rw [hr] at h
    cases h
    exact shorter
  | fault cause found => rw [hr] at h; cases h

namespace State

/-- Induction on the tokens left, and on the level among the readers of the same tokens: a chain and
its first operand start at the same token. -/
@[elab_as_elim]
theorem levelInduction {motive : Connective → State → Prop}
    (not : ∀ s, (∀ level (s' : State), s'.rest.length < s.rest.length → motive level s') →
      motive .not s)
    (binary : ∀ op s, (∀ level (s' : State), s'.rest.length < s.rest.length → motive level s') →
      motive op.tighter s → motive (.binary op) s)
    (level : Connective) (s : State) : motive level s := by
  induction hlen : s.rest.length using Nat.strongRecOn generalizing s level with
  | ind len ih =>
  subst hlen
  have hless : ∀ level (s' : State), s'.rest.length < s.rest.length → motive level s' :=
    fun level s' hs' => ih _ hs' level s' rfl
  induction level using Connective.tighterInduction with
  | not => exact not s hless
  | binary op hoperand => exact binary op s hless hoperand

/-- Induction on the tokens left by whether a chain of `op` goes on. -/
@[elab_as_elim]
theorem chainInduction (op : Binary) {motive : State → Prop}
    (stop : ∀ s, (∀ rest, s.rest ≠ .connective (.binary op) :: rest) → motive s)
    (step : ∀ rest p k, (∀ s' : State, s'.rest.length < rest.length → motive s') →
      motive ⟨.connective (.binary op) :: rest, p, k⟩) (s : State) : motive s := by
  induction hlen : s.rest.length using Nat.strongRecOn generalizing s with
  | ind len ih =>
  by_cases h : ∃ rest, s.rest = .connective (.binary op) :: rest
  · obtain ⟨_, p, k⟩ := s
    obtain ⟨rest, rfl⟩ := h
    exact step rest p k fun s' hs' => ih _ (hlen ▸ Nat.lt_succ_of_lt hs') s' rfl
  · exact stop s (not_exists.mp h)

variable {limit : Nat} {op : Binary} {left : Phrase} {rest : List Token} {p k : Nat}

@[simp] theorem reading_nil :
    (⟨[], p, k⟩ : State).reading limit .not = .error (.unexpectedEnd, ⟨[], p, k⟩) := by
  rw [reading, State.read]; rfl

@[simp] theorem reading_atom {name : Char} :
    (⟨.atom name :: rest, p, k⟩ : State).reading limit .not =
      .ok (.atom name, ⟨rest, p + 1, k⟩) := by
  rw [reading, State.read]; rfl

@[simp] theorem reading_closing :
    (⟨.closing :: rest, p, k⟩ : State).reading limit .not =
      .error (.invalidAtom .closing p, ⟨rest, p + 1, k⟩) := by
  rw [reading, State.read]; rfl

@[simp] theorem reading_connective :
    (⟨.connective (.binary op) :: rest, p, k⟩ : State).reading limit .not =
      .error (.invalidAtom (.connective (.binary op)) p, ⟨rest, p + 1, k⟩) := by
  rw [reading, State.read]; rfl

theorem reading_not :
    (⟨.connective .not :: rest, p, k⟩ : State).reading limit .not =
      if limit < k + 1 then .error (.tooDeep limit, ⟨rest, p + 1, k + 1⟩)
      else (⟨rest, p + 1, k + 1⟩ : State).reading limit .not >>= fun (operand, after) =>
        after.leave.finish limit operand.not := by
  rw [reading, State.read]
  split
  · rfl
  · rw [reading]
    cases (⟨rest, p + 1, k + 1⟩ : State).read limit .not with
    | done operand after shorter => exact Outcome.reading_ofPhrase _
    | fault cause found => rfl

theorem reading_opening :
    (⟨.opening :: rest, p, k⟩ : State).reading limit .not =
      if limit < k + 1 then .error (.tooDeep limit, ⟨rest, p + 1, k + 1⟩)
      else (⟨rest, p + 1, k + 1⟩ : State).reading limit (.binary .iff) >>= fun (inner, after) =>
        after.close inner := by
  rw [reading, State.read]
  split
  · rfl
  · rw [reading]
    cases (⟨rest, p + 1, k + 1⟩ : State).read limit (.binary .iff) with
    | fault cause found => rfl
    | done inner after shorter =>
      obtain ⟨_ | ⟨found, rest⟩, p, k⟩ := after
      · rfl
      · cases found <;> rfl

theorem reading_extend_stop {size : Nat} {s : State} {shorter : s.rest.length < size}
    (h : ∀ rest, s.rest ≠ .connective (.binary op) :: rest) :
    (State.extend limit op left s shorter).reading = .ok (left, s) := by
  obtain ⟨rest, p, k⟩ := s
  match rest, shorter with
  | .connective (.binary other) :: rest, shorter =>
    have hne : other ≠ op := fun he => h rest (he ▸ rfl)
    rw [State.extend, if_pos hne]
    rfl
  | [], _ | .connective .not :: _, _ | .atom _ :: _, _ | .opening :: _, _ | .closing :: _, _ =>
    rw [State.extend.eq_def]
    rfl

/-- Extending a phrase does not depend on the number that the tokens are counted against. -/
theorem reading_extend {size : Nat} (s : State) (shorter : s.rest.length < size) :
    (State.extend limit op left s shorter).reading = s.extension limit op left := by
  induction s using chainInduction op generalizing left size with
  | stop s h => rw [extension, reading_extend_stop h, reading_extend_stop h]
  | step rest p k ih =>
  rw [extension, State.extend, State.extend]
  split
  · rfl
  · split
    · split
      · rfl
      · cases (⟨rest, p + 1, k + 1⟩ : State).read limit (.binary op) with
        | done right after less => simp only [Outcome.reading_ofPhrase]
        | fault cause found => rfl
    · cases (⟨rest, p + 1, k⟩ : State).read limit op.tighter with
      | fault cause found => rfl
      | done right after less =>
        dsimp only
        split
        · rfl
        · rw [ih after less, ih after less]

theorem reading_chain (s : State) :
    s.reading limit (.binary op) = s.reading limit op.tighter >>= fun (left, after) =>
      after.extension limit op left := by
  rw [reading, State.read, reading]
  cases s.read limit op.tighter with
  | done left after shorter => exact reading_extend after shorter
  | fault cause found => rfl

/-- A chain of `op` ends where another token follows. -/
theorem extension_stop {s : State} (h : ∀ rest, s.rest ≠ .connective (.binary op) :: rest) :
    s.extension limit op left = .ok (left, s) :=
  reading_extend_stop h

theorem extension_left (hop : op.rightAssociative = false) :
    (⟨.connective (.binary op) :: rest, p, k⟩ : State).extension limit op left =
      (⟨rest, p + 1, k⟩ : State).reading limit op.tighter >>= fun (right, after) =>
        after.finish limit (.binary op left right) >>= fun (chain, after) =>
          after.extension limit op chain := by
  rw [extension, State.extend, if_neg (fun h => h rfl), if_neg (by simp [hop]), reading]
  cases (⟨rest, p + 1, k⟩ : State).read limit op.tighter with
  | fault cause found => rfl
  | done right after less =>
    show Outcome.reading (if _ then _ else _) = after.finish limit _ >>= _
    rw [finish]
    split
    · rfl
    · exact reading_extend after _

theorem extension_right (hop : op.rightAssociative = true) :
    (⟨.connective (.binary op) :: rest, p, k⟩ : State).extension limit op left =
      if limit < k + 1 then .error (.tooDeep limit, ⟨rest, p + 1, k + 1⟩)
      else (⟨rest, p + 1, k + 1⟩ : State).reading limit (.binary op) >>= fun (right, after) =>
        after.leave.finish limit (.binary op left right) := by
  rw [extension, State.extend, if_neg (fun h => h rfl), if_pos hop, reading]
  split
  · rfl
  · cases (⟨rest, p + 1, k + 1⟩ : State).read limit (.binary op) with
    | done right after less => exact Outcome.reading_ofPhrase _
    | fault cause found => rfl

theorem parse_eq (s : State) :
    s.parse limit =
      match s.reading limit (.binary .iff) with
      | .error (cause, found) => (.error cause, found)
      | .ok (_, ⟨found :: rest, p, k⟩) => (.error (.trailing found p), ⟨found :: rest, p, k⟩)
      | .ok (phrase, ⟨[], p, k⟩) => (.ok phrase.formula, ⟨[], p, k⟩) := by
  rw [parse, reading]
  cases s.read limit (.binary .iff) with
  | fault cause found => rfl
  | done phrase after shorter =>
    obtain ⟨_ | ⟨found, rest⟩, p, k⟩ := after <;> rfl

end State

/-- The tokens do not start with a connective that a phrase of the level would take up: one that
joins two formulas and binds as tightly as the level or tighter. -/
def Stops (level : Connective) (rest : List Token) : Prop :=
  ∀ op tail, rest = .connective (.binary op) :: tail →
    (Connective.binary op).precedence < level.precedence

namespace Stops

variable {op : Binary} {level : Connective} {rest : List Token}

theorem ne_cons (h : Stops (.binary op) rest) (tail : List Token) :
    rest ≠ .connective (.binary op) :: tail := fun he => Nat.lt_irrefl _ (h op tail he)

theorem not (rest : List Token) : Stops .not rest := fun op _ _ => by cases op <;> decide

theorem mono {tighter : Connective} (h : Stops level rest)
    (hle : level.precedence ≤ tighter.precedence) : Stops tighter rest :=
  fun op tail he => Nat.lt_of_lt_of_le (h op tail he) hle

theorem tighter (h : Stops (.binary op) rest) : Stops op.tighter rest :=
  h.mono (by rw [op.precedence_tighter]; exact Nat.le_succ _)

/-- A phrase of operands of `op` that does not go on with `op` is over. -/
theorem of_tighter (h : Stops op.tighter rest)
    (hne : ∀ tail, rest ≠ .connective (.binary op) :: tail) : Stops (.binary op) rest := by
  intro other tail he
  have hlt := h other tail he
  rw [op.precedence_tighter] at hlt
  refine Nat.lt_of_le_of_ne (Nat.le_of_lt_succ hlt) fun heq => ?_
  exact hne tail (Binary.eq_of_precedence heq ▸ he)

theorem cons_tighter (op : Binary) (tail : List Token) :
    Stops op.tighter (.connective (.binary op) :: tail) := by
  intro other _ he
  cases he
  rw [op.precedence_tighter]
  exact Nat.lt_succ_self _

theorem closing (level : Connective) (tail : List Token) : Stops level (.closing :: tail) :=
  fun _ _ he => nomatch he

theorem nil (level : Connective) : Stops level [] := fun _ _ he => nomatch he

end Stops

end Sentential.Symbolic
