import Sentential.Proofs.Symbolic.Grammar
import Sentential.Proofs.Symbolic.Reading

/-! What is derived is read: the readers get to the formula of a derivation if its depth and the
nesting keep to the limit, and find it too deep if one of them does not. -/

namespace Sentential.Symbolic

/-- The reading is the one expected if the condition holds, and finds a formula too deep if not. -/
def Obeys (limit : Nat) (condition : Prop) (expected reading : Reading) : Prop :=
  (condition → reading = expected) ∧
    (¬condition → ∃ found, reading = .error (.tooDeep limit, found))

namespace Obeys

variable {limit : Nat} {a b : Prop} {expected middle reading : Reading}

theorem refl (h : a) : Obeys limit a reading reading := ⟨fun _ => rfl, fun hn => absurd h hn⟩

theorem trans (h : Obeys limit a middle reading) (h' : Obeys limit b expected middle) :
    Obeys limit (a ∧ b) expected reading := by
  refine ⟨fun ⟨ha, hb⟩ => (h.1 ha).trans (h'.1 hb), fun hn => ?_⟩
  by_cases ha : a
  · obtain ⟨found, hf⟩ := h'.2 fun hb => hn ⟨ha, hb⟩
    exact ⟨found, (h.1 ha).trans hf⟩
  · exact h.2 ha

theorem next {next : Phrase × State → Reading} {result : Phrase × State}
    (h : Obeys limit a (.ok result) reading) :
    Obeys limit a (next result) (reading >>= next) := by
  refine ⟨fun ha => ?_, fun hn => ?_⟩
  · rw [h.1 ha]
    rfl
  · obtain ⟨found, hf⟩ := h.2 hn
    exact ⟨found, by rw [hf]; rfl⟩

theorem bind {next : Phrase × State → Reading} {result : Phrase × State}
    (h : Obeys limit a (.ok result) reading) (hnext : Obeys limit b expected (next result)) :
    Obeys limit (a ∧ b) expected (reading >>= next) := h.next.trans hnext

theorem guard {k : Nat} {found : State} (h : k ≤ limit → Obeys limit a expected reading) :
    Obeys limit (k ≤ limit ∧ a) expected
      (if limit < k then .error (.tooDeep limit, found) else reading) := by
  by_cases hk : limit < k
  · rw [if_pos hk]
    exact ⟨fun ⟨hle, _⟩ => absurd hk (Nat.not_lt.mpr hle), fun _ => ⟨found, rfl⟩⟩
  · rw [if_neg hk]
    have hle := Nat.le_of_not_lt hk
    exact ⟨fun ⟨_, ha⟩ => (h hle).1 ha, fun hn => (h hle).2 fun ha => hn ⟨hle, ha⟩⟩

theorem finish (phrase : Phrase) (after : State) :
    Obeys limit (phrase.depth ≤ limit) (.ok (phrase, after)) (after.finish limit phrase) := by
  rw [State.finish]
  exact ⟨fun h => if_neg (Nat.not_lt.mpr h), fun h => ⟨after, if_pos (Nat.lt_of_not_le h)⟩⟩

theorem congr (h : Obeys limit a expected reading) (hab : a ↔ b) :
    Obeys limit b expected reading :=
  ⟨fun hb => h.1 (hab.mpr hb), fun hb => h.2 fun ha => hb (hab.mp ha)⟩

end Obeys

/-- A formula as a phrase that was read. -/
def Phrase.of (f : Formula) : Phrase := ⟨f, f.depth⟩

theorem Phrase.binary_of (op : Binary) (f g : Formula) :
    Phrase.binary op (.of f) (.of g) = .of (.binary op f g) := by
  simp [Phrase.binary, Phrase.of, Formula.depth, Nat.add_comm]

/-- The tokens may follow a phrase of the level that a chain of this level still takes up: they stop
the operands of the chain, and the chain itself if that grows at its left end only. -/
def Resumes : Connective → List Token → Prop
  | .not, _ => True
  | .binary op, rest =>
    if op.rightAssociative then Stops (.binary op) rest else Stops op.tighter rest

/-- What is left to do when a reader of the level has a phrase of the level. -/
def State.resume (limit : Nat) : Connective → Phrase → State → Reading
  | .not, phrase, s => .ok (phrase, s)
  | .binary op, phrase, s => s.extension limit op phrase

theorem Stops.resumes {level : Connective} {rest : List Token} (h : Stops level rest) :
    Resumes level rest := by
  cases level with
  | not => trivial
  | binary op =>
    rw [Resumes]
    split
    · exact h
    · exact h.tighter

theorem Resumes.tighter {op : Binary} {rest : List Token} (h : Resumes (.binary op) rest) :
    Stops op.tighter rest := by
  rw [Resumes] at h
  split at h
  · exact Stops.tighter h
  · exact h

theorem State.resume_stops {limit : Nat} {level : Connective} {phrase : Phrase} {s : State}
    (h : Stops level s.rest) : s.resume limit level phrase = .ok (phrase, s) := by
  cases level with
  | not => rfl
  | binary op => exact extension_stop h.ne_cons

/-- Wherever the tokens stand, with room for the nesting, the reader of the level gets as far as
having the formula. -/
def Complete (limit : Nat) (level : Connective) (ts : List Token) (f : Formula) (n : Nat) : Prop :=
  ∀ rest p k, k ≤ limit → Resumes level rest →
    Obeys limit (k + n ≤ limit ∧ f.depth ≤ limit)
      ((⟨rest, p + ts.length, k⟩ : State).resume limit level (.of f))
      ((⟨ts ++ rest, p, k⟩ : State).reading limit level)

namespace Complete

variable {limit m n : Nat} {level : Connective} {op : Binary} {f g : Formula} {ts us : List Token}

theorem stop (h : Complete limit level ts f n) {rest : List Token} {p k : Nat} (hk : k ≤ limit)
    (hstop : Stops level rest) :
    Obeys limit (k + n ≤ limit ∧ f.depth ≤ limit) (.ok (.of f, ⟨rest, p + ts.length, k⟩))
      ((⟨ts ++ rest, p, k⟩ : State).reading limit level) := by
  have := h rest p k hk hstop.resumes
  rwa [State.resume_stops hstop] at this

theorem atom (hlimit : 0 < limit) (name : Char) :
    Complete limit .not [.atom name] (.atom name) 0 := by
  intro rest p k hk _
  rw [List.singleton_append, State.reading_atom]
  exact Obeys.refl ⟨hk, hlimit⟩

theorem negation (h : Complete limit .not ts f n) :
    Complete limit .not (.connective .not :: ts) (.not f) (n + 1) := by
  intro rest p k _ _
  have hafter : (⟨rest, p + (ts.length + 1), k⟩ : State) =
      (⟨rest, p + 1 + ts.length, k + 1⟩ : State).leave := by
    simp [State.leave]
    omega
  rw [List.cons_append, State.reading_not, List.length_cons, hafter]
  refine Obeys.congr (a := k + 1 ≤ limit ∧ (k + 1 + n ≤ limit ∧ f.depth ≤ limit) ∧
    f.depth + 1 ≤ limit) ?_ (by rw [Formula.depth]; omega)
  exact .guard fun hk => (h.stop hk (.not rest)).bind (.finish (Phrase.of f).not _)

theorem parentheses (h : Complete limit (.binary .iff) ts f n) :
    Complete limit .not (.opening :: ts ++ [.closing]) f (n + 1) := by
  intro rest p k _ _
  have htokens : Token.opening :: ts ++ [.closing] ++ rest =
      .opening :: (ts ++ .closing :: rest) := by simp
  have hafter : (⟨rest, p + (Token.opening :: ts ++ [Token.closing]).length, k⟩ : State) =
      ⟨rest, p + 1 + ts.length + 1, k + 1 - 1⟩ := by
    simp
    omega
  rw [htokens, State.reading_opening, hafter]
  refine Obeys.congr (a := k + 1 ≤ limit ∧ k + 1 + n ≤ limit ∧ f.depth ≤ limit) ?_ (by omega)
  exact .guard fun hk => (h.stop hk (.closing _ rest)).next

theorem operand (h : Complete limit op.tighter ts f n) : Complete limit (.binary op) ts f n := by
  intro rest p k hk hrest
  rw [State.reading_chain]
  exact (h.stop hk hrest.tighter).next

theorem state_after (p k : Nat) (ts us rest : List Token) (c : Connective) :
    (⟨rest, p + (ts ++ .connective c :: us).length, k⟩ : State) =
      ⟨rest, p + ts.length + 1 + us.length, k⟩ := by
  simp
  omega

theorem left (hop : op.rightAssociative = false) (hf : Complete limit (.binary op) ts f m)
    (hg : Complete limit op.tighter us g n) :
    Complete limit (.binary op) (ts ++ .connective (.binary op) :: us) (.binary op f g)
      (max m n) := by
  intro rest p k hk hrest
  have hmore : Resumes (.binary op) (.connective (.binary op) :: (us ++ rest)) := by
    rw [Resumes, hop]
    exact .cons_tighter op _
  rw [List.append_assoc, List.cons_append, state_after, ← Phrase.binary_of]
  refine Obeys.congr (a := (k + m ≤ limit ∧ f.depth ≤ limit) ∧ (k + n ≤ limit ∧ g.depth ≤ limit) ∧
    1 + max f.depth g.depth ≤ limit) ?_ (by rw [Formula.depth]; omega)
  -- With the first operands read, the loop goes on at the connective.
  refine (hf _ p k hk hmore).trans ?_
  show Obeys limit _ _ (State.extension limit op (.of f) _)
  rw [State.extension_left hop]
  exact (hg.stop hk hrest.tighter).bind (Obeys.finish (.binary op (.of f) (.of g)) _).next

theorem right (hop : op.rightAssociative = true) (hf : Complete limit op.tighter ts f m)
    (hg : Complete limit (.binary op) us g n) :
    Complete limit (.binary op) (ts ++ .connective (.binary op) :: us) (.binary op f g)
      (max m (n + 1)) := by
  intro rest p k hk hrest
  have hstop : Stops (.binary op) rest := by
    rwa [Resumes, if_pos hop] at hrest
  have hleave : (⟨rest, p + ts.length + 1 + us.length, k⟩ : State) =
      (⟨rest, p + ts.length + 1 + us.length, k + 1⟩ : State).leave := rfl
  rw [List.append_assoc, List.cons_append, State.resume_stops hstop, state_after, hleave,
    ← Phrase.binary_of, State.reading_chain]
  refine Obeys.congr (a := (k + m ≤ limit ∧ f.depth ≤ limit) ∧ k + 1 ≤ limit ∧
    (k + 1 + n ≤ limit ∧ g.depth ≤ limit) ∧ 1 + max f.depth g.depth ≤ limit) ?_
    (by rw [Formula.depth]; omega)
  refine (hf.stop hk (.cons_tighter op _)).bind ?_
  show Obeys limit _ _ (State.extension limit op (.of f) _)
  rw [State.extension_right hop]
  exact .guard fun hk =>
    (hg.stop hk hstop).bind (Obeys.finish (.binary op (.of f) (.of g)) _)

end Complete

/-- The readers of all levels are complete. -/
theorem Derives.complete {limit n : Nat} (hlimit : 0 < limit) {level : Connective} {ts : List Token}
    {f : Formula} (h : Derives level ts f n) : Complete limit level ts f n := by
  induction h using Derives.levelInduction with
  | atom name => exact .atom hlimit name
  | negation _ ih => exact ih.negation
  | parentheses _ ih => exact ih.parentheses
  | operand op _ ih => exact ih.operand
  | left op hop _ _ ihf ihg => exact .left hop ihf ihg
  | right op hop _ _ ihf ihg => exact .right hop ihf ihg

end Sentential.Symbolic
