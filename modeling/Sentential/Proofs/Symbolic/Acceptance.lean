import Sentential.Proofs.Symbolic.Completeness
import Sentential.Proofs.Symbolic.Soundness

/-! Which token lists and texts are read as a formula. Tokens are read as exactly the formula that
the grammar derives from them within the limit, there is at most one, and beyond the limit it is
found too deep. A text without foreign characters is read as its tokens are. -/

namespace Sentential.Symbolic

variable {ts : List Token} {f g : Formula} {limit m n p k : Nat}

namespace State

/-- The limit decides how a derivable formula is read. -/
theorem parse_of_derives (hlimit : 0 < limit) (hk : k ≤ limit)
    (h : Derives (.binary .iff) ts f n) :
    (k + n ≤ limit ∧ f.depth ≤ limit → ((⟨ts, p, k⟩ : State).parse limit).1 = .ok f) ∧
      (¬(k + n ≤ limit ∧ f.depth ≤ limit) →
        ((⟨ts, p, k⟩ : State).parse limit).1 = .error (.tooDeep limit)) := by
  obtain ⟨hin, hout⟩ := (h.complete hlimit).stop (p := p) hk (.nil _)
  rw [List.append_nil] at hin hout
  rw [parse_eq]
  constructor
  · intro hwithin
    rw [hin hwithin]
    rfl
  · intro hbeyond
    obtain ⟨found, hfound⟩ := hout hbeyond
    rw [hfound]

/-- Only derivable formulas are read, within the limit. -/
theorem derives_of_parse (hlimit : 0 < limit)
    (h : ((⟨ts, p, 0⟩ : State).parse limit).1 = .ok f) :
    ∃ n, Derives (.binary .iff) ts f n ∧ n ≤ limit ∧ f.depth ≤ limit := by
  rw [parse_eq] at h
  cases hread : (⟨ts, p, 0⟩ : State).reading limit (.binary .iff) with
  | error fault => rw [hread] at h; cases h
  | ok result =>
    obtain ⟨phrase, _ | ⟨found, rest⟩, q, j⟩ := result
    · rw [hread] at h
      cases h
      obtain ⟨us, n, hcons, -⟩ := sound hlimit _ _ _ _ hread
      have hts : ts = us := by simpa using hcons.rest
      have hwithin := hcons.within
      refine ⟨n, hts ▸ hcons.derives, ?_, hcons.depth ▸ hcons.shallow⟩
      simp only at hwithin
      omega
    · rw [hread] at h
      cases h

end State

/-- No token list has two formulas. A reader with a limit that neither exceeds decides between
them. -/
theorem Derives.unique (hf : Derives (.binary .iff) ts f m) (hg : Derives (.binary .iff) ts g n) :
    f = g := by
  have hlimit : 0 < m + n + f.depth + g.depth := by
    have := f.depth_pos
    omega
  have hread := (State.parse_of_derives (p := 0) hlimit (Nat.zero_le _) hf).1 (by omega)
  rw [(State.parse_of_derives (p := 0) hlimit (Nat.zero_le _) hg).1 (by omega)] at hread
  exact (Except.ok.inj hread).symm

/-- All derivations from the same tokens have the same nesting. A reader that starts where one of
them still keeps to the limit finds any deeper one too deep. -/
theorem Derives.nesting_le (hf : Derives (.binary .iff) ts f m)
    (hg : Derives (.binary .iff) ts g n) : n ≤ m := by
  have hlimit : 0 < m + f.depth := by
    have := f.depth_pos
    omega
  have hread := (State.parse_of_derives (p := 0) (k := f.depth) hlimit (by omega) hf).1 (by omega)
  by_cases hle : n ≤ m
  · exact hle
  · have hdeep := (State.parse_of_derives (p := 0) (k := f.depth) hlimit (by omega) hg).2 (by omega)
    rw [hread] at hdeep
    cases hdeep

/-- The result of reading the tokens as one formula. -/
def readTokens (ts : List Token) : Except Fault Formula := ((⟨ts, 0, 0⟩ : State).parse levelLimit).1

theorem readTokens_eq_ok_iff :
    readTokens ts = .ok f ↔
      ∃ n, Derives (.binary .iff) ts f n ∧ n ≤ levelLimit ∧ f.depth ≤ levelLimit := by
  constructor
  · exact State.derives_of_parse (by decide)
  · rintro ⟨n, h, hn, hdepth⟩
    exact (State.parse_of_derives (by decide) (Nat.zero_le _) h).1 ⟨by omega, hdepth⟩

theorem readTokens_tooDeep (h : Derives (.binary .iff) ts f n)
    (hbeyond : ¬(n ≤ levelLimit ∧ f.depth ≤ levelLimit)) :
    readTokens ts = .error (.tooDeep levelLimit) :=
  (State.parse_of_derives (by decide) (Nat.zero_le _) h).2 (by omega)

theorem Scanner.token_locatedFrom (strict : Bool) (cs : List Char) (offset : Nat) :
    (locatedFrom strict cs offset).filterMap (·.lexeme.token?) = cs.filterMap Token.ofChar? := by
  induction cs generalizing offset with
  | nil => rfl
  | cons c cs ih =>
    rw [locatedFrom, lexeme?, List.filterMap_cons]
    cases Token.ofChar? c with
    | some t => exact congrArg (t :: ·) (ih _)
    | none =>
      dsimp only
      split
      · next lexeme h =>
        split at h
        · cases h
          exact ih _
        · cases h
      · exact ih _

theorem Scanner.illegal_locatedFrom {strict : Bool} {cs : List Char}
    (legal : ∀ c ∈ cs, ∀ d, lexeme? strict c ≠ some (.illegal d)) (offset : Nat) :
    ∀ l ∈ locatedFrom strict cs offset, l.illegal? = none := by
  induction cs generalizing offset with
  | nil => exact fun _ h => nomatch h
  | cons c cs ih =>
    have hrest := fun c' hc' => legal c' (List.mem_cons_of_mem _ hc')
    rw [locatedFrom]
    split
    · next lexeme h =>
      intro l hl
      rcases List.mem_cons.mp hl with rfl | hl
      · cases lexeme with
        | illegal d => exact absurd h (legal c List.mem_cons_self d)
        | token t => rfl
        | theEnd => rfl
      · exact ih hrest _ l hl
    · exact ih hrest _

/-- A permissive scanner drops foreign characters. -/
theorem not_illegal_of_permissive (c d : Char) : lexeme? false c ≠ some (.illegal d) := by
  intro h
  rw [lexeme?] at h
  cases hc : Token.ofChar? c with
  | none =>
    rw [hc] at h
    cases h
  | some t =>
    rw [hc] at h
    cases h

namespace Reader

theorem parse_eq_readTokens {reader : Reader} (hillegal : reader.illegal = none)
    (hstate : reader.state = ⟨ts, 0, 0⟩) : reader.parse.1 = readTokens ts := by
  rw [parse, hillegal, hstate]
  rfl

theorem parse_ofLocated {ls : List Located} (legal : ∀ l ∈ ls, l.illegal? = none) :
    (ofLocated ls).parse.1 = readTokens (ls.filterMap (·.lexeme.token?)) :=
  parse_eq_readTokens (List.findSome?_eq_none_iff.mpr legal) rfl

theorem parse_ofLexemes {lexemes : List Lexeme} (legal : ∀ c, .illegal c ∉ lexemes) :
    (ofLexemes lexemes).parse.1 = readTokens (lexemes.filterMap Lexeme.token?) := by
  have htokens : (fun l : Located => l.lexeme.token?) ∘ (fun entry => ⟨entry.1, entry.2⟩) =
      Lexeme.token? ∘ Prod.fst := rfl
  have hend : (fun l => if decide (l ≠ .theEnd) = true then Lexeme.token? l else none) =
      Lexeme.token? := by
    funext lexeme
    cases lexeme <;> rfl
  rw [ofLexemes, parse_ofLocated, List.filterMap_map, htokens, ← List.filterMap_map,
    List.zipIdx_map_fst, List.filterMap_filter, hend]
  intro located hlocated
  obtain ⟨⟨lexeme, index⟩, hindexed, rfl⟩ := List.mem_map.mp hlocated
  have hmem : lexeme ∈ lexemes := (List.mem_filter.mp (List.fst_mem_of_mem_zipIdx hindexed)).1
  cases lexeme with
  | illegal c => exact absurd hmem (legal c)
  | token t => rfl
  | theEnd => rfl

theorem parse_ofTokens (ts : List Token) :
    (ofLexemes (ts.map .token)).parse.1 = readTokens ts := by
  have htokens : (ts.map Lexeme.token).filterMap Lexeme.token? = ts := by
    rw [List.filterMap_map]
    exact List.filterMap_some
  rw [parse_ofLexemes (by simp), htokens]

theorem parse_ofText {strict : Bool} {text : String}
    (legal : ∀ c ∈ text.toList, ∀ d, lexeme? strict c ≠ some (.illegal d)) :
    (ofText strict text).parse.1 = readTokens (tokenize text) := by
  have hread := parse_ofLocated (Scanner.illegal_locatedFrom legal 0)
  rwa [Scanner.token_locatedFrom, ← located_eq] at hread

/-- A list of lexemes without foreign characters is read as the formula that its tokens derive, if
the nesting and the depth are at most 256. If one of them is more, the formula is too deep, and
tokens that derive no formula are at fault. The formula and the nesting are unique. -/
theorem ofLexemes_parse_iff_derives (lexemes : List Lexeme) (legal : ∀ c, .illegal c ∉ lexemes) :
    let tokens := lexemes.filterMap Lexeme.token?
    let result := (ofLexemes lexemes).parse.1
    (∀ f, result = .ok f ↔ ∃ n, Derives (.binary .iff) tokens f n ∧ n ≤ 256 ∧ f.depth ≤ 256) ∧
      (∀ f n, Derives (.binary .iff) tokens f n → (256 < n ∨ 256 < f.depth) →
        result = .error (.tooDeep 256)) ∧
      ((∀ f n, ¬Derives (.binary .iff) tokens f n) → ∃ fault, result = .error fault) ∧
      ∀ f g m n, Derives (.binary .iff) tokens f m → Derives (.binary .iff) tokens g n →
        f = g ∧ m = n := by
  intro tokens result
  have hresult : result = readTokens tokens := parse_ofLexemes legal
  rw [hresult]
  refine ⟨fun f => readTokens_eq_ok_iff, fun f n h hbeyond => ?_, fun hnone => ?_,
    fun f g m n hf hg => ⟨hf.unique hg, Nat.le_antisymm (hg.nesting_le hf) (hf.nesting_le hg)⟩⟩
  · have hlimit : ¬(n ≤ levelLimit ∧ f.depth ≤ levelLimit) := by
      rw [levelLimit]
      omega
    exact readTokens_tooDeep h hlimit
  · cases hread : readTokens tokens with
    | error fault => exact ⟨fault, rfl⟩
    | ok f =>
      obtain ⟨n, h, -⟩ := readTokens_eq_ok_iff.mp hread
      exact absurd h (hnone f n)

/-- `¬(P → Q)` with an end between its tokens. -/
theorem ofLexemes_parse_negated_implication :
    let lexemes := [.token (.connective .not), .token .opening, .token (.atom 'P'),
      .token (.connective (.binary .implies)), .theEnd, .token (.atom 'Q'), .token .closing]
    (∀ c, .illegal c ∉ lexemes) ∧
      (ofLexemes lexemes).parse.1 = .ok (.not (.binary .implies (.atom 'P') (.atom 'Q'))) := by
  intro lexemes
  have legal : ∀ c, .illegal c ∉ lexemes := by simp [lexemes]
  have hfirst : Derives (.binary .or) [.atom 'P'] (.atom 'P') 0 := .disjunct (.conjunct (.atom 'P'))
  have hsecond : Derives (.binary .implies) [.atom 'Q'] (.atom 'Q') 0 :=
    .conclusion (.disjunct (.conjunct (.atom 'Q')))
  have hinner := (hfirst.implication hsecond).equivalent
  have hformula := hinner.parentheses.negation.conjunct.disjunct.conclusion.equivalent
  exact ⟨legal, ((ofLexemes_parse_iff_derives lexemes legal).1 _).mpr
    ⟨3, hformula, by decide, by decide⟩⟩

end Reader

end Sentential.Symbolic
