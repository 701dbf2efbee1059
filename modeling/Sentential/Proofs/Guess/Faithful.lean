import Sentential.Guess
import Sentential.Proofs.Symbolic.RoundTrip
import Sentential.Proofs.Text.Lowercase
import Sentential.Proofs.Text.Pieces

/-! Every guess is faithful to its sentence: its atoms are the first letters from `P` on, and each
stands for a piece of the sentence, in order. Each shape of sentences is shown to give such guesses. -/

namespace Sentential

open Symbolic Text

namespace Guess

/-- What a letter means that a guess takes for a piece of the sentence. -/
def meaning (f : Formula) (letter : Char) (piece : List Char) : List Char :=
  if piece = [] ∧ f = .binary .iff (.atom 'P') (.atom 'Q') then "proposição ".toList ++ [letter]
  else piece

/-- The parts of the guess are the meanings of pieces of the text. -/
def Excerpted (text : List Char) (guess : Guess) : Prop :=
  ∃ pieces, Pieces pieces text ∧ pieces.length = guess.parts.length ∧
    guess.parts = List.zipWith (fun letter piece => (letter, meaning guess.formula letter piece))
      (guess.parts.map (·.1)) pieces

/-- The guess explains each of its atoms by a piece of the text. -/
structure Faithful (text : List Char) (guess : Guess) : Prop where
  atoms : guess.parts.map (·.1) = guess.formula.leaves
  ordered : guess.formula.leaves <+: letters
  trimmed : ∀ entry ∈ guess.parts, Trimmed entry.2
  excerpted : guess.Excerpted text
  depth : guess.formula.depth ≤ 4
  nesting : guess.formula.nesting ≤ 1

variable {text : List Char} {guess : Guess} {op : Binary}

/-- Where no words stand for a missing side, the parts are pieces themselves. -/
theorem excerpted_of_pieces (hformula : guess.formula ≠ .binary .iff (.atom 'P') (.atom 'Q'))
    (hpieces : Pieces (guess.parts.map (·.2)) text) : guess.Excerpted text := by
  refine ⟨_, hpieces, List.length_map .., ?_⟩
  have hmeaning : ∀ letter piece, meaning guess.formula letter piece = piece :=
    fun letter piece => if_neg fun h => hformula h.2
  simp only [hmeaning, List.zipWith_map, List.zipWith_self]
  exact (List.map_id _).symm

theorem nesting_joining (op : Binary) (first second : List Char) :
    (joining op first second).formula.nesting ≤ 1 := by
  cases op <;> exact Nat.le_of_ble_eq_true rfl

theorem faithful_joining {first second : List Char} (hfirst : Trimmed first)
    (hsecond : Trimmed second) (hexcerpted : (joining op first second).Excerpted text) :
    (joining op first second).Faithful text where
  atoms := rfl
  ordered := ⟨['R', 'S'], rfl⟩
  trimmed := by simp [joining, hfirst, hsecond]
  excerpted := hexcerpted
  depth := by simp [joining, Formula.depth]
  nesting := nesting_joining op first second

theorem withoutIf_within (text : List Char) : withoutIf text <:+: text := by
  unfold withoutIf
  split
  · next c rest =>
    split
    · exact ⟨['s', 'e'], [], by simp⟩
    · exact List.infix_rfl
  · exact List.infix_rfl

theorem orElse_eq_meaning (piece : List Char) (letter : Char) (instead : String)
    (h : instead.toList = "proposição ".toList ++ [letter]) :
    orElse piece instead = meaning (.binary .iff (.atom 'P') (.atom 'Q')) letter piece := by
  cases piece with
  | nil => exact h
  | cons c piece => rfl

theorem trimmed_orElse {piece : List Char} {instead : String} (hpiece : Trimmed piece)
    (hinstead : Trimmed instead.toList) : Trimmed (orElse piece instead) := by
  unfold orElse
  split
  · exact hinstead
  · exact hpiece

theorem biconditional_cases (h : biconditional? text = some guess) :
    ∃ first second, Trimmed first ∧ Trimmed second ∧ Pieces [first, second] text ∧
      guess = joining .iff (orElse first "proposição P") (orElse second "proposição Q") := by
  obtain ⟨⟨left, rest⟩, hcut, rfl⟩ := Option.map_eq_some_iff.mp h
  obtain ⟨word, rfl, -⟩ := Pattern.split_of_cut? hcut
  have hsides {right : List Char} (hpart : right <:+: rest) :
      Pieces [trim (withoutIf left), trim (right.dropWhile isCommaOrBlank)]
        (left ++ word ++ rest) := by
    have hright : trim (right.dropWhile isCommaOrBlank) <:+: rest :=
      ((trim_within _).trans (List.dropWhile_suffix _).isInfix).trans hpart
    have hleft : trim (withoutIf left) <:+: left := (trim_within _).trans (withoutIf_within left)
    have hpieces : Pieces [left, rest] (left ++ word ++ rest) := by
      simpa using Pieces.cons [] left ((Pieces.single rest).after word)
    exact hpieces.shrink (.cons hleft (.cons hright .nil))
  cases hagain : iffWords.cut? rest with
  | none =>
    exact ⟨_, _, trimmed_trim _, trimmed_trim _, hsides List.infix_rfl, by simp only [hagain]⟩
  | some found =>
    obtain ⟨right, others⟩ := found
    obtain ⟨word', hrest, -⟩ := Pattern.split_of_cut? hagain
    have hpart : right <:+: rest := ⟨[], word' ++ others, by simp [hrest]⟩
    exact ⟨_, _, trimmed_trim _, trimmed_trim _, hsides hpart, by simp only [hagain]⟩

theorem faithful_biconditional (h : biconditional? text = some guess) : guess.Faithful text := by
  obtain ⟨first, second, hfirst, hsecond, hpieces, rfl⟩ := biconditional_cases h
  refine faithful_joining (trimmed_orElse hfirst (by decide)) (trimmed_orElse hsecond (by decide))
    ⟨[first, second], hpieces, rfl, ?_⟩
  rw [orElse_eq_meaning first 'P' "proposição P" rfl,
    orElse_eq_meaning second 'Q' "proposição Q" rfl]
  rfl

/-- The words of a condition do not overlap, so what starts later starts after the other ends. -/
theorem exists_condition {before afterIf beforeThen after : List Char}
    (h : before ++ "se ".toList ++ afterIf = beforeThen ++ "então".toList ++ after)
    (hlater : before.length < beforeThen.length) :
    ∃ condition, beforeThen = before ++ "se ".toList ++ condition ∧
      afterIf = condition ++ "então".toList ++ after := by
  rw [List.append_assoc, List.append_assoc] at h
  obtain ⟨mid, rfl, hmid⟩ | ⟨mid, rfl, hmid⟩ := List.append_eq_append_iff.mp h
  · match mid, hmid, hlater with
    | [], _, hlater => simp at hlater
    | [_], hmid, _ => simp at hmid
    | [_, _], hmid, _ => simp at hmid
    | s :: e :: blank :: condition, hmid, _ =>
      obtain ⟨rfl, rfl, rfl, rfl⟩ : 's' = s ∧ 'e' = e ∧ ' ' = blank ∧
          afterIf = condition ++ ("então".toList ++ after) := by simpa using hmid
      exact ⟨condition, by simp, by simp⟩
  · rw [List.length_append] at hlater
    omega

theorem conditional_cases (h : conditional? text = some guess) :
    ∃ before condition after,
      text = before ++ "se ".toList ++ condition ++ "então".toList ++ after ∧
      ifWord.cut? text = some (before, condition ++ "então".toList ++ after) ∧
      thenWord.cut? text = some (before ++ "se ".toList ++ condition, after) ∧
      guess = joining .implies (stripWhile isCommaOrBlank condition) (trim after) := by
  unfold conditional? at h
  split at h
  · next before afterIf beforeThen after hif hthen =>
    split at h
    · next hlater =>
      obtain ⟨word, hsplit, hword, -⟩ := Pattern.split_of_cut? hif
      obtain ⟨word', hsplit', hword', -⟩ := Pattern.split_of_cut? hthen
      obtain rfl := Pattern.eq_of_accepts_word hword
      obtain rfl := Pattern.eq_of_accepts_word hword'
      obtain ⟨condition, rfl, rfl⟩ := exists_condition (hsplit.symm.trans hsplit') hlater
      have hcondition : (before ++ "se ".toList ++ condition).drop (before.length + ifWord.length) =
          condition := by
        have hlength : before.length + ifWord.length = (before ++ "se ".toList).length := by
          rw [List.length_append]
          rfl
        rw [hlength, List.drop_left]
      rw [hcondition] at h
      exact ⟨before, condition, after, hsplit', hif, hthen, (Option.some.inj h).symm⟩
    · cases h
  · cases h

theorem pieces_conditional (before condition after : List Char) :
    Pieces [stripWhile isCommaOrBlank condition, trim after]
      (before ++ "se ".toList ++ condition ++ "então".toList ++ after) := by
  have hsides : Pieces [condition, after]
      (before ++ "se ".toList ++ condition ++ "então".toList ++ after) := by
    simpa only [List.append_assoc] using Pieces.cons (before ++ "se ".toList) condition
      ((Pieces.single after).after "então".toList)
  exact hsides.shrink (.cons (stripWhile_within _ _) (.cons (trim_within _) .nil))

theorem faithful_conditional (h : conditional? text = some guess) : guess.Faithful text := by
  obtain ⟨before, condition, after, rfl, -, -, rfl⟩ := conditional_cases h
  have hblank : ∀ c, isBlank c = true → isCommaOrBlank c = true := by
    simp +contextual [isCommaOrBlank]
  exact faithful_joining ((stripped_stripWhile isCommaOrBlank condition).mono hblank)
    (trimmed_trim after) (excerpted_of_pieces nofun (pieces_conditional before condition after))

/-! ### Chains -/

theorem joined_ne {other : Binary} (hop : op ≠ other) {f a b : Formula}
    (hf : f ≠ .binary other a b) (parts : List (Char × List Char)) :
    joined op f parts ≠ .binary other a b := by
  induction parts generalizing f with
  | nil => exact hf
  | cons part parts ih => exact ih fun h => hop (Formula.binary.inj h).1

/-- A chain that grows at its right end needs no parentheses. -/
theorem nesting_joined (hop : op.rightAssociative = false) {f : Formula}
    (hf : (Connective.binary op).precedence ≤ f.precedence) (parts : List (Char × List Char)) :
    (joined op f parts).nesting = f.nesting := by
  induction parts generalizing f with
  | nil => rfl
  | cons part parts ih =>
    obtain ⟨hleft, hright⟩ := Binary.operandLevel_leftward hop
    rw [joined_cons, ih (Nat.le_refl _), Formula.nesting_binary, hleft, hright, hop,
      Formula.nestingAt_bare hf,
      Formula.nestingAt_bare (op.tighter.precedence_le : _ ≤ (Formula.atom part.1).precedence)]
    simp [Formula.nesting]

theorem map_fst_zip_prefix {α β : Type} (xs : List α) (ys : List β) :
    (xs.zip ys).map (·.1) <+: xs := by
  induction xs generalizing ys with
  | nil => simp
  | cons x xs ih =>
    cases ys with
    | nil => simp
    | cons y ys => simpa [List.cons_prefix_cons] using ih ys

theorem faithful_chain (hop : op.rightAssociative = false) (hiff : op ≠ .iff)
    {pieces : List (List Char)} (hlength : pieces.length ≤ letters.length)
    (htrimmed : ∀ piece ∈ pieces, Trimmed piece) (hpieces : Pieces pieces text)
    (h : chain op (letters.zip pieces) = some guess) :
    guess.Faithful text ∧ guess.parts.map (·.2) = pieces := by
  obtain ⟨part, others, hzip, rfl⟩ := chain_cases h
  have hletters : (letters.zip pieces).map (·.1) <+: letters := map_fst_zip_prefix letters pieces
  have hmeanings : (letters.zip pieces).map (·.2) = pieces := List.map_snd_zip hlength
  have hatoms : (letters.zip pieces).map (·.1) = (joined op (.atom part.1) others).leaves := by
    rw [hzip, leaves_joined]
    rfl
  have hatom : Formula.atom part.1 ≠ .binary .iff (.atom 'P') (.atom 'Q') := nofun
  refine ⟨{
    atoms := hatoms
    ordered := hatoms ▸ hletters
    trimmed := fun entry hentry => htrimmed _ (hmeanings ▸ List.mem_map_of_mem hentry)
    excerpted := excerpted_of_pieces (joined_ne hiff hatom others) (hmeanings.symm ▸ hpieces)
    depth := ?_
    nesting := ?_ }, hmeanings⟩
  · have hcount : others.length + 1 ≤ 4 := by
      rw [hzip] at hletters
      simpa [letters] using hletters.length_le
    rw [depth_joined, Formula.depth]
    omega
  · rw [nesting_joined hop (Connective.precedence_le _)]
    exact Nat.zero_le 1

theorem length_partsBetween (word : Pattern) (nonempty : 0 < word.length) (text : List Char) :
    (partsBetween word nonempty text).length ≤ letters.length := List.length_take_le _ _

theorem trimmed_partsBetween {word : Pattern} {nonempty : 0 < word.length} {piece : List Char}
    (h : piece ∈ partsBetween word nonempty text) : Trimmed piece := by
  have h := (List.mem_filter.mp (List.mem_of_mem_take h)).1
  obtain ⟨part, -, rfl⟩ := List.mem_map.mp h
  exact trimmed_trim part

theorem pieces_partsBetween (word : Pattern) (nonempty : 0 < word.length) (text : List Char) :
    Pieces (partsBetween word nonempty text) text := by
  have htrim : Pieces ((word.split nonempty text).map trim) text := by
    refine (Pieces.split word nonempty text).shrink ?_
    rw [List.forall₂_map_left_iff, List.forall₂_same]
    exact fun part _ => trim_within part
  exact htrim.sublist ((List.take_sublist _ _).trans List.filter_sublist)

/-- A text that does not end in a blank goes on after a word that does. -/
theorem rest_ne_nil {word : String} (hword : word.toList.getLast? = some ' ')
    {before rest : List Char} (hcut : (Pattern.word word).cut? text = some (before, rest))
    (hlast : ∀ c, text.getLast? = some c → isBlank c = false) : rest ≠ [] := by
  rintro rfl
  obtain ⟨part, rfl, haccepts, -⟩ := Pattern.split_of_cut? hcut
  obtain rfl := Pattern.eq_of_accepts_word haccepts
  have hblank := hlast ' ' (by simp [List.getLast?_append, hword])
  cases hblank

/-- A text that does not start with a blank has something before a word that does. -/
theorem trim_before_ne_nil {word : String} (hword : word.toList.head? = some ' ')
    {before rest : List Char} (hcut : (Pattern.word word).cut? text = some (before, rest))
    (hfirst : ∀ c, text.head? = some c → isBlank c = false) : trim before ≠ [] := by
  obtain ⟨part, rfl, haccepts, -⟩ := Pattern.split_of_cut? hcut
  obtain rfl := Pattern.eq_of_accepts_word haccepts
  cases before with
  | nil =>
    have hblank := hfirst ' ' (by simp [List.head?_append, hword])
    cases hblank
  | cons c before => exact trim_ne_nil List.mem_cons_self (hfirst c rfl)

/-- The last part of a text that does not end in a blank is not blank. -/
theorem exists_part {word : String} (nonempty : 0 < (Pattern.word word).length)
    (hword : word.toList.getLast? = some ' ') (hne : text ≠ [])
    (hlast : ∀ c, text.getLast? = some c → isBlank c = false) :
    ∃ part ∈ (Pattern.word word).split nonempty text, trim part ≠ [] := by
  fun_induction Pattern.split (Pattern.word word) nonempty text with
  | case1 text =>
    have hblank := hlast _ (List.getLast?_eq_some_getLast hne)
    exact ⟨text, by simp, trim_ne_nil (List.getLast_mem hne) hblank⟩
  | case2 text before rest hcut _ ih =>
    have hrest := rest_ne_nil hword hcut hlast
    obtain ⟨word', rfl, -⟩ := Pattern.split_of_cut? hcut
    obtain ⟨part, hpart, hnonblank⟩ := ih hrest fun c hc => hlast c (by simp [hc])
    exact ⟨part, List.mem_cons_of_mem _ hpart, hnonblank⟩

/-- A text that is trimmed has at least two parts between the words that occur in it, if these start
and end with blanks. -/
theorem two_le_partsBetween {word : String} (nonempty : 0 < (Pattern.word word).length)
    (hfirst : word.toList.head? = some ' ') (hlast : word.toList.getLast? = some ' ')
    (htext : Trimmed text) (hoccurs : (Pattern.word word).occursIn text = true) :
    2 ≤ (partsBetween (Pattern.word word) nonempty text).length := by
  obtain ⟨⟨before, rest⟩, hcut⟩ := Option.isSome_iff_exists.mp hoccurs
  have hbefore := trim_before_ne_nil hfirst hcut htext.1
  have hrest := rest_ne_nil hlast hcut htext.2
  obtain ⟨word', hsplit, -⟩ := Pattern.split_of_cut? hcut
  obtain ⟨part, hpart, hnonblank⟩ := exists_part nonempty hlast hrest
    fun c hc => htext.2 c (by simp [hsplit, hc])
  have hcount : 1 ≤ ((((Pattern.word word).split nonempty rest).map trim).filter
      (!·.isEmpty)).length := by
    refine List.length_pos_of_mem (a := trim part) (List.mem_filter.mpr ⟨?_, ?_⟩)
    · exact List.mem_map_of_mem hpart
    · simpa using hnonblank
  rw [partsBetween, Pattern.split_of_cut?_eq nonempty hcut, List.map_cons,
    List.filter_cons_of_pos (by simpa using hbefore), List.length_take, List.length_cons]
  have : letters.length = 4 := rfl
  omega

theorem faithful_between {word : String} {nonempty : 0 < (Pattern.word word).length}
    (hop : op.rightAssociative = false) (hiff : op ≠ .iff) (hfirst : word.toList.head? = some ' ')
    (hlast : word.toList.getLast? = some ' ') (htext : Trimmed text)
    (hoccurs : (Pattern.word word).occursIn text = true)
    (h : chain op (letters.zip (partsBetween (.word word) nonempty text)) = some guess) :
    guess.Faithful text ∧ 2 ≤ guess.parts.length ∧ guess.parts.length ≤ 4 := by
  obtain ⟨hfaithful, hparts⟩ := faithful_chain hop hiff (length_partsBetween _ nonempty text)
    (fun piece => trimmed_partsBetween) (pieces_partsBetween _ nonempty text) h
  have hlength := congrArg List.length hparts
  rw [List.length_map] at hlength
  rw [hlength]
  exact ⟨hfaithful, two_le_partsBetween nonempty hfirst hlast htext hoccurs,
    length_partsBetween _ nonempty text⟩

theorem faithful_junction (htext : Trimmed text) (h : junction? text = some guess) :
    guess.Faithful text ∧ 2 ≤ guess.parts.length ∧ guess.parts.length ≤ 4 := by
  obtain ⟨hand, hchain⟩ | ⟨-, hor, hchain⟩ := junction_cases h
  · exact faithful_between rfl (by decide) rfl rfl htext hand hchain
  · exact faithful_between rfl (by decide) rfl rfl htext hor hchain

/-! ### All shapes -/

theorem pieces_negation {rest : List Char} (h : notWord.after? text = some rest) :
    Pieces [trimStart rest] text := by
  obtain ⟨word, rfl, -⟩ := Pattern.split_of_after? h
  exact ((Pieces.single rest).after word).shrink (.cons (List.dropWhile_suffix _).isInfix .nil)

theorem faithful_negation (htext : Trimmed text) (h : negation? text = some guess) :
    guess.Faithful text := by
  obtain ⟨rest, hrest, rfl⟩ := Option.map_eq_some_iff.mp h
  have hpieces := pieces_negation hrest
  obtain ⟨word, rfl, -⟩ := Pattern.split_of_after? hrest
  have htrimmed : Trimmed (trimStart rest) :=
    trimmed_trimStart fun c hc => htext.2 c (by simp [hc])
  exact {
    atoms := rfl
    ordered := ⟨['Q', 'R', 'S'], rfl⟩
    trimmed := by simpa using htrimmed
    excerpted := excerpted_of_pieces nofun hpieces
    depth := (by decide : (Formula.not (.atom 'P')).depth ≤ 4)
    nesting := (by decide : (Formula.not (.atom 'P')).nesting ≤ 1) }

theorem faithful_atom (htext : Trimmed text) :
    Faithful text ⟨.atom 'P', [('P', text)]⟩ where
  atoms := rfl
  ordered := ⟨['Q', 'R', 'S'], rfl⟩
  trimmed := by simpa using htext
  excerpted := excerpted_of_pieces nofun (.single text)
  depth := (by decide : (Formula.atom 'P').depth ≤ 4)
  nesting := (by decide : (Formula.atom 'P').nesting ≤ 1)

theorem trimmed_normal (sentence : String) : Trimmed (normal sentence) :=
  trimmed_lower (trimmed_trim _)

/-- A property of the guesses of every shape is one of the guess for a sentence. -/
theorem ofSentence_cases {motive : Guess → Prop} (sentence : String)
    (biconditional : ∀ guess, biconditional? (normal sentence) = some guess → motive guess)
    (conditional : ∀ guess, conditional? (normal sentence) = some guess → motive guess)
    (junction : ∀ guess, junction? (normal sentence) = some guess → motive guess)
    (negation : ∀ guess, negation? (normal sentence) = some guess → motive guess)
    (atom : motive ⟨.atom 'P', [('P', normal sentence)]⟩) : motive (ofSentence sentence) := by
  unfold ofSentence
  dsimp only
  cases hiff : biconditional? (normal sentence) with
  | some guess => exact biconditional guess hiff
  | none =>
    cases hif : conditional? (normal sentence) with
    | some guess => exact conditional guess hif
    | none =>
      cases hjunction : junction? (normal sentence) with
      | some guess => exact junction guess hjunction
      | none =>
        cases hnot : negation? (normal sentence) with
        | some guess => exact negation guess hnot
        | none => exact atom

/-- A guess is faithful to the normal form of its sentence. -/
theorem faithful_ofSentence (sentence : String) :
    (ofSentence sentence).Faithful (normal sentence) :=
  ofSentence_cases sentence (fun _ => faithful_biconditional) (fun _ => faithful_conditional)
    (fun _ h => (faithful_junction (trimmed_normal sentence) h).1)
    (fun _ => faithful_negation (trimmed_normal sentence)) (faithful_atom (trimmed_normal sentence))

end Guess

end Sentential
