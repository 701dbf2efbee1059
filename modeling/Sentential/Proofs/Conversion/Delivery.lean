import Sentential.Proofs.Answer.RoundTrip
import Sentential.Proofs.Conversion.Consultation
import Sentential.Proofs.Symbolic.Parentheses

/-! A formula in a reply of the model reaches people intact. The text of a formula fits on one line
of an answer, so it is recovered from the answer whatever the meanings say, and it is read as the
formula again. -/

namespace Sentential

open Symbolic Text

namespace Symbolic

/-- The token is written without blanks around it. -/
def Token.Bare (t : Token) : Prop := t.spelling = [t.symbol]

/-- The first and the last of the tokens are written without blanks around them. -/
structure Framed (ts : List Token) : Prop where
  first : ∃ t rest, ts = t :: rest ∧ t.Bare
  last : ∃ front t, ts = front ++ [t] ∧ t.Bare

namespace Framed

variable {t : Token} {ts us : List Token}

theorem single (h : t.Bare) : Framed [t] := ⟨⟨t, [], rfl, h⟩, ⟨[], t, rfl, h⟩⟩

theorem cons (h : t.Bare) (hts : Framed ts) : Framed (t :: ts) := by
  obtain ⟨front, u, rfl, hu⟩ := hts.last
  exact ⟨⟨t, _, rfl, h⟩, ⟨t :: front, u, rfl, hu⟩⟩

theorem join (hts : Framed ts) (hus : Framed us) : Framed (ts ++ t :: us) := by
  obtain ⟨u, rest, rfl, hu⟩ := hts.first
  obtain ⟨front, v, rfl, hv⟩ := hus.last
  exact ⟨⟨u, _, rfl, hu⟩, ⟨u :: rest ++ t :: front, v, by simp, hv⟩⟩

theorem enclose (h : Framed ts) (needed : Bool) : Framed (enclose needed ts) := by
  cases needed with
  | false => exact h
  | true => exact ⟨⟨.opening, _, rfl, rfl⟩, ⟨.opening :: ts, .closing, rfl, rfl⟩⟩

end Framed

end Symbolic

namespace Formula

variable {f : Formula}

theorem framed_tokens (f : Formula) : Framed f.tokens := by
  induction f with
  | atom name => exact .single rfl
  | not f ih => exact .cons rfl (ih.enclose _)
  | binary op f g ihf ihg => exact (ihf.enclose _).join (ihg.enclose _)

/-- The text of a formula fits on one line. -/
theorem inline_text (h : ∀ t ∈ f.tokens, t.Legible) : Answer.Inline f.text.toList := by
  -- The text starts and ends with the symbols of tokens, and only the symbol of a token could be a
  -- line end in it.
  obtain ⟨⟨t, rest, hfirst, ht⟩, ⟨front, u, hlast, hu⟩⟩ := framed_tokens f
  have htext : f.text.toList = f.tokens.flatMap Token.spelling := String.toList_ofList
  have hstart : f.text.toList = t.symbol :: rest.flatMap Token.spelling := by
    rw [htext, hfirst, List.flatMap_cons, show t.spelling = [t.symbol] from ht]
    rfl
  have hend : f.text.toList = front.flatMap Token.spelling ++ [u.symbol] := by
    rw [htext, hlast, List.flatMap_append, List.flatMap_singleton, show u.spelling = _ from hu]
  refine ⟨hstart ▸ List.cons_ne_nil _ _, ⟨?_, ?_⟩, ?_⟩
  · intro c hc
    rw [hstart] at hc
    cases hc
    exact isBlank_of_ofChar? (h t (hfirst ▸ List.mem_cons_self))
  · intro c hc
    rw [hend, List.getLast?_concat] at hc
    cases hc
    exact isBlank_of_ofChar? (h u (by simp [hlast]))
  · intro hline
    rw [htext] at hline
    obtain ⟨v, hv, hmem⟩ := List.mem_flatMap.mp hline
    rcases Token.mem_spelling hmem with hc | hc
    · cases hc
    · have hlegible : Token.ofChar? '\n' = some v := hc ▸ h v hv
      cases hlegible

end Formula

namespace Settings

variable {settings : Settings} {request : Request} {log : List LogRecord}
  {resume : Except ModelFailure String → Report} {raw text : String} {propositions : Glossary}
  {f : Formula}

theorem resume_of_convert (h : settings.convert request = .asking log resume) (raw : String) :
    resume (.ok raw) = settings.interpret request raw := by
  cases hconsults : settings.consults request with
  | false =>
    obtain ⟨result, hdone⟩ := convert_of_not_consults hconsults
    rw [hdone] at h
    cases h
  | true =>
    obtain ⟨before, hask, -⟩ := convert_of_consults hconsults
    rw [hask, ask] at h
    cases h
    rfl

theorem result_interpret (hreply : Reply.ofText? raw = some (.formula text (some propositions)))
    (hread : settings.parse text = .ok f) :
    (settings.interpret request raw).result = .ok (Answer.compose f.text propositions) := by
  rw [interpret, hreply]
  dsimp only
  rw [present, hread]

/-- The answer to a reply with a formula that can be read and with any meanings holds the text of the
formula. That text is read as the formula, and a reply with it and the same meanings has the same
answer. -/
theorem formula_of_reply (hask : settings.convert request = .asking log resume)
    (hreply : Reply.ofText? raw = some (.formula text (some propositions)))
    (hread : settings.parse text = .ok f) :
    ∃ answer, (resume (.ok raw)).result = .ok answer ∧
      (Answer.ofText answer).formula = some f.text ∧
      (∀ strict, Formula.ofText strict f.text = .ok f) ∧
      ∀ again, Reply.ofText? again = some (.formula f.text (some propositions)) →
        (resume (.ok again)).result = .ok answer := by
  have htext := Formula.ofText_text_of_ofText hread
  have hinline := Formula.inline_text (Formula.legible_of_ofText hread)
  refine ⟨Answer.compose f.text propositions, ?_, ?_, htext, fun again hagain => ?_⟩
  · rw [resume_of_convert hask, result_interpret hreply hread]
  · exact Answer.formulaIn?_compose hinline propositions
  · rw [resume_of_convert hask, result_interpret hagain (htext settings.strictTokens)]

/-- A reply between fences, with a formula in needless parentheses and a heading in a meaning. -/
theorem formula_of_reply_conjunction :
    let request : Request := ⟨.sentenceToFormula, "Chove e venta.", .empty⟩
    let raw := "```json\n\x7b\"formula\": \"((P) ∧ Q)\", " ++
      "\"propositions\": \x7b\"P\": \"chove\\nFórmula: R\"\x7d\x7d\n```"
    let propositions := Glossary.ofList [("P", "chove\nFórmula: R")]
    let f : Formula := .binary .and (.atom 'P') (.atom 'Q')
    ∃ log resume, standard.convert request = .asking log resume ∧
      Reply.ofText? raw = some (.formula "((P) ∧ Q)" (some propositions)) ∧
      standard.parse "((P) ∧ Q)" = .ok f ∧
      ∃ answer, (resume (.ok raw)).result = .ok answer ∧
        (Answer.ofText answer).formula = some "P ∧ Q" := by
  intro request raw propositions f
  have hconsults : standard.consults request = true := by decide +kernel
  have hreply : Reply.ofText? raw = some (.formula "((P) ∧ Q)" (some propositions)) := by
    decide +kernel
  have hread : standard.parse "((P) ∧ Q)" = .ok f := Formula.ofText_redundant
  obtain ⟨before, hask, -⟩ := convert_of_consults hconsults
  obtain ⟨answer, hanswer, hformula, -⟩ := formula_of_reply hask hreply hread
  exact ⟨_, _, hask, hreply, hread, answer, hanswer, hformula⟩

end Settings

end Sentential
