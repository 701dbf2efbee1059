import Mathlib.Data.List.Sort
import Sentential.Proofs.Conversion.Delivery
import Sentential.Proofs.Sentence.Placeholders
import Sentential.Proofs.Session.Calls

/-! The warnings of a step whose reply is a formula with meanings. They are about the atoms that the
sentence for the formula says by placeholders, or about a formula that cannot be read. -/

namespace Sentential

open Symbolic

def warnings (log : List LogRecord) : List LogRecord := log.filter (·.severity == .warning)

namespace Settings

variable {settings : Settings} {request : Request} {log : List LogRecord}
  {resume : Except ModelFailure String → Report} {text : String} {propositions other : Glossary}
  {f : Formula} {fault : Fault}

/-- A reply with a formula that can be read gives a warning for each atom without a meaning. -/
theorem log_present_of_ok (h : settings.parse text = .ok f) :
    (settings.present text propositions).log =
      (f.atoms.filter fun atom => (propositions.meanings.find? atom).isNone).map
        fun atom => ⟨.warning, s!"model left atom {atom} without a meaning"⟩ := by
  rw [present, h]
  simp only [Meanings.isNone_find?]

theorem present_of_error (h : settings.parse text = .error fault) :
    settings.present text propositions = ⟨.ok (Answer.compose text propositions),
      [⟨.warning, s!"model formula does not parse: {fault.message} formula={text}"⟩]⟩ := by
  rw [present, h]

theorem warnings_present (settings : Settings) (text : String) (propositions : Glossary) :
    warnings (settings.present text propositions).log =
      (settings.present text propositions).log := by
  refine List.filter_eq_self.mpr fun record hrecord => ?_
  unfold present at hrecord
  split at hrecord
  · obtain ⟨atom, -, rfl⟩ := List.mem_map.mp hrecord
    rfl
  · obtain rfl := List.mem_singleton.mp hrecord
    rfl

/-- Only the meanings of letters matter to the warnings. -/
theorem log_present_congr (h : ∀ letter, Token.isLetter letter = true →
      other.get? (String.singleton letter) = propositions.get? (String.singleton letter)) :
    (settings.present text other).log = (settings.present text propositions).log := by
  cases hread : settings.parse text with
  | error fault => rw [present_of_error hread, present_of_error hread]
  | ok f =>
    rw [log_present_of_ok hread, log_present_of_ok hread]
    refine congrArg _ (List.filter_congr fun atom hatom => ?_)
    have hletter := Formula.isLetter_of_ofText hread (Formula.mem_atoms.mp hatom)
    rw [Meanings.find?, Meanings.find?, Glossary.meanings, Glossary.meanings, h atom hletter]

/-- What is recorded before the reply is no warning. -/
theorem warnings_of_convert (h : settings.convert request = .asking log resume) :
    warnings log = [] := by
  unfold convert at h
  split at h
  · cases h
  · split at h
    · cases h
      rfl
    · split at h
      · cases h
      · cases h
        rfl

end Settings

namespace Session

variable {session : Session} {request : Request} {log : List LogRecord}
  {resume : Except ModelFailure String → Report} {raw text : String} {propositions : Glossary}
  {replies : List (Except ModelFailure String)}

theorem report_of_reply (hask : session.settings.convert request = .asking log resume)
    (hreplies : session.replies = .ok raw :: replies)
    (hreply : Reply.ofText? raw = some (.formula text (some propositions))) :
    let report := session.report (.convert request)
    let answer := session.settings.present text propositions
    report.result = .conversion answer.result ∧ warnings report.log = answer.log := by
  have hresume : resume (.ok raw) = session.settings.present text propositions := by
    rw [Settings.resume_of_convert hask, Settings.interpret, hreply]
  have hperform : session.perform (.convert request) =
      (.conversion (resume (.ok raw)).result, log ++ (resume (.ok raw)).log,
        { session with replies, calls := session.calls + 1 }) := by
    rw [perform, hask, call, hreplies]
  rw [hresume] at hperform
  constructor
  · exact congrArg (·.1) hperform
  · have hlog : (session.report (.convert request)).log =
        log ++ (session.settings.present text propositions).log := congrArg (·.2.1) hperform
    have happend (before after : List LogRecord) :
        warnings (before ++ after) = warnings before ++ warnings after := List.filter_append _ _
    rw [hlog, happend, Settings.warnings_of_convert hask, Settings.warnings_present,
      List.nil_append]

/-- A step whose reply is a formula with meanings warns of the atoms that the sentence for the formula
says by placeholders, each once, in increasing order. So it does not warn if each leaf has a meaning.
If the formula cannot be read, it warns of that alone and passes the formula on as it is. Only the
meanings of letters matter to the warnings. -/
theorem warnings_of_reply (hask : session.settings.convert request = .asking log resume)
    (hreplies : session.replies = .ok raw :: replies)
    (hreply : Reply.ofText? raw = some (.formula text (some propositions))) :
    let report := session.report (.convert request)
    let meanings := propositions.meanings
    (∀ f, session.settings.parse text = .ok f →
      (∃ missing : List Char, missing.Pairwise (· < ·) ∧
        (∀ atom, atom ∈ missing ↔ atom ∈ f.leaves ∧ meanings.find? atom = none) ∧
        (∀ atom, atom ∈ missing ↔ f.ShowsPlaceholder meanings atom) ∧
        warnings report.log = missing.map
          fun atom => ⟨.warning, s!"model left atom {atom} without a meaning"⟩) ∧
      (warnings report.log = [] ↔ ∀ atom ∈ f.leaves, ∃ meaning, meaning ≠ "" ∧
        propositions.get? (String.singleton atom) = some meaning ∧ meanings.text atom = meaning)) ∧
    (∀ fault, session.settings.parse text = .error fault →
      warnings report.log =
        [⟨.warning, s!"model formula does not parse: {fault.message} formula={text}"⟩] ∧
      report.result = .conversion (.ok (Answer.compose text propositions))) ∧
    ∀ again other others, Reply.ofText? again = some (.formula text (some other)) →
      (∀ letter, Token.isLetter letter = true →
        other.get? (String.singleton letter) = propositions.get? (String.singleton letter)) →
      warnings ({ session with replies := .ok again :: others }.report (.convert request)).log =
        warnings report.log := by
  intro report meanings
  obtain ⟨hresult, hlog⟩ := report_of_reply hask hreplies hreply
  refine ⟨fun f hread => ?_, fun fault hread => ?_, fun again other others hagain hsame => ?_⟩
  · let missing := f.atoms.filter fun atom => (meanings.find? atom).isNone
    have hmissing (atom : Char) :
        atom ∈ missing ↔ atom ∈ f.leaves ∧ meanings.find? atom = none := by
      rw [List.mem_filter, Formula.mem_atoms, Option.isNone_iff_eq_none]
    have hwarnings := hlog.trans (Settings.log_present_of_ok hread)
    refine ⟨⟨missing, f.sorted_atoms.filter _, hmissing, fun atom => ?_, hwarnings⟩, ?_⟩
    · rw [hmissing, Formula.showsPlaceholder_iff]
    · rw [hwarnings, List.map_eq_nil_iff, List.eq_nil_iff_forall_not_mem]
      refine forall_congr' fun atom => ?_
      rw [hmissing, not_and]
      exact forall_congr' fun _ => Meanings.find?_ne_none_iff
  · rw [hlog, hresult, Settings.present_of_error hread]
    exact ⟨rfl, rfl⟩
  · let next : Session := { session with replies := .ok again :: others }
    have hask' : next.settings.convert request = .asking log resume := hask
    obtain ⟨-, hlog'⟩ := report_of_reply hask' rfl hagain
    exact hlog'.trans ((Settings.log_present_congr hsame).trans hlog.symm)

/-- One of the atoms has no meaning, and the other has an empty one and occurs twice. -/
theorem warnings_of_reply_conjunction :
    let request : Request := ⟨.sentenceToFormula, "Chove e venta.", .empty⟩
    let raw := "\x7b\"formula\": \"Q ∧ P ∧ Q\", " ++
      "\"propositions\": \x7b\"Q\": \"\", \"PP\": \"chove\", \"R\": \"neva\"\x7d\x7d"
    let propositions := Glossary.ofList [("Q", ""), ("PP", "chove"), ("R", "neva")]
    let session := start .standard [.ok raw]
    (∃ log resume, session.settings.convert request = .asking log resume) ∧
      session.replies = [.ok raw] ∧
      Reply.ofText? raw = some (.formula "Q ∧ P ∧ Q" (some propositions)) ∧
      warnings (session.report (.convert request)).log =
        [⟨.warning, "model left atom P without a meaning"⟩,
          ⟨.warning, "model left atom Q without a meaning"⟩] := by
  intro request raw propositions session
  let f : Formula := .binary .and (.binary .and (.atom 'Q') (.atom 'P')) (.atom 'Q')
  have hconsults : session.settings.consults request = true := by decide +kernel
  have hreply : Reply.ofText? raw = some (.formula "Q ∧ P ∧ Q" (some propositions)) := by
    decide +kernel
  have hread : session.settings.parse "Q ∧ P ∧ Q" = .ok f := by
    obtain ⟨-, hread⟩ := Formula.ofText_text f (List.all_eq_true.mp rfl)
    exact (hread false).trans (if_pos (by decide))
  obtain ⟨before, hask, -⟩ := Settings.convert_of_consults hconsults
  have hwarnings := warnings_of_reply hask rfl hreply
  obtain ⟨⟨missing, hsorted, hmissing, -, hlog⟩, -⟩ := hwarnings.1 f hread
  have hpair : missing = ['P', 'Q'] := by
    refine hsorted.eq_of_mem_iff (by decide) fun atom => (hmissing atom).trans ?_
    constructor
    · rintro ⟨hleaf, -⟩
      obtain rfl | rfl | rfl : atom = 'Q' ∨ atom = 'P' ∨ atom = 'Q' := by
        simpa [f, Formula.leaves] using hleaf
      · exact List.mem_cons_of_mem _ List.mem_cons_self
      · exact List.mem_cons_self
      · exact List.mem_cons_of_mem _ List.mem_cons_self
    · intro hatom
      obtain rfl | rfl := List.mem_pair.mp hatom
      · exact ⟨by decide, by decide +kernel⟩
      · exact ⟨by decide, by decide +kernel⟩
  subst hpair
  exact ⟨⟨_, _, hask⟩, rfl, hreply, hlog⟩

end Session

end Sentential
