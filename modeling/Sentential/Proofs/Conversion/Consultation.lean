import Sentential.Conversion

/-! Which conversions need the model. A conversion asks it if the input is not blank, unless a
formula is to be said and the input is one; every other conversion is done at once and records
nothing. The records of a conversion show a call of the model exactly if it asks. -/

namespace Sentential

open Symbolic Text

/-- The record shows a call of the model. -/
def LogRecord.isCall (record : LogRecord) : Bool :=
  record.severity == .debug && "calling backend mode=".toList.isPrefixOf record.message.toList

/-- The conversion of a request needs the model. -/
def Settings.consults (settings : Settings) (request : Request) : Bool :=
  request.input.toList.any (!isBlank ·) &&
    !(request.direction == .formulaToSentence && (settings.parse request.input).isOk)

theorem Request.validate_eq (request : Request) :
    request.validate =
      if request.input.toList.any (!isBlank ·) then .ok () else .error .missingInput := by
  have hblank : (trim request.input.toList).isEmpty = !request.input.toList.any (!isBlank ·) := by
    rw [Bool.eq_iff_iff, List.isEmpty_iff, trim_eq_nil_iff]
    simp
  rw [validate, hblank]
  cases request.input.toList.any (!isBlank ·) <;> rfl

namespace Settings

variable {settings : Settings} {request : Request}

/-- A conversion that needs the model asks it. What is recorded before is no call. -/
theorem convert_of_consults (h : settings.consults request = true) :
    ∃ log, settings.convert request = settings.ask request log ∧
      ∀ record ∈ log, record.isCall = false := by
  simp only [consults, Bool.and_eq_true, Bool.not_eq_true'] at h
  obtain ⟨hinput, hformula⟩ := h
  rw [convert, request.validate_eq, if_pos hinput]
  cases hdirection : request.direction with
  | sentenceToFormula => exact ⟨[], rfl, fun _ h => nomatch h⟩
  | formulaToSentence =>
    rw [hdirection] at hformula
    cases hparse : settings.parse request.input with
    | ok formula => rw [hparse] at hformula; cases hformula
    | error fault =>
      rw [sentenceFor, hparse]
      refine ⟨[⟨.debug, "deterministic path declined: " ++ fault.message⟩], rfl, ?_⟩
      rw [List.forall_mem_singleton, LogRecord.isCall, String.toList_append]
      rfl

/-- A conversion that does not need the model is done, and records nothing. -/
theorem convert_of_not_consults (h : settings.consults request = false) :
    ∃ result, settings.convert request = .done ⟨result, []⟩ := by
  rw [convert, request.validate_eq]
  cases hinput : request.input.toList.any (!isBlank ·) with
  | false => exact ⟨_, rfl⟩
  | true =>
    cases hdirection : request.direction with
    | sentenceToFormula => simp [consults, hinput, hdirection] at h
    | formulaToSentence =>
      cases hparse : settings.parse request.input with
      | ok formula =>
        rw [sentenceFor, hparse]
        exact ⟨_, rfl⟩
      | error fault => simp [consults, hinput, hdirection, hparse, Except.isOk, Except.toBool] at h

theorem severity_recover (settings : Settings) (request : Request) (raw : String) :
    ∀ record ∈ (settings.recover request raw).log, record.severity ≠ .debug := by
  unfold recover
  dsimp only
  split
  · simp
  · split <;> simp

theorem severity_present (settings : Settings) (text : String) (propositions : Glossary) :
    ∀ record ∈ (settings.present text propositions).log, record.severity ≠ .debug := by
  unfold present
  split
  · intro record hrecord
    obtain ⟨atom, -, rfl⟩ := List.mem_map.mp hrecord
    simp
  · simp

/-- What is recorded about a reply is no call. -/
theorem isCall_interpret (settings : Settings) (request : Request) (raw : String) :
    ∀ record ∈ (settings.interpret request raw).log, record.isCall = false := by
  have hseverity : ∀ record ∈ (settings.interpret request raw).log, record.severity ≠ .debug := by
    unfold interpret
    split
    · exact severity_recover settings request raw
    · simp
    · exact severity_present settings _ _
    · simp
    · simp
    · simp
  intro record hrecord
  rw [LogRecord.isCall, beq_eq_false_iff_ne.mpr (hseverity record hrecord), Bool.false_and]

/-- Asking records one call, and nothing that is recorded after the reply is another. -/
theorem ask_eq (settings : Settings) (request : Request) (log : List LogRecord) :
    ∃ call resume, settings.ask request log = .asking (log ++ [call]) resume ∧
      call.isCall = true ∧ ∀ reply, ∀ record ∈ (resume reply).log, record.isCall = false := by
  refine ⟨_, _, rfl, ?_, fun reply => ?_⟩
  · rw [LogRecord.isCall, String.toList_append]
    exact List.isPrefixOf_iff_prefix.mpr (List.prefix_append _ _)
  · cases reply with
    | ok raw => exact isCall_interpret settings request raw
    | error failure => exact fun _ h => nomatch h

end Settings

end Sentential
