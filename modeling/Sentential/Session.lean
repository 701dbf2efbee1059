import Sentential.Conversion

/-! Sessions of several steps with one model whose replies are laid down in advance. Each call of
the model takes the next reply, and the model is unavailable when none is left. -/

namespace Sentential

open Symbolic

inductive Step where
  | convert (request : Request)
  | sentence (formula : String) (meanings : Meanings)
  | parse (formula : String)
  | settings

inductive StepResult where
  | conversion (result : Except Failure String)
  | reading (result : Except Fault String)
  | settings (json : String)

/-- The settings of a session, the replies that are left, and the number of calls of the model. -/
structure Session where
  settings : Settings
  replies : List (Except ModelFailure String)
  calls : Nat

/-- What is seen of a step: its result, the calls of the model so far, and what was recorded. -/
structure StepReport where
  result : StepResult
  calls : Nat
  log : List LogRecord

namespace Session

def start (settings : Settings) (replies : List (Except ModelFailure String)) : Session :=
  ⟨settings, replies, 0⟩

/-- The reply to the next call of the model, and the session after the call. -/
def call (session : Session) : Except ModelFailure String × Session :=
  match session.replies with
  | [] => (.error (.unavailable "no scripted reply"), { session with calls := session.calls + 1 })
  | reply :: replies => (reply, { session with replies, calls := session.calls + 1 })

/-- The result of a step with what it recorded, and the session after it. -/
def perform (session : Session) : Step → StepResult × List LogRecord × Session
  | .convert request =>
    match session.settings.convert request with
    | .done report => (.conversion report.result, report.log, session)
    | .asking log resume =>
      let (reply, session) := session.call
      let report := resume reply
      (.conversion report.result, log ++ report.log, session)
  | .sentence formula meanings =>
    (.reading (session.settings.sentenceFor formula meanings), [], session)
  | .parse formula => (.reading ((session.settings.parse formula).map Formula.text), [], session)
  | .settings => (.settings session.settings.toJson, [], session)

/-- What is seen of the steps of a session. -/
def run (session : Session) : List Step → List StepReport
  | [] => []
  | step :: steps =>
    let (result, log, session) := session.perform step
    ⟨result, session.calls, log⟩ :: session.run steps

end Session

end Sentential
