/-! The failures of conversions and of the language model, with what is written in logs and what is
shown to people. -/

namespace Sentential

/-- Why the language model gave no reply. -/
inductive ModelFailure where
  | timeout
  | unavailable (reason : String)
deriving DecidableEq, Repr, Inhabited

def ModelFailure.message : ModelFailure → String
  | timeout => "model call timed out"
  | unavailable reason => "model unavailable: " ++ reason

/-- Why a conversion has no result. -/
inductive Failure where
  | missingInput
  | timeout
  /-- The model could not be reached. -/
  | backend (reason : String)
  /-- The model's reply is neither an object nor a plain answer. -/
  | invalidReply
  | refused (reason : String)
  /-- The model gave a formula without meanings. -/
  | missingPropositions
  /-- The model's reply has none of the fields that are looked for. -/
  | missingFields
deriving DecidableEq, Repr, Inhabited

namespace Failure

def ofModel : ModelFailure → Failure
  | .timeout => timeout
  | .unavailable reason => backend reason

def message : Failure → String
  | missingInput => "input is required"
  | timeout => "model timed out"
  | backend reason => "backend error: " ++ reason
  | invalidReply => "model did not return a valid JSON object"
  | refused reason => "model refused: " ++ reason
  | missingPropositions => "model reply is missing the propositions mapping"
  | missingFields => "model reply is missing required fields"

/-- The message that is shown to people. -/
def userMessage : Failure → String
  | missingInput => "input is required"
  | timeout => "Timeout. Try again with a shorter sentence."
  | invalidReply => "The model did not return a valid JSON object. Try rephrasing your input."
  | missingPropositions =>
    "The model did not return the mapping of propositions. Try a simpler sentence."
  | refused reason => reason
  | backend _ | missingFields => "Internal server error"

end Failure

end Sentential
