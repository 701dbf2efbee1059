import Sentential.Answer
import Sentential.Failure
import Sentential.Guess
import Sentential.Reply
import Sentential.Request
import Sentential.Sentence
import Sentential.Settings
import Sentential.Symbolic.Reader
import Sentential.Symbolic.Writer

/-! Conversions between formulas and sentences. A conversion answers by itself when the input is a
formula to be said, and otherwise asks the language model once and makes the best of its reply. It
records what it does. -/

namespace Sentential

open Symbolic

inductive Severity where
  | debug
  | info
  | warning
deriving DecidableEq, Repr, Inhabited

/-- A line of the log. -/
structure LogRecord where
  severity : Severity
  message : String
deriving DecidableEq, Repr, Inhabited

/-- The end of a conversion: its result, and what was recorded on the way. -/
structure Report where
  result : Except Failure String
  log : List LogRecord

/-- A conversion that is done without the model, or that needs the model's reply. -/
inductive Conversion where
  | done (report : Report)
  | asking (log : List LogRecord) (resume : Except ModelFailure String → Report)

namespace Request

/-- A request is valid if its input is not blank. -/
def validate (request : Request) : Except Failure Unit :=
  if (Text.trim request.input.toList).isEmpty then .error .missingInput else .ok ()

end Request

namespace Settings

/-- The formula that a text is under the settings. -/
def parse (settings : Settings) (text : String) : Except Fault Formula :=
  Formula.ofText settings.strictTokens text

/-- The sentence for the formula that a text is. -/
def sentenceFor (settings : Settings) (text : String) (meanings : Meanings) :
    Except Fault String :=
  (settings.parse text).map fun formula => formula.sentence meanings

/-- A plain text is an answer if it has some characters and fewer than the limit. -/
def acceptsPlain (settings : Settings) (text : String) : Bool :=
  0 < text.length && text.length < settings.maxPlainReplyLength.toNat &&
    !text.toList.contains '\x7b' && !(Text.Pattern.word "error").occursIn text.toList

/-- The answer to a reply without JSON: a guess at the formula, or the reply itself. -/
def recover (settings : Settings) (request : Request) (raw : String) : Report :=
  if request.direction = .sentenceToFormula ∧ settings.heuristicFallback then
    let guess := Guess.ofSentence request.input
    ⟨.ok (Answer.compose guess.formula.text guess.meanings),
      [⟨.info, "heuristic fallback formula=" ++ guess.formula.text⟩]⟩
  else
    let text := Reply.stripFences raw
    if settings.acceptsPlain text then
      ⟨.ok text, [⟨.info, s!"accepting plain-text reply len={text.utf8ByteSize}"⟩]⟩
    else ⟨.error .invalidReply, []⟩

/-- The answer to a reply with a formula and meanings. A formula that can be read is written anew,
and any other is passed on as it is. -/
def present (settings : Settings) (text : String) (propositions : Glossary) : Report :=
  match settings.parse text with
  | .ok formula =>
    let missing := formula.atoms.filter fun atom => (propositions.meanings atom).all (·.isEmpty)
    ⟨.ok (Answer.compose formula.text propositions),
      missing.map fun atom => ⟨.warning, s!"model left atom {atom} without a meaning"⟩⟩
  | .error fault =>
    ⟨.ok (Answer.compose text propositions),
      [⟨.warning, s!"model formula does not parse: {fault.message} formula={text}"⟩]⟩

/-- The answer to a raw reply of the model. -/
def interpret (settings : Settings) (request : Request) (raw : String) : Report :=
  match Reply.ofText? raw with
  | none => settings.recover request raw
  | some (.refused reason) => ⟨.error (.refused reason), []⟩
  | some (.formula text (some propositions)) => settings.present text propositions
  | some (.formula _ none) => ⟨.error .missingPropositions, []⟩
  | some (.sentence text) => ⟨.ok text, []⟩
  | some .unrecognized => ⟨.error .missingFields, []⟩

/-- The conversion that asks the model, after what is already recorded. -/
def ask (settings : Settings) (request : Request) (log : List LogRecord) : Conversion :=
  .asking (log ++ [⟨.debug, "calling backend mode=" ++ request.direction.name⟩]) fun
    | .ok raw => settings.interpret request raw
    | .error failure => ⟨.error (.ofModel failure), []⟩

/-- The conversion that a request asks for. -/
def convert (settings : Settings) (request : Request) : Conversion :=
  match request.validate with
  | .error failure => .done ⟨.error failure, []⟩
  | .ok () =>
    match request.direction with
    | .sentenceToFormula => settings.ask request []
    | .formulaToSentence =>
      match settings.sentenceFor request.input request.propositions.meanings with
      | .ok sentence => .done ⟨.ok sentence, []⟩
      | .error fault =>
        settings.ask request [⟨.debug, "deterministic path declined: " ++ fault.message⟩]

end Settings

end Sentential
