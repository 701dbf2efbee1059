import Sentential.Json.Record

/-! The settings of conversions, and their JSON form. A setting that is not given has its
default. -/

namespace Sentential

open Json

structure Settings where
  /-- Characters that are in no formula are refused, not dropped. -/
  strictTokens : Bool
  /-- A formula is guessed from the sentence if the model's reply is of no use. -/
  heuristicFallback : Bool
  /-- A reply in plain text is an answer if it has fewer characters. -/
  maxPlainReplyLength : UInt64
deriving DecidableEq, Repr

/-- Why a text holds no settings. -/
inductive SettingsError where
  | invalidJson
deriving DecidableEq, Repr, Inhabited

def SettingsError.message : SettingsError → String
  | invalidJson => "invalid config JSON"

namespace Settings

def standard : Settings where
  strictTokens := false
  heuristicFallback := true
  maxPlainReplyLength := 300

instance : Inhabited Settings := ⟨standard⟩

def fields : List String := ["strict_tokens", "heuristic_fallback", "max_plain_reply_len"]

/-- The settings that a document gives. -/
def ofDocument? (document : Document) : Option Settings := do
  let [strict, fallback, length] ← document.fields? fields | none
  let strictTokens ← fieldOr standard.strictTokens Document.bool? strict
  let heuristicFallback ← fieldOr standard.heuristicFallback Document.bool? fallback
  let maxPlainReplyLength ← fieldOr standard.maxPlainReplyLength Document.word? length
  some { strictTokens, heuristicFallback, maxPlainReplyLength }

def ofJson (text : String) : Except SettingsError Settings :=
  match (Document.ofText? text.toList).bind ofDocument? with
  | some settings => .ok settings
  | none => .error .invalidJson

def toValue (settings : Settings) : Value :=
  .object [("strict_tokens", .bool settings.strictTokens),
    ("heuristic_fallback", .bool settings.heuristicFallback),
    ("max_plain_reply_len", .number (.integer settings.maxPlainReplyLength.toNat))]

def toJson (settings : Settings) : String := settings.toValue.text

end Settings

end Sentential
