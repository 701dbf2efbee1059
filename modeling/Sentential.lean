import Sentential.Formula.Json
import Sentential.Session
import Sentential.Proofs.Answer.RoundTrip
import Sentential.Proofs.Conversion.Consultation
import Sentential.Proofs.Conversion.Delivery
import Sentential.Proofs.Sentence.Dependence
import Sentential.Proofs.Sentence.Unambiguity
import Sentential.Proofs.Session.Calls
import Sentential.Proofs.Symbolic.Parentheses
import Sentential.Proofs.Symbolic.Strictness
import Sentential.Proofs.Guess.Faithful
import Sentential.Proofs.Guess.Canonical
import Sentential.Proofs.Guess.Recovery
import Sentential.Proofs.Symbolic.Diagnosis
import Sentential.Proofs.Formula.Exchange
import Sentential.Proofs.Settings.Partial
import Sentential.Proofs.Request.Exchange
import Sentential.Proofs.Reply.Surroundings
import Sentential.Proofs.Answer.Normal
import Sentential.Proofs.Symbolic.Resumption
import Sentential.Proofs.Symbolic.Attempts
import Sentential.Proofs.Guess.Excerpts
import Sentential.Proofs.Formula.Nesting
import Sentential.Proofs.Guess.Conditional
import Sentential.Proofs.Answer.Loose
import Sentential.Proofs.Conversion.Warnings
