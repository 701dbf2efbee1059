import Mathlib.Data.List.TakeWhile
import Sentential.Proofs.Guess.Canonical

/-! What the atoms of a guess mean. Their meanings are pieces of the normal form of the sentence, in
order and without overlap, and only a condition or its consequence may be missing without words in
its place. -/

namespace Sentential

open Text

namespace Guess

variable {text : List Char} {guess : Guess} {op : Binary}

end Guess

end Sentential
