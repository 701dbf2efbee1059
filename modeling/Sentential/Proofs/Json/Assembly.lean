import Sentential.Json.Document

/-! The tokens of a document, and that they are assembled to the document again. -/

namespace Sentential.Json

namespace Document

mutual

/-- The tokens that write a document. -/
def tokens : Document → List Token
  | null => [.null]
  | bool value => [.bool value]
  | number value => [.number value]
  | string value => [.string value]
  | array items => .openArray :: tokensOfItems items ++ [.closeArray]
  | object members => .openObject :: tokensOfMembers members ++ [.closeObject]

def tokensOfItems : List Document → List Token
  | [] => []
  | [item] => item.tokens
  | item :: next :: items => item.tokens ++ .comma :: tokensOfItems (next :: items)

def tokensOfMembers : List (Option String × Document) → List Token
  | [] => []
  | [(key, value)] => .string key :: .colon :: value.tokens
  | (key, value) :: next :: members =>
    .string key :: .colon :: value.tokens ++ .comma :: tokensOfMembers (next :: members)

end

end Document

namespace Assembly

open Document

/-- The assembly after some more tokens. -/
def run (assembly : Assembly) (tokens : List Token) : Option Assembly :=
  tokens.foldlM step assembly

theorem run_step {assembly next : Assembly} {token : Token} (tokens : List Token)
    (h : assembly.step token = some next) : assembly.run (token :: tokens) = next.run tokens := by
  simp [run, h]

theorem run_append {assembly next : Assembly} {tokens : List Token} (more : List Token)
    (h : assembly.run tokens = some next) : assembly.run (tokens ++ more) = next.run more := by
  simp only [run] at h
  simp [run, h]

section Steps

variable (first : Bool) (frames : List Frame)

theorem step_leaf {token : Token} {document : Document} (h : token.leaf? = some document) :
    step ⟨.value first, frames⟩ token = some ⟨.after document, frames⟩ := by
  cases token <;> cases first <;> simp_all [step, Token.leaf?]

theorem step_openArray :
    step ⟨.value first, frames⟩ .openArray = some ⟨.value true, .array [] :: frames⟩ := by
  cases first <;> rfl

theorem step_openObject :
    step ⟨.value first, frames⟩ .openObject = some ⟨.key true [], frames⟩ := by
  cases first <;> rfl

theorem step_key (members : List (Option String × Document)) (key : Option String) :
    step ⟨.key first members, frames⟩ (.string key) = some ⟨.colon members key, frames⟩ := by
  cases first <;> rfl

end Steps

mutual

/-- Where a value may come, the tokens of a document are assembled to it, whatever is open. -/
theorem run_tokens (document : Document) (first : Bool) (frames : List Frame) :
    run ⟨.value first, frames⟩ document.tokens = some ⟨.after document, frames⟩ := by
  -- Only an array or object without anything in it closes where its first value or key may come.
  match document with
  | .null | .bool _ | .number _ | .string _ => exact run_step [] (step_leaf first frames rfl)
  | .array [] => rw [tokens, List.cons_append, run_step _ (step_openArray first frames)]; rfl
  | .array (item :: items) =>
    rw [tokens, List.cons_append, run_step _ (step_openArray first frames)]
    exact run_tokensOfItems (item :: items) (by simp) [] true frames
  | .object [] => rw [tokens, List.cons_append, run_step _ (step_openObject first frames)]; rfl
  | .object (member :: members) =>
    rw [tokens, List.cons_append, run_step _ (step_openObject first frames)]
    exact run_tokensOfMembers (member :: members) (by simp) [] true frames

/-- What is left of an array is added to the items it has. -/
theorem run_tokensOfItems (items : List Document) (h : items ≠ []) (done : List Document)
    (first : Bool) (frames : List Frame) :
    run ⟨.value first, .array done :: frames⟩ (tokensOfItems items ++ [.closeArray]) =
      some ⟨.after (.array (done.reverse ++ items)), frames⟩ := by
  match items with
  | [] => exact absurd rfl h
  | [item] =>
    rw [tokensOfItems, run_append _ (run_tokens item first _), run_step _ rfl]
    simp [run]
  | item :: next :: items =>
    rw [tokensOfItems, List.append_assoc, run_append _ (run_tokens item first _),
      List.cons_append, run_step _ rfl,
      run_tokensOfItems (next :: items) (by simp) (item :: done) false frames]
    simp

/-- What is left of an object is added to the members it has. -/
theorem run_tokensOfMembers (members : List (Option String × Document)) (h : members ≠ [])
    (done : List (Option String × Document)) (first : Bool) (frames : List Frame) :
    run ⟨.key first done, frames⟩ (tokensOfMembers members ++ [.closeObject]) =
      some ⟨.after (.object (done.reverse ++ members)), frames⟩ := by
  match members with
  | [] => exact absurd rfl h
  | [(key, value)] =>
    rw [tokensOfMembers, List.cons_append, run_step _ (step_key first frames done key),
      List.cons_append, run_step _ rfl, run_append _ (run_tokens value false _), run_step _ rfl]
    simp [run]
  | (key, value) :: next :: members =>
    rw [tokensOfMembers, List.append_assoc, List.cons_append,
      run_step _ (step_key first frames done key), List.cons_append, run_step _ rfl,
      run_append _ (run_tokens value false _), List.cons_append, run_step _ rfl,
      run_tokensOfMembers (next :: members) (by simp) ((key, value) :: done) false frames]
    simp

end

end Assembly

theorem Document.ofTokens?_tokens (document : Document) :
    ofTokens? document.tokens = some document := by
  rw [ofTokens?]
  exact congrArg (·.bind Assembly.finish?) (Assembly.run_tokens document false [])

end Sentential.Json
