import Sentential.Proofs.Json.Writer
import Sentential.Request

/-! Requests that are written as JSON and read back. The meanings may be left out of the text if there
are none. -/

namespace Sentential

open Json

namespace Glossary

theorem numberless_toValue (glossary : Glossary) : glossary.toValue.Numberless := by
  refine .object fun member hmember => ?_
  obtain ⟨entry, -, rfl⟩ := List.mem_map.mp hmember
  exact .string entry.2

theorem entriesOfMembers?_document (entries : List (String × String)) :
    entriesOfMembers? (Value.documentOfMembers
      (entries.map fun (key, meaning) => (key, .string meaning))) = some entries := by
  induction entries with
  | nil => rfl
  | cons entry entries ih =>
    rw [List.map_cons, Value.documentOfMembers, Value.document, entriesOfMembers?, ih]
    rfl

/-- A written glossary is read back. -/
theorem ofDocument?_toValue (glossary : Glossary) :
    ofDocument? glossary.toValue.document = some glossary := by
  rw [toValue, Value.document, ofDocument?, entriesOfMembers?_document, Option.map_some,
    ofList_entries]

end Glossary

namespace Request

/-- The object of a request, with the member for its meanings if it is given. -/
def record (direction : Direction) (input : String) (propositions : Option Value) : Value :=
  .object (("mode", .string direction.name) :: ("input", .string input) ::
    (propositions.map fun value => ("propositions", value)).toList)

variable (direction : Direction) (input : String) (propositions : Option Value)

theorem numberless_record (h : ∀ value ∈ propositions, value.Numberless) :
    (record direction input propositions).Numberless := by
  refine .object fun member hmember => ?_
  rcases List.mem_cons.mp hmember with rfl | hmember
  · exact .string _
  rcases List.mem_cons.mp hmember with rfl | hmember
  · exact .string _
  · obtain ⟨value, hvalue, rfl⟩ := Option.map_eq_some_iff.mp (Option.mem_toList.mp hmember)
    exact h value hvalue

theorem fields?_record :
    (record direction input propositions).document.fields? fields =
      some [some (.string (some direction.name)), some (.string (some input)),
        propositions.map Value.document] := by
  cases propositions <;>
    simp [record, Value.document, Value.documentOfMembers, Document.fields?, fieldsOfMembers?,
      fields, List.lookup_cons]

/-- A written object is the request for its direction and input, if its meanings are a glossary or
are not given. -/
theorem ofJson?_record (h : ∀ value ∈ propositions, value.Numberless) :
    ofJson? (record direction input propositions).text =
      (fieldOr Glossary.empty Glossary.ofDocument? (propositions.map Value.document)).map
        fun propositions => { direction, input, propositions } := by
  have hdirection : (Document.choice? (.string (some direction.name))).bind Direction.ofName? =
      some direction := direction.ofName?_name
  have hread := Document.ofText?_write (numberless_record direction input propositions h)
  rw [ofJson?, Value.text, String.toList_ofList, hread, Option.bind_some, ofDocument?,
    fields?_record]
  simp only [Option.bind_eq_bind, Option.bind_some, hdirection, Document.string?,
    Option.map_eq_bind]
  rfl

/-- The member for the meanings is written at the end, after a comma. -/
theorem exists_text_record : ∃ before : String,
    (record direction input none).text = before ++ "\x7d" ∧
      ∀ value, (record direction input (some value)).text =
        before ++ ",\"propositions\":" ++ value.text ++ "\x7d" := by
  let named := Value.writeMembers [("mode", .string direction.name), ("input", .string input)]
  have hkey : Quoted.encode "propositions".toList = "\"propositions\"".toList := by decide
  refine ⟨String.ofList ('\x7b' :: named), ?_, fun value => ?_⟩
  · apply String.toList_inj.mp
    simp [record, Value.text, Value.write, named]
  · apply String.toList_inj.mp
    simp only [record, Option.map_some, Option.toList_some, Value.text, Value.write,
      Value.writeMembers, String.toList_append, String.toList_ofList, hkey, named]
    simp

/-- A written request is read back, and if there are no meanings it is read back as well from the same
text without the member for them. -/
theorem ofJson?_toJson_members (request : Request) :
    ofJson? request.toJson = some request ∧
      (request.propositions = Glossary.empty →
        ∃ before : String, request.toJson = before ++ ",\"propositions\":\x7b\x7d\x7d" ∧
          ofJson? (before ++ "\x7d") = some request) := by
  obtain ⟨direction, input, propositions⟩ := request
  constructor
  · have hread := ofJson?_record direction input (some propositions.toValue)
      (by simpa using propositions.numberless_toValue)
    rwa [Option.map_some, fieldOr, Glossary.ofDocument?_toValue] at hread
  · rintro rfl
    obtain ⟨before, hshort, hlong⟩ := exists_text_record direction input
    have hread := ofJson?_record direction input none nofun
    refine ⟨before, (hlong Glossary.empty.toValue).trans ?_, hshort ▸ hread⟩
    rw [String.append_assoc, String.append_assoc]
    rfl

/-- A text with a quote, a backslash, a control character and a character past the first plane. -/
theorem ofJson?_toJson_members_escapes :
    let request : Request := ⟨.formulaToSentence, "\"\\\x01\n𝟘", Glossary.empty⟩
    request.propositions = Glossary.empty ∧
      ∃ before : String, request.toJson = before ++ ",\"propositions\":\x7b\x7d\x7d" ∧
        ofJson? (before ++ "\x7d") = some request :=
  ⟨rfl, (ofJson?_toJson_members _).2 rfl⟩

end Request

end Sentential
