import Sentential.Formula.Json
import Sentential.Proofs.Json.Writer

/-! Formulas that are written as JSON and read back. A formula of depth `n` is written with `n`
objects open at once, so the limit of nesting is all that can keep it from being read. However a
formula is written, it has to open one object or array for each level, so no formula that is read is
deeper than the limit. -/

namespace Sentential

open Json

namespace Formula

theorem Kind.ofDocument?_name (inner : Bool) (kind : Kind) :
    ofDocument? inner (.string (some kind.name)) = some kind := by
  rcases kind with _ | _ | op
  · decide +revert
  · decide +revert
  · cases op <;> decide +revert

/-- An object that names a kind before the fields of that kind is what the kind makes of them. -/
theorem ofDocument?_record (inner : Bool) (kind : Kind) (values : List Document)
    (h : values.length = kind.fields.length) :
    ofDocument? inner (.object ((some "type", .string (some kind.name)) ::
      (kind.fields.map some).zip values)) =
      ofFields? kind (values.map fun value => (value, ofDocument? true value)) := by
  have hk := Kind.ofDocument?_name inner kind
  match kind, values, h with
  | .atom, [_], _ | .connective .not, [_], _ | .connective (.binary _), [_, _], _ =>
    simp [ofDocument?, withFormulas, ofMembers?, fieldsOfMembers?, hk, Kind.fields, List.lookup_cons]

theorem numberless_toValue (f : Formula) : f.toValue.Numberless := by
  induction f with
  | atom name => exact .object (by simp [Value.Numberless.string])
  | not operand ih => exact .object (by simp [Value.Numberless.string, ih])
  | binary op left right ihl ihr => exact .object (by simp [Value.Numberless.string, ihl, ihr])

theorem nesting_toValue (f : Formula) : f.toValue.document.nesting = f.depth := by
  induction f with
  | atom name => rfl
  | not operand ih =>
    simp [toValue, Value.document, Value.documentOfMembers, Document.nesting,
      Document.nestingOfMembers, depth, ih]
  | binary op left right ihl ihr =>
    simp [toValue, Value.document, Value.documentOfMembers, Document.nesting,
      Document.nestingOfMembers, depth, ihl, ihr]

/-- A written formula is read back, alone and as a part of another one. -/
theorem ofDocument?_toValue (f : Formula) (inner : Bool) :
    ofDocument? inner f.toValue.document = some f := by
  induction f generalizing inner with
  | atom name =>
    refine (ofDocument?_record inner .atom [.string (some (String.singleton name))] rfl).trans ?_
    simp [ofFields?]
  | not operand ih =>
    have h := ofDocument?_record inner (.connective .not) [operand.toValue.document] rfl
    rw [List.map_singleton, ih] at h
    exact h
  | binary op left right ihl ihr =>
    have h := ofDocument?_record inner (.connective (.binary op))
      [left.toValue.document, right.toValue.document] rfl
    rw [List.map_cons, List.map_singleton, ihl, ihr] at h
    exact h

/-- Reading back a written formula gives the formula if the limit allows its depth, and fails
otherwise. -/
theorem ofJson?_toJson (f : Formula) :
    ofJson? f.toJson = if f.depth ≤ 127 then some f else none := by
  have hd : Document.ofText? f.toJson.toList = some f.toValue.document := by
    rw [toJson, Value.text, String.toList_ofList, Document.ofText?_write (numberless_toValue f)]
  -- Everything in the document means something, so its nesting alone decides.
  obtain ⟨value, hv⟩ := Option.isSome_iff_exists.mp (Value.isSome_meaning f.toValue)
  have hm : f.toValue.document.value? = if f.depth ≤ 127 then some value else none := by
    rw [Document.value?.eq_def, nesting_toValue, hv]
    rfl
  simp only [ofJson?, hd, hm, ofDocument?_toValue, Option.bind_eq_bind, Option.bind_some]
  split <;> rfl

/-! ### The depth of what is read -/

theorem depth_ofFields? {kind : Kind} {fields : List (Document × Option Formula)} {f : Formula}
    {n : Nat} (hfields : ∀ field ∈ fields, ∀ g, field.2 = some g → g.depth ≤ n)
    (h : ofFields? kind fields = some f) : f.depth ≤ n + 1 := by
  unfold ofFields? at h
  split at h
  · split at h
    · cases h
      exact Nat.le_add_left 1 n
    · cases h
  · next document operand =>
    cases h
    exact Nat.succ_le_succ (hfields (document, some operand) (by simp) _ rfl)
  · next op document left other right =>
    cases h
    have hleft := hfields (document, some left) (by simp) _ rfl
    have hright := hfields (other, some right) (by simp) _ rfl
    exact Nat.succ_le_succ (Nat.max_le.mpr ⟨hleft, hright⟩)
  · cases h

/-- Fields that are all given are found as they are. -/
theorem eq_map_some_of_mapM_id {α : Type} {fields : List (Option α)} {values : List α}
    (h : fields.mapM id = some values) : fields = values.map some := by
  induction fields generalizing values with
  | nil =>
    cases h
    rfl
  | cons field fields ih =>
    simp only [List.mapM_cons, id, Option.bind_eq_bind, Option.bind_eq_some_iff] at h
    obtain ⟨value, rfl, others, hothers, h⟩ := h
    cases h
    rw [ih hothers]
    rfl

theorem mem_of_fieldsOfMembers? {α : Type} {names : List String}
    {members : List (Option String × α)} {fields : List (Option α)} {value : α}
    (h : fieldsOfMembers? names members = some fields) (hvalue : some value ∈ fields) :
    ∃ key, (key, value) ∈ members := by
  unfold fieldsOfMembers? at h
  split at h
  · cases h
    obtain ⟨name, -, hname⟩ := List.mem_map.mp hvalue
    obtain ⟨before, after, hmembers, -⟩ := List.lookup_eq_some_iff.mp hname
    exact ⟨some name, by simp [hmembers]⟩
  · cases h

theorem depth_ofMembers? {inner : Bool}
    {members : List (Option String × Document × Option Formula)} {f : Formula} {n : Nat}
    (hmembers : ∀ member ∈ members, ∀ g, member.2.2 = some g → g.depth ≤ n)
    (h : ofMembers? inner members = some f) : f.depth ≤ n + 1 := by
  simp only [ofMembers?, Option.bind_eq_bind, Option.bind_eq_some_iff] at h
  obtain ⟨tags, -, h⟩ := h
  split at h
  · simp only [Option.bind_eq_some_iff] at h
    obtain ⟨kind, -, fields, hfields, values, hvalues, h⟩ := h
    refine depth_ofFields? (fun value hvalue => ?_) h
    have hgiven : some value ∈ fields := by
      rw [eq_map_some_of_mapM_id hvalues]
      exact List.mem_map_of_mem hvalue
    obtain ⟨key, hmem⟩ := mem_of_fieldsOfMembers? hfields hgiven
    exact hmembers (key, value) hmem
  · cases h

theorem depth_ofItems? {inner : Bool} {items : List (Document × Option Formula)} {f : Formula}
    {n : Nat} (hitems : ∀ item ∈ items, ∀ g, item.2 = some g → g.depth ≤ n)
    (h : ofItems? inner items = some f) : f.depth ≤ n + 1 := by
  cases items with
  | nil => cases h
  | cons item items =>
    simp only [ofItems?, Option.bind_eq_bind, Option.bind_eq_some_iff] at h
    obtain ⟨kind, -, h⟩ := h
    exact depth_ofFields? (fun field hfield => hitems field (List.mem_cons_of_mem _ hfield)) h

mutual

/-- A document that is a formula is nested at least as deeply. -/
theorem depth_le_nesting {inner : Bool} {document : Document} {f : Formula}
    (h : ofDocument? inner document = some f) : f.depth ≤ document.nesting := by
  match document, h with
  | .object members, h =>
    rw [ofDocument?] at h
    exact depth_ofMembers? depth_withFormulas h
  | .array items, h =>
    rw [ofDocument?] at h
    exact depth_ofItems? depth_withFormulasOfItems h

theorem depth_withFormulas {members : List (Option String × Document)} :
    ∀ member ∈ withFormulas members, ∀ f, member.2.2 = some f →
      f.depth ≤ Document.nestingOfMembers members := by
  match members with
  | [] => simp [withFormulas]
  | (key, value) :: members =>
    rw [withFormulas, Document.nestingOfMembers, List.forall_mem_cons]
    refine ⟨fun f hf => ?_, fun member hmember f hf => ?_⟩
    · exact Nat.le_trans (depth_le_nesting hf) (Nat.le_max_left _ _)
    · exact Nat.le_trans (depth_withFormulas member hmember f hf) (Nat.le_max_right _ _)

theorem depth_withFormulasOfItems {items : List Document} :
    ∀ item ∈ withFormulasOfItems items, ∀ f, item.2 = some f →
      f.depth ≤ Document.nestingOfItems items := by
  match items with
  | [] => simp [withFormulasOfItems]
  | item :: items =>
    rw [withFormulasOfItems, Document.nestingOfItems, List.forall_mem_cons]
    refine ⟨fun f hf => ?_, fun other hother f hf => ?_⟩
    · exact Nat.le_trans (depth_le_nesting hf) (Nat.le_max_left _ _)
    · exact Nat.le_trans (depth_withFormulasOfItems other hother f hf) (Nat.le_max_right _ _)

end

theorem depth_of_ofJson? {text : String} {f : Formula} (h : ofJson? text = some f) :
    f.depth ≤ nestingLimit := by
  simp only [ofJson?, Option.bind_eq_bind, Option.bind_eq_some_iff] at h
  obtain ⟨document, -, value, hvalue, h⟩ := h
  unfold Document.value? at hvalue
  split at hvalue
  · next hnesting => exact Nat.le_trans (depth_le_nesting h) hnesting
  · cases hvalue

end Formula

end Sentential
