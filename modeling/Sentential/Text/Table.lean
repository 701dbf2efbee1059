/-! Lists of entries that are in strictly increasing order of their keys. -/

namespace Sentential.Text.Table

variable {α : Type}

/-- The entries with one more. An entry that has the key gives way to it. -/
def insert (key : String) (value : α) : List (String × α) → List (String × α)
  | [] => [(key, value)]
  | (other, kept) :: rest =>
    if key < other then (key, value) :: (other, kept) :: rest
    else if key = other then (key, value) :: rest
    else (other, kept) :: insert key value rest

/-- The entries in the order of their keys, where the last entry of a key counts. -/
def ofList (entries : List (String × α)) : List (String × α) :=
  entries.foldl (fun table entry => insert entry.1 entry.2 table) []

/-- The entries are in strictly increasing order of their keys. -/
def Sorted (entries : List (String × α)) : Prop := entries.Pairwise fun a b => a.1 < b.1

instance (entries : List (String × α)) : Decidable (Sorted entries) :=
  inferInstanceAs (Decidable (entries.Pairwise _))

theorem mem_insert {key : String} {value : α} {entries : List (String × α)} {entry : String × α}
    (h : entry ∈ insert key value entries) : entry = (key, value) ∨ entry ∈ entries := by
  induction entries with
  | nil => simpa [insert] using h
  | cons first rest ih =>
    obtain ⟨other, kept⟩ := first
    rw [insert] at h
    split at h
    · simpa using h
    · split at h
      · rcases List.mem_cons.mp h with h | h
        · exact .inl h
        · exact .inr (List.mem_cons_of_mem _ h)
      · rcases List.mem_cons.mp h with h | h
        · exact .inr (h ▸ List.mem_cons_self)
        · exact (ih h).imp_right (List.mem_cons_of_mem _)

theorem mem_foldl {added entries : List (String × α)} {entry : String × α}
    (h : entry ∈ added.foldl (fun table entry => insert entry.1 entry.2 table) entries) :
    entry ∈ added ∨ entry ∈ entries := by
  induction added generalizing entries with
  | nil => exact .inr h
  | cons first rest ih =>
    rcases ih h with h | h
    · exact .inl (List.mem_cons_of_mem _ h)
    · rcases mem_insert h with rfl | h
      · exact .inl List.mem_cons_self
      · exact .inr h

theorem mem_of_mem_ofList {entries : List (String × α)} {entry : String × α}
    (h : entry ∈ ofList entries) : entry ∈ entries := by
  rcases mem_foldl h with h | h
  · exact h
  · cases h

theorem sorted_insert (key : String) (value : α) {entries : List (String × α)}
    (h : Sorted entries) : Sorted (insert key value entries) := by
  induction entries with
  | nil => simp [insert, Sorted]
  | cons first rest ih =>
    obtain ⟨other, kept⟩ := first
    obtain ⟨hlow, hrest⟩ := List.pairwise_cons.mp h
    rw [insert]
    split
    · next hlt =>
      refine List.pairwise_cons.mpr ⟨fun entry he => ?_, h⟩
      rcases List.mem_cons.mp he with rfl | he
      · exact hlt
      · exact String.lt_trans hlt (hlow entry he)
    · next hlt =>
      split
      · next heq =>
        subst heq
        exact List.pairwise_cons.mpr ⟨hlow, hrest⟩
      · next hne =>
        refine List.pairwise_cons.mpr ⟨fun entry he => ?_, ih hrest⟩
        rcases mem_insert he with rfl | he
        · refine Decidable.byContradiction fun hge => hne ?_
          exact String.le_antisymm hge hlt
        · exact hlow entry he

theorem sorted_foldl (added : List (String × α)) {entries : List (String × α)}
    (h : Sorted entries) :
    Sorted (added.foldl (fun table entry => insert entry.1 entry.2 table) entries) := by
  induction added generalizing entries with
  | nil => exact h
  | cons first rest ih => exact ih (sorted_insert first.1 first.2 h)

theorem sorted_ofList (entries : List (String × α)) : Sorted (ofList entries) :=
  sorted_foldl entries List.Pairwise.nil

/-- An entry whose key is greater than all others goes to the end. -/
theorem insert_of_lt {key : String} {value : α} {entries : List (String × α)}
    (h : ∀ entry ∈ entries, entry.1 < key) : insert key value entries = entries ++ [(key, value)] := by
  induction entries with
  | nil => rfl
  | cons first rest ih =>
    obtain ⟨other, kept⟩ := first
    obtain ⟨hother, hrest⟩ := List.forall_mem_cons.mp h
    have hne : key ≠ other := fun he => String.lt_irrefl other (he ▸ hother)
    rw [insert, if_neg (String.lt_asymm hother), if_neg hne, ih hrest, List.cons_append]

theorem foldl_of_sorted {entries added : List (String × α)} (h : Sorted (entries ++ added)) :
    added.foldl (fun table entry => insert entry.1 entry.2 table) entries = entries ++ added := by
  induction added generalizing entries with
  | nil => exact (List.append_nil entries).symm
  | cons first rest ih =>
    have hlast : ∀ entry ∈ entries, entry.1 < first.1 :=
      fun entry he => (List.pairwise_append.mp h).2.2 entry he first List.mem_cons_self
    rw [List.foldl_cons, insert_of_lt hlast, ih (by simpa [Sorted] using h), List.append_assoc]
    rfl

/-- A list that is in order is kept as it is. -/
theorem ofList_of_sorted {entries : List (String × α)} (h : Sorted entries) :
    ofList entries = entries :=
  foldl_of_sorted h

end Sentential.Text.Table
