import Sentential.Text.Table

/-! Glossaries, which give meanings to the names of atoms. A glossary is a finite map between texts
that is kept in the order of its keys. -/

namespace Sentential

/-- A finite map between texts, in the order of its keys. -/
structure Glossary where
  entries : List (String × String)
  sorted : Text.Table.Sorted entries
deriving DecidableEq

namespace Glossary

def empty : Glossary := ⟨[], List.Pairwise.nil⟩

instance : Inhabited Glossary := ⟨empty⟩

/-- The glossary of a list of entries, where the last entry of a key counts. -/
def ofList (entries : List (String × String)) : Glossary :=
  ⟨Text.Table.ofList entries, Text.Table.sorted_ofList entries⟩

/-- The entry that gives a meaning to the name of an atom. -/
def entryOf (named : Char × List Char) : String × String :=
  (String.singleton named.1, String.ofList named.2)

def get? (glossary : Glossary) (key : String) : Option String := glossary.entries.lookup key

/-- A glossary is the glossary of its entries. -/
theorem ofList_entries (glossary : Glossary) : ofList glossary.entries = glossary := by
  obtain ⟨entries, sorted⟩ := glossary
  rw [ofList]
  congr 1
  exact Text.Table.ofList_of_sorted sorted

end Glossary

end Sentential
