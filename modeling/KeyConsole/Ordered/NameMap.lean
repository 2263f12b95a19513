/-!
# Ordered.NameMap: values under names

A map keeps its entries in the order of their names, one entry for a name.
-/

namespace KeyConsole.Ordered

/-- Entries by ascending name. -/
structure NameMap (α : Type) where
  entries : List (String × α) := []
  deriving Repr

namespace NameMap

variable {α : Type}

/-- The map without entries. -/
def empty : NameMap α := {}

instance : Inhabited (NameMap α) := ⟨empty⟩

/-- The entry lists with `name` set to `value`. -/
def putEntry (name : String) (value : α) : List (String × α) → List (String × α)
  | [] => [(name, value)]
  | (n, v) :: rest =>
    if n = name then (name, value) :: rest
    else if name < n then (name, value) :: (n, v) :: rest
    else (n, v) :: putEntry name value rest

/-- The map with `name` set to `value`. -/
def put (m : NameMap α) (name : String) (value : α) : NameMap α := ⟨putEntry name value m.entries⟩

/-- The value under a name. -/
def get? (m : NameMap α) (name : String) : Option α :=
  (m.entries.find? fun e => e.1 = name).map (·.2)

/-- The names in order. -/
def names (m : NameMap α) : List String := m.entries.map (·.1)

/-- The values in the order of their names. -/
def values (m : NameMap α) : List α := m.entries.map (·.2)

/-- The map with the entries of a list put one after the other. -/
def ofList (entries : List (String × α)) : NameMap α :=
  entries.foldl (fun m e => m.put e.1 e.2) empty

theorem get?_put (m : NameMap α) (name other : String) (value : α) :
    (m.put name value).get? other = if name = other then some value else m.get? other := by
  obtain ⟨entries⟩ := m
  simp only [get?, put]
  induction entries with
  | nil => by_cases h : name = other <;> simp [putEntry, h]
  | cons e rest ih =>
    obtain ⟨n, v⟩ := e
    simp only [putEntry]
    split
    · rename_i h
      subst h
      by_cases h : n = other <;> simp [h]
    · split
      · by_cases h : name = other <;> simp [h]
      · rename_i hn _
        by_cases h : n = other
        · subst h
          simp [Ne.symm hn]
        · simpa [h] using ih

end NameMap

end KeyConsole.Ordered
