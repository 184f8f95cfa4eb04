set_option autoImplicit false

/-! # Maps from names

Values under distinct names, kept in ascending order of the names. `get?` is the view of a map:
`get?_insert` and `get?_erase` say what the two operations do to it, and `keys` lists the names in
order. -/

namespace SealedEnvelope

/-- Values under distinct names, in ascending order of the names. -/
structure NameMap (α : Type) where
  entries : List (String × α)
  ascending : entries.Pairwise fun a b => a.1 < b.1
deriving Repr

namespace NameMap

variable {α : Type}

@[ext] theorem ext {a b : NameMap α} (h : a.entries = b.entries) : a = b := by
  cases a; cases b; simp_all

instance [DecidableEq α] : DecidableEq (NameMap α) := fun a b =>
  decidable_of_iff (a.entries = b.entries) ⟨ext, fun h => by rw [h]⟩

/-- The map without values. -/
def empty : NameMap α := ⟨[], .nil⟩

instance : Inhabited (NameMap α) := ⟨empty⟩

/-- The names in ascending order. -/
def keys (m : NameMap α) : List String := m.entries.map Prod.fst

/-- The value under a name, in a list of entries. -/
def findIn (name : String) : List (String × α) → Option α
  | [] => none
  | (k, v) :: rest => if k = name then some v else findIn name rest

/-- The value under a name. -/
def get? (m : NameMap α) (name : String) : Option α := findIn name m.entries

/-- Whether there is a value under a name. -/
def contains (m : NameMap α) (name : String) : Bool := (m.get? name).isSome

theorem mem_map_fst_iff {name : String} {l : List (String × α)} :
    name ∈ l.map Prod.fst ↔ ∃ value, findIn name l = some value := by
  induction l with
  | nil => simp [findIn]
  | cons d rest ih =>
    by_cases hd : d.1 = name
    · simp [findIn, hd]
    · simp [findIn, hd, ih, Ne.symm hd]

/-- The names are those under which there is a value. -/
theorem mem_keys_iff {m : NameMap α} {name : String} :
    name ∈ m.keys ↔ ∃ value, m.get? name = some value :=
  mem_map_fst_iff

theorem contains_iff {m : NameMap α} {name : String} :
    m.contains name = true ↔ ∃ value, m.get? name = some value :=
  Option.isSome_iff_exists

theorem ascending_keys (m : NameMap α) : m.keys.Pairwise (· < ·) :=
  List.pairwise_map.2 m.ascending

/-! ## Insertion -/

/-- Entries with the value under a name set. -/
def insertIn (name : String) (value : α) : List (String × α) → List (String × α)
  | [] => [(name, value)]
  | (k, v) :: rest =>
    if k = name then (name, value) :: rest
    else if name < k then (name, value) :: (k, v) :: rest
    else (k, v) :: insertIn name value rest

theorem fst_of_mem_insertIn {name : String} {value : α} {l : List (String × α)} {e : String × α}
    (h : e ∈ insertIn name value l) : e.1 = name ∨ e ∈ l := by
  induction l with
  | nil => simp_all [insertIn]
  | cons d rest ih =>
    rw [insertIn] at h
    split at h
    · rcases List.mem_cons.1 h with rfl | h
      · exact .inl rfl
      · exact .inr (List.mem_cons_of_mem _ h)
    · split at h
      · rcases List.mem_cons.1 h with rfl | h
        · exact .inl rfl
        · exact .inr h
      · rcases List.mem_cons.1 h with rfl | h
        · exact .inr List.mem_cons_self
        · exact (ih h).imp_right (List.mem_cons_of_mem _)

theorem ascending_insertIn (name : String) (value : α) {l : List (String × α)}
    (h : l.Pairwise fun a b => a.1 < b.1) :
    (insertIn name value l).Pairwise fun a b => a.1 < b.1 := by
  induction l with
  | nil => simp [insertIn]
  | cons d rest ih =>
    obtain ⟨hd, hrest⟩ := List.pairwise_cons.1 h
    rw [insertIn]
    split
    · next heq => exact List.pairwise_cons.2 ⟨fun e he => heq ▸ hd e he, hrest⟩
    · next hne =>
      split
      · next hlt =>
        refine List.pairwise_cons.2 ⟨fun e he => ?_, h⟩
        rcases List.mem_cons.1 he with rfl | he
        · exact hlt
        · exact String.lt_trans hlt (hd e he)
      · next hge =>
        refine List.pairwise_cons.2 ⟨fun e he => ?_, ih hrest⟩
        rcases fst_of_mem_insertIn he with he | he
        · rw [he]
          rcases String.le_total d.1 name with hle | hle
          · exact String.not_le.1 fun hle' => hne (String.le_antisymm hle hle')
          · exact absurd (String.not_le.1 fun hle' => hne (String.le_antisymm hle' hle)) hge
        · exact hd e he

/-- The map with the value under a name set. -/
def insert (m : NameMap α) (name : String) (value : α) : NameMap α :=
  ⟨insertIn name value m.entries, ascending_insertIn name value m.ascending⟩

/-- The map of a list of entries; of entries with the same name the last one counts. -/
def ofList (l : List (String × α)) : NameMap α :=
  l.foldl (fun m e => m.insert e.1 e.2) empty

theorem findIn_insertIn (name other : String) (value : α) (l : List (String × α)) :
    findIn other (insertIn name value l) = if name = other then some value else findIn other l := by
  induction l with
  | nil => simp [insertIn, findIn]
  | cons d rest ih =>
    rw [insertIn]
    split
    · next h => subst h; by_cases ho : d.1 = other <;> simp [findIn, ho]
    · next hne =>
      split
      · by_cases ho : name = other <;> simp [findIn, ho]
      · by_cases ho : d.1 = other
        · have : name ≠ other := fun h => hne (ho.trans h.symm)
          simp [findIn, ho, this]
        · simp [findIn, ho, ih]

/-- Setting a value changes what is found under its name and nothing else. -/
theorem get?_insert (m : NameMap α) (name other : String) (value : α) :
    (m.insert name value).get? other = if name = other then some value else m.get? other :=
  findIn_insertIn name other value m.entries

/-! ## Removal -/

/-- Entries without a name. -/
def eraseIn (name : String) : List (String × α) → List (String × α)
  | [] => []
  | (k, v) :: rest => if k = name then eraseIn name rest else (k, v) :: eraseIn name rest

theorem eraseIn_sublist (name : String) (l : List (String × α)) :
    (eraseIn name l).Sublist l := by
  induction l with
  | nil => exact .slnil
  | cons d rest ih =>
    rw [eraseIn]
    split
    · exact ih.cons _
    · exact ih.cons_cons _

/-- The map without a name. -/
def erase (m : NameMap α) (name : String) : NameMap α :=
  ⟨eraseIn name m.entries, m.ascending.sublist (eraseIn_sublist name m.entries)⟩

theorem findIn_eraseIn (name other : String) (l : List (String × α)) :
    findIn other (eraseIn name l) = if name = other then none else findIn other l := by
  induction l with
  | nil => simp [eraseIn, findIn]
  | cons d rest ih =>
    by_cases hd : d.1 = name
    · by_cases ho : name = other <;> simp_all [eraseIn, findIn]
    · by_cases ho : d.1 = other
      · have : name ≠ other := fun h => hd (ho.trans h.symm)
        simp [eraseIn, findIn, ho, this, this.symm]
      · simp [eraseIn, findIn, hd, ho, ih]

/-- Removing a name leaves nothing under it and everything else as it was. -/
theorem get?_erase (m : NameMap α) (name other : String) :
    (m.erase name).get? other = if name = other then none else m.get? other :=
  findIn_eraseIn name other m.entries

end NameMap

end SealedEnvelope
