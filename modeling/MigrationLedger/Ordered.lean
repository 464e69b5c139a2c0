/-! Association lists kept in the order of their keys. Keys compare by code point, which for
text in UTF-8 is also the order of the bytes. -/

namespace MigrationLedger

variable {α : Type}

/-- Puts `value` under `key`, in the place the order of the keys gives it. -/
def insertKey (key : String) (value : α) : List (String × α) → List (String × α)
  | [] => [(key, value)]
  | (k, v) :: rest =>
    if key < k then (key, value) :: (k, v) :: rest
    else if key = k then (key, value) :: rest
    else (k, v) :: insertKey key value rest

def KeysSorted (fields : List (String × α)) : Prop :=
  fields.Pairwise (fun a b => a.1 < b.1)

theorem mem_insertKey {key : String} {value : α} {a : String × α} {fields : List (String × α)}
    (h : a ∈ insertKey key value fields) : a = (key, value) ∨ a ∈ fields := by
  induction fields with
  | nil => simpa [insertKey] using h
  | cons f rest ih =>
    rw [insertKey] at h
    split at h
    · simpa using h
    · split at h
      · rcases List.mem_cons.mp h with rfl | h
        · exact .inl rfl
        · exact .inr (List.mem_cons_of_mem _ h)
      · rcases List.mem_cons.mp h with rfl | h
        · exact .inr (List.mem_cons_self ..)
        · exact (ih h).imp_right (List.mem_cons_of_mem _)

theorem lt_of_not_lt_of_ne {a b : String} (h : ¬a < b) (hne : a ≠ b) : b < a := by
  by_cases hb : b < a
  · exact hb
  · exact absurd (String.le_antisymm (String.not_lt.mp hb) (String.not_lt.mp h)) hne

theorem keysSorted_insertKey (key : String) (value : α) {fields : List (String × α)}
    (h : KeysSorted fields) : KeysSorted (insertKey key value fields) := by
  induction fields with
  | nil => simp [insertKey, KeysSorted]
  | cons f rest ih =>
    obtain ⟨hf, hr⟩ := List.pairwise_cons.mp h
    rw [insertKey]
    split
    · next hlt =>
      refine List.pairwise_cons.mpr ⟨fun a ha => ?_, h⟩
      rcases List.mem_cons.mp ha with rfl | ha
      · exact hlt
      · exact String.lt_trans hlt (hf a ha)
    · next hlt =>
      split
      · next heq =>
        exact List.pairwise_cons.mpr ⟨fun a ha => heq ▸ hf a ha, hr⟩
      · next hne =>
        refine List.pairwise_cons.mpr ⟨fun a ha => ?_, ih hr⟩
        rcases mem_insertKey ha with rfl | ha
        · exact lt_of_not_lt_of_ne hlt hne
        · exact hf a ha

def valueAt (key : String) : List (String × α) → Option α
  | [] => none
  | (k, v) :: rest => if k = key then some v else valueAt key rest

theorem valueAt_insertKey_self (key : String) (value : α) (fields : List (String × α)) :
    valueAt key (insertKey key value fields) = some value := by
  induction fields with
  | nil => simp [insertKey, valueAt]
  | cons f rest ih =>
    rw [insertKey]
    split
    · simp [valueAt]
    · split
      · simp [valueAt]
      · next hne => simpa [valueAt, Ne.symm hne] using ih

theorem valueAt_insertKey_of_ne {key other : String} (hne : other ≠ key) (value : α)
    (fields : List (String × α)) :
    valueAt other (insertKey key value fields) = valueAt other fields := by
  induction fields with
  | nil => simp [insertKey, valueAt, Ne.symm hne]
  | cons f rest ih =>
    rw [insertKey]
    split
    · simp [valueAt, Ne.symm hne]
    · split
      · next heq => simp [valueAt, ← heq, Ne.symm hne]
      · simp only [valueAt, ih]

/-- An association list whose keys strictly increase. -/
structure Ordered (α : Type) where
  entries : List (String × α)
  sorted : KeysSorted entries

namespace Ordered

def empty : Ordered α := ⟨[], .nil⟩

instance : EmptyCollection (Ordered α) := ⟨empty⟩

instance : Inhabited (Ordered α) := ⟨empty⟩

def get? (m : Ordered α) (key : String) : Option α := valueAt key m.entries

def contains (m : Ordered α) (key : String) : Bool := (m.get? key).isSome

def insert (m : Ordered α) (key : String) (value : α) : Ordered α :=
  ⟨insertKey key value m.entries, keysSorted_insertKey key value m.sorted⟩

def erase (m : Ordered α) (key : String) : Ordered α :=
  ⟨m.entries.filter (·.1 != key), m.sorted.filter _⟩

def size (m : Ordered α) : Nat := m.entries.length

/-- The entries whose keys come after `cursor`; all of them without one. -/
def after (m : Ordered α) : Option String → List (String × α)
  | none => m.entries
  | some key => m.entries.filter (key < ·.1)

def ofList (fields : List (String × α)) : Ordered α :=
  fields.foldl (fun m f => m.insert f.1 f.2) empty

@[simp] theorem get?_insert_self (m : Ordered α) (key : String) (value : α) :
    (m.insert key value).get? key = some value :=
  valueAt_insertKey_self key value m.entries

theorem get?_insert_of_ne (m : Ordered α) {key other : String} (hne : other ≠ key) (value : α) :
    (m.insert key value).get? other = m.get? other :=
  valueAt_insertKey_of_ne hne value m.entries

end Ordered

end MigrationLedger
