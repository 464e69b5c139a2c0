import MigrationLedger.Memory
import MigrationLedger.Proofs.StoredRecord

/-! What the store in memory does for the two calls of an update: a read changes nothing, and a put
changes the record under its own key, if its condition holds. -/

namespace MigrationLedger

namespace Memory

def KeyedBy (m : Memory) (table : String) (schema : KeySchema) : Prop :=
  ∀ t, m.tables.get? table = some t → t.description.schema = schema

/-- The count of writes of what is stored: zero when nothing is. -/
def revisionAt (m : Memory) (table key : String) : Nat :=
  ((m.item? table key).map Item.revision).getD 0

/-- A word of 64 bits has room for `n` more in the count of writes of what is stored. -/
def HasRoom (m : Memory) (table key : String) (n : Nat) : Prop :=
  m.revisionAt table key + n < Nat.pow 2 64

instance (m : Memory) (table key : String) (n : Nat) : Decidable (m.HasRoom table key n) :=
  inferInstanceAs (Decidable (_ < _))

/-- `m'` is `m` with `item` under `key` of `table`. -/
structure Puts (m : Memory) (table key : String) (item : Item) (m' : Memory) : Prop where
  self : m'.item? table key = some item
  others : ∀ t k, t ≠ table ∨ k ≠ key → m'.item? t k = m.item? t k
  keyedBy : ∀ t schema, m.KeyedBy t schema → m'.KeyedBy t schema

theorem keyOf_item? {m : Memory} {table key : String} {schema : KeySchema} {item : Item}
    (hm : m.KeyedBy table schema) (h : m.item? table key = some item) :
    schema.keyOf item = .ok key := by
  rw [item?] at h
  obtain ⟨t, ht, hitem⟩ := Option.bind_eq_some_iff.mp h
  rw [← hm t ht]
  exact t.keyed key item hitem

theorem puts_setTable {m : Memory} {table key : String} {t : StoredTable} {item : Item}
    (ht : m.tables.get? table = some t) (hkey : t.description.schema.keyOf item = .ok key) :
    m.Puts table key item (m.setTable table (t.insert key item hkey)) where
  self := by
    rw [item?, setTable, Ordered.get?_insert_self]
    exact Ordered.get?_insert_self ..
  others name other h := by
    rw [item?, item?, setTable]
    by_cases hname : name = table
    · have hother : other ≠ key := h.resolve_left (not_not_intro hname)
      rw [hname, Ordered.get?_insert_self, ht]
      exact Ordered.get?_insert_of_ne _ hother _
    · rw [Ordered.get?_insert_of_ne _ hname]
  keyedBy name schema h u hu := by
    rw [setTable] at hu
    by_cases hname : name = table
    · rw [hname, Ordered.get?_insert_self] at hu
      rw [← Option.some.inj hu]
      exact h t (hname ▸ ht)
    · rw [Ordered.get?_insert_of_ne _ hname] at hu
      exact h u hu

theorem perform_getItem (m : Memory) (now : Instant) (table key : String) :
    (m.perform now (.getItem table key)).2 = m ∧
      ∀ read, (m.perform now (.getItem table key)).1 = .ok read → read = m.item? table key := by
  rw [perform, onTable, item?]
  cases m.tables.get? table with
  | none =>
    refine ⟨rfl, fun read h => ?_⟩
    cases h
  | some t =>
    refine ⟨rfl, fun read h => ?_⟩
    exact (Except.ok.inj h).symm

theorem perform_getItem_of_table {m : Memory} {table : String} {t : StoredTable}
    (ht : m.tables.get? table = some t) (now : Instant) (key : String) :
    m.perform now (.getItem table key) = (.ok (m.item? table key), m) := by
  rw [perform, onTable, item?, ht]
  rfl

theorem perform_putItem (m : Memory) (now : Instant) (table : String) (item : Item)
    (condition : Condition) :
    (∃ fault, m.perform now (.putItem table item (some condition)) = (.error fault, m)) ∨
      ∃ key m', m.perform now (.putItem table item (some condition)) = (.ok (), m') ∧
        (∀ schema, m.KeyedBy table schema → schema.keyOf item = .ok key) ∧
        condition.holds (m.item? table key) = true ∧ m.Puts table key item m' := by
  rw [perform, onTable]
  cases ht : m.tables.get? table with
  | none => exact .inl ⟨_, rfl⟩
  | some t =>
    dsimp only
    cases hput : t.put item (some condition) with
    | error fault => exact .inl ⟨fault, rfl⟩
    | ok t' =>
      obtain ⟨key, hkey, hholds, rfl⟩ := StoredTable.put_eq_ok hput
      have hitem : m.item? table key = t.items.get? key := by rw [item?, ht]; rfl
      refine .inr ⟨key, _, rfl, fun schema hm => hm t ht ▸ hkey, ?_, puts_setTable ht hkey⟩
      rw [hitem]
      exact hholds

end Memory

end MigrationLedger
