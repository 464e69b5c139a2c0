import MigrationLedger.Table

/-! A store in memory. A new table may stay in creation for a number of descriptions, and is usable
all the while. -/

namespace MigrationLedger

structure StoredTable where
  description : TableDescription
  /-- How many further descriptions report the table as it was created. -/
  pendingPolls : Nat
  items : Ordered Item
  /-- Every item lies under its own key. -/
  keyed : ∀ key item, items.get? key = some item → description.schema.keyOf item = .ok key

structure Memory where
  tables : Ordered StoredTable := {}
  activationPolls : Nat := 0
  deriving Inhabited

namespace StoredTable

def create (name : String) (schema : KeySchema) (polls : Nat) (now : Instant) : StoredTable where
  description := ⟨name, schema, if polls = 0 then .active else .creating, now⟩
  pendingPolls := polls
  items := {}
  keyed _ _ h := nomatch h

instance : Inhabited StoredTable := ⟨create default default 0 default⟩

/-- Being described counts: a pending poll is used up, and with none left the table is active. -/
def describe (t : StoredTable) : StoredTable :=
  if 0 < t.pendingPolls then { t with pendingPolls := t.pendingPolls - 1 }
  else { t with description := { t.description with status := .active } }

theorem describe_name (t : StoredTable) : t.describe.description.name = t.description.name := by
  rw [describe]
  split <;> rfl

theorem items_describe (t : StoredTable) : t.describe.items = t.items := by
  rw [describe]
  split <;> rfl

/-- Puts an item under its key, in place of what is there. -/
def insert (t : StoredTable) (key : String) (item : Item)
    (h : t.description.schema.keyOf item = .ok key) : StoredTable where
  description := t.description
  pendingPolls := t.pendingPolls
  items := t.items.insert key item
  keyed other old hold := by
    by_cases hne : other = key
    · subst hne
      rw [Ordered.get?_insert_self] at hold
      exact Option.some.inj hold ▸ h
    · rw [Ordered.get?_insert_of_ne _ hne] at hold
      exact t.keyed other old hold

def put (t : StoredTable) (item : Item) (condition : Option Condition) :
    Except StoreFault StoredTable :=
  match h : t.description.schema.keyOf item with
  | .error fault => .error fault
  | .ok key =>
    if condition.all (·.holds (t.items.get? key)) then .ok (t.insert key item h)
    else .error .unmet

theorem put_of_keyOf {t : StoredTable} {item : Item} {key : String}
    (h : t.description.schema.keyOf item = .ok key) (condition : Option Condition) :
    t.put item condition =
      if condition.all (·.holds (t.items.get? key)) then .ok (t.insert key item h)
      else .error .unmet := by
  rw [put]
  split
  · next heq => cases heq.symm.trans h
  · next heq =>
    cases heq.symm.trans h
    rfl

theorem put_of_keyOf_error {t : StoredTable} {item : Item} {fault : StoreFault}
    (h : t.description.schema.keyOf item = .error fault) (condition : Option Condition) :
    t.put item condition = .error fault := by
  rw [put]
  split
  · next heq =>
    cases heq.symm.trans h
    rfl
  · next heq => cases heq.symm.trans h

theorem put_eq_ok {t t' : StoredTable} {item : Item} {condition : Option Condition}
    (h : t.put item condition = .ok t') :
    ∃ (key : String) (hkey : t.description.schema.keyOf item = .ok key),
      condition.all (·.holds (t.items.get? key)) = true ∧ t' = t.insert key item hkey := by
  rw [put] at h
  split at h
  · cases h
  · next key hkey =>
    split at h
    · next hholds =>
      cases h
      exact ⟨key, hkey, hholds, rfl⟩
    · cases h

/-- At least one item, when one is left after the cursor. -/
def page (t : StoredTable) (cursor : Option String) (limit : Nat) : Page :=
  let rest := t.items.after cursor
  let here := rest.take (max limit 1)
  ⟨here.map (·.2), if (rest.drop (max limit 1)).isEmpty then none else here.getLast?.map (·.1)⟩

end StoredTable

namespace Memory

def setTable (m : Memory) (name : String) (t : StoredTable) : Memory :=
  { m with tables := m.tables.insert name t }

def onTable {α : Type} (m : Memory) (table : String)
    (act : StoredTable → Except StoreFault (α × Memory)) : Except StoreFault α × Memory :=
  match m.tables.get? table with
  | none => (.error (.missingTable table), m)
  | some t =>
    match act t with
    | .error fault => (.error fault, m)
    | .ok (a, m) => (.ok a, m)

/-- Does what a call asks, at the time `now`. -/
def perform (now : Instant) (m : Memory) : (c : Call) → Answer c × Memory
  | .tableExists table => (.ok (m.tables.contains table), m)
  | .createTable table schema =>
    if m.tables.contains table then (.error (.tableExists table), m)
    else (.ok (), m.setTable table (.create table schema m.activationPolls now))
  | .describeTable table =>
    match m.tables.get? table with
    | none => (.ok none, m)
    | some t => (.ok (some t.describe.description), m.setTable table t.describe)
  | .putItem table item condition =>
    m.onTable table fun t => (t.put item condition).map fun t => ((), m.setTable table t)
  | .getItem table key => m.onTable table fun t => .ok (t.items.get? key, m)
  | .scan table cursor limit => m.onTable table fun t => .ok (t.page cursor limit, m)

/-- Replaces whatever is there by an empty table that is active at once. -/
def createActive (m : Memory) (table : String) (schema : KeySchema) (now : Instant) : Memory :=
  m.setTable table (.create table schema 0 now)

def drop (m : Memory) (table : String) : Memory := { m with tables := m.tables.erase table }

def itemCount (m : Memory) (table : String) : Option Nat := (m.tables.get? table).map (·.items.size)

def item? (m : Memory) (table key : String) : Option Item :=
  (m.tables.get? table).bind (·.items.get? key)

end Memory

end MigrationLedger
