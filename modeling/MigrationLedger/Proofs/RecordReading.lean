import MigrationLedger.Proofs.InstantReading

/-! Records written and read back. What was read once is written in one form only, and that form
reads as the same record; nothing else that stood in the item is kept. -/

namespace MigrationLedger

theorem Item.withoutRevision_eq_self {item : Item} (h : ∀ a ∈ item, a.1 ≠ revisionAttribute) :
    item.withoutRevision = item :=
  List.filter_eq_self.mpr fun a ha => by simpa using h a ha

namespace Attribute

theorem isValid_of_instant {j : Json} {i : Instant} (h : instant j = .ok i) : i.IsValid := by
  cases j with
  | str s => exact Instant.isValid_of_read (mapError_eq_ok h)
  | _ => cases h

theorem isValid_of_required {item : Item} {key : String} {i : Instant}
    (h : required item key instant = .ok i) : i.IsValid := by
  rw [required] at h
  split at h
  · exact isValid_of_instant h
  · cases h

end Attribute

namespace Entry

/-- The names of the fields, as an item has them. -/
def attributeNames : List String :=
  ["changeId", "executionId", "author", "changeLogClass", "changeSetMethod", "state", "type",
    "timestamp", "executionMillis", "executionHostname", "errorTrace", "systemChange", "metadata"]

variable {e : Entry} {item : Item}

theorem mem_attributeNames {a : String × Json} (h : a ∈ e.toItem) : a.1 ∈ attributeNames := by
  have hmem := Ordered.mem_of_mem_ofList h
  simp only [attributes, List.mem_append, List.mem_cons, List.not_mem_nil, or_false,
    Option.mem_toList, Option.map_eq_some_iff] at hmem
  rcases hmem with ((((((rfl | rfl | rfl | rfl | rfl) | ⟨s, -, rfl⟩) | rfl | rfl | rfl | rfl) |
    ⟨t, -, rfl⟩) | rfl) | ⟨m, -, rfl⟩) <;> simp [attributeNames]

theorem ne_revision_of_mem_toItem {a : String × Json} (h : a ∈ e.toItem) :
    a.1 ≠ revisionAttribute :=
  ne_revisionAttribute (Ordered.mem_of_mem_ofList h)

/-- The count of writes beside a record does not matter, nor whether there is one. -/
theorem ofItem_insertKey_toItem (value : Json) :
    ofItem (insertKey revisionAttribute value e.toItem) = ofItem e.toItem := by
  have hnames : ∀ a ∈ e.toItem, a.1 ≠ revisionAttribute := fun a => ne_revision_of_mem_toItem
  simp only [ofItem, Item.withoutRevision_insertKey hnames, Item.withoutRevision_eq_self hnames]

/-- A record that was read has a time of the clock, and no metadata that counts as absent. -/
theorem canonical_of_ofItem (h : ofItem item = .ok e) :
    e.timestamp.IsValid ∧ e.canonical = e := by
  have hd := mapError_eq_ok h
  rw [decode] at hd
  obtain ⟨_, -, hd⟩ := bind_eq_ok hd
  iterate 7 obtain ⟨_, -, hd⟩ := bind_eq_ok hd
  obtain ⟨timestamp, htimestamp, hd⟩ := bind_eq_ok hd
  iterate 4 obtain ⟨_, -, hd⟩ := bind_eq_ok hd
  obtain ⟨metadata, hmetadata, hd⟩ := bind_eq_ok hd
  cases hd
  rw [Attribute.defaulting_json rfl] at hmetadata
  cases hmetadata
  refine ⟨Attribute.isValid_of_required htimestamp, ?_⟩
  simp [canonical, Option.filter_filter]

theorem ofItem_toItem_of_ofItem (h : ofItem item = .ok e) : ofItem e.toItem = .ok e := by
  obtain ⟨hvalid, hcanonical⟩ := canonical_of_ofItem h
  rw [← ofItem_insertKey_toItem .null, ofItem_toItem hvalid, hcanonical]

end Entry

namespace Lease

/-- The names of the fields, as an item has them. -/
def attributeNames : List String := ["key", "status", "owner", "expiresAt"]

variable {l : Lease} {item : Item}

theorem mem_attributeNames {a : String × Json} (h : a ∈ l.toItem) : a.1 ∈ attributeNames := by
  have hmem := Ordered.mem_of_mem_ofList h
  simp only [attributes, List.mem_cons, List.not_mem_nil, or_false] at hmem
  rcases hmem with rfl | rfl | rfl | rfl <;> simp [attributeNames]

theorem ofItem_insertKey_toItem (value : Json) :
    ofItem (insertKey revisionAttribute value l.toItem) = ofItem l.toItem := by
  simp only [ofItem, Item.withoutRevision_insertKey ne_revisionAttribute,
    Item.withoutRevision_eq_self ne_revisionAttribute]

theorem isValid_of_ofItem (h : ofItem item = .ok l) : l.expiresAt.IsValid := by
  have hd := mapError_eq_ok h
  rw [decode] at hd
  iterate 4 obtain ⟨_, -, hd⟩ := bind_eq_ok hd
  obtain ⟨expiry, hexpiry, hd⟩ := bind_eq_ok hd
  cases hd
  exact Attribute.isValid_of_required hexpiry

theorem ofItem_toItem_of_ofItem (h : ofItem item = .ok l) : ofItem l.toItem = .ok l := by
  rw [← ofItem_insertKey_toItem .null, ofItem_toItem (isValid_of_ofItem h)]

end Lease

/-- A record whose time reads back does so as a whole, but for metadata that is null; and a record
that was read, from whatever item, is written without the count of writes and without attributes of
other names, and reads as itself. -/
theorem records_read_back :
    (∀ (e : Entry) (value : Json), Instant.read e.timestamp.text = .ok e.timestamp →
      Entry.ofItem (insertKey revisionAttribute value e.toItem) =
        .ok { e with metadata := e.metadata.filter (!·.isNull) }) ∧
      (∀ (item : Item) (e : Entry), Entry.ofItem item = .ok e →
        Entry.ofItem e.toItem = .ok e ∧
          ∀ a ∈ e.toItem, a.1 ≠ revisionAttribute ∧ a.1 ∈ Entry.attributeNames) ∧
      (∀ (l : Lease) (value : Json), Instant.read l.expiresAt.text = .ok l.expiresAt →
        Lease.ofItem (insertKey revisionAttribute value l.toItem) = .ok l) ∧
      ∀ (item : Item) (l : Lease), Lease.ofItem item = .ok l →
        Lease.ofItem l.toItem = .ok l ∧
          ∀ a ∈ l.toItem, a.1 ≠ revisionAttribute ∧ a.1 ∈ Lease.attributeNames := by
  refine ⟨fun e value hread => ?_, fun item e h => ?_, fun l value hread => ?_, fun item l h => ?_⟩
  · exact Entry.ofItem_toItem (Instant.isValid_of_read hread) value
  · exact ⟨Entry.ofItem_toItem_of_ofItem h,
      fun a ha => ⟨Entry.ne_revision_of_mem_toItem ha, Entry.mem_attributeNames ha⟩⟩
  · exact Lease.ofItem_toItem (Instant.isValid_of_read hread) value
  · exact ⟨Lease.ofItem_toItem_of_ofItem h,
      fun a ha => ⟨Lease.ne_revisionAttribute a ha, Lease.mem_attributeNames ha⟩⟩

/-- Recorded in the leap second at the end of 2016, with metadata that counts as absent. -/
def leapEntry : Entry :=
  { changeId := "create-users", executionId := "run-1", author := "alice", changeLogClass := "Users"
    state := some .rolledBack, timestamp := ⟨1483228799, 1500000000⟩, metadata := some .null }

/-- The same change in other words, with the time of another zone and with an attribute of another
name. -/
def looseItem : Item :=
  [("_revision", .str "seven"), ("author", .str "alice"), ("changeId", .str "create-users"),
    ("changeLogClass", .str "Users"), ("errorTrace", .null), ("executionId", .str "run-1"),
    ("note", .bool true), ("state", .obj [("ROLLED_BACK", .null)]),
    ("timestamp", .str " 2017-1-1 1:59:60.5 +0200")]

theorem records_read_back_of_leap :
    Instant.read leapEntry.timestamp.text = .ok leapEntry.timestamp ∧
      Entry.ofItem (insertKey revisionAttribute (.str "seven") leapEntry.toItem) =
        .ok { leapEntry with metadata := none } ∧
      ∃ e, Entry.ofItem looseItem = .ok e ∧ Entry.ofItem e.toItem = .ok e ∧
        ∀ a ∈ e.toItem, a.1 ≠ revisionAttribute ∧ a.1 ∈ Entry.attributeNames := by
  have hread : Instant.read leapEntry.timestamp.text = .ok leapEntry.timestamp :=
    Instant.read_text (by decide)
  have hloose : (Entry.ofItem looseItem).toOption.isSome = true := by decide +kernel
  obtain ⟨e, he⟩ := Option.isSome_iff_exists.mp hloose
  have hitem : Entry.ofItem looseItem = .ok e := toOption_eq_some.mp he
  exact ⟨hread, records_read_back.1 leapEntry (.str "seven") hread, e, hitem,
    records_read_back.2.1 looseItem e hitem⟩

end MigrationLedger
