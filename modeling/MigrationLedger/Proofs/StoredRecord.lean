import Mathlib.Data.List.Nodup
import MigrationLedger.Entry
import MigrationLedger.Lease
import MigrationLedger.Proofs.InstantText

/-! Records as items. What is written of an entry or of a lease reads back, whatever count of writes
stands beside it. -/

namespace MigrationLedger

/-- A record that reads back, seen as an option. -/
theorem toOption_eq_some {ε α : Type} {x : Except ε α} {a : α} :
    x.toOption = some a ↔ x = .ok a := by
  cases x <;> simp [Except.toOption]

namespace Ordered

variable {α : Type}

theorem entries_foldl_insert {fields : List (String × α)} {m : Ordered α} {a : String × α}
    (h : a ∈ (fields.foldl (fun m f => m.insert f.1 f.2) m).entries) :
    a ∈ m.entries ∨ a ∈ fields := by
  induction fields generalizing m with
  | nil => exact .inl h
  | cons f rest ih =>
    rcases ih h with h | h
    · rcases mem_insertKey h with rfl | h
      · exact .inr (List.mem_cons_self ..)
      · exact .inl h
    · exact .inr (List.mem_cons_of_mem _ h)

theorem mem_of_mem_ofList {fields : List (String × α)} {a : String × α}
    (h : a ∈ (ofList fields).entries) : a ∈ fields := by
  rcases entries_foldl_insert h with h | h
  · exact absurd h (List.not_mem_nil)
  · exact h

theorem get?_foldl_insert {fields : List (String × α)} (h : (fields.map (·.1)).Nodup)
    (m : Ordered α) (key : String) :
    (fields.foldl (fun m f => m.insert f.1 f.2) m).get? key =
      (valueAt key fields).or (m.get? key) := by
  induction fields generalizing m with
  | nil => rfl
  | cons f rest ih =>
    obtain ⟨hf, hr⟩ := List.nodup_cons.mp h
    rw [List.foldl_cons, ih hr]
    by_cases hkey : f.1 = key
    · have hrest : valueAt key rest = none := by
        rw [← hkey]
        clear ih h hr hkey
        induction rest with
        | nil => rfl
        | cons g rest ih =>
          simp only [List.map_cons, List.mem_cons, not_or] at hf
          rw [valueAt, if_neg (Ne.symm hf.1), ih hf.2]
      rw [hrest, valueAt, if_pos hkey, ← hkey, get?_insert_self]
      rfl
    · rw [valueAt, if_neg hkey, get?_insert_of_ne _ (Ne.symm hkey)]

theorem get?_ofList {fields : List (String × α)} (h : (fields.map (·.1)).Nodup) (key : String) :
    (ofList fields).get? key = valueAt key fields := by
  rw [ofList, get?_foldl_insert h]
  exact Option.or_none

end Ordered

@[simp] theorem valueAt_append {α : Type} (key : String) (a b : List (String × α)) :
    valueAt key (a ++ b) = (valueAt key a).or (valueAt key b) := by
  induction a with
  | nil => rfl
  | cons f rest ih =>
    by_cases hkey : f.1 = key
    · simp [valueAt, hkey]
    · simp [valueAt, hkey, ih]

/-! ## The count of writes -/

namespace Item

theorem revision_withRevision (item : Item) (n : Nat) : (item.withRevision n).revision = n := by
  rw [revision, withRevision, valueAt_insertKey_self]
  rfl

theorem filter_insertKey (p : String → Bool) {key : String} (hp : p key = false) (value : Json)
    (item : Item) :
    (insertKey key value item).filter (fun a => p a.1) = item.filter fun a => p a.1 := by
  induction item with
  | nil => simp [insertKey, hp]
  | cons f rest ih =>
    obtain ⟨k, v⟩ := f
    rw [insertKey]
    split
    · simp [hp]
    · split
      · next heq => simp [hp, ← heq]
      · simp only [List.filter_cons, ih]

/-- What stands under the count of writes is no part of the record. -/
theorem withoutRevision_insertKey {item : Item} (h : ∀ a ∈ item, a.1 ≠ revisionAttribute)
    (value : Json) : Item.withoutRevision (insertKey revisionAttribute value item) = item := by
  rw [withoutRevision, filter_insertKey (· != revisionAttribute) (by simp)]
  exact List.filter_eq_self.mpr fun a ha => by simpa using h a ha

theorem valueAt_withoutRevision {key : String} (h : key ≠ revisionAttribute) (item : Item) :
    valueAt key item.withoutRevision = valueAt key item := by
  induction item with
  | nil => rfl
  | cons f rest ih =>
    obtain ⟨k, v⟩ := f
    rw [withoutRevision] at ih ⊢
    by_cases hk : k = revisionAttribute
    · simp [valueAt, hk, ih, Ne.symm h]
    · simp [valueAt, hk, ih]

end Item

theorem KeySchema.keyOf_withRevision {s : KeySchema} (h : s.partitionKey ≠ revisionAttribute)
    (item : Item) (n : Nat) : s.keyOf (item.withRevision n) = s.keyOf item := by
  rw [keyOf, keyOf, Item.withRevision, valueAt_insertKey_of_ne h]

theorem KeySchema.keyOf_eq_ok {s : KeySchema} {item : Item} {key : String}
    (h : s.keyOf item = .ok key) : valueAt s.partitionKey item = some (.str key) := by
  rw [keyOf] at h
  split at h
  · cases h
  · cases h
  · next k _ hk =>
    cases h
    obtain ⟨j, hj, hs⟩ := Option.bind_eq_some_iff.mp hk
    cases j <;> simp [Json.asString?] at hs
    rw [hj, hs]

theorem KeySchema.keyOf_of_valueAt {s : KeySchema} {item : Item} {key : String}
    (h : valueAt s.partitionKey item = some (.str key)) (hne : key ≠ "") :
    s.keyOf item = .ok key := by
  rw [keyOf, h]
  simp [Json.asString?]

theorem KeySchema.ne_empty_of_keyOf {s : KeySchema} {item : Item} {key : String}
    (h : s.keyOf item = .ok key) : key ≠ "" := by
  rw [keyOf] at h
  split at h
  · cases h
  · cases h
  · next hne heq =>
    cases h
    rintro rfl
    exact hne rfl

/-! ## Decoding -/

theorem bind_eq_ok {ε α β : Type} {x : Except ε α} {f : α → Except ε β} {b : β}
    (h : (x >>= f) = .ok b) : ∃ a, x = .ok a ∧ f a = .ok b := by
  cases x with
  | error e => cases h
  | ok a => exact ⟨a, rfl, h⟩

theorem mapError_eq_ok {ε ε' α : Type} {x : Except ε α} {f : ε → ε'} {a : α}
    (h : x.mapError f = .ok a) : x = .ok a := by
  cases x with
  | error e => cases h
  | ok b => exact congrArg Except.ok (Except.ok.inj h)

theorem forM_eq_ok {α : Type} {f : α → Except String Unit} {as : List α}
    (h : ∀ a ∈ as, f a = .ok ()) : as.forM f = .ok () := by
  induction as with
  | nil => rfl
  | cons a rest ih =>
    change (f a >>= fun _ => rest.forM f) = .ok ()
    rw [h a (by simp)]
    exact ih fun b hb => h b (by simp [hb])

namespace Attribute

theorem discard_eq_ok {α : Type} {decode : Json → Except String α} {j : Json} {a : α}
    (h : decode j = .ok a) : discard (decode j) = .ok () := by
  rw [h]
  rfl

theorem required_eq {α : Type} {item : Item} {key : String} {j : Json}
    (h : valueAt key item = some j) (decode : Json → Except String α) :
    required item key decode = decode j := by
  rw [required, h]

theorem required_ok {α : Type} {item : Item} {key : String} {j : Json}
    {decode : Json → Except String α} {a : α} (h : valueAt key item = some j)
    (hd : decode j = .ok a) : required item key decode = .ok a := by
  rw [required, h]
  exact hd

theorem defaulting_ok {α : Type} {item : Item} {key : String} {j : Json}
    {decode : Json → Except String α} {a : α} (h : valueAt key item = some j)
    (hd : decode j = .ok a) (absent : α) : defaulting item key decode absent = .ok a := by
  rw [defaulting, h]
  exact hd

theorem defaulting_optional {α : Type} {item : Item} {key : String} {field : Option α}
    {encode : α → Json} {decode : Json → Except String α}
    (h : valueAt key item = field.map encode)
    (hd : ∀ a, optional decode (encode a) = .ok (some a)) :
    defaulting item key (optional decode) none = .ok field := by
  rw [defaulting, h]
  cases field with
  | none => rfl
  | some a => exact hd a

theorem optional_state (s : ChangeState) :
    optional (variant ChangeState.names) (.str s.text) = .ok (some s) := by
  cases s <;> rfl

theorem defaulting_json {item : Item} {key : String} {field : Option Json}
    (h : valueAt key item = field) :
    defaulting item key (optional pure) none = .ok (field.filter (!·.isNull)) := by
  rw [defaulting, h]
  cases field with
  | none => rfl
  | some j => cases j <;> rfl

theorem eq_of_required_text {item : Item} {key value found : String}
    (h : valueAt key item = some (.str value)) (hr : required item key text = .ok found) :
    found = value := by
  rw [required, h] at hr
  exact (Except.ok.inj hr).symm

theorem text_str (s : String) : text (.str s) = .ok s := rfl

theorem natural_ofNat (n : Nat) : natural (.ofNat n) = .ok n := rfl

theorem flag_bool (b : Bool) : flag (.bool b) = .ok b := rfl

theorem named_type (t : ChangeType) : named ChangeType.names t.text = .ok t := by
  cases t <;> rfl

theorem named_status (s : LeaseStatus) : named LeaseStatus.names s.text = .ok s := by
  cases s <;> rfl

theorem instant_text {i : Instant} (h : i.IsValid) : instant (.str i.text) = .ok i := by
  rw [instant, Instant.read_text h]
  rfl

end Attribute

namespace Lease

theorem valueAt_toItem (l : Lease) (key : String) :
    valueAt key l.toItem = valueAt key l.attributes :=
  Ordered.get?_ofList (by simp [attributes]) key

theorem ne_revisionAttribute {l : Lease} : ∀ a ∈ l.toItem, a.1 ≠ revisionAttribute := by
  intro a ha
  have hmem := Ordered.mem_of_mem_ofList ha
  simp only [attributes, List.mem_cons, List.not_mem_nil, or_false] at hmem
  rcases hmem with rfl | rfl | rfl | rfl <;> simp [revisionAttribute]

theorem ofItem_toItem {l : Lease} (h : l.expiresAt.IsValid) (value : Json) :
    ofItem (insertKey revisionAttribute value l.toItem) = .ok l := by
  have hinstant := Attribute.instant_text h
  have hcheck : l.toItem.forM (fun a => checkAttribute a.1 a.2) = .ok () := by
    refine forM_eq_ok fun a ha => ?_
    have hmem := Ordered.mem_of_mem_ofList ha
    simp only [attributes, List.mem_cons, List.not_mem_nil, or_false] at hmem
    rcases hmem with rfl | rfl | rfl | rfl
    · rfl
    · exact Attribute.discard_eq_ok (Attribute.named_status l.status)
    · rfl
    · exact Attribute.discard_eq_ok hinstant
  rw [ofItem, Item.withoutRevision_insertKey ne_revisionAttribute, decode, hcheck]
  rw [Attribute.required_eq (valueAt_toItem l "key"),
    Attribute.required_eq (valueAt_toItem l "status"),
    Attribute.required_eq (valueAt_toItem l "owner"),
    Attribute.required_eq (valueAt_toItem l "expiresAt"), hinstant]
  simp only [Attribute.variant, Attribute.named_status]
  rfl

/-- Owner and status read back whatever end the lease was written with. -/
theorem holder_of_ofItem {l stored : Lease} {value : Json}
    (h : ofItem (insertKey revisionAttribute value l.toItem) = .ok stored) :
    stored.owner = l.owner ∧ stored.status = l.status := by
  have hd := mapError_eq_ok h
  rw [Item.withoutRevision_insertKey ne_revisionAttribute, decode] at hd
  obtain ⟨_, -, hd⟩ := bind_eq_ok hd
  obtain ⟨_, -, hd⟩ := bind_eq_ok hd
  obtain ⟨status, hstatus, hd⟩ := bind_eq_ok hd
  obtain ⟨owner, howner, hd⟩ := bind_eq_ok hd
  obtain ⟨_, -, hd⟩ := bind_eq_ok hd
  cases hd
  rw [Attribute.required_eq (valueAt_toItem l "status")] at hstatus
  have hread : Attribute.named LeaseStatus.names l.status.text = .ok status := hstatus
  refine ⟨Attribute.eq_of_required_text (valueAt_toItem l "owner") howner, ?_⟩
  exact (Except.ok.inj ((Attribute.named_status l.status).symm.trans hread)).symm

theorem key_of_ofItem {item : Item} {key : String} {l : Lease} (hkey : schema.keyOf item = .ok key)
    (h : ofItem item = .ok l) : l.key = key := by
  have hd := mapError_eq_ok h
  rw [decode] at hd
  obtain ⟨_, -, hd⟩ := bind_eq_ok hd
  obtain ⟨found, hfound, hd⟩ := bind_eq_ok hd
  obtain ⟨_, -, hd⟩ := bind_eq_ok hd
  obtain ⟨_, -, hd⟩ := bind_eq_ok hd
  obtain ⟨_, -, hd⟩ := bind_eq_ok hd
  cases hd
  refine Attribute.eq_of_required_text ?_ hfound
  rw [Item.valueAt_withoutRevision (by simp [revisionAttribute])]
  exact KeySchema.keyOf_eq_ok hkey

end Lease

namespace Entry

/-- The entry as it reads back: metadata that is null counts as absent. -/
def canonical (e : Entry) : Entry := { e with metadata := e.metadata.filter (!·.isNull) }

theorem nodup_attributes (e : Entry) : (e.attributes.map (·.1)).Nodup := by
  obtain ⟨_, _, _, _, _, state, _, _, _, _, trace, _, metadata⟩ := e
  cases state <;> cases trace <;> cases metadata <;> simp [attributes]

theorem valueAt_toItem (e : Entry) (key : String) :
    valueAt key e.toItem = valueAt key e.attributes :=
  Ordered.get?_ofList e.nodup_attributes key

theorem ne_revisionAttribute {e : Entry} {a : String × Json} (h : a ∈ e.attributes) :
    a.1 ≠ revisionAttribute := by
  simp only [attributes, List.mem_append, List.mem_cons, List.not_mem_nil, or_false,
    Option.mem_toList, Option.map_eq_some_iff] at h
  rcases h with ((((((rfl | rfl | rfl | rfl | rfl) | ⟨s, -, rfl⟩) | rfl | rfl | rfl | rfl) |
    ⟨t, -, rfl⟩) | rfl) | ⟨m, -, rfl⟩) <;> simp [revisionAttribute]

theorem checkAttribute_eq_ok {e : Entry} (hv : e.timestamp.IsValid) {a : String × Json}
    (h : a ∈ e.attributes) : checkAttribute a.1 a.2 = .ok () := by
  simp only [attributes, List.mem_append, List.mem_cons, List.not_mem_nil, or_false,
    Option.mem_toList, Option.map_eq_some_iff] at h
  rcases h with ((((((rfl | rfl | rfl | rfl | rfl) | ⟨s, -, rfl⟩) | rfl | rfl | rfl | rfl) |
    ⟨t, -, rfl⟩) | rfl) | ⟨m, -, rfl⟩)
  case inl.inl.inl.inl.inr => cases s <;> rfl
  case inl.inl.inl.inr.inl => exact Attribute.discard_eq_ok (Attribute.named_type e.changeType)
  case inl.inl.inl.inr.inr.inl => exact Attribute.discard_eq_ok (Attribute.instant_text hv)
  all_goals rfl

@[simp] theorem valueAt_metadata (key : String) (metadata : Option Json) :
    valueAt key (metadata.map fun m => ("metadata", m)).toList =
      if "metadata" = key then metadata else none := by
  cases metadata with
  | none => simp [valueAt]
  | some m => simp [valueAt]

@[simp] theorem valueAt_toList {α : Type} (key name : String) (field : Option α)
    (encode : α → Json) :
    valueAt key (field.map fun a => (name, encode a)).toList =
      if name = key then field.map encode else none := by
  cases field with
  | none => simp [valueAt]
  | some a => simp [valueAt]

theorem ofItem_toItem {e : Entry} (h : e.timestamp.IsValid) (value : Json) :
    ofItem (insertKey revisionAttribute value e.toItem) = .ok e.canonical := by
  have hnames : ∀ a ∈ e.toItem, a.1 ≠ revisionAttribute :=
    fun a ha => ne_revisionAttribute (Ordered.mem_of_mem_ofList ha)
  have hcheck : e.toItem.forM (fun a => checkAttribute a.1 a.2) = .ok () :=
    forM_eq_ok fun a ha => checkAttribute_eq_ok h (Ordered.mem_of_mem_ofList ha)
  have hstate : valueAt "state" e.toItem = e.state.map fun s => .str s.text := by
    simp [valueAt_toItem, attributes, valueAt]
  have htype : valueAt "type" e.toItem = some (.str e.changeType.text) := by
    simp [valueAt_toItem, attributes, valueAt]
  have htimestamp : valueAt "timestamp" e.toItem = some (.str e.timestamp.text) := by
    simp [valueAt_toItem, attributes, valueAt]
  have hmillis : valueAt "executionMillis" e.toItem = some (.ofNat e.executionMillis) := by
    simp [valueAt_toItem, attributes, valueAt]
  have hhost : valueAt "executionHostname" e.toItem = some (.str e.executionHostname) := by
    simp [valueAt_toItem, attributes, valueAt]
  have htrace : valueAt "errorTrace" e.toItem = e.errorTrace.map .str := by
    simp [valueAt_toItem, attributes, valueAt]
  have hsystem : valueAt "systemChange" e.toItem = some (.bool e.systemChange) := by
    simp [valueAt_toItem, attributes, valueAt]
  have hmetadata : valueAt "metadata" e.toItem = e.metadata := by
    simp [valueAt_toItem, attributes, valueAt]
  rw [ofItem, Item.withoutRevision_insertKey hnames, decode, hcheck]
  rw [Attribute.required_eq (valueAt_toItem e "changeId"),
    Attribute.required_eq (valueAt_toItem e "executionId"),
    Attribute.required_eq (valueAt_toItem e "author"),
    Attribute.required_eq (valueAt_toItem e "changeLogClass"),
    Attribute.defaulting_ok (valueAt_toItem e "changeSetMethod") (Attribute.text_str _),
    Attribute.defaulting_optional hstate Attribute.optional_state,
    Attribute.defaulting_ok htype (Attribute.named_type e.changeType),
    Attribute.required_ok htimestamp (Attribute.instant_text h),
    Attribute.defaulting_ok hmillis (Attribute.natural_ofNat _),
    Attribute.defaulting_ok hhost (Attribute.text_str _),
    Attribute.defaulting_optional htrace fun _ => rfl,
    Attribute.defaulting_ok hsystem (Attribute.flag_bool _), Attribute.defaulting_json hmetadata]
  rfl

theorem changeId_of_ofItem {item : Item} {key : String} {e : Entry}
    (hkey : schema.keyOf item = .ok key) (h : ofItem item = .ok e) : e.changeId = key := by
  have hd := mapError_eq_ok h
  rw [decode] at hd
  obtain ⟨_, -, hd⟩ := bind_eq_ok hd
  obtain ⟨found, hfound, hd⟩ := bind_eq_ok hd
  iterate 12 obtain ⟨_, -, hd⟩ := bind_eq_ok hd
  cases hd
  refine Attribute.eq_of_required_text ?_ hfound
  rw [Item.valueAt_withoutRevision (by simp [revisionAttribute])]
  exact KeySchema.keyOf_eq_ok hkey

end Entry

end MigrationLedger
