import MigrationLedger.Redis.Store
import MigrationLedger.Proofs.JsonRounding
import MigrationLedger.Proofs.JsonText
import MigrationLedger.Proofs.WholeNumbers

/-! What the script of the server does. On texts that a client wrote it finds the partition value
that the schema finds, and holds the condition against the count of writes, as long as the counts
are exact as floating point numbers. -/

namespace MigrationLedger

namespace Json

theorem asString?_outline (j : Json) : j.outline.asString? = j.asString? := by
  cases j with
  | num n => cases n <;> rfl
  | _ => rfl

theorem outline_ofNat {j : Json} {n : Nat} (h : j.outline = .ofNat n) : j = .ofNat n := by
  cases j with
  | num x =>
    cases x with
    | float x => cases h
    | _ => exact h
  | _ => cases h

theorem bind_asString?_of_outline {x y : Option Json} (h : x.map outline = y.map outline) :
    x.bind asString? = y.bind asString? := by
  have hbind : ∀ z : Option Json, z.bind asString? = (z.map outline).bind asString? := by
    intro z
    cases z with
    | none => rfl
    | some j => exact (asString?_outline j).symm
  rw [hbind x, hbind y, h]

end Json

/-- Compares counts that are exact as floating point numbers. -/
def Condition.IsExact : Condition → Prop
  | absent => True
  | revision n => n < Nat.pow 2 53

/-- Compares counts that a client can ask for. -/
def Condition.IsWord : Condition → Prop
  | absent => True
  | revision n => n ≤ Json.greatestWord

theorem Condition.IsExact.isWord {c : Condition} (h : c.IsExact) : c.IsWord := by
  cases c with
  | absent => trivial
  | revision n => exact Nat.le_trans (Nat.le_of_lt h) (by decide)

theorem KeySchema.keyOf_of_text {s : KeySchema} {item : Item} {key : String}
    (h : (valueAt s.partitionKey item).bind Json.asString? = some key) (hne : key ≠ "") :
    s.keyOf item = .ok key := by
  rw [keyOf, h]
  split
  · next heq => cases heq
  · next heq => exact absurd (Option.some.inj heq) hne
  · next heq => rw [Option.some.inj heq]

theorem KeySchema.keyOf_eq_error {s : KeySchema} {item : Item} {fault : StoreFault}
    (h : s.keyOf item = .error fault) :
    fault = .codec s!"item is missing partition key '{s.partitionKey}'" := by
  rw [keyOf] at h
  split at h
  · exact (Except.error.inj h).symm
  · exact (Except.error.inj h).symm
  · cases h

namespace Redis

/-- What can be stored without loss: the text reads back, and the count of writes, if there is one,
is exact as a floating point number. -/
structure Storable (item : Item) : Prop where
  readsBack : Json.read (Json.obj item).compact = some (.obj item)
  revision : ∀ v, valueAt revisionAttribute item = some v → ∃ n < Nat.pow 2 53, v = .ofNat n

namespace Storable

variable {item : Item}

theorem parseItem_eq (h : Storable item) : parseItem (Json.obj item).compact = .ok item := by
  rw [parseItem, h.readsBack]

/-- The script sees the same item, but for its floating point numbers. -/
theorem decode (h : Storable item) : ∃ fields,
    Script.decode (Json.obj item).compact = some (.obj fields) ∧
      ∀ key, (valueAt key fields).map Json.outline = (valueAt key item).map Json.outline := by
  have hdepth : Json.nestingLimit ≤ Script.nestingLimit := by decide
  obtain ⟨j, hj, hsame⟩ := Json.readWith_exact hdepth h.readsBack
  cases j with
  | obj fields =>
    refine ⟨fields, hj, Json.outline_valueAt ?_⟩
    rw [Json.outline, Json.outline] at hsame
    exact Json.obj.inj hsame
  | num n => cases n <;> cases hsame
  | _ => cases hsame

theorem revision_cases (h : Storable item) :
    valueAt revisionAttribute item = none ∧ item.revision = 0 ∨
      valueAt revisionAttribute item = some (.ofNat item.revision) ∧
        item.revision < Nat.pow 2 53 := by
  rw [Item.revision]
  cases hv : valueAt revisionAttribute item with
  | none => exact .inl ⟨rfl, rfl⟩
  | some v =>
    obtain ⟨n, hn, rfl⟩ := h.revision v hv
    exact .inr ⟨rfl, hn⟩

theorem revision_lt (h : Storable item) : item.revision < Nat.pow 2 53 := by
  rcases h.revision_cases with ⟨-, hzero⟩ | ⟨-, hlt⟩
  · rw [hzero]
    decide
  · exact hlt

theorem revisionOf? (h : Storable item) :
    (Script.decode (Json.obj item).compact).bind Script.revisionOf? =
      some (.ofNat item.revision) := by
  obtain ⟨fields, hfields, hsame⟩ := h.decode
  rw [hfields, Option.bind_some, Script.revisionOf?, Script.field?, Option.map_some]
  have hrevision := hsame revisionAttribute
  rcases h.revision_cases with ⟨hnone, hzero⟩ | ⟨hsome, -⟩
  · rw [hnone, Option.map_none, Option.map_eq_none_iff, revisionAttribute] at hrevision
    rw [hrevision, hzero]
    rfl
  · rw [hsome, Option.map_some] at hrevision
    obtain ⟨v, hv, hout⟩ := Option.map_eq_some_iff.mp hrevision
    rw [revisionAttribute] at hv
    rw [hv, Json.outline_ofNat hout]
    rfl

end Storable

namespace Script

/-! ## The condition -/

theorem isPlain_condition {c : Condition} (h : c.IsWord) (depth : Nat) :
    c.json.isPlain (depth + 2) = true := by
  cases c with
  | absent => simp [Condition.json, Json.isPlain, Json.fieldsPlain]
  | revision n =>
    have hword : n ≤ Json.greatestWord := h
    simp [Condition.json, Json.isPlain, Json.fieldsPlain, Json.ofNat, hword]

theorem decode_condition {c : Condition} (h : c.IsWord) :
    decode c.json.compact = some c.json.normal :=
  Json.readWith_compact .exact (isPlain_condition h _)

/-- The count that is demanded is compared with the count found as floating point numbers. The
answer quotes the number found, so it has to be finite. -/
theorem refusal?_revision {text : String} {stored : Json} {count : Binary64}
    (hdecode : decode text = some stored) (hcount : revisionOf? stored = some count) (n : Nat) :
    refusal? (Condition.revision n).json.normal (some text) =
      if count.sameValue (.ofNat n) then some none
      else if count.isFinite then some (some "condition_failed") else none := by
  have hkind : field? "type" (Condition.revision n).json.normal =
      some (some (.str "revision_equals")) := by
    simp [Condition.json, Json.normal, Json.normalFields, valueAt_insertKey_self,
      valueAt_insertKey_of_ne, field?]
  have hwanted : field? "revision" (Condition.revision n).json.normal =
      some (some (.ofNat n)) := by
    simp [Condition.json, Json.normal, Json.normalFields, valueAt_insertKey_self, Json.ofNat,
      field?]
  rw [refusal?, hkind]
  simp only [Option.bind_eq_bind, Option.bind_some, hdecode, hcount, hwanted]
  rfl

theorem refusal?_condition {c : Condition} (hc : c.IsExact) {existing : Option Item}
    (hstored : ∀ item, existing = some item → Storable item) :
    refusal? c.json.normal (existing.map fun item => (Json.obj item).compact) =
      some (if c.holds existing then none else some "condition_failed") := by
  cases c with
  | absent =>
    cases existing with
    | none => rfl
    | some item => rfl
  | revision n =>
    cases existing with
    | none => rfl
    | some item =>
      have hitem := hstored item rfl
      obtain ⟨stored, hdecode, hfound⟩ := Option.bind_eq_some_iff.mp hitem.revisionOf?
      have hsame := Binary64.sameValue_ofNat hitem.revision_lt hc
      have hfinite := Binary64.isFinite_ofNat hitem.revision_lt
      rw [Option.map_some, refusal?_revision hdecode hfound, if_pos hfinite]
      by_cases heq : item.revision = n
      · rw [if_pos (hsame.mpr heq)]
        simp [Condition.holds, heq]
      · rw [if_neg (mt hsame.mp heq)]
        simp [Condition.holds, heq]

/-! ## The put -/

variable {keys : Ordered String} {place stem : String} {d : TableDescription} {item : Item}
  {existing : String → Option Item} {condition : Option Condition}

theorem isPlain_description (d : TableDescription) (depth : Nat) :
    d.json.isPlain (depth + 3) = true := by
  simp [TableDescription.json, KeySchema.json, Json.isPlain, Json.fieldsPlain]

theorem decode_description (d : TableDescription) : ∃ fields,
    decode d.json.compact = some (.obj fields) ∧
      valueAt "key_schema" fields = some d.schema.json.normal := by
  have hread := Json.readWith_compact .exact (isPlain_description d 998)
  rw [TableDescription.json, Json.normal] at hread
  refine ⟨_, hread, ?_⟩
  simp [Json.normalFields, valueAt_insertKey_self, valueAt_insertKey_of_ne]

theorem partitionKey_schema (schema : KeySchema) :
    field? "partition_key" schema.json.normal = some (some (.str schema.partitionKey)) := by
  simp [KeySchema.json, Json.normal, Json.normalFields, valueAt_insertKey_self,
    valueAt_insertKey_of_ne, field?]

theorem compact_ne_empty (fields : Item) : (Json.obj fields).compact ≠ "" := by
  intro h
  have hlist := congrArg String.toList h
  rw [Json.compact, String.toList_ofList] at hlist
  rcases fields with _ | ⟨⟨k, v⟩, fs⟩ <;> cases hlist

/-- The answer to a put that goes through, and its write. -/
def written (stem key payload : String) : Outcome :=
  ⟨.obj [("ok", .bool true), ("key", .str (stem ++ key))], some (stem ++ key, payload)⟩

/-- A payload that names its key: only the condition decides. -/
theorem run_addressed {payload key : String} {fields : Item}
    (hd : keys.get? place = some d.json.compact) (hpayload : decode payload = some (.obj fields))
    (hkey : valueAt d.schema.partitionKey fields = some (.str key)) (hne : key ≠ "")
    (given : String) :
    run keys place payload stem given =
      (if given = "" then some none
        else (decode given).bind fun c => refusal? c (keys.get? (stem ++ key))).map fun
          | some name => failed name
          | none => written stem key payload := by
  obtain ⟨described, hdescribed, hschema⟩ := decode_description d
  have hobj : ∀ key fs, field? key (.obj fs) = some (valueAt key fs) := fun _ _ => rfl
  rw [run, hd]
  simp only [hdescribed, Option.bind_eq_bind, Option.bind_some, hobj, hschema,
    partitionKey_schema, hpayload, hkey]
  by_cases hgiven : given = ""
  · rw [if_pos hgiven, if_pos hgiven]
    rfl
  · rw [if_neg hgiven, if_neg hgiven]
    cases decode given with
    | none => rfl
    | some c =>
      rw [Option.bind_some, Option.bind_some]
      cases refusal? c (keys.get? (stem ++ key)) with
      | none => rfl
      | some refusal => cases refusal <;> rfl

/-- What the script holds against a put when counts are exact. A put without a condition comes with
an empty text for it. -/
theorem refusal?_given (hcondition : ∀ c, condition = some c → c.IsExact) {found : Option Item}
    (hfound : ∀ item, found = some item → Storable item) :
    (if condition.elim "" (·.json.compact) = "" then some none
      else (decode (condition.elim "" (·.json.compact))).bind fun c =>
        refusal? c (found.map fun item => (Json.obj item).compact)) =
      some (if condition.all (·.holds found) then none else some "condition_failed") := by
  cases condition with
  | none => rfl
  | some c =>
    have hc := hcondition c rfl
    have hgiven : c.json.compact ≠ "" := by
      cases c <;> exact compact_ne_empty _
    rw [Option.elim_some, if_neg hgiven, decode_condition hc.isWord, Option.bind_some,
      refusal?_condition hc hfound, Option.all_some]

/-- What the script answers to a put into a table that exists, and what it writes. -/
def outcome (schema : KeySchema) (stem : String) (item : Item) (existing : String → Option Item)
    (condition : Option Condition) : Outcome :=
  match schema.keyOf item with
  | .error _ => failed "missing_key" [("partition_key", .str schema.partitionKey)]
  | .ok key =>
    if condition.all (·.holds (existing key)) then
      ⟨.obj [("ok", .bool true), ("key", .str (stem ++ key))],
        some (stem ++ key, (Json.obj item).compact)⟩
    else failed "condition_failed"

theorem run_eq (hd : keys.get? place = some d.json.compact) (hitem : Storable item)
    (hkeys : ∀ key, keys.get? (stem ++ key) = (existing key).map fun i => (Json.obj i).compact)
    (hexisting : ∀ key i, existing key = some i → Storable i)
    (hcondition : ∀ c, condition = some c → c.IsExact) :
    run keys place (Json.obj item).compact stem (condition.elim "" (·.json.compact)) =
      some (outcome d.schema stem item existing condition) := by
  obtain ⟨described, hdescribed, hschema⟩ := decode_description d
  obtain ⟨fields, hfields, hsame⟩ := hitem.decode
  have hkey := Json.bind_asString?_of_outline (hsame d.schema.partitionKey)
  by_cases hnamed : ∃ key, valueAt d.schema.partitionKey fields = some (.str key) ∧ key ≠ ""
  · obtain ⟨key, hv, hne⟩ := hnamed
    rw [hv] at hkey
    rw [run_addressed hd hfields hv hne, hkeys key, refusal?_given hcondition (hexisting key),
      outcome, KeySchema.keyOf_of_text hkey.symm hne]
    dsimp only
    by_cases hholds : condition.all (·.holds (existing key)) = true
    · rw [if_pos hholds, if_pos hholds]
      rfl
    · rw [if_neg hholds, if_neg hholds]
      rfl
  · have hobj : ∀ key fs, field? key (.obj fs) = some (valueAt key fs) := fun _ _ => rfl
    rw [run, hd]
    simp only [hdescribed, Option.bind_eq_bind, Option.bind_some, hobj, hschema,
      partitionKey_schema, hfields]
    rw [outcome, KeySchema.keyOf, ← hkey]
    cases hv : valueAt d.schema.partitionKey fields with
    | none => rfl
    | some v =>
      cases v with
      | str key =>
        obtain rfl : key = "" := by
          by_contra hne
          exact hnamed ⟨key, hv, hne⟩
        rfl
      | _ => rfl

end Script

/-! ## The answer -/

theorem putReply_compact (table : String) {reply : Json}
    (h : reply.isPlain Json.nestingLimit = true) :
    putReply table (.bulk reply.compact) = putResult table reply.normal := by
  have hread : Json.read reply.compact = some reply.normal := Json.readWith_compact .scaled h
  rw [putReply, hread]

theorem putReply_failed (table name : String) :
    putReply table (.bulk (Script.failed name).reply.compact) =
      putResult table (Script.failed name).reply := by
  refine (putReply_compact table ?_).trans rfl
  simp [Script.failed, Json.isPlain, Json.fieldsPlain, Json.nestingLimit]

/-- The client learns whether the item has its key, and then whether the condition holds. -/
theorem putReply_outcome (table : String) (schema : KeySchema) (stem : String) (item : Item)
    (existing : String → Option Item) (condition : Option Condition) :
    putReply table (.bulk (Script.outcome schema stem item existing condition).reply.compact) =
      (schema.keyOf item).bind fun key =>
        if condition.all (·.holds (existing key)) then .ok () else .error .unmet := by
  rw [Script.outcome]
  cases hkey : schema.keyOf item with
  | error fault =>
    rw [KeySchema.keyOf_eq_error hkey]
    dsimp only
    rw [putReply_compact]
    · simp [Script.failed, Json.normal, Json.normalFields, valueAt_insertKey_self,
        valueAt_insertKey_of_ne, putResult, Json.get?, Json.fields, Json.asString?, Except.bind]
    · simp [Script.failed, Json.isPlain, Json.fieldsPlain, Json.nestingLimit]
  | ok key =>
    dsimp only [Except.bind]
    split
    · rw [putReply_compact]
      · simp [Json.normal, Json.normalFields, valueAt_insertKey_of_ne, putResult, Json.get?,
          Json.fields, valueAt]
      · simp [Json.isPlain, Json.fieldsPlain, Json.nestingLimit]
    · exact putReply_failed table "condition_failed"

end Redis

end MigrationLedger
