import MigrationLedger.Proofs.ScriptRun

/-! Two readings of one count of writes. The store in memory takes the attribute for a natural
number or for zero; the script takes numbers, and texts that write one, as floating point numbers.
Which stored values both take for the same count, and where they part. -/

namespace MigrationLedger

namespace Json

theorem asNat?_outline (j : Json) : j.outline.asNat? = j.asNat? := by
  cases j with
  | num n => cases n <;> rfl
  | _ => rfl

theorem bind_asNat?_of_outline {x y : Option Json} (h : x.map outline = y.map outline) :
    x.bind asNat? = y.bind asNat? := by
  have hbind : ∀ z : Option Json, z.bind asNat? = (z.map outline).bind asNat? := by
    intro z
    cases z with
    | none => rfl
    | some j => exact (asNat?_outline j).symm
  rw [hbind x, hbind y, h]

end Json

namespace Redis.Script

/-- The count of writes that the script finds among the fields of a stored item. -/
def countIn (seen : Item) : Binary64 :=
  ((valueAt revisionAttribute seen).bind number?).getD (.ofNat 0)

/-- The value that a stored item has for the attribute says the same to both, when the count `r` is
demanded. -/
def AgreeAt (r : Nat) : Option Json → Prop
  | some (.num (.nat n)) => (Binary64.ofNat n).sameValue (.ofNat r) = true → n = r
  | some (.num (.below _)) => r ≠ 0
  | some (.num (.float x)) => x.sameValue (.ofNat r) = true ↔ r = 0
  | some (.str s) => ∀ x, numeral? s = some x → (x.sameValue (.ofNat r) = true ↔ r = 0)
  | _ => True

theorem zero_sameValue (r : Nat) : (Binary64.ofNat 0).sameValue (.ofNat r) = true ↔ 0 = r :=
  Binary64.sameValue_ofNat_of_lt (Nat.two_pow_pos 53) r

/-- Counts below 53 bits are safe. -/
theorem agreeAt_of_lt {n : Nat} (h : n < Nat.pow 2 53) (r : Nat) : AgreeAt r (some (.ofNat n)) :=
  (Binary64.sameValue_ofNat_of_lt h r).mp

theorem agreeAt_iff (r : Nat) (value : Option Json) :
    (((value.bind number?).getD (.ofNat 0)).sameValue (.ofNat r) = true ↔
      (value.bind Json.asNat?).getD 0 = r) ↔ AgreeAt r value := by
  -- where nothing is counted, both take zero
  have huncounted : ∀ v : Option Json, v.bind number? = none → v.bind Json.asNat? = none →
      AgreeAt r v → ((((v.bind number?).getD (.ofNat 0)).sameValue (.ofNat r) = true ↔
        (v.bind Json.asNat?).getD 0 = r) ↔ AgreeAt r v) := by
    intro v hnumber hnat hagree
    rw [hnumber, hnat, Option.getD_none, Option.getD_none]
    exact iff_of_true (zero_sameValue r) hagree
  cases value with
  | none => exact huncounted _ rfl rfl trivial
  | some j =>
    cases j with
    | num n =>
      rw [Option.bind_some, Option.bind_some]
      cases n with
      | nat n =>
        rw [number?, Json.asNat?, Option.getD_some, Option.getD_some, AgreeAt]
        refine ⟨fun h => h.mp, fun h => ⟨h, ?_⟩⟩
        rintro rfl
        exact Binary64.sameValue_self _
      | below n =>
        rw [number?, Json.asNat?, Option.getD_some, Option.getD_none, AgreeAt,
          Binary64.not_sameValue_negative (Nat.succ_ne_zero n) r]
        · simp [eq_comm]
        · exact nofun
      | float x =>
        rw [number?, Json.asNat?, Option.getD_some, Option.getD_none, AgreeAt, @eq_comm _ 0 r]
        exact nofun
    | str s =>
      rw [Option.bind_some, Option.bind_some, number?, Json.asNat?, Option.getD_none, AgreeAt,
        @eq_comm _ 0 r]
      · cases numeral? s with
        | none =>
          rw [Option.getD_none, zero_sameValue]
          exact iff_of_true eq_comm nofun
        | some x =>
          rw [Option.getD_some]
          exact ⟨fun h y hy => Option.some.inj hy ▸ h, fun h => h x rfl⟩
      · exact nofun
    | _ => exact huncounted _ rfl rfl trivial

/-- A put of `payload` under `key`, where `text` is stored. -/
structure Overwrites (keys : Ordered String) (place payload stem key text : String) : Prop where
  described : ∃ (d : TableDescription) (fields : Item), keys.get? place = some d.json.compact ∧
    decode payload = some (.obj fields) ∧ valueAt d.schema.partitionKey fields = some (.str key)
  named : key ≠ ""
  stored : keys.get? (stem ++ key) = some text

def Accepts (keys : Ordered String) (place payload stem key given : String) : Prop :=
  run keys place payload stem given = some (written stem key payload)

variable {keys : Ordered String} {place payload stem key text : String} {seen item : Item} {r : Nat}

theorem run_revision (h : Overwrites keys place payload stem key text)
    (hdecode : decode text = some (.obj seen)) (hr : r ≤ Json.greatestWord) :
    run keys place payload stem (Condition.revision r).json.compact =
      if (countIn seen).sameValue (.ofNat r) then some (written stem key payload)
      else if (countIn seen).isFinite then some (failed "condition_failed") else none := by
  obtain ⟨d, fields, hd, hpayload, hkey⟩ := h.described
  have hcount : revisionOf? (.obj seen) = some (countIn seen) := rfl
  have hgiven : (Condition.revision r).json.compact ≠ "" := compact_ne_empty _
  have hword : (Condition.revision r).IsWord := hr
  rw [run_addressed hd hpayload hkey h.named, if_neg hgiven, decode_condition hword,
    Option.bind_some, h.stored, refusal?_revision hdecode hcount]
  split
  · rfl
  · split
    · rfl
    · rfl

theorem accepts_iff (h : Overwrites keys place payload stem key text)
    (hdecode : decode text = some (.obj seen)) (hr : r ≤ Json.greatestWord) :
    Accepts keys place payload stem key (Condition.revision r).json.compact ↔
      (countIn seen).sameValue (.ofNat r) = true := by
  have hfailed : some (failed "condition_failed") ≠ some (written stem key payload) := by
    simp [failed, written]
  rw [Accepts, run_revision h hdecode hr]
  split
  · next hsame => exact iff_of_true rfl hsame
  · next hsame =>
    refine iff_of_false ?_ hsame
    split
    · exact hfailed
    · rintro ⟨⟩

/-- What a client can read as an item, the script reads as the same item, but for floating point
numbers. -/
theorem decode_of_read (hread : Json.read text = some (.obj item)) :
    ∃ seen, decode text = some (.obj seen) ∧
      ∀ name, (valueAt name seen).map Json.outline = (valueAt name item).map Json.outline := by
  have hdepth : Json.nestingLimit ≤ nestingLimit := by decide
  obtain ⟨j, hj, hsame⟩ := Json.readWith_exact hdepth hread
  cases j with
  | obj seen =>
    refine ⟨seen, hj, Json.outline_valueAt ?_⟩
    rw [Json.outline, Json.outline] at hsame
    exact Json.obj.inj hsame
  | num n => cases n <;> cases hsame
  | _ => cases hsame

/-- The script and the store in memory decide alike on a demanded count exactly if the stored value
says the same to both. In particular a put that demands the count that was read goes through exactly
then. -/
theorem accepts_alike_iff (h : Overwrites keys place payload stem key text)
    (hread : Json.read text = some (.obj item)) (hr : r ≤ Json.greatestWord) :
    ∃ seen, decode text = some (.obj seen) ∧
      (∀ name, (valueAt name seen).map Json.outline = (valueAt name item).map Json.outline) ∧
      ((Accepts keys place payload stem key (Condition.revision r).json.compact ↔
          (Condition.revision r).holds (some item) = true) ↔
        AgreeAt r (valueAt revisionAttribute seen)) ∧
      (item.revision = r →
        (Accepts keys place payload stem key (Condition.revision r).json.compact ↔
        AgreeAt r (valueAt revisionAttribute seen))) := by
  obtain ⟨seen, hdecode, hsame⟩ := decode_of_read hread
  have hholds : (Condition.revision r).holds (some item) = true ↔
      ((valueAt revisionAttribute seen).bind Json.asNat?).getD 0 = r := by
    rw [Json.bind_asNat?_of_outline (hsame revisionAttribute)]
    exact decide_eq_true_iff
  have halike : (Accepts keys place payload stem key (Condition.revision r).json.compact ↔
      (Condition.revision r).holds (some item) = true) ↔
        AgreeAt r (valueAt revisionAttribute seen) := by
    rw [accepts_iff h hdecode hr, hholds]
    exact agreeAt_iff r _
  refine ⟨seen, hdecode, hsame, halike, fun hrevision => ?_⟩
  have htrue : (Condition.revision r).holds (some item) = true := decide_eq_true hrevision
  rw [← halike, iff_true_right htrue]

/-! ## Values on which the two part -/

def shelved (revision : Json) : Item := [("_revision", revision), ("lockKey", .str "a")]

def shelf (revision : Json) : Ordered String :=
  let description : TableDescription := ⟨"locks", ⟨"lockKey", .text⟩, .active, ⟨0, 0⟩⟩
  (({} : Ordered String).insert "table" description.json.compact).insert "item:a"
    (Json.obj (shelved revision)).compact

theorem readWith_shelved {revision : Json} (hnormal : revision.normal = revision)
    (hplain : ∀ depth, revision.isPlain depth = true) (how : Json.Rounding) (depth : Nat) :
    Json.readWith how (depth + 2) (Json.obj (shelved revision)).compact =
      some (.obj (shelved revision)) := by
  have hread : (Json.obj (shelved revision)).isPlain (depth + 2) = true := by
    simp [shelved, Json.isPlain, Json.fieldsPlain, hplain]
  have horder : ¬"lockKey" < "_revision" := by decide
  have hsame : (Json.obj (shelved revision)).normal = .obj (shelved revision) := by
    simp only [shelved, Json.normal, Json.normalFields, insertKey, hnormal, horder, if_false]
    rfl
  rw [Json.readWith_compact how hread, hsame]

theorem overwrites_shelf {revision : Json} (hnormal : revision.normal = revision)
    (hplain : ∀ depth, revision.isPlain depth = true) :
    Overwrites (shelf revision) "table" (Json.obj (shelved revision)).compact "item:" "a"
      (Json.obj (shelved revision)).compact := by
  refine ⟨⟨⟨"locks", ⟨"lockKey", .text⟩, .active, ⟨0, 0⟩⟩, shelved revision, ?_, ?_, rfl⟩,
    by decide,
    Ordered.get?_insert_self ..⟩
  · have hne : "table" ≠ "item:a" := by decide
    rw [shelf, Ordered.get?_insert_of_ne _ hne, Ordered.get?_insert_self]
  · exact readWith_shelved hnormal hplain .exact 999

theorem accepts_shelf_iff {revision : Json} (hnormal : revision.normal = revision)
    (hplain : ∀ depth, revision.isPlain depth = true) {r : Nat} (hr : r ≤ Json.greatestWord) :
    Accepts (shelf revision) "table" (Json.obj (shelved revision)).compact "item:" "a"
        (Condition.revision r).json.compact ↔
      (countIn (shelved revision)).sameValue (.ofNat r) = true :=
  accepts_iff (overwrites_shelf hnormal hplain) (readWith_shelved hnormal hplain .exact 999) hr

theorem accepts_alike_of_seven :
    Accepts (shelf (.ofNat 7)) "table" (Json.obj (shelved (.ofNat 7))).compact "item:" "a"
        (Condition.revision 7).json.compact ∧
      (Condition.revision 7).holds (some (shelved (.ofNat 7))) = true := by
  have hword : 7 ≤ Json.greatestWord := by decide
  have hplain : ∀ depth, (Json.ofNat 7).isPlain depth = true := by
    intro depth
    simp [Json.ofNat, Json.isPlain, hword]
  have hread := fun how => readWith_shelved rfl hplain how
  obtain ⟨seen, hdecode, -, halike, -⟩ :=
    accepts_alike_iff (overwrites_shelf rfl hplain) (hread .scaled 126) hword
  obtain rfl : shelved (.ofNat 7) = seen :=
    Json.obj.inj (Option.some.inj ((hread .exact 999).symm.trans hdecode))
  have hholds : (Condition.revision 7).holds (some (shelved (.ofNat 7))) = true := by decide
  have hagree : AgreeAt 7 (valueAt revisionAttribute (shelved (.ofNat 7))) :=
    agreeAt_of_lt (by decide) 7
  exact ⟨(halike.mpr hagree).mpr hholds, hholds⟩

/-- The script takes a count above 53 bits for another one and lets the put pass; and it takes a
text for the count that it writes, where the put demands the count zero that a client reads. -/
theorem accepts_unlike :
    (let revision : Json := .ofNat 9007199254740993
      let given := (Condition.revision 9007199254740992).json.compact
      Accepts (shelf revision) "table" (Json.obj (shelved revision)).compact "item:" "a" given ∧
        Json.read (Json.obj (shelved revision)).compact = some (.obj (shelved revision)) ∧
        (Condition.revision 9007199254740992).holds (some (shelved revision)) = false) ∧
    (let revision : Json := .str "5"
      let given := (Condition.revision 0).json.compact
      ¬Accepts (shelf revision) "table" (Json.obj (shelved revision)).compact "item:" "a" given ∧
        Json.read (Json.obj (shelved revision)).compact = some (.obj (shelved revision)) ∧
        (Condition.revision 0).holds (some (shelved revision)) = true) := by
  have hlarge : ∀ depth, (Json.ofNat 9007199254740993).isPlain depth = true := by
    have hword : 9007199254740993 ≤ Json.greatestWord := by decide
    intro depth
    simp [Json.ofNat, Json.isPlain, hword]
  have htext : ∀ depth, (Json.str "5").isPlain depth = true := fun depth => by simp [Json.isPlain]
  refine ⟨⟨?_, readWith_shelved rfl hlarge .scaled 126, by decide⟩,
    ?_, readWith_shelved rfl htext .scaled 126, by decide⟩
  · rw [accepts_shelf_iff rfl hlarge (by decide)]
    decide +kernel
  · rw [accepts_shelf_iff rfl htext (by decide)]
    decide +kernel

end Redis.Script

end MigrationLedger
