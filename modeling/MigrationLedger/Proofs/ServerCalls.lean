import Mathlib.Data.List.ReduceOption
import MigrationLedger.Proofs.InstantText
import MigrationLedger.Proofs.RedisKeys
import MigrationLedger.Proofs.ScriptRun

/-! What the store on a Redis server does for each call, as long as the server carries out every
command. -/

namespace MigrationLedger.Redis

/-- The server spoils nothing, goes through its keys as before, and now holds these. -/
structure Server.Goes (s : Server) (keys : Ordered String) (s' : Server) : Prop where
  keys : s'.keys = keys
  quiet : s'.faults = []
  walk : s'.walk = s.walk

namespace Server

variable {s s' s'' : Server} {keys keys' : Ordered String}

theorem Goes.trans (h : s.Goes keys s') (h' : s'.Goes keys' s'') : s.Goes keys' s'' :=
  ⟨h'.keys, h'.quiet, h'.walk.trans h.walk⟩

/-- A command is noted, carried out, and its reply noted. -/
theorem send_quiet (h : s.faults = []) (c : Command) :
    s.send c = (({ s with log := c :: s.log }.execute c).1,
      ({ s with log := c :: s.log }.execute c).2.note
        ({ s with log := c :: s.log }.execute c).1) := by
  rw [send, receive, h]
  rfl

theorem goes_note (h : s.faults = []) (reply : Reply) (c : Command) :
    s.Goes s.keys ({ s with log := c :: s.log }.note reply) := by
  cases reply <;> exact ⟨rfl, h, rfl⟩

theorem send_exists (h : s.faults = []) (key : String) :
    ∃ s', s.send (.exists key) = (.integer (if s.keys.contains key then 1 else 0), s') ∧
      s.Goes s.keys s' := by
  rw [send_quiet h]
  exact ⟨_, rfl, goes_note h _ _⟩

theorem send_get (h : s.faults = []) (key : String) :
    ∃ s', s.send (.get key) = ((s.keys.get? key).elim .nil .bulk, s') ∧ s.Goes s.keys s' := by
  rw [send_quiet h]
  exact ⟨_, rfl, goes_note h _ _⟩

theorem send_mget (h : s.faults = []) (keys : List String) :
    ∃ s', s.send (.mget keys) = (.texts (keys.map s.keys.get?), s') ∧ s.Goes s.keys s' := by
  rw [send_quiet h]
  exact ⟨_, rfl, goes_note h _ _⟩

theorem send_scan (h : s.faults = []) (cursor : Nat) (pattern : String) (count : Nat) :
    ∃ s' log, s.send (.scan cursor pattern count) =
        (.page (s.walk log s.keys cursor count).1
          ((s.walk log s.keys cursor count).2.filter (matchesPattern pattern)), s') ∧
      s.Goes s.keys s' := by
  rw [send_quiet h]
  exact ⟨_, .scan cursor pattern count :: s.log, rfl, goes_note h _ _⟩

theorem send_setNew (h : s.faults = []) (key value : String) :
    ∃ s', s.send (.setNew key value) = (if s.keys.contains key then .nil else .status, s') ∧
      s.Goes (if s.keys.contains key then s.keys else s.keys.insert key value) s' := by
  rw [send_quiet h, execute]
  by_cases hkey : s.keys.contains key = true
  · simp only [hkey, if_true]
    exact ⟨_, rfl, rfl, h, rfl⟩
  · simp only [hkey]
    exact ⟨_, rfl, rfl, h, rfl⟩

theorem send_loadScript (h : s.faults = []) :
    ∃ s', s.send .loadScript = (.status, s') ∧ s.Goes s.keys s' ∧ s'.scriptLoaded = true := by
  rw [send_quiet h]
  exact ⟨_, rfl, ⟨rfl, h, rfl⟩, rfl⟩

section Evaluate

variable {place payload stem condition : String} {outcome : Script.Outcome}

theorem send_evaluate_unknown (h : s.faults = []) (hloaded : s.scriptLoaded = false) :
    ∃ s', s.send (.evaluate place payload stem condition) = (.error missingScript, s') ∧
      s.Goes s.keys s' := by
  rw [send_quiet h, execute, hloaded]
  exact ⟨_, rfl, rfl, h, rfl⟩

theorem send_evaluate (h : s.faults = []) (hloaded : s.scriptLoaded = true)
    (hrun : Script.run s.keys place payload stem condition = some outcome) :
    ∃ s', s.send (.evaluate place payload stem condition) = (.bulk outcome.reply.compact, s') ∧
      s.Goes (outcome.write.elim s.keys fun w => s.keys.insert w.1 w.2) s' := by
  rw [send_quiet h, execute]
  simp only [hloaded, Bool.not_true, Bool.false_eq_true, if_false, hrun]
  refine ⟨_, rfl, ?_⟩
  cases outcome.write with
  | none => exact ⟨rfl, h, rfl⟩
  | some w => exact ⟨rfl, h, rfl⟩

/-- The script runs whether the server knew it or has to be given it. -/
theorem invoke_evaluate (h : s.faults = [])
    (hrun : Script.run s.keys place payload stem condition = some outcome) :
    ∃ s', invoke s (.evaluate place payload stem condition) = (.bulk outcome.reply.compact, s') ∧
      s.Goes (outcome.write.elim s.keys fun w => s.keys.insert w.1 w.2) s' := by
  cases hloaded : s.scriptLoaded with
  | true =>
    obtain ⟨s₁, hsend, hgoes⟩ := send_evaluate h hloaded hrun
    refine ⟨s₁, ?_, hgoes⟩
    rw [invoke, hsend]
  | false =>
    obtain ⟨s₁, hsend₁, hgoes₁⟩ := send_evaluate_unknown h hloaded
    obtain ⟨s₂, hsend₂, hgoes₂, hloaded₂⟩ := send_loadScript hgoes₁.quiet
    have hkeys : s₂.keys = s.keys := hgoes₂.keys.trans hgoes₁.keys
    rw [← hkeys] at hrun
    obtain ⟨s₃, hsend₃, hgoes₃⟩ := send_evaluate hgoes₂.quiet hloaded₂ hrun
    have hword : firstWord missingScript = "NOSCRIPT" := by decide
    refine ⟨s₃, ?_, ?_⟩
    · rw [invoke, hsend₁]
      simp only [hword, if_true, hsend₂, hsend₃]
    · rw [← hkeys]
      exact (hgoes₁.trans hgoes₂).trans hgoes₃

end Evaluate

theorem queue_quiet (h : s.faults = []) (cs : List Command) :
    ∃ s', s.queue cs = (List.replicate cs.length .status, s') ∧ s.Goes s.keys s' := by
  induction cs generalizing s with
  | nil => exact ⟨s, rfl, rfl, h, rfl⟩
  | cons c cs ih =>
    have hreceive : s.receive c (fun s => (.status, s)) =
        (.status, { s with log := c :: s.log }) := by
      rw [receive, h]
      rfl
    obtain ⟨s', hqueue, hgoes⟩ := @ih { s with log := c :: s.log } h
    refine ⟨s', ?_, hgoes.keys, hgoes.quiet, hgoes.walk⟩
    rw [queue, hreceive]
    simp only [hqueue]
    rfl

theorem transact_quiet (h : s.faults = []) (cs : List Command) :
    ∃ s', transact s cs = (.ok (s'.answers cs), s') ∧ s.Goes s.keys s' := by
  obtain ⟨s', hqueue, hgoes⟩ := queue_quiet h (.multi :: cs)
  have hreceive : s'.receive .exec (fun s => (.status, s)) =
      (.status, { s' with log := .exec :: s'.log }) := by
    rw [receive, hgoes.quiet]
    rfl
  refine ⟨{ s' with log := .exec :: s'.log }, ?_, hgoes.keys, hgoes.quiet, hgoes.walk⟩
  rw [transact, hqueue]
  simp [hreceive]

end Server

/-! ## The calls -/

theorem parseDescription_compact {d : TableDescription} (h : d.createdAt.IsValid) (table : String) :
    parseDescription table d.json.compact = .ok d := by
  have hread : Json.read d.json.compact = some d.json.normal :=
    Json.readWith_compact .scaled (Script.isPlain_description d _)
  have hdecode : decodeDescription? d.json.normal = some d := by
    obtain ⟨name, ⟨key, type⟩, status, createdAt⟩ := d
    have hinstant : Attribute.instant (.str createdAt.text) = .ok createdAt := by
      rw [Attribute.instant, Instant.read_text h]
      rfl
    have htype : Attribute.variant ([AttributeType.text, .number].map fun t => (t.code, t))
        (.str type.code) = .ok type := by
      cases type <;> rfl
    have hstatus : Attribute.variant ([TableStatus.creating, .active].map fun t => (t.code, t))
        (.str status.code) = .ok status := by
      cases status <;> rfl
    rw [List.map_cons, List.map_cons, List.map_nil] at htype hstatus
    simp [TableDescription.json, KeySchema.json, Json.normal, Json.normalFields,
      valueAt_insertKey_self, valueAt_insertKey_of_ne, decodeDescription?, decodeSchema?,
      fieldsOf?, Json.asString?, hinstant, htype, hstatus, Except.toOption]
  rw [parseDescription, hread, Option.bind_some, hdecode]

theorem textOf_elim (text : Option String) : textOf (text.elim .nil .bulk) = .ok text := by
  cases text <;> rfl

theorem flagOf_integer (found : Bool) : flagOf (.integer (if found then 1 else 0)) = .ok found := by
  cases found <;> rfl

variable {s : Server} (space table : String) (now : Instant)

theorem perform_tableExists (h : s.faults = []) :
    ∃ s', perform space now s (.tableExists table) =
        (.ok (s.keys.contains (tableKey space table)), s') ∧ s.Goes s.keys s' := by
  obtain ⟨s', hsend, hgoes⟩ := Server.send_exists h (tableKey space table)
  refine ⟨s', ?_, hgoes⟩
  rw [perform, hsend]
  simp only [flagOf_integer]

theorem perform_createTable (h : s.faults = []) (schema : KeySchema) :
    ∃ s', perform space now s (.createTable table schema) =
        (if s.keys.contains (tableKey space table) then .error (.tableExists table) else .ok (),
          s') ∧
      s.Goes (if s.keys.contains (tableKey space table) then s.keys
        else s.keys.insert (tableKey space table)
          (TableDescription.json ⟨table, schema, .active, now⟩).compact) s' := by
  obtain ⟨s', hsend, hgoes⟩ := Server.send_setNew h (tableKey space table)
    (TableDescription.json ⟨table, schema, .active, now⟩).compact
  refine ⟨s', ?_, hgoes⟩
  rw [perform]
  simp only [hsend]
  cases s.keys.contains (tableKey space table) <;> rfl

theorem perform_describeTable (h : s.faults = []) :
    ∃ s', perform space now s (.describeTable table) =
        ((s.keys.get? (tableKey space table)).mapM (parseDescription table), s') ∧
      s.Goes s.keys s' := by
  obtain ⟨s', hsend, hgoes⟩ := Server.send_get h (tableKey space table)
  refine ⟨s', ?_, hgoes⟩
  rw [perform]
  simp only [hsend, textOf_elim]
  rfl

theorem perform_putItem_missing (h : s.faults = [])
    (hmissing : s.keys.get? (tableKey space table) = none) (item : Item)
    (condition : Option Condition) :
    ∃ s', perform space now s (.putItem table item condition) =
        (.error (.missingTable table), s') ∧ s.Goes s.keys s' := by
  have hrun : Script.run s.keys (tableKey space table) (Json.obj item).compact
      (itemStem space table) (condition.elim "" (·.json.compact)) =
      some (Script.failed "table_not_found") := by
    rw [Script.run, hmissing]
  obtain ⟨s', hinvoke, hgoes⟩ := Server.invoke_evaluate h hrun
  refine ⟨s', ?_, hgoes⟩
  rw [perform]
  simp only [hinvoke, putReply_failed]
  rfl

theorem perform_putItem (h : s.faults = []) {d : TableDescription} {item : Item}
    {existing : String → Option Item} {condition : Option Condition}
    (hd : s.keys.get? (tableKey space table) = some d.json.compact) (hitem : Storable item)
    (hkeys : ∀ key, s.keys.get? (itemKey space table key) =
      (existing key).map fun i => (Json.obj i).compact)
    (hexisting : ∀ key i, existing key = some i → Storable i)
    (hcondition : ∀ c, condition = some c → c.IsExact) :
    ∃ s', perform space now s (.putItem table item condition) =
        ((d.schema.keyOf item).bind fun key =>
          if condition.all (·.holds (existing key)) then .ok () else .error .unmet, s') ∧
      s.Goes (match d.schema.keyOf item with
        | .error _ => s.keys
        | .ok key =>
          if condition.all (·.holds (existing key)) then
            s.keys.insert (itemKey space table key) (Json.obj item).compact
          else s.keys) s' := by
  have hrun := Script.run_eq hd hitem hkeys hexisting hcondition
  obtain ⟨s', hinvoke, hgoes⟩ := Server.invoke_evaluate h hrun
  refine ⟨s', ?_, ?_⟩
  · rw [perform]
    simp only [hinvoke, putReply_outcome]
  · rw [Script.outcome] at hgoes
    cases hkey : d.schema.keyOf item with
    | error fault =>
      rw [hkey] at hgoes
      exact hgoes
    | ok key =>
      rw [hkey] at hgoes
      dsimp only at hgoes ⊢
      by_cases hholds : condition.all (·.holds (existing key)) = true
      · rw [if_pos hholds] at hgoes ⊢
        exact hgoes
      · rw [if_neg hholds] at hgoes ⊢
        exact hgoes

theorem perform_getItem (h : s.faults = []) (key : String) :
    ∃ s', perform space now s (.getItem table key) =
        (if s.keys.contains (tableKey space table) then
          (s.keys.get? (itemKey space table key)).mapM parseItem
        else .error (.missingTable table), s') ∧ s.Goes s.keys s' := by
  obtain ⟨s', htransact, hgoes⟩ := Server.transact_quiet h
    [.exists (tableKey space table), .get (itemKey space table key)]
  refine ⟨s', ?_, hgoes⟩
  rw [perform]
  simp only [htransact, Server.answers, Server.execute, List.map_cons, List.map_nil, hgoes.keys,
    bind, Except.bind, flagOf_integer, textOf_elim]

/-! ## Scanning -/

theorem wordOf?_toString {n : Nat} (h : n < Nat.pow 2 64) : wordOf? (toString n) = some n := by
  have hw := Json.writes_toDigits n
  rw [wordOf?, Nat.toString_eq_repr, Nat.toList_repr]
  generalize Nat.toDigits 10 n = ds at hw
  cases ds with
  | nil => exact absurd rfl hw.nonempty
  | cons d ds =>
    have hplus : d ≠ '+' := by
      rintro rfl
      exact absurd (hw.digits '+' (by simp)) (by decide)
    have hall : (d :: ds).all Char.isDigit = true := List.all_eq_true.mpr hw.digits
    split
    · next heq => exact absurd (List.cons.inj heq).1 hplus
    · rw [hall, hw.value]
      exact if_pos h

theorem mapM_parseItem {texts : List String}
    (h : ∀ text ∈ texts, ∃ item, parseItem text = .ok item) :
    ∃ items, texts.mapM parseItem = .ok items ∧
      ∀ item, item ∈ items ↔ ∃ text ∈ texts, parseItem text = .ok item := by
  induction texts with
  | nil => exact ⟨[], rfl, by simp⟩
  | cons text texts ih =>
    obtain ⟨item, hitem⟩ := h text (by simp)
    obtain ⟨items, hitems, hmem⟩ := ih fun text htext => h text (by simp [htext])
    refine ⟨item :: items, ?_, fun other => ?_⟩
    · rw [List.mapM_cons, hitem, hitems]
      rfl
    · simp [hmem, hitem, eq_comm]

/-- A part of the keys is read: the texts that are still there, whichever they are. -/
theorem readPage_quiet (h : s.faults = []) {keys : List String}
    (hparse : ∀ key ∈ keys, ∀ text, s.keys.get? key = some text →
      ∃ item, parseItem text = .ok item) :
    ∃ items s', readPage s keys = (.ok items, s') ∧ s.Goes s.keys s' ∧
      ∀ item, item ∈ items ↔
        ∃ key ∈ keys, ∃ text, s.keys.get? key = some text ∧ parseItem text = .ok item := by
  have hmem : ∀ text, text ∈ (keys.map s.keys.get?).reduceOption ↔
      ∃ key ∈ keys, s.keys.get? key = some text := by
    intro text
    rw [List.reduceOption_mem_iff, List.mem_map]
  have hall : ∀ text ∈ (keys.map s.keys.get?).reduceOption, ∃ item, parseItem text = .ok item := by
    intro text htext
    obtain ⟨key, hkey, hget⟩ := (hmem text).mp htext
    exact hparse key hkey text hget
  obtain ⟨items, hitems, hread⟩ := mapM_parseItem hall
  have hfound : ∀ item, item ∈ items ↔
      ∃ key ∈ keys, ∃ text, s.keys.get? key = some text ∧ parseItem text = .ok item := by
    intro item
    rw [hread]
    constructor
    · rintro ⟨text, htext, hparse⟩
      obtain ⟨key, hkey, hget⟩ := (hmem text).mp htext
      exact ⟨key, hkey, text, hget, hparse⟩
    · rintro ⟨key, hkey, text, hget, hparse⟩
      exact ⟨text, (hmem text).mpr ⟨key, hkey, hget⟩, hparse⟩
  rw [readPage]
  by_cases hempty : keys.isEmpty = true
  · rw [if_pos hempty]
    rw [List.isEmpty_iff.mp hempty] at hitems
    cases hitems
    exact ⟨[], s, rfl, ⟨rfl, h, rfl⟩, hfound⟩
  · obtain ⟨s', hsend, hgoes⟩ := Server.send_mget h keys
    rw [if_neg hempty, hsend]
    refine ⟨items, s', ?_, hgoes, hfound⟩
    simp only [textsOf, Except.bind, hitems]

/-- The text of a cursor. -/
def cursorText (n : Nat) : Option String := if n = 0 then none else some (toString n)

/-- The items of a part are those of the table whose keys are shown in it. -/
theorem scanFrom_quiet (h : s.faults = []) (cursor limit : Nat)
    (hparse : ∀ key text, s.keys.get? (itemKey space table key) = some text →
      ∃ item, parseItem text = .ok item) :
    ∃ log items s', scanFrom space table s cursor limit =
        (.ok ⟨items, cursorText (s.walk log s.keys cursor (max limit 1)).1⟩, s') ∧
      s.Goes s.keys s' ∧
      ∀ item, item ∈ items ↔ ∃ key,
        itemKey space table key ∈ (s.walk log s.keys cursor (max limit 1)).2 ∧
        ∃ text, s.keys.get? (itemKey space table key) = some text ∧ parseItem text = .ok item := by
  obtain ⟨s₁, log, hscan, hgoes⟩ := Server.send_scan h cursor (itemPattern space table)
    (max limit 1)
  generalize hwalk : s.walk log s.keys cursor (max limit 1) = walked at hscan
  have hshown : ∀ shown, shown ∈ walked.2.filter (matchesPattern (itemPattern space table)) ↔
      ∃ key, shown = itemKey space table key ∧ shown ∈ walked.2 := by
    intro shown
    rw [List.mem_filter, matchesPattern_itemPattern]
    constructor
    · rintro ⟨hmem, key, hkey⟩
      exact ⟨key, hkey, hmem⟩
    · rintro ⟨key, hkey, hmem⟩
      exact ⟨hmem, key, hkey⟩
  have hparse' : ∀ shown ∈ walked.2.filter (matchesPattern (itemPattern space table)),
      ∀ text, s₁.keys.get? shown = some text → ∃ item, parseItem text = .ok item := by
    intro shown hmem text htext
    obtain ⟨key, rfl, -⟩ := (hshown shown).mp hmem
    exact hparse key text (hgoes.keys ▸ htext)
  obtain ⟨items, s₂, hread, hgoes₂, hitems⟩ := readPage_quiet hgoes.quiet hparse'
  rw [hgoes.keys] at hgoes₂ hitems
  refine ⟨log, items, s₂, ?_, hgoes.trans hgoes₂, fun item => ?_⟩
  · rw [scanFrom, hscan, hwalk]
    dsimp only
    rw [hread]
    rfl
  · rw [hitems, hwalk]
    constructor
    · rintro ⟨shown, hmem, text, htext, hparsed⟩
      obtain ⟨key, rfl, hwalked⟩ := (hshown shown).mp hmem
      exact ⟨key, hwalked, text, htext, hparsed⟩
    · rintro ⟨key, hwalked, text, htext, hparsed⟩
      exact ⟨_, (hshown _).mpr ⟨key, rfl, hwalked⟩, text, htext, hparsed⟩

theorem perform_scan (h : s.faults = []) (htable : s.keys.contains (tableKey space table) = true)
    {cursor : Nat} (hcursor : cursor < Nat.pow 2 64)
    (hparse : ∀ key text, s.keys.get? (itemKey space table key) = some text →
      ∃ item, parseItem text = .ok item) (limit : Nat) :
    ∃ log items s', perform space now s (.scan table (cursorText cursor) limit) =
        (.ok ⟨items, cursorText (s.walk log s.keys cursor (max limit 1)).1⟩, s') ∧
      s.Goes s.keys s' ∧
      ∀ item, item ∈ items ↔ ∃ key,
        itemKey space table key ∈ (s.walk log s.keys cursor (max limit 1)).2 ∧
        ∃ text, s.keys.get? (itemKey space table key) = some text ∧ parseItem text = .ok item := by
  obtain ⟨s₁, hexists, hgoes₁⟩ := Server.send_exists h (tableKey space table)
  have hscan := scanFrom_quiet space table hgoes₁.quiet cursor limit
  rw [hgoes₁.keys, hgoes₁.walk] at hscan
  obtain ⟨log, items, s₂, hfrom, hgoes₂, hitems⟩ := hscan hparse
  refine ⟨log, items, s₂, ?_, hgoes₁.trans hgoes₂, hitems⟩
  rw [perform, hexists]
  dsimp only
  rw [flagOf_integer, htable, cursorText]
  by_cases hzero : cursor = 0
  · rw [if_pos hzero, ← hzero]
    exact hfrom
  · rw [if_neg hzero]
    dsimp only
    rw [wordOf?_toString hcursor]
    exact hfrom

end MigrationLedger.Redis
