import MigrationLedger.Proofs.Crew
import MigrationLedger.Proofs.ServerCalls
import MigrationLedger.Proofs.TableContents

/-! The store in memory and the store on a Redis server. Both give the same answers to the same
calls, at whatever times these are made, and hold the same items afterwards. -/

namespace MigrationLedger

/-! ## Calls one after the other -/

def TableDescription.undated (d : TableDescription) : TableDescription :=
  { d with createdAt := default }

/-- The exchange without the time at which a table was created. -/
def Exchange.undated : Exchange → Exchange
  | ⟨.describeTable table, answer⟩ =>
    ⟨.describeTable table, answer.map fun d => d.map TableDescription.undated⟩
  | x => x

/-- The exchanges when calls are made one after the other, each at its time, and the store after
them. -/
def replay {S : Type} (respond : Instant → S → (c : Call) → Answer c × S) (s : S) :
    List (Instant × Call) → List Exchange × S
  | [] => ([], s)
  | (now, c) :: rest =>
    let (answer, s) := respond now s c
    let (exchanges, s) := replay respond s rest
    (⟨c, answer⟩ :: exchanges, s)

namespace Redis

/-- Names a table as tables may be named, and puts only what a server can hold without loss. A
listing is no such call: the parts in which it is delivered differ. -/
def IsShared : Call → Prop
  | .tableExists table | .createTable table _ | .describeTable table | .getItem table _ =>
    isTableName table = true
  | .putItem table item condition =>
    isTableName table = true ∧ Storable item ∧ ∀ c, condition = some c → c.IsExact
  | .scan .. => False

/-! ## The same contents -/

/-- A table that is active at once lies as a description that tells the same, but for the time. -/
inductive Described : Option StoredTable → Option String → Prop where
  | missing : Described none none
  | present {t : StoredTable} {d : TableDescription} (hpolls : t.pendingPolls = 0)
      (hactive : t.description.status = .active) (hsame : t.description.undated = d.undated)
      (hdated : d.createdAt.IsValid) : Described (some t) (some d.json.compact)

/-- The server holds in texts what the store in memory holds. How it goes through its keys stays
what it is. -/
structure Mirrors (space : String) (walk : Walk) (m : Memory) (s : Server) : Prop where
  quiet : s.faults = []
  walk : s.walk = walk
  prompt : m.activationPolls = 0
  described : ∀ table, isTableName table = true →
    Described (m.tables.get? table) (s.keys.get? (tableKey space table))
  stored : ∀ table, isTableName table = true → ∀ key,
    s.keys.get? (itemKey space table key) = (m.item? table key).map fun i => (Json.obj i).compact
  storable : ∀ table key item, m.item? table key = some item → Storable item

namespace Mirrors

variable {space table : String} {walk : Walk} {m : Memory} {s s' : Server} {now now' : Instant}

theorem goes (h : Mirrors space walk m s) (hgoes : s.Goes s.keys s') : Mirrors space walk m s' where
  quiet := hgoes.quiet
  walk := hgoes.walk.trans h.walk
  prompt := h.prompt
  described := hgoes.keys ▸ h.described
  stored := hgoes.keys ▸ h.stored
  storable := h.storable

theorem table_cases (h : Mirrors space walk m s) (ht : isTableName table = true) :
    (m.tables.get? table = none ∧ s.keys.get? (tableKey space table) = none) ∨
      ∃ (t : StoredTable) (d : TableDescription), m.tables.get? table = some t ∧
        s.keys.get? (tableKey space table) = some d.json.compact ∧ t.pendingPolls = 0 ∧
        t.description.status = .active ∧ t.description.undated = d.undated ∧
        d.createdAt.IsValid := by
  have hdescribed := h.described table ht
  generalize m.tables.get? table = table? at hdescribed
  generalize s.keys.get? (tableKey space table) = text at hdescribed
  cases hdescribed with
  | missing => exact .inl ⟨rfl, rfl⟩
  | present hpolls hactive hsame hdated =>
    exact .inr ⟨_, _, rfl, rfl, hpolls, hactive, hsame, hdated⟩

theorem contains_eq (h : Mirrors space walk m s) (ht : isTableName table = true) :
    s.keys.contains (tableKey space table) = m.tables.contains table := by
  rw [Ordered.contains, Ordered.contains]
  obtain ⟨htable, htext⟩ | ⟨t, d, htable, htext, -⟩ := h.table_cases ht
  · rw [htable, htext]
    rfl
  · rw [htable, htext]
    rfl

theorem stored_of_table (h : Mirrors space walk m s) (ht : isTableName table = true)
    {t : StoredTable} (htable : m.tables.get? table = some t) (key : String) :
    s.keys.get? (itemKey space table key) =
      (t.items.get? key).map fun i => (Json.obj i).compact := by
  rw [h.stored table ht, Memory.item?_of_table htable]

theorem storable_of_table (h : Mirrors space walk m s) {t : StoredTable}
    (htable : m.tables.get? table = some t) {key : String} {item : Item}
    (hitem : t.items.get? key = some item) : Storable item :=
  h.storable table key item ((Memory.item?_of_table htable key).trans hitem)

/-- One table is replaced, together with the texts that stand for it. -/
theorem setTable (h : Mirrors space walk m s) {t : StoredTable} {keys : Ordered String}
    (hgoes : s.Goes keys s')
    (hothers : ∀ name, isTableName name = true → name ≠ table →
      keys.get? (tableKey space name) = s.keys.get? (tableKey space name) ∧
        ∀ key, keys.get? (itemKey space name key) = s.keys.get? (itemKey space name key))
    (hdescribed : Described (some t) (keys.get? (tableKey space table)))
    (hstored : ∀ key, keys.get? (itemKey space table key) =
      (t.items.get? key).map fun i => (Json.obj i).compact)
    (hstorable : ∀ key item, t.items.get? key = some item → Storable item) :
    Mirrors space walk (m.setTable table t) s' := by
  have hself : (m.setTable table t).tables.get? table = some t := Ordered.get?_insert_self ..
  refine ⟨hgoes.quiet, hgoes.walk.trans h.walk, h.prompt, fun name hname => ?_,
    fun name hname key => ?_, fun name key item hitem => ?_⟩
  · rw [hgoes.keys]
    by_cases heq : name = table
    · rwa [heq, hself]
    · rw [m.get?_setTable_of_ne heq, (hothers name hname heq).1]
      exact h.described name hname
  · rw [hgoes.keys, Memory.item?]
    by_cases heq : name = table
    · rw [heq, hself]
      exact hstored key
    · rw [m.get?_setTable_of_ne heq, (hothers name hname heq).2]
      exact h.stored name hname key
  · rw [Memory.item?] at hitem
    by_cases heq : name = table
    · rw [heq, hself] at hitem
      exact hstorable key item hitem
    · rw [m.get?_setTable_of_ne heq] at hitem
      exact h.storable name key item hitem

/-! ## Call by call -/

theorem tableExists (h : Mirrors space walk m s) (ht : isTableName table = true) :
    (perform space now' s (.tableExists table)).1 = (m.perform now (.tableExists table)).1 ∧
      Mirrors space walk (m.perform now (.tableExists table)).2
        (perform space now' s (.tableExists table)).2 := by
  obtain ⟨s', hperform, hgoes⟩ := perform_tableExists space table now' h.quiet
  rw [hperform, Memory.perform, h.contains_eq ht]
  exact ⟨rfl, h.goes hgoes⟩

theorem createTable (h : Mirrors space walk m s) (ht : isTableName table = true)
    (hnow : now'.IsValid) (schema : KeySchema) :
    (perform space now' s (.createTable table schema)).1 =
        (m.perform now (.createTable table schema)).1 ∧
      Mirrors space walk (m.perform now (.createTable table schema)).2
        (perform space now' s (.createTable table schema)).2 := by
  obtain ⟨s', hperform, hgoes⟩ := perform_createTable space table now' h.quiet schema
  rw [hperform, Memory.perform]
  rw [h.contains_eq ht] at hgoes ⊢
  by_cases hexists : m.tables.contains table = true
  · rw [if_pos hexists] at hgoes ⊢
    rw [if_pos hexists]
    exact ⟨rfl, h.goes hgoes⟩
  · rw [if_neg hexists] at hgoes ⊢
    rw [if_neg hexists]
    have hnone : m.tables.get? table = none := by
      simpa [Ordered.contains] using hexists
    refine ⟨rfl, h.setTable hgoes (fun name hname hne => ⟨?_, fun key => ?_⟩) ?_ (fun key => ?_)
      (by rintro key item ⟨⟩)⟩
    · exact Ordered.get?_insert_of_ne _ (mt tableKey_inj hne) _
    · exact Ordered.get?_insert_of_ne _ (Ne.symm (tableKey_ne_itemKey ht)) _
    · rw [Ordered.get?_insert_self, h.prompt]
      exact .present rfl rfl rfl hnow
    · rw [Ordered.get?_insert_of_ne _ (Ne.symm (tableKey_ne_itemKey ht)), h.stored table ht,
        Memory.item?, hnone]
      rfl

theorem describe_eq {t : StoredTable} (hpolls : t.pendingPolls = 0)
    (hactive : t.description.status = .active) : t.describe = t := by
  obtain ⟨⟨name, schema, status, createdAt⟩, polls, items, keyed⟩ := t
  dsimp only at hpolls hactive
  subst hpolls hactive
  rfl

theorem describeTable (h : Mirrors space walk m s) (ht : isTableName table = true) :
    Exchange.undated ⟨_, (perform space now' s (.describeTable table)).1⟩ =
        Exchange.undated ⟨_, (m.perform now (.describeTable table)).1⟩ ∧
      Mirrors space walk (m.perform now (.describeTable table)).2
        (perform space now' s (.describeTable table)).2 := by
  obtain ⟨s', hperform, hgoes⟩ := perform_describeTable space table now' h.quiet
  rw [hperform, Memory.perform]
  obtain ⟨htable, htext⟩ | ⟨t, d, htable, htext, hpolls, hactive, hsame, hdated⟩ :=
    h.table_cases ht
  · rw [htable, htext]
    exact ⟨rfl, h.goes hgoes⟩
  · have hdescribed := h.described table ht
    rw [htable] at hdescribed ⊢
    dsimp only
    rw [describe_eq hpolls hactive, htext]
    have hparse := parseDescription_compact hdated table
    refine ⟨?_, h.setTable hgoes (fun name hname hne => ⟨rfl, fun key => rfl⟩) hdescribed
      (h.stored_of_table ht htable) fun _ _ => h.storable_of_table htable⟩
    simp [Exchange.undated, hparse, Except.map, hsame]

theorem getItem (h : Mirrors space walk m s) (ht : isTableName table = true) (key : String) :
    (perform space now' s (.getItem table key)).1 = (m.perform now (.getItem table key)).1 ∧
      Mirrors space walk (m.perform now (.getItem table key)).2
        (perform space now' s (.getItem table key)).2 := by
  obtain ⟨s', hperform, hgoes⟩ := perform_getItem space table now' h.quiet key
  rw [hperform, Memory.perform, Memory.onTable, h.contains_eq ht, Ordered.contains]
  cases htable : m.tables.get? table with
  | none => exact ⟨rfl, h.goes hgoes⟩
  | some t =>
    refine ⟨?_, h.goes hgoes⟩
    rw [h.stored_of_table ht htable]
    dsimp only
    cases hitem : t.items.get? key with
    | none => rfl
    | some item => simp [(h.storable_of_table htable hitem).parseItem_eq]

/-- An item is put under its key, and so is its text. -/
theorem insert (h : Mirrors space walk m s) (ht : isTableName table = true) {t : StoredTable}
    (htable : m.tables.get? table = some t) {item : Item} (hitem : Storable item) {key : String}
    (hkey : t.description.schema.keyOf item = .ok key)
    (hgoes : s.Goes (s.keys.insert (itemKey space table key) (Json.obj item).compact) s') :
    Mirrors space walk (m.setTable table (t.insert key item hkey)) s' := by
  refine h.setTable hgoes (fun name hname hne => ⟨?_, fun other => ?_⟩) ?_ (fun other => ?_)
    fun other i hi => ?_
  · exact Ordered.get?_insert_of_ne _ (tableKey_ne_itemKey hname) _
  · exact Ordered.get?_insert_of_ne _ (fun heq => hne (itemKey_inj hname ht heq).1) _
  · rw [Ordered.get?_insert_of_ne _ (tableKey_ne_itemKey ht)]
    obtain ⟨hnone, -⟩ | ⟨u, d, hu, htext, hpolls, hactive, hsame, hdated⟩ := h.table_cases ht
    · cases hnone.symm.trans htable
    · cases hu.symm.trans htable
      rw [htext]
      exact .present hpolls hactive hsame hdated
  · rw [StoredTable.insert]
    by_cases heq : other = key
    · rw [heq, Ordered.get?_insert_self, Ordered.get?_insert_self]
      rfl
    · rw [Ordered.get?_insert_of_ne _ heq, Ordered.get?_insert_of_ne, h.stored_of_table ht htable]
      exact fun hkeys => heq (itemKey_inj ht ht hkeys).2
  · rw [StoredTable.insert] at hi
    by_cases heq : other = key
    · rw [heq, Ordered.get?_insert_self] at hi
      exact Option.some.inj hi ▸ hitem
    · rw [Ordered.get?_insert_of_ne _ heq] at hi
      exact h.storable_of_table htable hi

theorem putItem (h : Mirrors space walk m s) (ht : isTableName table = true) {item : Item}
    (hitem : Storable item) {condition : Option Condition}
    (hcondition : ∀ c, condition = some c → c.IsExact) :
    (perform space now' s (.putItem table item condition)).1 =
        (m.perform now (.putItem table item condition)).1 ∧
      Mirrors space walk (m.perform now (.putItem table item condition)).2
        (perform space now' s (.putItem table item condition)).2 := by
  rw [Memory.perform, Memory.onTable]
  obtain ⟨htable, htext⟩ | ⟨t, d, htable, htext, hpolls, hactive, hsame, hdated⟩ :=
    h.table_cases ht
  · obtain ⟨s', hperform, hgoes⟩ := perform_putItem_missing space table now' h.quiet htext item
      condition
    rw [hperform, htable]
    exact ⟨rfl, h.goes hgoes⟩
  · have hschema : d.schema = t.description.schema := (TableDescription.mk.inj hsame).2.1.symm
    obtain ⟨s', hperform, hgoes⟩ := perform_putItem space table now' h.quiet htext hitem
      (h.stored_of_table ht htable) (fun _ _ => h.storable_of_table htable) hcondition
    rw [hperform, htable]
    rw [hschema] at hgoes ⊢
    dsimp only
    cases hkey : t.description.schema.keyOf item with
    | error fault =>
      rw [hkey] at hgoes
      rw [StoredTable.put_of_keyOf_error hkey]
      exact ⟨rfl, h.goes hgoes⟩
    | ok key =>
      rw [hkey] at hgoes
      rw [StoredTable.put_of_keyOf hkey]
      dsimp only [Except.bind] at hgoes ⊢
      by_cases hholds : condition.all (·.holds (t.items.get? key)) = true
      · rw [if_pos hholds] at hgoes ⊢
        rw [if_pos hholds]
        exact ⟨rfl, h.insert ht htable hitem hkey hgoes⟩
      · rw [if_neg hholds] at hgoes ⊢
        rw [if_neg hholds]
        exact ⟨rfl, h.goes hgoes⟩

/-- One call: the answers differ in the time of creation at most. -/
theorem step (h : Mirrors space walk m s) (now : Instant) {c : Call} (hc : IsShared c)
    (hnow : now'.IsValid) :
    Exchange.undated ⟨c, (perform space now' s c).1⟩ =
        Exchange.undated ⟨c, (m.perform now c).1⟩ ∧
      Mirrors space walk (m.perform now c).2 (perform space now' s c).2 := by
  cases c with
  | tableExists table =>
    obtain ⟨hanswer, hmirrors⟩ := h.tableExists hc
    exact ⟨by rw [hanswer], hmirrors⟩
  | createTable table schema =>
    obtain ⟨hanswer, hmirrors⟩ := h.createTable hc hnow schema
    exact ⟨by rw [hanswer], hmirrors⟩
  | describeTable table => exact h.describeTable hc
  | putItem table item condition =>
    obtain ⟨ht, hitem, hcondition⟩ := hc
    obtain ⟨hanswer, hmirrors⟩ := h.putItem ht hitem hcondition
    exact ⟨by rw [hanswer], hmirrors⟩
  | getItem table key =>
    obtain ⟨hanswer, hmirrors⟩ := h.getItem hc key
    exact ⟨by rw [hanswer], hmirrors⟩
  | scan table cursor limit => cases hc

/-- Any number of calls. -/
theorem run (h : Mirrors space walk m s) {calls calls' : List (Instant × Call)}
    (hsame : calls.map (·.2) = calls'.map (·.2)) (hshared : ∀ c ∈ calls, IsShared c.2)
    (hclock : ∀ c ∈ calls', c.1.IsValid) :
    (replay (perform space) s calls').1.map Exchange.undated =
        (replay Memory.perform m calls).1.map Exchange.undated ∧
      Mirrors space walk (replay Memory.perform m calls).2 (replay (perform space) s calls').2 := by
  induction calls generalizing m s calls' with
  | nil =>
    cases calls' with
    | nil => exact ⟨rfl, h⟩
    | cons c' rest' => cases hsame
  | cons c rest ih =>
    cases calls' with
    | nil => cases hsame
    | cons c' rest' =>
      obtain ⟨now, c⟩ := c
      obtain ⟨now', c'⟩ := c'
      obtain ⟨hcall, hrest⟩ := List.cons.inj hsame
      dsimp only at hcall
      subst hcall
      obtain ⟨hanswer, hnext⟩ := h.step now (hshared (now, c) (by simp))
        (hclock (now', c) (by simp))
      obtain ⟨hanswers, hafter⟩ := ih hnext hrest
        (fun call hcall => hshared call (List.mem_cons_of_mem _ hcall))
        fun call hcall => hclock call (List.mem_cons_of_mem _ hcall)
      refine ⟨?_, hafter⟩
      rw [replay, replay, List.map_cons, List.map_cons]
      exact congrArg₂ List.cons hanswer hanswers

end Mirrors

end Redis

end MigrationLedger
