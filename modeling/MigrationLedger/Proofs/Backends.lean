import MigrationLedger.Proofs.CompleteLog
import MigrationLedger.Proofs.Mirror

/-! Two stores behind one set of calls. Run on a Redis server or in memory, the calls that create
tables and read and write items get the same answers, and a listing of any table, followed to its
end, delivers the same items. -/

namespace MigrationLedger

/-- What a listing of a table comes to, followed to its end: the items it delivers, or nothing when
the table is missing. -/
inductive Listed {S : Type} (respond : S → (c : Call) → Answer c × S) (table : String)
    (limit : Nat) (store : S) : Option (List Item) → Prop where
  | missing (h : (respond store (.scan table none limit)).1 = .error (.missingTable table)) :
    Listed respond table limit store none
  | found {pages : List Page} (h : Delivers respond table limit store none pages) :
    Listed respond table limit store (some (pages.flatMap Page.items))

def SameItems (items items' : List Item) : Prop := ∀ item, item ∈ items ↔ item ∈ items'

/-! ## Listing in memory -/

theorem StoredTable.delivers {m : Memory} {table : String} {t : StoredTable}
    (ht : m.tables.get? table = some t) (now : Instant) (limit : Nat) (cursor : Option String) :
    ∃ pages, Delivers (Memory.perform now) table limit m cursor pages ∧
      pages.flatMap Page.items = (t.items.after cursor).map (·.2) := by
  induction hleft : (t.items.after cursor).length using Nat.strongRecOn generalizing cursor with
  | ind left ih =>
    have hscan := Memory.perform_scan ht now cursor limit
    obtain ⟨here, more, hsplit, hitems, hnext⟩ := t.page_split cursor limit
    rcases hnext with ⟨hnext, rfl⟩ | ⟨front, key, item, rfl, hnext⟩
    · refine ⟨[t.page cursor limit], .last hscan hnext, ?_⟩
      rw [List.flatMap_singleton, hitems, hsplit, List.append_nil]
    · rw [List.append_assoc, List.singleton_append] at hsplit
      have hafter := Ordered.after_passed hsplit
      have hless : (t.items.after (some key)).length < left := by
        rw [hafter, ← hleft, hsplit]
        simp only [List.length_append, List.length_cons]
        omega
      obtain ⟨pages, hpages, hrest⟩ := ih _ hless (some key) rfl
      refine ⟨t.page cursor limit :: pages, .more hscan hnext hpages, ?_⟩
      rw [List.flatMap_cons, hrest, hafter, hitems, hsplit]
      simp

namespace Redis

/-! ## Listing on a server -/

/-- Going on from a cursor until the cursor is zero again shows all keys that have not been shown,
whatever the server receives in between, as long as the keys stay. A cursor fits a word. -/
inductive Walk.Finishes (walk : Walk) (keys : Ordered String) (count : Nat) :
    (cursor : Nat) → (shown : List String) → Prop where
  | go {cursor : Nat} {shown : List String} (hcursor : cursor < Nat.pow 2 64)
      (hlast : ∀ log, (walk log keys cursor count).1 = 0 →
        ∀ key, keys.contains key = true → key ∈ shown ++ (walk log keys cursor count).2)
      (hmore : ∀ log, (walk log keys cursor count).1 ≠ 0 →
        Finishes walk keys count (walk log keys cursor count).1
          (shown ++ (walk log keys cursor count).2)) : Finishes walk keys count cursor shown

/-- What a server promises for the keys that it holds. -/
def Walk.ShowsAll (walk : Walk) (keys : Ordered String) : Prop :=
  ∀ count, 0 < count → walk.Finishes keys count 0 []

theorem Walk.inOrder_finishes {keys : Ordered String} (hsize : keys.size < Nat.pow 2 64)
    {count : Nat} (hcount : 0 < count) {cursor : Nat} (hcursor : cursor ≤ keys.size)
    {shown : List String}
    (hshown : ∀ a ∈ keys.entries.take cursor, a.1 ∈ shown) :
    Walk.inOrder.Finishes keys count cursor shown := by
  induction hleft : keys.size - cursor using Nat.strongRecOn generalizing cursor shown with
  | ind left ih =>
    have hfound : ∀ a ∈ keys.entries.take (cursor + count),
        a.1 ∈ shown ++ ((keys.entries.drop cursor).take count).map (·.1) := by
      intro a ha
      rw [List.take_add, List.mem_append] at ha
      exact List.mem_append.mpr (ha.imp (hshown a) List.mem_map_of_mem)
    refine .go (Nat.lt_of_le_of_lt hcursor hsize) (fun log hlast key hkey => ?_) fun log hmore => ?_
    · have hend : keys.size ≤ cursor + count := by
        by_contra hfurther
        rw [Walk.inOrder, if_neg hfurther] at hlast
        omega
      obtain ⟨value, hvalue⟩ := Option.isSome_iff_exists.mp hkey
      have hmem := Ordered.get?_eq_some_iff.mp hvalue
      refine hfound (key, value) ?_
      rwa [List.take_of_length_le hend]
    · have hfurther : ¬keys.size ≤ cursor + count := fun hend => hmore (if_pos hend)
      have hnext : (Walk.inOrder log keys cursor count).1 = cursor + count := if_neg hfurther
      rw [hnext]
      exact ih _ (by omega) (by omega) hfound rfl

variable {space table : String} {walk : Walk} {m : Memory} {s : Server}

namespace Mirrors

theorem parses_iff (h : Mirrors space walk m s) (ht : isTableName table = true) {key : String}
    {item : Item} :
    (∃ text, s.keys.get? (itemKey space table key) = some text ∧ parseItem text = .ok item) ↔
      m.item? table key = some item := by
  rw [h.stored table ht]
  constructor
  · rintro ⟨text, htext, hparse⟩
    obtain ⟨stored, hstored, rfl⟩ := Option.map_eq_some_iff.mp htext
    rw [(h.storable table key stored hstored).parseItem_eq] at hparse
    rw [hstored, Except.ok.inj hparse]
  · intro hitem
    refine ⟨(Json.obj item).compact, ?_, (h.storable table key item hitem).parseItem_eq⟩
    rw [hitem]
    rfl

/-- A part of a listing shows the items whose keys are looked at, and says where to go on. -/
theorem scan (h : Mirrors space walk m s) (ht : isTableName table = true)
    (htable : m.tables.contains table = true) (now : Instant) {cursor : Nat}
    (hcursor : cursor < Nat.pow 2 64) (limit : Nat) :
    ∃ log items s', perform space now s (.scan table (cursorText cursor) limit) =
        (.ok ⟨items, cursorText (s.walk log s.keys cursor (max limit 1)).1⟩, s') ∧
      s.Goes s.keys s' ∧ ∀ item, item ∈ items ↔
        ∃ key, itemKey space table key ∈ (s.walk log s.keys cursor (max limit 1)).2 ∧
          m.item? table key = some item := by
  have hparse : ∀ key text, s.keys.get? (itemKey space table key) = some text →
      ∃ item, parseItem text = .ok item := by
    intro key text htext
    rw [h.stored table ht] at htext
    obtain ⟨item, hitem, rfl⟩ := Option.map_eq_some_iff.mp htext
    exact ⟨item, (h.storable table key item hitem).parseItem_eq⟩
  rw [← h.contains_eq ht] at htable
  obtain ⟨log, items, s', hscan, hgoes, hitems⟩ := perform_scan space table now h.quiet htable
    hcursor hparse limit
  refine ⟨log, items, s', hscan, hgoes, fun item => ?_⟩
  simp only [hitems, h.parses_iff ht]

theorem contains_itemKey (h : Mirrors space walk m s) (ht : isTableName table = true) {key : String}
    {item : Item} (hitem : m.item? table key = some item) :
    s.keys.contains (itemKey space table key) = true := by
  rw [Ordered.contains, h.stored table ht, hitem]
  rfl

theorem delivers_from (h : Mirrors space walk m s) (ht : isTableName table = true)
    (htable : m.tables.contains table = true) (now : Instant) (limit : Nat)
    {keys : Ordered String} (hkeys : s.keys = keys) {cursor : Nat} {shown : List String}
    (hfinishes : walk.Finishes keys (max limit 1) cursor shown) :
    ∃ pages, Delivers (perform space now) table limit s (cursorText cursor) pages ∧
      (∀ item ∈ pages.flatMap Page.items, ∃ key, m.item? table key = some item) ∧
      ∀ key item, m.item? table key = some item →
        itemKey space table key ∈ shown ∨ item ∈ pages.flatMap Page.items := by
  induction hfinishes generalizing s with
  | @go cursor shown hcursor hlast hmore ih =>
    obtain ⟨log, items, s', hscan, hgoes, hitems⟩ := h.scan ht htable now hcursor limit
    rw [h.walk, hkeys] at hscan hitems
    rw [hkeys] at hgoes
    have hnew : ∀ key item, m.item? table key = some item →
        itemKey space table key ∈ shown ++ (walk log keys cursor (max limit 1)).2 →
        itemKey space table key ∈ shown ∨ item ∈ items := by
      intro key item hitem hmem
      exact (List.mem_append.mp hmem).imp_right fun hfound => (hitems item).mpr ⟨key, hfound, hitem⟩
    by_cases hzero : (walk log keys cursor (max limit 1)).1 = 0
    · refine ⟨[⟨items, _⟩], .last hscan (if_pos hzero), ?_, ?_⟩
      · intro item hitem
        rw [List.flatMap_singleton] at hitem
        obtain ⟨key, -, hkey⟩ := (hitems item).mp hitem
        exact ⟨key, hkey⟩
      · intro key item hitem
        rw [List.flatMap_singleton]
        have hthere := h.contains_itemKey ht hitem
        rw [hkeys] at hthere
        exact hnew key item hitem (hlast log hzero _ hthere)
    · have hnext : cursorText (walk log keys cursor (max limit 1)).1 =
          some (toString (walk log keys cursor (max limit 1)).1) := if_neg hzero
      have hmirrors : Mirrors space walk m s' := h.goes (hkeys ▸ hgoes)
      obtain ⟨pages, hpages, hsound, hcomplete⟩ := ih log hzero hmirrors hgoes.keys
      rw [hnext] at hpages
      refine ⟨_ :: pages, .more hscan hnext hpages, ?_, ?_⟩
      · intro item hitem
        rw [List.flatMap_cons, List.mem_append] at hitem
        rcases hitem with hitem | hitem
        · obtain ⟨key, -, hkey⟩ := (hitems item).mp hitem
          exact ⟨key, hkey⟩
        · exact hsound item hitem
      · intro key item hitem
        rw [List.flatMap_cons, List.mem_append]
        rcases hcomplete key item hitem with hshown | hlater
        · exact (hnew key item hitem hshown).imp_right .inl
        · exact .inr (.inr hlater)

theorem delivers (h : Mirrors space walk m s) (hshows : walk.ShowsAll s.keys)
    (ht : isTableName table = true) (htable : m.tables.contains table = true) (now : Instant)
    (limit : Nat) :
    ∃ pages, Delivers (perform space now) table limit s none pages ∧
      ∀ item, item ∈ pages.flatMap Page.items ↔ ∃ key, m.item? table key = some item := by
  have hlimit : 0 < max limit 1 := by omega
  obtain ⟨pages, hpages, hsound, hcomplete⟩ := h.delivers_from ht htable now limit rfl
    (hshows _ hlimit)
  refine ⟨pages, hpages, fun item => ⟨hsound item, ?_⟩⟩
  rintro ⟨key, hitem⟩
  exact (hcomplete key item hitem).resolve_left nofun

end Mirrors

/-! ## Both stores -/

theorem Mirrors.listed (h : Mirrors space walk m s) (hshows : walk.ShowsAll s.keys)
    (ht : isTableName table = true) (now now' : Instant) (limit limit' : Nat) :
    ∃ items items', Listed (Memory.perform now) table limit m items ∧
      Listed (perform space now') table limit' s items' ∧ Option.Rel SameItems items items' := by
  cases htable : m.tables.get? table with
  | none =>
    obtain ⟨s', hexists, hgoes⟩ := Server.send_exists h.quiet (tableKey space table)
    have habsent : s.keys.contains (tableKey space table) = false := by
      rw [h.contains_eq ht, Ordered.contains, htable]
      rfl
    refine ⟨none, none, .missing ?_, .missing ?_, .none⟩
    · rw [Memory.perform, Memory.onTable, htable]
    · rw [perform, hexists, habsent]
      rfl
  | some t =>
    have hexists : m.tables.contains table = true := by
      rw [Ordered.contains, htable]
      rfl
    obtain ⟨pages, hpages, hitems⟩ := StoredTable.delivers htable now limit none
    obtain ⟨pages', hpages', hitems'⟩ := h.delivers hshows ht hexists now' limit'
    refine ⟨_, _, .found hpages, .found hpages', .some fun item => ?_⟩
    rw [hitems, hitems', Ordered.after, List.mem_map]
    constructor
    · rintro ⟨⟨key, stored⟩, hmem, rfl⟩
      exact ⟨key, (Memory.item?_of_table htable key).trans (Ordered.get?_eq_some_iff.mpr hmem)⟩
    · rintro ⟨key, hitem⟩
      rw [Memory.item?_of_table htable] at hitem
      exact ⟨(key, item), Ordered.get?_eq_some_iff.mp hitem, rfl⟩

theorem mirrors_empty (space : String) (hempty : s.keys = {}) (hquiet : s.faults = []) :
    Mirrors space s.walk {} s where
  quiet := hquiet
  walk := rfl
  prompt := rfl
  described table _ := by
    rw [hempty]
    exact .missing
  stored table _ key := by
    rw [hempty]
    rfl
  storable _ _ _ h := nomatch h

/-- The server starts empty and carries out every command; at the end it promises to show all the
keys it then holds. Each side has a clock of its own. -/
theorem interchangeable (space : String) (hempty : s.keys = {}) (hquiet : s.faults = [])
    {calls calls' : List (Instant × Call)} (hsame : calls.map (·.2) = calls'.map (·.2))
    (hshared : ∀ c ∈ calls, IsShared c.2) (hclock : ∀ c ∈ calls', c.1.IsValid)
    (hshows : s.walk.ShowsAll (replay (perform space) s calls').2.keys) :
    (replay (perform space) s calls').1.map Exchange.undated =
        (replay Memory.perform {} calls).1.map Exchange.undated ∧
      ∀ table, isTableName table = true → ∀ (now now' : Instant) (limit limit' : Nat),
        ∃ items items',
          Listed (Memory.perform now) table limit (replay Memory.perform {} calls).2 items ∧
          Listed (perform space now') table limit' (replay (perform space) s calls').2 items' ∧
          Option.Rel SameItems items items' := by
  obtain ⟨hanswers, hmirrors⟩ := (mirrors_empty space hempty hquiet).run hsame hshared hclock
  refine ⟨hanswers, fun table ht now now' limit limit' => ?_⟩
  exact hmirrors.listed hshows ht now now' limit limit'

/-- A table, a record in it that is replaced, a put that comes too late, and a look at the record:
the server does not know the script at first, and shows its keys one at a time. -/
theorem interchangeable_of_writes :
    let record (n : Nat) : Item := [("_revision", .ofNat n), ("lockKey", .str "a")]
    let calls : List (Instant × Call) :=
      [(⟨1619863200, 0⟩, .createTable "locks" ⟨"lockKey", .text⟩),
        (⟨1619863201, 0⟩, .putItem "locks" (record 1) (some .absent)),
        (⟨1619863202, 0⟩, .putItem "locks" (record 2) (some (.revision 1))),
        (⟨1619863203, 0⟩, .putItem "locks" (record 2) (some (.revision 1))),
        (⟨1619863204, 0⟩, .getItem "locks" "a")]
    let server : Server := { scriptLoaded := false }
    (replay (perform "app") server calls).1.map Exchange.undated =
        (replay Memory.perform {} calls).1.map Exchange.undated ∧
      ∃ items items',
        Listed (Memory.perform ⟨0, 0⟩) "locks" 10 (replay Memory.perform {} calls).2 items ∧
        Listed (perform "app" ⟨0, 0⟩) "locks" 1 (replay (perform "app") server calls).2 items' ∧
        Option.Rel SameItems items items' := by
  intro record calls server
  have hrecord : ∀ n < 3, Storable (record n) := by
    intro n hn
    have hword : n ≤ Json.greatestWord := Nat.le_trans (Nat.le_of_lt hn) (by decide)
    have hplain : (Json.obj (record n)).isPlain Json.nestingLimit = true := by
      simp [record, Json.isPlain, Json.fieldsPlain, Json.ofNat, Json.nestingLimit, hword]
    have horder : ¬"lockKey" < "_revision" := by decide
    have hnormal : (Json.obj (record n)).normal = .obj (record n) := by
      simp only [record, Json.normal, Json.normalFields, insertKey, Json.ofNat, horder, if_false]
      rfl
    refine ⟨hnormal ▸ Json.readWith_compact .scaled hplain, fun v hv => ?_⟩
    exact ⟨n, Nat.lt_trans hn (by decide), (Option.some.inj hv).symm⟩
  have hshared : ∀ c ∈ calls, IsShared c.2 := by
    have hname : isTableName "locks" = true := by decide
    have hone : 1 < Nat.pow 2 53 := by decide
    simp [calls, IsShared, hname, hrecord, Condition.IsExact, hone]
  have hclock : ∀ c ∈ calls, c.1.IsValid := by
    decide
  have hempty : server.keys = {} := rfl
  have hquiet : server.faults = [] := rfl
  have hsize : (replay (perform "app") server calls).2.keys.size < Nat.pow 2 64 := by
    decide +kernel
  have hshows : server.walk.ShowsAll (replay (perform "app") server calls).2.keys := by
    intro count hcount
    exact Walk.inOrder_finishes hsize hcount (Nat.zero_le _) (by rintro before ⟨⟩)
  obtain ⟨hanswers, hlisted⟩ := interchangeable "app" hempty hquiet rfl hshared hclock hshows
  exact ⟨hanswers, hlisted "locks" (by decide) ⟨0, 0⟩ ⟨0, 0⟩ 10 1⟩

end Redis

end MigrationLedger
