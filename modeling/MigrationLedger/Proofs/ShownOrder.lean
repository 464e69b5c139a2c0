import Mathlib.Data.Prod.Lex
import MigrationLedger.CommandLine.Conduct
import MigrationLedger.Proofs.AnyStore
import MigrationLedger.Proofs.Backends
import MigrationLedger.Proofs.PointReads

/-! The order in which entries are shown. No two entries of a log have one change id, so only one
arrangement of them is in order, and what an operator sees does not tell in which order the store
delivered them. -/

namespace MigrationLedger

namespace Entry

variable {a b c : Entry}

/-- Earlier, or in the same instant under a lesser change id. -/
def IsBefore (a b : Entry) : Prop :=
  a.timestamp < b.timestamp ∨ a.timestamp = b.timestamp ∧ a.changeId < b.changeId

instance (a b : Entry) : Decidable (a.IsBefore b) :=
  inferInstanceAs (Decidable (_ ∨ _))

theorem isUpTo_iff : a.isUpTo b = true ↔
    toLex (a.timestamp, a.changeId) ≤ toLex (b.timestamp, b.changeId) := by
  simp only [isUpTo, Prod.Lex.toLex_le_toLex, Bool.or_eq_true, Bool.and_eq_true, decide_eq_true_eq,
    Bool.not_eq_true', decide_eq_false_iff_not, not_lt]

theorem isBefore_iff : a.IsBefore b ↔
    toLex (a.timestamp, a.changeId) < toLex (b.timestamp, b.changeId) := by
  rw [IsBefore, Prod.Lex.toLex_lt_toLex]

theorem isUpTo_trans (a b c : Entry) (hab : a.isUpTo b = true) (hbc : b.isUpTo c = true) :
    a.isUpTo c = true :=
  isUpTo_iff.mpr ((isUpTo_iff.mp hab).trans (isUpTo_iff.mp hbc))

theorem isUpTo_total (a b : Entry) : (a.isUpTo b || b.isUpTo a) = true := by
  rw [Bool.or_eq_true, isUpTo_iff, isUpTo_iff]
  exact le_total _ _

theorem isBefore_of_isUpTo (h : a.isUpTo b = true) (hne : a.changeId ≠ b.changeId) :
    a.IsBefore b := by
  refine isBefore_iff.mpr (lt_of_le_of_ne (isUpTo_iff.mp h) fun heq => hne ?_)
  exact congrArg Prod.snd (toLex.injective heq)

theorem IsBefore.asymm (hab : a.IsBefore b) : ¬b.IsBefore a := fun hba =>
  lt_asymm (isBefore_iff.mp hab) (isBefore_iff.mp hba)

end Entry

namespace View

variable {es fs shown : List Entry}

theorem sorted_isBefore (hids : (Entry.ids es).Nodup) :
    (es.mergeSort Entry.isUpTo).Pairwise Entry.IsBefore := by
  have hsorted := List.pairwise_mergeSort Entry.isUpTo_trans Entry.isUpTo_total es
  have hdistinct := ((List.mergeSort_perm es Entry.isUpTo).symm.map _).nodup hids
  exact hsorted.imp₂ (fun _ _ => Entry.isBefore_of_isUpTo) (List.pairwise_map.mp hdistinct)

/-- With change ids that are all distinct, exactly one arrangement of the entries is in order. -/
theorem ofEntries_eq_iff (hids : (Entry.ids es).Nodup) :
    ofEntries es = .entries shown ↔ shown.Perm es ∧ shown.Pairwise Entry.IsBefore := by
  have hperm := List.mergeSort_perm es Entry.isUpTo
  rw [ofEntries, View.entries.injEq]
  constructor
  · rintro rfl
    exact ⟨hperm, sorted_isBefore hids⟩
  · rintro ⟨hshown, horder⟩
    exact List.Perm.eq_of_pairwise (fun _ _ _ _ hab hba => absurd hba hab.asymm)
      (sorted_isBefore hids) horder (hperm.trans hshown.symm)

theorem ofEntries_eq_of_perm (hperm : es.Perm fs) (hids : (Entry.ids es).Nodup) :
    ofEntries es = ofEntries fs :=
  (ofEntries_eq_iff hids).mpr
    ⟨(List.mergeSort_perm fs Entry.isUpTo).trans hperm.symm,
      sorted_isBefore ((hperm.map _).nodup hids)⟩

end View

namespace Command

open Conversation

/-- The entries of a log that are shown. -/
def selected (executedOnly : Bool) (all : List Entry) : List Entry :=
  if executedOnly then Ledger.executedOf all else all

/-- What is said and shown of a log that has been read. -/
def showLog (l : Ledger) (executedOnly : Bool) (all : List Entry) : Conversation Unit := do
  let entries := selected executedOnly all
  say .detail (toString entries.length ++ s!" entries in '{l.table}'")
  display (.ofEntries entries)

/-- What comes before: the log is read. -/
def readLog (e : Surroundings) (s : Settings) : Conversation (Ledger × List Entry) := do
  let (l, k) ← readyLedger e s
  progress "Scanning change entries"
  let (answer, _) ← perform (l.list l.options.operationTimeout) k
  clearLine
  return (l, ← orFail .ledger answer)

theorem runLog_eq (e : Surroundings) (s : Settings) (executedOnly : Bool) :
    runLog e s executedOnly = readLog e s >>= fun read => showLog read.1 executedOnly read.2 := by
  simp only [readLog, bind_assoc, pure_bind]
  rfl

/-- A run whose log is read goes on with what is said and shown of it. -/
theorem runLog_of_read {e : Surroundings} {s : Settings} {c c' : Session} {l : Ledger}
    {es : List Entry} (h : readLog e s c = .ok (l, es) c') (executedOnly : Bool) :
    runLog e s executedOnly c = showLog l executedOnly es c' := by
  rw [runLog_eq]
  change EStateM.bind _ _ c = _
  rw [EStateM.bind, h]

variable {es fs : List Entry}

theorem selected_perm (executedOnly : Bool) (h : es.Perm fs) :
    (selected executedOnly es).Perm (selected executedOnly fs) := by
  cases executedOnly with
  | false => exact h
  | true => exact h.filter _

theorem selected_sublist (executedOnly : Bool) (es : List Entry) :
    (selected executedOnly es).Sublist es := by
  cases executedOnly with
  | false => exact .refl es
  | true => exact List.filter_sublist

theorem showLog_eq_of_perm (hperm : es.Perm fs) (hids : (Entry.ids es).Nodup) (l : Ledger)
    (executedOnly : Bool) : showLog l executedOnly es = showLog l executedOnly fs := by
  have hselected := selected_perm executedOnly hperm
  have hdistinct : (Entry.ids (selected executedOnly es)).Nodup :=
    hids.sublist ((selected_sublist executedOnly es).map _)
  rw [showLog, showLog, hselected.length_eq, View.ofEntries_eq_of_perm hselected hdistinct]

end Command

/-- Two logs of which an operator sees the same: all entries in order, in every format, and what a
run reports, also one that shows only what was executed. -/
structure ShownAlike (es fs : List Entry) : Prop where
  ordered : ∃ shown, View.ofEntries es = .entries shown ∧ View.ofEntries fs = .entries shown ∧
    shown.Perm es ∧ shown.Pairwise Entry.IsBefore
  rendered : ∀ c : Console, (View.ofEntries es).render c = (View.ofEntries fs).render c
  reported : ∀ l executedOnly,
    Command.showLog l executedOnly es = Command.showLog l executedOnly fs
  /-- A run that has read the one log goes on as if it had read the other. -/
  run : ∀ e s l executedOnly c c', Command.readLog e s c = .ok (l, es) c' →
    Command.runLog e s executedOnly c = Command.showLog l executedOnly fs c'

theorem shownAlike_of_perm {es fs : List Entry} (hperm : es.Perm fs)
    (hids : (Entry.ids es).Nodup) : ShownAlike es fs := by
  have hview := View.ofEntries_eq_of_perm hperm hids
  obtain ⟨hshown, horder⟩ := (View.ofEntries_eq_iff hids).mp (rfl : _ = View.entries _)
  have hreported := Command.showLog_eq_of_perm hperm hids
  refine ⟨⟨_, rfl, hview.symm, hshown, horder⟩, fun c => by rw [hview], hreported,
    fun e s l executedOnly c c' hread => ?_⟩
  rw [Command.runLog_of_read hread, hreported]

/-! ## Logs -/

namespace Listing

variable {entries delivered es : List Entry}

theorem nodup_ids_adopt (hids : (Entry.ids entries).Nodup) (e : Entry) :
    (Entry.ids (adopt entries e)).Nodup := by
  rw [adopt]
  split
  · exact hids
  · next hnew =>
    have hfresh : e.changeId ∉ Entry.ids entries := by
      simpa [Entry.ids] using hnew
    rw [Entry.ids, List.map_append, List.map_singleton, ← List.concat_eq_append]
    exact hids.concat hfresh

theorem collect_cons {item : Item} {e : Entry} (h : Entry.ofItem item = .ok e)
    (entries : List Entry) (items : List Item) :
    collect entries (item :: items) = collect (adopt entries e) items := by
  rw [collect, h, adopt]
  dsimp only [bind, Except.bind]
  split
  · rfl
  · rfl

theorem nodup_ids_collect {items : List Item} (hids : (Entry.ids entries).Nodup)
    (h : collect entries items = .ok es) : (Entry.ids es).Nodup := by
  induction items generalizing entries with
  | nil =>
    cases h
    exact hids
  | cons item items ih =>
    cases he : Entry.ofItem item with
    | error fault =>
      rw [collect, he] at h
      cases h
    | ok e =>
      rw [collect_cons he] at h
      exact ih (nodup_ids_adopt hids e) h

theorem nodup_ids_foldl_adopt (hids : (Entry.ids entries).Nodup) (delivered : List Entry) :
    (Entry.ids (delivered.foldl adopt entries)).Nodup := by
  induction delivered generalizing entries with
  | nil => exact hids
  | cons e rest ih => exact ih (nodup_ids_adopt hids e)

theorem mem_adopt {d : Entry} (hsame : ∀ e ∈ entries, e.changeId = d.changeId → e = d)
    {e : Entry} : e ∈ adopt entries d ↔ e ∈ entries ∨ e = d := by
  rw [adopt]
  split
  · next hknown =>
    obtain ⟨known, hmem, hid⟩ := List.any_eq_true.mp hknown
    have heq := hsame known hmem (of_decide_eq_true hid)
    constructor
    · exact .inl
    · rintro (he | rfl)
      · exact he
      · exact heq ▸ hmem
  · rw [List.mem_append, List.mem_singleton]

/-- Where one change id belongs to one entry only, nothing that was delivered is lost. -/
theorem mem_foldl_adopt (hsame : ∀ d ∈ entries ++ delivered, ∀ e ∈ entries ++ delivered,
      d.changeId = e.changeId → d = e) {e : Entry} :
    e ∈ delivered.foldl adopt entries ↔ e ∈ entries ++ delivered := by
  induction delivered generalizing entries with
  | nil => rw [List.foldl_nil, List.append_nil]
  | cons d rest ih =>
    have hadopt : ∀ {x : Entry}, x ∈ adopt entries d ++ rest ↔ x ∈ entries ++ d :: rest := by
      intro x
      rw [List.mem_append, List.mem_append, List.mem_cons, mem_adopt, or_assoc]
      exact fun known hmem => hsame known (by simp [hmem]) d (by simp)
    rw [List.foldl_cons, ih, hadopt]
    exact fun x hx y hy => hsame x (hadopt.mp hx) y (hadopt.mp hy)

theorem nodup_ids_firsts (delivered : List Entry) : (Entry.ids (firsts delivered)).Nodup := by
  have hnone : (Entry.ids []).Nodup := List.nodup_nil
  rw [← foldl_adopt_nil]
  exact nodup_ids_foldl_adopt hnone delivered

theorem mem_firsts (hsame : ∀ d ∈ delivered, ∀ e ∈ delivered, d.changeId = e.changeId → d = e)
    {e : Entry} : e ∈ firsts delivered ↔ e ∈ delivered := by
  rw [← foldl_adopt_nil, mem_foldl_adopt, List.nil_append]
  rwa [List.nil_append]

/-- So far no two entries of a listing have one change id. -/
def Phase.Distinct : Phase → Prop
  | reading _ entries => (Entry.ids entries).Nodup
  | done answer => ∀ es, answer = .ok es → (Entry.ids es).Nodup

theorem distinct_afterPage {x : Except StoreFault Page} (hids : (Entry.ids entries).Nodup) :
    (afterPage entries x).Distinct := by
  cases x with
  | error fault => exact fun es hes => by cases hes
  | ok page =>
    rw [afterPage]
    cases hcollect : collect entries page.items with
    | error fault => exact fun es hes => by cases hes
    | ok es =>
      have hes := nodup_ids_collect hids hcollect
      cases page.next with
      | none =>
        rintro _ ⟨⟩
        exact hes
      | some cursor => exact hes

theorem Phase.Distinct.react {κ : Type} {l : Listing} {t : Moment} {k : κ} {p : Phase}
    {e : Response} {q : κ × Phase} (hp : p.Distinct) (h : l.machine.react? t k p e = some q) :
    q.2.Distinct := by
  cases p with
  | reading cursor entries =>
    cases e with
    | answered x =>
      cases h
      exact distinct_afterPage hp
    | woken => cases h
    | expired => cases h
  | done answer => cases e <;> cases h

end Listing

namespace Ledger

variable {l : Ledger} {after : Span} {t : Moment} {k : Lifecycle}

/-- The same of a listing under its time limit. -/
def ListsDistinct : Bounded Unit Listing.Phase (Except LedgerFault (List Entry)) → Prop
  | .active _ _ p => p.Distinct
  | .ended answer => ∀ es, answer = .ok es → (Entry.ids es).Nodup

theorem ListsDistinct.react
    {s : Bounded Unit Listing.Phase (Except LedgerFault (List Entry))} {e : Response}
    {q : Lifecycle × Bounded Unit Listing.Phase (Except LedgerFault (List Entry))}
    (hs : ListsDistinct s) (h : (l.list after).machine.react? t k s e = some q) :
    ListsDistinct q.2 := by
  cases s with
  | active note limit p =>
    rcases Bounded.react?_active h with ⟨⟨k', p'⟩, hq, rfl⟩ | rfl
    · have hp' := Listing.Phase.Distinct.react hs hq
      cases p' with
      | reading cursor entries => exact hp'
      | done answer => exact hp'
    · exact fun es hes => by cases hes
  | ended answer => cases e <;> cases h

/-- No log has two entries with one change id, whatever the store answers. -/
theorem nodup_ids_of_list {trail : List (Reaction Lifecycle
      (Bounded Unit Listing.Phase (Except LedgerFault (List Entry))))}
    {w : Stand Lifecycle (Bounded Unit Listing.Phase (Except LedgerFault (List Entry)))}
    (hrun : (l.list after).machine.Fares ((l.list after).begun t k) trail w) {es : List Entry}
    (hw : w.state = .ended (.ok es)) : (Entry.ids es).Nodup := by
  have hbegun : ListsDistinct ((l.list after).begun t k).state := by
    simp only [Operation.begun, list, guarded]
    split
    · exact List.nodup_nil
    · exact fun es hes => by cases hes
  have hend := hrun.keeps ListsDistinct.react hbegun
  rw [hw] at hend
  exact hend es rfl

end Ledger

/-! ## Both stores -/

theorem Entry.exists_delivered {items : List Item}
    (h : ∀ item ∈ items, ∃ e, Entry.ofItem item = .ok e) :
    ∃ delivered : List Entry, items.map Entry.ofItem = delivered.map .ok := by
  induction items with
  | nil => exact ⟨[], rfl⟩
  | cons item items ih =>
    obtain ⟨e, he⟩ := h item List.mem_cons_self
    obtain ⟨delivered, hrest⟩ := ih fun other hother => h other (List.mem_cons_of_mem _ hother)
    exact ⟨e :: delivered, by rw [List.map_cons, List.map_cons, he, hrest]⟩

theorem Entry.mem_delivered {items : List Item} {delivered : List Entry}
    (h : items.map Entry.ofItem = delivered.map .ok) {e : Entry} :
    e ∈ delivered ↔ ∃ item ∈ items, Entry.ofItem item = .ok e := by
  have hok : e ∈ delivered ↔ .ok e ∈ delivered.map (Except.ok (ε := LedgerFault)) := by simp
  rw [hok, ← h, List.mem_map]

theorem Memory.Legible.mem_entries {m : Memory} {table : String} (h : m.Legible table)
    {e : Entry} :
    e ∈ m.entries table ↔
      ∃ item, (∃ key, m.item? table key = some item) ∧ Entry.ofItem item = .ok e := by
  constructor
  · intro he
    have hentry := h.entryAt_eq_some_iff.mpr ⟨he, rfl⟩
    obtain ⟨item, hkey, hitem⟩ := Option.bind_eq_some_iff.mp hentry
    exact ⟨item, ⟨_, hkey⟩, toOption_eq_some.mp hitem⟩
  · rintro ⟨item, ⟨key, hkey⟩, hitem⟩
    have hentry : m.entryAt table key = some e := by
      rw [entryAt, hkey, Option.bind_some, hitem]
      rfl
    exact (h.entryAt_eq_some_iff.mp hentry).1

namespace Redis

variable {space : String} {walk : Walk} {m : Memory} {s : Server} {l : Ledger}

/-- The log on a server is the log in memory in an order of its own, also when some keys are shown
more than once. -/
theorem Mirrors.list_perm (h : Mirrors space walk m s) (hshows : walk.ShowsAll s.keys)
    (ht : isTableName l.table = true) (hlegible : m.Legible l.table) (now : Instant) (after : Span)
    (t : Moment) :
    ∃ log, (m.entries l.table).Perm log ∧ ∀ answer,
      (l.list after).machine.Ends (perform space now) s ((l.list after).start t .ready).1
        ((l.list after).start t .ready).2 answer ↔ answer = .ok log := by
  obtain ⟨tb, htb, -⟩ := hlegible.exists_table
  have htable : m.tables.contains l.table = true := by
    rw [Ordered.contains, htb]
    rfl
  obtain ⟨pages, hpages, hitems⟩ := h.delivers hshows ht htable now l.options.scanPageSize
  obtain ⟨delivered, hread⟩ := Entry.exists_delivered fun item hitem => by
    obtain ⟨key, hkey⟩ := (hitems item).mp hitem
    exact hlegible.decodes key item hkey
  have hmem : ∀ e, e ∈ delivered ↔ e ∈ m.entries l.table := by
    intro e
    simp only [Entry.mem_delivered hread, hlegible.mem_entries, hitems]
  have hsame : ∀ d ∈ delivered, ∀ e ∈ delivered, d.changeId = e.changeId → d = e := by
    intro d hd e he hid
    exact List.inj_on_of_nodup_map hlegible.nodup_ids ((hmem d).mp hd) ((hmem e).mp he) hid
  refine ⟨Listing.firsts delivered, ?_, fun answer => l.list_firsts after t hpages hread⟩
  refine (List.perm_ext_iff_of_nodup (hlegible.nodup_ids.of_map _)
    ((Listing.nodup_ids_firsts delivered).of_map _)).mpr fun e => ?_
  rw [Listing.mem_firsts hsame, hmem]

end Redis

/-- What an operator sees of a log does not depend on the order in which the store delivered its
entries. It takes only that their change ids are distinct, and they are in every log, whatever the
store answers. So a server, in whatever order it shows its keys, and the store in memory are seen
alike. -/
theorem log_shown_alike :
    (∀ es fs : List Entry, es.Perm fs → (Entry.ids es).Nodup → ShownAlike es fs) ∧
    (∀ (l : Ledger) (after : Span) (t : Moment) (k : Lifecycle) trail w es,
      (l.list after).machine.Fares ((l.list after).begun t k) trail w →
        w.state = .ended (.ok es) → (Entry.ids es).Nodup) ∧
    ∀ (space : String) (walk : Redis.Walk) (m : Memory) (s : Redis.Server),
      Redis.Mirrors space walk m s → walk.ShowsAll s.keys →
        ∀ l : Ledger, isTableName l.table = true → m.Legible l.table →
          ∀ (now : Instant) (after : Span) (t : Moment),
          (l.list after).Reads m .ready (.ok (m.entries l.table)) ∧
          ∃ es, ShownAlike (m.entries l.table) es ∧ ∀ answer,
            (l.list after).machine.Ends (Redis.perform space now) s
              ((l.list after).start t .ready).1 ((l.list after).start t .ready).2 answer ↔
              answer = .ok es := by
  refine ⟨fun es fs => shownAlike_of_perm, fun l after t k trail w es hrun hw =>
    Ledger.nodup_ids_of_list hrun hw, fun space walk m s h hshows l ht hlegible now after t => ?_⟩
  obtain ⟨es, hperm, hends⟩ := h.list_perm hshows ht hlegible now after t
  exact ⟨Ledger.list_reads hlegible l.options after, es,
    shownAlike_of_perm hperm hlegible.nodup_ids, hends⟩

def changeAt (id : String) (timestamp : Instant) : Entry where
  changeId := id
  executionId := "run-1"
  author := "ops"
  changeLogClass := "Users"
  timestamp := timestamp

/-- Two changes of one instant, and between them one from the leap second before it. -/
def shuffled : List Entry :=
  [changeAt "c" ⟨60, 0⟩, changeAt "b" ⟨59, 1500000000⟩, changeAt "a" ⟨60, 0⟩]

def recordOf (id : String) : Item :=
  [("author", .str "ops"), ("changeId", .str id), ("changeLogClass", .str "Users"),
    ("executionId", .str "run-1"), ("timestamp", .str "2021-05-01T10:00:00Z")]

theorem storable_recordOf (id : String) : Redis.Storable (recordOf id) := by
  have hplain : (Json.obj (recordOf id)).isPlain Json.nestingLimit = true := by
    simp [recordOf, Json.isPlain, Json.fieldsPlain, Json.nestingLimit]
  have hnormal : (Json.obj (recordOf id)).normal = .obj (recordOf id) := by
    simp only [recordOf, Json.normal, Json.normalFields, insertKey]
    rfl
  exact ⟨hnormal ▸ Json.readWith_compact .scaled hplain, fun v hv => by cases hv⟩

/-- All keys at once, the last one first. -/
def Redis.Walk.backward : Walk := fun _ keys _ _ => (0, keys.entries.reverse.map (·.1))

theorem Redis.Walk.backward_showsAll (keys : Ordered String) : backward.ShowsAll keys := by
  intro count _
  refine .go (by decide) (fun log _ key hkey => ?_) fun log hmore => absurd rfl hmore
  obtain ⟨value, hvalue⟩ := Option.isSome_iff_exists.mp hkey
  rw [List.nil_append]
  exact List.mem_map.mpr ⟨_, List.mem_reverse.mpr (Ordered.get?_eq_some_iff.mp hvalue), rfl⟩

def recordCalls : List (Instant × Call) :=
  [(⟨1619863200, 0⟩, .createTable "changes" Entry.schema),
    (⟨1619863201, 0⟩, .putItem "changes" (recordOf "b") (some .absent)),
    (⟨1619863202, 0⟩, .putItem "changes" (recordOf "a") (some .absent))]

def recordedMemory : Memory := (replay Memory.perform {} recordCalls).2

theorem legible_recordedMemory : recordedMemory.Legible "changes" := by
  have hstock : ((recordedMemory.tables.get? "changes").map fun tb => (tb.description.schema,
      tb.items.entries.all fun a => (Entry.ofItem a.2).toOption.isSome)) =
        some (Entry.schema, true) := by decide +kernel
  obtain ⟨tb, htb, hseen⟩ := Option.map_eq_some_iff.mp hstock
  refine ⟨⟨tb, htb, congrArg (·.1) hseen⟩, fun id item hitem => ?_⟩
  rw [Memory.item?_of_table htb] at hitem
  have hread := List.all_eq_true.mp (congrArg (·.2) hseen) _ (Ordered.get?_eq_some_iff.mp hitem)
  obtain ⟨e, he⟩ := Option.isSome_iff_exists.mp hread
  exact ⟨e, toOption_eq_some.mp he⟩

def recordedServer : Redis.Server :=
  (replay (Redis.perform "app") { walk := .backward } recordCalls).2

theorem mirrors_recorded : Redis.Mirrors "app" .backward recordedMemory recordedServer := by
  have hshared : ∀ c ∈ recordCalls, Redis.IsShared c.2 := by
    have hname : isTableName "changes" = true := by decide
    simp [recordCalls, Redis.IsShared, hname, storable_recordOf, Condition.IsExact]
  have hempty : Redis.Mirrors "app" .backward {} { walk := .backward } :=
    Redis.mirrors_empty (s := { walk := .backward }) "app" rfl rfl
  exact (hempty.run rfl hshared (by decide)).2

def repeatingPage : (c : Call) → Answer c
  | .scan .. => .ok ⟨[recordOf "b", recordOf "a", recordOf "b"], none⟩
  | _ => .error (.unavailable "down")

def halfMinuteList : Operation Lifecycle
    (Bounded Unit Listing.Phase (Except LedgerFault (List Entry)))
    (Except LedgerFault (List Entry)) :=
  Ledger.list ⟨"changes", {}⟩ (.ofSeconds 30)

/-- A log of three changes turned round; a page that shows one of two records twice; and a server
that shows its keys backward. -/
theorem log_shown_alike_of_small :
    (ShownAlike shuffled shuffled.reverse ∧ View.ofEntries shuffled.reverse =
      .entries [changeAt "b" ⟨59, 1500000000⟩, changeAt "a" ⟨60, 0⟩, changeAt "c" ⟨60, 0⟩]) ∧
    (∃ trail w es, halfMinuteList.machine.Fares (halfMinuteList.begun default .ready) trail w ∧
      w.state = .ended (.ok es) ∧ es.length = 2 ∧ (Entry.ids es).Nodup) ∧
    (recordedMemory.entries "changes").length = 2 ∧
      ∃ es, ShownAlike (recordedMemory.entries "changes") es ∧ ∀ answer,
        halfMinuteList.machine.Ends (Redis.perform "app" default) recordedServer
          (halfMinuteList.start default .ready).1 (halfMinuteList.start default .ready).2 answer ↔
          answer = .ok es := by
  obtain ⟨hshown, hdistinct, hboth⟩ := log_shown_alike
  refine ⟨⟨hshown _ _ (List.reverse_perm _).symm (by decide), ?_⟩, ?_, ?_⟩
  · refine (View.ofEntries_eq_iff (by decide)).mpr ⟨.swap _ _ _, by decide⟩
  · have hrun : ∃ trail w es, halfMinuteList.machine.Fares (halfMinuteList.begun default .ready)
        trail w ∧ w.state = .ended (.ok es) ∧ es.length = 2 :=
      ⟨_, _, _, .react .refl (.answered (x := repeatingPage) rfl), rfl, rfl⟩
    obtain ⟨trail, w, es, hrun, hw, hlength⟩ := hrun
    exact ⟨trail, w, es, hrun, hw, hlength, hdistinct _ _ _ _ _ _ _ hrun hw⟩
  · refine ⟨by decide +kernel, ?_⟩
    exact (hboth "app" .backward recordedMemory recordedServer mirrors_recorded
      (Redis.Walk.backward_showsAll _) ⟨"changes", {}⟩ (by decide) legible_recordedMemory default
      (.ofSeconds 30) default).2

end MigrationLedger
