import MigrationLedger.Proofs.CompleteLog

/-! A record looked up and the same record listed. Both ways of reading leave the store and the
lifecycle alone, and tell the same: an item lies under its own key, and a listing passes every item
once, whatever the size of a page. -/

namespace MigrationLedger

/-- Alone with the store and not interfered with, the machine ends, however long its waits last, and
the postcondition holds then. -/
inductive Machine.Concludes {κ σ α : Type} (mc : Machine κ σ α) (post : Memory → κ → α → Prop) :
    Memory → κ → σ → Prop where
  | done {m : Memory} {k : κ} {s : σ} {a : α} (hnext : mc.next s = .done a) (h : post m k a) :
      Concludes mc post m k s
  | call {m : Memory} {k : κ} {s : σ} {c : Call} {resume : Moment → κ → Answer c → κ × σ}
      (hnext : mc.next s = .call c resume)
      (h : ∀ t : Moment, Concludes mc post (m.perform t.wall c).2
        (resume t k (m.perform t.wall c).1).1 (resume t k (m.perform t.wall c).1).2) :
      Concludes mc post m k s
  | rest {m : Memory} {k : κ} {s : σ} {d : Span} {resume : Moment → κ → κ × σ}
      (hnext : mc.next s = .rest d resume)
      (h : ∀ t : Moment, Concludes mc post m (resume t k).1 (resume t k).2) :
      Concludes mc post m k s

theorem Machine.Concludes.mono {κ σ α : Type} {mc : Machine κ σ α}
    {post post' : Memory → κ → α → Prop} {m : Memory} {k : κ} {s : σ} (h : mc.Concludes post m k s)
    (hpost : ∀ m k a, post m k a → post' m k a) : mc.Concludes post' m k s := by
  induction h with
  | done hnext h => exact .done hnext (hpost _ _ _ h)
  | call hnext h ih => exact .call hnext ih
  | rest hnext h ih => exact .rest hnext ih

/-- The operation, begun at any moment, ends with this answer and changes nothing. -/
def Operation.Reads {κ σ α : Type} (o : Operation κ σ α) (m : Memory) (k : κ) (answer : α) : Prop :=
  ∀ t, o.machine.Concludes (fun m' k' a => m' = m ∧ k' = k ∧ a = answer) m (o.start t k).1
    (o.start t k).2

/-- A time limit that does not pass makes no difference. -/
theorem Bounded.concludes_settle {κ ν σ α : Type} {mc : Machine κ σ α} {finish : ν → κ → α → κ × α}
    {late : α} {post : Memory → κ → α → Prop} {m : Memory} {k : κ} {s : σ} (note : ν) (limit : Span)
    (h : mc.Concludes (fun m' k' a => post m' (finish note k' a).1 (finish note k' a).2) m k s) :
    (machine mc finish late).Concludes post m (settle mc finish note limit (k, s)).1
      (settle mc finish note limit (k, s)).2 := by
  induction h with
  | done hnext h =>
    simp only [settle, hnext]
    exact .done rfl h
  | @call m k s c resume hnext h ih =>
    have hsettle : settle mc finish note limit (k, s) = (k, .active note limit s) := by
      simp only [settle, hnext]
    have hcall : (machine mc finish late).next (.active note limit s) =
        .call c fun t k x => settle mc finish note limit (resume t k x) := by
      simp only [machine, hnext]
    rw [hsettle]
    exact .call hcall ih
  | @rest m k s d resume hnext h ih =>
    have hsettle : settle mc finish note limit (k, s) = (k, .active note limit s) := by
      simp only [settle, hnext]
    have hrest : (machine mc finish late).next (.active note limit s) =
        .rest d fun t k => settle mc finish note limit (resume t k) := by
      simp only [machine, hnext]
    rw [hsettle]
    exact .rest hrest ih

namespace StoredTable

def entries (t : StoredTable) : List Entry :=
  t.items.entries.filterMap fun a => (Entry.ofItem a.2).toOption

theorem filterMap_ofItem {fields : List (String × Item)} {entries : List Entry}
    (h : fields.map (fun a => Entry.ofItem a.2) = entries.map .ok) :
    fields.filterMap (fun a => (Entry.ofItem a.2).toOption) = entries := by
  have hoptions := congrArg (List.filterMap Except.toOption) h
  rw [List.filterMap_map, List.filterMap_map] at hoptions
  refine hoptions.trans ?_
  have hsome : Except.toOption ∘ (Except.ok (ε := LedgerFault)) = (some : Entry → Option Entry) :=
    rfl
  rw [hsome, List.filterMap_some]

end StoredTable

namespace Memory

/-- All that a listing of the table can find. -/
def entries (m : Memory) (table : String) : List Entry :=
  (m.tables.get? table).elim [] StoredTable.entries

variable {m : Memory} {table : String}

theorem Legible.exists_table (h : m.Legible table) :
    ∃ tb, m.tables.get? table = some tb ∧ tb.description.schema = Entry.schema ∧
      ∀ key item, tb.items.get? key = some item → ∃ e, Entry.ofItem item = .ok e := by
  obtain ⟨⟨tb, htb, hschema⟩, hdecodes⟩ := h
  refine ⟨tb, htb, hschema, fun key item hget => hdecodes key item ?_⟩
  rw [item?_of_table htb, hget]

theorem entries_of_table {tb : StoredTable} (htb : m.tables.get? table = some tb) :
    m.entries table = tb.entries := by
  rw [entries, htb, Option.elim_some]

theorem Legible.ids_entries (h : m.Legible table) {tb : StoredTable}
    (htb : m.tables.get? table = some tb) :
    Entry.ids (m.entries table) = tb.items.entries.map (·.1) := by
  obtain ⟨tb', htb', hschema, hdecodes⟩ := h.exists_table
  cases htb.symm.trans htb'
  obtain ⟨delivered, hread, hids⟩ := StoredTable.decodes_entries hschema hdecodes fun _ ha => ha
  rw [entries_of_table htb, StoredTable.entries, StoredTable.filterMap_ofItem hread, hids]

theorem Legible.nodup_ids (h : m.Legible table) : (Entry.ids (m.entries table)).Nodup := by
  obtain ⟨tb, htb, -⟩ := h.exists_table
  rw [h.ids_entries htb]
  exact (List.pairwise_map.mpr tb.items.sorted).imp ne_of_lt

theorem Legible.entryAt_eq_some_iff (h : m.Legible table) {id : String} {e : Entry} :
    m.entryAt table id = some e ↔ e ∈ m.entries table ∧ e.changeId = id := by
  obtain ⟨tb, htb, hschema, -⟩ := h.exists_table
  have hid : ∀ key item, tb.items.get? key = some item → Entry.ofItem item = .ok e →
      e.changeId = key := by
    intro key item hget hread
    have hkey := tb.keyed key item hget
    rw [hschema] at hkey
    exact Entry.changeId_of_ofItem hkey hread
  rw [entries_of_table htb, StoredTable.entries, List.mem_filterMap, entryAt, item?_of_table htb]
  constructor
  · intro hfound
    obtain ⟨item, hget, hread⟩ := Option.bind_eq_some_iff.mp hfound
    have hread := toOption_eq_some.mp hread
    exact ⟨⟨(id, item), Ordered.get?_eq_some_iff.mp hget, by rw [hread]; rfl⟩,
      hid id item hget hread⟩
  · rintro ⟨⟨⟨key, item⟩, hmem, hread⟩, rfl⟩
    have hget := Ordered.get?_eq_some_iff.mpr hmem
    have hkey := hid key item hget (toOption_eq_some.mp hread)
    rw [hkey, hget]
    exact hread

end Memory

namespace Ledger

variable {m : Memory} {table : String}

theorem guarded_reads {σ α : Type} {l : Ledger} {name : String} {after : Span} {first : σ}
    {mc : Machine Lifecycle σ (Except LedgerFault α)} {answer : α}
    (hfirst : mc.answer? first = none)
    (h : mc.Concludes (fun m' k' a => m' = m ∧ k' = .ready ∧ a = .ok answer) m .ready first) :
    (l.guarded name after first mc).Reads m .ready (.ok answer) := by
  intro t
  have hstart : (l.guarded name after first mc).start t .ready =
      Bounded.settle mc (fun _ k a => (observe k a, a)) () (t.elapsed.add after)
        (.ready, first) := by
    rw [Bounded.settle_of_none hfirst]
    rfl
  rw [hstart]
  refine Bounded.concludes_settle () _ (h.mono ?_)
  rintro m' k' a ⟨rfl, rfl, rfl⟩
  exact ⟨rfl, rfl, rfl⟩

theorem find_reads (hlegible : m.Legible table) (options : TableOptions) (changeId : String) :
    ((⟨table, options⟩ : Ledger).find changeId).Reads m .ready
      (.ok (m.entryAt table changeId)) := by
  obtain ⟨tb, htb, -⟩ := hlegible.exists_table
  have hanswer : entryOfAnswer (.ok (m.item? table changeId)) = .ok (m.entryAt table changeId) := by
    have hread := Memory.map_ofItem hlegible.decodes changeId
    cases hitem : m.item? table changeId with
    | none => simp [entryOfAnswer, Memory.entryAt, hitem]
    | some item =>
      rw [hitem] at hread
      obtain ⟨e, hentry, he⟩ := Option.map_eq_some_iff.mp hread.symm
      rw [entryOfAnswer, hentry, ← he]
      rfl
  refine guarded_reads rfl (.call rfl fun t => ?_)
  rw [Memory.perform_getItem_of_table htb]
  exact .done (congrArg Move.done hanswer) ⟨rfl, rfl, rfl⟩

end Ledger

/-- The decoded items before the cursor are gathered, and the others are to come. -/
theorem Listing.concludes {m : Memory} {l : Listing} {tb : StoredTable}
    (htb : m.tables.get? l.table = some tb) (hschema : tb.description.schema = Entry.schema)
    (hdecodes : ∀ key item, tb.items.get? key = some item → ∃ e, Entry.ofItem item = .ok e)
    {cursor : Option String} {front : List (String × Item)} {gathered : List Entry}
    (hsplit : tb.items.entries = front ++ tb.items.after cursor)
    (hread : front.map (fun a => Entry.ofItem a.2) = gathered.map .ok) :
    (l.machine (κ := Lifecycle)).Concludes
      (fun m' k' a => m' = m ∧ k' = .ready ∧ a = .ok tb.entries)
      m .ready (.reading cursor gathered) := by
  generalize hrest : tb.items.after cursor = rest at hsplit
  induction hn : rest.length using Nat.strong_induction_on generalizing cursor front gathered rest
  next n ih =>
  obtain ⟨here, more, hhere, hitems, hnext⟩ := tb.page_split cursor l.pageSize
  rw [hrest] at hhere
  have hall : tb.items.entries = (front ++ here) ++ more := by
    rw [hsplit, hhere, List.append_assoc]
  have hmem : ∀ a ∈ front ++ here, a ∈ tb.items.entries := by
    intro a ha
    rw [hall]
    exact List.mem_append_left _ ha
  obtain ⟨known, hknown, hids⟩ := StoredTable.decodes_entries hschema hdecodes hmem
  obtain ⟨gathered', delivered, rfl, hgathered, hdelivered⟩ : ∃ gathered' delivered,
      known = gathered' ++ delivered ∧ gathered'.map .ok = front.map (fun a => Entry.ofItem a.2) ∧
        delivered.map .ok = here.map fun a => Entry.ofItem a.2 := by
    rw [List.map_append] at hknown
    exact List.append_eq_map_iff.mp hknown
  obtain rfl : gathered' = gathered :=
    List.map_injective_iff.mpr (fun _ _ h => Except.ok.inj h) (hgathered.trans hread)
  have hincreasing : (Entry.ids (gathered' ++ delivered)).Pairwise (· < ·) := by
    have hsorted := tb.items.sorted
    rw [hall] at hsorted
    rw [hids]
    exact List.pairwise_map.mpr (List.pairwise_append.mp hsorted).1
  have hcollect : collect gathered' (tb.page cursor l.pageSize).items =
      .ok (gathered' ++ delivered) := by
    have hpage : (tb.page cursor l.pageSize).items.map Entry.ofItem = delivered.map .ok := by
      rw [hitems, List.map_map]
      exact hdelivered.symm
    rw [collect_eq hpage, foldl_adopt_increasing hincreasing]
  refine .call rfl fun t => ?_
  rw [Memory.perform_scan htb]
  simp only [afterPage, hcollect]
  rcases hnext with ⟨hlast, rfl⟩ | ⟨front', key, item, rfl, hmore⟩
  · rw [hlast]
    refine .done rfl ⟨rfl, rfl, ?_⟩
    rw [List.append_nil] at hall
    rw [StoredTable.entries, hall, StoredTable.filterMap_ofItem hknown]
  · rw [hmore]
    -- the next page begins behind this one, and less is left
    have hafter : tb.items.after (some key) = more := by
      have hhead : tb.items.after cursor = front' ++ (key, item) :: more := by
        rw [hrest, hhere, List.append_assoc, List.singleton_append]
      exact Ordered.after_passed hhead
    have hshorter : more.length < n := by
      rw [← hn, hhere, List.length_append, List.length_append, List.length_singleton]
      omega
    exact ih more.length hshorter hknown more hafter hall rfl

namespace Ledger

variable {m : Memory} {table : String}

theorem list_reads (hlegible : m.Legible table) (options : TableOptions) (after : Span) :
    ((⟨table, options⟩ : Ledger).list after).Reads m .ready (.ok (m.entries table)) := by
  obtain ⟨tb, htb, hschema, hdecodes⟩ := hlegible.exists_table
  rw [Memory.entries_of_table htb]
  have hnone : ([] : List (String × Item)).map (fun a => Entry.ofItem a.2) = [].map .ok := rfl
  exact guarded_reads rfl (Listing.concludes htb hschema hdecodes rfl hnone)

end Ledger

structure SameStory (log : List Entry) (found : String → Option Entry) : Prop where
  found_iff : ∀ id e, found id = some e ↔ e ∈ log ∧ e.changeId = id
  once : ∀ id e, found id = some e → log.filter (·.changeId = id) = [e]
  executed_iff : ∀ id author, Ledger.isExecutedBy author (found id) = true ↔
    ∃ e ∈ Ledger.executedOf log, e.changeId = id ∧ e.author = author

theorem SameStory.of_found_iff {log : List Entry} {found : String → Option Entry}
    (hdistinct : (Entry.ids log).Nodup)
    (h : ∀ id e, found id = some e ↔ e ∈ log ∧ e.changeId = id) : SameStory log found := by
  refine ⟨h, fun id e hfound => ?_, fun id author => ?_⟩
  · obtain ⟨hmem, rfl⟩ := (h id e).mp hfound
    obtain ⟨before, behind, rfl⟩ := List.append_of_mem hmem
    rw [Entry.ids, List.map_append, List.map_cons, List.nodup_middle, List.nodup_cons,
      List.mem_append, List.mem_map, List.mem_map] at hdistinct
    have hothers : ∀ d, d ∈ before ∨ d ∈ behind → d.changeId ≠ e.changeId := fun d hd hid =>
      hdistinct.1 (hd.imp (fun hd => ⟨d, hd, hid⟩) fun hd => ⟨d, hd, hid⟩)
    rw [List.filter_append, List.filter_cons, if_pos (by simp),
      List.filter_eq_nil_iff.mpr fun d hd => by simpa using hothers d (.inl hd),
      List.filter_eq_nil_iff.mpr fun d hd => by simpa using hothers d (.inr hd), List.nil_append]
  · rw [Ledger.isExecutedBy, Option.any_eq_true]
    constructor
    · rintro ⟨e, hfound, hsays⟩
      rw [Bool.and_eq_true, decide_eq_true_eq] at hsays
      obtain ⟨hmem, hid⟩ := (h id e).mp hfound
      exact ⟨e, List.mem_filter.mpr ⟨hmem, hsays.2⟩, hid, hsays.1⟩
    · rintro ⟨e, hmem, hid, hauthor⟩
      obtain ⟨hmem, hexecuted⟩ := List.mem_filter.mp hmem
      exact ⟨e, (h id e).mpr ⟨hmem, hid⟩, by simp [hauthor, hexecuted]⟩

/-- Looking a change up and listing the table tell the same, and change neither the store nor the
lifecycle. Every store is covered: by its type an item lies under its own key. -/
theorem reads_agree {m : Memory} {table : String} (hlegible : m.Legible table) :
    (∀ options after, ((⟨table, options⟩ : Ledger).list after).Reads m .ready
      (.ok (m.entries table))) ∧
    (∀ options id, ((⟨table, options⟩ : Ledger).find id).Reads m .ready
      (.ok (m.entryAt table id))) ∧
    SameStory (m.entries table) (m.entryAt table) :=
  ⟨Ledger.list_reads hlegible, Ledger.find_reads hlegible,
    .of_found_iff hlegible.nodup_ids fun _ _ => hlegible.entryAt_eq_some_iff⟩

/-- Two changes are put under a condition, then one of them without. -/
def stocked : Memory :=
  let calls : List Call := [.createTable "changes" Entry.schema,
    .putItem "changes" (CompleteLog.smallChange "b" "first").toItem (some .absent),
    .putItem "changes" (CompleteLog.smallChange "a" "first").toItem (some .absent),
    .putItem "changes" (CompleteLog.smallChange "b" "second").toItem none]
  calls.foldl (fun m c => (m.perform default c).2) {}

theorem reads_agree_of_stocked :
    stocked.Legible "changes" ∧
      ((stocked.entries "changes").map fun e => (e.changeId, e.changeSetMethod)) =
        [("a", "first"), ("b", "second")] ∧
      SameStory (stocked.entries "changes") (stocked.entryAt "changes") := by
  have hstock : ((stocked.tables.get? "changes").map fun tb => (tb.description.schema,
      tb.items.entries.all fun a => (Entry.ofItem a.2).toOption.isSome)) =
        some (Entry.schema, true) := by decide +kernel
  obtain ⟨tb, htb, hseen⟩ := Option.map_eq_some_iff.mp hstock
  have hdecodes : stocked.Decodes "changes" := by
    intro id item hitem
    rw [Memory.item?_of_table htb] at hitem
    have hread := List.all_eq_true.mp (congrArg (·.2) hseen) _ (Ordered.get?_eq_some_iff.mp hitem)
    obtain ⟨e, he⟩ := Option.isSome_iff_exists.mp hread
    exact ⟨e, toOption_eq_some.mp he⟩
  have hlegible : stocked.Legible "changes" := ⟨⟨tb, htb, congrArg (·.1) hseen⟩, hdecodes⟩
  exact ⟨hlegible, by decide +kernel, (reads_agree hlegible).2.2⟩

end MigrationLedger
