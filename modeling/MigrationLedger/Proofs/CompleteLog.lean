import Mathlib.Data.List.Sort
import MigrationLedger.Proofs.Paging
import MigrationLedger.Proofs.TableContents

/-! The log while others write. A listing goes through the table in the order of the keys. Records
do not go away, so none that was there at its start is missed, and none is seen twice. -/

namespace MigrationLedger

open Memory (Legible Grows)

def Entry.ids (entries : List Entry) : List String := entries.map (·.changeId)

theorem Listing.foldl_adopt_increasing {entries delivered : List Entry}
    (h : (Entry.ids (entries ++ delivered)).Pairwise (· < ·)) :
    delivered.foldl adopt entries = entries ++ delivered := by
  rw [Entry.ids, List.map_append, List.pairwise_append] at h
  obtain ⟨-, hdistinct, hfresh⟩ := h
  refine foldl_adopt_fresh (fun e he d hd => ?_) ?_
  · exact ne_of_lt (hfresh _ (List.mem_map_of_mem he) _ (List.mem_map_of_mem hd))
  · exact (List.pairwise_map.mp hdistinct).imp ne_of_lt

namespace StoredTable

theorem decodes_entries {t : StoredTable} (hschema : t.description.schema = Entry.schema)
    (hdecodes : ∀ key item, t.items.get? key = some item → ∃ e, Entry.ofItem item = .ok e)
    {fields : List (String × Item)} (h : ∀ a ∈ fields, a ∈ t.items.entries) :
    ∃ delivered, fields.map (fun a => Entry.ofItem a.2) = delivered.map .ok ∧
      Entry.ids delivered = fields.map (·.1) := by
  induction fields with
  | nil => exact ⟨[], rfl, rfl⟩
  | cons a rest ih =>
    obtain ⟨delivered, hread, hids⟩ := ih fun b hb => h b (List.mem_cons_of_mem _ hb)
    have hstored := Ordered.get?_eq_some_iff.mpr (h a (List.mem_cons_self ..))
    obtain ⟨e, he⟩ := hdecodes a.1 a.2 hstored
    have hkey := t.keyed a.1 a.2 hstored
    rw [hschema] at hkey
    refine ⟨e :: delivered, ?_, ?_⟩
    · rw [List.map_cons, List.map_cons, he, hread]
    · rw [Entry.ids, List.map_cons, List.map_cons, Entry.changeId_of_ofItem hkey he]
      exact congrArg _ hids

theorem field_of_delivered {t : StoredTable} (hschema : t.description.schema = Entry.schema)
    {fields : List (String × Item)} (h : ∀ a ∈ fields, a ∈ t.items.entries)
    {delivered : List Entry}
    (hread : fields.map (fun a => Entry.ofItem a.2) = delivered.map .ok) {e : Entry}
    (he : e ∈ delivered) :
    ∃ item, (e.changeId, item) ∈ fields ∧ Entry.ofItem item = .ok e := by
  have hmem : Except.ok e ∈ fields.map (fun a => Entry.ofItem a.2) := by
    rw [hread]
    exact List.mem_map_of_mem he
  obtain ⟨⟨key, item⟩, ha, hdecoded⟩ := List.mem_map.mp hmem
  have hkey := t.keyed key item (Ordered.get?_eq_some_iff.mpr (h _ ha))
  rw [hschema] at hkey
  refine ⟨item, ?_, hdecoded⟩
  rwa [Entry.changeId_of_ofItem hkey hdecoded]

end StoredTable

/-- What lies behind a cursor. -/
def PassedBy (cursor : Option String) (id : String) : Prop := ∃ key, cursor = some key ∧ id ≤ key

theorem passedBy_or_after {tb : StoredTable} {id : String} {item : Item}
    (h : tb.items.get? id = some item) (cursor : Option String) :
    PassedBy cursor id ∨ (id, item) ∈ tb.items.after cursor := by
  by_cases hpassed : PassedBy cursor id
  · exact .inl hpassed
  · refine .inr (Ordered.mem_after.mpr ⟨Ordered.get?_eq_some_iff.mp h, fun key hkey => ?_⟩)
    exact not_le.mp fun hle => hpassed ⟨key, hkey, hle⟩

theorem le_last_of_sorted {front : List (String × Item)} {last id : String} {item : Item}
    (hsorted : KeysSorted (front ++ [(last, item)]))
    (hid : id ∈ (front ++ [(last, item)]).map (·.1)) : id ≤ last := by
  rw [List.map_append, List.mem_append] at hid
  rcases hid with hid | hid
  · obtain ⟨a, ha, rfl⟩ := List.mem_map.mp hid
    exact le_of_lt ((List.pairwise_append.mp hsorted).2.2 a ha (last, item) (by simp))
  · exact le_of_eq (by simpa using hid)

/-- What a listing has gathered when it has passed the ids for which `passed` holds, in a table that
was as in `m₂` when it began and is as in `m` now. -/
structure Gathered (m₂ m : Memory) (table : String) (passed : String → Prop)
    (entries : List Entry) : Prop where
  increasing : (Entry.ids entries).Pairwise (· < ·)
  behind : ∀ id ∈ Entry.ids entries, passed id
  covers : ∀ id, passed id → (m₂.item? table id).isSome = true → id ∈ Entry.ids entries
  stored : ∀ id ∈ Entry.ids entries, (m.item? table id).isSome = true

namespace Gathered

variable {m₂ m m' : Memory} {table : String} {cursor : Option String} {entries : List Entry}

theorem grows {passed : String → Prop} (h : Gathered m₂ m table passed entries)
    (hm : Grows table m m') : Gathered m₂ m' table passed entries :=
  ⟨h.increasing, h.behind, h.covers, fun id hid => hm.stored id (h.stored id hid)⟩

/-- What a page adds, when it is made up of the fields `here`. -/
theorem append {tb : StoredTable} (h : Gathered m₂ m table (PassedBy cursor) entries)
    (htb : m.tables.get? table = some tb) {here : List (String × Item)} {delivered : List Entry}
    (hids : Entry.ids delivered = here.map (·.1)) (hhere : ∀ a ∈ here, a ∈ tb.items.after cursor)
    (hsorted : KeysSorted here) {passed : String → Prop}
    (hpassed : ∀ id, PassedBy cursor id ∨ id ∈ here.map (·.1) → passed id)
    (hcovers : ∀ id, passed id → (m₂.item? table id).isSome = true →
      PassedBy cursor id ∨ id ∈ here.map (·.1)) :
    Gathered m₂ m table passed (entries ++ delivered) := by
  have hall : Entry.ids (entries ++ delivered) = Entry.ids entries ++ here.map (·.1) := by
    rw [← hids]
    exact List.map_append
  have hbehind : ∀ id ∈ here.map (·.1), ∀ key, cursor = some key → key < id := by
    intro id hid
    obtain ⟨a, ha, rfl⟩ := List.mem_map.mp hid
    exact (Ordered.mem_after.mp (hhere a ha)).2
  refine ⟨?_, fun id hid => ?_, fun id hid hstored => ?_, fun id hid => ?_⟩
  · rw [hall]
    refine List.pairwise_append.mpr ⟨h.increasing, ?_, fun id hid other hother => ?_⟩
    · exact List.pairwise_map.mpr hsorted
    · obtain ⟨key, hkey, hle⟩ := h.behind id hid
      exact lt_of_le_of_lt hle (hbehind other hother key hkey)
  · rw [hall, List.mem_append] at hid
    exact hpassed id (hid.imp_left (h.behind id))
  · rw [hall, List.mem_append]
    exact (hcovers id hid hstored).imp_left fun hbefore => h.covers id hbefore hstored
  · rw [hall, List.mem_append] at hid
    rcases hid with hid | hid
    · exact h.stored id hid
    · obtain ⟨a, ha, rfl⟩ := List.mem_map.mp hid
      have hmem := (Ordered.mem_after.mp (hhere a ha)).1
      rw [Memory.item?_of_table htb, Ordered.get?_eq_some_iff.mpr hmem]
      rfl

/-- What is known after a page was read from the table `tb`. -/
structure Page (m₂ m : Memory) (table : String) (entries : List Entry) (page : MigrationLedger.Page)
    (delivered : List Entry) : Prop where
  read : page.items.map Entry.ofItem = delivered.map .ok
  admitted : delivered.foldl Listing.adopt entries = entries ++ delivered
  stored : ∀ e ∈ delivered, ∃ item ∈ page.items, Entry.ofItem item = .ok e ∧
    m.item? table e.changeId = some item
  last : page.next = none → Gathered m₂ m table (fun _ => True) (entries ++ delivered)
  more : ∀ key, page.next = some key → delivered ≠ [] ∧
    Gathered m₂ m table (PassedBy (some key)) (entries ++ delivered)

theorem page (h : Gathered m₂ m table (PassedBy cursor) entries) (hlegible : m.Legible table)
    (hkept : ∀ id, (m₂.item? table id).isSome = true → (m.item? table id).isSome = true)
    {tb : StoredTable} (htb : m.tables.get? table = some tb) (limit : Nat) :
    ∃ delivered, Page m₂ m table entries (tb.page cursor limit) delivered := by
  obtain ⟨⟨tb', htb', hschema⟩, hdecodes⟩ := hlegible
  cases htb.symm.trans htb'
  have hitem := Memory.item?_of_table htb
  have hdecodes' : ∀ key item, tb.items.get? key = some item → ∃ e, Entry.ofItem item = .ok e := by
    intro key item hget
    exact hdecodes key item ((hitem key).trans hget)
  obtain ⟨here, more, hsplit, hitems, hnext⟩ := tb.page_split cursor limit
  have hall := tb.items.sorted_after cursor
  rw [hsplit] at hall
  obtain ⟨hsorted, -, hbefore⟩ := List.pairwise_append.mp hall
  have hhere : ∀ a ∈ here, a ∈ tb.items.after cursor := fun a ha => by simp [hsplit, ha]
  have hentries : ∀ a ∈ here, a ∈ tb.items.entries := fun a ha =>
    (Ordered.mem_after.mp (hhere a ha)).1
  -- what was there at the start and is not behind the cursor is still to come
  have hcome : ∀ id, (m₂.item? table id).isSome = true →
      PassedBy cursor id ∨ id ∈ here.map (·.1) ∨ id ∈ more.map (·.1) := by
    intro id hid
    obtain ⟨item, hstored⟩ := Option.isSome_iff_exists.mp (hkept id hid)
    rw [hitem] at hstored
    refine (passedBy_or_after hstored cursor).imp_right fun hafter => ?_
    rw [hsplit, List.mem_append] at hafter
    exact hafter.imp List.mem_map_of_mem List.mem_map_of_mem
  obtain ⟨delivered, hread, hids⟩ := StoredTable.decodes_entries hschema hdecodes' hentries
  have hgathered : Gathered m₂ m table (fun id => PassedBy cursor id ∨ id ∈ here.map (·.1))
      (entries ++ delivered) :=
    h.append htb hids hhere hsorted (fun _ => id) fun _ hid _ => hid
  refine ⟨delivered, ?_, ?_, fun e he => ?_, fun hlast => ?_, fun key hmore => ?_⟩
  · rw [hitems, List.map_map]
    exact hread
  · exact Listing.foldl_adopt_increasing hgathered.increasing
  · obtain ⟨item, hfield, hdecoded⟩ := StoredTable.field_of_delivered hschema hentries hread he
    refine ⟨item, ?_, hdecoded, ?_⟩
    · rw [hitems]
      exact List.mem_map_of_mem hfield
    · rw [hitem]
      exact Ordered.get?_eq_some_iff.mpr (hentries _ hfield)
  · rcases hnext with ⟨-, rfl⟩ | ⟨front, key, item, -, hnext⟩
    · refine h.append htb hids hhere hsorted (fun _ _ => trivial) fun id _ hid => ?_
      simpa using hcome id hid
    · cases hlast.symm.trans hnext
  · rcases hnext with ⟨hnext, -⟩ | ⟨front, last, item, rfl, hnext⟩
    · cases hmore.symm.trans hnext
    · obtain rfl : last = key := Option.some.inj (hnext.symm.trans hmore)
      have hlast : ((last, item) : String × Item) ∈ front ++ [(last, item)] := by simp
      refine ⟨?_, h.append htb hids hhere hsorted (fun id hid => ?_) fun id hid hstored => ?_⟩
      · rintro rfl
        simp [Entry.ids] at hids
      · refine ⟨last, rfl, ?_⟩
        rcases hid with ⟨key, hkey, hle⟩ | hid
        · exact le_of_lt (lt_of_le_of_lt hle ((Ordered.mem_after.mp (hhere _ hlast)).2 key hkey))
        · exact le_last_of_sorted hsorted hid
      · obtain ⟨key, hkey, hle⟩ := hid
        cases hkey
        rcases hcome id hstored with hpassed | hid | hid
        · exact .inl hpassed
        · exact .inr hid
        · obtain ⟨a, ha, rfl⟩ := List.mem_map.mp hid
          exact absurd hle (not_le.mpr (hbefore _ hlast a ha))

end Gathered

/-! ## Listings turn by turn -/

namespace LedgerCall

def listing? : (call : LedgerCall) → call.Phase → Option Listing.Phase
  | list _, .active _ _ inner => some inner
  | list _, .ended answer => some (.done answer)
  | _, _ => none

variable {l : Ledger} {call : LedgerCall} {t : Moment} {m : Memory} {k : Lifecycle}
  {stimulus : Stimulus}

theorem listing?_start {after : Span} (h : call = .list after) (l : Ledger) (t : Moment) :
    call.listing? ((call.operation l).start t .ready).2 = some (.reading none []) := by
  subst h
  rfl

theorem listing?_settle {after : Span} (l : Listing) (note : Unit) (limit : Span) (k : Lifecycle)
    (q : Listing.Phase) :
    (list after).listing? (Bounded.settle l.machine (fun _ k a => (Ledger.observe k a, a)) note
      limit (k, q)).2 = some q := by
  cases q <;> rfl

/-- A listing that neither fails nor is given up reads a page in every turn. -/
theorem listing_turn {p : call.Phase} {q : Listing.Phase} (hp : call.listing? p = some q)
    (hcalm : stimulus.isCalm = true) {r : Turned Lifecycle call.Phase}
    (h : (call.operation l).machine.turn? t m k p stimulus = some r) :
    ∃ cursor entries x, q = .reading cursor entries ∧ stimulus = .reply ∧
      m.perform t.wall (.scan l.table cursor l.options.scanPageSize) = (x, r.memory) ∧
      r.exchange = some ⟨.scan l.table cursor l.options.scanPageSize, x⟩ ∧
      call.listing? r.state = some (Listing.afterPage entries x) := by
  cases call with
  | list after =>
    cases p with
    | ended answer => cases stimulus <;> cases h
    | active note limit inner =>
      obtain rfl : inner = q := Option.some.inj hp
      cases stimulus with
      | refuse fault => cases hcalm
      | expire => cases hcalm
      | wake => cases inner <;> cases h
      | reply =>
        cases inner with
        | done answer => cases h
        | reading cursor entries =>
          cases h
          exact ⟨cursor, entries, _, rfl, rfl, rfl, rfl, listing?_settle ..⟩
  | _ => cases hp

theorem listing_goes {p : call.Phase} {cursor : Option String} {entries : List Entry}
    (hp : call.listing? p = some (.reading cursor entries)) (l : Ledger) (t : Moment) (m : Memory)
    (k : Lifecycle) : ((call.operation l).machine.turn? t m k p .reply).isSome = true := by
  cases call with
  | list after =>
    cases p with
    | ended answer => cases hp
    | active note limit inner =>
      cases hp
      rfl
  | _ => cases hp

end LedgerCall

theorem Memory.perform_scan {m : Memory} {table : String} {tb : StoredTable}
    (htb : m.tables.get? table = some tb) (now : Instant) (cursor : Option String) (limit : Nat) :
    m.perform now (.scan table cursor limit) = (.ok (tb.page cursor limit), m) := by
  rw [perform, onTable, htb]

namespace CompleteLog

open TableContents (Drafted)

variable {ι γ : Type} {table : String} {options : γ → TableOptions}
  {calls : ι → RepositoryCall γ} {flow : Moment → Moment → Prop} {i : ι} [DecidableEq ι]

/-- How many calls of `i` the store has answered. -/
def callsOf (i : ι) (log : List (Crew.Note ι)) : Nat := log.countP (·.who = i)

theorem callsOf_note (s : (repositories table options calls).State) (i j : ι)
    (x : Option Exchange) :
    callsOf i (s.note j x) = callsOf i s.log + if j = i then x.toList.length else 0 := by
  cases x with
  | none => simp [Crew.State.note]
  | some x => simp [Crew.State.note, callsOf, List.countP_append, List.countP_singleton]

variable [DecidableEq γ]

/-- Between `s₂` and `s`, the listing `i` has read a page that held `e`, when that was what the
record of its change said. -/
structure ReadAt (flow : Moment → Moment → Prop)
    (s₂ s : (repositories table options calls).State) (i : ι) (e : Entry) : Prop where
  read : ∃ sᵣ sᵣ' cursor limit page item,
    (repositories table options calls).Reachable flow s₂ sᵣ ∧
    sᵣ.act? (.turn i .reply) = some sᵣ' ∧
    (repositories table options calls).Reachable flow sᵣ' s ∧
    sᵣ'.log = sᵣ.log ++ [⟨i, sᵣ.clock, ⟨.scan table cursor limit, .ok page⟩⟩] ∧
    item ∈ page.items ∧ sᵣ.memory.item? table e.changeId = some item ∧ Entry.ofItem item = .ok e

variable {s₂ s s' : (repositories table options calls).State}

theorem ReadAt.trans {e : Entry} (h : ReadAt flow s₂ s i e)
    (hs : (repositories table options calls).Reachable flow s s') : ReadAt flow s₂ s' i e := by
  obtain ⟨sᵣ, sᵣ', cursor, limit, page, item, hbefore, hturn, hafter, hread⟩ := h.read
  exact ⟨sᵣ, sᵣ', cursor, limit, page, item, hbefore, hturn, hafter.trans hs, hread⟩

/-- The listing `i` has passed the ids for which `passed` holds, and the store has answered it once
for each entry at most, or `more` times more. -/
structure Scanned (flow : Moment → Moment → Prop)
    (s₂ s : (repositories table options calls).State) (i : ι) (passed : String → Prop)
    (entries : List Entry) (more : Nat) : Prop where
  gathered : Gathered s₂.memory s.memory table passed entries
  read : ∀ e ∈ entries, ReadAt flow s₂ s i e
  answered : callsOf i s.log ≤ callsOf i s₂.log + entries.length + more

theorem Scanned.keeps {passed : String → Prop} {entries : List Entry} {more : Nat}
    (h : Scanned flow s₂ s i passed entries more)
    (hs : (repositories table options calls).Step flow s s')
    (hgrows : Grows table s.memory s'.memory) (hcalls : callsOf i s'.log = callsOf i s.log) :
    Scanned flow s₂ s' i passed entries more :=
  ⟨h.gathered.grows hgrows, fun e he => (h.read e he).trans (.single hs), hcalls ▸ h.answered⟩

/-- Where a listing stands that nothing has gone wrong with. -/
def StandsAt (flow : Moment → Moment → Prop)
    (s₂ s : (repositories table options calls).State) (i : ι) : Listing.Phase → Prop
  | .reading cursor entries => Scanned flow s₂ s i (PassedBy cursor) entries 0
  | .done (.ok entries) => Scanned flow s₂ s i (fun _ => True) entries 1
  | .done (.error _) => False

theorem StandsAt.keeps {q : Listing.Phase} (h : StandsAt flow s₂ s i q)
    (hs : (repositories table options calls).Step flow s s')
    (hgrows : Grows table s.memory s'.memory) (hcalls : callsOf i s'.log = callsOf i s.log) :
    StandsAt flow s₂ s' i q := by
  match q, h with
  | .reading _ _, h => exact Scanned.keeps h hs hgrows hcalls
  | .done (.ok _), h => exact Scanned.keeps h hs hgrows hcalls

/-- The listing `i` is under way since `s₂`. -/
structure Underway (flow : Moment → Moment → Prop)
    (s₂ s : (repositories table options calls).State) (i : ι) : Prop where
  reachable : (repositories table options calls).Reachable flow s₂ s
  drafted : Drafted s
  grows : Grows table s₂.memory s.memory
  stands : ∃ p q, s.phase i = some p ∧ (calls i).call.listing? p = some q ∧
    StandsAt flow s₂ s i q

theorem Underway.turn (h : Underway flow s₂ s i) {p : (calls i).call.Phase}
    {stimulus : Stimulus} (hcalm : stimulus.isCalm = true)
    {r : Turned Lifecycle (calls i).call.Phase} (hp : s.phase i = some p)
    (hr : ((repositories table options calls).operation i).machine.turn? s.clock s.memory
      (s.cellOf i) p stimulus = some r) :
    ∃ q, (calls i).call.listing? r.state = some q ∧ StandsAt flow s₂ (s.after i r) i q := by
  obtain ⟨p', q, hp', hq, hstands⟩ := h.stands
  cases hp.symm.trans hp'
  obtain ⟨cursor, entries, x, rfl, rfl, hperform, hx, hstate⟩ := LedgerCall.listing_turn hq hcalm hr
  obtain ⟨tb, htb, hschema⟩ := h.grows.legible.present
  rw [Memory.perform_scan htb] at hperform
  obtain ⟨rfl, hm⟩ := Prod.mk.inj hperform
  have hstands : Scanned flow s₂ s i (PassedBy cursor) entries 0 := hstands
  obtain ⟨delivered, hpage⟩ := hstands.gathered.page h.grows.legible h.grows.stored htb
    (options (calls i).repository).scanPageSize
  have hact : s.act? (.turn i .reply) = some (s.after i r) := by
    rw [Crew.State.act?, hp]
    exact congrArg (Option.map _) hr
  have hlog : (s.after i r).log = s.log ++ [⟨i, s.clock, ⟨.scan table cursor
      (options (calls i).repository).scanPageSize, .ok (tb.page cursor
        (options (calls i).repository).scanPageSize)⟩⟩] := by
    change s.note i r.exchange = _
    rw [hx, Crew.State.note]
  have hread : ∀ e ∈ entries ++ delivered, ReadAt flow s₂ (s.after i r) i e := by
    intro e he
    rcases List.mem_append.mp he with he | he
    · exact (hstands.read e he).trans (.single (.act hact))
    · obtain ⟨item, hitem, hdecoded, hstored⟩ := hpage.stored e he
      exact ⟨s, s.after i r, cursor, _, _, item, h.reachable, hact, .refl, hlog, hitem, hstored,
        hdecoded⟩
  have hcalls : callsOf i (s.after i r).log = callsOf i s.log + 1 := by
    rw [hlog]
    simp [callsOf]
  have hmemory : (s.after i r).memory = s.memory := hm.symm
  have hanswered := hstands.answered
  refine ⟨_, hstate, ?_⟩
  rw [Listing.afterPage, Listing.collect_eq hpage.read, hpage.admitted]
  cases hnext : (tb.page cursor (options (calls i).repository).scanPageSize).next with
  | none =>
    refine ⟨?_, hread, ?_⟩
    · rw [hmemory]
      exact hpage.last hnext
    · rw [hcalls, List.length_append]
      omega
  | some key =>
    obtain ⟨hne, hmore⟩ := hpage.more key hnext
    have hlength := List.length_pos_iff.mpr hne
    refine ⟨?_, hread, ?_⟩
    · rw [hmemory]
      exact hmore
    · rw [hcalls, List.length_append]
      omega

theorem Underway.step (h : Underway flow s₂ s i) (hdated : ∀ j, (calls j).call.Dated)
    (hs : (repositories table options calls).StepIf flow (fun e => e.who = i → e.isCalm = true)
      s s') : Underway flow s₂ s' i := by
  have hstep := hs.step
  have hgrows := (h.drafted.grows_step hdated h.grows.legible hstep).1
  refine ⟨h.reachable.tail hstep, h.drafted.step hdated hstep, h.grows.trans hgrows, ?_⟩
  obtain ⟨p, q, hp, hq, hstands⟩ := h.stands
  cases hs with
  | pass ht => exact ⟨p, q, hp, hq, hstands.keeps hstep hgrows rfl⟩
  | @act e s' hcalm hact =>
    cases e with
    | start j =>
      obtain ⟨hj, rfl⟩ := Crew.State.start_inv hact
      have hne : i ≠ j := by
        rintro rfl
        cases hp.symm.trans hj
      exact ⟨p, q, (Crew.State.settle_phase_of_ne s hne _ _).trans hp, hq,
        hstands.keeps hstep hgrows rfl⟩
    | turn j stimulus =>
      obtain ⟨p', r, hp', hr, rfl⟩ := Crew.State.turn_inv hact
      by_cases hji : j = i
      · subst hji
        obtain ⟨q', hq', hstands'⟩ := h.turn (hcalm rfl) hp' hr
        exact ⟨r.state, q', Crew.State.after_phase_self s j r, hq', hstands'⟩
      · refine ⟨p, q, (Crew.State.after_phase_of_ne s (Ne.symm hji) r).trans hp, hq,
          hstands.keeps hstep hgrows ?_⟩
        change callsOf i (s.note j r.exchange) = _
        rw [callsOf_note, if_neg hji, Nat.add_zero]

theorem Underway.run (h : Underway flow s₂ s₂ i) (hdated : ∀ j, (calls j).call.Dated)
    (hs : (repositories table options calls).ReachableIf flow (fun e => e.who = i → e.isCalm = true)
      s₂ s) : Underway flow s₂ s i := by
  induction hs with
  | refl => exact h
  | tail _ hstep ih => exact ih.step hdated hstep

/-! ## The log -/

/-- The entries with which the listing `i` has answered. -/
structure Complete (flow : Moment → Moment → Prop)
    (s₂ s : (repositories table options calls).State) (i : ι) (entries : List Entry) : Prop where
  distinct : (Entry.ids entries).Nodup
  complete : ∀ id, (s₂.memory.item? table id).isSome = true → (Entry.ids entries).count id = 1
  authentic : ∀ e ∈ entries, ReadAt flow s₂ s i e
  /-- Without a put they are the decoded table in the order of its keys. -/
  alone : Crew.writers s.log = Crew.writers s₂.log → ∀ tb, s₂.memory.tables.get? table = some tb →
    tb.items.entries.map (fun a => Entry.ofItem a.2) = entries.map .ok

/-- The listing `i` is complete, or it can go on, and has been answered at most as often as there
are records. -/
def Lists (flow : Moment → Moment → Prop) (s₂ s : (repositories table options calls).State)
    (i : ι) : Listing.Phase → Prop
  | .reading _ _ => (s.act? (.turn i .reply)).isSome = true ∧
      ∀ tb, s.memory.tables.get? table = some tb →
        callsOf i s.log ≤ callsOf i s₂.log + tb.items.size
  | .done (.ok entries) => Complete flow s₂ s i entries
  | .done (.error _) => False

theorem Scanned.length_le {passed : String → Prop} {entries : List Entry} {more : Nat}
    (h : Scanned flow s₂ s i passed entries more) {tb : StoredTable}
    (htb : s.memory.tables.get? table = some tb) : entries.length ≤ tb.items.size := by
  have hdistinct : (Entry.ids entries).Nodup := h.gathered.increasing.imp ne_of_lt
  have hstored : Entry.ids entries ⊆ tb.items.entries.map (·.1) := by
    intro id hid
    have hsome := h.gathered.stored id hid
    rw [Memory.item?_of_table htb] at hsome
    obtain ⟨item, hitem⟩ := Option.isSome_iff_exists.mp hsome
    exact List.mem_map.mpr ⟨_, Ordered.get?_eq_some_iff.mp hitem, rfl⟩
  have hlength := (List.subperm_of_subset hdistinct hstored).length_le
  rw [Entry.ids, List.length_map, List.length_map] at hlength
  exact hlength

/-- What was gathered from a table that stays as it is. -/
theorem Underway.alone (h : Underway flow s₂ s i) (hdrafted : Drafted s₂)
    (hdated : ∀ j, (calls j).call.Dated) (hlegible : s₂.memory.Legible table)
    {entries : List Entry} (hscanned : Scanned flow s₂ s i (fun _ => True) entries 1)
    (hquiet : Crew.writers s.log = Crew.writers s₂.log) {tb : StoredTable}
    (htb : s₂.memory.tables.get? table = some tb) :
    tb.items.entries.map (fun a => Entry.ofItem a.2) = entries.map .ok := by
  obtain ⟨⟨tb', htb', hschema⟩, hdecodes⟩ := hlegible
  cases htb.symm.trans htb'
  have hitem := Memory.item?_of_table htb
  obtain ⟨delivered, hread, hids⟩ := StoredTable.decodes_entries hschema
    (fun key item hget => hdecodes key item ((hitem key).trans hget)) fun _ ha => ha
  have hdistinct : (tb.items.entries.map (·.1)).Pairwise (· < ·) :=
    List.pairwise_map.mpr tb.items.sorted
  -- both lists of ids increase, and hold the ids of the table
  have hsame : Entry.ids entries = Entry.ids delivered := by
    rw [hids]
    refine hscanned.gathered.increasing.eq_of_mem_iff hdistinct fun id =>
      ⟨fun hid => ?_, fun hid => ?_⟩
    · have hsome := hscanned.gathered.stored id hid
      rw [(hdrafted.grows_run hdated ⟨⟨tb, htb, hschema⟩, hdecodes⟩ h.reachable).2 hquiet, hitem]
        at hsome
      obtain ⟨item, hget⟩ := Option.isSome_iff_exists.mp hsome
      exact List.mem_map.mpr ⟨_, Ordered.get?_eq_some_iff.mp hget, rfl⟩
    · obtain ⟨a, ha, rfl⟩ := List.mem_map.mp hid
      refine hscanned.gathered.covers a.1 trivial ?_
      rw [hitem, Ordered.get?_eq_some_iff.mpr ha]
      rfl
  have hentries : entries.map some = (Entry.ids entries).map (s₂.memory.entryAt table) := by
    rw [Entry.ids, List.map_map]
    refine List.map_congr_left fun e he => ?_
    obtain ⟨sᵣ, sᵣ', cursor, limit, page, item, hbefore, hturn, hafter, -, -, hstored, hdecoded⟩ :=
      (hscanned.read e he).read
    have hquiet' := Crew.writers_between hbefore
      ((Relation.ReflTransGen.single (.act hturn)).trans hafter) hquiet
    have hgrows := hdrafted.grows_run hdated ⟨⟨tb, htb, hschema⟩, hdecodes⟩ hbefore
    rw [hgrows.2 hquiet'] at hstored
    simp only [Function.comp, Memory.entryAt]
    rw [hstored, Option.bind_some, hdecoded]
    rfl
  have hdelivered : delivered.map some = (Entry.ids delivered).map (s₂.memory.entryAt table) := by
    rw [hids, List.map_map]
    have hoptions := congrArg (List.map Except.toOption) hread
    rw [List.map_map, List.map_map] at hoptions
    refine hoptions.symm.trans (List.map_congr_left fun a ha => ?_)
    simp only [Function.comp, Memory.entryAt]
    rw [hitem, Ordered.get?_eq_some_iff.mpr ha]
    rfl
  rw [hsame, ← hdelivered] at hentries
  rw [hread, List.map_injective_iff.mpr (Option.some_injective _) hentries]

/-- The log is complete, without repetition and authentic, whatever is saved meanwhile. From any
other store, it is the first version of every change that the pages deliver. -/
theorem log_complete {m₀ : Memory} {t₀ : Moment} {cells : γ → Lifecycle}
    (hdated : ∀ j, (calls j).call.Dated) {s₁ : (repositories table options calls).State}
    (hs₁ : (repositories table options calls).Reachable flow
      ((repositories table options calls).initial m₀ t₀ cells) s₁)
    (hlegible : s₁.memory.Legible table) {after : Span} (hlist : (calls i).call = .list after)
    (hready : s₁.cellOf i = .ready) (hstart : s₁.act? (.start i) = some s₂)
    (hs : (repositories table options calls).ReachableIf flow
      (fun e => e.who = i → e.isCalm = true) s₂ s) :
    (∃ p q, s.phase i = some p ∧ (calls i).call.listing? p = some q ∧ Lists flow s₂ s i q) ∧
      ∀ (S : Type) (respond : S → (c : Call) → Answer c × S) (store : S) (l : Ledger) (t : Moment)
        (pages : List Page) (delivered : List Entry) (answer : Except LedgerFault (List Entry)),
        Delivers respond l.table l.options.scanPageSize store none pages →
        (pages.flatMap Page.items).map Entry.ofItem = delivered.map .ok →
        ((l.list after).machine.Ends respond store ((l.list after).start t .ready).1
          ((l.list after).start t .ready).2 answer ↔ answer = .ok (Listing.firsts delivered)) := by
  refine ⟨?_, fun S respond store l t pages delivered answer hpages hdecodes =>
    l.list_firsts after t hpages hdecodes⟩
  have hinitial : Drafted ((repositories table options calls).initial m₀ t₀ cells) := nofun
  have hdrafted₁ := hinitial.run hdated hs₁
  have hstep : (repositories table options calls).Step flow s₁ s₂ := .act hstart
  have hdrafted := hdrafted₁.step hdated hstep
  obtain ⟨-, rfl⟩ := Crew.State.start_inv hstart
  have hphase := LedgerCall.listing?_start hlist ⟨table, options (calls i).repository⟩ s₁.clock
  rw [← hready] at hphase
  have hunderway : Underway flow _ s i := Underway.run ⟨.refl, hdrafted, .refl hlegible, _, _,
    Crew.State.settle_phase_self .., hphase, ⟨⟨.nil, nofun, fun id hid => ?_, nofun⟩, nofun, ?_⟩⟩
    hdated hs
  · obtain ⟨p, q, hp, hq, hstands⟩ := hunderway.stands
    refine ⟨p, q, hp, hq, ?_⟩
    match q, hstands with
    | .reading cursor entries, hscanned =>
      refine ⟨?_, fun tb htb => ?_⟩
      · rw [Crew.State.act?, hp, Option.isSome_map]
        exact LedgerCall.listing_goes hq ..
      · have hlength := Scanned.length_le hscanned htb
        have hanswered := Scanned.answered hscanned
        omega
    | .done (.ok entries), hscanned =>
      have hscanned : Scanned flow _ s i (fun _ => True) entries 1 := hscanned
      have hdistinct : (Entry.ids entries).Nodup := hscanned.gathered.increasing.imp ne_of_lt
      refine ⟨hdistinct, fun id hid => ?_, hscanned.read, fun hquiet tb htb => ?_⟩
      · exact List.count_eq_one_of_mem hdistinct (hscanned.gathered.covers id trivial hid)
      · exact hunderway.alone hdrafted hdated hlegible hscanned hquiet htb
  · obtain ⟨key, hkey, -⟩ := hid
    cases hkey
  · simp

def smallChange (id method : String) : Entry where
  changeId := id
  executionId := "run-1"
  author := "ops"
  changeLogClass := "Users"
  changeSetMethod := method
  timestamp := ⟨0, 0⟩

/-- One repository lists, one item a page; the other one saves. -/
def insertionCalls : Fin 6 → RepositoryCall Bool
  | 0 => ⟨true, .save (smallChange "b" "first") (.ofSeconds 30)⟩
  | 1 => ⟨true, .save (smallChange "d" "first") (.ofSeconds 30)⟩
  | 2 => ⟨false, .list (.ofSeconds 30)⟩
  | 3 => ⟨true, .save (smallChange "a" "second") (.ofSeconds 30)⟩
  | 4 => ⟨true, .save (smallChange "c" "second") (.ofSeconds 30)⟩
  | 5 => ⟨true, .save (smallChange "d" "second") (.ofSeconds 30)⟩

def insertionStart :
    (repositories "changes" (fun _ => ⟨.ofSeconds 30, .ofMillis 200, 0, .ofMillis 5⟩)
      insertionCalls).State :=
  (repositories "changes" (fun _ => ⟨.ofSeconds 30, .ofMillis 200, 0, .ofMillis 5⟩)
    insertionCalls).initial (({} : Memory).createActive "changes" Entry.schema default) default
    fun _ => .ready

def savedScript (i : Fin 6) : Crew.Script (Fin 6) :=
  [(default, .start i), (default, .turn i .reply), (default, .turn i .reply)]

/-- When the first page has been read, one record is inserted before the cursor, one after it, and
one that is still to be read is saved again. -/
def insertionScript : Crew.Script (Fin 6) :=
  [(default, .turn 2 .reply)] ++ savedScript 3 ++ savedScript 4 ++ savedScript 5 ++
    [(default, .turn 2 .reply), (default, .turn 2 .reply)]

def listedIds : Listing.Phase → Option (List (String × String))
  | .done (.ok entries) => some (entries.map fun e => (e.changeId, e.changeSetMethod))
  | _ => none

theorem log_complete_of_insertions :
    ∃ s₁ s₂ s entries,
      insertionStart.play? (fun _ _ => True) (savedScript 0 ++ savedScript 1) = some s₁ ∧
      s₁.act? (.start 2) = some s₂ ∧ s₂.play? (fun _ _ => True) insertionScript = some s ∧
      Complete (fun _ _ => True) s₂ s 2 entries ∧
      (entries.map fun e => (e.changeId, e.changeSetMethod)) =
        [("b", "first"), ("c", "second"), ("d", "second")] := by
  have hrun : ((insertionStart.play? (fun _ _ => True) (savedScript 0 ++ savedScript 1)).bind
      fun s₁ => (s₁.act? (.start 2)).bind fun s₂ =>
        (s₂.play? (fun _ _ => True) insertionScript).map fun s =>
          (s₁.cells false, ((s.phase 2).bind (insertionCalls 2).call.listing?).bind listedIds)) =
      some (.ready, some [("b", "first"), ("c", "second"), ("d", "second")]) := by decide +kernel
  obtain ⟨s₁, hs₁, hrun⟩ := Option.bind_eq_some_iff.mp hrun
  obtain ⟨s₂, hstart, hrun⟩ := Option.bind_eq_some_iff.mp hrun
  obtain ⟨s, hs, hseen⟩ := Option.map_eq_some_iff.mp hrun
  have hready : s₁.cellOf 2 = .ready := congrArg (·.1) hseen
  obtain ⟨q, hlisting, hlisted⟩ := Option.bind_eq_some_iff.mp (congrArg (·.2) hseen)
  obtain ⟨p, hp, hq⟩ := Option.bind_eq_some_iff.mp hlisting
  have hdated : ∀ j, (insertionCalls j).call.Dated := by
    have hzero : Instant.IsValid ⟨0, 0⟩ := by decide
    intro j
    match j with
    | 2 => trivial
    | 0 | 1 | 3 | 4 | 5 => exact hzero
  have hreach₁ := Crew.State.reachable_of_play hs₁
  have hdrafted : Drafted insertionStart := nofun
  have hlegible : insertionStart.memory.Legible "changes" := by
    refine ⟨⟨_, Ordered.get?_insert_self .., rfl⟩, fun id item hid => ?_⟩
    cases hid
  have hcalm : ∀ te ∈ insertionScript, te.2.who = 2 → te.2.isCalm = true := by decide
  have hlog := (log_complete (i := 2) hdated hreach₁
    (hdrafted.grows_run hdated hlegible hreach₁).1.legible rfl hready hstart
    (Crew.State.reachableIf_of_play hcalm hs)).1
  obtain ⟨p', q', hp', hq', hlists⟩ := hlog
  cases hp.symm.trans hp'
  cases hq.symm.trans hq'
  match q, hlists, hlisted with
  | .done (.ok entries), hcomplete, hlisted =>
    exact ⟨s₁, s₂, s, entries, hs₁, hstart, hs, hcomplete, Option.some.inj hlisted⟩

end CompleteLog

end MigrationLedger
