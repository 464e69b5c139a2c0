import Mathlib.Data.String.Basic
import MigrationLedger.Proofs.Readiness
import MigrationLedger.Proofs.SaveOrder

/-! What is in a table, and what the operations of ledgers make of it. A record that is there stays,
and whatever is put can be read back as an entry. -/

namespace MigrationLedger

namespace Ordered

variable {α : Type} {m : Ordered α} {key : String} {value : α}

theorem mem_of_valueAt {fields : List (String × α)} (h : valueAt key fields = some value) :
    (key, value) ∈ fields := by
  induction fields with
  | nil => cases h
  | cons f rest ih =>
    rw [valueAt] at h
    split at h
    · next hkey =>
      rw [← hkey, ← Option.some.inj h]
      simp
    · exact List.mem_cons_of_mem _ (ih h)

theorem valueAt_of_mem {fields : List (String × α)} (hsorted : KeysSorted fields)
    (h : (key, value) ∈ fields) : valueAt key fields = some value := by
  induction fields with
  | nil => cases h
  | cons f rest ih =>
    obtain ⟨hf, hrest⟩ := List.pairwise_cons.mp hsorted
    rcases List.mem_cons.mp h with rfl | h
    · exact if_pos rfl
    · have hne : f.1 ≠ key := ne_of_lt (hf _ h)
      rw [valueAt, if_neg hne]
      exact ih hrest h

theorem get?_eq_some_iff : m.get? key = some value ↔ (key, value) ∈ m.entries :=
  ⟨mem_of_valueAt, valueAt_of_mem m.sorted⟩

theorem mem_after {cursor : Option String} {a : String × α} :
    a ∈ m.after cursor ↔ a ∈ m.entries ∧ ∀ key, cursor = some key → key < a.1 := by
  cases cursor with
  | none => simp [after]
  | some key => simp [after]

theorem sorted_after (m : Ordered α) (cursor : Option String) : KeysSorted (m.after cursor) := by
  cases cursor with
  | none => exact m.sorted
  | some key => exact m.sorted.filter _

/-- What comes after a key that was passed is what came after it already. -/
theorem after_passed {cursor : Option String} {front more : List (String × α)}
    (h : m.after cursor = front ++ (key, value) :: more) : m.after (some key) = more := by
  have hall := m.sorted_after cursor
  rw [h] at hall
  obtain ⟨-, htail, hbefore⟩ := List.pairwise_append.mp hall
  obtain ⟨hmore, -⟩ := List.pairwise_cons.mp htail
  have hpassed : ∀ a ∈ m.entries, key < a.1 → a ∈ m.after cursor := by
    intro a ha hlt
    refine mem_after.mpr ⟨ha, fun start hstart => lt_trans ?_ hlt⟩
    have hkey : (key, value) ∈ m.after cursor := by simp [h]
    exact (mem_after.mp hkey).2 start hstart
  have hfilter : m.after (some key) = (m.after cursor).filter (key < ·.1) := by
    cases cursor with
    | none => rfl
    | some start =>
      rw [after, after, List.filter_filter]
      refine List.filter_congr fun a ha => ?_
      by_cases hlt : key < a.1
      · have hstart := (mem_after.mp (hpassed a ha hlt)).2 start rfl
        simp [hlt, hstart]
      · simp [hlt]
  have hfront : front.filter (key < ·.1) = [] := by
    refine List.filter_eq_nil_iff.mpr fun a ha => ?_
    have hlt := hbefore a ha (key, value) (by simp)
    rw [decide_eq_true_eq]
    exact not_lt.mpr (le_of_lt hlt)
  have hrest : more.filter (key < ·.1) = more :=
    List.filter_eq_self.mpr fun a ha => decide_eq_true (hmore a ha)
  rw [hfilter, h, List.filter_append, List.filter_cons, hfront, hrest]
  simp

end Ordered

/-! ## Calls -/

/-- What happens to a table that is there: its items stay, or one is put. -/
inductive StoredTable.Next (name : String) (t : StoredTable) (x : Option Exchange)
    (t' : StoredTable) : Prop where
  | same (hitems : t'.items = t.items)
  | put (item : Item) (condition : Option Condition) (key : String)
      (hx : x = some ⟨.putItem name item condition, .ok ()⟩)
      (hkey : t.description.schema.keyOf item = .ok key)
      (hitems : t'.items = t.items.insert key item)

namespace Memory

variable {m : Memory} {now : Instant} {name : String} {t : StoredTable}

theorem get?_setTable_of_ne (m : Memory) {other : String} (hne : name ≠ other) (t : StoredTable) :
    (m.setTable other t).tables.get? name = m.tables.get? name :=
  Ordered.get?_insert_of_ne _ hne t

theorem perform_table (ht : m.tables.get? name = some t) (now : Instant) (c : Call) :
    ∃ t', (m.perform now c).2.tables.get? name = some t' ∧
      t'.description.schema = t.description.schema ∧
      t.Next name (some ⟨c, (m.perform now c).1⟩) t' := by
  cases c with
  | tableExists table => exact ⟨t, ht, rfl, .same rfl⟩
  | createTable table schema =>
    rw [perform]
    split
    · exact ⟨t, ht, rfl, .same rfl⟩
    · next habsent =>
      have hne : name ≠ table := by
        rintro rfl
        rw [Ordered.contains, ht] at habsent
        exact habsent rfl
      exact ⟨t, (get?_setTable_of_ne m hne _).trans ht, rfl, .same rfl⟩
  | describeTable table =>
    by_cases hname : name = table
    · subst hname
      refine ⟨t.describe, ?_, describe_schema t, .same t.items_describe⟩
      rw [perform, ht]
      exact Ordered.get?_insert_self ..
    · refine ⟨t, ?_, rfl, .same rfl⟩
      rw [perform]
      split
      · exact ht
      · exact (get?_setTable_of_ne m hname _).trans ht
  | putItem table item condition =>
    rw [perform, onTable]
    cases htable : m.tables.get? table with
    | none => exact ⟨t, ht, rfl, .same rfl⟩
    | some u =>
      dsimp only
      cases hput : u.put item condition with
      | error fault => exact ⟨t, ht, rfl, .same rfl⟩
      | ok u' =>
        by_cases hname : name = table
        · subst hname
          cases ht.symm.trans htable
          obtain ⟨key, hkey, -, rfl⟩ := StoredTable.put_eq_ok hput
          exact ⟨_, Ordered.get?_insert_self .., rfl, .put item condition key rfl hkey rfl⟩
        · exact ⟨t, (get?_setTable_of_ne m hname _).trans ht, rfl, .same rfl⟩
  | getItem table key =>
    refine ⟨t, ?_, rfl, .same rfl⟩
    rw [perform, onTable]
    cases m.tables.get? table <;> exact ht
  | scan table cursor limit =>
    refine ⟨t, ?_, rfl, .same rfl⟩
    rw [perform, onTable]
    cases m.tables.get? table <;> exact ht

end Memory

theorem Machine.turn_table {κ σ α : Type} {mc : Machine κ σ α} {t : Moment} {m : Memory} {k : κ}
    {s : σ} {stimulus : Stimulus} {r : Turned κ σ} (h : mc.turn? t m k s stimulus = some r)
    {name : String} {tb : StoredTable} (htb : m.tables.get? name = some tb) :
    ∃ tb', r.memory.tables.get? name = some tb' ∧
      tb'.description.schema = tb.description.schema ∧ tb.Next name r.exchange tb' := by
  obtain ⟨c, hx, hm⟩ | hm := turn_memory h
  · rw [hx, hm]
    exact Memory.perform_table htb t.wall c
  · rw [hm]
    exact ⟨tb, htb, rfl, .same rfl⟩

/-! ## Operations of ledgers -/

/-- What is about to be written reads back as an entry. -/
def Draft.Decodes (d : Draft) : Prop := ∃ e, Entry.ofItem d.written = .ok e

namespace LedgerCall

/-- Whatever is to be saved carries an instant of the calendar. -/
def Dated : LedgerCall → Prop
  | save e _ => e.timestamp.IsValid
  | _ => True

def draft? : (call : LedgerCall) → call.Phase → Option Draft
  | save .., p => Bounded.draft? p
  | _, _ => none

variable {l : Ledger} {call : LedgerCall} {t : Moment} {m : Memory} {k : Lifecycle}
  {stimulus : Stimulus}

theorem decodes_of_permits {e : Entry} (hdated : e.timestamp.IsValid) {d : Draft}
    (h : (l.saving e).Permits t d) : d.Decodes := by
  obtain ⟨stored, -, hitem⟩ := Ledger.permits_saving h
  refine ⟨Entry.merge stored e.canonical, ?_⟩
  rw [Draft.written, hitem, Item.withRevision, Entry.ofItem_merged hdated]

theorem draft?_start (l : Ledger) (call : LedgerCall) (t : Moment) (k : Lifecycle) :
    call.draft? ((call.operation l).start t k).2 = none := by
  cases call with
  | save e after => exact SaveOrder.draft?_start l e after t k
  | _ => rfl

def saves : LedgerCall → Bool
  | save .. => true
  | _ => false

theorem isPut_turn (hquiet : call.saves = false) {p : call.Phase} {r : Turned Lifecycle call.Phase}
    (h : (call.operation l).machine.turn? t m k p stimulus = some r) :
    r.exchange.any isPut = false := by
  cases call with
  | save e after => cases hquiet
  | _ =>
    obtain ⟨note, limit, inner, rfl, ⟨q, hq, hx, -⟩ | ⟨hx, -⟩⟩ := Bounded.turn_inv h
    · rw [hx]
      cases stimulus <;> cases inner <;> cases hq <;> rfl
    · rw [hx]
      rfl

theorem turn_decodes (hdated : call.Dated) {p : call.Phase}
    (hp : ∀ d, call.draft? p = some d → d.Decodes) {r : Turned Lifecycle call.Phase}
    (h : (call.operation l).machine.turn? t m k p stimulus = some r) :
    (∀ d, call.draft? r.state = some d → d.Decodes) ∧
      ∀ name item condition, r.exchange = some ⟨.putItem name item condition, .ok ()⟩ →
        ∃ e, Entry.ofItem item = .ok e := by
  have hsilent : r.exchange.any isPut = false → ∀ name item condition,
      r.exchange = some ⟨.putItem name item condition, .ok ()⟩ →
        ∃ e, Entry.ofItem item = .ok e := by
    intro hx name item condition hput
    rw [hput] at hx
    cases hx
  cases call with
  | prepare allowCreate after => exact ⟨nofun, hsilent (isPut_turn rfl h)⟩
  | list after => exact ⟨nofun, hsilent (isPut_turn rfl h)⟩
  | find changeId => exact ⟨nofun, hsilent (isPut_turn rfl h)⟩
  | save e after =>
    have heffect := Bounded.effect h
    cases heffect with
    | idle hafter hm hx =>
      refine ⟨fun d hd => ?_, hsilent hx⟩
      cases hafter.symm.trans hd
    | read d hafter hm hx hread hpermits =>
      refine ⟨fun d' hd => ?_, hsilent (by rw [hx]; rfl)⟩
      cases hafter.symm.trans hd
      exact decodes_of_permits hdated hpermits
    | wrote d key hbefore hafter hx hkey hunchanged hputs =>
      refine ⟨fun d' hd => ?_, fun name item condition hput => ?_⟩
      · cases hafter.symm.trans hd
      · rw [hx] at hput
        cases hput
        exact hp d hbefore

end LedgerCall

/-! ## What stays -/

namespace Memory

variable {m m' : Memory} {table id : String} {t : StoredTable}

theorem item?_of_table (h : m.tables.get? table = some t) (id : String) :
    m.item? table id = t.items.get? id := by
  rw [item?, h, Option.bind_some]

/-- The table is there, and all of its records can be read. -/
structure Legible (m : Memory) (table : String) : Prop where
  present : m.HasTable table Entry.schema
  decodes : m.Decodes table

/-- What has become of a table: every record that was there still is, in this version or in a later
one, and can be read. -/
structure Grows (table : String) (m m' : Memory) : Prop where
  legible : m'.Legible table
  stored : ∀ id, (m.item? table id).isSome = true → (m'.item? table id).isSome = true

theorem Grows.refl (h : m.Legible table) : Grows table m m := ⟨h, fun _ => id⟩

theorem Grows.trans {m'' : Memory} (h : Grows table m m') (h' : Grows table m' m'') :
    Grows table m m'' :=
  ⟨h'.legible, fun id hid => h'.stored id (h.stored id hid)⟩

end Memory

open Memory (Legible Grows)

theorem Machine.turn_grows {κ σ α : Type} {mc : Machine κ σ α} {t : Moment} {m : Memory} {k : κ}
    {s : σ} {stimulus : Stimulus} {r : Turned κ σ} (h : mc.turn? t m k s stimulus = some r)
    {table : String} (hlegible : m.Legible table)
    (hputs : ∀ name item condition, r.exchange = some ⟨.putItem name item condition, .ok ()⟩ →
      ∃ e, Entry.ofItem item = .ok e) :
    Grows table m r.memory ∧
      (r.exchange.any isPut = false → ∀ id, r.memory.item? table id = m.item? table id) := by
  obtain ⟨⟨tb, htb, hschema⟩, hdecodes⟩ := hlegible
  obtain ⟨tb', htb', hschema', hnext⟩ := turn_table h htb
  have htable : r.memory.HasTable table Entry.schema := ⟨tb', htb', hschema'.trans hschema⟩
  have hitem := Memory.item?_of_table htb
  have hitem' := Memory.item?_of_table htb'
  cases hnext with
  | same hitems =>
    have hsame : ∀ id, r.memory.item? table id = m.item? table id := by
      intro id
      rw [hitem, hitem', hitems]
    refine ⟨⟨⟨htable, fun id item hid => ?_⟩, fun id hid => ?_⟩, fun _ => hsame⟩
    · rw [hsame] at hid
      exact hdecodes id item hid
    · rw [hsame]
      exact hid
  | put item condition key hx hkey hitems =>
    have hself : r.memory.item? table key = some item := by
      rw [hitem', hitems, Ordered.get?_insert_self]
    have hothers : ∀ id, id ≠ key → r.memory.item? table id = m.item? table id := by
      intro id hne
      rw [hitem, hitem', hitems, Ordered.get?_insert_of_ne _ hne]
    refine ⟨⟨⟨htable, fun id stored hid => ?_⟩, fun id hid => ?_⟩, fun hquiet => ?_⟩
    · by_cases hne : id = key
      · rw [hne, hself] at hid
        rw [← Option.some.inj hid]
        exact hputs table item condition hx
      · rw [hothers id hne] at hid
        exact hdecodes id stored hid
    · by_cases hne : id = key
      · rw [hne, hself]
        rfl
      · rw [hothers id hne]
        exact hid
    · rw [hx] at hquiet
      cases hquiet

/-! ## Any number of repositories -/

/-- An operation of one of the repositories on a table. -/
structure RepositoryCall (γ : Type) where
  repository : γ
  call : LedgerCall

abbrev repositories {ι γ : Type} (table : String) (options : γ → TableOptions)
    (calls : ι → RepositoryCall γ) : Crew ι γ Lifecycle where
  object i := (calls i).repository
  Phase i := (calls i).call.Phase
  Outcome i := Except LedgerFault (calls i).call.Reply
  operation i := (calls i).call.operation ⟨table, options (calls i).repository⟩

namespace TableContents

variable {ι γ : Type} {table : String} {options : γ → TableOptions}
  {calls : ι → RepositoryCall γ} {flow : Moment → Moment → Prop}
  {s s' s'' : (repositories table options calls).State}

/-- Whatever is about to be saved reads back. -/
def Drafted (s : (repositories table options calls).State) : Prop :=
  ∀ i p, s.phase i = some p → ∀ d, (calls i).call.draft? p = some d → d.Decodes

variable [DecidableEq ι] [DecidableEq γ]

theorem Drafted.step (h : Drafted s) (hdated : ∀ i, (calls i).call.Dated)
    (hs : (repositories table options calls).Step flow s s') : Drafted s' := by
  cases hs with
  | pass ht => exact h
  | act hact =>
    obtain ⟨i, -, rfl⟩ | ⟨i, p, stimulus, r, hp, hr, rfl⟩ := Crew.State.act_cases hact
    · refine Crew.State.forall_phase_settle h (fun d hd => ?_) _
      cases (LedgerCall.draft?_start ..).symm.trans hd
    · exact Crew.State.forall_phase_after h (LedgerCall.turn_decodes (hdated i) (h i p hp) hr).1

theorem Drafted.run (h : Drafted s) (hdated : ∀ i, (calls i).call.Dated)
    (hs : (repositories table options calls).Reachable flow s s') : Drafted s' := by
  induction hs with
  | refl => exact h
  | tail _ hstep ih => exact ih.step hdated hstep

theorem Drafted.grows_step (h : Drafted s) (hdated : ∀ i, (calls i).call.Dated)
    (hlegible : s.memory.Legible table)
    (hs : (repositories table options calls).Step flow s s') :
    Grows table s.memory s'.memory ∧ (Crew.writers s'.log = Crew.writers s.log →
      ∀ id, s'.memory.item? table id = s.memory.item? table id) := by
  cases hs with
  | pass ht => exact ⟨.refl hlegible, fun _ _ => rfl⟩
  | act hact =>
    obtain ⟨i, -, rfl⟩ | ⟨i, p, stimulus, r, hp, hr, rfl⟩ := Crew.State.act_cases hact
    · exact ⟨.refl hlegible, fun _ _ => rfl⟩
    · have hputs := (LedgerCall.turn_decodes (hdated i) (h i p hp) hr).2
      obtain ⟨hgrows, hquiet⟩ := Machine.turn_grows hr hlegible hputs
      exact ⟨hgrows, fun hwriters => hquiet (Crew.isPut_of_quiet hwriters)⟩

/-- In the course of a run a table only grows, and without a put it stays as it is. -/
theorem Drafted.grows_run (h : Drafted s) (hdated : ∀ i, (calls i).call.Dated)
    (hlegible : s.memory.Legible table)
    (hs : (repositories table options calls).Reachable flow s s') :
    Grows table s.memory s'.memory ∧ (Crew.writers s'.log = Crew.writers s.log →
      ∀ id, s'.memory.item? table id = s.memory.item? table id) := by
  induction hs with
  | refl => exact ⟨.refl hlegible, fun _ _ => rfl⟩
  | tail hrun hstep ih =>
    obtain ⟨hgrows, hsame⟩ := ih
    obtain ⟨hgrows', hsame'⟩ := (h.run hdated hrun).grows_step hdated hgrows.legible hstep
    refine ⟨hgrows.trans hgrows', fun hwriters id => ?_⟩
    have hbefore := Crew.writers_between hrun (.single hstep) hwriters
    rw [hsame' (hwriters.trans hbefore.symm) id, hsame hbefore id]

end TableContents

end MigrationLedger
