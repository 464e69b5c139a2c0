import MigrationLedger.LockTable
import MigrationLedger.Proofs.Drafting
import MigrationLedger.Proofs.InstantRange

/-! Leases that change hands. Between the decision to write and the put the record does not change,
and time only makes a lease run out, so a put never replaces a lease that runs for somebody else. -/

namespace MigrationLedger

namespace Lease

theorem blocks_eq_false {l : Lease} {owner : String} {now : Instant} :
    l.blocks owner now = false ↔ l.owner = owner ∨ l.status = .released ∨ l.expiresAt ≤ now := by
  rw [blocks, isActiveAt]
  by_cases howner : l.owner = owner
  · simp [howner]
  · cases hstatus : l.status with
    | released => simp
    | held => simp [howner]

/-- A lease that does not block at one time does not block later. -/
theorem blocks_later {l : Lease} {owner : String} {now later : Instant}
    (h : l.blocks owner now = false) (hle : now ≤ later) : l.blocks owner later = false := by
  rw [blocks_eq_false] at h ⊢
  rcases h with h | h | h
  · exact .inl h
  · exact .inr (.inl h)
  · exact .inr (.inr (le_trans h hle))

theorem partitionKey_ne : schema.partitionKey ≠ revisionAttribute := by decide

theorem eq_key_of_keyOf {l : Lease} {key : String} (h : schema.keyOf l.toItem = .ok key) :
    key = l.key := by
  have hkey := KeySchema.keyOf_eq_ok h
  rw [valueAt_toItem] at hkey
  exact (Json.str.inj (Option.some.inj hkey)).symm

end Lease

/-- What an owner may write under a key: a lease of that key, in place of nothing or of one that
does not block the owner. -/
structure LeasePermit (key owner : String) (now : Instant) (d : Draft) : Prop where
  lease : ∃ new : Lease, d.item = new.toItem ∧ (new.key = key ∨
    ∃ item cur, d.read = some item ∧ Lease.ofItem item = .ok cur ∧ new.key = cur.key)
  replaced : ∀ item, d.read = some item →
    ∃ cur, Lease.ofItem item = .ok cur ∧ cur.blocks owner now = false

namespace LeasePermit

theorem addressed {key owner : String} {now : Instant} {d : Draft}
    (h : LeasePermit key owner now d)
    (hread : ∀ item, d.read = some item → Lease.schema.keyOf item = .ok key) {k : String}
    (hk : Lease.schema.keyOf d.item = .ok k) : k = key := by
  obtain ⟨new, hitem, hnew⟩ := h.lease
  rw [hitem] at hk
  rw [Lease.eq_key_of_keyOf hk]
  rcases hnew with hnew | ⟨item, cur, hold, hcur, hnew⟩
  · exact hnew
  · rw [hnew]
    exact Lease.key_of_ofItem (hread item hold) hcur

end LeasePermit

namespace LockTable

theorem permits_cases {α : Type} {l : LockTable} {key : String}
    {decide : Instant → Option Lease → Verdict LeaseFault α} {t : Moment} {d : Draft}
    (h : (l.leaseUpdate key decide).Permits t d) :
    (d.read = none ∧ ∃ answer, decide t.wall none = .write d.item answer) ∨
      ∃ item cur answer, d.read = some item ∧ Lease.ofItem item = .ok cur ∧
        decide t.wall (some cur) = .write d.item answer := by
  obtain ⟨answer, h⟩ := h
  simp only [leaseUpdate] at h
  split at h
  · next hread => exact .inl ⟨hread, answer, h⟩
  · next item hread =>
    split at h
    · cases h
    · next cur hcur => exact .inr ⟨item, cur, answer, hread, hcur, h⟩

theorem permits_take {l : LockTable} {new : Lease} {t : Moment} {d : Draft}
    (h : (l.leaseUpdate new.key (decideTake new)).Permits t d) :
    d.item = new.toItem ∧ LeasePermit new.key new.owner t.wall d := by
  rcases permits_cases h with ⟨hread, answer, hdecide⟩ | ⟨item, cur, answer, hread, hcur, hdecide⟩
  · have hitem := (Verdict.write.inj hdecide).1.symm
    refine ⟨hitem, ⟨new, hitem, .inl rfl⟩, fun item h => ?_⟩
    cases hread.symm.trans h
  · rw [decideTake] at hdecide
    split at hdecide
    · cases hdecide
    · next hblocks =>
      have hitem := (Verdict.write.inj hdecide).1.symm
      refine ⟨hitem, ⟨new, hitem, .inl rfl⟩, fun other h => ?_⟩
      cases hread.symm.trans h
      exact ⟨cur, hcur, Bool.eq_false_iff.mpr hblocks⟩

theorem permits_extend {l : LockTable} {new : Lease} {t : Moment} {d : Draft}
    (h : (l.leaseUpdate new.key (decideExtend new)).Permits t d) :
    d.item = new.toItem ∧ LeasePermit new.key new.owner t.wall d := by
  rcases permits_cases h with ⟨hread, answer, hdecide⟩ | ⟨item, cur, answer, hread, hcur, hdecide⟩
  · cases hdecide
  · rw [decideExtend] at hdecide
    split at hdecide
    · cases hdecide
    · next hblocks =>
      split at hdecide
      · cases hdecide
      · have hitem := (Verdict.write.inj hdecide).1.symm
        refine ⟨hitem, ⟨new, hitem, .inl rfl⟩, fun other h => ?_⟩
        cases hread.symm.trans h
        exact ⟨cur, hcur, Bool.eq_false_iff.mpr hblocks⟩

theorem permits_giveBack {l : LockTable} {key owner : String} {t : Moment} {d : Draft}
    (h : (l.leaseUpdate key (decideGiveBack owner)).Permits t d) :
    LeasePermit key owner t.wall d := by
  rcases permits_cases h with ⟨hread, answer, hdecide⟩ | ⟨item, cur, answer, hread, hcur, hdecide⟩
  · cases hdecide
  · rw [decideGiveBack] at hdecide
    split at hdecide
    · next hown =>
      have hitem := (Verdict.write.inj hdecide).1.symm
      refine ⟨⟨_, hitem, .inr ⟨item, cur, hread, hcur, rfl⟩⟩, fun other h => ?_⟩
      cases hread.symm.trans h
      exact ⟨cur, hcur, Lease.blocks_eq_false.mpr (.inl hown.1)⟩
    · cases hdecide

end LockTable

/-- The wall clock does not run backwards. -/
def Moment.Forward (a b : Moment) : Prop := a.wall ≤ b.wall

instance : DecidableRel Moment.Forward := fun a b => inferInstanceAs (Decidable (a.wall ≤ b.wall))

theorem Moment.wall_le {a b : Moment} (h : Relation.ReflTransGen Moment.Forward a b) :
    a.wall ≤ b.wall := by
  induction h with
  | refl => exact le_refl _
  | tail _ hstep ih => exact le_trans ih hstep

inductive LockCall where
  | take (new : Lease)
  | extend (new : Lease)
  | giveBack (key owner : String)

namespace LockCall

def key : LockCall → String
  | take new | extend new => new.key
  | giveBack key _ => key

def owner : LockCall → String
  | take new | extend new => new.owner
  | giveBack _ owner => owner

abbrev Reply : LockCall → Type
  | take _ | extend _ => Unit
  | giveBack .. => Bool

def operation {κ : Type} (l : LockTable) : (call : LockCall) →
    Operation κ (LockTable.Changing call.Reply) (Except LeaseFault call.Reply)
  | take new => l.take new
  | extend new => l.extend new
  | giveBack key owner => l.giveBack key owner

end LockCall

abbrev lockers {ι : Type} (table : String) (options : ι → TableOptions) (calls : ι → LockCall) :
    Crew ι Unit Unit where
  object _ := ()
  Phase i := LockTable.Changing (calls i).Reply
  Outcome i := Except LeaseFault (calls i).Reply
  operation i := (calls i).operation ⟨table, options i⟩

namespace LeaseOverwrite

variable {ι : Type} {table : String} {options : ι → TableOptions} {calls : ι → LockCall}

theorem effect {l : LockTable} {call : LockCall} {t : Moment} {m : Memory} {k : Unit}
    {p : LockTable.Changing call.Reply} {stimulus : Stimulus}
    {r : Turned Unit (LockTable.Changing call.Reply)}
    (h : (call.operation l).machine.turn? t m k p stimulus = some r) :
    Effect l.table call.key (LeasePermit call.key call.owner t.wall) m p.draft? r.exchange r.memory
      r.state.draft? := by
  cases call with
  | take new => exact (Bounded.effect h).mono fun d hd => (LockTable.permits_take hd).2
  | extend new => exact (Bounded.effect h).mono fun d hd => (LockTable.permits_extend hd).2
  | giveBack key owner => exact (Bounded.effect h).mono fun d hd => LockTable.permits_giveBack hd

theorem draft?_start (l : LockTable) (call : LockCall) (t : Moment) (k : Unit) :
    ((call.operation l).start t k).2.draft? = none := by
  cases call <;> rfl

def drafting (table : String) (options : ι → TableOptions) (calls : ι → LockCall) :
    (lockers table options calls).Drafting table Lease.schema where
  key i := (calls i).key
  draft? _ := Bounded.draft?
  permits i t := LeasePermit (calls i).key (calls i).owner t.wall
  keyed := Lease.partitionKey_ne
  start _ _ _ := draft?_start ..
  addressed := LeasePermit.addressed

theorem obeys (s : (lockers table options calls).State) :
    (drafting table options calls).Obeys s :=
  fun _ _ _ _ _ hr => effect hr

variable [DecidableEq ι]

/-- What a put of a call does: the record that it replaces is the one that the call last read, and
no lease that runs for somebody else. The count of writes goes up by one, where a word of 64 bits
still has room for that. -/
structure Overwrites (table key owner : String) (now : Instant) (read : Option (Option Item))
    (m m' : Memory) : Prop where
  notLive : ∀ item, m.item? table key = some item → ∃ cur, Lease.ofItem item = .ok cur ∧
    (cur.owner = owner ∨ cur.status = .released ∨ cur.expiresAt ≤ now)
  revision : m.HasRoom table key 1 → m'.revisionAt table key = m.revisionAt table key + 1
  lastRead : read = some (m.item? table key)
  others : ∀ t k, t ≠ table ∨ k ≠ key → m'.item? t k = m.item? t k

/-- A lease that runs is never overwritten by another owner. -/
theorem live_lease_not_overwritten (options : ι → TableOptions) (calls : ι → LockCall)
    {m₀ : Memory} (hkeyed : m₀.KeyedBy table Lease.schema) (t₀ : Moment)
    {s s' : (lockers table options calls).State}
    (hs : (lockers table options calls).Reachable Moment.Forward
      ((lockers table options calls).initial m₀ t₀ fun _ => ()) s)
    (hstep : (lockers table options calls).Step Moment.Forward s s') {n : Crew.Note ι}
    (hlog : s'.log = s.log ++ [n]) (hput : isPut n.exchange = true) :
    Overwrites table (calls n.who).key (calls n.who).owner n.time.wall (Crew.lastRead n.who s.log)
      s.memory s'.memory := by
  have hcoherent := ((drafting table options calls).coherent_initial Moment.Forward hkeyed t₀
    fun _ => ()).run obeys hs
  rcases hcoherent.step_cases (obeys s) hstep with ⟨-, hwriters⟩ | ⟨i, d, hr⟩
  · rw [hlog, Crew.writers_append, Crew.writers_singleton, if_pos hput] at hwriters
    simp at hwriters
  · obtain rfl : n = ⟨i, s.clock, d.put table⟩ := by
      simpa using hlog.symm.trans hr.log
    obtain ⟨t, hflow, hpermits⟩ := hr.sound.decided
    have hread : s.memory.item? table (calls i).key = d.read := hr.read
    refine ⟨fun item hitem => ?_, fun _ => hr.revision, ?_, fun t k h => hr.puts.others t k h⟩
    · obtain ⟨cur, hcur, hblocks⟩ := hpermits.replaced item (hread.symm.trans hitem)
      have hlater := Lease.blocks_later hblocks (Moment.wall_le hflow)
      exact ⟨cur, hcur, Lease.blocks_eq_false.mp hlater⟩
    · rw [hr.sound.lastRead, hread]

/-- Two owners take the same lock, the second one when the lease of the first has run out. -/
def heirCalls (second : Bool) : LockCall :=
  if second then .take ⟨"migrations", .held, "second", ⟨30, 0⟩⟩
  else .take ⟨"migrations", .held, "first", ⟨10, 0⟩⟩

def heirScript : Crew.Script Bool :=
  [(Crew.second 0, .start false), (Crew.second 0, .turn false .reply),
    (Crew.second 1, .turn false .reply), (Crew.second 20, .start true),
    (Crew.second 20, .turn true .reply)]

def heirRun : Option (lockers "locks" (fun _ => {}) heirCalls).State :=
  ((lockers "locks" (fun _ => {}) heirCalls).initial
    (({} : Memory).createActive "locks" Lease.schema default) (Crew.second 0) fun _ => ()).play?
    Moment.Forward heirScript

theorem live_lease_not_overwritten_of_heirs :
    ∃ s s' n, heirRun = some s ∧ s.act? (.turn true .reply) = some s' ∧ s'.log = s.log ++ [n] ∧
      (n.who, n.time, isPut n.exchange) = (true, Crew.second 20, true) ∧
      s.memory.HasRoom "locks" "migrations" 1 ∧
      Overwrites "locks" "migrations" "second" n.time.wall (Crew.lastRead n.who s.log)
        s.memory s'.memory := by
  have hsome : (heirRun.bind (·.act? (.turn true .reply))).isSome = true := by decide +kernel
  obtain ⟨s', hs'⟩ := Option.isSome_iff_exists.mp hsome
  obtain ⟨s, hs, hact⟩ := Option.bind_eq_some_iff.mp hs'
  have hstep : (lockers "locks" (fun _ => {}) heirCalls).Step Moment.Forward s s' := .act hact
  obtain ⟨rest, hrest⟩ := hstep.log_prefix
  have hlength : heirRun.map (·.log.length) = some 3 := by decide +kernel
  rw [hs, Option.map_some, Option.some.injEq] at hlength
  have hspare : heirRun.all (fun s => s.memory.HasRoom "locks" "migrations" 1) = true := by
    decide +kernel
  have hroom : s.memory.HasRoom "locks" "migrations" 1 := by simpa [hs] using hspare
  have hnotes : (heirRun.bind (·.act? (.turn true .reply))).map (fun s' => (s'.log.drop 3).map
      fun n => (n.who, n.time, isPut n.exchange)) = some [(true, Crew.second 20, true)] := by
    decide +kernel
  rw [hs', Option.map_some, Option.some.injEq, ← hrest, ← hlength, List.drop_left] at hnotes
  obtain ⟨n, rfl, hn⟩ := List.map_eq_singleton_iff.mp hnotes
  have hput : isPut n.exchange = true := congrArg (·.2.2) hn
  have hwho : n.who = true := congrArg (·.1) hn
  have hover := live_lease_not_overwritten (fun _ => {}) heirCalls (by rintro t ⟨⟩; rfl)
    (Crew.second 0) (Crew.State.reachable_of_play hs) hstep hrest.symm hput
  rw [hwho] at hover
  refine ⟨s, s', n, hs, hact, hrest.symm, hn, hroom, ?_⟩
  rw [hwho]
  exact hover

end LeaseOverwrite

end MigrationLedger
