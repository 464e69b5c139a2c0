import MigrationLedger.Recording
import MigrationLedger.Settings
import MigrationLedger.Proofs.GrantedLease
import MigrationLedger.Proofs.Revival

/-! Recordings at the same time. Each writes to the ledger after it has taken the lock, and does not
look at the lock again before it has written. So it writes under the lock exactly as long as its
lease runs, which is counted from when the attempt began that has succeeded. -/

namespace MigrationLedger

/-! ## One recording -/

theorem Holder.Acquiring.Fits.owned {h : Holder} {p : Acquiring} (hp : p.Fits h) : p.Owned h := by
  cases p with
  | attempting started lease inner =>
    obtain ⟨⟨now, -, rfl⟩, -⟩ := hp
    exact ⟨rfl, rfl⟩
  | _ => trivial

/-- What a turn means for the records of one table, whatever becomes of others. -/
inductive Touches (table key : String) (permits : Draft → Prop) (m : Memory)
    (before : Option Draft) (m' : Memory) (after : Option Draft) : Prop where
  | kept (hafter : after = none) (hm : ∀ k, m'.item? table k = m.item? table k)
  | read (d : Draft) (hafter : after = some d) (hm : ∀ k, m'.item? table k = m.item? table k)
      (hread : d.read = m.item? table key) (h : permits d)
  | wrote (d : Draft) (k : String) (hbefore : before = some d) (hafter : after = none)
      (hkey : ∀ schema, m.KeyedBy table schema → schema.keyOf d.written = .ok k)
      (hunchanged : (Condition.unchanged d.read).holds (m.item? table k) = true)
      (hputs : m.Puts table k d.written m')

theorem Effect.touches {table key : String} {permits : Draft → Prop} {m m' : Memory}
    {before after : Option Draft} {x : Option Exchange}
    (h : Effect table key permits m before x m' after) :
    Touches table key permits m before m' after := by
  cases h with
  | idle hafter hm hx => exact .kept hafter fun k => by rw [hm]
  | read d hafter hm hx hread h => exact .read d hafter (fun k => by rw [hm]) hread h
  | wrote d k hbefore hafter hx hkey hunchanged hputs =>
    exact .wrote d k hbefore hafter hkey hunchanged hputs

theorem Effect.keyedBy {table key other : String} {permits : Draft → Prop} {m m' : Memory}
    {before after : Option Draft} {x : Option Exchange}
    (h : Effect table key permits m before x m' after) {schema : KeySchema}
    (hm : m.KeyedBy other schema) : m'.KeyedBy other schema := by
  cases h with
  | idle hafter hsame hx => exact hsame ▸ hm
  | read d hafter hsame hx hread h => exact hsame ▸ hm
  | wrote d k hbefore hafter hx hkey hunchanged hputs => exact hputs.keyedBy other schema hm

def putsInto (name : String) : Exchange → Bool
  | ⟨.putItem table _ _, .ok _⟩ => table = name
  | _ => false

theorem Effect.table_of_put {table key name : String} {permits : Draft → Prop} {m m' : Memory}
    {before after : Option Draft} {x : Option Exchange}
    (h : Effect table key permits m before x m' after) (hx : x.any (putsInto name) = true) :
    table = name ∧ ∃ k item, m'.item? table k = some item := by
  cases h with
  | idle hafter hm hquiet =>
    obtain ⟨⟨c, answer⟩, rfl, hput⟩ := (Option.any_eq_true _ _).mp hx
    cases c with
    | putItem =>
      cases answer with
      | ok u => cases hquiet
      | error fault => cases hput
    | _ => cases hput
  | read d hafter hm hget hread h =>
    rw [hget] at hx
    cases hx
  | wrote d k hbefore hafter hwrote hkey hunchanged hputs =>
    rw [hwrote] at hx
    exact ⟨of_decide_eq_true hx, k, d.written, hputs.self⟩

/-- Something was put into the table of that name on the way to `s'`. -/
def Crew.State.putBefore {ι γ κ : Type} {c : Crew ι γ κ} (s s' : c.State) (name : String) : Bool :=
  (s'.log.drop s.log.length).any fun n => putsInto name n.exchange

theorem Crew.State.putBefore_after {ι γ κ : Type} [DecidableEq ι] [DecidableEq γ] {c : Crew ι γ κ}
    (s : c.State) (i : ι) (r : Turned κ (c.Phase i)) (name : String) :
    s.putBefore (s.after i r) name = r.exchange.any (putsInto name) := by
  have hlog : (s.after i r).log = s.note i r.exchange := rfl
  rw [putBefore, hlog]
  cases r.exchange <;> simp [note]

theorem Effect.item?_of_ne {table key other : String} {permits : Draft → Prop} {m m' : Memory}
    {before after : Option Draft} {x : Option Exchange}
    (h : Effect table key permits m before x m' after)
    (hne : ∀ k item, m'.item? table k = some item → table ≠ other) (k : String) :
    m'.item? other k = m.item? other k := by
  cases h with
  | idle hafter hm hx => rw [hm]
  | read d hafter hm hx hread h => rw [hm]
  | wrote d key hbefore hafter hx hkey hunchanged hputs =>
    exact hputs.others other k (.inl (Ne.symm (hne key d.written hputs.self)))

namespace Recording

variable {r : Recording} {t : Moment} {m : Memory} {k : Cell} {p : Phase} {stimulus : Stimulus}
  {R : Turned Cell Phase}

def lockDraft? : Phase → Option Draft
  | .acquiring inner => inner.draft?
  | .releasing _ inner => inner.draft?
  | _ => none

def attempt? : Phase → Option Holder.Attempt
  | .acquiring inner => inner.attempt?
  | _ => none

def Fits (h : Holder) : Phase → Prop
  | .acquiring inner => inner.Fits h
  | _ => True

theorem hosts_acquire (r : Recording) :
    r.holder.acquire.machine.Hosts r.operation.machine .acquiring (·.2)
      fun t k s => r.settleAcquire t k.1 s where
  call s c resume hnext := by simp only [operation, hnext]
  rest s d resume hnext := by simp only [operation, hnext]
  done s a hnext := ⟨a.mapError .notAcquired, by simp only [operation, hnext]⟩
  limit s := rfl
  expire t k s := rfl

theorem hosts_save (r : Recording) :
    r.save.machine.Hosts r.operation.machine .saving (·.1)
      fun t k s => r.settleSave t k.2 s where
  call s c resume hnext := by simp only [operation, hnext]
  rest s d resume hnext := by simp only [operation, hnext]
  done s a hnext := ⟨a.mapError .notSaved, by simp only [operation, hnext]⟩
  limit s := rfl
  expire t k s := rfl

theorem hosts_release (r : Recording) (saved : Except LedgerFault Unit) :
    r.holder.release.machine.Hosts r.operation.machine (.releasing saved) (·.2)
      fun _ k s => settleRelease k.1 saved s where
  call s c resume hnext := by simp only [operation, hnext]
  rest s d resume hnext := by simp only [operation, hnext]
  done s a hnext := ⟨saved.mapError .notSaved, by simp only [operation, hnext]⟩
  limit s := rfl
  expire t k s := rfl

/-- The three parts of a recording, and what each of them hands on. -/
inductive PartTurn (r : Recording) (t : Moment) (m : Memory) (k : Cell) (stimulus : Stimulus)
    (R : Turned Cell Phase) : Phase → Prop where
  | acquiring (inner : Holder.Acquiring) (q : Turned Hold Holder.Acquiring)
      (hq : r.holder.acquire.machine.turn? t m k.2 inner stimulus = some q)
      (hx : R.exchange = q.exchange) (hm : R.memory = q.memory)
      (hs : (R.cell, R.state) = r.settleAcquire t k.1 (q.cell, q.state)) :
      PartTurn r t m k stimulus R (.acquiring inner)
  | saving (inner : Saving) (q : Turned Lifecycle Saving)
      (hq : r.save.machine.turn? t m k.1 inner stimulus = some q)
      (hx : R.exchange = q.exchange) (hm : R.memory = q.memory)
      (hs : (R.cell, R.state) = r.settleSave t k.2 (q.cell, q.state)) :
      PartTurn r t m k stimulus R (.saving inner)
  | releasing (saved : Except LedgerFault Unit) (inner : LockTable.Changing Bool)
      (q : Turned Hold (LockTable.Changing Bool))
      (hq : r.holder.release.machine.turn? t m k.2 inner stimulus = some q)
      (hx : R.exchange = q.exchange) (hm : R.memory = q.memory)
      (hs : (R.cell, R.state) = settleRelease k.1 saved (q.cell, q.state)) :
      PartTurn r t m k stimulus R (.releasing saved inner)

theorem partTurn_of_turn? (h : r.operation.machine.turn? t m k p stimulus = some R) :
    PartTurn r t m k stimulus R p := by
  cases p with
  | acquiring inner =>
    obtain ⟨q, hq, hin⟩ := (hosts_acquire r).turn_inner h
    exact .acquiring inner q hq hin.exchange hin.memory (Prod.ext hin.cell hin.state)
  | saving inner =>
    obtain ⟨q, hq, hin⟩ := (hosts_save r).turn_inner h
    exact .saving inner q hq hin.exchange hin.memory (Prod.ext hin.cell hin.state)
  | releasing saved inner =>
    obtain ⟨q, hq, hin⟩ := (hosts_release r saved).turn_inner h
    exact .releasing saved inner q hq hin.exchange hin.memory (Prod.ext hin.cell hin.state)
  | done answer => cases stimulus <;> cases h

/-! ### What one part hands to the next -/

theorem settleRelease_spec (lifecycle : Lifecycle) (saved : Except LedgerFault Unit)
    (s : Hold × LockTable.Changing Bool) :
    lockDraft? (settleRelease lifecycle saved s).2 = s.2.draft? ∧
      attempt? (settleRelease lifecycle saved s).2 = none ∧
      (∀ h, Fits h (settleRelease lifecycle saved s).2) ∧
      ∀ inner, (settleRelease lifecycle saved s).2 ≠ .saving inner := by
  obtain ⟨k, _ | answer⟩ := s
  · exact ⟨rfl, rfl, fun _ => trivial, nofun⟩
  · exact ⟨rfl, rfl, fun _ => trivial, nofun⟩

theorem settleSave_spec (r : Recording) (t : Moment) (hold : Hold) (s : Lifecycle × Saving) :
    lockDraft? (r.settleSave t hold s).2 = none ∧ attempt? (r.settleSave t hold s).2 = none ∧
      (∀ h, Fits h (r.settleSave t hold s).2) ∧
      ∀ inner, (r.settleSave t hold s).2 = .saving inner → (r.settleSave t hold s).1.2 = hold := by
  obtain ⟨lifecycle, _ | saved⟩ := s
  · exact ⟨rfl, rfl, fun _ => trivial, fun _ _ => rfl⟩
  · obtain ⟨hdraft, hattempt, hfits, hne⟩ :=
      settleRelease_spec lifecycle saved (r.holder.release.start t hold)
    refine ⟨hdraft.trans ?_, hattempt, hfits, fun inner hinner => absurd hinner (hne inner)⟩
    exact (HolderAction.start_spec r.holder .release t hold).1

theorem settleAcquire_spec (r : Recording) (t : Moment) (lifecycle : Lifecycle)
    (s : Hold × Holder.Acquiring) :
    lockDraft? (r.settleAcquire t lifecycle s).2 = s.2.draft? ∧
      attempt? (r.settleAcquire t lifecycle s).2 = s.2.attempt? ∧
      (∀ h, s.2.Fits h → Fits h (r.settleAcquire t lifecycle s).2) ∧
      ∀ inner, (r.settleAcquire t lifecycle s).2 = .saving inner →
        s.2 = .done (.ok ()) ∧ (r.settleAcquire t lifecycle s).1.2 = s.1 := by
  obtain ⟨hold, _ | _ | (fault | u)⟩ := s
  · exact ⟨rfl, rfl, fun _ hfits => hfits, nofun⟩
  · exact ⟨rfl, rfl, fun _ hfits => hfits, nofun⟩
  · exact ⟨rfl, rfl, fun _ _ => trivial, nofun⟩
  · obtain ⟨hdraft, hattempt, hfits, hhold⟩ :=
      r.settleSave_spec t hold (r.save.start t lifecycle)
    exact ⟨hdraft, hattempt, fun h _ => hfits h, fun inner hinner => ⟨rfl, hhold inner hinner⟩⟩

theorem attempt?_turn (h : r.operation.machine.turn? t m k p stimulus = some R)
    {a : Holder.Attempt} (ha : attempt? R.state = some a) :
    attempt? p = some a ∨ a = r.holder.attemptAt t := by
  cases partTurn_of_turn? h with
  | acquiring inner q hq hx hm hs =>
    obtain ⟨-, hattempt, -, -⟩ := r.settleAcquire_spec t k.1 (q.cell, q.state)
    rw [← hs] at hattempt
    exact (Holder.acquire_attempt? hq (hattempt.symm.trans ha)).imp_right And.right
  | saving inner q hq hx hm hs =>
    obtain ⟨-, hattempt, -, -⟩ := r.settleSave_spec t k.2 (q.cell, q.state)
    rw [← hs] at hattempt
    cases hattempt.symm.trans ha
  | releasing saved inner q hq hx hm hs =>
    obtain ⟨-, hattempt, -, -⟩ := settleRelease_spec k.1 saved (q.cell, q.state)
    rw [← hs] at hattempt
    cases hattempt.symm.trans ha

end Recording

/-! ## Many recordings -/

/-- Recordings in one ledger, each under the same lock and for an owner of its own. -/
structure Recorders (ι : Type) extends Rivals ι where
  ledger : String
  entry : ι → Entry

def Recorders.recording {ι : Type} (v : Recorders ι) (i : ι) : Recording :=
  ⟨v.holder i, ⟨v.ledger, v.tableOptions i⟩, v.entry i⟩

abbrev recorders {ι : Type} (v : Recorders ι) : Crew ι ι Recording.Cell where
  object i := i
  Phase _ := Recording.Phase
  Outcome _ := Except Recording.Fault Unit
  operation i := (v.recording i).operation

namespace Recorders

variable {ι : Type} {v : Recorders ι}

def Permits (v : Recorders ι) (i : ι) (now : Instant) (d : Draft) : Prop :=
  ∃ change : LockChange, change.Permits v.key (v.owner i) now d

/-- A draft for the table of locks, and the record that it was decided on. -/
structure Decided (v : Recorders ι) (s : (recorders v).State) (i : ι) (d : Draft) : Prop where
  precedes : Precedes d.read (s.memory.item? v.table v.key)
  permitted : ∃ t, Relation.ReflTransGen Moment.Ticks t s.clock ∧ v.Permits i t.wall d
  addressed : ∀ item, d.read = some item → Lease.schema.keyOf item = .ok v.key

/-- The lease that `i` has been granted is what is stored; or it has run out, and by the record `i`
does not hold the lock any more. -/
structure Standing (v : Recorders ι) (s : (recorders v).State) (i : ι) (expiry : Instant) :
    Prop where
  cell : (s.cells i).2 = ⟨some expiry, false⟩
  record : v.Stored s.memory i expiry ∨
    expiry ≤ s.clock.wall ∧ ¬Lease.HeldIn (s.memory.item? v.table v.key) (v.owner i)

structure Steady (v : Recorders ι) (s : (recorders v).State) : Prop where
  locks : s.memory.KeyedBy v.table Lease.schema
  ledger : s.memory.KeyedBy v.ledger Entry.schema
  clock : s.clock.wall.IsValid
  fits : ∀ i p, s.phase i = some p → Recording.Fits (v.holder i) p
  begun : ∀ i p, s.phase i = some p → ∀ a, Recording.attempt? p = some a →
    ∃ t, Relation.ReflTransGen Moment.Ticks t s.clock ∧ a = (v.holder i).attemptAt t
  decided : ∀ i p, s.phase i = some p → ∀ d, Recording.lockDraft? p = some d → v.Decided s i d
  standing : ∀ i inner, s.phase i = some (.saving inner) →
    ∃ t, Relation.ReflTransGen Moment.Ticks t s.clock ∧
      v.Standing s i ((v.options i).leaseEnd t.wall)

variable {s s' : (recorders v).State}

/-! ### The record of the lock -/

theorem Decided.replaces {i : ι} {d : Draft} (h : v.Decided s i d)
    (hs : s.memory.KeyedBy v.table Lease.schema) {k : String}
    (hkey : ∀ schema, s.memory.KeyedBy v.table schema → schema.keyOf d.written = .ok k)
    (hunchanged : (Condition.unchanged d.read).holds (s.memory.item? v.table k) = true) :
    k = v.key ∧ s.memory.item? v.table v.key = d.read := by
  obtain ⟨t, -, change, hpermits⟩ := h.permitted
  have hk := hkey Lease.schema hs
  rw [Draft.written, KeySchema.keyOf_withRevision Lease.partitionKey_ne] at hk
  obtain rfl : k = v.key := hpermits.toLeasePermit.addressed h.addressed hk
  exact ⟨rfl, h.precedes.eq_of_unchanged hunchanged⟩

/-- In the ledger nothing is put where the locks are kept: the keys of the two tables differ. -/
theorem ledger_ne_table {m : Memory} (hlocks : m.KeyedBy v.table Lease.schema)
    (hledger : m.KeyedBy v.ledger Entry.schema) {k : String} {item : Item}
    (hitem : m.item? v.ledger k = some item) : v.ledger ≠ v.table := by
  intro hsame
  obtain ⟨t, ht, -⟩ := Option.bind_eq_some_iff.mp hitem
  have hboth : Entry.schema = Lease.schema := (hledger t ht).symm.trans (hlocks t (hsame ▸ ht))
  revert hboth
  decide

/-- What a turn does to the record of the lock, and to the keys of the tables. -/
theorem Steady.touches (h : v.Steady s) {i : ι} {p : Recording.Phase} {stimulus : Stimulus}
    {R : Turned Recording.Cell Recording.Phase} (hp : s.phase i = some p)
    (hr : (v.recording i).operation.machine.turn? s.clock s.memory (s.cells i) p stimulus =
      some R) :
    Touches v.table v.key (v.Permits i s.clock.wall) s.memory (Recording.lockDraft? p) R.memory
        (Recording.lockDraft? R.state) ∧
      R.memory.KeyedBy v.table Lease.schema ∧ R.memory.KeyedBy v.ledger Entry.schema := by
  have hfits := h.fits i p hp
  cases Recording.partTurn_of_turn? hr with
  | acquiring inner q hq hx hm hs =>
    have hdraft := ((v.recording i).settleAcquire_spec s.clock (s.cells i).1 (q.cell, q.state)).1
    rw [← hs] at hdraft
    have heffect : Effect v.table v.key (v.Permits i s.clock.wall) s.memory inner.draft? q.exchange
        q.memory q.state.draft? :=
      (Holder.acquire_owned (Holder.Acquiring.Fits.owned hfits) hq).1.mono fun d hd => ⟨.take, hd⟩
    rw [hm, hdraft]
    exact ⟨heffect.touches, heffect.keyedBy h.locks, heffect.keyedBy h.ledger⟩
  | saving inner q hq hx hm hs =>
    have hdraft := ((v.recording i).settleSave_spec s.clock (s.cells i).2 (q.cell, q.state)).1
    rw [← hs] at hdraft
    have heffect := Bounded.effect hq
    have hlocks := heffect.keyedBy h.locks
    have hledger := heffect.keyedBy h.ledger
    -- a save may put, but not where the locks are kept
    rw [hm, hdraft]
    exact ⟨.kept rfl (heffect.item?_of_ne fun k item hitem =>
      ledger_ne_table hlocks hledger hitem), hlocks, hledger⟩
  | releasing saved inner q hq hx hm hs =>
    have hdraft := (Recording.settleRelease_spec (s.cells i).1 saved (q.cell, q.state)).1
    rw [← hs] at hdraft
    have heffect : Effect v.table v.key (v.Permits i s.clock.wall) s.memory inner.draft? q.exchange
        q.memory q.state.draft? :=
      (Bounded.effect hq).mono fun d hd => ⟨.giveBack, LockTable.giveBack_permits hd⟩
    rw [hm, hdraft]
    exact ⟨heffect.touches, heffect.keyedBy h.locks, heffect.keyedBy h.ledger⟩

theorem Steady.saving_of_put (h : v.Steady s) {i : ι} {p : Recording.Phase} {stimulus : Stimulus}
    {R : Turned Recording.Cell Recording.Phase} (hp : s.phase i = some p)
    (hr : (v.recording i).operation.machine.turn? s.clock s.memory (s.cells i) p stimulus = some R)
    (hput : R.exchange.any (putsInto v.ledger) = true) : ∃ inner, p = .saving inner := by
  obtain ⟨-, hlocks, hledger⟩ := h.touches hp hr
  have hfits := h.fits i p hp
  have hother : ¬(v.table = v.ledger ∧ ∃ k item, R.memory.item? v.table k = some item) := by
    rintro ⟨hsame, k, item, hitem⟩
    rw [hsame] at hitem
    exact ledger_ne_table hlocks hledger hitem hsame.symm
  cases Recording.partTurn_of_turn? hr with
  | acquiring inner q hq hx hm hs =>
    rw [hx] at hput
    rw [hm] at hother
    have heffect := (Holder.acquire_owned (Holder.Acquiring.Fits.owned hfits) hq).1
    exact absurd (heffect.table_of_put hput) hother
  | saving inner q hq hx hm hs => exact ⟨inner, rfl⟩
  | releasing saved inner q hq hx hm hs =>
    rw [hx] at hput
    rw [hm] at hother
    exact absurd ((Bounded.effect hq).table_of_put hput) hother

theorem Standing.pass {i : ι} {expiry : Instant} (h : v.Standing s i expiry) {t : Moment}
    (ht : s.clock.wall ≤ t.wall) : v.Standing { s with clock := t } i expiry :=
  ⟨h.cell, h.record.imp_right fun ⟨hle, hfree⟩ => ⟨le_trans hle ht, hfree⟩⟩

/-- The put of another owner leaves a lease alone that runs, and any put of another owner leaves a
record by which `i` does not hold the lock. -/
theorem Standing.record_of_rival {i j : ι} {expiry : Instant} (h : v.Standing s i expiry)
    (hne : i ≠ j) (hlocks : s.memory.KeyedBy v.table Lease.schema) {before after : Option Draft}
    {m' : Memory} (hdecided : ∀ d, before = some d → v.Decided s j d)
    (htouches : Touches v.table v.key (v.Permits j s.clock.wall) s.memory before m' after) :
    v.Stored m' i expiry ∨
      expiry ≤ s.clock.wall ∧ ¬Lease.HeldIn (m'.item? v.table v.key) (v.owner i) := by
  have hsame : (∀ k, m'.item? v.table k = s.memory.item? v.table k) → v.Stored m' i expiry ∨
      expiry ≤ s.clock.wall ∧ ¬Lease.HeldIn (m'.item? v.table v.key) (v.owner i) := by
    intro hm
    rw [Rivals.Stored, hm]
    exact h.record
  cases htouches with
  | kept hafter hm => exact hsame hm
  | read d hafter hm hread hpermits => exact hsame hm
  | wrote d k hbefore hafter hkey hunchanged hputs =>
    have hdecided := hdecided d hbefore
    obtain ⟨rfl, hread⟩ := hdecided.replaces hlocks hkey hunchanged
    obtain ⟨t, hflow, change, hpermits⟩ := hdecided.permitted
    have hfree : ¬Lease.HeldIn (m'.item? v.table v.key) (v.owner i) := by
      rw [hputs.self]
      intro hheld
      exact hne (v.distinct (hpermits.shows _ hheld).2)
    refine .inr ⟨?_, hfree⟩
    rcases h.record with hstored | ⟨hle, -⟩
    · by_contra hlt
      -- the lease ran already when the other owner decided
      have hthen : t.wall < expiry :=
        lt_of_le_of_lt (Moment.wall_le_of_ticks hflow) (lt_of_not_ge hlt)
      exact hstored.not_permits hne hread.symm hthen hpermits.toLeasePermit
    · exact hle

/-- The answer that the lock is taken comes with the put of the lease. -/
theorem Steady.stored_of_acquired (h : v.Steady s) {i : ι} {inner : Holder.Acquiring}
    {stimulus : Stimulus} {q : Turned Hold Holder.Acquiring}
    (hp : s.phase i = some (.acquiring inner))
    (hq : (v.holder i).acquire.machine.turn? s.clock s.memory (s.cells i).2 inner stimulus = some q)
    (hok : q.state = .done (.ok ())) :
    ∃ t, Relation.ReflTransGen Moment.Ticks t s.clock ∧
      q.cell = ⟨some ((v.options i).leaseEnd t.wall), false⟩ ∧
      v.Stored q.memory i ((v.options i).leaseEnd t.wall) := by
  have hfits : inner.Fits (v.holder i) := h.fits i _ hp
  obtain ⟨a, ha, hput, hcell⟩ := Holder.acquire_ok hq hok
  obtain ⟨t, hflow, rfl⟩ := h.begun i _ hp a ha
  refine ⟨t, hflow, hcell, ?_⟩
  have hturn : Holder.TurnSpec (v.holder i) False Holder.Acquiring.draft?
      (Holder.Acquiring.Fits (v.holder i)) s.clock s.memory (s.cells i).2 inner q :=
    Holder.acquire_turn hfits h.clock hq
  cases hturn.effect with
  | idle hafter hm hx => cases hx.symm.trans hput
  | read d hafter hm hx hread hpermits =>
    rw [hx] at hput
    cases hput
  | wrote d k hbefore hafter hx hkey hunchanged hputs =>
    obtain ⟨rfl, -⟩ := (h.decided i _ hp d hbefore).replaces h.locks hkey hunchanged
    obtain ⟨started, lease, inner⟩ | _ | _ := inner
    · obtain rfl : lease = (v.holder i).leaseAt t.wall :=
        congrArg Holder.Attempt.lease (Option.some.inj ha)
      obtain ⟨⟨now, hnow, hlease⟩, hitem⟩ := hfits
      have hvalid : ((v.options i).leaseEnd t.wall).IsValid := by
        have hend : (v.options i).leaseEnd t.wall = (v.options i).leaseEnd now :=
          congrArg Lease.expiresAt hlease
        rw [hend]
        exact LockOptions.isValid_leaseEnd _ hnow
      refine ⟨hvalid, nextRevision d.read, ?_⟩
      have hwritten : q.memory.item? v.table v.key = some d.written := hputs.self
      rw [hwritten, Draft.written, hitem d hbefore]
      rfl
    · cases ha
    · cases ha

/-- By the record, `i` holds the lock, and not just for this instant. -/
def Covered (v : Recorders ι) (s : (recorders v).State) (i : ι) : Prop :=
  ∃ item lease, s.memory.item? v.table v.key = some item ∧ Lease.ofItem item = .ok lease ∧
    lease.owner = v.owner i ∧ lease.status = .held ∧ s.clock.wall < lease.expiresAt

theorem Standing.covered_iff {i : ι} {expiry : Instant} (h : v.Standing s i expiry) :
    v.Covered s i ↔ s.clock.wall < expiry := by
  rcases h.record with hstored | ⟨hle, hfree⟩
  · obtain ⟨item, hitem, hlease⟩ := hstored.ofItem
    constructor
    · rintro ⟨item', lease, hitem', hlease', -, -, hlt⟩
      cases hitem.symm.trans hitem'
      cases hlease.symm.trans hlease'
      exact hlt
    · exact fun hlt => ⟨item, _, hitem, hlease, rfl, rfl, hlt⟩
  · constructor
    · rintro ⟨item, lease, hitem, hlease, howner, hstatus, -⟩
      exact absurd ⟨item, lease, hitem, hlease, howner, hstatus⟩ hfree
    · exact fun hlt => absurd hlt (not_lt_of_ge hle)

theorem Covered.unique {i j : ι} (hi : v.Covered s i) (hj : v.Covered s j) : i = j := by
  obtain ⟨item, lease, hitem, hlease, howner, -⟩ := hi
  obtain ⟨item', lease', hitem', hlease', howner', -⟩ := hj
  cases hitem.symm.trans hitem'
  cases hlease.symm.trans hlease'
  exact v.distinct (howner.symm.trans howner')

/-! ### Steps -/

theorem steady_initial (v : Recorders ι) {m₀ : Memory} (hlocks : m₀.KeyedBy v.table Lease.schema)
    (hledger : m₀.KeyedBy v.ledger Entry.schema) {t₀ : Moment} (ht₀ : t₀.wall.IsValid)
    (cells : ι → Recording.Cell) : v.Steady ((recorders v).initial m₀ t₀ cells) := by
  refine ⟨hlocks, hledger, ht₀, fun i p hp => ?_, fun i p hp => ?_, fun i p hp => ?_,
    fun i inner hp => ?_⟩
  all_goals cases hp

theorem Steady.pass (h : v.Steady s) {t : Moment} (ht : s.clock.Ticks t) :
    v.Steady { s with clock := t } where
  locks := h.locks
  ledger := h.ledger
  clock := ht.2
  fits := h.fits
  begun i p hp a ha := by
    obtain ⟨t₀, hflow, hbegun⟩ := h.begun i p hp a ha
    exact ⟨t₀, hflow.tail ht, hbegun⟩
  decided i p hp d hd := by
    obtain ⟨hprecedes, ⟨t₀, hflow, hpermits⟩, haddressed⟩ := h.decided i p hp d hd
    exact ⟨hprecedes, ⟨t₀, hflow.tail ht, hpermits⟩, haddressed⟩
  standing i inner hp := by
    obtain ⟨t₀, hflow, hstanding⟩ := h.standing i inner hp
    exact ⟨t₀, hflow.tail ht, hstanding.pass ht.1⟩

theorem Steady.fits_self (h : v.Steady s) {i : ι} {p : Recording.Phase} {stimulus : Stimulus}
    {R : Turned Recording.Cell Recording.Phase} (hp : s.phase i = some p)
    (hr : (v.recording i).operation.machine.turn? s.clock s.memory (s.cells i) p stimulus =
      some R) : Recording.Fits (v.holder i) R.state := by
  cases Recording.partTurn_of_turn? hr with
  | acquiring inner q hq hx hm hs =>
    obtain ⟨-, -, hfits, -⟩ :=
      (v.recording i).settleAcquire_spec s.clock (s.cells i).1 (q.cell, q.state)
    rw [← hs] at hfits
    have hturn : Holder.TurnSpec (v.holder i) False Holder.Acquiring.draft?
        (Holder.Acquiring.Fits (v.holder i)) s.clock s.memory (s.cells i).2 inner q :=
      Holder.acquire_turn (h.fits i _ hp) h.clock hq
    exact hfits _ hturn.fits
  | saving inner q hq hx hm hs =>
    obtain ⟨-, -, hfits, -⟩ :=
      (v.recording i).settleSave_spec s.clock (s.cells i).2 (q.cell, q.state)
    rw [← hs] at hfits
    exact hfits _
  | releasing saved inner q hq hx hm hs =>
    obtain ⟨-, -, hfits, -⟩ := Recording.settleRelease_spec (s.cells i).1 saved (q.cell, q.state)
    rw [← hs] at hfits
    exact hfits _

/-- What a recording hands to its save is a lease that is stored; and a save leaves it alone. -/
theorem Steady.standing_self (h : v.Steady s) {i : ι} {p : Recording.Phase} {stimulus : Stimulus}
    {R : Turned Recording.Cell Recording.Phase} (hp : s.phase i = some p)
    (hr : (v.recording i).operation.machine.turn? s.clock s.memory (s.cells i) p stimulus =
      some R) {inner : Recording.Saving} (hsaving : R.state = .saving inner) :
    ∃ t, Relation.ReflTransGen Moment.Ticks t s.clock ∧
      R.cell.2 = ⟨some ((v.options i).leaseEnd t.wall), false⟩ ∧
      (v.Stored R.memory i ((v.options i).leaseEnd t.wall) ∨
        (v.options i).leaseEnd t.wall ≤ s.clock.wall ∧
          ¬Lease.HeldIn (R.memory.item? v.table v.key) (v.owner i)) := by
  have htouches := (h.touches hp hr).1
  cases Recording.partTurn_of_turn? hr with
  | acquiring inner' q hq hx hm hs =>
    obtain ⟨-, -, -, hspec⟩ :=
      (v.recording i).settleAcquire_spec s.clock (s.cells i).1 (q.cell, q.state)
    rw [← hs] at hspec
    obtain ⟨hok, hcell⟩ := hspec inner hsaving
    obtain ⟨t, hflow, hcell', hstored⟩ := h.stored_of_acquired hp hq hok
    exact ⟨t, hflow, hcell.trans hcell', .inl (hm ▸ hstored)⟩
  | saving inner' q hq hx hm hs =>
    obtain ⟨-, -, -, hspec⟩ :=
      (v.recording i).settleSave_spec s.clock (s.cells i).2 (q.cell, q.state)
    rw [← hs] at hspec
    obtain ⟨t, hflow, hcell, hrecord⟩ := h.standing i inner' hp
    refine ⟨t, hflow, (hspec inner hsaving).trans hcell, ?_⟩
    cases htouches with
    | kept hafter hsame =>
      rw [Rivals.Stored, hsame]
      exact hrecord
    | read d hafter hsame hread hpermits =>
      rw [Rivals.Stored, hsame]
      exact hrecord
    | wrote d k hbefore hafter hkey hunchanged hputs => cases hbefore
  | releasing saved inner' q hq hx hm hs =>
    obtain ⟨-, -, -, hspec⟩ := Recording.settleRelease_spec (s.cells i).1 saved (q.cell, q.state)
    rw [← hs] at hspec
    exact absurd hsaving (hspec inner)

variable [DecidableEq ι]

theorem Steady.start (h : v.Steady s) (i : ι) :
    v.Steady (s.settle i (((recorders v).operation i).start s.clock (s.cellOf i)).1
      (((recorders v).operation i).start s.clock (s.cellOf i)).2) := by
  obtain ⟨-, hdraft, hfits⟩ := Holder.acquire_start (v.holder i) s.clock (s.cells i).2
  obtain ⟨hne, hattempt⟩ := Holder.acquire_start_spec (v.holder i) s.clock (s.cells i).2
  obtain ⟨hdraft', hattempt', hfits', hsaving⟩ := (v.recording i).settleAcquire_spec s.clock
    (s.cells i).1 ((v.holder i).acquire.start s.clock (s.cells i).2)
  refine ⟨h.locks, h.ledger, h.clock, Crew.State.forall_phase_settle h.fits ?_ _,
    Crew.State.forall_phase_settle h.begun (fun a ha => ?_) _,
    Crew.State.forall_phase_settle (fun j q hq d hd => ?_) (fun d hd => ?_) _, fun j inner hj => ?_⟩
  · exact hfits' _ (hfits h.clock)
  · exact ⟨s.clock, .refl, hattempt a (hattempt'.symm.trans ha)⟩
  · obtain ⟨hprecedes, hpermitted, haddressed⟩ := h.decided j q hq d hd
    exact ⟨hprecedes, hpermitted, haddressed⟩
  · cases (hdraft'.trans hdraft).symm.trans hd
  · by_cases hji : j = i
    · subst hji
      rw [Crew.State.settle_phase_self] at hj
      exact absurd (hsaving inner (Option.some.inj hj)).1 hne
    · rw [Crew.State.settle_phase_of_ne s hji] at hj
      obtain ⟨t, hflow, hcell, hrecord⟩ := h.standing j inner hj
      refine ⟨t, hflow, ?_, hrecord⟩
      rw [Crew.State.settle_cells, if_neg hji]
      exact hcell

theorem Steady.decided_after (h : v.Steady s) {i : ι} {p : Recording.Phase}
    {R : Turned Recording.Cell Recording.Phase} (hp : s.phase i = some p)
    (htouches : Touches v.table v.key (v.Permits i s.clock.wall) s.memory (Recording.lockDraft? p)
      R.memory (Recording.lockDraft? R.state)) (j : ι) (q : Recording.Phase)
    (hq : (s.after i R).phase j = some q) (d : Draft) (hd : Recording.lockDraft? q = some d) :
    v.Decided (s.after i R) j d := by
  by_cases hji : j = i
  · subst hji
    rw [Crew.State.after_phase_self] at hq
    cases hq
    cases htouches with
    | kept hafter hm => cases hafter.symm.trans hd
    | wrote d' k hbefore hafter hkey hunchanged hputs => cases hafter.symm.trans hd
    | read d' hafter hm hread hpermits =>
      cases hafter.symm.trans hd
      refine ⟨?_, ⟨s.clock, .refl, hpermits⟩, fun item hitem => ?_⟩
      · change Precedes d.read (R.memory.item? v.table v.key)
        rw [hm, hread]
        exact .refl _
      · exact Memory.keyOf_item? h.locks (hread.symm.trans hitem)
  · rw [Crew.State.after_phase_of_ne _ hji] at hq
    obtain ⟨hprecedes, hpermitted, haddressed⟩ := h.decided j q hq d hd
    refine ⟨?_, hpermitted, haddressed⟩
    change Precedes d.read (R.memory.item? v.table v.key)
    cases htouches with
    | kept hafter hm => rwa [hm]
    | read d' hafter hm hread hpermits => rwa [hm]
    | wrote d' k hbefore hafter hkey hunchanged hputs =>
      -- what `i` replaces is what it has read, so `j` has read that or an earlier record
      obtain ⟨rfl, hread⟩ := (h.decided i p hp d' hbefore).replaces h.locks hkey hunchanged
      rw [hread] at hprecedes
      rw [hputs.self]
      exact hprecedes.withRevision d'.item

theorem Steady.after (h : v.Steady s) {i : ι} {p : Recording.Phase} {stimulus : Stimulus}
    {R : Turned Recording.Cell Recording.Phase} (hp : s.phase i = some p)
    (hr : (v.recording i).operation.machine.turn? s.clock s.memory (s.cells i) p stimulus =
      some R) : v.Steady (s.after i R) := by
  obtain ⟨htouches, hlocks, hledger⟩ := h.touches hp hr
  refine ⟨hlocks, hledger, h.clock, Crew.State.forall_phase_after h.fits (h.fits_self hp hr),
    Crew.State.forall_phase_after h.begun (fun a ha => ?_), h.decided_after hp htouches,
    fun j inner hj => ?_⟩
  · rcases Recording.attempt?_turn hr ha with hsame | hnew
    · exact h.begun i p hp a hsame
    · exact ⟨s.clock, .refl, hnew⟩
  · by_cases hji : j = i
    · subst hji
      rw [Crew.State.after_phase_self] at hj
      obtain ⟨t, hflow, hcell, hrecord⟩ := h.standing_self hp hr (Option.some.inj hj)
      refine ⟨t, hflow, ?_, hrecord⟩
      rw [Crew.State.after_cells, if_pos rfl]
      exact hcell
    · rw [Crew.State.after_phase_of_ne _ hji] at hj
      obtain ⟨t, hflow, hstanding⟩ := h.standing j inner hj
      refine ⟨t, hflow, ?_, hstanding.record_of_rival hji h.locks (h.decided i p hp) htouches⟩
      rw [Crew.State.after_cells, if_neg hji]
      exact hstanding.cell

theorem Steady.step (h : v.Steady s) (hs : (recorders v).Step Moment.Ticks s s') : v.Steady s' := by
  cases hs with
  | pass ht => exact h.pass ht
  | act hact =>
    obtain ⟨i, -, rfl⟩ | ⟨i, p, stimulus, R, hp, hr, rfl⟩ := Crew.State.act_cases hact
    · exact h.start i
    · exact h.after hp hr

theorem Steady.run (h : v.Steady s) (hs : (recorders v).Reachable Moment.Ticks s s') :
    v.Steady s' := by
  induction hs with
  | refl => exact h
  | tail _ hstep ih => exact ih.step hstep

/-! ### Writing under the lock -/

/-- What the lock is worth when `i` puts into the ledger, in the step from `s` to `s'`. The lease in
which `i` believes is counted from the attempt that has begun at `t`. -/
structure Writes (v : Recorders ι) (s s' : (recorders v).State) (i : ι) (t : Moment) : Prop where
  begun : Relation.ReflTransGen Moment.Ticks t s.clock
  cell : (s.cells i).2 = ⟨some ((v.options i).leaseEnd t.wall), false⟩
  lock : s'.clock = s.clock ∧ s'.memory.item? v.table v.key = s.memory.item? v.table v.key
  covered_iff : v.Covered s i ↔ s.clock.wall < (v.options i).leaseEnd t.wall
  /-- As long as the lease runs, that of anybody else who is about to write has run out. -/
  alone : s.clock.wall < (v.options i).leaseEnd t.wall → ∀ j inner, j ≠ i →
    s.phase j = some (.saving inner) →
      ∃ expiry, (s.cells j).2 = ⟨some expiry, false⟩ ∧ expiry ≤ s.clock.wall

/-- A recording writes under the lock exactly while its lease runs. -/
theorem writes_covered_iff (v : Recorders ι) {m₀ : Memory}
    (hlocks : m₀.KeyedBy v.table Lease.schema) (hledger : m₀.KeyedBy v.ledger Entry.schema)
    {t₀ : Moment} (ht₀ : t₀.wall.IsValid) (cells : ι → Recording.Cell)
    {s s' : (recorders v).State}
    (hs : (recorders v).Reachable Moment.Ticks ((recorders v).initial m₀ t₀ cells) s) {i : ι}
    {stimulus : Stimulus} (hact : s.act? (.turn i stimulus) = some s')
    (hput : s.putBefore s' v.ledger = true) : ∃ t, v.Writes s s' i t := by
  have hsteady := (steady_initial v hlocks hledger ht₀ cells).run hs
  obtain ⟨p, R, hp, hr, rfl⟩ := Crew.State.turn_inv hact
  rw [Crew.State.putBefore_after] at hput
  obtain ⟨inner, rfl⟩ := hsteady.saving_of_put hp hr hput
  obtain ⟨t, hflow, hstanding⟩ := hsteady.standing i inner hp
  refine ⟨t, hflow, hstanding.cell, ⟨rfl, ?_⟩, hstanding.covered_iff, fun hlt j inner' hne hj => ?_⟩
  · change R.memory.item? v.table v.key = s.memory.item? v.table v.key
    cases (hsteady.touches hp hr).1 with
    | kept hafter hm => exact hm v.key
    | read d hafter hm hread hpermits => exact hm v.key
    | wrote d k hbefore hafter hkey hunchanged hputs => cases hbefore
  · obtain ⟨t', -, hother⟩ := hsteady.standing j inner' hj
    refine ⟨_, hother.cell, ?_⟩
    by_contra hrunning
    have hcovered := hstanding.covered_iff.mpr hlt
    exact hne ((hother.covered_iff.mpr (lt_of_not_ge hrunning)).unique hcovered)

def pairOf (settings : Settings) : Recorders Bool where
  table := settings.lock.table
  key := settings.lock.key
  owner second := if second then "second" else "first"
  distinct := HeldLease.pair.distinct
  options _ := settings.lockOptions
  tableOptions _ := settings.tableOptions
  ledger := settings.ledger.table
  entry second :=
    { changeId := "create-users"
      executionId := if second then "run-2" else "run-1"
      author := "ops"
      changeLogClass := "Users"
      timestamp := ⟨0, 0⟩ }

def bothTables (settings : Settings) : Memory :=
  (({} : Memory).createActive settings.lock.table Lease.schema default).createActive
    settings.ledger.table Entry.schema default

def pairStart (settings : Settings) : (recorders (pairOf settings)).State :=
  (recorders (pairOf settings)).initial (bothTables settings) (Crew.second 0) fun _ => (.ready, {})

/-- The first has the lock, and after a second it has read the record that it is to change. -/
def firstScript : Crew.Script Bool :=
  [(Crew.second 0, .start false), (Crew.second 0, .turn false .reply),
    (Crew.second 0, .turn false .reply), (Crew.second 1, .turn false .reply)]

/-- A second later the other one comes. -/
def secondScript : Crew.Script Bool :=
  [(Crew.second 2, .start true), (Crew.second 2, .turn true .reply),
    (Crew.second 2, .turn true .reply)]

def believed {settings : Settings} (s : (recorders (pairOf settings)).State) (second : Bool) :
    Option Hold :=
  match s.phase second with
  | some (.saving _) => some (s.cells second).2
  | _ => none

theorem saving_of_believed {settings : Settings} {s : (recorders (pairOf settings)).State}
    {second : Bool} {hold : Hold} (h : believed s second = some hold) :
    (∃ inner, s.phase second = some (.saving inner)) ∧ (s.cells second).2 = hold := by
  rw [believed] at h
  split at h
  · next inner hp => exact ⟨⟨inner, hp⟩, Option.some.inj h⟩
  · cases h

def putNext {settings : Settings} (s : (recorders (pairOf settings)).State) : Option Bool :=
  (s.act? (.turn false .reply)).map fun s' => s.putBefore s' settings.ledger.table

theorem keyedBy_bothTables (settings : Settings)
    (hne : settings.lock.table ≠ settings.ledger.table) :
    (bothTables settings).KeyedBy settings.lock.table Lease.schema ∧
      (bothTables settings).KeyedBy settings.ledger.table Entry.schema := by
  refine ⟨fun t ht => ?_, fun t ht => ?_⟩
  · rw [bothTables, Memory.createActive, Memory.setTable, Ordered.get?_insert_of_ne _ hne,
      Memory.createActive, Memory.setTable, Ordered.get?_insert_self] at ht
    cases ht
    rfl
  · rw [bothTables, Memory.createActive, Memory.setTable, Ordered.get?_insert_self] at ht
    cases ht
    rfl

theorem writes_covered_iff_of_minute :
    ∃ s s', (pairStart {}).play? Moment.Ticks firstScript = some s ∧
      s.act? (.turn false .reply) = some s' ∧ s.putBefore s' "migrationChangeLog" = true ∧
      (pairOf {}).Covered s false := by
  have hrun : ((pairStart {}).play? Moment.Ticks firstScript).map (fun s =>
      (s.clock, putNext s, (s.cells false).2)) =
      some (Crew.second 1, some true, ⟨some ⟨60, 0⟩, false⟩) := by decide +kernel
  obtain ⟨s, hs, hseen⟩ := Option.map_eq_some_iff.mp hrun
  have hclock : s.clock = Crew.second 1 := congrArg (·.1) hseen
  have hcell : (s.cells false).2 = ⟨some ⟨60, 0⟩, false⟩ := congrArg (·.2.2) hseen
  obtain ⟨s', hact, hput⟩ := Option.map_eq_some_iff.mp (congrArg (·.2.1) hseen)
  obtain ⟨hlocks, hledger⟩ := keyedBy_bothTables {} (by decide)
  obtain ⟨t, hwrites⟩ := writes_covered_iff (pairOf {}) hlocks hledger
    (show (Crew.second 0).wall.IsValid by decide) (fun _ => (.ready, {}))
    (Crew.State.reachable_of_play hs) hact hput
  refine ⟨s, s', hs, hact, hput, hwrites.covered_iff.mpr ?_⟩
  have hend : ((pairOf {}).options false).leaseEnd t.wall = ⟨60, 0⟩ :=
    Option.some.inj (congrArg Hold.expiresAt (hwrites.cell.symm.trans hcell))
  rw [hend, hclock]
  decide

/-- With leases of one second, the put of the first falls into the lease of the second. -/
theorem written_under_another_lease :
    ∃ settings s s', settings.flaw? = none ∧
      (recorders (pairOf settings)).Reachable Moment.Ticks (pairStart settings) s ∧
      s.act? (.turn false .reply) = some s' ∧ s.putBefore s' settings.ledger.table = true ∧
      ¬(pairOf settings).Covered s false ∧ (pairOf settings).Covered s true := by
  let settings : Settings := { lock := { acquiredForMs := 1000 } }
  have hrun : ((pairStart settings).play? Moment.Ticks (firstScript ++ secondScript)).map (fun s =>
      (s.clock, putNext s, believed s true)) =
      some (Crew.second 2, some true, some ⟨some ⟨3, 0⟩, false⟩) := by decide +kernel
  obtain ⟨s, hs, hseen⟩ := Option.map_eq_some_iff.mp hrun
  have hclock : s.clock = Crew.second 2 := congrArg (·.1) hseen
  have hbelieved : believed s true = some ⟨some ⟨3, 0⟩, false⟩ := congrArg (·.2.2) hseen
  obtain ⟨s', hact, hput⟩ := Option.map_eq_some_iff.mp (congrArg (·.2.1) hseen)
  obtain ⟨hlocks, hledger⟩ := keyedBy_bothTables settings (by decide)
  have hreachable := Crew.State.reachable_of_play hs
  have hsteady := (steady_initial (pairOf settings) hlocks hledger
    (show (Crew.second 0).wall.IsValid by decide) fun _ => (.ready, {})).run hreachable
  obtain ⟨⟨inner, hsaving⟩, hcell⟩ := saving_of_believed hbelieved
  obtain ⟨t, -, hstanding⟩ := hsteady.standing true inner hsaving
  have hend : ((pairOf settings).options true).leaseEnd t.wall = ⟨3, 0⟩ :=
    Option.some.inj (congrArg Hold.expiresAt (hstanding.cell.symm.trans hcell))
  have hcovered : (pairOf settings).Covered s true := by
    refine hstanding.covered_iff.mpr ?_
    rw [hend, hclock]
    decide
  refine ⟨settings, s, s', by decide, hreachable, hact, hput, fun hfirst => ?_, hcovered⟩
  cases hfirst.unique hcovered

end Recorders

end MigrationLedger
