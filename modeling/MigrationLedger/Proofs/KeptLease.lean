import MigrationLedger.Proofs.FreeLock
import MigrationLedger.Proofs.Promptness
import MigrationLedger.Proofs.Revival

/-! A lease that is kept in the background. While it runs nobody else can write, so every extension
succeeds; and one check comes before the lease has run out if the one before it did, as the checks
follow each other faster than the margin is long. What that leaves open is the first check. -/

namespace MigrationLedger

theorem LockTable.extend_decide_of_own (l : LockTable) (new : Lease) (t : Moment) {item : Item}
    {cur : Lease} (hcur : Lease.ofItem item = .ok cur) (howner : cur.owner = new.owner)
    (hstatus : cur.status = .held) :
    (l.leaseUpdate new.key (decideExtend new)).decide t (some item) = .write new.toItem () := by
  have hblocks : cur.blocks new.owner t.wall = false := Lease.blocks_eq_false.mpr (.inl howner)
  simp [leaseUpdate, hcur, decideExtend, hblocks, howner, hstatus]

/-- A holder that takes a lock and then keeps it in the background, checking the lease more often
than the margin is long; and other owners' uses of any locks of the table. -/
structure Keeping (ι γ : Type) where
  table : String
  tenants : γ → Tenant
  holder : γ
  uses : ι → LockUse γ
  margin : Span
  hasMargin : (tenants holder).options.refreshMargin? = some margin
  frequent : (tenants holder).options.tryFrequency < margin
  rival : ∀ i, (uses i).key tenants = (tenants holder).key →
    (uses i).owner tenants ≠ (tenants holder).owner

inductive Keeping.Part (ι : Type) where
  | taker
  | keeper
  | other (i : ι)
  deriving DecidableEq

namespace Keeping

variable {ι γ : Type} {v : Keeping ι γ}

def parts (v : Keeping ι γ) : Part ι → LockUse γ
  | .taker => .through v.holder .acquire
  | .keeper => .through v.holder .refresh
  | .other i => v.uses i

abbrev crew (v : Keeping ι γ) : Crew (Part ι) (Option γ) Hold :=
  lockUsers v.table v.tenants v.parts

def own (v : Keeping ι γ) : Holder := (v.tenants v.holder).holder v.table

def wait (v : Keeping ι γ) : Span := v.own.options.tryFrequency

def lease (v : Keeping ι γ) (expiry : Instant) : Lease := ⟨v.own.key, .held, v.own.owner, expiry⟩

def Stored (v : Keeping ι γ) (m : Memory) (expiry : Instant) : Prop :=
  ∃ n, m.item? v.table v.own.key = some (Item.withRevision (v.lease expiry).toItem n)

/-- A lease that runs at `now`, and ends a lease's length after some earlier instant unless it ends
with the calendar. -/
structure Runs (v : Keeping ι γ) (expiry now : Instant) : Prop where
  valid : expiry.IsValid
  before : now < expiry
  counted : expiry = Instant.last ∨ ∃ start : Instant, start.IsValid ∧ start ≤ now ∧
    start.after? v.own.options.acquiredFor = some expiry

/-- The next check after one at `now` finds the lease running. -/
def Lasts (v : Keeping ι γ) (expiry now : Instant) : Prop :=
  expiry = Instant.last ∨ now.shift v.wait.nanos < expiry

/-- How far an extension is that writes `lease` in place of `read`. -/
def Extending (read : Option Item) (lease : Lease) : LockTable.Changing Unit → Prop
  | .active _ _ (.reading _) => True
  | .active _ _ (.writing _ found item _) => found = read ∧ item = lease.toItem
  | _ => False

/-- Where the background stands: it rests, and has done so for part of its wait; or it extends the
lease, at the very instant of the check. -/
def Stage (v : Keeping ι γ) (since t : Moment) (m : Memory) (expiry : Instant) :
    Holder.Refreshing → Prop
  | .resting => v.Lasts expiry since.wall ∧ ∃ d : Nat, d ≤ v.wait.nanos ∧
      t.elapsed = since.elapsed.add ⟨d⟩ ∧ t.wall = since.wall.shift d
  | .checking (.extending lease inner) => t = since ∧ lease = v.own.leaseAt t.wall ∧
      Extending (m.item? v.table v.own.key) lease inner
  | _ => False

variable {expiry now : Instant} {t since : Moment} {m : Memory} {k : Hold}

theorem Stored.ofItem (h : v.Stored m expiry) (hvalid : expiry.IsValid) :
    ∃ item, m.item? v.table v.own.key = some item ∧ Lease.ofItem item = .ok (v.lease expiry) := by
  obtain ⟨n, hitem⟩ := h
  exact ⟨_, hitem, Lease.ofItem_toItem hvalid _⟩

theorem wait_lt_length (v : Keeping ι γ) : v.wait.nanos < v.own.options.acquiredFor.nanos :=
  Nat.lt_of_lt_of_le v.frequent (LockOptions.refreshMargin_le v.hasMargin)

/-- A lease that is written now lasts beyond the next check. -/
theorem fresh (v : Keeping ι γ) (hnow : now.IsValid) (hlast : now < Instant.last) :
    v.Runs (v.own.options.leaseEnd now) now ∧ v.Lasts (v.own.options.leaseEnd now) now := by
  rw [LockOptions.leaseEnd]
  cases hend : now.after? v.own.options.acquiredFor with
  | none => exact ⟨⟨Instant.isValid_last, hlast, .inl rfl⟩, .inl rfl⟩
  | some expiry =>
    have hlasts : now.shift v.wait.nanos < expiry := by
      rw [(Instant.after?_eq hend).1]
      exact Instant.shift_lt_shift hnow v.wait_lt_length
    have hruns : now < expiry := lt_of_le_of_lt (Instant.le_shift hnow _) hlasts
    exact ⟨⟨hnow.after? hend, hruns, .inr ⟨now, hnow, le_refl _, hend⟩⟩, .inr hlasts⟩

theorem Runs.lasts_of_not_due (h : v.Runs expiry now) (hnow : now.IsValid)
    (hdue : v.own.options.refreshDue? expiry now = some false) : v.Lasts expiry now := by
  rcases h.counted with hlast | ⟨start, hstart, hle, hend⟩
  · exact .inl hlast
  · exact .inr (LockOptions.shift_lt_of_not_due hstart hnow hle hend v.hasMargin v.frequent hdue)

/-- What a turn in the background leaves: the lease that is believed in is stored and runs. -/
structure Holds (v : Keeping ι γ) (t : Moment) (expiry : Instant)
    (r : Turned Hold Holder.Refreshing) : Prop where
  cell : r.cell = ⟨some expiry, false⟩
  stored : v.Stored r.memory expiry
  runs : v.Runs expiry t.wall
  stage : v.Stage t t r.memory expiry r.state

theorem stage_resting (hlasts : v.Lasts expiry t.wall) (ht : t.wall.IsValid) :
    v.Stage t t m expiry .resting :=
  ⟨hlasts, 0, Nat.zero_le _, rfl, (Instant.shift_zero ht).symm⟩

theorem keeper_wakes {r : Turned Hold Holder.Refreshing} (hstored : v.Stored m expiry)
    (hruns : v.Runs expiry t.wall) (ht : t.wall.IsValid)
    (hr : v.own.refresh.machine.turn? t m ⟨some expiry, false⟩ .resting .wake = some r) :
    v.Holds t expiry r := by
  have hstart : r = ⟨none, m, (Holder.settleCheck (v.own.ensure.start t ⟨some expiry, false⟩)).1,
      (Holder.settleCheck (v.own.ensure.start t ⟨some expiry, false⟩)).2⟩ :=
    (Option.some.inj hr).symm
  have hdue : v.own.options.refreshDue? expiry t.wall ≠ none := by
    intro hnone
    have hmargin := Option.map_eq_none_iff.mp hnone
    cases hmargin.symm.trans v.hasMargin
  cases hcheck : v.own.options.refreshDue? expiry t.wall with
  | none => exact absurd hcheck hdue
  | some due =>
    cases due with
    | false =>
      rw [hstart, Holder.ensure_start_of_not_due (h := v.own) (k := ⟨some expiry, false⟩) rfl
        hcheck]
      exact ⟨rfl, hstored, hruns, stage_resting (hruns.lasts_of_not_due ht hcheck) ht⟩
    | true =>
      rw [hstart, Holder.ensure_start_of_due (h := v.own) (k := ⟨some expiry, false⟩) rfl hcheck]
      exact ⟨rfl, hstored, hruns, rfl, rfl, trivial⟩

theorem keeper_extends {p : Holder.Ensuring} {stimulus : Stimulus}
    {r : Turned Hold Holder.Refreshing} (htable : m.HasTable v.table Lease.schema)
    (hstored : v.Stored m expiry) (hruns : v.Runs expiry t.wall) (ht : t.wall.IsValid)
    (hlast : t.wall < Instant.last) (hstage : v.Stage t t m expiry (.checking p))
    (hcalm : stimulus.isCalm = true)
    (hr : v.own.refresh.machine.turn? t m ⟨some expiry, false⟩ (.checking p) stimulus = some r) :
    ∃ expiry', v.Holds t expiry' r := by
  cases p with
  | done answer => exact hstage.elim
  | extending lease inner =>
    obtain ⟨-, rfl, hinner⟩ := hstage
    obtain ⟨q, hq, hin⟩ := (Holder.encloses_check v.own).turn_inner hr
    obtain ⟨q', hq', hin'⟩ := (Holder.encloses_extend v.own (v.own.leaseAt t.wall)).turn_inner hq
    obtain ⟨note, limit, inner, state, rfl, hturn, hcell, hstate⟩ :=
      Bounded.calm_turn htable hcalm hq'
    have hmemory : r.memory = q'.memory := hin.memory.trans hin'.memory
    have hsettled : (r.cell, r.state) = Holder.settleCheck
        (v.own.settleExtension (v.own.leaseAt t.wall) (q'.cell, q'.state)) := by
      rw [Prod.ext_iff, hin.cell, hin.state, hin'.cell, hin'.state]
      exact ⟨rfl, rfl⟩
    rw [hcell, hstate] at hsettled
    obtain ⟨item, hitem, hlease⟩ := hstored.ofItem hruns.valid
    cases inner with
    | reading n =>
      obtain ⟨hmem, hnext⟩ := hturn.of_reading
      have hdecide := LockTable.extend_decide_of_own v.own.locks (v.own.leaseAt t.wall) t hlease
        rfl rfl
      have hphase : state = .writing n (m.item? v.table v.own.key)
          (v.own.leaseAt t.wall).toItem () := by
        rw [hitem, ← Update.afterRead_write hdecide, ← hitem]
        exact hnext
      rw [hphase] at hsettled
      obtain ⟨hk, hst⟩ := Prod.mk.inj hsettled
      rw [hmem] at hmemory
      refine ⟨expiry, hk, hmemory ▸ hstored, hruns, ?_⟩
      rw [hst, hmemory]
      exact ⟨rfl, rfl, rfl, rfl⟩
    | writing n found drafted answer =>
      obtain ⟨hfound, hdrafted⟩ := hinner
      have hnamed : v.own.key ≠ "" :=
        KeySchema.ne_empty_of_keyOf (Memory.keyOf_item? htable.keyedBy hitem)
      have hkey : Lease.schema.keyOf (Draft.written ⟨found, drafted⟩) = .ok v.own.key := by
        rw [Draft.written, KeySchema.keyOf_withRevision Lease.partitionKey_ne, hdrafted]
        exact Lease.keyOf_toItem hnamed
      rcases hturn.of_writing hkey with ⟨-, hputs, hnext⟩ | ⟨hchanged, -⟩
      · rw [hnext] at hsettled
        obtain ⟨hk, hst⟩ := Prod.mk.inj hsettled
        obtain ⟨hruns', hlasts⟩ := v.fresh ht hlast
        have hwritten : q'.memory.item? v.table v.own.key =
            some (Draft.written ⟨found, drafted⟩) := hputs.self
        refine ⟨v.own.options.leaseEnd t.wall, hk, ⟨nextRevision found, ?_⟩, hruns', ?_⟩
        · rw [hmemory, hwritten, Draft.written, hdrafted]
          rfl
        · rw [hst]
          exact stage_resting hlasts ht
      · rw [hfound] at hchanged
        cases hchanged.symm.trans (Condition.unchanged_self _)
    | pausing n => exact hinner.elim
    | done answer => exact hinner.elim

variable [DecidableEq ι] {s s' : v.crew.State}

/-- Another owner's put does not touch a lease that runs. -/
theorem stored_of_rival (hsteady : Revival.Steady Moment.Ticks s)
    (hstored : v.Stored s.memory expiry) (hruns : v.Runs expiry s.clock.wall) {i : ι}
    {p : (v.uses i).Phase} {stimulus : Stimulus} {r : Turned Hold (v.uses i).Phase}
    (hp : s.phase (.other i) = some p)
    (hr : ((v.uses i).operation v.table v.tenants).machine.turn? s.clock s.memory
      (s.cellOf (.other i)) p stimulus = some r) :
    r.memory.item? v.table v.own.key = s.memory.item? v.table v.own.key := by
  have heffect := hsteady.obeys (.other i) p stimulus r hp hr
  cases heffect with
  | idle hafter hm hx => rw [hm]
  | read d hafter hm hx hread hpermits => rw [hm]
  | wrote d k hbefore hafter hx hkey hunchanged hputs =>
    have hsound := hsteady.coherent.sound (.other i) p d hp hbefore
    obtain ⟨rfl, hread⟩ := hsound.replaces hsteady.coherent.keyedBy hkey hunchanged
    by_cases hsame : v.own.key = (v.uses i).key v.tenants
    · obtain ⟨then_, hflow, hpermits⟩ := hsound.decided
      obtain ⟨item, hitem, hlease⟩ := hstored.ofItem hruns.valid
      have hfound : d.read = some item := by
        rw [← hread, ← hitem, hsame]
        rfl
      obtain ⟨cur, hcur, hblocks⟩ := hpermits.replaced item hfound
      cases hlease.symm.trans hcur
      -- the lease ran already when the other owner decided
      have hlt : then_.wall < expiry := lt_of_le_of_lt (Moment.wall_le_of_ticks hflow) hruns.before
      have howner : v.own.owner ≠ (v.uses i).owner v.tenants := (v.rival i hsame.symm).symm
      cases hblocks.symm.trans (Lease.blocks_of_running howner rfl hlt)
    · exact hputs.others v.table v.own.key (.inr hsame)

variable [DecidableEq γ]

structure Guarded (v : Keeping ι γ) (s : v.crew.State) (since : Moment) (expiry : Instant) :
    Prop where
  steady : Revival.Steady Moment.Ticks s
  clock : s.clock.wall.IsValid
  begun : since.wall.IsValid
  table : s.memory.HasTable v.table Lease.schema
  taken : s.phase .taker = some (.done (.ok ()))
  cell : s.cells (some v.holder) = ⟨some expiry, false⟩
  stored : v.Stored s.memory expiry
  runs : v.Runs expiry s.clock.wall
  stage : ∃ p, s.phase .keeper = some p ∧ v.Stage since s.clock s.memory expiry p

omit [DecidableEq ι] [DecidableEq γ] in
theorem holder_ne_object (v : Keeping ι γ) (i : ι) :
    some v.holder ≠ v.crew.object (.other i) := by
  intro hsame
  change some v.holder = (v.uses i).holder? at hsame
  have hrival := v.rival i
  cases huse : v.uses i with
  | direct options call =>
    rw [huse] at hsame
    cases hsame
  | through g action =>
    rw [huse] at hsame hrival
    cases hsame
    exact hrival rfl rfl

theorem Guarded.pass (h : v.Guarded s since expiry) {p : Holder.Refreshing} {d : Span}
    {wall : Instant} (hp : s.phase .keeper = some p)
    (hdue : ∀ due, v.own.refresh.machine.endOfWait? since.elapsed p = some due →
      s.clock.elapsed.add d ≤ due)
    (hwall : s.clock.wall.after? d = some wall) (hlast : wall < Instant.last) :
    v.Guarded { s with clock := ⟨s.clock.elapsed.add d, wall⟩ } since expiry := by
  have hvalid : wall.IsValid := h.clock.after? hwall
  have hle : s.clock.wall ≤ wall := h.clock.le_after? hwall
  have hsteady : Revival.Steady Moment.Ticks
      ({ s with clock := ⟨s.clock.elapsed.add d, wall⟩ } : v.crew.State) :=
    h.steady.step (.pass ⟨hle, hvalid⟩)
  have hcounted : expiry = Instant.last ∨ ∃ start : Instant, start.IsValid ∧ start ≤ wall ∧
      start.after? v.own.options.acquiredFor = some expiry :=
    h.runs.counted.imp_right fun ⟨start, hstart, hbefore, hend⟩ =>
      ⟨start, hstart, le_trans hbefore hle, hend⟩
  obtain ⟨p', hp', hstage⟩ := h.stage
  cases hp.symm.trans hp'
  cases p with
  | resting =>
    obtain ⟨hlasts, e, he, helapsed, hshift⟩ := hstage
    have hin : e + d.nanos ≤ v.wait.nanos := by
      have hdue' : (s.clock.elapsed.add d).nanos ≤ since.elapsed.nanos + v.wait.nanos :=
        hdue _ rfl
      rw [helapsed] at hdue'
      simp only [Span.add] at hdue'
      omega
    have hthere : wall = since.wall.shift (e + d.nanos : Nat) := by
      rw [(Instant.after?_eq hwall).1, hshift, Instant.shift_shift h.begun]
    have hbefore : wall < expiry := by
      rcases hlasts with rfl | hlasts
      · exact hlast
      · rw [hthere]
        exact lt_of_le_of_lt (Instant.shift_le_shift h.begun hin) hlasts
    refine ⟨hsteady, hvalid, h.begun, h.table, h.taken, h.cell, h.stored,
      ⟨h.runs.valid, hbefore, hcounted⟩, .resting, hp, hlasts, e + d.nanos, hin, ?_, hthere⟩
    simp only [helapsed, Span.add, Nat.add_assoc]
  | checking inner =>
    -- the store answers at once
    obtain _ | answer := inner
    case done => exact hstage.elim
    next lease inner =>
      obtain ⟨hnow, hlease, hinner⟩ := hstage
      have hwait : v.own.refresh.machine.endOfWait? since.elapsed
          (.checking (.extending lease inner)) = some since.elapsed := by
        obtain ⟨note, limit, inner⟩ | answer := inner
        · cases inner with
          | reading n => rfl
          | writing n found item answer => rfl
          | pausing n => exact hinner.elim
          | done answer => exact hinner.elim
        · exact hinner.elim
      have hzero : d = ⟨0⟩ := by
        have hdue' : (s.clock.elapsed.add d).nanos ≤ since.elapsed.nanos := hdue _ hwait
        rw [hnow] at hdue'
        obtain ⟨n⟩ := d
        simp only [Span.add] at hdue'
        rw [Span.mk.injEq]
        omega
      have hstill : (⟨s.clock.elapsed.add d, wall⟩ : Moment) = s.clock := by
        rw [(Instant.after?_eq hwall).1, hzero]
        exact congrArg (Moment.mk s.clock.elapsed) (Instant.shift_zero h.clock)
      rw [hstill]
      exact h
  | stopped => exact hstage.elim

theorem Guarded.others (h : v.Guarded s since expiry) {e : Crew.Event (Part ι)}
    (he : e.who ≠ .keeper) (hact : s.act? e = some s') : v.Guarded s' since expiry := by
  have hsteady : Revival.Steady Moment.Ticks s' := h.steady.step (.act hact)
  obtain ⟨p, hp, hstage⟩ := h.stage
  obtain ⟨hnone, rfl⟩ | ⟨q, stimulus, r, hq, hr, rfl⟩ := Crew.State.act_inv hact
  · cases hwho : e.who with
    | keeper => exact absurd hwho he
    | taker =>
      rw [hwho] at hnone
      cases hnone.symm.trans h.taken
    | other i =>
      rw [hwho] at hsteady
      have htaker : (Part.taker : Part ι) ≠ .other i := nofun
      have hkeeper : (Part.keeper : Part ι) ≠ .other i := nofun
      refine ⟨hsteady, h.clock, h.begun, h.table, ?_, ?_, h.stored, h.runs, p, ?_, hstage⟩
      · exact (Crew.State.settle_phase_of_ne s htaker _ _).trans h.taken
      · exact (Crew.State.settle_cells s _ _ _ _).trans
          ((if_neg (v.holder_ne_object i)).trans h.cell)
      · exact (Crew.State.settle_phase_of_ne s hkeeper _ _).trans hp
  · generalize hwho : e.who = j at *
    cases j with
    | keeper => exact absurd rfl he
    | taker =>
      cases hq.symm.trans h.taken
      cases stimulus <;> cases hr
    | other i =>
      have hsame : r.memory.item? v.table v.own.key = s.memory.item? v.table v.own.key :=
        stored_of_rival h.steady h.stored h.runs hq hr
      have htable := (Machine.turn_keeps hr v.table).hasTable h.table
      have hstored : v.Stored r.memory expiry := by
        rw [Stored, hsame]
        exact h.stored
      have hstage' : v.Stage since s.clock r.memory expiry p := by
        obtain _ | inner | _ := p
        · exact hstage
        · obtain _ | answer := inner
          · obtain ⟨hnow, hlease, hinner⟩ := hstage
            exact ⟨hnow, hlease, hsame ▸ hinner⟩
          · exact hstage
        · exact hstage
      have htaker : (Part.taker : Part ι) ≠ .other i := nofun
      have hkeeper : (Part.keeper : Part ι) ≠ .other i := nofun
      refine ⟨hsteady, h.clock, h.begun, htable, ?_, ?_, hstored, h.runs, p, ?_, hstage'⟩
      · exact (Crew.State.after_phase_of_ne s htaker r).trans h.taken
      · exact (Crew.State.after_cells s _ r _).trans ((if_neg (v.holder_ne_object i)).trans h.cell)
      · exact (Crew.State.after_phase_of_ne s hkeeper r).trans hp

theorem Guarded.own (h : v.Guarded s since expiry) (hlast : s.clock.wall < Instant.last)
    {stimulus : Stimulus} (hcalm : stimulus.isCalm = true)
    (hact : s.act? (.turn .keeper stimulus) = some s') :
    ∃ expiry', v.Guarded s' s.clock expiry' := by
  have hsteady : Revival.Steady Moment.Ticks s' := h.steady.step (.act hact)
  obtain ⟨p, hp, hstage⟩ := h.stage
  obtain ⟨q, r, hq, hr, rfl⟩ := Crew.State.turn_inv hact
  cases hp.symm.trans hq
  have htable := (Machine.turn_keeps hr v.table).hasTable h.table
  have hbelieved : s.cellOf Part.keeper = ⟨some expiry, false⟩ := h.cell
  rw [hbelieved] at hr
  have hholds : ∃ expiry', v.Holds s.clock expiry' r := by
    cases p with
    | resting =>
      cases stimulus with
      | wake => exact ⟨expiry, keeper_wakes h.stored h.runs h.clock hr⟩
      | reply => cases hr
      | refuse fault => cases hcalm
      | expire => cases hcalm
    | checking inner =>
      have hnow : v.Stage s.clock s.clock s.memory expiry (.checking inner) := by
        obtain _ | answer := inner
        · obtain ⟨hnow, hlease, hinner⟩ := hstage
          exact ⟨rfl, hlease, hinner⟩
        · exact hstage
      exact keeper_extends h.table h.stored h.runs h.clock hlast hnow hcalm hr
    | stopped => exact hstage.elim
  obtain ⟨expiry', hholds⟩ := hholds
  have htaker : (Part.taker : Part ι) ≠ .keeper := by rintro ⟨⟩
  refine ⟨expiry', hsteady, h.clock, h.clock, htable, ?_, ?_, hholds.stored, hholds.runs, r.state,
    Crew.State.after_phase_self s _ r, hholds.stage⟩
  · exact (Crew.State.after_phase_of_ne s htaker r).trans h.taken
  · exact (Crew.State.after_cells s _ r _).trans ((if_pos rfl).trans hholds.cell)

theorem Guarded.step {since' : Moment} (h : v.Guarded s since expiry)
    (hstep : v.crew.PromptStep .keeper (s, since) (s', since'))
    (hlast : s'.clock.wall < Instant.last) : ∃ expiry', v.Guarded s' since' expiry' := by
  cases hstep with
  | pass hp hdue hwall => exact ⟨expiry, h.pass hp hdue hwall hlast⟩
  | others he hact => exact ⟨expiry, h.others he hact⟩
  | own hp hcalm hdue hact =>
    rw [Crew.State.act_clock hact] at hlast
    exact h.own hlast hcalm hact

theorem Guarded.run (h : v.Guarded s since expiry) {x : v.crew.State × Moment}
    (hrun : Relation.ReflTransGen (v.crew.PromptStep .keeper) (s, since) x) :
    x.1.clock.wall.IsValid ∧
      (x.1.clock.wall < Instant.last → ∃ expiry', v.Guarded x.1 x.2 expiry') := by
  induction hrun with
  | refl => exact ⟨h.clock, fun _ => ⟨expiry, h⟩⟩
  | tail _ hstep ih =>
    obtain ⟨hvalid, ih⟩ := ih
    obtain ⟨hle, hvalid'⟩ := hstep.clock hvalid
    refine ⟨hvalid', fun hlast => ?_⟩
    obtain ⟨expiry', hguarded⟩ := ih (lt_of_le_of_lt hle hlast)
    exact hguarded.step hstep hlast

/-! ## What is kept -/

/-- The owner holds the lock, by the record and by its own account, and whoever else asks for it is
told so. -/
structure Kept (v : Keeping ι γ) (s : v.crew.State) : Prop where
  record : ∃ item lease, s.memory.item? v.table v.own.key = some item ∧
    Lease.ofItem item = .ok lease ∧ lease.status = .held ∧ lease.owner = v.own.owner ∧
      s.clock.wall < lease.expiresAt
  held : (s.cells (some v.holder)).isHeldAt s.clock.wall = true
  refuses : ∀ (options : TableOptions) (new : Lease), new.key = v.own.key →
    new.owner ≠ v.own.owner → ∃ (expiry : Instant) (r : Turned Unit (LockTable.Changing Unit)),
      (LockTable.take ⟨v.table, options⟩ new).machine.turn? s.clock s.memory ()
        ((LockTable.take ⟨v.table, options⟩ new).start s.clock ()).2 .reply = some r ∧
      r.memory = s.memory ∧
      r.state = .ended (.error (.heldByOther v.own.key v.own.owner expiry))

theorem take_refused (l : LockTable) (new : Lease) {item : Item} {cur : Lease}
    (hm : m.HasTable l.table Lease.schema) (hitem : m.item? l.table new.key = some item)
    (hcur : Lease.ofItem item = .ok cur) (hblocks : cur.blocks new.owner t.wall = true) :
    ∃ r : Turned Unit (LockTable.Changing Unit),
      (l.take new).machine.turn? t m () ((l.take new).start t ()).2 .reply = some r ∧
      r.memory = m ∧ r.state = .ended (.error (.heldByOther new.key cur.owner cur.expiresAt)) := by
  let u := l.leaseUpdate new.key (LockTable.decideTake new)
  obtain ⟨tb, htb, -⟩ := hm
  have hget : m.perform t.wall (.getItem u.table u.key) = (.ok (m.item? l.table new.key), m) :=
    Memory.perform_getItem_of_table htb t.wall new.key
  have hnext : u.afterRead t 0 (.ok (m.item? l.table new.key)) =
      .done (.error (.heldByOther new.key cur.owner cur.expiresAt)) := by
    rw [hitem]
    exact Update.afterRead_stop (LockTable.take_decide_of_blocked l new hcur hblocks) 0
  refine ⟨_, rfl, ?_, ?_⟩
  · exact congrArg Prod.snd hget
  · change (Bounded.settle u.machine (fun _ k a => (k, a)) () _
      ((), u.afterRead t 0 (m.perform t.wall (.getItem u.table u.key)).1)).2 = _
    rw [hget, hnext]
    rfl

omit [DecidableEq γ] in
theorem Guarded.kept (h : v.Guarded s since expiry) : v.Kept s := by
  obtain ⟨item, hitem, hlease⟩ := h.stored.ofItem h.runs.valid
  refine ⟨⟨item, v.lease expiry, hitem, hlease, rfl, rfl, h.runs.before⟩, ?_,
    fun options new hkey howner => ⟨expiry, ?_⟩⟩
  · rw [Hold.isHeldAt, h.cell]
    simpa using le_of_lt h.runs.before
  · have hblocks : (v.lease expiry).blocks new.owner s.clock.wall = true :=
      Lease.blocks_of_running (Ne.symm howner) rfl h.runs.before
    have hrefused := take_refused (t := s.clock) ⟨v.table, options⟩ new h.table (hkey ▸ hitem)
      hlease hblocks
    rw [hkey] at hrefused
    exact hrefused

/-! ## From the taking of the lock on -/

/-- While the lock is being taken, a lease that is about to be written is the one of the instant at
which that attempt has begun. -/
structure Trying (v : Keeping ι γ) (s : v.crew.State) : Prop where
  steady : Revival.Steady Moment.Ticks s
  clock : s.clock.wall.IsValid
  fits : ∀ p, s.phase .taker = some p → Holder.Acquiring.Fits v.own p
  begun : ∀ p, s.phase .taker = some p → ∀ a, Holder.Acquiring.attempt? p = some a →
    ∃ t : Moment, t.wall.IsValid ∧ t.wall ≤ s.clock.wall ∧ a = v.own.attemptAt t

theorem Trying.step (h : v.Trying s) (hstep : v.crew.Step Moment.Ticks s s') : v.Trying s' := by
  have hsteady : Revival.Steady Moment.Ticks s' := h.steady.step hstep
  cases hstep with
  | pass ht =>
    refine ⟨hsteady, ht.2, h.fits, fun p hp a ha => ?_⟩
    obtain ⟨t₀, hvalid, hle, hbegun⟩ := h.begun p hp a ha
    exact ⟨t₀, hvalid, le_trans hle ht.1, hbegun⟩
  | act hact =>
    obtain ⟨i, -, rfl⟩ | ⟨i, q, stimulus, r, hq, hr, rfl⟩ := Crew.State.act_cases hact
    · by_cases hi : Part.taker = i
      · subst hi
        have hself := Crew.State.settle_phase_self s .taker
          ((v.crew.operation .taker).start s.clock (s.cellOf .taker)).1
          ((v.crew.operation .taker).start s.clock (s.cellOf .taker)).2
        refine ⟨hsteady, h.clock, fun p hp => ?_, fun p hp a ha => ?_⟩
        · cases hself.symm.trans hp
          exact (Holder.acquire_start v.own s.clock _).2.2 h.clock
        · cases hself.symm.trans hp
          exact ⟨s.clock, h.clock, le_refl _, (Holder.acquire_start_spec v.own s.clock _).2 a ha⟩
      · have hother := Crew.State.settle_phase_of_ne s hi
          ((v.crew.operation i).start s.clock (s.cellOf i)).1
          ((v.crew.operation i).start s.clock (s.cellOf i)).2
        exact ⟨hsteady, h.clock, fun p hp => h.fits p (hother.symm.trans hp),
          fun p hp => h.begun p (hother.symm.trans hp)⟩
    · by_cases hi : Part.taker = i
      · subst hi
        have hself := Crew.State.after_phase_self s .taker r
        refine ⟨hsteady, h.clock, fun p hp => ?_, fun p hp a ha => ?_⟩
        · cases hself.symm.trans hp
          have hturn : Holder.TurnSpec v.own False Holder.Acquiring.draft?
              (Holder.Acquiring.Fits v.own) s.clock s.memory (s.cellOf .taker) q r :=
            Holder.acquire_turn (h.fits q hq) h.clock hr
          exact hturn.fits
        · cases hself.symm.trans hp
          rcases Holder.acquire_attempt? hr ha with hsame | ⟨-, hnew⟩
          · exact h.begun q hq a hsame
          · exact ⟨s.clock, h.clock, le_refl _, hnew⟩
      · have hother := Crew.State.after_phase_of_ne s hi r
        exact ⟨hsteady, h.clock, fun p hp => h.fits p (hother.symm.trans hp),
          fun p hp => h.begun p (hother.symm.trans hp)⟩

theorem Trying.run (h : v.Trying s) (hrun : v.crew.Reachable Moment.Ticks s s') : v.Trying s' := by
  induction hrun with
  | refl => exact h
  | tail _ hstep ih => exact ih.step hstep

omit [DecidableEq γ] in
theorem trying_initial (v : Keeping ι γ) {m₀ : Memory}
    (hkeyed : m₀.KeyedBy v.table Lease.schema) {t₀ : Moment} (ht₀ : t₀.wall.IsValid)
    (cells : Option γ → Hold) : v.Trying (v.crew.initial m₀ t₀ cells) where
  steady := by
    refine ⟨(Revival.drafting v.table v.tenants v.parts).coherent_initial _ hkeyed t₀ cells, ?_⟩
    intro i p hp
    cases hp
  clock := ht₀
  fits p hp := by cases hp
  begun p hp := by cases hp

/-- With the answer that the lock is taken, the lease of the attempt is stored and believed in. -/
structure Granted (v : Keeping ι γ) (s s' : v.crew.State) (t : Moment) : Prop where
  begun : ∃ p, s.phase .taker = some p ∧ Holder.Acquiring.attempt? p = some (v.own.attemptAt t)
  valid : t.wall.IsValid
  before : t.wall ≤ s.clock.wall
  cell : s'.cells (some v.holder) = ⟨some (v.own.options.leaseEnd t.wall), false⟩
  stored : v.Stored s'.memory (v.own.options.leaseEnd t.wall)

theorem Trying.granted (h : v.Trying s) {stimulus : Stimulus}
    (hact : s.act? (.turn .taker stimulus) = some s')
    (hok : s'.phase .taker = some (.done (.ok ()))) : ∃ t, v.Granted s s' t := by
  obtain ⟨p, r, hp, hr, rfl⟩ := Crew.State.turn_inv hact
  have hdone : r.state = .done (.ok ()) :=
    Option.some.inj ((Crew.State.after_phase_self s .taker r).symm.trans hok)
  obtain ⟨a, ha, hput, hcell⟩ := Holder.acquire_ok hr hdone
  obtain ⟨t, hvalid, hle, rfl⟩ := h.begun p hp a ha
  refine ⟨t, ⟨p, hp, ha⟩, hvalid, hle, ?_, ?_⟩
  · exact (Crew.State.after_cells s .taker r _).trans ((if_pos rfl).trans hcell)
  · have heffect := h.steady.obeys .taker p stimulus r hp hr
    cases heffect with
    | idle hafter hm hx => cases hx.symm.trans hput
    | read d hafter hm hx hread hpermits =>
      rw [hx] at hput
      cases hput
    | wrote d k hbefore hafter hx hkey hunchanged hputs =>
      have hsound := h.steady.coherent.sound .taker p d hp hbefore
      obtain ⟨rfl, -⟩ := hsound.replaces h.steady.coherent.keyedBy hkey hunchanged
      have hitem : d.item = (v.own.leaseAt t.wall).toItem := by
        have hfits := h.fits p hp
        obtain ⟨started, lease, inner⟩ | _ | _ := p
        · obtain rfl : lease = v.own.leaseAt t.wall :=
            congrArg Holder.Attempt.lease (Option.some.inj ha)
          exact hfits.2 d hbefore
        · cases ha
        · cases ha
      refine ⟨nextRevision d.read, ?_⟩
      have hwritten : r.memory.item? v.table v.own.key = some d.written := hputs.self
      change r.memory.item? v.table v.own.key = _
      rw [hwritten, Draft.written, hitem]
      rfl

variable {s₁ s₂ s₃ : v.crew.State}

theorem Trying.guarded (h : v.Trying s₁) {stimulus : Stimulus}
    (hact : s₁.act? (.turn .taker stimulus) = some s₂)
    (hok : s₂.phase .taker = some (.done (.ok ()))) (hstart : s₂.act? (.start .keeper) = some s₃)
    (hgranted : v.Granted s₁ s₂ t)
    (hlasts : s₃.clock.wall.shift v.wait.nanos < v.own.options.leaseEnd t.wall) :
    v.Guarded s₃ s₃.clock (v.own.options.leaseEnd t.wall) := by
  have htrying := (h.step (.act hact)).step (.act hstart)
  have hclock : s₂.clock = s₁.clock := Crew.State.act_clock hact
  obtain ⟨hnone, rfl⟩ := Crew.State.start_inv hstart
  have hle : t.wall ≤ s₂.clock.wall := hclock ▸ hgranted.before
  obtain ⟨item, hitem, -⟩ := hgranted.stored.ofItem (LockOptions.isValid_leaseEnd _ hgranted.valid)
  have hbefore : s₂.clock.wall < v.own.options.leaseEnd t.wall :=
    lt_of_le_of_lt (Instant.le_shift htrying.clock _) hlasts
  have hcounted : v.own.options.leaseEnd t.wall = Instant.last ∨ ∃ start : Instant,
      start.IsValid ∧ start ≤ s₂.clock.wall ∧ start.after? v.own.options.acquiredFor =
        some (v.own.options.leaseEnd t.wall) := by
    rw [LockOptions.leaseEnd]
    cases hend : t.wall.after? v.own.options.acquiredFor with
    | none => exact .inl rfl
    | some expiry => exact .inr ⟨t.wall, hgranted.valid, hle, hend⟩
  have htaker : (Part.taker : Part ι) ≠ .keeper := by rintro ⟨⟩
  refine ⟨htrying.steady, htrying.clock, htrying.clock, ?_, ?_, ?_, hgranted.stored,
    ⟨LockOptions.isValid_leaseEnd _ hgranted.valid, hbefore, hcounted⟩, .resting, ?_,
    stage_resting (.inr hlasts) htrying.clock⟩
  · exact htrying.steady.coherent.keyedBy.hasTable hitem
  · exact (Crew.State.settle_phase_of_ne s₂ htaker _ _).trans hok
  · exact (Crew.State.settle_cells s₂ .keeper _ _ _).trans ((if_pos rfl).trans hgranted.cell)
  · exact Crew.State.settle_phase_self s₂ .keeper _ _

/-- At every instant of every run in which the background is never late, the lease is kept. -/
def KeptFrom (v : Keeping ι γ) (s : v.crew.State) : Prop :=
  ∀ s' since, v.crew.Prompt .keeper s s' since → s'.clock.wall < Instant.last → v.Kept s'

/-- Nothing happens until the first check, for which the lease has to last. -/
theorem lasts_of_keptFrom (hstart : s₂.act? (.start .keeper) = some s₃)
    (hvalid : s₃.clock.wall.IsValid) (hgranted : v.Granted s₁ s₂ t)
    (hrange : s₃.clock.wall.shift v.wait.nanos < Instant.last) (hkept : v.KeptFrom s₃) :
    s₃.clock.wall.shift v.wait.nanos < v.own.options.leaseEnd t.wall := by
  cases hend : t.wall.after? v.own.options.acquiredFor with
  | none =>
    rw [LockOptions.leaseEnd, hend]
    exact hrange
  | some expiry =>
    have hshort : v.wait ≤ Instant.greatestShift :=
      Nat.le_trans (Nat.le_of_lt v.wait_lt_length) (Instant.after?_eq hend).2
    have hwall := Instant.after?_of_lt_last hvalid hshort hrange
    have hresting : s₃.phase .keeper = some .resting := by
      obtain ⟨-, rfl⟩ := Crew.State.start_inv hstart
      exact Crew.State.settle_phase_self s₂ .keeper _ _
    have hmemory : s₃.memory = s₂.memory := by
      obtain ⟨-, rfl⟩ := Crew.State.start_inv hstart
      rfl
    let s' : v.crew.State :=
      { s₃ with clock := ⟨s₃.clock.elapsed.add v.wait, s₃.clock.wall.shift v.wait.nanos⟩ }
    have hpass : v.crew.PromptStep .keeper (s₃, s₃.clock) (s', s₃.clock) := by
      refine .pass hresting (fun due hdue => ?_) hwall
      cases hdue
      exact Nat.le_refl _
    obtain ⟨item, lease, hitem, hlease, -, -, hbefore⟩ := (hkept s' _ (.single hpass) hrange).record
    obtain ⟨item', hitem', hlease'⟩ :=
      hgranted.stored.ofItem (LockOptions.isValid_leaseEnd _ hgranted.valid)
    rw [← hmemory] at hitem'
    cases hitem.symm.trans hitem'
    cases hlease.symm.trans hlease'
    exact hbefore

/-- The lease is kept at every instant exactly if it lasts until the first check, and it does if the
background starts at the instant of the attempt. The counts of writes are taken not to overflow. -/
theorem lease_kept_iff {m₀ : Memory} (hkeyed : m₀.KeyedBy v.table Lease.schema)
    {t₀ : Moment} (ht₀ : t₀.wall.IsValid) (cells : Option γ → Hold)
    (hs₁ : v.crew.Reachable Moment.Ticks (v.crew.initial m₀ t₀ cells) s₁) {stimulus : Stimulus}
    (hact : s₁.act? (.turn .taker stimulus) = some s₂)
    (hok : s₂.phase .taker = some (.done (.ok ()))) (hstart : s₂.act? (.start .keeper) = some s₃)
    (hrange : s₃.clock.wall.shift v.wait.nanos < Instant.last) :
    ∃ t, v.Granted s₁ s₂ t ∧
      (v.KeptFrom s₃ ↔ s₃.clock.wall.shift v.wait.nanos < v.own.options.leaseEnd t.wall) ∧
      (t.wall = s₃.clock.wall → v.KeptFrom s₃) := by
  have htrying := (trying_initial v hkeyed ht₀ cells).run hs₁
  obtain ⟨t, hgranted⟩ := htrying.granted hact hok
  have hvalid : s₃.clock.wall.IsValid := ((htrying.step (.act hact)).step (.act hstart)).clock
  have hkept : s₃.clock.wall.shift v.wait.nanos < v.own.options.leaseEnd t.wall →
      v.KeptFrom s₃ := by
    intro hlasts s' since hrun hlast
    have hguarded := htrying.guarded hact hok hstart hgranted hlasts
    obtain ⟨expiry', hguarded'⟩ := (hguarded.run hrun).2 hlast
    exact hguarded'.kept
  refine ⟨t, hgranted, ⟨fun hall => ?_, hkept⟩, fun hnow => hkept ?_⟩
  · exact lasts_of_keptFrom hstart hvalid hgranted hrange hall
  · have hbefore : s₃.clock.wall < Instant.last := lt_of_le_of_lt (Instant.le_shift hvalid _) hrange
    rw [hnow]
    rcases (v.fresh hvalid hbefore).2 with hend | hlasts
    · rw [hend]
      exact hrange
    · exact hlasts

/-- Two owners want a lock; the first keeps it, for a minute at a time or for three milliseconds.
The second wants it for a millisecond only. -/
def pace (long : Bool) : Keeping Unit Unit where
  table := "locks"
  tenants _ :=
    { key := "migrations", owner := "first"
      options := if long then {} else { acquiredFor := .ofMillis 3, tryFrequency := .ofMillis 1 } }
  holder := ()
  uses _ := .direct {} (.take ⟨"migrations", .held, "second", ⟨0, 1000000⟩⟩)
  margin := if long then .ofMillis 19800 else .ofMillis 3
  hasMargin := by cases long <;> rfl
  frequent := by cases long <;> decide
  rival _ _ := by simp [LockUse.owner, LockCall.owner]

def millis (n : Nat) : Moment := ⟨.ofMillis n, ⟨0, n * Span.nanosPerMilli⟩⟩

def paceStart (long : Bool) : (pace long).crew.State :=
  (pace long).crew.initial (({} : Memory).createActive "locks" Lease.schema default) (millis 0)
    fun _ => {}

/-- The first finds no record, but the second writes before it does. The store answers at once, so
the pause after the conflict is all that takes time, and is longer than the lease of the second. -/
def conflictScript : Crew.Script (Part Unit) :=
  [(millis 0, .start .taker), (millis 0, .start (.other ())), (millis 0, .turn .taker .reply),
    (millis 0, .turn (.other ()) .reply), (millis 0, .turn (.other ()) .reply),
    (millis 0, .turn .taker .reply), (millis 5, .turn .taker .wake),
    (millis 5, .turn .taker .reply)]

def isTaken {long : Bool} (s : (pace long).crew.State) : Bool :=
  match s.phase .taker with
  | some (.done (.ok ())) => true
  | _ => false

theorem taken_of_isTaken {long : Bool} {s : (pace long).crew.State} (h : isTaken s = true) :
    s.phase .taker = some (.done (.ok ())) := by
  rw [isTaken] at h
  split at h
  · assumption
  · cases h

theorem kept_run (long : Bool) (expiry : Instant)
    (hrun : ((paceStart long).play? Moment.Ticks conflictScript).bind (fun s₁ =>
      (s₁.act? (.turn .taker .reply)).bind fun s₂ => (s₂.act? (.start .keeper)).map fun s₃ =>
        (isTaken s₂, s₃.clock, s₃.cells (some ()))) = some (true, millis 5, ⟨some expiry, false⟩)) :
    ∃ s₁ s₂ s₃, (paceStart long).play? Moment.Ticks conflictScript = some s₁ ∧
      s₁.act? (.turn .taker .reply) = some s₂ ∧ s₂.phase .taker = some (.done (.ok ())) ∧
      s₂.act? (.start .keeper) = some s₃ ∧ s₃.clock = millis 5 ∧
      s₃.cells (some ()) = ⟨some expiry, false⟩ := by
  obtain ⟨s₁, hs₁, hrun⟩ := Option.bind_eq_some_iff.mp hrun
  obtain ⟨s₂, hact, hrun⟩ := Option.bind_eq_some_iff.mp hrun
  obtain ⟨s₃, hstart, hseen⟩ := Option.map_eq_some_iff.mp hrun
  have htaken : isTaken s₂ = true := congrArg (·.1) hseen
  exact ⟨s₁, s₂, s₃, hs₁, hact, taken_of_isTaken htaken, hstart, congrArg (·.2.1) hseen,
    congrArg (·.2.2) hseen⟩

theorem lease_kept_iff_of_minute :
    ∃ s₁ s₂ s₃, (paceStart true).play? Moment.Ticks conflictScript = some s₁ ∧
      s₁.act? (.turn .taker .reply) = some s₂ ∧ s₂.act? (.start .keeper) = some s₃ ∧
      (pace true).KeptFrom s₃ := by
  obtain ⟨s₁, s₂, s₃, hs₁, hact, hok, hstart, hclock, hcell⟩ :=
    kept_run true ⟨60, 0⟩ (by decide +kernel)
  have hkeyed : (({} : Memory).createActive "locks" Lease.schema default).KeyedBy "locks"
      Lease.schema := by
    rintro t ⟨⟩
    rfl
  have hrange : s₃.clock.wall.shift (pace true).wait.nanos < Instant.last := by
    rw [hclock]
    decide
  obtain ⟨t, hgranted, hiff, -⟩ := lease_kept_iff hkeyed
    (show (millis 0).wall.IsValid by decide) (fun _ => {})
    (Crew.State.reachable_of_play hs₁) hact hok hstart hrange
  refine ⟨s₁, s₂, s₃, hs₁, hact, hstart, hiff.mpr ?_⟩
  have hend : (pace true).own.options.leaseEnd t.wall = ⟨60, 0⟩ := by
    have hbelieved : s₃.cells (some ()) = s₂.cells (some ()) := by
      obtain ⟨-, rfl⟩ := Crew.State.start_inv hstart
      exact (Crew.State.settle_cells s₂ .keeper _ _ _).trans (if_pos rfl)
    have hsame := hgranted.cell.symm.trans (hbelieved.symm.trans hcell)
    exact Option.some.inj (congrArg Hold.expiresAt hsame)
  rw [hend, hclock]
  decide

/-- A lease of three milliseconds has run out when the pause after the conflict is over. -/
theorem not_kept_of_conflict :
    ∃ s₁ s₂ s₃, (paceStart false).play? Moment.Ticks conflictScript = some s₁ ∧
      s₁.act? (.turn .taker .reply) = some s₂ ∧ s₂.phase .taker = some (.done (.ok ())) ∧
      s₂.act? (.start .keeper) = some s₃ ∧
      s₃.clock.wall.shift (pace false).wait.nanos < Instant.last ∧ ¬(pace false).KeptFrom s₃ := by
  obtain ⟨s₁, s₂, s₃, hs₁, hact, hok, hstart, hclock, hcell⟩ :=
    kept_run false ⟨0, 3000000⟩ (by decide +kernel)
  refine ⟨s₁, s₂, s₃, hs₁, hact, hok, hstart, ?_, fun hkept => ?_⟩
  · rw [hclock]
    decide
  · have hbefore : s₃.clock.wall < Instant.last := by
      rw [hclock]
      decide
    have hheld : (s₃.cells (some ())).isHeldAt s₃.clock.wall = true :=
      (hkept s₃ s₃.clock .refl hbefore).held
    rw [hcell, hclock] at hheld
    revert hheld
    decide

end Keeping

end MigrationLedger
