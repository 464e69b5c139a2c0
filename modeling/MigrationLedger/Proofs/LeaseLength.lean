import MigrationLedger.Proofs.InstantShift
import MigrationLedger.Proofs.LockedWrites

/-! How long the lease of a recording has to be. An attempt to take the lock that succeeds has kept
within its time limit, and so has a save that writes. So with a lease that is longer than the two
limits together a recording writes under the lock only, whatever the store does. -/

namespace MigrationLedger

namespace Crew

variable {ι γ κ : Type} [DecidableEq ι] [DecidableEq γ]

/-- A step in which no time limit is overrun: both clocks go on alike, and not beyond the limit of
an operation that waits. -/
inductive PunctualStep (c : Crew ι γ κ) (s : c.State) : c.State → Prop where
  | pass {d : Span} {wall : Instant}
      (hdue : ∀ i p limit, s.phase i = some p → (c.operation i).machine.limit p = some limit →
        s.clock.elapsed.add d ≤ limit)
      (hwall : s.clock.wall.after? d = some wall) :
      PunctualStep c s { s with clock := ⟨s.clock.elapsed.add d, wall⟩ }
  | act {e : Event ι} {s' : c.State} (hact : s.act? e = some s') : PunctualStep c s s'

abbrev Punctual (c : Crew ι γ κ) : c.State → c.State → Prop := Relation.ReflTransGen c.PunctualStep

theorem PunctualStep.step {c : Crew ι γ κ} {s s' : c.State} (h : c.PunctualStep s s')
    (hs : s.clock.wall.IsValid) : c.Step Moment.Ticks s s' := by
  cases h with
  | pass hdue hwall => exact .pass ⟨hs.le_after? hwall, hs.after? hwall⟩
  | act hact => exact .act hact

end Crew

theorem LockOptions.before_leaseEnd {o : LockOptions} {t : Moment} (ht : t.wall.IsValid) {n : Nat}
    (hn : n < o.acquiredFor.nanos) (hlast : (t.later n).wall < Instant.last) :
    (t.later n).wall < o.leaseEnd t.wall := by
  rw [leaseEnd]
  cases hend : t.wall.after? o.acquiredFor with
  | none => exact hlast
  | some expiry =>
    have heq := (Instant.after?_eq hend).1
    rw [Option.getD_some, heq]
    exact Instant.shift_lt_shift ht hn

namespace Recording

variable {r : Recording} {t : Moment} {m : Memory} {k : Cell} {p : Phase} {stimulus : Stimulus}
  {R : Turned Cell Phase}

def saveLimit? : Phase → Option Span
  | .saving inner => inner.limit
  | _ => none

theorem limit_of_attempt (r : Recording) {a : Holder.Attempt} (ha : attempt? p = some a) :
    r.operation.machine.limit p = a.limit := by
  cases p with
  | acquiring inner =>
    cases inner with
    | attempting started lease inner =>
      cases ha
      rfl
    | _ => cases ha
  | _ => cases ha

theorem limit_of_save (r : Recording) {limit : Span} (h : saveLimit? p = some limit) :
    r.operation.machine.limit p = some limit := by
  cases p with
  | saving inner => exact h
  | _ => cases h

theorem settleRelease_saveLimit? (lifecycle : Lifecycle) (saved : Except LedgerFault Unit)
    (s : Hold × LockTable.Changing Bool) :
    saveLimit? (settleRelease lifecycle saved s).2 = none := by
  obtain ⟨k, _ | answer⟩ := s
  · rfl
  · rfl

theorem settleSave_saveLimit? (r : Recording) (t : Moment) (hold : Hold) (s : Lifecycle × Saving) :
    saveLimit? (r.settleSave t hold s).2 = s.2.limit ∧
      (s.2.limit ≠ none → (r.settleSave t hold s).1.2 = hold) := by
  obtain ⟨lifecycle, _ | saved⟩ := s
  · exact ⟨rfl, fun _ => rfl⟩
  · exact ⟨settleRelease_saveLimit? lifecycle saved _, fun h => absurd rfl h⟩

theorem save_start_limit (r : Recording) (t : Moment) (lifecycle : Lifecycle) {limit : Span}
    (h : (r.save.start t lifecycle).2.limit = some limit) :
    limit = t.elapsed.add r.ledger.options.operationTimeout := by
  simp only [save, Ledger.save, Ledger.guarded] at h
  split at h
  · cases h
  · split at h
    · exact (Option.some.inj h).symm
    · cases h

theorem settleAcquire_saveLimit? (r : Recording) (t : Moment) (lifecycle : Lifecycle)
    (s : Hold × Holder.Acquiring) {limit : Span}
    (h : saveLimit? (r.settleAcquire t lifecycle s).2 = some limit) :
    s.2 = .done (.ok ()) ∧ (r.settleAcquire t lifecycle s).1.2 = s.1 ∧
      limit = t.elapsed.add r.ledger.options.operationTimeout := by
  obtain ⟨hold, _ | _ | (fault | u)⟩ := s
  · cases h
  · cases h
  · cases h
  · obtain ⟨hlimit, hhold⟩ := r.settleSave_saveLimit? t hold (r.save.start t lifecycle)
    have hstart := hlimit.symm.trans h
    exact ⟨rfl, hhold (hstart ▸ Option.some_ne_none limit), r.save_start_limit t lifecycle hstart⟩

/-- A save begins where the attempt ends that has taken the lock, and keeps the limit that it then
is given. -/
theorem saveLimit?_turn (hr : r.operation.machine.turn? t m k p stimulus = some R) {limit : Span}
    (hlimit : saveLimit? R.state = some limit) :
    (∃ a, attempt? p = some a ∧ R.cell.2 = ⟨some a.lease.expiresAt, false⟩ ∧
        limit = t.elapsed.add r.ledger.options.operationTimeout) ∨
      saveLimit? p = some limit ∧ R.cell.2 = k.2 := by
  cases partTurn_of_turn? hr with
  | acquiring inner q hq hx hm hs =>
    have hsettled : saveLimit? (r.settleAcquire t k.1 (q.cell, q.state)).2 = some limit := by
      rw [← hs]
      exact hlimit
    obtain ⟨hok, hcell, hstart⟩ := r.settleAcquire_saveLimit? t k.1 (q.cell, q.state) hsettled
    rw [← hs] at hcell
    obtain ⟨a, ha, -, hnoted⟩ := Holder.acquire_ok hq hok
    exact .inl ⟨a, ha, hcell.trans hnoted, hstart⟩
  | saving inner q hq hx hm hs =>
    obtain ⟨hsame, hcell⟩ := r.settleSave_saveLimit? t k.2 (q.cell, q.state)
    rw [← hs] at hsame hcell
    have hactive : q.state.limit = some limit := hsame.symm.trans hlimit
    refine .inr ⟨?_, hcell (hactive ▸ Option.some_ne_none limit)⟩
    rcases Bounded.limit_turn hq with hkept | hnone
    · exact hkept.symm.trans hactive
    · cases hnone.symm.trans hactive
  | releasing saved inner q hq hx hm hs =>
    have hnone := settleRelease_saveLimit? k.1 saved (q.cell, q.state)
    rw [← hs] at hnone
    cases hnone.symm.trans hlimit

end Recording

namespace Recorders

variable {ι : Type} {v : Recorders ι} {s s' : (recorders v).State}

/-- The time limit of each call of `i`. -/
def timeout (v : Recorders ι) (i : ι) : Nat := (v.tableOptions i).operationTimeout.nanos

/-- How far a recording is in its time: an attempt has its limit, and a save another one after
that. -/
structure Timely (v : Recorders ι) (s : (recorders v).State) : Prop where
  clock : s.clock.wall.IsValid
  attempt : ∀ i p, s.phase i = some p → ∀ a, Recording.attempt? p = some a →
    ∃ (t : Moment) (n : Nat), t.wall.IsValid ∧ a = (v.holder i).attemptAt t ∧
      s.clock = t.later n ∧ n ≤ v.timeout i
  save : ∀ i p, s.phase i = some p → ∀ limit, Recording.saveLimit? p = some limit →
    ∃ (t : Moment) (n : Nat), t.wall.IsValid ∧
      (s.cells i).2 = ⟨some ((v.options i).leaseEnd t.wall), false⟩ ∧ s.clock = t.later n ∧
      limit.nanos ≤ t.elapsed.nanos + (v.timeout i + v.timeout i) ∧
      n ≤ v.timeout i + v.timeout i

theorem timely_initial (v : Recorders ι) (m₀ : Memory) {t₀ : Moment} (ht₀ : t₀.wall.IsValid)
    (cells : ι → Recording.Cell) : v.Timely ((recorders v).initial m₀ t₀ cells) := by
  refine ⟨ht₀, fun i p hp => ?_, fun i p hp => ?_⟩
  all_goals cases hp

theorem Timely.pass (h : v.Timely s) {d : Span} {wall : Instant}
    (hdue : ∀ i p limit, s.phase i = some p →
      (v.recording i).operation.machine.limit p = some limit → s.clock.elapsed.add d ≤ limit)
    (hwall : s.clock.wall.after? d = some wall) :
    v.Timely { s with clock := ⟨s.clock.elapsed.add d, wall⟩ } := by
  have hclock : (⟨s.clock.elapsed.add d, wall⟩ : Moment) = s.clock.later d.nanos := by
    rw [(Instant.after?_eq hwall).1]
    rfl
  refine ⟨h.clock.after? hwall, fun i p hp a ha => ?_, fun i p hp limit hlimit => ?_⟩
  · obtain ⟨t, n, ht, rfl, hlater, -⟩ := h.attempt i p hp a ha
    -- the attempt waits under its limit, which time has not passed
    have hdue := hdue i p _ hp ((v.recording i).limit_of_attempt ha)
    rw [hlater] at hdue
    refine ⟨t, n + d.nanos, ht, rfl, ?_, ?_⟩
    · rw [← Moment.later_later ht, ← hlater]
      exact hclock
    · have hsum : t.elapsed.nanos + n + d.nanos ≤ t.elapsed.nanos + v.timeout i := hdue
      omega
  · obtain ⟨t, n, ht, hcell, hlater, hbound, -⟩ := h.save i p hp limit hlimit
    have hdue := hdue i p limit hp ((v.recording i).limit_of_save hlimit)
    rw [hlater] at hdue
    refine ⟨t, n + d.nanos, ht, hcell, ?_, hbound, ?_⟩
    · rw [← Moment.later_later ht, ← hlater]
      exact hclock
    · have hsum : t.elapsed.nanos + n + d.nanos ≤ limit.nanos := hdue
      omega

variable [DecidableEq ι]

theorem Timely.start (h : v.Timely s) (i : ι) :
    v.Timely (s.settle i (((recorders v).operation i).start s.clock (s.cellOf i)).1
      (((recorders v).operation i).start s.clock (s.cellOf i)).2) := by
  obtain ⟨hne, hattempt⟩ := Holder.acquire_start_spec (v.holder i) s.clock (s.cells i).2
  obtain ⟨-, hattempt', -, -⟩ := (v.recording i).settleAcquire_spec s.clock (s.cells i).1
    ((v.holder i).acquire.start s.clock (s.cells i).2)
  have hzero := (Moment.later_zero h.clock).symm
  refine ⟨h.clock, Crew.State.forall_phase_settle h.attempt (fun a ha => ?_) _,
    fun j p hp limit hlimit => ?_⟩
  · exact ⟨s.clock, 0, h.clock, hattempt a (hattempt'.symm.trans ha), hzero, Nat.zero_le _⟩
  · by_cases hji : j = i
    · subst hji
      rw [Crew.State.settle_phase_self] at hp
      cases hp
      exact absurd ((v.recording j).settleAcquire_saveLimit? _ _ _ hlimit).1 hne
    · rw [Crew.State.settle_phase_of_ne s hji] at hp
      rw [Crew.State.settle_cells, if_neg hji]
      exact h.save j p hp limit hlimit

theorem Timely.after (h : v.Timely s) {i : ι} {p : Recording.Phase} {stimulus : Stimulus}
    {R : Turned Recording.Cell Recording.Phase} (hp : s.phase i = some p)
    (hr : (v.recording i).operation.machine.turn? s.clock s.memory (s.cells i) p stimulus =
      some R) : v.Timely (s.after i R) := by
  refine ⟨h.clock, Crew.State.forall_phase_after h.attempt (fun a ha => ?_),
    fun j q hq limit hlimit => ?_⟩
  · rcases Recording.attempt?_turn hr ha with hsame | hnew
    · exact h.attempt i p hp a hsame
    · exact ⟨s.clock, 0, h.clock, hnew, (Moment.later_zero h.clock).symm, Nat.zero_le _⟩
  · by_cases hji : j = i
    · subst hji
      rw [Crew.State.after_phase_self] at hq
      cases hq
      rw [Crew.State.after_cells, if_pos rfl]
      rcases Recording.saveLimit?_turn hr hlimit with ⟨a, ha, hcell, rfl⟩ | ⟨hsame, hcell⟩
      · obtain ⟨t, n, ht, rfl, hlater, hn⟩ := h.attempt j p hp a ha
        refine ⟨t, n, ht, hcell, hlater, ?_, by omega⟩
        rw [hlater]
        change t.elapsed.nanos + n + v.timeout j ≤ _
        omega
      · rw [hcell]
        exact h.save j p hp limit hsame
    · rw [Crew.State.after_phase_of_ne _ hji] at hq
      rw [Crew.State.after_cells, if_neg hji]
      exact h.save j q hq limit hlimit

theorem Timely.step (h : v.Timely s) (hs : (recorders v).PunctualStep s s') : v.Timely s' := by
  cases hs with
  | pass hdue hwall => exact h.pass hdue hwall
  | act hact =>
    obtain ⟨i, -, rfl⟩ | ⟨i, p, stimulus, R, hp, hr, rfl⟩ := Crew.State.act_cases hact
    · exact h.start i
    · exact h.after hp hr

theorem Steady.timely_run (h : v.Steady s) (htimely : v.Timely s)
    (hs : (recorders v).Punctual s s') : v.Steady s' ∧ v.Timely s' := by
  induction hs with
  | refl => exact ⟨h, htimely⟩
  | tail _ hstep ih =>
    obtain ⟨hsteady, htimely⟩ := ih
    exact ⟨hsteady.step (hstep.step htimely.clock), htimely.step hstep⟩

/-- A recording whose lease is longer than twice the time limit of a call writes under the lock. -/
theorem covered_of_long_lease (v : Recorders ι) {m₀ : Memory}
    (hlocks : m₀.KeyedBy v.table Lease.schema) (hledger : m₀.KeyedBy v.ledger Entry.schema)
    {t₀ : Moment} (ht₀ : t₀.wall.IsValid) (cells : ι → Recording.Cell)
    {s s' : (recorders v).State}
    (hs : (recorders v).Punctual ((recorders v).initial m₀ t₀ cells) s)
    (hlast : s.clock.wall < Instant.last) {i : ι}
    (hlong : v.timeout i + v.timeout i < (v.options i).acquiredFor.nanos) {stimulus : Stimulus}
    (hact : s.act? (.turn i stimulus) = some s') (hput : s.putBefore s' v.ledger = true) :
    v.Covered s i := by
  obtain ⟨hsteady, htimely⟩ := (steady_initial v hlocks hledger ht₀ cells).timely_run
    (timely_initial v m₀ ht₀ cells) hs
  obtain ⟨p, R, hp, hr, rfl⟩ := Crew.State.turn_inv hact
  rw [Crew.State.putBefore_after] at hput
  obtain ⟨inner, rfl⟩ := hsteady.saving_of_put hp hr hput
  obtain ⟨t, -, hstanding⟩ := hsteady.standing i inner hp
  refine hstanding.covered_iff.mpr ?_
  have hactive : ∃ limit, Recording.saveLimit? (.saving inner) = some limit := by
    obtain ⟨q, hq, -⟩ := (Recording.hosts_save (v.recording i)).turn_inner hr
    obtain ⟨note, limit, inner, rfl, -⟩ := Bounded.turn_cases hq
    exact ⟨limit, rfl⟩
  obtain ⟨limit, hlimit⟩ := hactive
  obtain ⟨t', n, ht', hcell, hlater, -, hn⟩ := htimely.save i _ hp limit hlimit
  have hend : (v.options i).leaseEnd t.wall = (v.options i).leaseEnd t'.wall :=
    Option.some.inj (congrArg Hold.expiresAt (hstanding.cell.symm.trans hcell))
  rw [hlater] at hlast
  rw [hend, hlater]
  exact LockOptions.before_leaseEnd ht' (Nat.lt_of_le_of_lt hn hlong) hlast

-- by default the lease is just as long as the two limits, so the very last put may miss it
example : (pairOf {}).timeout false + (pairOf {}).timeout false =
    ((pairOf {}).options false).acquiredFor.nanos := by decide

end Recorders

end MigrationLedger
