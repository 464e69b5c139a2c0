import MigrationLedger.Proofs.MutualExclusion

/-! What it is worth that taking or extending a lease has succeeded. The end of the lease is fixed
before the store is asked for anything, and is not looked at again when the store has answered. So
the lock is held from then on unless the whole lease went by on the way. -/

namespace MigrationLedger

namespace Holder

variable {h : Holder} {t : Moment} {m : Memory} {k : Hold} {stimulus : Stimulus}

theorem noteLease_ok {expiry : Instant} (hok : (h.noteLease k expiry).2 = .ok ()) :
    k.released = false ∧ (h.noteLease k expiry).1 = ⟨some expiry, false⟩ := by
  rw [noteLease] at hok ⊢
  cases hreleased : k.released with
  | true => simp [hreleased] at hok
  | false => simp

theorem afterFailure_cases (h : Holder) (t : Moment) (started : Span) (fault : LeaseFault) :
    (∃ fault', h.afterFailure t started fault = .done (.error fault')) ∨
      ∃ length, h.afterFailure t started fault = .resting started length := by
  rw [afterFailure]
  split
  · split
    · exact .inl ⟨_, rfl⟩
    · split
      · exact .inl ⟨_, rfl⟩
      · exact .inr ⟨_, rfl⟩
  · exact .inl ⟨_, rfl⟩

theorem quitAt?_eq {o : LockOptions} {started : Span} (h : o.quitAt? started ≠ none) :
    o.quitAt? started = some (started.add o.quitTryingAfter) := by
  simp only [LockOptions.quitAt?] at h ⊢
  split at h
  · next hfits => exact if_pos hfits
  · exact absurd rfl h

theorem afterFailure_late {started : Span} {fault : LeaseFault} (hfault : fault.isRetryable = true)
    (hquit : h.options.quitAt? started ≠ none)
    (hlate : started.add h.options.quitTryingAfter ≤ t.elapsed) :
    h.afterFailure t started fault =
      .done (.error (.quitTrying h.key (t.elapsed.sub started))) := by
  simp only [afterFailure, hfault, quitAt?_eq hquit, if_pos hlate, if_true]

theorem afterFailure_early {started : Span} {fault : LeaseFault} (hfault : fault.isRetryable = true)
    (hquit : h.options.quitAt? started ≠ none)
    (hearly : ¬started.add h.options.quitTryingAfter ≤ t.elapsed) :
    h.afterFailure t started fault = .resting started ((h.options.retryWait fault t.wall).min
      ((started.add h.options.quitTryingAfter).sub t.elapsed)) := by
  simp only [afterFailure, hfault, quitAt?_eq hquit, if_neg hearly, if_true]

theorem settleAttempt_ok {started : Span} {lease : Lease} {s : Hold × LockTable.Changing Unit}
    (hok : (h.settleAttempt t started lease s).2 = .done (.ok ())) :
    s.2 = .ended (.ok ()) ∧
      (h.settleAttempt t started lease s).1 = ⟨some lease.expiresAt, false⟩ := by
  obtain ⟨k, inner⟩ := s
  rcases inner with _ | (fault | u)
  · cases hok
  · have hfailed : h.afterFailure t started fault = .done (.ok ()) := hok
    rcases afterFailure_cases h t started fault with ⟨fault', hdone⟩ | ⟨length, hrests⟩
    · cases hdone.symm.trans hfailed
    · cases hrests.symm.trans hfailed
  · have hnoted : (h.noteLease k lease.expiresAt).2 = .ok () := Acquiring.done.inj hok
    exact ⟨rfl, (noteLease_ok hnoted).2⟩

theorem settleExtension_ok {lease : Lease} {s : Hold × LockTable.Changing Unit}
    (hok : (h.settleExtension lease s).2 = .done (.ok ())) :
    s.2 = .ended (.ok ()) ∧ (h.settleExtension lease s).1 = ⟨some lease.expiresAt, false⟩ := by
  obtain ⟨k, inner⟩ := s
  rcases inner with _ | (fault | u)
  · cases hok
  · cases fault <;> cases hok
  · have hnoted : (h.noteLease k lease.expiresAt).2 = .ok () := Ensuring.done.inj hok
    exact ⟨rfl, (noteLease_ok hnoted).2⟩

/-- A lease that is being written, and the limit that is set to it. -/
structure Attempt where
  lease : Lease
  limit : Option Span

def attemptAt (h : Holder) (t : Moment) : Attempt :=
  ⟨h.leaseAt t.wall, some (t.elapsed.add h.locks.options.operationTimeout)⟩

def Acquiring.attempt? : Acquiring → Option Attempt
  | attempting _ lease inner => some ⟨lease, inner.limit⟩
  | _ => none

def Ensuring.attempt? : Ensuring → Option Attempt
  | extending lease inner => some ⟨lease, inner.limit⟩
  | done _ => none

theorem settleAttempt_attempt? {started : Span} {lease : Lease}
    {s : Hold × LockTable.Changing Unit} {a : Attempt}
    (ha : (h.settleAttempt t started lease s).2.attempt? = some a) :
    a = ⟨lease, s.2.limit⟩ ∧ s.2.limit ≠ none := by
  obtain ⟨k, inner⟩ := s
  rcases inner with ⟨note, limit, state⟩ | (fault | u)
  · exact ⟨(Option.some.inj ha).symm, Option.some_ne_none limit⟩
  · have hfailed : (h.afterFailure t started fault).attempt? = some a := ha
    rcases afterFailure_cases h t started fault with ⟨fault', hdone⟩ | ⟨length, hrests⟩
    · rw [hdone] at hfailed
      cases hfailed
    · rw [hrests] at hfailed
      cases hfailed
  · cases ha

theorem settleExtension_attempt? {lease : Lease} {s : Hold × LockTable.Changing Unit}
    {a : Attempt} (ha : (h.settleExtension lease s).2.attempt? = some a) :
    a = ⟨lease, s.2.limit⟩ ∧ s.2.limit ≠ none := by
  obtain ⟨k, inner⟩ := s
  rcases inner with ⟨note, limit, state⟩ | (fault | u)
  · exact ⟨(Option.some.inj ha).symm, Option.some_ne_none limit⟩
  · cases fault <;> cases ha
  · cases ha

theorem acquire_attempt? {p : Acquiring} {r : Turned Hold Acquiring}
    (hr : h.acquire.machine.turn? t m k p stimulus = some r) {a : Attempt}
    (ha : r.state.attempt? = some a) :
    p.attempt? = some a ∨ p.attempt? = none ∧ a = h.attemptAt t := by
  cases p with
  | attempting started lease inner =>
    obtain ⟨q, hq, hin⟩ := (encloses_take h started lease).turn_inner hr
    rw [hin.state] at ha
    obtain ⟨rfl, hlimit⟩ := settleAttempt_attempt? ha
    rcases Bounded.limit_turn hq with hsame | hnone
    · refine .inl ?_
      rw [hsame]
      rfl
    · exact absurd hnone hlimit
  | resting started length =>
    cases stimulus with
    | wake =>
      rw [Machine.turn?] at hr
      simp only [acquire] at hr
      split at hr
      · cases hr
        cases ha
      · cases hr
        exact .inr ⟨rfl, (Option.some.inj ha).symm⟩
    | _ => cases hr
  | done answer => cases stimulus <;> cases hr

theorem ensure_attempt? {p : Ensuring} {r : Turned Hold Ensuring}
    (hr : h.ensure.machine.turn? t m k p stimulus = some r) {a : Attempt}
    (ha : r.state.attempt? = some a) : p.attempt? = some a := by
  cases p with
  | extending lease inner =>
    obtain ⟨q, hq, hin⟩ := (encloses_extend h lease).turn_inner hr
    rw [hin.state] at ha
    obtain ⟨rfl, hlimit⟩ := settleExtension_attempt? ha
    rcases Bounded.limit_turn hq with hsame | hnone
    · rw [hsame]
      rfl
    · exact absurd hnone hlimit
  | done answer => cases stimulus <;> cases hr

theorem acquire_ok {p : Acquiring} {r : Turned Hold Acquiring}
    (hr : h.acquire.machine.turn? t m k p stimulus = some r) (hok : r.state = .done (.ok ())) :
    ∃ a, p.attempt? = some a ∧ r.exchange.any isPut = true ∧
      r.cell = ⟨some a.lease.expiresAt, false⟩ := by
  cases p with
  | attempting started lease inner =>
    obtain ⟨q, hq, hin⟩ := (encloses_take h started lease).turn_inner hr
    rw [hin.state] at hok
    obtain ⟨hended, hcell⟩ := settleAttempt_ok hok
    refine ⟨⟨lease, inner.limit⟩, rfl, ?_, hin.cell.trans hcell⟩
    rw [hin.exchange]
    exact (changes_take hq).put_iff.mpr hended
  | resting started length =>
    cases stimulus with
    | wake =>
      rw [Machine.turn?] at hr
      simp only [acquire] at hr
      split at hr
      · cases hr
        cases hok
      · cases hr
        cases hok
    | _ => cases hr
  | done answer => cases stimulus <;> cases hr

theorem ensure_ok {p : Ensuring} {r : Turned Hold Ensuring}
    (hr : h.ensure.machine.turn? t m k p stimulus = some r) (hok : r.state = .done (.ok ())) :
    ∃ a, p.attempt? = some a ∧ r.exchange.any isPut = true ∧
      r.cell = ⟨some a.lease.expiresAt, false⟩ := by
  cases p with
  | extending lease inner =>
    obtain ⟨q, hq, hin⟩ := (encloses_extend h lease).turn_inner hr
    rw [hin.state] at hok
    obtain ⟨hended, hcell⟩ := settleExtension_ok hok
    refine ⟨⟨lease, inner.limit⟩, rfl, ?_, hin.cell.trans hcell⟩
    rw [hin.exchange]
    exact (changes_extend hq).put_iff.mpr hended
  | done answer => cases stimulus <;> cases hr

theorem acquire_start_spec (h : Holder) (t : Moment) (k : Hold) :
    (h.acquire.start t k).2 ≠ .done (.ok ()) ∧
      ∀ a, (h.acquire.start t k).2.attempt? = some a → a = h.attemptAt t := by
  simp only [acquire]
  split
  · exact ⟨by rintro ⟨⟩, by rintro a ⟨⟩⟩
  · split
    · exact ⟨by rintro ⟨⟩, by rintro a ⟨⟩⟩
    · exact ⟨by rintro ⟨⟩, fun a ha => (Option.some.inj ha).symm⟩

/-- Extending succeeds without asking the store only when there is time left. -/
theorem ensure_start_spec (h : Holder) (t : Moment) (k : Hold) :
    ((h.ensure.start t k).2 = .done (.ok ()) → k.released = false ∧
        ∃ expiry, k.expiresAt = some expiry ∧ h.options.refreshDue? expiry t.wall = some false) ∧
      ∀ a, (h.ensure.start t k).2.attempt? = some a → a = h.attemptAt t := by
  simp only [ensure]
  split
  · exact ⟨by rintro ⟨⟩, by rintro a ⟨⟩⟩
  · next hreleased =>
    split
    · exact ⟨by rintro ⟨⟩, by rintro a ⟨⟩⟩
    · next hdue =>
      refine ⟨fun _ => ⟨Bool.eq_false_iff.mpr hreleased, ?_⟩, by rintro a ⟨⟩⟩
      cases hexpiry : k.expiresAt with
      | none =>
        rw [extensionDue?, hexpiry] at hdue
        cases hdue
      | some expiry =>
        rw [extensionDue?, hexpiry] at hdue
        exact ⟨expiry, rfl, hdue⟩
    · exact ⟨by rintro ⟨⟩, fun a ha => (Option.some.inj ha).symm⟩

def Refreshing.attempt? : Refreshing → Option Attempt
  | checking inner => inner.attempt?
  | _ => none

theorem settleCheck_attempt? (s : Hold × Ensuring) :
    (settleCheck s).2.attempt? = s.2.attempt? := by
  obtain ⟨k, inner⟩ := s
  cases inner with
  | extending lease inner => rfl
  | done answer =>
    change (afterCheck answer).attempt? = none
    rcases afterCheck_cases answer with hrests | hstops
    · rw [hrests]
      rfl
    · rw [hstops]
      rfl

theorem refresh_attempt? {p : Refreshing} {r : Turned Hold Refreshing}
    (hr : h.refresh.machine.turn? t m k p stimulus = some r) {a : Attempt}
    (ha : r.state.attempt? = some a) :
    p.attempt? = some a ∨ p.attempt? = none ∧ a = h.attemptAt t := by
  cases p with
  | resting =>
    cases stimulus with
    | wake =>
      cases hr
      have hstarted := (settleCheck_attempt? (h.ensure.start t k)).symm.trans ha
      exact .inr ⟨rfl, (ensure_start_spec h t k).2 a hstarted⟩
    | _ => cases hr
  | checking inner =>
    obtain ⟨q, hq, hin⟩ := (encloses_check h).turn_inner hr
    rw [hin.state, settleCheck_attempt?] at ha
    exact .inl (ensure_attempt? hq ha)
  | stopped => cases stimulus <;> cases hr

end Holder

namespace HolderAction

/-- Has taken or extended the lease, as it answers. -/
def success : (a : HolderAction) → a.Phase → Bool
  | acquire, .done (.ok ()) => true
  | ensure, .done (.ok ()) => true
  | _, _ => false

theorem done_of_acquire {p : Holder.Acquiring} (hok : success acquire p = true) :
    p = .done (.ok ()) := by
  rcases p with _ | _ | (fault | u)
  · cases hok
  · cases hok
  · cases hok
  · rfl

theorem done_of_ensure {p : Holder.Ensuring} (hok : success ensure p = true) :
    p = .done (.ok ()) := by
  rcases p with _ | (fault | u)
  · cases hok
  · cases hok
  · rfl

def attempt? : (a : HolderAction) → a.Phase → Option Holder.Attempt
  | acquire => Holder.Acquiring.attempt?
  | ensure => Holder.Ensuring.attempt?
  | _ => fun _ => none

/-- What `attempt?` tells, also of attempts in the background. -/
def underway? : (a : HolderAction) → a.Phase → Option Holder.Attempt
  | acquire => Holder.Acquiring.attempt?
  | ensure => Holder.Ensuring.attempt?
  | release => fun _ => none
  | refresh => Holder.Refreshing.attempt?

variable {h : Holder} {a : HolderAction} {t : Moment} {m : Memory} {k : Hold} {stimulus : Stimulus}

theorem ne_release_of_attempt {p : a.Phase} {n : Holder.Attempt} (hn : a.attempt? p = some n) :
    a ≠ .release := by
  rintro rfl
  cases hn

theorem underway?_turn {p : a.Phase} {r : Turned Hold a.Phase}
    (hr : (a.operation h).machine.turn? t m k p stimulus = some r) {n : Holder.Attempt}
    (hn : a.underway? r.state = some n) :
    a.underway? p = some n ∨ a.underway? p = none ∧ n = h.attemptAt t := by
  cases a with
  | acquire => exact Holder.acquire_attempt? hr hn
  | ensure => exact .inl (Holder.ensure_attempt? hr hn)
  | release => cases hn
  | refresh => exact Holder.refresh_attempt? hr hn

theorem underway?_start (h : Holder) (a : HolderAction) (t : Moment) (k : Hold)
    {n : Holder.Attempt} (hn : a.underway? ((a.operation h).start t k).2 = some n) :
    n = h.attemptAt t := by
  cases a with
  | acquire => exact (Holder.acquire_start_spec h t k).2 n hn
  | ensure => exact (Holder.ensure_start_spec h t k).2 n hn
  | release => cases hn
  | refresh => cases hn

theorem attempt?_eq_underway? (ha : a ≠ .refresh) : a.attempt? = a.underway? := by
  cases a with
  | refresh => exact absurd rfl ha
  | _ => rfl

theorem ne_refresh_of_attempt {p : a.Phase} {n : Holder.Attempt} (hn : a.attempt? p = some n) :
    a ≠ .refresh := by
  rintro rfl
  cases hn

theorem attempt?_turn {p : a.Phase} {r : Turned Hold a.Phase}
    (hr : (a.operation h).machine.turn? t m k p stimulus = some r) {n : Holder.Attempt}
    (hn : a.attempt? r.state = some n) : a.attempt? p = some n ∨ n = h.attemptAt t := by
  have ha := ne_refresh_of_attempt hn
  rw [attempt?_eq_underway? ha] at hn ⊢
  exact (underway?_turn hr hn).imp_right And.right

theorem attempt?_start (h : Holder) (a : HolderAction) (t : Moment) (k : Hold)
    {n : Holder.Attempt} (hn : a.attempt? ((a.operation h).start t k).2 = some n) :
    n = h.attemptAt t := by
  have ha := ne_refresh_of_attempt hn
  rw [attempt?_eq_underway? ha] at hn
  exact underway?_start h a t k hn

theorem success_turn {p : a.Phase} {r : Turned Hold a.Phase}
    (hr : (a.operation h).machine.turn? t m k p stimulus = some r)
    (hok : a.success r.state = true) :
    ∃ n, a.attempt? p = some n ∧ r.exchange.any isPut = true ∧
      r.cell = ⟨some n.lease.expiresAt, false⟩ := by
  cases a with
  | acquire => exact Holder.acquire_ok hr (done_of_acquire hok)
  | ensure => exact Holder.ensure_ok hr (done_of_ensure hok)
  | release => cases hok
  | refresh => cases hok

theorem success_start (h : Holder) (a : HolderAction) (t : Moment) (k : Hold)
    (hok : a.success ((a.operation h).start t k).2 = true) :
    ((a.operation h).start t k).1 = k ∧ k.released = false ∧
      ∃ expiry, k.expiresAt = some expiry ∧ h.options.refreshDue? expiry t.wall = some false := by
  cases a with
  | acquire => exact absurd (done_of_acquire hok) (Holder.acquire_start_spec h t k).1
  | ensure =>
    exact ⟨(Holder.ensure_start h t k).1,
      (Holder.ensure_start_spec h t k).1 (done_of_ensure hok)⟩
  | release => cases hok
  | refresh => cases hok

end HolderAction

namespace GrantedLease

open MutualExclusion (HeldBy)
open HeldLease (Faithful)

variable {ι γ : Type} {v : Rivals γ} {calls : ι → HolderCall γ}

def Granted (s : (holders v calls).State) (i : ι) : Prop :=
  ∃ p, s.phase i = some p ∧ (calls i).action.success p = true

instance (s : (holders v calls).State) : DecidablePred (Granted s) := fun i =>
  decidable_of_iff ((s.phase i).any (calls i).action.success = true) <| by
    rw [Granted]
    cases s.phase i <;> simp

/-- Holds the lock, by its own account and by the record, and not just for this instant. -/
def Holds (s : (holders v calls).State) (g : γ) : Prop :=
  HeldBy s g ∧ ∃ item lease, s.memory.item? v.table v.key = some item ∧
    Lease.ofItem item = .ok lease ∧ lease.status = .held ∧ lease.owner = v.owner g ∧
      s.clock.wall < lease.expiresAt

theorem holds_iff {s : (holders v calls).State} {g : γ} {expiry : Instant}
    (hcell : s.cells g = ⟨some expiry, false⟩) (hstored : v.Stored s.memory g expiry) :
    Holds s g ↔ s.clock.wall < expiry := by
  obtain ⟨item, hitem, hlease⟩ := hstored.ofItem
  constructor
  · rintro ⟨-, item', lease', hitem', hlease', -, -, hlt⟩
    cases hitem.symm.trans hitem'
    cases hlease.symm.trans hlease'
    exact hlt
  · intro hlt
    refine ⟨?_, item, v.lease g expiry, hitem, hlease, rfl, rfl, hlt⟩
    rw [HeldBy, Hold.isHeldAt, hcell]
    simpa using le_of_lt hlt

variable [DecidableEq ι]

structure Dated (s : (holders v calls).State) : Prop where
  faithful : Faithful s
  valid : ∀ g expiry, (s.cells g).expiresAt = some expiry → expiry.IsValid
  begun : ∀ i p, s.phase i = some p → ∀ a, (calls i).action.attempt? p = some a →
    ∃ t, Relation.ReflTransGen Moment.Ticks t s.clock ∧
      a = (v.holder (calls i).holder).attemptAt t

variable {s s' : (holders v calls).State}

theorem Dated.pass (h : Dated s) {t : Moment} (ht : s.clock.Ticks t) :
    Dated { s with clock := t } := by
  refine ⟨h.faithful.pass ht, h.valid, fun i p hp a ha => ?_⟩
  obtain ⟨t₀, hflow, hbegun⟩ := h.begun i p hp a ha
  exact ⟨t₀, hflow.tail ht, hbegun⟩

theorem believing_valid {h : Holder} {releases : Prop} {k k' : Hold} {before : Option Draft}
    {x : Option Exchange} (hb : h.Believing releases k before x k')
    (hk : ∀ expiry, k.expiresAt = some expiry → expiry.IsValid) {expiry : Instant}
    (hexpiry : k'.expiresAt = some expiry) : expiry.IsValid := by
  cases hb with
  | keeps hx hreleased hkept =>
    rcases hkept with hkept | hnone
    · exact hk expiry (hkept.symm.trans hexpiry)
    · cases hnone.symm.trans hexpiry
  | notes hx now hnow hitem hk' =>
    rw [hk', Holder.noteLease] at hexpiry
    split at hexpiry
    · exact hk expiry hexpiry
    · cases hexpiry
      exact LockOptions.isValid_leaseEnd _ hnow
  | givesBack hreleases hk' => exact hk expiry (hk' ▸ hexpiry)

variable [DecidableEq γ]

theorem Dated.start (h : Dated s) (i : ι) :
    Dated (s.settle i (((holders v calls).operation i).start s.clock (s.cellOf i)).1
      (((holders v calls).operation i).start s.clock (s.cellOf i)).2) := by
  obtain ⟨-, -, hcell⟩ := HolderAction.start_spec (v.holder (calls i).holder) (calls i).action
    s.clock (s.cellOf i)
  refine ⟨h.faithful.start i, fun g expiry hexpiry => ?_,
    Crew.State.forall_phase_settle h.begun (fun a ha => ?_) _⟩
  · rw [Crew.State.settle_cells, hcell] at hexpiry
    split at hexpiry
    · split at hexpiry
      · cases hexpiry
      · exact h.valid _ expiry hexpiry
    · exact h.valid g expiry hexpiry
  · exact ⟨s.clock, .refl, HolderAction.attempt?_start _ _ _ _ ha⟩

theorem Dated.after (h : Dated s) {i : ι} {p : (calls i).action.Phase} {stimulus : Stimulus}
    {r : Turned Hold (calls i).action.Phase} (hp : s.phase i = some p)
    (hr : ((holders v calls).operation i).machine.turn? s.clock s.memory (s.cellOf i) p stimulus =
      some r) : Dated (s.after i r) := by
  have hspec := HolderAction.turn_spec (h.faithful.fits i p hp) h.faithful.clock hr
  refine ⟨h.faithful.after hp hr, fun g expiry hexpiry => ?_,
    Crew.State.forall_phase_after h.begun fun a ha => ?_⟩
  · rw [Crew.State.after_cells] at hexpiry
    split at hexpiry
    · exact believing_valid hspec.believing (h.valid _) hexpiry
    · exact h.valid g expiry hexpiry
  · rcases HolderAction.attempt?_turn hr ha with hsame | hnew
    · exact h.begun i p hp a hsame
    · exact ⟨s.clock, .refl, hnew⟩

theorem Dated.run (h : Dated s) (hrun : (holders v calls).Reachable Moment.Ticks s s') :
    Dated s' := by
  induction hrun with
  | refl => exact h
  | tail _ hstep ih =>
    cases hstep with
    | pass ht => exact ih.pass ht
    | act hact =>
      obtain ⟨i, -, rfl⟩ | ⟨i, p, stimulus, r, hp, hr, rfl⟩ := Crew.State.act_cases hact
      · exact ih.start i
      · exact ih.after hp hr

/-- What a success of `i` is worth, which came with the event that led from `s` to `s'`: the lease
that is noted then is stored, and the lock is held exactly if that lease still runs. -/
structure Worth (s s' : (holders v calls).State) (i : ι) (expiry : Instant) : Prop where
  cell : s'.cells (calls i).holder = ⟨some expiry, false⟩
  stored : v.Stored s'.memory (calls i).holder expiry
  holds : Holds s' (calls i).holder ↔ s'.clock.wall < expiry
  /-- Either the lease ran long enough to be left as it was, or it was written: then it is counted
  from when the attempt began. -/
  origin : (s'.log = s.log ∧ s'.clock.wall < expiry) ∨
    ∃ t p, Relation.ReflTransGen Moment.Ticks t s.clock ∧ s.phase i = some p ∧
      (calls i).action.attempt? p = some ((v.holder (calls i).holder).attemptAt t) ∧
        expiry = (v.options (calls i).holder).leaseEnd t.wall

theorem Dated.worth_start (h : Dated s) {i : ι}
    (hok : (calls i).action.success
      (((holders v calls).operation i).start s.clock (s.cellOf i)).2 = true) :
    ∃ expiry, Worth s (s.settle i (((holders v calls).operation i).start s.clock (s.cellOf i)).1
      (((holders v calls).operation i).start s.clock (s.cellOf i)).2) i expiry := by
  obtain ⟨hcell, hreleased, expiry, hexpiry, hdue⟩ := HolderAction.success_start _ _ _ _ hok
  have hlt : s.clock.wall < expiry := LockOptions.lt_of_not_due _ (h.valid _ expiry hexpiry) hdue
  have hkept : (s.settle i (((holders v calls).operation i).start s.clock (s.cellOf i)).1
      (((holders v calls).operation i).start s.clock (s.cellOf i)).2).cells (calls i).holder =
        ⟨some expiry, false⟩ := by
    rw [Crew.State.settle_cells, if_pos rfl, hcell, ← hexpiry, ← hreleased]
  have hstored := h.faithful.held _ expiry hreleased hexpiry hlt
  exact ⟨expiry, hkept, hstored, holds_iff hkept hstored, .inl ⟨rfl, hlt⟩⟩

theorem Dated.worth_turn (h : Dated s) {i : ι} {p : (calls i).action.Phase} {stimulus : Stimulus}
    {r : Turned Hold (calls i).action.Phase} (hp : s.phase i = some p)
    (hr : ((holders v calls).operation i).machine.turn? s.clock s.memory (s.cellOf i) p stimulus =
      some r) (hok : (calls i).action.success r.state = true) :
    ∃ expiry, Worth s (s.after i r) i expiry := by
  obtain ⟨heffect, hbelieving, -⟩ :=
    HolderAction.turn_spec (h.faithful.fits i p hp) h.faithful.clock hr
  obtain ⟨a, ha, hput, hcell⟩ := HolderAction.success_turn hr hok
  obtain ⟨t, hflow, rfl⟩ := h.begun i p hp a ha
  have hkept : (s.after i r).cells (calls i).holder =
      ⟨some ((v.options (calls i).holder).leaseEnd t.wall), false⟩ := by
    rw [Crew.State.after_cells, if_pos rfl, hcell]
    rfl
  have hstored : v.Stored (s.after i r).memory (calls i).holder
      ((v.options (calls i).holder).leaseEnd t.wall) := by
    have hreleased : (s.cellOf i).released = false := by
      rw [← hbelieving.released, hcell]
    cases hbelieving with
    | keeps hx => cases hx.symm.trans hput
    | givesBack hreleases => exact absurd hreleases (HolderAction.ne_release_of_attempt ha)
    | notes hx now hnow hitem hk =>
      rw [Holder.noteLease, hreleased, hcell] at hk
      -- what the attempt carries and what its draft was made of are the same lease
      have hend : (v.options (calls i).holder).leaseEnd t.wall =
          (v.options (calls i).holder).leaseEnd now := Option.some.inj (congrArg Hold.expiresAt hk)
      rw [hend]
      exact h.faithful.stored_noted hp heffect hput hnow hitem
  exact ⟨_, hkept, hstored, holds_iff hkept hstored, .inr ⟨t, p, hflow, hp, ha, rfl⟩⟩

/-- Success means that the lock is held, unless the lease ran out before the store had answered. -/
theorem success_worth (v : Rivals γ) (calls : ι → HolderCall γ) {m₀ : Memory}
    (hkeyed : m₀.KeyedBy v.table Lease.schema) {t₀ : Moment} (ht₀ : t₀.wall.IsValid)
    {s s' : (holders v calls).State} (hs : (holders v calls).Reachable Moment.Ticks
      ((holders v calls).initial m₀ t₀ fun _ => {}) s) {e : Crew.Event ι}
    (hact : s.act? e = some s') {i : ι} (hbefore : ¬Granted s i) (hafter : Granted s' i) :
    ∃ expiry, Worth s s' i expiry := by
  have hinitial : Dated ((holders v calls).initial m₀ t₀ fun _ => {}) :=
    ⟨HeldLease.faithful_initial hkeyed ht₀, nofun, nofun⟩
  have hdated := hinitial.run hs
  obtain ⟨q, hq, hok⟩ := hafter
  obtain ⟨hp, rfl⟩ | ⟨p, stimulus, r, hp, hr, rfl⟩ := Crew.State.act_inv hact
  · by_cases hi : i = e.who
    · subst hi
      rw [Crew.State.settle_phase_self] at hq
      cases hq
      exact hdated.worth_start hok
    · rw [Crew.State.settle_phase_of_ne s hi] at hq
      exact absurd ⟨q, hq, hok⟩ hbefore
  · by_cases hi : i = e.who
    · subst hi
      rw [Crew.State.after_phase_self] at hq
      cases hq
      exact hdated.worth_turn hp hr hok
    · rw [Crew.State.after_phase_of_ne s hi] at hq
      exact absurd ⟨q, hq, hok⟩ hbefore

/-- Rivals whose leases last for so many seconds. -/
def brief (seconds : Nat) : Rivals Bool :=
  { HeldLease.pair with options := fun _ => { acquiredFor := .ofSeconds seconds } }

def briefCalls (second : Bool) : HolderCall Bool := ⟨second, .acquire⟩

def briefStart (seconds : Nat) : (holders (brief seconds) briefCalls).State :=
  (holders (brief seconds) briefCalls).initial
    (({} : Memory).createActive "locks" Lease.schema default) (Crew.second 0) fun _ => {}

/-- The store takes a second for its answer. After another one, when the rival comes, it is ready
for the put. -/
def askingScript : Crew.Script Bool :=
  [(Crew.second 0, .start false), (Crew.second 1, .turn false .reply), (Crew.second 2, .start true)]

/-- How the put ends that comes next: whether it counts as a success, which it was not before, and
what the holder believes afterwards. -/
def putEnds {seconds : Nat} (s : (holders (brief seconds) briefCalls).State) :
    Option (Bool × Bool × Hold) :=
  (s.act? (.turn false .reply)).map fun s' =>
    (decide (Granted s false), decide (Granted s' false), s'.cells false)

theorem put_of_run (seconds : Nat) (hold : Hold)
    (hrun : ((briefStart seconds).play? Moment.Ticks askingScript).map (fun s =>
      (s.clock, putEnds s)) = some (Crew.second 2, some (false, true, hold))) :
    ∃ s s', (briefStart seconds).play? Moment.Ticks askingScript = some s ∧
      s.act? (.turn false .reply) = some s' ∧ ¬Granted s false ∧ Granted s' false ∧
      s'.cells false = hold ∧ s'.clock = Crew.second 2 := by
  obtain ⟨s, hs, hseen⟩ := Option.map_eq_some_iff.mp hrun
  have hclock : s.clock = Crew.second 2 := congrArg (·.1) hseen
  obtain ⟨s', hact, hends⟩ := Option.map_eq_some_iff.mp (congrArg (·.2) hseen)
  have hbefore : ¬Granted s false := of_decide_eq_false (congrArg (·.1) hends)
  have hafter : Granted s' false := of_decide_eq_true (congrArg (·.2.1) hends)
  have hcell : s'.cells false = hold := congrArg (·.2.2) hends
  exact ⟨s, s', hs, hact, hbefore, hafter, hcell, (Crew.State.act_clock hact).trans hclock⟩

theorem success_worth_of_minute :
    ∃ s s', (briefStart 60).play? Moment.Ticks askingScript = some s ∧
      s.act? (.turn false .reply) = some s' ∧ Worth s s' false ⟨60, 0⟩ ∧ Holds s' false := by
  obtain ⟨s, s', hs, hact, hbefore, hafter, hcell, hclock⟩ :=
    put_of_run 60 ⟨some ⟨60, 0⟩, false⟩ (by decide +kernel)
  obtain ⟨expiry, hworth⟩ := success_worth (brief 60) briefCalls (by rintro t ⟨⟩; rfl)
    (show Instant.IsValid ⟨0, 0⟩ by decide) (Crew.State.reachable_of_play hs) hact hbefore hafter
  obtain rfl : expiry = ⟨60, 0⟩ :=
    Option.some.inj (congrArg Hold.expiresAt (hworth.cell.symm.trans hcell))
  refine ⟨s, s', hs, hact, hworth, hworth.holds.mpr ?_⟩
  rw [hclock]
  decide

/-- A lease of one second has run out when the put comes, which counts as a success all the same. -/
theorem not_held_after_second :
    ∃ s s', (holders (brief 1) briefCalls).Reachable Moment.Ticks (briefStart 1) s ∧
      s.act? (.turn false .reply) = some s' ∧ ¬Granted s false ∧ Granted s' false ∧
      ¬HeldBy s' false ∧ ¬Holds s' false := by
  obtain ⟨s, s', hs, hact, hbefore, hafter, hcell, hclock⟩ :=
    put_of_run 1 ⟨some ⟨1, 0⟩, false⟩ (by decide +kernel)
  have hnot : ¬HeldBy s' false := by
    rw [HeldBy, Hold.isHeldAt, hcell, hclock]
    decide
  exact ⟨s, s', Crew.State.reachable_of_play hs, hact, hbefore, hafter, hnot, fun h => hnot h.1⟩

end GrantedLease

end MigrationLedger
