import MigrationLedger.Proofs.GivingUp

/-! Lengths of time that are too long for the clocks. The end of a lease and the wait for another
attempt exist for all options, but the margin of a refresh goes through a product, and the time to
quit is a reading of the timer: either can leave its range, and then the operation that needs it
fails. -/

namespace MigrationLedger

theorem Instant.natAbs_sub_le {i j : Instant} (hi : i.IsValid) (hj : j.IsValid) :
    (i.sub j).natAbs ≤ greatestShift.nanos := by
  have hirange := isInRange_iff.mp hi.inRange
  have hjrange := isInRange_iff.mp hj.inRange
  have hinanos := hi.nanos
  have hjnanos := hj.nanos
  simp only [sub, dayOf, secondOfDay, secondsPerDay, nanos_greatestShift]
  simp only [billion] at *
  split_ifs <;> omega

namespace LockOptions

variable {o : LockOptions}

/-- The product from which the margin of a refresh is taken is a span that there is. -/
def MarginFits (o : LockOptions) : Prop :=
  o.acquiredFor.nanos * refreshPercent ≤ Span.greatest.nanos

/-- The timer can show the reading at which to quit. -/
def QuitFits (o : LockOptions) (started : Span) : Prop :=
  started.nanos + o.quitTryingAfter.nanos < timerLimit * Span.nanosPerSecond

theorem isSome_refreshMargin? : o.refreshMargin?.isSome = true ↔ o.MarginFits := by
  rw [refreshMargin?, Option.isSome_map, Span.times?, MarginFits]
  split <;> simp [*]

theorem isSome_refreshDue? (expiry now : Instant) :
    (o.refreshDue? expiry now).isSome = true ↔ o.MarginFits := by
  rw [refreshDue?, Option.isSome_map, isSome_refreshMargin?]

theorem isSome_quitAt? {started : Span} :
    (o.quitAt? started).isSome = true ↔ o.QuitFits started := by
  have hiff : (started.add o.quitTryingAfter).seconds < timerLimit ↔ o.QuitFits started :=
    Nat.div_lt_iff_lt_mul (by decide)
  rw [quitAt?]
  split
  · next hlt => exact iff_of_true rfl (hiff.mp hlt)
  · next hge => exact iff_of_false Bool.false_ne_true (mt hiff.mpr hge)

/-- A wait for another attempt is no longer than an option or half a second. -/
theorem retryWait_le (htry : o.tryFrequency ≤ Span.greatest) (fault : LeaseFault) (now : Instant) :
    o.retryWait fault now ≤ Span.greatest := by
  cases fault with
  | heldByOther key owner expiry =>
    simp only [retryWait]
    split
    · next hlt =>
      have hfloor : leastRetryWait ≤ Span.greatest := by decide
      exact Nat.max_le.mpr ⟨Nat.le_trans (Nat.le_of_lt hlt) htry, hfloor⟩
    · exact htry
  | _ => exact htry

theorem marginFits_of_millis (hlease : o.acquiredFor ≤ .ofMillis (Nat.pow 2 64 - 1)) :
    o.MarginFits := by
  have hlease' : o.acquiredFor.nanos ≤ 18446744073709551615000000 := hlease
  have hgreatest : Span.greatest.nanos = 18446744073709551615999999999 := by decide
  rw [MarginFits, hgreatest, refreshPercent]
  omega

/-- Lengths that are whole milliseconds in a word of 64 bits fit, until the timer has run for half
of all the time that it can show. -/
theorem fits_of_millis (hlease : o.acquiredFor ≤ .ofMillis (Nat.pow 2 64 - 1))
    (hquit : o.quitTryingAfter ≤ .ofMillis (Nat.pow 2 64 - 1)) {started : Span}
    (hstarted : started.seconds < Nat.pow 2 62) : o.MarginFits ∧ o.QuitFits started := by
  have hquit' : o.quitTryingAfter.nanos ≤ 18446744073709551615000000 := hquit
  have hstarted' : started.nanos / 1000000000 < 4611686018427387904 := hstarted
  have htimer : timerLimit * Span.nanosPerSecond = 9223372036854775808000000000 := by decide
  refine ⟨marginFits_of_millis hlease, ?_⟩
  rw [QuitFits, htimer]
  omega

/-- Which of the times that the holding of a lock calculates with exist. -/
structure Calculates (o : LockOptions) (t : Moment) : Prop where
  leaseEnd : (o.leaseEnd t.wall).IsValid
  remaining : ∀ expiry : Instant, expiry.IsValid →
    (expiry.sub t.wall).natAbs ≤ Instant.greatestShift.nanos
  retryWait : ∀ fault, o.retryWait fault t.wall ≤ Span.greatest
  refreshMargin : o.refreshMargin?.isSome = true ↔ o.MarginFits
  refreshDue : ∀ expiry, (o.refreshDue? expiry t.wall).isSome = true ↔ o.MarginFits
  quitAt : (o.quitAt? t.elapsed).isSome = true ↔ o.QuitFits t.elapsed

theorem calculates {t : Moment} (htry : o.tryFrequency ≤ Span.greatest) (hnow : t.wall.IsValid) :
    o.Calculates t where
  leaseEnd := o.isValid_leaseEnd hnow
  remaining _ hexpiry := Instant.natAbs_sub_le hexpiry hnow
  retryWait fault := retryWait_le htry fault t.wall
  refreshMargin := isSome_refreshMargin?
  refreshDue expiry := isSome_refreshDue? expiry t.wall
  quitAt := isSome_quitAt?

end LockOptions

namespace Holder

variable {h : Holder} {t : Moment} {k : Hold} {e : Response}

/-- While the taking of a lock goes on, the timer can show when to quit. -/
def Acquiring.Timed (h : Holder) : Acquiring → Prop
  | attempting started _ inner =>
    h.options.QuitFits started ∧ ∃ limit p, inner = .active () limit p
  | resting started _ => h.options.QuitFits started
  | done answer => answer ≠ .error .overflow

def Ensuring.Timed : Ensuring → Prop
  | extending _ inner => ∃ limit p, inner = .active () limit p
  | done answer => answer ≠ .error .overflow

theorem ne_overflow {fault : LeaseFault} (hfault : fault.isOfTable = true) : fault ≠ .overflow := by
  rintro rfl
  cases hfault

theorem noteLease_ne_overflow (h : Holder) (k : Hold) (expiry : Instant) :
    (h.noteLease k expiry).2 ≠ .error .overflow := by
  rw [noteLease]
  split
  · exact fun hoverflow => by cases hoverflow
  · exact fun hoverflow => by cases hoverflow

theorem timed_attempt (k : Hold) {started : Span} (hquit : h.options.QuitFits started) :
    (h.attempt t k started).2.Timed h :=
  ⟨hquit, t.elapsed.add h.locks.options.operationTimeout, .reading 0, rfl⟩

theorem timed_afterFailure {started : Span} (hquit : h.options.QuitFits started)
    {fault : LeaseFault} (hfault : fault.isOfTable = true) :
    (h.afterFailure t started fault).Timed h := by
  obtain ⟨quitAt, hquitAt⟩ :=
    Option.isSome_iff_exists.mp (LockOptions.isSome_quitAt?.mpr hquit)
  simp only [afterFailure, hquitAt]
  split
  · split
    · exact fun hoverflow => by cases hoverflow
    · exact hquit
  · exact fun hoverflow => ne_overflow hfault (Except.error.inj hoverflow)

theorem Acquiring.Timed.react {s : Acquiring} {q : Hold × Acquiring} (hs : s.Timed h)
    (hq : h.acquire.machine.react? t k s e = some q) : q.2.Timed h := by
  cases s with
  | attempting started lease inner =>
    obtain ⟨hquit, limit, p, rfl⟩ := hs
    rw [(encloses_take h started lease).react?] at hq
    obtain ⟨⟨k', inner⟩, hinner, rfl⟩ := Option.map_eq_some_iff.mp hq
    obtain ⟨-, ⟨p', rfl⟩ | rfl | ⟨fault, rfl, hfault⟩⟩ := LockTable.take_fault hinner
    · exact ⟨hquit, limit, p', rfl⟩
    · exact h.noteLease_ne_overflow _ _
    · exact timed_afterFailure hquit hfault
  | resting started length =>
    cases e with
    | woken =>
      have hrest := Option.some.inj hq
      dsimp only at hrest
      split at hrest
      · subst hrest
        exact fun hoverflow => by cases hoverflow
      · subst hrest
        exact timed_attempt k hs
    | answered x => cases hq
    | expired => cases hq
  | done answer => cases e <;> cases hq

theorem Ensuring.Timed.react {s : Ensuring} {q : Hold × Ensuring} (hs : s.Timed)
    (hq : h.ensure.machine.react? t k s e = some q) : q.2.Timed := by
  cases s with
  | extending lease inner =>
    obtain ⟨limit, p, rfl⟩ := hs
    rw [(encloses_extend h lease).react?] at hq
    obtain ⟨⟨k', inner⟩, hinner, rfl⟩ := Option.map_eq_some_iff.mp hq
    obtain ⟨-, ⟨p', rfl⟩ | rfl | ⟨fault, rfl, hfault⟩⟩ := LockTable.extend_fault hinner
    · exact ⟨limit, p', rfl⟩
    · exact h.noteLease_ne_overflow _ _
    · have hend : (h.settleExtension lease (k', .ended (.error fault))).2 =
          .done (.error fault) := by
        cases fault <;> rfl
      rw [hend]
      exact fun hoverflow => ne_overflow hfault (Except.error.inj hoverflow)
  | done answer => cases e <;> cases hq

/-- Some course of the operation ends because a time has left its range. -/
def Overflows {σ : Type} (mc : Machine Hold σ (Except LeaseFault Unit)) (v : Stand Hold σ)
    (done : Except LeaseFault Unit → σ) : Prop :=
  ∃ trail w, mc.Fares v trail w ∧ w.state = done (.error .overflow)

/-- The taking of a lock overflows at its start or not at all. -/
theorem acquire_overflows_iff :
    Overflows h.acquire.machine (h.acquireAt t k) .done ↔
      k.released = false ∧ ¬h.options.QuitFits t.elapsed := by
  constructor
  · rintro ⟨trail, w, hrun, hw⟩
    by_contra hfits
    have hstart : (h.acquireAt t k).state.Timed h := by
      simp only [acquireAt, acquire]
      split
      · exact fun hoverflow => by cases hoverflow
      · next hheld =>
        have hquit : h.options.QuitFits t.elapsed := by
          by_contra hquit
          exact hfits ⟨by simpa using hheld, hquit⟩
        obtain ⟨quitAt, hquitAt⟩ :=
          Option.isSome_iff_exists.mp (LockOptions.isSome_quitAt?.mpr hquit)
        rw [hquitAt]
        exact timed_attempt k hquit
    have hend := hrun.keeps Acquiring.Timed.react hstart
    rw [hw] at hend
    exact hend rfl
  · rintro ⟨hheld, hquit⟩
    refine ⟨[], _, .refl, ?_⟩
    have hnone : h.options.quitAt? t.elapsed = none := by
      rw [← Option.not_isSome_iff_eq_none, LockOptions.isSome_quitAt?]
      exact hquit
    simp [acquireAt, acquire, hheld, hnone]

theorem extensionDue?_eq_none {now : Instant} :
    h.extensionDue? k now = none ↔ k.expiresAt.isSome = true ∧ ¬h.options.MarginFits := by
  rw [extensionDue?]
  cases k.expiresAt with
  | none => simp
  | some expiry =>
    rw [← LockOptions.isSome_refreshDue? expiry now]
    simp

/-- The check of a lease overflows at its start or not at all, and only if a lease is known of. -/
theorem ensure_overflows_iff :
    Overflows h.ensure.machine (h.ensure.begun t k) .done ↔
      k.released = false ∧ k.expiresAt.isSome = true ∧ ¬h.options.MarginFits := by
  constructor
  · rintro ⟨trail, w, hrun, hw⟩
    by_contra hfits
    have hstart : (h.ensure.begun t k).state.Timed := by
      simp only [Operation.begun, ensure]
      split
      · exact fun hoverflow => by cases hoverflow
      · next hheld =>
        split
        · next hdue =>
          obtain ⟨hnoted, hmargin⟩ := extensionDue?_eq_none.mp hdue
          exact absurd ⟨by simpa using hheld, hnoted, hmargin⟩ hfits
        · exact fun hoverflow => by cases hoverflow
        · exact ⟨t.elapsed.add h.locks.options.operationTimeout, .reading 0, rfl⟩
    have hend := hrun.keeps Ensuring.Timed.react hstart
    rw [hw] at hend
    exact hend rfl
  · rintro ⟨hheld, hnoted, hmargin⟩
    refine ⟨[], _, .refl, ?_⟩
    have hnone : h.extensionDue? k t.wall = none := extensionDue?_eq_none.mpr ⟨hnoted, hmargin⟩
    simp [Operation.begun, ensure, hheld, hnone]

/-- Of all the times that a lock calculates with, only the margin and the time to quit can be out of
range, whatever the options and the wall clock. The taking of the lock then fails for a time to quit
that the timer cannot show, and the check of a lease for a margin whose product is longer than any
span; neither fails so for another reason, whatever the store answers. -/
theorem overflows_iff (h : Holder) (t : Moment) (k : Hold)
    (htry : h.options.tryFrequency ≤ Span.greatest) (hnow : t.wall.IsValid) :
    h.options.Calculates t ∧
      (Overflows h.acquire.machine (h.acquireAt t k) .done ↔
        k.released = false ∧ ¬h.options.QuitFits t.elapsed) ∧
      (Overflows h.ensure.machine (h.ensure.begun t k) .done ↔
        k.released = false ∧ k.expiresAt.isSome = true ∧ ¬h.options.MarginFits) :=
  ⟨LockOptions.calculates htry hnow, acquire_overflows_iff, ensure_overflows_iff⟩

def holderWith (options : LockOptions) : Holder :=
  ⟨⟨"locks", {}⟩, "migrations", "runner-a", options⟩

/-- A day after the timer has begun, in a leap second. -/
def nextDay : Moment := ⟨.ofSeconds 86400, ⟨59, 1999999999⟩⟩

/-- By the default options, and with a lease up to the last instant, nothing is out of range. -/
theorem overflows_iff_of_default :
    ¬Overflows (holderWith {}).acquire.machine ((holderWith {}).acquireAt nextDay {}) .done ∧
      ¬Overflows (holderWith {}).ensure.machine
        ((holderWith {}).ensure.begun nextDay ⟨some .last, false⟩) .done := by
  have hnow : nextDay.wall.IsValid := by decide
  obtain ⟨-, hacquire, -⟩ := overflows_iff (holderWith {}) nextDay {} (by decide) hnow
  obtain ⟨-, -, hensure⟩ :=
    overflows_iff (holderWith {}) nextDay ⟨some .last, false⟩ (by decide) hnow
  have hfits : LockOptions.MarginFits {} ∧ LockOptions.QuitFits {} nextDay.elapsed :=
    LockOptions.fits_of_millis (by decide) (by decide) (by decide)
  exact ⟨fun hover => (hacquire.mp hover).2 hfits.2, fun hover => (hensure.mp hover).2.2 hfits.1⟩

/-- A store in which nobody holds the lock. -/
def unclaimed : (c : Call) → Answer c
  | .getItem .. => .ok none
  | .putItem .. => .ok ()
  | _ => .error (.unavailable "down")

/-- The longest lease there is gets granted, up to the last instant, and then the first check of it
fails; and with the longest time to quit the lock is not even asked for. -/
theorem longest_options_overflow :
    (∃ trail w, (holderWith { acquiredFor := .greatest }).acquire.machine.Fares
        ((holderWith { acquiredFor := .greatest }).acquireAt nextDay {}) trail w ∧
      w.state = .done (.ok ()) ∧ w.cell = ⟨some .last, false⟩ ∧
      ((holderWith { acquiredFor := .greatest }).ensure.begun w.clock w.cell).state =
        .done (.error .overflow)) ∧
    ((holderWith { quitTryingAfter := .greatest }).acquireAt nextDay {}).state =
      .done (.error .overflow) :=
  ⟨⟨_, _, .react (.react .refl (.answered (x := unclaimed) rfl))
    (.answered (x := unclaimed) rfl), rfl, rfl, rfl⟩, rfl⟩

end Holder

end MigrationLedger
