import MigrationLedger.Proofs.FreeLock
import MigrationLedger.Proofs.GrantedLease
import MigrationLedger.Proofs.Solitude

/-! Waiting for another owner's lease. Nobody else writes, and the store takes no time: so the lock
is taken as soon as the lease has run out, or less than the shortest wait after that, or never
within the time in which the holder tries. -/

namespace MigrationLedger

theorem Span.nanos_min (a b : Span) : (a.min b).nanos = Min.min a.nanos b.nanos := rfl

namespace LockOptions

/-- A wait is never empty, and it does not reach far beyond the end of the lease it waits for. -/
theorem retryWait_held {o : LockOptions} (hfrequency : 0 < o.tryFrequency.nanos)
    (key owner : String)
    (expiry now : Instant) :
    0 < (o.retryWait (.heldByOther key owner expiry) now).nanos ∧
      (o.retryWait (.heldByOther key owner expiry) now).nanos ≤
        max (expiry.since now).nanos leastRetryWait.nanos := by
  simp only [retryWait]
  split
  · refine ⟨?_, le_refl _⟩
    exact lt_of_lt_of_le (by decide) (Nat.le_max_right _ leastRetryWait.nanos)
  · next hlong => exact ⟨hfrequency, Nat.le_trans (Nat.le_of_not_lt hlong) (Nat.le_max_left _ _)⟩

end LockOptions

namespace Holder

abbrev Taken : Type := Scene Hold (Except LeaseFault Unit)

/-- The lock has been taken in place of what was stored as `item`, by the lease of this moment. -/
structure Won (h : Holder) (item : Item) (m : Memory) (w : Taken) : Prop where
  answer : w.state = .ok ()
  stored : m.Puts h.locks.table h.key
    (Draft.written ⟨some item, (h.leaseAt w.clock.wall).toItem⟩) w.memory
  noted : w.cell = ⟨some (h.options.leaseEnd w.clock.wall), false⟩

variable {h : Holder} {t : Moment} {m : Memory} {k : Hold} {started : Span} {item : Item}
  {l : Lease} {acts : List Act} {w : Taken}

theorem limit_attempt (htimeout : 0 < h.locks.options.operationTimeout.nanos) (inner) (limit : Span)
    (hlimit : h.acquire.machine.limit (.attempting started (h.leaseAt t.wall) (.active ()
      (t.elapsed.add h.locks.options.operationTimeout) inner)) = some limit) :
    t.elapsed < limit := by
  cases hlimit
  exact Nat.lt_add_of_pos_right htimeout

/-- An attempt on a lock that somebody else's lease keeps is a read, and the failure after it. -/
theorem attempt_refused (htimeout : 0 < h.locks.options.operationTimeout.nanos)
    (hm : m.HasTable h.locks.table Lease.schema) (hitem : m.item? h.locks.table h.key = some item)
    (hlease : Lease.ofItem item = .ok l) (hblocks : l.blocks h.owner t.wall = true)
    (hrest : h.acquire.machine.Solo
      ⟨t, m, k, h.afterFailure t started (.heldByOther h.key l.owner l.expiresAt)⟩ acts w) :
    ∃ acts', h.acquire.machine.Solo ⟨t, m, (h.attempt t k started).1, (h.attempt t k started).2⟩
      acts' w := by
  obtain ⟨tb, htb, -⟩ := hm
  have hget := Memory.perform_getItem_of_table htb t.wall h.key
  rw [hitem] at hget
  have hread := Update.afterRead_stop
    (LockTable.take_decide_of_blocked h.locks (h.leaseAt t.wall) hlease hblocks) 0
  refine ⟨_, .asked rfl (limit_attempt htimeout _) hget ?_ hrest⟩
  change h.settleAttempt t started _ (Bounded.settle _ _ () _ (k, Update.afterRead _ t 0 _)) = _
  rw [hread]
  rfl

theorem put_lease (hm : m.HasTable h.locks.table Lease.schema)
    (hitem : m.item? h.locks.table h.key = some item) :
    ∃ m', m.Puts h.locks.table h.key (Draft.written ⟨some item, (h.leaseAt t.wall).toItem⟩) m' ∧
      m.perform t.wall (.putItem h.locks.table
        (Draft.written ⟨some item, (h.leaseAt t.wall).toItem⟩) (some (.unchanged (some item)))) =
          (.ok (), m') := by
  have hnamed : h.key ≠ "" :=
    KeySchema.ne_empty_of_keyOf (Memory.keyOf_item? hm.keyedBy hitem)
  have hkey : Lease.schema.keyOf (Draft.written ⟨some item, (h.leaseAt t.wall).toItem⟩) =
      .ok h.key := by
    rw [Draft.written, KeySchema.keyOf_withRevision Lease.partitionKey_ne]
    exact Lease.keyOf_toItem hnamed
  rcases m.perform_putItem_of_table hm t.wall
    (Draft.written ⟨some item, (h.leaseAt t.wall).toItem⟩) (.unchanged (some item)) with
    ⟨fault, hunkeyed, -⟩ | ⟨key, hkey', ⟨hchanged, -⟩ | ⟨-, m', hputs, hput⟩⟩
  · cases hkey.symm.trans hunkeyed
  · cases hkey.symm.trans hkey'
    rw [hitem, Condition.unchanged_self] at hchanged
    cases hchanged
  · cases hkey.symm.trans hkey'
    exact ⟨m', hputs, hput⟩

/-- An attempt on a free lock is a read and a put. -/
theorem attempt_wins (started : Span)
    (htimeout : 0 < h.locks.options.operationTimeout.nanos)
    (hm : m.HasTable h.locks.table Lease.schema) (hitem : m.item? h.locks.table h.key = some item)
    (hfree : FreeAt (some item) t.wall) (hk : k.released = false) :
    ∃ acts w, h.acquire.machine.Solo ⟨t, m, (h.attempt t k started).1, (h.attempt t k started).2⟩
      acts w ∧ h.Won item m w ∧ w.clock = t := by
  obtain ⟨m', hputs, hput⟩ := h.put_lease (t := t) hm hitem
  obtain ⟨tb, htb, -⟩ := hm
  have hget := Memory.perform_getItem_of_table htb t.wall h.key
  rw [hitem] at hget
  have hread := Update.afterRead_write
    (LockTable.take_decide_of_free h.locks (h.leaseAt t.wall) hfree) 0
  have hnote : h.noteLease k (h.leaseAt t.wall).expiresAt =
      (⟨some (h.options.leaseEnd t.wall), false⟩, .ok ()) := by
    simp [noteLease, hk, leaseAt]
  let writing : Acquiring := .attempting started (h.leaseAt t.wall) (.active ()
    (t.elapsed.add h.locks.options.operationTimeout)
    (.writing 0 (some item) (h.leaseAt t.wall).toItem ()))
  obtain ⟨acts, hwrites⟩ : ∃ acts, h.acquire.machine.Solo ⟨t, m, k, writing⟩ acts
      ⟨t, m', ⟨some (h.options.leaseEnd t.wall), false⟩, .ok ()⟩ := by
    have hends : h.settleAttempt t started (h.leaseAt t.wall) (k, .ended (.ok ())) =
        (⟨some (h.options.leaseEnd t.wall), false⟩, .done (.ok ())) := by
      simp only [settleAttempt, hnote]
    exact ⟨_, .asked rfl (limit_attempt htimeout _) hput hends (.done rfl)⟩
  refine ⟨_, _, .asked rfl (limit_attempt htimeout _) hget ?_ hwrites, ⟨rfl, hputs, rfl⟩, rfl⟩
  change h.settleAttempt t started _ (Bounded.settle _ _ () _ (k, Update.afterRead _ t 0 _)) = _
  rw [hread]
  rfl

/-- The record of the lock is the lease of another owner. -/
structure Contested (h : Holder) (m : Memory) (item : Item) (l : Lease) : Prop where
  table : m.HasTable h.locks.table Lease.schema
  stored : m.item? h.locks.table h.key = some item
  decodes : Lease.ofItem item = .ok l
  held : l.status = .held
  other : l.owner ≠ h.owner
  valid : l.expiresAt.IsValid
  ordinary : l.expiresAt.nanos < Instant.billion

/-- A lease is such a record if a holder has written it while the clock was outside of leap
seconds. -/
theorem contested_of_leaseAt {other : Holder} {now : Instant} {n : Nat}
    (hm : m.HasTable h.locks.table Lease.schema)
    (hitem : m.item? h.locks.table h.key = some ((other.leaseAt now).toItem.withRevision n))
    (howner : other.owner ≠ h.owner) (hnow : now.IsValid)
    (hordinary : now.nanos < Instant.billion) :
    h.Contested m ((other.leaseAt now).toItem.withRevision n) (other.leaseAt now) := by
  have hvalid := other.options.isValid_leaseEnd hnow
  refine ⟨hm, hitem, Lease.ofItem_toItem hvalid _, rfl, howner, hvalid, ?_⟩
  change (other.options.leaseEnd now).nanos < Instant.billion
  rw [LockOptions.leaseEnd]
  cases hend : now.after? other.options.acquiredFor with
  | none => decide
  | some expiry =>
    rcases Instant.after?_ordinary hnow hend with hlt | ⟨-, hleap⟩
    · exact hlt
    · omega

/-- What a holder can do with its options: no time limit is empty, and the timer can show when to
quit. -/
structure Able (h : Holder) (started : Span) : Prop where
  timeout : 0 < h.locks.options.operationTimeout.nanos
  frequency : Span.nanosPerMilli ≤ h.options.tryFrequency.nanos
  quit : h.options.quitAt? started ≠ none

/-- The timer can show the end of any number of milliseconds that fits a word of 64 bits. -/
theorem quitAt?_ne_none_of_millis {started : Span} {n : Nat} (hn : n < 2 ^ 64)
    (hquit : h.options.quitTryingAfter = .ofMillis n) (hstarted : started.seconds < 2 ^ 62) :
    h.options.quitAt? started ≠ none := by
  have hlimit : LockOptions.timerLimit = 2 ^ 63 := rfl
  have hfits : (started.add h.options.quitTryingAfter).seconds < LockOptions.timerLimit := by
    rw [hquit, hlimit]
    simp only [Span.seconds, Span.add, Span.ofMillis, Span.nanosPerMilli,
      Span.nanosPerSecond] at hstarted ⊢
    omega
  rw [LockOptions.quitAt?, if_pos hfits]
  exact Option.some_ne_none _

/-- How the waiting for a lease ends that runs `d` nanoseconds longer. -/
structure Ends (h : Holder) (item : Item) (t : Moment) (m : Memory) (d : Nat) (w : Taken) :
    Prop where
  taken : d ≤ h.options.quitTryingAfter.nanos → h.Won item m w ∧
    ∃ n, n ≤ h.options.quitTryingAfter.nanos ∧ d ≤ n ∧ n < d + LockOptions.leastRetryWait.nanos ∧
      w.clock = t.later n
  quit : h.options.quitTryingAfter.nanos < d →
    w.state = .error (.quitTrying h.key h.options.quitTryingAfter) ∧
      w.clock = t.later h.options.quitTryingAfter.nanos ∧ w.memory = m

/-- The wait before the next attempt takes time, but neither beyond the time to quit nor far beyond
the end of the lease. -/
theorem wait_bounds (hlock : h.Contested m item l) (hable : h.Able t.elapsed)
    (ht : t.wall.IsValid) {d n : Nat} (hd : l.expiresAt = t.wall.shift d) (hrunning : n < d)
    (hmore : n < h.options.quitTryingAfter.nanos) :
    let wait := (h.options.retryWait (.heldByOther h.key l.owner l.expiresAt) (t.later n).wall).min
      ((t.elapsed.add h.options.quitTryingAfter).sub (t.later n).elapsed)
    0 < wait.nanos ∧ n + wait.nanos ≤ h.options.quitTryingAfter.nanos ∧
      n + wait.nanos < d + LockOptions.leastRetryWait.nanos := by
  have hfrequency : 0 < h.options.tryFrequency.nanos :=
    Nat.lt_of_lt_of_le (by decide) hable.frequency
  obtain ⟨hpos, hle⟩ := LockOptions.retryWait_held hfrequency h.key l.owner l.expiresAt
    (t.later n).wall
  have hsince : (l.expiresAt.since (t.later n).wall).nanos ≤ d - n := by
    have hend : l.expiresAt = (t.wall.shift n).shift (d - n : Nat) := by
      rw [Instant.shift_shift ht, Nat.add_sub_of_le (Nat.le_of_lt hrunning)]
      exact hd
    have hnow : (t.wall.shift n).IsValid := by
      refine Instant.isValid_shift_of_le ht hlock.valid (le_of_lt ?_)
      rw [hd]
      exact Instant.shift_lt_shift ht hrunning
    have hordinary := hlock.ordinary
    rw [hend] at hordinary ⊢
    exact Instant.since_shift_le hnow hordinary
  have hleft : ((t.elapsed.add h.options.quitTryingAfter).sub (t.later n).elapsed).nanos =
      h.options.quitTryingAfter.nanos - n :=
    Nat.add_sub_add_left ..
  have hleast : 0 < LockOptions.leastRetryWait.nanos := by decide
  simp only [Span.nanos_min, hleft]
  omega

/-- From an attempt on that begins `n` nanoseconds after the first one. The induction is on the time
that is left for trying. -/
theorem attempt_ends (hlock : h.Contested m item l) (hable : h.Able t.elapsed)
    (ht : t.wall.IsValid) (hk : k.released = false) {d n : Nat}
    (hd : l.expiresAt = t.wall.shift d) (hn : n ≤ h.options.quitTryingAfter.nanos)
    (hnear : n < d + LockOptions.leastRetryWait.nanos) :
    ∃ acts w, h.acquire.machine.Solo ⟨t.later n, m, (h.attempt (t.later n) k t.elapsed).1,
      (h.attempt (t.later n) k t.elapsed).2⟩ acts w ∧ h.Ends item t m d w := by
  induction hleft : h.options.quitTryingAfter.nanos - n using Nat.strong_induction_on
    generalizing n with
  | _ left ih =>
    rcases Nat.lt_or_ge n d with hrunning | hover
    · -- the lease still runs: what is left of the course begins with the failure
      have hlt : (t.later n).wall < l.expiresAt := hd ▸ Instant.shift_lt_shift ht hrunning
      have hblocks := Lease.blocks_of_running hlock.other hlock.held hlt
      suffices hfails : ∃ acts w, h.acquire.machine.Solo
          ⟨t.later n, m, k, h.afterFailure (t.later n) t.elapsed
            (.heldByOther h.key l.owner l.expiresAt)⟩ acts w ∧ h.Ends item t m d w by
        obtain ⟨acts, w, hsolo, hends⟩ := hfails
        obtain ⟨acts', hsolo'⟩ := attempt_refused hable.timeout hlock.table hlock.stored
          hlock.decodes hblocks hsolo
        exact ⟨acts', w, hsolo', hends⟩
      rcases Nat.eq_or_lt_of_le hn with rfl | hmore
      · -- the last wait was cut to end with the time to quit, so the failure is exactly then
        have hlate : t.elapsed.add h.options.quitTryingAfter ≤
          (t.later h.options.quitTryingAfter.nanos).elapsed := Nat.le_refl _
        have hafter : (t.later h.options.quitTryingAfter.nanos).elapsed.sub t.elapsed =
            h.options.quitTryingAfter :=
          congrArg Span.mk (Nat.add_sub_cancel_left ..)
        rw [afterFailure_late rfl hable.quit hlate, hafter]
        refine ⟨_, _, .done rfl, fun hreach => ?_, fun _ => ⟨rfl, rfl, rfl⟩⟩
        omega
      · have hearly : ¬t.elapsed.add h.options.quitTryingAfter ≤ (t.later n).elapsed := by
          exact Nat.not_le.mpr (Nat.add_lt_add_left hmore _)
        rw [afterFailure_early rfl hable.quit hearly]
        obtain ⟨hpos, hcut, hnear'⟩ := wait_bounds hlock hable ht hd hrunning hmore
        generalize hwait : Span.min (h.options.retryWait _ (t.later n).wall) _ = wait
          at hpos hcut hnear' ⊢
        obtain ⟨acts, w, hsolo, hends⟩ := ih _ (by omega) hcut hnear' rfl
        rw [← Moment.later_later ht] at hsolo
        exact ⟨_, w, .rested rfl nofun (if_neg (by simp [hk])) hsolo, hends⟩
    · have hfree : FreeAt (some item) (t.later n).wall := by
        intro found hfound
        cases hfound
        exact ⟨l, hlock.decodes, .inr (hd ▸ Instant.shift_le_shift ht hover)⟩
      obtain ⟨acts, w, hsolo, hwon, hclock⟩ := attempt_wins t.elapsed hable.timeout
        hlock.table hlock.stored hfree hk
      refine ⟨acts, w, hsolo, fun _ => ⟨hwon, n, hn, hover, hnear, hclock⟩, fun hquit => ?_⟩
      omega

/-- How the waiting for the lease `l` ends, by the instant at which it runs out. -/
structure Waited (h : Holder) (item : Item) (l : Lease) (t : Moment) (m : Memory) (w : Taken) :
    Prop where
  lapsed : l.expiresAt ≤ t.wall → h.Won item m w ∧ w.clock = t
  awaited : t.wall < l.expiresAt → l.expiresAt ≤ t.wall.shift h.options.quitTryingAfter.nanos →
    h.Won item m w ∧ l.expiresAt ≤ w.clock.wall ∧
      w.clock.wall < l.expiresAt.shift (Span.ofMillis 500).nanos ∧
      ∃ n, n ≤ h.options.quitTryingAfter.nanos ∧ w.clock = t.later n
  beyond : t.wall.shift h.options.quitTryingAfter.nanos < l.expiresAt →
    w.state = .error (.quitTrying h.key h.options.quitTryingAfter) ∧
      w.clock = t.later h.options.quitTryingAfter.nanos ∧ w.memory = m

theorem Ends.waited {d : Nat} (h' : h.Ends item t m d w) (ht : t.wall.IsValid)
    (hd : l.expiresAt = t.wall.shift d) (hpos : 0 < d) : h.Waited item l t m w := by
  have hiff {a b : Nat} : t.wall.shift a < t.wall.shift b ↔ a < b := by
    refine ⟨fun hlt => ?_, Instant.shift_lt_shift ht⟩
    by_contra hge
    exact absurd hlt (not_lt_of_ge (Instant.shift_le_shift ht (Nat.le_of_not_lt hge)))
  refine ⟨fun hover => ?_, fun _ hreach => ?_, fun hbeyond => ?_⟩
  · have hlt := Instant.shift_lt_shift ht hpos
    rw [Int.natCast_zero, Instant.shift_zero ht, ← hd] at hlt
    exact absurd hlt (not_lt_of_ge hover)
  · rw [hd, ← not_lt, hiff, not_lt] at hreach
    obtain ⟨hwon, n, hn, hle, hlt, hclock⟩ := h'.taken hreach
    refine ⟨hwon, ?_, ?_, n, hn, hclock⟩
    · rw [hclock, hd]
      exact Instant.shift_le_shift ht hle
    · rw [hclock, hd, Instant.shift_shift ht]
      exact Instant.shift_lt_shift ht hlt
  · rw [hd, hiff] at hbeyond
    exact h'.quit hbeyond

/-- Alone with another owner's lease, a holder takes the lock when that has run out: at once, or
less than half a second after; and if it runs longer than the holder tries, the holder gives up when
its time is over and leaves the record alone. The count of writes is taken not to overflow. -/
theorem acquire_waits (hlock : h.Contested m item l) (hable : h.Able t.elapsed)
    (ht : t.wall.IsValid) (hk : k.released = false) :
    h.acquire.Achieves t m k fun _ w => h.Waited item l t m w := by
  have hstart : h.acquire.start t k = h.attempt t k t.elapsed := by
    simp [acquire, hk, quitAt?_eq hable.quit]
  rcases le_or_gt l.expiresAt t.wall with hover | hrunning
  · have hfree : FreeAt (some item) t.wall := by
      intro found hfound
      cases hfound
      exact ⟨l, hlock.decodes, .inr hover⟩
    obtain ⟨acts, w, hsolo, hwon, hclock⟩ := attempt_wins t.elapsed hable.timeout
      hlock.table hlock.stored hfree hk
    have hsince : ¬t.wall < l.expiresAt := not_lt_of_ge hover
    refine .of_alone (hstart ▸ hsolo) ⟨fun _ => ⟨hwon, hclock⟩, fun h => absurd h hsince,
      fun hbeyond => absurd (lt_of_le_of_lt (Instant.le_shift ht _) hbeyond) hsince⟩
  · obtain ⟨d, hd⟩ := Instant.exists_shift ht hlock.ordinary hrunning
    have hpos : 0 < d := by
      rcases Nat.eq_zero_or_pos d with rfl | hpos
      · rw [Int.natCast_zero, Instant.shift_zero ht] at hd
        exact absurd hrunning (hd ▸ lt_irrefl _)
      · exact hpos
    obtain ⟨acts, w, hsolo, hends⟩ := attempt_ends hlock hable ht hk hd (Nat.zero_le _)
      (Nat.lt_of_lt_of_le hpos (Nat.le_add_right ..))
    rw [Moment.later_zero ht] at hsolo
    exact .of_alone (hstart ▸ hsolo) (hends.waited ht hd hpos)

/-- The lease of a run that has crashed: a fifth of a second long, and never given back. -/
def crashed : Holder :=
  ⟨⟨"locks", {}⟩, "migrations", "runner-a", { acquiredFor := .ofMillis 200 }⟩

def heir : Holder :=
  ⟨⟨"locks", {}⟩, "migrations", "runner-b", { quitTryingAfter := .ofSeconds 5 }⟩

def leftBehind : Item := (crashed.leaseAt ⟨0, 0⟩).toItem.withRevision 1

theorem keyOf_leftBehind : Lease.schema.keyOf leftBehind = .ok "migrations" := by
  rw [leftBehind, KeySchema.keyOf_withRevision Lease.partitionKey_ne]
  exact Lease.keyOf_toItem (l := crashed.leaseAt ⟨0, 0⟩) (by decide)

def leftStore : Memory :=
  ({} : Memory).setTable "locks"
    ((StoredTable.create "locks" Lease.schema 0 ⟨0, 0⟩).insert "migrations" leftBehind
      keyOf_leftBehind)

theorem acquire_waits_of_crashed :
    heir.Contested leftStore leftBehind (crashed.leaseAt ⟨0, 0⟩) ∧ heir.Able .zero ∧
      ∃ acts w, heir.acquire.Alone (Crew.second 0) leftStore {} acts w ∧
        heir.Won leftBehind leftStore w ∧ ⟨0, 200000000⟩ ≤ w.clock.wall ∧
        w.clock.wall < ⟨0, 700000000⟩ := by
  have hlock : heir.Contested leftStore leftBehind (crashed.leaseAt ⟨0, 0⟩) := by
    refine contested_of_leaseAt ⟨_, Ordered.get?_insert_self .., rfl⟩ ?_ (by decide) (by decide)
      (by decide)
    rw [Memory.item?, leftStore, Memory.setTable, heir, Ordered.get?_insert_self]
    exact Ordered.get?_insert_self ..
  have hable : heir.Able .zero :=
    ⟨by decide, by decide, quitAt?_ne_none_of_millis (n := 5000) (by decide) rfl (by decide)⟩
  obtain ⟨⟨acts, w, halone⟩, hwaited⟩ :=
    acquire_waits (t := Crew.second 0) (k := {}) hlock hable (by decide) rfl
  obtain ⟨hwon, hle, hlt, -⟩ := (hwaited acts w halone).awaited (by decide) (by decide)
  exact ⟨hlock, hable, acts, w, halone, hwon, hle, hlt⟩

end Holder

end MigrationLedger
