import Mathlib.Algebra.Order.Field.Rat
import Mathlib.Tactic.Ring
import MigrationLedger.Proofs.InstantShift
import MigrationLedger.Proofs.TimeArithmetic

/-! When a check of a lease extends it. A lease of whole milliseconds has a margin of 0.33 of it,
with nothing rounded, but of a second at least and of the whole lease at most. Until the end of the
lease is that near, a check succeeds without a word to the store; from then on it sets out to write
a lease that counts from the check. -/

namespace MigrationLedger

namespace LockOptions

variable {o : LockOptions}

/-- The margin of a lease: 0.33 of it, to the nanosecond, between a second and the whole lease. -/
structure HasMargin (o : LockOptions) (margin : Span) : Prop where
  isMargin : o.refreshMargin? = some margin
  clamped : (margin.nanos : ℚ) = min (o.acquiredFor.nanos : ℚ)
    (max ((Span.ofSeconds 1).nanos : ℚ) (33 / 100 * o.acquiredFor.nanos))
  least : o.acquiredFor.min (.ofSeconds 1) ≤ margin
  most : margin ≤ o.acquiredFor
  mono : ∀ shorter : LockOptions, shorter.acquiredFor ≤ o.acquiredFor →
    ∃ margin', shorter.refreshMargin? = some margin' ∧ margin' ≤ margin

theorem refreshMargin?_of_fits (hfits : o.MarginFits) : o.refreshMargin? =
    some ⟨min (max (o.acquiredFor.nanos * refreshPercent / 100) leastRefreshMargin.nanos)
      o.acquiredFor.nanos⟩ := by
  have hproduct : o.acquiredFor.times? refreshPercent = some (o.acquiredFor.times refreshPercent) :=
    if_pos hfits
  rw [refreshMargin?, hproduct]
  rfl

theorem exists_hasMargin {n : Nat} (hn : n < Nat.pow 2 64) (ho : o.acquiredFor = .ofMillis n) :
    ∃ margin, o.HasMargin margin := by
  have hnanos : o.acquiredFor.nanos = n * 1000000 := congrArg Span.nanos ho
  have hlong : o.acquiredFor ≤ .ofMillis (Nat.pow 2 64 - 1) := by
    rw [ho]
    exact Nat.mul_le_mul_right _ (Nat.le_sub_one_of_lt hn)
  -- the lease is a multiple of a million, so nothing is lost in the division
  have hthird : o.acquiredFor.nanos * refreshPercent / 100 = n * 330000 := by
    rw [hnanos, refreshPercent]
    omega
  refine ⟨_, refreshMargin?_of_fits (marginFits_of_millis hlong), ?_, ?_, ?_, fun shorter hle => ?_⟩
  · have hscaled : 33 / 100 * (o.acquiredFor.nanos : ℚ) = (n * 330000 : Nat) := by
      rw [hnanos]
      push_cast
      ring
    rw [hthird, hscaled, ← Nat.cast_max, ← Nat.cast_min, min_comm, max_comm]
    rfl
  · change min o.acquiredFor.nanos leastRefreshMargin.nanos ≤ min (max _ _) _
    omega
  · exact Nat.min_le_right _ _
  · have hshort : shorter.acquiredFor.nanos ≤ o.acquiredFor.nanos := hle
    have hproduct : shorter.acquiredFor.nanos * refreshPercent / 100 ≤
        o.acquiredFor.nanos * refreshPercent / 100 :=
      Nat.div_le_div_right (Nat.mul_le_mul_right refreshPercent hshort)
    have hfits := marginFits_of_millis (Nat.le_trans hshort hlong)
    exact ⟨_, refreshMargin?_of_fits hfits, min_le_min (max_le_max_right _ hproduct) hshort⟩

theorem refreshDue?_eq {margin : Span} {expiry due : Instant}
    (hmargin : o.refreshMargin? = some margin) (hdue : expiry.before? margin = some due)
    (now : Instant) :
    o.refreshDue? expiry now = some (decide (due ≤ now)) := by
  simp only [refreshDue?, hmargin, Option.map_some, hdue]

end LockOptions

namespace Holder

variable {h : Holder} {t : Moment} {k : Hold} {s : Instant}

def leaseUntil (h : Holder) (expiry : Instant) : Lease := ⟨h.key, .held, h.owner, expiry⟩

/-- The calls by which a lock is changed to `lease`. -/
def ChangesTo (h : Holder) (lease : Lease) (c : Call) : Prop :=
  c = .getItem h.locks.table h.key ∨
    ∃ n condition, c = .putItem h.locks.table (lease.toItem.withRevision n) (some condition)

/-- The check of a lease does not extend it: it has succeeded before it could ask the store. -/
structure Spares (h : Holder) (t : Moment) (k : Hold) : Prop where
  cell : (h.ensure.begun t k).cell = k
  silent : ∀ trail w, h.ensure.machine.Fares (h.ensure.begun t k) trail w →
    trail = [] ∧ h.ensure.machine.next w.state = .done (.ok ())

/-- The check of a lease extends it to `expiry`: it sets out to read the record, and whatever the
store answers, that lease is all that it puts, and is what the holder then believes in. -/
structure Renews (h : Holder) (t : Moment) (k : Hold) (expiry : Instant) : Prop where
  begun : (h.ensure.begun t k).state =
    .extending (h.leaseUntil expiry) ((h.locks.extend (h.leaseUntil expiry)).start t k).2
  asks : ∃ resume, h.ensure.machine.next (h.ensure.begun t k).state =
    .call (.getItem h.locks.table h.key) resume
  calls : ∀ trail w, h.ensure.machine.Fares (h.ensure.begun t k) trail w → ∀ c resume,
    h.ensure.machine.next w.state = .call c resume → h.ChangesTo (h.leaseUntil expiry) c
  notes : ∀ trail v r w, h.ensure.machine.Fares (h.ensure.begun t k) trail v →
    h.ensure.machine.Reacts v r w → w.state = .done (.ok ()) → w.cell = ⟨some expiry, false⟩

def Ensuring.Carries (lease : Lease) : Ensuring → Prop
  | extending l inner => l = lease ∧ ∀ d, inner.draft? = some d → d.item = lease.toItem
  | done _ => True

theorem Ensuring.Carries.react {lease : Lease} {p : Ensuring} {e : Response} {q : Hold × Ensuring}
    (hp : p.Carries lease) (hq : h.ensure.machine.react? t k p e = some q) :
    q.2.Carries lease ∧ (q.2 = .done (.ok ()) → q.1 = ⟨some lease.expiresAt, false⟩) := by
  cases p with
  | extending l inner =>
    obtain ⟨rfl, -⟩ := hp
    rw [(encloses_extend h l).react?] at hq
    obtain ⟨⟨k', inner'⟩, hinner, rfl⟩ := Option.map_eq_some_iff.mp hq
    refine ⟨?_, fun hok => (settleExtension_ok hok).2⟩
    cases inner' with
    | active note limit phase =>
      exact ⟨rfl, fun d hd => (LockTable.permits_extend (Bounded.permits_of_react? hinner hd)).1⟩
    | ended answer =>
      cases answer with
      | ok u => trivial
      | error fault => cases fault <;> trivial
  | done answer => cases e <;> cases hq

theorem Ensuring.Carries.changes {expiry : Instant} {p : Ensuring} {c : Call}
    {resume : Moment → Hold → Answer c → Hold × Ensuring} (hp : p.Carries (h.leaseUntil expiry))
    (hnext : h.ensure.machine.next p = .call c resume) : h.ChangesTo (h.leaseUntil expiry) c := by
  cases p with
  | extending l inner =>
    obtain ⟨rfl, hitem⟩ := hp
    cases inner with
    | active note limit phase =>
      cases phase with
      | reading n =>
        cases hnext
        exact .inl rfl
      | writing n read item answer =>
        obtain rfl : item = (h.leaseUntil expiry).toItem := hitem ⟨read, item⟩ rfl
        cases hnext
        exact .inr ⟨_, _, rfl⟩
      | pausing n => cases hnext
      | done answer => cases hnext
    | ended answer => cases hnext
  | done answer => cases hnext

theorem spares_of_not_due (hk : k.released = false)
    (hdue : h.extensionDue? k t.wall = some false) : h.Spares t k := by
  have hbegun : h.ensure.begun t k = ⟨t, k, .done (.ok ()), t.elapsed⟩ := by
    rw [Operation.begun, ensure_start_of_not_due hk hdue]
  refine ⟨congrArg Stand.cell hbegun, fun trail w hfares => ?_⟩
  rw [hbegun] at hfares
  obtain ⟨htrail, hstate⟩ := hfares.idle fun t k e => by cases e <;> rfl
  rw [hstate]
  exact ⟨htrail, rfl⟩

theorem renews_of_due (hk : k.released = false)
    (hdue : h.extensionDue? k t.wall = some true) : h.Renews t k (h.options.leaseEnd t.wall) := by
  have hbegun : (h.ensure.begun t k).state = .extending (h.leaseAt t.wall)
      ((h.locks.extend (h.leaseAt t.wall)).start t k).2 := by
    rw [Operation.begun, ensure_start_of_due hk hdue]
  have hcarries : (h.ensure.begun t k).state.Carries (h.leaseAt t.wall) := by
    rw [hbegun]
    refine ⟨rfl, fun d hd => ?_⟩
    cases hd
  have hrun : ∀ trail w, h.ensure.machine.Fares (h.ensure.begun t k) trail w →
      w.state.Carries (h.leaseAt t.wall) := fun trail w hrun =>
    hrun.keeps (fun hp hq => (hp.react hq).1) hcarries
  refine ⟨hbegun, ?_, fun trail w hfares c resume => (hrun trail w hfares).changes, ?_⟩
  · rw [hbegun]
    exact ⟨_, rfl⟩
  · rintro trail v r w hfares hreacts hok
    cases hreacts with
    | intro e k' s _ _ hreact => exact ((hrun trail v hfares).react hreact).2 hok

/-- The holder believes in a lease that has been taken or extended at `s`, and that ends in the
calendar. -/
structure LeasedAt (h : Holder) (k : Hold) (s : Instant) : Prop where
  start : s.IsValid
  inRange : (s.shift h.options.acquiredFor.nanos).isInRange = true
  believed : k = ⟨some (h.options.leaseEnd s), false⟩

/-- What the checks of a lease do that counts from `s`, from then on: until `switch` they spare the
store, and from `switch` on they extend the lease. -/
structure SwitchesAt (h : Holder) (k : Hold) (s : Instant) (margin : Span) (switch : Instant) :
    Prop where
  spares : ∀ t : Moment, s ≤ t.wall → t.wall < switch → h.Spares t k
  renews : ∀ t : Moment, s ≤ t.wall → switch ≤ t.wall → h.Renews t k
    (if (t.wall.shift h.options.acquiredFor.nanos).isInRange then
      t.wall.shift h.options.acquiredFor.nanos else .last)
  start_le : s ≤ switch
  le_end : switch ≤ s.shift h.options.acquiredFor.nanos
  /-- The end of the lease less the margin, unless that is before the start. -/
  isDue : ∃ due,
    (s.shift h.options.acquiredFor.nanos).before? margin = some due ∧ switch = max s due
  /-- It is before the start only if that is in a leap second. -/
  ordinary : s.nanos < Instant.billion →
    (s.shift h.options.acquiredFor.nanos).before? margin = some switch ∧
      switch = s.shift (h.options.acquiredFor.sub margin).nanos

theorem LeasedAt.switchesAt {margin : Span} (hk : h.LeasedAt k s)
    (hmargin : h.options.HasMargin margin) : ∃ switch, h.SwitchesAt k s margin switch := by
  obtain ⟨hs, hin, rfl⟩ := hk
  have hshort : h.options.acquiredFor ≤ Instant.greatestShift :=
    Instant.le_greatestShift_of_inRange hs hin
  have hend : h.options.leaseEnd s = s.shift h.options.acquiredFor.nanos := by
    rw [LockOptions.leaseEnd_eq hshort, if_pos hin]
  obtain ⟨due, hbefore, hle, hcase⟩ := Instant.before?_shift hs hmargin.most hin
  have hdue : ∀ now, h.extensionDue? ⟨some (h.options.leaseEnd s), false⟩ now =
      some (decide (due ≤ now)) := by
    rw [hend]
    exact LockOptions.refreshDue?_eq hmargin.isMargin hbefore
  refine ⟨max s due, fun t hle hlt => ?_, fun t _ hle => ?_, le_max_left _ _,
    max_le (Instant.le_shift hs _) hle, ⟨due, hbefore, rfl⟩, fun hordinary => ?_⟩
  · have hearly : t.wall < due := (lt_max_iff.mp hlt).resolve_left (not_lt_of_ge hle)
    refine spares_of_not_due rfl ?_
    rw [hdue, decide_eq_false (not_le_of_gt hearly)]
  · rw [← LockOptions.leaseEnd_eq hshort]
    refine renews_of_due rfl ?_
    rw [hdue, decide_eq_true (le_trans (le_max_right _ _) hle)]
  · rcases hcase with rfl | ⟨hleap, -⟩
    · rw [max_eq_right (Instant.le_shift hs _)]
      exact ⟨hbefore, rfl⟩
    · omega

/-- A lease of whole milliseconds has a margin of 0.33 of it, cut to a second from below and to the
lease from above. A check of the lease at any time after the start succeeds without the store until
the end is as near as the margin, and from then on sets out to write a lease that counts from the
check. -/
theorem renewed_from_margin (h : Holder) {n : Nat} (hn : n < Nat.pow 2 64)
    (hmillis : h.options.acquiredFor = .ofMillis n) :
    ∃ margin, h.options.HasMargin margin ∧
      ∀ k s, h.LeasedAt k s → ∃ switch, h.SwitchesAt k s margin switch := by
  obtain ⟨margin, hmargin⟩ := LockOptions.exists_hasMargin hn hmillis
  exact ⟨margin, hmargin, fun k s hk => hk.switchesAt hmargin⟩

/-- A third of its lease is just longer than a second. -/
def brief : Holder := holderWith { acquiredFor := .ofMillis 3031 }

/-- Takes the lock at the start of 1970, and checks its lease a nanosecond before the switch, and at
it. -/
theorem renewed_from_margin_of_brief :
    ∃ trail w, brief.acquire.machine.Fares (brief.acquireAt ⟨.zero, ⟨0, 0⟩⟩ {}) trail w ∧
      w.state = .done (.ok ()) ∧ brief.LeasedAt w.cell ⟨0, 0⟩ ∧
      brief.options.HasMargin ⟨1000230000⟩ ∧
      brief.Spares ⟨.ofSeconds 2, ⟨2, 30769999⟩⟩ w.cell ∧
      brief.Renews ⟨.ofSeconds 2, ⟨2, 30770000⟩⟩ w.cell ⟨5, 61770000⟩ := by
  obtain ⟨margin, hmargin, hchecks⟩ := renewed_from_margin brief (n := 3031) (by decide) rfl
  obtain rfl : margin = ⟨1000230000⟩ := Option.some.inj (hmargin.isMargin.symm.trans (by decide))
  obtain ⟨trail, w, hrun, hok, hcell⟩ :
      ∃ trail w, brief.acquire.machine.Fares (brief.acquireAt ⟨.zero, ⟨0, 0⟩⟩ {}) trail w ∧
        w.state = .done (.ok ()) ∧ w.cell = ⟨some ⟨3, 31000000⟩, false⟩ :=
    ⟨_, _, .react (.react .refl (.answered (x := unclaimed) rfl)) (.answered (x := unclaimed) rfl),
      rfl, rfl⟩
  have hleased : brief.LeasedAt w.cell ⟨0, 0⟩ := ⟨by decide, by decide, hcell.trans (by decide)⟩
  obtain ⟨switch, hswitch⟩ := hchecks w.cell ⟨0, 0⟩ hleased
  obtain rfl : switch = ⟨2, 30770000⟩ := (hswitch.ordinary (by decide)).2.trans (by decide)
  exact ⟨trail, w, hrun, hok, hleased, hmargin, hswitch.spares _ (by decide) (by decide),
    hswitch.renews ⟨.ofSeconds 2, ⟨2, 30770000⟩⟩ (by decide) (by decide)⟩

end Holder

end MigrationLedger
