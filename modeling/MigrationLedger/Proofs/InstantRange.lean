import Mathlib.Order.Defs.LinearOrder
import MigrationLedger.Holder
import MigrationLedger.Proofs.Calendar

/-! The instants that the clock can show, in their order. Moving forward in time stays among them,
so the end of a lease is one of them. -/

namespace MigrationLedger

namespace Instant

theorem lt_def (a b : Instant) :
    a < b ↔ a.seconds < b.seconds ∨ a.seconds = b.seconds ∧ a.nanos < b.nanos := Iff.rfl

theorem le_def (a b : Instant) :
    a ≤ b ↔ a.seconds < b.seconds ∨ a.seconds = b.seconds ∧ a.nanos ≤ b.nanos := Iff.rfl

instance : LinearOrder Instant where
  le_refl a := by rw [le_def]; omega
  le_trans a b c := by simp only [le_def]; omega
  le_antisymm a b hab hba := by
    obtain ⟨s, n⟩ := a
    obtain ⟨t, m⟩ := b
    simp only [le_def] at hab hba
    simp only [Instant.mk.injEq]
    omega
  le_total a b := by simp only [le_def]; omega
  lt_iff_le_not_ge a b := by simp only [lt_def, le_def]; omega
  toDecidableLE := inferInstance

/-- An instant that the clock can show: in the range of the calendar, and in a leap second only at
the end of a minute. -/
structure IsValid (i : Instant) : Prop where
  inRange : i.isInRange = true
  nanos : i.nanos < billion ∨ i.seconds % 60 = 59 ∧ i.nanos < 2 * billion

instance (i : Instant) : Decidable i.IsValid :=
  decidable_of_iff
    (i.isInRange = true ∧ (i.nanos < billion ∨ i.seconds % 60 = 59 ∧ i.nanos < 2 * billion))
    ⟨fun h => ⟨h.1, h.2⟩, fun h => ⟨h.1, h.2⟩⟩

theorem isInRange_iff {i : Instant} : i.isInRange = true ↔
    -8334601228800 ≤ i.seconds ∧ i.seconds < 8210266876800 := by
  have hleast : leastSecond = -8334601228800 := by decide
  have hlimit : secondLimit = 8210266876800 := by decide
  rw [isInRange, hleast, hlimit, Bool.and_eq_true, decide_eq_true_eq, decide_eq_true_eq]

theorem nanos_greatestShift : greatestShift.nanos = 9223372036854775807000000 := by decide

/-- The day of an instant in range has a date of the calendar. -/
theorem isValid_date {i : Instant} (h : i.isInRange = true) :
    (CalendarDate.ofDayNumber i.dayOf).isValid = true := by
  simp only [isInRange, Bool.and_eq_true, decide_eq_true_eq] at h
  simp only [leastSecond, secondLimit, secondsPerDay] at h
  have hyear := CalendarDate.year_bounds (n := i.dayOf)
    (by simp only [dayOf, secondsPerDay]; omega) (by simp only [dayOf, secondsPerDay]; omega)
  exact CalendarDate.isValid_ofDayNumber hyear.1 hyear.2

theorem isValid_last : last.IsValid := by decide

theorem nanos_shift {i : Instant} (h : i.IsValid) (delta : Int) :
    (i.shift delta).nanos < billion ∨
      (i.shift delta).seconds % 60 = 59 ∧ (i.shift delta).nanos < 2 * billion := by
  have hn := h.nanos
  rw [shift]
  dsimp only
  split
  · next hleap =>
    obtain ⟨hlong, -, hpart⟩ := hleap
    simp only [billion] at *
    omega
  · refine .inl ?_
    simp only [billion]
    omega

theorem IsValid.after? {i j : Instant} {s : Span} (h : i.IsValid) (hj : i.after? s = some j) :
    j.IsValid := by
  simp only [Instant.after?] at hj
  split at hj
  · split at hj
    · next hrange =>
      cases hj
      exact ⟨hrange, nanos_shift h _⟩
    · cases hj
  · cases hj

/-- Moving back leads to nothing later. -/
theorem shift_neg_le {i : Instant} (h : i.nanos < 2 * billion) (n : Nat) :
    i.shift (-(n : Int)) ≤ i := by
  have hwhole : (-(n : Int)).tdiv billion = -((n : Int) / billion) := by
    rw [Int.neg_tdiv, Int.tdiv_eq_ediv_of_nonneg (Int.natCast_nonneg n)]
  have hpart : (-(n : Int)).tmod billion = -((n : Int) % billion) := by
    rw [Int.neg_tmod, Int.tmod_eq_emod_of_nonneg (Int.natCast_nonneg n)]
  rw [shift, hwhole, hpart]
  dsimp only
  split
  · rw [le_def]
    refine .inr ⟨rfl, ?_⟩
    simp only [billion] at *
    omega
  · next hordinary =>
    rw [le_def]
    by_cases hshort : i.nanos < billion
    · simp only [if_pos hshort]
      simp only [billion] at *
      omega
    · by_cases hback : -((n : Int) / billion) < 0
      · simp only [if_neg hshort, if_pos hback]
        simp only [billion] at *
        omega
      · simp only [billion] at *
        omega

theorem before?_le {i j : Instant} {s : Span} (h : i.IsValid) (hj : i.before? s = some j) :
    j ≤ i := by
  have hlong : i.nanos < 2 * billion := by
    have hn := h.nanos
    simp only [billion] at *
    omega
  simp only [before?] at hj
  split at hj
  · cases hj
    exact shift_neg_le hlong _
  · cases hj

end Instant

namespace LockOptions

theorem isValid_leaseEnd (o : LockOptions) {now : Instant} (h : now.IsValid) :
    (o.leaseEnd now).IsValid := by
  rw [leaseEnd]
  cases hj : now.after? o.acquiredFor with
  | none => exact Instant.isValid_last
  | some j => exact h.after? hj

/-- A lease that is not to be extended yet has not run out. -/
theorem lt_of_not_due (o : LockOptions) {expiry now : Instant} (h : expiry.IsValid)
    (hdue : o.refreshDue? expiry now = some false) : now < expiry := by
  obtain ⟨margin, -, hmargin⟩ := Option.map_eq_some_iff.mp hdue
  split at hmargin
  · cases hmargin
  · next due hbefore =>
    have hlt : now < due := lt_of_not_ge (of_decide_eq_false hmargin)
    exact lt_of_lt_of_le hlt (Instant.before?_le h hbefore)

end LockOptions

end MigrationLedger
