import Mathlib.Order.Lattice
import MigrationLedger.Proofs.InstantRange

/-! Moving forward in time, one step after another. It keeps the order of instants, also where it
begins in a leap second; and a lease that need not be extended yet outlasts any wait that is shorter
than the margin. -/

namespace MigrationLedger

namespace Instant

variable {i j : Instant}

theorem IsValid.nanos_lt (h : i.IsValid) : i.nanos < 2 * billion := by
  have hn := h.nanos
  simp only [billion] at *
  omega

/-- The seconds and nanoseconds from which moving forward counts once it leaves a leap second. -/
def ordinaryNanos (i : Instant) : Nat := if i.nanos < billion then i.nanos else i.nanos - billion

theorem ordinaryNanos_of_lt (h : i.nanos < billion) : i.ordinaryNanos = i.nanos := if_pos h

theorem ordinaryNanos_of_le (h : billion ≤ i.nanos) : i.ordinaryNanos = i.nanos - billion :=
  if_neg (Nat.not_lt.mpr h)

theorem shift_within {n : Nat} (hleap : billion ≤ i.nanos) (hn : i.nanos + n < 2 * billion) :
    i.shift n = ⟨i.seconds, i.nanos + n⟩ := by
  have hwhole : (n : Int).tdiv billion = 0 := by
    rw [Int.tdiv_eq_ediv_of_nonneg (Int.natCast_nonneg n)]
    simp only [billion] at *
    omega
  have hpart : (n : Int).tmod billion = n := by
    rw [Int.tmod_eq_emod_of_nonneg (Int.natCast_nonneg n)]
    simp only [billion] at *
    omega
  rw [shift, hwhole, hpart, if_pos ⟨hleap, rfl, by omega⟩]
  simp only [mk.injEq, true_and]
  omega

theorem shift_beyond {n : Nat} (hlt : i.nanos < 2 * billion)
    (hn : i.nanos < billion ∨ 2 * billion ≤ i.nanos + n) :
    i.shift n = ⟨i.seconds + ((i.ordinaryNanos + n : Nat) : Int) / billion,
      (i.ordinaryNanos + n) % billion⟩ := by
  have hwhole : (n : Int).tdiv billion = (n : Int) / billion :=
    Int.tdiv_eq_ediv_of_nonneg (Int.natCast_nonneg n)
  have hpart : (n : Int).tmod billion = (n : Int) % billion :=
    Int.tmod_eq_emod_of_nonneg (Int.natCast_nonneg n)
  rw [shift, hwhole, hpart]
  dsimp only
  rw [if_neg (by simp only [billion] at *; omega), ordinaryNanos]
  by_cases hordinary : i.nanos < billion
  · simp only [if_pos hordinary, mk.injEq]
    simp only [billion] at *
    omega
  · have hforward : ¬(n : Int) / billion < 0 := by
      simp only [billion] at *
      omega
    simp only [if_neg hordinary, if_neg hforward, mk.injEq]
    simp only [billion] at *
    omega

/-- Moving forward never arrives in a leap second that it has not begun in. -/
theorem shift_cases (h : i.IsValid) (n : Nat) :
    (billion ≤ i.nanos ∧ i.nanos + n < 2 * billion ∧ i.shift n = ⟨i.seconds, i.nanos + n⟩) ∨
      ((i.nanos < billion ∨ 2 * billion ≤ i.nanos + n) ∧
        i.shift n = ⟨i.seconds + ((i.ordinaryNanos + n : Nat) : Int) / billion,
          (i.ordinaryNanos + n) % billion⟩) := by
  by_cases hleap : billion ≤ i.nanos ∧ i.nanos + n < 2 * billion
  · exact .inl ⟨hleap.1, hleap.2, shift_within hleap.1 hleap.2⟩
  · have hn : i.nanos < billion ∨ 2 * billion ≤ i.nanos + n := by omega
    exact .inr ⟨hn, shift_beyond h.nanos_lt hn⟩

theorem shift_lt_shift (h : i.IsValid) {a b : Nat} (hlt : a < b) : i.shift a < i.shift b := by
  have hn := h.nanos_lt
  rcases shift_cases h a with ⟨hleap, ha, hshift⟩ | ⟨ha, hshift⟩
  · rcases shift_cases h b with ⟨-, hb, hshift'⟩ | ⟨hb, hshift'⟩
    · rw [hshift, hshift', lt_def]
      exact .inr ⟨rfl, Nat.add_lt_add_left hlt _⟩
    · rw [hshift, hshift', lt_def, ordinaryNanos_of_le hleap]
      refine .inl ?_
      simp only [billion] at *
      omega
  · rcases shift_cases h b with ⟨hleap, hb, -⟩ | ⟨hb, hshift'⟩
    · simp only [billion] at *
      omega
    · rw [hshift, hshift', lt_def]
      simp only [billion] at *
      omega

theorem shift_zero (h : i.IsValid) : i.shift 0 = i := by
  rcases shift_cases h 0 with ⟨-, -, hshift⟩ | ⟨hn, hshift⟩
  · exact hshift
  · have hordinary : i.nanos < billion := by
      have hlt := h.nanos_lt
      omega
    refine hshift.trans ?_
    obtain ⟨seconds, nanos⟩ := i
    rw [ordinaryNanos_of_lt hordinary, mk.injEq]
    simp only [billion] at *
    omega

theorem shift_le_shift (h : i.IsValid) {a b : Nat} (hle : a ≤ b) : i.shift a ≤ i.shift b := by
  rcases Nat.eq_or_lt_of_le hle with rfl | hlt
  · exact le_refl _
  · exact le_of_lt (shift_lt_shift h hlt)

theorem le_shift (h : i.IsValid) (n : Nat) : i ≤ i.shift n := by
  have hle := shift_le_shift h (Nat.zero_le n)
  rw [Int.natCast_zero, shift_zero h] at hle
  exact hle

theorem shift_shift (h : i.IsValid) (a b : Nat) : (i.shift a).shift b = i.shift (a + b : Nat) := by
  have hn := h.nanos_lt
  rcases shift_cases h a with ⟨hleap, ha, hshift⟩ | ⟨ha, hshift⟩
  · let k : Instant := ⟨i.seconds, i.nanos + a⟩
    have hsum : k.nanos = i.nanos + a := rfl
    have hk : billion ≤ k.nanos := Nat.le_add_right_of_le hleap
    rw [hshift]
    change k.shift b = _
    by_cases hb : k.nanos + b < 2 * billion
    · rw [shift_within hk hb, shift_within hleap (by omega)]
      simp only [k, mk.injEq, true_and]
      omega
    · rw [shift_beyond ha (.inr (Nat.not_lt.mp hb)), shift_beyond hn (.inr (by omega)),
        ordinaryNanos_of_le hk, ordinaryNanos_of_le hleap]
      simp only [k, billion, mk.injEq] at *
      omega
  · let k : Instant := ⟨i.seconds + ((i.ordinaryNanos + a : Nat) : Int) / billion,
      (i.ordinaryNanos + a) % billion⟩
    have hk : k.nanos < billion := Nat.mod_lt _ (by decide)
    rw [hshift]
    change k.shift b = _
    rw [shift_beyond (by omega) (.inl hk), shift_beyond hn (by omega), ordinaryNanos_of_lt hk]
    simp only [k, billion, mk.injEq] at *
    omega

/-- Moving forward by one length keeps the order of instants outside of leap seconds. -/
theorem shift_lt_shift_iff (hi : i.nanos < billion) (hj : j.nanos < billion) (n : Nat) :
    i.shift n < j.shift n ↔ i < j := by
  have hi' : i.nanos < 2 * billion := by omega
  have hj' : j.nanos < 2 * billion := by omega
  rw [shift_beyond hi' (.inl hi), shift_beyond hj' (.inl hj), lt_def, lt_def,
    ordinaryNanos_of_lt hi, ordinaryNanos_of_lt hj]
  simp only [billion] at *
  omega

theorem isInRange_iff_le_last (hi : i.IsValid) (hordinary : i.nanos < billion) (n : Nat) :
    (i.shift n).isInRange = true ↔ i.shift n ≤ last := by
  have hle := le_shift hi n
  have hrange := hi.inRange
  rw [shift_beyond hi.nanos_lt (.inl hordinary)] at hle ⊢
  simp only [isInRange, Bool.and_eq_true, decide_eq_true_eq] at hrange ⊢
  rw [le_def] at hle ⊢
  simp only [last, billion] at *
  omega

theorem after?_eq {s : Span} (h : i.after? s = some j) :
    j = i.shift s.nanos ∧ s ≤ greatestShift := by
  simp only [after?] at h
  split at h
  · next hle =>
    split at h
    · exact ⟨(Option.some.inj h).symm, hle⟩
    · cases h
  · cases h

theorem IsValid.le_after? (hi : i.IsValid) {s : Span} (h : i.after? s = some j) : i ≤ j := by
  rw [(after?_eq h).1]
  exact le_shift hi s.nanos

theorem after?_of_lt_last (hi : i.IsValid) {s : Span} (hs : s ≤ greatestShift)
    (hlt : i.shift s.nanos < last) : i.after? s = some (i.shift s.nanos) := by
  have hle := le_shift hi s.nanos
  have hrange := hi.inRange
  rw [lt_def] at hlt
  rw [le_def] at hle
  simp only [isInRange, Bool.and_eq_true, decide_eq_true_eq] at hrange
  have hin : (i.shift s.nanos).isInRange = true := by
    simp only [isInRange, Bool.and_eq_true, decide_eq_true_eq]
    simp only [last] at hlt
    omega
  simp only [after?, if_pos hs, hin, if_true]

theorem shift_neg {n : Nat} (hn : billion ≤ n ∨ i.nanos < billion) :
    i.shift (-(n : Int)) = ⟨(i.seconds * billion + i.nanos - n) / billion,
      ((i.seconds * billion + i.nanos - n) % billion).toNat⟩ := by
  have hwhole : (-(n : Int)).tdiv billion = -((n : Int) / billion) := by
    rw [Int.neg_tdiv, Int.tdiv_eq_ediv_of_nonneg (Int.natCast_nonneg n)]
  have hpart : (-(n : Int)).tmod billion = -((n : Int) % billion) := by
    rw [Int.neg_tmod, Int.tmod_eq_emod_of_nonneg (Int.natCast_nonneg n)]
  have hleaves : ¬(billion ≤ i.nanos ∧ -((n : Int) / billion) = 0 ∧
      ¬(0 < -((n : Int) % billion) ∧ 2 * (billion : Int) ≤ i.nanos + -((n : Int) % billion))) := by
    simp only [billion] at *
    omega
  rw [shift, hwhole, hpart]
  dsimp only
  rw [if_neg hleaves]
  by_cases hordinary : i.nanos < billion
  · simp only [if_pos hordinary, mk.injEq]
    simp only [billion] at *
    omega
  · have hback : -((n : Int) / billion) < 0 := by
      simp only [billion] at *
      omega
    simp only [if_neg hordinary, if_pos hback, mk.injEq]
    simp only [billion] at *
    omega

theorem shift_neg_within {n : Nat} (hleap : billion ≤ i.nanos) (hn : n < billion) :
    i.shift (-(n : Int)) = ⟨i.seconds, i.nanos - n⟩ := by
  have hwhole : (-(n : Int)).tdiv billion = 0 := by
    rw [Int.neg_tdiv, Int.tdiv_eq_ediv_of_nonneg (Int.natCast_nonneg n)]
    simp only [billion] at *
    omega
  have hpart : (-(n : Int)).tmod billion = -(n : Int) := by
    rw [Int.neg_tmod, Int.tmod_eq_emod_of_nonneg (Int.natCast_nonneg n)]
    simp only [billion] at *
    omega
  rw [shift, hwhole, hpart, if_pos ⟨hleap, rfl, by omega⟩]
  simp only [mk.injEq, true_and]
  omega

theorem ordinaryNanos_lt (h : i.IsValid) : i.ordinaryNanos < billion := by
  have hn := h.nanos_lt
  rcases Nat.lt_or_ge i.nanos billion with hlt | hge
  · rw [ordinaryNanos_of_lt hlt]
    exact hlt
  · rw [ordinaryNanos_of_le hge]
    omega

theorem ordinaryNanos_le (i : Instant) : i.ordinaryNanos ≤ i.nanos := by
  rcases Nat.lt_or_ge i.nanos billion with hlt | hge
  · exact Nat.le_of_eq (ordinaryNanos_of_lt hlt)
  · rw [ordinaryNanos_of_le hge]
    exact Nat.sub_le _ _

/-- What is more than `m` before the end is still before it less than `m` later. An end in a leap
second needs a start there: it is not reached from before. -/
theorem shift_lt_of_lt_shift_neg {start now : Instant} (hi : i.IsValid) (hnow : now.IsValid)
    (hle : start ≤ now)
    (hend : i.nanos < billion ∨ start.seconds = i.seconds ∧ billion ≤ start.nanos)
    {m f : Nat} (hf : f < m) (hlt : now < i.shift (-(m : Int))) : now.shift f < i := by
  have hlong := hi.nanos_lt
  rw [lt_def] at hlt ⊢
  rw [le_def] at hle
  rcases hend with hordinary | ⟨hseconds, hleap⟩
  · rw [shift_neg (.inr hordinary)] at hlt
    rcases shift_cases hnow f with ⟨hin, -, hshift⟩ | ⟨-, hshift⟩
    · rw [hshift]
      simp only [billion] at *
      omega
    · have hcount := ordinaryNanos_lt hnow
      have hcount' := ordinaryNanos_le now
      rw [hshift]
      simp only [billion] at *
      omega
  · rcases Nat.lt_or_ge m billion with hm | hm
    · rcases Nat.lt_or_ge i.nanos billion with hi | hi
      · rw [shift_neg (.inr hi)] at hlt
        simp only [billion] at *
        omega
      · rw [shift_neg_within hi hm] at hlt
        dsimp only at hlt
        rw [shift_within (by omega) (by omega)]
        dsimp only
        omega
    · rw [shift_neg (.inl hm)] at hlt
      simp only [billion] at *
      omega

theorem after?_ordinary (hi : i.IsValid) {s : Span} (h : i.after? s = some j) :
    j.nanos < billion ∨ i.seconds = j.seconds ∧ billion ≤ i.nanos := by
  rw [(after?_eq h).1]
  rcases shift_cases hi s.nanos with ⟨hleap, -, hshift⟩ | ⟨-, hshift⟩
  · rw [hshift]
    exact .inr ⟨rfl, hleap⟩
  · rw [hshift]
    exact .inl (Nat.mod_lt _ (by decide))

theorem le_greatestShift_of_inRange (hi : i.IsValid) {n : Nat}
    (hin : (i.shift n).isInRange = true) : n ≤ greatestShift.nanos := by
  have hstart := isInRange_iff.mp hi.inRange
  have hend := isInRange_iff.mp hin
  rw [nanos_greatestShift]
  rcases shift_cases hi n with ⟨hleap, hn, -⟩ | ⟨-, hshift⟩
  · simp only [billion] at hleap hn
    omega
  · rw [hshift] at hend
    simp only [billion] at hend
    omega

/-- Moving forward and part of the way back. The way back knows of no leap second, so it can pass
the start if that lies in one. -/
theorem shift_shift_neg (hi : i.IsValid) {m n : Nat} (hmn : m ≤ n) :
    (i.shift n).shift (-(m : Int)) = i.shift (n - m : Nat) ∨
      billion ≤ i.nanos ∧ ((i.shift n).shift (-(m : Int))).seconds = i.seconds ∧
        ((i.shift n).shift (-(m : Int))).nanos < billion := by
  have hlt := hi.nanos_lt
  rcases shift_cases hi n with ⟨hleap, hn, hshift⟩ | ⟨hn, hshift⟩
  · have hm : m < billion := by omega
    rw [hshift, shift_neg_within (Nat.le_add_right_of_le hleap) hm, shift_within hleap (by omega)]
    left
    simp only [mk.injEq, true_and]
    omega
  · have hmod : (i.shift n).nanos < billion := by
      rw [hshift]
      exact Nat.mod_lt _ (by decide)
    rw [shift_neg (.inr hmod), hshift]
    by_cases hout : i.nanos < billion ∨ 2 * billion ≤ i.nanos + (n - m)
    · left
      rw [shift_beyond hlt hout]
      simp only [billion, mk.injEq] at *
      omega
    · right
      have hcount := ordinaryNanos_of_le (i := i) (by omega)
      simp only [billion] at *
      omega

/-- The end of a length of time less part of it comes after its start, unless that is in a leap
second. -/
theorem before?_shift (hi : i.IsValid) {whole part : Span} (hle : part ≤ whole)
    (hin : (i.shift whole.nanos).isInRange = true) :
    ∃ due, (i.shift whole.nanos).before? part = some due ∧ due ≤ i.shift whole.nanos ∧
      (due = i.shift (whole.sub part).nanos ∨ billion ≤ i.nanos ∧ due < i) := by
  have hpart : part.min greatestShift = part :=
    congrArg Span.mk (Nat.min_eq_left (Nat.le_trans hle (le_greatestShift_of_inRange hi hin)))
  have hlong : (i.shift whole.nanos).nanos < 2 * billion := by
    have hn := nanos_shift hi whole.nanos
    simp only [billion] at *
    omega
  have hback := shift_neg_le hlong part.nanos
  have hcases := shift_shift_neg hi hle
  generalize hdue : (i.shift whole.nanos).shift (-(part.nanos : Int)) = due at hback hcases
  have hseconds : i.seconds ≤ due.seconds := by
    rcases hcases with rfl | ⟨-, hsame, -⟩
    · have hfrom := le_shift hi (whole.nanos - part.nanos)
      rw [le_def] at hfrom
      omega
    · omega
  have hrange : due.isInRange = true := by
    have hstart := hi.inRange
    simp only [isInRange, Bool.and_eq_true, decide_eq_true_eq] at hstart hin ⊢
    rw [le_def] at hback
    omega
  refine ⟨due, ?_, hback, ?_⟩
  · simp only [before?, hpart, hdue, hrange, if_true]
  · rcases hcases with hforward | ⟨hleap, hsame, hordinary⟩
    · exact .inl hforward
    · refine .inr ⟨hleap, (lt_def _ _).mpr (.inr ⟨hsame, ?_⟩)⟩
      omega

-- there and back again from a leap second, and half a second short of the start
example : (shift ⟨59, 1000000000⟩ 1500000000).before? (.ofSeconds 1) = some ⟨59, 500000000⟩ := by
  decide

theorem ordinaryNanos_cases (i : Instant) :
    (i.nanos < billion ∧ i.ordinaryNanos = i.nanos) ∨
      (billion ≤ i.nanos ∧ i.ordinaryNanos + billion = i.nanos) := by
  rcases Nat.lt_or_ge i.nanos billion with hordinary | hleap
  · exact .inl ⟨hordinary, ordinaryNanos_of_lt hordinary⟩
  · refine .inr ⟨hleap, ?_⟩
    rw [ordinaryNanos_of_le hleap]
    exact Nat.sub_add_cancel hleap

theorem isValid_shift_of_le (hi : i.IsValid) (hj : j.IsValid) {n : Nat} (hle : i.shift n ≤ j) :
    (i.shift n).IsValid := by
  refine ⟨?_, nanos_shift hi n⟩
  have hstart := hi.inRange
  have hend := hj.inRange
  have hfrom := le_shift hi n
  rw [le_def] at hle hfrom
  simp only [isInRange, Bool.and_eq_true, decide_eq_true_eq] at hstart hend ⊢
  omega

/-- An instant outside of leap seconds is reached from every earlier one. -/
theorem exists_shift (hi : i.IsValid) (hj : j.nanos < billion) (hlt : i < j) :
    ∃ n : Nat, j = i.shift n := by
  have hcount := ordinaryNanos_cases i
  have hcount_lt := ordinaryNanos_lt hi
  rw [lt_def] at hlt
  have hle : 0 ≤ (j.seconds - i.seconds) * billion + j.nanos - i.ordinaryNanos := by
    simp only [billion] at *
    omega
  obtain ⟨n, hn⟩ := Int.eq_ofNat_of_zero_le hle
  have hbeyond : i.nanos < billion ∨ 2 * billion ≤ i.nanos + n := by
    simp only [billion] at *
    omega
  refine ⟨n, ?_⟩
  rw [shift_beyond hi.nanos_lt hbeyond]
  obtain ⟨seconds, nanos⟩ := j
  simp only [mk.injEq]
  simp only [billion] at *
  omega

theorem sub_le (hj : j.nanos < billion) :
    j.sub i ≤ (j.seconds - i.seconds) * billion + j.nanos - i.ordinaryNanos := by
  have hcount := ordinaryNanos_cases i
  simp only [sub, dayOf, secondOfDay, secondsPerDay]
  split_ifs
  all_goals
    simp only [billion] at *
    omega

/-- The clock tells no more than the time that is left. It tells less when a leap second at the end
of a day is part of it. -/
theorem since_shift_le (hi : i.IsValid) {n : Nat} (hj : (i.shift n).nanos < billion) :
    ((i.shift n).since i).nanos ≤ n := by
  have hsub := sub_le (i := i) hj
  rcases shift_cases hi n with ⟨hleap, -, hshift⟩ | ⟨-, hshift⟩
  · rw [hshift] at hj
    dsimp only at hj
    omega
  · rw [since]
    generalize (i.shift n).sub i = d at hsub
    rw [hshift] at hsub
    simp only [billion] at hsub
    dsimp only
    omega

end Instant

/-- So many nanoseconds later, on both clocks. -/
def Moment.later (t : Moment) (n : Nat) : Moment := ⟨t.elapsed.add ⟨n⟩, t.wall.shift n⟩

theorem Moment.later_zero {t : Moment} (ht : t.wall.IsValid) : t.later 0 = t := by
  have hwall := Instant.shift_zero ht
  rw [later, Int.natCast_zero, hwall]
  rfl

theorem Moment.later_later {t : Moment} (ht : t.wall.IsValid) (a b : Nat) :
    (t.later a).later b = t.later (a + b) := by
  have hwall := Instant.shift_shift ht a b
  simp only [later, Span.add, hwall, Nat.add_assoc]

namespace LockOptions

theorem refreshMargin_le {o : LockOptions} {margin : Span} (h : o.refreshMargin? = some margin) :
    margin.nanos ≤ o.acquiredFor.nanos := by
  obtain ⟨s, -, rfl⟩ := Option.map_eq_some_iff.mp h
  exact Nat.min_le_right _ _

/-- A lease ends with its length, unless the calendar ends before. -/
theorem leaseEnd_eq {o : LockOptions} (hs : o.acquiredFor ≤ Instant.greatestShift) (now : Instant) :
    o.leaseEnd now = if (now.shift o.acquiredFor.nanos).isInRange then
      now.shift o.acquiredFor.nanos else .last := by
  simp only [leaseEnd, Instant.after?, if_pos hs]
  split
  · rfl
  · rfl

theorem leaseEnd_eq_min {o : LockOptions} (hs : o.acquiredFor ≤ Instant.greatestShift)
    {now : Instant} (hnow : now.IsValid) (hordinary : now.nanos < Instant.billion) :
    o.leaseEnd now = min (now.shift o.acquiredFor.nanos) Instant.last := by
  have hrange := Instant.isInRange_iff_le_last hnow hordinary o.acquiredFor.nanos
  rw [leaseEnd_eq hs]
  split
  · next hin => exact (min_eq_left (hrange.mp hin)).symm
  · next hout => exact (min_eq_right (le_of_not_ge fun hle => hout (hrange.mpr hle))).symm

/-- Of two leases the one taken later ends later, unless both reach to the last instant. -/
theorem leaseEnd_lt_iff (o : LockOptions) {a b : Instant} (ha : a.IsValid) (hb : b.IsValid)
    (ha' : a.nanos < Instant.billion) (hb' : b.nanos < Instant.billion) :
    o.leaseEnd a < o.leaseEnd b ↔ a < b ∧ o.leaseEnd a ≠ Instant.last := by
  by_cases hs : o.acquiredFor ≤ Instant.greatestShift
  · have horder := Instant.shift_lt_shift_iff ha' hb' o.acquiredFor.nanos
    rw [leaseEnd_eq_min hs ha ha', leaseEnd_eq_min hs hb hb', ← horder]
    generalize a.shift o.acquiredFor.nanos = i, b.shift o.acquiredFor.nanos = j
    constructor
    · intro hlt
      have hlast : min i Instant.last < Instant.last := lt_of_lt_of_le hlt (min_le_right _ _)
      refine ⟨?_, ne_of_lt hlast⟩
      by_contra hge
      exact absurd hlt (not_lt_of_ge (inf_le_inf_right _ (le_of_not_gt hge)))
    · rintro ⟨hlt, hne⟩
      have hi : i < Instant.last := by
        by_contra hge
        exact hne (min_eq_right (le_of_not_gt hge))
      rw [min_eq_left (le_of_lt hi)]
      exact lt_min hlt hi
  · have hend : ∀ now : Instant, o.leaseEnd now = Instant.last := by
      intro now
      simp only [leaseEnd, Instant.after?, if_neg hs]
      rfl
    rw [hend a, hend b]
    exact ⟨fun hlt => absurd hlt (lt_irrefl _), fun h => absurd rfl h.2⟩

/-- A lease that need not be extended yet outlasts any wait that is shorter than the margin. -/
theorem shift_lt_of_not_due {o : LockOptions} {start now expiry : Instant} (hstart : start.IsValid)
    (hnow : now.IsValid) (hle : start ≤ now) (hend : start.after? o.acquiredFor = some expiry)
    {margin wait : Span} (hmargin : o.refreshMargin? = some margin) (hwait : wait < margin)
    (hdue : o.refreshDue? expiry now = some false) : now.shift wait.nanos < expiry := by
  obtain ⟨-, hshort⟩ := Instant.after?_eq hend
  have hmin : (margin.min Instant.greatestShift) = margin := by
    have hle : margin.nanos ≤ Instant.greatestShift.nanos :=
      Nat.le_trans (refreshMargin_le hmargin) hshort
    exact congrArg Span.mk (Nat.min_eq_left hle)
  rw [refreshDue?, hmargin, Option.map_some, Option.some.injEq] at hdue
  split at hdue
  · cases hdue
  · next due hbefore =>
    have hlt : now < due := lt_of_not_ge (of_decide_eq_false hdue)
    simp only [Instant.before?, hmin] at hbefore
    split at hbefore
    · cases hbefore
      exact Instant.shift_lt_of_lt_shift_neg (hstart.after? hend) hnow hle
        (Instant.after?_ordinary hstart hend) hwait hlt
    · cases hbefore

end LockOptions

end MigrationLedger
