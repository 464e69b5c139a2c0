import MigrationLedger.Proofs.AnyStore
import MigrationLedger.Proofs.GrantedLease

/-! When a holder gives up. Whatever the store answers and however long it takes, no attempt to take
the lock begins after the time to quit, and the last one has its own time limit. So the call ends;
it gives up only after that time, and a fault that is not worth another attempt ends it at once. -/

namespace MigrationLedger

theorem Lease.ofItem_error {item : Item} {fault : LeaseFault} (h : ofItem item = .error fault) :
    ∃ reason, fault = .invalidRecord reason := by
  rw [ofItem] at h
  cases hdecode : decode item.withoutRevision with
  | ok l =>
    rw [hdecode] at h
    cases h
  | error flaw =>
    rw [hdecode] at h
    cases h
    exact ⟨_, rfl⟩

/-- The faults with which the table of locks itself ends a change. -/
def LeaseFault.isOfTable : LeaseFault → Bool
  | heldByOther .. | lost _ | invalidRecord _ | ledger _ => true
  | quitTrying .. | released _ | overflow => false

namespace LockTable

variable {κ : Type} {l : LockTable} {new : Lease} {t : Moment} {k : κ} {limit : Span}
  {p : Update.Phase LeaseFault Unit} {e : Response} {r : κ × Changing Unit}

theorem isOfTable_of_decideTake {now : Instant} {current : Option Lease} {fault : LeaseFault}
    (h : decideTake new now current = .stop (.error fault)) : fault.isOfTable = true := by
  cases current with
  | none => cases h
  | some current =>
    rw [decideTake] at h
    split at h
    · cases h
      rfl
    · cases h

theorem isOfTable_of_decideExtend {now : Instant} {current : Option Lease} {fault : LeaseFault}
    (h : decideExtend new now current = .stop (.error fault)) : fault.isOfTable = true := by
  cases current with
  | none =>
    cases h
    rfl
  | some current =>
    rw [decideExtend] at h
    split at h
    · cases h
      rfl
    · split at h
      · cases h
        rfl
      · cases h

/-- A change of a lock goes on, or succeeds, or fails for a reason of the table. -/
theorem change_fault {name key : String} {first : Update.Phase LeaseFault Unit}
    {decide : Instant → Option Lease → Verdict LeaseFault Unit}
    (hdecide : ∀ now current fault, decide now current = .stop (.error fault) →
      fault.isOfTable = true)
    (h : (l.within name first (l.leaseUpdate key decide).machine).machine.react? t k
      (.active () limit p) e = some r) :
    r.1 = k ∧ ((∃ p', r.2 = .active () limit p') ∨ r.2 = .ended (.ok ()) ∨
      ∃ fault, r.2 = .ended (.error fault) ∧ fault.isOfTable = true) := by
  rcases Bounded.react?_active h with ⟨⟨k', p'⟩, hq, rfl⟩ | rfl
  · obtain rfl := Update.react?_cell hq
    cases p' with
    | done answer =>
      refine ⟨rfl, .inr ?_⟩
      cases answer with
      | ok u => exact .inl rfl
      | error fault =>
        refine .inr ⟨fault, rfl, ?_⟩
        rcases Update.fault_of_react? hq rfl with ⟨f, rfl⟩ | ⟨read, hread⟩
        · rfl
        · simp only [leaseUpdate] at hread
          split at hread
          · exact hdecide _ _ _ hread
          · split at hread
            · next hlease =>
              obtain ⟨reason, rfl⟩ := Lease.ofItem_error hlease
              cases hread
              rfl
            · exact hdecide _ _ _ hread
    | _ => exact ⟨rfl, .inl ⟨_, rfl⟩⟩
  · exact ⟨rfl, .inr (.inr ⟨_, rfl, rfl⟩)⟩

theorem take_fault (h : (l.take new).machine.react? t k (.active () limit p) e = some r) :
    r.1 = k ∧ ((∃ p', r.2 = .active () limit p') ∨ r.2 = .ended (.ok ()) ∨
      ∃ fault, r.2 = .ended (.error fault) ∧ fault.isOfTable = true) :=
  change_fault (fun _ _ _ => isOfTable_of_decideTake) h

theorem extend_fault (h : (l.extend new).machine.react? t k (.active () limit p) e = some r) :
    r.1 = k ∧ ((∃ p', r.2 = .active () limit p') ∨ r.2 = .ended (.ok ()) ∨
      ∃ fault, r.2 = .ended (.error fault) ∧ fault.isOfTable = true) :=
  change_fault (fun _ _ _ => isOfTable_of_decideExtend) h

end LockTable

namespace Holder

def Acquiring.isAttempting : Acquiring → Bool
  | attempting .. => true
  | _ => false

variable {h : Holder} {started : Span} {t : Moment} {k : Hold} {s : Acquiring} {e : Response}

/-- What the attempt has come to that a reaction ends: the answer of the update of the record. -/
def ended? (h : Holder) (r : Reaction Hold Acquiring) : Option (Except LeaseFault Unit) :=
  match r.before with
  | .attempting _ lease inner =>
    ((h.locks.take lease).machine.react? r.time r.cell inner r.response).bind (·.2.answer?)
  | _ => none

inductive Deals (h : Holder) (started : Span) (r : Reaction Hold Acquiring) : Prop where
  | asks {lease : Lease} {limit : Span} {p p' : Update.Phase LeaseFault Unit}
      (hbefore : r.before = .attempting started lease (.active () limit p))
      (hended : h.ended? r = none)
      (hafter : r.after = .attempting started lease (.active () limit p'))
  | takes {lease : Lease} {inner : LockTable.Changing Unit}
      (hbefore : r.before = .attempting started lease inner) (hended : h.ended? r = some (.ok ()))
      (hafter : r.after = .done (h.noteLease r.cell lease.expiresAt).2)
  | fails {lease : Lease} {inner : LockTable.Changing Unit} (fault : LeaseFault)
      (hbefore : r.before = .attempting started lease inner)
      (hended : h.ended? r = some (.error fault))
      (hfault : ∀ key after, fault ≠ .quitTrying key after)
      (hafter : r.after = h.afterFailure r.time started fault)
  | begins {length : Span} (hbefore : r.before = .resting started length)
      (hresponse : r.response = .woken)
      (hafter : r.after = (h.attempt r.time r.cell started).2)
  | stops {length : Span} (hbefore : r.before = .resting started length)
      (hafter : r.after = .done (.error (.released h.key)))

theorem deals_attempting {lease : Lease} {limit : Span} {p : Update.Phase LeaseFault Unit}
    {q : Hold × Acquiring}
    (hq : h.acquire.machine.react? t k (.attempting started lease (.active () limit p)) e =
      some q) :
    h.Deals started ⟨t, k, .attempting started lease (.active () limit p), e, q.2⟩ := by
  rw [(encloses_take h started lease).react?] at hq
  obtain ⟨⟨k', inner⟩, hinner, rfl⟩ := Option.map_eq_some_iff.mp hq
  obtain ⟨hk, hcase⟩ := LockTable.take_fault hinner
  dsimp only at hk hcase
  subst hk
  have hended : h.ended? ⟨t, k', .attempting started lease (.active () limit p), e,
      (h.settleAttempt t started lease (k', inner)).2⟩ = inner.answer? := by
    simp only [ended?, hinner, Option.bind_some]
  rcases hcase with ⟨p', rfl⟩ | rfl | ⟨fault, rfl, hfault⟩
  · exact .asks rfl hended rfl
  · exact .takes rfl hended rfl
  · refine .fails fault rfl hended (fun key after hquit => ?_) rfl
    rw [hquit] at hfault
    cases hfault

theorem deals_resting {length : Span} {q : Hold × Acquiring}
    (hq : h.acquire.machine.react? t k (.resting started length) e = some q) :
    h.Deals started ⟨t, k, .resting started length, e, q.2⟩ := by
  cases e with
  | woken =>
    have hrest := Option.some.inj hq
    dsimp only at hrest
    split at hrest
    · subst hrest
      exact .stops rfl rfl
    · subst hrest
      exact .begins rfl rfl rfl
  | answered x => cases hq
  | expired => cases hq

/-- The shortest time between two attempts, unless the time to quit cuts it short. -/
def leastWait (h : Holder) : Nat :=
  min h.options.tryFrequency.nanos LockOptions.leastRetryWait.nanos

theorem leastWait_le (h : Holder) (fault : LeaseFault) (now : Instant) :
    h.leastWait ≤ (h.options.retryWait fault now).nanos := by
  have hfrequency : h.leastWait ≤ h.options.tryFrequency.nanos := Nat.min_le_left _ _
  cases fault with
  | heldByOther key owner expiry =>
    simp only [LockOptions.retryWait]
    split
    · exact Nat.le_trans (Nat.min_le_right _ _) (Nat.le_max_right _ _)
    · exact hfrequency
  | _ => exact hfrequency

/-- An attempt that begins at `b` as the `n`th one: not after the time to quit, and so late that the
waits before it have been no shorter than the shortest; only the wait that ends with the time to
quit may have been. -/
structure Paced (h : Holder) (started : Span) (n : Nat) (b : Span) : Prop where
  after : started.nanos ≤ b.nanos
  before : b.nanos ≤ started.nanos + h.options.quitTryingAfter.nanos
  waited : started.nanos + (n - 1) * h.leastWait ≤ b.nanos ∨
    b.nanos = started.nanos + h.options.quitTryingAfter.nanos ∧
      (n - 2) * h.leastWait ≤ h.options.quitTryingAfter.nanos

theorem Paced.few {n : Nat} {b : Span} (hb : h.Paced started n b) :
    (n - 2) * h.leastWait ≤ h.options.quitTryingAfter.nanos := by
  have hbefore := hb.before
  rcases hb.waited with hwaited | ⟨-, hfew⟩
  · have hfewer : (n - 2) * h.leastWait ≤ (n - 1) * h.leastWait :=
      Nat.mul_le_mul_right _ (Nat.sub_le_sub_left (by decide) n)
    omega
  · exact hfew

theorem Paced.next {n : Nat} {b : Span} (hb : h.Paced started n b) (hn : 1 ≤ n) {fault : LeaseFault}
    (hle : b ≤ t.elapsed) (hearly : ¬started.add h.options.quitTryingAfter ≤ t.elapsed) :
    h.Paced started (n + 1) (t.elapsed.add ((h.options.retryWait fault t.wall).min
      ((started.add h.options.quitTryingAfter).sub t.elapsed))) := by
  have hleast := h.leastWait_le fault t.wall
  have hafter := hb.after
  have hnow : b.nanos ≤ t.elapsed.nanos := hle
  have hlt : t.elapsed.nanos < started.nanos + h.options.quitTryingAfter.nanos :=
    Nat.lt_of_not_le hearly
  have hwaited : started.nanos + (n - 1) * h.leastWait ≤ b.nanos := by
    rcases hb.waited with hwaited | ⟨hlast, -⟩
    · exact hwaited
    · omega
  have hmore : n * h.leastWait = (n - 1) * h.leastWait + h.leastWait := by
    rw [← Nat.succ_mul, Nat.succ_eq_add_one, Nat.sub_add_cancel hn]
  generalize h.options.retryWait fault t.wall = wait at hleast
  let next : Span :=
    t.elapsed.add (wait.min ((started.add h.options.quitTryingAfter).sub t.elapsed))
  have hnext : next.nanos = t.elapsed.nanos +
      min wait.nanos (started.nanos + h.options.quitTryingAfter.nanos - t.elapsed.nanos) := rfl
  refine ⟨?_, ?_, ?_⟩
  · change started.nanos ≤ next.nanos
    omega
  · change next.nanos ≤ _
    omega
  · change started.nanos + n * h.leastWait ≤ next.nanos ∨
      next.nanos = _ ∧ (n - 1) * h.leastWait ≤ _
    omega

/-- Where the taking of a lock stands that has begun at `started`, when the `n`th attempt was the
last one to begin. -/
def Stage (h : Holder) (started : Span) (n : Nat) (w : Stand Hold Acquiring) : Prop :=
  match w.state with
  | .attempting s _ inner => s = started ∧ 1 ≤ n ∧ ∃ b p,
      inner = .active () (b.add h.locks.options.operationTimeout) p ∧ h.Paced started n b ∧
        b ≤ w.clock.elapsed ∧ w.clock.elapsed ≤ b.add h.locks.options.operationTimeout
  | .resting s length => s = started ∧ 1 ≤ n ∧ h.Paced started (n + 1) (w.since.add length) ∧
      w.clock.elapsed ≤ w.since.add length
  | .done _ => True

variable {n : Nat} {w w' : Stand Hold Acquiring} {r : Reaction Hold Acquiring}

theorem Stage.bide (hw : h.Stage started n w) (hbide : h.acquire.machine.Bides w w') :
    h.Stage started n w' := by
  obtain ⟨clock, k, state, since⟩ := w
  cases hbide with
  | intro t k' hle hdue =>
    cases state with
    | attempting s lease inner =>
      obtain ⟨rfl, hn, b, p, rfl, hpaced, hbegun, -⟩ := hw
      exact ⟨rfl, hn, b, p, rfl, hpaced, Nat.le_trans hbegun hle, hdue _ (.inl rfl)⟩
    | resting s length =>
      obtain ⟨rfl, hn, hpaced, -⟩ := hw
      exact ⟨rfl, hn, hpaced, hdue _ (.inr ⟨_, _, rfl, rfl⟩)⟩
    | done answer => trivial

/-- The taking of a lock lasts no longer than it tries and one time limit more. -/
theorem Stage.elapsed_le (hw : h.Stage started n w) (hdone : ∀ answer, w.state ≠ .done answer) :
    w.clock.elapsed.nanos ≤ started.nanos + h.options.quitTryingAfter.nanos +
      h.locks.options.operationTimeout.nanos := by
  obtain ⟨clock, k, state, since⟩ := w
  cases state with
  | attempting s lease inner =>
    obtain ⟨-, -, b, p, -, hpaced, -, hlimit⟩ := hw
    have hbefore := hpaced.before
    have hle : clock.elapsed.nanos ≤ b.nanos + h.locks.options.operationTimeout.nanos := hlimit
    dsimp only
    omega
  | resting s length =>
    obtain ⟨-, -, hpaced, hrest⟩ := hw
    have hbefore := hpaced.before
    have hle : clock.elapsed.nanos ≤ (since.add length).nanos := hrest
    dsimp only at hbefore ⊢
    omega
  | done answer => exact absurd rfl (hdone answer)

theorem afterFailure_inv (h : Holder) (t : Moment) (started : Span) (fault : LeaseFault) :
    (fault.isRetryable = false ∧ h.afterFailure t started fault = .done (.error fault)) ∨
      fault.isRetryable = true ∧ (h.afterFailure t started fault = .done (.error .overflow) ∨
        (started.add h.options.quitTryingAfter ≤ t.elapsed ∧ h.afterFailure t started fault =
          .done (.error (.quitTrying h.key (t.elapsed.sub started)))) ∨
        (¬started.add h.options.quitTryingAfter ≤ t.elapsed ∧ h.afterFailure t started fault =
          .resting started ((h.options.retryWait fault t.wall).min
            ((started.add h.options.quitTryingAfter).sub t.elapsed)))) := by
  cases hfault : fault.isRetryable with
  | false => exact .inl ⟨rfl, by simp [afterFailure, hfault]⟩
  | true =>
    refine .inr ⟨rfl, ?_⟩
    by_cases hquit : h.options.quitAt? started = none
    · exact .inl (by simp [afterFailure, hfault, hquit])
    · by_cases hlate : started.add h.options.quitTryingAfter ≤ t.elapsed
      · exact .inr (.inl ⟨hlate, afterFailure_late hfault hquit hlate⟩)
      · exact .inr (.inr ⟨hlate, afterFailure_early hfault hquit hlate⟩)

def begun? (r : Reaction Hold Acquiring) : Option Span :=
  if !r.before.isAttempting && r.after.isAttempting then some r.time.elapsed else none

structure Dealt (h : Holder) (started : Span) (w : Stand Hold Acquiring)
    (r : Reaction Hold Acquiring) (w' : Stand Hold Acquiring) : Prop where
  deals : h.Deals started r
  time : r.time = w.clock
  before : r.before = w.state
  waits : ∀ answer, w.state ≠ .done answer
  after : w'.state = r.after

theorem Stage.dealt (hw : h.Stage started n w) (hr : h.acquire.machine.Reacts w r w') :
    h.Dealt started w r w' := by
  obtain ⟨clock, k, state, since⟩ := w
  cases hr with
  | intro e k' s hwoken hexpired hreact =>
    cases state with
    | attempting s lease inner =>
      obtain ⟨rfl, -, b, p, rfl, -⟩ := hw
      refine ⟨deals_attempting hreact, rfl, rfl, fun answer hdone => ?_, rfl⟩
      cases hdone
    | resting s length =>
      obtain ⟨rfl, -⟩ := hw
      refine ⟨deals_resting hreact, rfl, rfl, fun answer hdone => ?_, rfl⟩
      cases hdone
    | done answer => cases e <;> cases hreact

theorem Stage.react (hw : h.Stage started n w) (hr : h.acquire.machine.Reacts w r w') :
    h.Stage started (n + (begun? r).toList.length) w' := by
  have hdeals := (hw.dealt hr).deals
  obtain ⟨clock, k, state, since⟩ := w
  cases hr with
  | intro e k' s hwoken hexpired hreact =>
    cases hdeals with
    | asks hbefore hended hafter =>
      dsimp only at hbefore hafter
      subst hbefore hafter
      obtain ⟨-, hn, b, p, hinner, hpaced, hbegun, hlimit⟩ := hw
      cases hinner
      exact ⟨rfl, hn, b, _, rfl, hpaced, hbegun, hlimit⟩
    | takes hbefore hended hafter =>
      dsimp only at hafter
      subst hafter
      trivial
    | fails fault hbefore hended hfault hafter =>
      dsimp only at hbefore hafter
      subst hbefore
      obtain ⟨-, hn, b, p, -, hpaced, hbegun, -⟩ := hw
      rcases h.afterFailure_inv clock started fault with
        ⟨-, hdone⟩ | ⟨-, hdone | ⟨-, hdone⟩ | ⟨hearly, hrest⟩⟩
      · rw [hdone] at hafter
        subst hafter
        trivial
      · rw [hdone] at hafter
        subst hafter
        trivial
      · rw [hdone] at hafter
        subst hafter
        trivial
      · rw [hrest] at hafter
        subst hafter
        exact ⟨rfl, hn, hpaced.next hn hbegun hearly, Nat.le_add_right _ _⟩
    | begins hbefore hresponse hafter =>
      dsimp only at hbefore hresponse hafter
      subst hbefore hresponse hafter
      obtain ⟨-, hn, hpaced, hrest⟩ := hw
      -- a rest that is neither cut short nor overslept ends just when it should
      have hover := hwoken rfl _ _ rfl
      have hnow : clock.elapsed = since.add _ := congrArg Span.mk (Nat.le_antisymm hrest hover)
      rw [← hnow] at hpaced
      exact ⟨rfl, Nat.le_add_left _ _, clock.elapsed, .reading 0, rfl, hpaced, Nat.le_refl _,
        Nat.le_add_right _ _⟩
    | stops hbefore hafter =>
      dsimp only at hafter
      subst hafter
      trivial

/-- Only the end of a rest lets an attempt begin, and no rest ends after the time to quit. -/
theorem Stage.begun_le (hw : h.Stage started n w) (hr : h.acquire.machine.Reacts w r w') {b : Span}
    (hb : begun? r = some b) : b ≤ started.add h.options.quitTryingAfter := by
  obtain ⟨hdeals, htime, hwait, -, -⟩ := hw.dealt hr
  rw [begun?] at hb
  cases hdeals with
  | begins hbefore hresponse hafter =>
    simp only [hbefore, hafter, Acquiring.isAttempting, attempt, htime] at hb
    cases hb
    rw [hbefore] at hwait
    obtain ⟨clock, k, state, since⟩ := w
    dsimp only at hwait
    subst hwait
    obtain ⟨-, -, hpaced, hrest⟩ := hw
    exact Nat.le_trans hrest hpaced.before
  | asks hbefore hended hafter => simp [hbefore, Acquiring.isAttempting] at hb
  | takes hbefore hended hafter => simp [hbefore, Acquiring.isAttempting] at hb
  | fails fault hbefore hended hfault hafter => simp [hbefore, Acquiring.isAttempting] at hb
  | stops hbefore hafter => simp [hafter, Acquiring.isAttempting] at hb

theorem Stage.few (hw : h.Stage started n w) (hattempting : w.state.isAttempting = true) :
    (n - 2) * h.leastWait ≤ h.options.quitTryingAfter.nanos := by
  obtain ⟨clock, k, state, since⟩ := w
  cases state with
  | attempting s lease inner =>
    obtain ⟨-, -, b, p, -, hpaced, -⟩ := hw
    exact hpaced.few
  | resting s length => cases hattempting
  | done answer => cases hattempting

def acquireAt (h : Holder) (t : Moment) (k : Hold) : Stand Hold Acquiring :=
  ⟨t, (h.acquire.start t k).1, (h.acquire.start t k).2, t.elapsed⟩

/-- The readings of the clock at which the attempts begin. -/
def attempts (v : Stand Hold Acquiring) (trail : List (Reaction Hold Acquiring)) : List Span :=
  (if v.state.isAttempting then [v.clock.elapsed] else []) ++ trail.filterMap begun?

theorem attempts_concat (v : Stand Hold Acquiring) (trail : List (Reaction Hold Acquiring))
    (r : Reaction Hold Acquiring) :
    attempts v (trail ++ [r]) = attempts v trail ++ (begun? r).toList := by
  rw [attempts, List.filterMap_append, ← List.append_assoc, ← attempts]
  cases hr : begun? r with
  | none => simp [hr]
  | some b => simp [hr]

/-- How a reaction gives up: it ends an attempt with a fault that is worth another one, but the time
to quit has come. -/
structure Quits (h : Holder) (started : Span) (r : Reaction Hold Acquiring) (key : String)
    (after : Span) : Prop where
  late : started.add h.options.quitTryingAfter ≤ r.time.elapsed
  failed : ∃ fault, h.ended? r = some (.error fault) ∧ fault.isRetryable = true
  key : key = h.key
  after : after = r.time.elapsed.sub started

/-- What the course of an attempt to take a lock keeps to. -/
structure Disciplined (h : Holder) (v : Stand Hold Acquiring)
    (trail : List (Reaction Hold Acquiring)) (w : Stand Hold Acquiring) : Prop where
  begun : ∀ b ∈ attempts v trail, b ≤ v.clock.elapsed.add h.options.quitTryingAfter
  few : ((attempts v trail).length - 2) * h.leastWait ≤ h.options.quitTryingAfter.nanos
  timely : ∀ r ∈ trail, r.time.elapsed ≤
    (v.clock.elapsed.add h.options.quitTryingAfter).add h.locks.options.operationTimeout
  quit : ∀ key after, w.state = .done (.error (.quitTrying key after)) →
    ∃ r, trail.getLast? = some r ∧ h.Quits v.clock.elapsed r key after
  refused : ∀ r ∈ trail, ∀ fault, h.ended? r = some (.error fault) → fault.isRetryable = false →
    trail.getLast? = some r ∧ w.state = .done (.error fault)

variable {v : Stand Hold Acquiring} {trail : List (Reaction Hold Acquiring)}

theorem Dealt.quits (hd : h.Dealt started w r w') {key : String} {after : Span}
    (hquit : w'.state = .done (.error (.quitTrying key after))) : h.Quits started r key after := by
  have hafter := hd.after.symm.trans hquit
  cases hd.deals with
  | asks hbefore hended hnext => cases hnext.symm.trans hafter
  | @takes lease inner hbefore hended hnext =>
    have hnote := Acquiring.done.inj (hnext.symm.trans hafter)
    rw [noteLease] at hnote
    split at hnote
    · cases hnote
    · cases hnote
  | fails fault hbefore hended hfault hnext =>
    rcases h.afterFailure_inv r.time started fault with
      ⟨-, hdone⟩ | ⟨hretryable, hdone | ⟨hlate, hdone⟩ | ⟨-, hrest⟩⟩
    · cases hdone.symm.trans (hnext.symm.trans hafter)
      exact absurd rfl (hfault key after)
    · cases hdone.symm.trans (hnext.symm.trans hafter)
    · cases hdone.symm.trans (hnext.symm.trans hafter)
      exact ⟨hlate, ⟨fault, hended, hretryable⟩, rfl, rfl⟩
    · cases hrest.symm.trans (hnext.symm.trans hafter)
  | begins hbefore hresponse hnext => cases hnext.symm.trans hafter
  | stops hbefore hnext => cases hnext.symm.trans hafter

theorem Dealt.refused (hd : h.Dealt started w r w') {fault : LeaseFault}
    (hended : h.ended? r = some (.error fault)) (hfault : fault.isRetryable = false) :
    w'.state = .done (.error fault) := by
  rw [hd.after]
  cases hd.deals with
  | asks hbefore hnone hafter => cases hnone.symm.trans hended
  | takes hbefore hok hafter => cases hok.symm.trans hended
  | fails fault' hbefore hfailed hfault' hafter =>
    cases hfailed.symm.trans hended
    rcases h.afterFailure_inv r.time started fault with ⟨-, hdone⟩ | ⟨hretryable, -⟩
    · rw [hafter, hdone]
    · cases hfault.symm.trans hretryable
  | begins hbefore hresponse hafter => simp [ended?, hbefore] at hended
  | stops hbefore hafter => simp [ended?, hbefore] at hended

theorem Disciplined.react (hd : h.Disciplined v trail w)
    (hw : h.Stage v.clock.elapsed (attempts v trail).length w)
    (hr : h.acquire.machine.Reacts w r w') : h.Disciplined v (trail ++ [r]) w' := by
  have hdealt := hw.dealt hr
  have hlast : (trail ++ [r]).getLast? = some r := by simp
  refine ⟨fun b hb => ?_, ?_, fun r' hr' => ?_, fun key after hquit => ?_,
    fun r' hr' fault hended hfault => ?_⟩
  · rw [attempts_concat, List.mem_append, Option.mem_toList] at hb
    rcases hb with hb | hb
    · exact hd.begun b hb
    · exact hw.begun_le hr hb
  · have hstage := hw.react hr
    rw [attempts_concat, List.length_append]
    cases hb : begun? r with
    | none => exact hd.few
    | some b =>
      rw [hb] at hstage
      refine hstage.few ?_
      rw [begun?] at hb
      rw [hdealt.after]
      split at hb
      · next hbegun => exact (Bool.and_eq_true_iff.mp hbegun).2
      · cases hb
  · rcases List.mem_append.mp hr' with hr' | hr'
    · exact hd.timely r' hr'
    · cases List.mem_singleton.mp hr'
      rw [hdealt.time]
      exact hw.elapsed_le hdealt.waits
  · exact ⟨r, hlast, hdealt.quits hquit⟩
  · rcases List.mem_append.mp hr' with hr' | hr'
    · exact absurd (hd.refused r' hr' fault hended hfault).2 (hdealt.waits _)
    · cases List.mem_singleton.mp hr'
      exact ⟨hlast, hdealt.refused hended hfault⟩

theorem acquireAt_cases (h : Holder) (t : Moment) (k : Hold) :
    (∃ fault, (h.acquireAt t k).state = .done (.error fault) ∧
        ∀ key after, fault ≠ .quitTrying key after) ∨
      h.acquireAt t k =
        ⟨t, (h.attempt t k t.elapsed).1, (h.attempt t k t.elapsed).2, t.elapsed⟩ := by
  simp only [acquireAt, acquire]
  split
  · refine .inl ⟨_, rfl, fun key after hfault => ?_⟩
    cases hfault
  · split
    · refine .inl ⟨_, rfl, fun key after hfault => ?_⟩
      cases hfault
    · exact .inr rfl

theorem stage_attempt (h : Holder) (t : Moment) (k : Hold) :
    h.Stage t.elapsed 1
      ⟨t, (h.attempt t k t.elapsed).1, (h.attempt t k t.elapsed).2, t.elapsed⟩ := by
  have hpaced : h.Paced t.elapsed 1 t.elapsed := by
    refine ⟨Nat.le_refl _, Nat.le_add_right _ _, .inl ?_⟩
    simp
  exact ⟨rfl, Nat.le_refl 1, t.elapsed, .reading 0, rfl, hpaced, Nat.le_refl _,
    Nat.le_add_right _ _⟩

theorem disciplined_nil (hbegun : ∀ b ∈ attempts v [], b = v.clock.elapsed)
    (hfew : (attempts v []).length ≤ 2)
    (hquit : ∀ key after, w.state ≠ .done (.error (.quitTrying key after))) :
    h.Disciplined v [] w where
  begun b hb := hbegun b hb ▸ Nat.le_add_right _ _
  few := by simp [Nat.sub_eq_zero_of_le hfew]
  timely r hr := absurd hr List.not_mem_nil
  quit key after h := absurd h (hquit key after)
  refused r hr := absurd hr List.not_mem_nil

theorem begins_disciplined (h : Holder) (t : Moment) (k : Hold) :
    h.Stage t.elapsed (attempts (h.acquireAt t k) []).length (h.acquireAt t k) ∧
      h.Disciplined (h.acquireAt t k) [] (h.acquireAt t k) := by
  rcases h.acquireAt_cases t k with ⟨fault, hdone, hfault⟩ | hattempt
  · have hnone : attempts (h.acquireAt t k) [] = [] := by
      simp [attempts, hdone, Acquiring.isAttempting]
    refine ⟨?_, disciplined_nil (by simp [hnone]) (by simp [hnone]) fun key after hquit => ?_⟩
    · simp only [Stage, hdone]
    · cases hdone.symm.trans hquit
      exact hfault key after rfl
  · have hfirst : attempts (h.acquireAt t k) [] = [(h.acquireAt t k).clock.elapsed] := by
      rw [hattempt]
      rfl
    refine ⟨?_, disciplined_nil (by simp [hfirst]) (by simp [hfirst]) fun key after hquit => ?_⟩
    · rw [hfirst, hattempt]
      exact h.stage_attempt t k
    · rw [hattempt] at hquit
      cases hquit

theorem run_disciplined {t : Moment} {k : Hold}
    (hrun : h.acquire.machine.Fares (h.acquireAt t k) trail w) :
    h.Stage t.elapsed (attempts (h.acquireAt t k) trail).length w ∧
      h.Disciplined (h.acquireAt t k) trail w := by
  induction hrun with
  | refl => exact h.begins_disciplined t k
  | bide _ hbide ih =>
    obtain ⟨hstage, hdisciplined⟩ := ih
    refine ⟨hstage.bide hbide, ?_⟩
    cases hbide
    exact ⟨hdisciplined.begun, hdisciplined.few, hdisciplined.timely, hdisciplined.quit,
      hdisciplined.refused⟩
  | react _ hreact ih =>
    obtain ⟨hstage, hdisciplined⟩ := ih
    refine ⟨?_, hdisciplined.react hstage hreact⟩
    rw [attempts_concat, List.length_append]
    exact hstage.react hreact

/-- However the store answers, and whatever others do to the cell: attempts begin only until the
time to quit, and not faster than the options allow; the call gives up only after that time and for
a fault that was worth another attempt, and ends with the first one that was not; and while it has
not ended, the time limit of the last possible attempt has not passed, and the call can go on. -/
theorem gives_up_in_time {t : Moment} {k : Hold}
    (hrun : h.acquire.machine.Fares (h.acquireAt t k) trail w) :
    h.Disciplined (h.acquireAt t k) trail w ∧
      ((∀ answer, w.state ≠ .done answer) →
        w.clock.elapsed ≤
            (t.elapsed.add h.options.quitTryingAfter).add h.locks.options.operationTimeout ∧
          ((∃ w', h.acquire.machine.Bides w w' ∧ w.clock.elapsed < w'.clock.elapsed) ∨
            ∃ r w', h.acquire.machine.Reacts w r w' ∧
              (r.response = .woken ∨ r.response = .expired))) := by
  obtain ⟨hstage, hdisciplined⟩ := run_disciplined hrun
  exact ⟨hdisciplined, fun hdone => ⟨hstage.elapsed_le hdone, h.acquire.machine.exists_advance w⟩⟩

/-- Tries for two seconds, and gives the store one second each time. -/
def patient : Holder :=
  ⟨⟨"locks", { operationTimeout := .ofSeconds 1 }⟩, "migrations", "runner-b",
    { quitTryingAfter := .ofSeconds 2 }⟩

def tenths (n : Nat) : Moment := ⟨.ofMillis (100 * n), ⟨0, 0⟩⟩

/-- The store is down at first, and does not answer the second attempt at all. -/
theorem gives_up_in_time_of_outage :
    ∃ trail w, patient.acquire.machine.Fares (patient.acquireAt (tenths 0) {}) trail w ∧
      w.state = .done (.error (.quitTrying "migrations" (.ofMillis 2300))) ∧
      patient.Disciplined (patient.acquireAt (tenths 0) {}) trail w := by
  suffices hrun : ∃ trail w,
      patient.acquire.machine.Fares (patient.acquireAt (tenths 0) {}) trail w ∧
        w.state = .done (.error (.quitTrying "migrations" (.ofMillis 2300))) by
    obtain ⟨trail, w, hrun, hquit⟩ := hrun
    exact ⟨trail, w, hrun, hquit, (gives_up_in_time hrun).1⟩
  let down : Response := .answered fun _ => .error (.unavailable "down")
  refine ⟨_, _, .react (.bide (.react (.bide (.react (.bide .refl
    (.intro (tenths 3) {} ?_ ?_)) (.intro down _ _ nofun nofun rfl))
    (.intro (tenths 13) {} ?_ ?_)) (.intro .woken _ _ ?_ nofun rfl))
    (.intro (tenths 23) {} ?_ ?_)) (.intro .expired _ _ nofun ?_ rfl), ?_⟩
  · decide
  · rintro due (hlimit | ⟨d, resume, hnext, rfl⟩)
    · cases hlimit
      decide
    · cases hnext
  · decide
  · rintro due (hlimit | ⟨d, resume, hnext, rfl⟩)
    · cases hlimit
    · cases hnext
      decide
  · rintro - d resume hnext
    cases hnext
    decide
  · decide
  · rintro due (hlimit | ⟨d, resume, hnext, rfl⟩)
    · cases hlimit
      decide
    · cases hnext
  · rintro - limit hlimit
    cases hlimit
    decide
  · rfl

end Holder

end MigrationLedger
