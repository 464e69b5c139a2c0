import MigrationLedger.LockTable

/-! Holding one lock for one owner: take it with retries, extend the lease when it nears its end,
give it back. What the holder believes about its lease is the cell that these operations share. -/

namespace MigrationLedger

structure LockOptions where
  /-- The length of a lease, counted from when it is taken or extended. -/
  acquiredFor : Span := .ofSeconds 60
  quitTryingAfter : Span := .ofSeconds 180
  tryFrequency : Span := .ofSeconds 1
  deriving DecidableEq, Repr, Inhabited

namespace LockOptions

def refreshPercent : Nat := 33

def leastRefreshMargin : Span := .ofSeconds 1

/-- How long before its end a lease is extended: a third of the lease, at least a second, and never
more than the lease. Nothing when the product on the way is longer than any span. -/
def refreshMargin? (o : LockOptions) : Option Span :=
  (o.acquiredFor.times? refreshPercent).map fun s =>
    ((s.dividedBy 100).max leastRefreshMargin).min o.acquiredFor

/-- When a lease taken at `now` ends: at the last instant there is, if the lease reaches beyond. -/
def leaseEnd (o : LockOptions) (now : Instant) : Instant :=
  (now.after? o.acquiredFor).getD Instant.last

/-- Whether a lease that ends at `expiry` is to be extended by now. -/
def refreshDue? (o : LockOptions) (expiry now : Instant) : Option Bool :=
  o.refreshMargin?.map fun margin =>
    match expiry.before? margin with
    | none => true
    | some due => due ≤ now

def leastRetryWait : Span := .ofMillis 500

/-- How long to wait before the next attempt. Another owner's lease that ends sooner shortens the
wait, but not below a floor. -/
def retryWait (o : LockOptions) (fault : LeaseFault) (now : Instant) : Span :=
  match fault with
  | .heldByOther _ _ expiry =>
    let remaining := expiry.since now
    if remaining < o.tryFrequency then remaining.max leastRetryWait else o.tryFrequency
  | _ => o.tryFrequency

/-- The seconds of a timer fill 63 bits. -/
def timerLimit : Nat := Nat.pow 2 63

/-- The reading of the timer at which to quit; nothing when the timer cannot show it. -/
def quitAt? (o : LockOptions) (started : Span) : Option Span :=
  let reading := started.add o.quitTryingAfter
  if reading.seconds < timerLimit then some reading else none

end LockOptions

/-- What a holder believes of its lock. -/
structure Hold where
  expiresAt : Option Instant := none
  released : Bool := false
  deriving DecidableEq, Repr, Inhabited

/-- The last instant of the lease still belongs to it. -/
def Hold.isHeldAt (h : Hold) (now : Instant) : Bool := !h.released && h.expiresAt.any (now ≤ ·)

structure Holder where
  locks : LockTable
  key : String
  owner : String
  options : LockOptions
  deriving Repr, Inhabited

namespace Holder

open LockTable (Changing)

/-- The lease that this holder writes at `now`. -/
def leaseAt (h : Holder) (now : Instant) : Lease := ⟨h.key, .held, h.owner, h.options.leaseEnd now⟩

/-- Notes a lease that was written, unless a release came first. -/
def noteLease (h : Holder) (k : Hold) (expiry : Instant) : Hold × Except LeaseFault Unit :=
  if k.released then (k, .error (.released h.key))
  else ({ k with expiresAt := some expiry }, .ok ())

/-! ## Taking the lock -/

inductive Acquiring where
  | attempting (started : Span) (lease : Lease) (inner : Changing Unit)
  | resting (started length : Span)
  | done (answer : Except LeaseFault Unit)

def attempt (h : Holder) (t : Moment) (k : Hold) (started : Span) : Hold × Acquiring :=
  let lease := h.leaseAt t.wall
  let (k, inner) := (h.locks.take lease).start t k
  (k, .attempting started lease inner)

/-- After a failed attempt: worth another one, until the time to quit has come. -/
def afterFailure (h : Holder) (t : Moment) (started : Span) (fault : LeaseFault) : Acquiring :=
  if fault.isRetryable then
    match h.options.quitAt? started with
    | none => .done (.error .overflow)
    | some quitAt =>
      if quitAt ≤ t.elapsed then .done (.error (.quitTrying h.key (t.elapsed.sub started)))
      else .resting started ((h.options.retryWait fault t.wall).min (quitAt.sub t.elapsed))
  else .done (.error fault)

def settleAttempt (h : Holder) (t : Moment) (started : Span) (lease : Lease)
    (s : Hold × Changing Unit) : Hold × Acquiring :=
  match s.2 with
  | .active .. => (s.1, .attempting started lease s.2)
  | .ended (.ok ()) => let (k, a) := h.noteLease s.1 lease.expiresAt; (k, .done a)
  | .ended (.error fault) => (s.1, h.afterFailure t started fault)

def acquire (h : Holder) : Operation Hold Acquiring (Except LeaseFault Unit) where
  start t k :=
    if k.released then (k, .done (.error (.released h.key)))
    else match h.options.quitAt? t.elapsed with
      | none => (k, .done (.error .overflow))
      | some _ => h.attempt t k t.elapsed
  machine :=
    { next
        | .attempting started lease inner =>
          match (h.locks.take lease).machine.next inner with
          | .call c resume =>
            .call c fun t k x => h.settleAttempt t started lease (resume t k x)
          | .rest d resume => .rest d fun t k => h.settleAttempt t started lease (resume t k)
          | .done answer => .done answer
        | .resting started length =>
          .rest length fun t k =>
            if k.released then (k, .done (.error (.released h.key))) else h.attempt t k started
        | .done answer => .done answer
      limit
        | .attempting _ _ inner => inner.limit
        | _ => none
      expire t k
        | .attempting started lease inner =>
          h.settleAttempt t started lease ((h.locks.take lease).machine.expire t k inner)
        | s => (k, s) }

/-! ## Extending the lease -/

inductive Ensuring where
  | extending (lease : Lease) (inner : Changing Unit)
  | done (answer : Except LeaseFault Unit)

def settleExtension (h : Holder) (lease : Lease) (s : Hold × Changing Unit) : Hold × Ensuring :=
  match s.2 with
  | .active .. => (s.1, .extending lease s.2)
  | .ended (.ok ()) => let (k, a) := h.noteLease s.1 lease.expiresAt; (k, .done a)
  | .ended (.error fault) =>
    match fault with
    | .lost _ | .heldByOther .. => ({ s.1 with expiresAt := none }, .done (.error fault))
    | _ => (s.1, .done (.error fault))

/-- Whether a check of the lease has to write: always when none is known of, and otherwise when it
nears its end. -/
def extensionDue? (h : Holder) (k : Hold) (now : Instant) : Option Bool :=
  match k.expiresAt with
  | none => some true
  | some expiry => h.options.refreshDue? expiry now

def ensure (h : Holder) : Operation Hold Ensuring (Except LeaseFault Unit) where
  start t k :=
    if k.released then (k, .done (.error (.released h.key)))
    else match h.extensionDue? k t.wall with
      | none => (k, .done (.error .overflow))
      | some false => (k, .done (.ok ()))
      | some true =>
        let lease := h.leaseAt t.wall
        let (k, inner) := (h.locks.extend lease).start t k
        (k, .extending lease inner)
  machine :=
    { next
        | .extending lease inner =>
          match (h.locks.extend lease).machine.next inner with
          | .call c resume => .call c fun t k x => h.settleExtension lease (resume t k x)
          | .rest d resume => .rest d fun t k => h.settleExtension lease (resume t k)
          | .done answer => .done answer
        | .done answer => .done answer
      limit
        | .extending _ inner => inner.limit
        | .done _ => none
      expire t k
        | .extending lease inner =>
          h.settleExtension lease ((h.locks.extend lease).machine.expire t k inner)
        | s => (k, s) }

/-! ## Giving the lock back -/

/-- The holder is spent from the start of the release on. Only the first release asks the store. -/
def release (h : Holder) : Operation Hold (Changing Bool) (Except LeaseFault Bool) where
  start t k :=
    let spent : Hold := ⟨none, true⟩
    if k.released then (spent, .ended (.ok false))
    else (h.locks.giveBack h.key h.owner).start t spent
  machine := (h.locks.giveBack h.key h.owner).machine

/-! ## Keeping the lock in the background -/

inductive Refreshing where
  | resting
  | checking (inner : Ensuring)
  | stopped

/-- A check that failed for reasons of the store is repeated; any other failure ends the refresher.
-/
def afterCheck : Except LeaseFault Unit → Refreshing
  | .ok () => .resting
  | .error (.ledger fault) => if fault.isRetryable then .resting else .stopped
  | .error _ => .stopped

def settleCheck (s : Hold × Ensuring) : Hold × Refreshing :=
  match s.2 with
  | .done answer => (s.1, afterCheck answer)
  | inner => (s.1, .checking inner)

def refresh (h : Holder) : Operation Hold Refreshing Unit where
  start _ k := (k, .resting)
  machine :=
    { next
        | .resting => .rest h.options.tryFrequency fun t k => settleCheck (h.ensure.start t k)
        | .checking inner =>
          match h.ensure.machine.next inner with
          | .call c resume => .call c fun t k x => settleCheck (resume t k x)
          | .rest d resume => .rest d fun t k => settleCheck (resume t k)
          | .done _ => .done ()
        | .stopped => .done ()
      limit
        | .checking inner => h.ensure.machine.limit inner
        | _ => none
      expire t k
        | .checking inner => settleCheck (h.ensure.machine.expire t k inner)
        | s => (k, s) }

end Holder

end MigrationLedger
