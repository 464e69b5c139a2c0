import MigrationLedger.Holder

/-! Recording one change by hand: take the lock, save the entry, give the lock back. The cell is
that of the ledger together with that of the holder. -/

namespace MigrationLedger

structure Recording where
  holder : Holder
  ledger : Ledger
  entry : Entry

namespace Recording

inductive Fault where
  | notAcquired (fault : LeaseFault)
  | notSaved (fault : LedgerFault)
  deriving DecidableEq, Repr, Inhabited

abbrev Cell : Type := Lifecycle × Hold

abbrev Saving : Type := Bounded Unit (Update.Phase LedgerFault Unit) (Except LedgerFault Unit)

inductive Phase where
  | acquiring (inner : Holder.Acquiring)
  | saving (inner : Saving)
  /-- The outcome of the save is kept until the lock is given back. -/
  | releasing (saved : Except LedgerFault Unit) (inner : LockTable.Changing Bool)
  | done (answer : Except Fault Unit)

def save (r : Recording) : Operation Lifecycle Saving (Except LedgerFault Unit) :=
  r.ledger.save r.entry r.ledger.options.operationTimeout

def settleRelease (lifecycle : Lifecycle) (saved : Except LedgerFault Unit)
    (s : Hold × LockTable.Changing Bool) : Cell × Phase :=
  match s.2 with
  | .active .. => ((lifecycle, s.1), .releasing saved s.2)
  -- a lock that could not be given back runs out by itself
  | .ended _ => ((lifecycle, s.1), .done (saved.mapError .notSaved))

def settleSave (r : Recording) (t : Moment) (hold : Hold) (s : Lifecycle × Saving) : Cell × Phase :=
  match s.2 with
  | .active .. => ((s.1, hold), .saving s.2)
  | .ended saved => settleRelease s.1 saved (r.holder.release.start t hold)

def settleAcquire (r : Recording) (t : Moment) (lifecycle : Lifecycle)
    (s : Hold × Holder.Acquiring) : Cell × Phase :=
  match s.2 with
  | .done (.ok ()) => r.settleSave t s.1 (r.save.start t lifecycle)
  | .done (.error fault) => ((lifecycle, s.1), .done (.error (.notAcquired fault)))
  | inner => ((lifecycle, s.1), .acquiring inner)

def operation (r : Recording) : Operation Cell Phase (Except Fault Unit) where
  start t k := r.settleAcquire t k.1 (r.holder.acquire.start t k.2)
  machine :=
    { next
        | .acquiring inner =>
          match r.holder.acquire.machine.next inner with
          | .call c resume => .call c fun t k x => r.settleAcquire t k.1 (resume t k.2 x)
          | .rest d resume => .rest d fun t k => r.settleAcquire t k.1 (resume t k.2)
          | .done answer => .done (answer.mapError .notAcquired)
        | .saving inner =>
          match r.save.machine.next inner with
          | .call c resume => .call c fun t k x => r.settleSave t k.2 (resume t k.1 x)
          | .rest d resume => .rest d fun t k => r.settleSave t k.2 (resume t k.1)
          | .done answer => .done (answer.mapError .notSaved)
        | .releasing saved inner =>
          match r.holder.release.machine.next inner with
          | .call c resume => .call c fun t k x => settleRelease k.1 saved (resume t k.2 x)
          | .rest d resume => .rest d fun t k => settleRelease k.1 saved (resume t k.2)
          | .done _ => .done (saved.mapError .notSaved)
        | .done answer => .done answer
      limit
        | .acquiring inner => r.holder.acquire.machine.limit inner
        | .saving inner => inner.limit
        | .releasing _ inner => inner.limit
        | .done _ => none
      expire t k
        | .acquiring inner => r.settleAcquire t k.1 (r.holder.acquire.machine.expire t k.2 inner)
        | .saving inner => r.settleSave t k.2 (r.save.machine.expire t k.1 inner)
        | .releasing saved inner =>
          settleRelease k.1 saved (r.holder.release.machine.expire t k.2 inner)
        | s => (k, s) }

end Recording

end MigrationLedger
