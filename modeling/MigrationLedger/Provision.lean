import MigrationLedger.Process

/-! Making sure that a table exists, has the wanted key and is active, whoever else creates it at
the same time. -/

namespace MigrationLedger

structure Provision where
  table : String
  schema : KeySchema
  allowCreate : Bool
  pollInterval : Span
  deriving Repr

namespace Provision

inductive Phase where
  | describing
  | creating
  /-- Waiting for the table to become active; `trusted` when its key was found right before. -/
  | polling (trusted : Bool)
  | pausing (trusted : Bool)
  | done (answer : Except LedgerFault Unit)

/-- Goes on to describe the table again, after the interval if there is one. -/
def pollAgain (p : Provision) (trusted : Bool) : Phase :=
  if p.pollInterval = .zero then .polling trusted else .pausing trusted

def validate (p : Provision) (d : TableDescription) : Except LedgerFault Unit :=
  if d.schema = p.schema then .ok () else .error (.creationRefused d.name)

def afterDescribe (p : Provision) : Except StoreFault (Option TableDescription) → Phase
  | .error fault => .done (.error (.ofStore fault))
  | .ok none => if p.allowCreate then .creating else .done (.error (.creationRefused p.table))
  | .ok (some d) =>
    match p.validate d with
    | .error fault => .done (.error fault)
    | .ok () => if d.status = .active then .done (.ok ()) else .polling true

/-- To find the table created by somebody else is as good as creating it. -/
def afterCreate : Except StoreFault Unit → Phase
  | .ok () | .error (.tableExists _) => .polling false
  | .error fault => .done (.error (.ofStore fault))

def afterPoll (p : Provision) (trusted : Bool) :
    Except StoreFault (Option TableDescription) → Phase
  | .error fault => .done (.error (.ofStore fault))
  | .ok none => .done (.error (.notInitialized p.table))
  | .ok (some d) =>
    if d.status = .active then .done (if trusted then .ok () else p.validate d)
    else p.pollAgain trusted

def machine {κ : Type} (p : Provision) : Machine κ Phase (Except LedgerFault Unit) where
  next
    | .describing => .call (.describeTable p.table) fun _ k x => (k, p.afterDescribe x)
    | .creating => .call (.createTable p.table p.schema) fun _ k x => (k, afterCreate x)
    | .polling trusted => .call (.describeTable p.table) fun _ k x => (k, p.afterPoll trusted x)
    | .pausing trusted => .rest p.pollInterval fun _ k => (k, .polling trusted)
    | .done answer => .done answer

/-- Waits without bound for a table that stays in creation. -/
def ensure {κ : Type} (p : Provision) : Operation κ Phase (Except LedgerFault Unit) :=
  ⟨fun _ k => (k, .describing), p.machine⟩

def late (p : Provision) (after : Span) : Except LedgerFault Unit :=
  .error (.timeout "initialize" p.table after)

def ensureWithin {κ : Type} (p : Provision) (after : Span) :
    Operation κ (Bounded Unit Phase (Except LedgerFault Unit)) (Except LedgerFault Unit) where
  start t k := (k, .active () (t.elapsed.add after) .describing)
  machine := Bounded.machine p.machine (fun _ k a => (k, a)) (p.late after)

end Provision

end MigrationLedger
