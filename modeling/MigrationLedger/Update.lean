import MigrationLedger.Process

/-! Changing one record without locking it: read it, decide, and write on the condition that it is
still as it was read; otherwise begin again after a pause. -/

namespace MigrationLedger

/-- What comes of a record that was read. -/
inductive Verdict (ε α : Type) where
  | stop (answer : Except ε α)
  | write (item : Item) (answer : α)

structure Update (ε α : Type) where
  table : String
  key : String
  decide : Moment → Option Item → Verdict ε α
  /-- How long to wait after that many conflicts. -/
  pause : Nat → Span
  ofStore : StoreFault → ε

/-- The condition that a record is as it was read. -/
def Condition.unchanged : Option Item → Condition
  | none => .absent
  | some item => .revision item.revision

/-- The count of writes after one more. It is kept in a word of 64 bits; the sum is that of the word
as long as there is room for it. -/
def nextRevision (read : Option Item) : Nat := (read.map Item.revision).getD 0 + 1

namespace Update

inductive Phase (ε α : Type) where
  | reading (conflicts : Nat)
  | writing (conflicts : Nat) (read : Option Item) (item : Item) (answer : α)
  | pausing (conflicts : Nat)
  | done (answer : Except ε α)

variable {κ ε α : Type}

def afterRead (u : Update ε α) (t : Moment) (conflicts : Nat) :
    Except StoreFault (Option Item) → Phase ε α
  | .error fault => .done (.error (u.ofStore fault))
  | .ok read =>
    match u.decide t read with
    | .stop answer => .done answer
    | .write item answer => .writing conflicts read item answer

def afterWrite (u : Update ε α) (conflicts : Nat) (answer : α) : Except StoreFault Unit → Phase ε α
  | .ok () => .done (.ok answer)
  | .error .unmet => .pausing (conflicts + 1)
  | .error fault => .done (.error (u.ofStore fault))

def machine (u : Update ε α) : Machine κ (Phase ε α) (Except ε α) where
  next
    | .reading n => .call (.getItem u.table u.key) fun t k x => (k, u.afterRead t n x)
    | .writing n read item answer =>
      .call (.putItem u.table (item.withRevision (nextRevision read)) (some (.unchanged read)))
        fun _ k x => (k, u.afterWrite n answer x)
    | .pausing n => .rest (u.pause n) fun _ k => (k, .reading n)
    | .done answer => .done answer

end Update

end MigrationLedger
