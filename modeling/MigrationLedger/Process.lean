import MigrationLedger.Table

/-! Operations as machines. An operation is in some state of its own, shares a cell with other
operations on the same object, and at each moment waits for one thing: the answer of the store, or
the end of a rest. Whoever runs it decides when that happens, and what happens in between. -/

namespace MigrationLedger

/-- What the clocks show: how long the run has lasted, and the time of day. -/
structure Moment where
  elapsed : Span
  wall : Instant
  deriving DecidableEq, Repr, Inhabited

/-- What an operation waits for, and where it goes from there. -/
inductive Move (κ σ α : Type) where
  | call (c : Call) (resume : Moment → κ → Answer c → κ × σ)
  | rest (length : Span) (resume : Moment → κ → κ × σ)
  | done (answer : α)

structure Machine (κ σ α : Type) where
  next : σ → Move κ σ α
  /-- When a state that still waits is given up. -/
  limit : σ → Option Span := fun _ => none
  expire : Moment → κ → σ → κ × σ := fun _ k s => (k, s)

/-- An operation: how it starts, and how it goes on. -/
structure Operation (κ σ α : Type) where
  start : Moment → κ → κ × σ
  machine : Machine κ σ α

/-- The state of an operation with a time limit. A note of how things stood at its start goes
along. -/
inductive Bounded (ν σ α : Type) where
  | active (note : ν) (limit : Span) (inner : σ)
  | ended (answer : α)
  deriving Repr, DecidableEq, Inhabited

namespace Bounded

variable {κ ν σ α : Type}

def limit : Bounded ν σ α → Option Span
  | active _ l _ => some l
  | ended _ => none

/-- Ends with the machine: the answer passes through `finish`, which may change the cell. -/
def settle (m : Machine κ σ α) (finish : ν → κ → α → κ × α) (note : ν) (limit : Span)
    (s : κ × σ) : κ × Bounded ν σ α :=
  match m.next s.2 with
  | .done answer => let (k, a) := finish note s.1 answer; (k, .ended a)
  | _ => (s.1, .active note limit s.2)

/-- The machine under a time limit. When the limit passes while it waits, `late` is the answer. -/
def machine (m : Machine κ σ α) (finish : ν → κ → α → κ × α) (late : α) :
    Machine κ (Bounded ν σ α) α where
  next
    | .ended answer => .done answer
    | .active note limit s =>
      match m.next s with
      | .call c resume => .call c fun t k x => settle m finish note limit (resume t k x)
      | .rest d resume => .rest d fun t k => settle m finish note limit (resume t k)
      | .done answer => .done answer
  limit := limit
  expire _ k
    | .active note _ _ => let (k, a) := finish note k late; (k, .ended a)
    | s => (k, s)

end Bounded

/-- One call, and what its answer is taken for. The state is the answer, once there is one. -/
def inquiry {κ α : Type} (c : Call) (read : Answer c → α) : Machine κ (Option α) α where
  next
    | none => .call c fun _ k x => (k, some (read x))
    | some a => .done a

/-- One rest. The state tells whether it is over. -/
def pause {κ : Type} (length : Span) : Machine κ Bool Unit where
  next
    | false => .rest length fun _ k => (k, true)
    | true => .done ()

end MigrationLedger
