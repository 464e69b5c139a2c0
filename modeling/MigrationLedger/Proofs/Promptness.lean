import MigrationLedger.Proofs.HeldLease
import MigrationLedger.Proofs.InstantShift

/-! Runs in which one operation is never late. The store answers it at once, its rests last as long
as they have to and no longer, and nothing fails. All other operations take their turns as they
like, but time does not pass what the one waits for. -/

namespace MigrationLedger

namespace Machine

variable {κ σ α : Type}

/-- The reading of the clock at which a wait ends that has begun at `since`; nothing when there is
nothing to wait for. -/
def endOfWait? (mc : Machine κ σ α) (since : Span) (s : σ) : Option Span :=
  match mc.next s with
  | .call .. => some since
  | .rest length _ => some (since.add length)
  | .done _ => none

end Machine

namespace Crew

variable {ι γ κ : Type} [DecidableEq ι] [DecidableEq γ]

/-- A step of a crew in which `i` is never late. With the state goes the moment at which the present
wait of `i` has begun. -/
inductive PromptStep (c : Crew ι γ κ) (i : ι) : c.State × Moment → c.State × Moment → Prop where
  | pass {s : c.State} {since : Moment} {p : c.Phase i} {d : Span} {wall : Instant}
      (hp : s.phase i = some p)
      (hdue : ∀ due, (c.operation i).machine.endOfWait? since.elapsed p = some due →
        s.clock.elapsed.add d ≤ due)
      (hwall : s.clock.wall.after? d = some wall) :
      PromptStep c i (s, since) ({ s with clock := ⟨s.clock.elapsed.add d, wall⟩ }, since)
  | others {s s' : c.State} {since : Moment} {e : Event ι} (he : e.who ≠ i)
      (hact : s.act? e = some s') : PromptStep c i (s, since) (s', since)
  | own {s s' : c.State} {since : Moment} {p : c.Phase i} {stimulus : Stimulus}
      (hp : s.phase i = some p) (hcalm : stimulus.isCalm = true)
      (hdue : ∀ due, (c.operation i).machine.endOfWait? since.elapsed p = some due →
        due ≤ s.clock.elapsed)
      (hact : s.act? (.turn i stimulus) = some s') : PromptStep c i (s, since) (s', s.clock)

/-- A run in which `i` is never late, from where its wait has just begun. -/
def Prompt (c : Crew ι γ κ) (i : ι) (s : c.State) (s' : c.State) (since : Moment) : Prop :=
  Relation.ReflTransGen (c.PromptStep i) (s, s.clock) (s', since)

variable {c : Crew ι γ κ} {i : ι} {s s' : c.State} {since since' : Moment}

theorem PromptStep.step (h : c.PromptStep i (s, since) (s', since')) (hs : s.clock.wall.IsValid) :
    c.Step Moment.Ticks s s' := by
  cases h with
  | pass hp hdue hwall => exact .pass ⟨hs.le_after? hwall, hs.after? hwall⟩
  | others he hact => exact .act hact
  | own hp hcalm hdue hact => exact .act hact

theorem PromptStep.clock (h : c.PromptStep i (s, since) (s', since')) (hs : s.clock.wall.IsValid) :
    s.clock.wall ≤ s'.clock.wall ∧ s'.clock.wall.IsValid := by
  cases h with
  | pass hp hdue hwall => exact ⟨hs.le_after? hwall, hs.after? hwall⟩
  | others he hact =>
    rw [Crew.State.act_clock hact]
    exact ⟨le_refl _, hs⟩
  | own hp hcalm hdue hact =>
    rw [Crew.State.act_clock hact]
    exact ⟨le_refl _, hs⟩

end Crew

end MigrationLedger
