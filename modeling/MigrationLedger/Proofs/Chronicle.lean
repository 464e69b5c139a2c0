import MigrationLedger.Proofs.Crew

/-! Runs that are written down. Between the turns of the operations something else may change what
is stored, or what the operations on an object share: another client, or whoever drops tables and
creates them. Of the operations it is noted in which order they end, and how. -/

namespace MigrationLedger

/-- The answer of an operation that waits for nothing any more. -/
def Machine.answer? {κ σ α : Type} (mc : Machine κ σ α) (s : σ) : Option α :=
  match mc.next s with
  | .done a => some a
  | _ => none

namespace Crew

variable {ι γ κ : Type} {c : Crew ι γ κ}

/-- An operation that has ended: its answer, and what the store said in its last turn. -/
structure Completion (c : Crew ι γ κ) where
  who : ι
  answer : c.Outcome who
  exchange : Option Exchange

/-- What has ended with the phase `p` of an operation, which came with the exchange `x`. -/
def ended (c : Crew ι γ κ) (i : ι) (x : Option Exchange) (p : c.Phase i) : List c.Completion :=
  ((c.operation i).machine.answer? p).toList.map fun a => ⟨i, a, x⟩

/-- What an event of `i` brings to an end that leads from `s` to `s'`. -/
def State.completed (s s' : c.State) (i : ι) : List c.Completion :=
  (s'.phase i).toList.flatMap (c.ended i ((s'.log.drop s.log.length).head?.map (·.exchange)))

variable [DecidableEq ι] [DecidableEq γ]

/-- A run from `s₀`, in which the operations `cs` have ended one after the other. -/
inductive Chronicle (flow : Moment → Moment → Prop)
    (outside : Memory → (γ → κ) → Memory → (γ → κ) → Prop) (s₀ : c.State) :
    List c.Completion → c.State → Prop where
  | refl : Chronicle flow outside s₀ [] s₀
  | pass {cs : List c.Completion} {s : c.State} {t : Moment} (h : Chronicle flow outside s₀ cs s)
      (ht : flow s.clock t) : Chronicle flow outside s₀ cs { s with clock := t }
  | outside {cs : List c.Completion} {s : c.State} {m : Memory} {cells : γ → κ}
      (h : Chronicle flow outside s₀ cs s) (ho : outside s.memory s.cells m cells) :
      Chronicle flow outside s₀ cs { s with memory := m, cells := cells }
  | act {cs : List c.Completion} {s s' : c.State} {e : Event ι}
      (h : Chronicle flow outside s₀ cs s) (hact : s.act? e = some s') :
      Chronicle flow outside s₀ (cs ++ s.completed s' e.who) s'

/-- A run from `s₀`, in which the events `es` happen one after the other. -/
inductive Trace (flow : Moment → Moment → Prop) (s₀ : c.State) :
    List (Event ι) → c.State → Prop where
  | refl : Trace flow s₀ [] s₀
  | pass {es : List (Event ι)} {s : c.State} {t : Moment} (h : Trace flow s₀ es s)
      (ht : flow s.clock t) : Trace flow s₀ es { s with clock := t }
  | act {es : List (Event ι)} {s s' : c.State} {e : Event ι} (h : Trace flow s₀ es s)
      (hact : s.act? e = some s') : Trace flow s₀ (es ++ [e]) s'

namespace Trace

variable {flow : Moment → Moment → Prop} {s₀ s : c.State} {es : List (Event ι)}

theorem reachable (h : Trace flow s₀ es s) : c.Reachable flow s₀ s := by
  induction h with
  | refl => exact .refl
  | pass _ ht ih => exact ih.tail (.pass ht)
  | act _ hact ih => exact ih.tail (.act hact)

theorem of_play [DecidableRel flow] {script : Script ι} {s₁ : c.State} (h : Trace flow s₀ es s)
    (hplay : s.play? flow script = some s₁) : Trace flow s₀ (es ++ script.map (·.2)) s₁ := by
  induction script generalizing s es with
  | nil =>
    cases hplay
    rw [List.map_nil, List.append_nil]
    exact h
  | cons event rest ih =>
    obtain ⟨t, e⟩ := event
    rw [State.play?] at hplay
    split at hplay
    · next hflow =>
      obtain ⟨s₂, hact, hrest⟩ := Option.bind_eq_some_iff.mp hplay
      have hrun := ih ((h.pass hflow).act hact) hrest
      rw [List.append_assoc] at hrun
      exact hrun
    · cases hplay

end Trace

namespace Chronicle

variable {flow : Moment → Moment → Prop} {outside : Memory → (γ → κ) → Memory → (γ → κ) → Prop}
  {s₀ s : c.State} {cs : List c.Completion}

theorem completed_start (s : c.State) (i : ι) (k : κ) (p : c.Phase i) :
    s.completed (s.settle i k p) i = c.ended i none p := by
  have hlog : (s.settle i k p).log = s.log := rfl
  rw [State.completed, State.settle_phase_self, hlog]
  simp

theorem completed_turn (s : c.State) (i : ι) (r : Turned κ (c.Phase i)) :
    s.completed (s.after i r) i = c.ended i r.exchange r.state := by
  have hlog : (s.after i r).log = s.note i r.exchange := rfl
  rw [State.completed, State.after_phase_self, hlog]
  cases r.exchange <;> simp [State.note]

/-- What holds at the start, and is kept by time, by the others and by every event, holds at the
end. -/
theorem invariant {P : List c.Completion → c.State → Prop} (h : Chronicle flow outside s₀ cs s)
    (initial : P [] s₀)
    (pass : ∀ cs s t, P cs s → flow s.clock t → P cs { s with clock := t })
    (others : ∀ cs s m cells, P cs s → outside s.memory s.cells m cells →
      P cs { s with memory := m, cells := cells })
    (start : ∀ cs s i, P cs s → s.phase i = none →
      let begun := (c.operation i).start s.clock (s.cellOf i)
      P (cs ++ c.ended i none begun.2) (s.settle i begun.1 begun.2))
    (turn : ∀ cs s i p stimulus r, P cs s → s.phase i = some p →
      (c.operation i).machine.turn? s.clock s.memory (s.cellOf i) p stimulus = some r →
      P (cs ++ c.ended i r.exchange r.state) (s.after i r)) : P cs s := by
  induction h with
  | refl => exact initial
  | pass _ ht ih => exact pass _ _ _ ih ht
  | outside _ ho ih => exact others _ _ _ _ ih ho
  | act _ hact ih =>
    obtain ⟨hp, rfl⟩ | ⟨p, stimulus, r, hp, hr, rfl⟩ := State.act_inv hact
    · rw [completed_start]
      exact start _ _ _ ih hp
    · rw [completed_turn]
      exact turn _ _ _ _ _ _ ih hp hr

theorem of_play [DecidableRel flow] {script : Script ι} {s₁ : c.State}
    (h : Chronicle flow outside s₀ cs s) (hplay : s.play? flow script = some s₁) :
    ∃ cs', Chronicle flow outside s₀ cs' s₁ := by
  induction script generalizing s cs with
  | nil =>
    cases hplay
    exact ⟨cs, h⟩
  | cons event rest ih =>
    obtain ⟨t, e⟩ := event
    rw [State.play?] at hplay
    split at hplay
    · next hflow =>
      obtain ⟨s₂, hact, hrest⟩ := Option.bind_eq_some_iff.mp hplay
      exact ih ((h.pass hflow).act hact) hrest
    · cases hplay

end Chronicle

end Crew

end MigrationLedger
