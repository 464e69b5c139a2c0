import MigrationLedger.Proofs.InstantShift
import MigrationLedger.Proofs.Crew

/-! An operation that runs alone, on a store that answers at once and never fails. Then what it does
is a function of where it begins: which calls it makes, how long it rests, and how it ends. -/

namespace MigrationLedger

inductive Act where
  | asked (x : Exchange)
  | rested (length : Span)

namespace Act

def call? : Act → Option Call
  | asked x => some x.1
  | rested _ => none

def rest? : Act → Option Span
  | asked _ => none
  | rested length => some length

def calls (acts : List Act) : List Call := acts.filterMap call?

def rests (acts : List Act) : List Span := acts.filterMap rest?

@[simp] theorem calls_nil : calls [] = [] := rfl

@[simp] theorem calls_asked (x : Exchange) (acts : List Act) :
    calls (asked x :: acts) = x.1 :: calls acts := rfl

@[simp] theorem calls_rested (length : Span) (acts : List Act) :
    calls (rested length :: acts) = calls acts := rfl

@[simp] theorem rests_nil : rests [] = [] := rfl

@[simp] theorem rests_asked (x : Exchange) (acts : List Act) :
    rests (asked x :: acts) = rests acts := rfl

@[simp] theorem rests_rested (length : Span) (acts : List Act) :
    rests (rested length :: acts) = length :: rests acts := rfl

end Act

/-- All there is while one operation runs alone: the clocks, the store, the operation's cell, and
where it stands. -/
structure Scene (κ σ : Type) where
  clock : Moment
  memory : Memory
  cell : κ
  state : σ

/-- A run of a machine that is alone, from a state to its answer. A call takes no time and a rest
just as long as it says, and no time limit passes meanwhile. -/
inductive Machine.Solo {κ σ α : Type} (mc : Machine κ σ α) :
    Scene κ σ → List Act → Scene κ α → Prop where
  | done {t : Moment} {m : Memory} {k : κ} {s : σ} {a : α} (hnext : mc.next s = .done a) :
      Solo mc ⟨t, m, k, s⟩ [] ⟨t, m, k, a⟩
  | call {t : Moment} {m : Memory} {k : κ} {s : σ} {c : Call}
      {resume : Moment → κ → Answer c → κ × σ} {acts : List Act} {w : Scene κ α}
      (hnext : mc.next s = .call c resume)
      (hlimit : ∀ l, mc.limit s = some l → t.elapsed < l)
      (h : Solo mc ⟨t, (m.perform t.wall c).2, (resume t k (m.perform t.wall c).1).1,
        (resume t k (m.perform t.wall c).1).2⟩ acts w) :
      Solo mc ⟨t, m, k, s⟩ (.asked ⟨c, (m.perform t.wall c).1⟩ :: acts) w
  | rest {t : Moment} {m : Memory} {k : κ} {s : σ} {d : Span} {resume : Moment → κ → κ × σ}
      {acts : List Act} {w : Scene κ α} (hnext : mc.next s = .rest d resume)
      (hlimit : ∀ l, mc.limit s = some l → (t.later d.nanos).elapsed < l)
      (h : Solo mc ⟨t.later d.nanos, m, (resume (t.later d.nanos) k).1,
        (resume (t.later d.nanos) k).2⟩ acts w) :
      Solo mc ⟨t, m, k, s⟩ (.rested d :: acts) w

namespace Machine.Solo

variable {κ σ α : Type} {mc : Machine κ σ α} {t : Moment} {m m' : Memory} {k k' : κ} {s s' : σ}
  {acts acts' : List Act} {v : Scene κ σ} {w w' : Scene κ α}

theorem asked {c : Call} {resume : Moment → κ → Answer c → κ × σ} {x : Answer c}
    (hnext : mc.next s = .call c resume) (hlimit : ∀ l, mc.limit s = some l → t.elapsed < l)
    (hask : m.perform t.wall c = (x, m')) (hresume : resume t k x = (k', s'))
    (h : mc.Solo ⟨t, m', k', s'⟩ acts w) :
    mc.Solo ⟨t, m, k, s⟩ (.asked ⟨c, x⟩ :: acts) w := by
  have hx : x = (m.perform t.wall c).1 := congrArg (·.1) hask.symm
  subst hx
  refine .call hnext hlimit ?_
  rw [hresume, hask]
  exact h

theorem rested {d : Span} {resume : Moment → κ → κ × σ} (hnext : mc.next s = .rest d resume)
    (hlimit : ∀ l, mc.limit s = some l → (t.later d.nanos).elapsed < l)
    (hresume : resume (t.later d.nanos) k = (k', s'))
    (h : mc.Solo ⟨t.later d.nanos, m, k', s'⟩ acts w) :
    mc.Solo ⟨t, m, k, s⟩ (.rested d :: acts) w := by
  refine .rest hnext hlimit ?_
  rw [hresume]
  exact h

/-- The run is the only one from where it begins. -/
theorem unique (h : mc.Solo v acts w) (h' : mc.Solo v acts' w') : acts = acts' ∧ w = w' := by
  induction h generalizing acts' with
  | done hnext =>
    cases h' with
    | done hnext' =>
      cases hnext.symm.trans hnext'
      exact ⟨rfl, rfl⟩
    | call hnext' => cases hnext.symm.trans hnext'
    | rest hnext' => cases hnext.symm.trans hnext'
  | call hnext _ _ ih =>
    cases h' with
    | done hnext' => cases hnext.symm.trans hnext'
    | call hnext' _ h' =>
      cases hnext.symm.trans hnext'
      obtain ⟨rfl, rfl⟩ := ih h'
      exact ⟨rfl, rfl⟩
    | rest hnext' => cases hnext.symm.trans hnext'
  | rest hnext _ _ ih =>
    cases h' with
    | done hnext' => cases hnext.symm.trans hnext'
    | call hnext' => cases hnext.symm.trans hnext'
    | rest hnext' _ h' =>
      cases hnext.symm.trans hnext'
      obtain ⟨rfl, rfl⟩ := ih h'
      exact ⟨rfl, rfl⟩

end Machine.Solo

namespace Operation

variable {κ σ α : Type} {o : Operation κ σ α} {t : Moment} {m : Memory} {k : κ}

/-- The operation, begun alone at the moment `t`, does this and ends so. -/
def Alone (o : Operation κ σ α) (t : Moment) (m : Memory) (k : κ) (acts : List Act)
    (w : Scene κ α) : Prop :=
  o.machine.Solo ⟨t, m, (o.start t k).1, (o.start t k).2⟩ acts w

/-- Begun alone at the moment `t`, the operation ends, and whatever it has done then satisfies
`post`. -/
structure Achieves (o : Operation κ σ α) (t : Moment) (m : Memory) (k : κ)
    (post : List Act → Scene κ α → Prop) : Prop where
  ends : ∃ acts w, o.Alone t m k acts w
  well : ∀ acts w, o.Alone t m k acts w → post acts w

theorem Achieves.of_alone {acts : List Act} {w : Scene κ α}
    {post : List Act → Scene κ α → Prop} (h : o.Alone t m k acts w) (hpost : post acts w) :
    o.Achieves t m k post := by
  refine ⟨⟨acts, w, h⟩, fun acts' w' h' => ?_⟩
  obtain ⟨rfl, rfl⟩ := Machine.Solo.unique h h'
  exact hpost

end Operation

end MigrationLedger
