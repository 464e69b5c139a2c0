import Mathlib.Logic.Function.Basic
import Mathlib.Logic.Relation
import MigrationLedger.Memory
import MigrationLedger.Process

/-! Operations that run at the same time on one store in memory. They take turns in any order: one
turn is what an operation does between two waits, together with what the store does for it. -/

namespace MigrationLedger

/-- What ends a wait. A call may also be refused before it reaches the store. -/
inductive Stimulus where
  | reply
  | refuse (fault : StoreFault)
  | wake
  | expire

/-- Neither a failure nor a time limit. -/
def Stimulus.isCalm : Stimulus → Bool
  | reply | wake => true
  | refuse _ | expire => false

abbrev Exchange : Type := (c : Call) × Answer c

structure Turned (κ σ : Type) where
  exchange : Option Exchange
  memory : Memory
  cell : κ
  state : σ

/-- A turn of a machine that waits in the state `s`, at the moment `t`. A wait may last longer than
it has to, so a late answer counts as long as the wait was not given up. -/
def Machine.turn? {κ σ α : Type} (mc : Machine κ σ α) (t : Moment) (m : Memory) (k : κ) (s : σ) :
    Stimulus → Option (Turned κ σ)
  | .reply =>
    match mc.next s with
    | .call c resume =>
      let (x, m) := m.perform t.wall c
      let (k, s) := resume t k x
      some ⟨some ⟨c, x⟩, m, k, s⟩
    | _ => none
  | .refuse fault =>
    match mc.next s with
    | .call c resume =>
      let (k, s) := resume t k (.error fault)
      some ⟨some ⟨c, .error fault⟩, m, k, s⟩
    | _ => none
  | .wake =>
    match mc.next s with
    | .rest _ resume =>
      let (k, s) := resume t k
      some ⟨none, m, k, s⟩
    | _ => none
  | .expire =>
    match mc.limit s with
    | some l =>
      if l ≤ t.elapsed then
        let (k, s) := mc.expire t k s
        some ⟨none, m, k, s⟩
      else none
    | none => none

namespace Machine

variable {κ σ α : Type} {mc : Machine κ σ α}

/-- The store answers a call, or is not touched and has answered nothing. -/
theorem turn_exchange {t : Moment} {m : Memory} {k : κ} {s : σ} {stimulus : Stimulus}
    {r : Turned κ σ} (h : mc.turn? t m k s stimulus = some r) :
    (∃ c, r.exchange = some ⟨c, (m.perform t.wall c).1⟩ ∧ r.memory = (m.perform t.wall c).2) ∨
      (r.memory = m ∧ ∀ x, r.exchange = some x → ∃ c fault, x = ⟨c, .error fault⟩) := by
  cases stimulus with
  | reply =>
    rw [turn?] at h
    split at h
    · next c resume _ =>
      cases h
      exact .inl ⟨c, rfl, rfl⟩
    · cases h
  | refuse fault =>
    rw [turn?] at h
    split at h
    · next c resume _ =>
      cases h
      exact .inr ⟨rfl, fun x hx => ⟨c, fault, (Option.some.inj hx).symm⟩⟩
    · cases h
  | wake =>
    rw [turn?] at h
    split at h
    · cases h
      exact .inr ⟨rfl, nofun⟩
    · cases h
  | expire =>
    rw [turn?] at h
    split at h
    · split at h
      · cases h
        exact .inr ⟨rfl, nofun⟩
      · cases h
    · cases h

theorem turn_memory {t : Moment} {m : Memory} {k : κ} {s : σ} {stimulus : Stimulus}
    {r : Turned κ σ} (h : mc.turn? t m k s stimulus = some r) :
    (∃ c, r.exchange = some ⟨c, (m.perform t.wall c).1⟩ ∧ r.memory = (m.perform t.wall c).2) ∨
      r.memory = m :=
  (turn_exchange h).imp_right fun h => h.1

/-! ## A machine inside another -/

section Carries

variable {κ' σ' α' : Type} {mc' : Machine κ' σ' α'} {wrap : σ → σ'} {part : κ' → κ}
  {settle : Moment → κ' → κ × σ → κ' × σ'}

/-- Around a state of `mc`, `mc'` waits for what `mc` waits for. The cell of `mc` is a part of the
cell of `mc'`, and `settle` puts what has become of it back. -/
structure Carries (mc : Machine κ σ α) (mc' : Machine κ' σ' α') (wrap : σ → σ') (part : κ' → κ)
    (settle : Moment → κ' → κ × σ → κ' × σ') : Prop where
  call (s : σ) (c : Call) (resume : Moment → κ → Answer c → κ × σ)
    (h : mc.next s = .call c resume) :
    mc'.next (wrap s) = .call c fun t k x => settle t k (resume t (part k) x)
  rest (s : σ) (d : Span) (resume : Moment → κ → κ × σ) (h : mc.next s = .rest d resume) :
    mc'.next (wrap s) = .rest d fun t k => settle t k (resume t (part k))
  done (s : σ) (a : α) (h : mc.next s = .done a) : ∃ a', mc'.next (wrap s) = .done a'

/-- The outer machine gives up when the inner one does. -/
structure Hosts (mc : Machine κ σ α) (mc' : Machine κ' σ' α') (wrap : σ → σ') (part : κ' → κ)
    (settle : Moment → κ' → κ × σ → κ' × σ') : Prop extends mc.Carries mc' wrap part settle where
  limit (s : σ) : mc'.limit (wrap s) = mc.limit s
  expire (t : Moment) (k : κ') (s : σ) :
    mc'.expire t k (wrap s) = settle t k (mc.expire t (part k) s)

structure Inside (settle : κ × σ → κ' × σ') (q : Turned κ σ) (r : Turned κ' σ') : Prop where
  exchange : r.exchange = q.exchange
  memory : r.memory = q.memory
  cell : r.cell = (settle (q.cell, q.state)).1
  state : r.state = (settle (q.cell, q.state)).2

variable {t : Moment} {m : Memory} {k : κ'} {s : σ} {stimulus : Stimulus} {r : Turned κ' σ'}

theorem Carries.turn_inner (hc : mc.Carries mc' wrap part settle) (hne : stimulus ≠ .expire)
    (h : mc'.turn? t m k (wrap s) stimulus = some r) :
    ∃ q, mc.turn? t m (part k) s stimulus = some q ∧ Inside (settle t k) q r := by
  cases hnext : mc.next s with
  | call c resume =>
    have hnext' := hc.call s c resume hnext
    cases stimulus with
    | reply =>
      rw [turn?, hnext'] at h
      cases h
      exact ⟨_, by rw [turn?, hnext], rfl, rfl, rfl, rfl⟩
    | refuse fault =>
      rw [turn?, hnext'] at h
      cases h
      exact ⟨_, by rw [turn?, hnext], rfl, rfl, rfl, rfl⟩
    | wake =>
      rw [turn?, hnext'] at h
      cases h
    | expire => exact absurd rfl hne
  | rest d resume =>
    have hnext' := hc.rest s d resume hnext
    cases stimulus with
    | wake =>
      rw [turn?, hnext'] at h
      cases h
      exact ⟨_, by rw [turn?, hnext], rfl, rfl, rfl, rfl⟩
    | expire => exact absurd rfl hne
    | _ =>
      rw [turn?, hnext'] at h
      cases h
  | done a =>
    obtain ⟨a', hnext'⟩ := hc.done s a hnext
    cases stimulus with
    | expire => exact absurd rfl hne
    | _ =>
      rw [turn?, hnext'] at h
      cases h

theorem Hosts.turn_inner (hh : mc.Hosts mc' wrap part settle)
    (h : mc'.turn? t m k (wrap s) stimulus = some r) :
    ∃ q, mc.turn? t m (part k) s stimulus = some q ∧ Inside (settle t k) q r := by
  by_cases hexpire : stimulus = .expire
  · subst hexpire
    rw [turn?, hh.limit, hh.expire] at h
    cases hl : mc.limit s with
    | none =>
      rw [hl] at h
      cases h
    | some l =>
      rw [hl] at h
      dsimp only at h
      split at h
      · next hle =>
        cases h
        exact ⟨_, by rw [turn?, hl]; exact if_pos hle, rfl, rfl, rfl, rfl⟩
      · cases h
  · exact hh.toCarries.turn_inner hexpire h

end Carries

/-! ### On one cell -/

variable {σ' α' : Type} {mc' : Machine κ σ' α'} {wrap : σ → σ'} {settle : Moment → κ × σ → κ × σ'}

/-- Around a state of `mc`, `mc'` waits for what `mc` waits for, and lets `settle` have the outcome.
-/
structure Wraps (mc : Machine κ σ α) (mc' : Machine κ σ' α') (wrap : σ → σ')
    (settle : Moment → κ × σ → κ × σ') : Prop where
  call (s : σ) (c : Call) (resume : Moment → κ → Answer c → κ × σ)
    (h : mc.next s = .call c resume) :
    mc'.next (wrap s) = .call c fun t k x => settle t (resume t k x)
  rest (s : σ) (d : Span) (resume : Moment → κ → κ × σ) (h : mc.next s = .rest d resume) :
    mc'.next (wrap s) = .rest d fun t k => settle t (resume t k)
  done (s : σ) (a : α) (h : mc.next s = .done a) : ∃ a', mc'.next (wrap s) = .done a'

/-- The outer machine gives up when the inner one does. -/
structure Encloses (mc : Machine κ σ α) (mc' : Machine κ σ' α') (wrap : σ → σ')
    (settle : Moment → κ × σ → κ × σ') : Prop extends mc.Wraps mc' wrap settle where
  limit (s : σ) : mc'.limit (wrap s) = mc.limit s
  expire (t : Moment) (k : κ) (s : σ) : mc'.expire t k (wrap s) = settle t (mc.expire t k s)

variable {t : Moment} {m : Memory} {k : κ} {s : σ} {stimulus : Stimulus} {r : Turned κ σ'}

theorem Wraps.carries (hw : mc.Wraps mc' wrap settle) :
    mc.Carries mc' wrap id fun t _ s => settle t s :=
  ⟨hw.call, hw.rest, hw.done⟩

theorem Encloses.hosts (he : mc.Encloses mc' wrap settle) :
    mc.Hosts mc' wrap id fun t _ s => settle t s :=
  ⟨he.toWraps.carries, he.limit, he.expire⟩

theorem Wraps.turn_inner (hw : mc.Wraps mc' wrap settle) (hne : stimulus ≠ .expire)
    (h : mc'.turn? t m k (wrap s) stimulus = some r) :
    ∃ q, mc.turn? t m k s stimulus = some q ∧ Inside (settle t) q r :=
  hw.carries.turn_inner hne h

theorem Encloses.turn_inner (he : mc.Encloses mc' wrap settle)
    (h : mc'.turn? t m k (wrap s) stimulus = some r) :
    ∃ q, mc.turn? t m k s stimulus = some q ∧ Inside (settle t) q r :=
  he.hosts.turn_inner h

end Machine

/-! ## Many operations -/

/-- Operations named by `ι`, each on one of the objects named by `γ`; those on one object share its
cell. -/
structure Crew (ι γ κ : Type) where
  object : ι → γ
  Phase : ι → Type
  Outcome : ι → Type
  operation : (i : ι) → Operation κ (Phase i) (Outcome i)

/-- An exchange with the store, by whom and when. -/
structure Crew.Note (ι : Type) where
  who : ι
  time : Moment
  exchange : Exchange

structure Crew.State {ι γ κ : Type} (c : Crew ι γ κ) where
  memory : Memory
  clock : Moment
  cells : γ → κ
  /-- Where each operation stands that was started. -/
  phase : (i : ι) → Option (c.Phase i)
  /-- All exchanges so far, the latest last. -/
  log : List (Crew.Note ι)

namespace Crew

variable {ι γ κ : Type} [DecidableEq ι] [DecidableEq γ] (c : Crew ι γ κ)

def initial (m : Memory) (t : Moment) (cells : γ → κ) : c.State := ⟨m, t, cells, fun _ => none, []⟩

inductive Event (ι : Type) where
  | start (i : ι)
  | turn (i : ι) (stimulus : Stimulus)

def Event.who : Event ι → ι
  | start i => i
  | turn i _ => i

def Event.isCalm : Event ι → Bool
  | start _ => true
  | turn _ stimulus => stimulus.isCalm

variable {c}

namespace State

def cellOf (s : c.State) (i : ι) : κ := s.cells (c.object i)

def settle (s : c.State) (i : ι) (k : κ) (p : c.Phase i) : c.State :=
  { s with
    cells := Function.update s.cells (c.object i) k
    phase := Function.update s.phase i (some p) }

def note (s : c.State) (i : ι) : Option Exchange → List (Note ι)
  | none => s.log
  | some x => s.log ++ [⟨i, s.clock, x⟩]

def after (s : c.State) (i : ι) (r : Turned κ (c.Phase i)) : c.State :=
  { s with memory := r.memory, log := s.note i r.exchange }.settle i r.cell r.state

def act? (s : c.State) : Event ι → Option c.State
  | .start i =>
    match s.phase i with
    | none =>
      let (k, p) := (c.operation i).start s.clock (s.cellOf i)
      some (s.settle i k p)
    | some _ => none
  | .turn i stimulus =>
    match s.phase i with
    | none => none
    | some p =>
      ((c.operation i).machine.turn? s.clock s.memory (s.cellOf i) p stimulus).map (s.after i)

end State

/-- Either time goes by, as far as `flow` allows, or an operation acts. -/
inductive Step (c : Crew ι γ κ) (flow : Moment → Moment → Prop) (s : c.State) : c.State → Prop where
  | pass {t : Moment} (h : flow s.clock t) : Step c flow s { s with clock := t }
  | act {e : Event ι} {s' : c.State} (h : s.act? e = some s') : Step c flow s s'

abbrev Reachable (c : Crew ι γ κ) (flow : Moment → Moment → Prop) : c.State → c.State → Prop :=
  Relation.ReflTransGen (c.Step flow)

/-- A step in which the operations act only as `allowed` says. -/
inductive StepIf (c : Crew ι γ κ) (flow : Moment → Moment → Prop) (allowed : Event ι → Prop)
    (s : c.State) : c.State → Prop where
  | pass {t : Moment} (h : flow s.clock t) : StepIf c flow allowed s { s with clock := t }
  | act {e : Event ι} {s' : c.State} (he : allowed e) (h : s.act? e = some s') :
    StepIf c flow allowed s s'

abbrev ReachableIf (c : Crew ι γ κ) (flow : Moment → Moment → Prop) (allowed : Event ι → Prop) :
    c.State → c.State → Prop :=
  Relation.ReflTransGen (c.StepIf flow allowed)

theorem StepIf.step {flow : Moment → Moment → Prop} {allowed : Event ι → Prop} {s s' : c.State}
    (h : c.StepIf flow allowed s s') : c.Step flow s s' := by
  cases h with
  | pass ht => exact .pass ht
  | act he hact => exact .act hact

theorem reachable_of_if {flow : Moment → Moment → Prop} {allowed : Event ι → Prop} {s s' : c.State}
    (h : c.ReachableIf flow allowed s s') : c.Reachable flow s s' :=
  h.lift id fun _ _ hstep => hstep.step

/-! ## What an event does -/

namespace State

theorem start_inv {s s' : c.State} {i : ι} (h : s.act? (.start i) = some s') :
    s.phase i = none ∧
      s' = s.settle i ((c.operation i).start s.clock (s.cellOf i)).1
        ((c.operation i).start s.clock (s.cellOf i)).2 := by
  rw [act?] at h
  split at h
  · next hp => exact ⟨hp, (Option.some.inj h).symm⟩
  · cases h

theorem turn_inv {s s' : c.State} {i : ι} {stimulus : Stimulus}
    (h : s.act? (.turn i stimulus) = some s') :
    ∃ p r, s.phase i = some p ∧
      (c.operation i).machine.turn? s.clock s.memory (s.cellOf i) p stimulus = some r ∧
      s' = s.after i r := by
  rw [act?] at h
  split at h
  · cases h
  · next p hp =>
    obtain ⟨r, hr, hs⟩ := Option.map_eq_some_iff.mp h
    exact ⟨p, r, hp, hr, hs.symm⟩

theorem act_inv {s s' : c.State} {e : Event ι} (h : s.act? e = some s') :
    (s.phase e.who = none ∧
      s' = s.settle e.who ((c.operation e.who).start s.clock (s.cellOf e.who)).1
        ((c.operation e.who).start s.clock (s.cellOf e.who)).2) ∨
    ∃ p stimulus r, s.phase e.who = some p ∧
      (c.operation e.who).machine.turn? s.clock s.memory (s.cellOf e.who) p stimulus = some r ∧
      s' = s.after e.who r := by
  cases e with
  | start i => exact .inl (start_inv h)
  | turn i stimulus =>
    obtain ⟨p, r, hp, hr, hs⟩ := turn_inv h
    exact .inr ⟨p, stimulus, r, hp, hr, hs⟩

theorem act_cases {s s' : c.State} {e : Event ι} (h : s.act? e = some s') :
    (∃ i, s.phase i = none ∧
      s' = s.settle i ((c.operation i).start s.clock (s.cellOf i)).1
        ((c.operation i).start s.clock (s.cellOf i)).2) ∨
    ∃ i p stimulus r, s.phase i = some p ∧
      (c.operation i).machine.turn? s.clock s.memory (s.cellOf i) p stimulus = some r ∧
      s' = s.after i r :=
  (act_inv h).imp (fun h => ⟨e.who, h⟩) fun h => ⟨e.who, h⟩

theorem act_clock {s s' : c.State} {e : Event ι} (h : s.act? e = some s') : s'.clock = s.clock := by
  obtain ⟨-, rfl⟩ | ⟨p, stimulus, r, -, -, rfl⟩ := act_inv h
  · rfl
  · rfl

theorem settle_phase_self (s : c.State) (i : ι) (k : κ) (p : c.Phase i) :
    (s.settle i k p).phase i = some p :=
  Function.update_self ..

theorem settle_phase_of_ne (s : c.State) {i j : ι} (h : j ≠ i) (k : κ) (p : c.Phase i) :
    (s.settle i k p).phase j = s.phase j :=
  Function.update_of_ne h ..

theorem after_phase_self (s : c.State) (i : ι) (r : Turned κ (c.Phase i)) :
    (s.after i r).phase i = some r.state :=
  Function.update_self ..

theorem after_phase_of_ne (s : c.State) {i j : ι} (h : j ≠ i) (r : Turned κ (c.Phase i)) :
    (s.after i r).phase j = s.phase j :=
  Function.update_of_ne h ..

/-- What holds of every phase still does after an event that has led to such a phase. -/
theorem forall_phase_settle {P : (i : ι) → c.Phase i → Prop} {s : c.State}
    (h : ∀ j q, s.phase j = some q → P j q) {i : ι} {p : c.Phase i} (hp : P i p) (k : κ) (j : ι)
    (q : c.Phase j) (hq : (s.settle i k p).phase j = some q) : P j q := by
  by_cases hji : j = i
  · subst hji
    rw [settle_phase_self] at hq
    exact Option.some.inj hq ▸ hp
  · rw [settle_phase_of_ne s hji] at hq
    exact h j q hq

theorem forall_phase_after {P : (i : ι) → c.Phase i → Prop} {s : c.State}
    (h : ∀ j q, s.phase j = some q → P j q) {i : ι} {r : Turned κ (c.Phase i)} (hr : P i r.state)
    (j : ι) (q : c.Phase j) (hq : (s.after i r).phase j = some q) : P j q := by
  have hnoted : ∀ j q, State.phase { s with memory := r.memory, log := s.note i r.exchange } j =
      some q → P j q := h
  exact forall_phase_settle hnoted hr r.cell j q hq

theorem settle_cells (s : c.State) (i : ι) (k : κ) (p : c.Phase i) (g : γ) :
    (s.settle i k p).cells g = if g = c.object i then k else s.cells g :=
  Function.update_apply ..

theorem after_cells (s : c.State) (i : ι) (r : Turned κ (c.Phase i)) (g : γ) :
    (s.after i r).cells g = if g = c.object i then r.cell else s.cells g :=
  Function.update_apply ..

end State

theorem Step.log_prefix {flow : Moment → Moment → Prop} {s s' : c.State}
    (h : c.Step flow s s') : s.log <+: s'.log := by
  cases h with
  | pass ht => exact List.prefix_rfl
  | act hact =>
    obtain ⟨i, -, rfl⟩ | ⟨i, p, stimulus, r, hp, hr, rfl⟩ := State.act_cases hact
    · exact List.prefix_rfl
    · change s.log <+: s.note i r.exchange
      cases r.exchange with
      | none => exact List.prefix_rfl
      | some x => exact List.prefix_append _ _

theorem log_prefix {flow : Moment → Moment → Prop} {s s' : c.State}
    (h : c.Reachable flow s s') : s.log <+: s'.log := by
  induction h with
  | refl => exact List.prefix_rfl
  | tail _ hstep ih => exact ih.trans hstep.log_prefix

/-! ## Runs that were written down -/

/-- So many seconds after the start of a run that began with the epoch. -/
def second (n : Nat) : Moment := ⟨.ofSeconds n, ⟨n, 0⟩⟩

abbrev Script (ι : Type) : Type := List (Moment × Event ι)

-- A script names the members of its crew by numerals. With these two the text of one refers to a
-- constant, where it would else carry a proof of its own that the crew is not empty.
instance crewOfThree : @NeZero Nat Zero.ofOfNat0 3 := ⟨Nat.succ_ne_zero 2⟩

instance crewOfSix : @NeZero Nat Zero.ofOfNat0 6 := ⟨Nat.succ_ne_zero 5⟩

/-- Plays a script: before each event the clock moves to its time. -/
def State.play? (flow : Moment → Moment → Prop) [DecidableRel flow] (s : c.State) :
    Script ι → Option c.State
  | [] => some s
  | (t, e) :: rest =>
    if flow s.clock t then ({ s with clock := t }.act? e).bind fun s => s.play? flow rest else none

theorem State.reachableIf_of_play {flow : Moment → Moment → Prop} [DecidableRel flow]
    {allowed : Event ι → Prop} {script : Script ι} (hall : ∀ te ∈ script, allowed te.2)
    {s s' : c.State} (h : s.play? flow script = some s') : c.ReachableIf flow allowed s s' := by
  induction script generalizing s with
  | nil =>
    cases h
    exact .refl
  | cons event rest ih =>
    obtain ⟨t, e⟩ := event
    rw [play?] at h
    split at h
    · next hflow =>
      obtain ⟨s₁, hact, hrest⟩ := Option.bind_eq_some_iff.mp h
      have he : allowed e := hall (t, e) (by simp)
      have hall' : ∀ te ∈ rest, allowed te.2 := fun te hte => hall te (by simp [hte])
      exact .head (.pass hflow) (.head (.act he hact) (ih hall' hrest))
    · cases h

theorem State.reachable_of_play {flow : Moment → Moment → Prop} [DecidableRel flow]
    {script : Script ι} {s s' : c.State} (h : s.play? flow script = some s') :
    c.Reachable flow s s' := by
  have hrun : c.ReachableIf flow (fun _ => True) s s' :=
    reachableIf_of_play (fun _ _ => trivial) h
  exact reachable_of_if hrun

end Crew

end MigrationLedger
