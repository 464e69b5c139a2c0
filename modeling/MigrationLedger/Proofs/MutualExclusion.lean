import MigrationLedger.Proofs.HeldLease

/-! Who holds the lock, as the holders see it. A holder counts the last instant of its lease as its
own, while for the others the lease has run out by then. So at the instant at which a lease ends two
holders may both hold the lock, and at no other. -/

namespace MigrationLedger

namespace MutualExclusion

variable {ι γ : Type} {v : Rivals γ} {calls : ι → HolderCall γ} {s : (holders v calls).State}

def HeldBy (s : (holders v calls).State) (g : γ) : Prop :=
  (s.cells g).isHeldAt s.clock.wall = true

def Running (s : (holders v calls).State) (g : γ) : Prop :=
  (s.cells g).released = false ∧ ∃ expiry, (s.cells g).expiresAt = some expiry ∧
    s.clock.wall < expiry

def Ending (s : (holders v calls).State) (g : γ) : Prop :=
  (s.cells g).released = false ∧ (s.cells g).expiresAt = some s.clock.wall

theorem heldBy_iff {g : γ} : HeldBy s g ↔ Running s g ∨ Ending s g := by
  rw [HeldBy, Hold.isHeldAt, Running, Ending]
  cases hexpiry : (s.cells g).expiresAt with
  | none => simp
  | some expiry =>
    simp only [Bool.and_eq_true, Bool.not_eq_true', Option.any_some, decide_eq_true_eq,
      Option.some.injEq]
    constructor
    · rintro ⟨hreleased, hle⟩
      rcases lt_or_eq_of_le hle with hlt | heq
      · exact .inl ⟨hreleased, expiry, rfl, hlt⟩
      · exact .inr ⟨hreleased, heq.symm⟩
    · rintro (⟨hreleased, other, rfl, hlt⟩ | ⟨hreleased, heq⟩)
      · exact ⟨hreleased, le_of_lt hlt⟩
      · exact ⟨hreleased, le_of_eq heq.symm⟩

variable [DecidableEq ι]

theorem running_unique (h : HeldLease.Faithful s) {a b : γ} (ha : Running s a) (hb : Running s b) :
    a = b := by
  obtain ⟨hreleased, expiry, hexpiry, hlt⟩ := ha
  obtain ⟨hreleased', expiry', hexpiry', hlt'⟩ := hb
  obtain ⟨item, hitem, hlease⟩ := (h.held a expiry hreleased hexpiry hlt).ofItem
  obtain ⟨item', hitem', hlease'⟩ := (h.held b expiry' hreleased' hexpiry' hlt').ofItem
  cases hitem.symm.trans hitem'
  have howner : v.owner a = v.owner b :=
    congrArg Lease.owner (Except.ok.inj (hlease.symm.trans hlease'))
  exact v.distinct howner

/-- At most one holder has a lease that goes on, and two hold the lock exactly when the lease of one
of them ends while the other one holds. -/
structure Excluded (s : (holders v calls).State) : Prop where
  running : ∀ a b, Running s a → Running s b → a = b
  held_iff : (∃ a b, a ≠ b ∧ HeldBy s a ∧ HeldBy s b) ↔ ∃ a b, a ≠ b ∧ Ending s a ∧ HeldBy s b

variable [DecidableEq γ]

/-- Holders exclude each other, but for the instant at which a lease ends. -/
theorem holders_excluded (v : Rivals γ) (calls : ι → HolderCall γ) {m₀ : Memory}
    (hkeyed : m₀.KeyedBy v.table Lease.schema) {t₀ : Moment} (ht₀ : t₀.wall.IsValid)
    {s : (holders v calls).State} (hs : (holders v calls).Reachable Moment.Ticks
      ((holders v calls).initial m₀ t₀ fun _ => {}) s) : Excluded s := by
  have hfaithful := (HeldLease.faithful_initial hkeyed ht₀).run hs
  refine ⟨fun a b => running_unique hfaithful, ?_, ?_⟩
  · rintro ⟨a, b, hne, ha, hb⟩
    rcases heldBy_iff.mp ha with hrunning | hending
    · rcases heldBy_iff.mp hb with hrunning' | hending'
      · exact absurd (running_unique hfaithful hrunning hrunning') hne
      · exact ⟨b, a, Ne.symm hne, hending', ha⟩
    · exact ⟨a, b, hne, hending, hb⟩
  · rintro ⟨a, b, hne, hending, hb⟩
    exact ⟨a, b, hne, heldBy_iff.mpr (.inr hending), hb⟩

/-- The second holder comes at the very instant at which the lease of the first one ends. -/
def handoverScript : Crew.Script Bool :=
  [(Crew.second 0, .start false), (Crew.second 0, .turn false .reply),
    (Crew.second 0, .turn false .reply), (Crew.second 60, .start true),
    (Crew.second 60, .turn true .reply), (Crew.second 60, .turn true .reply)]

def handoverCalls (second : Bool) : HolderCall Bool := ⟨second, .acquire⟩

def handoverStart : (holders HeldLease.pair handoverCalls).State :=
  (holders HeldLease.pair handoverCalls).initial
    (({} : Memory).createActive "locks" Lease.schema default) (Crew.second 0) fun _ => {}

theorem holders_excluded_at_handover :
    ∃ s, handoverStart.play? Moment.Ticks handoverScript = some s ∧ Excluded s := by
  have hsome : (handoverStart.play? Moment.Ticks handoverScript).isSome = true := by
    decide +kernel
  obtain ⟨s, hs⟩ := Option.isSome_iff_exists.mp hsome
  exact ⟨s, hs, holders_excluded HeldLease.pair handoverCalls (by rintro t ⟨⟩; rfl)
    (show Instant.IsValid ⟨0, 0⟩ by decide) (Crew.State.reachable_of_play hs)⟩

theorem both_held_at_handover :
    ∃ s, (holders HeldLease.pair handoverCalls).Reachable Moment.Ticks handoverStart s ∧
      HeldBy s false ∧ HeldBy s true := by
  have hrun : (handoverStart.play? Moment.Ticks handoverScript).map (fun s =>
      ((s.cells false).isHeldAt s.clock.wall, (s.cells true).isHeldAt s.clock.wall)) =
        some (true, true) := by decide +kernel
  obtain ⟨s, hs, hheld⟩ := Option.map_eq_some_iff.mp hrun
  have hfirst : (s.cells false).isHeldAt s.clock.wall = true := congrArg (·.1) hheld
  have hsecond : (s.cells true).isHeldAt s.clock.wall = true := congrArg (·.2) hheld
  exact ⟨s, Crew.State.reachable_of_play hs, hfirst, hsecond⟩

end MutualExclusion

end MigrationLedger
