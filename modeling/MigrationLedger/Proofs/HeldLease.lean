import MigrationLedger.Proofs.HolderTurns

/-! Holders that compete for one lock. As long as the lease that a holder believes in has not run
out, it is what is stored. -/

namespace MigrationLedger

structure Rivals (γ : Type) where
  table : String
  key : String
  owner : γ → String
  distinct : Function.Injective owner
  options : γ → LockOptions
  tableOptions : γ → TableOptions

namespace Rivals

variable {γ : Type}

def holder (v : Rivals γ) (g : γ) : Holder :=
  ⟨⟨v.table, v.tableOptions g⟩, v.key, v.owner g, v.options g⟩

def lease (v : Rivals γ) (g : γ) (expiry : Instant) : Lease := ⟨v.key, .held, v.owner g, expiry⟩

/-- The record of the lock is the lease of a holder that ends at `expiry`. -/
def Stored (v : Rivals γ) (m : Memory) (g : γ) (expiry : Instant) : Prop :=
  expiry.IsValid ∧
    ∃ n, m.item? v.table v.key = some (Item.withRevision (v.lease g expiry).toItem n)

theorem Stored.ofItem {v : Rivals γ} {m : Memory} {g : γ} {expiry : Instant}
    (h : v.Stored m g expiry) :
    ∃ item, m.item? v.table v.key = some item ∧ Lease.ofItem item = .ok (v.lease g expiry) := by
  obtain ⟨hvalid, n, hitem⟩ := h
  exact ⟨_, hitem, Lease.ofItem_toItem hvalid _⟩

theorem Stored.not_permits {v : Rivals γ} {m : Memory} {g other : γ} {expiry now : Instant}
    {d : Draft} (h : v.Stored m g expiry) (hne : g ≠ other) (hread : d.read = m.item? v.table v.key)
    (hlt : now < expiry) : ¬LeasePermit v.key (v.owner other) now d := by
  intro hpermit
  obtain ⟨item, hitem, hlease⟩ := h.ofItem
  obtain ⟨cur, hcur, hblocks⟩ := hpermit.replaced item (hread.trans hitem)
  cases hlease.symm.trans hcur
  rcases Lease.blocks_eq_false.mp hblocks with howner | hstatus | hle
  · exact hne (v.distinct howner)
  · cases hstatus
  · exact absurd hlt (not_lt_of_ge hle)

end Rivals

structure HolderCall (γ : Type) where
  holder : γ
  action : HolderAction

abbrev holders {ι γ : Type} (v : Rivals γ) (calls : ι → HolderCall γ) : Crew ι γ Hold where
  object i := (calls i).holder
  Phase i := (calls i).action.Phase
  Outcome i := (calls i).action.Outcome
  operation i := (calls i).action.operation (v.holder (calls i).holder)

/-- The wall clock does not run backwards, and shows instants of the calendar. -/
def Moment.Ticks (a b : Moment) : Prop := a.Forward b ∧ b.wall.IsValid

instance : DecidableRel Moment.Ticks := fun a b =>
  inferInstanceAs (Decidable (a.Forward b ∧ b.wall.IsValid))

theorem Moment.wall_le_of_ticks {a b : Moment} (h : Relation.ReflTransGen Moment.Ticks a b) :
    a.wall ≤ b.wall :=
  Moment.wall_le (h.lift id fun _ _ hstep => hstep.1)

namespace HeldLease

variable {ι γ : Type} {v : Rivals γ} {calls : ι → HolderCall γ}

def drafting (v : Rivals γ) (calls : ι → HolderCall γ) :
    (holders v calls).Drafting v.table Lease.schema where
  key _ := v.key
  draft? i := (calls i).action.draft?
  permits i t := LeasePermit v.key (v.owner (calls i).holder) t.wall
  keyed := Lease.partitionKey_ne
  start _ _ _ := (HolderAction.start_spec ..).1
  addressed := LeasePermit.addressed

variable [DecidableEq ι]

structure Faithful (s : (holders v calls).State) : Prop where
  coherent : (drafting v calls).Coherent Moment.Ticks s
  clock : s.clock.wall.IsValid
  fits : ∀ i p, s.phase i = some p → (calls i).action.Fits (v.holder (calls i).holder) p
  /-- From the start of its release on, a holder is spent. -/
  spent : ∀ i p, s.phase i = some p → (calls i).action = .release →
    (s.cells (calls i).holder).released = true
  held : ∀ g expiry, (s.cells g).released = false → (s.cells g).expiresAt = some expiry →
    s.clock.wall < expiry → v.Stored s.memory g expiry

variable {s s' : (holders v calls).State}

theorem faithful_initial {m : Memory} (h : m.KeyedBy v.table Lease.schema) {t : Moment}
    (ht : t.wall.IsValid) : Faithful ((holders v calls).initial m t fun _ => {}) where
  coherent := (drafting v calls).coherent_initial Moment.Ticks h t _
  clock := ht
  fits i p hp := by cases hp
  spent i p hp := by cases hp
  held g expiry hreleased hexpiry := by cases hexpiry

theorem Faithful.pass (h : Faithful s) {t : Moment} (ht : s.clock.Ticks t) :
    Faithful { s with clock := t } where
  coherent := ⟨h.coherent.keyedBy, fun i p d hp hd => (h.coherent.sound i p d hp hd).pass ht⟩
  clock := ht.2
  fits := h.fits
  spent := h.spent
  held g expiry hreleased hexpiry hlt :=
    h.held g expiry hreleased hexpiry (lt_of_le_of_lt ht.1 hlt)

theorem Faithful.stored_of_ne (h : Faithful s) {i : ι} {p : (calls i).action.Phase}
    (hp : s.phase i = some p) {x : Option Exchange} {m' : Memory} {after : Option Draft}
    (heffect : Effect v.table v.key (LeasePermit v.key (v.owner (calls i).holder) s.clock.wall)
      s.memory ((calls i).action.draft? p) x m' after)
    {g : γ} (hne : g ≠ (calls i).holder) {expiry : Instant} (hlt : s.clock.wall < expiry)
    (hstored : v.Stored s.memory g expiry) : v.Stored m' g expiry := by
  cases heffect with
  | idle hafter hm hx => exact hm ▸ hstored
  | read d hafter hm hx hread hpermits => exact hm ▸ hstored
  | wrote d k hbefore hafter hx hkey hunchanged hputs =>
    have hsound := h.coherent.sound i p d hp hbefore
    obtain ⟨rfl, hread⟩ := hsound.replaces h.coherent.keyedBy hkey hunchanged
    obtain ⟨t, hflow, hpermits⟩ := hsound.decided
    -- the lease ran already when the others decided, so it blocked them
    have hthen : t.wall < expiry := lt_of_le_of_lt (Moment.wall_le_of_ticks hflow) hlt
    exact absurd hpermits (hstored.not_permits hne hread.symm hthen)

/-- A lease is stored by the turn that notes it, even when it has run out by then. -/
theorem Faithful.stored_noted (h : Faithful s) {i : ι} {p : (calls i).action.Phase}
    (hp : s.phase i = some p) {x : Option Exchange} {m' : Memory} {after : Option Draft}
    (heffect : Effect v.table v.key (LeasePermit v.key (v.owner (calls i).holder) s.clock.wall)
      s.memory ((calls i).action.draft? p) x m' after) (hx : x.any isPut = true) {now : Instant}
    (hnow : now.IsValid) (hitem : ∀ d, (calls i).action.draft? p = some d →
      d.item = ((v.holder (calls i).holder).leaseAt now).toItem) :
    v.Stored m' (calls i).holder ((v.options (calls i).holder).leaseEnd now) := by
  cases heffect with
  | idle hafter hm hx' => cases hx'.symm.trans hx
  | read d hafter hm hx' hread hpermits =>
    rw [hx'] at hx
    cases hx
  | wrote d k hdraft hafter hx' hkey hunchanged hputs =>
    obtain ⟨rfl, -⟩ := (h.coherent.sound i p d hp hdraft).replaces h.coherent.keyedBy hkey
      hunchanged
    refine ⟨LockOptions.isValid_leaseEnd _ hnow, nextRevision d.read, ?_⟩
    have hwritten := hputs.self
    rw [Draft.written, hitem d hdraft] at hwritten
    exact hwritten

theorem Faithful.stored_self (h : Faithful s) {i : ι} {p : (calls i).action.Phase}
    (hp : s.phase i = some p) {x : Option Exchange} {m' : Memory} {after : Option Draft}
    (heffect : Effect v.table v.key (LeasePermit v.key (v.owner (calls i).holder) s.clock.wall)
      s.memory ((calls i).action.draft? p) x m' after) {k' : Hold}
    (hbelieving : (v.holder (calls i).holder).Believing ((calls i).action = .release)
      (s.cells (calls i).holder) ((calls i).action.draft? p) x k')
    (hreleased : k'.released = false) {expiry : Instant} (hexpiry : k'.expiresAt = some expiry)
    (hlt : s.clock.wall < expiry) : v.Stored m' (calls i).holder expiry := by
  have hbefore : (s.cells (calls i).holder).released = false := hbelieving.released ▸ hreleased
  cases hbelieving with
  | keeps hx hsame hkept =>
    rcases hkept with hkept | hnone
    · rw [heffect.memory_eq hx]
      exact h.held _ expiry hbefore (hkept.symm.trans hexpiry) hlt
    · cases hnone.symm.trans hexpiry
  | notes hx now hnow hitem hk =>
    rw [hk, Holder.noteLease, hbefore] at hexpiry
    obtain rfl : (v.options (calls i).holder).leaseEnd now = expiry := Option.some.inj hexpiry
    exact h.stored_noted hp heffect hx hnow hitem
  | givesBack hreleases hk =>
    -- a holder that gives back believes in nothing any more
    rw [h.spent i p hp hreleases] at hbefore
    cases hbefore

variable [DecidableEq γ]

theorem Faithful.start (h : Faithful s) (i : ι) :
    Faithful (s.settle i (((holders v calls).operation i).start s.clock (s.cellOf i)).1
      (((holders v calls).operation i).start s.clock (s.cellOf i)).2) := by
  obtain ⟨-, hfits, hcell⟩ := HolderAction.start_spec (v.holder (calls i).holder) (calls i).action
    s.clock (s.cellOf i)
  refine ⟨h.coherent.start i, h.clock, fun j p hj => ?_, fun j p hj hrelease => ?_,
    fun g expiry hreleased hexpiry hlt => ?_⟩
  · by_cases hji : j = i
    · subst hji
      rw [Crew.State.settle_phase_self] at hj
      cases hj
      exact hfits h.clock
    · rw [Crew.State.settle_phase_of_ne _ hji] at hj
      exact h.fits j p hj
  · rw [Crew.State.settle_cells, hcell]
    by_cases hji : j = i
    · subst hji
      rw [if_pos rfl, if_pos hrelease]
    · rw [Crew.State.settle_phase_of_ne _ hji] at hj
      have hspent := h.spent j p hj hrelease
      split
      · next hholder =>
        split
        · rfl
        · exact (congrArg (fun g => (s.cells g).released) hholder).symm.trans hspent
      · exact hspent
  · rw [Crew.State.settle_cells, hcell] at hreleased hexpiry
    split at hreleased
    · next hholder =>
      rw [if_pos hholder] at hexpiry
      split at hreleased
      · cases hreleased
      · next hrelease =>
        rw [if_neg hrelease] at hexpiry
        subst hholder
        exact h.held _ expiry hreleased hexpiry hlt
    · next hholder =>
      rw [if_neg hholder] at hexpiry
      exact h.held g expiry hreleased hexpiry hlt

theorem Faithful.after (h : Faithful s) {i : ι} {p : (calls i).action.Phase} {stimulus : Stimulus}
    {r : Turned Hold (calls i).action.Phase} (hp : s.phase i = some p)
    (hr : ((holders v calls).operation i).machine.turn? s.clock s.memory (s.cellOf i) p stimulus =
      some r) : Faithful (s.after i r) := by
  obtain ⟨heffect, hbelieving, hfits⟩ := HolderAction.turn_spec (h.fits i p hp) h.clock hr
  refine ⟨h.coherent.after hp heffect, h.clock, fun j q hj => ?_, fun j q hj hrelease => ?_,
    fun g expiry hreleased hexpiry hlt => ?_⟩
  · by_cases hji : j = i
    · subst hji
      rw [Crew.State.after_phase_self] at hj
      cases hj
      exact hfits
    · rw [Crew.State.after_phase_of_ne _ hji] at hj
      exact h.fits j q hj
  · have hspent : (s.cells (calls j).holder).released = true := by
      by_cases hji : j = i
      · subst hji
        exact h.spent j p hp hrelease
      · rw [Crew.State.after_phase_of_ne _ hji] at hj
        exact h.spent j q hj hrelease
    rw [Crew.State.after_cells]
    split
    · next hholder =>
      rw [hbelieving.released]
      exact (congrArg (fun g => (s.cells g).released) hholder).symm.trans hspent
    · exact hspent
  · rw [Crew.State.after_cells] at hreleased hexpiry
    split at hreleased
    · next hholder =>
      rw [if_pos hholder] at hexpiry
      subst hholder
      exact h.stored_self hp heffect hbelieving hreleased hexpiry hlt
    · next hholder =>
      rw [if_neg hholder] at hexpiry
      exact h.stored_of_ne hp heffect hholder hlt (h.held g expiry hreleased hexpiry hlt)

theorem Faithful.run (h : Faithful s) (hrun : (holders v calls).Reachable Moment.Ticks s s') :
    Faithful s' := by
  induction hrun with
  | refl => exact h
  | tail _ hstep ih =>
    cases hstep with
    | pass ht => exact ih.pass ht
    | act hact =>
      obtain ⟨i, -, rfl⟩ | ⟨i, p, stimulus, r, hp, hr, rfl⟩ := Crew.State.act_cases hact
      · exact ih.start i
      · exact ih.after hp hr

/-- The lease that a holder believes in is what is stored, until it has run out. -/
theorem held_lease_stored (v : Rivals γ) (calls : ι → HolderCall γ) {m₀ : Memory}
    (hkeyed : m₀.KeyedBy v.table Lease.schema) {t₀ : Moment} (ht₀ : t₀.wall.IsValid)
    {s : (holders v calls).State} (hs : (holders v calls).Reachable Moment.Ticks
      ((holders v calls).initial m₀ t₀ fun _ => {}) s) {g : γ} {expiry : Instant}
    (hreleased : (s.cells g).released = false) (hexpiry : (s.cells g).expiresAt = some expiry)
    (hlt : s.clock.wall < expiry) :
    ∃ item n, s.memory.item? v.table v.key = some item ∧
      item = Item.withRevision (v.lease g expiry).toItem n ∧
      Lease.ofItem item = .ok (v.lease g expiry) := by
  have hstored := ((faithful_initial hkeyed ht₀).run hs).held g expiry hreleased hexpiry hlt
  obtain ⟨hvalid, n, hitem⟩ := hstored
  exact ⟨_, n, hitem, rfl, Lease.ofItem_toItem hvalid _⟩

def pair : Rivals Bool where
  table := "locks"
  key := "migrations"
  owner second := if second then "second" else "first"
  distinct a b h := by cases a <;> cases b <;> simp_all
  options _ := {}
  tableOptions _ := {}

def pairCalls : Fin 3 → HolderCall Bool
  | 0 => ⟨false, .acquire⟩
  | 1 => ⟨true, .acquire⟩
  | 2 => ⟨false, .ensure⟩

/-- Both find the lock free; the second one comes too late with its put, and then finds it taken.
Fifty seconds later the first one extends its lease by a minute. -/
def pairScript : Crew.Script (Fin 3) :=
  [(Crew.second 0, .start 0), (Crew.second 0, .turn 0 .reply), (Crew.second 0, .start 1),
    (Crew.second 0, .turn 1 .reply), (Crew.second 0, .turn 0 .reply),
    (Crew.second 1, .turn 1 .reply), (Crew.second 2, .turn 1 .wake),
    (Crew.second 2, .turn 1 .reply), (Crew.second 50, .start 2), (Crew.second 50, .turn 2 .reply),
    (Crew.second 50, .turn 2 .reply), (Crew.second 70, .turn 1 .wake)]

def pairRun : Option (holders pair pairCalls).State :=
  ((holders pair pairCalls).initial (({} : Memory).createActive "locks" Lease.schema default)
    (Crew.second 0) fun _ => {}).play? Moment.Ticks pairScript

theorem held_lease_stored_of_pair :
    ∃ s, pairRun = some s ∧ s.clock = Crew.second 70 ∧ s.cells false = ⟨some ⟨110, 0⟩, false⟩ ∧
      ∃ item n, s.memory.item? "locks" "migrations" = some item ∧
        item = Item.withRevision (pair.lease false ⟨110, 0⟩).toItem n ∧
        Lease.ofItem item = .ok (pair.lease false ⟨110, 0⟩) := by
  have hrun : pairRun.map (fun s => (s.clock, s.cells false)) =
      some (Crew.second 70, ⟨some ⟨110, 0⟩, false⟩) := by decide +kernel
  obtain ⟨s, hs, hseen⟩ := Option.map_eq_some_iff.mp hrun
  have hclock : s.clock = Crew.second 70 := congrArg (·.1) hseen
  have hcell : s.cells false = ⟨some ⟨110, 0⟩, false⟩ := congrArg (·.2) hseen
  refine ⟨s, hs, hclock, hcell, held_lease_stored pair pairCalls (by rintro t ⟨⟩; rfl)
    (show Instant.IsValid ⟨0, 0⟩ by decide) (Crew.State.reachable_of_play hs) ?_ ?_ ?_⟩
  · rw [hcell]
  · rw [hcell]
  · rw [hclock]
    decide

end HeldLease

end MigrationLedger
