import MigrationLedger.Proofs.GrantedLease
import MigrationLedger.Proofs.InstantShift

/-! How the end of a lease moves while its holder takes and extends it, any number of times at once.
An attempt fixes the end that it writes when it begins, and puts it whenever the store lets it. So
the ends that are stored follow the order in which the attempts began, and not that of their
puts. -/

namespace MigrationLedger

namespace HolderAction

variable {h : Holder} {a : HolderAction}

theorem drafted_underway {p : a.Phase} (hfits : a.Fits h p) (ha : a ≠ .release) {d : Draft}
    (hd : a.draft? p = some d) : ∃ n, a.underway? p = some n ∧ d.item = n.lease.toItem := by
  cases a with
  | acquire =>
    cases p with
    | attempting started lease inner => exact ⟨_, rfl, hfits.2 d hd⟩
    | _ => cases hd
  | ensure =>
    cases p with
    | extending lease inner => exact ⟨_, rfl, hfits.2 d hd⟩
    | _ => cases hd
  | release => exact absurd rfl ha
  | refresh =>
    cases p with
    | checking inner =>
      cases inner with
      | extending lease inner => exact ⟨_, rfl, hfits.2 d hd⟩
      | _ => cases hd
    | _ => cases hd

end HolderAction

namespace Rivals

variable {γ : Type} {v : Rivals γ} {g : γ} {m m' : Memory} {expiry expiry' : Instant}

def Shows (v : Rivals γ) (m : Memory) (g : γ) (expiry : Instant) : Prop :=
  ∃ item, m.item? v.table v.key = some item ∧ Lease.ofItem item = .ok (v.lease g expiry)

theorem Shows.unique (h : v.Shows m g expiry) (h' : v.Shows m g expiry') : expiry = expiry' := by
  obtain ⟨item, hitem, hlease⟩ := h
  obtain ⟨item', hitem', hlease'⟩ := h'
  cases hitem.symm.trans hitem'
  cases hlease.symm.trans hlease'
  rfl

/-- The record is a lease of `g` before and after, and afterwards it ends sooner. -/
def Shortens (v : Rivals γ) (g : γ) (m m' : Memory) : Prop :=
  ∃ expiry expiry', v.Shows m g expiry ∧ v.Shows m' g expiry' ∧ expiry' < expiry

theorem shortens_iff (h : v.Shows m g expiry) (h' : v.Shows m' g expiry') :
    v.Shortens g m m' ↔ expiry' < expiry := by
  constructor
  · rintro ⟨before, after, hbefore, hafter, hlt⟩
    rw [h.unique hbefore, h'.unique hafter]
    exact hlt
  · intro hlt
    exact ⟨expiry, expiry', h, h', hlt⟩

end Rivals

namespace ShortenedLease

open HeldLease (Faithful)

variable {ι γ : Type} {v : Rivals γ} {calls : ι → HolderCall γ}

def underway? (s : (holders v calls).State) (i : ι) : Option Holder.Attempt :=
  (s.phase i).bind (calls i).action.underway?

variable [DecidableEq ι] [DecidableEq γ] {s₀ s s' : (holders v calls).State} {i : ι} {t : Moment}

/-- In a run from `s₀`, what `i` has under way began at the moment `t` and has not ended since. -/
inductive Began (s₀ : (holders v calls).State) (i : ι) :
    Moment → (holders v calls).State → Prop where
  | begins {s s' : (holders v calls).State} (hs : (holders v calls).Reachable Moment.Ticks s₀ s)
      (hstep : (holders v calls).Step Moment.Ticks s s') (hbefore : underway? s i = none)
      (hafter : underway? s' i ≠ none) : Began s₀ i s.clock s'
  | lasts {t : Moment} {s s' : (holders v calls).State} (h : Began s₀ i t s)
      (hstep : (holders v calls).Step Moment.Ticks s s') (hafter : underway? s' i ≠ none) :
      Began s₀ i t s'

theorem underway?_step (hstep : (holders v calls).Step Moment.Ticks s s') {n : Holder.Attempt}
    (hn : underway? s' i = some n) : underway? s i = some n ∨
      underway? s i = none ∧ n = (v.holder (calls i).holder).attemptAt s.clock := by
  cases hstep with
  | pass ht => exact .inl hn
  | act hact =>
    obtain ⟨j, hp, rfl⟩ | ⟨j, p, stimulus, r, hp, hr, rfl⟩ := Crew.State.act_cases hact
    · by_cases hij : i = j
      · subst hij
        rw [underway?, Crew.State.settle_phase_self] at hn
        exact .inr ⟨by rw [underway?, hp]; rfl, HolderAction.underway?_start _ _ _ _ hn⟩
      · rw [underway?, Crew.State.settle_phase_of_ne s hij] at hn
        exact .inl hn
    · by_cases hij : i = j
      · subst hij
        rw [underway?, Crew.State.after_phase_self] at hn
        rw [underway?, hp]
        exact HolderAction.underway?_turn hr hn
      · rw [underway?, Crew.State.after_phase_of_ne s hij] at hn
        exact .inl hn

/-- As long as an attempt lasts, it carries the lease of the moment at which it began. -/
theorem Began.underway? (h : Began s₀ i t s) :
    ShortenedLease.underway? s i = some ((v.holder (calls i).holder).attemptAt t) := by
  induction h with
  | begins hs hstep hbefore hafter =>
    obtain ⟨n, hn⟩ := Option.ne_none_iff_exists'.mp hafter
    rcases underway?_step hstep hn with hsame | ⟨-, rfl⟩
    · cases hbefore.symm.trans hsame
    · exact hn
  | lasts h hstep hafter ih =>
    obtain ⟨n, hn⟩ := Option.ne_none_iff_exists'.mp hafter
    rcases underway?_step hstep hn with hsame | ⟨hnone, -⟩
    · rw [hn, ← hsame, ih]
    · -- no step ends an attempt and begins the next one
      cases hnone.symm.trans ih

theorem Began.valid (h : Began s₀ i t s) (hs₀ : Faithful s₀) : t.wall.IsValid := by
  induction h with
  | begins hs hstep hbefore hafter => exact (hs₀.run hs).clock
  | lasts h hstep hafter ih => exact ih

theorem exists_began (hs : (holders v calls).Reachable Moment.Ticks s₀ s)
    (hnone : underway? s₀ i = none) (hsome : underway? s i ≠ none) : ∃ t, Began s₀ i t s := by
  induction hs with
  | refl => exact absurd hnone hsome
  | @tail s s' hrun hstep ih =>
    by_cases hbefore : underway? s i = none
    · exact ⟨s.clock, .begins hrun hstep hbefore hsome⟩
    · obtain ⟨t, ht⟩ := ih hbefore
      exact ⟨t, ht.lasts hstep hsome⟩

def Puts (s s' : (holders v calls).State) (i : ι) : Prop :=
  (holders v calls).Step Moment.Ticks s s' ∧
    Crew.writers s'.log = Crew.writers s.log ++ [i]

theorem memory_of_quiet (h : Faithful s) (hs : (holders v calls).Reachable Moment.Ticks s s')
    (hquiet : Crew.writers s'.log = Crew.writers s.log) : s'.memory = s.memory := by
  induction hs with
  | refl => rfl
  | tail hrun hstep ih =>
    have hbefore := Crew.writers_between hrun (.single hstep) hquiet
    rw [← ih hbefore]
    cases hstep with
    | pass ht => rfl
    | act hact =>
      obtain ⟨j, -, rfl⟩ | ⟨j, p, stimulus, r, hp, hr, rfl⟩ := Crew.State.act_cases hact
      · rfl
      · have hfaithful := h.run hrun
        have hspec := HolderAction.turn_spec (hfaithful.fits j p hp) hfaithful.clock hr
        exact hspec.effect.memory_eq (Crew.isPut_of_quiet (hquiet.trans hbefore.symm))

theorem stored_of_puts (h : Faithful s) (hputs : Puts s s' i)
    (hrelease : (calls i).action ≠ .release) :
    ∃ n, underway? s i = some n ∧ ∀ t : Moment, t.wall.IsValid →
      n = (v.holder (calls i).holder).attemptAt t →
        v.Stored s'.memory (calls i).holder ((v.options (calls i).holder).leaseEnd t.wall) := by
  obtain ⟨p, stimulus, r, hp, hr, hput, rfl⟩ := hputs.1.put_inv hputs.2
  have heffect := (HolderAction.turn_spec (h.fits i p hp) h.clock hr).effect
  obtain ⟨d, hd⟩ : ∃ d, (calls i).action.draft? p = some d := by
    cases heffect with
    | idle hafter hm hx => cases hx.symm.trans hput
    | read d hafter hm hx hread hpermits =>
      rw [hx] at hput
      cases hput
    | wrote d k hbefore hafter hx hkey hunchanged hputs => exact ⟨d, hbefore⟩
  obtain ⟨n, hn, hitem⟩ := HolderAction.drafted_underway (h.fits i p hp) hrelease hd
  refine ⟨n, by rw [underway?, hp]; exact hn, fun t ht heq => ?_⟩
  subst heq
  refine h.stored_noted hp heffect hput ht fun d' hd' => ?_
  cases hd.symm.trans hd'
  exact hitem

theorem Began.stored (h : Began s₀ i t s) (hs₀ : Faithful s₀) (hs : Faithful s)
    (hputs : Puts s s' i) (hrelease : (calls i).action ≠ .release) :
    v.Stored s'.memory (calls i).holder ((v.options (calls i).holder).leaseEnd t.wall) := by
  obtain ⟨n, hn, hstored⟩ := stored_of_puts hs hputs hrelease
  exact hstored t (h.valid hs₀) (Option.some.inj (hn.symm.trans h.underway?))

theorem began_of_puts (hs₀ : Faithful s₀) (hnone : underway? s₀ i = none)
    (hs : (holders v calls).Reachable Moment.Ticks s₀ s) (hputs : Puts s s' i)
    (hrelease : (calls i).action ≠ .release) : ∃ t, Began s₀ i t s := by
  obtain ⟨n, hn, -⟩ := stored_of_puts (hs₀.run hs) hputs hrelease
  refine exists_began hs hnone ?_
  rw [hn]
  exact Option.some_ne_none n

/-- Two leases of one holder are written one after the other, by `i` in the state `s₁` and by `j`
from `s₂` to `s₂'`. -/
structure Successive (s₀ s₁ s₂ s₂' : (holders v calls).State) (i j : ι) : Prop where
  began : ∃ t, Began s₀ i t s₁
  began' : ∃ t, Began s₀ j t s₂
  stored : ∀ t, Began s₀ i t s₁ → v.Stored s₂.memory (calls j).holder
    ((v.options (calls j).holder).leaseEnd t.wall)
  stored' : ∀ t, Began s₀ j t s₂ → v.Stored s₂'.memory (calls j).holder
    ((v.options (calls j).holder).leaseEnd t.wall)
  /-- Outside of leap seconds, in which the clock goes on beyond the end of a second. -/
  shortens_iff : ∀ t t', Began s₀ i t s₁ → Began s₀ j t' s₂ → t.wall.nanos < Instant.billion →
    t'.wall.nanos < Instant.billion → (v.Shortens (calls j).holder s₂.memory s₂'.memory ↔
      t'.wall < t.wall ∧ (v.options (calls j).holder).leaseEnd t'.wall ≠ Instant.last)

/-- A put shortens the lease exactly when it comes from an attempt that began before the one that
put last, unless both leases reach to the last instant. -/
theorem shortened_iff_overtaken (v : Rivals γ) (calls : ι → HolderCall γ) {m₀ : Memory}
    (hkeyed : m₀.KeyedBy v.table Lease.schema) {t₀ : Moment} (ht₀ : t₀.wall.IsValid)
    {s₁ s₁' s₂ s₂' : (holders v calls).State} (hs₁ : (holders v calls).Reachable Moment.Ticks
      ((holders v calls).initial m₀ t₀ fun _ => {}) s₁) {i j : ι} (hputs : Puts s₁ s₁' i)
    (hs₂ : (holders v calls).Reachable Moment.Ticks s₁' s₂)
    (hquiet : Crew.writers s₂.log = Crew.writers s₁'.log) (hputs' : Puts s₂ s₂' j)
    (hholder : (calls i).holder = (calls j).holder) (hi : (calls i).action ≠ .release)
    (hj : (calls j).action ≠ .release) :
    Successive ((holders v calls).initial m₀ t₀ fun _ => {}) s₁ s₂ s₂' i j := by
  have hs₀ : Faithful ((holders v calls).initial m₀ t₀ fun _ => {}) :=
    HeldLease.faithful_initial hkeyed ht₀
  have hnone : ∀ i, underway? ((holders v calls).initial m₀ t₀ fun _ => {}) i = none := fun _ => rfl
  generalize (holders v calls).initial m₀ t₀ (fun _ => {}) = s₀ at hs₀ hnone hs₁ ⊢
  have hs₁' := hs₁.tail hputs.1
  have hrun := hs₁'.trans hs₂
  have hstored : ∀ t, Began s₀ i t s₁ → v.Stored s₂.memory (calls j).holder
      ((v.options (calls j).holder).leaseEnd t.wall) := by
    intro t ht
    rw [memory_of_quiet (hs₀.run hs₁') hs₂ hquiet, ← hholder]
    exact ht.stored hs₀ (hs₀.run hs₁) hputs hi
  have hstored' : ∀ t, Began s₀ j t s₂ → v.Stored s₂'.memory (calls j).holder
      ((v.options (calls j).holder).leaseEnd t.wall) :=
    fun t ht => ht.stored hs₀ (hs₀.run hrun) hputs' hj
  refine ⟨began_of_puts hs₀ (hnone i) hs₁ hputs hi, began_of_puts hs₀ (hnone j) hrun hputs' hj,
    hstored, hstored', ?_⟩
  intro t t' ht ht' hordinary hordinary'
  rw [Rivals.shortens_iff (hstored t ht).ofItem (hstored' t' ht').ofItem,
    LockOptions.leaseEnd_lt_iff _ (ht'.valid hs₀) (ht.valid hs₀) hordinary' hordinary]

def overtakenCalls : Fin 3 → HolderCall Bool
  | 0 => ⟨false, .acquire⟩
  | 1 => ⟨false, .ensure⟩
  | 2 => ⟨false, .ensure⟩

def overtakenStart : (holders (GrantedLease.brief 10) overtakenCalls).State :=
  (holders (GrantedLease.brief 10) overtakenCalls).initial
    (({} : Memory).createActive "locks" Lease.schema default) (Crew.second 0) fun _ => {}

/-- Of two that extend a lease of ten seconds, the one that comes a second later reads first. -/
def overtakenScript : Crew.Script (Fin 3) :=
  [(Crew.second 0, .start 0), (Crew.second 0, .turn 0 .reply), (Crew.second 0, .turn 0 .reply),
    (Crew.second 7, .start 1), (Crew.second 8, .start 2), (Crew.second 8, .turn 2 .reply)]

def seen (s : (holders (GrantedLease.brief 10) overtakenCalls).State) :
    Option (Option Lease) × List (Fin 3) :=
  ((s.memory.item? "locks" "migrations").map fun item => (Lease.ofItem item).toOption,
    Crew.writers s.log)

theorem shows_of_seen {s : (holders (GrantedLease.brief 10) overtakenCalls).State}
    {expiry : Instant} {writers : List (Fin 3)}
    (h : seen s = (some (some ((GrantedLease.brief 10).lease false expiry)), writers)) :
    (GrantedLease.brief 10).Shows s.memory false expiry := by
  obtain ⟨item, hitem, hlease⟩ := Option.map_eq_some_iff.mp (congrArg (·.1) h)
  exact ⟨item, hitem, toOption_eq_some.mp hlease⟩

/-- The later of the two puts first. A second after that the earlier one finds its lease, and puts
its own in place of it. -/
theorem latecomer_run :
    ∃ s₁ s₁' s₂ s₂', overtakenStart.play? Moment.Ticks overtakenScript = some s₁ ∧
      Puts s₁ s₁' 2 ∧ (holders (GrantedLease.brief 10) overtakenCalls).Reachable Moment.Ticks
        s₁' s₂ ∧ Crew.writers s₂.log = Crew.writers s₁'.log ∧ Puts s₂ s₂' 1 ∧
          (GrantedLease.brief 10).Shows s₂.memory false ⟨18, 0⟩ ∧
            (GrantedLease.brief 10).Shows s₂'.memory false ⟨17, 0⟩ := by
  let lease (seconds : Int) := some (some ((GrantedLease.brief 10).lease false ⟨seconds, 0⟩))
  have hrun : ((overtakenStart.play? Moment.Ticks overtakenScript).bind fun s₁ =>
      (s₁.act? (.turn 2 .reply)).bind fun s₁' =>
        (s₁'.play? Moment.Ticks [(Crew.second 9, .turn 1 .reply)]).bind fun s₂ =>
          (s₂.act? (.turn 1 .reply)).map fun s₂' => [seen s₁, seen s₁', seen s₂, seen s₂']) =
      some [(lease 10, [0]), (lease 18, [0, 2]), (lease 18, [0, 2]), (lease 17, [0, 2, 1])] := by
    decide +kernel
  obtain ⟨s₁, hs₁, hrun⟩ := Option.bind_eq_some_iff.mp hrun
  obtain ⟨s₁', hact, hrun⟩ := Option.bind_eq_some_iff.mp hrun
  obtain ⟨s₂, hs₂, hrun⟩ := Option.bind_eq_some_iff.mp hrun
  obtain ⟨s₂', hact', hseen⟩ := Option.map_eq_some_iff.mp hrun
  obtain ⟨h₁, h₁', h₂, h₂', -⟩ : seen s₁ = _ ∧ seen s₁' = _ ∧ seen s₂ = _ ∧ seen s₂' = _ ∧ _ := by
    simpa only [List.cons.injEq] using hseen
  have hwriters₁ : Crew.writers s₁.log = [0] := congrArg (·.2) h₁
  have hwriters₁' : Crew.writers s₁'.log = [0, 2] := congrArg (·.2) h₁'
  have hwriters₂ : Crew.writers s₂.log = [0, 2] := congrArg (·.2) h₂
  have hwriters₂' : Crew.writers s₂'.log = [0, 2, 1] := congrArg (·.2) h₂'
  refine ⟨s₁, s₁', s₂, s₂', hs₁, ⟨.act hact, ?_⟩, Crew.State.reachable_of_play hs₂, ?_,
    ⟨.act hact', ?_⟩, shows_of_seen h₂, shows_of_seen h₂'⟩
  · rw [hwriters₁', hwriters₁]
    rfl
  · rw [hwriters₂, hwriters₁']
  · rw [hwriters₂', hwriters₂]
    rfl

theorem shortened_iff_overtaken_of_latecomer :
    ∃ s₁ s₂ s₂', overtakenStart.play? Moment.Ticks overtakenScript = some s₁ ∧
      Successive overtakenStart s₁ s₂ s₂' 2 1 ∧
        (GrantedLease.brief 10).Shortens false s₂.memory s₂'.memory := by
  obtain ⟨s₁, s₁', s₂, s₂', hs₁, hputs, hs₂, hquiet, hputs', hshows, hshows'⟩ := latecomer_run
  have hsuccessive := shortened_iff_overtaken (GrantedLease.brief 10) overtakenCalls
    (by rintro t ⟨⟩; rfl) (show Instant.IsValid ⟨0, 0⟩ by decide) (Crew.State.reachable_of_play hs₁)
    hputs hs₂ hquiet hputs' rfl (by decide) (by decide)
  exact ⟨s₁, s₂, s₂', hs₁, hsuccessive, (Rivals.shortens_iff hshows hshows').mpr (by decide)⟩

/-- A lease that ends at eighteen seconds is replaced by one that ends at seventeen, and nobody but
its holder has ever written. -/
theorem shortened_by_latecomer :
    ∃ s s', (holders (GrantedLease.brief 10) overtakenCalls).Reachable Moment.Ticks overtakenStart
        s ∧ (∀ i, (overtakenCalls i).holder = false ∧ (overtakenCalls i).action ≠ .release) ∧
      Puts s s' 1 ∧ (GrantedLease.brief 10).Shows s.memory false ⟨18, 0⟩ ∧
        (GrantedLease.brief 10).Shows s'.memory false ⟨17, 0⟩ := by
  obtain ⟨s₁, s₁', s₂, s₂', hs₁, hputs, hs₂, -, hputs', hshows, hshows'⟩ := latecomer_run
  have hrun := ((Crew.State.reachable_of_play hs₁).tail hputs.1).trans hs₂
  exact ⟨s₂, s₂', hrun, by decide, hputs', hshows, hshows'⟩

end ShortenedLease

end MigrationLedger
