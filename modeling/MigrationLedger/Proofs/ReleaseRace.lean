import MigrationLedger.Proofs.MutualExclusion

/-! Giving the lock back while the same holder is still taking it. A holder that is spent answers
so, but what it has under way may put its lease after the release has asked the store for the last
time. Then the lease stays until it has run out. -/

namespace MigrationLedger

/-- What is about to be written is a lease that was given back. -/
def Draft.GivesBack (d : Draft) : Prop :=
  ∃ lease : Lease, d.item = lease.toItem ∧ lease.status = .released ∧ lease.expiresAt.IsValid

namespace LockTable

variable {l : LockTable} {key owner : String} {t : Moment} {d : Draft}

theorem givesBack_of_permits (ht : t.wall.IsValid)
    (h : (l.leaseUpdate key (decideGiveBack owner)).Permits t d) : d.GivesBack := by
  rcases permits_cases h with ⟨-, answer, hdecide⟩ | ⟨item, cur, answer, -, -, hdecide⟩
  · cases hdecide
  · rw [decideGiveBack] at hdecide
    split at hdecide
    · exact ⟨_, (Verdict.write.inj hdecide).1.symm, rfl, ht⟩
    · cases hdecide

theorem stop_of_giveBack {read : Option Item} {gaveBack : Bool}
    (h : (l.leaseUpdate key (decideGiveBack owner)).decide t read = .stop (.ok gaveBack)) :
    ∀ item lease, read = some item → Lease.ofItem item = .ok lease →
      ¬(lease.owner = owner ∧ lease.status = .held) := by
  rintro item lease rfl hlease hmine
  simp only [leaseUpdate] at h
  rw [hlease] at h
  simp only [decideGiveBack] at h
  rw [if_pos hmine] at h
  cases h

end LockTable

namespace HolderAction

variable {h : Holder} {a : HolderAction} {t : Moment} {m : Memory} {k : Hold} {stimulus : Stimulus}

/-- Has released the lock, as it answers. -/
def returned : (a : HolderAction) → a.Phase → Bool
  | release, .ended (.ok _) => true
  | _, _ => false

theorem givesBack_turn (ha : a = .release) (ht : t.wall.IsValid) {p : a.Phase}
    {r : Turned Hold a.Phase} (hr : (a.operation h).machine.turn? t m k p stimulus = some r)
    {d : Draft} (hd : a.draft? r.state = some d) : d.GivesBack := by
  subst ha
  cases Bounded.effect hr with
  | idle hafter hm hx => cases hafter.symm.trans hd
  | read d' hafter hm hx hread hpermits =>
    cases hafter.symm.trans hd
    exact LockTable.givesBack_of_permits ht hpermits
  | wrote d' key hbefore hafter hx hkey hunchanged hputs => cases hafter.symm.trans hd

/-- A release returns from a put, or from a read that has not found its lease. -/
theorem returned_turn {p : a.Phase} {r : Turned Hold a.Phase}
    (hr : (a.operation h).machine.turn? t m k p stimulus = some r)
    (hreturned : a.returned r.state = true) :
    ∃ x, r.exchange = some x ∧ (isPut x = true ∨ isPut x = false ∧ r.memory = m ∧
      ∀ item lease, m.item? h.locks.table h.key = some item → Lease.ofItem item = .ok lease →
        ¬(lease.owner = h.owner ∧ lease.status = .held)) := by
  cases a with
  | release =>
    obtain ⟨note, limit, inner, rfl, ⟨state, hturn, -, hs⟩ | ⟨-, -, -, hs⟩⟩ :=
      Bounded.update_turn hr
    · rw [hs] at hreturned
      generalize r.exchange = x, r.memory = m' at hturn
      cases hturn with
      | read =>
        refine ⟨_, rfl, .inr ⟨rfl, rfl, ?_⟩⟩
        rw [Update.afterRead] at hreturned
        split at hreturned
        · next answer hdecide =>
          rcases answer with fault | gaveBack
          · cases hreturned
          · exact LockTable.stop_of_giveBack hdecide
        · cases hreturned
      | unread fault => cases hreturned
      | wrote hkey hunchanged hputs => exact ⟨_, rfl, .inl rfl⟩
      | unwritten fault => cases fault <;> cases hreturned
      | resumed => cases hreturned
    · rw [hs] at hreturned
      cases hreturned
  | _ => cases hreturned

theorem returned_start (h : Holder) (a : HolderAction) (t : Moment) (k : Hold)
    (hreturned : a.returned ((a.operation h).start t k).2 = true) : k.released = true := by
  cases a with
  | release =>
    cases hk : k.released with
    | true => rfl
    | false =>
      simp [operation, Holder.release, hk, returned, LockTable.giveBack, LockTable.within]
        at hreturned
  | acquire => cases hreturned
  | ensure => cases hreturned
  | refresh => cases hreturned

end HolderAction

namespace ReleaseRace

open MutualExclusion (HeldBy)
open HeldLease (Faithful)

variable {ι γ : Type} {v : Rivals γ} {calls : ι → HolderCall γ}

/-- The record says that `g` holds the lock. -/
def Left (v : Rivals γ) (m : Memory) (g : γ) : Prop :=
  ∃ item lease, m.item? v.table v.key = some item ∧ Lease.ofItem item = .ok lease ∧
    lease.owner = v.owner g ∧ lease.status = .held

theorem left_of_stored {m : Memory} {g g' : γ} {expiry : Instant} (h : v.Stored m g expiry) :
    Left v m g' ↔ g = g' := by
  obtain ⟨item, hitem, hlease⟩ := h.ofItem
  constructor
  · rintro ⟨item', lease, hitem', hlease', howner, -⟩
    cases hitem.symm.trans hitem'
    cases hlease.symm.trans hlease'
    exact v.distinct howner
  · rintro rfl
    exact ⟨item, v.lease g expiry, hitem, hlease, rfl, rfl⟩

theorem not_left_of_givesBack {m m' : Memory} {d : Draft} (hd : d.GivesBack)
    (hputs : m.Puts v.table v.key d.written m') (g : γ) : ¬Left v m' g := by
  obtain ⟨released, hitem, hstatus, hvalid⟩ := hd
  rintro ⟨item, lease, hstored, hlease, -, hheld⟩
  have hwritten := hputs.self
  rw [Draft.written, hitem] at hwritten
  cases hwritten.symm.trans hstored
  have hdecoded := Lease.ofItem_toItem hvalid (.ofNat (nextRevision d.read))
  cases hlease.symm.trans hdecoded
  rw [hstatus] at hheld
  cases hheld

/-- The last put shows `g` as the holder. -/
def LastShown (m₀ : Memory) (s : (holders v calls).State) (g : γ) : Prop :=
  match (Crew.writers s.log).getLast? with
  | some i => (calls i).action ≠ .release ∧ (calls i).holder = g
  | none => Left v m₀ g

theorem lastShown_note {m₀ : Memory} {s s' : (holders v calls).State} {i : ι}
    {x : Option Exchange} (hlog : s'.log = s.note i x) (g : γ) :
    LastShown m₀ s' g ↔ if x.any isPut = true then
      (calls i).action ≠ .release ∧ (calls i).holder = g else LastShown m₀ s g := by
  rw [LastShown, hlog, Crew.writers_note]
  by_cases hput : x.any isPut = true
  · rw [if_pos hput, if_pos hput, List.getLast?_concat]
  · rw [if_neg hput, if_neg hput, List.append_nil]
    rfl

variable [DecidableEq ι]

/-- Who has put last, of those who came after the last exchange of `r`. -/
def lastPutSince (r : ι) (log : List (Crew.Note ι)) : Option ι :=
  ((log.reverse.takeWhile (·.who ≠ r)).find? fun n => isPut n.exchange).map (·.who)

theorem lastPutSince_self {r : ι} {n : Crew.Note ι} (h : n.who = r) (log : List (Crew.Note ι)) :
    lastPutSince r (log ++ [n]) = none := by
  simp [lastPutSince, h]

theorem lastPutSince_put {r : ι} {n : Crew.Note ι} (h : n.who ≠ r) (hput : isPut n.exchange = true)
    (log : List (Crew.Note ι)) : lastPutSince r (log ++ [n]) = some n.who := by
  simp [lastPutSince, h, hput]

theorem lastPutSince_quiet {r : ι} {n : Crew.Note ι} (h : n.who ≠ r)
    (hquiet : isPut n.exchange = false) (log : List (Crew.Note ι)) :
    lastPutSince r (log ++ [n]) = lastPutSince r log := by
  simp [lastPutSince, h, hquiet]

/-- The holder of `r` has written after the last exchange of `r`, and nobody after that. -/
def Overtaken (s : (holders v calls).State) (r : ι) : Prop :=
  ∃ i, lastPutSince r s.log = some i ∧ (calls i).holder = (calls r).holder

structure Orderly (m₀ : Memory) (s : (holders v calls).State) : Prop where
  faithful : Faithful s
  gives : ∀ i p, s.phase i = some p → (calls i).action = .release →
    ∀ d, (calls i).action.draft? p = some d → d.GivesBack
  shown : ∀ g, Left v s.memory g ↔ LastShown m₀ s g

/-- What is known while the release `r` is the only one of its holder. -/
structure Watched (m₀ : Memory) (s : (holders v calls).State) (r : ι) : Prop
    extends Orderly m₀ s where
  fresh : s.phase r = none → (s.cells (calls r).holder).released = false
  left : ∀ p, s.phase r = some p → (calls r).action.returned p = true →
    (Left v s.memory (calls r).holder ↔ Overtaken s r)

variable {m₀ : Memory} {s s' : (holders v calls).State} {r : ι}

theorem Watched.pass (h : Watched m₀ s r) {t : Moment} (ht : s.clock.Ticks t) :
    Watched m₀ { s with clock := t } r :=
  ⟨⟨h.faithful.pass ht, h.gives, h.shown⟩, h.fresh, h.left⟩

/-- A put leaves a lease of its holder, unless it is that of a release. -/
theorem Orderly.left_put (h : Orderly m₀ s) {i : ι} {p : (calls i).action.Phase}
    {stimulus : Stimulus} {q : Turned Hold (calls i).action.Phase} (hp : s.phase i = some p)
    (hq : ((calls i).action.operation (v.holder (calls i).holder)).machine.turn? s.clock s.memory
      (s.cellOf i) p stimulus = some q) (hput : q.exchange.any isPut = true) (g : γ) :
    Left v q.memory g ↔ (calls i).action ≠ .release ∧ (calls i).holder = g := by
  obtain ⟨heffect, hbelieving, -⟩ :=
    HolderAction.turn_spec (h.faithful.fits i p hp) h.faithful.clock hq
  by_cases hrelease : (calls i).action = .release
  · refine ⟨fun hleft => absurd hleft ?_, fun hne => absurd hrelease hne.1⟩
    cases heffect with
    | idle hafter hm hx => cases hx.symm.trans hput
    | read d hafter hm hx =>
      rw [hx] at hput
      cases hput
    | wrote d k hdraft hafter hx hkey hunchanged hputs =>
      obtain ⟨rfl, -⟩ := (h.faithful.coherent.sound i p d hp hdraft).replaces
        h.faithful.coherent.keyedBy hkey hunchanged
      exact not_left_of_givesBack (h.gives i p hp hrelease d hdraft) hputs g
  · cases hbelieving with
    | keeps hx => cases hx.symm.trans hput
    | givesBack hreleases => exact absurd hreleases hrelease
    | notes hx now hnow hitem hk =>
      rw [left_of_stored (h.faithful.stored_noted hp heffect hput hnow hitem)]
      exact ⟨fun heq => ⟨hrelease, heq⟩, fun heq => heq.2⟩

theorem Watched.left_other (h : Watched m₀ s r)
    (hsole : ∀ i, (calls i).holder = (calls r).holder → (calls i).action = .release → i = r)
    {i : ι} (hne : i ≠ r) {p : (calls i).action.Phase} {stimulus : Stimulus}
    {q : Turned Hold (calls i).action.Phase} (hp : s.phase i = some p)
    (hq : ((calls i).action.operation (v.holder (calls i).holder)).machine.turn? s.clock s.memory
      (s.cellOf i) p stimulus = some q)
    (hleft : Left v s.memory (calls r).holder ↔ Overtaken s r) :
    Left v q.memory (calls r).holder ↔
      ∃ j, lastPutSince r (s.note i q.exchange) = some j ∧ (calls j).holder = (calls r).holder := by
  have hspec := HolderAction.turn_spec (h.faithful.fits i p hp) h.faithful.clock hq
  cases hx : q.exchange with
  | none =>
    rw [hspec.effect.memory_eq (by rw [hx]; rfl)]
    exact hleft
  | some x =>
    rw [Crew.State.note]
    cases hput : isPut x with
    | true =>
      rw [h.toOrderly.left_put hp hq (by rw [hx]; exact hput), lastPutSince_put hne hput]
      constructor
      · rintro ⟨-, hholder⟩
        exact ⟨i, rfl, hholder⟩
      · rintro ⟨j, hj, hholder⟩
        cases hj
        -- the only release of this holder is `r`, so this is the put of a lease
        exact ⟨fun hrelease => hne (hsole i hholder hrelease), hholder⟩
    | false =>
      rw [hspec.effect.memory_eq (by rw [hx]; exact hput), lastPutSince_quiet hne hput]
      exact hleft

theorem Watched.left_self (h : Watched m₀ s r) (hrelease : (calls r).action = .release)
    {p : (calls r).action.Phase} {stimulus : Stimulus}
    {q : Turned Hold (calls r).action.Phase} (hp : s.phase r = some p)
    (hq : ((calls r).action.operation (v.holder (calls r).holder)).machine.turn? s.clock s.memory
      (s.cellOf r) p stimulus = some q) (hreturned : (calls r).action.returned q.state = true) :
    Left v q.memory (calls r).holder ↔
      ∃ j, lastPutSince r (s.note r q.exchange) = some j ∧ (calls j).holder = (calls r).holder := by
  obtain ⟨x, hx, hend⟩ := HolderAction.returned_turn hq hreturned
  have hnot : ¬Left v q.memory (calls r).holder := by
    rcases hend with hput | ⟨-, hm, hfree⟩
    · rw [h.toOrderly.left_put hp hq (by rw [hx]; exact hput)]
      exact fun hne => hne.1 hrelease
    · rintro ⟨item, lease, hitem, hlease, hmine⟩
      rw [hm] at hitem
      exact hfree item lease hitem hlease hmine
  refine ⟨fun hleft => absurd hleft hnot, ?_⟩
  rintro ⟨j, hj, -⟩
  rw [hx, Crew.State.note, lastPutSince_self (r := r) rfl] at hj
  cases hj

variable [DecidableEq γ]

theorem Orderly.start (h : Orderly m₀ s) (i : ι) :
    Orderly m₀ (s.settle i (((holders v calls).operation i).start s.clock (s.cellOf i)).1
      (((holders v calls).operation i).start s.clock (s.cellOf i)).2) := by
  obtain ⟨hdraft, -, -⟩ := HolderAction.start_spec (v.holder (calls i).holder)
    (calls i).action s.clock (s.cellOf i)
  refine ⟨h.faithful.start i, Crew.State.forall_phase_settle h.gives (fun _ d hd => ?_) _, h.shown⟩
  cases hdraft.symm.trans hd

theorem Orderly.after (h : Orderly m₀ s) {i : ι} {p : (calls i).action.Phase}
    {stimulus : Stimulus} {q : Turned Hold (calls i).action.Phase} (hp : s.phase i = some p)
    (hq : ((holders v calls).operation i).machine.turn? s.clock s.memory (s.cellOf i) p stimulus =
      some q) : Orderly m₀ (s.after i q) := by
  have hspec := HolderAction.turn_spec (h.faithful.fits i p hp) h.faithful.clock hq
  refine ⟨h.faithful.after hp hq, Crew.State.forall_phase_after h.gives fun hrelease d hd => ?_,
    fun g => ?_⟩
  · exact HolderAction.givesBack_turn hrelease h.faithful.clock hq hd
  · change Left v q.memory g ↔ _
    rw [lastShown_note (s := s) rfl]
    split
    · next hput => exact h.left_put hp hq hput g
    · next hquiet =>
      rw [hspec.effect.memory_eq (Bool.eq_false_iff.mpr hquiet)]
      exact h.shown g

theorem Watched.start (h : Watched m₀ s r)
    (hsole : ∀ i, (calls i).holder = (calls r).holder → (calls i).action = .release → i = r)
    (i : ι) (hi : s.phase i = none) :
    Watched m₀ (s.settle i (((holders v calls).operation i).start s.clock (s.cellOf i)).1
      (((holders v calls).operation i).start s.clock (s.cellOf i)).2) r := by
  obtain ⟨-, -, hcell⟩ := HolderAction.start_spec (v.holder (calls i).holder)
    (calls i).action s.clock (s.cellOf i)
  refine ⟨h.toOrderly.start i, fun hr => ?_, fun p hp hreturned => ?_⟩
  · by_cases hri : r = i
    · subst hri
      rw [Crew.State.settle_phase_self] at hr
      cases hr
    · rw [Crew.State.settle_phase_of_ne s hri] at hr
      rw [Crew.State.settle_cells, hcell]
      split
      · next hholder =>
        rw [if_neg fun hact => hri (hsole i hholder.symm hact).symm]
        exact (congrArg (fun g => (s.cells g).released) hholder).symm.trans (h.fresh hr)
      · exact h.fresh hr
  · by_cases hri : r = i
    · -- the first release of a holder cannot return without asking the store
      subst hri
      rw [Crew.State.settle_phase_self] at hp
      cases hp
      have hspent := HolderAction.returned_start _ _ _ _ hreturned
      cases (h.fresh hi).symm.trans hspent
    · rw [Crew.State.settle_phase_of_ne s hri] at hp
      exact h.left p hp hreturned

theorem Watched.after (h : Watched m₀ s r) (hrelease : (calls r).action = .release)
    (hsole : ∀ i, (calls i).holder = (calls r).holder → (calls i).action = .release → i = r)
    {i : ι} {p : (calls i).action.Phase} {stimulus : Stimulus}
    {q : Turned Hold (calls i).action.Phase} (hp : s.phase i = some p)
    (hq : ((holders v calls).operation i).machine.turn? s.clock s.memory (s.cellOf i) p stimulus =
      some q) : Watched m₀ (s.after i q) r := by
  have hspec := HolderAction.turn_spec (h.faithful.fits i p hp) h.faithful.clock hq
  refine ⟨h.toOrderly.after hp hq, fun hr => ?_, fun p' hp' hreturned => ?_⟩
  · by_cases hri : r = i
    · subst hri
      rw [Crew.State.after_phase_self] at hr
      cases hr
    · rw [Crew.State.after_phase_of_ne s hri] at hr
      rw [Crew.State.after_cells]
      split
      · next hholder =>
        rw [hspec.believing.released]
        exact (congrArg (fun g => (s.cells g).released) hholder).symm.trans (h.fresh hr)
      · exact h.fresh hr
  · by_cases hri : r = i
    · subst hri
      rw [Crew.State.after_phase_self] at hp'
      cases hp'
      exact h.left_self hrelease hp hq hreturned
    · rw [Crew.State.after_phase_of_ne s hri] at hp'
      exact h.left_other hsole (Ne.symm hri) hp hq (h.left p' hp' hreturned)

theorem Watched.run (h : Watched m₀ s r) (hrelease : (calls r).action = .release)
    (hsole : ∀ i, (calls i).holder = (calls r).holder → (calls i).action = .release → i = r)
    (hrun : (holders v calls).Reachable Moment.Ticks s s') : Watched m₀ s' r := by
  induction hrun with
  | refl => exact h
  | tail _ hstep ih =>
    cases hstep with
    | pass ht => exact ih.pass ht
    | act hact =>
      obtain ⟨i, hi, rfl⟩ | ⟨i, p, stimulus, q, hp, hq, rfl⟩ := Crew.State.act_cases hact
      · exact ih.start hsole i hi
      · exact ih.after hrelease hsole hp hq

/-- How things stand once the release `r` is under way or over. -/
structure Released (m₀ : Memory) (s : (holders v calls).State) (r : ι) : Prop where
  spent : ¬HeldBy s (calls r).holder
  shown : Left v s.memory (calls r).holder ↔ LastShown m₀ s (calls r).holder
  /-- When it has returned without a failure, only what came after it counts. -/
  left_iff : ∀ p, s.phase r = some p → (calls r).action.returned p = true →
    (Left v s.memory (calls r).holder ↔ Overtaken s r)

/-- A release is final unless the same holder puts a lease after it. -/
theorem release_final_iff (v : Rivals γ) (calls : ι → HolderCall γ) {r : ι}
    (hrelease : (calls r).action = .release)
    (hsole : ∀ i, (calls i).holder = (calls r).holder → (calls i).action = .release → i = r)
    {m₀ : Memory} (hkeyed : m₀.KeyedBy v.table Lease.schema) {t₀ : Moment}
    (ht₀ : t₀.wall.IsValid) {s : (holders v calls).State} (hs : (holders v calls).Reachable
      Moment.Ticks ((holders v calls).initial m₀ t₀ fun _ => {}) s)
    (hstarted : s.phase r ≠ none) : Released m₀ s r := by
  have hinitial : Watched m₀ ((holders v calls).initial m₀ t₀ fun _ => {}) r :=
    ⟨⟨HeldLease.faithful_initial hkeyed ht₀, nofun, fun _ => Iff.rfl⟩, fun _ => rfl, nofun⟩
  have hwatched := hinitial.run hrelease hsole hs
  refine ⟨fun hheld => ?_, hwatched.shown _, hwatched.left⟩
  obtain ⟨p, hp⟩ := Option.ne_none_iff_exists'.mp hstarted
  have hspent := hwatched.faithful.spent r p hp hrelease
  rw [HeldBy, Hold.isHeldAt, hspent] at hheld
  cases hheld

def spentCalls : Fin 3 → HolderCall Bool
  | 0 => ⟨false, .acquire⟩
  | 1 => ⟨false, .acquire⟩
  | 2 => ⟨false, .release⟩

def spentStart : (holders HeldLease.pair spentCalls).State :=
  (holders HeldLease.pair spentCalls).initial
    (({} : Memory).createActive "locks" Lease.schema default) (Crew.second 0) fun _ => {}

theorem sole_release (i : Fin 3) (_ : (spentCalls i).holder = (spentCalls 2).holder)
    (h : (spentCalls i).action = .release) : i = 2 := by
  revert i
  decide

/-- The second attempt to take the lock comes too late with its put, because the release was there
before it. It tries again, and puts its lease then. -/
def retriedScript : Crew.Script (Fin 3) :=
  [(Crew.second 0, .start 0), (Crew.second 0, .turn 0 .reply), (Crew.second 0, .turn 0 .reply),
    (Crew.second 1, .start 1), (Crew.second 1, .turn 1 .reply), (Crew.second 1, .start 2),
    (Crew.second 1, .turn 2 .reply), (Crew.second 1, .turn 2 .reply),
    (Crew.second 2, .turn 1 .reply), (Crew.second 2, .turn 1 .wake),
    (Crew.second 2, .turn 1 .reply), (Crew.second 2, .turn 1 .reply)]

theorem release_final_iff_retried :
    ∃ s, spentStart.play? Moment.Ticks retriedScript = some s ∧
      Released (({} : Memory).createActive "locks" Lease.schema default) s 2 ∧
      Left HeldLease.pair s.memory false := by
  have hrun : (spentStart.play? Moment.Ticks retriedScript).map (fun s =>
      ((s.phase 2).any (HolderAction.returned .release), lastPutSince 2 s.log)) =
        some (true, some 1) := by decide +kernel
  obtain ⟨s, hs, hseen⟩ := Option.map_eq_some_iff.mp hrun
  obtain ⟨p, hp, hreturned⟩ := (Option.any_eq_true _ _).mp (congrArg (·.1) hseen)
  have hlast : lastPutSince 2 s.log = some 1 := congrArg (·.2) hseen
  have hkeyed : (({} : Memory).createActive "locks" Lease.schema default).KeyedBy "locks"
      Lease.schema := by
    rintro t ⟨⟩
    rfl
  have hreleased := release_final_iff HeldLease.pair spentCalls (r := 2) rfl sole_release hkeyed
    (show Instant.IsValid ⟨0, 0⟩ by decide) (Crew.State.reachable_of_play hs)
    (by rw [hp]; exact Option.some_ne_none p)
  exact ⟨s, hs, hreleased, (hreleased.left_iff p hp hreturned).mpr ⟨1, hlast, rfl⟩⟩

def hastyCalls (second : Bool) : HolderCall Bool := ⟨false, if second then .release else .acquire⟩

def hastyStart : (holders HeldLease.pair hastyCalls).State :=
  (holders HeldLease.pair hastyCalls).initial
    (({} : Memory).createActive "locks" Lease.schema default) (Crew.second 0) fun _ => {}

/-- Both find no lease. The release has nothing to do then, and after that the lease is put. -/
def hastyScript : Crew.Script Bool :=
  [(Crew.second 0, .start false), (Crew.second 1, .turn false .reply),
    (Crew.second 1, .start true), (Crew.second 2, .turn true .reply),
    (Crew.second 2, .turn false .reply)]

/-- Whether both have returned: the release, and the attempt to take the lock as one of a holder
that is spent. -/
def bothReturned (s : (holders HeldLease.pair hastyCalls).State) : Bool :=
  (match s.phase true with
    | some (.ended (.ok false)) => true
    | _ => false) &&
  match s.phase false with
  | some (.done (.error (.released _))) => true
  | _ => false

/-- The release has returned, the holder is spent, and yet the record says that it holds the lock.
-/
theorem left_behind_by_release :
    ∃ s, (holders HeldLease.pair hastyCalls).Reachable Moment.Ticks hastyStart s ∧
      bothReturned s = true ∧ ¬HeldBy s false ∧ Left HeldLease.pair s.memory false := by
  have hrun : (hastyStart.play? Moment.Ticks hastyScript).map (fun s =>
      (bothReturned s, s.cells false,
        (s.memory.item? "locks" "migrations").map fun item => (Lease.ofItem item).toOption)) =
      some (true, ⟨none, true⟩, some (some (HeldLease.pair.lease false ⟨60, 0⟩))) := by
    decide +kernel
  obtain ⟨s, hs, hseen⟩ := Option.map_eq_some_iff.mp hrun
  have hreturned : bothReturned s = true := congrArg (·.1) hseen
  have hcell : s.cells false = ⟨none, true⟩ := congrArg (·.2.1) hseen
  obtain ⟨item, hitem, hdecoded⟩ := Option.map_eq_some_iff.mp (congrArg (·.2.2) hseen)
  refine ⟨s, Crew.State.reachable_of_play hs, hreturned, ?_, item,
    HeldLease.pair.lease false ⟨60, 0⟩, hitem, toOption_eq_some.mp hdecoded, rfl, rfl⟩
  rw [HeldBy, Hold.isHeldAt, hcell]
  simp

end ReleaseRace

end MigrationLedger
