import MigrationLedger.Holder
import MigrationLedger.Proofs.LeaseOverwrite

/-! The operations of a holder turn by turn: what each does to the record of the lock, and what the
holder believes afterwards. A lease is noted in the very turn in which it is written. -/

namespace MigrationLedger

inductive HolderAction where
  | acquire
  | ensure
  | release
  | refresh
  deriving DecidableEq

namespace HolderAction

abbrev Phase : HolderAction → Type
  | acquire => Holder.Acquiring
  | ensure => Holder.Ensuring
  | release => LockTable.Changing Bool
  | refresh => Holder.Refreshing

abbrev Outcome : HolderAction → Type
  | acquire | ensure => Except LeaseFault Unit
  | release => Except LeaseFault Bool
  | refresh => Unit

def operation (h : Holder) : (a : HolderAction) → Operation Hold a.Phase a.Outcome
  | acquire => h.acquire
  | ensure => h.ensure
  | release => h.release
  | refresh => h.refresh

end HolderAction

namespace Holder

variable {h : Holder} {releases : Prop} {t : Moment} {m : Memory} {k : Hold} {stimulus : Stimulus}

/-- The change of a record carries the lease of some instant: what it drafts is that lease. -/
def Carries (h : Holder) (lease : Lease) (inner : LockTable.Changing Unit) : Prop :=
  (∃ now : Instant, now.IsValid ∧ lease = h.leaseAt now) ∧
    ∀ d, inner.draft? = some d → d.item = lease.toItem

theorem carries_start (h : Holder) (ht : t.wall.IsValid) (limit : Span) :
    h.Carries (h.leaseAt t.wall) (.active () limit (.reading 0)) := by
  refine ⟨⟨t.wall, ht, rfl⟩, fun d hd => ?_⟩
  cases hd

namespace Acquiring

def draft? : Acquiring → Option Draft
  | attempting _ _ inner => inner.draft?
  | _ => none

def Fits (h : Holder) : Acquiring → Prop
  | attempting _ lease inner => h.Carries lease inner
  | _ => True

end Acquiring

namespace Ensuring

def draft? : Ensuring → Option Draft
  | extending _ inner => inner.draft?
  | done _ => none

def Fits (h : Holder) : Ensuring → Prop
  | extending lease inner => h.Carries lease inner
  | done _ => True

end Ensuring

namespace Refreshing

def draft? : Refreshing → Option Draft
  | checking inner => inner.draft?
  | _ => none

def Fits (h : Holder) : Refreshing → Prop
  | checking inner => inner.Fits h
  | _ => True

end Refreshing

/-- What a turn does to what the holder believes: without a put it keeps at most what it believed;
with the put of a lease it notes that lease; the put of a release changes nothing more. -/
inductive Believing (h : Holder) (releases : Prop) (k : Hold) (before : Option Draft)
    (x : Option Exchange) (k' : Hold) : Prop where
  | keeps (hx : x.any isPut = false) (hreleased : k'.released = k.released)
      (hexpiry : k'.expiresAt = k.expiresAt ∨ k'.expiresAt = none)
  | notes (hx : x.any isPut = true) (now : Instant) (hnow : now.IsValid)
      (hitem : ∀ d, before = some d → d.item = (h.leaseAt now).toItem)
      (hk : k' = (h.noteLease k (h.leaseAt now).expiresAt).1)
  | givesBack (hreleases : releases) (hk : k' = k)

structure Changes (table : String) (lease : Lease) (t : Moment) (m : Memory) (k : Hold)
    (inner : LockTable.Changing Unit) (q : Turned Hold (LockTable.Changing Unit)) : Prop where
  cell : q.cell = k
  effect : Effect table lease.key
    (fun d => d.item = lease.toItem ∧ LeasePermit lease.key lease.owner t.wall d) m inner.draft?
    q.exchange q.memory q.state.draft?
  put_iff : q.exchange.any isPut = true ↔ q.state = .ended (.ok ())

theorem released_noteLease (h : Holder) (k : Hold) (expiry : Instant) :
    (h.noteLease k expiry).1.released = k.released := by
  rw [noteLease]
  split <;> rfl

theorem Believing.released {before : Option Draft} {x : Option Exchange} {k' : Hold}
    (hb : Believing h releases k before x k') : k'.released = k.released := by
  cases hb with
  | keeps hx hreleased hexpiry => exact hreleased
  | notes hx now hnow hitem hk => rw [hk, released_noteLease]
  | givesBack hreleases hk => rw [hk]

theorem changes_within {l : LockTable} {lease : Lease} {name : String}
    {decide : Instant → Option Lease → Verdict LeaseFault Unit}
    (hpermits : ∀ t d, (l.leaseUpdate lease.key decide).Permits t d →
      d.item = lease.toItem ∧ LeasePermit lease.key lease.owner t.wall d)
    (hstop : ∀ now cur a, decide now cur ≠ .stop (.ok a)) {inner : LockTable.Changing Unit}
    {q : Turned Hold (LockTable.Changing Unit)}
    (hq : (l.within name (Update.Phase.reading 0)
      (l.leaseUpdate lease.key decide).machine).machine.turn? t m k inner stimulus = some q) :
    Changes l.table lease t m k inner q := by
  have hstop' : ∀ t read a, (l.leaseUpdate lease.key decide).decide t read ≠ .stop (.ok a) := by
    intro t read a hread
    simp only [LockTable.leaseUpdate] at hread
    split at hread
    · exact hstop _ _ a hread
    · split at hread
      · cases hread
      · exact hstop _ _ a hread
  refine ⟨?_, (Bounded.effect hq).mono fun d hd => hpermits t d hd, ?_⟩
  · obtain ⟨note, limit, inner, rfl, ⟨state, hturn, hk, hs⟩ | ⟨hx, -, hk, hs⟩⟩ :=
      Bounded.update_turn hq
    · rw [hk]
      cases state <;> rfl
    · exact hk
  · exact Bounded.put_iff_ended (fun _ _ _ => rfl) (by simp) hstop' hq

theorem changes_take {l : LockTable} {lease : Lease} {inner : LockTable.Changing Unit}
    {q : Turned Hold (LockTable.Changing Unit)}
    (hq : (l.take lease).machine.turn? t m k inner stimulus = some q) :
    Changes l.table lease t m k inner q := by
  refine changes_within (fun t d => LockTable.permits_take) (fun now cur a hstop => ?_) hq
  cases cur with
  | none => cases hstop
  | some cur =>
    rw [LockTable.decideTake] at hstop
    split at hstop <;> cases hstop

theorem changes_extend {l : LockTable} {lease : Lease} {inner : LockTable.Changing Unit}
    {q : Turned Hold (LockTable.Changing Unit)}
    (hq : (l.extend lease).machine.turn? t m k inner stimulus = some q) :
    Changes l.table lease t m k inner q := by
  refine changes_within (fun t d => LockTable.permits_extend) (fun now cur a hstop => ?_) hq
  cases cur with
  | none => cases hstop
  | some cur =>
    rw [LockTable.decideExtend] at hstop
    split at hstop
    · cases hstop
    · split at hstop <;> cases hstop

structure TurnSpec (h : Holder) (releases : Prop) {σ : Type} (draft? : σ → Option Draft)
    (fits : σ → Prop) (t : Moment) (m : Memory) (k : Hold) (p : σ) (r : Turned Hold σ) : Prop where
  effect : Effect h.locks.table h.key (LeasePermit h.key h.owner t.wall) m (draft? p) r.exchange
    r.memory (draft? r.state)
  believing : Believing h releases k (draft? p) r.exchange r.cell
  fits : fits r.state

/-- What a holder makes of the outcome of a change that carries a lease. -/
structure Settles (h : Holder) (lease : Lease) {σ : Type} (draft? : σ → Option Draft)
    (fits : σ → Prop) (k : Hold) (settle : Hold × LockTable.Changing Unit → Hold × σ) : Prop where
  active (note : Unit) (limit : Span) (s : Update.Phase LeaseFault Unit) :
    (settle (k, .active note limit s)).1 = k ∧
      draft? (settle (k, .active note limit s)).2 = s.draft? ∧
      (h.Carries lease (.active note limit s) → fits (settle (k, .active note limit s)).2)
  ok : (settle (k, .ended (.ok ()))).1 = (h.noteLease k lease.expiresAt).1 ∧
    draft? (settle (k, .ended (.ok ()))).2 = none ∧ fits (settle (k, .ended (.ok ()))).2
  error (fault : LeaseFault) : (settle (k, .ended (.error fault))).1.released = k.released ∧
    ((settle (k, .ended (.error fault))).1.expiresAt = k.expiresAt ∨
      (settle (k, .ended (.error fault))).1.expiresAt = none) ∧
    draft? (settle (k, .ended (.error fault))).2 = none ∧
      fits (settle (k, .ended (.error fault))).2

theorem Settles.turn {lease : Lease} {σ : Type} {draft? : σ → Option Draft} {fits : σ → Prop}
    {settle : Hold × LockTable.Changing Unit → Hold × σ}
    (hs : h.Settles lease draft? fits k settle) {inner : LockTable.Changing Unit}
    (hcarries : h.Carries lease inner) {p : σ} (hp : draft? p = inner.draft?)
    {q : Turned Hold (LockTable.Changing Unit)} (hq : Changes h.locks.table lease t m k inner q)
    {r : Turned Hold σ} (hin : Machine.Inside settle q r) :
    TurnSpec h releases draft? fits t m k p r := by
  obtain ⟨⟨now, hnow, rfl⟩, hitem⟩ := hcarries
  obtain ⟨hcell, heffect, hput⟩ := hq
  obtain ⟨x, m', k', st⟩ := q
  obtain ⟨hx, hm, hk, hst⟩ := hin
  dsimp only at hcell heffect hput hx hm hk hst
  subst hcell
  have heffect' : Effect h.locks.table h.key (LeasePermit h.key h.owner t.wall) m (draft? p)
      r.exchange r.memory st.draft? := by
    rw [hp, hx, hm]
    exact heffect.mono fun d hd => hd.2
  have hcarried : ∀ d, st.draft? = some d → d.item = (h.leaseAt now).toItem := by
    intro d hd
    cases heffect with
    | idle hafter => cases hafter.symm.trans hd
    | read d' hafter hm hx hread hpermits =>
      cases hafter.symm.trans hd
      exact hpermits.1
    | wrote d' key hbefore hafter => cases hafter.symm.trans hd
  cases st with
  | active note limit s =>
    obtain ⟨hcell, hdraft, hfits⟩ := hs.active note limit s
    refine ⟨?_, .keeps ?_ ?_ ?_, ?_⟩
    · rw [hst, hdraft]
      exact heffect'
    · rw [hx]
      simpa using hput
    · rw [hk, hcell]
    · rw [hk, hcell]
      exact .inl rfl
    · rw [hst]
      exact hfits ⟨⟨now, hnow, rfl⟩, hcarried⟩
  | ended answer =>
    cases answer with
    | ok u =>
      obtain ⟨hcell, hdraft, hfits⟩ := hs.ok
      refine ⟨?_, .notes ?_ now hnow ?_ ?_, ?_⟩
      · rw [hst, hdraft]
        exact heffect'
      · rw [hx]
        exact hput.mpr rfl
      · rw [hp]
        exact hitem
      · rw [hk]
        exact hcell
      · rw [hst]
        exact hfits
    | error fault =>
      obtain ⟨hreleased, hexpiry, hdraft, hfits⟩ := hs.error fault
      refine ⟨?_, .keeps ?_ ?_ ?_, ?_⟩
      · rw [hst, hdraft]
        exact heffect'
      · rw [hx]
        simpa using hput
      · rw [hk]
        exact hreleased
      · rw [hk]
        exact hexpiry
      · rw [hst]
        exact hfits

theorem TurnSpec.idle {σ : Type} {draft? : σ → Option Draft} {fits : σ → Prop}
    {p : σ} {r : Turned Hold σ} (hx : r.exchange = none) (hm : r.memory = m) (hk : r.cell = k)
    (hdraft : draft? r.state = none) (hfits : fits r.state) :
    TurnSpec h releases draft? fits t m k p r := by
  refine ⟨.idle hdraft hm (by rw [hx]; rfl), .keeps (by rw [hx]; rfl) ?_ ?_, hfits⟩
  · rw [hk]
  · rw [hk]
    exact .inl rfl

/-! ## Taking the lock -/

theorem encloses_take (h : Holder) (started : Span) (lease : Lease) :
    (h.locks.take lease).machine.Encloses h.acquire.machine (.attempting started lease)
      fun t => h.settleAttempt t started lease where
  call s c resume hnext := by simp only [acquire, hnext]
  rest s d resume hnext := by simp only [acquire, hnext]
  done s a hnext := ⟨a, by simp only [acquire, hnext]⟩
  limit s := rfl
  expire t k s := rfl

theorem afterFailure_spec (h : Holder) (t : Moment) (started : Span) (fault : LeaseFault) :
    (h.afterFailure t started fault).draft? = none ∧ (h.afterFailure t started fault).Fits h := by
  rw [afterFailure]
  split
  · split
    · exact ⟨rfl, trivial⟩
    · split
      · exact ⟨rfl, trivial⟩
      · exact ⟨rfl, trivial⟩
  · exact ⟨rfl, trivial⟩

theorem settles_attempt (h : Holder) (t : Moment) (started : Span) (lease : Lease) (k : Hold) :
    h.Settles lease Acquiring.draft? (Acquiring.Fits h) k (h.settleAttempt t started lease) where
  active _ _ _ := ⟨rfl, rfl, id⟩
  ok := ⟨rfl, rfl, trivial⟩
  error fault := ⟨rfl, .inl rfl, afterFailure_spec h t started fault⟩

theorem acquire_turn {p : Acquiring} {r : Turned Hold Acquiring} (hp : p.Fits h)
    (ht : t.wall.IsValid) (hr : h.acquire.machine.turn? t m k p stimulus = some r) :
    TurnSpec h releases Acquiring.draft? (Acquiring.Fits h) t m k p r := by
  cases p with
  | attempting started lease inner =>
    obtain ⟨q, hq, hin⟩ := (encloses_take h started lease).turn_inner hr
    exact (settles_attempt h t started lease k).turn hp rfl (changes_take hq) hin
  | resting started length =>
    cases stimulus with
    | wake =>
      rw [Machine.turn?] at hr
      simp only [acquire] at hr
      split at hr
      · cases hr
        exact .idle rfl rfl rfl rfl trivial
      · cases hr
        exact .idle rfl rfl rfl rfl (carries_start h ht _)
    | _ => cases hr
  | done answer => cases stimulus <;> cases hr

theorem acquire_start (h : Holder) (t : Moment) (k : Hold) :
    (h.acquire.start t k).1 = k ∧ (h.acquire.start t k).2.draft? = none ∧
      (t.wall.IsValid → (h.acquire.start t k).2.Fits h) := by
  simp only [acquire]
  split
  · exact ⟨rfl, rfl, fun _ => trivial⟩
  · split
    · exact ⟨rfl, rfl, fun _ => trivial⟩
    · exact ⟨rfl, rfl, fun ht => carries_start h ht _⟩

/-! ## Extending the lease -/

theorem encloses_extend (h : Holder) (lease : Lease) :
    (h.locks.extend lease).machine.Encloses h.ensure.machine (.extending lease)
      fun _ => h.settleExtension lease where
  call s c resume hnext := by simp only [ensure, hnext]
  rest s d resume hnext := by simp only [ensure, hnext]
  done s a hnext := ⟨a, by simp only [ensure, hnext]⟩
  limit s := rfl
  expire t k s := rfl

theorem settles_extension (h : Holder) (lease : Lease) (k : Hold) :
    h.Settles lease Ensuring.draft? (Ensuring.Fits h) k (h.settleExtension lease) where
  active _ _ _ := ⟨rfl, rfl, id⟩
  ok := ⟨rfl, rfl, trivial⟩
  error fault := by
    cases fault with
    | lost key => exact ⟨rfl, .inr rfl, rfl, trivial⟩
    | heldByOther key owner expiry => exact ⟨rfl, .inr rfl, rfl, trivial⟩
    | _ => exact ⟨rfl, .inl rfl, rfl, trivial⟩

theorem ensure_turn {p : Ensuring} {r : Turned Hold Ensuring} (hp : p.Fits h)
    (hr : h.ensure.machine.turn? t m k p stimulus = some r) :
    TurnSpec h releases Ensuring.draft? (Ensuring.Fits h) t m k p r := by
  cases p with
  | extending lease inner =>
    obtain ⟨q, hq, hin⟩ := (encloses_extend h lease).turn_inner hr
    exact (settles_extension h lease k).turn hp rfl (changes_extend hq) hin
  | done answer => cases stimulus <;> cases hr

theorem ensure_start (h : Holder) (t : Moment) (k : Hold) :
    (h.ensure.start t k).1 = k ∧ (h.ensure.start t k).2.draft? = none ∧
      (t.wall.IsValid → (h.ensure.start t k).2.Fits h) := by
  simp only [ensure]
  split
  · exact ⟨rfl, rfl, fun _ => trivial⟩
  · split
    · exact ⟨rfl, rfl, fun _ => trivial⟩
    · exact ⟨rfl, rfl, fun _ => trivial⟩
    · exact ⟨rfl, rfl, fun ht => carries_start h ht _⟩

theorem ensure_start_of_not_due (hk : k.released = false)
    (hdue : h.extensionDue? k t.wall = some false) : h.ensure.start t k = (k, .done (.ok ())) := by
  simp only [ensure, hk, hdue, Bool.false_eq_true, if_false]

theorem ensure_start_of_due (hk : k.released = false)
    (hdue : h.extensionDue? k t.wall = some true) : h.ensure.start t k =
      (k, .extending (h.leaseAt t.wall) ((h.locks.extend (h.leaseAt t.wall)).start t k).2) := by
  simp only [ensure, hk, hdue, Bool.false_eq_true, if_false]
  rfl

/-! ## Giving the lock back -/

theorem release_turn (hreleases : releases) {p : LockTable.Changing Bool}
    {r : Turned Hold (LockTable.Changing Bool)}
    (hr : h.release.machine.turn? t m k p stimulus = some r) :
    TurnSpec h releases Bounded.draft? (fun _ => True) t m k p r := by
  refine ⟨(Bounded.effect hr).mono fun d hd => LockTable.permits_giveBack hd, ?_, trivial⟩
  have hcell : r.cell = k := by
    obtain ⟨note, limit, inner, rfl, ⟨state, -, hk, -⟩ | ⟨-, -, hk, -⟩⟩ := Bounded.update_turn hr
    · rw [hk]
      cases state <;> rfl
    · exact hk
  exact .givesBack hreleases hcell

/-! ## Keeping the lock in the background -/

theorem encloses_check (h : Holder) :
    h.ensure.machine.Encloses h.refresh.machine .checking fun _ => settleCheck where
  call s c resume hnext := by simp only [refresh, hnext]
  rest s d resume hnext := by simp only [refresh, hnext]
  done s a hnext := ⟨(), by simp only [refresh, hnext]⟩
  limit s := rfl
  expire t k s := rfl

theorem afterCheck_cases (answer : Except LeaseFault Unit) :
    afterCheck answer = .resting ∨ afterCheck answer = .stopped := by
  cases answer with
  | ok u => exact .inl rfl
  | error fault =>
    cases fault with
    | ledger fault =>
      rw [afterCheck]
      split
      · exact .inl rfl
      · exact .inr rfl
    | _ => exact .inr rfl

theorem settleCheck_spec {s : Hold × Ensuring} (hs : s.2.Fits h) :
    (settleCheck s).1 = s.1 ∧ (settleCheck s).2.draft? = s.2.draft? ∧ (settleCheck s).2.Fits h := by
  obtain ⟨k, inner⟩ := s
  cases inner with
  | extending lease inner => exact ⟨rfl, rfl, hs⟩
  | done answer =>
    refine ⟨rfl, ?_⟩
    change (afterCheck answer).draft? = none ∧ (afterCheck answer).Fits h
    rcases afterCheck_cases answer with hrests | hstops
    · rw [hrests]
      exact ⟨rfl, trivial⟩
    · rw [hstops]
      exact ⟨rfl, trivial⟩

theorem refresh_turn {p : Refreshing} {r : Turned Hold Refreshing} (hp : p.Fits h)
    (ht : t.wall.IsValid) (hr : h.refresh.machine.turn? t m k p stimulus = some r) :
    TurnSpec h releases Refreshing.draft? (Refreshing.Fits h) t m k p r := by
  cases p with
  | resting =>
    cases stimulus with
    | wake =>
      cases hr
      obtain ⟨hcell, hdraft, hfits⟩ := ensure_start h t k
      obtain ⟨hcell', hdraft', hfits'⟩ := settleCheck_spec (hfits ht)
      exact .idle rfl rfl (hcell'.trans hcell) (hdraft'.trans hdraft) hfits'
    | _ => cases hr
  | checking inner =>
    obtain ⟨q, hq, hx, hm, hk, hst⟩ := (encloses_check h).turn_inner hr
    obtain ⟨heffect, hbelieving, hfits⟩ := ensure_turn hp hq
    obtain ⟨hcell', hdraft', hfits'⟩ := settleCheck_spec (s := (q.cell, q.state)) hfits
    refine ⟨?_, ?_, ?_⟩
    · rw [hx, hm, hst, hdraft']
      exact heffect
    · rw [hx, hk, hcell']
      exact hbelieving
    · rw [hst]
      exact hfits'
  | stopped => cases stimulus <;> cases hr

end Holder

namespace HolderAction

def draft? : (a : HolderAction) → a.Phase → Option Draft
  | acquire => Holder.Acquiring.draft?
  | ensure => Holder.Ensuring.draft?
  | release => Bounded.draft?
  | refresh => Holder.Refreshing.draft?

def Fits (h : Holder) : (a : HolderAction) → a.Phase → Prop
  | acquire => Holder.Acquiring.Fits h
  | ensure => Holder.Ensuring.Fits h
  | release => fun _ => True
  | refresh => Holder.Refreshing.Fits h

theorem turn_spec {h : Holder} {a : HolderAction} {t : Moment} {m : Memory} {k : Hold}
    {p : a.Phase} {stimulus : Stimulus} {r : Turned Hold a.Phase} (hp : a.Fits h p)
    (ht : t.wall.IsValid) (hr : (a.operation h).machine.turn? t m k p stimulus = some r) :
    Holder.TurnSpec h (a = .release) a.draft? (a.Fits h) t m k p r := by
  cases a with
  | acquire => exact Holder.acquire_turn hp ht hr
  | ensure => exact Holder.ensure_turn hp hr
  | release => exact Holder.release_turn rfl hr
  | refresh => exact Holder.refresh_turn hp ht hr

theorem start_spec (h : Holder) (a : HolderAction) (t : Moment) (k : Hold) :
    a.draft? ((a.operation h).start t k).2 = none ∧
      (t.wall.IsValid → a.Fits h ((a.operation h).start t k).2) ∧
      ((a.operation h).start t k).1 = if a = .release then ⟨none, true⟩ else k := by
  cases a with
  | acquire =>
    obtain ⟨hcell, hdraft, hfits⟩ := Holder.acquire_start h t k
    exact ⟨hdraft, hfits, hcell⟩
  | ensure =>
    obtain ⟨hcell, hdraft, hfits⟩ := Holder.ensure_start h t k
    exact ⟨hdraft, hfits, hcell⟩
  | release =>
    refine ⟨?_, fun _ => trivial, ?_⟩
    · simp only [operation, Holder.release]
      split <;> rfl
    · simp only [operation, Holder.release]
      split <;> rfl
  | refresh => exact ⟨rfl, fun _ => trivial, rfl⟩

end HolderAction

end MigrationLedger
