import MigrationLedger.Proofs.AllOrNothing
import MigrationLedger.Proofs.GrantedLease
import MigrationLedger.Proofs.ReleaseRace

/-! A lock that was given back is not revived. Whoever still has an extension under way has read a
record that is no longer there, and finds after the conflict that the lease is lost. Only taking the
lock anew puts a lease of that owner again. -/

namespace MigrationLedger

/-- The record says that `owner` holds the lock. -/
def Lease.HeldIn (read : Option Item) (owner : String) : Prop :=
  ∃ item lease, read = some item ∧ ofItem item = .ok lease ∧ lease.owner = owner ∧
    lease.status = .held

theorem Draft.shown {d : Draft} {new : Lease} (hitem : d.item = new.toItem) {owner : String}
    (h : Lease.HeldIn (some d.written) owner) : new.owner = owner ∧ new.status = .held := by
  obtain ⟨item, lease, hwritten, hlease, howner, hstatus⟩ := h
  rw [← Option.some.inj hwritten, Draft.written, hitem] at hlease
  obtain ⟨hsame, hsame'⟩ := Lease.holder_of_ofItem hlease
  exact ⟨hsame.symm.trans howner, hsame'.symm.trans hstatus⟩

inductive LockChange where
  | take
  | extend
  | giveBack
  deriving DecidableEq

/-- What a change on behalf of `owner` may write. A lock that is given back shows no holder, any
other change shows the owner, and a lease is extended only where the owner holds the lock. -/
structure LockChange.Permits (change : LockChange) (key owner : String) (now : Instant)
    (d : Draft) : Prop extends LeasePermit key owner now d where
  shows : ∀ o, Lease.HeldIn (some d.written) o → change ≠ .giveBack ∧ o = owner
  held : change = .extend → Lease.HeldIn d.read owner

namespace LockTable

variable {l : LockTable} {new : Lease} {key owner : String} {t : Moment} {d : Draft}

theorem take_permits (h : (l.leaseUpdate new.key (decideTake new)).Permits t d) :
    LockChange.take.Permits new.key new.owner t.wall d := by
  obtain ⟨hitem, hpermit⟩ := permits_take h
  exact ⟨hpermit, fun o ho => ⟨nofun, (Draft.shown hitem ho).1.symm⟩, nofun⟩

theorem extend_permits (h : (l.leaseUpdate new.key (decideExtend new)).Permits t d) :
    LockChange.extend.Permits new.key new.owner t.wall d := by
  obtain ⟨hitem, hpermit⟩ := permits_extend h
  refine ⟨hpermit, fun o ho => ⟨nofun, (Draft.shown hitem ho).1.symm⟩, fun _ => ?_⟩
  rcases permits_cases h with ⟨-, answer, hdecide⟩ | ⟨item, cur, answer, hread, hcur, hdecide⟩
  · cases hdecide
  · rw [decideExtend] at hdecide
    split at hdecide
    · cases hdecide
    · split at hdecide
      · cases hdecide
      · next hmine =>
        simp only [ne_eq, not_or, not_not] at hmine
        exact ⟨item, cur, hread, hcur, hmine.1, hmine.2⟩

theorem giveBack_permits (h : (l.leaseUpdate key (decideGiveBack owner)).Permits t d) :
    LockChange.giveBack.Permits key owner t.wall d := by
  refine ⟨permits_giveBack h, fun o ho => ?_, nofun⟩
  rcases permits_cases h with ⟨-, answer, hdecide⟩ | ⟨item, cur, answer, -, -, hdecide⟩
  · cases hdecide
  · rw [decideGiveBack] at hdecide
    split at hdecide
    · have hitem := (Verdict.write.inj hdecide).1.symm
      cases (Draft.shown hitem ho).2
    · cases hdecide

/-- How a lock is found given back: by the put that gave it back, or by a read of a record that does
not say that the owner holds it. -/
inductive FoundFree (table key owner : String) (m : Memory) (x : Option Exchange) (m' : Memory) :
    Bool → Prop where
  | wrote (hx : x.any isPut = true) : FoundFree table key owner m x m' true
  | read (hx : x = some ⟨.getItem table key, .ok (m.item? table key)⟩) (hm : m' = m)
      (hfree : ¬Lease.HeldIn (m.item? table key) owner) : FoundFree table key owner m x m' false

theorem FoundFree.exchange {table key owner : String} {m m' : Memory} {x : Option Exchange}
    {gaveBack : Bool} (h : FoundFree table key owner m x m' gaveBack) :
    ∃ x', x = some x' ∧ isPut x' = gaveBack ∧ (readOf x').isSome = !gaveBack := by
  cases h with
  | wrote hput =>
    obtain ⟨⟨c, a⟩, hx, hput⟩ := (Option.any_eq_true _ _).mp hput
    cases c with
    | putItem => exact ⟨_, hx, hput, rfl⟩
    | _ => cases hput
  | read hx hm hfree => exact ⟨_, hx, rfl, rfl⟩

def gaveBack? : Changing Bool → Option Bool
  | .ended (.ok gaveBack) => some gaveBack
  | _ => none

theorem giveBack_turn {κ : Type} {m : Memory} {k : κ} {p : Changing Bool} {stimulus : Stimulus}
    {r : Turned κ (Changing Bool)}
    (hp : p.Pledged Lease.schema key (LockCall.wrote (.giveBack key owner)))
    (hr : (l.giveBack key owner).machine.turn? t m k p stimulus = some r) {gaveBack : Bool}
    (hend : gaveBack? r.state = some gaveBack) :
    FoundFree l.table key owner m r.exchange r.memory gaveBack := by
  obtain ⟨note, limit, inner, rfl, ⟨state, hturn, -, hs⟩ | ⟨-, -, -, hs⟩⟩ := Bounded.update_turn hr
  · have hdone : state = .done (.ok gaveBack) := by
      rw [hs] at hend
      rcases state with _ | _ | _ | (fault | answer)
      case done.ok =>
        cases hend
        rfl
      all_goals cases hend
    subst hdone
    generalize hx : r.exchange = x, hm : r.memory = m',
      hdone : Update.Phase.done (.ok gaveBack) = state at hturn
    cases hturn with
    | read =>
      rw [Update.afterRead] at hdone
      split at hdone
      · next answer hdecide =>
        obtain rfl := Update.Phase.done.inj hdone
        have hstop := (l.writes (.giveBack key owner)).stop _ _ _ hdecide
        obtain rfl : gaveBack = false := hstop
        refine .read rfl rfl ?_
        rintro ⟨item, lease, hitem, hlease, hmine⟩
        exact stop_of_giveBack hdecide item lease hitem hlease hmine
      · cases hdone
    | unread fault => cases hdone
    | wrote hkey hunchanged hputs =>
      cases hdone
      obtain rfl : gaveBack = true := hp.1
      exact .wrote rfl
    | unwritten fault => cases fault <;> cases hdone
    | resumed => cases hdone
  · rw [hs] at hend
    cases hend

end LockTable

/-! ## Holders -/

namespace Holder

variable {h : Holder} {t : Moment} {m : Memory} {k : Hold} {stimulus : Stimulus}

def Owns (h : Holder) (lease : Lease) : Prop := lease.key = h.key ∧ lease.owner = h.owner

def Acquiring.Owned (h : Holder) : Acquiring → Prop
  | attempting _ lease _ => h.Owns lease
  | _ => True

def Ensuring.Owned (h : Holder) : Ensuring → Prop
  | extending lease _ => h.Owns lease
  | done _ => True

def Refreshing.Owned (h : Holder) : Refreshing → Prop
  | checking inner => inner.Owned h
  | _ => True

theorem attempt_owned (h : Holder) (t : Moment) (started : Span) {lease : Lease}
    (hlease : h.Owns lease) (s : Hold × LockTable.Changing Unit) :
    (h.settleAttempt t started lease s).2.draft? = s.2.draft? ∧
      (h.settleAttempt t started lease s).2.Owned h := by
  obtain ⟨k, note | (fault | u)⟩ := s
  · exact ⟨rfl, hlease⟩
  · change (h.afterFailure t started fault).draft? = none ∧ (h.afterFailure t started fault).Owned h
    rcases afterFailure_cases h t started fault with ⟨fault', hdone⟩ | ⟨length, hrests⟩
    · rw [hdone]
      exact ⟨rfl, trivial⟩
    · rw [hrests]
      exact ⟨rfl, trivial⟩
  · exact ⟨rfl, trivial⟩

theorem extension_owned {lease : Lease} (hlease : h.Owns lease)
    (s : Hold × LockTable.Changing Unit) :
    (h.settleExtension lease s).2.draft? = s.2.draft? ∧
      (h.settleExtension lease s).2.Owned h := by
  obtain ⟨k, note | (fault | u)⟩ := s
  · exact ⟨rfl, hlease⟩
  · cases fault <;> exact ⟨rfl, trivial⟩
  · exact ⟨rfl, trivial⟩

theorem check_owned {s : Hold × Ensuring} (hs : s.2.Owned h) :
    (settleCheck s).2.draft? = s.2.draft? ∧ (settleCheck s).2.Owned h := by
  obtain ⟨k, lease | answer⟩ := s
  · exact ⟨rfl, hs⟩
  · change (afterCheck answer).draft? = none ∧ (afterCheck answer).Owned h
    rcases answer with fault | u
    · cases fault with
      | ledger fault =>
        rw [afterCheck]
        split <;> exact ⟨rfl, trivial⟩
      | _ => exact ⟨rfl, trivial⟩
    · exact ⟨rfl, trivial⟩

theorem acquire_owned {p : Acquiring} {r : Turned Hold Acquiring} (hp : p.Owned h)
    (hr : h.acquire.machine.turn? t m k p stimulus = some r) :
    Effect h.locks.table h.key (LockChange.take.Permits h.key h.owner t.wall) m p.draft? r.exchange
      r.memory r.state.draft? ∧ r.state.Owned h := by
  cases p with
  | attempting started lease inner =>
    obtain ⟨q, hq, hx, hm, -, hst⟩ := (encloses_take h started lease).turn_inner hr
    obtain ⟨hdraft, howned⟩ := attempt_owned h t started hp (q.cell, q.state)
    rw [hx, hm, hst, hdraft]
    refine ⟨?_, howned⟩
    rw [← hp.1, ← hp.2]
    exact (Bounded.effect hq).mono fun d => LockTable.take_permits
  | resting started length =>
    cases stimulus with
    | wake =>
      rw [Machine.turn?] at hr
      simp only [acquire] at hr
      split at hr
      · cases hr
        exact ⟨.idle rfl rfl rfl, trivial⟩
      · cases hr
        exact ⟨.idle rfl rfl rfl, rfl, rfl⟩
    | _ => cases hr
  | done answer => cases stimulus <;> cases hr

theorem ensure_owned {p : Ensuring} {r : Turned Hold Ensuring} (hp : p.Owned h)
    (hr : h.ensure.machine.turn? t m k p stimulus = some r) :
    Effect h.locks.table h.key (LockChange.extend.Permits h.key h.owner t.wall) m p.draft?
      r.exchange r.memory r.state.draft? ∧ r.state.Owned h := by
  cases p with
  | extending lease inner =>
    obtain ⟨q, hq, hx, hm, -, hst⟩ := (encloses_extend h lease).turn_inner hr
    obtain ⟨hdraft, howned⟩ := extension_owned hp (q.cell, q.state)
    rw [hx, hm, hst, hdraft]
    refine ⟨?_, howned⟩
    rw [← hp.1, ← hp.2]
    exact (Bounded.effect hq).mono fun d => LockTable.extend_permits
  | done answer => cases stimulus <;> cases hr

theorem ensure_start_owned (h : Holder) (t : Moment) (k : Hold) :
    (h.ensure.start t k).2.Owned h := by
  simp only [ensure]
  split
  · trivial
  · split
    · trivial
    · trivial
    · exact ⟨rfl, rfl⟩

theorem refresh_owned {p : Refreshing} {r : Turned Hold Refreshing} (hp : p.Owned h)
    (hr : h.refresh.machine.turn? t m k p stimulus = some r) :
    Effect h.locks.table h.key (LockChange.extend.Permits h.key h.owner t.wall) m p.draft?
      r.exchange r.memory r.state.draft? ∧ r.state.Owned h := by
  cases p with
  | resting =>
    cases stimulus with
    | wake =>
      cases hr
      obtain ⟨hdraft, howned⟩ := check_owned (ensure_start_owned h t k)
      exact ⟨.idle (hdraft.trans (ensure_start h t k).2.1) rfl rfl, howned⟩
    | _ => cases hr
  | checking inner =>
    obtain ⟨q, hq, hx, hm, -, hst⟩ := (encloses_check h).turn_inner hr
    obtain ⟨heffect, howned⟩ := ensure_owned hp hq
    obtain ⟨hdraft, howned'⟩ := check_owned (s := (q.cell, q.state)) howned
    rw [hx, hm, hst, hdraft]
    exact ⟨heffect, howned'⟩
  | stopped => cases stimulus <;> cases hr

end Holder

namespace HolderAction

def change : HolderAction → LockChange
  | acquire => .take
  | ensure | refresh => .extend
  | release => .giveBack

def Owned (h : Holder) : (a : HolderAction) → a.Phase → Prop
  | acquire => Holder.Acquiring.Owned h
  | ensure => Holder.Ensuring.Owned h
  | release => Bounded.Pledged Lease.schema h.key (LockCall.wrote (.giveBack h.key h.owner))
  | refresh => Holder.Refreshing.Owned h

theorem start_owned (h : Holder) (a : HolderAction) (t : Moment) (k : Hold) :
    a.Owned h ((a.operation h).start t k).2 := by
  cases a with
  | acquire =>
    simp only [operation, Holder.acquire]
    split
    · trivial
    · split
      · trivial
      · exact ⟨rfl, rfl⟩
  | ensure => exact Holder.ensure_start_owned h t k
  | release =>
    simp only [operation, Holder.release]
    split
    · trivial
    · trivial
  | refresh => trivial

end HolderAction

/-! ## Whoever uses locks -/

namespace LockCall

def change : LockCall → LockChange
  | take _ => .take
  | extend _ => .extend
  | giveBack .. => .giveBack

theorem turn_owned {κ : Type} {l : LockTable} (call : LockCall) {t : Moment} {m : Memory} {k : κ}
    {p : LockTable.Changing call.Reply} {stimulus : Stimulus}
    {r : Turned κ (LockTable.Changing call.Reply)} (hm : m.KeyedBy l.table Lease.schema)
    (hp : p.Pledged Lease.schema call.key call.wrote)
    (hr : (call.operation l).machine.turn? t m k p stimulus = some r) :
    Effect l.table call.key (call.change.Permits call.key call.owner t.wall) m p.draft? r.exchange
      r.memory r.state.draft? ∧ r.state.Pledged Lease.schema call.key call.wrote := by
  cases call with
  | take new =>
    exact ⟨(Bounded.effect hr).mono fun d => LockTable.take_permits, (Bounded.deed
      (l.writes (.take new)) (fun _ _ _ => rfl) (fun _ h => by cases h) hm hp hr).2.1⟩
  | extend new =>
    exact ⟨(Bounded.effect hr).mono fun d => LockTable.extend_permits, (Bounded.deed
      (l.writes (.extend new)) (fun _ _ _ => rfl) (fun _ h => by cases h) hm hp hr).2.1⟩
  | giveBack key owner =>
    exact ⟨(Bounded.effect hr).mono fun d => LockTable.giveBack_permits, (Bounded.deed
      (l.writes (.giveBack key owner)) (fun _ _ _ => rfl) (fun _ h => by cases h) hm hp hr).2.1⟩

end LockCall

/-- What a holder of locks is made of. -/
structure Tenant where
  key : String
  owner : String
  options : LockOptions := {}
  tableOptions : TableOptions := {}

def Tenant.holder (g : Tenant) (table : String) : Holder :=
  ⟨⟨table, g.tableOptions⟩, g.key, g.owner, g.options⟩

/-- A lock is changed directly, or through a holder. -/
inductive LockUse (γ : Type) where
  | direct (options : TableOptions) (call : LockCall)
  | through (g : γ) (action : HolderAction)

namespace LockUse

variable {γ : Type}

abbrev Phase : LockUse γ → Type
  | direct _ call => LockTable.Changing call.Reply
  | through _ action => action.Phase

abbrev Outcome : LockUse γ → Type
  | direct _ call => Except LeaseFault call.Reply
  | through _ action => action.Outcome

def operation (table : String) (tenants : γ → Tenant) :
    (u : LockUse γ) → Operation Hold u.Phase u.Outcome
  | direct options call => call.operation ⟨table, options⟩
  | through g action => action.operation ((tenants g).holder table)

def holder? : LockUse γ → Option γ
  | direct .. => none
  | through g _ => some g

def change : LockUse γ → LockChange
  | direct _ call => call.change
  | through _ action => action.change

def key (tenants : γ → Tenant) : LockUse γ → String
  | direct _ call => call.key
  | through g _ => (tenants g).key

def owner (tenants : γ → Tenant) : LockUse γ → String
  | direct _ call => call.owner
  | through g _ => (tenants g).owner

def draft? : (u : LockUse γ) → u.Phase → Option Draft
  | direct .., p => Bounded.draft? p
  | through _ action, p => action.draft? p

def Owned (table : String) (tenants : γ → Tenant) : (u : LockUse γ) → u.Phase → Prop
  | direct _ call, p => Bounded.Pledged Lease.schema call.key call.wrote p
  | through g action, p => action.Owned ((tenants g).holder table) p

/-- What has been answered to the owner who gave the lock back. -/
def gaveBack? : (u : LockUse γ) → u.Phase → Option Bool
  | direct _ (.giveBack ..), p => LockTable.gaveBack? p
  | through _ .release, p => LockTable.gaveBack? p
  | _, _ => none

def locks (table : String) (tenants : γ → Tenant) : LockUse γ → LockTable
  | direct options _ => ⟨table, options⟩
  | through g _ => ((tenants g).holder table).locks

/-- The extension that is under way, be it made by hand, in the foreground or in the background. -/
def extending? : (u : LockUse γ) → u.Phase → Option (Lease × LockTable.Changing Unit)
  | direct _ (.extend new), inner => some (new, inner)
  | through _ .ensure, .extending lease inner => some (lease, inner)
  | through _ .refresh, .checking (.extending lease inner) => some (lease, inner)
  | _, _ => none

/-- In this turn an extension that is under way gets its answer: the lease is extended. -/
def Extends (table : String) (tenants : γ → Tenant) (u : LockUse γ) (t : Moment) (m : Memory)
    (k : Hold) (p : u.Phase) (stimulus : Stimulus) : Prop :=
  ∃ lease inner q, u.extending? p = some (lease, inner) ∧
    ((u.locks table tenants).extend lease).machine.turn? t m k inner stimulus = some q ∧
    q.state = .ended (.ok ())

variable {table : String} {tenants : γ → Tenant} {u : LockUse γ} {t : Moment} {m : Memory}
  {k : Hold} {p : u.Phase} {stimulus : Stimulus} {r : Turned Hold u.Phase}

theorem start_spec (table : String) (tenants : γ → Tenant) (u : LockUse γ) (t : Moment) (k : Hold) :
    u.draft? ((u.operation table tenants).start t k).2 = none ∧
      u.Owned table tenants ((u.operation table tenants).start t k).2 := by
  cases u with
  | direct options call => cases call <;> exact ⟨rfl, trivial⟩
  | through g action =>
    exact ⟨(HolderAction.start_spec _ action t k).1, HolderAction.start_owned _ action t k⟩

theorem turn_spec (hm : m.KeyedBy table Lease.schema) (hp : u.Owned table tenants p)
    (hr : (u.operation table tenants).machine.turn? t m k p stimulus = some r) :
    Effect table (u.key tenants) (u.change.Permits (u.key tenants) (u.owner tenants) t.wall) m
      (u.draft? p) r.exchange r.memory (u.draft? r.state) ∧ u.Owned table tenants r.state := by
  cases u with
  | direct options call => exact call.turn_owned hm hp hr
  | through g action =>
    cases action with
    | acquire => exact Holder.acquire_owned hp hr
    | ensure => exact Holder.ensure_owned hp hr
    | release => exact LockCall.turn_owned (.giveBack _ _) hm hp hr
    | refresh => exact Holder.refresh_owned hp hr

theorem gaveBack_turn (hp : u.Owned table tenants p)
    (hr : (u.operation table tenants).machine.turn? t m k p stimulus = some r) {gaveBack : Bool}
    (hend : u.gaveBack? r.state = some gaveBack) :
    u.change = .giveBack ∧ LockTable.FoundFree table (u.key tenants) (u.owner tenants) m r.exchange
      r.memory gaveBack := by
  cases u with
  | direct options call =>
    cases call with
    | giveBack key owner => exact ⟨rfl, LockTable.giveBack_turn hp hr hend⟩
    | take new => cases hend
    | extend new => cases hend
  | through g action =>
    cases action with
    | release => exact ⟨rfl, LockTable.giveBack_turn hp hr hend⟩
    | acquire => cases hend
    | ensure => cases hend
    | refresh => cases hend

theorem Extends.put (h : u.Extends table tenants t m k p stimulus)
    (hr : (u.operation table tenants).machine.turn? t m k p stimulus = some r) :
    r.exchange.any isPut = true := by
  obtain ⟨lease, inner, q, hinner, hq, hok⟩ := h
  have hput : q.exchange.any isPut = true := (Holder.changes_extend hq).put_iff.mpr hok
  cases u with
  | direct options call =>
    cases call with
    | extend new =>
      obtain ⟨rfl, rfl⟩ := Prod.mk.inj (Option.some.inj hinner)
      cases hq.symm.trans hr
      exact hput
    | take new => cases hinner
    | giveBack key owner => cases hinner
  | through g action =>
    cases action with
    | ensure =>
      cases p with
      | extending lease' inner' =>
        obtain ⟨rfl, rfl⟩ := Prod.mk.inj (Option.some.inj hinner)
        obtain ⟨q', hq', hin⟩ := (Holder.encloses_extend _ lease').turn_inner hr
        cases hq.symm.trans hq'
        rw [hin.exchange]
        exact hput
      | done answer => cases hinner
    | refresh =>
      cases p with
      | checking check =>
        obtain ⟨r', hr', hin'⟩ := (Holder.encloses_check _).turn_inner hr
        cases check with
        | extending lease' inner' =>
          obtain ⟨rfl, rfl⟩ := Prod.mk.inj (Option.some.inj hinner)
          obtain ⟨q', hq', hin⟩ := (Holder.encloses_extend _ lease').turn_inner hr'
          cases hq.symm.trans hq'
          rw [hin'.exchange, hin.exchange]
          exact hput
        | done answer => cases hinner
      | resting => cases hinner
      | stopped => cases hinner
    | acquire => cases hinner
    | release => cases hinner

end LockUse

abbrev lockUsers {ι γ : Type} (table : String) (tenants : γ → Tenant) (uses : ι → LockUse γ) :
    Crew ι (Option γ) Hold where
  object i := (uses i).holder?
  Phase i := (uses i).Phase
  Outcome i := (uses i).Outcome
  operation i := (uses i).operation table tenants

namespace Revival

variable {ι γ : Type} {table : String} {tenants : γ → Tenant} {uses : ι → LockUse γ}
  {flow : Moment → Moment → Prop} {key owner : String}

def drafting (table : String) (tenants : γ → Tenant) (uses : ι → LockUse γ) :
    (lockUsers table tenants uses).Drafting table Lease.schema where
  key i := (uses i).key tenants
  draft? i := (uses i).draft?
  permits i t := (uses i).change.Permits ((uses i).key tenants) ((uses i).owner tenants) t.wall
  keyed := Lease.partitionKey_ne
  start _ _ _ := (LockUse.start_spec ..).1
  addressed h := h.toLeasePermit.addressed

/-- The use `i` is such a change of the lock under `key`, on behalf of `owner`. -/
structure Makes (tenants : γ → Tenant) (uses : ι → LockUse γ) (change : LockChange)
    (key owner : String) (i : ι) : Prop where
  change : (uses i).change = change
  key : (uses i).key tenants = key
  owner : (uses i).owner tenants = owner

/-- In the order of the puts, no extension for `owner` comes before the owner has taken the lock. -/
def TakenFirst (tenants : γ → Tenant) (uses : ι → LockUse γ) (key owner : String)
    (puts : List ι) : Prop :=
  ∀ earlier i rest, puts = earlier ++ i :: rest → Makes tenants uses .extend key owner i →
    ∃ j ∈ earlier, Makes tenants uses .take key owner j

theorem TakenFirst.concat {puts : List ι} (h : TakenFirst tenants uses key owner puts) {i : ι}
    (hi : Makes tenants uses .extend key owner i →
      ∃ j ∈ puts, Makes tenants uses .take key owner j) :
    TakenFirst tenants uses key owner (puts ++ [i]) := by
  intro earlier j rest hsplit hmakes
  rcases List.eq_nil_or_concat rest with rfl | ⟨rest, last, rfl⟩
  · obtain ⟨rfl, hlast⟩ := List.append_inj' hsplit rfl
    cases hlast
    exact hi hmakes
  · rw [List.concat_eq_append, ← List.cons_append, ← List.append_assoc] at hsplit
    obtain ⟨hputs, -⟩ := List.append_inj' hsplit rfl
    exact h earlier j rest hputs hmakes

variable [DecidableEq ι]

structure Steady (flow : Moment → Moment → Prop) (s : (lockUsers table tenants uses).State) :
    Prop where
  coherent : (drafting table tenants uses).Coherent flow s
  owned : ∀ i p, s.phase i = some p → (uses i).Owned table tenants p

variable {s s' s₁ s₂ : (lockUsers table tenants uses).State}

theorem Steady.obeys (h : Steady flow s) : (drafting table tenants uses).Obeys s :=
  fun i p _ _ hp hr => (LockUse.turn_spec h.coherent.keyedBy (h.owned i p hp) hr).1

/-- A put replaces the record that its decision was made on. -/
theorem Steady.put_permitted (h : Steady flow s) {i : ι} {p : (uses i).Phase}
    {stimulus : Stimulus} {r : Turned Hold (uses i).Phase} (hp : s.phase i = some p)
    (hr : ((uses i).operation table tenants).machine.turn? s.clock s.memory (s.cellOf i) p
      stimulus = some r) (hput : r.exchange.any isPut = true) :
    ∃ (t : Moment) (d : Draft),
      (uses i).change.Permits ((uses i).key tenants) ((uses i).owner tenants) t.wall d ∧
      s.memory.item? table ((uses i).key tenants) = d.read ∧
      s.memory.Puts table ((uses i).key tenants) d.written r.memory := by
  have heffect := h.obeys i p stimulus r hp hr
  cases heffect with
  | idle hafter hm hx => cases hx.symm.trans hput
  | read d hafter hm hx hread hpermits =>
    rw [hx] at hput
    cases hput
  | wrote d k hbefore hafter hx hkey hunchanged hputs =>
    have hsound := h.coherent.sound i p d hp hbefore
    obtain ⟨rfl, hread⟩ := hsound.replaces h.coherent.keyedBy hkey hunchanged
    obtain ⟨t, -, hpermits⟩ := hsound.decided
    exact ⟨t, d, hpermits, hread, hputs⟩

/-- While `owner` does not hold the lock, no put gives it to `owner` but one that takes it, and none
extends its lease. -/
theorem Steady.free_after (h : Steady flow s)
    (hfree : ¬Lease.HeldIn (s.memory.item? table key) owner) {i : ι} {p : (uses i).Phase}
    {stimulus : Stimulus} {r : Turned Hold (uses i).Phase} (hp : s.phase i = some p)
    (hr : ((uses i).operation table tenants).machine.turn? s.clock s.memory (s.cellOf i) p
      stimulus = some r) :
    (r.exchange.any isPut = true ∧ Makes tenants uses .take key owner i) ∨
      ¬Lease.HeldIn (r.memory.item? table key) owner ∧
        (r.exchange.any isPut = true → ¬Makes tenants uses .extend key owner i) := by
  by_cases hput : r.exchange.any isPut = true
  · obtain ⟨t, d, hpermits, hread, hputs⟩ := h.put_permitted hp hr hput
    by_cases hsame : (uses i).key tenants = key
    · -- the record that an extension replaces would show the owner as the holder
      have hextend : ¬Makes tenants uses .extend key owner i := by
        rintro ⟨hchange, -, howner⟩
        have hheld := hpermits.held hchange
        rw [← hread, howner, hsame] at hheld
        exact hfree hheld
      by_cases htake : Makes tenants uses .take key owner i
      · exact .inl ⟨hput, htake⟩
      · refine .inr ⟨fun hheld => ?_, fun _ => hextend⟩
        rw [← hsame, hputs.self] at hheld
        obtain ⟨hchange, howner⟩ := hpermits.shows owner hheld
        cases hkind : (uses i).change with
        | take => exact htake ⟨hkind, hsame, howner.symm⟩
        | extend => exact hextend ⟨hkind, hsame, howner.symm⟩
        | giveBack => exact hchange hkind
    · refine .inr ⟨?_, fun _ hmakes => hsame hmakes.key⟩
      rw [hputs.others table key (.inr fun heq => hsame heq.symm)]
      exact hfree
  · rw [(h.obeys i p stimulus r hp hr).memory_eq (Bool.eq_false_iff.mpr hput)]
    exact .inr ⟨hfree, fun hput' => absurd hput' hput⟩

theorem Steady.free_of_gaveBack (h : Steady flow s) {i : ι} {p : (uses i).Phase}
    {stimulus : Stimulus} {r : Turned Hold (uses i).Phase} (hp : s.phase i = some p)
    (hr : ((uses i).operation table tenants).machine.turn? s.clock s.memory (s.cellOf i) p
      stimulus = some r) {gaveBack : Bool} (hend : (uses i).gaveBack? r.state = some gaveBack) :
    ¬Lease.HeldIn (r.memory.item? table ((uses i).key tenants)) ((uses i).owner tenants) := by
  obtain ⟨hchange, hfound⟩ := LockUse.gaveBack_turn (h.owned i p hp) hr hend
  cases hfound with
  | read hx hm hfree =>
    rw [hm]
    exact hfree
  | wrote hput =>
    obtain ⟨t, d, hpermits, -, hputs⟩ := h.put_permitted hp hr hput
    rw [hputs.self]
    exact fun hheld => (hpermits.shows _ hheld).1 hchange

/-- How things stand since `s₂`, when the owner did not hold the lock. -/
structure Since (tenants : γ → Tenant) (uses : ι → LockUse γ) (table key owner : String)
    (s₂ s : (lockUsers table tenants uses).State) (puts : List ι) : Prop where
  writers : Crew.writers s.log = Crew.writers s₂.log ++ puts
  takenFirst : TakenFirst tenants uses key owner puts
  free : (∃ j ∈ puts, Makes tenants uses .take key owner j) ∨
    ¬Lease.HeldIn (s.memory.item? table key) owner

/-- An extension is answered only where one of the puts has taken the lock. -/
theorem Since.taken {puts : List ι} (hsteady : Steady flow s)
    (h : Since tenants uses table key owner s₂ s puts) {i : ι}
    (hmakes : Makes tenants uses .extend key owner i) {p : (uses i).Phase} {stimulus : Stimulus}
    {r : Turned Hold (uses i).Phase} (hp : s.phase i = some p)
    (hr : ((uses i).operation table tenants).machine.turn? s.clock s.memory (s.cellOf i) p
      stimulus = some r)
    (hextends : (uses i).Extends table tenants s.clock s.memory (s.cellOf i) p stimulus) :
    ∃ j ∈ puts, Makes tenants uses .take key owner j := by
  rcases h.free with htaken | hfree
  · exact htaken
  · rcases hsteady.free_after hfree hp hr with ⟨-, htake⟩ | ⟨-, hnot⟩
    · cases htake.change.symm.trans hmakes.change
    · exact absurd hmakes (hnot (hextends.put hr))

variable [DecidableEq γ]

theorem Steady.step (h : Steady flow s) (hs : (lockUsers table tenants uses).Step flow s s') :
    Steady flow s' := by
  refine ⟨h.coherent.step h.obeys hs, ?_⟩
  cases hs with
  | pass ht => exact h.owned
  | act hact =>
    obtain ⟨i, -, rfl⟩ | ⟨i, p, stimulus, r, hp, hr, rfl⟩ := Crew.State.act_cases hact
    · exact Crew.State.forall_phase_settle h.owned (LockUse.start_spec ..).2 _
    · have hturn := LockUse.turn_spec h.coherent.keyedBy (h.owned i p hp) hr
      exact Crew.State.forall_phase_after h.owned hturn.2

theorem Steady.run (h : Steady flow s) (hs : (lockUsers table tenants uses).Reachable flow s s') :
    Steady flow s' := by
  induction hs with
  | refl => exact h
  | tail _ hstep ih => exact ih.step hstep

theorem Since.after {puts : List ι} (hsteady : Steady flow s)
    (h : Since tenants uses table key owner s₂ s puts) {i : ι} {p : (uses i).Phase}
    {stimulus : Stimulus} {r : Turned Hold (uses i).Phase} (hp : s.phase i = some p)
    (hr : ((uses i).operation table tenants).machine.turn? s.clock s.memory (s.cellOf i) p
      stimulus = some r) :
    Since tenants uses table key owner s₂ (s.after i r)
      (puts ++ if r.exchange.any isPut = true then [i] else []) := by
  have hwriters := Crew.writers_after s i r
  rw [h.writers, List.append_assoc] at hwriters
  refine ⟨hwriters, ?_, ?_⟩
  · by_cases hput : r.exchange.any isPut = true
    · rw [if_pos hput]
      refine h.takenFirst.concat fun hmakes => ?_
      rcases h.free with htaken | hfree
      · exact htaken
      · rcases hsteady.free_after hfree hp hr with ⟨-, htake⟩ | ⟨-, hnot⟩
        · cases htake.change.symm.trans hmakes.change
        · exact absurd hmakes (hnot hput)
    · rw [if_neg hput, List.append_nil]
      exact h.takenFirst
  · rcases h.free with ⟨j, hj, htake⟩ | hfree
    · exact .inl ⟨j, List.mem_append_left _ hj, htake⟩
    · rcases hsteady.free_after hfree hp hr with ⟨hput, htake⟩ | ⟨hfree', -⟩
      · exact .inl ⟨i, by simp [hput], htake⟩
      · exact .inr hfree'

theorem Since.run (hsteady : Steady flow s₂)
    (hfree : ¬Lease.HeldIn (s₂.memory.item? table key) owner)
    (hs : (lockUsers table tenants uses).Reachable flow s₂ s) :
    ∃ puts, Since tenants uses table key owner s₂ s puts := by
  induction hs with
  | refl =>
    refine ⟨[], by simp, fun earlier i rest hsplit => ?_, .inr hfree⟩
    simp at hsplit
  | tail hrun hstep ih =>
    obtain ⟨puts, h⟩ := ih
    cases hstep with
    | pass ht => exact ⟨puts, h.writers, h.takenFirst, h.free⟩
    | act hact =>
      obtain ⟨i, -, rfl⟩ | ⟨i, p, stimulus, r, hp, hr, rfl⟩ := Crew.State.act_cases hact
      · exact ⟨puts, h.writers, h.takenFirst, h.free⟩
      · exact ⟨_, h.after (hsteady.run hrun) hp hr⟩

/-- What comes after the step from `s₁` to `s₂`, in which the removal `r` has its answer. -/
structure Final (tenants : γ → Tenant) (uses : ι → LockUse γ) (r : ι) (gaveBack : Bool)
    (s₁ s₂ s : (lockUsers table tenants uses).State) : Prop where
  /-- The answer comes with the put of the removal, or with its read. -/
  answered : ∃ x, s₂.log = s₁.log ++ [⟨r, s₁.clock, x⟩] ∧ isPut x = gaveBack ∧
    (readOf x).isSome = !gaveBack
  /-- Before a put has taken the lock anew, no put extends the lease, and no extension gets the
  answer that it has. -/
  unrevived : ∃ puts, Crew.writers s.log = Crew.writers s₂.log ++ puts ∧
    TakenFirst tenants uses ((uses r).key tenants) ((uses r).owner tenants) puts ∧
    ∀ i p stimulus, Makes tenants uses .extend ((uses r).key tenants) ((uses r).owner tenants) i →
      s.phase i = some p → (s.act? (.turn i stimulus)).isSome = true →
      (uses i).Extends table tenants s.clock s.memory (s.cellOf i) p stimulus →
      ∃ j ∈ puts, Makes tenants uses .take ((uses r).key tenants) ((uses r).owner tenants) j

/-- A lock that was given back is not revived. -/
theorem removal_final {m₀ : Memory}
    (hkeyed : m₀.KeyedBy table Lease.schema) (t₀ : Moment) (cells : Option γ → Hold)
    (hs₁ : (lockUsers table tenants uses).Reachable flow
      ((lockUsers table tenants uses).initial m₀ t₀ cells) s₁)
    {r : ι} {stimulus : Stimulus} (hact : s₁.act? (.turn r stimulus) = some s₂) {gaveBack : Bool}
    (hend : (s₂.phase r).bind (uses r).gaveBack? = some gaveBack)
    (hs : (lockUsers table tenants uses).Reachable flow s₂ s) :
    Final tenants uses r gaveBack s₁ s₂ s := by
  have hinitial : Steady flow ((lockUsers table tenants uses).initial m₀ t₀ cells) :=
    ⟨(drafting table tenants uses).coherent_initial flow hkeyed t₀ cells, nofun⟩
  have hsteady := hinitial.run hs₁
  have hsteady₂ := hsteady.step (.act hact)
  obtain ⟨p, q, hp, hq, rfl⟩ := Crew.State.turn_inv hact
  rw [Crew.State.after_phase_self, Option.bind_some] at hend
  have hfree := hsteady.free_of_gaveBack hp hq hend
  obtain ⟨puts, hsince⟩ := Since.run hsteady₂ hfree hs
  refine ⟨?_, puts, hsince.writers, hsince.takenFirst, fun i p stimulus hmakes hp hturn hext => ?_⟩
  · obtain ⟨-, hfound⟩ := LockUse.gaveBack_turn (hsteady.owned r p hp) hq hend
    obtain ⟨x, hx, hput, hread⟩ := hfound.exchange
    refine ⟨x, ?_, hput, hread⟩
    change s₁.note r q.exchange = _
    rw [hx, Crew.State.note]
  · obtain ⟨s', hs'⟩ := Option.isSome_iff_exists.mp hturn
    obtain ⟨p', q', hp', hq', rfl⟩ := Crew.State.turn_inv hs'
    cases hp.symm.trans hp'
    exact hsince.taken (hsteady₂.run hs) hmakes hp hq' hext

/-- One holder takes the lock, keeps it in the background and takes it again. An operator removes
the lock, and two extensions are made by hand. -/
def removedUses : Fin 6 → LockUse Unit
  | 0 => .through () .acquire
  | 1 => .through () .refresh
  | 2 => .direct {} (.extend ⟨"migrations", .held, "first", ⟨100, 0⟩⟩)
  | 3 => .direct {} (.giveBack "migrations" "first")
  | 4 => .through () .acquire
  | 5 => .direct {} (.extend ⟨"migrations", .held, "first", ⟨200, 0⟩⟩)

def removedStart :
    (lockUsers "locks" (fun _ => ⟨"migrations", "first", {}, {}⟩) removedUses).State :=
  (lockUsers "locks" (fun _ => ⟨"migrations", "first", {}, {}⟩) removedUses).initial
    (({} : Memory).createActive "locks" Lease.schema default) (Crew.second 0) fun _ => {}

/-- The refresher and an extension have read the lease when it is removed. -/
def removalScript : Crew.Script (Fin 6) :=
  [(Crew.second 0, .start 0), (Crew.second 0, .turn 0 .reply), (Crew.second 0, .turn 0 .reply),
    (Crew.second 0, .start 1), (Crew.second 50, .turn 1 .wake), (Crew.second 50, .turn 1 .reply),
    (Crew.second 50, .start 2), (Crew.second 50, .turn 2 .reply), (Crew.second 51, .start 3),
    (Crew.second 51, .turn 3 .reply)]

/-- Both come too late with their puts, and one of them reads again. Only when the lock has been
taken anew can the lease be extended. -/
def aftermathScript : Crew.Script (Fin 6) :=
  [(Crew.second 51, .turn 1 .reply), (Crew.second 51, .turn 2 .reply),
    (Crew.second 52, .turn 2 .wake), (Crew.second 52, .turn 2 .reply), (Crew.second 53, .start 4),
    (Crew.second 53, .turn 4 .reply), (Crew.second 53, .turn 4 .reply), (Crew.second 54, .start 5),
    (Crew.second 54, .turn 5 .reply), (Crew.second 54, .turn 5 .reply)]

theorem removal_final_of_operator :
    ∃ s₁ s₂ s, removedStart.play? (fun _ _ => True) removalScript = some s₁ ∧
      s₁.act? (.turn 3 .reply) = some s₂ ∧
      s₂.play? (fun _ _ => True) aftermathScript = some s ∧
      Final (fun _ => ⟨"migrations", "first", {}, {}⟩) removedUses 3 true s₁ s₂ s ∧
      Crew.writers s.log = [0, 3, 4, 5] := by
  have hrun : ((removedStart.play? (fun _ _ => True) removalScript).bind fun s₁ =>
      (s₁.act? (.turn 3 .reply)).bind fun s₂ =>
        (s₂.play? (fun _ _ => True) aftermathScript).map fun s =>
          ((s₂.phase 3).bind (removedUses 3).gaveBack?, Crew.writers s.log)) =
      some (some true, [0, 3, 4, 5]) := by decide +kernel
  obtain ⟨s₁, hs₁, hrun⟩ := Option.bind_eq_some_iff.mp hrun
  obtain ⟨s₂, hact, hrun⟩ := Option.bind_eq_some_iff.mp hrun
  obtain ⟨s, hs, hseen⟩ := Option.map_eq_some_iff.mp hrun
  have hend : (s₂.phase 3).bind (removedUses 3).gaveBack? = some true := congrArg (·.1) hseen
  have hfinal := removal_final (by rintro t ⟨⟩; rfl) (Crew.second 0) (fun _ => {})
    (Crew.State.reachable_of_play hs₁) hact hend (Crew.State.reachable_of_play hs)
  exact ⟨s₁, s₂, s, hs₁, hact, hs, hfinal, congrArg (·.2) hseen⟩

end Revival

end MigrationLedger
