import MigrationLedger.Proofs.CalmUpdate
import MigrationLedger.Proofs.LeaseOverwrite

/-! A race for a lock that is free. Until the first put everybody finds the same record, which keeps
nobody away; the first put succeeds, and its lease turns away all others while it runs. -/

namespace MigrationLedger

namespace Lease

theorem keyOf_toItem {l : Lease} (h : l.key ≠ "") : schema.keyOf l.toItem = .ok l.key := by
  have hvalue : valueAt schema.partitionKey l.toItem = some (.str l.key) := valueAt_toItem l "key"
  exact KeySchema.keyOf_of_valueAt hvalue h

theorem blocks_of_running {l : Lease} {owner : String} {now : Instant} (howner : l.owner ≠ owner)
    (hstatus : l.status = .held) (hlt : now < l.expiresAt) : l.blocks owner now = true := by
  rw [blocks, isActiveAt]
  simp [howner, hstatus, hlt]

end Lease

/-- A record that keeps nobody from a lock: there is none, or it was given back or has run out. -/
def FreeAt (read : Option Item) (now : Instant) : Prop :=
  ∀ item, read = some item →
    ∃ cur, Lease.ofItem item = .ok cur ∧ (cur.status = .released ∨ cur.expiresAt ≤ now)

theorem FreeAt.later {read : Option Item} {now later : Instant} (h : FreeAt read now)
    (hle : now ≤ later) : FreeAt read later := by
  intro item hitem
  obtain ⟨cur, hcur, hfree⟩ := h item hitem
  exact ⟨cur, hcur, hfree.imp_right fun hend => le_trans hend hle⟩

namespace LockTable

variable {t : Moment}

theorem take_decide_of_free (l : LockTable) (new : Lease) {read : Option Item}
    (h : FreeAt read t.wall) :
    (l.leaseUpdate new.key (decideTake new)).decide t read = .write new.toItem () := by
  cases read with
  | none => rfl
  | some item =>
    obtain ⟨cur, hcur, hfree⟩ := h item rfl
    have hblocks : cur.blocks new.owner t.wall = false := Lease.blocks_eq_false.mpr (.inr hfree)
    simp only [leaseUpdate, hcur, decideTake, hblocks, Bool.false_eq_true, if_false]

theorem take_decide_of_blocked (l : LockTable) (new : Lease) {item : Item} {cur : Lease}
    (hcur : Lease.ofItem item = .ok cur) (h : cur.blocks new.owner t.wall = true) :
    (l.leaseUpdate new.key (decideTake new)).decide t (some item) =
      .stop (.error (.heldByOther new.key cur.owner cur.expiresAt)) := by
  simp only [leaseUpdate, hcur, decideTake, h, if_true]

end LockTable

/-- Owners of different names who each ask once for the same lock. -/
structure Race (ι : Type) where
  table : String
  key : String
  options : ι → TableOptions
  owner : ι → String
  expiry : ι → Instant
  distinct : Function.Injective owner
  valid : ∀ i, (expiry i).IsValid

abbrev racers {ι : Type} (v : Race ι) : Crew ι Unit Unit :=
  lockers v.table v.options fun i => .take ⟨v.key, .held, v.owner i, v.expiry i⟩

namespace Race

variable {ι : Type} {v : Race ι}

def lease (v : Race ι) (i : ι) : Lease := ⟨v.key, .held, v.owner i, v.expiry i⟩

def entry (v : Race ι) (read : Option Item) (i : ι) : Item :=
  Draft.written ⟨read, (v.lease i).toItem⟩

/-- Where one stands as long as nobody has written in place of `read`. -/
def Undecided (v : Race ι) (read : Option Item) (i : ι) : LockTable.Changing Unit → Prop
  | .active _ _ (.reading _) => True
  | .active _ _ (.writing _ found item _) => found = read ∧ item = (v.lease i).toItem
  | _ => False

/-- Where one stands that has lost to `w`. -/
def Trails (v : Race ι) (read : Option Item) (w i : ι) : LockTable.Changing Unit → Prop
  | .active _ _ (.reading _) | .active _ _ (.pausing _) => True
  | .active _ _ (.writing _ found item _) => found = read ∧ item = (v.lease i).toItem
  | .active _ _ (.done _) => False
  | .ended answer => answer = .error (.heldByOther v.key (v.owner w) (v.expiry w))

variable {read : Option Item} {i w : ι} {t : Moment} {m : Memory} {k : Unit}
  {p : LockTable.Changing Unit} {stimulus : Stimulus} {r : Turned Unit (LockTable.Changing Unit)}

theorem Undecided.trails (h : v.Undecided read i p) (w : ι) : v.Trails read w i p := by
  cases p with
  | ended answer => exact h.elim
  | active note limit inner =>
    cases inner with
    | reading n => trivial
    | writing n found item answer => exact h
    | pausing n => trivial
    | done answer => exact h.elim

theorem keyOf_entry (hkey : v.key ≠ "") (read : Option Item) (i : ι) :
    Lease.schema.keyOf (v.entry read i) = .ok v.key := by
  rw [entry, Draft.written, KeySchema.keyOf_withRevision Lease.partitionKey_ne]
  exact Lease.keyOf_toItem hkey

theorem ofItem_entry (v : Race ι) (read : Option Item) (i : ι) :
    Lease.ofItem (v.entry read i) = .ok (v.lease i) :=
  Lease.ofItem_toItem (v.valid i) _

theorem entry_eq {d : Option Item} {item : Item} (hread : d = read)
    (hitem : item = (v.lease i).toItem) : Draft.written ⟨d, item⟩ = v.entry read i := by
  rw [hread, hitem]
  rfl

/-- While the record is free and as everybody found it, a turn leads to a put or is one. -/
theorem undecided_turn (hkey : v.key ≠ "") (hm : m.HasTable v.table Lease.schema)
    (hread : m.item? v.table v.key = read) (hfree : FreeAt read t.wall)
    (hp : v.Undecided read i p) (hcalm : stimulus.isCalm = true)
    (h : ((racers v).operation i).machine.turn? t m k p stimulus = some r) :
    (r.memory = m ∧ v.Undecided read i r.state) ∨
      m.Puts v.table v.key (v.entry read i) r.memory ∧ r.state = .ended (.ok ()) := by
  obtain ⟨note, limit, inner, state, rfl, hturn, -, hstate⟩ := Bounded.calm_turn hm hcalm h
  cases inner with
  | reading n =>
    obtain ⟨hmem, hnext⟩ := hturn.of_reading
    have hdecide := LockTable.take_decide_of_free ⟨v.table, v.options i⟩ (v.lease i) hfree
    have hphase : state = .writing n read (v.lease i).toItem () := by
      rw [← Update.afterRead_write hdecide, ← hread]
      exact hnext
    refine .inl ⟨hmem, ?_⟩
    rw [hstate, hphase]
    exact ⟨rfl, rfl⟩
  | writing n found item answer =>
    obtain ⟨hfound, hitem⟩ := hp
    have hown : Lease.schema.keyOf (Draft.written ⟨found, item⟩) = .ok v.key := by
      rw [entry_eq hfound hitem]
      exact keyOf_entry hkey read i
    rcases hturn.of_writing hown with ⟨-, hputs, hnext⟩ | ⟨hchanged, -⟩
    · rw [entry_eq hfound hitem] at hputs
      refine .inr ⟨hputs, ?_⟩
      rw [hstate, hnext]
      rfl
    · rw [hfound, ← hread] at hchanged
      cases hchanged.symm.trans (Condition.unchanged_self _)
  | pausing n => exact hp.elim
  | done answer => exact hp.elim

/-- Once `w` has won, and while the lease of `w` runs, nobody else writes. -/
theorem trailing_turn (hkey : v.key ≠ "") (hm : m.HasTable v.table Lease.schema)
    (hstored : m.item? v.table v.key = some (v.entry read w)) (hrun : t.wall < v.expiry w)
    (hne : i ≠ w) (hp : v.Trails read w i p) (hcalm : stimulus.isCalm = true)
    (h : ((racers v).operation i).machine.turn? t m k p stimulus = some r) :
    r.memory = m ∧ v.Trails read w i r.state := by
  obtain ⟨note, limit, inner, state, rfl, hturn, -, hstate⟩ := Bounded.calm_turn hm hcalm h
  rw [hstate]
  cases inner with
  | reading n =>
    obtain ⟨hmem, hnext⟩ := hturn.of_reading
    have hothers : v.owner w ≠ v.owner i := fun heq => hne (v.distinct heq).symm
    have hblocks : (v.lease w).blocks (v.lease i).owner t.wall = true :=
      Lease.blocks_of_running hothers rfl hrun
    have hdecide := LockTable.take_decide_of_blocked ⟨v.table, v.options i⟩ (v.lease i)
      (v.ofItem_entry read w) hblocks
    have hphase : state = .done (.error (.heldByOther v.key (v.owner w) (v.expiry w))) := by
      rw [hnext]
      exact hstored ▸ Update.afterRead_stop hdecide n
    refine ⟨hmem, ?_⟩
    rw [hphase]
    rfl
  | writing n found item answer =>
    obtain ⟨hfound, hitem⟩ := hp
    have hown : Lease.schema.keyOf (Draft.written ⟨found, item⟩) = .ok v.key := by
      rw [entry_eq hfound hitem]
      exact keyOf_entry hkey read i
    rcases hturn.of_writing hown with ⟨hunchanged, -⟩ | ⟨-, hmem, hnext⟩
    · have hsame : (Condition.unchanged read).holds (some (v.entry read w)) = true := by
        rw [← hstored, ← hfound]
        exact hunchanged
      cases hsame.symm.trans (Condition.unchanged_written read (v.lease w).toItem)
    · refine ⟨hmem, ?_⟩
      rw [hnext]
      trivial
  | pausing n =>
    obtain ⟨hmem, hnext⟩ := hturn.of_pausing
    refine ⟨hmem, ?_⟩
    rw [hnext]
    trivial
  | done answer => exact hp.elim

variable {m₀ : Memory}

/-- How far the race is that has started with `m₀`. -/
inductive Course (v : Race ι) (m₀ : Memory) (s : (racers v).State) : Prop where
  | undecided (hm : s.memory = m₀)
      (hphase : ∀ i p, s.phase i = some p → v.Undecided (m₀.item? v.table v.key) i p)
  | won (w : ι) (hw : s.phase w = some (.ended (.ok ())))
      (htable : s.memory.HasTable v.table Lease.schema)
      (hputs : m₀.Puts v.table v.key (v.entry (m₀.item? v.table v.key) w) s.memory)
      (hphase : ∀ i, i ≠ w → ∀ p, s.phase i = some p →
        v.Trails (m₀.item? v.table v.key) w i p)

variable [DecidableEq ι] {s s' : (racers v).State}

theorem Course.start (h : v.Course m₀ s) {i : ι} (hp : s.phase i = none) :
    v.Course m₀ (s.settle i () (((racers v).operation i).start s.clock ()).2) := by
  cases h with
  | undecided hm hphase =>
    refine .undecided hm (Crew.State.forall_phase_settle hphase ?_ ())
    trivial
  | won w hw htable hputs hphase =>
    have hwi : w ≠ i := by
      rintro rfl
      cases hp.symm.trans hw
    refine .won w ?_ htable hputs fun j hj q hq => ?_
    · rw [Crew.State.settle_phase_of_ne s hwi]
      exact hw
    · by_cases hji : j = i
      · subst hji
        rw [Crew.State.settle_phase_self] at hq
        cases hq
        trivial
      · rw [Crew.State.settle_phase_of_ne s hji] at hq
        exact hphase j hj q hq

theorem Course.turn (h : v.Course m₀ s) (hkey : v.key ≠ "")
    (htable₀ : m₀.HasTable v.table Lease.schema)
    (hfree : FreeAt (m₀.item? v.table v.key) s.clock.wall)
    (hrun : ∀ i, s.clock.wall < v.expiry i) {i : ι} {p : LockTable.Changing Unit}
    {stimulus : Stimulus} {r : Turned Unit (LockTable.Changing Unit)} (hp : s.phase i = some p)
    (hcalm : stimulus.isCalm = true)
    (hr : ((racers v).operation i).machine.turn? s.clock s.memory (s.cellOf i) p stimulus =
      some r) :
    v.Course m₀ (s.after i r) := by
  have hself : (s.after i r).phase i = some r.state := Crew.State.after_phase_self s i r
  cases h with
  | undecided hm hphase =>
    rw [hm] at hr
    rcases undecided_turn hkey htable₀ rfl hfree (hphase i p hp) hcalm hr with
      ⟨hmem, hstate⟩ | ⟨hputs, hstate⟩
    · exact .undecided hmem (Crew.State.forall_phase_after hphase hstate)
    · have hkeeps := Machine.turn_keeps hr v.table
      refine .won i (hself.trans (congrArg some hstate)) (hkeeps.hasTable htable₀) hputs
        fun j hj q hq => ?_
      rw [Crew.State.after_phase_of_ne s hj] at hq
      exact (hphase j q hq).trails i
  | won w hw htable hputs hphase =>
    have hiw : i ≠ w := by
      rintro rfl
      cases hp.symm.trans hw
      cases stimulus <;> cases hr
    obtain ⟨hmem, hstate⟩ := trailing_turn hkey htable hputs.self (hrun w) hiw
      (hphase i hiw p hp) hcalm hr
    have hsame : (s.after i r).memory = s.memory := hmem
    refine .won w ?_ (hsame ▸ htable) (hsame ▸ hputs) fun j hj q hq => ?_
    · rw [Crew.State.after_phase_of_ne s hiw.symm]
      exact hw
    · by_cases hji : j = i
      · subst hji
        cases hself.symm.trans hq
        exact hstate
      · rw [Crew.State.after_phase_of_ne s hji] at hq
        exact hphase j hj q hq

theorem Course.run (hkey : v.key ≠ "") (htable : m₀.HasTable v.table Lease.schema) {t₀ : Moment}
    (hfree : FreeAt (m₀.item? v.table v.key) t₀.wall)
    (hs : (racers v).ReachableIf Moment.Forward (fun e => e.isCalm = true)
      ((racers v).initial m₀ t₀ fun _ => ()) s) :
    t₀.wall ≤ s.clock.wall ∧ ((∀ i, s.clock.wall < v.expiry i) → v.Course m₀ s) := by
  induction hs with
  | refl => exact ⟨le_refl _, fun _ => .undecided rfl fun i p hp => nomatch hp⟩
  | tail _ hstep ih =>
    obtain ⟨hle, ih⟩ := ih
    cases hstep with
    | @pass t ht =>
      refine ⟨le_trans hle ht, fun hrun => ?_⟩
      have hcourse := ih fun i => lt_of_le_of_lt ht (hrun i)
      cases hcourse with
      | undecided hm hphase => exact .undecided hm hphase
      | won w hw htable hputs hphase => exact .won w hw htable hputs hphase
    | @act e s' hcalm hact =>
      have hclock := Crew.State.act_clock hact
      rw [hclock]
      refine ⟨hle, fun hrun => ?_⟩
      cases e with
      | start i =>
        obtain ⟨hp, rfl⟩ := Crew.State.start_inv hact
        exact (ih hrun).start hp
      | turn i stimulus =>
        obtain ⟨p, r, hp, hr, rfl⟩ := Crew.State.turn_inv hact
        exact (ih hrun).turn hkey htable (hfree.later hle) hrun hp hcalm hr

/-- `w` has the lock, by the one write that there was, and everybody else has been told so. -/
structure WonBy (v : Race ι) (m₀ : Memory) (w : ι) (s : (racers v).State) : Prop where
  won : s.phase w = some (.ended (.ok ()))
  lost : ∀ i, i ≠ w →
    s.phase i = some (.ended (.error (.heldByOther v.key (v.owner w) (v.expiry w))))
  stored : ∃ item, s.memory.item? v.table v.key = some item ∧ Lease.ofItem item = .ok (v.lease w) ∧
    item.revision = m₀.revisionAt v.table v.key + 1 ∧ item.revision < Nat.pow 2 64

theorem free_lock_won [Nonempty ι] (hkey : v.key ≠ "")
    (htable : m₀.HasTable v.table Lease.schema) (hroom : m₀.HasRoom v.table v.key 1) (t₀ : Moment)
    (hfree : FreeAt (m₀.item? v.table v.key) t₀.wall)
    (hs : (racers v).ReachableIf Moment.Forward (fun e => e.isCalm = true)
      ((racers v).initial m₀ t₀ fun _ => ()) s)
    (hrun : ∀ i, s.clock.wall < v.expiry i)
    (hended : ∀ i, ∃ answer, s.phase i = some (.ended answer)) : ∃ w, v.WonBy m₀ w s := by
  cases (Course.run hkey htable hfree hs).2 hrun with
  | undecided hm hphase =>
    -- who has returned has written, or found the lease of one who has
    obtain ⟨i⟩ := ‹Nonempty ι›
    obtain ⟨answer, hanswer⟩ := hended i
    exact (hphase i _ hanswer).elim
  | won w hw htable hputs hphase =>
    have hrevision : Item.revision (v.entry (m₀.item? v.table v.key) w) =
        m₀.revisionAt v.table v.key + 1 := Item.revision_withRevision _ _
    refine ⟨w, hw, fun i hi => ?_, v.entry (m₀.item? v.table v.key) w, hputs.self,
      ofItem_entry v _ w, hrevision, hrevision ▸ hroom⟩
    obtain ⟨answer, hanswer⟩ := hended i
    have hlost : answer = .error (.heldByOther v.key (v.owner w) (v.expiry w)) :=
      hphase i hi _ hanswer
    rw [hanswer, hlost]

def endOf (s : (racers v).State) (i : ι) : Option (Option LeaseFault) :=
  (s.phase i).bind fun p => match p with
    | .ended (.ok ()) => some none
    | .ended (.error fault) => some (some fault)
    | _ => none

omit [DecidableEq ι] in
theorem ended_of_endOf {s : (racers v).State} {i : ι} {e : Option LeaseFault}
    (h : endOf s i = some e) : ∃ answer, s.phase i = some (.ended answer) := by
  obtain ⟨p, hp, hended⟩ := Option.bind_eq_some_iff.mp h
  match p, hended with
  | .ended answer, _ => exact ⟨answer, hp⟩

def ownerOf (second : Bool) : String := if second then "second" else "first"

theorem ownerOf_injective : Function.Injective ownerOf := by
  intro a b h
  cases a <;> cases b <;> first | rfl | exact absurd h (by decide)

def pair (key : String) : Race Bool where
  table := "locks"
  key := key
  options _ := {}
  owner := ownerOf
  expiry second := if second then ⟨70, 0⟩ else ⟨60, 0⟩
  distinct := ownerOf_injective
  valid := by decide

/-- A lease that has run out after five seconds, which was written three times. -/
def earlier : Lease := ⟨"migrations", .held, "earlier", ⟨5, 0⟩⟩

def earlierLocks : Memory :=
  ((({} : Memory).createActive "locks" Lease.schema default).perform default
    (.putItem "locks" (earlier.toItem.withRevision 3) none)).2

/-- Both find what is there before one of them writes. The first put of the other comes too late. -/
def pairScript : Crew.Script Bool :=
  [(Crew.second 10, .start false), (Crew.second 10, .start true),
    (Crew.second 11, .turn false .reply), (Crew.second 11, .turn true .reply),
    (Crew.second 12, .turn true .reply), (Crew.second 13, .turn false .reply)]

def lateScript : Crew.Script Bool :=
  [(Crew.second 14, .turn false .wake), (Crew.second 15, .turn false .reply)]

theorem free_lock_won_of_pair :
    ∃ s, ((racers (pair "migrations")).initial earlierLocks (Crew.second 10) fun _ => ()).play?
        Moment.Forward (pairScript ++ lateScript) = some s ∧
      (pair "migrations").WonBy earlierLocks true s := by
  have hrun : (((racers (pair "migrations")).initial earlierLocks (Crew.second 10)
      fun _ => ()).play? Moment.Forward (pairScript ++ lateScript)).map (fun s =>
        (s.clock, endOf s true, endOf s false)) = some (Crew.second 15, some none,
          some (some (.heldByOther "migrations" "second" ⟨70, 0⟩))) := by
    decide +kernel
  obtain ⟨s, hs, hseen⟩ := Option.map_eq_some_iff.mp hrun
  have hclock : s.clock = Crew.second 15 := congrArg (·.1) hseen
  have hsecond : endOf s true = some none := congrArg (·.2.1) hseen
  have hfirst : endOf s false = some (some (.heldByOther "migrations" "second" ⟨70, 0⟩)) :=
    congrArg (·.2.2) hseen
  have hcalm : ∀ te ∈ pairScript ++ lateScript, te.2.isCalm = true := by decide
  have hfree : FreeAt (earlierLocks.item? "locks" "migrations") (Crew.second 10).wall := by
    rintro item ⟨⟩
    exact ⟨earlier, Lease.ofItem_toItem (by decide) _, .inr (by decide)⟩
  have htable : earlierLocks.HasTable "locks" Lease.schema := ⟨_, rfl, rfl⟩
  have hroom : earlierLocks.HasRoom "locks" "migrations" 1 := by decide +kernel
  have hbefore : ∀ i, s.clock.wall < (pair "migrations").expiry i := by
    rw [hclock]
    decide
  have hended : ∀ i, ∃ answer, s.phase i = some (.ended answer) := by
    rintro (_ | _)
    · exact ended_of_endOf hfirst
    · exact ended_of_endOf hsecond
  obtain ⟨w, hwon⟩ := free_lock_won (by decide) htable hroom (Crew.second 10) hfree
    (Crew.State.reachableIf_of_play hcalm hs) hbefore hended
  cases w with
  | true => exact ⟨s, hs, hwon⟩
  | false =>
    rw [endOf, hwon.won] at hfirst
    cases hfirst

/-- Nothing can be stored under an empty name, so nobody gets such a lock. -/
theorem unnamed_lock_not_won :
    ∃ m₀ s, m₀.HasTable "locks" Lease.schema ∧ FreeAt (m₀.item? "locks" "") (Crew.second 10).wall ∧
      (racers (pair "")).ReachableIf Moment.Forward (fun e => e.isCalm = true)
        ((racers (pair "")).initial m₀ (Crew.second 10) fun _ => ()) s ∧
      (∀ i, s.clock.wall < (pair "").expiry i) ∧
      (∀ i, ∃ answer, s.phase i = some (.ended answer)) ∧ ¬∃ w, (pair "").WonBy m₀ w s := by
  let fault : LeaseFault := .ledger (.invalidEntry "item is missing partition key 'key'")
  have hrun : (((racers (pair "")).initial earlierLocks (Crew.second 10) fun _ => ()).play?
      Moment.Forward pairScript).map (fun s => (s.clock, endOf s true, endOf s false)) =
        some (Crew.second 13, some (some fault), some (some fault)) := by
    decide +kernel
  obtain ⟨s, hs, hseen⟩ := Option.map_eq_some_iff.mp hrun
  have hclock : s.clock = Crew.second 13 := congrArg (·.1) hseen
  have hends : ∀ i, endOf s i = some (some fault) := by
    rintro (_ | _)
    · exact congrArg (·.2.2) hseen
    · exact congrArg (·.2.1) hseen
  have hcalm : ∀ te ∈ pairScript, te.2.isCalm = true := by decide
  refine ⟨earlierLocks, s, ⟨_, rfl, rfl⟩, by rintro item ⟨⟩,
    Crew.State.reachableIf_of_play hcalm hs, ?_, fun i => ended_of_endOf (hends i), ?_⟩
  · rw [hclock]
    decide
  · rintro ⟨w, hwon⟩
    have hend := hends w
    rw [endOf, hwon.won] at hend
    cases hend

end Race

end MigrationLedger
