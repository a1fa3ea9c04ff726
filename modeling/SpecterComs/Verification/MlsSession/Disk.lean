import SpecterComs.Verification.MlsSession.Calls

/-! # The writer and its durability promises

In the desktop app one save is in flight at a time, and a promise is kept back until a
durable save of its version has succeeded.
-/

namespace SpecterComs.MlsSession

variable {State : Type} {C : Crypto State} {s t : Session C}

/-- The writer's variables, with what is remembered of its saves. -/
structure Disk (State : Type) where
  cached : Bool
  stateVersion : ℕ
  sessionGen : ℕ
  durableVersion : ℕ
  durableWanted : ℕ
  inFlight : List (Save State)
  durableWaiters : List Waiter
  promises : ℕ → Option (Except Error Unit)
  nextTicket : ℕ
  loads : List (ℕ × ℕ)
  sent : List (Save State)
  saved : List (Save State)
  resolved : List (ℕ × ℕ)

def Session.disk (s : Session C) : Disk State where
  cached := s.deviceStateCache.isSome
  stateVersion := s.stateVersion
  sessionGen := s.sessionGen
  durableVersion := s.durableVersion
  durableWanted := s.durableWanted
  inFlight := s.inFlight
  durableWaiters := s.durableWaiters
  promises := s.promises
  nextTicket := s.nextTicket
  loads := s.loads
  sent := s.sent
  saved := s.saved
  resolved := s.resolved

/-- A durable save of this session with a state at least as new has succeeded, or the
session loaded one from disk. -/
def Disk.Holds (d : Disk State) (gen version : ℕ) : Prop :=
  (∃ save ∈ d.saved, save.durable = true ∧ save.gen = gen ∧ version ≤ save.version) ∨
    ∃ load ∈ d.loads, load.1 = gen ∧ version ≤ load.2

variable {d d' : Disk State}

theorem Disk.Holds.mono {gen version : ℕ} (h : d.Holds gen version)
    (hsaved : ∀ save ∈ d.saved, save ∈ d'.saved) (hloads : ∀ load ∈ d.loads, load ∈ d'.loads) :
    d'.Holds gen version := by
  rcases h with ⟨save, hmem, hsave⟩ | ⟨load, hmem, hload⟩
  · exact .inl ⟨save, hsaved save hmem, hsave⟩
  · exact .inr ⟨load, hloads load hmem, hload⟩

/-! ## The invariant -/

/-- What holds of the disk whether or not the writer runs. -/
structure Waiting (d : Disk State) : Prop where
  durable_le : d.durableVersion ≤ d.stateVersion
  flight : ∀ save ∈ d.inFlight, save.version ≤ d.stateVersion ∧
    (save.gen ≠ d.sessionGen → save.version ≤ d.durableVersion)
  waiters : ∀ w ∈ d.durableWaiters, d.durableVersion < w.version ∧ w.version ≤ d.durableWanted
  wanted : d.durableVersion < d.durableWanted →
    ∃ w ∈ d.durableWaiters, w.version = d.durableWanted
  cacheless : d.cached = false → d.durableWaiters = []
  tickets : ∀ w ∈ d.durableWaiters, w.ticket < d.nextTicket ∧ d.promises w.ticket = none
  fresh : ∀ ticket, d.nextTicket ≤ ticket → d.promises ticket = none
  /-- A current state that counts as durable is on disk. -/
  current : d.cached = true → d.stateVersion ≤ d.durableVersion →
    d.Holds d.sessionGen d.stateVersion
  resolved : ∀ p ∈ d.resolved, d.Holds p.1 p.2
  sent_le : ∀ save ∈ d.sent, save.version ≤ d.stateVersion
  ordered : d.sent.Pairwise fun new old => old.version ≤ new.version
  saved : (d.inFlight ++ d.saved).Sublist d.sent

/-- The disk with its writer, which runs while a save is in flight. -/
structure Stored (d : Disk State) (writerActive : Bool) : Prop where
  waiting : Waiting d
  one : d.inFlight.length ≤ 1
  active : writerActive = true ↔ d.inFlight ≠ []
  idle : writerActive = false → d.durableWaiters = []

/-- Nothing is wanted that nobody waits for. -/
theorem Waiting.wanted_le (hw : Waiting d) (hnone : d.durableWaiters = []) :
    d.durableWanted ≤ d.durableVersion := by
  by_contra hlt
  obtain ⟨w, hmem, -⟩ := hw.wanted (Nat.lt_of_not_le hlt)
  rw [hnone] at hmem
  cases hmem

theorem Waiting.no_waiters (hw : Waiting d) (hle : d.durableWanted ≤ d.durableVersion) :
    d.durableWaiters = [] := by
  rw [List.eq_nil_iff_forall_not_mem]
  intro w hmem
  have := hw.waiters w hmem
  omega

theorem stored_start (deviceIds : Option UserId → Option DeviceId) :
    Stored (Session.start C deviceIds).disk false where
  waiting :=
    { durable_le := Nat.le_refl _
      flight save h := by cases h
      waiters w h := by cases h
      wanted h := by cases h
      cacheless _ := rfl
      tickets w h := by cases h
      fresh _ _ := rfl
      current h := by cases h
      resolved p h := by cases h
      sent_le save h := by cases h
      ordered := .nil
      saved := .refl _ }
  one := by simp [Session.disk, Session.start]
  active := by simp [Session.disk, Session.start]
  idle _ := rfl

/-! ## The writer's pass -/

namespace Session

theorem stored_writerPass (hw : Waiting s.disk) (hflight : s.inFlight = [])
    (hactive : s.writerActive = true) : Stored s.writerPass.disk s.writerPass.writerActive := by
  have hstop : s.durableWaiters = [] →
      Stored ({ s with writerActive := false } : Session C).disk false := by
    intro hnone
    refine ⟨hw, ?_, ?_, fun _ => hnone⟩
    · change s.inFlight.length ≤ 1
      simp [hflight]
    · change false = true ↔ s.inFlight ≠ []
      simp [hflight]
  simp only [writerPass]
  split_ifs with hidle
  · refine hstop (hw.no_waiters ?_)
    have hboth : s.durableWanted ≤ s.durableVersion ∧ s.stateVersion ≤ s.persistedVersion := by
      simpa using hidle
    exact hboth.1
  · split
    · next hcache => exact hstop (hw.cacheless (by simp [disk, hcache]))
    · next cell hcache =>
        refine ⟨⟨hw.durable_le, ?_, hw.waiters, hw.wanted, hw.cacheless, hw.tickets, hw.fresh,
          hw.current, hw.resolved, ?_, ?_, ?_⟩, ?_, ?_, ?_⟩
        · intro save hsave
          obtain rfl : save = _ := by simpa [disk, hflight] using hsave
          exact ⟨Nat.le_refl _, fun hne => absurd rfl hne⟩
        · intro save hsave
          rcases List.mem_cons.mp hsave with rfl | hsave
          · exact Nat.le_refl _
          · exact hw.sent_le save hsave
        · exact List.pairwise_cons.mpr ⟨hw.sent_le, hw.ordered⟩
        · have hsaved := hw.saved
          simp only [disk, hflight, List.nil_append] at hsaved ⊢
          exact hsaved.cons_cons _
        · simp [disk, hflight]
        · simp [disk, hactive]
        · intro hoff
          rw [hactive] at hoff
          cases hoff

/-- The writer moves nothing but its own variables. -/
theorem writerPass_eq (s : Session C) : ∃ active inFlight sent,
    s.writerPass =
      { s with
        writerActive := active
        inFlight := inFlight
        sent := sent } := by
  simp only [writerPass]
  split_ifs
  · exact ⟨_, _, _, rfl⟩
  · split
    · exact ⟨_, _, _, rfl⟩
    · exact ⟨_, _, _, rfl⟩

theorem schedulePersist_eq (tauri : Bool) (s : Session C) : ∃ active inFlight sent,
    s.schedulePersist tauri =
      { s with
        writerActive := active
        inFlight := inFlight
        sent := sent } := by
  unfold schedulePersist
  split_ifs
  · exact ⟨s.writerActive, s.inFlight, s.sent, rfl⟩
  · obtain ⟨active, inFlight, sent, h⟩ := writerPass_eq ({ s with writerActive := true })
    exact ⟨active, inFlight, sent, h⟩

theorem stored_schedulePersist (hw : Waiting s.disk) (hone : s.inFlight.length ≤ 1)
    (hactive : s.writerActive = true ↔ s.inFlight ≠ []) :
    Stored (s.schedulePersist true).disk (s.schedulePersist true).writerActive := by
  unfold schedulePersist
  split_ifs with hrunning
  · have hrunning : s.writerActive = true := by simpa using hrunning
    exact ⟨hw, hone, hactive, fun hoff => by rw [hrunning] at hoff; cases hoff⟩
  · have hoff : s.writerActive = false := by simpa using hrunning
    have hflight : s.inFlight = [] := by
      by_contra hne
      rw [hactive.mpr hne] at hoff
      cases hoff
    exact stored_writerPass (s := { s with writerActive := true }) hw hflight rfl

/-! ## Commits and promises -/

/-- A committed state is a version ahead of the disk. -/
theorem stored_commit (hs : Stored s.disk s.writerActive) {origin : Origin State}
    {cell : Cell State} {ref : ℕ} :
    let next : Session C := { s.assign origin (some cell) with
      stateVersion := s.stateVersion + 1
      nextRef := ref }
    Stored (next.schedulePersist true).disk (next.schedulePersist true).writerActive := by
  have hw := hs.waiting
  refine stored_schedulePersist ⟨?_, ?_, hw.waiters, hw.wanted, ?_, hw.tickets, hw.fresh, ?_,
    hw.resolved, ?_, hw.ordered, hw.saved⟩ hs.one hs.active
  · exact hw.durable_le.trans (Nat.le_succ _)
  · intro save hsave
    obtain ⟨hle, hold⟩ := hw.flight save hsave
    exact ⟨hle.trans (Nat.le_succ _), hold⟩
  · intro hnone
    cases hnone
  · intro _ hle
    have := hw.durable_le
    change s.stateVersion + 1 ≤ s.durableVersion at hle
    change s.durableVersion ≤ s.stateVersion at this
    omega
  · intro save hsave
    exact (hw.sent_le save hsave).trans (Nat.le_succ _)

theorem commitState_eq {h : Holder State} {state : State}
    (hcommit : s.commitState true h state = some t) : ∃ active inFlight sent,
    t = { s.assign (.committed (s.userOf h.caller) h.base) (some ⟨s.nextRef, state⟩) with
      stateVersion := s.stateVersion + 1
      nextRef := s.nextRef + 1
      writerActive := active
      inFlight := inFlight
      sent := sent } := by
  simp only [commitState] at hcommit
  split_ifs at hcommit
  cases hcommit
  exact schedulePersist_eq true _

theorem stored_commitState (hs : Stored s.disk s.writerActive) {h : Holder State} {state : State}
    (hcommit : s.commitState true h state = some t) : Stored t.disk t.writerActive := by
  simp only [commitState] at hcommit
  split_ifs at hcommit
  cases hcommit
  exact stored_commit hs

/-- The current state's version is on disk already, or a waiter is added for it. -/
theorem stored_waitDurable (hs : Stored s.disk s.writerActive) (hcache : s.deviceStateCache.isSome)
    (hnone : s.durableWaiters = []) :
    let r := s.waitDurable true s.stateVersion
    Stored r.1.disk r.1.writerActive ∧ r.2 = s.nextTicket ∧
      (r.1.durableWaiters = [] ∧ s.disk.Holds s.sessionGen s.stateVersion ∨
        r.1.durableWaiters = [⟨s.stateVersion, s.nextTicket⟩]) := by
  have hw := hs.waiting
  simp only [waitDurable]
  split_ifs with hdurable
  · have hdurable : s.stateVersion ≤ s.durableVersion := by simpa using hdurable
    have hholds := hw.current hcache hdurable
    refine ⟨⟨⟨hw.durable_le, hw.flight, hw.waiters, hw.wanted, hw.cacheless, ?_, ?_, hw.current, ?_,
      hw.sent_le, hw.ordered, hw.saved⟩, hs.one, hs.active, hs.idle⟩, rfl, .inl ⟨hnone, hholds⟩⟩
    · intro w hmem
      rw [show s.durableWaiters = [] from hnone] at hmem
      cases hmem
    · intro ticket hle
      change s.nextTicket + 1 ≤ ticket at hle
      change Function.update s.promises s.nextTicket (some (.ok ())) ticket = none
      rw [Function.update_of_ne (by omega)]
      exact hw.fresh ticket (Nat.le_of_succ_le hle)
    · intro p hp
      rcases List.mem_cons.mp hp with rfl | hp
      · exact hholds
      · exact hw.resolved p hp
  · have hbehind : s.durableVersion < s.stateVersion := by simpa using hdurable
    have hwanted := hw.wanted_le hnone
    change s.durableWanted ≤ s.durableVersion at hwanted
    have hmax : max s.durableWanted s.stateVersion = s.stateVersion := by omega
    obtain ⟨active, inFlight, sent, heq⟩ := schedulePersist_eq true ({ s with
      nextTicket := s.nextTicket + 1
      durableWaiters := s.durableWaiters ++ [⟨s.stateVersion, s.nextTicket⟩]
      durableWanted := max s.durableWanted s.stateVersion })
    refine ⟨stored_schedulePersist ⟨hw.durable_le, hw.flight, ?_, ?_, ?_, ?_, ?_, hw.current,
      hw.resolved, hw.sent_le, hw.ordered, hw.saved⟩ hs.one hs.active, rfl, .inr ?_⟩
    · intro w hmem
      obtain rfl : w = _ := by simpa [disk, hnone] using hmem
      simp only [disk, hmax]
      exact ⟨hbehind, Nat.le_refl _⟩
    · intro _
      refine ⟨⟨s.stateVersion, s.nextTicket⟩, ?_, ?_⟩
      · simp [disk]
      · simp [disk, hmax]
    · intro hcacheless
      rw [show s.deviceStateCache.isSome = false from hcacheless] at hcache
      cases hcache
    · intro w hmem
      obtain rfl : w = _ := by simpa [disk, hnone] using hmem
      exact ⟨Nat.lt_succ_self _, hw.fresh _ (Nat.le_refl _)⟩
    · intro ticket hle
      exact hw.fresh ticket (Nat.le_of_succ_le hle)
    · rw [heq]
      simp [hnone]

/-! ## Resets and loads -/

variable {result : Except Error Unit}

theorem settle_promises (waiters : List Waiter) {ticket : ℕ}
    (h : (s.settle waiters result).promises ticket = some (.ok ())) :
    result = .ok () ∧ (∃ w ∈ waiters, w.ticket = ticket) ∨ s.promises ticket = some (.ok ()) := by
  simp only [settle] at h
  split_ifs at h with hmem
  · obtain ⟨w, hw, hticket⟩ := List.mem_map.mp hmem
    exact .inl ⟨Option.some.inj h, w, hw, hticket⟩
  · exact .inr h

/-- A promise beyond the last ticket is nobody's. -/
theorem settle_fresh (hw : Waiting s.disk) {waiters : List Waiter}
    (hsub : ∀ w ∈ waiters, w ∈ s.durableWaiters) {ticket : ℕ} (hle : s.nextTicket ≤ ticket) :
    (s.settle waiters result).promises ticket = none := by
  simp only [settle]
  rw [if_neg]
  · exact hw.fresh ticket hle
  · intro hmem
    obtain ⟨w, hin, rfl⟩ := List.mem_map.mp hmem
    have := (hw.tickets w (hsub w hin)).1
    change w.ticket < s.nextTicket at this
    omega

theorem stored_resetForUser (hs : Stored s.disk s.writerActive) (user : Option UserId) :
    Stored (s.resetForUser user).disk (s.resetForUser user).writerActive := by
  have hw := hs.waiting
  refine ⟨⟨Nat.le_refl _, ?_, ?_, ?_, fun _ => rfl, ?_, ?_, ?_, hw.resolved, hw.sent_le,
    hw.ordered, hw.saved⟩, hs.one, hs.active, fun _ => rfl⟩
  · intro save hsave
    have := (hw.flight save hsave).1
    exact ⟨this, fun _ => this⟩
  · intro w hmem
    cases hmem
  · intro hlt
    exact absurd hlt (Nat.lt_irrefl _)
  · intro w hmem
    cases hmem
  · intro ticket hle
    exact settle_fresh hw (fun _ hmem => hmem) hle
  · intro hcached
    cases hcached

/-- A state that was read from disk is there. -/
theorem stored_adopt (hs : Stored s.disk s.writerActive) (hempty : s.deviceStateCache = none)
    (i : ℕ) (user : Option UserId) (state : State) :
    Stored (s.adopt i user state).disk (s.adopt i user state).writerActive := by
  have hw := hs.waiting
  have hnone : s.durableWaiters = [] := hw.cacheless (by simp [disk, hempty])
  have hwanted := hw.wanted_le hnone
  have hdurable := hw.durable_le
  unfold adopt
  split
  · exact hs
  · split_ifs
    · exact hs
    · refine ⟨⟨Nat.le_refl _, ?_, ?_, ?_, ?_, hw.tickets, hw.fresh, ?_, ?_, ?_, hw.ordered,
        hw.saved⟩, hs.one, hs.active, hs.idle⟩
      · intro save hsave
        have := (hw.flight save hsave).1
        exact ⟨this.trans (Nat.le_succ _), fun _ => this.trans (Nat.le_succ _)⟩
      · intro w hmem
        have hmem : w ∈ s.durableWaiters := hmem
        rw [show s.durableWaiters = [] from hnone] at hmem
        cases hmem
      · intro hlt
        change s.stateVersion + 1 < s.durableWanted at hlt
        change s.durableWanted ≤ s.durableVersion at hwanted
        change s.durableVersion ≤ s.stateVersion at hdurable
        omega
      · intro hcached
        cases hcached
      · intro _ _
        exact .inr ⟨_, List.mem_cons_self, rfl, Nat.le_refl _⟩
      · intro p hp
        exact (hw.resolved p hp).mono (fun _ h => h) fun _ h => List.mem_cons_of_mem _ h
      · intro save hsave
        exact (hw.sent_le save hsave).trans (Nat.le_succ _)

end Session

end SpecterComs.MlsSession
