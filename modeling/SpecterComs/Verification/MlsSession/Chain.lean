import SpecterComs.Verification.MlsSession.Calls
import SpecterComs.Verification.MlsSession.OneGroup

/-! # No update of the device state is lost

Each function of the session moves the core as one of the lock's moves does, so the
invariant of the core holds after every input, in whatever order inputs come.
-/

namespace SpecterComs.MlsSession

variable {State : Type} {C : Crypto State} {tauri : Bool} {s t : Session C} {h : Holder State}

namespace Session

/-- What touches neither the core nor the holder keeps the invariant. -/
theorem Inv.frame (hs : s.Inv) (hcore : t.core = s.core) (hholder : t.holder = s.holder) :
    t.Inv := by
  constructor
  · rw [hcore, hholder]
    exact hs.lock
  · rw [hcore, hholder]
    exact hs.holding

/-- So does what leaves the whole shell. -/
theorem Inv.of_shell (hs : s.Inv) (hshell : t.shell = s.shell) : t.Inv :=
  hs.frame (congrArg Shell.core hshell) (congrArg Shell.holder hshell)

theorem inv_start (deviceIds : Option UserId → Option DeviceId) : (start C deviceIds).Inv where
  lock :=
    { chained := rfl
      sound w hw := by cases hw
      gens j init hj := by cases hj
      queue_gens q hq := by cases hq
      owned j init hj := by cases hj
      empty j init hj := by cases hj
      queued q hq := by cases hq
      distinct := .nil }
  holding h hh := by cases hh

/-! ## Resets and the writer -/

theorem Inv.resetForUser (hs : s.Inv) (user : Option UserId) : (s.resetForUser user).Inv where
  lock := hs.lock.reset
  holding h hh := (hs.holding h hh).reset

theorem Inv.saveRejected (hs : s.Inv) (message : String) : (s.saveRejected message).Inv := by
  simp only [Session.saveRejected]
  split_ifs
  · exact Inv.frame (Inv.resetForUser (Inv.frame hs rfl rfl) none) rfl rfl
  · exact hs.frame rfl rfl

theorem Inv.saveReturned (hs : s.Inv) {k : ℕ} {result : Except String Unit}
    (hstep : s.saveReturned k result = some t) : t.Inv := by
  unfold Session.saveReturned at hstep
  split at hstep
  · cases hstep
  · next save _ =>
      have hrest : ({ s with inFlight := s.inFlight.eraseIdx k } : Session C).Inv :=
        hs.frame rfl rfl
      cases result with
      | ok _ =>
          cases hstep
          exact hrest.of_shell saveAccepted_shell
      | error message =>
          cases hstep
          exact hrest.saveRejected message

/-! ## The work that runs -/

variable {i : ℕ} {result : Except Error LockResult}

@[simp] theorem deliver_call_shell : (s.deliver (.call i) result).shell = s.shell := by
  simp only [deliver]
  split
  · rfl
  · next hcall =>
      split
      · exact setCall_shell hcall rfl
      · rfl

theorem deliver_call_core : (s.deliver (.call i) result).core = s.core :=
  congrArg Shell.core deliver_call_shell

theorem deliver_call_holder : (s.deliver (.call i) result).holder = s.holder :=
  congrArg Shell.holder deliver_call_shell

variable {user : Option UserId}

/-- A new identity's lock work settles. -/
theorem inv_deliver_init {gen : ℕ} {credential : Label} (hlock : Lock s.core (some i))
    (hholder : s.holder = none) (hinit : s.inits[i]? = some ⟨user, gen, .locking credential⟩) :
    (s.deliver (.init i) result).Inv := by
  simp only [deliver, hinit]
  cases result with
  | ok r =>
      constructor
      · have hsettled := hlock.settled .done hinit trivial fun h => h.elim
        rw [show (s.identityStored i credential (.ok r)).holder = none from hholder]
        exact hsettled
      · intro h hh
        exact absurd (hholder.symm.trans hh) (by simp)
  | error e =>
      constructor
      · have hsettled := hlock.dropped.settled (.failing e) hinit trivial
          fun _ => rfl
        rw [show (s.identityStored i credential (.error e)).holder = none from hholder]
        exact hsettled
      · intro h hh
        exact absurd (hholder.symm.trans hh) (by simp)

theorem inv_release (hlock : Lock s.core h.caller.init?)
    (hinits : ∀ j, h.caller = .init j →
      ∃ user credential, s.core.inits[j]? = some ⟨user, h.gen, .locking credential⟩)
    (result : Except Error LockResult) : (s.release h result).Inv := by
  have hfree : ∀ t : Session C, t.core = s.core → t.holder = none →
      (t.deliver h.caller result).Inv := by
    intro t hcore hholder
    cases hcaller : h.caller with
    | call i =>
        constructor
        · rw [deliver_call_core, deliver_call_holder, hcore, hholder]
          rwa [hcaller] at hlock
        · intro h' hh'
          rw [deliver_call_holder, hholder] at hh'
          cases hh'
    | init i =>
        obtain ⟨user, credential, hinit⟩ := hinits i hcaller
        rw [hcaller] at hlock
        have hinit' : t.inits[i]? = some ⟨user, h.gen, .locking credential⟩ := by
          rw [← hinit, ← hcore]
          rfl
        refine inv_deliver_init ?_ hholder hinit'
        rw [hcore]
        exact hlock
  exact hfree _ rfl rfl

theorem inv_awaitDurable (hlock : Lock s.core h.caller.init?) (hh : Holding s.core h)
    (version : ℕ) : (s.awaitDurable tauri h version).Inv := by
  have hcore : (s.awaitDurable tauri h version).core = s.core :=
    congrArg Shell.core waitDurable_shell
  constructor
  · rw [hcore]
    exact hlock
  · intro h' hh'
    obtain rfl := Option.some.inj hh'
    rw [hcore]
    exact ⟨hh.gen, hh.le, hh.init, hh.call, hh.reads, hh.computed⟩

variable {state : State}

theorem commitState_spec (hcommit : s.commitState tauri h state = some t) :
    s.lockHolderGen = s.sessionGen ∧ t.holder = s.holder ∧
      t.core = s.core.assign (.committed (s.userOf h.caller) h.base) (some ⟨s.nextRef, state⟩) := by
  simp only [commitState] at hcommit
  split_ifs at hcommit with hgen
  cases hcommit
  exact ⟨not_not.mp hgen, congrArg Shell.holder schedulePersist_shell,
    congrArg Shell.core schedulePersist_shell⟩

/-- The committing work is not the reader any more. -/
theorem Holding.committed {c : Core C} (hh : Holding c h) {origin : Origin State}
    {new : Option (Cell State)} {result : LockResult} {committed : Committed State} :
    Holding (c.assign origin new)
      { h with rest := .ret (.returned result), committed := some committed } where
  gen := hh.gen
  le := hh.le
  init := hh.init
  call := hh.call
  reads hnone := by cases hnone
  computed := fun t ht => by cases ht

theorem inv_commitDurable (hlock : Lock s.core h.caller.init?) (hh : Holding s.core h)
    (result : LockResult) (hcommitted : h.committed = none)
    (hcomputed : ∀ b, h.base = some b → C.Computes b.state state) :
    (s.commitDurable tauri h state result).Inv := by
  unfold commitDurable
  cases hcommit : s.commitState tauri h state with
  | none => exact inv_release hlock hh.init _
  | some t =>
      obtain ⟨hgen, -, hcore⟩ := commitState_spec hcommit
      refine inv_awaitDurable ?_ ?_ _
      · rw [hcore]
        exact hlock.commit hh _ hcommitted hgen hcomputed
      · rw [hcore]
        exact Holding.committed hh

theorem inv_finish (hlock : Lock s.core h.caller.init?) (hh : Holding s.core h)
    {f : Finish State} (hrest : h.rest = .ret f) : (s.finish tauri h f).Inv := by
  have hcomputed := hh.computed
  rw [hrest, Async.returns_ret] at hcomputed
  cases f with
  | returned result => exact inv_release hlock hh.init (.ok result)
  | thrown error => exact inv_release hlock hh.init (.error error)
  | commitState state result =>
      obtain ⟨hcommitted, hbase⟩ := hcomputed state rfl
      simp only [finish]
      cases hcommit : s.commitState tauri h state with
      | none => exact inv_release hlock hh.init _
      | some t =>
          obtain ⟨hgen, -, hcore⟩ := commitState_spec hcommit
          refine inv_release ?_ ?_ _
          · rw [hcore]
            exact hlock.commit hh _ hcommitted hgen hbase
          · rw [hcore]
            exact hh.init
  | commitDurable state result =>
      obtain ⟨hcommitted, hbase⟩ := hcomputed state rfl
      exact inv_commitDurable hlock hh result hcommitted hbase
  | merge state result =>
      obtain ⟨hcommitted, hbase⟩ := hcomputed state rfl
      simp only [finish]
      split_ifs
      · exact inv_commitDurable hlock hh result hcommitted hbase
      · exact inv_release hlock hh.init _

theorem inv_proceed (hlock : Lock s.core h.caller.init?) (hh : Holding s.core h) :
    (s.proceed tauri h).Inv := by
  have hstay : ∀ t : Session C, t.core = s.core → t.holder = some h → t.Inv := by
    intro t hcore hholder
    constructor
    · rw [hcore, hholder]
      exact hlock
    · intro h' hh'
      obtain rfl := Option.some.inj (hholder.symm.trans hh')
      rw [hcore]
      exact hh
  unfold proceed
  split
  · next f hrest => exact inv_finish hlock hh hrest
  · exact hstay _ rfl rfl
  · exact hstay _ rfl rfl

/-! ## The lock work's steps -/

/-- Work whose turn it is starts on the cache as it is then. -/
theorem inv_startJob {seed : Seed} {job : Job C} (hlock : Lock s.core job.init?)
    (hholder : s.holder = none) (hgen : s.lockHolderGen = s.sessionGen)
    (hqueued : ∀ j, job.init? = some j →
      s.deviceStateCache = none ∧
        ∃ user credential, s.inits[j]? = some ⟨user, s.sessionGen, .locking credential⟩) :
    (s.startJob tauri seed job).Inv := by
  cases job with
  | newIdentity i deviceState =>
      obtain ⟨hcache, hinit⟩ := hqueued i rfl
      unfold startJob
      refine inv_proceed ?_ ?_
      · exact hlock
      · refine ⟨hgen, Nat.le_refl _, ?_, ?_, ?_, ?_⟩
        · intro j hj
          cases hj
          exact hinit
        · intro j hj
          cases hj
        · intro _ _
          exact hcache.symm
        · simp [Finish.state?]
  | call i work =>
      simp only [startJob]
      split
      · constructor
        · rw [deliver_call_core, deliver_call_holder, hholder]
          exact hlock
        · intro h hh
          rw [deliver_call_holder, hholder] at hh
          cases hh
      · next cell hcache =>
          have hholding : ∀ (sub : Option (Submission State)) (rest : Section State),
              rest.Returns (Finish.Sound C cell.state) →
                Holding s.core ⟨.call i, s.sessionGen, some cell, s.stateVersion, sub, rest, none,
                  none⟩ := by
            intro sub rest hrest
            refine ⟨hgen, Nat.le_refl _, ?_, ?_, ?_, ?_⟩
            · intro j hj
              cases hj
            · intro j hj
              rfl
            · intro _ _
              exact hcache.symm
            · refine hrest.weaken fun _ _ f hf t ht => ⟨rfl, ?_⟩
              intro b hb
              cases hb
              exact hf.computed t ht
          have hsound := work.sound seed ⟨cell.state, s.ownCredential⟩
          split
          · next f hstart =>
              rw [hstart] at hsound
              exact inv_proceed hlock (hholding none _ (Async.returns_ret.mpr hsound))
          · next sub rest hstart =>
              rw [hstart] at hsound
              obtain ⟨hcomputed, codec, rfl⟩ := hsound
              refine inv_awaitDurable ?_ ?_ _
              · exact hlock
              · exact hholding _ _ (submitPlan_sound hcomputed)

theorem Inv.refuses (hs : s.Inv) {next : Queued C} {queue : List (Queued C)}
    (hholder : s.holder = none) (hqueue : s.queue = next :: queue) :
    (({ s with queue } : Session C).deliver next.job.caller (.error accountSwitched)).Inv := by
  have hlock := hs.lock
  rw [hholder] at hlock
  have hnext := hlock.dequeue hqueue
  have hmem : next ∈ s.core.queue := by
    change next ∈ s.queue
    rw [hqueue]
    exact List.mem_cons_self
  cases hjob : next.job with
  | call i work =>
      rw [hjob] at hnext
      refine Inv.frame (s := { s with queue }) ⟨?_, ?_⟩ deliver_call_core deliver_call_holder
      · change Lock _ (busyOf s.holder)
        rw [hholder]
        exact hnext
      · intro h hh
        exact absurd (hholder.symm.trans hh) (by simp)
  | newIdentity i deviceState =>
      rw [hjob] at hnext
      obtain ⟨-, user, credential, hinit⟩ := hlock.queued next hmem i (by rw [hjob]; rfl)
      exact inv_deliver_init (s := { s with queue }) hnext hholder hinit

theorem Inv.starts (hs : s.Inv) {seed : Seed} {next : Queued C} {queue : List (Queued C)}
    (hholder : s.holder = none) (hqueue : s.queue = next :: queue)
    (hgen : next.gen = s.sessionGen) :
    (({ s with queue, lockHolderGen := next.gen } : Session C).startJob tauri seed next.job).Inv := by
  have hlock := hs.lock
  rw [hholder] at hlock
  have hnext := hlock.dequeue hqueue
  have hmem : next ∈ s.core.queue := by
    change next ∈ s.queue
    rw [hqueue]
    exact List.mem_cons_self
  refine inv_startJob (s := { s with queue, lockHolderGen := next.gen }) ?_ hholder hgen ?_
  · exact ⟨hnext.chained, hnext.sound, hnext.gens, hnext.queue_gens, hnext.owned, hnext.empty,
      hnext.queued, hnext.distinct⟩
  · intro j hj
    obtain ⟨-, user, credential, hinit⟩ := hlock.queued next hmem j hj
    refine ⟨hlock.empty j _ hinit hgen trivial (by simp [busyOf]), user, credential, ?_⟩
    rw [← hgen]
    exact hinit

/-- The work goes on from where it stands. -/
theorem Inv.goesOn (hs : s.Inv) (hholder : s.holder = some h) {rest : Section State}
    {ticket : Option ℕ} (hrest : ∀ P, h.rest.Returns P → rest.Returns P) :
    (s.proceed tauri { h with rest := rest, ticket := ticket }).Inv := by
  have hlock := hs.lock
  rw [hholder] at hlock
  have hh := hs.holding h hholder
  refine inv_proceed ?_ ?_
  · exact hlock
  · exact ⟨hh.gen, hh.le, hh.init, hh.call, hh.reads, hrest _ hh.computed⟩

theorem Inv.throws (hs : s.Inv) (hholder : s.holder = some h) (error : Error) :
    (s.release h (.error error)).Inv := by
  have hlock := hs.lock
  rw [hholder] at hlock
  exact inv_release hlock (hs.holding h hholder).init _

/-! ## Identity -/

theorem Inv.ensureIdentity (hs : s.Inv) (user : Option UserId) :
    (s.ensureIdentity user).1.Inv := by
  have hbound : (if s.switches user then s.resetForUser user else s).Inv := by
    split_ifs
    · exact hs.resetForUser user
    · exact hs
  simp only [Session.ensureIdentity]
  revert hbound
  generalize (if s.switches user then s.resetForUser user else s) = s'
  intro hbound
  split
  · exact hbound
  · exact hbound
  · next hcache hpromise =>
      exact ⟨hbound.lock.begin user hcache hpromise,
        fun h hh => (hbound.holding h hh).begin _ _⟩

/-- An initialization outside the lock is not the one that holds it. -/
theorem Inv.busy_ne (hs : s.Inv) (hi : s.core.Before i) : busyOf s.holder ≠ some i := by
  intro hbusy
  cases hholder : s.holder with
  | none => simp [hholder, busyOf] at hbusy
  | some h =>
      cases hcaller : h.caller with
      | call j => simp [hholder, busyOf, hcaller, Caller.init?] at hbusy
      | init j =>
          obtain rfl : j = i := by simpa [hholder, busyOf, hcaller, Caller.init?] using hbusy
          exact (hs.holding h hholder).not_before hi hcaller

theorem Inv.setPhase (hs : s.Inv) {phase : InitPhase State} (hi : s.core.Before i) :
    (s.setPhase i phase).Inv where
  lock := hs.lock.setPhase hi
  holding h hh := (hs.holding h hh).setPhase hi

variable {init : Init State}

theorem Inv.adopt (hs : s.Inv) (hinit : s.inits[i]? = some init) (hgen : init.gen = s.sessionGen)
    (hi : s.core.Before i) : (s.adopt i user state).Inv := by
  unfold Session.adopt
  split
  · exact hs.setPhase hi
  · split_ifs
    · exact hs.setPhase hi
    · constructor
      · exact hs.lock.loaded hinit hgen hi (hs.busy_ne hi)
      · intro h hh
        have hlock := hs.lock
        rw [show s.holder = some h from hh] at hlock
        exact Holding.loaded hlock (hs.holding h hh) hinit hgen hi

theorem Inv.initializes (hs : s.Inv) (hinit : s.inits[i]? = some init) (hi : s.core.Before i)
    (h : Initializes s i init t) : t.Inv := by
  cases h with
  | fails error => exact hs.setPhase hi
  | adopts state hgen => exact hs.adopt hinit hgen hi
  | registers deviceIds attempt uuid seed => exact Inv.frame (hs.setPhase hi) rfl rfl
  | locks hphase hgen =>
      constructor
      · exact hs.lock.enqueueIdentity hinit hgen hi (hs.busy_ne hi)
      · intro h hh
        exact ((hs.holding h hh).setPhase hi).of_eq rfl rfl rfl rfl
  | forgotten error hgen =>
      constructor
      · exact hs.lock.caught hinit hgen hi
      · intro h hh
        exact ((hs.holding h hh).setPhase hi).of_eq rfl rfl rfl rfl
  | rejected error => exact hs.setPhase hi

/-! ## Calls -/

theorem Inv.prepared (hs : s.Inv) (h : Prepared s user t) : t.Inv := by
  cases h with
  | same => exact hs
  | identity => exact hs.ensureIdentity user
  | books books => exact hs.frame rfl rfl
  | heal groupId => exact hs.of_shell scheduleHeal_shell
  | failure groupId => exact hs.of_shell noteCurrentEpochFailure_shell

/-! ## Runs -/

theorem Inv.step (hs : s.Inv) {codec : Codec} {input : Input State}
    (hstep : s.step codec tauri input = some t) : t.Inv := by
  cases step_cases hstep with
  | called user routes function => exact hs.frame rfl rfl
  | noted books => exact hs.frame rfl rfl
  | reset user => exact hs.resetForUser user
  | goesOn hcall hrest hu huser hgoes hanswer => exact (hs.prepared hu).frame rfl rfl
  | waits hcall hu huser hrest => exact (hs.prepared hu).frame rfl rfl
  | @locks i call work k hcall hrest =>
      exact ⟨hs.lock.enqueueCall i work, fun h hh => (hs.holding h hh).of_eq rfl rfl rfl rfl⟩
  | lapses healTimers => exact hs.frame rfl rfl
  | heals healTimers htimer => exact hs.frame rfl rfl
  | refuses hholder hqueue => exact hs.refuses hholder hqueue
  | starts hholder hqueue hgen => exact hs.starts hholder hqueue hgen
  | resumes hholder hok => exact hs.goesOn hholder fun _ hrest => hrest
  | throws hholder herror => exact hs.throws hholder _
  | answered hholder hticket hrest => exact hs.goesOn hholder fun _ h => h.answer hrest _
  | slept hholder hticket hrest => exact hs.goesOn hholder fun _ h => h.answer hrest _
  | loads hinit hi h => exact hs.initializes hinit hi h
  | registers hinit hi h => exact hs.initializes hinit hi h
  | catches hinit hi h => exact hs.initializes hinit hi h
  | saves h => exact hs.saveReturned h
  | ticks => exact hs.frame rfl rfl

end Session

theorem run_inv {codec : Codec} {deviceIds : Option UserId → Option DeviceId}
    {inputs : List (Input State)}
    (hrun : (session C codec tauri).Run (.start C deviceIds) inputs s) : s.Inv :=
  hrun.invariant (fun _ _ _ hs hstep => hs.step hstep) (Session.inv_start deviceIds)

/-- The assignments of the device state, from the first to the one that is there now. -/
structure NoLostUpdate (s : Session C) : Prop where
  /-- Each replaced the object the one before it had left. -/
  chained : Chained s.writes s.deviceStateCache
  /-- What lock work committed was computed from the very object it replaced. -/
  sound : ∀ w ∈ s.writes, w.Sound C

theorem no_lost_update {codec : Codec} {deviceIds : Option UserId → Option DeviceId}
    {inputs : List (Input State)}
    (hrun : (session C codec tauri).Run (.start C deviceIds) inputs s) : NoLostUpdate s where
  chained := (run_inv hrun).lock.chained
  sound := (run_inv hrun).lock.sound

namespace OneGroup

def routes : Routes := ⟨true, true, true, true, true, true⟩

/-- A server that has no group yet, knows one other device and accepts every commit. -/
def emptyServer : (r : ApiRequest) → r.Reply
  | .submit _ _ _ => .ok ()
  | .catchUp _ => .ok ⟨none, [], some 0, none⟩
  | .getGroupInfo _ => .ok ⟨name, false, 0, none, none⟩
  | .putGroupInfo _ _ => .ok ()
  | .getUserDeviceKeyPackages _ => .ok [("d2", "")]
  | .getChannelMlsMembers _ _ => .ok []
  | .getOrgMembers _ => .ok []
  | .getEventParticipants _ _ => .ok []
  | .getChannels _ => .ok []
  | .getOrgEvents _ => .ok []

/-- A group is created, and a message encrypted while its commit is at the server. -/
def encryptDuringCommit : List (Input OneGroup) :=
  [.call (some "u") routes (.ensureDmGroup "v" name), .advance 0, .advance 0,
    .loaded 0 (.ok (some ⟨"u:d1", none, 0⟩)) ⟨"", by decide⟩ 0, .advance 0,
    -- the catch-up and the GroupInfo of a group that does not exist
    .reply 0 emptyServer, .advance 0, .lockNext 0, .advance 0, .reply 0 emptyServer,
    .reply 0 emptyServer, .advance 0, .lockNext 7, .resume,
    -- the commit awaits its answer
    .call (some "u") routes (.encrypt name "x"), .advance 1, .advance 1,
    .holderReply emptyServer, .saveReturned 0 (.ok ()), .saveReturned 0 (.ok ()), .resume,
    .lockNext 0, .saveReturned 0 (.ok ()), .saveReturned 0 (.ok ()), .resume]

theorem no_lost_update_during_commit :
    NoLostUpdate ((after true encryptDuringCommit).get (by decide)) :=
  no_lost_update (StepSystem.exec_eq_some_iff.mp (Option.some_get _).symm)

end OneGroup

end SpecterComs.MlsSession
