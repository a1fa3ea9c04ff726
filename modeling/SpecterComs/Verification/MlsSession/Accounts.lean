import SpecterComs.Verification.MlsSession.Chain

/-! # Work stays with the account it was started for

A session belongs to the account it is bound to: the state it loads or creates carries
that account's credential, and no later call of the module changes it. Work runs on the
right account's state as long as it is queued while its own account is bound.
-/

namespace SpecterComs.MlsSession

variable {State : Type} {C : Crypto State} {tauri : Bool} {s t : Session C} {h : Holder State}

/-! ## Owners -/

/-- The credential of a state is its user's. -/
def Owner (C : Crypto State) (t : State) (user : UserId) : Prop :=
  ∃ label, C.deviceCredential t = .ok label ∧ userIdOfLabel label = user

/-- A device state keeps the credential it was generated with. -/
structure Credentials (C : Crypto State) : Prop where
  generated : ∀ seed label, C.deviceCredential (C.generateIdentity seed label).1 = .ok label
  kept : ∀ s t, C.Call s t → C.deviceCredential t = C.deviceCredential s

variable {user : UserId}

theorem Owner.computes (hC : Credentials C) {x y : State} (hx : Owner C x user)
    (hxy : C.Computes x y) : Owner C y user := by
  induction hxy with
  | refl => exact hx
  | tail _ hcall ih =>
      obtain ⟨label, hlabel, huser⟩ := ih
      exact ⟨label, (hC.kept _ _ hcall).trans hlabel, huser⟩

/-! ## The invariant -/

/-- The user the caller's work is done for. -/
def Shell.userOf (sh : Shell C) : Caller → Option UserId
  | .call i => (sh.users[i]?).join
  | .init i => (sh.core.inits[i]?).bind Init.user

theorem Session.userOf_eq (caller : Caller) : s.userOf caller = s.shell.userOf caller := by
  cases caller with
  | call i =>
      change (s.calls[i]?).bind Call.user = ((s.calls.map Call.user)[i]?).join
      rw [List.getElem?_map]
      cases s.calls[i]? with
      | none => rfl
      | some call => rfl
  | init i => rfl

/-- Everything the session keeps is its bound user's. -/
structure Accounts (sh : Shell C) : Prop where
  cache : ∀ cell, sh.core.deviceStateCache = some cell →
    ∃ user, sh.boundUserId = some user ∧ Owner C cell.state user
  promise : sh.core.identityPromise.isSome → sh.boundUserId.isSome
  inits : ∀ (j : ℕ) init, sh.core.inits[j]? = some init →
    ∃ user, init.user = some user ∧
      (init.gen = sh.core.sessionGen → sh.boundUserId = some user) ∧
      ∀ attempt deviceState credential,
        init.phase = .registering attempt deviceState credential → Owner C deviceState user
  users : ∀ user ∈ sh.users, user.isSome
  queuedCall : ∀ q ∈ sh.core.queue, ∀ i work, q.job = .call i work →
    q.gen = sh.core.sessionGen →
      ∃ user, sh.boundUserId = some user ∧ sh.userOf (.call i) = some user
  queuedIdentity : ∀ q ∈ sh.core.queue, ∀ i deviceState, q.job = .newIdentity i deviceState →
    ∃ user, sh.userOf (.init i) = some user ∧ Owner C deviceState user
  started : ∀ e ∈ sh.started, ∃ user, e.user = some user ∧ Owner C e.cell.state user
  writes : ∀ w ∈ sh.core.writes, ∀ user base cell, w.origin = .committed user base →
    w.new = some cell → ∃ u, user = some u ∧ Owner C cell.state u

/-- Lock work of the current session commits only its own user's states. -/
def Mine (sh : Shell C) (h : Holder State) : Prop :=
  h.gen = sh.core.sessionGen →
    ∃ user, sh.boundUserId = some user ∧ sh.userOf h.caller = some user ∧
      h.rest.Returns fun f => ∀ t ∈ f.state?, Owner C t user

structure Session.Accounted (s : Session C) : Prop where
  accounts : Accounts s.shell
  mine : ∀ h, s.holder = some h → Mine s.shell h

/-! ## Moves of the shell -/

variable {sh : Shell C}

/-- A new session owns nothing yet. -/
theorem Accounts.reset {busy : Option ℕ} (ha : Accounts sh) (hl : Lock sh.core busy)
    (user : Option UserId) : Accounts { sh with core := sh.core.reset, boundUserId := user } where
  cache _ hcell := by cases hcell
  promise hsome := by cases hsome
  inits j init hj := by
    obtain ⟨u, huser, -, hstates⟩ := ha.inits j init hj
    refine ⟨u, huser, fun hgen => ?_, hstates⟩
    have := hl.gens j init hj
    have : init.gen = sh.core.sessionGen + 1 := hgen
    omega
  users := ha.users
  queuedCall q hq i work hjob hgen := by
    have := hl.queue_gens q hq
    have : q.gen = sh.core.sessionGen + 1 := hgen
    omega
  queuedIdentity := ha.queuedIdentity
  started := ha.started
  writes w hw := by
    rcases List.mem_cons.mp hw with rfl | hw
    · intro _ _ _ horigin
      cases horigin
    · exact ha.writes w hw

theorem Mine.reset (sh : Shell C) (hh : Holding sh.core h) (user : Option UserId) :
    Mine { sh with core := sh.core.reset, boundUserId := user } h := by
  intro hgen
  have := hh.le
  have : h.gen = sh.core.sessionGen + 1 := hgen
  omega

variable {i : ℕ} {phase : InitPhase State}

/-- Phases do not change whose an initialization is. -/
theorem Shell.userOf_setPhase (caller : Caller) :
    ({ sh with core := sh.core.setPhase i phase } : Shell C).userOf caller =
      sh.userOf caller := by
  cases caller with
  | call j => rfl
  | init j =>
      change ((sh.core.setPhase i phase).inits[j]?).bind Init.user = _
      rw [Core.setPhase_inits]
      change _ = (sh.core.inits[j]?).bind Init.user
      cases sh.core.inits[j]? with
      | none => rfl
      | some init =>
          by_cases hij : i = j
          · simp [hij]
          · simp [hij]

theorem Accounts.setPhase (ha : Accounts sh) (i : ℕ) (phase : InitPhase State)
    (hphase : ∀ init, sh.core.inits[i]? = some init → ∀ attempt deviceState credential,
      phase = .registering attempt deviceState credential →
        ∀ user, init.user = some user → Owner C deviceState user) :
    Accounts { sh with core := sh.core.setPhase i phase } where
  cache := ha.cache
  promise := ha.promise
  inits j init hj := by
    obtain ⟨old, hold, hgen, huser, hcase⟩ := Core.setPhase_cases hj
    obtain ⟨u, hu, hbound, hstates⟩ := ha.inits j old hold
    refine ⟨u, huser.trans hu, fun h => hbound (hgen ▸ h), ?_⟩
    intro attempt deviceState credential hregistering
    rcases hcase with ⟨rfl, hnow⟩ | ⟨-, rfl⟩
    · exact hphase old hold attempt deviceState credential (hnow ▸ hregistering) u hu
    · exact hstates attempt deviceState credential hregistering
  users := ha.users
  queuedCall q hq i work hjob hgen := by
    obtain ⟨u, hbound, huser⟩ := ha.queuedCall q hq i work hjob hgen
    exact ⟨u, hbound, (Shell.userOf_setPhase _).trans huser⟩
  queuedIdentity q hq i deviceState hjob := by
    obtain ⟨u, huser, howner⟩ := ha.queuedIdentity q hq i deviceState hjob
    exact ⟨u, (Shell.userOf_setPhase _).trans huser, howner⟩
  started := ha.started
  writes := ha.writes

theorem Mine.setPhase (hm : Mine sh h) (i : ℕ) (phase : InitPhase State) :
    Mine { sh with core := sh.core.setPhase i phase } h := by
  intro hgen
  obtain ⟨u, hbound, huser, hrest⟩ := hm hgen
  exact ⟨u, hbound, (Shell.userOf_setPhase _).trans huser, hrest⟩

/-- An assignment of the bound user's state. -/
theorem Accounts.assign (ha : Accounts sh) {origin : Origin State} {new : Option (Cell State)}
    (hnew : ∀ cell, new = some cell →
      ∃ user, sh.boundUserId = some user ∧ Owner C cell.state user)
    (horigin : ∀ user base, origin = .committed user base → user = sh.boundUserId) :
    Accounts { sh with core := sh.core.assign origin new } where
  cache := hnew
  promise := ha.promise
  inits := ha.inits
  users := ha.users
  queuedCall := ha.queuedCall
  queuedIdentity := ha.queuedIdentity
  started := ha.started
  writes w hw := by
    rcases List.mem_cons.mp hw with rfl | hw
    · intro user base cell hcommitted hcell
      obtain ⟨u, hbound, howner⟩ := hnew cell hcell
      exact ⟨u, (horigin user base hcommitted).trans hbound, howner⟩
    · exact ha.writes w hw

variable {init : Init State} {caller : Caller}

theorem Shell.userOf_append {promise bound : Option _} (h : sh.userOf caller = some user) :
    ({ sh with
        core := { sh.core with
          identityPromise := promise
          inits := sh.core.inits ++ [init] }
        boundUserId := bound } : Shell C).userOf caller = some user := by
  cases caller with
  | call i => exact h
  | init i =>
      obtain ⟨old, hold, huser⟩ := Option.bind_eq_some_iff.mp h
      refine Option.bind_eq_some_iff.mpr ⟨old, ?_, huser⟩
      rw [List.getElem?_append_left (List.getElem?_eq_some_iff.mp hold).1]
      exact hold

/-- The first initialization of a session binds it. -/
theorem Accounts.begin (ha : Accounts sh) (hcache : sh.core.deviceStateCache = none)
    (hbound : sh.boundUserId = none ∨ sh.boundUserId = some user) (promise : Option ℕ) :
    Accounts { sh with
      core := { sh.core with
        identityPromise := promise
        inits := sh.core.inits ++ [⟨some user, sh.core.sessionGen, .loading⟩] }
      boundUserId := some user } := by
  have hsame : ∀ u, sh.boundUserId = some u → some user = some u := by
    intro u hu
    rcases hbound with hnone | hsome
    · rw [hnone] at hu
      cases hu
    · exact hsome.symm.trans hu
  refine ⟨?_, fun _ => rfl, ?_, ha.users, ?_, ?_, ha.started, ha.writes⟩
  · intro cell hcell
    exact absurd (hcache.symm.trans hcell) (by simp)
  · intro j init hj
    rcases Nat.lt_trichotomy j sh.core.inits.length with hlt | rfl | hgt
    · rw [List.getElem?_append_left hlt] at hj
      obtain ⟨u, hu, hown, hstates⟩ := ha.inits j init hj
      exact ⟨u, hu, fun hgen => hsame u (hown hgen), hstates⟩
    · rw [List.getElem?_concat_length] at hj
      cases hj
      exact ⟨user, rfl, fun _ => rfl, fun _ _ _ h => by cases h⟩
    · rw [List.getElem?_eq_none (by simp; omega)] at hj
      cases hj
  · intro q hq i work hjob hgen
    obtain ⟨u, hu, hof⟩ := ha.queuedCall q hq i work hjob hgen
    exact ⟨u, hsame u hu, Shell.userOf_append hof⟩
  · intro q hq i deviceState hjob
    obtain ⟨u, hof, howner⟩ := ha.queuedIdentity q hq i deviceState hjob
    exact ⟨u, Shell.userOf_append hof, howner⟩

/-- Other lock and holder variables do not matter. -/
theorem Accounts.of_eq {sh' : Shell C} (ha : Accounts sh)
    (hcache : sh'.core.deviceStateCache = sh.core.deviceStateCache)
    (hgen : sh'.core.sessionGen = sh.core.sessionGen)
    (hqueue : ∀ q ∈ sh'.core.queue, q ∈ sh.core.queue)
    (hpromise : sh'.core.identityPromise.isSome → sh.core.identityPromise.isSome)
    (hinits : sh'.core.inits = sh.core.inits) (hwrites : sh'.core.writes = sh.core.writes)
    (hbound : sh'.boundUserId = sh.boundUserId) (hstarted : sh'.started = sh.started)
    (husers : sh'.users = sh.users) : Accounts sh' := by
  have huserOf : ∀ caller, sh'.userOf caller = sh.userOf caller := by
    intro caller
    cases caller with
    | call i => simp only [Shell.userOf, husers]
    | init i => simp only [Shell.userOf, hinits]
  constructor
  · rw [hcache, hbound]
    exact ha.cache
  · rw [hbound]
    exact fun h => ha.promise (hpromise h)
  · rw [hinits, hgen, hbound]
    exact ha.inits
  · rw [husers]
    exact ha.users
  · intro q hq i work hjob hsession
    rw [hbound, huserOf]
    exact ha.queuedCall q (hqueue q hq) i work hjob (hsession.trans hgen)
  · intro q hq i deviceState hjob
    rw [huserOf]
    exact ha.queuedIdentity q (hqueue q hq) i deviceState hjob
  · rw [hstarted]
    exact ha.started
  · rw [hwrites]
    exact ha.writes

/-! ## The session -/

namespace Session

theorem Accounted.of_shell (hs : s.Accounted) (hshell : t.shell = s.shell) : t.Accounted where
  accounts := hshell ▸ hs.accounts
  mine h hh := hshell ▸ hs.mine h ((congrArg Shell.holder hshell).symm.trans hh)

theorem accounted_start (deviceIds : Option UserId → Option DeviceId) :
    (start C deviceIds).Accounted where
  accounts :=
    { cache cell h := by cases h
      promise h := by cases h
      inits j init h := by cases h
      users user h := by cases h
      queuedCall q h := by cases h
      queuedIdentity q h := by cases h
      started e h := by cases h
      writes w h := by cases h }
  mine h hh := by cases hh

theorem Accounted.resetForUser (hs : s.Accounted) (hi : s.Inv) (user : Option UserId) :
    (s.resetForUser user).Accounted where
  accounts := hs.accounts.reset hi.lock user
  mine h hh := Mine.reset s.shell (hi.holding h hh) user

theorem Accounted.saveRejected (hs : s.Accounted) (hi : s.Inv) (message : String) :
    (s.saveRejected message).Accounted := by
  simp only [Session.saveRejected]
  split_ifs
  · refine Accounted.of_shell (Accounted.resetForUser (s := settle { s with
      durableWaiters := []
      durableWanted := s.durableVersion } s.durableWaiters (.error (.other message))) ?_ ?_ none) rfl
    · exact hs.of_shell rfl
    · exact hi.of_shell rfl
  · exact hs.of_shell rfl

theorem Accounted.saveReturned (hs : s.Accounted) (hi : s.Inv) {k : ℕ}
    {result : Except String Unit} (hstep : s.saveReturned k result = some t) : t.Accounted := by
  unfold Session.saveReturned at hstep
  split at hstep
  · cases hstep
  · next save _ =>
      have hrest : ({ s with inFlight := s.inFlight.eraseIdx k } : Session C).Accounted :=
        hs.of_shell rfl
      cases result with
      | ok _ =>
          cases hstep
          exact hrest.of_shell saveAccepted_shell
      | error message =>
          cases hstep
          exact hrest.saveRejected (hi.of_shell rfl) message

/-! ### The work that runs -/

variable {result : Except Error LockResult}

theorem deliver_holder : (s.deliver caller result).holder = s.holder := by
  cases caller with
  | call i => exact deliver_call_holder
  | init i =>
      simp only [deliver]
      split
      · rfl
      · split
        · cases result with
          | ok r => rfl
          | error e => rfl
        · rfl

theorem accounts_deliver (ha : Accounts s.shell) (caller : Caller)
    (result : Except Error LockResult) : Accounts (s.deliver caller result).shell := by
  cases caller with
  | call i =>
      rw [deliver_call_shell]
      exact ha
  | init i =>
      simp only [deliver]
      split
      · exact ha
      · split
        · next credential _ =>
            cases result with
            | ok r =>
                exact ha.setPhase i .done fun _ _ _ _ _ h => by cases h
            | error e =>
                have hdropped : Accounts (s.assign .dropped none).shell :=
                  ha.assign (fun _ h => by cases h) fun _ _ h => by cases h
                exact hdropped.setPhase i (.failing e) fun _ _ _ _ _ h => by
                  cases h
        · exact ha

theorem accounted_free (ha : Accounts s.shell) (hholder : s.holder = none) :
    (s.deliver caller result).Accounted where
  accounts := accounts_deliver ha caller result
  mine h hh := by
    rw [deliver_holder, hholder] at hh
    cases hh

theorem accounted_release (ha : Accounts s.shell) (result : Except Error LockResult) :
    (s.release h result).Accounted := by
  have hfree : ∀ t : Session C, t.core = s.core → t.boundUserId = s.boundUserId →
      t.started = s.started → t.calls = s.calls → t.holder = none →
        (t.deliver h.caller result).Accounted := by
    intro t hcore hbound hstarted hcalls hholder
    refine accounted_free ?_ hholder
    have hqueue : t.core.queue = s.core.queue := congrArg Core.queue hcore
    have hpromise : t.core.identityPromise = s.core.identityPromise :=
      congrArg Core.identityPromise hcore
    exact ha.of_eq (congrArg Core.deviceStateCache hcore) (congrArg Core.sessionGen hcore)
      (fun q hq => hqueue ▸ hq) (fun hp => hpromise ▸ hp)
      (congrArg Core.inits hcore) (congrArg Core.writes hcore) hbound hstarted
      (congrArg (List.map Call.user) hcalls)
  exact hfree _ rfl rfl rfl rfl rfl

theorem accounted_hold (ha : Accounts s.shell) (hm : Mine s.shell h)
    (hshell : t.shell = { s.shell with holder := some h }) : t.Accounted where
  accounts := by
    rw [hshell]
    exact ha.of_eq rfl rfl (fun _ hq => hq) id rfl rfl rfl rfl rfl
  mine h' hh' := by
    have hholder : t.shell.holder = some h := by rw [hshell]
    obtain rfl := Option.some.inj (hholder.symm.trans hh')
    rw [hshell]
    exact hm

theorem accounted_awaitDurable (ha : Accounts s.shell) (hm : Mine s.shell h) (version : ℕ) :
    (s.awaitDurable tauri h version).Accounted := by
  have hshell : (s.waitDurable tauri version).1.shell = s.shell := waitDurable_shell
  refine accounted_hold (s := s) (h := { h with ticket := some (s.waitDurable tauri version).2 })
    ha hm ?_
  rw [← hshell]
  rfl

variable {state : State}

theorem accounts_commitState (ha : Accounts s.shell) (hgen : s.lockHolderGen = h.gen)
    (hm : Mine s.shell h)
    (hstate : ∀ user, s.boundUserId = some user → h.gen = s.sessionGen → Owner C state user)
    (hcommit : s.commitState tauri h state = some t) :
    Accounts t.shell ∧ h.gen = s.sessionGen ∧ t.boundUserId = s.boundUserId ∧
      ∀ caller, t.shell.userOf caller = s.shell.userOf caller := by
  simp only [commitState] at hcommit
  split_ifs at hcommit with hsession
  cases hcommit
  have hnow : h.gen = s.sessionGen := hgen.symm.trans (not_not.mp hsession)
  obtain ⟨user, hbound, huser, -⟩ := hm hnow
  have hassign : Accounts (s.assign (.committed (s.userOf h.caller) h.base)
      (some ⟨s.nextRef, state⟩)).shell := by
    refine ha.assign ?_ ?_
    · intro cell hcell
      cases hcell
      exact ⟨user, hbound, hstate user hbound hnow⟩
    · intro _ _ horigin
      cases horigin
      rw [userOf_eq, huser]
      exact hbound.symm
  refine ⟨?_, hnow, ?_, ?_⟩
  · rw [schedulePersist_shell]
    exact hassign
  · exact congrArg Shell.boundUserId schedulePersist_shell
  · intro caller
    rw [schedulePersist_shell]
    cases caller with
    | call i => rfl
    | init i => rfl

theorem accounted_commitDurable (ha : Accounts s.shell) (hgen : s.lockHolderGen = h.gen)
    (hm : Mine s.shell h) (result : LockResult)
    (hstate : ∀ user, s.boundUserId = some user → h.gen = s.sessionGen → Owner C state user) :
    (s.commitDurable tauri h state result).Accounted := by
  unfold commitDurable
  cases hcommit : s.commitState tauri h state with
  | none => exact accounted_release ha _
  | some t =>
      obtain ⟨hcommitted, hnow, hbound, husers⟩ :=
        accounts_commitState ha hgen hm hstate hcommit
      refine accounted_awaitDurable hcommitted ?_ _
      intro _
      obtain ⟨user, hb, hu, -⟩ := hm hnow
      exact ⟨user, hbound.trans hb, (husers h.caller).trans hu,
        by simp [Finish.state?]⟩

theorem accounted_finish (ha : Accounts s.shell) (hgen : s.lockHolderGen = h.gen)
    (hm : Mine s.shell h) {f : Finish State} (hrest : h.rest = .ret f) :
    (s.finish tauri h f).Accounted := by
  have hstate : ∀ state ∈ f.state?, ∀ user, s.boundUserId = some user →
      h.gen = s.sessionGen → Owner C state user := by
    intro state hstate user hbound hnow
    obtain ⟨u, hu, -, howned⟩ := hm hnow
    rw [hrest, Async.returns_ret] at howned
    obtain rfl := Option.some.inj (hbound.symm.trans hu)
    exact howned state hstate
  cases f with
  | returned result => exact accounted_release ha (.ok result)
  | thrown error => exact accounted_release ha (.error error)
  | commitState state result =>
      simp only [finish]
      cases hcommit : s.commitState tauri h state with
      | none => exact accounted_release ha _
      | some t =>
          exact accounted_release
            (accounts_commitState ha hgen hm (hstate state rfl) hcommit).1 _
  | commitDurable state result =>
      exact accounted_commitDurable ha hgen hm result (hstate state rfl)
  | merge state result =>
      simp only [finish]
      split_ifs
      · exact accounted_commitDurable ha hgen hm result (hstate state rfl)
      · exact accounted_release ha _

theorem accounted_proceed (ha : Accounts s.shell) (hgen : s.lockHolderGen = h.gen)
    (hm : Mine s.shell h) : (s.proceed tauri h).Accounted := by
  unfold proceed
  split
  · next f hrest => exact accounted_finish ha hgen hm hrest
  · exact accounted_hold ha hm rfl
  · exact accounted_hold ha hm rfl

/-- Work that starts is the bound user's, and so is the state it starts on. -/
theorem accounted_startJob (hC : Credentials C) {seed : Seed} {job : Job C}
    (ha : Accounts s.shell) (hholder : s.holder = none) (hgen : s.lockHolderGen = s.sessionGen)
    (hcall : ∀ i work, job = .call i work →
      ∃ user, s.boundUserId = some user ∧ s.shell.userOf (.call i) = some user)
    (hidentity : ∀ i deviceState, job = .newIdentity i deviceState →
      ∃ user, s.boundUserId = some user ∧ s.shell.userOf (.init i) = some user ∧
        Owner C deviceState user) :
    (s.startJob tauri seed job).Accounted := by
  cases job with
  | newIdentity i deviceState =>
      obtain ⟨user, hbound, huser, howner⟩ := hidentity i deviceState rfl
      unfold startJob
      refine accounted_proceed ha hgen ?_
      intro _
      refine ⟨user, hbound, huser, ?_⟩
      rw [Async.returns_ret]
      intro t ht
      cases ht
      exact howner
  | call i work =>
      obtain ⟨user, hbound, huser⟩ := hcall i work rfl
      simp only [startJob]
      split
      · exact accounted_free ha hholder
      · next cell hcache =>
          obtain ⟨owner, hbound', howner⟩ := ha.cache cell hcache
          obtain rfl := Option.some.inj (hbound.symm.trans hbound')
          let entry : Started State := ⟨s.userOf (.call i), s.boundUserId, cell⟩
          have hentry : Accounts ({ s with started := entry :: s.started } : Session C).shell := by
            refine ⟨ha.cache, ha.promise, ha.inits, ha.users, ha.queuedCall, ha.queuedIdentity, ?_,
              ha.writes⟩
            intro e he
            rcases List.mem_cons.mp he with rfl | he
            · exact ⟨user, (userOf_eq _).trans huser, howner⟩
            · exact ha.started e he
          have hmine : ∀ (sub : Option (Submission State)) (rest : Section State),
              rest.Returns (Finish.Sound C cell.state) →
                Mine ({ s with started := entry :: s.started } : Session C).shell
                  ⟨.call i, s.sessionGen, some cell, s.stateVersion, sub, rest, none, none⟩ := by
            intro sub rest hrest _
            refine ⟨user, hbound, huser, hrest.weaken ?_⟩
            intro _ _ f hf t ht
            exact howner.computes hC (hf.computed t ht)
          have hsound := work.sound seed ⟨cell.state, s.ownCredential⟩
          split
          · next f hstart =>
              rw [hstart] at hsound
              exact accounted_proceed hentry hgen (hmine none _ (Async.returns_ret.mpr hsound))
          · next sub rest hstart =>
              rw [hstart] at hsound
              obtain ⟨hcomputed, codec, rfl⟩ := hsound
              exact accounted_awaitDurable hentry (hmine _ _ (submitPlan_sound hcomputed)) _

variable {queue : List (Queued C)}

theorem Accounted.dequeue (hs : s.Accounted) {next : Queued C} (hqueue : s.queue = next :: queue)
    (lockHolderGen : ℕ) : Accounts ({ s with queue, lockHolderGen } : Session C).shell := by
  refine hs.accounts.of_eq rfl rfl (fun q hq => ?_) id rfl rfl rfl rfl rfl
  change q ∈ s.queue
  rw [hqueue]
  exact List.mem_cons_of_mem _ hq

theorem Accounted.refuses (hs : s.Accounted) {next : Queued C} (hholder : s.holder = none)
    (hqueue : s.queue = next :: queue) :
    (({ s with queue } : Session C).deliver next.job.caller (.error accountSwitched)).Accounted :=
  accounted_free (s := { s with queue }) (hs.dequeue hqueue s.lockHolderGen) hholder

theorem Accounted.starts (hC : Credentials C) (hs : s.Accounted) (hi : s.Inv) {seed : Seed}
    {next : Queued C} {queue : List (Queued C)} (hholder : s.holder = none)
    (hqueue : s.queue = next :: queue) (hnow : next.gen = s.sessionGen) :
    (({ s with queue, lockHolderGen := next.gen } : Session C).startJob tauri seed
      next.job).Accounted := by
  have hnext : next ∈ s.queue := by
    rw [hqueue]
    exact List.mem_cons_self
  refine accounted_startJob (s := { s with queue, lockHolderGen := next.gen }) hC
    (hs.dequeue hqueue _) hholder hnow ?_ ?_
  · intro i work hjob
    exact hs.accounts.queuedCall next hnext i work hjob hnow
  · intro i deviceState hjob
    obtain ⟨user, huser, howner⟩ := hs.accounts.queuedIdentity next hnext i deviceState hjob
    obtain ⟨-, user', credential, hinit⟩ := hi.lock.queued next hnext i (by rw [hjob]; rfl)
    obtain ⟨u, hu, hbound, -⟩ := hs.accounts.inits i _ hinit
    have hsame : user' = some user := by
      have hof : s.shell.userOf (.init i) = user' := by
        change (s.core.inits[i]?).bind Init.user = user'
        rw [hinit]
        rfl
      rw [← hof]
      exact huser
    obtain rfl := Option.some.inj (hsame.symm.trans hu)
    exact ⟨user, hbound hnow, huser, howner⟩

theorem Accounted.goesOn (hs : s.Accounted) (hi : s.Inv) (hholder : s.holder = some h)
    {rest : Section State} {ticket : Option ℕ} (hrest : ∀ P, h.rest.Returns P → rest.Returns P) :
    (s.proceed tauri { h with rest := rest, ticket := ticket }).Accounted := by
  refine accounted_proceed hs.accounts ?_ ?_
  · exact (hi.holding h hholder).gen
  · intro hgen
    obtain ⟨user, hbound, huser, howned⟩ := hs.mine h hholder hgen
    exact ⟨user, hbound, huser, hrest _ howned⟩

/-! ### Identity -/

theorem Accounted.setPhase (hs : s.Accounted)
    (hphase : ∀ init, s.inits[i]? = some init → ∀ attempt deviceState credential, phase = .registering attempt deviceState credential → ∀ user, init.user = some user → Owner C deviceState user) :
    (s.setPhase i phase).Accounted where
  accounts := hs.accounts.setPhase i phase hphase
  mine h hh := (hs.mine h hh).setPhase i phase

/-- A phase without a state owes nothing to its user. -/
theorem Accounted.settlePhase (hs : s.Accounted) (i : ℕ)
    (hphase : ∀ attempt deviceState credential, phase ≠ .registering attempt deviceState credential) :
    (s.setPhase i phase).Accounted :=
  hs.setPhase fun _ _ attempt deviceState credential h =>
    absurd h (hphase attempt deviceState credential)

/-- Registration generates a state under the user's own label. -/
theorem Accounted.registerDevice (hC : Credentials C) (hs : s.Accounted) {attempt : ℕ}
    (hinit : s.inits[i]? = some init) (uuid : DeviceId) (seed : Seed) :
    (s.registerDevice C i attempt init.user uuid seed).Accounted := by
  refine Accounted.of_shell (s := s.setPhase i _) (hs.setPhase ?_) rfl
  intro init' hinit' attempt' deviceState credential hphase user huser
  cases hinit.symm.trans hinit'
  cases hphase
  refine ⟨_, hC.generated seed _, ?_⟩
  rw [huser]
  exact userIdOfLabel_credentialFor user _

theorem Accounted.adopt (hs : s.Accounted) (hinit : s.inits[i]? = some init)
    (hgen : init.gen = s.sessionGen) : (s.adopt i init.user state).Accounted := by
  unfold Session.adopt
  split
  · exact hs.settlePhase i fun _ _ _ h => by cases h
  · next credential hcredential =>
      split_ifs with hother
      · exact hs.settlePhase i fun _ _ _ h => by cases h
      · obtain ⟨user, huser, hbound, -⟩ := hs.accounts.inits i init hinit
        have howner : Owner C state user := by
          rw [huser] at hother
          exact ⟨credential, hcredential, by simpa using hother⟩
        have hassign : Accounts (s.assign .loaded (some ⟨s.nextRef, state⟩)).shell := by
          refine hs.accounts.assign ?_ fun _ _ h => by cases h
          intro cell hcell
          cases hcell
          exact ⟨user, hbound hgen, howner⟩
        constructor
        · exact hassign.setPhase i .done fun _ _ _ _ _ h => by cases h
        · intro h hh
          have hm : Mine s.shell h := hs.mine h hh
          exact hm.setPhase i .done

theorem Accounted.initializes (hC : Credentials C) (hs : s.Accounted)
    (hinit : s.inits[i]? = some init) (h : Initializes s i init t) : t.Accounted := by
  cases h with
  | fails error => exact hs.settlePhase i fun _ _ _ h => by cases h
  | adopts state hgen => exact hs.adopt hinit hgen
  | registers deviceIds attempt uuid seed =>
      exact Accounted.registerDevice (s := { s with deviceIds }) hC (hs.of_shell rfl) hinit uuid seed
  | @locks attempt deviceState credential hphase hgen =>
      have hp : (s.setPhase i (.locking credential)).Accounted :=
        hs.settlePhase i fun _ _ _ h => by cases h
      obtain ⟨user, huser, -, hstates⟩ := hs.accounts.inits i init hinit
      have hof : s.shell.userOf (.init i) = some user := by
        change (s.inits[i]?).bind Init.user = some user
        rw [hinit]
        exact huser
      refine ⟨⟨hp.accounts.cache, hp.accounts.promise, hp.accounts.inits, hp.accounts.users,
        ?_, ?_, hp.accounts.started, hp.accounts.writes⟩, fun h hh => hp.mine h hh⟩
      · intro q hq j work hjob hsession
        rcases List.mem_append.mp hq with hq | hq
        · exact hp.accounts.queuedCall q hq j work hjob hsession
        · rw [List.mem_singleton.mp hq] at hjob
          cases hjob
      · intro q hq j state hjob
        rcases List.mem_append.mp hq with hq | hq
        · exact hp.accounts.queuedIdentity q hq j state hjob
        · rw [List.mem_singleton.mp hq] at hjob
          cases hjob
          exact ⟨user, (Shell.userOf_setPhase (.init i)).trans hof,
            hstates attempt deviceState credential hphase⟩
  | forgotten error hgen =>
      have hp : (s.setPhase i (.rejected error)).Accounted :=
        hs.settlePhase i fun _ _ _ h => by cases h
      refine ⟨?_, fun h hh => hp.mine h hh⟩
      exact hp.accounts.of_eq rfl rfl (fun _ hq => hq) (fun h => by cases h) rfl rfl rfl rfl rfl
  | rejected error => exact hs.settlePhase i fun _ _ _ h => by cases h

/-- The session left by a named user's `ensureIdentity` is that user's. -/
theorem Accounted.ensureIdentity (hs : s.Accounted) (hi : s.Inv) (user : UserId) :
    (s.ensureIdentity (some user)).1.Accounted := by
  have hbound : ∃ s' : Session C,
      (if s.switches (some user) then s.resetForUser (some user) else s) = s' ∧ s'.Accounted ∧
        (s'.boundUserId = none ∨ s'.boundUserId = some user) := by
    split_ifs with hswitch
    · exact ⟨_, rfl, hs.resetForUser hi _, .inr rfl⟩
    · refine ⟨s, rfl, hs, ?_⟩
      unfold switches at hswitch
      cases hold : s.boundUserId with
      | none => exact .inl rfl
      | some bound =>
          rw [hold] at hswitch
          right
          simpa using Eq.symm (by simpa using hswitch)
  obtain ⟨s', hs', ha, hcase⟩ := hbound
  simp only [Session.ensureIdentity, hs']
  split
  · exact ha
  · exact ha
  · next hcache hpromise =>
      refine ⟨ha.accounts.begin hcache hcase _, ?_⟩
      intro h hh hgen
      obtain ⟨u, hu, hof, hrest⟩ := ha.mine h hh hgen
      have hsame : some user = some u := by
        rcases hcase with hnone | hsome
        · exact absurd (hnone.symm.trans hu) (by simp)
        · exact hsome.symm.trans hu
      exact ⟨u, hsame, Shell.userOf_append hof, hrest⟩

/-! ### Calls -/

/-- Each call names its user, and reaches the lock while that user is bound. -/
def inAccount (s : Session C) : Input State → Bool
  | .call user _ _ => user.isSome
  | .advance i =>
      match s.calls[i]? with
      | none => true
      | some call =>
          match call.rest with
          | .op (.withStateLock _) _ => s.boundUserId == call.user
          | _ => true
  | _ => true

variable {call : Call C}

theorem Accounted.setCall (hs : s.Accounted) {old : Call C} (hold : s.calls[i]? = some old)
    (huser : call.user = old.user) : (s.setCall i call).Accounted :=
  hs.of_shell (setCall_shell hold huser)

theorem Accounted.enqueue (hs : s.Accounted) {work : LockWork C} (hcall : s.calls[i]? = some call)
    (hbound : s.boundUserId = call.user) :
    ({ s with queue := s.queue ++ [⟨s.sessionGen, .call i work⟩] } : Session C).Accounted := by
  obtain ⟨user, huser⟩ := Option.isSome_iff_exists.mp
    (hs.accounts.users call.user (List.mem_map_of_mem (List.mem_of_getElem? hcall)))
  have hof : s.shell.userOf (.call i) = some user := by
    rw [← userOf_eq]
    change (s.calls[i]?).bind Call.user = some user
    rw [hcall]
    exact huser
  refine ⟨⟨hs.accounts.cache, hs.accounts.promise, hs.accounts.inits, hs.accounts.users, ?_, ?_,
    hs.accounts.started, hs.accounts.writes⟩, fun h hh => hs.mine h hh⟩
  · intro q hq j work' hjob hgen
    rcases List.mem_append.mp hq with hq | hq
    · exact hs.accounts.queuedCall q hq j work' hjob hgen
    · rw [List.mem_singleton.mp hq] at hjob
      cases hjob
      exact ⟨user, hbound.trans huser, hof⟩
  · intro q hq j deviceState hjob
    rcases List.mem_append.mp hq with hq | hq
    · exact hs.accounts.queuedIdentity q hq j deviceState hjob
    · rw [List.mem_singleton.mp hq] at hjob
      cases hjob

/-- What a named user's call does before it goes on. -/
theorem Accounted.prepared (hs : s.Accounted) (hi : s.Inv) (hcall : s.calls[i]? = some call)
    (h : Prepared s call.user t) : t.Accounted := by
  cases h with
  | same => exact hs
  | identity =>
      obtain ⟨user, huser⟩ := Option.isSome_iff_exists.mp
        (hs.accounts.users call.user (List.mem_map_of_mem (List.mem_of_getElem? hcall)))
      rw [huser]
      exact hs.ensureIdentity hi user
  | books books => exact hs.of_shell setBooks_shell
  | heal groupId => exact hs.of_shell scheduleHeal_shell
  | failure groupId => exact hs.of_shell noteCurrentEpochFailure_shell

theorem Accounted.goOn (hs : s.Accounted) (hi : s.Inv) {call' : Call C}
    (hcall : s.calls[i]? = some call) (h : Prepared s call.user t)
    (huser : call'.user = call.user) : (t.setCall i call').Accounted := by
  have hcall' : t.calls[i]? = some call := by
    rw [show t.calls = s.calls from congrArg Prod.fst h.ledger]
    exact hcall
  exact (hs.prepared hi hcall h).setCall hcall' huser

theorem Accounted.locks (hs : s.Accounted) {i : ℕ} {call : Call C} {work : LockWork C}
    (hcall : s.calls[i]? = some call) (hbound : s.boundUserId = call.user) :
    ({ s.setCall i { call with awaiting := .lock } with
      queue := s.queue ++ [⟨s.sessionGen, .call i work⟩] } : Session C).Accounted := by
  have hwait : (s.setCall i { call with awaiting := .lock }).Accounted := hs.setCall hcall rfl
  have hset : (s.setCall i { call with awaiting := .lock }).calls[i]? =
      some { call with awaiting := .lock } := by
    have hlt := (List.getElem?_eq_some_iff.mp hcall).1
    change (s.calls.set i _)[i]? = _
    rw [List.getElem?_set_self hlt]
  exact hwait.enqueue hset hbound

/-- A new call of a named user. -/
theorem Accounted.addCall (hs : s.Accounted) {user : Option UserId} (huser : user.isSome)
    (m : CallM C CallResult) : (s.addCall user m).Accounted := by
  have husers : (s.addCall user m).shell.users = s.shell.users ++ [user] := by
    change (s.calls ++ [_]).map Call.user = s.calls.map Call.user ++ [user]
    rw [List.map_append]
    rfl
  have hof : ∀ caller u, s.shell.userOf caller = some u →
      (s.addCall user m).shell.userOf caller = some u := by
    intro caller u h
    cases caller with
    | init i => exact h
    | call i =>
        simp only [Shell.userOf, husers]
        rw [List.getElem?_append_left]
        · exact h
        · by_contra hlt
          rw [Shell.userOf, List.getElem?_eq_none (Nat.le_of_not_lt hlt)] at h
          cases h
  constructor
  · refine ⟨hs.accounts.cache, hs.accounts.promise, hs.accounts.inits, ?_, ?_, ?_,
      hs.accounts.started, hs.accounts.writes⟩
    · intro u hu
      rw [husers] at hu
      rcases List.mem_append.mp hu with hu | hu
      · exact hs.accounts.users u hu
      · rw [List.mem_singleton.mp hu]
        exact huser
    · intro q hq i work hjob hgen
      obtain ⟨u, hbound, h⟩ := hs.accounts.queuedCall q hq i work hjob hgen
      exact ⟨u, hbound, hof _ u h⟩
    · intro q hq i deviceState hjob
      obtain ⟨u, h, howner⟩ := hs.accounts.queuedIdentity q hq i deviceState hjob
      exact ⟨u, hof _ u h, howner⟩
  · intro h hh hgen
    obtain ⟨u, hbound, hu, hrest⟩ := hs.mine h hh hgen
    exact ⟨u, hbound, hof _ u hu, hrest⟩

theorem Accounted.step (hC : Credentials C) (hs : s.Accounted) (hi : s.Inv) {codec : Codec}
    {input : Input State} (hguard : s.inAccount input = true)
    (hstep : s.step codec tauri input = some t) : t.Accounted := by
  cases step_cases hstep with
  | called user routes function => exact hs.addCall hguard _
  | noted books => exact hs.of_shell setBooks_shell
  | reset user => exact hs.resetForUser hi user
  | goesOn hcall hrest hu huser hgoes hanswer => exact hs.goOn hi hcall hu huser
  | waits hcall hu huser hrest => exact hs.goOn hi hcall hu huser
  | locks hcall hrest => exact hs.locks hcall (by simpa [inAccount, hcall, hrest] using hguard)
  | lapses healTimers => exact hs.of_shell rfl
  | heals healTimers htimer =>
      exact Accounted.addCall (s := { s with healTimers }) (hs.of_shell rfl) rfl _
  | refuses hholder hqueue => exact hs.refuses hholder hqueue
  | starts hholder hqueue hgen => exact hs.starts hC hi hholder hqueue hgen
  | resumes hholder hok => exact hs.goesOn hi hholder fun _ hrest => hrest
  | throws hholder herror => exact accounted_release hs.accounts _
  | answered hholder hticket hrest => exact hs.goesOn hi hholder fun _ h => h.answer hrest _
  | slept hholder hticket hrest => exact hs.goesOn hi hholder fun _ h => h.answer hrest _
  | loads hinit hbefore h => exact hs.initializes hC hinit h
  | registers hinit hbefore h => exact hs.initializes hC hinit h
  | catches hinit hbefore h => exact hs.initializes hC hinit h
  | saves h => exact hs.saveReturned hi h
  | ticks => exact hs.of_shell rfl

end Session

/-! ## Runs -/

/-- Lock work ran on its own user's states and committed only those. -/
structure AccountsIsolated (s : Session C) : Prop where
  started : ∀ e ∈ s.started, ∃ user, e.user = some user ∧ Owner C e.cell.state user
  committed : ∀ w ∈ s.writes, ∀ user base cell, w.origin = .committed user base →
    w.new = some cell → ∃ u, user = some u ∧ Owner C cell.state u

/-- A run in which no call reaches the lock while another account is bound. -/
theorem accounts_isolated (hC : Credentials C) {codec : Codec}
    {deviceIds : Option UserId → Option DeviceId} {inputs : List (Input State)}
    (hrun : (session C codec tauri).Guarded (fun s input => s.inAccount input = true)
      (.start C deviceIds) inputs s) :
    AccountsIsolated s := by
  have hboth : s.Inv ∧ s.Accounted := by
    refine hrun.invariant (P := fun s => s.Inv ∧ s.Accounted) ?_
      ⟨Session.inv_start deviceIds, Session.accounted_start deviceIds⟩
    intro s input t hs hguard hstep
    exact ⟨hs.1.step hstep, hs.2.step hC hs.1 hguard hstep⟩
  exact ⟨hboth.2.accounts.started, hboth.2.accounts.writes⟩

namespace OneGroup

theorem map_held_ok {s : OneGroup} {groupId : GroupId} {α : Type} {f : List Bytes → α} {a : α}
    (h : (s.held groupId).map f = .ok a) : ∃ chain, a = f chain := by
  cases hheld : s.held groupId with
  | error e => simp [hheld, Except.map] at h
  | ok chain =>
      rw [hheld] at h
      cases h
      exact ⟨chain, rfl⟩

theorem credentials : Credentials crypto where
  generated _ _ := rfl
  kept s t h := by
    have hlabel : t.label = s.label := by
      cases h with
      | createGroup h =>
          simp only [crypto] at h
          split_ifs at h
          cases h
          rfl
      | addMember h => obtain ⟨chain, rfl⟩ := map_held_ok h; rfl
      | removeMember h => obtain ⟨chain, rfl⟩ := map_held_ok h; rfl
      | joinFromWelcome h => cases h; rfl
      | processCommit h =>
          obtain ⟨chain, -, h⟩ := Except.bind_eq_ok.mp h
          split_ifs at h
          cases h
          rfl
      | encrypt h => obtain ⟨chain, rfl⟩ := map_held_ok h; rfl
      | decrypt h => obtain ⟨chain, rfl⟩ := map_held_ok h; rfl
      | joinExternal h => cases h; rfl
      | resyncExternal h => cases h; rfl
    exact congrArg Except.ok hlabel

/-! A catch-up asked for by one user meets the other user's state: the account switches
and the other state is loaded while the reply is on its way. -/

def firstCommit : Bytes := commitOn 7 []
def secondCommit : Bytes := commitOn 8 [firstCommit]

theorem colon_notMem_uuid : ':' ∉ "".toList := by decide

def uuid : DeviceId := ⟨"", colon_notMem_uuid⟩

/-- A server that has logged two commits. -/
def twoCommits : (r : ApiRequest) → r.Reply
  | .catchUp _ =>
      .ok ⟨none, [(1, codec.toB64 firstCommit), (2, codec.toB64 secondCommit)], some 2, none⟩
  | r => emptyServer r

def signedIn : List (Input OneGroup) :=
  [.call (some "u") routes (.syncChannelGroupEpoch "o" name), .advance 0,
    .loaded 0 (.ok (some ⟨"u:d1", some [firstCommit], 0⟩)) uuid 0, .advance 0, .advance 0]

def caughtUp : List (Input OneGroup) :=
  [.reply 0 twoCommits, .advance 0, .lockNext 0]

def switched : List (Input OneGroup) :=
  [.call (some "v") routes .ensureIdentity, .advance 1,
    .loaded 1 (.ok (some ⟨"v:d2", some [firstCommit], 0⟩)) uuid 0]

theorem accounts_isolated_one_user :
    AccountsIsolated ((((session crypto codec true).restrict Session.inAccount).exec
      (.start crypto noDeviceIds) (signedIn ++ caughtUp)).get (by decide)) :=
  accounts_isolated credentials
    (StepSystem.exec_eq_some_iff.mp (Option.some_get _).symm).guarded

theorem catch_up_crosses_accounts :
    ∃ s, (session crypto codec true).Run (.start crypto noDeviceIds)
      (signedIn ++ switched ++ caughtUp) s ∧ ¬ AccountsIsolated s := by
  refine ⟨(after true (signedIn ++ switched ++ caughtUp)).get (by decide),
    StepSystem.exec_eq_some_iff.mp (Option.some_get _).symm, ?_⟩
  have hother : ¬ ∀ e ∈ ((after true (signedIn ++ switched ++ caughtUp)).get (by decide)).started,
      e.user = some (userIdOfLabel e.cell.state.label) := by
    decide
  intro h
  refine hother fun e he => ?_
  obtain ⟨user, huser, label, hlabel, hsame⟩ := h.started e he
  cases hlabel
  rw [huser, hsame]

end OneGroup

end SpecterComs.MlsSession
