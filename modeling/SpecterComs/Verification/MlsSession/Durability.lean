import SpecterComs.Verification.MlsSession.Promises

/-! # Nothing leaves the device before it is on disk

An own commit is submitted once the state it was planned from is on disk, and a
ciphertext is returned once the state its encryption left is.
-/

namespace SpecterComs.MlsSession

variable {State : Type} {C : Crypto State} {codec : Codec} {s t : Session C} {h : Holder State}

namespace Session

/-! ## The work that runs -/

theorem OnDisk.setCall (hs : s.OnDisk) (i : ℕ) (call : Call C) : (s.setCall i call).OnDisk :=
  hs.frame rfl rfl rfl rfl rfl

theorem OnDisk.setBooks (hs : s.OnDisk) (books : Books) : (s.setBooks books).OnDisk :=
  hs.frame rfl rfl rfl rfl rfl

theorem Between.free (hs : s.Between) (hholder : s.holder = none) : s.OnDisk where
  stored := hs.stored
  told := hs.told
  held w hw := by
    rw [hs.waiters] at hw
    cases hw
  relies h hh := by
    rw [hholder] at hh
    cases hh

/-- The dropped state leaves nobody waiting. -/
theorem Between.dropped (hs : s.Between) : (s.assign .dropped none).Between where
  stored :=
    { waiting :=
        { hs.stored.waiting with
          cacheless := fun _ => hs.waiters
          current := fun hcached => by cases hcached }
      one := hs.stored.one
      active := hs.stored.active
      idle := hs.stored.idle }
  told := hs.told.later ⟨List.Subset.refl _, List.Subset.refl _⟩ rfl rfl
  waiters := hs.waiters

theorem onDisk_deliver (hs : s.Between) (hholder : s.holder = none) (caller : Caller)
    (result : Except Error LockResult) : (s.deliver caller result).OnDisk := by
  have hfree := hs.free hholder
  cases caller with
  | call i =>
      simp only [deliver]
      split
      · exact hfree
      · split
        · exact hfree.setCall _ _
        · exact hfree
  | init i =>
      simp only [deliver]
      split
      · exact hfree
      · split
        · cases result with
          | ok r => exact hfree.frame rfl rfl rfl rfl rfl
          | error e =>
              have hdropped : (s.assign .dropped none).OnDisk := hs.dropped.free hholder
              exact hdropped.frame rfl rfl rfl rfl rfl
        · exact hfree

theorem onDisk_release (hs : s.Between) {result : Except Error LockResult}
    (hsettled : Settled.OnDisk C s.disk ⟨h, s.sessionGen, s.deviceStateCache, result⟩) :
    (s.release h result).OnDisk := by
  refine onDisk_deliver (s := { s with
    holder := none
    settled := _ }) ⟨hs.stored, ⟨hs.told.submitted, ?_⟩, hs.waiters⟩ rfl _ _
  intro e he
  rcases List.mem_cons.mp he with rfl | he
  · exact hsettled
  · exact hs.told.settled e he

/-- Work that throws has returned nothing. -/
theorem onDisk_throw (hs : s.Between) (error : Error) : (s.release h (.error error)).OnDisk :=
  onDisk_release hs
    { holds r c hr _ := by cases hr
      ciphertext bytes hr := by cases hr }

variable {result : LockResult}

/-- Work that returns has on disk what it committed durably. -/
theorem onDisk_return (hs : s.Between)
    (hholds : ∀ c, h.committed = some c → s.disk.Holds h.gen c.version)
    (hsends : h.Sends C (.returned result)) : (s.release h (.ok result)).OnDisk := by
  refine onDisk_release hs ⟨fun _ c _ hc => hholds c hc, ?_⟩
  intro bytes hr
  cases hr
  exact hsends

theorem onDisk_awaitDurable (hs : s.Between) (hcache : s.deviceStateCache.isSome)
    (hgen : h.gen = s.sessionGen) (hdue : h.due = s.stateVersion)
    (hreturning : h.committed ≠ none → ∃ f, h.rest = .ret f) (hsends : h.rest.Returns (h.Sends C)) :
    (s.awaitDurable true h s.stateVersion).OnDisk := by
  obtain ⟨hstored, hticket, hwaiters⟩ := stored_waitDurable hs.stored hcache hs.waiters
  have hsaves : (s.waitDurable true s.stateVersion).1.saved = s.saved ∧
      (s.waitDurable true s.stateVersion).1.loads = s.loads ∧
      (s.waitDurable true s.stateVersion).1.submitted = s.submitted ∧
      (s.waitDurable true s.stateVersion).1.settled = s.settled ∧
      (s.waitDurable true s.stateVersion).1.sessionGen = s.sessionGen ∧
      (s.waitDurable true s.stateVersion).1.nextTicket = s.nextTicket + 1 := by
    simp only [waitDurable]
    split_ifs
    · exact ⟨rfl, rfl, rfl, rfl, rfl, rfl⟩
    · obtain ⟨active, inFlight, sent, heq⟩ := schedulePersist_eq true ({ s with
        nextTicket := s.nextTicket + 1
        durableWaiters := s.durableWaiters ++ [⟨s.stateVersion, s.nextTicket⟩]
        durableWanted := max s.durableWanted s.stateVersion })
      rw [heq]
      exact ⟨rfl, rfl, rfl, rfl, rfl, rfl⟩
  obtain ⟨hsaved, hloads, hsubmitted, hsettled, hsession, hnext⟩ := hsaves
  have hgrows : s.disk.Grows (s.waitDurable true s.stateVersion).1.disk := by
    constructor
    · intro save hsave
      exact hsaved.symm.subst (motive := fun saved => save ∈ saved) hsave
    · intro load hload
      exact hloads.symm.subst (motive := fun loads => load ∈ loads) hload
  refine ⟨hstored, hs.told.later hgrows hsubmitted hsettled, ?_, ?_⟩
  · intro w hw
    refine ⟨_, rfl, ?_, ?_, ?_⟩
    · rcases hwaiters with ⟨hnone, -⟩ | hone
      · exact absurd hw (by
          change w ∉ (s.waitDurable true s.stateVersion).1.durableWaiters
          simp [hnone])
      · have hw : w ∈ (s.waitDurable true s.stateVersion).1.durableWaiters := hw
        rw [hone, List.mem_singleton] at hw
        rw [hw, hticket]
    · exact hgen.trans hsession.symm
    · rcases hwaiters with ⟨hnone, -⟩ | hone
      · exact absurd hw (by
          change w ∉ (s.waitDurable true s.stateVersion).1.durableWaiters
          simp [hnone])
      · have hw : w ∈ (s.waitDurable true s.stateVersion).1.durableWaiters := hw
        rw [hone, List.mem_singleton] at hw
        rw [hw]
        exact hdue
  · intro h' hh'
    obtain rfl := Option.some.inj hh'
    refine ⟨?_, ?_, hreturning, hsends⟩
    swap
    · intro hnone
      cases hnone
    intro ticket hticket'
    obtain rfl := Option.some.inj hticket'
    refine ⟨?_, fun hok => ?_⟩
    · change (s.waitDurable true s.stateVersion).2 <
        (s.waitDurable true s.stateVersion).1.nextTicket
      omega
    · rcases hwaiters with ⟨-, hholds⟩ | hone
      · rw [← hgen, ← hdue] at hholds
        exact hholds.later hgrows
      · have hnone := (hstored.waiting.tickets ⟨s.stateVersion, s.nextTicket⟩ (by
          change _ ∈ (s.waitDurable true s.stateVersion).1.durableWaiters
          simp [hone])).2
        rw [hticket] at hok
        exact absurd (hok.symm.trans hnone) (by simp)

/-- A commit leaves the session between two awaits. -/
theorem Between.commit (hs : s.Between) {state : State}
    (hcommit : s.commitState true h state = some t) :
    t.Between ∧ t.deviceStateCache.isSome ∧ t.sessionGen = s.sessionGen ∧
      s.disk.Grows t.disk := by
  have hstored := stored_commitState hs.stored hcommit
  obtain ⟨active, inFlight, sent, rfl⟩ := commitState_eq hcommit
  exact ⟨⟨hstored, hs.told.later (.refl _) rfl rfl, hs.waiters⟩, rfl, rfl, .refl _⟩

theorem onDisk_commitDurable (hs : s.Between) (hgen : s.lockHolderGen = h.gen) {state : State}
    (hencrypted : ∀ bytes, result = .ciphertext bytes → h.Encrypted C state bytes) :
    (s.commitDurable true h state result).OnDisk := by
  unfold commitDurable
  cases hcommit : s.commitState true h state with
  | none => exact onDisk_throw hs _
  | some t =>
      obtain ⟨hbetween, hcache, hsession, -⟩ := hs.commit hcommit
      have hcurrent := (commitState_spec hcommit).1
      refine onDisk_awaitDurable hbetween hcache ?_ rfl (fun _ => ⟨_, rfl⟩) ?_
      · exact hgen.symm.trans (hcurrent.trans hsession.symm)
      · rw [Async.returns_ret]
        cases result with
        | ciphertext bytes => exact ⟨_, rfl, hencrypted bytes rfl⟩
        | _ => trivial

/-- The work ends, with what it relies on. -/
theorem onDisk_finish (hs : s.Between) (hgen : s.lockHolderGen = h.gen)
    (hholds : ∀ c, h.committed = some c → s.disk.Holds h.gen c.version) {f : Finish State}
    (hsends : h.Sends C f) : (s.finish true h f).OnDisk := by
  cases f with
  | returned result => exact onDisk_return hs hholds hsends
  | thrown error => exact onDisk_throw hs error
  | commitState state result =>
      simp only [finish]
      cases hcommit : s.commitState true h state with
      | none => exact onDisk_throw hs _
      | some t =>
          obtain ⟨hbetween, -, -, hgrows⟩ := hs.commit hcommit
          refine onDisk_return hbetween (fun c hc => (hholds c hc).later hgrows) ?_
          cases result with
          | ciphertext bytes => exact hsends.elim
          | _ => trivial
  | commitDurable state result =>
      refine onDisk_commitDurable hs hgen fun bytes hresult => ?_
      subst hresult
      exact hsends
  | merge state result =>
      simp only [finish]
      split_ifs
      · refine onDisk_commitDurable hs hgen fun bytes hresult => ?_
        subst hresult
        exact hsends.elim
      · exact onDisk_throw hs _

theorem onDisk_proceed (hs : s.Between) (hgen : s.lockHolderGen = h.gen)
    (hticket : h.ticket = none)
    (hholds : ∀ c, h.committed = some c → s.disk.Holds h.gen c.version)
    (hbase : (∃ f, h.rest = .ret f) ∨ h.committed = none ∧ s.disk.Holds h.gen h.version)
    (hsends : h.rest.Returns (h.Sends C)) : (s.proceed true h).OnDisk := by
  have hstay : ∀ {o k}, h.rest = .op o k → ∀ t : Session C, t.disk = s.disk →
      t.writerActive = s.writerActive → t.Told → t.durableWaiters = s.durableWaiters →
        t.holder = some h → t.OnDisk := by
    intro o k hrest t hdisk hactive htold hwaiters hholder
    refine ⟨?_, htold, ?_, ?_⟩
    · rw [hdisk, hactive]
      exact hs.stored
    · intro w hw
      rw [hwaiters, hs.waiters] at hw
      cases hw
    · intro h' hh'
      obtain rfl := Option.some.inj (hholder.symm.trans hh')
      rcases hbase with ⟨f, hf⟩ | hbase
      · rw [hrest] at hf
        cases hf
      · rw [hdisk]
        refine ⟨fun ticket ht => ?_, fun _ => hbase, fun hne => absurd hbase.1 hne, hsends⟩
        rw [hticket] at ht
        cases ht
  unfold proceed
  split
  · next f hrest =>
      rw [hrest, Async.returns_ret] at hsends
      exact onDisk_finish hs hgen hholds hsends
  · next hrest =>
      refine hstay hrest _ rfl rfl ⟨?_, hs.told.settled⟩ rfl rfl
      intro h' hh'
      rcases List.mem_cons.mp hh' with rfl | hh'
      · rcases hbase with ⟨f, hf⟩ | hbase
        · rw [hrest] at hf
          cases hf
        · exact hbase.2
      · exact hs.told.submitted h' hh'
  · next _ hrest => exact hstay hrest _ rfl rfl ⟨hs.told.submitted, hs.told.settled⟩ rfl rfl

theorem onDisk_startJob {seed : Seed} {job : Job C} (hs : s.Between) (hholder : s.holder = none)
    (hgen : s.lockHolderGen = s.sessionGen) : (s.startJob true seed job).OnDisk := by
  cases job with
  | newIdentity i deviceState =>
      unfold startJob
      refine onDisk_proceed hs hgen rfl (fun c hc => by cases hc) (.inl ⟨_, rfl⟩) ?_
      exact Async.returns_ret.mpr trivial
  | call i work =>
      simp only [startJob]
      split
      · exact onDisk_deliver hs hholder _ _
      · next cell hcache =>
          have hbetween : ∀ entry, ({ s with started := entry :: s.started } : Session C).Between :=
            fun _ => ⟨hs.stored, ⟨hs.told.submitted, hs.told.settled⟩, hs.waiters⟩
          have hsound := work.sound seed ⟨cell.state, s.ownCredential⟩
          split
          · next f hstart =>
              rw [hstart] at hsound
              refine onDisk_proceed (hbetween _) hgen rfl (fun c hc => by cases hc) (.inl ⟨f, rfl⟩) ?_
              exact Async.returns_ret.mpr (Holder.sends_of_sound rfl hsound)
          · next sub rest hstart =>
              rw [hstart] at hsound
              obtain ⟨hcomputed, codec, rfl⟩ := hsound
              refine onDisk_awaitDurable (hbetween _) ?_ rfl rfl (fun hne => absurd rfl hne) ?_
              · exact Option.isSome_iff_exists.mpr ⟨cell, hcache⟩
              · exact (submitPlan_sound hcomputed).weaken fun _ _ _ hf =>
                  Holder.sends_of_sound rfl hf

theorem Between.dequeue (hs : s.Between) (queue : List (Queued C)) (lockHolderGen : ℕ) :
    ({ s with queue, lockHolderGen } : Session C).Between :=
  ⟨hs.stored, ⟨hs.told.submitted, hs.told.settled⟩, hs.waiters⟩

theorem OnDisk.refuses (hs : s.OnDisk) {next : Queued C} {queue : List (Queued C)}
    (hholder : s.holder = none) :
    (({ s with queue } : Session C).deliver next.job.caller (.error accountSwitched)).OnDisk := by
  have hfree : ({ s with queue } : Session C).Between :=
    Between.dequeue (hs.between fun h ticket hh => by rw [hholder] at hh; cases hh) queue _
  exact onDisk_deliver hfree hholder _ _

theorem OnDisk.starts (hs : s.OnDisk) {seed : Seed} {next : Queued C} {queue : List (Queued C)}
    (hholder : s.holder = none) (hgen : next.gen = s.sessionGen) :
    (({ s with queue, lockHolderGen := next.gen } : Session C).startJob true seed
      next.job).OnDisk := by
  have hfree : ({ s with queue, lockHolderGen := next.gen } : Session C).Between :=
    Between.dequeue (hs.between fun h ticket hh => by rw [hholder] at hh; cases hh) queue _
  exact onDisk_startJob hfree hholder hgen

/-- The promise it awaited has settled, so nothing of the work is under way. -/
theorem OnDisk.settledTicket (hs : s.OnDisk) (hholder : s.holder = some h)
    {r : Except Error Unit} (hr : h.ticket.bind s.promises = some r) : s.Between := by
  refine hs.between fun h' ticket hh' hticket => ?_
  cases hholder.symm.trans hh'
  rw [hticket] at hr
  exact fun hnone => absurd (hr.symm.trans hnone) (by simp)

theorem OnDisk.resumes (hs : s.OnDisk) (hi : s.Inv) (hholder : s.holder = some h) {done : Unit}
    (hok : h.ticket.bind s.promises = some (.ok done)) :
    (s.proceed true { h with ticket := none }).OnDisk := by
  obtain ⟨hticketed, hrunning, hreturning, hsends⟩ := hs.relies h hholder
  obtain ⟨ticket, hticket, hpromise⟩ := Option.bind_eq_some_iff.mp hok
  have hdue := (hticketed ticket hticket).2 hpromise
  have hcommitted : ∀ c, h.committed = some c → s.disk.Holds h.gen c.version := by
    intro c hc
    simpa [Holder.due, hc] using hdue
  refine onDisk_proceed (hs.settledTicket hholder hok) (hi.holding h hholder).gen rfl hcommitted ?_
    hsends
  by_cases hnone : h.committed = none
  · right
    refine ⟨hnone, ?_⟩
    simpa [Holder.due, hnone] using hdue
  · exact .inl (hreturning hnone)

/-- Work that awaits an answer goes on with it. -/
theorem OnDisk.goesOn (hs : s.OnDisk) (hi : s.Inv) (hholder : s.holder = some h)
    (hticket : h.ticket = none) {rest : Section State}
    (hrest : ∀ P, h.rest.Returns P → rest.Returns P) :
    (s.proceed true { h with rest := rest }).OnDisk := by
  obtain ⟨-, hrunning, -, hsends⟩ := hs.relies h hholder
  obtain ⟨hnone, hholds⟩ := hrunning hticket
  have hbetween : s.Between := hs.between fun h' ticket hh' ht => by
    cases hholder.symm.trans hh'
    rw [hticket] at ht
    cases ht
  refine onDisk_proceed hbetween (hi.holding h hholder).gen hticket ?_ (.inr ⟨hnone, hholds⟩)
    (hrest _ hsends)
  intro c hc
  exact absurd (hnone.symm.trans hc) (by simp)

/-! ## Everything else -/

theorem OnDisk.ensureIdentity (hs : s.OnDisk) (user : Option UserId) :
    (s.ensureIdentity user).1.OnDisk := by
  have hreset : (if s.switches user then s.resetForUser user else s).OnDisk := by
    split_ifs
    · exact hs.resetForUser user
    · exact hs
  simp only [Session.ensureIdentity]
  split
  · exact hreset
  · exact hreset
  · exact hreset.frame rfl rfl rfl rfl rfl

theorem OnDisk.adopt (hs : s.OnDisk) (hempty : s.deviceStateCache = none) (i : ℕ)
    (user : Option UserId) (state : State) : (s.adopt i user state).OnDisk := by
  have hstored := stored_adopt hs.stored hempty i user state
  unfold Session.adopt at hstored ⊢
  split
  · exact hs.frame rfl rfl rfl rfl rfl
  · split_ifs
    · exact hs.frame rfl rfl rfl rfl rfl
    · next credential hcredential hother =>
        simp only [hcredential, if_neg hother] at hstored
        have hgrows : s.disk.saved ⊆ s.disk.saved ∧
            s.loads ⊆ (s.sessionGen, s.stateVersion + 1) :: s.loads :=
          ⟨List.Subset.refl _, List.subset_cons_self _ _⟩
        exact ⟨hstored, hs.told.later hgrows rfl rfl, hs.held, fun h hh =>
          (hs.relies h hh).later hgrows (Nat.le_refl _) fun _ _ hok => .inl hok⟩

theorem OnDisk.initializes (hs : s.OnDisk) (hi : s.Inv) {i : ℕ} {init : Init State}
    (hinit : s.inits[i]? = some init) (hbefore : s.core.Before i) (h : Initializes s i init t) :
    t.OnDisk := by
  cases h with
  | fails error => exact hs.frame rfl rfl rfl rfl rfl
  | adopts state hgen =>
      obtain ⟨init', hinit', hactive, -⟩ := id hbefore
      cases hinit.symm.trans hinit'
      exact hs.adopt (hi.lock.empty i init hinit hgen hactive (hi.busy_ne hbefore)) _ _ _
  | registers deviceIds attempt uuid seed => exact hs.frame rfl rfl rfl rfl rfl
  | locks hphase hgen => exact hs.frame rfl rfl rfl rfl rfl
  | forgotten error hgen => exact hs.frame rfl rfl rfl rfl rfl
  | rejected error => exact hs.frame rfl rfl rfl rfl rfl

theorem OnDisk.scheduleHeal (hs : s.OnDisk) (groupId : GroupId) :
    (s.scheduleHeal groupId).OnDisk := by
  unfold Session.scheduleHeal
  split
  · split_ifs
    · exact hs
    · exact hs.frame rfl rfl rfl rfl rfl
  · exact hs

theorem OnDisk.noteCurrentEpochFailure (hs : s.OnDisk) (groupId : GroupId) :
    (s.noteCurrentEpochFailure groupId).OnDisk := by
  simp only [Session.noteCurrentEpochFailure]
  split_ifs
  · exact (hs.setBooks _).scheduleHeal groupId
  · exact hs.setBooks _

theorem OnDisk.prepared (hs : s.OnDisk) {user : Option UserId} (h : Prepared s user t) :
    t.OnDisk := by
  cases h with
  | same => exact hs
  | identity => exact hs.ensureIdentity user
  | books books => exact hs.setBooks books
  | heal groupId => exact hs.scheduleHeal groupId
  | failure groupId => exact hs.noteCurrentEpochFailure groupId

theorem OnDisk.step (hs : s.OnDisk) (hi : s.Inv) {input : Input State}
    (hstep : s.step codec true input = some t) : t.OnDisk := by
  cases step_cases hstep with
  | called user routes function => exact hs.frame rfl rfl rfl rfl rfl
  | noted books => exact hs.setBooks books
  | reset user => exact hs.resetForUser user
  | goesOn hcall hrest hu huser hgoes hanswer => exact (hs.prepared hu).setCall _ _
  | waits hcall hu huser hrest => exact (hs.prepared hu).setCall _ _
  | locks hcall hrest => exact hs.frame rfl rfl rfl rfl rfl
  | lapses healTimers => exact hs.frame rfl rfl rfl rfl rfl
  | heals healTimers htimer => exact hs.frame rfl rfl rfl rfl rfl
  | refuses hholder hqueue => exact hs.refuses hholder
  | starts hholder hqueue hgen => exact hs.starts hholder hgen
  | resumes hholder hok => exact hs.resumes hi hholder hok
  | throws hholder herror => exact onDisk_throw (hs.settledTicket hholder herror) _
  | answered hholder hticket hrest =>
      exact hs.goesOn hi hholder hticket fun _ h => h.answer hrest _
  | slept hholder hticket hrest => exact hs.goesOn hi hholder hticket fun _ h => h.answer hrest _
  | loads hinit hbefore h => exact hs.initializes hi hinit hbefore h
  | registers hinit hbefore h => exact hs.initializes hi hinit hbefore h
  | catches hinit hbefore h => exact hs.initializes hi hinit hbefore h
  | saves h => exact hs.saveReturned h
  | ticks => exact hs.frame rfl rfl rfl rfl rfl

end Session

/-! ## Ciphertexts -/

/-- Lock work of this call has returned the ciphertext. -/
def Answered (i : ℕ) (settled : Set (Settled State)) (bytes : Bytes) : Prop :=
  ∃ e ∈ settled, e.work.caller = .call i ∧ e.result = .ok (.ciphertext bytes)

def Hears (i : ℕ) (settled : Set (Settled State)) : (o : CallOp C) → o.Result → Prop
  | .withStateLock _, r => ∀ bytes, r = .ok (.ciphertext bytes) → Answered i settled bytes
  | _, _ => True

/-- A call hears of a ciphertext from its own lock work only. -/
def hearing (C : Crypto State) (i : ℕ) :
    Async.Contract (Set (Settled State)) (CallOp C) CallOp.Result where
  pre _ _ := True
  post settled o r := Hears i settled o r
  pre_mono _ _ := trivial

/-- A ciphertext that a call returns is one its lock work has returned. -/
def Passes (codec : Codec) (i : ℕ) (settled : Set (Settled State))
    (r : Except Error CallResult) : Prop :=
  ∀ text, r = .ok (.ciphertext text) → ∃ bytes, text = codec.toB64 bytes ∧ Answered i settled bytes

theorem Passes.later {i : ℕ} {settled settled' : Set (Settled State)}
    {r : Except Error CallResult} (hle : settled ≤ settled') (h : Passes codec i settled r) :
    Passes codec i settled' r := by
  intro text hr
  obtain ⟨bytes, htext, e, he, hcaller⟩ := h text hr
  exact ⟨bytes, htext, e, hle he, hcaller⟩

theorem encryptGroup_safe (i : ℕ) (settled : Set (Settled State)) (groupId : GroupId)
    (plaintext : String) :
    (encryptGroup codec groupId plaintext : CallM C String).run.Safe (hearing C i)
      (fun settled r => ∀ text, r = .ok text →
        ∃ bytes, text = codec.toB64 bytes ∧ Answered i settled bytes) settled := by
  have hthrown : ∀ (settled : Set (Settled State)) (e : Error) (text : String),
      (.error e : Except Error String) = .ok text →
        ∃ bytes, text = codec.toB64 bytes ∧ Answered i settled bytes := by
    intro _ e text h
    cases h
  refine Async.Safe.run_bind (P := fun _ _ => True) ⟨trivial, fun _ _ _ _ => trivial⟩ ?_
    fun y _ e _ => hthrown y e
  intro y _ _ _
  refine Async.Safe.run_bind (P := fun settled (r : Except Error LockResult) =>
    ∀ bytes, r = .ok (.ciphertext bytes) → Answered i settled bytes) ⟨trivial, fun _ _ r hr => hr⟩ ?_ fun y _ e _ => hthrown y e
  intro z _ r hr
  cases r with
  | ciphertext bytes =>
      intro text htext
      cases htext
      exact ⟨bytes, rfl, hr bytes rfl⟩
  | _ => exact hthrown z _

/-- Only `encrypt` returns a ciphertext. -/
theorem program_safe (i : ℕ) (settled : Set (Settled State)) (user : Option UserId)
    (routes : Routes) (function : PublicCall) :
    (function.program codec user routes : CallM C CallResult).run.Safe (hearing C i)
      (Passes codec i) settled := by
  have hother : ∀ {α : Type} (m : CallM C α) (f : α → CallResult),
      (∀ a text, f a ≠ .ciphertext text) →
        (m >>= fun a => pure (f a)).run.Safe (hearing C i) (Passes codec i) settled := by
    intro α m f hf
    refine Async.Returns.safe (P := fun r => ∀ text, r ≠ .ok (.ciphertext text))
      (Async.Returns.of_run_bind (fun a => ?_) fun e text h => by cases h) (fun _ _ => trivial) ?_
    · rw [ExceptT.run_pure, Async.pure_eq, Async.returns_ret]
      intro text h
      exact hf a text (Except.ok.inj h)
    · intro _ r hr text h
      exact absurd h (hr text)
  have hcontext : ∀ (ctx : Context) (m : CallM C Unit),
      (withContext ctx m).run.Safe (hearing C i) (Passes codec i) settled := by
    intro ctx m
    have h := hother (do await (.setContext ctx); m) (fun _ => .done) fun _ _ h => by cases h
    exact h
  cases function with
  | encrypt groupId plaintext =>
      refine Async.Safe.run_bind (encryptGroup_safe i settled groupId plaintext) ?_ ?_
      · intro y _ text htext text' h
        cases h
        exact htext text rfl
      · intro y _ e _ text h
        cases h
  | ensureDmGroup other convId => exact hcontext _ _
  | ensureChannelGroup orgId chanId => exact hcontext _ _
  | ensureEventGroup orgId eventId => exact hcontext _ _
  | ensureIdentity => exact hother _ (fun _ => .done) fun _ _ h => by cases h
  | healOrgEncryption orgId force => exact hother _ .healed fun _ _ h => by cases h
  | decrypt groupId ciphertextB64 isOwnAccount =>
      exact hother _ .plaintext fun _ _ h => by cases h
  | handleWelcome groupId welcomeB64 => exact hother _ (fun _ => .done) fun _ _ h => by cases h
  | handleCommit groupId commitB64 => exact hother _ (fun _ => .done) fun _ _ h => by cases h
  | syncChannelGroupEpoch orgId chanId =>
      exact hother _ (fun _ => .done) fun _ _ h => by cases h
  | syncEventGroupEpoch orgId eventId =>
      exact hother _ (fun _ => .done) fun _ _ h => by cases h
  | exportGroupSecret groupId label length => exact hother _ .bytes fun _ _ h => by cases h
  | signBytes messageBytes => exact hother _ .bytes fun _ _ h => by cases h

theorem healProgram_safe (i : ℕ) (settled : Set (Settled State)) (user : UserId) (ctx : Context) :
    (healProgram codec user ctx : CallM C CallResult).run.Safe (hearing C i) (Passes codec i)
      settled := by
  refine Async.Returns.safe (P := fun r => ∀ text, r ≠ .ok (.ciphertext text))
    (Async.Returns.of_run_bind (fun a => ?_) fun e text h => by cases h) (fun _ _ => trivial) ?_
  · rw [ExceptT.run_pure, Async.pure_eq, Async.returns_ret]
    intro text h
    cases h
  · intro _ r hr text h
    exact absurd h (hr text)

/-- Every call is on its way to return only ciphertexts its lock work has returned. -/
def Session.Calling (codec : Codec) (s : Session C) : Prop :=
  ∀ (i : ℕ) call, s.calls[i]? = some call →
    call.rest.Safe (hearing C i) (Passes codec i) {e | e ∈ s.settled}

theorem Session.Calling.step {tauri : Bool} (hs : s.Calling codec) {input : Input State}
    (hstep : s.step codec tauri input = some t) : t.Calling codec := by
  intro i call hcall
  have hle : ({e | e ∈ s.settled} : Set (Settled State)) ≤ {e | e ∈ t.settled} :=
    settled_subset hstep
  cases callStep hstep i call hcall with
  | @stays old was user rest =>
      rw [rest]
      exact (hs i old was).later (fun hxy hx => hx.later hxy) hle
  | @goesOn old o k r was user awaited rest answer =>
      have hsafe := hs i old was
      rw [awaited, Async.safe_op] at hsafe
      rw [rest]
      refine hsafe.2 _ hle r ?_
      cases o with
      | withStateLock work =>
          intro bytes hr
          rcases answer with hswitched | ⟨e, he, hcaller, hresult⟩
          · rw [hswitched] at hr
            cases hr
          · exact ⟨e, he, hcaller, hresult.trans hr⟩
      | _ => trivial
  | called made is =>
      rw [is]
      exact program_safe i _ _ _ _
  | healed due is =>
      rw [is]
      exact healProgram_safe i _ _ _

/-! ## Runs -/

/-- In the desktop app nothing is told before it is on disk. -/
structure Durability (codec : Codec) (s : Session C) : Prop where
  /-- One `mls_save_state` at a time. -/
  one : s.inFlight.length ≤ 1
  sent : s.sent.Pairwise fun new old => old.gen = new.gen → old.version ≤ new.version
  saved : s.saved.Pairwise fun new old => old.gen = new.gen → old.version ≤ new.version
  resolved : ∀ p ∈ s.resolved, s.disk.Holds p.1 p.2
  /-- A writer that rests has left nobody waiting. -/
  idle : s.writerActive = false → s.durableWaiters = []
  submitted : ∀ h ∈ s.submitted, s.disk.Holds h.gen h.version
  /-- A call returns a ciphertext once the state its encryption left is on disk. -/
  returned : ∀ (i : ℕ) call text, s.calls[i]? = some call →
    call.rest = .ret (.ok (.ciphertext text)) →
      ∃ e ∈ s.settled, ∃ bytes c, e.work.caller = .call i ∧ text = codec.toB64 bytes ∧
        e.work.committed = some c ∧ e.work.Encrypted C c.state bytes ∧
        s.disk.Holds e.work.gen c.version

theorem durability {deviceIds : Option UserId → Option DeviceId} {inputs : List (Input State)}
    (hrun : (session C codec true).Run (.start C deviceIds) inputs s) : Durability codec s := by
  have hall : s.Inv ∧ s.OnDisk ∧ s.Calling codec := by
    refine hrun.invariant (P := fun s => s.Inv ∧ s.OnDisk ∧ s.Calling codec) ?_
      ⟨Session.inv_start deviceIds, Session.onDisk_start deviceIds, fun i call h => by cases h⟩
    intro s input t hs hstep
    exact ⟨hs.1.step hstep, hs.2.1.step hs.1 hstep, hs.2.2.step hstep⟩
  obtain ⟨-, hdisk, hcalling⟩ := hall
  have hwaiting := hdisk.stored.waiting
  have hsent : s.sent.Pairwise fun new old => old.gen = new.gen → old.version ≤ new.version := by
    refine List.Pairwise.imp ?_ hwaiting.ordered
    intro new old hle _
    exact hle
  refine ⟨hdisk.stored.one, hsent, ?_, hwaiting.resolved, hdisk.stored.idle, hdisk.told.submitted,
    ?_⟩
  · exact hsent.sublist ((List.sublist_append_right _ _).trans hwaiting.saved)
  · intro i call text hcall hrest
    have hpasses := hcalling i call hcall
    rw [hrest, Async.safe_ret] at hpasses
    obtain ⟨bytes, htext, e, he, hcaller, hresult⟩ := hpasses text rfl
    have hsettled := hdisk.told.settled e he
    obtain ⟨c, hcommitted, hencrypted⟩ := hsettled.ciphertext bytes hresult
    exact ⟨e, he, bytes, c, hcaller, htext, hcommitted, hencrypted,
      hsettled.holds _ c hresult hcommitted⟩

namespace OneGroup

/-- A message is encrypted and returned while a group is being created. -/
theorem durability_during_commit :
    Durability OneGroup.codec ((after true encryptDuringCommit).get (by decide)) :=
  durability (StepSystem.exec_eq_some_iff.mp (Option.some_get _).symm)

/-! A state that was loaded counts as durable: an own commit is submitted from it with
no save at all. -/

def submitLoaded : List (Input OneGroup) := encryptDuringCommit.take 14

theorem submitted_without_save :
    ∃ s, (session crypto OneGroup.codec true).Run (.start crypto noDeviceIds) submitLoaded s ∧
      s.submitted ≠ [] ∧ ∃ p ∈ s.resolved,
        ¬ ∃ save ∈ s.saved, save.durable = true ∧ save.gen = p.1 ∧ p.2 ≤ save.version := by
  refine ⟨(after true submitLoaded).get (by decide),
    StepSystem.exec_eq_some_iff.mp (Option.some_get _).symm, ?_, (0, 1), by decide, ?_⟩
  · have hlength : ((after true submitLoaded).get (by decide)).submitted.length = 1 := by decide
    intro hnil
    rw [hnil] at hlength
    cases hlength
  · have hnone : ((after true submitLoaded).get (by decide)).saved.length = 0 := by decide
    rintro ⟨save, hsave, -⟩
    rw [List.length_eq_zero_iff.mp hnone] at hsave
    cases hsave

end OneGroup

end SpecterComs.MlsSession
