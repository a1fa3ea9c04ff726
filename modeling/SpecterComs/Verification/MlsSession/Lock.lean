import SpecterComs.Model.MlsSession.Session

/-! # The variables the state lock guards

`Core` holds the cache with the lock and the initializations that write to it. The
writer, the calls and the bookkeeping leave it as it is.
-/

namespace SpecterComs.MlsSession

variable {State : Type} {C : Crypto State}

structure Core (C : Crypto State) where
  deviceStateCache : Option (Cell State)
  sessionGen : ℕ
  lockHolderGen : ℕ
  queue : List (Queued C)
  identityPromise : Option ℕ
  inits : List (Init State)
  writes : List (Write State)

/-- The core with what account switches depend on besides. -/
structure Shell (C : Crypto State) where
  core : Core C
  holder : Option (Holder State)
  boundUserId : Option UserId
  started : List (Started State)
  users : List (Option UserId)

namespace Session

def core (s : Session C) : Core C where
  deviceStateCache := s.deviceStateCache
  sessionGen := s.sessionGen
  lockHolderGen := s.lockHolderGen
  queue := s.queue
  identityPromise := s.identityPromise
  inits := s.inits
  writes := s.writes

def shell (s : Session C) : Shell C where
  core := s.core
  holder := s.holder
  boundUserId := s.boundUserId
  started := s.started
  users := s.calls.map Call.user

variable {tauri : Bool} {s : Session C}

/-! ## What leaves the shell -/

@[simp] theorem writerPass_shell : s.writerPass.shell = s.shell := by
  simp only [writerPass]
  split_ifs
  · rfl
  · split
    · rfl
    · rfl

@[simp] theorem schedulePersist_shell : (s.schedulePersist tauri).shell = s.shell := by
  unfold schedulePersist
  split_ifs
  · rfl
  · exact writerPass_shell

@[simp] theorem settle_shell {waiters : List Waiter} {result : Except Error Unit} :
    (s.settle waiters result).shell = s.shell := rfl

@[simp] theorem waitDurable_shell {version : ℕ} :
    (s.waitDurable tauri version).1.shell = s.shell := by
  simp only [waitDurable]
  split_ifs
  · rfl
  · exact schedulePersist_shell

@[simp] theorem saveAccepted_shell {save : Save State} :
    (s.saveAccepted save).shell = s.shell := by
  simp only [saveAccepted]
  split_ifs
  · simp only [writerPass_shell, settle_shell]
    rfl
  · simp only [writerPass_shell]
    rfl

@[simp] theorem setBooks_shell {books : Books} : (s.setBooks books).shell = s.shell := rfl

variable {groupId : GroupId}

@[simp] theorem scheduleHeal_shell : (s.scheduleHeal groupId).shell = s.shell := by
  unfold scheduleHeal
  split
  · split_ifs
    · rfl
    · rfl
  · rfl

@[simp] theorem noteCurrentEpochFailure_shell :
    (s.noteCurrentEpochFailure groupId).shell = s.shell := by
  simp only [noteCurrentEpochFailure]
  split_ifs
  · rw [scheduleHeal_shell, setBooks_shell]
  · rfl

/-- A call that goes on stays the same user's. -/
theorem setCall_shell {i : ℕ} {old call : Call C} (hold : s.calls[i]? = some old)
    (huser : call.user = old.user) : (s.setCall i call).shell = s.shell := by
  have husers : (s.calls.set i call).map Call.user = s.calls.map Call.user := by
    apply List.ext_getElem?
    intro j
    rw [List.getElem?_map, List.getElem?_map, List.getElem?_set]
    split_ifs with hij hlt
    · subst hij
      simp [hold, huser]
    · subst hij
      cases (List.getElem?_eq_some_iff.mp hold).1.not_ge (Nat.le_of_not_lt hlt)
    · rfl
  change Shell.mk s.core s.holder s.boundUserId s.started ((s.calls.set i call).map Call.user) = _
  rw [husers]
  rfl

end Session

/-! ## The invariant -/

/-- Each assignment replaced what the one before it had left. -/
def Chained : List (Write State) → Option (Cell State) → Prop
  | [], cache => cache = none
  | w :: rest, cache => w.new = cache ∧ Chained rest w.replaced

/-- A committed state was computed from the object it replaced. -/
def Write.Sound (C : Crypto State) (w : Write State) : Prop :=
  match w.origin with
  | .reset => w.new = none
  | .dropped => w.new = none
  | .loaded => w.replaced = none ∧ w.new.isSome
  | .committed _ base =>
      base = w.replaced ∧
        ∃ cell, w.new = some cell ∧ ∀ b, base = some b → C.Computes b.state cell.state

/-- The initialization has not settled. -/
def InitPhase.Active : InitPhase State → Prop
  | .loading => True
  | .registering _ _ _ => True
  | .locking _ => True
  | .done => False
  | .failing _ => True
  | .rejected _ => False

/-- The initialization whose identity a job commits. -/
def Job.init? : Job C → Option ℕ
  | .call _ _ => none
  | .newIdentity i _ => some i

def Caller.init? : Caller → Option ℕ
  | .call _ => none
  | .init i => some i

/-- What the core keeps. `busy` is the initialization whose lock work is out of the queue
and not yet settled. -/
structure Lock (c : Core C) (busy : Option ℕ) : Prop where
  chained : Chained c.writes c.deviceStateCache
  sound : ∀ w ∈ c.writes, w.Sound C
  gens : ∀ (j : ℕ) init, c.inits[j]? = some init → init.gen ≤ c.sessionGen
  queue_gens : ∀ q ∈ c.queue, q.gen ≤ c.sessionGen
  /-- A session initializes once at a time. -/
  owned : ∀ (j : ℕ) init, c.inits[j]? = some init → init.gen = c.sessionGen →
    init.phase.Active → c.identityPromise = some j
  /-- Until its identity is committed there is no state. -/
  empty : ∀ (j : ℕ) init, c.inits[j]? = some init → init.gen = c.sessionGen →
    init.phase.Active → busy ≠ some j → c.deviceStateCache = none
  queued : ∀ q ∈ c.queue, ∀ j, q.job.init? = some j →
    busy ≠ some j ∧ ∃ user credential, c.inits[j]? = some ⟨user, q.gen, .locking credential⟩
  distinct : (c.queue.filterMap fun q => q.job.init?).Nodup

/-- What holds of the lock work that runs, in a state whose core is `c`. -/
structure Holding (c : Core C) (h : Holder State) : Prop where
  gen : c.lockHolderGen = h.gen
  le : h.gen ≤ c.sessionGen
  init : ∀ j, h.caller = .init j →
    ∃ user credential, c.inits[j]? = some ⟨user, h.gen, .locking credential⟩
  call : ∀ i, h.caller = .call i → h.base.isSome
  /-- What it read is still the cache. -/
  reads : h.committed = none → h.gen = c.sessionGen → h.base = c.deviceStateCache
  computed : h.rest.Returns fun f => ∀ t ∈ f.state?,
    h.committed = none ∧ ∀ b, h.base = some b → C.Computes b.state t

def busyOf (h : Option (Holder State)) : Option ℕ :=
  h.bind fun h => h.caller.init?

structure Session.Inv (s : Session C) : Prop where
  lock : Lock s.core (busyOf s.holder)
  holding : ∀ h, s.holder = some h → Holding s.core h

/-! ## Moves of the core -/

def Core.setPhase (c : Core C) (i : ℕ) (phase : InitPhase State) : Core C :=
  { c with inits := c.inits.modify i fun init => { init with phase } }

def Core.assign (c : Core C) (origin : Origin State) (new : Option (Cell State)) : Core C :=
  let write : Write State := ⟨c.sessionGen, c.deviceStateCache, new, origin⟩
  { c with
    deviceStateCache := new
    writes := write :: c.writes }

def Core.reset (c : Core C) : Core C :=
  { c.assign .reset none with
    sessionGen := c.sessionGen + 1
    identityPromise := none }

variable {i j : ℕ} {c : Core C} {phase : InitPhase State}

@[simp] theorem Core.setPhase_inits :
    (c.setPhase i phase).inits[j]? =
      (c.inits[j]?).map fun init => if i = j then { init with phase } else init := by
  rw [Core.setPhase, List.getElem?_modify]
  rfl

variable {init : Init State}

/-- An initialization seen after a phase was set is the old one, or has that phase. -/
theorem Core.setPhase_cases (h : (c.setPhase i phase).inits[j]? = some init) :
    ∃ old, c.inits[j]? = some old ∧ init.gen = old.gen ∧ init.user = old.user ∧
      (j = i ∧ init.phase = phase ∨ j ≠ i ∧ init = old) := by
  rw [setPhase_inits, Option.map_eq_some_iff] at h
  obtain ⟨old, hold, rfl⟩ := h
  refine ⟨old, hold, ?_⟩
  by_cases hj : i = j
  · simp [hj]
  · simp [hj, Ne.symm hj]

theorem Core.setPhase_ne (h : j ≠ i) : (c.setPhase i phase).inits[j]? = c.inits[j]? := by
  rw [setPhase_inits]
  simp [Ne.symm h]

/-- The index of an initialization that is not at the lock. -/
def Core.Before (c : Core C) (i : ℕ) : Prop :=
  ∃ init, c.inits[i]? = some init ∧ init.phase.Active ∧
    ∀ credential, init.phase ≠ .locking credential

variable {c : Core C} {busy : Option ℕ} {h : Holder State}

theorem Lock.not_queued (hl : Lock c busy) (hi : c.Before i) :
    ∀ q ∈ c.queue, q.job.init? ≠ some i := by
  obtain ⟨init, hinit, -, hphase⟩ := hi
  intro q hq hjob
  obtain ⟨-, user, credential, hlocking⟩ := hl.queued q hq i hjob
  rw [hinit] at hlocking
  cases hlocking
  exact hphase credential rfl

theorem Holding.not_before (hh : Holding c h) (hi : c.Before i) : h.caller ≠ .init i := by
  obtain ⟨init, hinit, -, hphase⟩ := hi
  intro hcaller
  obtain ⟨user, credential, hlocking⟩ := hh.init i hcaller
  rw [hinit] at hlocking
  cases hlocking
  exact hphase credential rfl

theorem Lock.reset (hl : Lock c busy) : Lock c.reset busy where
  chained := ⟨rfl, hl.chained⟩
  sound w hw := by
    rcases List.mem_cons.mp hw with rfl | hw
    · rfl
    · exact hl.sound w hw
  gens j init hj := (hl.gens j init hj).trans (Nat.le_succ _)
  queue_gens q hq := (hl.queue_gens q hq).trans (Nat.le_succ _)
  owned j init hj hgen _ := by
    have := hl.gens j init hj
    have : init.gen = c.sessionGen + 1 := hgen
    omega
  empty _ _ _ _ _ _ := rfl
  queued := hl.queued
  distinct := hl.distinct

theorem Holding.reset (hh : Holding c h) : Holding c.reset h where
  gen := hh.gen
  le := hh.le.trans (Nat.le_succ _)
  init := hh.init
  call := hh.call
  reads _ hgen := by
    have := hh.le
    have : h.gen = c.sessionGen + 1 := hgen
    omega
  computed := hh.computed

/-- An initialization moves on outside the lock. -/
theorem Lock.setPhase (hl : Lock c busy) (hi : c.Before i) :
    Lock (c.setPhase i phase) busy where
  chained := hl.chained
  sound := hl.sound
  gens j init hj := by
    obtain ⟨old, hold, hgen, -⟩ := Core.setPhase_cases hj
    rw [hgen]
    exact hl.gens j old hold
  queue_gens := hl.queue_gens
  owned j init hj hgen hactive := by
    obtain ⟨old, hold, hold_gen, -, ⟨rfl, -⟩ | ⟨-, rfl⟩⟩ := Core.setPhase_cases hj
    · obtain ⟨before, hbefore, hbefore_active, -⟩ := hi
      cases hold.symm.trans hbefore
      exact hl.owned j old hold (hold_gen ▸ hgen) hbefore_active
    · exact hl.owned j init hold hgen hactive
  empty j init hj hgen hactive hbusy := by
    obtain ⟨old, hold, hold_gen, -, ⟨rfl, -⟩ | ⟨-, rfl⟩⟩ := Core.setPhase_cases hj
    · obtain ⟨before, hbefore, hbefore_active, -⟩ := hi
      cases hold.symm.trans hbefore
      exact hl.empty j old hold (hold_gen ▸ hgen) hbefore_active hbusy
    · exact hl.empty j init hold hgen hactive hbusy
  queued q hq j hjob := by
    obtain ⟨hbusy, user, credential, hlocking⟩ := hl.queued q hq j hjob
    have hne : j ≠ i := by
      rintro rfl
      exact hl.not_queued hi q hq hjob
    refine ⟨hbusy, user, credential, ?_⟩
    rw [Core.setPhase_ne hne]
    exact hlocking
  distinct := hl.distinct

theorem Holding.setPhase (hh : Holding c h) (hi : c.Before i) : Holding (c.setPhase i phase) h where
  gen := hh.gen
  le := hh.le
  init j hj := by
    obtain ⟨user, credential, hlocking⟩ := hh.init j hj
    have hne : j ≠ i := by
      rintro rfl
      exact hh.not_before hi hj
    refine ⟨user, credential, ?_⟩
    rw [Core.setPhase_ne hne]
    exact hlocking
  call := hh.call
  reads := hh.reads
  computed := hh.computed

/-! ## The queue -/

theorem Lock.enqueueCall (hl : Lock c busy) (i : ℕ) (work : LockWork C) :
    Lock { c with queue := c.queue ++ [⟨c.sessionGen, .call i work⟩] } busy where
  chained := hl.chained
  sound := hl.sound
  gens := hl.gens
  queue_gens q hq := by
    rcases List.mem_append.mp hq with hq | hq
    · exact hl.queue_gens q hq
    · rw [List.mem_singleton.mp hq]
  owned := hl.owned
  empty := hl.empty
  queued q hq j hjob := by
    rcases List.mem_append.mp hq with hq | hq
    · exact hl.queued q hq j hjob
    · rw [List.mem_singleton.mp hq] at hjob
      cases hjob
  distinct := by
    simpa [Job.init?] using hl.distinct

/-- An initialization reaches the lock in its own session. -/
theorem Lock.enqueueIdentity (hl : Lock c busy) {credential : Label} {deviceState : State}
    (hinit : c.inits[i]? = some init) (hgen : init.gen = c.sessionGen) (hi : c.Before i)
    (hbusy : busy ≠ some i) :
    Lock { c.setPhase i (.locking credential) with
      queue := c.queue ++ [⟨c.sessionGen, .newIdentity i deviceState⟩] } busy := by
  have hp : Lock (c.setPhase i (.locking credential)) busy := hl.setPhase hi
  refine ⟨hp.chained, hp.sound, hp.gens, ?_, hp.owned, hp.empty, ?_, ?_⟩
  · intro q hq
    rcases List.mem_append.mp hq with hq | hq
    · exact hl.queue_gens q hq
    · rw [List.mem_singleton.mp hq]
      exact Nat.le_refl _
  · intro q hq j hjob
    rcases List.mem_append.mp hq with hq | hq
    · exact hp.queued q hq j hjob
    · rw [List.mem_singleton.mp hq] at hjob ⊢
      cases hjob
      refine ⟨hbusy, init.user, credential, ?_⟩
      simp [Core.setPhase_inits, hinit, hgen]
  · have hfresh : i ∉ c.queue.filterMap fun q => q.job.init? := by
      intro hmem
      obtain ⟨q, hq, hjob⟩ := List.mem_filterMap.mp hmem
      exact hl.not_queued hi q hq hjob
    have hdistinct := hl.distinct.append (List.nodup_singleton i)
      (by simpa [List.disjoint_singleton] using hfresh)
    simpa [Job.init?] using hdistinct

/-- The job whose turn it is leaves the queue. -/
theorem Lock.dequeue (hl : Lock c none) {next : Queued C} {rest : List (Queued C)}
    (hqueue : c.queue = next :: rest) : Lock { c with queue := rest } next.job.init? := by
  have hmem : ∀ q ∈ rest, q ∈ c.queue := by
    intro q hq
    rw [hqueue]
    exact List.mem_cons_of_mem _ hq
  have hdistinct := hl.distinct
  rw [hqueue] at hdistinct
  refine ⟨hl.chained, hl.sound, hl.gens, fun q hq => hl.queue_gens q (hmem q hq), hl.owned, ?_,
    ?_, ?_⟩
  · intro j init hj hgen hactive _
    exact hl.empty j init hj hgen hactive (by simp)
  · intro q hq j hjob
    refine ⟨?_, (hl.queued q (hmem q hq) j hjob).2⟩
    intro hnext
    simp only [List.filterMap_cons, hnext] at hdistinct
    exact (List.nodup_cons.mp hdistinct).1 (List.mem_filterMap.mpr ⟨q, hq, hjob⟩)
  · cases hnext : next.job.init? with
    | none => simpa only [List.filterMap_cons, hnext] using hdistinct
    | some j =>
        simp only [List.filterMap_cons, hnext] at hdistinct
        exact (List.nodup_cons.mp hdistinct).2

/-! ## Assignments of the cache -/

variable {cell : Cell State}

/-- The lock work of the current session is the only one that can commit. -/
theorem Lock.commit (hl : Lock c h.caller.init?) (hh : Holding c h) (user : Option UserId)
    (hcommitted : h.committed = none) (hgen : c.lockHolderGen = c.sessionGen)
    (hcomputed : ∀ b, h.base = some b → C.Computes b.state cell.state) :
    Lock (c.assign (.committed user h.base) (some cell)) h.caller.init? where
  chained := ⟨rfl, hl.chained⟩
  sound w hw := by
    rcases List.mem_cons.mp hw with rfl | hw
    · exact ⟨hh.reads hcommitted (hh.gen.symm.trans hgen), cell, rfl, hcomputed⟩
    · exact hl.sound w hw
  gens := hl.gens
  queue_gens := hl.queue_gens
  owned := hl.owned
  empty j init hj hinit hactive hbusy := by
    exfalso
    have hreads := hh.reads hcommitted (hh.gen.symm.trans hgen)
    cases hcaller : h.caller with
    | call i =>
        have hsome := hh.call i hcaller
        rw [hreads, hl.empty j init hj hinit hactive hbusy] at hsome
        cases hsome
    | init i =>
        obtain ⟨user, credential, hi⟩ := hh.init i hcaller
        have hown := hl.owned i _ hi (hh.gen.symm.trans hgen) trivial
        rw [hl.owned j init hj hinit hactive] at hown
        rw [hcaller] at hbusy
        exact hbusy hown.symm
  queued := hl.queued
  distinct := hl.distinct

/-- The initialization whose lock work settled. -/
theorem Lock.settled {i : ℕ} (hl : Lock c (some i)) (phase : InitPhase State) {init : Init State}
    (hinit : c.inits[i]? = some init) (hactive : init.phase.Active)
    (hphase : phase.Active → c.deviceStateCache = none) :
    Lock (c.setPhase i phase) none where
  chained := hl.chained
  sound := hl.sound
  gens j init hj := by
    obtain ⟨old, hold, hgen, -⟩ := Core.setPhase_cases hj
    rw [hgen]
    exact hl.gens j old hold
  queue_gens := hl.queue_gens
  owned j init hj hgen hnew := by
    obtain ⟨old, hold, hold_gen, -, ⟨rfl, -⟩ | ⟨-, rfl⟩⟩ := Core.setPhase_cases hj
    · rw [hinit] at hold
      cases hold
      exact hl.owned j _ hinit (hold_gen ▸ hgen) hactive
    · exact hl.owned j _ hold hgen hnew
  empty j init hj hgen hnew _ := by
    obtain ⟨old, hold, hold_gen, -, ⟨rfl, hnow⟩ | ⟨hne, rfl⟩⟩ := Core.setPhase_cases hj
    · exact hphase (hnow ▸ hnew)
    · exact hl.empty j init hold hgen hnew fun hi => hne (Option.some.inj hi).symm
  queued q hq j hjob := by
    obtain ⟨hbusy, user, credential, hlocking⟩ := hl.queued q hq j hjob
    refine ⟨by simp, user, credential, ?_⟩
    rw [Core.setPhase_ne fun hji => hbusy (congrArg some hji.symm)]
    exact hlocking
  distinct := hl.distinct

/-- An identity that could not be stored is dropped from the cache. -/
theorem Lock.dropped (hl : Lock c busy) : Lock (c.assign .dropped none) busy where
  chained := ⟨rfl, hl.chained⟩
  sound w hw := by
    rcases List.mem_cons.mp hw with rfl | hw
    · rfl
    · exact hl.sound w hw
  gens := hl.gens
  queue_gens := hl.queue_gens
  owned := hl.owned
  empty _ _ _ _ _ _ := rfl
  queued := hl.queued
  distinct := hl.distinct

/-- A loaded state finds the cache empty. -/
theorem Lock.loaded (hl : Lock c busy) (hinit : c.inits[i]? = some init)
    (hgen : init.gen = c.sessionGen) (hi : c.Before i) (hbusy : busy ≠ some i) :
    Lock ((c.assign .loaded (some cell)).setPhase i .done) busy := by
  have hactive : init.phase.Active := by
    obtain ⟨init', hinit', hactive, -⟩ := hi
    cases hinit.symm.trans hinit'
    exact hactive
  have hown := hl.owned i init hinit hgen hactive
  have hp : Lock (c.setPhase i .done) busy := hl.setPhase hi
  refine ⟨⟨rfl, hl.chained⟩, ?_, hp.gens, hl.queue_gens, hp.owned, ?_, hp.queued, hl.distinct⟩
  · intro w hw
    rcases List.mem_cons.mp hw with rfl | hw
    · exact ⟨hl.empty i init hinit hgen hactive hbusy, rfl⟩
    · exact hl.sound w hw
  · intro j other hj hother hnow _
    obtain ⟨old, hold, hold_gen, -, ⟨rfl, hphase⟩ | ⟨hne, rfl⟩⟩ := Core.setPhase_cases hj
    · rw [hphase] at hnow
      exact hnow.elim
    · have hsame := hl.owned j _ hold hother hnow
      rw [hown] at hsame
      exact absurd (Option.some.inj hsame).symm hne

theorem Holding.loaded (hl : Lock c (busyOf (some h))) (hh : Holding c h)
    (hinit : c.inits[i]? = some init) (hgen : init.gen = c.sessionGen) (hi : c.Before i) :
    Holding ((c.assign .loaded (some cell)).setPhase i .done) h := by
  have hp : Holding (c.setPhase i .done) h := hh.setPhase hi
  refine ⟨hh.gen, hh.le, hp.init, hh.call, ?_, hh.computed⟩
  intro hcommitted hsession
  exfalso
  obtain ⟨init', hinit', hactive, -⟩ := id hi
  cases hinit.symm.trans hinit'
  have hbusy : busyOf (some h) ≠ some i := by
    intro hbusy
    cases hcaller : h.caller with
    | call j => simp [busyOf, hcaller, Caller.init?] at hbusy
    | init j =>
        obtain rfl : j = i := by simpa [busyOf, hcaller, Caller.init?] using hbusy
        exact hh.not_before hi hcaller
  cases hcaller : h.caller with
  | call j =>
      have hsome := hh.call j hcaller
      rw [hh.reads hcommitted hsession, hl.empty i init hinit hgen hactive hbusy] at hsome
      cases hsome
  | init j =>
      obtain ⟨user, credential, hj⟩ := hh.init j hcaller
      have hown := hl.owned j _ hj hsession trivial
      rw [hl.owned i init hinit hgen hactive] at hown
      obtain rfl := Option.some.inj hown
      exact hh.not_before hi hcaller

/-! ## Initializations -/

/-- A session without an initialization may start one. -/
theorem Lock.begin (hl : Lock c busy) (user : Option UserId) (hcache : c.deviceStateCache = none)
    (hnone : c.identityPromise = none) :
    Lock { c with
      identityPromise := some c.inits.length
      inits := c.inits ++ [⟨user, c.sessionGen, .loading⟩] } busy := by
  have hcases : ∀ (j : ℕ) (init : Init State),
      (c.inits ++ [⟨user, c.sessionGen, .loading⟩])[j]? = some init →
        c.inits[j]? = some init ∨ j = c.inits.length ∧ init = ⟨user, c.sessionGen, .loading⟩ := by
    intro j init hj
    rcases Nat.lt_trichotomy j c.inits.length with hlt | rfl | hgt
    · rw [List.getElem?_append_left hlt] at hj
      exact .inl hj
    · rw [List.getElem?_concat_length] at hj
      exact .inr ⟨rfl, (Option.some.inj hj).symm⟩
    · rw [List.getElem?_eq_none (by simp; omega)] at hj
      cases hj
  refine ⟨hl.chained, hl.sound, ?_, hl.queue_gens, ?_, fun _ _ _ _ _ _ => hcache, ?_, hl.distinct⟩
  · intro j init hj
    rcases hcases j init hj with hj | ⟨-, rfl⟩
    · exact hl.gens j init hj
    · exact Nat.le_refl _
  · intro j init hj hgen hactive
    rcases hcases j init hj with hj | ⟨rfl, -⟩
    · have := hl.owned j init hj hgen hactive
      rw [hnone] at this
      cases this
    · rfl
  · intro q hq j hjob
    obtain ⟨hbusy, user', credential, hlocking⟩ := hl.queued q hq j hjob
    refine ⟨hbusy, user', credential, ?_⟩
    rw [List.getElem?_append_left (List.getElem?_eq_some_iff.mp hlocking).1]
    exact hlocking

theorem Holding.begin (hh : Holding c h) (init : Init State) (promise : Option ℕ) :
    Holding { c with
      identityPromise := promise
      inits := c.inits ++ [init] } h where
  gen := hh.gen
  le := hh.le
  init j hj := by
    obtain ⟨user, credential, hlocking⟩ := hh.init j hj
    refine ⟨user, credential, ?_⟩
    rw [List.getElem?_append_left (List.getElem?_eq_some_iff.mp hlocking).1]
    exact hlocking
  call := hh.call
  reads := hh.reads
  computed := hh.computed

/-- A failed initialization lets its session try again. -/
theorem Lock.caught (hl : Lock c busy) {error : Error} (hinit : c.inits[i]? = some init)
    (hgen : init.gen = c.sessionGen) (hi : c.Before i) :
    Lock { c.setPhase i (.rejected error) with identityPromise := none } busy := by
  have hp : Lock (c.setPhase i (.rejected error)) busy := hl.setPhase hi
  refine ⟨hp.chained, hp.sound, hp.gens, hp.queue_gens, ?_, hp.empty, hp.queued, hp.distinct⟩
  intro j other hj hother hactive
  exfalso
  obtain ⟨old, hold, -, -, ⟨rfl, hphase⟩ | ⟨hne, rfl⟩⟩ := Core.setPhase_cases hj
  · rw [hphase] at hactive
    exact hactive
  · obtain ⟨init', hinit', hwas, -⟩ := hi
    cases hinit.symm.trans hinit'
    have hown := hl.owned i init hinit hgen hwas
    rw [hl.owned j _ hold hother hactive] at hown
    exact hne (Option.some.inj hown)

/-- Nothing but these variables matters to the lock work that runs. -/
theorem Holding.of_eq {c' : Core C} (hh : Holding c h)
    (hlock : c'.lockHolderGen = c.lockHolderGen) (hgen : c'.sessionGen = c.sessionGen)
    (hinits : c'.inits = c.inits) (hcache : c'.deviceStateCache = c.deviceStateCache) :
    Holding c' h where
  gen := hlock.trans hh.gen
  le := hgen ▸ hh.le
  init := hinits ▸ hh.init
  call := hh.call
  reads := by
    rw [hgen, hcache]
    exact hh.reads
  computed := hh.computed

end SpecterComs.MlsSession
