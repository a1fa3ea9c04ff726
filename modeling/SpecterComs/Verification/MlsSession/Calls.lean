import SpecterComs.Verification.MlsSession.Lock

/-! # How calls go on

One step of the session leaves a call where it is, answers the operation it awaits, or
makes a new call.
-/

namespace SpecterComs.MlsSession

variable {State : Type} {C : Crypto State} {codec : Codec} {tauri : Bool} {s t : Session C}
  {h : Holder State}

/-- What a call may be told in a step from `s` to `t`. -/
def Answers (s t : Session C) (input : Input State) (i : ℕ) : (o : CallOp C) → o.Result → Prop
  | .withStateLock _, r =>
      r = .error accountSwitched ∨ ∃ e ∈ t.settled, e.work.caller = .call i ∧ e.result = r
  | .api request, r => ∃ answer, input = .reply i answer ∧ r = answer request
  | .deviceStateCache, r => r = s.deviceStateCache.map Cell.state
  | .getContext groupId, r => r = s.books.groupCtx groupId
  | _, _ => True

/-- Where a call of `t` comes from. -/
inductive CallStep (codec : Codec) (s t : Session C) (input : Input State) (i : ℕ)
    (call' : Call C) : Prop
  | stays {call} (was : s.calls[i]? = some call) (user : call'.user = call.user)
      (rest : call'.rest = call.rest)
  | goesOn {call o k r} (was : s.calls[i]? = some call) (user : call'.user = call.user)
      (awaited : call.rest = .op o k) (rest : call'.rest = k r) (answer : Answers s t input i o r)
  | called {user routes function} (made : input = .call user routes function)
      (is : call' = ⟨user, (function.program codec user routes).run, .nothing⟩)
  | healed {k : ℕ} {timer : HealTimer} (due : s.healTimers[k]? = some timer)
      (is : call' = ⟨some timer.user, (healProgram codec timer.user timer.ctx).run, .nothing⟩)

namespace Session

/-! ## What a step does -/

/-- What a call does to the rest of the session before it goes on. -/
inductive Prepared (s : Session C) (user : Option UserId) : Session C → Prop
  | same : Prepared s user s
  | identity : Prepared s user (s.ensureIdentity user).1
  | books (books : Books) : Prepared s user (s.setBooks books)
  | heal (groupId : GroupId) : Prepared s user (s.scheduleHeal groupId)
  | failure (groupId : GroupId) : Prepared s user (s.noteCurrentEpochFailure groupId)

/-- How an initialization goes on outside the lock. -/
inductive Initializes (s : Session C) (i : ℕ) (init : Init State) : Session C → Prop
  | fails (error : Error) : Initializes s i init (s.setPhase i (.failing error))
  | adopts (state : State) (hgen : init.gen = s.sessionGen) :
      Initializes s i init (s.adopt i init.user state)
  | registers (deviceIds : Option UserId → Option DeviceId) (attempt : ℕ) (uuid : DeviceId)
      (seed : Seed) :
      Initializes s i init
        (({ s with deviceIds } : Session C).registerDevice C i attempt init.user uuid seed)
  | locks {attempt deviceState credential}
      (hphase : init.phase = .registering attempt deviceState credential)
      (hgen : init.gen = s.sessionGen) :
      Initializes s i init { s.setPhase i (.locking credential) with
        queue := s.queue ++ [⟨s.sessionGen, .newIdentity i deviceState⟩] }
  | forgotten (error : Error) (hgen : init.gen = s.sessionGen) :
      Initializes s i init { s.setPhase i (.rejected error) with identityPromise := none }
  | rejected (error : Error) : Initializes s i init (s.setPhase i (.rejected error))

/-- A call, an initialization, the lock work or the writer goes on. -/
inductive Stepped (codec : Codec) (tauri : Bool) (s : Session C) : Input State → Session C → Prop
  | called (user : Option UserId) (routes : Routes) (function : PublicCall) :
      Stepped codec tauri s (.call user routes function)
        (s.addCall user (function.program codec user routes))
  | noted {groupId plaintext} (books : Books) :
      Stepped codec tauri s (.notePendingSent groupId plaintext) (s.setBooks books)
  | reset (user : Option UserId) :
      Stepped codec tauri s (.resetForUser user) (s.resetForUser user)
  | goesOn {input : Input State} {i : ℕ} {call call' : Call C} {o k r} {u : Session C}
      (hcall : s.calls[i]? = some call) (hrest : call.rest = .op o k)
      (hu : Prepared s call.user u) (huser : call'.user = call.user) (hgoes : call'.rest = k r)
      (hanswer : ∀ t, Answers s t input i o r) : Stepped codec tauri s input (u.setCall i call')
  | waits {i : ℕ} {call call' : Call C} {u : Session C} (hcall : s.calls[i]? = some call)
      (hu : Prepared s call.user u) (huser : call'.user = call.user)
      (hrest : call'.rest = call.rest) :
      Stepped codec tauri s (.advance i) (u.setCall i call')
  | locks {i : ℕ} {call : Call C} {work k} (hcall : s.calls[i]? = some call)
      (hrest : call.rest = .op (.withStateLock work) k) :
      Stepped codec tauri s (.advance i) { s.setCall i { call with awaiting := .lock } with
        queue := s.queue ++ [⟨s.sessionGen, .call i work⟩] }
  | lapses {k : ℕ} (healTimers : List HealTimer) :
      Stepped codec tauri s (.healTimer k) { s with healTimers }
  | heals {k : ℕ} {timer : HealTimer} (healTimers : List HealTimer)
      (htimer : s.healTimers[k]? = some timer) :
      Stepped codec tauri s (.healTimer k) (({ s with healTimers } : Session C).addCall
        (some timer.user) (healProgram codec timer.user timer.ctx))
  | refuses {seed : Seed} {next : Queued C} {queue} (hholder : s.holder = none)
      (hqueue : s.queue = next :: queue) :
      Stepped codec tauri s (.lockNext seed)
        (({ s with queue } : Session C).deliver next.job.caller (.error accountSwitched))
  | starts {seed : Seed} {next : Queued C} {queue} (hholder : s.holder = none)
      (hqueue : s.queue = next :: queue) (hgen : next.gen = s.sessionGen) :
      Stepped codec tauri s (.lockNext seed)
        (({ s with queue, lockHolderGen := next.gen } : Session C).startJob tauri seed next.job)
  | resumes {h : Holder State} {done} (hholder : s.holder = some h)
      (hok : h.ticket.bind s.promises = some (.ok done)) :
      Stepped codec tauri s .resume (s.proceed tauri { h with ticket := none })
  | throws {h : Holder State} {error} (hholder : s.holder = some h)
      (herror : h.ticket.bind s.promises = some (.error error)) :
      Stepped codec tauri s .resume (s.release h (.error error))
  | answered {answer} {h : Holder State} {request k} (hholder : s.holder = some h)
      (hticket : h.ticket = none) (hrest : h.rest = .op (.api request) k) :
      Stepped codec tauri s (.holderReply answer)
        (s.proceed tauri { h with rest := k (answer request) })
  | slept {h : Holder State} {ms k} (hholder : s.holder = some h) (hticket : h.ticket = none)
      (hrest : h.rest = .op (.sleep ms) k) :
      Stepped codec tauri s .holderSlept (s.proceed tauri { h with rest := k () })
  | loads {i : ℕ} {result uuid seed} {init : Init State} {t : Session C}
      (hinit : s.inits[i]? = some init) (hi : s.core.Before i) (h : Initializes s i init t) :
      Stepped codec tauri s (.loaded i result uuid seed) t
  | registers {i : ℕ} {taken uuid seed} {init : Init State} {t : Session C}
      (hinit : s.inits[i]? = some init) (hi : s.core.Before i) (h : Initializes s i init t) :
      Stepped codec tauri s (.registered i taken uuid seed) t
  | catches {i : ℕ} {init : Init State} {t : Session C} (hinit : s.inits[i]? = some init)
      (hi : s.core.Before i) (h : Initializes s i init t) :
      Stepped codec tauri s (.identityCaught i) t
  | saves {k : ℕ} {result} {t : Session C} (h : s.saveReturned k result = some t) :
      Stepped codec tauri s (.saveReturned k result) t
  | ticks : Stepped codec tauri s .tick { s with now := s.now + 1 }

variable {i k j version : ℕ} {call call' new : Call C}

theorem stepped_of_perform {o : CallOp C}
    {k : o.Result → Async (CallOp C) CallOp.Result (Except Error CallResult)}
    (hcall : s.calls[i]? = some call) (hrest : call.rest = .op o k)
    (hstep : s.perform i call o k = some t) : Stepped codec tauri s (.advance i) t := by
  cases o with
  | ensureIdentity =>
      simp only [Session.perform] at hstep
      split at hstep
      · cases hstep
        exact .goesOn hcall hrest .identity rfl rfl fun _ => trivial
      · cases hstep
        exact .waits hcall .identity rfl rfl
  | withStateLock work => cases hstep; exact .locks hcall hrest
  | api request => cases hstep
  | scheduleHeal groupId =>
      cases hstep
      exact .goesOn hcall hrest (.heal groupId) rfl rfl fun _ => trivial
  | noteCurrentEpochFailure groupId =>
      cases hstep
      exact .goesOn hcall hrest (.failure groupId) rfl rfl fun _ => trivial
  | claimRefresh groupId epoch =>
      simp only [Session.perform] at hstep
      split_ifs at hstep
      · cases hstep
        exact .goesOn hcall hrest .same rfl rfl fun _ => trivial
      · cases hstep
        exact .goesOn hcall hrest (.books _) rfl rfl fun _ => trivial
  | deviceStateCache => cases hstep; exact .goesOn hcall hrest .same rfl rfl fun _ => rfl
  | setContext ctx => cases hstep; exact .goesOn hcall hrest (.books _) rfl rfl fun _ => trivial
  | getContext groupId => cases hstep; exact .goesOn hcall hrest .same rfl rfl fun _ => rfl
  | noteHeal groupId => cases hstep; exact .goesOn hcall hrest (.books _) rfl rfl fun _ => trivial
  | clearFailures groupId =>
      cases hstep
      exact .goesOn hcall hrest (.books _) rfl rfl fun _ => trivial
  | takePendingSent groupId =>
      cases hstep
      exact .goesOn hcall hrest (.books _) rfl rfl fun _ => trivial
  | emitGroupChange groupId removed =>
      cases hstep
      exact .goesOn hcall hrest .same rfl rfl fun _ => trivial

theorem stepped_of_advance (hstep : s.advance i = some t) :
    Stepped codec tauri s (.advance i) t := by
  unfold Session.advance at hstep
  split at hstep
  · cases hstep
  · next call hcall =>
      split at hstep
      · next hrest _ => exact stepped_of_perform hcall hrest hstep
      · next k hrest _ =>
          split at hstep
          · cases hstep
            exact .goesOn hcall hrest .same rfl rfl fun _ => trivial
          · cases hstep
            exact .goesOn hcall hrest .same rfl rfl fun _ => trivial
          · cases hstep
      · cases hstep

variable {answer : (r : ApiRequest) → r.Reply}

theorem stepped_of_reply (hstep : s.reply i answer = some t) :
    Stepped codec tauri s (.reply i answer) t := by
  unfold Session.reply at hstep
  split at hstep
  · cases hstep
  · next call hcall =>
      split at hstep
      · next request k hrest =>
          cases hstep
          exact .goesOn hcall hrest .same rfl rfl fun _ => ⟨answer, rfl, rfl⟩
      · cases hstep

theorem stepped_of_healTimer (hstep : s.healTimer codec k = some t) :
    Stepped codec tauri s (.healTimer k) t := by
  unfold Session.healTimer at hstep
  split at hstep
  · cases hstep
  · next timer htimer =>
      simp only at hstep
      split_ifs at hstep
      · cases hstep
        exact .lapses _
      · cases hstep
        exact .heals _ htimer

variable {seed : Seed}

theorem stepped_of_lockNext (hstep : s.lockNext tauri seed = some t) :
    Stepped codec tauri s (.lockNext seed) t := by
  unfold Session.lockNext at hstep
  split at hstep
  · next next queue hholder hqueue =>
      simp only at hstep
      split_ifs at hstep with hgen
      · cases hstep
        exact .refuses hholder hqueue
      · cases hstep
        exact .starts hholder hqueue (not_not.mp hgen)
  · cases hstep

theorem stepped_of_resume (hstep : s.resume tauri = some t) :
    Stepped codec tauri s .resume t := by
  unfold Session.resume at hstep
  split at hstep
  · cases hstep
  · next h hholder =>
      split at hstep
      · next hok =>
          cases hstep
          exact .resumes hholder hok
      · next herror =>
          cases hstep
          exact .throws hholder herror
      · cases hstep

theorem stepped_of_holderReply (hstep : s.holderReply tauri answer = some t) :
    Stepped codec tauri s (.holderReply answer) t := by
  unfold Session.holderReply at hstep
  split at hstep
  · cases hstep
  · next h hholder =>
      split at hstep
      · next request k hticket hrest =>
          cases hstep
          exact .answered hholder hticket hrest
      · cases hstep

theorem stepped_of_holderSlept (hstep : s.holderSlept tauri = some t) :
    Stepped codec tauri s .holderSlept t := by
  unfold Session.holderSlept at hstep
  split at hstep
  · cases hstep
  · next h hholder =>
      split at hstep
      · next ms k hticket hrest =>
          cases hstep
          exact .slept hholder hticket hrest
      · cases hstep

theorem stepped_of_loaded {result : Except String (Option State)} {uuid : DeviceId}
    (hstep : s.loaded tauri i result uuid seed = some t) :
    Stepped codec tauri s (.loaded i result uuid seed) t := by
  unfold Session.loaded at hstep
  split at hstep
  · cases hstep
  · next init hinit =>
      have hi : init.phase = .loading → s.core.Before i := fun hphase =>
        ⟨init, hinit, by simp [hphase, InitPhase.Active], by simp [hphase]⟩
      split at hstep
      · next hphase _ =>
          cases hstep
          exact .loads hinit (hi hphase) (.fails _)
      · next hphase _ =>
          split_ifs at hstep with hgen
          · cases hstep
            exact .loads hinit (hi hphase) (.fails _)
          · split at hstep
            · cases hstep
              exact .loads hinit (hi hphase) (.adopts _ (not_not.mp hgen))
            · cases hstep
              exact .loads hinit (hi hphase) (.registers s.deviceIds 0 uuid seed)
      · cases hstep

theorem stepped_of_registered {taken : Bool} {uuid : DeviceId}
    (hstep : s.registered i taken uuid seed = some t) :
    Stepped codec tauri s (.registered i taken uuid seed) t := by
  unfold Session.registered at hstep
  split at hstep
  · cases hstep
  · next init hinit =>
      split at hstep
      · next attempt deviceState credential hphase =>
          have hi : s.core.Before i :=
            ⟨init, hinit, by simp [hphase, InitPhase.Active], by simp [hphase]⟩
          split_ifs at hstep with htaken hgen
          · cases hstep
            exact .registers hinit hi (.registers _ 1 uuid seed)
          · cases hstep
            exact .registers hinit hi (.fails _)
          · cases hstep
            exact .registers hinit hi (.locks hphase (not_not.mp hgen))
      · cases hstep

theorem stepped_of_identityCaught (hstep : s.identityCaught i = some t) :
    Stepped codec tauri s (.identityCaught i) t := by
  unfold Session.identityCaught at hstep
  split at hstep
  · cases hstep
  · next init hinit =>
      split at hstep
      · next error hphase =>
          have hi : s.core.Before i :=
            ⟨init, hinit, by simp [hphase, InitPhase.Active], by simp [hphase]⟩
          simp only at hstep
          split_ifs at hstep with hgen
          · cases hstep
            exact .catches hinit hi (.forgotten error hgen)
          · cases hstep
            exact .catches hinit hi (.rejected error)
      · cases hstep

variable {input : Input State}

theorem step_cases (hstep : s.step codec tauri input = some t) : Stepped codec tauri s input t := by
  cases input with
  | call user routes function => cases hstep; exact .called user routes function
  | notePendingSent groupId plaintext => cases hstep; exact .noted _
  | resetForUser user => cases hstep; exact .reset user
  | advance i => exact stepped_of_advance hstep
  | reply i answer => exact stepped_of_reply hstep
  | healTimer k => exact stepped_of_healTimer hstep
  | lockNext seed => exact stepped_of_lockNext hstep
  | resume => exact stepped_of_resume hstep
  | holderReply answer => exact stepped_of_holderReply hstep
  | holderSlept => exact stepped_of_holderSlept hstep
  | loaded i result uuid seed => exact stepped_of_loaded hstep
  | registered i taken uuid seed => exact stepped_of_registered hstep
  | identityCaught i => exact stepped_of_identityCaught hstep
  | saveReturned k result => exact .saves hstep
  | tick => cases hstep; exact .ticks

/-! ## Where calls come from -/

theorem getElem?_setCall (h : (s.setCall i call).calls[j]? = some call') :
    j = i ∧ call' = call ∨ s.calls[j]? = some call' := by
  change (s.calls.set i call)[j]? = some call' at h
  rw [List.getElem?_set] at h
  split_ifs at h with hij hlt
  · exact .inl ⟨hij.symm, (Option.some.inj h).symm⟩
  · exact .inr h

variable {u : Session C}

/-- A call whose rest is answered goes on, and the others stay. -/
theorem callStep_setCall {o : CallOp C}
    {k : o.Result → Async (CallOp C) CallOp.Result (Except Error CallResult)}
    (is : t = u.setCall i new) (hcalls : u.calls = s.calls) (hcall : s.calls[i]? = some call)
    (hawaited : call.rest = .op o k) (r : o.Result) (hrest : new.rest = k r)
    (huser : new.user = call.user) (hanswer : Answers s t input i o r) :
    ∀ j call', t.calls[j]? = some call' → CallStep codec s t input j call' := by
  intro j call' hj
  subst is
  rcases getElem?_setCall hj with ⟨rfl, rfl⟩ | hold
  · exact .goesOn hcall huser hawaited hrest hanswer
  · rw [hcalls] at hold
    exact .stays hold rfl rfl

theorem callStep_waits (is : t = u.setCall i new) (hcalls : u.calls = s.calls)
    (hcall : s.calls[i]? = some call) (hrest : new.rest = call.rest)
    (huser : new.user = call.user) :
    ∀ j call', t.calls[j]? = some call' → CallStep codec s t input j call' := by
  intro j call' hj
  subst is
  rcases getElem?_setCall hj with ⟨rfl, rfl⟩ | hold
  · exact .stays hcall huser hrest
  · rw [hcalls] at hold
    exact .stays hold rfl rfl

theorem callStep_same (hcalls : t.calls = s.calls) :
    ∀ j call', t.calls[j]? = some call' → CallStep codec s t input j call' := by
  intro j call' hj
  rw [hcalls] at hj
  exact .stays hj rfl rfl

/-! ## What leaves the calls -/

/-- The calls and what lock work has settled with. -/
def ledger (s : Session C) : List (Call C) × List (Settled State) :=
  (s.calls, s.settled)

theorem writerPass_ledger : s.writerPass.ledger = s.ledger := by
  simp only [writerPass]
  split_ifs
  · rfl
  · split
    · rfl
    · rfl

theorem schedulePersist_ledger : (s.schedulePersist tauri).ledger = s.ledger := by
  unfold schedulePersist
  split_ifs
  · rfl
  · exact writerPass_ledger

theorem waitDurable_ledger : (s.waitDurable tauri version).1.ledger = s.ledger := by
  simp only [waitDurable]
  split_ifs
  · rfl
  · exact schedulePersist_ledger

variable {state : State}

theorem commitState_ledger (hcommit : s.commitState tauri h state = some t) :
    t.ledger = s.ledger := by
  simp only [commitState] at hcommit
  split_ifs at hcommit
  cases hcommit
  exact schedulePersist_ledger

theorem saveReturned_ledger {result : Except String Unit}
    (hstep : s.saveReturned k result = some t) : t.ledger = s.ledger := by
  unfold saveReturned at hstep
  split at hstep
  · cases hstep
  · cases result with
    | ok _ =>
        cases hstep
        simp only [saveAccepted]
        split_ifs
        · rw [writerPass_ledger]
          rfl
        · rw [writerPass_ledger]
          rfl
    | error message =>
        cases hstep
        simp only [saveRejected]
        split_ifs
        · rfl
        · rfl

/-! ## Lock work -/

variable {result : Except Error LockResult}

theorem deliver_init_calls : (s.deliver (.init i) result).calls = s.calls := by
  simp only [deliver]
  split
  · rfl
  · split
    · cases result with
      | ok r => rfl
      | error e => rfl
    · rfl

variable {caller : Caller}

theorem deliver_settled : (s.deliver caller result).settled = s.settled := by
  cases caller with
  | call i =>
      simp only [deliver]
      split
      · rfl
      · split
        · rfl
        · rfl
  | init i =>
      simp only [deliver]
      split
      · rfl
      · split
        · cases result with
          | ok r => rfl
          | error e => rfl
        · rfl

/-- The caller is told an account switch or what its work settled with. -/
theorem callStep_deliver (hcalls : u.calls = s.calls)
    (hresult : result = .error accountSwitched ∨ ∃ e ∈ u.settled, e.work.caller = caller ∧ e.result = result) :
    ∀ j call', (u.deliver caller result).calls[j]? = some call' →
      CallStep codec s (u.deliver caller result) input j call' := by
  cases caller with
  | init i =>
      exact callStep_same (deliver_init_calls.trans hcalls)
  | call i =>
      have hsettled : (u.deliver (.call i) result).settled = u.settled := deliver_settled
      rw [← hsettled] at hresult
      revert hresult
      simp only [deliver]
      split
      · exact fun _ => callStep_same hcalls
      · next call hcall =>
          rw [hcalls] at hcall
          split
          · next work k hrest _ =>
              intro hresult
              exact callStep_setCall rfl hcalls hcall hrest _ rfl rfl hresult
          · exact fun _ => callStep_same hcalls

/-- The calls are left alone, or the work's caller is told what the work settled with. -/
inductive Tells (s : Session C) (caller : Caller) (t : Session C) : Prop
  | nothing (ledger : t.ledger = s.ledger)
  | result {u : Session C} {e : Settled State} (is : t = u.deliver caller e.result)
      (ledger : u.ledger = (s.calls, e :: s.settled)) (work : e.work.caller = caller)

theorem Tells.callStep (h : Tells s caller t) :
    ∀ j call', t.calls[j]? = some call' → CallStep codec s t input j call' := by
  cases h with
  | nothing ledger => exact callStep_same (congrArg Prod.fst ledger)
  | @result u e is ledger work =>
      subst is
      refine callStep_deliver (congrArg Prod.fst ledger) (.inr ⟨e, ?_, work, rfl⟩)
      rw [show u.settled = e :: s.settled from congrArg Prod.snd ledger]
      exact List.mem_cons_self

theorem Tells.settled {caller : Caller} (h : Tells s caller t) : s.settled ⊆ t.settled := by
  cases h with
  | nothing ledger =>
      rw [show t.settled = s.settled from congrArg Prod.snd ledger]
      exact List.Subset.refl _
  | @result u e is ledger work =>
      rw [is, deliver_settled, show u.settled = e :: s.settled from congrArg Prod.snd ledger]
      exact List.subset_cons_self _ _

theorem Tells.of_ledger (h : Tells u caller t) (hledger : u.ledger = s.ledger) : Tells s caller t := by
  cases h with
  | nothing ledger => exact .nothing (ledger.trans hledger)
  | result is ledger work =>
      obtain ⟨hcalls, hsettled⟩ := Prod.mk.inj hledger
      rw [hcalls, hsettled] at ledger
      exact .result is ledger work

theorem tells_release : Tells s h.caller (s.release h result) := by
  let e : Settled State := ⟨h, s.sessionGen, s.deviceStateCache, result⟩
  let u : Session C := { s with
    holder := none
    settled := e :: s.settled }
  exact .result (u := u) (e := e) rfl rfl rfl

theorem tells_awaitDurable : Tells s caller (s.awaitDurable tauri h version) :=
  .nothing waitDurable_ledger

theorem tells_commitDurable {result : LockResult} :
    Tells s h.caller (s.commitDurable tauri h state result) := by
  unfold commitDurable
  cases hcommit : s.commitState tauri h state with
  | none => exact tells_release
  | some t => exact tells_awaitDurable.of_ledger (commitState_ledger hcommit)

theorem tells_finish {f : Finish State} : Tells s h.caller (s.finish tauri h f) := by
  cases f with
  | returned result => exact tells_release
  | thrown error => exact tells_release
  | commitState state result =>
      simp only [finish]
      cases hcommit : s.commitState tauri h state with
      | none => exact tells_release
      | some t => exact tells_release.of_ledger (commitState_ledger hcommit)
  | commitDurable state result => exact tells_commitDurable
  | merge state result =>
      simp only [finish]
      split_ifs
      · exact tells_commitDurable
      · exact tells_release

theorem tells_proceed : Tells s h.caller (s.proceed tauri h) := by
  unfold proceed
  split
  · exact tells_finish
  · exact .nothing rfl
  · exact .nothing rfl

/-- The work's caller hears of a switch, or of what the work settled with. -/
theorem startJob_tells (tauri : Bool) (seed : Seed) (job : Job C) :
    (∃ caller, Tells s caller (s.startJob tauri seed job)) ∨
      ∃ caller, s.startJob tauri seed job = s.deliver caller (.error accountSwitched) := by
  cases job with
  | newIdentity i deviceState =>
      unfold startJob
      exact .inl ⟨_, tells_proceed (h := ⟨.init i, _, _, _, _, _, _, _⟩)⟩
  | call i work =>
      simp only [startJob]
      split
      · exact .inr ⟨.call i, rfl⟩
      · split
        · exact .inl ⟨_, (tells_proceed (h := ⟨.call i, _, _, _, _, _, _, _⟩)).of_ledger rfl⟩
        · exact .inl ⟨.call i, tells_awaitDurable.of_ledger rfl⟩

/-! ## Initializations -/

theorem ensureIdentity_ledger (user : Option UserId) :
    (s.ensureIdentity user).1.ledger = s.ledger := by
  have hreset : (if s.switches user then s.resetForUser user else s).ledger = s.ledger := by
    split_ifs
    · rfl
    · rfl
  simp only [Session.ensureIdentity]
  split
  · exact hreset
  · exact hreset
  · exact hreset

variable {user : Option UserId}

theorem adopt_ledger : (s.adopt i user state).ledger = s.ledger := by
  unfold adopt
  split
  · rfl
  · split_ifs
    · rfl
    · rfl

theorem Initializes.ledger {init : Init State} (h : Initializes s i init t) :
    t.ledger = s.ledger := by
  cases h with
  | adopts state hgen => exact adopt_ledger
  | _ => rfl

/-! ## Calls -/

theorem scheduleHeal_ledger {groupId : GroupId} : (s.scheduleHeal groupId).ledger = s.ledger := by
  unfold scheduleHeal
  split
  · split_ifs
    · rfl
    · rfl
  · rfl

theorem Prepared.ledger (h : Prepared s user t) : t.ledger = s.ledger := by
  cases h with
  | same => rfl
  | identity => exact ensureIdentity_ledger user
  | books books => rfl
  | heal groupId => exact scheduleHeal_ledger
  | failure groupId =>
      simp only [noteCurrentEpochFailure]
      split_ifs
      · exact scheduleHeal_ledger
      · rfl

/-- A call that `t` has beyond those of `s` is the one that was added. -/
theorem getElem?_addCall {m : CallM C CallResult} (h : (s.addCall user m).calls[j]? = some call') :
    s.calls[j]? = some call' ∨ call' = ⟨user, m.run, .nothing⟩ := by
  change (s.calls ++ [_])[j]? = some call' at h
  rw [List.getElem?_append] at h
  split_ifs at h
  · exact .inl h
  · right
    simpa using (List.mem_of_getElem? h)

/-- What one step can do to the calls. -/
theorem callStep (hstep : s.step codec tauri input = some t) :
    ∀ j call', t.calls[j]? = some call' → CallStep codec s t input j call' := by
  cases step_cases hstep with
  | called user routes function =>
      intro j call' hj
      rcases getElem?_addCall hj with hold | rfl
      · exact .stays hold rfl rfl
      · exact .called rfl rfl
  | noted books => exact callStep_same rfl
  | reset user => exact callStep_same rfl
  | goesOn hcall hrest hu huser hgoes hanswer =>
      exact callStep_setCall rfl (congrArg Prod.fst hu.ledger) hcall hrest _ hgoes huser (hanswer _)
  | waits hcall hu huser hrest =>
      exact callStep_waits rfl (congrArg Prod.fst hu.ledger) hcall hrest huser
  | locks hcall hrest => exact callStep_waits (u := { s with queue := _ }) rfl rfl hcall rfl rfl
  | lapses healTimers => exact callStep_same rfl
  | heals healTimers htimer =>
      intro j call' hj
      rcases getElem?_addCall hj with hold | rfl
      · exact .stays hold rfl rfl
      · exact .healed htimer rfl
  | refuses hholder hqueue => exact callStep_deliver rfl (.inl rfl)
  | @starts seed next queue hholder hqueue hgen =>
      rcases startJob_tells (s := { s with queue, lockHolderGen := next.gen }) tauri seed next.job
        with ⟨caller, htells⟩ | ⟨caller, heq⟩
      · exact (htells.of_ledger (s := s) rfl).callStep
      · rw [heq]
        exact callStep_deliver rfl (.inl rfl)
  | @resumes h done hholder hok => exact (tells_proceed (h := { h with ticket := none })).callStep
  | throws hholder herror => exact tells_release.callStep
  | @answered answer h request k hholder hticket hrest =>
      exact (tells_proceed (h := { h with rest := k (answer request) })).callStep
  | @slept h ms k hholder hticket hrest =>
      exact (tells_proceed (h := { h with rest := k () })).callStep
  | loads hinit hi h => exact callStep_same (congrArg Prod.fst h.ledger)
  | registers hinit hi h => exact callStep_same (congrArg Prod.fst h.ledger)
  | catches hinit hi h => exact callStep_same (congrArg Prod.fst h.ledger)
  | saves h => exact callStep_same (congrArg Prod.fst (saveReturned_ledger h))
  | ticks => exact callStep_same rfl

/-! ## What lock work has settled with -/

/-- Settled work is remembered. -/
theorem settled_subset (hstep : s.step codec tauri input = some t) : s.settled ⊆ t.settled := by
  have hsame : ∀ u : Session C, u.settled = s.settled → s.settled ⊆ u.settled := fun u h => by
    rw [h]
    exact List.Subset.refl _
  cases step_cases hstep with
  | called user routes function => exact hsame _ rfl
  | noted books => exact hsame _ rfl
  | reset user => exact hsame _ rfl
  | goesOn hcall hrest hu huser hgoes hanswer => exact hsame _ (congrArg Prod.snd hu.ledger)
  | waits hcall hu huser hrest => exact hsame _ (congrArg Prod.snd hu.ledger)
  | locks hcall hrest => exact hsame _ rfl
  | lapses healTimers => exact hsame _ rfl
  | heals healTimers htimer => exact hsame _ rfl
  | refuses hholder hqueue => exact hsame _ deliver_settled
  | @starts seed next queue hholder hqueue hgen =>
      rcases startJob_tells (s := { s with queue, lockHolderGen := next.gen }) tauri seed next.job
        with ⟨caller, htells⟩ | ⟨caller, heq⟩
      · exact htells.settled
      · rw [heq]
        exact hsame _ deliver_settled
  | @resumes h done hholder hok => exact (tells_proceed (h := { h with ticket := none })).settled
  | throws hholder herror => exact tells_release.settled
  | @answered answer h request k hholder hticket hrest =>
      exact (tells_proceed (h := { h with rest := k (answer request) })).settled
  | @slept h ms k hholder hticket hrest =>
      exact (tells_proceed (h := { h with rest := k () })).settled
  | loads hinit hi h => exact hsame _ (congrArg Prod.snd h.ledger)
  | registers hinit hi h => exact hsame _ (congrArg Prod.snd h.ledger)
  | catches hinit hi h => exact hsame _ (congrArg Prod.snd h.ledger)
  | saves h => exact hsame _ (congrArg Prod.snd (saveReturned_ledger h))
  | ticks => exact hsame _ rfl

end Session

end SpecterComs.MlsSession
