import SpecterComs.Model.Desktop.Session

/-! # What one step of a session command does

A step that is about to write changes only the file, and no other step does. A step after
which a write is due has just set the session that is to be written.
-/

namespace SpecterComs.DesktopSession

variable {Token User : Type*} {jwtExp : Token → Option ℤ} {now : ℤ} {o : Outside Token}

/-! ## Answers -/

@[simp] theorem write_asker_resume (a : Asker) (r : Except String (Option Token)) :
    (a.resume r : Pc Token User).write = none := by
  unfold Asker.resume
  split <;> rfl

@[simp] theorem write_caller_resume (c : Caller Token) (r : Except String (Option Token)) :
    (c.resume jwtExp now r : Pc Token User).write = none := by
  unfold Caller.resume
  split
  · rfl
  · split <;> simp
  · simp

@[simp] theorem write_setLoaded (i : Inner Token User) (saved : Option (SavedSession Token User)) :
    (i.setLoaded saved).2.write = none := by
  unfold Inner.setLoaded
  split
  · rfl
  · split
    · rfl
    · split <;> rfl

variable {i : Inner Token User} {saved : Option (SavedSession Token User)}

theorem setLoaded_of_live (h : (i.loaded || i.session.isSome) = true) :
    i.setLoaded saved = (i, .validToken (.restore none)) := by
  rw [Inner.setLoaded, if_pos h]

theorem setLoaded_inner (h : (i.loaded || i.session.isSome) = false) :
    (i.setLoaded saved).1.session = saved.bind SavedSession.session := by
  have hnone : i.session = none := by
    cases hs : i.session with
    | none => rfl
    | some s => simp [hs] at h
  unfold Inner.setLoaded
  rw [if_neg (by simp [h])]
  split
  · simp [*]
  · split <;> simp [*]

theorem setLoaded_epoch (i : Inner Token User) (saved : Option (SavedSession Token User)) :
    i.epoch ≤ (i.setLoaded saved).1.epoch := by
  unfold Inner.setLoaded
  split
  · exact Nat.le_refl _
  · split
    · exact Nat.le_succ _
    · split <;> exact Nat.le_refl _

/-! ## The file -/

/-- The file that describes a session, or none. -/
def CredentialFile.describing : Option (Session Token User) → CredentialFile Token User
  | some s => .saved ⟨some s.token, s.refreshToken, some s.user, none, none⟩
  | none => .absent

@[simp] theorem session_describing (w : Option (Session Token User)) :
    (CredentialFile.describing w).session = w := by
  cases w <;> rfl

variable [DecidableEq Token]

@[simp] theorem write_reading (c : Caller Token) (i : Inner Token User) :
    (reading jwtExp now c i).write = none := by
  unfold reading
  split
  · simp
  · split
    · simp
    · split <;> rfl

omit [DecidableEq Token] in
@[simp] theorem write_answered (c : Caller Token) (s : Session Token User) (epoch : ℕ) :
    (answered jwtExp o c s epoch).write = none := by
  unfold answered
  split
  · rfl
  · rfl
  · simp

/-! ## Steps -/

variable {held : Bool} {m m' : Memory Token User} {pc pc' : Pc Token User}
  {w : Option (Session Token User)}

/-- The branches of a step. -/
inductive Advance (jwtExp : Token → Option ℤ) (o : Outside Token) (held : Bool)
    (m : Memory Token User) : Pc Token User → Memory Token User → Pc Token User → Prop
  | live (h : (m.inner.loaded || m.inner.session.isSome) = true) :
      Advance jwtExp o held m .restore m (.validToken (.restore none))
  | restore (h : (m.inner.loaded || m.inner.session.isSome) = false) :
      Advance jwtExp o held m .restore m .loadCredentials
  | loadCredentials :
      Advance jwtExp o held m .loadCredentials { m with file := m.file.afterLoad o.io }
        (.setLoaded (m.file.loadCredentials o.io))
  | setLoaded {saved : Option (SavedSession Token User)} :
      Advance jwtExp o held m (.setLoaded saved) { m with inner := (m.inner.setLoaded saved).1 }
        (m.inner.setLoaded saved).2
  | noToken {asker : Asker} (h : m.inner.token = none) :
      Advance jwtExp o held m (.validToken asker) m (asker.resume (.ok none))
  | stale {asker : Asker} {t : Token} (ht : m.inner.token = some t)
      (h : needsRefresh jwtExp o.now t = true) :
      Advance jwtExp o held m (.validToken asker) m (.awaitRefresh (.validToken t asker))
  | valid {asker : Asker} {t : Token} (ht : m.inner.token = some t)
      (h : needsRefresh jwtExp o.now t = false) :
      Advance jwtExp o held m (.validToken asker) m (asker.resume (.ok (some t)))
  | awaitRefresh {c : Caller Token} (h : held = false) :
      Advance jwtExp o held m (.awaitRefresh c) m (.readSession c)
  | readSession {c : Caller Token} :
      Advance jwtExp o held m (.readSession c) m (reading jwtExp o.now c m.inner)
  | post {c : Caller Token} {x : Session Token User} {epoch : ℕ} {refreshToken : Token} :
      Advance jwtExp o held m (.post c x epoch refreshToken) m (answered jwtExp o c x epoch)
  | overtaken {c : Caller Token} {x : Session Token User} {epoch : ℕ}
      {fresh : RefreshResponse Token} (h : m.inner.epoch ≠ epoch ∨ m.inner.session = none) :
      Advance jwtExp o held m (.store c x epoch fresh) m (.readToken c)
  | store {c : Caller Token} {x s : Session Token User} {fresh : RefreshResponse Token}
      (hs : m.inner.session = some s) :
      Advance jwtExp o held m (.store c x m.inner.epoch fresh)
        { m with
          inner.session :=
            some { x with token := fresh.token, refreshToken := some fresh.refreshToken } }
        (.persist (.refresh c)
          { x with token := fresh.token, refreshToken := some fresh.refreshToken })
  | dead {c : Caller Token} :
      Advance jwtExp o held m (.checkDead c m.inner.epoch) m
        (.endSession (.expired m.inner.epoch c))
  | replaced {c : Caller Token} {epoch : ℕ} (h : m.inner.epoch ≠ epoch) :
      Advance jwtExp o held m (.checkDead c epoch) m (.readToken c)
  | readToken {c : Caller Token} :
      Advance jwtExp o held m (.readToken c) m (c.resume jwtExp o.now (.ok m.inner.token))
  | currentUser {error : Option String} {r : RestoreResult User}
      (h : m.inner.user.elim (error.elim .noSession .offline) .ok = r) :
      Advance jwtExp o held m (.currentUser error) m (.finished (.restored r))
  | offline {loadedAt : ℕ} {error : String} :
      Advance jwtExp o held m (.offline loadedAt error) { m with inner := m.inner.offline }
        (.finished (.restored (.offline error)))
  | setSession {x : Session Token User} :
      Advance jwtExp o held m (.setSession x) { m with inner := m.inner.login x }
        (.persist .login x)
  | notLoggedIn {user : User} (h : m.inner.session = none) :
      Advance jwtExp o held m (.setUser user) m (.finished (.done (.error "not logged in")))
  | setUser {user : User} {x : Session Token User} (hx : m.inner.session = some x) :
      Advance jwtExp o held m (.setUser user)
        { m with inner.session := some { x with user := user } }
        (.persist .user { x with user := user })
  | endSession {e : Ending Token} :
      Advance jwtExp o held m (.endSession e) { m with inner := m.inner.take } (.delete e)
  | loggedIn {x : Session Token User} :
      Advance jwtExp o held m (.persist .login x)
        { m with file := m.file.saveCredentials x o.io } (.finished (.done (.ok ())))
  | userSaved {x : Session Token User} :
      Advance jwtExp o held m (.persist .user x)
        { m with file := m.file.saveCredentials x o.io } (.finished (.done (.ok ())))
  | refreshed {c : Caller Token} {x : Session Token User} :
      Advance jwtExp o held m (.persist (.refresh c) x)
        { m with file := m.file.saveCredentials x o.io }
        (c.resume jwtExp o.now (.ok (some x.token)))
  | loggedOut :
      Advance jwtExp o held m (.delete .logout)
        { m with file := m.file.deleteCredentials o.io } (.finished (.done (.ok ())))
  | expired {epoch : ℕ} {c : Caller Token} :
      Advance jwtExp o held m (.delete (.expired epoch c))
        { m with file := m.file.deleteCredentials o.io } (c.resume jwtExp o.now (.ok none))

/-- A step takes one of its branches. -/
theorem advance_cases (h : advance jwtExp o held m pc = some (m', pc')) :
    Advance jwtExp o held m pc m' pc' := by
  have hpair : ∀ {r : Memory Token User × Pc Token User}, some r = some (m', pc') →
      Advance jwtExp o held m pc r.1 r.2 → Advance jwtExp o held m pc m' pc' := by
    rintro _ hr hadv
    rwa [Option.some.inj hr] at hadv
  cases pc with
  | restore =>
      rw [advance] at h
      split at h
      · exact hpair h (.live ‹_›)
      · exact hpair h (.restore (Bool.eq_false_iff.mpr ‹_›))
  | loadCredentials => exact hpair h .loadCredentials
  | setLoaded saved => exact hpair h .setLoaded
  | validToken asker =>
      rw [advance] at h
      split at h
      · exact hpair h (.noToken ‹_›)
      · split at h
        · exact hpair h (.stale ‹_› ‹_›)
        · exact hpair h (.valid ‹_› (Bool.eq_false_iff.mpr ‹_›))
  | awaitRefresh c =>
      rw [advance] at h
      split at h
      · cases h
      · exact hpair h (.awaitRefresh (Bool.eq_false_iff.mpr ‹_›))
  | readSession c => exact hpair h .readSession
  | post c x epoch refreshToken => exact hpair h .post
  | store c x epoch fresh =>
      rw [advance] at h
      split at h
      · rename_i hovertaken
        exact hpair h (.overtaken (by simpa using hovertaken))
      · rename_i hsame
        obtain ⟨rfl, hsome⟩ : m.inner.epoch = epoch ∧ m.inner.session ≠ none := by
          simpa using hsame
        obtain ⟨s, hs⟩ := Option.ne_none_iff_exists'.mp hsome
        exact hpair h (.store hs)
  | checkDead c epoch =>
      rw [advance] at h
      split at h
      · rename_i heq
        subst heq
        exact hpair h .dead
      · exact hpair h (.replaced ‹_›)
  | readToken c => exact hpair h .readToken
  | currentUser error =>
      cases hu : m.inner.user with
      | some user =>
          simp only [advance, hu] at h
          exact hpair h (.currentUser (by rw [hu]; rfl))
      | none =>
          cases error with
          | none =>
              simp only [advance, hu] at h
              exact hpair h (.currentUser (by rw [hu]; rfl))
          | some error =>
              simp only [advance, hu] at h
              exact hpair h (.currentUser (by rw [hu]; rfl))
  | offline loadedAt error => exact hpair h .offline
  | setSession x => exact hpair h .setSession
  | setUser user =>
      rw [advance] at h
      split at h
      · exact hpair h (.notLoggedIn ‹_›)
      · exact hpair h (.setUser ‹_›)
  | endSession e => exact hpair h .endSession
  | persist saver x =>
      cases saver with
      | login => exact hpair h .loggedIn
      | user => exact hpair h .userSaved
      | refresh c => exact hpair h .refreshed
  | delete e =>
      cases e with
      | logout => exact hpair h .loggedOut
      | expired epoch c => exact hpair h .expired
  | finished outcome => cases h

/-- A write does what was announced and leaves the memory alone. -/
theorem advance_of_write (h : advance jwtExp o held m pc = some (m', pc'))
    (hw : pc.write = some w) :
    m'.inner = m.inner ∧ pc'.write = none ∧ (o.io = .ok → m'.file = .describing w) := by
  cases advance_cases h with
  | loggedIn | userSaved =>
      obtain rfl := Option.some.inj hw
      exact ⟨rfl, rfl, fun hio => by rw [hio]; rfl⟩
  | refreshed =>
      obtain rfl := Option.some.inj hw
      exact ⟨rfl, write_caller_resume _ _, fun hio => by rw [hio]; rfl⟩
  | loggedOut =>
      obtain rfl := Option.some.inj hw
      exact ⟨rfl, rfl, fun hio => by rw [hio]; rfl⟩
  | expired =>
      obtain rfl := Option.some.inj hw
      exact ⟨rfl, write_caller_resume _ _, fun hio => by rw [hio]; rfl⟩
  | _ => cases hw

/-- What a step that is no write does to the memory. -/
inductive Effect (m : Memory Token User) : Pc Token User → Inner Token User → Pc Token User → Prop
  /-- Nothing. -/
  | quiet {pc pc' : Pc Token User} (hpc : pc'.write = none) : Effect m pc m.inner pc'
  /-- A restore puts the session it loaded where there was none. -/
  | restored {saved : Option (SavedSession Token User)} {inner : Inner Token User}
      {pc' : Pc Token User} (hfree : (m.inner.loaded || m.inner.session.isSome) = false)
      (hsession : inner.session = saved.bind SavedSession.session)
      (hepoch : m.inner.epoch ≤ inner.epoch) (hpc : pc'.write = none) :
      Effect m (.setLoaded saved) inner pc'
  | offline {loadedAt : ℕ} {error : String} {pc' : Pc Token User} (hpc : pc'.write = none) :
      Effect m (.offline loadedAt error) m.inner.offline pc'
  | login {s : Session Token User} : Effect m (.setSession s) (m.inner.login s) (.persist .login s)
  /-- A refresh of the session that is still there. -/
  | refreshed {c : Caller Token} {x s : Session Token User} {fresh : RefreshResponse Token}
      (hs : m.inner.session = some s) :
      Effect m (.store c x m.inner.epoch fresh)
        { m.inner with
          session := some { x with token := fresh.token, refreshToken := some fresh.refreshToken } }
        (.persist (.refresh c)
          { x with token := fresh.token, refreshToken := some fresh.refreshToken })
  | userSet {user : User} {s : Session Token User} (hs : m.inner.session = some s) :
      Effect m (.setUser user) { m.inner with session := some { s with user := user } }
        (.persist .user { s with user := user })
  | ended {e : Ending Token} : Effect m (.endSession e) m.inner.take (.delete e)

/-- A step that is no write leaves a file alone that can be read, and has one of the effects. -/
theorem advance_of_not_write (h : advance jwtExp o held m pc = some (m', pc'))
    (hw : pc.write = none) :
    (o.io = .ok → m'.file = m.file) ∧ Effect m pc m'.inner pc' := by
  cases advance_cases h with
  | live _ | restore _ | stale _ _ | awaitRefresh _ | overtaken _ | dead | replaced _
  | currentUser _ | notLoggedIn _ => exact ⟨fun _ => rfl, .quiet rfl⟩
  | noToken _ | valid _ _ => exact ⟨fun _ => rfl, .quiet (write_asker_resume _ _)⟩
  | readSession => exact ⟨fun _ => rfl, .quiet (write_reading _ _)⟩
  | post => exact ⟨fun _ => rfl, .quiet (write_answered _ _ _)⟩
  | readToken => exact ⟨fun _ => rfl, .quiet (write_caller_resume _ _)⟩
  | loadCredentials => exact ⟨fun hio => by rw [hio]; rfl, .quiet rfl⟩
  | @setLoaded saved =>
      refine ⟨fun _ => rfl, ?_⟩
      cases hfree : m.inner.loaded || m.inner.session.isSome with
      | true => rw [setLoaded_of_live hfree]; exact .quiet rfl
      | false =>
          exact .restored hfree (setLoaded_inner hfree) (setLoaded_epoch _ _) (write_setLoaded _ _)
  | store hs => exact ⟨fun _ => rfl, .refreshed hs⟩
  | offline => exact ⟨fun _ => rfl, .offline rfl⟩
  | setSession => exact ⟨fun _ => rfl, .login⟩
  | setUser hx => exact ⟨fun _ => rfl, .userSet hx⟩
  | endSession => exact ⟨fun _ => rfl, .ended⟩
  | loggedIn | userSaved | refreshed | loggedOut | expired => cases hw

omit [DecidableEq Token] in
/-- What is written next is what the memory now holds. -/
theorem Effect.announces {inner : Inner Token User} (h : Effect m pc inner pc')
    (hw : pc'.write = some w) : inner.session = w := by
  cases h with
  | quiet hpc => simp [hpc] at hw
  | restored _ _ _ hpc => simp [hpc] at hw
  | offline hpc => simp [hpc] at hw
  | login => simpa [Pc.write, Inner.login] using hw
  | refreshed _ => simpa [Pc.write] using hw
  | userSet _ => simpa [Pc.write] using hw
  | ended => simpa [Pc.write, Inner.take] using hw

/-! ## Steps of the app -/

variable {s s' : State Token User} {t : ℕ}

theorem step_run_iff :
    (system jwtExp).step s (.run t o) = some s' ↔
      ∃ pc m' pc', s.tasks[t]? = some pc ∧
        advance jwtExp o s.refreshHeld s.memory pc = some (m', pc') ∧
        s' = { memory := m', tasks := s.tasks.set t pc',
               lastCompleted := pc.completes.or s.lastCompleted } := by
  change s.run jwtExp t o = some s' ↔ _
  unfold State.run
  cases hpc : s.tasks[t]? with
  | none => simp
  | some pc =>
      cases hadv : advance jwtExp o s.refreshHeld s.memory pc with
      | none => simp [hadv]
      | some r =>
          obtain ⟨m', pc'⟩ := r
          constructor
          · intro h
            exact ⟨pc, m', pc', rfl, hadv, by simpa [hadv, eq_comm] using h⟩
          · rintro ⟨_, _, _, ⟨⟩, hadv', rfl⟩
            rw [hadv] at hadv'
            obtain ⟨rfl, rfl⟩ := by simpa using hadv'
            simp [hadv]

theorem step_call_eq {c : Command Token User} (h : (system jwtExp).step s (.call c) = some s') :
    s' = { s with tasks := s.tasks ++ [c.start] } := by
  change s.call c = some s' at h
  unfold State.call at h
  split at h
  · cases h
  · simpa using h.symm

omit [DecidableEq Token] in
@[simp] theorem write_start (c : Command Token User) : c.start.write = none := by
  cases c with
  | authRefresh staleToken => cases staleToken <;> rfl
  | _ => rfl

end SpecterComs.DesktopSession
