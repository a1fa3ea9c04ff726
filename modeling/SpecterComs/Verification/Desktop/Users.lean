import SpecterComs.Verification.Desktop.Logins

/-! # The latest user

A refresh stores the user it copied before it asked the server, and writes the session after it
gave up the lock. Where neither comes behind an `auth_set_user`, the user that was set lasts.
-/

namespace SpecterComs.DesktopSession

variable {Token User : Type*} {jwtExp : Token → Option ℤ}

/-! ## The condition -/

/-- The user a command is about to write to the file. -/
def Pc.writtenUser (pc : Pc Token User) : Option (Option User) :=
  pc.write.map (Option.map Session.user)

/-- A refresh that is adopted copied the user that is in memory, and what is written is that
user, or will be by another command whose write is due. -/
def Pc.keepsUser [DecidableEq User] (m : Memory Token User) (others : List (Pc Token User)) :
    Pc Token User → Bool
  | .store _ x epoch _ =>
      m.inner.epoch ≠ epoch || m.inner.session.isNone || some x.user = m.inner.user
  | pc => pc.writtenUser.all fun w => w = m.inner.user ||
      others.any fun p => p.writtenUser = some m.inner.user

def keepsUser [DecidableEq User] (s : State Token User) : Input Token User → Bool
  | .call _ => true
  | .run t o => o.io = .ok && s.tasks[t]?.all fun pc => pc.keepsUser s.memory (s.tasks.eraseIdx t)

/-- The step sets another session or another user, or ends the session. -/
def replaces (s : State Token User) : Input Token User → Bool
  | .call _ => false
  | .run t _ => s.tasks[t]?.any fun pc =>
      match pc with
      | .setSession _ | .setUser _ | .endSession _ | .offline _ _ => true
      | _ => false

/-! ## The invariant -/

/-- The user is in memory, and in the file unless a write of it is due. -/
structure HoldsUser (user : User) (s : State Token User) : Prop where
  memory : s.memory.inner.user = some user
  file : s.memory.file.session.map Session.user = some user ∨
    ∃ p ∈ s.tasks, p.writtenUser = some (some user)

variable {s s' : State Token User} {user : User} {t : ℕ} {o : Outside Token}
  {pc pc' : Pc Token User} {m' : Memory Token User}

theorem mem_set_of_mem_eraseIdx {tasks : List (Pc Token User)} {p : Pc Token User}
    (h : p ∈ tasks.eraseIdx t) : p ∈ tasks.set t pc' := by
  obtain ⟨i, hi, hp⟩ := List.mem_eraseIdx_iff_getElem?.mp h
  apply List.mem_of_getElem? (i := i)
  rwa [List.getElem?_set_ne (Ne.symm hi)]

theorem writtenUser_of_none (h : pc.write = none) : pc.writtenUser = none := by
  rw [Pc.writtenUser, h]
  rfl

variable [DecidableEq Token] [DecidableEq User]

theorem HoldsUser.write {w : Option (Session Token User)} (h : HoldsUser user s)
    (hadv : advance jwtExp o s.refreshHeld s.memory pc = some (m', pc')) (hw : pc.write = some w)
    (hio : o.io = .ok) (hkeeps : pc.keepsUser s.memory (s.tasks.eraseIdx t) = true) :
    HoldsUser user { memory := m', tasks := s.tasks.set t pc',
                     lastCompleted := pc.completes.or s.lastCompleted } := by
  obtain ⟨hinner, -, hfile⟩ := advance_of_write hadv hw
  have hwrite : w.map Session.user = some user ∨
      ∃ p ∈ s.tasks.eraseIdx t, p.writtenUser = some (some user) := by
    have hall : (decide (w.map Session.user = s.memory.inner.user) ||
        (s.tasks.eraseIdx t).any fun p => p.writtenUser = some s.memory.inner.user) = true := by
      cases pc with
      | persist | delete =>
          simpa only [Pc.keepsUser, Pc.writtenUser, hw, Option.map_some, Option.all_some]
            using hkeeps
      | _ => simp [Pc.write] at hw
    simpa only [h.memory, Bool.or_eq_true, decide_eq_true_eq, List.any_eq_true] using hall
  refine ⟨by rw [hinner]; exact h.memory, ?_⟩
  rcases hwrite with huser | ⟨p, hp, hpw⟩
  · left
    rw [hfile hio, session_describing]
    exact huser
  · exact .inr ⟨p, mem_set_of_mem_eraseIdx hp, hpw⟩

theorem HoldsUser.effect (h : HoldsUser user s) (ht : s.tasks[t]? = some pc)
    (hadv : advance jwtExp o s.refreshHeld s.memory pc = some (m', pc')) (hw : pc.write = none)
    (hio : o.io = .ok) (hkeeps : pc.keepsUser s.memory (s.tasks.eraseIdx t) = true)
    (hreplaces : replaces s (.run t o) = false) :
    HoldsUser user { memory := m', tasks := s.tasks.set t pc',
                     lastCompleted := pc.completes.or s.lastCompleted } := by
  obtain ⟨hfile, heffect⟩ := advance_of_not_write hadv hw
  have hlive : s.memory.inner.session.isSome = true := by
    have huser := h.memory
    cases hsession : s.memory.inner.session with
    | none => simp [Inner.user, hsession] at huser
    | some x => rfl
  have hmemory : m'.inner.user = some user := by
    generalize m'.inner = inner at heffect
    cases heffect with
    | quiet _ => exact h.memory
    | restored hfree _ _ _ => simp [hlive] at hfree
    | offline _ | login | userSet _ | ended => simp [replaces, ht] at hreplaces
    | refreshed hs =>
        have hsome : s.memory.inner.session.isNone = false := by simp [hs]
        simp only [Pc.keepsUser, hsome, h.memory, ne_eq, not_true_eq_false, decide_false,
          Bool.false_or, decide_eq_true_eq] at hkeeps
        exact hkeeps
  refine ⟨hmemory, ?_⟩
  rw [hfile hio]
  refine h.file.imp_right fun ⟨p, hp, hpw⟩ => ⟨p, mem_set_of_ne ht hp ?_, hpw⟩
  rintro rfl
  simp [writtenUser_of_none hw] at hpw

theorem HoldsUser.step {i : Input Token User} (h : HoldsUser user s)
    (hkeeps : keepsUser s i = true) (hreplaces : replaces s i = false)
    (hi : (system jwtExp).step s i = some s') : HoldsUser user s' := by
  cases i with
  | call c =>
      rw [step_call_eq hi]
      exact ⟨h.memory, h.file.imp_right fun ⟨p, hp, hpw⟩ =>
        ⟨p, List.mem_append_left _ hp, hpw⟩⟩
  | run t o =>
      obtain ⟨pc, m', pc', ht, hadv, rfl⟩ := step_run_iff.mp hi
      simp only [keepsUser, ht, Option.all_some, Bool.and_eq_true, decide_eq_true_eq] at hkeeps
      cases hw : pc.write with
      | some w => exact h.write hadv hw hkeeps.1 hkeeps.2
      | none => exact h.effect ht hadv hw hkeeps.1 hkeeps.2 hreplaces

omit [DecidableEq User] in
theorem holdsUser_setUser (ht : s.tasks[t]? = some (.setUser user))
    (hlive : s.memory.inner.session.isSome = true)
    (hi : (system jwtExp).step s (.run t o) = some s') : HoldsUser user s' := by
  obtain ⟨pc, m', pc', ht', hadv, rfl⟩ := step_run_iff.mp hi
  obtain rfl : .setUser user = pc := Option.some.inj (ht.symm.trans ht')
  obtain ⟨x, hx⟩ := Option.isSome_iff_exists.mp hlive
  obtain ⟨rfl, rfl⟩ : _ = m' ∧ _ = pc' := by simpa [advance, hx] using hadv
  exact ⟨rfl, .inr ⟨_, mem_set_self ht, rfl⟩⟩

/-- What `auth_set_user` stored stays in memory, and is in the file once no write is due. -/
theorem user_lasts {s₁ : State Token User} {is : List (Input Token User)}
    (ht : s.tasks[t]? = some (.setUser user)) (hlive : s.memory.inner.session.isSome = true)
    (hi : (system jwtExp).step s (.run t o) = some s₁)
    (h : (system jwtExp).Guarded (fun s i => (keepsUser s i && !replaces s i) = true) s₁ is s') :
    s'.memory.inner.user = some user ∧ ((∀ p ∈ s'.tasks, p.write = none) →
      s'.memory.file.session.map Session.user = some user) := by
  have hholds : HoldsUser user s' :=
    h.invariant (P := HoldsUser user) (fun s i _ hs hc hi => by
      obtain ⟨hkeeps, hreplaces⟩ := Bool.and_eq_true_iff.mp hc
      exact hs.step hkeeps (by simpa using hreplaces) hi) (holdsUser_setUser ht hlive hi)
  refine ⟨hholds.memory, fun hquiet => hholds.file.resolve_right ?_⟩
  rintro ⟨p, hp, hpw⟩
  simp [writtenUser_of_none (hquiet p hp)] at hpw

/-! ## Runs -/

/-- The user is set while a refresh waits for the server. -/
def setWhileRefreshing : List (Input ℕ ℕ) :=
  expiring ++ [.call (.authSetUser 9)]

def refreshBehind : List (Input ℕ ℕ) :=
  [tick 2 2000, answer 1 2000 200 "200 OK" 3 4, tick 1 2000, tick 1 2000]

/-- The refresh puts the user back that it copied. -/
theorem refresh_restores_user :
    ¬ ∀ (file : CredentialFile ℕ ℕ) (before is : List (Input ℕ ℕ)) (s s₁ s' : State ℕ ℕ)
        (t : ℕ) (o : Outside ℕ) (user : ℕ),
      (system sampleExp).Run (.init file) before s → s.tasks[t]? = some (.setUser user) →
      s.memory.inner.session.isSome = true → (system sampleExp).step s (.run t o) = some s₁ →
      (system sampleExp).Guarded (fun s i => (!replaces s i) = true) s₁ is s' →
      s'.allCompleted = true →
        s'.memory.inner.user = some user ∧
          s'.memory.file.session.map Session.user = some user := by
  intro hclaim
  let s := ((system sampleExp).exec (.init .absent) setWhileRefreshing).get (by decide +kernel)
  let s₁ := ((system sampleExp).step s (tick 2 2000)).get (by decide +kernel)
  let s' := (((system sampleExp).restrict fun s i => !replaces s i).exec s₁ refreshBehind).get
    (by decide +kernel)
  have hold : s'.memory.inner.user = some 7 := by decide +kernel
  have h := hclaim .absent setWhileRefreshing refreshBehind s s₁ s' 2 (unreachable 2000) 9
    (StepSystem.exec_eq_some_iff.mp (Option.some_get _).symm) (by decide +kernel)
    (by decide +kernel) (Option.some_get _).symm
    (StepSystem.exec_eq_some_iff.mp (Option.some_get _).symm).guarded (by decide +kernel)
  simp [hold] at h

/-- The user is set before the refresh reads the session, and written after it. -/
def setBeforeRefresh : List (Input ℕ ℕ) :=
  [.call (.authSetSession stored), tick 0 0, tick 0 0, .call .authGetToken, tick 1 2000,
    .call (.authSetUser 9)]

def refreshThrough : List (Input ℕ ℕ) :=
  [tick 1 2000, tick 1 2000, answer 1 2000 200 "200 OK" 3 4, tick 1 2000, tick 1 2000, tick 2 2000]

theorem user_lasts_refresh : ∃ s' : State ℕ ℕ, s'.allCompleted = true ∧
    s'.memory.inner.user = some 9 ∧ s'.memory.file.session.map Session.user = some 9 := by
  let s := ((system sampleExp).exec (.init .absent) setBeforeRefresh).get (by decide +kernel)
  let s₁ := ((system sampleExp).step s (.run 2 (unreachable 2000))).get (by decide +kernel)
  let s' := (((system sampleExp).restrict fun s i => keepsUser s i && !replaces s i).exec s₁
    refreshThrough).get (by decide +kernel)
  have hrun : ((system sampleExp).restrict fun s i => keepsUser s i && !replaces s i).Run s₁
      refreshThrough s' := StepSystem.exec_eq_some_iff.mp (Option.some_get _).symm
  have h := user_lasts (by decide +kernel : s.tasks[2]? = some (.setUser 9))
    (by decide +kernel) (Option.some_get _).symm hrun.guarded
  exact ⟨s', by decide +kernel, h.1, h.2 (by decide +kernel)⟩

end SpecterComs.DesktopSession
