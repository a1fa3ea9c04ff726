import SpecterComs.Verification.Desktop.Finality

/-! # What ends a login

A login is known by the epoch it sets. A command that acts for another epoch leaves the
session alone where it acts under the lock that compares the epochs; ending an expired session
and going offline do not compare them.
-/

namespace SpecterComs.DesktopSession

variable {Token User : Type*} {jwtExp : Token → Option ℤ} {now : ℤ} {o : Outside Token}

/-! ## Commands that act for other epochs -/

/-- A load of the session of epoch `e` does not wait here. -/
def Asker.NotFor (e : ℕ) : Asker → Prop
  | .restore (some loadedAt) => loadedAt ≠ e
  | .restore none | .getToken => True

def Caller.NotFor (e : ℕ) : Caller Token → Prop
  | .authRefresh _ => True
  | .validToken _ asker => asker.NotFor e

/-- Nothing here ends the session of epoch `e` but a rejection of the token `own`. -/
def Pc.SparesLogin (e : ℕ) (own : Option Token) : Pc Token User → Prop
  | .validToken asker => asker.NotFor e
  | .awaitRefresh c | .readSession c | .store c _ _ _ | .readToken c
  | .persist (.refresh c) _ => c.NotFor e
  | .post c _ epoch refreshToken => (epoch = e → own = some refreshToken) ∧ c.NotFor e
  | .checkDead c epoch | .endSession (.expired epoch c) => epoch ≠ e ∧ c.NotFor e
  | .delete (.expired _ c) => c.NotFor e
  | .offline loadedAt _ => loadedAt ≠ e
  | _ => True

section Spares

variable {e : ℕ} {own own' : Option Token} {pc : Pc Token User}

theorem Asker.NotFor.resume {a : Asker} (h : a.NotFor e) (r : Except String (Option Token)) :
    (a.resume r : Pc Token User).SparesLogin e own := by
  cases a with
  | getToken => trivial
  | restore loadedNow =>
      cases r with
      | ok token => cases token <;> trivial
      | error error =>
          cases loadedNow with
          | none => trivial
          | some loadedAt => exact h

theorem Caller.NotFor.resume {c : Caller Token} (h : c.NotFor e)
    (r : Except String (Option Token)) :
    (c.resume jwtExp now r : Pc Token User).SparesLogin e own := by
  cases c with
  | authRefresh stale => trivial
  | validToken t asker =>
      have h : asker.NotFor e := h
      cases r with
      | ok token => exact h.resume _
      | error error =>
          rw [Caller.resume]
          split <;> exact h.resume _

/-- Only a refused token matters. -/
theorem Pc.SparesLogin.of_not_post (h : pc.SparesLogin e own)
    (hpc : ∀ c s epoch refreshToken, pc ≠ .post c s epoch refreshToken) :
    pc.SparesLogin e own' := by
  cases pc with
  | post c s epoch refreshToken => exact absurd rfl (hpc c s epoch refreshToken)
  | endSession ending | delete ending => cases ending <;> exact h
  | persist saver s => cases saver <;> exact h
  | _ => exact h

theorem Pc.SparesLogin.of_none (h : pc.SparesLogin e none) : pc.SparesLogin e own := by
  cases pc with
  | post c s epoch refreshToken => exact ⟨fun he => absurd (h.1 he) (by simp), h.2⟩
  | endSession ending | delete ending => cases ending <;> exact h
  | persist saver s => cases saver <;> exact h
  | _ => exact h

end Spares

variable {e : ℕ} {own : Option Token}

theorem start_sparesLogin (c : Command Token User) : c.start.SparesLogin e own := by
  cases c with
  | authRefresh staleToken => cases staleToken <;> trivial
  | _ => trivial

theorem holdsRefresh_asker_resume (a : Asker) (r : Except String (Option Token)) :
    (a.resume r : Pc Token User).holdsRefresh = false := by
  unfold Asker.resume
  split <;> rfl

theorem holdsRefresh_start (c : Command Token User) : c.start.holdsRefresh = false := by
  cases c with
  | authRefresh staleToken => cases staleToken <;> rfl
  | _ => rfl

variable [DecidableEq Token] {held : Bool} {m m' : Memory Token User} {pc pc' : Pc Token User}

/-- `REFRESH` is taken where it is free and else kept. -/
theorem advance_holdsRefresh (h : advance jwtExp o held m pc = some (m', pc'))
    (hpc : pc'.holdsRefresh = true) : pc.holdsRefresh = true ∨ held = false := by
  cases advance_cases h with
  | readSession | post | overtaken _ | store _ | dead | replaced _ | readToken | refreshed
  | expired => exact .inl rfl
  | awaitRefresh hfree => exact .inr hfree
  | setLoaded =>
      unfold Inner.setLoaded at hpc
      split at hpc
      · cases hpc
      · split at hpc
        · cases hpc
        · split at hpc <;> cases hpc
  | noToken _ | valid _ _ => simp [holdsRefresh_asker_resume] at hpc
  | @endSession e =>
      cases e with
      | logout => cases hpc
      | expired epoch c => exact .inl rfl
  | live _ | restore _ | loadCredentials | stale _ _ | currentUser _ | offline | setSession
  | notLoggedIn _ | setUser _ | loggedIn | userSaved | loggedOut => cases hpc

/-- The epoch `e` is that of a session with the refresh token `own`, if it is the current one. -/
def Inner.Current (i : Inner Token User) (e : ℕ) (own : Option Token) : Prop :=
  i.epoch = e → ∃ s, i.session = some s ∧ s.refreshToken = own ∧ own.isSome = true

theorem reading_sparesLogin {c : Caller Token} {i : Inner Token User} (hc : c.NotFor e)
    (hi : i.Current e own) : (reading jwtExp now c i).SparesLogin e own := by
  unfold reading
  split
  · exact hc.resume _
  · rename_i s hs
    split
    · exact hc.resume _
    · split
      · rename_i hnone
        refine ⟨fun he => ?_, hc⟩
        obtain ⟨s', hs', rfl, hsome⟩ := hi he
        obtain rfl : s = s' := Option.some.inj (hs.symm.trans hs')
        simp [hnone] at hsome
      · rename_i refreshToken hrt
        refine ⟨fun he => ?_, hc⟩
        obtain ⟨s', hs', rfl, -⟩ := hi he
        obtain rfl : s = s' := Option.some.inj (hs.symm.trans hs')
        exact hrt

/-- The server rejects the refresh token. -/
def rejected (r : Reply Token) : Bool :=
  match postRefresh r with
  | .error (.dead _) => true
  | _ => false

/-- A step spares a login unless its own token is rejected or a restore loads it. -/
theorem advance_sparesLogin (h : advance jwtExp o held m pc = some (m', pc'))
    (hpc : pc.SparesLogin e own) (hcurrent : m.inner.Current e own)
    (hpost : ∀ c s refreshToken, pc = .post c s e refreshToken → rejected o.reply = false)
    (hload : (m.inner.loaded || m.inner.session.isSome) = false → m'.inner.epoch ≠ e) :
    pc'.SparesLogin e own := by
  cases advance_cases h with
  | setLoaded =>
      cases hfree : m.inner.loaded || m.inner.session.isSome with
      | true => rw [setLoaded_of_live hfree]; trivial
      | false =>
          have hne := hload hfree
          unfold Inner.setLoaded at hne ⊢
          rw [if_neg (by simp [hfree])] at hne ⊢
          split at hne
          · exact hne
          · split <;> trivial
  | noToken _ | valid _ _ => exact Asker.NotFor.resume hpc _
  | stale _ _ | awaitRefresh _ | overtaken _ | store _ | dead => exact hpc
  | readSession => exact reading_sparesLogin hpc hcurrent
  | @post c s epoch refreshToken =>
      unfold answered
      split
      · exact hpc.2
      · rename_i error hdead
        refine ⟨?_, hpc.2⟩
        rintro rfl
        have hlive := hpost c s refreshToken rfl
        simp [rejected, hdead] at hlive
      · exact hpc.2.resume _
  | replaced _ => exact hpc.2
  | readToken | refreshed | expired => exact Caller.NotFor.resume hpc _
  | @endSession ending =>
      cases ending with
      | logout => trivial
      | expired epoch c => exact hpc.2
  | live _ | restore _ | loadCredentials | currentUser _ | offline | setSession | notLoggedIn _
  | setUser _ | loggedIn | userSaved | loggedOut => trivial

/-! ## Runs -/

theorem advance_epoch_le (h : advance jwtExp o held m pc = some (m', pc')) :
    m.inner.epoch ≤ m'.inner.epoch := by
  cases hw : pc.write with
  | some w => exact Nat.le_of_eq (congrArg Inner.epoch (advance_of_write h hw).1.symm)
  | none =>
      have heffect := (advance_of_not_write h hw).2
      generalize m'.inner = inner at heffect
      cases heffect with
      | quiet _ | refreshed _ | userSet _ => exact Nat.le_refl _
      | restored _ _ hepoch _ => exact hepoch
      | offline _ | login | ended => exact Nat.le_succ _

omit [DecidableEq Token] in
theorem getElem?_set_cases {tasks : List (Pc Token User)} {t j : ℕ} {p : Pc Token User}
    (h : (tasks.set t pc')[j]? = some p) :
    j = t ∧ p = pc' ∨ j ≠ t ∧ tasks[j]? = some p := by
  by_cases hj : t = j
  · subst hj
    left
    rw [List.getElem?_set_self'] at h
    cases htask : tasks[t]? with
    | none => simp [htask] at h
    | some q => exact ⟨rfl, by simpa [htask] using h.symm⟩
  · rw [List.getElem?_set_ne hj] at h
    exact .inr ⟨Ne.symm hj, h⟩

variable {s s' : State Token User} {t : ℕ}

/-- One command at a time holds `REFRESH`. -/
def Exclusive (tasks : List (Pc Token User)) : Prop :=
  ∀ (i j : ℕ) (p q : Pc Token User), tasks[i]? = some p → tasks[j]? = some q →
    p.holdsRefresh = true → q.holdsRefresh = true → i = j

omit [DecidableEq Token] in
theorem Exclusive.call (h : Exclusive s.tasks) (c : Command Token User) :
    Exclusive (s.tasks ++ [c.start]) := by
  have hold : ∀ (i : ℕ) (p : Pc Token User), (s.tasks ++ [c.start])[i]? = some p →
      p.holdsRefresh = true → s.tasks[i]? = some p := by
    intro i p hi hp
    rcases Nat.lt_or_ge i s.tasks.length with hlt | hge
    · rwa [List.getElem?_append_left hlt] at hi
    · rw [List.getElem?_append_right hge] at hi
      have hmem := List.mem_singleton.mp (List.mem_of_getElem? hi)
      simp [hmem, holdsRefresh_start] at hp
  intro i j p q hi hj hp hq
  exact h i j p q (hold i p hi hp) (hold j q hj hq) hp hq

theorem Exclusive.run (hs : Exclusive s.tasks) (ht : s.tasks[t]? = some pc)
    (h : advance jwtExp o s.refreshHeld s.memory pc = some (m', pc')) :
    Exclusive (s.tasks.set t pc') := by
  -- who holds it beside the task that ran
  have hother : ∀ (j : ℕ) (q : Pc Token User), j ≠ t → s.tasks[j]? = some q →
      q.holdsRefresh = true → pc'.holdsRefresh = true → False := by
    intro j q hne hj hq hpc'
    rcases advance_holdsRefresh h hpc' with hpc | hfree
    · exact hne (hs j t q pc hj ht hq hpc)
    · exact List.any_eq_false.mp hfree q (List.mem_of_getElem? hj) hq
  intro i j p q hi hj hp hq
  rcases getElem?_set_cases hi with ⟨rfl, rfl⟩ | ⟨hit, hi'⟩
  · rcases getElem?_set_cases hj with ⟨rfl, -⟩ | ⟨hjt, hj⟩
    · rfl
    · exact (hother j q hjt hj hq hp).elim
  · rcases getElem?_set_cases hj with ⟨rfl, rfl⟩ | ⟨-, hj⟩
    · exact (hother i p hit hi' hp hq).elim
    · exact hs i j p q hi' hj hp hq

/-- No command acts for an epoch still to come. -/
structure Bounded (s : State Token User) : Prop where
  exclusive : Exclusive s.tasks
  spares : ∀ e, s.memory.inner.epoch < e → ∀ p ∈ s.tasks, p.SparesLogin e none

omit [DecidableEq Token] in
theorem bounded_init (file : CredentialFile Token User) : Bounded (State.init file) where
  exclusive i j p q hi := by simp [State.init] at hi
  spares e _ p hp := by simp [State.init] at hp

theorem Bounded.step {i : Input Token User} (hs : Bounded s)
    (hi : (system jwtExp).step s i = some s') : Bounded s' := by
  cases i with
  | call c =>
      rw [step_call_eq hi]
      refine ⟨hs.exclusive.call c, fun e he p hp => ?_⟩
      rcases List.mem_append.mp hp with hp | hp
      · exact hs.spares e he p hp
      · rw [List.mem_singleton.mp hp]
        exact start_sparesLogin c
  | run t o =>
      obtain ⟨pc, m', pc', ht, h, rfl⟩ := step_run_iff.mp hi
      refine ⟨hs.exclusive.run ht h, fun e he p hp => ?_⟩
      have hlt : s.memory.inner.epoch < e := Nat.lt_of_le_of_lt (advance_epoch_le h) he
      have hpc : pc.SparesLogin e none := hs.spares e hlt pc (List.mem_of_getElem? ht)
      rcases List.mem_or_eq_of_mem_set hp with hp | rfl
      · exact hs.spares e hlt p hp
      · apply advance_sparesLogin h hpc
        · exact fun he => absurd he (Nat.ne_of_lt hlt)
        · rintro c x refreshToken rfl
          exact absurd (hpc.1 rfl) (by simp)
        · exact fun _ => Nat.ne_of_lt he

theorem bounded {file : CredentialFile Token User} {is : List (Input Token User)}
    (h : (system jwtExp).Run (.init file) is s) : Bounded s :=
  h.invariant (P := Bounded) (fun _ _ _ hs hi => hs.step hi) (bounded_init file)

/-! ## A login and what comes after it -/

def Inner.refreshToken (i : Inner Token User) : Option Token :=
  i.session.bind Session.refreshToken

/-- A login, a logout, or a rejection of the token of the session. -/
def Pc.ends (m : Memory Token User) (r : Reply Token) : Pc Token User → Bool
  | .setSession _ | .endSession .logout => true
  | .post _ _ _ refreshToken => m.inner.refreshToken = some refreshToken && rejected r
  | _ => false

def ends (s : State Token User) : Input Token User → Bool
  | .call _ => false
  | .run t o => s.tasks[t]?.any fun pc => pc.ends s.memory o.reply

/-- A login brings a refresh token, and whoever ends an expired session or goes offline finds
the session it acted for. -/
def Pc.keepsLogins (m : Memory Token User) : Pc Token User → Bool
  | .setSession s => s.refreshToken.isSome
  | .endSession (.expired epoch _) => m.inner.epoch = epoch
  | .offline loadedAt _ => m.inner.epoch = loadedAt
  | _ => true

def keepsLogins (s : State Token User) : Input Token User → Bool
  | .call _ => true
  | .run t _ => s.tasks[t]?.all fun pc => pc.keepsLogins s.memory

/-- The session of epoch `e` is there, and only a rejection of its token is about to end it. -/
structure Kept (e : ℕ) (s : State Token User) : Prop where
  epoch : s.memory.inner.epoch = e
  loaded : s.memory.inner.loaded = true
  token : s.memory.inner.refreshToken.isSome = true
  exclusive : Exclusive s.tasks
  spares : ∀ p ∈ s.tasks, p.SparesLogin e s.memory.inner.refreshToken

omit [DecidableEq Token] in
theorem Kept.current (hs : Kept e s) : s.memory.inner.Current e s.memory.inner.refreshToken := by
  intro _
  have htoken := hs.token
  unfold Inner.refreshToken at htoken ⊢
  cases hx : s.memory.inner.session with
  | none => simp [hx] at htoken
  | some x => exact ⟨x, rfl, rfl, by simpa [hx] using htoken⟩

/-- What the step leaves of the session. -/
structure Carried (e : ℕ) (m m' : Memory Token User) (pc pc' : Pc Token User) : Prop where
  epoch : m'.inner.epoch = e
  loaded : m'.inner.loaded = true
  token : m'.inner.refreshToken.isSome = true
  /-- The token is another one only after a refresh. -/
  refreshed : m'.inner.refreshToken = m.inner.refreshToken ∨
    pc.holdsRefresh = true ∧ ∃ c x, pc' = .persist (.refresh c) x

theorem Kept.carried (hs : Kept e s) (ht : s.tasks[t]? = some pc)
    (h : advance jwtExp o s.refreshHeld s.memory pc = some (m', pc'))
    (hkeeps : pc.keepsLogins s.memory = true) (hends : pc.ends s.memory o.reply = false) :
    Carried e s.memory m' pc pc' := by
  have hpc : pc.SparesLogin e s.memory.inner.refreshToken :=
    hs.spares pc (List.mem_of_getElem? ht)
  have hsame : m'.inner = s.memory.inner → Carried e s.memory m' pc pc' := fun hinner =>
    { epoch := by rw [hinner, hs.epoch]
      loaded := by rw [hinner, hs.loaded]
      token := by rw [hinner, hs.token]
      refreshed := .inl (by rw [hinner]) }
  cases hw : pc.write with
  | some w => exact hsame (advance_of_write h hw).1
  | none =>
      have heffect := (advance_of_not_write h hw).2
      generalize hinner : m'.inner = inner at heffect
      cases heffect with
      | quiet _ => exact hsame hinner
      | restored hfree _ _ _ => simp [hs.loaded] at hfree
      | offline _ =>
          have hepoch := of_decide_eq_true hkeeps
          exact absurd (hepoch.symm.trans hs.epoch) hpc
      | login => cases hends
      | refreshed hx =>
          exact
            { epoch := by rw [hinner]; exact hs.epoch
              loaded := by rw [hinner]; exact hs.loaded
              token := by rw [hinner]; rfl
              refreshed := .inr ⟨rfl, _, _, rfl⟩ }
      | @userSet user x hx =>
          have htoken : m'.inner.refreshToken = s.memory.inner.refreshToken := by
            simp [hinner, Inner.refreshToken, hx]
          exact
            { epoch := by rw [hinner]; exact hs.epoch
              loaded := by rw [hinner]; exact hs.loaded
              token := by rw [htoken]; exact hs.token
              refreshed := .inl htoken }
      | @ended ending =>
          cases ending with
          | logout => cases hends
          | expired epoch c =>
              have hepoch := of_decide_eq_true hkeeps
              exact absurd (hepoch.symm.trans hs.epoch) hpc.1

theorem Kept.step {e : ℕ} {i : Input Token User} (hs : Kept e s)
    (hkeeps : keepsLogins s i = true) (hends : ends s i = false)
    (hi : (system jwtExp).step s i = some s') : Kept e s' := by
  cases i with
  | call c =>
      rw [step_call_eq hi]
      refine ⟨hs.epoch, hs.loaded, hs.token, hs.exclusive.call c, fun p hp => ?_⟩
      rcases List.mem_append.mp hp with hp | hp
      · exact hs.spares p hp
      · rw [List.mem_singleton.mp hp]
        exact start_sparesLogin c
  | run t o =>
      obtain ⟨pc, m', pc', ht, h, rfl⟩ := step_run_iff.mp hi
      have hkeeps : pc.keepsLogins s.memory = true := by simpa [keepsLogins, ht] using hkeeps
      have hends : pc.ends s.memory o.reply = false := by simpa [ends, ht] using hends
      have hcarried := hs.carried ht h hkeeps hends
      have hpc : pc.SparesLogin e s.memory.inner.refreshToken :=
        hs.spares pc (List.mem_of_getElem? ht)
      have hpc' : pc'.SparesLogin e s.memory.inner.refreshToken := by
        apply advance_sparesLogin h hpc hs.current
        · rintro c x refreshToken rfl
          simpa [Pc.ends, hpc.1 rfl] using hends
        · intro hfree
          simp [hs.loaded] at hfree
      refine ⟨hcarried.epoch, hcarried.loaded, hcarried.token, hs.exclusive.run ht h, ?_⟩
      intro p hp
      rcases hcarried.refreshed with hsame | ⟨hholds, c, x, rfl⟩
      · rw [hsame]
        rcases List.mem_or_eq_of_mem_set hp with hp | rfl
        · exact hs.spares p hp
        · exact hpc'
      · -- the others do not hold `REFRESH`, so none of them waits for an answer
        obtain ⟨j, hj⟩ := List.mem_iff_getElem?.mp hp
        rcases getElem?_set_cases hj with ⟨-, rfl⟩ | ⟨hjt, hj⟩
        · exact hpc'.of_not_post (by simp)
        · apply (hs.spares p (List.mem_of_getElem? hj)).of_not_post
          rintro c y epoch refreshToken rfl
          exact hjt (hs.exclusive j t _ pc hj ht rfl hholds)

/-- A login sets a session that is kept. -/
theorem kept_login {x : Session Token User} (hs : Bounded s) (ht : s.tasks[t]? = some (.setSession x))
    (hkeeps : keepsLogins s (.run t o) = true)
    (hi : (system jwtExp).step s (.run t o) = some s') :
    Kept (s.memory.inner.epoch + 1) s' := by
  obtain ⟨pc, m', pc', ht', h, rfl⟩ := step_run_iff.mp hi
  obtain rfl : .setSession x = pc := Option.some.inj (ht.symm.trans ht')
  obtain ⟨rfl, rfl⟩ := by simpa [advance] using h
  have htoken : x.refreshToken.isSome = true := by
    simpa [keepsLogins, Pc.keepsLogins, ht] using hkeeps
  refine ⟨rfl, rfl, htoken, hs.exclusive.run ht h, fun p hp => ?_⟩
  rcases List.mem_or_eq_of_mem_set hp with hp | rfl
  · exact (hs.spares _ (Nat.lt_succ_self _) p hp).of_none
  · trivial

/-- The epoch a command acts for when it gets to its outcome. -/
def Pc.startedFor : Pc Token User → Option ℕ
  | .store _ _ epoch _ | .checkDead _ epoch | .endSession (.expired epoch _) => some epoch
  | .offline loadedAt _ => some loadedAt
  | _ => none

/-- An outcome for another epoch leaves the session alone. -/
theorem inner_of_startedFor (ht : s.tasks[t]? = some pc)
    (hi : (system jwtExp).step s (.run t o) = some s') (hkeeps : keepsLogins s (.run t o) = true)
    (hpc : pc.startedFor = some e) (he : e ≠ s.memory.inner.epoch) :
    s'.memory.inner = s.memory.inner := by
  obtain ⟨pc₁, m', pc', ht₁, h, rfl⟩ := step_run_iff.mp hi
  obtain rfl : pc = pc₁ := Option.some.inj (ht.symm.trans ht₁)
  have hkeeps : pc.keepsLogins s.memory = true := by simpa [keepsLogins, ht] using hkeeps
  cases pc with
  | store c x epoch fresh =>
      obtain rfl : epoch = e := by simpa [Pc.startedFor] using hpc
      rw [advance, if_pos (.inl (Ne.symm he))] at h
      obtain ⟨rfl, rfl⟩ := by simpa using h
      rfl
  | checkDead c epoch =>
      rw [advance] at h
      split at h <;> obtain ⟨rfl, rfl⟩ := by simpa using h
      all_goals rfl
  | offline loadedAt error =>
      obtain rfl : loadedAt = e := by simpa [Pc.startedFor] using hpc
      exact absurd (of_decide_eq_true hkeeps).symm he
  | endSession ending =>
      cases ending with
      | logout => simp [Pc.startedFor] at hpc
      | expired epoch c =>
          obtain rfl : epoch = e := by simpa [Pc.startedFor] using hpc
          exact absurd (of_decide_eq_true hkeeps).symm he
  | _ => simp [Pc.startedFor] at hpc

/-- After a login the session stays that login's until a login, a logout or a rejection of its
own token, and no outcome of what was started for another session changes it. -/
theorem login_lasts {file : CredentialFile Token User} {before after : List (Input Token User)}
    {s₁ s₂ s₃ : State Token User} {x : Session Token User}
    (hbefore : (system jwtExp).Guarded (fun s i => keepsLogins s i = true) (.init file) before s₁)
    (ht : s₁.tasks[t]? = some (.setSession x)) (hkeeps : keepsLogins s₁ (.run t o) = true)
    (hi : (system jwtExp).step s₁ (.run t o) = some s₂)
    (hafter : (system jwtExp).Guarded (fun s i => (keepsLogins s i && !ends s i) = true)
      s₂ after s₃) :
    (s₃.memory.inner.session.isSome = true ∧
      s₃.memory.inner.epoch = s₂.memory.inner.epoch) ∧
    ∀ (u : ℕ) (o' : Outside Token) (s₄ : State Token User) (pc : Pc Token User) (e : ℕ),
      keepsLogins s₃ (.run u o') = true → (system jwtExp).step s₃ (.run u o') = some s₄ →
        s₃.tasks[u]? = some pc → pc.startedFor = some e → e ≠ s₂.memory.inner.epoch →
          s₄.memory.inner = s₃.memory.inner := by
  have hlogin := kept_login (bounded hbefore.run) ht hkeeps hi
  have hkept : Kept (s₁.memory.inner.epoch + 1) s₃ :=
    hafter.invariant (P := Kept _) (fun s i _ hs hc hi => by
      obtain ⟨hkeeps, hends⟩ := Bool.and_eq_true_iff.mp hc
      exact hs.step hkeeps (by simpa using hends) hi) hlogin
  have hepoch : s₃.memory.inner.epoch = s₂.memory.inner.epoch := hkept.epoch.trans hlogin.epoch.symm
  refine ⟨⟨?_, hepoch⟩, fun u o' s₄ pc e hkeeps' hi' hu hpc he => ?_⟩
  · obtain ⟨y, hy, -, -⟩ := hkept.current hkept.epoch
    rw [hy]
    rfl
  · exact inner_of_startedFor hu hi' hkeeps' hpc (by rwa [hepoch])

/-! ## Runs -/

/-- A session whose access token has expired is about to be refreshed. -/
def expiring : List (Input ℕ ℕ) :=
  [.call (.authSetSession stored), tick 0 0, tick 0 0, .call .authGetToken, tick 1 2000,
    tick 1 2000, tick 1 2000]

def next : Session ℕ ℕ := { token := 11, refreshToken := some 12, user := 7 }

/-- The refresh token was rejected, and the epoch has been compared. -/
def deadChecked : List (Input ℕ ℕ) :=
  expiring ++ [answer 1 2000 401 "401 Unauthorized" 0 0, tick 1 2000,
    .call (.authSetSession next)]

def unreachable (now : ℤ) : Outside ℕ :=
  { now := now, reply := .unreachable "error sending request", io := .ok }

/-- The old session's rejection ends the login that comes between the comparison of the epochs
and the end of the session. -/
theorem rejection_ends_next_login :
    ¬ ∀ (file : CredentialFile ℕ ℕ) (before after : List (Input ℕ ℕ)) (s₁ s₂ s₃ : State ℕ ℕ)
        (t : ℕ) (o : Outside ℕ) (x : Session ℕ ℕ),
      (system sampleExp).Run (.init file) before s₁ → s₁.tasks[t]? = some (.setSession x) →
      (system sampleExp).step s₁ (.run t o) = some s₂ →
      (system sampleExp).Guarded (fun s i => (!ends s i) = true) s₂ after s₃ →
        s₃.memory.inner.session.isSome = true ∧
          s₃.memory.inner.epoch = s₂.memory.inner.epoch := by
  intro hclaim
  let s₁ := ((system sampleExp).exec (.init .absent) deadChecked).get (by decide +kernel)
  let s₂ := ((system sampleExp).step s₁ (tick 2 2000)).get (by decide +kernel)
  let s₃ := (((system sampleExp).restrict fun s i => !ends s i).exec s₂ [tick 1 2000]).get
    (by decide +kernel)
  have hlost : s₃.memory.inner.session.isSome = false := by decide +kernel
  have h := hclaim .absent deadChecked [tick 1 2000] s₁ s₂ s₃ 2 (unreachable 2000) next
    (StepSystem.exec_eq_some_iff.mp (Option.some_get _).symm) (by decide +kernel)
    (Option.some_get _).symm (StepSystem.exec_eq_some_iff.mp (Option.some_get _).symm).guarded
  simp [hlost] at h

/-- A refresh is under way when the next login comes. -/
def lateRefresh : List (Input ℕ ℕ) :=
  expiring ++ [.call (.authSetSession next)]

def lateAnswer : List (Input ℕ ℕ) :=
  [tick 2 2000, answer 1 2000 200 "200 OK" 3 4]

theorem login_lasts_lateRefresh : ∃ s₂ s₃ s₄ : State ℕ ℕ,
    s₃.memory.inner.session.isSome = true ∧ s₃.memory.inner.epoch = s₂.memory.inner.epoch ∧
      s₄.memory.inner = s₃.memory.inner := by
  let s₁ := (((system sampleExp).restrict keepsLogins).exec (.init .absent) lateRefresh).get
    (by decide +kernel)
  let s₂ := ((system sampleExp).step s₁ (tick 2 2000)).get (by decide +kernel)
  let s₃ := (((system sampleExp).restrict fun s i => keepsLogins s i && !ends s i).exec s₂
    lateAnswer).get (by decide +kernel)
  let s₄ := ((system sampleExp).step s₃ (tick 1 2000)).get (by decide +kernel)
  have hbefore : ((system sampleExp).restrict keepsLogins).Run (.init .absent) lateRefresh s₁ :=
    StepSystem.exec_eq_some_iff.mp (Option.some_get _).symm
  have hlogin : (system sampleExp).step s₁ (.run 2 (unreachable 2000)) = some s₂ :=
    (Option.some_get _).symm
  have hafter : ((system sampleExp).restrict fun s i => keepsLogins s i && !ends s i).Run s₂
      lateAnswer s₃ := StepSystem.exec_eq_some_iff.mp (Option.some_get _).symm
  have h := login_lasts (x := next) hbefore.guarded (by decide +kernel) (by decide +kernel) hlogin
    hafter.guarded
  exact ⟨s₂, s₃, s₄, h.1.1, h.1.2, h.2 1 (unreachable 2000) s₄ _ 1 (by decide +kernel)
    (Option.some_get _).symm (Option.some_get (by decide +kernel)).symm (by decide +kernel)
    (by decide +kernel)⟩

/-! # What a command answers

A token that a command of the session answers is one that it has carried along, and it picks a token
up only where the session has it.
-/

variable {Token User : Type*} {jwtExp : Token → Option ℤ} {now : ℤ} {o : Outside Token}

/-- The token that `valid_token` falls back to. -/
def Caller.tokens : Caller Token → List Token
  | .authRefresh _ => []
  | .validToken current _ => [current]

/-- The tokens that a command may answer without reading the session again. -/
def Pc.tokens : Pc Token User → List Token
  | .awaitRefresh c | .readSession c | .post c _ _ _ | .store c _ _ _ | .checkDead c _
  | .readToken c | .endSession (.expired _ c) | .delete (.expired _ c) => c.tokens
  | .persist (.refresh c) s => s.token :: c.tokens
  | .finished (.token (.ok (some token))) => [token]
  | _ => []

theorem tokens_start (c : Command Token User) : c.start.tokens = [] := by
  cases c with
  | authRefresh staleToken => cases staleToken <;> rfl
  | _ => rfl

variable {r : Except String (Option Token)} {token : Token}

theorem Asker.tokens_resume {a : Asker} (h : token ∈ (a.resume r : Pc Token User).tokens) :
    r = .ok (some token) := by
  cases a with
  | getToken =>
      match r with
      | .ok (some token') => rw [List.mem_singleton.mp h]
      | .ok none => cases h
      | .error error => cases h
  | restore loadedNow =>
      match r, loadedNow with
      | .ok (some token'), _ => cases h
      | .ok none, _ => cases h
      | .error error, some loadedAt => cases h
      | .error error, none => cases h

theorem Caller.tokens_resume {c : Caller Token}
    (h : token ∈ (c.resume jwtExp now r : Pc Token User).tokens) :
    r = .ok (some token) ∨ token ∈ c.tokens := by
  cases c with
  | authRefresh stale =>
      match r with
      | .ok (some token') => exact .inl (by rw [List.mem_singleton.mp h])
      | .ok none => cases h
      | .error error => cases h
  | validToken current asker =>
      cases r with
      | ok answer => exact .inl (Asker.tokens_resume h)
      | error error =>
          rw [Caller.resume] at h
          split at h
          · have heq := Asker.tokens_resume h
            rw [Except.ok.injEq, Option.some.injEq] at heq
            exact .inr (heq ▸ List.mem_singleton_self _)
          · cases Asker.tokens_resume h

variable [DecidableEq Token] {held : Bool} {m m' : Memory Token User} {pc pc' : Pc Token User}

theorem reading_tokens {c : Caller Token} {i : Inner Token User}
    (h : token ∈ (reading jwtExp now c i).tokens) : i.token = some token ∨ token ∈ c.tokens := by
  unfold reading at h
  split at h
  · rcases Caller.tokens_resume h with heq | hmem
    · cases heq
    · exact .inr hmem
  · rename_i s hs
    split at h
    · rcases Caller.tokens_resume h with heq | hmem
      · rw [Except.ok.injEq] at heq
        exact .inl (by rw [Inner.token, hs, ← heq]; rfl)
      · exact .inr hmem
    · split at h
      · exact .inr h
      · exact .inr h

/-- What a command carries along it has carried before, or the session has it. -/
theorem advance_tokens (h : advance jwtExp o held m pc = some (m', pc'))
    (htoken : token ∈ pc'.tokens) : token ∈ pc.tokens ∨ m'.inner.token = some token := by
  cases advance_cases h with
  | setLoaded =>
      unfold Inner.setLoaded at htoken
      split at htoken
      · cases htoken
      · split at htoken
        · cases htoken
        · split at htoken <;> cases htoken
  | noToken _ => cases Asker.tokens_resume htoken
  | stale ht _ =>
      rw [List.mem_singleton.mp htoken]
      exact .inr ht
  | valid ht _ =>
      have heq := Asker.tokens_resume htoken
      rw [Except.ok.injEq] at heq
      exact .inr (ht.trans heq)
  | awaitRefresh _ | overtaken _ | dead | replaced _ => exact .inl htoken
  | readSession => exact (reading_tokens htoken).symm
  | post =>
      unfold answered at htoken
      split at htoken
      · exact .inl htoken
      · exact .inl htoken
      · rcases Caller.tokens_resume htoken with heq | hmem
        · cases heq
        · exact .inl hmem
  | store _ =>
      rcases List.mem_cons.mp htoken with rfl | hmem
      · exact .inr rfl
      · exact .inl hmem
  | readToken =>
      rcases Caller.tokens_resume htoken with heq | hmem
      · rw [Except.ok.injEq] at heq
        exact .inr heq
      · exact .inl hmem
  | @endSession e =>
      cases e with
      | logout => cases htoken
      | expired epoch c => exact .inl htoken
  | refreshed =>
      rcases Caller.tokens_resume htoken with heq | hmem
      · rw [Except.ok.injEq, Option.some.injEq] at heq
        exact .inl (heq ▸ List.mem_cons_self)
      · exact .inl (List.mem_cons_of_mem _ hmem)
  | expired =>
      rcases Caller.tokens_resume htoken with heq | hmem
      · cases heq
      · exact .inl hmem
  | live _ | restore _ | loadCredentials | currentUser _ | offline | setSession | notLoggedIn _
  | setUser _ | loggedIn | userSaved | loggedOut => cases htoken

end SpecterComs.DesktopSession
