import SpecterComs.Verification.Desktop.Logins
import Mathlib.Algebra.GroupWithZero.Nat

/-! # One refresh at a time

A redemption is adopted when its tokens become those of the session. Whoever is about to redeem a
token has read it from the session since, under `REFRESH`; so the token that was redeemed is gone
for good, unless something brings it back into the session.
-/

namespace SpecterComs.DesktopSession

variable {Token User : Type*} {jwtExp : Token → Option ℤ} {now : ℤ} {o : Outside Token}
  {rt n : Token}

/-! ## Redemptions -/

/-- The refresh token that is about to be sent to the server. -/
def Pc.redeems : Pc Token User → Option Token
  | .post _ _ _ refreshToken => some refreshToken
  | _ => none

/-- The refresh token that the step puts into the session: of a login, of the file, or of the
server. -/
def Pc.brings (m : Memory Token User) : Pc Token User → Option Token
  | .setSession s => s.refreshToken
  | .setLoaded saved =>
      if m.inner.loaded || m.inner.session.isSome then none
      else (saved.bind SavedSession.session).bind Session.refreshToken
  | .store _ _ epoch fresh =>
      if m.inner.epoch ≠ epoch ∨ m.inner.session.isNone then none else some fresh.refreshToken
  | _ => none

/-- The session does not have the token, and nobody is about to redeem it. -/
structure Gone (rt : Token) (s : State Token User) : Prop where
  session : s.memory.inner.refreshToken ≠ some rt
  tasks : ∀ pc ∈ s.tasks, pc.redeems ≠ some rt

@[simp] theorem redeems_start (c : Command Token User) : c.start.redeems = none := by
  cases c with
  | authRefresh staleToken => cases staleToken <;> rfl
  | _ => rfl

@[simp] theorem redeems_asker_resume (a : Asker) (r : Except String (Option Token)) :
    (a.resume r : Pc Token User).redeems = none := by
  unfold Asker.resume
  split <;> rfl

@[simp] theorem redeems_caller_resume (c : Caller Token) (r : Except String (Option Token)) :
    (c.resume jwtExp now r : Pc Token User).redeems = none := by
  unfold Caller.resume
  split
  · rfl
  · split <;> simp
  · simp

@[simp] theorem redeems_setLoaded (i : Inner Token User) (saved : Option (SavedSession Token User)) :
    (i.setLoaded saved).2.redeems = none := by
  unfold Inner.setLoaded
  split
  · rfl
  · split
    · rfl
    · split <;> rfl

variable [DecidableEq Token] {held : Bool} {m m' : Memory Token User} {pc pc' : Pc Token User}

def brings (rt : Token) (s : State Token User) : Input Token User → Bool
  | .call _ => false
  | .run t _ => s.tasks[t]?.any fun pc => pc.brings s.memory = some rt

variable {c : Caller Token} {i : Inner Token User}

/-- What is about to be redeemed is the session's. -/
theorem reading_redeems (h : (reading jwtExp now c i).redeems = some rt) : i.refreshToken = some rt := by
  unfold reading at h
  split at h
  · simp at h
  · rename_i s hs
    split at h
    · simp at h
    · split at h
      · cases h
      · rename_i refreshToken hrt
        rw [Inner.refreshToken, hs, Option.bind_some, hrt]
        exact h

theorem advance_redeems (h : advance jwtExp o held m pc = some (m', pc'))
    (hpc : pc'.redeems = some rt) : m.inner.refreshToken = some rt := by
  cases advance_cases h with
  | readSession => exact reading_redeems hpc
  | post =>
      unfold answered at hpc
      split at hpc
      · cases hpc
      · cases hpc
      · simp at hpc
  | setLoaded | noToken _ | valid _ _ | readToken | refreshed | expired => simp at hpc
  | _ => cases hpc

/-- A token that the session gets is brought by a login, by the file or by the server. -/
theorem advance_refreshToken (h : advance jwtExp o held m pc = some (m', pc'))
    (hrt : m'.inner.refreshToken = some rt) :
    m.inner.refreshToken = some rt ∨ pc.brings m = some rt := by
  cases hw : pc.write with
  | some w =>
      rw [(advance_of_write h hw).1] at hrt
      exact .inl hrt
  | none =>
      have heffect := (advance_of_not_write h hw).2
      generalize m'.inner = inner at heffect hrt
      cases heffect with
      | quiet _ => exact .inl hrt
      | restored hfree hsession _ _ =>
          refine .inr ?_
          rw [Pc.brings, hfree, if_neg (by simp), ← hsession]
          exact hrt
      | offline _ => cases hrt
      | login => exact .inr hrt
      | refreshed hs =>
          refine .inr ?_
          rw [Pc.brings, if_neg (by simp [hs])]
          exact hrt
      | userSet hs =>
          refine .inl ?_
          rw [Inner.refreshToken, hs]
          exact hrt
      | ended => cases hrt

variable {s s' s₁ s₂ s₃ : State Token User} {t : ℕ}

theorem Gone.step {i : Input Token User} (hs : Gone rt s) (hi : (system jwtExp).step s i = some s')
    (hfree : brings rt s i = false) : Gone rt s' := by
  cases i with
  | call c =>
      rw [step_call_eq hi]
      refine ⟨hs.session, fun p hp => ?_⟩
      rcases List.mem_append.mp hp with hp | hp
      · exact hs.tasks p hp
      · rw [List.mem_singleton.mp hp, redeems_start]
        nofun
  | run t o =>
      obtain ⟨pc, m', pc', ht, h, rfl⟩ := step_run_iff.mp hi
      refine ⟨fun hrt => ?_, fun p hp => ?_⟩
      · rcases advance_refreshToken h hrt with hold | hbrings
        · exact hs.session hold
        · simp [brings, ht, hbrings] at hfree
      · rcases List.mem_or_eq_of_mem_set hp with hp | rfl
        · exact hs.tasks p hp
        · exact fun hpc => hs.session (advance_redeems h hpc)

/-! ## Adoption -/

/-- Task `t` is about to adopt the tokens that the server gave for `rt`, the access token `n` among
them. -/
def Adopts (s : State Token User) (t : ℕ) (rt n : Token) : Prop :=
  ∃ c x fresh, s.tasks[t]? = some (.store c x s.memory.inner.epoch fresh) ∧
    s.memory.inner.session.isSome ∧ x.refreshToken = some rt ∧ fresh.token = n

/-- `Adopts`, computed. -/
def adopts (s : State Token User) (t : ℕ) (rt n : Token) : Bool :=
  match s.tasks[t]? with
  | some (.store _ x epoch fresh) =>
      epoch = s.memory.inner.epoch && s.memory.inner.session.isSome &&
        x.refreshToken = some rt && fresh.token = n
  | _ => false

theorem Adopts.of_eq_true (h : adopts s t rt n = true) : Adopts s t rt n := by
  unfold adopts at h
  split at h
  · rename_i c x epoch fresh ht
    simp only [Bool.and_eq_true, decide_eq_true_eq] at h
    obtain ⟨⟨⟨rfl, hsome⟩, hrt⟩, hn⟩ := h
    exact ⟨c, x, fresh, ht, hsome, hrt, hn⟩
  · cases h

theorem Adopts.advance (h : Adopts s t rt n) (hi : (system jwtExp).step s (.run t o) = some s') :
    ∃ c x fresh, s.tasks[t]? = some (.store c x s.memory.inner.epoch fresh) ∧ fresh.token = n ∧
      s' = { s with
        memory.inner.session := some { x with token := n, refreshToken := some fresh.refreshToken }
        tasks := s.tasks.set t (.persist (.refresh c)
          { x with token := n, refreshToken := some fresh.refreshToken }) } := by
  obtain ⟨c, x, fresh, ht, hsome, -, rfl⟩ := h
  obtain ⟨pc, m', pc', ht', h, rfl⟩ := step_run_iff.mp hi
  obtain rfl := Option.some.inj (ht.symm.trans ht')
  have hlive : ¬ (s.memory.inner.epoch ≠ s.memory.inner.epoch ∨ s.memory.inner.session.isNone) := by
    simpa [Option.isSome_iff_ne_none] using hsome
  rw [DesktopSession.advance, if_neg hlive] at h
  obtain ⟨rfl, rfl⟩ := by simpa using h
  exact ⟨c, x, fresh, ht, rfl, rfl⟩

omit [DecidableEq Token] in
theorem holdsRefresh_of_redeems (h : pc.redeems = some rt) : pc.holdsRefresh = true := by
  cases pc with
  | post c x epoch refreshToken => rfl
  | _ => cases h

theorem Adopts.gone (h : Adopts s t rt n) (hs : Exclusive s.tasks)
    (hi : (system jwtExp).step s (.run t o) = some s') (hfree : brings rt s (.run t o) = false) :
    Gone rt s' := by
  obtain ⟨c, x, fresh, ht, -, rfl⟩ := h.advance hi
  refine ⟨fun hrt => ?_, fun p hp => ?_⟩
  · obtain ⟨-, -, -, -, hsome, -, -⟩ := h
    have hbrings : (Pc.store c x s.memory.inner.epoch fresh).brings s.memory = some rt := by
      rw [Pc.brings, if_neg (by simpa [Option.isSome_iff_ne_none] using hsome)]
      exact hrt
    simp [brings, ht, hbrings] at hfree
  · -- nobody else holds `REFRESH`
    obtain ⟨j, hj⟩ := List.mem_iff_getElem?.mp hp
    rcases getElem?_set_cases hj with ⟨-, rfl⟩ | ⟨hjt, hj⟩
    · nofun
    · exact fun hredeems => hjt (hs j t p _ hj ht (holdsRefresh_of_redeems hredeems) rfl)

/-! ## Callers after an adoption -/

/-- The caller does not hold `n` for stale, and it is a window's. -/
def Caller.Asks (n : Token) : Caller Token → Prop
  | .authRefresh stale => stale ≠ n
  | .validToken _ asker => asker = .getToken

/-- A call of `auth_get_token` or `auth_refresh` that is still to look at the session, or that
answers `n`. -/
def Pc.Served (n : Token) : Pc Token User → Prop
  | .validToken asker => asker = .getToken
  | .awaitRefresh c | .readSession c => c.Asks n
  | .persist (.refresh c) s => c.Asks n ∧ s.token = n
  | .finished outcome => outcome = .token (.ok (some n))
  | _ => False

/-- The caller does not hold `n` for stale. -/
def Caller.Differs (n : Token) : Caller Token → Prop
  | .authRefresh stale => stale ≠ n
  | .validToken _ _ => True

/-- Nobody here replaces the token `n` by a refresh, or asks for it to be replaced. -/
def Pc.Calm (n : Token) : Pc Token User → Prop
  | .awaitRefresh c | .readSession c => c.Differs n
  | .post _ _ _ _ | .store _ _ _ _ | .checkDead _ _ | .readToken _
  | .endSession (.expired _ _) | .delete (.expired _ _) => False
  | _ => True

/-- The clock is before the time to refresh `n`, and nobody asks for `n` to be replaced. -/
def Undue (jwtExp : Token → Option ℤ) (n : Token) : Input Token User → Prop
  | .call (.authRefresh (some stale)) => stale ≠ n
  | .call _ => True
  | .run _ o => needsRefresh jwtExp o.now n = false

omit [DecidableEq Token] in
theorem calm_start {c : Command Token User} (h : Undue jwtExp n (.call c)) : c.start.Calm n := by
  cases c with
  | authRefresh staleToken =>
      cases staleToken with
      | none => trivial
      | some stale => exact h
  | _ => trivial

omit [DecidableEq Token] in
theorem Asker.calm_resume (a : Asker) (r : Except String (Option Token)) :
    (a.resume r : Pc Token User).Calm n := by
  cases a with
  | getToken => trivial
  | restore loadedNow =>
      cases r with
      | ok token => cases token <;> trivial
      | error error => cases loadedNow <;> trivial

omit [DecidableEq Token] in
theorem Caller.calm_resume (c : Caller Token) (r : Except String (Option Token)) :
    (c.resume jwtExp now r : Pc Token User).Calm n := by
  cases c with
  | authRefresh stale => trivial
  | validToken t asker =>
      cases r with
      | ok token => exact asker.calm_resume _
      | error error =>
          rw [Caller.resume]
          split <;> exact asker.calm_resume _

/-- Who looks at the session finds `n`. -/
theorem reading_of_differs (hc : c.Differs n) (hi : i.token = some n)
    (hnow : needsRefresh jwtExp now n = false) :
    reading jwtExp now c i = c.resume jwtExp now (.ok (some n)) := by
  obtain ⟨s, hs, rfl⟩ := Option.map_eq_some_iff.mp hi
  have hfresh : c.alreadyFresh jwtExp now s.token = true := by
    cases c with
    | authRefresh stale => exact decide_eq_true (Ne.symm hc)
    | validToken t asker => rw [Caller.alreadyFresh, hnow]; rfl
  simp only [reading, hs, if_pos hfresh]

theorem advance_validToken {a : Asker} (hi : m.inner.token = some n)
    (hnow : needsRefresh jwtExp o.now n = false) :
    advance jwtExp o held m (.validToken a) = some (m, a.resume (.ok (some n))) := by
  simp [advance, hi, hnow]

/-- While the epoch stays, a calm step keeps the token. -/
theorem advance_calm (h : advance jwtExp o held m pc = some (m', pc')) (hpc : pc.Calm n)
    (hi : m.inner.token = some n) (hnow : needsRefresh jwtExp o.now n = false)
    (hepoch : m'.inner.epoch = m.inner.epoch) : m'.inner.token = some n ∧ pc'.Calm n := by
  cases advance_cases h with
  | live _ | restore _ | loadCredentials | currentUser _ | notLoggedIn _ | loggedIn | userSaved
  | loggedOut => exact ⟨hi, trivial⟩
  | setLoaded =>
      obtain ⟨x, hx, -⟩ := Option.map_eq_some_iff.mp hi
      rw [setLoaded_of_live (by simp [hx])]
      exact ⟨hi, trivial⟩
  | noToken _ | valid _ _ => exact ⟨hi, Asker.calm_resume _ _⟩
  | stale ht hstale =>
      obtain rfl := Option.some.inj (ht.symm.trans hi)
      rw [hnow] at hstale
      cases hstale
  | awaitRefresh _ => exact ⟨hi, hpc⟩
  | readSession =>
      rw [reading_of_differs hpc hi hnow]
      exact ⟨hi, Caller.calm_resume _ _⟩
  | offline | setSession => exact absurd hepoch (Nat.succ_ne_self _)
  | setUser hx =>
      rw [Inner.token, hx] at hi
      exact ⟨hi, trivial⟩
  | @endSession e =>
      cases e with
      | logout => exact absurd hepoch (Nat.succ_ne_self _)
      | expired epoch c => cases hpc
  | refreshed => exact ⟨hi, Caller.calm_resume _ _⟩
  | post | overtaken _ | store _ | dead | replaced _ | readToken | expired => cases hpc

omit [DecidableEq Token] in
theorem Caller.Asks.resume (h : c.Asks n) :
    (c.resume jwtExp now (.ok (some n)) : Pc Token User) = .finished (.token (.ok (some n))) := by
  cases c with
  | authRefresh stale => rfl
  | validToken t asker =>
      obtain rfl : asker = .getToken := h
      rfl

omit [DecidableEq Token] in
theorem Caller.Asks.differs (h : c.Asks n) : c.Differs n := by
  cases c with
  | authRefresh stale => exact h
  | validToken t asker => trivial

/-- A caller that finds `n` in the session is on its way to answer it. -/
theorem advance_served (h : advance jwtExp o held m pc = some (m', pc')) (hpc : pc.Served n)
    (hi : m.inner.token = some n) (hnow : needsRefresh jwtExp o.now n = false) : pc'.Served n := by
  cases pc with
  | validToken asker =>
      obtain rfl : asker = .getToken := hpc
      rw [advance_validToken hi hnow] at h
      obtain ⟨rfl, rfl⟩ := Prod.mk.inj (Option.some.inj h)
      rfl
  | awaitRefresh c =>
      cases advance_cases h with
      | awaitRefresh _ => exact hpc
  | readSession c =>
      have hc : c.Asks n := hpc
      cases advance_cases h with
      | readSession =>
          rw [reading_of_differs hc.differs hi hnow, hc.resume]
          rfl
  | persist saver x =>
      cases saver with
      | refresh c =>
          obtain ⟨hc, rfl⟩ : c.Asks n ∧ x.token = n := hpc
          cases advance_cases h with
          | refreshed =>
              rw [hc.resume]
              rfl
      | _ => cases hpc
  | finished outcome => cases h
  | _ => cases hpc

/-- The session has the token `n`, and nobody is about to replace it by a refresh. -/
structure Calm (n : Token) (s : State Token User) : Prop where
  token : s.memory.inner.token = some n
  tasks : ∀ pc ∈ s.tasks, pc.Calm n

theorem epoch_le_step {i : Input Token User} (hi : (system jwtExp).step s i = some s') :
    s.memory.inner.epoch ≤ s'.memory.inner.epoch := by
  cases i with
  | call c =>
      obtain rfl := step_call_eq hi
      exact Nat.le_refl _
  | run t o =>
      obtain ⟨pc, m', pc', ht, h, rfl⟩ := step_run_iff.mp hi
      exact advance_epoch_le h

variable {is : List (Input Token User)}

theorem epoch_le_run (h : (system jwtExp).Run s is s') :
    s.memory.inner.epoch ≤ s'.memory.inner.epoch := by
  induction h with
  | nil => exact Nat.le_refl _
  | cons hi _ ih => exact Nat.le_trans (epoch_le_step hi) ih

theorem Calm.step {i : Input Token User} (hs : Calm n s)
    (hi : (system jwtExp).step s i = some s') (hdue : Undue jwtExp n i)
    (hepoch : s'.memory.inner.epoch = s.memory.inner.epoch) : Calm n s' := by
  cases i with
  | call c =>
      rw [step_call_eq hi]
      refine ⟨hs.token, fun p hp => ?_⟩
      rcases List.mem_append.mp hp with hp | hp
      · exact hs.tasks p hp
      · rw [List.mem_singleton.mp hp]
        exact calm_start hdue
  | run t o =>
      obtain ⟨pc, m', pc', ht, h, rfl⟩ := step_run_iff.mp hi
      obtain ⟨htoken, hcalm⟩ :=
        advance_calm h (hs.tasks pc (List.mem_of_getElem? ht)) hs.token hdue hepoch
      refine ⟨htoken, fun p hp => ?_⟩
      rcases List.mem_or_eq_of_mem_set hp with hp | rfl
      · exact hs.tasks p hp
      · exact hcalm

/-- Task `k` is served. -/
def ServedAt (n : Token) (k : ℕ) (s : State Token User) : Prop :=
  ∃ pc, s.tasks[k]? = some pc ∧ pc.Served n

theorem ServedAt.step {i : Input Token User} {k : ℕ} (hk : ServedAt n k s) (hs : Calm n s)
    (hi : (system jwtExp).step s i = some s') (hdue : Undue jwtExp n i) : ServedAt n k s' := by
  obtain ⟨p, hp, hserved⟩ := hk
  cases i with
  | call c =>
      rw [step_call_eq hi]
      have hlt := (List.getElem?_eq_some_iff.mp hp).1
      exact ⟨p, by rw [List.getElem?_append_left hlt, hp], hserved⟩
  | run t o =>
      obtain ⟨pc, m', pc', ht, h, rfl⟩ := step_run_iff.mp hi
      by_cases hkt : t = k
      · subst hkt
        obtain rfl := Option.some.inj (ht.symm.trans hp)
        have hlt := (List.getElem?_eq_some_iff.mp ht).1
        exact ⟨pc', by rw [List.getElem?_set_self hlt], advance_served h hserved hs.token hdue⟩
      · exact ⟨p, by rw [List.getElem?_set_ne hkt, hp], hserved⟩

/-- What the calm keeps while the session is not replaced. -/
theorem Calm.run (hs : Calm n s) (h : (system jwtExp).Run s is s')
    (hdue : ∀ i ∈ is, Undue jwtExp n i) (hepoch : s'.memory.inner.epoch = s.memory.inner.epoch) :
    Calm n s' ∧ ∀ k, ServedAt n k s → ServedAt n k s' := by
  induction h with
  | nil s => exact ⟨hs, fun _ hk => hk⟩
  | @cons s u s' i is hi hrest ih =>
      have hsame : u.memory.inner.epoch = s.memory.inner.epoch :=
        Nat.le_antisymm (hepoch ▸ epoch_le_run hrest) (epoch_le_step hi)
      have hfirst := hdue i List.mem_cons_self
      obtain ⟨hcalm, hserved⟩ := ih (hs.step hi hfirst hsame)
        (fun j hj => hdue j (List.mem_cons_of_mem i hj)) (hepoch.trans hsame.symm)
      exact ⟨hcalm, fun k hk => hserved k (hk.step hs hi hfirst)⟩

omit [DecidableEq Token] in
theorem calm_of_free (h : pc.holdsRefresh = false)
    (hwaits : ∀ stale, pc = .awaitRefresh (.authRefresh stale) → stale ≠ n) : pc.Calm n := by
  cases pc with
  | awaitRefresh c =>
      cases c with
      | authRefresh stale => exact hwaits stale rfl
      | validToken t asker => trivial
  | endSession e | delete e =>
      cases e with
      | logout => trivial
      | expired epoch c => cases h
  | readSession c | post c x epoch refreshToken | store c x epoch fresh | checkDead c epoch
  | readToken c => cases h
  | _ => trivial

theorem Adopts.calm (h : Adopts s t rt n) (hs : Exclusive s.tasks)
    (hi : (system jwtExp).step s (.run t o) = some s')
    (hwaits : ∀ stale, .awaitRefresh (.authRefresh stale) ∈ s'.tasks → stale ≠ n) : Calm n s' := by
  obtain ⟨c, x, fresh, ht, -, rfl⟩ := h.advance hi
  refine ⟨rfl, fun p hp => ?_⟩
  obtain ⟨j, hj⟩ := List.mem_iff_getElem?.mp hp
  rcases getElem?_set_cases hj with ⟨-, rfl⟩ | ⟨hjt, hj⟩
  · trivial
  · refine calm_of_free ?_ fun stale hstale => hwaits stale (hstale ▸ hp)
    cases hholds : p.holdsRefresh with
    | false => rfl
    | true => exact absurd (hs j t p _ hj ht hholds rfl) hjt

/-! ## All answered -/

/-- No command has a step left to make. -/
def Quiescent (jwtExp : Token → Option ℤ) (s : State Token User) : Prop :=
  ∀ k o, (system jwtExp).step s (.run k o) = none

/-- A command that does not wait for `REFRESH` goes on. -/
theorem advance_isSome (hfinished : pc.isFinished = false)
    (hwaits : ∀ c, pc ≠ .awaitRefresh c) : (advance jwtExp o held m pc).isSome := by
  cases pc with
  | awaitRefresh c => exact absurd rfl (hwaits c)
  | finished outcome => cases hfinished
  | restore | validToken asker | store c x epoch fresh | checkDead c epoch | currentUser error
  | setUser user =>
      simp only [advance]
      split <;> (try split) <;> rfl
  | persist saver x => cases saver <;> rfl
  | delete e => cases e <;> rfl
  | _ => rfl

variable {k : ℕ}

theorem Quiescent.stuck (hs : Quiescent jwtExp s) (hk : s.tasks[k]? = some pc) (o : Outside Token) :
    advance jwtExp o s.refreshHeld s.memory pc = none := by
  cases h : advance jwtExp o s.refreshHeld s.memory pc with
  | none => rfl
  | some r =>
      have hstep := step_run_iff.mpr ⟨pc, r.1, r.2, hk, h, rfl⟩
      rw [hs k o] at hstep
      cases hstep

theorem Quiescent.finished (hs : Quiescent jwtExp s) (hk : s.tasks[k]? = some pc) :
    pc.isFinished = true := by
  let o : Outside Token := ⟨0, .unreachable "", .ok⟩
  have hgoes : ∀ {k : ℕ} {pc : Pc Token User}, s.tasks[k]? = some pc →
      (∀ c, pc ≠ .awaitRefresh c) → pc.isFinished = true := by
    intro k pc hk hwaits
    cases hfinished : pc.isFinished with
    | true => rfl
    | false =>
        have hsome : (advance jwtExp o s.refreshHeld s.memory pc).isSome :=
          advance_isSome hfinished hwaits
        rw [hs.stuck hk o] at hsome
        cases hsome
  cases pc with
  | awaitRefresh c =>
      have hheld : s.refreshHeld = true := by
        cases hfree : s.refreshHeld with
        | true => rfl
        | false =>
            have hnone := hs.stuck hk o
            rw [hfree] at hnone
            cases hnone
      obtain ⟨q, hq, hholds⟩ := List.any_eq_true.mp hheld
      obtain ⟨j, hj⟩ := List.mem_iff_getElem?.mp hq
      have hfinished := hgoes hj (by rintro c rfl; cases hholds)
      cases q with
      | finished outcome => cases hholds
      | _ => cases hfinished
  | _ => exact hgoes hk nofun

/-- How many steps a command has left at most. -/
def Pc.left : Pc Token User → ℕ
  | .restore => 11
  | .loadCredentials => 10
  | .setLoaded _ => 9
  | .validToken _ => 8
  | .awaitRefresh _ => 7
  | .readSession _ => 6
  | .post _ _ _ _ => 5
  | .checkDead _ _ => 4
  | .store _ _ _ _ | .endSession _ | .setSession _ | .setUser _ => 3
  | .readToken _ | .persist _ _ | .delete _ => 2
  | .currentUser _ | .offline _ _ => 1
  | .finished _ => 0

omit [DecidableEq Token] in
theorem left_asker_resume (a : Asker) (r : Except String (Option Token)) :
    (a.resume r : Pc Token User).left ≤ 1 := by
  unfold Asker.resume
  split <;> simp [Pc.left]

omit [DecidableEq Token] in
theorem left_caller_resume (c : Caller Token) (r : Except String (Option Token)) :
    (c.resume jwtExp now r : Pc Token User).left ≤ 1 := by
  unfold Caller.resume
  split
  · exact Nat.zero_le _
  · split <;> exact left_asker_resume _ _
  · exact left_asker_resume _ _

omit [DecidableEq Token] in
theorem left_setLoaded (i : Inner Token User) (saved : Option (SavedSession Token User)) :
    (i.setLoaded saved).2.left ≤ 8 := by
  unfold Inner.setLoaded
  split
  · exact Nat.le_refl _
  · split
    · exact Nat.le_refl _
    · split <;> exact Nat.zero_le _

theorem left_reading (c : Caller Token) (i : Inner Token User) :
    (reading jwtExp now c i).left ≤ 5 := by
  have hresume : ∀ r, (c.resume jwtExp now r : Pc Token User).left ≤ 5 := fun r =>
    Nat.le_trans (left_caller_resume c r) (by decide)
  unfold reading
  split
  · exact hresume _
  · split
    · exact hresume _
    · split
      · exact (by decide : 3 ≤ 5)
      · exact Nat.le_refl _

omit [DecidableEq Token] in
theorem left_answered (c : Caller Token) (x : Session Token User) (epoch : ℕ) :
    (answered jwtExp o c x epoch).left ≤ 4 := by
  unfold answered
  split
  · exact (by decide : 3 ≤ 4)
  · exact Nat.le_refl _
  · exact Nat.le_trans (left_caller_resume c _) (by decide)

/-- Every step brings a command nearer to its end. -/
theorem advance_left (h : advance jwtExp o held m pc = some (m', pc')) : pc'.left < pc.left := by
  have hasker : ∀ (a : Asker) (r : Except String (Option Token)),
      (a.resume r : Pc Token User).left < 2 := fun a r => Nat.lt_succ_of_le (left_asker_resume a r)
  have hcaller : ∀ (c : Caller Token) (r : Except String (Option Token)),
      (c.resume jwtExp o.now r : Pc Token User).left < 2 := fun c r =>
    Nat.lt_succ_of_le (left_caller_resume c r)
  cases advance_cases h with
  | setLoaded => exact Nat.lt_succ_of_le (left_setLoaded _ _)
  | noToken _ | valid _ _ => exact Nat.lt_trans (hasker _ _) (by simp [Pc.left])
  | readSession => exact Nat.lt_succ_of_le (left_reading _ _)
  | post => exact Nat.lt_succ_of_le (left_answered _ _ _)
  | readToken | refreshed | expired => exact hcaller _ _
  | _ => simp [Pc.left]

def State.left (s : State Token User) : ℕ :=
  (s.tasks.map Pc.left).sum

omit [DecidableEq Token] in
theorem sum_left_set {tasks : List (Pc Token User)} (hk : tasks[k]? = some pc)
    (hless : pc'.left < pc.left) :
    ((tasks.set k pc').map Pc.left).sum < (tasks.map Pc.left).sum := by
  induction tasks generalizing k with
  | nil => cases hk
  | cons p tasks ih =>
      cases k with
      | zero =>
          obtain rfl := Option.some.inj hk
          rw [List.set_cons_zero, List.map_cons, List.map_cons, List.sum_cons, List.sum_cons]
          omega
      | succ k =>
          have hrest := ih hk
          rw [List.set_cons_succ, List.map_cons, List.map_cons, List.sum_cons, List.sum_cons]
          omega

theorem length_le_left (h : (system jwtExp).Run s is s') (hruns : ∀ i ∈ is, ∃ k o, i = .run k o) :
    is.length ≤ s.left := by
  induction h with
  | nil => exact Nat.zero_le _
  | @cons s u s' i is hi hrest ih =>
      obtain ⟨k, o, rfl⟩ := hruns i List.mem_cons_self
      obtain ⟨pc, m', pc', hk, h, rfl⟩ := step_run_iff.mp hi
      have hfirst := sum_left_set hk (advance_left h)
      have hrest := ih fun j hj => hruns j (List.mem_cons_of_mem _ hj)
      rw [List.length_cons]
      simp only [State.left] at hrest ⊢
      omega

theorem ServedAt.answered {k : ℕ} (h : ServedAt n k s) (hs : Quiescent jwtExp s) :
    s.tasks[k]? = some (.finished (.token (.ok (some n)))) := by
  obtain ⟨pc, hk, hserved⟩ := h
  have hfinished := hs.finished hk
  cases pc with
  | finished outcome =>
      obtain rfl : outcome = .token (.ok (some n)) := hserved
      exact hk
  | _ => cases hfinished

/-! ## The whole -/

/-- After an adoption the token that was redeemed is not redeemed again unless it is brought back
into the session. Until a login or a logout replaces the session, a call of `auth_get_token` or
`auth_refresh` that comes then gets the new access token, and nobody redeems anything, while the
clock does not ask for a refresh and nobody holds the new token for stale. -/
theorem adopted_once {file : CredentialFile Token User}
    {before between after : List (Input Token User)} {u : State Token User}
    (hbefore : (system jwtExp).Run (.init file) before s₁)
    (hadopts : Adopts s₁ t rt n) (hi : (system jwtExp).step s₁ (.run t o) = some s₂)
    (hbetween : (system jwtExp).Run s₂ between u) (hafter : (system jwtExp).Run u after s₃) :
    ((system jwtExp).Guarded (fun s i => (!brings rt s i) = true) s₁
        (.run t o :: (between ++ after)) s₃ → ∀ pc ∈ s₃.tasks, pc.redeems ≠ some rt) ∧
    ((∀ stale, .awaitRefresh (.authRefresh stale) ∈ s₂.tasks → stale ≠ n) →
      (∀ i ∈ between ++ after, Undue jwtExp n i) →
      s₃.memory.inner.epoch = s₂.memory.inner.epoch →
        (∀ pc ∈ s₃.tasks, pc.redeems = none) ∧
          ∀ k, ServedAt n k u → ServedAt n k s₃ ∧ (Quiescent jwtExp s₃ →
            s₃.tasks[k]? = some (.finished (.token (.ok (some n)))))) := by
  have hexclusive := (bounded hbefore).exclusive
  constructor
  · intro hguarded
    cases hguarded with
    | cons hfree hi' hrest =>
        obtain rfl := Option.some.inj (hi.symm.trans hi')
        have hgone : Gone rt s₂ := hadopts.gone hexclusive hi (by simpa using hfree)
        exact (hrest.invariant (P := Gone rt)
          (fun _ _ _ hs hfree hi => hs.step hi (by simpa using hfree)) hgone).tasks
  · intro hwaits hdue hepoch
    have hbound := epoch_le_run hbetween
    have hsame : u.memory.inner.epoch = s₂.memory.inner.epoch :=
      Nat.le_antisymm (hepoch ▸ epoch_le_run hafter) hbound
    obtain ⟨hcalm, -⟩ := (hadopts.calm hexclusive hi hwaits).run hbetween
      (fun i hi => hdue i (List.mem_append_left _ hi)) hsame
    obtain ⟨hend, hserved⟩ := hcalm.run hafter
      (fun i hi => hdue i (List.mem_append_right _ hi)) (hepoch.trans hsame.symm)
    refine ⟨fun pc hpc => ?_, fun k hk => ⟨hserved k hk, (hserved k hk).answered⟩⟩
    have hquiet := hend.tasks pc hpc
    cases pc with
    | post c x epoch refreshToken => cases hquiet
    | _ => rfl

/-! ## Two windows -/

/-- A session whose access token has expired, and two windows that ask for a token. -/
def twoAsk : List (Input ℕ ℕ) :=
  [.call (.authSetSession stored), tick 0 0, tick 0 0, .call .authGetToken, .call .authGetToken,
    tick 1 2000, tick 2 2000, tick 1 2000, tick 1 2000, answer 1 2000 200 "200 OK" 3 4]

/-- The first of them has its answer, and the second looks at the session. -/
def twoAnswers : List (Input ℕ ℕ) :=
  [tick 1 2000, tick 2 2000, tick 2 2000]

/-- By the local clock the new access token has expired as well. -/
theorem second_window_redeems :
    ¬ ∀ (before after : List (Input ℕ ℕ)) (s₁ s₂ s₃ : State ℕ ℕ) (t : ℕ) (o : Outside ℕ)
        (rt n : ℕ),
      (system sampleExp).Run (.init .absent) before s₁ → Adopts s₁ t rt n →
      (system sampleExp).step s₁ (.run t o) = some s₂ → (system sampleExp).Run s₂ after s₃ →
      (∀ i ∈ after, ∃ k o, i = .run k o) → ∀ pc ∈ s₃.tasks, pc.redeems = none := by
  intro hclaim
  let s₁ := ((system sampleExp).exec (.init .absent) twoAsk).get (by decide +kernel)
  let s₂ := ((system sampleExp).step s₁ (tick 1 2000)).get (by decide +kernel)
  let s₃ := ((system sampleExp).exec s₂ twoAnswers).get (by decide +kernel)
  have hadopts : Adopts s₁ 1 2 3 := .of_eq_true (by decide +kernel)
  have hquiet := hclaim twoAsk twoAnswers s₁ s₂ s₃ 1 (unreachable 2000) 2 3
    (StepSystem.exec_eq_some_iff.mp (Option.some_get _).symm) hadopts (Option.some_get _).symm
    (StepSystem.exec_eq_some_iff.mp (Option.some_get _).symm) (by simp [twoAnswers, tick])
  have hredeems : (s₃.tasks.any fun pc => pc.redeems.isSome) = true := by decide +kernel
  obtain ⟨pc, hpc, hsome⟩ := List.any_eq_true.mp hredeems
  rw [hquiet pc hpc] at hsome
  cases hsome

/-- The access token 1 expires long before all others. -/
def longExp : ℕ → Option ℤ :=
  fun t => some (if t = 1 then 1000 else 100000)

theorem adopted_once_two_windows : ∃ s₃ : State ℕ ℕ,
    (∀ pc ∈ s₃.tasks, pc.redeems ≠ some 2) ∧ (∀ pc ∈ s₃.tasks, pc.redeems = none) ∧
      ServedAt 3 2 s₃ := by
  let s₁ := ((system longExp).exec (.init .absent) twoAsk).get (by decide +kernel)
  let s₂ := ((system longExp).step s₁ (tick 1 2000)).get (by decide +kernel)
  let s₃ := (((system longExp).restrict fun s i => !brings 2 s i).exec s₁
    (tick 1 2000 :: twoAnswers)).get (by decide +kernel)
  have hadopts : Adopts s₁ 1 2 3 := .of_eq_true (by decide +kernel)
  have hguarded : (system longExp).Guarded (fun s i => (!brings 2 s i) = true) s₁
      (tick 1 2000 :: ([] ++ twoAnswers)) s₃ :=
    (StepSystem.exec_eq_some_iff.mp (Option.some_get _).symm).guarded
  have hrun : (system longExp).Run s₂ twoAnswers s₃ := by
    cases hguarded with
    | cons _ hi hrest =>
        have hi₂ : (system longExp).step s₁ (tick 1 2000) = some s₂ := (Option.some_get _).symm
        obtain rfl := Option.some.inj (hi₂.symm.trans hi)
        exact hrest.run
  have h := adopted_once (StepSystem.exec_eq_some_iff.mp (Option.some_get _).symm) hadopts
    (Option.some_get _).symm (.nil s₂) hrun
  have hk : s₂.tasks[2]? = some (.awaitRefresh (.validToken 1 .getToken)) := by decide +kernel
  have hwaits : ∀ stale, .awaitRefresh (.authRefresh stale) ∈ s₂.tasks → stale ≠ 3 := by
    intro stale hmem
    have hall : s₂.tasks.all (· matches .awaitRefresh (.validToken _ _) | .persist _ _ |
        .finished _) = true := by
      decide +kernel
    cases List.all_eq_true.mp hall _ hmem
  have hdue : ∀ i ∈ [] ++ twoAnswers, Undue longExp 3 i := by
    simp [twoAnswers, tick, Undue, needsRefresh, longExp, refreshLeewaySecs]
  have hcalm := h.2 hwaits hdue (by decide +kernel)
  exact ⟨s₃, h.1 hguarded, hcalm.1, (hcalm.2 2 ⟨_, hk, rfl⟩).1⟩

end SpecterComs.DesktopSession
