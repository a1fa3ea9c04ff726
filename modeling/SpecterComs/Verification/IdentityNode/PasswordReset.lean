import SpecterComs.Model.IdentityNode.PasswordReset

/-! # A reset token is used once

The UPDATE of a reset does not look at the token again. It is the first with its token, and in
time, exactly where no other request with the token made its UPDATE since the SELECT, and the
token has not expired since.
-/

namespace SpecterComs.PasswordReset

variable {Token Hash Password Salt PasswordHash : Type*}
  {env : Env Token Hash Password Salt PasswordHash}
  {s t : State Token Hash Password PasswordHash} {request : Request Token Password}
  {userId seen : ℕ} {newHash : PasswordHash}

/-! ## The property and its condition -/

/-- No two changes were made with one token, and none after its time. -/
structure Sound (s : State Token Hash Password PasswordHash) : Prop where
  once : (s.changes.map Change.resetToken).Nodup
  inTime : ∀ c ∈ s.changes, ∃ userId expires,
    s.issued c.resetToken = some (userId, expires) ∧ c.time < expires

/-- Since the SELECT no other request changed a password with the token, and it has not
expired. -/
def StillGood (s : State Token Hash Password PasswordHash) (tokenHash : Hash) (seen : ℕ) : Prop :=
  (∀ c ∈ s.changes.drop seen, c.resetToken ≠ tokenHash) ∧
    ∀ userId expires, s.issued tokenHash = some (userId, expires) → s.now < expires

/-- An UPDATE that changes a row comes while the token is still good. -/
def Unraced (env : Env Token Hash Password Salt PasswordHash)
    (s : State Token Hash Password PasswordHash) :
    Action Token Password Salt PasswordHash → Prop
  | .update r => ∀ request userId seen newHash,
      s.requests r = some (.updating request userId seen newHash) →
      s.users.any (·.id = userId) → StillGood s (env.hashResetToken request.token) seen
  | _ => True

/-! ## What holds in every state -/

/-- The request and the user a SELECT found, with the changes there were then. -/
def Pc.choice : Pc Token Password PasswordHash → Option (Request Token Password × ℕ × ℕ)
  | .selecting _ => none
  | .hashing request userId seen => some (request, userId, seen)
  | .updating request userId seen _ => some (request, userId, seen)

/-- The token was mailed to the user and had not been used when it was found. -/
structure Chosen (issued : Hash → Option (ℕ × ℕ)) (changes : List (Change Hash))
    (tokenHash : Hash) (userId seen : ℕ) : Prop where
  issued : ∃ expires, issued tokenHash = some (userId, expires)
  known : seen ≤ changes.length
  unused : ∀ c ∈ changes.take seen, c.resetToken ≠ tokenHash

variable {issued : Hash → Option (ℕ × ℕ)} {changes : List (Change Hash)}

theorem Chosen.append {tokenHash : Hash} (h : Chosen issued changes tokenHash userId seen)
    (c : Change Hash) :
    Chosen issued (changes ++ [c]) tokenHash userId seen where
  issued := h.issued
  known := by
    rw [List.length_append]
    exact Nat.le_add_right_of_le h.known
  unused := by
    rw [List.take_append_of_le_length h.known]
    exact h.unused

/-- Since the SELECT, a token that was unused then is unused where no change was made with it. -/
theorem Chosen.unused_iff {tokenHash : Hash} (h : Chosen issued changes tokenHash userId seen) :
    tokenHash ∉ changes.map Change.resetToken ↔
      ∀ c ∈ changes.drop seen, c.resetToken ≠ tokenHash := by
  constructor
  · rintro hnotMem c hc rfl
    exact hnotMem (List.mem_map_of_mem (List.mem_of_mem_drop hc))
  · intro hdrop hmem
    obtain ⟨c, hc, htoken⟩ := List.mem_map.mp hmem
    rw [← List.take_append_drop seen changes] at hc
    cases List.mem_append.mp hc with
    | inl htake => exact h.unused c htake htoken
    | inr hrest => exact hdrop c hrest htoken

structure Inv (env : Env Token Hash Password Salt PasswordHash)
    (s : State Token Hash Password PasswordHash) : Prop where
  held : ∀ u ∈ s.users, ∀ tokenHash, u.passwordResetToken = some tokenHash →
    (∃ expires, s.issued tokenHash = some (u.id, expires)) ∧
      ∀ c ∈ s.changes, c.resetToken ≠ tokenHash
  chosen : ∀ r pc request userId seen, s.requests r = some pc →
    pc.choice = some (request, userId, seen) →
    Chosen s.issued s.changes (env.hashResetToken request.token) userId seen
  used : ∀ c ∈ s.changes, (s.issued c.resetToken).isSome

theorem inv_init : Inv env (State.init : State Token Hash Password PasswordHash) where
  held := nofun
  chosen := nofun
  used := nofun

variable {r : ℕ} {pc : Pc Token Password PasswordHash}

theorem setRequest_requests :
    (s.setRequest r pc).requests = Function.update s.requests r (some pc) := rfl

theorem answer_requests {a : Answer} :
    (s.answer r a).requests = Function.update s.requests r none := rfl

theorem Inv.setRequest (h : Inv env s)
    (hpc : ∀ request userId seen, pc.choice = some (request, userId, seen) → Chosen s.issued s.changes (env.hashResetToken request.token) userId seen) :
    Inv env (s.setRequest r pc) where
  held := h.held
  chosen r' pc' request userId seen hr' hchoice := by
    by_cases hr : r' = r
    · rw [hr, setRequest_requests, Function.update_self] at hr'
      obtain rfl := Option.some.inj hr'
      exact hpc request userId seen hchoice
    · rw [setRequest_requests, Function.update_of_ne hr] at hr'
      exact h.chosen r' pc' request userId seen hr' hchoice
  used := h.used

theorem Inv.answer {r : ℕ} {a : Answer} (h : Inv env s) : Inv env (s.answer r a) where
  held := h.held
  chosen r' pc' request userId seen hr' hchoice := by
    by_cases hr : r' = r
    · rw [hr, answer_requests, Function.update_self] at hr'
      cases hr'
    · rw [answer_requests, Function.update_of_ne hr] at hr'
      exact h.chosen r' pc' request userId seen hr' hchoice
  used := h.used

/-- Rows may go, and rows without a token may come. -/
theorem Inv.setUsers {users : List (User Hash PasswordHash)} (h : Inv env s)
    (hsub : ∀ u ∈ users, u ∈ s.users ∨ u.passwordResetToken = none) :
    Inv env { s with users := users } where
  held u hu tokenHash htoken := by
    cases hsub u hu with
    | inl hmem => exact h.held u hmem tokenHash htoken
    | inr hnone =>
        rw [hnone] at htoken
        cases htoken
  chosen := h.chosen
  used := h.used

section

variable [DecidableEq Hash]

theorem Inv.select {found : Option ℕ} (h : Inv env s)
    (hstep : s.select env r request found = some t) : Inv env t := by
  cases found with
  | none =>
      obtain ⟨-, hstep⟩ := Option.ite_none_right_eq_some.mp hstep
      obtain rfl := Option.some.inj hstep
      exact h.answer
  | some id =>
      obtain ⟨hid, hstep⟩ := Option.ite_none_right_eq_some.mp hstep
      obtain rfl := Option.some.inj hstep
      obtain ⟨u, hu, rfl⟩ := List.mem_map.mp hid
      obtain ⟨hu, haccepts⟩ := List.mem_filter.mp hu
      simp only [User.accepts, Bool.and_eq_true, decide_eq_true_eq] at haccepts
      obtain ⟨hissued, hunused⟩ := h.held u hu _ haccepts.1
      refine h.setRequest fun request' userId seen hchoice => ?_
      cases hchoice
      exact ⟨hissued, Nat.le_refl _, fun c hc => hunused c (List.mem_of_mem_take hc)⟩

/-- A token that is mailed has not been used. -/
theorem Inv.forgotPassword {id dateNow : ℕ} {resetToken : Token} (h : Inv env s)
    (hstep : s.forgotPassword env id resetToken dateNow = some t) :
    Inv env t ∧ t.changes = s.changes ∧
      ∀ c ∈ s.changes, t.issued c.resetToken = s.issued c.resetToken := by
  simp only [State.forgotPassword] at hstep
  split at hstep
  · cases hstep
  · rename_i hfresh
    obtain rfl := Option.some.inj hstep
    have hnone : s.issued (env.hashResetToken resetToken) = none := by simpa using hfresh
    have hother : ∀ tokenHash, (s.issued tokenHash).isSome →
        Function.update s.issued (env.hashResetToken resetToken)
          (some (id, dateNow + resetTokenTtlMs)) tokenHash = s.issued tokenHash := by
      intro tokenHash hsome
      refine Function.update_of_ne ?_ _ _
      rintro rfl
      rw [hnone] at hsome
      cases hsome
    refine ⟨⟨?_, ?_, ?_⟩, rfl, fun c hc => hother _ (h.used c hc)⟩
    · intro u hu tokenHash htoken
      obtain ⟨v, hv, rfl⟩ := List.mem_map.mp hu
      dsimp only at htoken ⊢
      split at htoken
      · rename_i hid
        rw [if_pos hid]
        cases htoken
        refine ⟨⟨_, by rw [Function.update_self, ← hid]; rfl⟩, fun c hc hused => ?_⟩
        have hsome := h.used c hc
        rw [hused, hnone] at hsome
        cases hsome
      · rename_i hid
        rw [if_neg hid]
        obtain ⟨⟨expires, hissued⟩, hunused⟩ := h.held v hv tokenHash htoken
        exact ⟨⟨expires, by rw [hother _ (by rw [hissued]; rfl), hissued]⟩, hunused⟩
    · intro r pc request userId seen hr hchoice
      obtain ⟨⟨expires, hissued⟩, hknown, hunused⟩ := h.chosen r pc request userId seen hr hchoice
      exact ⟨⟨expires, (hother _ (by rw [hissued]; rfl)).trans hissued⟩, hknown, hunused⟩
    · intro c hc
      have hsome := h.used c hc
      rwa [← hother _ hsome] at hsome

end

/-! ## The UPDATE -/

/-- The token of the row is gone, and no other row has the request's token. -/
theorem Inv.update (h : Inv env s)
    (hchosen : Chosen s.issued s.changes (env.hashResetToken request.token) userId seen) :
    Inv env (s.update env r request userId newHash) := by
  have hother : ∀ u ∈ (s.updateUser userId (·.reset newHash)).users, ∀ tokenHash,
      u.passwordResetToken = some tokenHash → u ∈ s.users ∧ u.id ≠ userId := by
    intro u hu tokenHash htoken
    obtain ⟨v, hv, rfl⟩ := List.mem_map.mp hu
    dsimp only at htoken ⊢
    split at htoken
    · cases htoken
    · rename_i hid
      rw [if_neg hid]
      exact ⟨hv, hid⟩
  have hcleared : Inv env ((s.updateUser userId (·.reset newHash)).answer r passwordReset) :=
    Inv.answer ⟨fun u hu tokenHash htoken =>
      h.held u (hother u hu tokenHash htoken).1 tokenHash htoken, h.chosen, h.used⟩
  simp only [State.update]
  split
  · refine ⟨fun u hu tokenHash htoken => ?_, fun r' pc request userId seen hr hchoice => ?_, ?_⟩
    · obtain ⟨hmem, hid⟩ := hother u hu tokenHash htoken
      obtain ⟨⟨expires, hissued⟩, hunused⟩ := h.held u hmem tokenHash htoken
      refine ⟨⟨expires, hissued⟩, fun c hc => ?_⟩
      cases List.mem_append.mp hc with
      | inl hold => exact hunused c hold
      | inr hnew =>
          obtain rfl := List.mem_singleton.mp hnew
          rintro rfl
          obtain ⟨expires', hissued'⟩ := hchosen.issued
          have hsame := Option.some.inj (hissued.symm.trans hissued')
          exact hid (Prod.mk.inj hsame).1
    · exact (hcleared.chosen r' pc request userId seen hr hchoice).append _
    · intro c hc
      cases List.mem_append.mp hc with
      | inl hold => exact h.used c hold
      | inr hnew =>
          obtain rfl := List.mem_singleton.mp hnew
          obtain ⟨expires, hissued⟩ := hchosen.issued
          exact Option.isSome_iff_exists.mpr ⟨_, hissued⟩
  · exact hcleared

/-- What one more change does to the property. -/
theorem sound_update_iff
    (hchosen : Chosen s.issued s.changes (env.hashResetToken request.token) userId seen) :
    Sound (s.update env r request userId newHash) ↔
      Sound s ∧ (s.users.any (·.id = userId) →
        StillGood s (env.hashResetToken request.token) seen) := by
  obtain ⟨expires, hissued⟩ := hchosen.issued
  simp only [State.update]
  split
  · rename_i hany
    have htime : (∀ id deadline, s.issued (env.hashResetToken request.token) = some (id, deadline) →
        s.now < deadline) ↔ s.now < expires := by
      rw [hissued]
      simp
    rw [StillGood, ← hchosen.unused_iff, htime]
    constructor
    · rintro ⟨honce, htimes⟩
      rw [List.map_append, List.map_singleton, List.nodup_append] at honce
      obtain ⟨hnodup, -, hdisjoint⟩ := honce
      have hnew := htimes _ (List.mem_append_right _ List.mem_cons_self)
      obtain ⟨id, deadline, hissued', hnow⟩ := hnew
      obtain ⟨-, rfl⟩ := Prod.mk.inj (Option.some.inj (hissued.symm.trans hissued'))
      refine ⟨⟨hnodup, fun c hc => htimes c (List.mem_append_left _ hc)⟩, fun _ => ⟨?_, hnow⟩⟩
      exact fun hmem => hdisjoint _ hmem _ List.mem_cons_self rfl
    · rintro ⟨h, hgood⟩
      obtain ⟨hunused, hnow⟩ := hgood hany
      refine ⟨?_, fun c hc => ?_⟩
      · rw [List.map_append, List.map_singleton, List.nodup_append]
        refine ⟨h.once, List.pairwise_singleton _ _, fun a ha b hb hab => ?_⟩
        rw [hab, List.mem_singleton.mp hb] at ha
        exact hunused ha
      · cases List.mem_append.mp hc with
        | inl hold => exact h.inTime c hold
        | inr hnew =>
            obtain rfl := List.mem_singleton.mp hnew
            exact ⟨userId, expires, hissued, hnow⟩
  · rename_i hnone
    refine ⟨fun h => ⟨⟨h.once, h.inTime⟩, fun hany => absurd hany hnone⟩,
      fun h => ⟨h.1.once, h.1.inTime⟩⟩

/-! ## Runs -/

theorem sound_congr (hchanges : t.changes = s.changes)
    (hissued : ∀ c ∈ s.changes, t.issued c.resetToken = s.issued c.resetToken) :
    Sound t ↔ Sound s := by
  constructor
  · rintro ⟨honce, htimes⟩
    rw [hchanges] at honce htimes
    exact ⟨honce, fun c hc => hissued c hc ▸ htimes c hc⟩
  · rintro ⟨honce, htimes⟩
    refine ⟨hchanges ▸ honce, fun c hc => ?_⟩
    rw [hchanges] at hc
    exact (hissued c hc).symm ▸ htimes c hc

/-- A step that changes no password keeps the property. -/
theorem keeps_of_same {a : Action Token Password Salt PasswordHash} (hinv : Inv env t)
    (hchanges : t.changes = s.changes)
    (hissued : ∀ c ∈ s.changes, t.issued c.resetToken = s.issued c.resetToken)
    (hfree : Unraced env s a) : Inv env t ∧ (Sound t ↔ Sound s ∧ Unraced env s a) :=
  ⟨hinv, (sound_congr hchanges hissued).trans (and_iff_left hfree).symm⟩

section

variable [DecidableEq Hash]

theorem select_same {found : Option ℕ} (hstep : s.select env r request found = some t) :
    t.changes = s.changes ∧ t.issued = s.issued := by
  cases found with
  | none =>
      obtain ⟨-, hstep⟩ := Option.ite_none_right_eq_some.mp hstep
      obtain rfl := Option.some.inj hstep
      exact ⟨rfl, rfl⟩
  | some id =>
      obtain ⟨-, hstep⟩ := Option.ite_none_right_eq_some.mp hstep
      obtain rfl := Option.some.inj hstep
      exact ⟨rfl, rfl⟩

theorem step_keeps_iff (s : State Token Hash Password PasswordHash)
    (a : Action Token Password Salt PasswordHash) (t : State Token Hash Password PasswordHash)
    (h : Inv env s) (hstep : (resets env).step s a = some t) :
    Inv env t ∧ (Sound t ↔ Sound s ∧ Unraced env s a) := by
  simp only [resets] at hstep
  cases a with
  | begin r request =>
      obtain ⟨-, hstep⟩ := Option.ite_none_right_eq_some.mp hstep
      obtain rfl := Option.some.inj hstep
      exact keeps_of_same (h.setRequest nofun) rfl (fun _ _ => rfl) trivial
  | select r found =>
      simp only [State.step] at hstep
      split at hstep
      · obtain ⟨hchanges, hissued⟩ := select_same hstep
        exact keeps_of_same (h.select hstep) hchanges (fun _ _ => congrFun hissued _) trivial
      · cases hstep
  | hash r salt =>
      simp only [State.step] at hstep
      split at hstep
      · rename_i request userId seen hr
        obtain rfl := Option.some.inj hstep
        refine keeps_of_same (h.setRequest fun request' userId' seen' hchoice => ?_) rfl
          (fun _ _ => rfl) trivial
        cases hchoice
        exact h.chosen r _ _ _ _ hr rfl
      · cases hstep
  | update r =>
      simp only [State.step] at hstep
      split at hstep
      · rename_i request userId seen newHash hr
        obtain rfl := Option.some.inj hstep
        have hchosen := h.chosen r _ _ _ _ hr rfl
        refine ⟨h.update hchosen, (sound_update_iff hchosen).trans (and_congr_right fun _ => ?_)⟩
        constructor
        · intro hgood request' userId' seen' newHash' hr' hany
          cases hr.symm.trans hr'
          exact hgood hany
        · exact fun hfree hany => hfree request userId seen newHash hr hany
      · cases hstep
  | fail r =>
      obtain ⟨pc, -, rfl⟩ := Option.map_eq_some_iff.mp hstep
      exact keeps_of_same h.answer rfl (fun _ _ => rfl) trivial
  | forgotPassword userId resetToken dateNow =>
      obtain ⟨hinv, hchanges, hissued⟩ := h.forgotPassword hstep
      exact keeps_of_same hinv hchanges hissued trivial
  | register userId passwordHash =>
      simp only [State.step] at hstep
      split at hstep
      · cases hstep
      · obtain rfl := Option.some.inj hstep
        refine keeps_of_same (h.setUsers fun u hu => ?_) rfl (fun _ _ => rfl) trivial
        cases List.mem_append.mp hu with
        | inl hold => exact Or.inl hold
        | inr hnew => exact Or.inr (by rw [List.mem_singleton.mp hnew])
  | deleteUser userId =>
      obtain rfl := Option.some.inj hstep
      exact keeps_of_same (h.setUsers fun u hu => Or.inl (List.mem_of_mem_filter hu)) rfl
        (fun _ _ => rfl) trivial
  | wait ms =>
      obtain rfl := Option.some.inj hstep
      exact keeps_of_same ⟨h.held, h.chosen, h.used⟩ rfl (fun _ _ => rfl) trivial

/-- On every run a token changes at most one password, and none after its time, exactly where
every UPDATE that changes one comes while its token is still good. -/
theorem token_used_once_iff {actions : List (Action Token Password Salt PasswordHash)}
    (h : (resets env).Run .init actions s) :
    Sound s ↔ ∀ t a t', (resets env).Passes .init actions t a t' → Unraced env t a := by
  have hinit : Sound (State.init : State Token Hash Password PasswordHash) :=
    ⟨List.nodup_nil, nofun⟩
  rw [h.keeps_iff step_keeps_iff inv_init]
  exact and_iff_right hinit

end

/-! ## Two requests -/

def plainEnv : Env ℕ ℕ ℕ ℕ (ℕ × ℕ) where
  hashResetToken token := token
  argon2Hash password salt := (password, salt)

/-- A user who was mailed token 7 asks for password 11 with it. -/
def oneReset : List (Action ℕ ℕ ℕ (ℕ × ℕ)) :=
  [.register 1 (10, 0), .forgotPassword 1 7 0, .begin 0 ⟨7, 11⟩, .select 0 (some 1), .hash 0 1,
    .update 0]

theorem token_used_once_alone :
    ∃ s, (resets plainEnv).Run .init oneReset s ∧ s.changes.length = 1 ∧
      ∀ t a t', (resets plainEnv).Passes .init oneReset t a t' → Unraced plainEnv t a := by
  have hrun : ∃ s, (resets plainEnv).Run .init oneReset s ∧ s.changes = [⟨0, 7, 1, 0⟩] ∧
      s.issued 7 = some (1, resetTokenTtlMs) :=
    ⟨_, StepSystem.exec_eq_some_iff.mp rfl, rfl, rfl⟩
  obtain ⟨s, hs, hchanges, hissued⟩ := hrun
  have hsound : Sound s := by
    refine ⟨by rw [hchanges]; decide, fun c hc => ?_⟩
    rw [hchanges] at hc
    obtain rfl := List.mem_singleton.mp hc
    exact ⟨1, resetTokenTtlMs, hissued, by decide⟩
  exact ⟨s, hs, by rw [hchanges]; rfl, (token_used_once_iff hs).mp hsound⟩

/-- Two requests find the user before either of them changes the password. -/
def twoResets : List (Action ℕ ℕ ℕ (ℕ × ℕ)) :=
  [.register 1 (10, 0), .forgotPassword 1 7 0, .begin 0 ⟨7, 11⟩, .begin 1 ⟨7, 12⟩,
    .select 0 (some 1), .select 1 (some 1), .hash 0 1, .hash 1 2, .update 0, .update 1]

theorem token_used_twice :
    ¬ ∀ actions s, (resets plainEnv).Run .init actions s → Sound s := by
  intro h
  have hrun : ∃ s, (resets plainEnv).Run .init twoResets s ∧
      s.changes = [⟨0, 7, 1, 0⟩, ⟨1, 7, 1, 0⟩] :=
    ⟨_, StepSystem.exec_eq_some_iff.mp rfl, rfl⟩
  obtain ⟨s, hs, hchanges⟩ := hrun
  have honce := (h twoResets s hs).once
  rw [hchanges] at honce
  exact absurd honce (by decide)

end SpecterComs.PasswordReset
