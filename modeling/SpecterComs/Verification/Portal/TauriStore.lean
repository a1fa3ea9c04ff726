import SpecterComs.Model.Portal.TauriStore
import SpecterComs.Verification.Desktop.Logins

/-! # Windows follow the login

A window forgets the token it keeps when it hears of a logout, and keeps it when it hears of a login.
What an answer brings is kept, whatever the window has heard since it asked.
-/

namespace SpecterComs.TauriStore

open DesktopSession (Session Pc Outside)

variable {Token User Id : Type*} {jwtExpMs : Token → Option ℤ} {idOf : User → Id}
  {jwtExp : Token → Option ℤ}

namespace State

variable (s : State Token User)

def epoch : ℕ :=
  s.rust.memory.inner.epoch

/-- The session has had the token in this epoch or a later one. -/
def since (e : ℕ) (token : Token) : Prop :=
  ∃ e' ≥ e, (e', token) ∈ s.held

/-- The window has the token from a login that Rust has not taken up. -/
def loggingIn (w : ℕ) (token : Token) : Prop :=
  ∃ n c login, s.calls n = some c ∧ c.window = w ∧ c.kind = .setSession login ∧
    login.token = token ∧ ∀ t, c.task = some t → s.rust.tasks[t]? = some (.setSession login)

/-- The token is not one of the logins before this epoch. -/
def fresh (w e : ℕ) (token : Token) : Prop :=
  s.since e token ∨ s.loggingIn w token

/-- No window keeps a token of a login that is over as far as the window knows. -/
def clean : Prop :=
  ∀ w c, (s.windows w).cached = some c → s.fresh w (s.windows w).floor c.token

end State

/-- What `getToken` returns is of no login that was over for the window when it asked, and no window
keeps such a token. -/
structure Follows (s : State Token User) (turn : Turn Token User) (t : State Token User) : Prop where
  returned : ∀ w e token, returned s turn = some (w, e, token) → s.fresh w e token
  clean : t.clean

/-- What the window keeps once a call is answered is of no login that is over for it. -/
def State.answersFresh (jwtExpMs : Token → Option ℤ) (s : State Token User) (c : Call Token User)
    (o : DesktopSession.Outcome Token User) : Prop :=
  match c.kind, o with
  | .getToken, .token (.ok token) | .onUnauthorized _, .token (.ok token) =>
      ∀ kept, cacheToken jwtExpMs token = some kept →
        s.fresh c.window (s.windows c.window).floor kept.token
  | _, _ => ∀ kept, (s.windows c.window).cached = some kept →
      s.fresh c.window ((s.windows c.window).floorDone c (s.stamp c)) kept.token

/-- An answer that comes to be kept brings a token of no login that is over for the window. Where the
window learns that a login is over, it keeps no token of that login, or forgets what it keeps. -/
def State.meets [DecidableEq Id] (jwtExpMs : Token → Option ℤ) (idOf : User → Id)
    (s : State Token User) : Turn Token User → Prop
  | .reply n => ∀ c o, s.calls n = some c → s.answer c = some o → s.answersFresh jwtExpMs c o
  | .deliver w => ∀ e events kept, (s.windows w).events = e :: events → e.user.isSome = true →
      (s.windows w).cached = some kept → s.fresh w ((s.windows w).floorAfter idOf e) kept.token
  | _ => True

/-- Nothing that a window or a call knows of is later than Rust's session. -/
structure Known (s : State Token User) : Prop where
  held : ∀ token, s.rust.memory.inner.token = some token → (s.epoch, token) ∈ s.held
  floors : ∀ w, (s.windows w).floor ≤ s.epoch
  events : ∀ w, ∀ e ∈ (s.windows w).events, e.epoch ≤ s.epoch
  stamps : ∀ t, s.stamps t ≤ s.epoch
  calls : ∀ n c, s.calls n = some c → c.since ≤ s.epoch
  tasks : ∀ n c t, s.calls n = some c → c.task = some t → t < s.rust.tasks.length
  /-- What may be answered to a call, the session has had since the call was made. -/
  carried : ∀ n c t pc, s.calls n = some c → c.task = some t → s.rust.tasks[t]? = some pc →
    ∀ token ∈ pc.tokens, s.since c.since token

variable {s t : State Token User} {w n : ℕ} {e : ℕ} {token : Token}

theorem known_start (file : DesktopSession.CredentialFile Token User) (user : Option User) :
    Known (State.start file user) where
  held _ h := by cases h
  floors _ := Nat.le_refl _
  events _ _ h := by cases h
  stamps _ := Nat.le_refl _
  calls _ _ h := by cases h
  tasks _ _ _ h := by cases h
  carried _ _ _ _ h := by cases h

theorem clean_start (file : DesktopSession.CredentialFile Token User) (user : Option User) :
    (State.start file user).clean := by
  intro w c h
  cases h

/-! ## Rust -/

theorem rust_call {c : DesktopSession.Command Token User} {r r' : DesktopSession.State Token User}
    (h : r.call c = some r') : r' = { r with tasks := r.tasks ++ [c.start] } := by
  unfold DesktopSession.State.call at h
  split at h
  · cases h
  · exact (Option.some.inj h).symm

variable {c : Call Token User} {o : DesktopSession.Outcome Token User}

theorem answer_eq_some (h : s.answer c = some o) :
    ∃ t, c.task = some t ∧ s.rust.tasks[t]? = some (.finished o) := by
  obtain ⟨t, ht, hpc⟩ := Option.bind_eq_some_iff.mp h
  refine ⟨t, ht, ?_⟩
  split at hpc
  · rename_i heq
    rw [heq, Option.some.inj hpc]
  · cases hpc

/-- What is answered to a call, the session has had since the call was made. -/
theorem Known.answered (hs : Known s) {c : Call Token User} (hc : s.calls n = some c)
    (ho : s.answer c = some (.token (.ok (some token)))) : s.since c.since token := by
  obtain ⟨t, ht, hpc⟩ := answer_eq_some ho
  exact hs.carried n c t _ hc ht hpc token (List.mem_singleton_self _)

variable {turn : Turn Token User}

/-- What `getToken` returns is fresh: asking, Rust reads no session that was over before. -/
theorem returned_fresh (hs : Known s) (hclean : s.clean)
    (h : returned s turn = some (w, e, token)) : s.fresh w e token := by
  cases turn with
  | call n w' kind now =>
      cases kind with
      | getToken =>
          obtain ⟨token', husable, heq⟩ := Option.map_eq_some_iff.mp h
          simp only [Prod.mk.injEq] at heq
          obtain ⟨rfl, rfl, rfl⟩ := heq
          unfold Window.usable at husable
          split at husable
          · rename_i c hc
            obtain ⟨-, hsome⟩ := Option.ite_none_right_eq_some.mp husable
            obtain rfl := Option.some.inj hsome
            exact hclean w' c hc
          · cases husable
      | _ => cases h
  | reply n =>
      obtain ⟨c, hc, hreply⟩ := Option.bind_eq_some_iff.mp h
      split at hreply
      · rename_i ho
        simp only [Option.some.injEq, Prod.mk.injEq] at hreply
        obtain ⟨rfl, rfl, rfl⟩ := hreply
        exact .inl (hs.answered hc ho)
      · cases hreply
  | _ => cases h

/-! ## Turns -/

theorem State.since.mono {e' : ℕ} (h : s.since e token) (he : e' ≤ e) : s.since e' token := by
  obtain ⟨e'', hle, hheld⟩ := h
  exact ⟨e'', Nat.le_trans he hle, hheld⟩

theorem State.since.of_subset (hheld : s.held ⊆ t.held) (h : s.since e token) : t.since e token := by
  obtain ⟨e', hle, hmem⟩ := h
  exact ⟨e', hle, hheld hmem⟩

/-- A token stays fresh while Rust's session goes on, and a login is taken up or left to be taken
up. -/
theorem State.fresh.of_step (hheld : s.held ⊆ t.held) (he : e ≤ s.epoch)
    (hlogin : ∀ token, s.loggingIn w token → t.since s.epoch token ∨ t.loggingIn w token)
    (h : s.fresh w e token) : t.fresh w e token := by
  rcases h with h | h
  · exact .inl (h.of_subset hheld)
  · rcases hlogin token h with h | h
    · exact .inl (h.mono he)
    · exact .inr h

theorem update_eq_some {α : Type*} {f : ℕ → Option α} {m : ℕ} {x : Option α} {a : α}
    (h : Function.update f n x m = some a) : m = n ∧ x = some a ∨ m ≠ n ∧ f m = some a := by
  rcases eq_or_ne m n with rfl | hm
  · rw [Function.update_self] at h
    exact .inl ⟨rfl, h⟩
  · rw [Function.update_of_ne hm] at h
    exact .inr ⟨hm, h⟩

variable {window : Window Token User}

/-- A property of all windows holds after one of them has changed if it holds of that one. -/
theorem forall_setWindow {P : ℕ → Window Token User → Prop} (h : ∀ w, P w (s.windows w))
    (hw : P w window) (w' : ℕ) : P w' ((s.setWindow w window).windows w') := by
  unfold State.setWindow
  dsimp only
  rcases eq_or_ne w' w with rfl | hne
  · rw [Function.update_self]
    exact hw
  · rw [Function.update_of_ne hne]
    exact h w'

theorem start_frame (jwtExpMs : Token → Option ℤ) (window : Window Token User) (kind : Kind Token User) :
    (window.start jwtExpMs kind).floor = window.floor ∧
      (window.start jwtExpMs kind).events = window.events := by
  cases kind <;> exact ⟨rfl, rfl⟩

/-- What a window keeps once it has made a call it has kept before, or comes from the login that it
makes. -/
theorem cached_start {kind : Kind Token User} {kept : Cached Token}
    (h : (window.start jwtExpMs kind).cached = some kept) :
    window.cached = some kept ∨ ∃ login, kind = .setSession login ∧ login.token = kept.token := by
  cases kind with
  | getToken | restore | setUser => exact .inl h
  | onUnauthorized | clear => cases h
  | setSession login =>
      obtain ⟨exp, -, hkept⟩ := Option.bind_eq_some_iff.mp h
      obtain ⟨-, hkept⟩ := Option.ite_none_left_eq_some.mp hkept
      obtain rfl := Option.some.inj hkept
      exact .inr ⟨login, rfl, rfl⟩

/-- After one window has changed, all of them are clean if that one is. -/
theorem clean_setWindow_iff (hs : Known s) (hclean : s.clean)
    (ht : t.windows = (s.setWindow w window).windows)
    (hfresh : ∀ w' e token, e ≤ s.epoch → s.fresh w' e token → t.fresh w' e token) :
    t.clean ↔ ∀ kept, window.cached = some kept → t.fresh w window.floor kept.token := by
  unfold State.clean
  rw [ht]
  constructor
  · intro hall kept hkept
    have hself : (s.setWindow w window).windows w = window := Function.update_self _ _ _
    have hw := hall w kept
    rw [hself] at hw
    exact hw hkept
  · intro hw
    exact forall_setWindow (P := fun w' window => ∀ kept, window.cached = some kept →
      t.fresh w' window.floor kept.token)
      (fun w' kept hkept => hfresh w' _ _ (hs.floors w') (hclean w' kept hkept)) hw

/-- A window makes a call. -/
theorem ask_sound (hs : Known s) (hfree : s.calls n = none) (hwindow : c.window = w)
    (htask : c.task = none) (hsince : c.since = (s.windows w).floor)
    (ht : t = { s.setWindow w ((s.windows w).start jwtExpMs c.kind) with calls := Function.update s.calls n (some c) }) :
    Known t ∧ (s.clean → t.clean) := by
  obtain ⟨hfloor, hevents⟩ := start_frame jwtExpMs (s.windows w) c.kind
  constructor
  · subst ht
    refine ⟨hs.held, ?_, ?_, hs.stamps, ?_, ?_, ?_⟩
    · exact forall_setWindow (P := fun _ window => window.floor ≤ s.epoch) hs.floors
        (hfloor ▸ hs.floors w)
    · exact forall_setWindow (P := fun _ window => ∀ e ∈ window.events, e.epoch ≤ s.epoch)
        hs.events (hevents ▸ hs.events w)
    · intro m c' hc'
      rcases update_eq_some hc' with ⟨-, heq⟩ | ⟨-, hc'⟩
      · obtain rfl := Option.some.inj heq
        exact hsince ▸ hs.floors w
      · exact hs.calls m c' hc'
    · intro m c' t' hc' ht'
      rcases update_eq_some hc' with ⟨-, heq⟩ | ⟨-, hc'⟩
      · obtain rfl := Option.some.inj heq
        rw [htask] at ht'
        cases ht'
      · exact hs.tasks m c' t' hc' ht'
    · intro m c' t' pc hc' ht'
      rcases update_eq_some hc' with ⟨-, heq⟩ | ⟨-, hc'⟩
      · obtain rfl := Option.some.inj heq
        rw [htask] at ht'
        cases ht'
      · exact hs.carried m c' t' pc hc' ht'
  · intro hclean
    have hlogin : ∀ w' token, s.loggingIn w' token → t.loggingIn w' token := by
      rintro w' token ⟨m, c', login, hc', hrest⟩
      refine ⟨m, c', login, ?_, ht ▸ hrest⟩
      have hm : m ≠ n := by
        rintro rfl
        rw [hfree] at hc'
        cases hc'
      rw [ht, ← hc']
      exact Function.update_of_ne hm _ _
    have hnew : ∀ login, c.kind = .setSession login → t.loggingIn w login.token := by
      intro login hkind
      refine ⟨n, c, login, ?_, hwindow, hkind, rfl, fun t' ht' => ?_⟩
      · rw [ht]
        exact Function.update_self _ _ _
      · rw [htask] at ht'
        cases ht'
    have hfresh : ∀ w' e token, e ≤ s.epoch → s.fresh w' e token → t.fresh w' e token :=
      fun w' e token he h =>
        h.of_step (ht ▸ List.Subset.refl _) he fun token h => .inr (hlogin w' token h)
    refine (clean_setWindow_iff hs hclean (by rw [ht]) hfresh).mpr fun kept hkept => ?_
    rw [hfloor]
    rcases cached_start hkept with hold | ⟨login, hkind, htoken⟩
    · exact hfresh w _ _ (hs.floors w) (hclean w kept hold)
    · exact .inr (htoken ▸ hnew login hkind)

/-! ### Commands -/

variable {pc : Pc Token User}

/-- Rust gets a command. -/
theorem append_sound (hs : Known s)
    (ht : t = { s with rust := { s.rust with tasks := s.rust.tasks ++ [pc] } }) :
    Known t ∧ (s.clean → t.clean) := by
  have hold : ∀ {i : ℕ} {p : Pc Token User}, i < s.rust.tasks.length →
      (s.rust.tasks ++ [pc])[i]? = some p → s.rust.tasks[i]? = some p :=
    fun hi h => (List.getElem?_append_left hi).symm.trans h
  constructor
  · subst ht
    refine ⟨hs.held, hs.floors, hs.events, hs.stamps, hs.calls, fun m c t hc ht => ?_,
      fun m c t p hc ht hp => ?_⟩
    · rw [List.length_append]
      exact Nat.lt_add_right _ (hs.tasks m c t hc ht)
    · exact hs.carried m c t p hc ht (hold (hs.tasks m c t hc ht) hp)
  · intro hclean w kept hkept
    subst ht
    refine State.fresh.of_step (s := s) (List.Subset.refl _) (hs.floors w) (fun token h => .inr ?_)
      (hclean w kept hkept)
    obtain ⟨m, c, login, hc, hw, hkind, htoken, htask⟩ := h
    refine ⟨m, c, login, hc, hw, hkind, htoken, fun t ht => ?_⟩
    exact (List.getElem?_append_left (hs.tasks m c t hc ht)).trans (htask t ht)

/-- Rust's command is the one of a call that had none. -/
theorem assign_sound (hs : Known s) {i : ℕ} (hc : s.calls n = some c)
    (hi : s.rust.tasks[i]? = some c.kind.command.start)
    (ht : t = { s with calls := Function.update s.calls n (some { c with task := some i }) }) :
    Known t ∧ (s.clean → t.clean) := by
  have hlt : i < s.rust.tasks.length := (List.getElem?_eq_some_iff.mp hi).1
  constructor
  · subst ht
    refine ⟨hs.held, hs.floors, hs.events, hs.stamps, fun m c' hc' => ?_, fun m c' t hc' ht => ?_,
      fun m c' t pc hc' ht hpc => ?_⟩
    · rcases update_eq_some hc' with ⟨-, heq⟩ | ⟨-, hc'⟩
      · obtain rfl := Option.some.inj heq
        exact hs.calls n c hc
      · exact hs.calls m c' hc'
    · rcases update_eq_some hc' with ⟨-, heq⟩ | ⟨-, hc'⟩
      · obtain rfl := Option.some.inj heq
        obtain rfl := Option.some.inj ht
        exact hlt
      · exact hs.tasks m c' t hc' ht
    · rcases update_eq_some hc' with ⟨-, heq⟩ | ⟨-, hc'⟩
      · obtain rfl := Option.some.inj heq
        obtain rfl := Option.some.inj ht
        obtain rfl := Option.some.inj (hi.symm.trans hpc)
        rw [DesktopSession.tokens_start]
        intro token h
        cases h
      · exact hs.carried m c' t pc hc' ht hpc
  · intro hclean w kept hkept
    subst ht
    refine State.fresh.of_step (s := s) (List.Subset.refl _) (hs.floors w) (fun token h => .inr ?_)
      (hclean w kept hkept)
    obtain ⟨m, c', login, hc', hw, hkind, htoken, htask⟩ := h
    rcases eq_or_ne m n with rfl | hm
    · obtain rfl := Option.some.inj (hc.symm.trans hc')
      refine ⟨m, { c with task := some i }, login, Function.update_self _ _ _, hw, hkind, htoken, ?_⟩
      intro t ht
      obtain rfl := Option.some.inj ht
      rw [hkind] at hi
      exact hi
    · exact ⟨m, c', login, (Function.update_of_ne hm _ _).trans hc', hw, hkind, htoken, htask⟩

variable {event : AuthChanged User}

theorem emitted_epoch {m : DesktopSession.Memory Token User} {stamp : ℕ}
    (h : emitted m stamp pc = some event) : event.epoch = stamp := by
  unfold emitted at h
  split at h
  · rw [← Option.some.inj h]
  · rw [← Option.some.inj h]
  · rw [← Option.some.inj h]
  · rw [← Option.some.inj h]
  · rw [← Option.some.inj h]
  · obtain ⟨user, -, rfl⟩ := Option.map_eq_some_iff.mp h
    rfl
  · cases h

/-- A command goes on: what it carries along the session has had, and a login is taken up. -/
theorem rust_sound [DecidableEq Token] (hs : Known s) {i : ℕ} {o : Outside Token}
    {rust : DesktopSession.State Token User} (hpc : s.rust.tasks[i]? = some pc)
    (hrun : s.rust.run jwtExp i o = some rust) (ht : t = s.afterRust i pc rust) :
    Known t ∧ (s.clean → t.clean) := by
  have hstep : (DesktopSession.system jwtExp).step s.rust (.run i o) = some rust := hrun
  obtain ⟨p, m', pc', hp, hadvance, hrust⟩ := DesktopSession.step_run_iff.mp hstep
  obtain rfl := Option.some.inj (hpc.symm.trans hp)
  have hepoch : s.epoch ≤ t.epoch := by
    have hle := DesktopSession.advance_epoch_le hadvance
    rw [ht]
    unfold State.epoch State.afterRust
    rw [hrust]
    exact hle
  have hsubset : s.held ⊆ t.held := by
    rw [ht]
    exact List.subset_append_left _ _
  have hheld : ∀ token, m'.inner.token = some token → (t.epoch, token) ∈ t.held := by
    intro token htoken
    rw [ht]
    refine List.mem_append_right _ ?_
    rw [hrust, htoken]
    exact List.mem_singleton_self _
  have hcalls : t.calls = s.calls := by
    rw [ht]
    rfl
  have hstamps : t.stamps =
      if setsEpoch pc then Function.update s.stamps i t.epoch else s.stamps := by
    rw [ht]
    rfl
  have htasks : t.rust.tasks = s.rust.tasks.set i pc' := by
    rw [ht]
    unfold State.afterRust
    rw [hrust]
  constructor
  · refine ⟨fun token h => hheld token ?_, fun w => ?_, fun w event hevent => ?_, fun j => ?_,
      fun m c hc => Nat.le_trans (hs.calls m c (hcalls ▸ hc)) hepoch, fun m c j hc hj => ?_,
      fun m c j p hc hj hp token htoken => ?_⟩
    · rw [ht] at h
      unfold State.afterRust at h
      rw [hrust] at h
      exact h
    · rw [ht]
      exact Nat.le_trans (hs.floors w) (ht ▸ hepoch)
    · refine Nat.le_trans ?_ hepoch
      rw [ht] at hevent
      rcases List.mem_append.mp hevent with hold | hnew
      · exact hs.events w event hold
      · rw [emitted_epoch (Option.mem_toList.mp hnew)]
        exact hs.stamps i
    · rw [hstamps]
      split
      · rcases eq_or_ne j i with rfl | hj
        · exact Nat.le_of_eq (Function.update_self j t.epoch s.stamps)
        · rw [Function.update_of_ne hj]
          exact Nat.le_trans (hs.stamps j) hepoch
      · exact Nat.le_trans (hs.stamps j) hepoch
    · rw [htasks, List.length_set]
      exact hs.tasks m c j (hcalls ▸ hc) hj
    · rw [htasks] at hp
      rw [hcalls] at hc
      rcases DesktopSession.getElem?_set_cases hp with ⟨rfl, rfl⟩ | ⟨-, hp⟩
      · rcases DesktopSession.advance_tokens hadvance htoken with hold | hread
        · exact (hs.carried m c j _ hc hj hpc token hold).of_subset hsubset
        · exact ⟨t.epoch, Nat.le_trans (hs.calls m c hc) hepoch, hheld token hread⟩
      · exact (hs.carried m c j p hc hj hp token htoken).of_subset hsubset
  · intro hclean w kept hkept
    have hwindow : (t.windows w).cached = (s.windows w).cached ∧
        (t.windows w).floor = (s.windows w).floor := by
      rw [ht]
      exact ⟨rfl, rfl⟩
    rw [hwindow.1] at hkept
    rw [hwindow.2]
    refine (hclean w kept hkept).of_step hsubset (hs.floors w) fun token h => ?_
    obtain ⟨m, c, login, hc, hw, hkind, rfl, htask⟩ := h
    by_cases hi : c.task = some i
    · obtain rfl := Option.some.inj (hpc.symm.trans (htask i hi))
      obtain ⟨rfl, -⟩ := by simpa [DesktopSession.advance] using hadvance
      exact .inl ⟨t.epoch, hepoch, hheld login.token rfl⟩
    · refine .inr ⟨m, c, login, hcalls ▸ hc, hw, hkind, rfl, fun j hj => ?_⟩
      have hne : i ≠ j := by
        rintro rfl
        exact hi hj
      rw [htasks, List.getElem?_set_ne hne]
      exact htask j hj

/-! ### What windows hear -/

section

variable [DecidableEq Id]

theorem finish_frame (jwtExpMs : Token → Option ℤ) (window : Window Token User)
    (c : Call Token User) (stamp : ℕ) (o : DesktopSession.Outcome Token User) :
    (window.finish jwtExpMs c stamp o).floor = window.floorDone c stamp ∧
      (window.finish jwtExpMs c stamp o).events = window.events := by
  unfold Window.finish
  dsimp only
  split <;> exact ⟨rfl, rfl⟩

theorem floorDone_le (hs : Known s) (c : Call Token User) :
    (s.windows w).floorDone c (s.stamp c) ≤ s.epoch := by
  have hstamp : s.stamp c ≤ s.epoch := by
    unfold State.stamp
    cases c.task with
    | none => exact Nat.zero_le _
    | some t => exact hs.stamps t
  have hmax : max (s.windows w).floor (s.stamp c) ≤ s.epoch := Nat.max_le.mpr ⟨hs.floors w, hstamp⟩
  unfold Window.floorDone
  split
  · split
    · exact hmax
    · exact hs.floors w
  · exact hmax
  · exact hs.floors w

/-- A call that is answered is no login that Rust has yet to take up. -/
theorem loggingIn_of_answered (hc : s.calls n = some c) (ho : s.answer c = some o)
    (hrust : t.rust = s.rust) (hcalls : t.calls = Function.update s.calls n none) :
    t.loggingIn w token ↔ s.loggingIn w token := by
  unfold State.loggingIn
  rw [hrust, hcalls]
  constructor
  · rintro ⟨m, c', login, hc', hrest⟩
    rcases update_eq_some hc' with ⟨-, heq⟩ | ⟨-, hc'⟩
    · cases heq
    · exact ⟨m, c', login, hc', hrest⟩
  · rintro ⟨m, c', login, hc', hw, hkind, htoken, htask⟩
    refine ⟨m, c', login, ?_, hw, hkind, htoken, htask⟩
    have hm : m ≠ n := by
      rintro rfl
      obtain rfl := Option.some.inj (hc.symm.trans hc')
      obtain ⟨i, hi, hpc⟩ := answer_eq_some ho
      cases hpc.symm.trans (htask i hi)
    rw [Function.update_of_ne hm]
    exact hc'

theorem answersFresh_iff :
    (∀ kept, ((s.windows c.window).finish jwtExpMs c (s.stamp c) o).cached = some kept →
      s.fresh c.window ((s.windows c.window).floorDone c (s.stamp c)) kept.token) ↔
        s.answersFresh jwtExpMs c o := by
  obtain ⟨window, kind, task, since, switched⟩ := c
  cases kind with
  | getToken | onUnauthorized =>
      cases o with
      | token r => cases r <;> exact Iff.rfl
      | done | restored => exact Iff.rfl
  | restore =>
      cases o with
      | restored r => cases r <;> exact Iff.rfl
      | done | token => exact Iff.rfl
  | setSession | setUser | clear => exact Iff.rfl

/-- A window gets an answer: it stays clean exactly if what it keeps is fresh then. -/
theorem reply_sound (hs : Known s) (hc : s.calls n = some c) (ho : s.answer c = some o)
    (ht : t = { s.setWindow c.window ((s.windows c.window).finish jwtExpMs c (s.stamp c) o) with calls := Function.update s.calls n none }) :
    Known t ∧ (s.clean → (t.clean ↔ s.meets jwtExpMs idOf (.reply n))) := by
  obtain ⟨hfloor, hevents⟩ := finish_frame jwtExpMs (s.windows c.window) c (s.stamp c) o
  constructor
  · subst ht
    refine ⟨hs.held, ?_, ?_, hs.stamps, ?_, ?_, ?_⟩
    · exact forall_setWindow (P := fun _ window => window.floor ≤ s.epoch) hs.floors
        (hfloor ▸ floorDone_le hs c)
    · exact forall_setWindow (P := fun _ window => ∀ e ∈ window.events, e.epoch ≤ s.epoch)
        hs.events (hevents ▸ hs.events c.window)
    · intro m c' hc'
      rcases update_eq_some hc' with ⟨-, heq⟩ | ⟨-, hc'⟩
      · cases heq
      · exact hs.calls m c' hc'
    · intro m c' t' hc'
      rcases update_eq_some hc' with ⟨-, heq⟩ | ⟨-, hc'⟩
      · cases heq
      · exact hs.tasks m c' t' hc'
    · intro m c' t' pc hc'
      rcases update_eq_some hc' with ⟨-, heq⟩ | ⟨-, hc'⟩
      · cases heq
      · exact hs.carried m c' t' pc hc'
  · intro hclean
    have hlogin : ∀ w token, t.loggingIn w token ↔ s.loggingIn w token :=
      fun w token => loggingIn_of_answered hc ho (by rw [ht]; rfl) (by rw [ht])
    have hheld : t.held = s.held := by
      rw [ht]
      rfl
    have hfresh : ∀ w e token, t.fresh w e token ↔ s.fresh w e token := by
      intro w e token
      unfold State.fresh State.since
      rw [hheld, hlogin]
    rw [clean_setWindow_iff hs hclean (by rw [ht]) fun w e token _ => (hfresh w e token).mpr, hfloor]
    simp only [hfresh]
    rw [answersFresh_iff]
    constructor
    · intro h c' o' hc' ho'
      obtain rfl := Option.some.inj (hc.symm.trans hc')
      obtain rfl := Option.some.inj (ho.symm.trans ho')
      exact h
    · exact fun h => h c o hc ho

variable {events : List (AuthChanged User)}

/-- A window hears of a change: it stays clean exactly if it forgets what it keeps, or that is fresh
then. -/
theorem deliver_sound (hs : Known s) (hevents : (s.windows w).events = event :: events)
    (ht : t = s.setWindow w { (s.windows w).hear idOf event with events := events }) :
    Known t ∧ (s.clean → (t.clean ↔ s.meets jwtExpMs idOf (.deliver w))) := by
  have hmem : ∀ e ∈ events, e.epoch ≤ s.epoch := fun e he =>
    hs.events w e (hevents ▸ List.mem_cons_of_mem _ he)
  have hevent : event.epoch ≤ s.epoch := hs.events w event (hevents ▸ List.mem_cons_self)
  constructor
  · subst ht
    refine ⟨hs.held, ?_, ?_, hs.stamps, hs.calls, hs.tasks, hs.carried⟩
    · refine forall_setWindow (P := fun _ window => window.floor ≤ s.epoch) hs.floors ?_
      change (s.windows w).floorAfter idOf event ≤ s.epoch
      unfold Window.floorAfter
      split
      · exact Nat.max_le.mpr ⟨hs.floors w, hevent⟩
      · exact hs.floors w
    · exact forall_setWindow (P := fun _ window => ∀ e ∈ window.events, e.epoch ≤ s.epoch)
        hs.events hmem
  · intro hclean
    have hfresh : ∀ w e token, t.fresh w e token ↔ s.fresh w e token := by
      intro w e token
      rw [ht]
      rfl
    rw [clean_setWindow_iff hs hclean (by rw [ht]) fun w e token _ => (hfresh w e token).mpr]
    simp only [hfresh]
    constructor
    · intro h e events' kept hcons hsome hkept
      obtain ⟨rfl, -⟩ := List.cons.inj (hevents.symm.trans hcons)
      refine h kept ?_
      change (if event.user.isNone then none else (s.windows w).cached) = some kept
      rw [if_neg, hkept]
      rw [Option.isNone_iff_eq_none]
      rintro hnone
      rw [hnone] at hsome
      cases hsome
    · intro h kept hkept
      change (if event.user.isNone then none else (s.windows w).cached) = some kept at hkept
      obtain ⟨hsome, hkept⟩ := Option.ite_none_left_eq_some.mp hkept
      refine h event events kept hevents ?_ hkept
      rwa [← Option.not_isNone, Bool.not_eq_true', Bool.eq_false_iff]

/-- An event passes a window by. -/
theorem miss_sound (hs : Known s) (hevents : (s.windows w).events = event :: events)
    (ht : t = s.setWindow w { s.windows w with events := events }) :
    Known t ∧ (s.clean → t.clean) := by
  constructor
  · subst ht
    refine ⟨hs.held, ?_, ?_, hs.stamps, hs.calls, hs.tasks, hs.carried⟩
    · exact forall_setWindow (P := fun _ window => window.floor ≤ s.epoch) hs.floors (hs.floors w)
    · exact forall_setWindow (P := fun _ window => ∀ e ∈ window.events, e.epoch ≤ s.epoch)
        hs.events fun e he => hs.events w e (hevents ▸ List.mem_cons_of_mem _ he)
  · intro hclean w' kept hkept
    have hsame : ∀ w', (t.windows w').cached = (s.windows w').cached ∧
        (t.windows w').floor = (s.windows w').floor := by
      rw [ht]
      exact forall_setWindow (P := fun w' window => window.cached = (s.windows w').cached ∧
        window.floor = (s.windows w').floor) (fun w' => ⟨rfl, rfl⟩) ⟨rfl, rfl⟩
    rw [(hsame w').1] at hkept
    rw [(hsame w').2]
    have hfresh := hclean w' kept hkept
    rw [ht]
    exact hfresh

/-! ## Runs -/

variable [DecidableEq Token]

theorem step_sound (hs : Known s) (h : (tauriStore jwtExpMs idOf jwtExp).step s turn = some t) :
    Known t ∧ (s.clean → (t.clean ↔ s.meets jwtExpMs idOf turn)) := by
  have hsound : Known t ∧ (s.clean → t.clean) →
      Known t ∧ (s.clean → (t.clean ↔ True)) :=
    fun ⟨hknown, hclean⟩ => ⟨hknown, fun h => iff_true_intro (hclean h)⟩
  cases turn with
  | call n w kind now =>
      refine hsound ?_
      simp only [tauriStore] at h
      split at h
      · cases h
      · rename_i hfree
        split at h
        · obtain rfl := Option.some.inj h
          exact ⟨hs, id⟩
        · exact ask_sound hs hfree rfl rfl rfl (Option.some.inj h).symm
      · rename_i hfree _
        exact ask_sound hs hfree rfl rfl rfl (Option.some.inj h).symm
  | arrive n =>
      refine hsound ?_
      obtain ⟨c, hc, harrive⟩ := Option.bind_eq_some_iff.mp h
      obtain ⟨-, harrive⟩ := Option.ite_none_left_eq_some.mp harrive
      obtain ⟨rust, hrust, rfl⟩ := Option.map_eq_some_iff.mp harrive
      obtain rfl := rust_call hrust
      obtain ⟨hknown, hclean⟩ := append_sound hs rfl
      obtain ⟨hknown', hclean'⟩ := assign_sound hknown hc
        (List.getElem?_concat_length ..) rfl
      exact ⟨hknown', fun h => hclean' (hclean h)⟩
  | rust i o =>
      refine hsound ?_
      obtain ⟨pc, hpc, hrun⟩ := Option.bind_eq_some_iff.mp h
      obtain ⟨rust, hrust, rfl⟩ := Option.map_eq_some_iff.mp hrun
      exact rust_sound hs hpc hrust rfl
  | background =>
      refine hsound ?_
      simp only [tauriStore] at h
      obtain ⟨rust, hrust, rfl⟩ := Option.map_eq_some_iff.mp h
      obtain rfl := rust_call hrust
      exact append_sound hs rfl
  | reply n =>
      obtain ⟨c, hc, hreply⟩ := Option.bind_eq_some_iff.mp h
      obtain ⟨o, ho, rfl⟩ := Option.map_eq_some_iff.mp hreply
      exact reply_sound hs hc ho rfl
  | deliver w =>
      simp only [tauriStore] at h
      split at h
      · cases h
      · rename_i hevents
        exact deliver_sound hs hevents (Option.some.inj h).symm
  | miss w =>
      refine hsound ?_
      simp only [tauriStore] at h
      split at h
      · cases h
      · rename_i hevents
        exact miss_sound hs hevents (Option.some.inj h).symm

/-- A window that does not log anybody in waits for no login to be taken up. -/
theorem not_loggingIn {file : DesktopSession.CredentialFile Token User} {user : Option User}
    {turns : List (Turn Token User)}
    (hturns : ∀ turn ∈ turns, ∀ n login now, turn ≠ .call n w (.setSession login) now)
    (h : (tauriStore jwtExpMs idOf jwtExp).Run (State.start file user) turns s) :
    ¬ s.loggingIn w token := by
  have hguarded := h.guarded_of_forall
    (C := fun _ turn => ∀ n login now, turn ≠ .call n w (.setSession login) now)
    fun turn hturn _ => hturns turn hturn
  have hcalls := hguarded.invariant (P := fun s : State Token User => ∀ n c login,
    s.calls n = some c → c.window = w → c.kind ≠ .setSession login) ?_ (fun _ _ _ hc => by cases hc)
  · rintro ⟨n, c, login, hc, hw, hkind, -⟩
    exact hcalls n c login hc hw hkind
  · intro s turn t hs hturn hstep
    have hask : ∀ {m w' kind now}, turn = .call m w' kind now →
        ∀ c n c' login, Function.update s.calls m (some c) n = some c' → c.window = w' →
          c.kind = kind → c'.window = w → c'.kind ≠ .setSession login := by
      intro m w' kind now hcall c n c' login hc' hw' hkind hw hkind'
      rcases update_eq_some hc' with ⟨-, heq⟩ | ⟨-, hold⟩
      · obtain rfl := Option.some.inj heq
        obtain rfl := hw'.symm.trans hw
        obtain rfl := hkind.symm.trans hkind'
        exact hturn m login now hcall
      · exact hs n c' login hold hw hkind'
    cases turn with
    | call m w' kind now =>
        simp only [tauriStore] at hstep
        split at hstep
        · cases hstep
        · split at hstep
          · obtain rfl := Option.some.inj hstep
            exact hs
          · obtain rfl := Option.some.inj hstep
            exact fun n c' login hc' => hask rfl _ n c' login hc' rfl rfl
        · obtain rfl := Option.some.inj hstep
          exact fun n c' login hc' => hask rfl _ n c' login hc' rfl rfl
    | arrive m =>
        obtain ⟨c, hc, harrive⟩ := Option.bind_eq_some_iff.mp hstep
        obtain ⟨-, harrive⟩ := Option.ite_none_left_eq_some.mp harrive
        obtain ⟨rust, -, rfl⟩ := Option.map_eq_some_iff.mp harrive
        intro n c' login hc' hw
        rcases update_eq_some hc' with ⟨-, heq⟩ | ⟨-, hold⟩
        · obtain rfl := Option.some.inj heq
          exact hs m c login hc hw
        · exact hs n c' login hold hw
    | rust i o =>
        obtain ⟨pc, -, hrun⟩ := Option.bind_eq_some_iff.mp hstep
        obtain ⟨rust, -, rfl⟩ := Option.map_eq_some_iff.mp hrun
        exact hs
    | background =>
        simp only [tauriStore] at hstep
        obtain ⟨rust, -, rfl⟩ := Option.map_eq_some_iff.mp hstep
        exact hs
    | reply m =>
        obtain ⟨c, -, hreply⟩ := Option.bind_eq_some_iff.mp hstep
        obtain ⟨o, -, rfl⟩ := Option.map_eq_some_iff.mp hreply
        intro n c' login hc' hw
        rcases update_eq_some hc' with ⟨-, heq⟩ | ⟨-, hold⟩
        · cases heq
        · exact hs n c' login hold hw
    | deliver w' | miss w' =>
        simp only [tauriStore] at hstep
        split at hstep
        · cases hstep
        · obtain rfl := Option.some.inj hstep
          exact hs

/-- In exactly the runs where every answer and every change finds a window clean afterwards, what
`getToken` returns follows the login. -/
theorem follows_iff (file : DesktopSession.CredentialFile Token User) (user : Option User)
    (turns : List (Turn Token User)) :
    (∀ s turn t, (tauriStore jwtExpMs idOf jwtExp).Passes (State.start file user) turns s turn t →
        Follows s turn t) ↔
      ∀ s turn t, (tauriStore jwtExpMs idOf jwtExp).Passes (State.start file user) turns s turn t →
        s.meets jwtExpMs idOf turn := by
  have hstep : ∀ (s : State Token User) (turn : Turn Token User) (t : State Token User),
      Known s ∧ s.clean → (tauriStore jwtExpMs idOf jwtExp).step s turn = some t →
        (Follows s turn t ↔ s.meets jwtExpMs idOf turn) ∧
          (s.meets jwtExpMs idOf turn → Known t ∧ t.clean) := by
    rintro s turn t ⟨hs, hclean⟩ h
    obtain ⟨hknown, hiff⟩ := step_sound hs h
    exact ⟨⟨fun hf => (hiff hclean).mp hf.clean,
      fun hm => ⟨fun w e token hret => returned_fresh hs hclean hret, (hiff hclean).mpr hm⟩⟩,
      fun hm => ⟨hknown, (hiff hclean).mpr hm⟩⟩
  exact StepSystem.passes_iff hstep ⟨known_start file user, clean_start file user⟩ turns

end

end SpecterComs.TauriStore
