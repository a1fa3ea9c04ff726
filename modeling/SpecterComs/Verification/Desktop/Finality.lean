import SpecterComs.Verification.Desktop.Steps

/-! # The file describes the session in memory

Where no command changes the session between another's change and its write to the file, the
write that is due is always the one of the session in memory.
-/

namespace SpecterComs.DesktopSession

variable {Token User : Type*} {jwtExp : Token → Option ℤ}

namespace Memory

variable (m : Memory Token User)

/-- The file describes the session in memory, or there is none and the saved one is still to be
restored. -/
def Described : Prop :=
  m.file.session = m.inner.session ∨ m.inner.session = none ∧ m.inner.loaded = false

def LoggedOut : Prop :=
  m.inner.session = none ∧ m.file = .absent

end Memory

/-- What a restore loaded is what it would load now. -/
def Pc.upToDate [DecidableEq Token] [DecidableEq User] (m : Memory Token User) :
    Pc Token User → Bool
  | .setLoaded saved => m.inner.loaded || m.inner.session.isSome || saved = m.file.load
  | _ => true

/-- The file operation succeeds, a restore sets what is in the file, and the session changes
only when no write is due. -/
def careful [DecidableEq Token] [DecidableEq User] (jwtExp : Token → Option ℤ)
    (s : State Token User) : Input Token User → Bool
  | .call _ => true
  | .run t o =>
      o.io = .ok && (s.tasks[t]?.all fun pc => pc.upToDate s.memory) &&
        ((s.tasks.all fun pc => pc.write.isNone) ||
          ((s.run jwtExp t o).all fun s' =>
            s'.memory.inner.session = s.memory.inner.session))

/-! ## Lists of tasks -/

section Tasks

variable {tasks : List (Pc Token User)} {t : ℕ} {p pc pc' : Pc Token User}

theorem mem_set_of_ne (ht : tasks[t]? = some pc) (hp : p ∈ tasks) (hne : p ≠ pc) :
    p ∈ tasks.set t pc' := by
  obtain ⟨u, hu⟩ := List.mem_iff_getElem?.mp hp
  have hut : t ≠ u := by
    rintro rfl
    rw [ht] at hu
    exact hne (Option.some.inj hu).symm
  apply List.mem_of_getElem? (i := u)
  rw [List.getElem?_set_ne hut, hu]

theorem mem_set_self (ht : tasks[t]? = some pc) : pc' ∈ tasks.set t pc' := by
  obtain ⟨hlt, -⟩ := List.getElem?_eq_some_iff.mp ht
  exact List.mem_set hlt pc'

end Tasks

/-! ## The invariant -/

structure Settled (s : State Token User) : Prop where
  announced : ∀ p ∈ s.tasks, ∀ w, p.write = some w → s.memory.inner.session = w
  described : (∀ p ∈ s.tasks, p.write = none) → s.memory.Described
  loggedOut : s.lastCompleted = some .logout →
    s.memory.LoggedOut ∨ ∃ x, Pc.persist .login x ∈ s.tasks

variable {s s' : State Token User} {t : ℕ} {o : Outside Token} {pc pc' : Pc Token User}
  {m' : Memory Token User}

theorem write_of_completes {sign : Sign} (h : pc.completes = some sign) :
    ∃ w, pc.write = some w := by
  cases pc with
  | persist saver x => exact ⟨some x, rfl⟩
  | delete e => exact ⟨none, rfl⟩
  | _ => simp [Pc.completes] at h

theorem settled_init (file : CredentialFile Token User) : Settled (State.init file) where
  announced p hp := by simp [State.init] at hp
  described _ := .inr ⟨rfl, rfl⟩
  loggedOut h := by simp [State.init] at h

theorem write_of_isFinished (h : pc.isFinished = true) : pc.write = none := by
  cases pc with
  | finished outcome => rfl
  | _ => simp [Pc.isFinished] at h

theorem Settled.call {c : Command Token User} (hs : Settled s) :
    Settled { s with tasks := s.tasks ++ [c.start] } where
  announced p hp w hw := by
    rcases List.mem_append.mp hp with hp | hp
    · exact hs.announced p hp w hw
    · obtain rfl := List.mem_singleton.mp hp
      simp at hw
  described h := hs.described fun p hp => h p (List.mem_append_left _ hp)
  loggedOut h := (hs.loggedOut h).imp_right fun ⟨x, hx⟩ => ⟨x, List.mem_append_left _ hx⟩

variable [DecidableEq Token]

/-- A write that is due is done. -/
theorem Settled.write {w : Option (Session Token User)} (hs : Settled s)
    (ht : s.tasks[t]? = some pc)
    (h : advance jwtExp o s.refreshHeld s.memory pc = some (m', pc'))
    (hw : pc.write = some w) (hio : o.io = .ok) :
    Settled { memory := m', tasks := s.tasks.set t pc',
              lastCompleted := pc.completes.or s.lastCompleted } := by
  obtain ⟨hinner, hpc', hfile⟩ := advance_of_write h hw
  have hfile : m'.file = .describing w := hfile hio
  have hsession : m'.inner.session = w := by
    rw [hinner]
    exact hs.announced pc (List.mem_of_getElem? ht) w hw
  refine ⟨?_, fun _ => .inl (by simp [hfile, hsession]), ?_⟩
  · intro p hp w' hw'
    rcases List.mem_or_eq_of_mem_set hp with hp | rfl
    · rw [hinner]
      exact hs.announced p hp w' hw'
    · simp [hpc'] at hw'
  · intro hlast
    cases hw' : w with
    | none => exact .inl ⟨by rw [hsession, hw'], by rw [hfile, hw']; rfl⟩
    | some x =>
        -- a write of a session: the last one to complete was a logout before it
        subst hw'
        obtain ⟨saver, rfl⟩ : ∃ saver, pc = .persist saver x := by
          cases pc with
          | persist saver y =>
              obtain rfl : y = x := by simpa [Pc.write] using hw
              exact ⟨saver, rfl⟩
          | _ => simp [Pc.write] at hw
        cases saver with
        | login => simp [Pc.completes] at hlast
        | user | refresh c =>
            have hold := hs.loggedOut (by simpa [Pc.completes] using hlast)
            rcases hold with ⟨hnone, -⟩ | ⟨y, hy⟩
            · rw [← hinner, hsession] at hnone
              cases hnone
            · exact .inr ⟨y, mem_set_of_ne ht hy (by simp)⟩

/-- A step that is no write, and changes the session only where no write is due. -/
theorem Settled.effect [DecidableEq User] (hs : Settled s) (ht : s.tasks[t]? = some pc)
    (h : advance jwtExp o s.refreshHeld s.memory pc = some (m', pc'))
    (hw : pc.write = none) (hio : o.io = .ok) (hdate : pc.upToDate s.memory = true)
    (hfree : (∀ p ∈ s.tasks, p.write = none) ∨
      m'.inner.session = s.memory.inner.session) :
    Settled { memory := m', tasks := s.tasks.set t pc',
              lastCompleted := pc.completes.or s.lastCompleted } := by
  obtain ⟨hfile, heffect⟩ := advance_of_not_write h hw
  have hfile : m'.file = s.memory.file := hfile hio
  have hmem : pc' ∈ s.tasks.set t pc' := mem_set_self ht
  have hloaded : ∀ saved, pc = .setLoaded saved →
      (s.memory.inner.loaded || s.memory.inner.session.isSome) = false →
      saved = s.memory.file.load := by
    rintro saved rfl hlive
    rw [Pc.upToDate, hlive] at hdate
    simpa using hdate
  refine ⟨?_, ?_, ?_⟩
  · intro p hp w hpw
    rcases List.mem_or_eq_of_mem_set hp with hp | rfl
    · rcases hfree with hfree | hsame
      · simp [hfree p hp] at hpw
      · rw [hsame]
        exact hs.announced p hp w hpw
    · exact heffect.announces hpw
  · intro hquiet
    have hpc' : pc'.write = none := hquiet pc' hmem
    have hold : s.memory.Described := hs.described fun p hp => by
      by_cases hpc : p = pc
      · rw [hpc, hw]
      · exact hquiet p (mem_set_of_ne ht hp hpc)
    generalize hinner : m'.inner = inner at heffect
    unfold Memory.Described
    rw [hfile, hinner]
    cases heffect with
    | quiet _ => exact hold
    | restored hlive hsession _ _ =>
        left
        rw [hsession, hloaded _ rfl hlive, CredentialFile.session]
    | offline _ => exact .inr ⟨rfl, rfl⟩
    | login => simp [Pc.write] at hpc'
    | refreshed _ => simp [Pc.write] at hpc'
    | userSet _ => simp [Pc.write] at hpc'
    | ended => simp [Pc.write] at hpc'
  · intro hlast
    have hcompletes : pc.completes = none := by
      cases hc : pc.completes with
      | none => rfl
      | some sign =>
          obtain ⟨w, hw'⟩ := write_of_completes hc
          simp [hw] at hw'
    rcases hs.loggedOut (by simpa [hcompletes] using hlast) with ⟨hnone, habsent⟩ | ⟨x, hx⟩
    · generalize hinner : m'.inner = inner at heffect
      unfold Memory.LoggedOut
      simp only [hfile, hinner, habsent, and_true]
      cases heffect with
      | quiet _ => exact .inl hnone
      | restored hlive hsession _ _ =>
          left
          rw [hsession, hloaded _ rfl hlive, habsent]
          rfl
      | offline _ => exact .inl rfl
      | login => exact .inr ⟨_, hmem⟩
      | refreshed hsome => simp [hnone] at hsome
      | userSet hsome => simp [hnone] at hsome
      | ended => exact .inl rfl
    · refine .inr ⟨x, mem_set_of_ne ht hx ?_⟩
      rintro rfl
      simp [Pc.write] at hw

variable [DecidableEq User]

theorem Settled.step {i : Input Token User} (hs : Settled s) (hcareful : careful jwtExp s i = true)
    (hi : (system jwtExp).step s i = some s') : Settled s' := by
  cases i with
  | call c =>
      rw [step_call_eq hi]
      exact hs.call
  | run t o =>
      obtain ⟨pc, m', pc', ht, h, rfl⟩ := step_run_iff.mp hi
      change s.run jwtExp t o = some _ at hi
      simp only [careful, hi, ht, Option.all_some, Bool.and_eq_true, Bool.or_eq_true,
        decide_eq_true_eq, List.all_eq_true, Option.isNone_iff_eq_none] at hcareful
      obtain ⟨⟨hio, hdate⟩, hfree⟩ := hcareful
      cases hw : pc.write with
      | none => exact hs.effect ht h hw hio hdate hfree
      | some w => exact hs.write ht h hw hio

/-- Once all commands of a careful run have completed, the file describes the session in memory,
or there is none and a restore is still to load what the file describes. After a logout there
is neither a session nor a file. -/
theorem file_describes_session {file : CredentialFile Token User} {is : List (Input Token User)}
    (h : (system jwtExp).Guarded (fun s i => careful jwtExp s i = true) (.init file) is s)
    (hall : s.allCompleted = true) :
    s.memory.Described ∧ (s.lastCompleted = some .logout → s.memory.LoggedOut) := by
  have hs : Settled s :=
    h.invariant (P := Settled) (fun _ _ _ hs hc hi => hs.step hc hi) (settled_init file)
  have hfinished : ∀ p ∈ s.tasks, p.write = none := fun p hp =>
    write_of_isFinished (List.all_eq_true.mp hall p hp)
  refine ⟨hs.described hfinished, fun hlast => ?_⟩
  rcases hs.loggedOut hlast with hout | ⟨x, hx⟩
  · exact hout
  · simpa [Pc.write] using hfinished _ hx

/-! ## Runs -/

def sampleExp : ℕ → Option ℤ := fun _ => some 1000

def stored : Session ℕ ℕ := { token := 1, refreshToken := some 2, user := 7 }

/-- A step of task `t`; the server cannot be reached. -/
def tick (t : ℕ) (now : ℤ) : Input ℕ ℕ :=
  .run t { now := now, reply := .unreachable "error sending request", io := .ok }

/-- A step of task `t`; the server answers. -/
def answer (t : ℕ) (now : ℤ) (code : ℕ) (shown : String) (token refreshToken : ℕ) :
    Input ℕ ℕ :=
  .run t
    { now := now
      reply := .response ⟨code, shown⟩ (some ⟨token, refreshToken⟩)
      io := .ok }

def restoreOffline : List (Input ℕ ℕ) :=
  .call .authRestore :: List.replicate 8 (tick 0 2000)

theorem restoreOffline_states :
    ((system sampleExp).exec (.init (.describing (some stored))) restoreOffline).map
      (fun s => (s.allCompleted, s.memory.file.session, s.memory.inner.session)) =
        some (true, some stored, none) := by
  decide +kernel

/-- The restore that cannot reach the server leaves the file, and no session in memory. -/
theorem restore_keeps_file :
    ¬ ∀ (file : CredentialFile ℕ ℕ) (is : List (Input ℕ ℕ)) (s : State ℕ ℕ),
      (system sampleExp).Run (.init file) is s → s.allCompleted = true →
        s.memory.file.session = s.memory.inner.session ∧
          (s.lastCompleted = some .logout → s.memory.LoggedOut) := by
  intro hclaim
  obtain ⟨s, hs, hstate⟩ := Option.map_eq_some_iff.mp restoreOffline_states
  simp only [Prod.mk.injEq] at hstate
  obtain ⟨hall, hfile, hnone⟩ := hstate
  have hsame := (hclaim _ _ s (StepSystem.exec_eq_some_iff.mp hs) hall).1
  rw [hfile, hnone] at hsame
  cases hsame

def loginRefreshLogout : List (Input ℕ ℕ) :=
  [.call (.authSetSession stored), tick 0 0, tick 0 0, .call .authGetToken, tick 1 950,
    tick 1 950, tick 1 950, answer 1 950 200 "200 OK" 3 4, tick 1 950]

def orderly : List (Input ℕ ℕ) :=
  loginRefreshLogout ++ [tick 1 950, .call .authLogout, tick 2 960, tick 2 960]

theorem orderly_states :
    (((system sampleExp).restrict (careful sampleExp)).exec (.init .absent) orderly).map
      (fun s => (s.allCompleted, s.lastCompleted)) = some (true, some .logout) := by
  decide +kernel

theorem file_describes_orderly : ∃ s : State ℕ ℕ,
    ((system sampleExp).restrict (careful sampleExp)).Run (.init .absent) orderly s ∧
      s.memory.Described ∧ s.memory.LoggedOut := by
  obtain ⟨s, hs, hstate⟩ := Option.map_eq_some_iff.mp orderly_states
  simp only [Prod.mk.injEq] at hstate
  have hrun := StepSystem.exec_eq_some_iff.mp hs
  have h := file_describes_session hrun.guarded hstate.1
  exact ⟨s, hrun, h.1, h.2 hstate.2⟩

end SpecterComs.DesktopSession
