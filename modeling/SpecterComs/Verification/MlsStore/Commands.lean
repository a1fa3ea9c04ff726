import SpecterComs.Verification.MlsStore.Contents

/-! # Rules for the commands of the PC -/

namespace SpecterComs.MlsStore

open Prog

variable {aead : Aead} {mls : MlsCrypto} {α β : Type} {P : Pc → Prop} {Q : α → Pc → Prop}
  {E : PcStop → Pc → Prop} {I : Pc → Prop}

/-- A command of one directory is a program over that directory's store. -/
theorem inDir_triple {dir : Dir} {left : Dir → Crash aead} {io : Io α}
    {R : Pc → α → Store → Prop} {F : Pc → Stop → Store → Prop}
    (hio : ∀ pc, P pc → Triple (fun s => s = pc.store dir) io (R pc) (F pc))
    (hok : ∀ pc a s, P pc → R pc a s → Q a (pc.withStore dir s))
    (herror : ∀ pc e s, P pc → F pc (.error e) s →
      E (.error (.store e)) (pc.withStore dir s))
    (hcrash : ∀ pc s, P pc → F pc .crashed s →
      E .crashed ((pc.withStore dir s).survive left)) :
    Triple P (inDir dir left io) Q E := by
  refine Triple.get_bind fun pc hpc => ?_
  have hrun := hio pc hpc _ rfl
  revert hrun
  rcases io.run.run (pc.store dir) with ⟨result, s⟩
  cases result with
  | ok a =>
      rintro hrun pc rfl
      exact hok pc a s hpc hrun
  | error stop =>
      cases stop with
      | error e =>
          rintro hrun pc rfl
          exact herror pc e s hpc hrun
      | crashed =>
          rintro hrun pc rfl
          exact hcrash pc s hpc hrun

variable {m : PcIo α}

theorem onError_triple {handle : CallError → PcIo α} {F : PcStop → Pc → Prop}
    (hm : Triple P m Q F) (hhandle : ∀ e, Triple (F (.error e)) (handle e) Q E)
    (hcrash : ∀ pc, F .crashed pc → E .crashed pc) : Triple P (onError m handle) Q E := by
  refine Triple.tryCatch hm fun stop => ?_
  cases stop with
  | error e => exact hhandle e
  | crashed => exact hcrash

/-- The command ends with `I` whatever happens. -/
abbrev PcKeeps (I : Pc → Prop) (m : PcIo α) : Prop :=
  Triple I m (fun _ => I) (fun _ => I)

theorem PcKeeps.or {J : Pc → Prop} (hI : PcKeeps I m) (hJ : PcKeeps J m) :
    PcKeeps (fun pc => I pc ∨ J pc) m := by
  rintro pc (hpc | hpc)
  · exact (hI.weaken (fun _ h => h) (fun _ _ => Or.inl) fun _ _ => Or.inl) pc hpc
  · exact (hJ.weaken (fun _ h => h) (fun _ _ => Or.inr) fun _ _ => Or.inr) pc hpc

theorem PcKeeps.of_imp {c : Prop} (hI : PcKeeps I m) : PcKeeps (fun pc => c → I pc) m := by
  by_cases hc : c
  · exact hI.weaken (fun _ h => h hc) (fun _ _ h _ => h) fun _ _ h _ => h
  · intro pc _
    rcases m.run.run pc with ⟨result, pc'⟩
    cases result with
    | ok a => exact fun h => absurd h hc
    | error e => exact fun h => absurd h hc

theorem pure_keeps {a : α} : PcKeeps I (pure a) :=
  fun _ h => h

theorem fail_keeps {e : CallError} : PcKeeps I (fail e : PcIo α) :=
  fun _ h => h

theorem powerOff_keeps {left : Dir → Crash aead} (h : ∀ pc, I pc → I (pc.survive left)) :
    PcKeeps I (powerOff left : PcIo α) :=
  fun pc hpc => h pc hpc

theorem modify_keeps {f : Pc → Pc} (h : ∀ pc, I pc → I (f pc)) : PcKeeps I (modify f) :=
  fun pc hpc => h pc hpc

variable {pc : Pc}

/-- After a command there is its postcondition, or a new process. -/
theorem after_of_triple (hm : Triple P m (fun _ => I) (fun _ => I))
    (hlaunch : ∀ pc, I pc → I pc.launch) (hpc : P pc) : I (pc.after m) := by
  have hrun := hm pc hpc
  unfold Pc.after
  revert hrun
  rcases m.run.run pc with ⟨result, pc'⟩
  cases result with
  | ok a => exact fun h => h
  | error stop =>
      cases stop with
      | error e => exact fun h => h
      | crashed => exact fun h => hlaunch pc' h

theorem PcKeeps.after (hm : PcKeeps I m) (hlaunch : ∀ pc, I pc → I pc.launch) (hpc : I pc) :
    I (pc.after m) :=
  after_of_triple hm hlaunch hpc

theorem saveLocked_keeps {user : String} {bytes : Bytes} {writer : ℕ} {fates : SaveFates aead}
    (hcreate : ∀ pc, I pc → I (pc.createDir user))
    (hsave : ∀ elsewhere, PcKeeps I
      (inDir (.account user) fates.left (saveState (fates.save bytes elsewhere) writer))) :
    PcKeeps I (saveLocked user bytes writer fates) := by
  refine Triple.get_bind fun pc hpc => ?_
  split
  · intro s hs
    subst hs
    exact hpc
  · rename_i elsewhere _
    refine Triple.bind (Q := fun _ => I) ?_ fun _ => hsave elsewhere
    intro s hs
    subst hs
    exact hcreate s hpc

variable {owner : String} {fates : MigrationFates aead}

/-- The migration keeps what its first reads keep and every single step of it. -/
theorem moveFiles_keeps (hsurvive : ∀ pc, I pc → I (pc.survive fates.left))
    (hmove : ∀ pc slot file, I pc → (pc.files .appData).get slot = some file → I (pc.moveFile owner slot file))
    (slots : List Slot) : PcKeeps I (moveFiles owner fates slots) := by
  induction slots with
  | nil => exact pure_keeps
  | cons slot slots ih =>
      refine Triple.get_bind fun pc hpc => ?_
      cases hfile : (if fates.seenAgain slot then (pc.files .appData).get slot else none) with
      | none =>
          dsimp only
          refine ih.weaken ?_ (fun _ _ h => h) (fun _ _ h => h)
          rintro _ rfl
          exact hpc
      | some file =>
          dsimp only
          have hget : (pc.files .appData).get slot = some file := by
            split at hfile
            · exact hfile
            · cases hfile
          cases fates.move slot with
          | failed =>
              rintro _ rfl
              exact hpc
          | crashed =>
              rintro pc rfl
              exact hsurvive pc hpc
          | ok =>
              refine Triple.bind (Q := fun b s => b = true ∧ s = pc) ?_ fun b => ?_
              · rintro _ rfl
                exact ⟨rfl, rfl⟩
              · rintro s ⟨rfl, rfl⟩
                exact ih _ (hmove s slot file hpc hget)

theorem migrationStep_keeps {fate : StepFate} {left : Dir → Crash aead}
    (hsurvive : ∀ pc, I pc → I (pc.survive left)) : PcKeeps I (migrationStep fate left) := by
  cases fate with
  | ok => exact pure_keeps
  | failed => exact pure_keeps
  | crashed => exact powerOff_keeps hsurvive

theorem moveLegacy_keeps (hsurvive : ∀ pc, I pc → I (pc.survive fates.left))
    (hcreate : ∀ pc, I pc → I (pc.createDir owner))
    (hmarker : ∀ pc, I pc → I { pc with legacyOwner := some owner })
    (hmove : ∀ pc slot file, I pc → (pc.files .appData).get slot = some file → I (pc.moveFile owner slot file)) :
    PcKeeps I (moveLegacy owner fates) := by
  refine (migrationStep_keeps hsurvive).bind fun created => ?_
  split
  · exact pure_keeps
  refine (modify_keeps hcreate).bind fun _ => (migrationStep_keeps hsurvive).bind fun marked => ?_
  split
  · exact pure_keeps
  refine (modify_keeps hmarker).bind fun _ =>
    (moveFiles_keeps hsurvive hmove [.tmp, .bak, .main]).bind fun moved => ?_
  split
  · exact pure_keeps
  · exact (migrationStep_keeps hsurvive).bind fun _ => pure_keeps

/-- Where the legacy files move to is read from the state that is loaded there. -/
theorem migrationOwner_keeps
    (hload : PcKeeps I (inDir .appData fates.left (loadState aead fates.load))) :
    PcKeeps I (migrationOwner mls fates) := by
  have hcaught : PcKeeps I
      (onError (some <$> inDir .appData fates.left (loadState aead fates.load)) fun _ => pure none) := by
    refine onError_triple (F := fun _ => I) ?_ (fun _ => pure_keeps) fun _ h => h
    exact hload.bind fun r => pure_keeps
  refine hcaught.bind fun r => ?_
  cases r with
  | none => exact pure_keeps
  | some loaded =>
      cases loaded with
      | fresh => exact pure_keeps
      | state bytes writer =>
          dsimp only
          cases deviceStateOwner mls bytes with
          | error why => exact pure_keeps
          | ok owner =>
              dsimp only
              split
              · exact pure_keeps
              · exact fun _ hpc => hpc

theorem migrateLegacy_keeps (howner : PcKeeps I (migrationOwner mls fates))
    (hmove : ∀ owner, PcKeeps I (moveLegacy owner fates)) :
    PcKeeps I (migrateLegacy mls fates) := by
  refine Triple.get_bind fun pc₀ hpc₀ => ?_
  split
  · rintro pc rfl
    exact hpc₀
  refine Triple.bind (Q := fun _ => I) ?_ fun r => ?_
  · rintro pc rfl
    exact howner pc hpc₀
  cases r with
  | error why => exact pure_keeps
  | ok owner => exact hmove owner

/-- The migration runs with the flag set, or the flag was set before. -/
theorem ensureMigratedLocked_triple (hmigrate : PcKeeps I (migrateLegacy mls fates))
    (hbefore : ∀ pc, P pc → pc.migrationAttempted = true → I pc)
    (hattempted : ∀ pc, P pc → I { pc with migrationAttempted := true })
    (hblocked : ∀ pc owner, I pc → I { pc with migrationBlocked := some owner }) :
    Triple P (ensureMigratedLocked mls fates) (fun _ => I) (fun _ => I) := by
  refine Triple.get_bind fun pc₀ hpc₀ => ?_
  split
  · rename_i hflag
    rintro pc rfl
    exact hbefore pc hpc₀ hflag
  · refine Triple.bind (Q := fun _ => I) ?_ fun _ => hmigrate.bind fun r => ?_
    · rintro pc rfl
      exact hattempted pc hpc₀
    · cases r with
      | incomplete owner why => exact modify_keeps fun pc hpc => hblocked pc owner hpc
      | nothingToDo => exact pure_keeps
      | migrated owner => exact pure_keeps
      | skipped why => exact pure_keeps

theorem ensureMigratedLocked_keeps (hmigrate : PcKeeps I (migrateLegacy mls fates))
    (hattempted : ∀ pc, I pc → I { pc with migrationAttempted := true })
    (hblocked : ∀ pc owner, I pc → I { pc with migrationBlocked := some owner }) :
    PcKeeps I (ensureMigratedLocked mls fates) :=
  ensureMigratedLocked_triple hmigrate (fun _ h _ => h) hattempted hblocked

theorem currentAccountLocked_keeps (h : PcKeeps I (ensureMigratedLocked mls fates)) :
    PcKeeps I (currentAccountLocked mls fates) := by
  refine h.bind fun _ => Triple.get_bind fun pc₀ hpc₀ => ?_
  split
  · rintro pc rfl
    exact hpc₀
  · rintro pc rfl
    exact hpc₀

/-- A save of JS only gets past the checks with bytes that name its account. -/
theorem saveOwner_eq_ok {bytes : Bytes} (h : saveOwner mls bytes pc = .ok owner) :
    deviceStateOwner mls bytes = .ok owner ∧ pc.jsOwner = some owner ∧ pc.foreground = true ∧
      validUserId owner = true := by
  unfold saveOwner at h
  split at h
  · cases h
  cases hbytes : deviceStateOwner mls bytes with
  | error e =>
      rw [hbytes] at h
      cases h
  | ok bytesOwner =>
      rw [hbytes] at h
      cases hjs : pc.jsOwner with
      | none =>
          simp only [hjs] at h
          cases h
      | some jsOwner =>
          simp only [hjs] at h
          split at h
          · cases h
          rename_i hforeground
          split at h
          · cases h
          rename_i hsame
          obtain rfl : bytesOwner = jsOwner := not_not.mp hsame
          unfold accountDir at h
          split at h
          · rename_i hvalid
            cases h
            exact ⟨rfl, rfl, by simpa using hforeground, hvalid⟩
          · cases h

/-! ## What a step does -/

/-- A command under the lock, a section of the worker, or the start of a process. -/
inductive Pc.Stepped (mls : MlsCrypto) (pc : Pc) : PcInput aead → Pc → Prop
  | saveState {bytes durable fates} (hfree : pc.lockFree = true) :
      Stepped mls pc (.saveState bytes durable fates) (pc.after (mlsSaveState mls bytes durable fates))
  | loadState {migration flush load} (hfree : pc.lockFree = true) :
      Stepped mls pc (.loadState migration flush load)
        (pc.after (mlsLoadState mls migration flush load))
  | legacyOwner {migration reads} (hfree : pc.lockFree = true) :
      Stepped mls pc (.legacyOwner migration reads) (pc.after (mlsLegacyOwner mls migration reads))
  | migrated {migration} (hattempted : pc.migrationAttempted = true) :
      Stepped mls pc (.currentAccountDir migration) pc
  | currentAccountDir {migration} (hfree : pc.lockFree = true) :
      Stepped mls pc (.currentAccountDir migration) (pc.after (currentAccountDir mls migration))
  | flushPending {flush} (hfree : pc.lockFree = true) :
      Stepped mls pc (.flushPending flush) (pc.after (flushPendingLocked flush))
  | handoffToBackground {flush} (hfree : pc.lockFree = true) :
      Stepped mls pc (.handoffToBackground flush) (pc.after (handoffToBackground flush))
  | showEngineDev : Stepped mls pc .showEngineDev { pc with foreground := true }
  | session {user} : Stepped mls pc (.session user) { pc with session := user }
  | workerCheck (hworker : pc.worker = .idle) (hbackground : pc.foreground = false) :
      Stepped mls pc .workerCheck { pc with worker := .waiting }
  | workerEnter (hworker : pc.worker = .waiting) :
      Stepped mls pc .workerEnter { pc with worker := if pc.foreground then .idle else .holding }
  | workerLoad {migration flush load} (hworker : pc.worker = .holding) :
      Stepped mls pc (.workerLoad migration flush load)
        (pc.after (workerLoad mls migration flush load))
  | workerDecrypt {groupId ciphertext save} {user : String} {deviceState : Bytes}
      (hworker : pc.worker = .loaded user deviceState) :
      Stepped mls pc (.workerDecrypt groupId ciphertext save)
        (pc.after (workerDecrypt mls user deviceState groupId ciphertext save))
  | workerDrop {user : String} {deviceState : Bytes} (hworker : pc.worker = .loaded user deviceState) :
      Stepped mls pc .workerDrop { pc with worker := .idle }
  | launch : Stepped mls pc .launch pc.launch
  | powerOff {left} : Stepped mls pc (.powerOff left) (pc.survive left).launch

theorem Pc.step_cases {pc' : Pc} {i : PcInput aead} (hstep : pc.step mls i = some pc') :
    pc.Stepped mls i pc' := by
  have hlock : ∀ {γ : Type} {command : PcIo γ}, pc.underLock command = some pc' →
      pc.lockFree = true ∧ pc.after command = pc' := fun h => by
    obtain ⟨hfree, h⟩ := Option.ite_none_right_eq_some.mp h
    exact ⟨hfree, Option.some.inj h⟩
  cases i with
  | saveState bytes durable fates =>
      obtain ⟨hfree, rfl⟩ := hlock hstep
      exact .saveState hfree
  | loadState migration flush load =>
      obtain ⟨hfree, rfl⟩ := hlock hstep
      exact .loadState hfree
  | legacyOwner migration reads =>
      obtain ⟨hfree, rfl⟩ := hlock hstep
      exact .legacyOwner hfree
  | currentAccountDir migration =>
      simp only [Pc.step] at hstep
      split at hstep
      · cases hstep
        exact .migrated ‹_›
      · obtain ⟨hfree, rfl⟩ := hlock hstep
        exact .currentAccountDir hfree
  | flushPending flush =>
      obtain ⟨hfree, rfl⟩ := hlock hstep
      exact .flushPending hfree
  | handoffToBackground flush =>
      obtain ⟨hfree, rfl⟩ := hlock hstep
      exact .handoffToBackground hfree
  | showEngineDev => cases hstep; exact .showEngineDev
  | session user => cases hstep; exact .session
  | workerCheck =>
      obtain ⟨h, hstep⟩ := Option.ite_none_right_eq_some.mp hstep
      simp only [Bool.and_eq_true, decide_eq_true_eq, Bool.not_eq_true'] at h
      cases hstep
      exact .workerCheck h.1 h.2
  | workerEnter =>
      obtain ⟨h, hstep⟩ := Option.ite_none_right_eq_some.mp hstep
      cases hstep
      exact .workerEnter h
  | workerLoad migration flush load =>
      obtain ⟨h, hstep⟩ := Option.ite_none_right_eq_some.mp hstep
      cases hstep
      exact .workerLoad h
  | workerDecrypt groupId ciphertext save =>
      simp only [Pc.step] at hstep
      split at hstep <;> cases hstep
      exact .workerDecrypt ‹_›
  | workerDrop =>
      simp only [Pc.step] at hstep
      split at hstep <;> cases hstep
      exact .workerDrop ‹_›
  | launch => cases hstep; exact .launch
  | powerOff left => cases hstep; exact .powerOff

end SpecterComs.MlsStore
