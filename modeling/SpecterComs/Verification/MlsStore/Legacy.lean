import SpecterComs.Verification.MlsStore.Isolation

/-! # The legacy state over many launches

Until the legacy files have moved, their owner must not load from the directory they move
to: an empty directory is a fresh account, and what the account then saves is overwritten
when the moves go on.
-/

namespace SpecterComs.MlsStore

open Prog

variable {aead : Aead} {mls : MlsCrypto} {user owner : String} {pc : Pc} {α : Type}
  {I : Pc → Prop}

/-! ## What the files' operations keep -/

/-- What no operation on the files can break, the migration included. -/
structure DiskFrame (aead : Aead) (I : Pc → Prop) : Prop where
  save : ∀ {pc user s}, I pc → I (pc.withStore (.account user) s)
  load : ∀ {pc dir s}, I pc → s.files = pc.files dir → I (pc.withStore dir s)
  survive : ∀ {pc} (left : Dir → Crash aead), I pc → I (pc.survive left)
  createDir : ∀ {pc} user, I pc → I (pc.createDir user)
  marker : ∀ {pc} owner, I pc → I { pc with legacyOwner := some owner }
  move : ∀ {pc slot} owner file, I pc → (pc.files .appData).get slot ≠ none →
    I (pc.moveFile owner slot file)
  attempted : ∀ {pc}, I pc → I { pc with migrationAttempted := true }
  blocked : ∀ {pc} owner, I pc → I { pc with migrationBlocked := some owner }

namespace DiskFrame

theorem loadState (hI : DiskFrame aead I) (dir : Dir) (left : Dir → Crash aead)
    (fates : LoadFates) : PcKeeps I (inDir dir left (loadState aead fates)) :=
  inDir_triple (fun pc _ => loadState_opens aead fates (pc.store dir))
    (fun _ _ _ hpc h => hI.load hpc h.1.files) (fun _ _ _ hpc h => hI.load hpc h.2.files)
    (fun _ _ hpc h => hI.survive left (hI.load hpc h.2.files))

theorem saveLocked (hI : DiskFrame aead I) (user : String) (bytes : Bytes) (writer : ℕ)
    (fates : SaveFates aead) : PcKeeps I (saveLocked user bytes writer fates) := by
  refine saveLocked_keeps (fun _ h => hI.createDir user h) fun elsewhere => ?_
  refine inDir_triple (R := fun _ _ _ => True) (F := fun _ _ _ => True) ?_
    (fun _ _ _ hpc _ => hI.save hpc) (fun _ _ _ hpc _ => hI.save hpc)
    (fun _ _ hpc _ => hI.survive _ (hI.save hpc))
  intro pc _ s _
  rcases (saveState (fates.save bytes elsewhere) writer).run.run s with ⟨result, s'⟩
  cases result with
  | ok a => trivial
  | error e => trivial

/-- The buffer is written, dropped or put back. -/
theorem flushPendingLocked (hI : DiskFrame aead I)
    (hdrop : ∀ pc, I pc → I (pc.setPending none))
    (hback : ∀ pc pc' p, I pc → pc.pending = some p → I pc' → I (pc'.setPending (some p)))
    (fates : SaveFates aead) : PcKeeps I (flushPendingLocked fates) := by
  refine Triple.get_bind fun pc hpc => ?_
  cases hpending : pc.pending with
  | none =>
      rintro pc rfl
      exact hpc
  | some p =>
      refine Triple.bind (Q := fun _ => I) ?_ fun _ => ?_
      · rintro pc rfl
        exact hdrop pc hpc
      · refine onError_triple (hI.saveLocked p.user p.bytes p.writer fates) (fun e => ?_)
          fun _ h => h
        refine modify_keeps fun pc' hpc' => ?_
        split
        · exact hback pc pc' p hpc hpending hpc'
        · exact hpc'

theorem migrateLegacy (hI : DiskFrame aead I) (fates : MigrationFates aead) :
    PcKeeps I (migrateLegacy mls fates) := by
  refine migrateLegacy_keeps (migrationOwner_keeps (hI.loadState .appData fates.left fates.load))
    fun owner => ?_
  exact moveLegacy_keeps (fun _ h => hI.survive _ h) (fun _ h => hI.createDir owner h)
    (fun _ h => hI.marker owner h)
    (fun _ _ file h hfile => hI.move owner file h (Option.ne_none_iff_exists'.mpr ⟨file, hfile⟩))

theorem ensureMigratedLocked (hI : DiskFrame aead I) (fates : MigrationFates aead) :
    PcKeeps I (ensureMigratedLocked mls fates) :=
  ensureMigratedLocked_keeps (hI.migrateLegacy fates) (fun _ h => hI.attempted h)
    fun _ owner h => hI.blocked owner h

end DiskFrame

/-! ## Before and after the move -/

/-- No legacy file is left. -/
def Gone (pc : Pc) : Prop :=
  ∀ slot, (pc.files .appData).get slot = none

/-- Neither JS nor the worker holds a state of the account, and it has handed over none. -/
def Untouched (owner : String) (pc : Pc) : Prop :=
  pc.jsOwner ≠ some owner ∧ (∀ p, pc.pending = some p → p.user ≠ owner) ∧
    (∀ deviceState, pc.worker ≠ .loaded owner deviceState) ∧ pc.history.given owner = []

def Settled (owner : String) (pc : Pc) : Prop :=
  Gone pc ∨ Untouched owner pc

theorem files_moveFile_appData (owner : String) (slot : Slot) (file : File) (pc : Pc) :
    (pc.moveFile owner slot file).files .appData = (pc.files .appData).set none slot := by
  simp [Pc.moveFile]

theorem gone_frame : DiskFrame aead Gone where
  save h slot := h slot
  load {pc dir s} h hs slot := by
    by_cases hdir : dir = .appData
    · subst hdir
      simpa [Pc.withStore, hs] using h slot
    · simpa [Pc.withStore, Function.update_of_ne (Ne.symm hdir)] using h slot
  survive {pc} left h slot := by
    have hnone := h slot
    cases slot with
    | tmp => exact Option.map_eq_none_iff.mpr hnone
    | bak => exact Option.map_eq_none_iff.mpr hnone
    | main => exact Option.map_eq_none_iff.mpr hnone
  createDir _ h := h
  marker _ h := h
  move owner file h hne := absurd (h _) hne
  attempted h := h
  blocked _ h := h

theorem untouched_frame : DiskFrame aead (Untouched owner) :=
  ⟨id, fun h _ => h, fun _ h => h, fun _ h => h, fun _ h => h, fun _ _ h _ => h, id, fun _ h => h⟩

/-- A process that ended has loaded nothing in the next one. -/
theorem Settled.launch (h : Settled owner pc) : Settled owner pc.launch :=
  h.imp_right fun ⟨_, _, _, hgiven⟩ =>
    ⟨(fun h => nomatch h), (fun _ h => nomatch h), (fun _ h => nomatch h), hgiven⟩

theorem gone_flushPendingLocked (fates : SaveFates aead) :
    PcKeeps Gone (flushPendingLocked fates) :=
  gone_frame.flushPendingLocked (fun _ h => h) (fun _ _ _ _ _ h => h) fates

theorem untouched_flushPendingLocked (fates : SaveFates aead) :
    PcKeeps (Untouched owner) (flushPendingLocked fates) := by
  refine untouched_frame.flushPendingLocked ?_ ?_ fates
  · rintro pc ⟨hjs, -, hrest⟩
    exact ⟨hjs, (fun _ h => nomatch h), hrest⟩
  · rintro pc pc' p ⟨-, hpending, -⟩ hp ⟨hjs, -, hrest⟩
    refine ⟨hjs, ?_, hrest⟩
    rintro _ ⟨⟩
    exact hpending p hp

theorem gone_loadLocked (user : String) (flush : SaveFates aead) (load : LoadFates) :
    PcKeeps Gone (loadLocked user flush load) :=
  (gone_flushPendingLocked flush).bind fun _ => gone_frame.loadState _ _ load

theorem untouched_loadLocked (user : String) (flush : SaveFates aead) (load : LoadFates) :
    PcKeeps (Untouched owner) (loadLocked user flush load) :=
  (untouched_flushPendingLocked flush).bind fun _ => untouched_frame.loadState _ _ load

/-! ## The migration before a load -/

def readsState (aead : Aead) (fates : LoadFates) (pc : Pc) : Bool :=
  match ((loadState aead fates).run.run (pc.store .appData)).1 with
  | .ok (.state _ _) => true
  | _ => false

/-- Every call of the migration works up to the moves, and each legacy file is seen again
before its move. The moves themselves may fail, and the machine may go down anywhere. -/
def canMigrate (owner : String) (fates : MigrationFates aead) (pc : Pc) : Bool :=
  !(pc.files .appData).isEmpty fates.seen && readsState aead fates.load pc &&
    (checkDest fates owner pc).toOption == some owner &&
    fates.createDir != .failed && fates.marker != .failed &&
    [Slot.tmp, .bak, .main].all fun slot =>
      ((pc.files .appData).get slot).isNone || fates.seenAgain slot

/-- Each legacy file is seen again. -/
def SeenAgain (fates : MigrationFates aead) (pc : Pc) : Prop :=
  ∀ slot, (pc.files .appData).get slot ≠ none → fates.seenAgain slot = true

variable {fates migration : MigrationFates aead}

theorem canMigrate_iff :
    canMigrate owner fates pc = true ↔ (pc.files .appData).isEmpty fates.seen = false ∧
      readsState aead fates.load pc = true ∧ checkDest fates owner pc = .ok owner ∧
      fates.createDir ≠ .failed ∧ fates.marker ≠ .failed ∧ SeenAgain fates pc := by
  have hdest : (checkDest fates owner pc).toOption = some owner ↔
      checkDest fates owner pc = .ok owner := by
    cases checkDest fates owner pc with
    | ok dest => simp [Except.toOption]
    | error why => simp [Except.toOption]
  have hagain : (∀ slot ∈ [Slot.tmp, .bak, .main],
      (pc.files .appData).get slot = none ∨ fates.seenAgain slot = true) ↔ SeenAgain fates pc := by
    constructor
    · intro h slot hne
      have hmem : slot ∈ [Slot.tmp, .bak, .main] := by cases slot <;> simp
      exact (h slot hmem).resolve_left hne
    · exact fun h slot _ => or_iff_not_imp_left.mpr (h slot)
  simp only [canMigrate, Bool.and_eq_true, Bool.not_eq_true', beq_iff_eq, bne_iff_ne, hdest,
    List.all_eq_true, Bool.or_eq_true, Option.isNone_iff_eq_none, hagain, and_assoc]

theorem checkDest_congr {pc' : Pc} (hfiles : pc'.files = pc.files)
    (hmarker : pc'.legacyOwner = pc.legacyOwner) :
    checkDest fates owner pc' = checkDest fates owner pc := by
  simp only [checkDest, readLegacyOwner, hfiles, hmarker]

/-- The first half of the migration finds the account the files move to. -/
theorem migrationOwner_reads (hisolated : Isolated aead mls owner pc)
    (hvalid : validUserId owner = true) (hreads : readsState aead fates.load pc = true)
    (hdest : checkDest fates owner pc = .ok owner) :
    Triple (fun pc' => pc' = pc) (migrationOwner mls fates)
      (fun r pc' => r = .ok owner ∧ pc'.files = pc.files) (fun _ _ => False) := by
  have hload : Triple (fun pc' => pc' = pc) (inDir .appData fates.left (loadState aead fates.load))
      (fun r pc' => (∃ bytes writer, r = .state bytes writer ∧
        deviceStateOwner mls bytes = .ok owner) ∧ pc'.files = pc.files ∧
        pc'.legacyOwner = pc.legacyOwner) (fun _ _ => False) := by
    have hread : ∀ stop, ((loadState aead fates.load).run.run (pc.store .appData)).1 ≠ .error stop := by
      intro stop hstop
      simp only [readsState, hstop] at hreads
      cases hreads
    refine inDir_triple (R := fun pc' r s => pc' = pc ∧ Opened (pc.store .appData) s ∧
      ReadFrom aead (pc.store .appData) r ∧ r ≠ .fresh) (F := fun _ _ _ => False) ?_ ?_
      (fun _ _ _ _ h => h) (fun _ _ _ h => h)
    · rintro pc' rfl s rfl
      have hopens := loadState_opens aead fates.load (pc'.store .appData) _ rfl
      rw [readsState] at hreads
      revert hopens hread hreads
      rcases (loadState aead fates.load).run.run (pc'.store .appData) with ⟨result, s'⟩
      cases result with
      | ok r =>
          intro hreads _ hopens
          refine ⟨rfl, hopens.1, hopens.2, ?_⟩
          rintro rfl
          cases hreads
      | error stop => exact fun _ hread _ => hread stop rfl
    · rintro pc' r s - ⟨rfl, hopened, hfrom, hne⟩
      refine ⟨?_, ?_, rfl⟩
      · cases r with
        | fresh => exact absurd rfl hne
        | state bytes writer =>
            obtain ⟨key, hkey, slot, file, hfile, hopen, -⟩ := hfrom
            have hsecret : pc'.secret = some key.val := hkey.elim (hisolated.cache key) id
            exact ⟨bytes, writer, rfl,
              hisolated.files .appData slot file hfile key (Or.inr hsecret) bytes hopen⟩
      · rw [Pc.withStore, hopened.files]
        exact Function.update_eq_self _ _
  have hfound : Triple (fun pc' => pc' = pc)
      (onError (some <$> inDir .appData fates.left (loadState aead fates.load)) fun _ => pure none)
      (fun r pc' => (∃ bytes writer, r = some (.state bytes writer) ∧
        deviceStateOwner mls bytes = .ok owner) ∧ pc'.files = pc.files ∧
        pc'.legacyOwner = pc.legacyOwner) (fun _ _ => False) := by
    refine onError_triple (F := fun _ _ => False) ?_ (fun _ _ h => h.elim) fun _ h => h
    refine Triple.bind hload fun r => ?_
    rintro pc' ⟨⟨bytes, writer, rfl, howner⟩, hsame⟩
    exact ⟨⟨bytes, writer, rfl, howner⟩, hsame⟩
  refine Triple.bind hfound fun r => ?_
  rintro pc' ⟨⟨bytes, writer, rfl, howner⟩, hfiles, hmarker⟩
  simp only [howner, hvalid]
  refine ⟨?_, hfiles⟩
  exact (checkDest_congr hfiles hmarker).trans hdest

/-- Where each file is seen again, the moves that all work leave none. -/
theorem moveFiles_gone (slots : List Slot) :
    Triple (fun pc => SeenAgain fates pc ∧ ∀ slot ∉ slots, (pc.files .appData).get slot = none)
      (moveFiles owner fates slots) (fun moved pc => moved = true → Gone pc) (fun _ _ => True) := by
  induction slots with
  | nil => exact fun pc hpc _ slot => hpc.2 slot (by simp)
  | cons slot slots ih =>
      refine Triple.get_bind fun pc hpc => ?_
      cases hfile : (if fates.seenAgain slot then (pc.files .appData).get slot else none) with
      | none =>
          dsimp only
          refine ih.weaken ?_ (fun _ _ h => h) (fun _ _ h => h)
          rintro _ rfl
          refine ⟨hpc.1, fun other hother => ?_⟩
          by_cases hsame : other = slot
          · subst hsame
            by_contra hne
            rw [if_pos (hpc.1 other hne)] at hfile
            exact hne hfile
          · exact hpc.2 other (by simp [hsame, hother])
      | some file =>
          dsimp only
          cases fates.move slot with
          | failed => exact fun _ _ h => nomatch h
          | crashed => exact fun _ _ => trivial
          | ok =>
              refine Triple.bind (Q := fun moved s => moved = true ∧ s = pc) ?_ fun moved => ?_
              · rintro _ rfl
                exact ⟨rfl, rfl⟩
              · rintro s ⟨rfl, rfl⟩
                refine ih _ ⟨fun other hne => ?_, fun other hother => ?_⟩
                · rw [files_moveFile_appData, Files.get_set] at hne
                  split at hne
                  · exact absurd rfl hne
                  · exact hpc.1 other hne
                · rw [files_moveFile_appData, Files.get_set]
                  split
                  · rfl
                  · rename_i hsame
                    exact hpc.2 other (by simp [hsame, hother])

theorem moveLegacy_gone (hcreate : fates.createDir ≠ .failed) (hmarker : fates.marker ≠ .failed) :
    Triple (SeenAgain fates) (moveLegacy owner fates)
      (fun r pc => Gone pc ∨ ∃ why, r = .incomplete owner why) (fun _ _ => True) := by
  have hstep : ∀ fate : StepFate, fate ≠ .failed → Triple (SeenAgain fates)
      (migrationStep fate fates.left) (fun worked pc => worked = true ∧ SeenAgain fates pc)
      (fun _ _ => True) := by
    intro fate hne
    cases fate with
    | ok => exact fun pc hpc => ⟨rfl, hpc⟩
    | failed => exact absurd rfl hne
    | crashed => exact fun _ _ => trivial
  have hmoves : Triple (SeenAgain fates) (moveFiles owner fates [.tmp, .bak, .main])
      (fun moved pc => moved = true → Gone pc) (fun _ _ => True) := by
    refine (moveFiles_gone [.tmp, .bak, .main]).weaken (fun pc hpc => ⟨hpc, ?_⟩) (fun _ _ h => h)
      fun _ _ h => h
    intro slot hslot
    cases slot <;> simp at hslot
  refine Triple.bind (hstep _ hcreate) fun created => ?_
  cases created with
  | false => exact fun pc hpc => nomatch hpc.1
  | true =>
      refine Triple.bind (Q := fun _ => SeenAgain fates) (fun pc hpc => hpc.2) fun _ => ?_
      refine Triple.bind (hstep _ hmarker) fun marked => ?_
      cases marked with
      | false => exact fun pc hpc => nomatch hpc.1
      | true =>
          refine Triple.bind (Q := fun _ => SeenAgain fates) (fun pc hpc => hpc.2) fun _ => ?_
          refine Triple.bind hmoves fun moved => ?_
          cases moved with
          | false => exact fun _ _ => Or.inr ⟨"move", rfl⟩
          | true =>
              refine Triple.bind (Q := fun _ => Gone) ?_ fun _ => fun pc hpc => Or.inl hpc
              intro pc hpc
              exact ((migrationStep_keeps fun _ h => gone_frame.survive _ h).weaken (fun _ h => h)
                (fun _ _ h => h) fun _ _ _ => trivial) pc (hpc rfl)

/-- After a migration whose calls work up to the moves, the owner's directory is the
account's, or it is refused. -/
theorem migrateLegacy_can (hisolated : Isolated aead mls owner pc)
    (hvalid : validUserId owner = true) (hcan : canMigrate owner fates pc = true) :
    Triple (fun pc' => pc' = pc) (migrateLegacy mls fates)
      (fun r pc' => Gone pc' ∨ ∃ why, r = .incomplete owner why) (fun _ _ => True) := by
  obtain ⟨hseen, hreads, hdest, hcreate, hmarker, hagain⟩ := canMigrate_iff.mp hcan
  refine Triple.get_bind fun pc₀ hpc₀ => ?_
  subst hpc₀
  rw [hseen]
  refine Triple.bind ((migrationOwner_reads hisolated hvalid hreads hdest).weaken (fun _ h => h)
    (fun _ _ h => h) fun _ _ h => h.elim) fun r => ?_
  rintro pc' ⟨rfl, hfiles⟩
  refine moveLegacy_gone hcreate hmarker pc' fun slot hne => ?_
  rw [hfiles] at hne
  exact hagain slot hne

theorem ensureMigratedLocked_can (hisolated : Isolated aead mls owner pc)
    (hvalid : validUserId owner = true) (hfirst : pc.migrationAttempted = false)
    (hcan : canMigrate owner fates pc = true) :
    Triple (fun pc' => pc' = pc) (ensureMigratedLocked mls fates)
      (fun _ pc' => Gone pc' ∨ pc'.migrationBlocked = some owner) (fun _ _ => True) := by
  refine Triple.get_bind fun pc₀ hpc₀ => ?_
  subst hpc₀
  rw [hfirst]
  refine Triple.bind (Q := fun _ pc' => pc' = { pc₀ with migrationAttempted := true })
    (by rintro pc' rfl; rfl) fun _ => ?_
  refine Triple.bind (migrateLegacy_can
    ⟨hisolated.files, hisolated.cache, hisolated.pending, hisolated.worker⟩ hvalid hcan)
    fun r => ?_
  cases r with
  | incomplete dest why =>
      rintro pc' (hgone | ⟨_, ⟨⟩⟩)
      · exact Or.inl hgone
      · exact Or.inr rfl
  | nothingToDo =>
      rintro pc' (hgone | ⟨_, ⟨⟩⟩)
      exact Or.inl hgone
  | migrated dest =>
      rintro pc' (hgone | ⟨_, ⟨⟩⟩)
      exact Or.inl hgone
  | skipped why =>
      rintro pc' (hgone | ⟨_, ⟨⟩⟩)
      exact Or.inl hgone

/-! ## Commands -/

/-- What a command keeps that neither loads nor is the account's own save. -/
theorem settled_of_keeps {m : PcIo α} (hgone : PcKeeps Gone m)
    (huntouched : PcKeeps (Untouched owner) m) : PcKeeps (Settled owner) m :=
  hgone.or huntouched

/-- Where the owner is signed in and a legacy file is left, the load runs the migration of
this process with every call up to the moves working, or the account is refused. -/
def loadReady (owner : String) (migration : MigrationFates aead) (pc : Pc) : Bool :=
  pc.session != some owner || !validUserId owner || (pc.files .appData).isEmpty (fun _ => true) ||
    if pc.migrationAttempted then pc.migrationBlocked == some owner
    else canMigrate owner migration pc

theorem gone_iff_isEmpty : Gone pc ↔ (pc.files .appData).isEmpty (fun _ => true) = true := by
  simp only [Files.isEmpty, List.all_eq_true, Bool.true_and, Bool.not_eq_true',
    Option.isSome_eq_false_iff, Option.isNone_iff_eq_none]
  constructor
  · exact fun h slot _ => h slot
  · exact fun h slot => h slot (by cases slot <;> simp)

theorem signedInAccount_eq_ok (h : signedInAccount pc = .ok user) :
    pc.session = some user ∧ pc.migrationBlocked ≠ some user ∧ validUserId user = true := by
  unfold signedInAccount at h
  split at h
  · cases h
  · rename_i signedIn hsession
    split at h
    · cases h
    · rename_i hblocked
      unfold accountDir at h
      split at h
      · rename_i hvalid
        cases h
        exact ⟨hsession, hblocked, hvalid⟩
      · cases h

theorem session_frame {session : Option String} :
    DiskFrame aead fun pc => pc.session = session :=
  ⟨id, fun h _ => h, fun _ h => h, fun _ h => h, fun _ h => h, fun _ _ h _ => h, id, fun _ h => h⟩

/-- The account of a load is the legacy owner's only where the legacy files are gone. -/
theorem currentAccountLocked_ready (hisolated : Isolated aead mls owner pc)
    (hsettled : Settled owner pc) (hready : loadReady owner migration pc = true) :
    Triple (fun pc' => pc' = pc) (currentAccountLocked mls migration)
      (fun user pc' => Settled owner pc' ∧ (user = owner → Gone pc'))
      (fun _ => Settled owner) := by
  have hkeep : PcKeeps (Settled owner) (ensureMigratedLocked mls migration) :=
    settled_of_keeps (gone_frame.ensureMigratedLocked migration)
      (untouched_frame.ensureMigratedLocked migration)
  have hgone : PcKeeps (fun pc' => Gone pc → Gone pc') (ensureMigratedLocked mls migration) :=
    (gone_frame.ensureMigratedLocked migration).of_imp
  have hsession : PcKeeps (fun pc' => pc'.session = pc.session)
      (ensureMigratedLocked mls migration) := session_frame.ensureMigratedLocked migration
  have hmigrated : Triple (fun pc' => pc' = pc) (ensureMigratedLocked mls migration)
      (fun _ pc' => pc.session = some owner → validUserId owner = true → ¬ Gone pc →
        Gone pc' ∨ pc'.migrationBlocked = some owner) (fun _ _ => True) := by
    by_cases howner : pc.session = some owner ∧ validUserId owner = true ∧ ¬ Gone pc
    · obtain ⟨howner, hvalid, hleft⟩ := howner
      have hleft := Bool.eq_false_iff.mpr (mt gone_iff_isEmpty.mpr hleft)
      simp only [loadReady, howner, hvalid, hleft, bne_self_eq_false, Bool.not_true,
        Bool.false_or] at hready
      cases hfirst : pc.migrationAttempted with
      | true =>
          rw [if_pos hfirst, beq_iff_eq] at hready
          refine Triple.get_bind fun pc₀ hpc₀ => ?_
          subst hpc₀
          rw [hfirst]
          rintro pc' rfl _ _ _
          exact Or.inr hready
      | false =>
          rw [if_neg (Bool.eq_false_iff.mp hfirst)] at hready
          exact (ensureMigratedLocked_can hisolated hvalid hfirst hready).weaken (fun _ h => h)
            (fun _ _ h _ _ _ => h) fun _ _ h => h
    · refine (Triple.ran (ensureMigratedLocked mls migration) pc).weaken (fun _ h => h) ?_
        fun _ _ _ => trivial
      exact fun _ _ _ hs hv hg => absurd ⟨hs, hv, hg⟩ howner
  refine Triple.bind ((((hkeep.and hgone).and hsession).and hmigrated).weaken ?_ (fun _ _ h => h)
    fun _ _ h => h.1.1.1) fun _ => Triple.get_bind fun pc₁ hpc₁ => ?_
  · rintro pc' rfl
    exact ⟨⟨⟨hsettled, id⟩, rfl⟩, rfl⟩
  · obtain ⟨⟨⟨hsettled₁, hgone₁⟩, hsession₁⟩, hmigrated₁⟩ := hpc₁
    cases haccount : signedInAccount pc₁ with
    | error e =>
        rintro pc' rfl
        exact hsettled₁
    | ok user =>
        rintro pc' rfl
        refine ⟨hsettled₁, ?_⟩
        rintro rfl
        obtain ⟨hsignedIn, hblocked, hvalid⟩ := signedInAccount_eq_ok haccount
        by_cases hbefore : Gone pc
        · exact hgone₁ hbefore
        · exact (hmigrated₁ (hsession₁ ▸ hsignedIn) hvalid hbefore).resolve_right hblocked

/-- A load through which no state of the owner is read from a directory that still gets
legacy files. -/
theorem loadLocked_settled (user : String) (flush : SaveFates aead) (load : LoadFates) :
    PcKeeps (fun pc => Settled owner pc ∧ (user = owner → Gone pc)) (loadLocked user flush load) :=
  (settled_of_keeps (gone_loadLocked user flush load) (untouched_loadLocked user flush load)).and
    (gone_loadLocked user flush load).of_imp

variable {flush : SaveFates aead}

theorem mlsLoadState_settled {load : LoadFates} (hisolated : Isolated aead mls owner pc)
    (hsettled : Settled owner pc) (hready : loadReady owner migration pc = true) :
    Triple (fun pc' => pc' = pc) (mlsLoadState mls migration flush load)
      (fun _ => Settled owner) (fun _ => Settled owner) := by
  refine Triple.bind (currentAccountLocked_ready hisolated hsettled hready) fun user => ?_
  refine Triple.bind ((loadLocked_settled user flush load).weaken (fun _ h => h) (fun _ _ h => h)
    fun _ _ h => h.1) fun loaded => ?_
  rintro pc' ⟨hsettled', hgone⟩
  by_cases huser : user = owner
  · exact Or.inl (hgone huser)
  · refine hsettled'.imp_right fun ⟨_, hrest⟩ => ⟨?_, hrest⟩
    rintro ⟨⟩
    exact huser rfl

theorem workerLoad_settled {load : LoadFates} (hisolated : Isolated aead mls owner pc)
    (hsettled : Settled owner pc) (hready : loadReady owner migration pc = true) :
    Triple (fun pc' => pc' = pc) (workerLoad mls migration flush load)
      (fun _ => Settled owner) (fun _ => Settled owner) := by
  have hload : Triple (fun pc' => pc' = pc) (loadForBackgroundLocked mls migration flush load)
      (fun r pc' => Settled owner pc' ∧ ∀ user deviceState, r = some (user, deviceState) →
        user = owner → Gone pc') (fun _ => Settled owner) := by
    refine onError_triple (F := fun _ => Settled owner) ?_ (fun _ => ?_) fun _ h => h
    · refine Triple.bind (currentAccountLocked_ready hisolated hsettled hready) fun user => ?_
      refine Triple.bind ((loadLocked_settled user flush load).weaken (fun _ h => h)
        (fun _ _ h => h) fun _ _ h => h.1) fun loaded => ?_
      cases loaded with
      | fresh => exact fun pc' hpc' => ⟨hpc'.1, fun _ _ h => nomatch h⟩
      | state deviceState writer =>
          rintro pc' ⟨hsettled', hgone⟩
          refine ⟨hsettled', ?_⟩
          rintro _ _ ⟨⟩
          exact hgone
    · exact fun pc' hpc' => ⟨hpc', fun _ _ h => nomatch h⟩
  refine Triple.bind hload fun r => ?_
  cases r with
  | none =>
      rintro pc' ⟨hsettled', -⟩
      exact hsettled'.imp_right fun ⟨hjs, hpending, _, hgiven⟩ =>
        ⟨hjs, hpending, (fun _ h => nomatch h), hgiven⟩
  | some found =>
      obtain ⟨user, deviceState⟩ := found
      rintro pc' ⟨hsettled', hgone⟩
      by_cases huser : user = owner
      · exact Or.inl (hgone user deviceState rfl huser)
      · refine hsettled'.imp_right fun ⟨hjs, hpending, _, hgiven⟩ => ⟨hjs, hpending, ?_, hgiven⟩
        rintro _ ⟨⟩
        exact huser rfl

theorem gone_mlsSaveState (bytes : Bytes) (durable : Bool) (fates : SaveFates aead) :
    PcKeeps Gone (mlsSaveState mls bytes durable fates) := by
  refine Triple.get_bind fun pc₀ hpc₀ => ?_
  cases saveOwner mls bytes pc₀ with
  | error e =>
      rintro pc rfl
      exact hpc₀
  | ok user =>
      refine Triple.bind (Q := fun _ => Gone) ?_ fun writer =>
        Triple.bind (Q := fun _ => Gone) (fun _ h => h) fun _ => ?_
      · rintro pc rfl
        exact hpc₀
      cases durable with
      | false => exact fun _ h => h
      | true =>
          refine (onError_triple (gone_frame.saveLocked user bytes writer fates)
            (fun _ _ h => h) fun _ h => h).bind fun _ => ?_
          exact fun _ h => h

/-- A save of JS is for the account it holds. -/
theorem untouched_mlsSaveState (bytes : Bytes) (durable : Bool) (fates : SaveFates aead) :
    PcKeeps (Untouched owner) (mlsSaveState mls bytes durable fates) := by
  refine Triple.get_bind fun pc₀ hpc₀ => ?_
  cases hcheck : saveOwner mls bytes pc₀ with
  | error e =>
      rintro pc rfl
      exact hpc₀
  | ok user =>
      have hne : user ≠ owner := by
        rintro rfl
        exact hpc₀.1 (saveOwner_eq_ok hcheck).2.1
      have hpending : ∀ writer, PcKeeps (Untouched owner)
          (modify (Pc.setPending (some ⟨user, bytes, writer⟩))) := by
        rintro writer pc ⟨hjs, -, hrest⟩
        refine ⟨hjs, ?_, hrest⟩
        rintro _ ⟨⟩
        exact hne
      refine Triple.bind (Q := fun _ => Untouched owner) ?_ fun writer =>
        Triple.bind (Q := fun _ => Untouched owner) (fun _ h => h) fun _ => ?_
      · rintro pc rfl
        obtain ⟨hjs, hbuffer, hworker, hgiven⟩ := hpc₀
        exact ⟨hjs, hbuffer, hworker, (Function.update_of_ne (Ne.symm hne) _ _).trans hgiven⟩
      cases durable with
      | false => exact (hpending writer).bind fun _ => fun _ h => h
      | true =>
          refine (onError_triple (untouched_frame.saveLocked user bytes writer fates)
            (fun _ => (hpending writer).bind fun _ => fail_keeps) fun _ h => h).bind fun _ => ?_
          rintro pc ⟨hjs, -, hrest⟩
          exact ⟨hjs, (fun _ h => nomatch h), hrest⟩

theorem gone_workerDecrypt (user : String) (deviceState groupId ciphertext : Bytes)
    (save : SaveFates aead) :
    PcKeeps Gone (workerDecrypt mls user deviceState groupId ciphertext save) := by
  unfold workerDecrypt
  cases decryptImpl mls deviceState groupId ciphertext with
  | error e => exact fun _ h => h
  | ok result =>
      have hsave : PcKeeps Gone (saveForBackgroundLocked user result.1 save) := by
        refine Triple.bind (Q := fun _ => Gone) (fun _ h => h) fun _ =>
          Triple.bind (Q := fun _ => Gone) (fun _ h => h) fun writer => ?_
        exact (gone_frame.saveLocked user _ writer save).bind fun _ => fun _ h => h
      exact (onError_triple hsave (fun _ => pure_keeps) fun _ h => h).bind fun _ => fun _ h => h

theorem untouched_workerDecrypt (hne : user ≠ owner) (deviceState groupId ciphertext : Bytes)
    (save : SaveFates aead) :
    PcKeeps (Untouched owner) (workerDecrypt mls user deviceState groupId ciphertext save) := by
  have hidle : PcKeeps (Untouched owner) (setWorker .idle) :=
    fun _ ⟨hjs, hpending, _, hgiven⟩ => ⟨hjs, hpending, (fun _ h => nomatch h), hgiven⟩
  unfold workerDecrypt
  cases decryptImpl mls deviceState groupId ciphertext with
  | error e => exact hidle
  | ok result =>
      have hsave : PcKeeps (Untouched owner) (saveForBackgroundLocked user result.1 save) := by
        refine Triple.bind (Q := fun _ => Untouched owner) ?_ fun _ =>
          Triple.bind (Q := fun _ => Untouched owner) ?_ fun writer => ?_
        · rintro pc ⟨hjs, hpending, hrest⟩
          exact ⟨hjs, fun p hp => hpending p (Option.filter_eq_some_iff.mp hp).1, hrest⟩
        · rintro pc ⟨hjs, hpending, hworker, hgiven⟩
          exact ⟨hjs, hpending, hworker, (Function.update_of_ne (Ne.symm hne) _ _).trans hgiven⟩
        · exact (untouched_frame.saveLocked user _ writer save).bind fun _ => fun _ h => h
      exact (onError_triple hsave (fun _ => pure_keeps) fun _ h => h).bind fun _ => hidle

/-! ## Runs -/

/-- The loads that go ahead. -/
def migratedFirst (owner : String) (pc : Pc) : PcInput aead → Bool
  | .loadState migration _ _ => loadReady owner migration pc
  | .workerLoad migration _ _ => loadReady owner migration pc
  | _ => true

variable {command : PcIo α}

theorem settled_after
    (hcommand : Triple (fun pc' => pc' = pc) command (fun _ => Settled owner) (fun _ => Settled owner)) :
    Settled owner (pc.after command) :=
  after_of_triple hcommand (fun _ h => h.launch) rfl

theorem Settled.after (h : Settled owner pc) (hcommand : PcKeeps (Settled owner) command) :
    Settled owner (pc.after command) :=
  hcommand.after (fun _ h => h.launch) h

theorem Settled.of_worker (h : Settled owner pc) {worker : Worker}
    (hworker : ∀ deviceState, worker ≠ .loaded owner deviceState) :
    Settled owner { pc with worker := worker } :=
  h.imp_right fun ⟨hjs, hpending, _, hgiven⟩ => ⟨hjs, hpending, hworker, hgiven⟩

theorem Settled.step (h : Settled owner pc) (hisolated : Isolated aead mls owner pc)
    {i : PcInput aead} (hready : migratedFirst owner pc i = true) {pc' : Pc}
    (hstep : pc.step mls i = some pc') : Settled owner pc' := by
  have hmigrate : ∀ migration : MigrationFates aead,
      PcKeeps (Settled owner) (ensureMigratedLocked mls migration) := fun migration =>
    settled_of_keeps (gone_frame.ensureMigratedLocked migration)
      (untouched_frame.ensureMigratedLocked migration)
  have hflush : ∀ flush : SaveFates aead, PcKeeps (Settled owner) (flushPendingLocked flush) :=
    fun flush => settled_of_keeps (gone_flushPendingLocked flush)
      (untouched_flushPendingLocked flush)
  cases Pc.step_cases hstep with
  | saveState hfree =>
      exact h.after (settled_of_keeps (gone_mlsSaveState _ _ _) (untouched_mlsSaveState _ _ _))
  | loadState hfree => exact settled_after (mlsLoadState_settled hisolated h hready)
  | legacyOwner hfree => exact h.after ((hmigrate _).bind fun _ => fun _ h => h)
  | migrated hattempted => exact h
  | currentAccountDir hfree => exact h.after (currentAccountLocked_keeps (hmigrate _))
  | flushPending hfree => exact h.after (hflush _)
  | handoffToBackground hfree =>
      refine h.after ((hflush _).bind fun _ => ?_)
      exact fun _ h => h.imp_right fun h => ⟨(fun h => by cases h), h.2⟩
  | showEngineDev => exact h
  | session => exact h
  | workerCheck hworker hbackground => exact h.of_worker fun _ h => by cases h
  | workerEnter hworker =>
      refine h.of_worker fun deviceState hw => ?_
      split at hw
      · cases hw
      · cases hw
  | workerLoad hworker => exact settled_after (workerLoad_settled hisolated h hready)
  | @workerDecrypt groupId ciphertext save user deviceState hworker =>
      rcases h with hgone | huntouched
      · exact Or.inl ((gone_workerDecrypt user deviceState groupId ciphertext save).after
          (fun _ h => h) hgone)
      · have hne : user ≠ owner := by
          rintro rfl
          exact huntouched.2.2.1 deviceState hworker
        refine Settled.after (Or.inr huntouched) ?_
        exact settled_of_keeps (gone_workerDecrypt user deviceState groupId ciphertext save)
          (untouched_workerDecrypt hne deviceState groupId ciphertext save)
  | workerDrop hworker => exact h.of_worker fun _ h => by cases h
  | launch => exact h.launch
  | powerOff => exact Settled.launch (h.imp (gone_frame.survive _) id)

/-- No migration overwrites what the legacy owner has handed over, and while a legacy file
is left, no load of the owner has returned anything in this process. -/
structure LegacySafe (aead : Aead) (mls : MlsCrypto) (owner : String) (pc : Pc) : Prop where
  kept : pc.history.given owner ≠ [] → ∀ fates : MigrationFates aead,
    (migrateLegacy mls fates).run.run pc = (.ok .nothingToDo, pc)
  unloaded : ¬ Gone pc → pc.jsOwner ≠ some owner ∧
    ∀ deviceState, pc.worker ≠ .loaded owner deviceState

theorem migrateLegacy_gone (h : Gone pc) (fates : MigrationFates aead) :
    (migrateLegacy mls fates).run.run pc = (.ok .nothingToDo, pc) := by
  have hempty : (pc.files .appData).isEmpty fates.seen = true := by
    simp only [Files.isEmpty, List.all_eq_true]
    intro slot _
    rw [h slot]
    simp
  change (if (pc.files .appData).isEmpty fates.seen = true then pure .nothingToDo else _ :
    PcIo Migration).run.run pc = _
  rw [if_pos hempty]
  rfl

theorem Settled.legacySafe (h : Settled owner pc) : LegacySafe aead mls owner pc where
  kept hgiven fates := by
    rcases h with hgone | ⟨-, -, -, hnone⟩
    · exact migrateLegacy_gone hgone fates
    · exact absurd hnone hgiven
  unloaded hleft := by
    rcases h with hgone | ⟨hjs, -, hworker, -⟩
    · exact absurd hgone hleft
    · exact ⟨hjs, hworker⟩

/-- Over any launches, with crashes and failures anywhere: where the owner's loads only go
ahead as `migratedFirst` says, the legacy state is safe. -/
theorem legacy_safe (aead : Aead) (mls : MlsCrypto) (owner : String) {disk pc : Pc}
    {inputs : List (PcInput aead)}
    (hfiles : ∀ user, (disk.files (.account user)).All (Names aead mls disk.secret user))
    (hlegacy : (disk.files .appData).All (Names aead mls disk.secret owner))
    (hgiven : disk.history.given owner = [])
    (hrun : (pcSystem aead mls).Guarded (fun pc i => migratedFirst owner pc i = true)
      disk.launch inputs pc) : LegacySafe aead mls owner pc := by
  have hstart : Isolated aead mls owner disk.launch ∧ Settled owner disk.launch := by
    refine ⟨⟨?_, fun _ hkey => (nomatch hkey), fun _ hp => (nomatch hp),
      fun _ _ hw => (nomatch hw)⟩, Or.inr ⟨(fun h => nomatch h), (fun _ h => nomatch h),
      (fun _ h => nomatch h), hgiven⟩⟩
    intro dir
    cases dir with
    | appData => exact hlegacy
    | account user => exact hfiles user
  have hinv := hrun.invariant (P := fun pc => Isolated aead mls owner pc ∧ Settled owner pc)
    (fun _ _ _ h hready hstep => ⟨h.1.step hstep, h.2.step h.1 hready hstep⟩) hstart
  exact hinv.2.legacySafe

/-! ## An upgraded PC -/

def oldKey : Key := ⟨List.replicate 32 1, length_fresh⟩

/-- The state of account `a` before there were accounts. -/
def oldFile : File :=
  ⟨List.replicate 12 7 ++ (stateOf 1 97 ++ List.replicate 16 0), true, 0⟩

def upgradedPc : Pc :=
  { emptyPc with
    files := Function.update emptyPc.files .appData ⟨some oldFile, none, none⟩
    secret := some oldKey.val
    session := some "a" }

/-- The machine goes down between the marker and the move, and the next launch has the
whole migration before the load. -/
def movedLater : List (PcInput tagOnly) :=
  [.loadState { move := fun _ => .crashed } (fatesOf {}) {}, .loadState {} (fatesOf {}) {},
    .saveState (stateOf 5 97) true (fatesOf {})]

theorem upgradedPc_other {dir : Dir} (hdir : dir ≠ .appData) (slot : Slot) :
    (upgradedPc.files dir).get slot = none := by
  have hnone : upgradedPc.files dir = ⟨none, none, none⟩ := Function.update_of_ne hdir _ _
  rw [hnone]
  cases slot <;> rfl

theorem names_upgradedPc (dir : Dir) :
    (upgradedPc.files dir).All (Names tagOnly countedStates upgradedPc.secret "a") := by
  intro slot file hfile
  by_cases hdir : dir = .appData
  · subst hdir
    cases slot with
    | main =>
        cases hfile
        have hblob : encryptBlob tagOnly oldKey ⟨List.replicate 12 7, rfl⟩ (stateOf 1 97) =
            some oldFile.data := rfl
        exact names_blob hblob (by decide)
    | tmp => cases hfile
    | bak => cases hfile
  · rw [upgradedPc_other hdir] at hfile
    cases hfile

theorem legacy_safe_moved_later :
    ∃ pc, (pcSystem tagOnly countedStates).Run upgradedPc.launch movedLater pc ∧
      pc.history.accepted "a" = some 0 ∧ LegacySafe tagOnly countedStates "a" pc := by
  obtain ⟨pc, hexec⟩ := Option.isSome_iff_exists.mp
    (show (((pcSystem tagOnly countedStates).restrict (migratedFirst "a")).exec upgradedPc.launch
      movedLater).isSome = true by decide +kernel)
  have hguarded := (StepSystem.exec_eq_some_iff.mp hexec).guarded
  have haccepted : (((pcSystem tagOnly countedStates).restrict (migratedFirst "a")).exec
      upgradedPc.launch movedLater).map (fun pc => pc.history.accepted "a") = some (some 0) := by
    decide +kernel
  rw [hexec] at haccepted
  refine ⟨pc, hguarded.run, Option.some.inj haccepted,
    legacy_safe tagOnly countedStates "a" (fun user => ?_) (names_upgradedPc .appData) rfl hguarded⟩
  intro slot file hfile
  have hne : Dir.account user ≠ .appData := by rintro ⟨⟩
  rw [upgradedPc_other hne] at hfile
  cases hfile

/-- The same crash; then the keyring is locked when the app starts and not when the account
saves. -/
def lockedOut : List (PcInput tagOnly) :=
  [.loadState { move := fun _ => .crashed } (fatesOf {}) {},
    .loadState { load := { keyring := false } } (fatesOf {}) {},
    .saveState (stateOf 5 97) true (fatesOf {})]

/-- The load reports a fresh account while the legacy file stands where it stood, and the
next launch moves that file over what the account then saved. -/
theorem resumed_over_own_state :
    ∃ pc pc', (pcSystem tagOnly countedStates).Run upgradedPc.launch lockedOut pc ∧
      pc.history.js = [.fresh, .state (stateOf 5 97) 0] ∧ pc.history.accepted "a" = some 0 ∧
      (pc.files .appData).main = some oldFile ∧
      (pcSystem tagOnly countedStates).Run pc [.launch, .loadState {} (fatesOf {}) {}] pc' ∧
      pc'.files (.account "a") = ⟨some oldFile, none, none⟩ ∧
      pc'.history.js = [.state (stateOf 1 97) 0] := by
  let pc := ((pcSystem tagOnly countedStates).exec upgradedPc.launch lockedOut).get
    (by decide +kernel)
  let pc' := ((pcSystem tagOnly countedStates).exec pc [.launch, .loadState {} (fatesOf {}) {}]).get
    (by decide +kernel)
  refine ⟨pc, pc', StepSystem.exec_eq_some_iff.mp (Option.some_get _).symm, ?_, ?_, ?_,
    StepSystem.exec_eq_some_iff.mp (Option.some_get _).symm, ?_, ?_⟩
  · decide +kernel
  · decide +kernel
  · decide +kernel
  · decide +kernel
  · decide +kernel

end SpecterComs.MlsStore
