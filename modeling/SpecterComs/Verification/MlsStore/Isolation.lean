import SpecterComs.Verification.MlsStore.Commands
import SpecterComs.Verification.MlsStore.Monotone

/-! # No account's state stands in another account's directory

Every writer of `accounts/<userId>` has read that user id from the credential of the
state it writes, or has loaded the state from that directory.
-/

namespace SpecterComs.MlsStore

open Prog

variable {aead : Aead} {mls : MlsCrypto} {secret : Option Bytes} {user old : String} {pc : Pc}

/-! ## Owners -/

variable {deviceState bytes : Bytes}

/-- Processing a message keeps the credential. -/
theorem deviceStateOwner_decryptImpl {groupId ciphertext newState plaintext : Bytes}
    (h : decryptImpl mls deviceState groupId ciphertext = .ok (newState, plaintext)) :
    deviceStateOwner mls newState = deviceStateOwner mls deviceState := by
  have hcredential : deviceStateCredential mls newState =
      deviceStateCredential mls deviceState := by
    unfold decryptImpl at h
    cases hload : loadDeviceState mls deviceState with
    | error e =>
        rw [hload] at h
        cases h
    | ok state =>
        rw [hload] at h
        obtain ⟨storage, signer, credential⟩ := state
        cases signer with
        | none => cases h
        | some signer =>
            cases credential with
            | none => cases h
            | some credential =>
                have hne : deviceState ≠ [] := by
                  rintro rfl
                  cases hload
                change (mls.processMessage storage groupId ciphertext >>= _) = _ at h
                obtain ⟨⟨storage', read⟩, hprocess, h⟩ := Except.bind_eq_ok.mp h
                obtain ⟨bytes, hserialize, h⟩ := Except.bind_eq_ok.mp h
                cases h
                have hnew := mls.serialize_ne_nil hserialize
                have hloadNew : loadDeviceState mls newState =
                    .ok ⟨storage', some signer, some credential⟩ := by
                  unfold loadDeviceState
                  rw [if_neg hnew]
                  exact mls.deserialize_serialize hserialize
                unfold deviceStateCredential
                rw [if_neg hne, if_neg hnew, hload, hloadNew]
                rfl
  unfold deviceStateOwner
  rw [hcredential]

/-- Whatever key the keyring has, or may still be given, the bytes open to a state of
the account or to none. -/
def Names (aead : Aead) (mls : MlsCrypto) (secret : Option Bytes) (user : String)
    (data : Bytes) : Prop :=
  ∀ key : Key, secret = none ∨ secret = some key.val → ∀ state,
    decryptBlob aead key data = some state → deviceStateOwner mls state = .ok user

theorem names_torn : HoldsOfTorn aead (Names aead mls secret user) := by
  intro bytes hdead key _ state hopen
  rw [hdead key] at hopen
  cases hopen

theorem Names.mint {data : Bytes} (h : Names aead mls none user data) (secret : Option Bytes) :
    Names aead mls secret user data :=
  fun key _ => h key (Or.inl rfl)

theorem names_blob {key : Key} {nonce : Nonce} {state blob : Bytes}
    (hblob : encryptBlob aead key nonce state = some blob)
    (howner : deviceStateOwner mls state = .ok user) :
    Names aead mls (some key.val) user blob := by
  intro key' hkey' state' hopen
  have hsame : key' = key := by
    rcases hkey' with hnone | hsome
    · cases hnone
    · exact (Subtype.ext (Option.some.inj hsome)).symm
  rw [hsame, decryptBlob_encryptBlob hblob] at hopen
  cases hopen
  exact howner

/-! ## The invariant -/

/-- Whose states stand in the directory; the legacy files name `old`. -/
def Dir.owner (old : String) : Dir → String
  | .appData => old
  | .account user => user

structure Isolated (aead : Aead) (mls : MlsCrypto) (old : String) (pc : Pc) : Prop where
  files : ∀ dir, (pc.files dir).All (Names aead mls pc.secret (dir.owner old))
  cache : ∀ key, pc.cache = some key → pc.secret = some key.val
  pending : ∀ p, pc.pending = some p → deviceStateOwner mls p.bytes = .ok p.user
  worker : ∀ user deviceState, pc.worker = .loaded user deviceState →
    deviceStateOwner mls deviceState = .ok user

theorem Isolated.survive (h : Isolated aead mls old pc) (left : Dir → Crash aead) :
    Isolated aead mls old (pc.survive left) :=
  ⟨fun dir => names_torn.all_survive (h.files dir) (left dir), h.cache, h.pending, h.worker⟩

theorem Isolated.launch (h : Isolated aead mls old pc) : Isolated aead mls old pc.launch :=
  ⟨h.files, fun _ hkey => (nomatch hkey), fun _ hp => (nomatch hp), fun _ _ hw => (nomatch hw)⟩

theorem Isolated.setPending (h : Isolated aead mls old pc) {pending : Option Pending}
    (hp : ∀ p, pending = some p → deviceStateOwner mls p.bytes = .ok p.user) :
    Isolated aead mls old (pc.setPending pending) :=
  ⟨h.files, h.cache, hp, h.worker⟩

/-- Moving a legacy file into its owner's directory. -/
theorem Isolated.moveFile (h : Isolated aead mls old pc) {slot : Slot} {file : File}
    (hfile : (pc.files .appData).get slot = some file) :
    Isolated aead mls old (pc.moveFile old slot file) := by
  refine ⟨?_, h.cache, h.pending, h.worker⟩
  intro dir
  by_cases hdest : dir = .account old
  · subst hdest
    simp only [Pc.moveFile, Function.update_self]
    refine (h.files (.account old)).set _ ?_ slot
    intro f hf
    cases hf
    exact h.files .appData slot file hfile
  · by_cases hroot : dir = .appData
    · subst hroot
      simp only [Pc.moveFile, Function.update_of_ne hdest, Function.update_self]
      exact (h.files .appData).set none (fun _ hf => by cases hf) slot
    · simp only [Pc.moveFile, Function.update_of_ne hdest, Function.update_of_ne hroot]
      exact h.files dir

/-! ## Saves -/

/-- A save into the account that its bytes name. -/
theorem saveState_isolated (howner : deviceStateOwner mls bytes = .ok user)
    (fates : SaveFates aead) (elsewhere : Bool) (writer : ℕ) :
    PcKeeps (Isolated aead mls old)
      (inDir (.account user) fates.left (saveState (fates.save bytes elsewhere) writer)) := by
  refine inDir_triple (R := fun pc _ s => Isolated aead mls old (pc.withStore (.account user) s))
    (F := fun pc _ s => Isolated aead mls old (pc.withStore (.account user) s)) ?_
    (fun _ _ _ _ h => h) (fun _ _ _ _ h => h) (fun _ _ _ h => h.survive _)
  intro pc hpc
  let Others : Option Bytes → Prop := fun secret => ∀ dir, dir ≠ .account user →
    (pc.files dir).All (Names aead mls secret (dir.owner old))
  let G : Option Bytes → Files → Prop := fun secret files =>
    files.All (Names aead mls secret user) ∧ Others secret
  have hmint : ∀ secret files, G none files → G secret files := by
    rintro secret files ⟨hfiles, hothers⟩
    exact ⟨fun slot f hf => (hfiles slot f hf).mint secret,
      fun dir hdir slot f hf => (hothers dir hdir slot f hf).mint secret⟩
  have hsave : Triple (Good G) (saveState (fates.save bytes elsewhere) writer)
      (fun _ s => Good G s ∧ True) (fun _ => Good G) := by
    refine saveState_triple_of_write (R := fun _ => True) writer _ hmint fun key blob hblob => ?_
    have hwrite : Keeps (some key.val) (Files.All (Names aead mls (some key.val) user))
        (writeAtomic fates.write writer blob) :=
      writeAtomic_all names_torn (names_blob hblob howner) fates.write writer
    refine (Triple.frame (C := Others (some key.val)) fun _ => hwrite).weaken ?_ ?_ ?_
    · exact fun s hs => ⟨⟨hs.files.1, hs.keyring, hs.cache⟩, hs.files.2⟩
    · exact fun _ s hs => ⟨⟨⟨hs.1.files, hs.2⟩, trivial⟩, hs.1.keyring, hs.1.cache⟩
    · exact fun _ s hs => ⟨⟨hs.1.files, hs.2⟩, hs.1.keyring, hs.1.cache⟩
  have hback : ∀ s, Good G s → Isolated aead mls old (pc.withStore (.account user) s) := by
    rintro s ⟨⟨hfiles, hothers⟩, hcache⟩
    refine ⟨?_, hcache, hpc.pending, hpc.worker⟩
    intro dir
    by_cases hdir : dir = .account user
    · subst hdir
      simp only [Pc.withStore, Function.update_self]
      exact hfiles
    · simp only [Pc.withStore, Function.update_of_ne hdir]
      exact hothers dir hdir
  refine hsave.weaken ?_ (fun _ s hs => hback s hs.1) fun _ => hback
  rintro s rfl
  exact ⟨⟨hpc.files (.account user), fun dir _ => hpc.files dir⟩, hpc.cache⟩

theorem saveLocked_isolated (howner : deviceStateOwner mls bytes = .ok user)
    (fates : SaveFates aead) (writer : ℕ) :
    PcKeeps (Isolated aead mls old) (saveLocked user bytes writer fates) :=
  saveLocked_keeps (fun _ h => ⟨h.files, h.cache, h.pending, h.worker⟩)
    fun elsewhere => saveState_isolated howner fates elsewhere writer

/-- The buffer is written to the account that its bytes name, or put back. -/
theorem flushPendingLocked_isolated (fates : SaveFates aead) :
    PcKeeps (Isolated aead mls old) (flushPendingLocked fates) := by
  refine Triple.get_bind fun pc hpc => ?_
  cases hpending : pc.pending with
  | none =>
      rintro pc rfl
      exact hpc
  | some p =>
      have howner := hpc.pending p hpending
      refine Triple.bind (Q := fun _ => Isolated aead mls old) ?_ fun _ => ?_
      · rintro pc rfl
        exact hpc.setPending fun _ hp => nomatch hp
      · refine onError_triple (saveLocked_isolated howner fates p.writer) (fun e => ?_)
          fun _ h => h
        refine modify_keeps fun pc hpc => ?_
        split
        · refine hpc.setPending ?_
          rintro _ ⟨⟩
          exact howner
        · exact hpc

/-! ## Loads -/

/-- A load keeps the invariant, and what it returns is the account's. -/
theorem loadState_isolated (dir : Dir) (left : Dir → Crash aead) (fates : LoadFates) :
    Triple (Isolated aead mls old) (inDir dir left (loadState aead fates))
      (fun r pc => Isolated aead mls old pc ∧ ∀ bytes writer, r = .state bytes writer →
        deviceStateOwner mls bytes = .ok (dir.owner old))
      (fun _ => Isolated aead mls old) := by
  have hback : ∀ pc s, Isolated aead mls old pc → Opened (pc.store dir) s →
      Isolated aead mls old (pc.withStore dir s) := by
    intro pc s hpc hopened
    refine ⟨?_, ?_, hpc.pending, hpc.worker⟩
    · intro other
      have hfiles : (pc.withStore dir s).files other = pc.files other := by
        by_cases hdir : other = dir
        · subst hdir
          simp only [Pc.withStore, Function.update_self]
          exact hopened.files
        · simp only [Pc.withStore, Function.update_of_ne hdir]
      rw [hfiles, show (pc.withStore dir s).secret = pc.secret from hopened.secret]
      exact hpc.files other
    · intro key hkey
      rw [show (pc.withStore dir s).secret = pc.secret from hopened.secret]
      exact (hopened.cache key hkey).elim (hpc.cache key) id
  refine inDir_triple (fun pc _ => loadState_opens aead fates (pc.store dir)) ?_
    (fun pc e s hpc h => hback pc s hpc h.2) (fun pc s hpc h => (hback pc s hpc h.2).survive _)
  rintro pc r s hpc ⟨hopened, hread⟩
  refine ⟨hback pc s hpc hopened, ?_⟩
  rintro bytes writer rfl
  obtain ⟨key, hkey, slot, file, hfile, hopen, -⟩ := hread
  exact hpc.files dir slot file hfile key (Or.inr (hkey.elim (hpc.cache key) id)) bytes hopen

theorem loadLocked_isolated (user : String) (flush : SaveFates aead) (load : LoadFates) :
    Triple (Isolated aead mls old) (loadLocked user flush load)
      (fun r pc => Isolated aead mls old pc ∧ ∀ bytes writer, r = .state bytes writer →
        deviceStateOwner mls bytes = .ok user)
      (fun _ => Isolated aead mls old) :=
  (flushPendingLocked_isolated flush).bind fun _ => loadState_isolated (.account user) _ load

/-! ## The migration -/

theorem checkDest_eq_ok {fates : MigrationFates aead} {owner dest : String}
    (h : checkDest fates owner pc = .ok dest) : owner = dest := by
  unfold checkDest at h
  split at h
  · split at h
    · cases h
    · split at h
      · cases h
      · exact Except.ok.inj h
  · split at h
    · cases h
    · split at h
      · cases h
      · exact Except.ok.inj h

/-- The migration only names the account that the legacy files name. -/
theorem migrationOwner_isolated (old : String) (fates : MigrationFates aead) :
    Triple (Isolated aead mls old) (migrationOwner mls fates)
      (fun r pc => Isolated aead mls old pc ∧ ∀ owner, r = .ok owner → owner = old)
      (fun _ => Isolated aead mls old) := by
  have hload : Triple (Isolated aead mls old)
      (onError (some <$> inDir .appData fates.left (loadState aead fates.load)) fun _ => pure none)
      (fun r pc => Isolated aead mls old pc ∧ ∀ bytes writer, r = some (.state bytes writer) →
        deviceStateOwner mls bytes = .ok old)
      (fun _ => Isolated aead mls old) := by
    refine onError_triple (F := fun _ => Isolated aead mls old) ?_ (fun e => ?_) fun _ h => h
    · refine Triple.bind (loadState_isolated .appData fates.left fates.load) fun r => ?_
      rintro pc ⟨hpc, hr⟩
      refine ⟨hpc, ?_⟩
      intro bytes writer hstate
      cases hstate
      exact hr bytes writer rfl
    · exact fun pc hpc => ⟨hpc, fun _ _ h => nomatch h⟩
  refine Triple.bind hload fun r => ?_
  cases r with
  | none => exact fun pc hpc => ⟨hpc.1, fun _ h => nomatch h⟩
  | some loaded =>
      cases loaded with
      | fresh => exact fun pc hpc => ⟨hpc.1, fun _ h => nomatch h⟩
      | state bytes writer =>
          dsimp only
          cases howner : deviceStateOwner mls bytes with
          | error why => exact fun pc hpc => ⟨hpc.1, fun _ h => nomatch h⟩
          | ok owner =>
              dsimp only
              split
              · exact fun pc hpc => ⟨hpc.1, fun _ h => nomatch h⟩
              · refine Triple.get_bind fun pc hpc => ?_
                rintro pc rfl
                refine ⟨hpc.1, ?_⟩
                intro owner' hdest
                rw [← checkDest_eq_ok hdest]
                have hold := hpc.2 bytes writer rfl
                rw [howner] at hold
                exact Except.ok.inj hold

theorem migrateLegacy_isolated (fates : MigrationFates aead) :
    PcKeeps (Isolated aead mls old) (migrateLegacy mls fates) := by
  refine Triple.get_bind fun pc₀ hpc₀ => ?_
  split
  · rintro pc rfl
    exact hpc₀
  refine Triple.bind ((migrationOwner_isolated old fates).weaken ?_ (fun _ _ h => h)
    fun _ _ h => h) fun r => ?_
  · rintro pc rfl
    exact hpc₀
  cases r with
  | error why => exact fun pc hpc => hpc.1
  | ok owner =>
      rintro pc ⟨hpc, howner⟩
      obtain rfl := howner owner rfl
      exact moveLegacy_keeps (fun _ h => h.survive _)
        (fun _ h => ⟨h.files, h.cache, h.pending, h.worker⟩)
        (fun _ h => ⟨h.files, h.cache, h.pending, h.worker⟩)
        (fun _ _ _ h hfile => h.moveFile hfile) pc hpc

theorem ensureMigratedLocked_isolated (fates : MigrationFates aead) :
    PcKeeps (Isolated aead mls old) (ensureMigratedLocked mls fates) :=
  ensureMigratedLocked_keeps (migrateLegacy_isolated fates)
    (fun _ h => ⟨h.files, h.cache, h.pending, h.worker⟩)
    (fun _ _ h => ⟨h.files, h.cache, h.pending, h.worker⟩)

theorem currentAccountLocked_isolated (fates : MigrationFates aead) :
    PcKeeps (Isolated aead mls old) (currentAccountLocked mls fates) :=
  currentAccountLocked_keeps (ensureMigratedLocked_isolated fates)

/-! ## Commands -/

theorem handOver_isolated (user : String) (bytes : Bytes) :
    PcKeeps (Isolated aead mls old) (handOver user bytes) :=
  fun _ h => ⟨h.files, h.cache, h.pending, h.worker⟩

theorem accept_isolated (user : String) (writer : ℕ) :
    PcKeeps (Isolated aead mls old) (modify (Pc.accept user writer)) :=
  modify_keeps fun _ h => ⟨h.files, h.cache, h.pending, h.worker⟩

theorem mlsSaveState_isolated (bytes : Bytes) (durable : Bool) (fates : SaveFates aead) :
    PcKeeps (Isolated aead mls old) (mlsSaveState mls bytes durable fates) := by
  refine Triple.get_bind fun pc₀ hpc₀ => ?_
  cases hcheck : saveOwner mls bytes pc₀ with
  | error e =>
      rintro pc rfl
      exact hpc₀
  | ok owner =>
      have howner := (saveOwner_eq_ok hcheck).1
      have hkeep : ∀ writer, PcKeeps (Isolated aead mls old)
          (modify (Pc.setPending (some ⟨owner, bytes, writer⟩))) := by
        intro writer
        refine modify_keeps fun pc hpc => hpc.setPending ?_
        rintro _ ⟨⟩
        exact howner
      refine Triple.bind (Q := fun _ => Isolated aead mls old) ?_ fun writer => ?_
      · rintro pc rfl
        exact handOver_isolated owner bytes pc hpc₀
      refine Triple.bind (Q := fun _ => Isolated aead mls old)
        (modify_keeps fun _ h => ⟨h.files, h.cache, h.pending, h.worker⟩) fun _ => ?_
      cases durable with
      | false => exact (hkeep writer).bind fun _ => accept_isolated owner writer
      | true =>
          refine Triple.bind (Q := fun _ => Isolated aead mls old) ?_ fun _ => ?_
          · refine onError_triple (saveLocked_isolated howner fates writer) (fun e => ?_)
              fun _ h => h
            exact (hkeep writer).bind fun _ => fail_keeps
          · refine Triple.bind (Q := fun _ => Isolated aead mls old) ?_ fun _ =>
              accept_isolated owner writer
            exact modify_keeps fun pc hpc => hpc.setPending fun _ hp => nomatch hp

theorem mlsLoadState_isolated (migration : MigrationFates aead) (flush : SaveFates aead)
    (load : LoadFates) : PcKeeps (Isolated aead mls old) (mlsLoadState mls migration flush load) := by
  refine (currentAccountLocked_isolated migration).bind fun user => ?_
  refine Triple.bind (loadLocked_isolated user flush load) fun loaded => ?_
  rintro pc ⟨hpc, -⟩
  exact ⟨hpc.files, hpc.cache, hpc.pending, hpc.worker⟩

theorem handoffToBackground_isolated (flush : SaveFates aead) :
    PcKeeps (Isolated aead mls old) (handoffToBackground flush) :=
  (flushPendingLocked_isolated flush).bind fun _ =>
    modify_keeps fun _ h => ⟨h.files, h.cache, h.pending, h.worker⟩

theorem setWorker_idle_isolated : PcKeeps (Isolated aead mls old) (setWorker .idle) :=
  modify_keeps fun _ h => ⟨h.files, h.cache, h.pending, fun _ _ hw => nomatch hw⟩

theorem workerLoad_isolated (migration : MigrationFates aead) (flush : SaveFates aead)
    (load : LoadFates) : PcKeeps (Isolated aead mls old) (workerLoad mls migration flush load) := by
  have hload : Triple (Isolated aead mls old) (loadForBackgroundLocked mls migration flush load)
      (fun r pc => Isolated aead mls old pc ∧ ∀ user deviceState,
        r = some (user, deviceState) → deviceStateOwner mls deviceState = .ok user)
      (fun _ => Isolated aead mls old) := by
    refine onError_triple (F := fun _ => Isolated aead mls old) ?_ (fun e => ?_) fun _ h => h
    · refine (currentAccountLocked_isolated migration).bind fun user => ?_
      refine Triple.bind (loadLocked_isolated user flush load) fun loaded => ?_
      cases loaded with
      | fresh => exact fun pc hpc => ⟨hpc.1, fun _ _ h => nomatch h⟩
      | state deviceState writer =>
          rintro pc ⟨hpc, hstate⟩
          refine ⟨hpc, ?_⟩
          intro user' deviceState' h
          cases h
          exact hstate deviceState writer rfl
    · exact fun pc hpc => ⟨hpc, fun _ _ h => nomatch h⟩
  refine Triple.bind hload fun r => ?_
  cases r with
  | none => exact fun pc hpc => setWorker_idle_isolated pc hpc.1
  | some found =>
      rintro pc ⟨hpc, hstate⟩
      refine ⟨hpc.files, hpc.cache, hpc.pending, ?_⟩
      intro user deviceState hw
      cases hw
      exact hstate _ _ rfl

theorem workerDecrypt_isolated (howner : deviceStateOwner mls deviceState = .ok user)
    (groupId ciphertext : Bytes) (save : SaveFates aead) :
    PcKeeps (Isolated aead mls old)
      (workerDecrypt mls user deviceState groupId ciphertext save) := by
  unfold workerDecrypt
  cases hdecrypt : decryptImpl mls deviceState groupId ciphertext with
  | error e => exact setWorker_idle_isolated
  | ok result =>
      obtain ⟨newState, plaintext⟩ := result
      have hnew : deviceStateOwner mls newState = .ok user :=
        (deviceStateOwner_decryptImpl hdecrypt).trans howner
      have hsave : PcKeeps (Isolated aead mls old) (saveForBackgroundLocked user newState save) := by
        refine Triple.bind (Q := fun _ => Isolated aead mls old) ?_ fun _ =>
          (handOver_isolated user newState).bind fun writer =>
            (saveLocked_isolated hnew save writer).bind fun _ => accept_isolated user writer
        refine modify_keeps fun pc hpc => hpc.setPending ?_
        intro p hp
        exact hpc.pending p (Option.filter_eq_some_iff.mp hp).1
      exact (onError_triple hsave (fun _ => pure_keeps) fun _ h => h).bind fun _ =>
        setWorker_idle_isolated

/-! ## Runs -/

theorem Isolated.after (h : Isolated aead mls old pc) {α : Type} {command : PcIo α}
    (hcommand : PcKeeps (Isolated aead mls old) command) :
    Isolated aead mls old (pc.after command) :=
  hcommand.after (fun _ h => h.launch) h

theorem Isolated.step (h : Isolated aead mls old pc) {i : PcInput aead} {pc' : Pc}
    (hstep : pc.step mls i = some pc') : Isolated aead mls old pc' := by
  cases Pc.step_cases hstep with
  | saveState hfree => exact h.after (mlsSaveState_isolated _ _ _)
  | loadState hfree => exact h.after (mlsLoadState_isolated _ _ _)
  | @legacyOwner migration reads hfree =>
      exact h.after ((ensureMigratedLocked_isolated migration).bind fun _ => fun _ hpc => hpc)
  | migrated hattempted => exact h
  | currentAccountDir hfree => exact h.after (currentAccountLocked_isolated _)
  | flushPending hfree => exact h.after (flushPendingLocked_isolated _)
  | handoffToBackground hfree => exact h.after (handoffToBackground_isolated _)
  | showEngineDev => exact ⟨h.files, h.cache, h.pending, h.worker⟩
  | session => exact ⟨h.files, h.cache, h.pending, h.worker⟩
  | workerCheck hworker hbackground =>
      exact ⟨h.files, h.cache, h.pending, fun _ _ hw => by cases hw⟩
  | workerEnter hworker =>
      refine ⟨h.files, h.cache, h.pending, ?_⟩
      intro user deviceState hw
      dsimp only at hw
      split at hw
      · cases hw
      · cases hw
  | workerLoad hworker => exact h.after (workerLoad_isolated _ _ _)
  | workerDecrypt hworker => exact h.after (workerDecrypt_isolated (h.worker _ _ hworker) _ _ _)
  | workerDrop hworker => exact ⟨h.files, h.cache, h.pending, fun _ _ hw => by cases hw⟩
  | launch => exact h.launch
  | powerOff => exact (h.survive _).launch

/-- Whatever the accounts, the session, the two writers, the migration and the machine
do, in any order and with any failures: if every account's files open to that account's
states at a start of the app, and the legacy files to states of one account, then every
account's files always do. -/
theorem files_isolated (aead : Aead) (mls : MlsCrypto) (old : String) {disk pc : Pc}
    {inputs : List (PcInput aead)}
    (hfiles : ∀ user, (disk.files (.account user)).All (Names aead mls disk.secret user))
    (hlegacy : (disk.files .appData).All (Names aead mls disk.secret old))
    (hrun : (pcSystem aead mls).Run disk.launch inputs pc) (user : String) :
    (pc.files (.account user)).All (Names aead mls pc.secret user) := by
  have hstart : Isolated aead mls old disk.launch := by
    refine ⟨?_, fun _ hkey => (nomatch hkey), fun _ hp => (nomatch hp), fun _ _ hw => (nomatch hw)⟩
    intro dir
    cases dir with
    | appData => exact hlegacy
    | account user => exact hfiles user
  exact (hrun.invariant (fun _ _ _ h hstep => h.step hstep) hstart).files (.account user)

/-! ## A PC with two accounts -/

/-- States that are a counter and the credential. -/
def countedStates : MlsCrypto where
  Storage := UInt8
  Signer := Unit
  noStorage := 0
  deserialize
    | n :: credential => .ok ⟨n, some (), some credential⟩
    | [] => .error "end of input"
  serialize
    | ⟨n, some (), some credential⟩ => .ok (n :: credential)
    | _ => .error "not a state"
  processMessage n _ _ := .ok (n + 1, [])
  deserialize_serialize := by
    rintro ⟨n, signer, credential⟩ bytes h
    cases signer <;> cases credential <;> cases h
    rfl
  serialize_ne_nil := by
    rintro ⟨n, signer, credential⟩ bytes h
    cases signer <;> cases credential <;> cases h
    exact List.cons_ne_nil _ _

def emptyPc : Pc where
  files _ := ⟨none, none, none⟩
  accounts := []
  legacyOwner := none
  secret := none
  session := none
  cache := none
  pending := none
  jsOwner := none
  foreground := true
  migrationAttempted := false
  migrationBlocked := none
  worker := .idle
  history := ⟨fun _ => [], fun _ => none, []⟩

def fatesOf (write : WriteFates tagOnly) : SaveFates tagOnly where
  nonce := ⟨List.replicate 12 7, length_nonce⟩
  fresh := ⟨List.replicate 32 1, length_fresh⟩
  write := write

/-- The credential is the account's letter, a colon and the letter `d`. -/
def stateOf (n account : UInt8) : Bytes :=
  [n, account, 58, 100]

/-- Account `a` saves, then account `b` does, and the worker goes on with `b`'s state. -/
def twoAccounts : List (PcInput tagOnly) :=
  [.session (some "a"), .loadState {} (fatesOf {}) {},
    .saveState (stateOf 1 97) true (fatesOf {}),
    .session (some "b"), .loadState {} (fatesOf {}) {},
    .saveState (stateOf 1 98) false (fatesOf {}), .handoffToBackground (fatesOf {}),
    .workerCheck, .workerEnter, .session (some "a"), .workerLoad {} (fatesOf {}) {},
    .workerDecrypt [] [] (fatesOf {})]

theorem files_isolated_two_accounts :
    ∃ pc, (pcSystem tagOnly countedStates).Run emptyPc.launch twoAccounts pc ∧
      (pc.files (.account "a")).bak.isSome = true ∧
      (pc.files (.account "a")).All (Names tagOnly countedStates pc.secret "a") := by
  obtain ⟨pc, hexec⟩ := Option.isSome_iff_exists.mp
    (show ((pcSystem tagOnly countedStates).exec emptyPc.launch twoAccounts).isSome = true by decide)
  have hrun := StepSystem.exec_eq_some_iff.mp hexec
  have hnone : ∀ dir, (emptyPc.files dir).get = fun _ => none := by
    intro dir
    funext slot
    cases slot <;> rfl
  refine ⟨pc, hrun, ?_, files_isolated tagOnly countedStates "a" (fun user slot file hfile => ?_)
    (fun slot file hfile => ?_) hrun "a"⟩
  · have hbak : (((pcSystem tagOnly countedStates).exec emptyPc.launch twoAccounts).map
        fun pc => (pc.files (.account "a")).bak.isSome) = some true := by decide
    rw [hexec] at hbak
    exact Option.some.inj hbak
  · rw [hnone] at hfile
    cases hfile
  · rw [hnone] at hfile
    cases hfile

end SpecterComs.MlsStore
