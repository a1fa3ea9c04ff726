import SpecterComs.Verification.MlsStore.Files

/-! # A save, step by step

Each step keeps any property of the directory that its own write and a crash keep.
-/

namespace SpecterComs.MlsStore

open Prog

variable {aead : Aead} {secret : Option Bytes} {given : List Bytes} {lastOk : Option ℕ}
  {G : Files → Prop} {before : Files} {α : Type}

/-- A store whose directory has `G`, whose keyring entry is `secret`, and whose cached
key is the keyring's. -/
structure Holding (secret : Option Bytes) (G : Files → Prop) (s : Store) : Prop where
  files : G s.files
  keyring : s.secret = secret
  cache : ∀ key, s.cache = some key → secret = some key.val

/-- A crash keeps the property. -/
def Stable (aead : Aead) (G : Files → Prop) : Prop :=
  ∀ (crash : Crash aead) files, G files → G (files.survive crash)

theorem filesOk_stable : Stable aead (FilesOk aead secret given lastOk) :=
  fun crash _ h => h.survive crash

/-- The triple of a step that ends with `G` whatever happens. -/
abbrev Keeps (secret : Option Bytes) (G : Files → Prop) (m : Io α) : Prop :=
  Triple (Holding secret G) m (fun _ => Holding secret G) (fun _ => Holding secret G)

theorem Holding.crash {s : Store} (h : Holding secret G s) (hG : Stable aead G)
    (hbefore : G before) (crash : Crash aead) : Holding secret G (s.crash before crash) := by
  refine ⟨hG crash _ ?_, h.keyring, ?_⟩
  · split
    · exact hbefore
    · exact h.files
  · intro key hkey
    cases hkey

variable {H : Files → Prop} {f : Files → Files}

theorem Holding.update {s : Store} (h : Holding secret G s) (hf : H (f s.files)) :
    Holding secret H { s with files := f s.files } :=
  ⟨hf, h.keyring, h.cache⟩

variable {Q : α → Store → Prop}

theorem goDown_keeps (hG : Stable aead G) (hbefore : G before) (crash : Crash aead) :
    Triple (Holding secret G) (goDown before crash) Q (fun _ => Holding secret G) :=
  fun _ hs => hs.crash hG hbefore crash

theorem updateFiles_triple {E : Stop → Store → Prop} (hf : ∀ files, G files → H (f files)) :
    Triple (Holding secret G) (updateFiles f) (fun _ => Holding secret H) E :=
  fun _ hs => hs.update (hf _ hs.files)

theorem raise_keeps {e : StoreError} :
    Triple (Holding secret G) (raise e : Io α) Q (fun _ => Holding secret G) :=
  fun _ hs => hs

theorem plainStep_keeps (hG : Stable aead G) (what : String) (fate : Fate aead) :
    Keeps secret G (plainStep what fate) := by
  cases fate with
  | ok => exact fun _ hs => hs
  | failed left => exact raise_keeps
  | crashed crash => exact fun s hs => hs.crash hG hs.files crash

variable {writer : ℕ}

theorem createTmp_keeps (hG : Stable aead G) (hbefore : G before)
    (htmp : ∀ files, G files → G { files with tmp := some ⟨[], false, writer⟩ })
    (fate : Fate aead) : Keeps secret G (createTmp before writer fate) := by
  cases fate with
  | ok => exact updateFiles_triple htmp
  | failed left => exact raise_keeps
  | crashed crash => exact (updateFiles_triple htmp).bind fun _ => goDown_keeps hG hbefore crash

variable {blob : Bytes}

theorem writeTmp_keeps (hG : Stable aead G) (hbefore : G before)
    (htmp : ∀ (left : Remains aead) files, G files → G { files with tmp := some ⟨left.of blob, false, writer⟩ })
    (fate : Fate aead) : Keeps secret G (writeTmp before writer blob fate) := by
  cases fate with
  | ok => exact updateFiles_triple (htmp none)
  | failed left => exact (updateFiles_triple (htmp left)).bind fun _ => raise_keeps
  | crashed crash =>
      exact (updateFiles_triple (htmp none)).bind fun _ => goDown_keeps hG hbefore crash

/-- Only a sync that worked gets past this step. -/
theorem fsyncTmp_triple (hG : Stable aead G) (hbefore : G before)
    (htmp : ∀ (left : Remains aead) files, G files → G { files with tmp := some ⟨left.of blob, false, writer⟩ })
    (hsynced : ∀ files, G files → H { files with tmp := some ⟨blob, true, writer⟩ })
    (fate : Fate aead) :
    Triple (Holding secret G) (fsyncTmp before writer blob fate) (fun _ => Holding secret H)
      (fun _ => Holding secret G) := by
  cases fate with
  | ok => exact updateFiles_triple hsynced
  | failed left => exact (updateFiles_triple (htmp left)).bind fun _ => raise_keeps
  | crashed crash => exact goDown_keeps hG hbefore crash

theorem copyMain_keeps {main : File} (hG : Stable aead G) (hbefore : G before)
    (hbak : ∀ (left : Remains aead) files, G files →
      G { files with bak := some ⟨left.of main.data, false, main.writer⟩ }) (fate : Fate aead) :
    Keeps secret G (copyMain before main fate) := by
  cases fate with
  | ok => exact updateFiles_triple (hbak none)
  | failed left => exact (updateFiles_triple (hbak left)).bind fun _ => raise_keeps
  | crashed crash =>
      exact (updateFiles_triple (hbak none)).bind fun _ => goDown_keeps hG hbefore crash

theorem syncBak_keeps (hG : Stable aead G) (hbefore : G before)
    (hbak : ∀ files, G files →
      G { files with bak := files.bak.map fun file => { file with synced := true } })
    (fate : Fate aead) : Keeps secret G (syncBak before fate) := by
  cases fate with
  | ok => exact updateFiles_triple hbak
  | failed left => exact fun _ hs => hs
  | crashed crash => exact goDown_keeps hG hbefore crash

/-- The backup is only written beside a main file, which a crash leaves alone. -/
theorem keepBackup_keeps (hG : Stable aead G)
    (hok : ∀ files, G files → FilesOk aead secret given lastOk files)
    (hbak : ∀ m bak files, files.main = some m → G files → G { files with bak := bak })
    (fates : WriteFates aead) : Keeps secret G (keepBackup fates) := by
  refine (plainStep_keeps hG _ fates.statMain).bind fun _ => Triple.get_bind fun s₀ hs₀ => ?_
  cases hmain : s₀.files.main with
  | none =>
      simp only [hmain]
      rintro s rfl
      exact hs₀
  | some m =>
      simp only [hmain]
      let G' : Files → Prop := fun files => G files ∧ files.main = some m
      have hG' : Stable aead G' := by
        rintro crash files ⟨hfiles, hm⟩
        exact ⟨hG crash files hfiles, by rw [(hok files hfiles).main_survive, hm]⟩
      have hbak' : ∀ bak files, G' files → G' { files with bak := bak } := by
        rintro bak files ⟨hfiles, hm⟩
        exact ⟨hbak m bak files hm hfiles, hm⟩
      have hcopy : Keeps secret G' (copyMain s₀.files m fates.copy) :=
        copyMain_keeps hG' ⟨hs₀.files, hmain⟩ (fun _ => hbak' _) fates.copy
      have hsync : Keeps secret G' (syncBak s₀.files fates.syncBak) :=
        syncBak_keeps hG' ⟨hs₀.files, hmain⟩ (fun _ => hbak' _ _) fates.syncBak
      refine (hcopy.bind fun _ => hsync).weaken ?_ ?_ ?_
      · rintro s rfl
        exact ⟨⟨hs₀.files, hmain⟩, hs₀.keyring, hs₀.cache⟩
      · exact fun _ s hs => ⟨hs.files.1, hs.keyring, hs.cache⟩
      · exact fun _ s hs => ⟨hs.files.1, hs.keyring, hs.cache⟩

/-- The rename and the directory sync: a crash leaves the directory before or after
the rename. -/
theorem replaceMain_triple {K : Files → Prop} (hK : Stable aead K)
    (hGK : ∀ files, G files → K files)
    (hrename : ∀ files, G files → H { files with main := files.tmp, tmp := none })
    (hHK : ∀ files, H files → K files) (fates : WriteFates aead) :
    Triple (Holding secret G) (replaceMain fates) (fun _ => Holding secret H)
      (fun _ => Holding secret K) := by
  refine Triple.get_bind fun s₀ hs₀ => ?_
  have hrenamed : Holding secret H
      { s₀ with files := { s₀.files with main := s₀.files.tmp, tmp := none } } :=
    hs₀.update (f := fun files => { files with main := files.tmp, tmp := none })
      (hrename _ hs₀.files)
  refine Triple.bind (Q := fun _ => Holding secret H) ?_ fun _ => ?_
  · rintro s rfl
    cases fates.rename with
    | ok => exact hrenamed
    | failed left => exact ⟨hGK _ hs₀.files, hs₀.keyring, hs₀.cache⟩
    | crashed crash =>
        exact Holding.crash ⟨hHK _ hrenamed.files, hrenamed.keyring, hrenamed.cache⟩ hK
          (hGK _ hs₀.files) crash
  · intro s hs
    cases fates.syncDir with
    | ok => exact hs
    | failed left => exact hs
    | crashed crash =>
        exact Holding.crash ⟨hHK _ hs.files, hs.keyring, hs.cache⟩ hK (hGK _ hs₀.files) crash

/-! ## The whole write -/

/-- What a save needs of a property `G` of directories to keep it, for the blob that
its `writer` stages. -/
structure Writable (aead : Aead) (secret : Option Bytes) (given : List Bytes)
    (lastOk : Option ℕ) (writer : ℕ) (blob : Bytes) (G : Files → Prop) : Prop where
  ok : ∀ files, G files → FilesOk aead secret given lastOk files
  stable : Stable aead G
  bak : ∀ m bak files, files.main = some m → G files → G { files with bak := bak }
  staged : ∀ files, G files → G { files with tmp := some ⟨blob, true, writer⟩ }
  renamed : ∀ files, G files → files.tmp = some ⟨blob, true, writer⟩ →
    G { files with main := files.tmp, tmp := none }

/-- The blob stands complete and synced under the temporary name. -/
def Staged (G : Files → Prop) (writer : ℕ) (blob : Bytes) (files : Files) : Prop :=
  G files ∧ files.tmp = some ⟨blob, true, writer⟩

theorem staged_stable (hG : Stable aead G) : Stable aead (Staged G writer blob) := by
  rintro crash files ⟨hfiles, htmp⟩
  refine ⟨hG crash files hfiles, ?_⟩
  simp [Files.survive, htmp, File.survive]

/-- Once the blob is staged, the rest of the write keeps `G`, and if it returns, the
main file is the blob. -/
theorem publish_triple (hG : Writable aead secret given lastOk writer blob G)
    (fates : WriteFates aead) :
    Triple (Holding secret (Staged G writer blob))
      (do keepBackup fates; replaceMain fates)
      (fun _ => Holding secret fun files => G files ∧ files.main = some ⟨blob, true, writer⟩)
      (fun _ => Holding secret G) := by
  have hbackup : Keeps secret (Staged G writer blob) (keepBackup fates) := by
    refine keepBackup_keeps (staged_stable hG.stable) (fun files h => hG.ok files h.1) ?_ fates
    rintro m bak files hm ⟨hfiles, htmp⟩
    exact ⟨hG.bak m bak files hm hfiles, htmp⟩
  have hreplace : Triple (Holding secret (Staged G writer blob)) (replaceMain fates)
      (fun _ => Holding secret fun files => G files ∧ files.main = some ⟨blob, true, writer⟩)
      (fun _ => Holding secret G) :=
    replaceMain_triple hG.stable (fun _ h => h.1)
      (fun files h => ⟨hG.renamed files h.1 h.2, h.2⟩) (fun _ h => h.1) fates
  refine Triple.bind (Q := fun _ => Holding secret (Staged G writer blob)) ?_ fun _ => hreplace
  exact hbackup.weaken (fun _ h => h) (fun _ _ h => h)
    (fun _ _ h => ⟨h.files.1, h.keyring, h.cache⟩)

def Fate.isOk : Fate aead → Bool
  | .ok => true
  | _ => false

def Fate.isFailed : Fate aead → Bool
  | .failed _ => true
  | _ => false

/-- The save truncates the temporary file and does not get to sync the new one. -/
def WriteFates.cutShort (fates : WriteFates aead) : Bool :=
  fates.createDir.isOk && !fates.create.isFailed &&
    !(fates.create.isOk && fates.write.isOk && fates.fsync.isOk)

/-- `G` does not look at the temporary file while it is being written. -/
structure Overwritable (aead : Aead) (writer : ℕ) (blob : Bytes) (G : Files → Prop) :
    Prop where
  truncate : ∀ files, G files → G { files with tmp := some ⟨[], false, writer⟩ }
  write : ∀ (left : Remains aead) files, G files →
    G { files with tmp := some ⟨left.of blob, false, writer⟩ }

theorem stageTmp_triple (hG : Writable aead secret given lastOk writer blob G)
    (hover : Overwritable aead writer blob G) (hbefore : G before) (fates : WriteFates aead) :
    Triple (Holding secret G) (stageTmp fates before writer blob)
      (fun _ => Holding secret (Staged G writer blob)) (fun _ => Holding secret G) :=
  (createTmp_keeps hG.stable hbefore hover.truncate fates.create).bind fun _ =>
    (writeTmp_keeps hG.stable hbefore hover.write fates.write).bind fun _ =>
      fsyncTmp_triple hG.stable hbefore hover.write (fun files h => ⟨hG.staged files h, rfl⟩)
        fates.fsync

variable {fates : WriteFates aead}

/-- A save that is not cut short goes from the old temporary file to the new one, or
leaves the old one alone. -/
theorem stageTmp_triple_of_not_cutShort (hG : Writable aead secret given lastOk writer blob G)
    (hdir : fates.createDir.isOk = true) (hcut : fates.cutShort = false) :
    Triple (Holding secret G) (stageTmp fates before writer blob)
      (fun _ => Holding secret (Staged G writer blob)) (fun _ => Holding secret G) := by
  intro s hs
  unfold stageTmp
  rw [WriteFates.cutShort, hdir] at hcut
  cases hcreate : fates.create with
  | failed left => exact hs
  | crashed crash => simp [hcreate, Fate.isFailed, Fate.isOk] at hcut
  | ok =>
      cases hwrite : fates.write with
      | failed left => simp [hcreate, hwrite, Fate.isFailed, Fate.isOk] at hcut
      | crashed crash => simp [hcreate, hwrite, Fate.isFailed, Fate.isOk] at hcut
      | ok =>
          cases hfsync : fates.fsync with
          | failed left => simp [hcreate, hwrite, hfsync, Fate.isFailed, Fate.isOk] at hcut
          | crashed crash => simp [hcreate, hwrite, hfsync, Fate.isFailed, Fate.isOk] at hcut
          | ok => exact ⟨⟨hG.staged s.files hs.files, rfl⟩, hs.keyring, hs.cache⟩

theorem writeAtomic_triple (hG : Writable aead secret given lastOk writer blob G)
    (hstage : Overwritable aead writer blob G ∨ fates.cutShort = false) :
    Triple (Holding secret G) (writeAtomic fates writer blob)
      (fun _ => Holding secret fun files => G files ∧ files.main = some ⟨blob, true, writer⟩)
      (fun _ => Holding secret G) := by
  have hfinish : ∀ before, Triple (Holding secret G) (stageTmp fates before writer blob)
      (fun _ => Holding secret (Staged G writer blob)) (fun _ => Holding secret G) →
      Triple (Holding secret G)
        (do stageTmp fates before writer blob; keepBackup fates; replaceMain fates)
        (fun _ => Holding secret fun files => G files ∧ files.main = some ⟨blob, true, writer⟩)
        (fun _ => Holding secret G) :=
    fun _ hstaged => hstaged.bind fun _ => publish_triple hG fates
  cases hdir : fates.createDir with
  | failed left =>
      intro s hs
      simp only [writeAtomic, hdir]
      exact hs
  | crashed crash =>
      intro s hs
      simp only [writeAtomic, hdir]
      exact hs.crash hG.stable hs.files crash
  | ok =>
      refine (plainStep_keeps hG.stable _ _).bind fun _ => Triple.get_bind fun s₀ hs₀ => ?_
      refine Triple.weaken (hfinish s₀.files ?_) ?_ (fun _ _ h => h) (fun _ _ h => h)
      · rcases hstage with hover | hcut
        · exact stageTmp_triple hG hover hs₀.files fates
        · exact stageTmp_triple_of_not_cutShort hG (by rw [hdir]; rfl) hcut
      · rintro s rfl
        exact hs₀

end SpecterComs.MlsStore
