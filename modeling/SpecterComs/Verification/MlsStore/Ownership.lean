import SpecterComs.Verification.MlsStore.Isolation

/-! # One writer at a time

Without failures a save leaves what it was given, and a load returns what the last save
left. JS owns the state of the account it loaded until it hands off, and the worker
holds the lock only where JS owns nothing.
-/

namespace SpecterComs.MlsStore

open Prog

variable {aead : Aead} {mls : MlsCrypto} {user : String} {bytes : Bytes} {writer : ℕ} {pc : Pc}

/-! ## Saves and loads that work -/

/-- What a write leaves that works. -/
def Files.written (files : Files) (blob : Bytes) (writer : ℕ) : Files :=
  ⟨some ⟨blob, true, writer⟩, none,
    (files.main.map fun main => ⟨main.data, true, main.writer⟩).or files.bak⟩

theorem writeAtomic_run (s : Store) (writer : ℕ) (blob : Bytes) :
    (writeAtomic ({} : WriteFates aead) writer blob).run.run s =
      (.ok (), { s with files := s.files.written blob writer }) := by
  obtain ⟨⟨main, tmp, bak⟩, secret, cache⟩ := s
  cases main with
  | none => rfl
  | some main => rfl

variable {s : Store} {key : Key}

theorem getKey_run_cached (hcache : s.cache = some key) (fate : KeyringFate) (committed : Bool)
    (create : Option Key) : (getKey fate committed create).run.run s = (.ok key, s) := by
  obtain ⟨files, secret, cache⟩ := s
  cases hcache
  rfl

theorem getKey_run_stored (key : Key) (hcache : s.cache = none)
    (hsecret : s.secret = some key.val) (committed : Bool) (create : Option Key) :
    (getKey {} committed create).run.run s = (.ok key, { s with cache := some key }) := by
  obtain ⟨files, secret, cache⟩ := s
  cases hcache
  cases hsecret
  change ((if h : key.val.length = 32 then pure ⟨key.val, h⟩
    else raise (.key (.corrupt key.val.length)) : Io Key) >>= fun key => do
      modify fun s => { s with cache := some key }
      pure key : Io Key).run.run _ = _
  rw [dif_pos key.property]
  rfl

theorem getKey_run_created (hcache : s.cache = none) (hsecret : s.secret = none) :
    (getKey {} false (some key)).run.run s =
      (.ok key, { s with secret := some key.val, cache := some key }) := by
  obtain ⟨files, secret, cache⟩ := s
  cases hcache
  cases hsecret
  change ((if some key.val = some key.val then pure key else raise (.key .unavailable) : Io Key) >>=
    fun key => do
      modify fun s => { s with cache := some key }
      pure key : Io Key).run.run ⟨files, some key.val, none⟩ = _
  rw [if_pos rfl]
  rfl

/-- The keyring has its key, or nothing was ever stored. -/
structure Keyed (pc : Pc) : Prop where
  length : ∀ v, pc.secret = some v → v.length = 32
  unused : pc.secret = none → ∀ dir slot, (pc.files dir).get slot = none
  cache : ∀ key, pc.cache = some key → pc.secret = some key.val

theorem Files.not_committed {files : Files} (h : ∀ slot, files.get slot = none) :
    files.committed = false := by
  simp [Files.committed, show files.main = none from h .main, show files.bak = none from h .bak]

theorem Keyed.not_committed (h : Keyed pc) (hsecret : pc.secret = none) (dir : Dir) :
    (pc.files dir).committed = false :=
  Files.not_committed (h.unused hsecret dir)

/-- Every call of the save works. Which entries of `accounts/` are listed does not matter. -/
structure SaveFates.Works (fates : SaveFates aead) : Prop where
  statOther : ∀ dir, fates.statOther dir = true
  stat : fates.stat = true
  keyring : fates.keyring = {}
  write : fates.write = {}
  encrypts : ∀ key bytes, (encryptBlob aead key fates.nonce bytes).isSome = true

variable {stat : Dir → Bool}

theorem anyCommitted_eq_false {files : Dir → Files} {dirs : List Dir}
    (hstat : ∀ dir, stat dir = true) (hnone : ∀ dir, (files dir).committed = false) :
    anyCommitted files stat dirs = .ok false := by
  induction dirs with
  | nil => rfl
  | cons dir dirs ih => simp [anyCommitted, hstat dir, hnone dir, ih]

/-- What a save leaves that works. -/
def Saved (aead : Aead) (user : String) (bytes : Bytes) (writer : ℕ) (before after : Pc) : Prop :=
  ∃ (key : Key) (nonce : Nonce) (blob : Bytes),
    encryptBlob aead key nonce bytes = some blob ∧
    (before.secret = some key.val ∨ before.secret = none) ∧
    after = { before with
      files := Function.update before.files (.account user)
        ((before.files (.account user)).written blob writer)
      accounts := before.accounts.insert user
      secret := some key.val
      cache := some key }

/-- Which key a save uses, and what the store is once it has it. -/
theorem getKey_works (s : Store) (fresh : Key) (committed : Bool)
    (hlength : ∀ v, s.secret = some v → v.length = 32)
    (hcache : ∀ key, s.cache = some key → s.secret = some key.val)
    (hcommitted : s.cache = none → s.secret = none → committed = false) :
    ∃ key, (getKey {} committed (some fresh)).run.run s =
        (.ok key, { s with secret := some key.val, cache := some key }) ∧
      (s.secret = some key.val ∨ s.secret = none) := by
  obtain ⟨files, secret, cache⟩ := s
  cases cache with
  | some key =>
      have hsecret := hcache key rfl
      refine ⟨key, ?_, Or.inl hsecret⟩
      rw [getKey_run_cached rfl]
      cases hsecret
      rfl
  | none =>
      cases secret with
      | some v =>
          refine ⟨⟨v, hlength v rfl⟩, ?_, Or.inl rfl⟩
          rw [getKey_run_stored ⟨v, hlength v rfl⟩ rfl rfl]
      | none =>
          refine ⟨fresh, ?_, Or.inr rfl⟩
          rw [hcommitted rfl rfl, getKey_run_created rfl rfl]

theorem saveState_run (save : Save aead) (writer : ℕ) (hstat : save.stat = true)
    (hwrite : save.write = {}) {blob : Bytes}
    (hkey : (getKey save.keyring (save.stateElsewhere || s.files.committed) (some save.fresh)).run.run s = (.ok key, { s with secret := some key.val, cache := some key }))
    (hblob : encryptBlob aead key save.nonce save.plaintext = some blob) :
    (saveState save writer).run.run s =
      (.ok (), ⟨s.files.written blob writer, some key.val, some key⟩) := by
  have htriple : Triple (fun s' => s' = s) (saveState save writer)
      (fun _ s' => s' = ⟨s.files.written blob writer, some key.val, some key⟩)
      (fun _ _ => False) := by
    refine Triple.get_bind fun s₀ hs₀ => ?_
    subst hs₀
    simp only [hstat, Bool.not_true, Bool.and_false, Bool.false_eq_true, if_false]
    refine Triple.bind (Q := fun r s' => r = key ∧
      s' = { s₀ with secret := some key.val, cache := some key }) ?_ fun r => ?_
    · intro s hs
      subst hs
      rw [hkey]
      exact ⟨rfl, rfl⟩
    · rintro s' ⟨rfl, rfl⟩
      simp only [hblob, hwrite, writeAtomic_run]
  have hrun := htriple s rfl
  rcases hresult : (saveState save writer).run.run s with ⟨result, s'⟩
  rw [hresult] at hrun
  cases result with
  | ok u =>
      obtain rfl : s' = _ := hrun
      rfl
  | error e => exact hrun.elim

theorem anyCommitted_ok (files : Dir → Files) (dirs : List Dir) (hstat : ∀ dir, stat dir = true) :
    ∃ b, anyCommitted files stat dirs = .ok b := by
  induction dirs with
  | nil => exact ⟨false, rfl⟩
  | cons dir dirs ih =>
      by_cases hcommitted : (files dir).committed = true
      · exact ⟨true, by simp [anyCommitted, hstat dir, hcommitted]⟩
      · obtain ⟨b, hb⟩ := ih
        exact ⟨b, by simp [anyCommitted, hstat dir, hcommitted, hb]⟩

variable {fates flush : SaveFates aead}

theorem saveLocked_works (h : Keyed pc) (hworks : fates.Works) :
    Triple (fun pc' => pc' = pc) (saveLocked user bytes writer fates)
      (fun _ pc' => Saved aead user bytes writer pc pc') (fun _ _ => False) := by
  have helsewhere : ∃ elsewhere, (if pc.cache.isNone = true then anyCommittedState fates pc
      else .ok false) = .ok elsewhere ∧ (pc.secret = none → elsewhere = false) := by
    cases pc.cache.isNone with
    | false => exact ⟨false, rfl, fun _ => rfl⟩
    | true =>
        obtain ⟨b, hb⟩ := anyCommitted_ok pc.files
          (.appData :: (pc.accounts.filter fates.lists).map .account) hworks.statOther
        refine ⟨b, hb, fun hsecret => ?_⟩
        rw [anyCommitted_eq_false hworks.statOther (h.not_committed hsecret)] at hb
        exact (Except.ok.inj hb).symm
  obtain ⟨elsewhere, hresult, hunused⟩ := helsewhere
  refine Triple.get_bind fun pc₀ hpc₀ => ?_
  subst hpc₀
  simp only [hresult]
  refine Triple.bind (Q := fun _ pc' => pc' = pc₀.createDir user) ?_ fun _ => ?_
  · intro pc' hpc'
    subst hpc'
    rfl
  -- the key the save finds, and its blob
  obtain ⟨key, hkey, hsecret⟩ := getKey_works (pc₀.store (.account user)) fates.fresh
    (elsewhere || (pc₀.files (.account user)).committed) h.length h.cache
    fun _ hnone => by rw [hunused hnone, h.not_committed hnone, Bool.or_false]
  obtain ⟨blob, hblob⟩ := Option.isSome_iff_exists.mp (hworks.encrypts key bytes)
  have hrun := saveState_run (fates.save bytes elsewhere) writer
    (s := pc₀.store (.account user)) hworks.stat hworks.write
    (by rw [SaveFates.save, hworks.keyring]; exact hkey) hblob
  refine inDir_triple (R := fun pc' _ s => pc' = pc₀.createDir user ∧
    s = ⟨(pc₀.files (.account user)).written blob writer, some key.val, some key⟩)
    (F := fun _ _ _ => False) ?_ ?_ (fun _ _ _ _ h => h) (fun _ _ _ h => h)
  · rintro pc' rfl s rfl
    rw [show (pc₀.createDir user).store (.account user) = pc₀.store (.account user) from rfl, hrun]
    exact ⟨rfl, rfl⟩
  · rintro pc' _ s - ⟨rfl, rfl⟩
    exact ⟨key, fates.nonce, blob, hblob, hsecret, rfl⟩

/-- What a load finds when everything works. The process may have cached the key or not. -/
def onDisk (aead : Aead) (secret : Option Bytes) (files : Files) : Except Stop Loaded :=
  ((loadState aead {}).run.run ⟨files, secret, none⟩).1

theorem loadKey_run_found (hkey : s.cache = some key ∨ s.cache = none ∧ s.secret = some key.val)
    (committed : Bool) :
    (loadKey {} committed).run.run s = (.ok (some key), { s with cache := some key }) := by
  rcases hkey with hcache | ⟨hcache, hsecret⟩
  · obtain ⟨files, secret, cache⟩ := s
    cases hcache
    rfl
  · exact loadKey_run hcache rfl hsecret

theorem loadState_run (key : Key) (hsome : s.files.committed = true ∨ s.files.tmp.isSome = true)
    (hkey : s.cache = some key ∨ s.cache = none ∧ s.secret = some key.val) :
    (loadState aead {}).run.run s =
      (match tryCandidates aead key (candidates s.files {}) with
        | .ok (plaintext, writer) => .ok (.state plaintext writer)
        | .error failures =>
            if s.files.committed then .error (.error (.unreadable failures)) else .ok .fresh,
      { s with cache := some key }) := by
  have hload := loadKey_run_found hkey s.files.committed
  have hnot : ¬ (!s.files.committed && s.files.tmp.isNone) = true := by
    rcases hsome with hcommitted | htmp
    · simp [hcommitted]
    · simp [Option.isSome_iff_ne_none.mp htmp]
  change (if (!s.files.committed && s.files.tmp.isNone) = true then pure .fresh else _ :
    Io Loaded).run.run s = _
  rw [if_neg hnot, run_bind_ok hload]
  dsimp only
  cases tryCandidates aead key (candidates s.files {}) with
  | ok found => rfl
  | error failures =>
      cases s.files.committed with
      | true => rfl
      | false => rfl

theorem loadState_run_empty (hcommitted : s.files.committed = false) (htmp : s.files.tmp = none) :
    (loadState aead {}).run.run s = (.ok .fresh, s) := by
  have hempty : (!s.files.committed && s.files.tmp.isNone) = true := by simp [hcommitted, htmp]
  change (if (!s.files.committed && s.files.tmp.isNone) = true then pure .fresh else _ :
    Io Loaded).run.run s = _
  rw [if_pos hempty]
  rfl

/-- What a load returns does not depend on whether the key was cached. -/
theorem loadState_onDisk (hcache : ∀ key, s.cache = some key → s.secret = some key.val) :
    ((loadState aead {}).run.run s).1 = onDisk aead s.secret s.files := by
  by_cases hsome : s.files.committed = true ∨ s.files.tmp.isSome = true
  · cases hkey : s.cache with
    | some key =>
        have hsecret := hcache key hkey
        unfold onDisk
        rw [loadState_run key hsome (Or.inl hkey),
          loadState_run (s := ⟨s.files, s.secret, none⟩) key hsome (Or.inr ⟨rfl, hsecret⟩)]
    | none =>
        obtain ⟨files, secret, cache⟩ := s
        cases hkey
        rfl
  · obtain ⟨hcommitted, htmp⟩ := not_or.mp hsome
    have hcommitted := Bool.eq_false_iff.mpr hcommitted
    have htmp : s.files.tmp = none := by simpa using htmp
    unfold onDisk
    rw [loadState_run_empty hcommitted htmp,
      loadState_run_empty (s := ⟨s.files, s.secret, none⟩) hcommitted htmp]

theorem onDisk_written {nonce : Nonce} {blob : Bytes}
    (hblob : encryptBlob aead key nonce bytes = some blob) (files : Files) :
    onDisk aead (some key.val) (files.written blob writer) = .ok (.state bytes writer) := by
  unfold onDisk
  rw [loadState_run key (Or.inl rfl) (Or.inr ⟨rfl, rfl⟩)]
  simp [candidates, tryCandidates, Files.written, decryptBlob_encryptBlob hblob]

variable {before after pc₀ : Pc}

theorem Saved.onDisk_self (h : Saved aead user bytes writer before after) :
    onDisk aead after.secret (after.files (.account user)) = .ok (.state bytes writer) := by
  obtain ⟨key, nonce, blob, hblob, -, rfl⟩ := h
  simp only [Function.update_self]
  exact onDisk_written hblob _

theorem Saved.files_other (h : Saved aead user bytes writer before after) {dir : Dir}
    (hdir : dir ≠ .account user) : after.files dir = before.files dir := by
  obtain ⟨key, nonce, blob, -, -, rfl⟩ := h
  exact Function.update_of_ne hdir _ _

theorem Saved.keyed (h : Saved aead user bytes writer before after) : Keyed after := by
  obtain ⟨key, nonce, blob, -, -, rfl⟩ := h
  refine ⟨?_, fun hnone => (nomatch hnone), ?_⟩
  · intro v hv
    cases hv
    exact key.property
  · intro key' hkey'
    cases hkey'
    rfl

/-! ## The invariant -/

/-- The newest state of the account there is: the buffer's, or else the disk's. -/
def current (aead : Aead) (pc : Pc) (user : String) : Except Stop Loaded :=
  match pc.pending.filter fun p => p.user = user with
  | some p => .ok (.state p.bytes p.writer)
  | none => onDisk aead pc.secret (pc.files (.account user))

theorem current_pending {p : Pending} (h : pc.pending = some p) :
    current aead pc p.user = .ok (.state p.bytes p.writer) := by
  rw [current, h, Option.filter_some, if_pos (decide_eq_true rfl)]

theorem current_onDisk (h : pc.pending = none) (user : String) :
    current aead pc user = onDisk aead pc.secret (pc.files (.account user)) := by
  rw [current, h]
  rfl

structure Owned (aead : Aead) (pc : Pc) : Prop where
  keyed : Keyed pc
  background : pc.foreground = false → pc.jsOwner = none
  locked : pc.lockFree = false → pc.jsOwner = none
  attempted : pc.jsOwner ≠ none → pc.migrationAttempted = true
  /-- The buffer is JS's newest state. -/
  pending : ∀ p, pc.pending = some p →
    pc.jsOwner = some p.user ∧ pc.history.js.getLast? = some (.state p.bytes p.writer)
  /-- JS holds the newest state there is of its account. -/
  held : ∀ user, pc.jsOwner = some user → ∃ state,
    pc.history.js.getLast? = some state ∧ current aead pc user = .ok state
  disk : ∀ user, pc.jsOwner = some user → ∃ state ∈ pc.history.js,
    onDisk aead pc.secret (pc.files (.account user)) = .ok state
  loaded : ∀ user deviceState, pc.worker = .loaded user deviceState → ∃ writer,
    onDisk aead pc.secret (pc.files (.account user)) = .ok (.state deviceState writer)

/-- Nothing else is looked at. -/
theorem Keyed.same {pc' : Pc} (h : Keyed pc) (hfiles : pc'.files = pc.files := by rfl)
    (hsecret : pc'.secret = pc.secret := by rfl) (hcache : pc'.cache = pc.cache := by rfl) :
    Keyed pc' := by
  refine ⟨?_, ?_, ?_⟩
  · rw [hsecret]
    exact h.length
  · rw [hfiles, hsecret]
    exact h.unused
  · rw [hsecret, hcache]
    exact h.cache

theorem Keyed.launch (h : Keyed pc) : Keyed pc.launch :=
  ⟨h.length, h.unused, fun _ hkey => nomatch hkey⟩

theorem Keyed.survive (h : Keyed pc) (left : Dir → Crash aead) : Keyed (pc.survive left) := by
  refine ⟨h.length, ?_, h.cache⟩
  intro hsecret dir slot
  have hnone := h.unused hsecret dir slot
  cases slot with
  | tmp => simp [Pc.survive, Files.survive, Files.get, show (pc.files dir).tmp = none from hnone]
  | bak => simp [Pc.survive, Files.survive, Files.get, show (pc.files dir).bak = none from hnone]
  | main => simp [Pc.survive, Files.survive, Files.get, show (pc.files dir).main = none from hnone]

theorem Keyed.moveFile (h : Keyed pc) {owner : String} {slot : Slot} {file : File}
    (hfile : (pc.files .appData).get slot = some file) : Keyed (pc.moveFile owner slot file) := by
  refine ⟨h.length, ?_, h.cache⟩
  intro hsecret
  rw [h.unused hsecret .appData slot] at hfile
  cases hfile

/-- Where JS owns nothing and the worker holds no state, there is nothing to keep. -/
theorem Keyed.owned (h : Keyed pc) (hjs : pc.jsOwner = none) (hpending : pc.pending = none)
    (hworker : ∀ user deviceState, pc.worker ≠ .loaded user deviceState) : Owned aead pc where
  keyed := h
  background _ := hjs
  locked _ := hjs
  attempted hne := absurd hjs hne
  pending p hp := by
    rw [hpending] at hp
    cases hp
  held user howner := by
    rw [hjs] at howner
    cases howner
  disk user howner := by
    rw [hjs] at howner
    cases howner
  loaded user deviceState hw := absurd hw (hworker user deviceState)

theorem Owned.launch (h : Owned aead pc) : Owned aead pc.launch :=
  h.keyed.launch.owned rfl rfl fun _ _ hw => nomatch hw

theorem Owned.pending_none (h : Owned aead pc) (hjs : pc.jsOwner = none) : pc.pending = none := by
  cases hpending : pc.pending with
  | none => rfl
  | some p =>
      have howner := (h.pending p hpending).1
      rw [hjs] at howner
      cases howner

/-! ## What is overwritten -/

/-- Who may write to the account's directory, and over which state: JS over a state it has
loaded or handed over, the worker over the state it has loaded. The migration only writes
before anyone has loaded a state. -/
def MayWrite (aead : Aead) (pc : Pc) (user : String) : Prop :=
  (pc.jsOwner = some user ∧ ∃ state ∈ pc.history.js,
    onDisk aead pc.secret (pc.files (.account user)) = .ok state) ∨
  (pc.jsOwner = none ∧ ∃ deviceState writer, pc.worker = .loaded user deviceState ∧
    onDisk aead pc.secret (pc.files (.account user)) = .ok (.state deviceState writer)) ∨
  pc.jsOwner = none ∧ pc.migrationAttempted = false ∧
    ∀ user deviceState, pc.worker ≠ .loaded user deviceState

/-- Every account's directory that changed is one that could be written to. -/
def Wrote (aead : Aead) (before after : Pc) : Prop :=
  ∀ user, after.files (.account user) ≠ before.files (.account user) → MayWrite aead before user

theorem Wrote.of_same (h : after.files = before.files) : Wrote aead before after := by
  intro user hne
  rw [h] at hne
  exact absurd rfl hne

theorem Saved.wrote {start : Pc} (h : Saved aead user bytes writer before after)
    (hfiles : before.files = start.files) (hmay : MayWrite aead start user) :
    Wrote aead start after := by
  intro user' hne
  by_cases hsame : user' = user
  · rw [hsame]
    exact hmay
  · rw [h.files_other fun heq => hsame (Dir.account.inj heq), hfiles] at hne
    exact absurd rfl hne

/-! ## Flushes -/

/-- What a flush leaves that works. -/
def Flushed (aead : Aead) (before after : Pc) : Prop :=
  before.pending = none ∧ after = before ∨ ∃ p, before.pending = some p ∧
    Saved aead p.user p.bytes p.writer (before.setPending none) after

theorem flushPendingLocked_works (h : Keyed pc) (hworks : fates.Works) :
    Triple (fun pc' => pc' = pc) (flushPendingLocked fates)
      (fun _ pc' => Flushed aead pc pc') (fun _ _ => False) := by
  refine Triple.get_bind fun pc₀ hpc₀ => ?_
  subst hpc₀
  cases hpending : pc₀.pending with
  | none =>
      intro pc' hpc'
      exact Or.inl ⟨hpending, hpc'⟩
  | some p =>
      refine Triple.bind (Q := fun _ pc' => pc' = pc₀.setPending none) ?_ fun _ => ?_
      · intro pc' hpc'
        subst hpc'
        rfl
      · have hkeyed : Keyed (pc₀.setPending none) := h.same
        refine onError_triple (F := fun _ _ => False)
          ((saveLocked_works hkeyed hworks).weaken (fun _ h => h) ?_ fun _ _ h => h)
          (fun _ _ h => h.elim) fun _ h => h
        exact fun _ pc' hsaved => Or.inr ⟨p, hpending, hsaved⟩

theorem Owned.flushed (h : Owned aead before) (hflush : Flushed aead before after) :
    Owned aead after ∧ after.pending = none ∧ after.worker = before.worker ∧
      after.migrationAttempted = before.migrationAttempted ∧ Wrote aead before after := by
  rcases hflush with ⟨hpending, rfl⟩ | ⟨p, hpending, hsaved⟩
  · exact ⟨h, hpending, rfl, rfl, Wrote.of_same rfl⟩
  · obtain ⟨howner, hlast⟩ := h.pending p hpending
    have hkeyed := hsaved.keyed
    have hself := hsaved.onDisk_self
    have hwrote : Wrote aead before after :=
      hsaved.wrote rfl (Or.inl ⟨howner, h.disk p.user howner⟩)
    have hnone : before.worker = after.worker ∧ after.pending = none ∧
        after.jsOwner = before.jsOwner ∧ after.foreground = before.foreground ∧
        after.migrationAttempted = before.migrationAttempted ∧ after.history = before.history := by
      obtain ⟨key, nonce, blob, -, -, rfl⟩ := hsaved
      exact ⟨rfl, rfl, rfl, rfl, rfl, rfl⟩
    obtain ⟨hworker, hafter, hjs, hforeground, hattempted, hhistory⟩ := hnone
    refine ⟨⟨hkeyed, ?_, ?_, ?_, ?_, ?_, ?_, ?_⟩, hafter, hworker.symm, hattempted, hwrote⟩
    · rw [hjs, hforeground]
      exact h.background
    · rw [Pc.lockFree, hjs, ← hworker]
      exact h.locked
    · rw [hjs, hattempted]
      exact h.attempted
    · intro q hq
      rw [hafter] at hq
      cases hq
    · intro user huser
      rw [hjs, howner] at huser
      cases huser
      rw [hhistory]
      exact ⟨_, hlast, (current_onDisk hafter _).trans hself⟩
    · intro user huser
      rw [hjs, howner] at huser
      cases huser
      rw [hhistory]
      exact ⟨_, List.mem_of_getLast? hlast, hself⟩
    · intro user deviceState hw
      have hlocked := h.locked (by rw [Pc.lockFree, hworker, hw]; rfl)
      rw [howner] at hlocked
      cases hlocked

/-! ## The migration -/

/-- A load leaves everything but the cached key. -/
theorem loadState_works (h : Keyed pc) (dir : Dir) (left : Dir → Crash aead)
    (fates : LoadFates) :
    Triple (fun pc' => pc' = pc) (inDir dir left (loadState aead fates))
      (fun r pc' => (∃ cache, pc' = { pc with cache := cache }) ∧ Keyed pc' ∧
        (fates = {} → onDisk aead pc.secret (pc.files dir) = .ok r))
      (fun stop pc' => stop ≠ .crashed ∧ (∃ cache, pc' = { pc with cache := cache }) ∧
        Keyed pc') := by
  have hback : ∀ s, Opened (pc.store dir) s →
      (∃ cache, pc.withStore dir s = { pc with cache := cache }) ∧ Keyed (pc.withStore dir s) := by
    rintro ⟨files, secret, cache⟩ ⟨hfiles, hsecret, hcache⟩
    obtain rfl : files = pc.files dir := hfiles
    obtain rfl : secret = pc.secret := hsecret
    have hsame : pc.withStore dir ⟨pc.files dir, pc.secret, cache⟩ = { pc with cache := cache } := by
      simp only [Pc.withStore, Function.update_eq_self]
    rw [hsame]
    exact ⟨⟨cache, rfl⟩, h.length, h.unused, fun key hkey => (hcache key hkey).elim (h.cache key) id⟩
  have hload := loadState_opens aead fates (pc.store dir)
  refine inDir_triple (R := fun pc' r s => pc' = pc ∧ Opened (pc.store dir) s ∧
    (fates = {} → onDisk aead pc.secret (pc.files dir) = .ok r))
    (F := fun pc' stop s => pc' = pc ∧ stop ≠ .crashed ∧ Opened (pc.store dir) s) ?_ ?_ ?_ ?_
  · rintro pc' rfl s rfl
    have hrun := hload _ rfl
    have hresult : fates = {} → ((loadState aead fates).run.run (pc'.store dir)).1 =
        onDisk aead pc'.secret (pc'.files dir) := by
      rintro rfl
      exact loadState_onDisk h.cache
    revert hrun hresult
    rcases (loadState aead fates).run.run (pc'.store dir) with ⟨result, s'⟩
    cases result with
    | ok r => exact fun hrun hresult => ⟨rfl, hrun.1, fun hfates => (hresult hfates).symm⟩
    | error stop => exact fun hrun _ => ⟨rfl, hrun⟩
  · rintro pc' r s - ⟨rfl, hopened, hr⟩
    exact ⟨(hback s hopened).1, (hback s hopened).2, hr⟩
  · rintro pc' e s - ⟨rfl, -, hopened⟩
    exact ⟨(fun h => by cases h), hback s hopened⟩
  · rintro pc' s - ⟨-, hstop, -⟩
    exact absurd rfl hstop

/-- What the migration keeps, in a process where no one has loaded a state. -/
structure Unheld (pc₀ pc : Pc) : Prop where
  keyed : Keyed pc
  js : pc.jsOwner = none
  pending : pc.pending = none
  worker : pc.worker = pc₀.worker
  attempted : pc.migrationAttempted = true

theorem migrateLegacy_unheld (fates : MigrationFates aead) :
    PcKeeps (Unheld pc₀) (migrateLegacy mls fates) := by
  have hload : PcKeeps (Unheld pc₀) (inDir .appData fates.left (loadState aead fates.load)) := by
    intro pc hpc
    refine ((loadState_works hpc.keyed .appData fates.left fates.load).weaken (fun _ h => h) ?_ ?_)
      pc rfl
    · rintro r pc' ⟨⟨cache, rfl⟩, hkeyed, -⟩
      exact ⟨hkeyed, hpc.js, hpc.pending, hpc.worker, hpc.attempted⟩
    · rintro stop pc' ⟨-, ⟨cache, rfl⟩, hkeyed⟩
      exact ⟨hkeyed, hpc.js, hpc.pending, hpc.worker, hpc.attempted⟩
  refine migrateLegacy_keeps (migrationOwner_keeps hload) fun owner => ?_
  exact moveLegacy_keeps
    (fun _ h => ⟨h.keyed.survive _, h.js, h.pending, h.worker, h.attempted⟩)
    (fun _ h => ⟨h.keyed.same, h.js, h.pending, h.worker, h.attempted⟩)
    (fun _ h => ⟨h.keyed.same, h.js, h.pending, h.worker, h.attempted⟩)
    (fun _ _ _ h hfile => ⟨h.keyed.moveFile hfile, h.js, h.pending, h.worker, h.attempted⟩)

/-- Where the process stands after its one migration: where it stood, or the migration
ran just now. -/
def Migrated (pc₀ pc : Pc) : Prop :=
  pc.migrationAttempted = true ∧
    (pc = pc₀ ∨ pc₀.jsOwner = none ∧ pc₀.migrationAttempted = false ∧ Unheld pc₀ pc)

theorem ensureMigratedLocked_owned (h : Owned aead pc) (fates : MigrationFates aead) :
    Triple (fun pc' => pc' = pc) (ensureMigratedLocked mls fates)
      (fun _ => Migrated pc) (fun _ => Migrated pc) := by
  cases hattempted : pc.migrationAttempted with
  | true =>
      refine Triple.get_bind fun pc₀ hpc₀ => ?_
      subst hpc₀
      rw [hattempted]
      rintro pc rfl
      exact ⟨hattempted, Or.inl rfl⟩
  | false =>
      have hjs : pc.jsOwner = none := by
        by_contra hne
        rw [h.attempted hne] at hattempted
        cases hattempted
      refine (ensureMigratedLocked_triple (I := Unheld pc) (migrateLegacy_unheld fates) ?_ ?_
        fun _ _ h => ⟨h.keyed.same, h.js, h.pending, h.worker, h.attempted⟩).weaken (fun _ h => h)
        (fun _ _ h => ⟨h.attempted, Or.inr ⟨hjs, hattempted, h⟩⟩)
        (fun _ _ h => ⟨h.attempted, Or.inr ⟨hjs, hattempted, h⟩⟩)
      · rintro pc' rfl hflag
        rw [hattempted] at hflag
        cases hflag
      · rintro pc' rfl
        exact ⟨h.keyed.same, hjs, h.pending_none hjs, rfl, rfl⟩

theorem currentAccountLocked_owned (h : Owned aead pc) (fates : MigrationFates aead) :
    Triple (fun pc' => pc' = pc) (currentAccountLocked mls fates)
      (fun _ => Migrated pc) (fun _ => Migrated pc) := by
  refine (ensureMigratedLocked_owned h fates).bind fun _ => Triple.get_bind fun pc₀ hpc₀ => ?_
  split
  · rintro pc' rfl
    exact hpc₀
  · rintro pc' rfl
    exact hpc₀

/-- The invariant goes on, and only directories that could be written to have changed. -/
structure Went (aead : Aead) (pc₀ pc : Pc) : Prop where
  owned : Owned aead pc
  wrote : Wrote aead pc₀ pc

theorem Migrated.worker (h : Migrated pc₀ pc) : pc.worker = pc₀.worker := by
  obtain ⟨-, rfl | ⟨-, -, hunheld⟩⟩ := h
  · rfl
  · exact hunheld.worker

theorem Migrated.went (h : Migrated pc₀ pc) (howned : Owned aead pc₀)
    (hworker : ∀ user deviceState, pc₀.worker ≠ .loaded user deviceState) : Went aead pc₀ pc := by
  obtain ⟨-, rfl | ⟨hjs, hattempted, hunheld⟩⟩ := h
  · exact ⟨howned, Wrote.of_same rfl⟩
  · refine ⟨hunheld.keyed.owned hunheld.js hunheld.pending ?_,
      fun _ _ => Or.inr (Or.inr ⟨hjs, hattempted, hworker⟩)⟩
    rw [hunheld.worker]
    exact hworker

theorem Owned.withCache (h : Owned aead pc) {cache : Option Key}
    (hkeyed : Keyed { pc with cache := cache }) : Owned aead { pc with cache := cache } :=
  ⟨hkeyed, h.background, h.locked, h.attempted, h.pending, h.held, h.disk, h.loaded⟩

/-- A load writes the buffer first, so what it returns is the newest state. -/
theorem loadLocked_owned (h₀ : Owned aead pc₀)
    (hworker : ∀ user deviceState, pc₀.worker ≠ .loaded user deviceState) (user : String)
    (hworks : flush.Works) :
    Triple (Migrated pc₀) (loadLocked user flush {})
      (fun r pc => Went aead pc₀ pc ∧ pc.pending = none ∧ pc.worker = pc₀.worker ∧
        pc.migrationAttempted = true ∧ onDisk aead pc.secret (pc.files (.account user)) = .ok r)
      (fun _ pc => Went aead pc₀ pc ∧ pc.worker = pc₀.worker) := by
  have hflush : Triple (Migrated pc₀) (flushPendingLocked flush)
      (fun _ pc => Went aead pc₀ pc ∧ pc.pending = none ∧ pc.worker = pc₀.worker ∧
        pc.migrationAttempted = true)
      (fun _ pc => Went aead pc₀ pc ∧ pc.worker = pc₀.worker) := by
    intro pc hpc
    have hwent := hpc.went h₀ hworker
    refine ((flushPendingLocked_works hwent.owned.keyed hworks).weaken (fun _ h => h) ?_
      fun _ _ h => h.elim) pc rfl
    intro _ pc' hflushed
    obtain ⟨howned, hpending, hsame, hflag, hwrote⟩ := hwent.owned.flushed hflushed
    obtain ⟨hattempted, rfl | ⟨hjs, hbefore, hunheld⟩⟩ := hpc
    · exact ⟨⟨howned, hwrote⟩, hpending, hsame, hflag.trans hattempted⟩
    · exact ⟨⟨howned, fun _ _ => Or.inr (Or.inr ⟨hjs, hbefore, hworker⟩)⟩, hpending,
        hsame.trans hunheld.worker, hflag.trans hattempted⟩
  refine hflush.bind fun _ => ?_
  rintro pc ⟨hwent, hpending, hsame, hflag⟩
  refine ((loadState_works hwent.owned.keyed (.account user) flush.left {}).weaken (fun _ h => h)
    ?_ ?_) pc rfl
  · rintro r pc' ⟨⟨cache, rfl⟩, hkeyed, hr⟩
    exact ⟨⟨hwent.owned.withCache hkeyed, hwent.wrote⟩, hpending, hsame, hflag, hr rfl⟩
  · rintro stop pc' ⟨-, ⟨cache, rfl⟩, hkeyed⟩
    exact ⟨⟨hwent.owned.withCache hkeyed, hwent.wrote⟩, hsame⟩

/-! ## Commands -/

theorem Pc.lockFree_not_loaded (h : pc.lockFree = true) (user : String) (deviceState : Bytes) :
    pc.worker ≠ .loaded user deviceState := by
  intro hw
  rw [Pc.lockFree, hw] at h
  cases h

/-- JS holds the newest state there is of the account it owns. -/
theorem owned_of_js {owner : String} {state : Loaded} (hkeyed : Keyed pc)
    (howner : pc.jsOwner = some owner) (hforeground : pc.foreground = true)
    (hfree : pc.lockFree = true) (hattempted : pc.migrationAttempted = true)
    (hpending : ∀ p, pc.pending = some p →
      p.user = owner ∧ Loaded.state p.bytes p.writer = state)
    (hlast : pc.history.js.getLast? = some state)
    (hcurrent : current aead pc owner = .ok state)
    (hdisk : ∃ state ∈ pc.history.js,
      onDisk aead pc.secret (pc.files (.account owner)) = .ok state) : Owned aead pc where
  keyed := hkeyed
  background hf := by
    rw [hforeground] at hf
    cases hf
  locked hlocked := by
    rw [hfree] at hlocked
    cases hlocked
  attempted _ := hattempted
  pending p hp := by
    obtain ⟨huser, hstate⟩ := hpending p hp
    rw [huser, hstate]
    exact ⟨howner, hlast⟩
  held user huser := by
    rw [howner] at huser
    cases huser
    exact ⟨state, hlast, hcurrent⟩
  disk user huser := by
    rw [howner] at huser
    cases huser
    exact hdisk
  loaded user deviceState hw := absurd hw (Pc.lockFree_not_loaded hfree user deviceState)

theorem mlsLoadState_owned (h : Owned aead pc) (hfree : pc.lockFree = true)
    (migration : MigrationFates aead) (hworks : flush.Works) :
    Triple (fun pc' => pc' = pc) (mlsLoadState mls migration flush {})
      (fun _ => Went aead pc) (fun _ => Went aead pc) := by
  have hworker := Pc.lockFree_not_loaded hfree
  refine Triple.bind ((currentAccountLocked_owned h migration).weaken (fun _ h => h)
    (fun _ _ h => h) fun _ _ hm => hm.went h hworker) fun user => ?_
  refine Triple.bind ((loadLocked_owned h hworker user hworks).weaken (fun _ h => h)
    (fun _ _ h => h) fun _ _ h => h.1) fun loaded => ?_
  rintro pc' ⟨hwent, hpending, hsame, hattempted, hdisk⟩
  have hfree' : pc'.lockFree = true := by
    rw [Pc.lockFree, hsame]
    exact hfree
  have hcurrent : current aead pc' user = .ok loaded :=
    (current_onDisk hpending user).trans hdisk
  refine ⟨owned_of_js hwent.owned.keyed.same rfl rfl hfree' hattempted ?_ rfl hcurrent
    ⟨loaded, List.mem_singleton_self _, hdisk⟩, hwent.wrote⟩
  intro p hp
  have hp : pc'.pending = some p := hp
  rw [hpending] at hp
  cases hp

/-- A save that passes the checks comes from the holder of the newest state. -/
theorem mlsSaveState_owned (h : Owned aead pc) (hfree : pc.lockFree = true) (bytes : Bytes)
    (durable : Bool) (hworks : fates.Works) :
    Triple (fun pc' => pc' = pc) (mlsSaveState mls bytes durable fates)
      (fun _ => Went aead pc) (fun _ => Went aead pc) := by
  refine Triple.get_bind fun pc₀ hpc₀ => ?_
  subst hpc₀
  cases hcheck : saveOwner mls bytes pc₀ with
  | error e =>
      rintro pc rfl
      exact ⟨h, Wrote.of_same rfl⟩
  | ok owner =>
      obtain ⟨-, howner, hforeground, -⟩ := saveOwner_eq_ok hcheck
      have hattempted := h.attempted (by rw [howner]; exact fun h => nomatch h)
      let handed : ℕ → Pc → Prop := fun writer pc => pc.files = pc₀.files ∧ pc.secret = pc₀.secret ∧
        pc.cache = pc₀.cache ∧ pc.jsOwner = some owner ∧ pc.foreground = true ∧
        pc.lockFree = true ∧ pc.migrationAttempted = true ∧
        pc.history.js = pc₀.history.js ++ [.state bytes writer]
      refine Triple.bind (Q := fun writer pc => pc = { pc₀ with history := pc.history } ∧
        pc.history.js = pc₀.history.js) ?_ fun writer => ?_
      · rintro pc rfl
        exact ⟨rfl, rfl⟩
      refine Triple.bind (Q := fun _ => handed writer) ?_ fun _ => ?_
      · rintro pc ⟨hpc, hjs⟩
        rw [hpc]
        exact ⟨rfl, rfl, rfl, howner, hforeground, hfree, hattempted, by rw [← hjs]; rfl⟩
      have hlast : (pc₀.history.js ++ [Loaded.state bytes writer]).getLast? =
          some (.state bytes writer) := List.getLast?_concat
      cases durable with
      | false =>
          rintro pc ⟨hfiles, hsecret, hcache, hjsOwner, hfg, hfree, hflag, hjs⟩
          refine ⟨owned_of_js (h.keyed.same hfiles hsecret hcache) hjsOwner hfg hfree hflag ?_
            (by rw [← hlast, ← hjs]; rfl) ?_ ?_, Wrote.of_same hfiles⟩
          · rintro p ⟨⟩
            exact ⟨rfl, rfl⟩
          · exact current_pending (p := ⟨owner, bytes, writer⟩) rfl
          · obtain ⟨state, hmem, hdisk⟩ := h.disk owner howner
            refine ⟨state, ?_, ?_⟩
            · change state ∈ pc.history.js
              rw [hjs]
              exact List.mem_append_left _ hmem
            · rw [← hdisk, ← hsecret, ← hfiles]
              rfl
      | true =>
          have hsave : Triple (handed writer) (saveLocked owner bytes writer fates)
              (fun _ pc => ∃ pc₁, handed writer pc₁ ∧ Saved aead owner bytes writer pc₁ pc)
              (fun _ _ => False) := by
            intro pc₁ hpc₁
            have hkeyed : Keyed pc₁ := h.keyed.same hpc₁.1 hpc₁.2.1 hpc₁.2.2.1
            exact ((saveLocked_works hkeyed hworks).weaken (fun _ h => h)
              (fun _ pc hsaved => ⟨pc₁, hpc₁, hsaved⟩) fun _ _ h => h) pc₁ rfl
          refine Triple.bind (onError_triple hsave (fun _ _ h => h.elim) fun _ h => h.elim)
            fun _ => ?_
          rintro pc ⟨pc₁, ⟨hfiles, -, -, hjsOwner, hfg, hfree, hflag, hjs⟩, hsaved⟩
          have hdisk := hsaved.onDisk_self
          have hwrote : Wrote aead pc₀ pc :=
            hsaved.wrote hfiles (Or.inl ⟨howner, h.disk owner howner⟩)
          have hkeyed := hsaved.keyed
          obtain ⟨key, nonce, blob, -, -, rfl⟩ := hsaved
          refine ⟨owned_of_js hkeyed.same hjsOwner hfg hfree hflag (fun p hp => (nomatch hp))
            (by rw [← hlast, ← hjs]; rfl) ((current_onDisk rfl owner).trans hdisk)
            ⟨_, ?_, hdisk⟩, hwrote⟩
          change Loaded.state bytes writer ∈ pc₁.history.js
          rw [hjs]
          exact List.mem_append_right _ (List.mem_singleton_self _)

theorem flushPendingLocked_owned (h : Owned aead pc) (hworks : flush.Works) :
    Triple (fun pc' => pc' = pc) (flushPendingLocked flush)
      (fun _ pc' => Went aead pc pc' ∧ pc'.pending = none ∧ pc'.worker = pc.worker)
      (fun _ => Went aead pc) := by
  refine (flushPendingLocked_works h.keyed hworks).weaken (fun _ h => h) ?_ fun _ _ h => h.elim
  intro _ pc' hflushed
  obtain ⟨howned, hpending, hsame, -, hwrote⟩ := h.flushed hflushed
  exact ⟨⟨howned, hwrote⟩, hpending, hsame⟩

theorem handoffToBackground_owned (h : Owned aead pc) (hfree : pc.lockFree = true)
    (hworks : flush.Works) :
    Triple (fun pc' => pc' = pc) (handoffToBackground flush)
      (fun _ => Went aead pc) (fun _ => Went aead pc) := by
  refine Triple.bind (flushPendingLocked_owned h hworks) fun _ => ?_
  rintro pc' ⟨hwent, hpending, hsame⟩
  refine ⟨hwent.owned.keyed.same.owned rfl hpending ?_, hwent.wrote⟩
  intro user deviceState hw
  exact Pc.lockFree_not_loaded hfree user deviceState (hsame ▸ hw)

/-! ## The worker -/

theorem workerLoad_owned (h : Owned aead pc) (hworker : pc.worker = .holding)
    (migration : MigrationFates aead) (hworks : flush.Works) :
    Triple (fun pc' => pc' = pc) (workerLoad mls migration flush {})
      (fun _ => Went aead pc) (fun _ => Went aead pc) := by
  have hnot : ∀ user deviceState, pc.worker ≠ .loaded user deviceState := by
    intro user deviceState hw
    rw [hworker] at hw
    cases hw
  have hjs : ∀ pc', Went aead pc pc' → pc'.worker = pc.worker → pc'.jsOwner = none := by
    intro pc' hwent hsame
    exact hwent.owned.locked (by rw [Pc.lockFree, hsame, hworker]; rfl)
  have hload : Triple (fun pc' => pc' = pc) (loadForBackgroundLocked mls migration flush {})
      (fun r pc' => (Went aead pc pc' ∧ pc'.worker = pc.worker) ∧ ∀ user deviceState,
        r = some (user, deviceState) → ∃ writer,
          onDisk aead pc'.secret (pc'.files (.account user)) = .ok (.state deviceState writer))
      (fun _ => Went aead pc) := by
    refine onError_triple (F := fun _ pc' => Went aead pc pc' ∧ pc'.worker = pc.worker) ?_
      (fun _ => ?_) fun _ h => h.1
    · refine Triple.bind ((currentAccountLocked_owned h migration).weaken (fun _ h => h)
        (fun _ _ h => h) fun _ _ hm => ⟨hm.went h hnot, hm.worker⟩) fun user => ?_
      refine Triple.bind (loadLocked_owned h hnot user hworks) fun loaded => ?_
      cases loaded with
      | fresh => exact fun pc' hpc' => ⟨⟨hpc'.1, hpc'.2.2.1⟩, fun _ _ h => nomatch h⟩
      | state deviceState writer =>
          rintro pc' ⟨hwent, -, hsame, -, hdisk⟩
          refine ⟨⟨hwent, hsame⟩, ?_⟩
          intro user' deviceState' heq
          cases heq
          exact ⟨writer, hdisk⟩
    · exact fun pc' hpc' => ⟨hpc', fun _ _ h => nomatch h⟩
  refine Triple.bind hload fun r => ?_
  cases r with
  | none =>
      rintro pc' ⟨⟨hwent, hsame⟩, -⟩
      have hnone := hjs pc' hwent hsame
      exact ⟨hwent.owned.keyed.same.owned hnone (hwent.owned.pending_none hnone)
        fun _ _ hw => (nomatch hw), hwent.wrote⟩
  | some found =>
      obtain ⟨user, deviceState⟩ := found
      rintro pc' ⟨⟨hwent, hsame⟩, hdisk⟩
      have hnone := hjs pc' hwent hsame
      have howned := hwent.owned
      refine ⟨⟨howned.keyed.same, howned.background, fun _ => hnone, howned.attempted,
        howned.pending, howned.held, howned.disk, ?_⟩, hwent.wrote⟩
      intro user' deviceState' hw
      cases hw
      exact hdisk user deviceState rfl

/-- The worker writes over the state it has loaded, while JS owns nothing. -/
theorem workerDecrypt_owned (h : Owned aead pc) {deviceState : Bytes}
    (hworker : pc.worker = .loaded user deviceState) (groupId ciphertext : Bytes)
    {save : SaveFates aead} (hworks : save.Works) :
    Triple (fun pc' => pc' = pc) (workerDecrypt mls user deviceState groupId ciphertext save)
      (fun _ => Went aead pc) (fun _ => Went aead pc) := by
  have hjs : pc.jsOwner = none := h.locked (by rw [Pc.lockFree, hworker]; rfl)
  have hpending := h.pending_none hjs
  unfold workerDecrypt
  cases decryptImpl mls deviceState groupId ciphertext with
  | error e =>
      rintro pc' rfl
      exact ⟨h.keyed.same.owned hjs hpending fun _ _ hw => (nomatch hw), Wrote.of_same rfl⟩
  | ok result =>
      obtain ⟨newState, plaintext⟩ := result
      obtain ⟨writer, hdisk⟩ := h.loaded user deviceState hworker
      have hmay : MayWrite aead pc user :=
        Or.inr (Or.inl ⟨hjs, deviceState, writer, hworker, hdisk⟩)
      let handed : Pc → Prop := fun pc' => pc'.files = pc.files ∧ pc'.secret = pc.secret ∧
        pc'.cache = pc.cache ∧ pc'.jsOwner = none ∧ pc'.pending = none
      have hsave : Triple (fun pc' => pc' = pc) (saveForBackgroundLocked user newState save)
          (fun _ pc' => Keyed pc' ∧ pc'.jsOwner = none ∧ pc'.pending = none ∧ Wrote aead pc pc')
          (fun _ _ => False) := by
        refine Triple.bind (Q := fun _ => handed) ?_ fun _ =>
          Triple.bind (Q := fun _ => handed) (fun _ h => h) fun number => ?_
        · rintro pc' rfl
          refine ⟨rfl, rfl, rfl, hjs, ?_⟩
          change pc'.pending.filter _ = none
          rw [hpending]
          rfl
        refine Triple.bind (Q := fun _ pc' => ∃ pc₁, handed pc₁ ∧
          Saved aead user newState number pc₁ pc') ?_ fun _ => ?_
        · intro pc₁ hpc₁
          have hkeyed : Keyed pc₁ := h.keyed.same hpc₁.1 hpc₁.2.1 hpc₁.2.2.1
          exact ((saveLocked_works hkeyed hworks).weaken (fun _ h => h)
            (fun _ pc' hsaved => ⟨pc₁, hpc₁, hsaved⟩) fun _ _ h => h) pc₁ rfl
        · rintro pc' ⟨pc₁, ⟨hfiles, -, -, hjs₁, hpending₁⟩, hsaved⟩
          have hkeyed := hsaved.keyed
          have hwrote : Wrote aead pc pc' := hsaved.wrote hfiles hmay
          obtain ⟨key, nonce, blob, -, -, rfl⟩ := hsaved
          exact ⟨hkeyed.same, hjs₁, hpending₁, hwrote⟩
      refine Triple.bind (onError_triple hsave (fun _ _ h => h.elim) fun _ h => h.elim)
        fun _ => ?_
      rintro pc' ⟨hkeyed, hjs', hpending', hwrote⟩
      exact ⟨hkeyed.same.owned hjs' hpending' fun _ _ hw => (nomatch hw), hwrote⟩

/-! ## Runs -/

/-- Every write and every read of the step works. How the migration goes does not matter. -/
def NoFailure : PcInput aead → Prop
  | .saveState _ _ fates => fates.Works
  | .loadState _ flush load => flush.Works ∧ load = {}
  | .flushPending flush => flush.Works
  | .handoffToBackground flush => flush.Works
  | .workerLoad _ flush load => flush.Works ∧ load = {}
  | .workerDecrypt _ _ save => save.Works
  | .powerOff _ => False
  | _ => True

theorem Went.launch (h : Went aead pc₀ pc) : Went aead pc₀ pc.launch :=
  ⟨h.owned.launch, h.wrote⟩

theorem went_after {α : Type} {command : PcIo α}
    (hcommand : Triple (fun pc' => pc' = pc) command (fun _ => Went aead pc)
      (fun _ => Went aead pc)) : Went aead pc (pc.after command) :=
  after_of_triple hcommand (fun _ h => h.launch) rfl

theorem Owned.step (h : Owned aead pc) {i : PcInput aead} (hi : NoFailure i) {pc' : Pc}
    (hstep : pc.step mls i = some pc') : Went aead pc pc' := by
  cases Pc.step_cases hstep with
  | saveState hfree => exact went_after (mlsSaveState_owned h hfree _ _ hi)
  | loadState hfree =>
      obtain ⟨hflush, rfl⟩ := hi
      exact went_after (mlsLoadState_owned h hfree _ hflush)
  | @legacyOwner migration reads hfree =>
      have hnot := Pc.lockFree_not_loaded hfree
      refine went_after (Triple.bind ((ensureMigratedLocked_owned h migration).weaken (fun _ h => h)
        (fun _ _ hm => hm.went h hnot) fun _ _ hm => hm.went h hnot) fun _ => ?_)
      exact fun _ hwent => hwent
  | migrated hattempted => exact ⟨h, Wrote.of_same rfl⟩
  | currentAccountDir hfree =>
      have hnot := Pc.lockFree_not_loaded hfree
      exact went_after ((currentAccountLocked_owned h _).weaken (fun _ h => h)
        (fun _ _ hm => hm.went h hnot) fun _ _ hm => hm.went h hnot)
  | flushPending hfree =>
      exact went_after ((flushPendingLocked_owned h hi).weaken (fun _ h => h) (fun _ _ h => h.1)
        fun _ _ h => h)
  | handoffToBackground hfree => exact went_after (handoffToBackground_owned h hfree hi)
  | showEngineDev =>
      exact ⟨⟨h.keyed.same, fun hf => (by cases hf), h.locked, h.attempted, h.pending, h.held,
        h.disk, h.loaded⟩, Wrote.of_same rfl⟩
  | session =>
      exact ⟨⟨h.keyed.same, h.background, h.locked, h.attempted, h.pending, h.held, h.disk,
        h.loaded⟩, Wrote.of_same rfl⟩
  | workerCheck hworker hbackground =>
      exact ⟨⟨h.keyed.same, h.background, fun hf => (by cases hf), h.attempted, h.pending, h.held,
        h.disk, fun _ _ hw => (by cases hw)⟩, Wrote.of_same rfl⟩
  | workerEnter hworker =>
      refine ⟨⟨h.keyed.same, h.background, ?_, h.attempted, h.pending, h.held, h.disk, ?_⟩,
        Wrote.of_same rfl⟩
      · -- the second look at the flag
        intro hlocked
        cases hforeground : pc.foreground with
        | true => simp [Pc.lockFree, hforeground] at hlocked
        | false => exact h.background hforeground
      · intro user deviceState hw
        dsimp only at hw
        split at hw
        · cases hw
        · cases hw
  | workerLoad hworker =>
      obtain ⟨hflush, rfl⟩ := hi
      exact went_after (workerLoad_owned h hworker _ hflush)
  | workerDecrypt hworker => exact went_after (workerDecrypt_owned h hworker _ _ hi)
  | workerDrop hworker =>
      exact ⟨⟨h.keyed.same, h.background, fun hf => (by cases hf), h.attempted, h.pending,
        h.held, h.disk, fun _ _ hw => (by cases hw)⟩, Wrote.of_same rfl⟩
  | launch => exact ⟨h.launch, Wrote.of_same rfl⟩
  | powerOff => exact hi.elim

theorem owned_of_run {disk : Pc} (hkeyed : Keyed disk) {inputs : List (PcInput aead)}
    (hrun : (pcSystem aead mls).Guarded (fun _ => NoFailure) disk.launch inputs pc) :
    Owned aead pc := by
  refine hrun.invariant (P := Owned aead) (fun _ _ _ h hi hstep => (h.step hi hstep).owned) ?_
  exact hkeyed.launch.owned rfl rfl fun _ _ hw => nomatch hw

/-- A command that returns has got past its checks. -/
theorem saveOwner_of_accepted {durable : Bool}
    (h : ((mlsSaveState mls bytes durable fates).run.run pc).1 = .ok ()) :
    ∃ owner, saveOwner mls bytes pc = .ok owner := by
  cases hcheck : saveOwner mls bytes pc with
  | ok owner => exact ⟨owner, rfl⟩
  | error e =>
      have hrun : (mlsSaveState mls bytes durable fates).run.run pc = (.error (.error e), pc) := by
        have hget : (get : PcIo Pc).run.run pc = (.ok pc, pc) := rfl
        unfold mlsSaveState
        rw [run_bind_ok hget, hcheck]
        rfl
      rw [hrun] at h
      cases h

/-- In every run without failures, of any number of processes one after the other: JS's
saves are accepted only where JS owns the account's state and holds the newest one; the
worker only has a state to go on from where JS owns nothing, and it is the newest one; and
no step writes over a state that its writer has not loaded or written itself. -/
theorem single_writer (aead : Aead) (mls : MlsCrypto) {disk pc : Pc}
    {inputs : List (PcInput aead)} (hkeyed : Keyed disk)
    (hrun : (pcSystem aead mls).Guarded (fun _ => NoFailure) disk.launch inputs pc) :
    (∀ bytes durable (fates : SaveFates aead), pc.lockFree = true →
      ((mlsSaveState mls bytes durable fates).run.run pc).1 = .ok () →
      ∃ owner state, deviceStateOwner mls bytes = .ok owner ∧ pc.jsOwner = some owner ∧
        pc.history.js.getLast? = some state ∧ current aead pc owner = .ok state) ∧
    (∀ user deviceState, pc.worker = .loaded user deviceState → pc.jsOwner = none ∧
      ∃ writer, current aead pc user = .ok (.state deviceState writer)) ∧
    ∀ (i : PcInput aead) pc', NoFailure i → pc.step mls i = some pc' → ∀ user,
      pc'.files (.account user) ≠ pc.files (.account user) → MayWrite aead pc user := by
  have howned := owned_of_run hkeyed hrun
  refine ⟨?_, ?_, fun i pc' hi hstep => (howned.step hi hstep).wrote⟩
  · intro bytes durable fates _ haccepted
    obtain ⟨owner, hcheck⟩ := saveOwner_of_accepted haccepted
    obtain ⟨hbytes, howner, -⟩ := saveOwner_eq_ok hcheck
    obtain ⟨state, hlast, hcurrent⟩ := howned.held owner howner
    exact ⟨owner, state, hbytes, howner, hlast, hcurrent⟩
  · intro user deviceState hw
    have hjs := howned.locked (by rw [Pc.lockFree, hw]; rfl)
    obtain ⟨writer, hdisk⟩ := howned.loaded user deviceState hw
    exact ⟨hjs, writer, (current_onDisk (howned.pending_none hjs) user).trans hdisk⟩

theorem fatesOf_works : (fatesOf {}).Works :=
  ⟨fun _ => rfl, rfl, rfl, rfl, fun _ _ => rfl⟩

/-- After the hand-off the worker goes on with the state that account `a` saved. -/
theorem single_writer_two_accounts :
    ∃ pc, (pcSystem tagOnly countedStates).Run emptyPc.launch (twoAccounts.take 11) pc ∧
      pc.worker = .loaded "a" (stateOf 1 97) ∧ pc.jsOwner = none ∧
      ∃ writer, current tagOnly pc "a" = .ok (.state (stateOf 1 97) writer) := by
  obtain ⟨pc, hexec⟩ := Option.isSome_iff_exists.mp
    (show ((pcSystem tagOnly countedStates).exec emptyPc.launch
      (twoAccounts.take 11)).isSome = true by decide)
  have hrun := StepSystem.exec_eq_some_iff.mp hexec
  have hworker : pc.worker = .loaded "a" (stateOf 1 97) := by
    have hmap : ((pcSystem tagOnly countedStates).exec emptyPc.launch
        (twoAccounts.take 11)).map Pc.worker = some (.loaded "a" (stateOf 1 97)) := by decide
    rw [hexec] at hmap
    exact Option.some.inj hmap
  have hkeyed : Keyed emptyPc := by
    refine ⟨fun _ hv => (nomatch hv), fun _ dir slot => ?_, fun _ hkey => (nomatch hkey)⟩
    cases slot <;> rfl
  have hworks : ∀ i ∈ twoAccounts.take 11, ∀ _ : Pc, NoFailure i := by
    simp [twoAccounts, NoFailure, fatesOf_works]
  exact ⟨pc, hrun, hworker, (single_writer tagOnly countedStates hkeyed
    (hrun.guarded_of_forall hworks)).2.1 "a" (stateOf 1 97) hworker⟩

end SpecterComs.MlsStore
