import SpecterComs.Verification.MlsStore.Isolation

/-! # When a key is created

All accounts of the PC share the keyring's one key, so a new one over a committed state
leaves that state unreadable for good. What a save does to the keyring entry is said once,
for every answer of the keyring and the disk, by `Save.entryAfter`.
-/

namespace SpecterComs.MlsStore

open Prog

variable {aead : Aead} {α : Type}

/-! ## Refusals -/

/-- The answers of a call that went no further for want of a key, or because it could
not tell what is committed. An entry that the keyring did not keep is none of them. -/
def StoreError.refuses (keyringAnswers : Bool) : StoreError → Bool
  | .key .unavailable => !keyringAnswers
  | .key _ => true
  | .unreadable _ => true
  | .io what => what = "can't stat"

def Stop.refuses (keyringAnswers : Bool) : Stop → Bool
  | .error e => e.refuses keyringAnswers
  | .crashed => false

/-! ## The key of a save -/

/-- No key is there, and the keyring takes the one that is offered. -/
def KeyringFate.takesKey (fate : KeyringFate) (s : Store) : Bool :=
  s.cache.isNone && s.secret.isNone && fate.get && fate.set.2

/-- The keyring entry after the key of a save is asked for. -/
def KeyringFate.entryAfter (fate : KeyringFate) (committed : Bool) (fresh : Key) (s : Store) :
    Option Bytes :=
  if fate.takesKey s && !committed then some fresh.val else s.secret

/-- What a step leaves that only the keyring has a part in: the entry is `entry`, and
where the step refuses, it is the old one. -/
def KeyStep (s₀ : Store) (entry : Option Bytes) (answers : Bool) (stop : Stop) (s : Store) :
    Prop :=
  s.files = s₀.files ∧ s.secret = entry ∧ (stop.refuses answers = true → entry = s₀.secret)

/-- The entry that a creation leaves, whatever the keyring reports and reads back. -/
theorem create_entryAfter (fate : KeyringFate) (fresh : Key) {s₀ : Store}
    (hcache : s₀.cache = none) (hsecret : s₀.secret = none) (hget : fate.get = true) :
    Triple (fun s => s = s₀)
      (do
        keyringSet fate.set fresh
        let kept ← keyringGet fate.readBack
        if kept = some fresh.val then pure fresh else raise (.key .unavailable) : Io Key)
      (fun _ s => s.files = s₀.files ∧ s.secret = fate.entryAfter false fresh s₀)
      (KeyStep s₀ (fate.entryAfter false fresh s₀) fate.get) := by
  let P : Store → Prop :=
    fun s => s.files = s₀.files ∧ s.secret = fate.entryAfter false fresh s₀
  have hraise : ∀ s, P s →
      KeyStep s₀ (fate.entryAfter false fresh s₀) fate.get (.error (.key .unavailable)) s := by
    rintro s ⟨hfiles, hs⟩
    refine ⟨hfiles, hs, fun h => ?_⟩
    rw [hget] at h
    cases h
  have hset : Triple (fun s => s = s₀) (keyringSet fate.set fresh) (fun _ => P)
      (KeyStep s₀ (fate.entryAfter false fresh s₀) fate.get) := by
    rintro s rfl
    obtain ⟨works, ⟨reports, keeps⟩, readBack⟩ := fate
    obtain rfl : works = true := hget
    have hP : P (if keeps then { s with secret := some fresh.val } else s) := by
      cases keeps <;>
        simp [P, KeyringFate.entryAfter, KeyringFate.takesKey, hcache, hsecret]
    cases keeps <;> cases reports
    · exact hraise _ hP
    · exact hP
    · exact hraise _ hP
    · exact hP
  refine Triple.bind hset fun _ => ?_
  refine Triple.bind (Q := fun _ => P) ?_ fun kept => ?_
  · intro s hs
    cases fate.readBack with
    | true => exact hs
    | false => exact hraise s hs
  · intro s hs
    by_cases hsame : kept = some fresh.val
    · simp only [hsame, if_true]
      exact hs
    · simp only [hsame, if_false]
      exact hraise s hs

theorem resolveKey_entryAfter (fate : KeyringFate) (committed : Bool) (fresh : Key) {s₀ : Store}
    (hcache : s₀.cache = none) :
    Triple (fun s => s = s₀) (resolveKey fate committed (some fresh))
      (fun _ s => s.files = s₀.files ∧ s.secret = fate.entryAfter committed fresh s₀)
      (KeyStep s₀ (fate.entryAfter committed fresh s₀) fate.get) := by
  have hget : Triple (fun s => s = s₀) (keyringGet fate.get)
      (fun v s => (s = s₀ ∧ v = s₀.secret) ∧ fate.get = true)
      (KeyStep s₀ (fate.entryAfter committed fresh s₀) fate.get) := by
    rintro s rfl
    cases hworks : fate.get with
    | true => exact ⟨⟨rfl, rfl⟩, rfl⟩
    | false =>
        have hentry : fate.entryAfter committed fresh s = s.secret := by
          simp [KeyringFate.entryAfter, KeyringFate.takesKey, hworks]
        exact ⟨rfl, hentry.symm, fun _ => hentry⟩
  refine Triple.bind hget fun v => ?_
  rintro s ⟨⟨rfl, hv⟩, hworks⟩
  cases v with
  | some v =>
      have hentry : fate.entryAfter committed fresh s = s.secret := by
        simp [KeyringFate.entryAfter, KeyringFate.takesKey, ← hv]
      by_cases hlength : v.length = 32
      · simp only [hlength]
        exact ⟨rfl, hentry.symm⟩
      · simp only [hlength]
        exact ⟨rfl, hentry.symm, fun _ => hentry⟩
  | none =>
      cases committed with
      | true =>
          have hentry : fate.entryAfter true fresh s = s.secret := by
            simp [KeyringFate.entryAfter]
          exact ⟨rfl, hentry.symm, fun _ => hentry⟩
      | false => exact create_entryAfter fate fresh hcache hv.symm hworks s rfl

/-- A key is asked for while the files stand still; where it is refused, the keyring
entry stands still too. -/
theorem getKey_entryAfter (fate : KeyringFate) (committed : Bool) (fresh : Key) (s₀ : Store) :
    Triple (fun s => s = s₀) (getKey fate committed (some fresh))
      (fun _ s => s.files = s₀.files ∧ s.secret = fate.entryAfter committed fresh s₀)
      (KeyStep s₀ (fate.entryAfter committed fresh s₀) fate.get) := by
  refine Triple.get_bind fun s₁ hs₁ => ?_
  subst hs₁
  cases hcache : s₁.cache with
  | some key =>
      dsimp only
      rintro s rfl
      refine ⟨rfl, ?_⟩
      simp [KeyringFate.entryAfter, KeyringFate.takesKey, hcache]
  | none =>
      dsimp only
      refine Triple.bind (resolveKey_entryAfter fate committed fresh hcache) fun key => ?_
      exact fun s hs => hs

/-! ## Writes -/

/-- A step of the write: the keyring entry stands still, and no step refuses. -/
abbrev KeepsEntry (entry : Option Bytes) (answers : Bool) (m : Io α) : Prop :=
  Triple (fun s => s.secret = entry) m (fun _ s => s.secret = entry)
    (fun stop s => s.secret = entry ∧ stop.refuses answers = false)

variable {entry : Option Bytes} {answers : Bool}

theorem goDown_keepsEntry (before : Files) (crash : Crash aead) :
    KeepsEntry entry answers (goDown before crash : Io α) :=
  fun _ hs => ⟨hs, rfl⟩

theorem raise_keepsEntry {what : String} (hwhat : what ≠ "can't stat") :
    KeepsEntry entry answers (raise (.io what) : Io α) :=
  fun _ hs => ⟨hs, decide_eq_false hwhat⟩

theorem updateFiles_keepsEntry (f : Files → Files) : KeepsEntry entry answers (updateFiles f) :=
  fun _ hs => hs

theorem plainStep_keepsEntry {what : String} (hwhat : what ≠ "can't stat") (fate : Fate aead) :
    KeepsEntry entry answers (plainStep what fate) := by
  cases fate with
  | ok => exact fun _ hs => hs
  | failed left => exact raise_keepsEntry hwhat
  | crashed crash => exact fun _ hs => ⟨hs, rfl⟩

theorem stageTmp_keepsEntry (fates : WriteFates aead) (before : Files) (writer : ℕ)
    (blob : Bytes) : KeepsEntry entry answers (stageTmp fates before writer blob) := by
  have hcreate : KeepsEntry entry answers (createTmp before writer fates.create) := by
    cases fates.create with
    | ok => exact fun _ hs => hs
    | failed left => exact raise_keepsEntry (by decide)
    | crashed crash => exact (updateFiles_keepsEntry _).bind fun _ => goDown_keepsEntry _ _
  have hwrite : KeepsEntry entry answers (writeTmp before writer blob fates.write) := by
    cases fates.write with
    | ok => exact fun _ hs => hs
    | failed left => exact (updateFiles_keepsEntry _).bind fun _ => raise_keepsEntry (by decide)
    | crashed crash => exact (updateFiles_keepsEntry _).bind fun _ => goDown_keepsEntry _ _
  have hfsync : KeepsEntry entry answers (fsyncTmp before writer blob fates.fsync) := by
    cases fates.fsync with
    | ok => exact fun _ hs => hs
    | failed left => exact (updateFiles_keepsEntry _).bind fun _ => raise_keepsEntry (by decide)
    | crashed crash => exact goDown_keepsEntry _ _
  exact hcreate.bind fun _ => hwrite.bind fun _ => hfsync

theorem keepBackup_keepsEntry (fates : WriteFates aead) :
    KeepsEntry entry answers (keepBackup fates) := by
  refine (plainStep_keepsEntry (by decide) _).bind fun _ => Triple.get_bind fun s₀ hs₀ => ?_
  cases hmain : s₀.files.main with
  | none =>
      simp only [hmain]
      rintro s rfl
      exact hs₀
  | some m =>
      simp only [hmain]
      have hcopy : KeepsEntry entry answers (copyMain s₀.files m fates.copy) := by
        cases fates.copy with
        | ok => exact fun _ hs => hs
        | failed left =>
            exact (updateFiles_keepsEntry _).bind fun _ => raise_keepsEntry (by decide)
        | crashed crash => exact (updateFiles_keepsEntry _).bind fun _ => goDown_keepsEntry _ _
      have hsync : KeepsEntry entry answers (syncBak s₀.files fates.syncBak) := by
        cases fates.syncBak with
        | ok => exact fun _ hs => hs
        | failed left => exact fun _ hs => hs
        | crashed crash => exact goDown_keepsEntry _ _
      rintro s rfl
      exact (hcopy.bind fun _ => hsync) s hs₀

theorem replaceMain_keepsEntry (fates : WriteFates aead) :
    KeepsEntry entry answers (replaceMain fates) := by
  refine Triple.get_bind fun s₀ hs₀ => ?_
  have hrename : KeepsEntry entry answers (renameTmp s₀.files fates.rename) := by
    cases fates.rename with
    | ok => exact fun _ hs => hs
    | failed left => exact raise_keepsEntry (by decide)
    | crashed crash => exact (updateFiles_keepsEntry _).bind fun _ => goDown_keepsEntry _ _
  have hsync : KeepsEntry entry answers (syncDir s₀.files fates.syncDir) := by
    cases fates.syncDir with
    | ok => exact fun _ hs => hs
    | failed left => exact fun _ hs => hs
    | crashed crash => exact goDown_keepsEntry _ _
  rintro s rfl
  exact (hrename.bind fun _ => hsync) s hs₀

theorem writeAtomic_keepsEntry (fates : WriteFates aead) (writer : ℕ) (blob : Bytes) :
    KeepsEntry entry answers (writeAtomic fates writer blob) := by
  refine (plainStep_keepsEntry (by decide) _).bind fun _ => Triple.get_bind fun s₀ hs₀ => ?_
  rintro s rfl
  exact ((stageTmp_keepsEntry fates s.files writer blob).bind fun _ =>
    (keepBackup_keepsEntry fates).bind fun _ => replaceMain_keepsEntry fates) s hs₀

/-! ## Saves -/

/-- The keyring entry after a save. -/
def Save.entryAfter (save : Save aead) (s : Store) : Option Bytes :=
  if !save.stateElsewhere && !save.stat then s.secret
  else save.keyring.entryAfter (save.stateElsewhere || s.files.committed) save.fresh s

/-- A save leaves the entry `Save.entryAfter`; where it refuses, nothing has changed. -/
theorem saveState_entryAfter (save : Save aead) (writer : ℕ) (s₀ : Store) :
    Triple (fun s => s = s₀) (saveState save writer) (fun _ s => s.secret = save.entryAfter s₀)
      (fun stop s => s.secret = save.entryAfter s₀ ∧
        (stop.refuses save.keyring.get = true → s.secret = s₀.secret ∧ s.files = s₀.files)) := by
  refine Triple.get_bind fun s₁ hs₁ => ?_
  subst hs₁
  unfold Save.entryAfter
  dsimp only
  split
  · rintro s rfl
    exact ⟨rfl, fun _ => ⟨rfl, rfl⟩⟩
  · refine Triple.bind ((getKey_entryAfter save.keyring _ save.fresh s₁).weaken (fun _ h => h)
      (fun _ _ h => h) ?_) fun key => ?_
    · rintro stop s ⟨hfiles, hs, hrefuses⟩
      exact ⟨hs, fun h => ⟨hs.trans (hrefuses h), hfiles⟩⟩
    · cases encryptBlob aead key save.nonce save.plaintext with
      | none =>
          refine (@raise_keepsEntry Unit _ save.keyring.get _ (by decide)).weaken (fun _ h => h.2)
            (fun _ _ h => h) ?_
          rintro stop s ⟨hs, hstop⟩
          exact ⟨hs, fun h => by rw [hstop] at h; cases h⟩
      | some blob =>
          refine (@writeAtomic_keepsEntry aead _ save.keyring.get save.write writer blob).weaken
            (fun _ h => h.2) (fun _ _ h => h) ?_
          rintro stop s ⟨hs, hstop⟩
          exact ⟨hs, fun h => by rw [hstop] at h; cases h⟩

/-! ## What the scan sees -/

/-- The directories whose files `any_committed_state` looks at. -/
def SaveFates.scanned (fates : SaveFates aead) (pc : Pc) : List Dir :=
  .appData :: (pc.accounts.filter fates.lists).map .account

theorem anyCommitted_eq_ok_false {files : Dir → Files} {stat : Dir → Bool} {dirs : List Dir} :
    anyCommitted files stat dirs = .ok false ↔
      ∀ dir ∈ dirs, stat dir = true ∧ (files dir).committed = false := by
  induction dirs with
  | nil => simp [anyCommitted]
  | cons dir dirs ih =>
      rw [List.forall_mem_cons, ← ih]
      rw [anyCommitted]
      cases stat dir <;> cases (files dir).committed <;> simp

/-! ## Calls -/

/-- A save or a load of one account, under the lock. -/
inductive StateCall (aead : Aead)
  | save (user : String) (bytes : Bytes) (writer : ℕ) (fates : SaveFates aead)
  | load (dir : Dir) (left : Dir → Crash aead) (fates : LoadFates)

def StateCall.io : StateCall aead → PcIo Unit
  | .save user bytes writer fates => saveLocked user bytes writer fates
  | .load dir left fates => do
      let _ ← inDir dir left (loadState aead fates)

def StateCall.result (call : StateCall aead) (pc : Pc) : Except PcStop Unit :=
  (call.io.run.run pc).1

def StateCall.after (call : StateCall aead) (pc : Pc) : Pc :=
  (call.io.run.run pc).2

def StateCall.keyringAnswers : StateCall aead → Bool
  | .save _ _ _ fates => fates.keyring.get
  | .load _ _ fates => fates.keyring

def PcStop.refuses (keyringAnswers : Bool) : PcStop → Bool
  | .error (.store e) => e.refuses keyringAnswers
  | _ => false

/-- A key is only created where no state is committed, and a refused call changes
neither the keyring entry nor a file. -/
structure FailsClosed (call : StateCall aead) (pc : Pc) : Prop where
  created : (call.after pc).secret ≠ pc.secret → ∀ dir, (pc.files dir).committed = false
  refused : ∀ stop, call.result pc = .error stop → stop.refuses call.keyringAnswers = true →
    (call.after pc).secret = pc.secret ∧ (call.after pc).files = pc.files

/-- The save needs a key, and the keyring would take one. -/
def SaveFates.takesKey (fates : SaveFates aead) (pc : Pc) : Bool :=
  pc.cache.isNone && pc.secret.isNone && fates.keyring.get && fates.keyring.set.2

/-- One of the directories that the save looks at holds a committed state, or the save
cannot tell. -/
def SaveFates.Stops (fates : SaveFates aead) (user : String) (pc : Pc) : Prop :=
  (∃ dir ∈ fates.scanned pc, fates.statOther dir = false ∨ (pc.files dir).committed = true) ∨
    fates.stat = false ∨ (pc.files (.account user)).committed = true

/-- If a key could be created over a committed state, the save sees one or stops. -/
def StateCall.SeesCommitted : StateCall aead → Pc → Prop
  | .save user _ _ fates, pc =>
      fates.takesKey pc = true → (∃ dir, (pc.files dir).committed = true) → fates.Stops user pc
  | .load _ _ _, _ => True

/-! ## The entry after a save -/

variable {fates : SaveFates aead} {user : String} {bytes : Bytes} {pc : Pc}

/-- The keyring entry after a save of the account. -/
def SaveFates.entryAfter (fates : SaveFates aead) (user : String) (bytes : Bytes) (pc : Pc) :
    Option Bytes :=
  match if pc.cache.isNone then anyCommittedState fates pc else .ok false with
  | .error _ => pc.secret
  | .ok elsewhere => (fates.save bytes elsewhere).entryAfter (pc.store (.account user))

theorem entryAfter_of_stops (h : fates.Stops user pc) :
    fates.entryAfter user bytes pc = pc.secret := by
  unfold SaveFates.entryAfter
  cases hcache : pc.cache with
  | some key =>
      simp [Save.entryAfter, KeyringFate.entryAfter, KeyringFate.takesKey, SaveFates.save,
        Pc.store, hcache]
  | none =>
      simp only [Option.isNone_none, if_true]
      cases hscan : anyCommittedState fates pc with
      | error e => rfl
      | ok elsewhere =>
          cases elsewhere with
          | true => simp [Save.entryAfter, KeyringFate.entryAfter, SaveFates.save, Pc.store]
          | false =>
              -- the other directories are clear, so it is the account's own
              have hclear := anyCommitted_eq_ok_false.mp hscan
              rcases h with ⟨dir, hdir, hseen⟩ | hstat | hown
              · obtain ⟨hstat, hcommitted⟩ := hclear dir hdir
                rcases hseen with hseen | hseen
                · rw [hstat] at hseen
                  cases hseen
                · rw [hcommitted] at hseen
                  cases hseen
              · simp [Save.entryAfter, SaveFates.save, Pc.store, hstat]
              · simp [Save.entryAfter, KeyringFate.entryAfter, SaveFates.save, Pc.store, hown]

theorem entryAfter_of_not_stops (h : ¬ fates.Stops user pc) :
    fates.entryAfter user bytes pc =
      if fates.takesKey pc then some fates.fresh.val else pc.secret := by
  obtain ⟨hdirs, hstat, hown⟩ : (∀ dir ∈ fates.scanned pc, fates.statOther dir = true ∧
      (pc.files dir).committed = false) ∧ fates.stat = true ∧
      (pc.files (.account user)).committed = false := by
    unfold SaveFates.Stops at h
    grind
  have hscan : (if pc.cache.isNone then anyCommittedState fates pc else .ok false) =
      .ok false := by
    split
    · exact anyCommitted_eq_ok_false.mpr hdirs
    · rfl
  unfold SaveFates.entryAfter
  rw [hscan]
  simp [Save.entryAfter, KeyringFate.entryAfter, KeyringFate.takesKey, SaveFates.takesKey,
    SaveFates.save, Pc.store, hstat, hown]

/-- A save changes the entry where it needs a key and nothing stops it. -/
theorem entryAfter_ne_iff :
    fates.entryAfter user bytes pc ≠ pc.secret ↔
      fates.takesKey pc = true ∧ ¬ fates.Stops user pc := by
  by_cases hstops : fates.Stops user pc
  · simp [entryAfter_of_stops hstops, hstops]
  · rw [entryAfter_of_not_stops hstops]
    cases htakes : fates.takesKey pc with
    | false => simp
    | true =>
        have hsecret : pc.secret = none := by
          simp only [SaveFates.takesKey, Bool.and_eq_true, Option.isNone_iff_eq_none] at htakes
          exact htakes.1.1.2
        simp [hsecret, hstops]

/-- A save leaves the entry `SaveFates.entryAfter`; where it refuses, nothing has
changed. -/
theorem saveLocked_entryAfter (writer : ℕ) :
    Triple (fun s => s = pc) (saveLocked user bytes writer fates)
      (fun _ s => s.secret = fates.entryAfter user bytes pc)
      (fun stop s => s.secret = fates.entryAfter user bytes pc ∧
        (stop.refuses fates.keyring.get = true → s.secret = pc.secret ∧ s.files = pc.files)) := by
  refine Triple.get_bind fun pc₀ hpc₀ => ?_
  subst hpc₀
  unfold SaveFates.entryAfter
  cases hscan : (if pc₀.cache.isNone then anyCommittedState fates pc₀ else .ok false) with
  | error e =>
      rintro s rfl
      exact ⟨rfl, fun _ => ⟨rfl, rfl⟩⟩
  | ok elsewhere =>
      dsimp only
      let created := pc₀.createDir user
      refine Triple.bind (Q := fun _ s => s = created) ?_ fun _ => ?_
      · rintro s rfl
        exact rfl
      have hback : ∀ s : Store, s.files = (created.store (.account user)).files →
          (created.withStore (.account user) s).files = pc₀.files := by
        intro s hs
        simp only [Pc.withStore, hs]
        exact Function.update_eq_self _ _
      refine inDir_triple (fun pc hpc => (saveState_entryAfter (fates.save bytes elsewhere) writer
        (pc.store (.account user)))) ?_ ?_ ?_
      · rintro pc _ s rfl hs
        exact hs
      · rintro pc e s rfl ⟨hs, hrefuses⟩
        refine ⟨hs, fun h => ?_⟩
        obtain ⟨hsecret, hfiles⟩ := hrefuses h
        exact ⟨hsecret, hback s hfiles⟩
      · rintro pc s rfl ⟨hs, -⟩
        exact ⟨hs, fun h => by cases h⟩

/-! ## Every call -/

theorem StateCall.after_of_triple {call : StateCall aead} {R : Pc → Prop}
    (h : Triple (fun s => s = pc) call.io (fun _ => R) (fun _ => R)) : R (call.after pc) := by
  have hrun := h pc rfl
  unfold StateCall.after
  revert hrun
  rcases call.io.run.run pc with ⟨result, pc'⟩
  cases result with
  | ok a => exact fun h => h
  | error stop => exact fun h => h

/-- The load of a state changes neither the keyring nor a file, whatever it returns. -/
theorem load_unchanged (pc : Pc) (dir : Dir) (left : Dir → Crash aead) (fates : LoadFates) :
    ((StateCall.load dir left fates).after pc).secret = pc.secret ∧
      ((StateCall.load dir left fates).after pc).files = pc.files := by
  have hback : ∀ s, Opened (pc.store dir) s →
      (pc.withStore dir s).secret = pc.secret ∧ (pc.withStore dir s).files = pc.files := by
    intro s hs
    refine ⟨hs.secret, ?_⟩
    simp only [Pc.withStore, hs.files]
    exact Function.update_eq_self _ _
  apply StateCall.after_of_triple (R := fun s => s.secret = pc.secret ∧ s.files = pc.files)
  refine Triple.bind (Q := fun _ s => s.secret = pc.secret ∧ s.files = pc.files) ?_
    fun _ => pure_keeps
  refine inDir_triple (fun pc _ => loadState_opens aead fates (pc.store dir)) ?_ ?_ ?_
  · rintro pc' _ s rfl hs
    exact hback s hs.1
  · rintro pc' e s rfl hs
    exact hback s hs.2
  · rintro pc' s rfl hs
    exact absurd rfl hs.1

theorem save_secret (user : String) (bytes : Bytes) (writer : ℕ) (fates : SaveFates aead)
    (pc : Pc) :
    ((StateCall.save user bytes writer fates).after pc).secret =
      fates.entryAfter user bytes pc := by
  apply StateCall.after_of_triple (R := fun s => s.secret = fates.entryAfter user bytes pc)
  exact (saveLocked_entryAfter writer).weaken (fun _ h => h) (fun _ _ h => h) fun _ _ h => h.1

theorem save_refused {writer : ℕ} {stop : PcStop}
    (hresult : (StateCall.save user bytes writer fates).result pc = .error stop)
    (hrefuses : stop.refuses fates.keyring.get = true) :
    ((StateCall.save user bytes writer fates).after pc).secret = pc.secret ∧
      ((StateCall.save user bytes writer fates).after pc).files = pc.files :=
  ((saveLocked_entryAfter writer).stops rfl (Prod.ext hresult rfl)).2 hrefuses

/-- For every save and load, every answer of the disk and every answer of the keyring:
a call fails closed exactly where it sees one of the committed states before it would
create a key. An account directory that the scan cannot list counts as empty, so a
state that only stands there is not seen. -/
theorem failsClosed_iff (call : StateCall aead) (pc : Pc) :
    FailsClosed call pc ↔ call.SeesCommitted pc := by
  cases call with
  | load dir left fates =>
      obtain ⟨hsecret, hfiles⟩ := load_unchanged pc dir left fates
      constructor
      · exact fun _ => trivial
      · exact fun _ => ⟨fun h => absurd hsecret h, fun _ _ _ => ⟨hsecret, hfiles⟩⟩
  | save user bytes writer fates =>
      have hsecret := save_secret user bytes writer fates pc
      constructor
      · rintro hcloses htakes ⟨dir, hdir⟩
        by_contra hstops
        have hcreated := hcloses.created
          (by rw [hsecret]; exact entryAfter_ne_iff.mpr ⟨htakes, hstops⟩) dir
        rw [hdir] at hcreated
        cases hcreated
      · intro hsees
        refine ⟨fun hne dir => ?_, fun _ => save_refused⟩
        rw [hsecret] at hne
        obtain ⟨htakes, hstops⟩ := entryAfter_ne_iff.mp hne
        by_contra hdir
        exact hstops (hsees htakes ⟨dir, Bool.eq_true_of_not_eq_false hdir⟩)

/-- Account `b` has a committed state and the keyring has lost its key; `accounts/` can
be entered but not listed. -/
def lostKeyPc : Pc :=
  { emptyPc with
    files := Function.update emptyPc.files (.account "b") ⟨some ⟨stateOf 1 98, true, 0⟩, none, none⟩
    accounts := ["b"] }

/-- Account `a` saves there: the keyring gets a new key, which does not open the state
of account `b`. -/
theorem unlisted_state_gets_new_key :
    ¬ ∀ (call : StateCall tagOnly) (pc : Pc), FailsClosed call pc := by
  intro h
  have hcloses := h (.save "a" (stateOf 1 97) 0 { fatesOf {} with lists := fun _ => false }) lostKeyPc
  have hnone := hcloses.created (by decide) (.account "b")
  revert hnone
  decide

end SpecterComs.MlsStore
