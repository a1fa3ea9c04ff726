import SpecterComs.Verification.MlsStore.Write

/-! # Saves and loads -/

namespace SpecterComs.MlsStore

open Prog

variable {aead : Aead} {given : List Bytes} {lastOk : Option ℕ}
  {G : Option Bytes → Files → Prop} {files : Files} {P : Store → Prop}

/-- The directory is good for the keyring entry, and the cached key is the keyring's. -/
structure Good (G : Option Bytes → Files → Prop) (s : Store) : Prop where
  files : G s.secret s.files
  cache : ∀ key, s.cache = some key → s.secret = some key.val

variable {s : Store}

theorem Good.holding (h : Good G s) : Holding s.secret (G s.secret) s :=
  ⟨h.files, rfl, h.cache⟩

variable {secret : Option Bytes}

theorem Holding.good (h : Holding secret (G secret) s) : Good G s := by
  obtain ⟨hfiles, rfl, hcache⟩ := h
  exact ⟨hfiles, hcache⟩

/-! ## Keys -/

theorem keyringGet_triple (works : Bool) :
    Triple P (keyringGet works) (fun v s => P s ∧ v = s.secret)
      (fun _ s => P s ∧ works = false) := by
  intro s hs
  cases works with
  | true => exact ⟨hs, rfl⟩
  | false => exact ⟨hs, rfl⟩

/-- The entry is only set when there was none, so nothing was encrypted yet. -/
theorem keyringSet_triple (files : Files)
    (hmint : ∀ secret files, G none files → G secret files) (fate : Bool × Bool)
    (secret : Bytes) :
    Triple (fun s => Good G s ∧ s.files = files ∧ s.secret = none) (keyringSet fate secret)
      (fun _ s => Good G s ∧ s.files = files) (fun _ s => Good G s ∧ s.files = files) := by
  rintro s ⟨hs, hfiles, hsecret⟩
  have hset : Good G { s with secret := some secret } := by
    refine ⟨hmint _ _ (hsecret ▸ hs.files), ?_⟩
    intro key hkey
    have := hs.cache key hkey
    rw [hsecret] at this
    cases this
  obtain ⟨reports, keeps⟩ := fate
  cases keeps <;> cases reports
  · exact ⟨hs, hfiles⟩
  · exact ⟨hs, hfiles⟩
  · exact ⟨hset, hfiles⟩
  · exact ⟨hset, hfiles⟩

theorem resolveKey_triple (hmint : ∀ secret files, G none files → G secret files)
    (fate : KeyringFate) (committed : Bool) (create : Option Key) :
    Triple (fun s => Good G s ∧ s.files = files) (resolveKey fate committed create)
      (fun key s => (Good G s ∧ s.files = files) ∧ s.secret = some key.val)
      (fun _ s => Good G s ∧ s.files = files) := by
  have hget := keyringGet_triple (P := fun s => Good G s ∧ s.files = files) fate.get
  refine Triple.bind (hget.weaken (fun _ h => h) (fun _ _ h => h) fun _ _ h => h.1) fun v => ?_
  cases v with
  | some v =>
      rintro s ⟨hs, hv⟩
      by_cases hlength : v.length = 32
      · simp only [hlength]
        exact ⟨hs, hv.symm⟩
      · simp only [hlength]
        exact hs
  | none =>
      cases committed with
      | true => exact fun s hs => hs.1
      | false =>
          cases create with
          | none => exact fun s hs => hs.1
          | some fresh =>
              have hset := keyringSet_triple files hmint fate.set fresh.val
              refine Triple.bind (hset.weaken ?_ (fun _ _ h => h) fun _ _ h => h) fun _ => ?_
              · exact fun s hs => ⟨hs.1.1, hs.1.2, hs.2.symm⟩
              · have hback := keyringGet_triple (P := fun s => Good G s ∧ s.files = files)
                  fate.readBack
                refine Triple.bind (hback.weaken (fun _ h => h) (fun _ _ h => h)
                  fun _ _ h => h.1) fun kept => ?_
                rintro s ⟨hs, hkept⟩
                by_cases hsame : kept = some fresh.val
                · simp only [hsame, if_true]
                  exact ⟨hs, by rw [← hkept, hsame]⟩
                · simp only [hsame, if_false]
                  exact hs

theorem getKey_triple (files : Files)
    (hmint : ∀ secret files, G none files → G secret files) (fate : KeyringFate)
    (committed : Bool) (create : Option Key) :
    Triple (fun s => Good G s ∧ s.files = files) (getKey fate committed create)
      (fun key s => (Good G s ∧ s.files = files) ∧ s.secret = some key.val)
      (fun _ s => Good G s ∧ s.files = files) := by
  refine Triple.get_bind fun s₀ hs₀ => ?_
  cases hcache : s₀.cache with
  | some key =>
      dsimp only
      rintro s rfl
      exact ⟨hs₀, hs₀.1.cache key hcache⟩
  | none =>
      dsimp only
      refine Triple.bind ((resolveKey_triple hmint fate committed create).weaken ?_
        (fun _ _ h => h) fun _ _ h => h) fun key => ?_
      · rintro s rfl
        exact hs₀
      · rintro s ⟨⟨hs, hfiles⟩, hsecret⟩
        refine ⟨⟨⟨hs.files, ?_⟩, hfiles⟩, hsecret⟩
        intro key' hkey'
        cases hkey'
        exact hsecret

/-! ## Saves -/

/-- A save resolves the key and writes. It keeps what the key's creation and the write
keep, and if it returns, what the write leaves. -/
theorem saveState_triple_of_write {R : Files → Prop} (writer : ℕ) (save : Save aead)
    (hmint : ∀ secret files, G none files → G secret files)
    (hwrite : ∀ (key : Key) blob, encryptBlob aead key save.nonce save.plaintext = some blob →
      Triple (Holding (some key.val) (G (some key.val))) (writeAtomic save.write writer blob)
        (fun _ => Holding (some key.val) fun files => G (some key.val) files ∧ R files)
        (fun _ => Holding (some key.val) (G (some key.val)))) :
    Triple (Good G) (saveState save writer) (fun _ s => Good G s ∧ R s.files)
      (fun _ => Good G) := by
  refine Triple.get_bind fun s₀ hs₀ => ?_
  dsimp only
  split
  · rintro s rfl
    exact hs₀
  · have hkey := getKey_triple s₀.files hmint save.keyring
      (save.stateElsewhere || s₀.files.committed) (some save.fresh)
    refine Triple.bind (hkey.weaken ?_ (fun _ _ h => h) fun _ _ h => h.1) fun key => ?_
    · rintro s rfl
      exact ⟨hs₀, rfl⟩
    · cases hblob : encryptBlob aead key save.nonce save.plaintext with
      | none => exact fun s hs => hs.1.1
      | some blob =>
          refine (hwrite key blob hblob).weaken ?_ ?_ fun _ s hs => hs.good
          · rintro s ⟨⟨hs, -⟩, hsecret⟩
            have hholding := hs.holding
            rwa [hsecret] at hholding
          · intro _ s hs
            exact ⟨Holding.good ⟨hs.files.1, hs.keyring, hs.cache⟩, hs.files.2⟩

theorem saveState_triple (writer : ℕ) (save : Save aead)
    (hmint : ∀ secret files, G none files → G secret files)
    (hwrite : ∀ (key : Key) blob, encryptBlob aead key save.nonce save.plaintext = some blob →
      Writable aead (some key.val) given lastOk writer blob (G (some key.val)) ∧
        (Overwritable aead writer blob (G (some key.val)) ∨ save.write.cutShort = false)) :
    Triple (Good G) (saveState save writer)
      (fun _ s => Good G s ∧ ∃ m, s.files.main = some m ∧ m.writer = writer)
      (fun _ => Good G) := by
  refine saveState_triple_of_write (R := fun files => ∃ m, files.main = some m ∧ m.writer = writer)
    writer save hmint fun key blob hblob => ?_
  obtain ⟨hG, hstage⟩ := hwrite key blob hblob
  refine (writeAtomic_triple hG hstage).weaken (fun _ h => h) ?_ fun _ _ h => h
  intro _ s hs
  exact ⟨⟨hs.files.1, _, hs.files.2, rfl⟩, hs.keyring, hs.cache⟩

variable {Q : Files → Prop} {key : Key} {plaintext blob : Bytes}

/-- The directory invariant, with anything else a property `Q` says that the writes of
this save keep. -/
theorem filesOk_and_writable {nonce : Nonce} {writer : ℕ}
    (hblob : encryptBlob aead key nonce plaintext = some blob)
    (hgiven : given[writer]? = some plaintext) (hlast : given.length = writer + 1)
    (hstable : ∀ (crash : Crash aead) files, FilesOk aead (some key.val) given lastOk files → Q files → Q (files.survive crash))
    (hbak : ∀ bak files, Q files → Q { files with bak := bak })
    (hstaged : ∀ files, FilesOk aead (some key.val) given lastOk files → Q files → Q { files with tmp := some ⟨blob, true, writer⟩ })
    (hrenamed : ∀ files, FilesOk aead (some key.val) given lastOk files → files.tmp = some ⟨blob, true, writer⟩ → Q files → Q { files with main := files.tmp, tmp := none }) :
    Writable aead (some key.val) given lastOk writer blob
      fun files => FilesOk aead (some key.val) given lastOk files ∧ Q files := by
  have hwhole : Whole aead (some key.val) given ⟨blob, true, writer⟩ :=
    ⟨key, nonce, plaintext, rfl, hgiven, hblob⟩
  refine ⟨fun _ h => h.1, ?_, ?_, ?_, ?_⟩
  · rintro crash files ⟨hfiles, hQ⟩
    exact ⟨hfiles.survive crash, hstable crash files hfiles hQ⟩
  · rintro m bak files hm ⟨hfiles, hQ⟩
    exact ⟨hfiles.setBak hm bak, hbak bak files hQ⟩
  · rintro files ⟨hfiles, hQ⟩
    exact ⟨hfiles.setTmp (Or.inl hwhole) ⟨key, rfl⟩ hlast, hstaged files hfiles hQ⟩
  · rintro files ⟨hfiles, hQ⟩ htmp
    refine ⟨(filesOk_rename htmp rfl hwhole).older ?_, hrenamed files hfiles htmp hQ⟩
    intro k hk
    obtain ⟨m, hm, hle⟩ := hfiles.kept k hk
    have := (hfiles.main m hm).2.writer_lt
    dsimp only
    omega

/-- Where `Q` only speaks of the main file, the temporary file may hold anything. -/
theorem filesOk_and_overwritable {nonce : Nonce} {writer : ℕ}
    (hblob : encryptBlob aead key nonce plaintext = some blob)
    (hgiven : given[writer]? = some plaintext) (hlast : given.length = writer + 1)
    (htmp : ∀ tmp files, Q files → Q { files with tmp := tmp }) :
    Overwritable aead writer blob
      fun files => FilesOk aead (some key.val) given lastOk files ∧ Q files := by
  have hwhole : Whole aead (some key.val) given ⟨blob, true, writer⟩ :=
    ⟨key, nonce, plaintext, rfl, hgiven, hblob⟩
  constructor
  · rintro files ⟨hfiles, hQ⟩
    exact ⟨hfiles.setTmp (Or.inr dead_nil) ⟨key, rfl⟩ hlast, htmp _ files hQ⟩
  · rintro left files ⟨hfiles, hQ⟩
    exact ⟨hfiles.setTmp (whole_or_dead_left hwhole left) ⟨key, rfl⟩ hlast, htmp _ files hQ⟩

theorem FilesOk.returned {m : File} (h : FilesOk aead secret given lastOk files)
    (hm : files.main = some m) : FilesOk aead secret given (some m.writer) files := by
  refine ⟨h.main, h.tmp, h.bak, h.keyed, h.newer, ?_⟩
  intro n hn
  cases hn
  exact ⟨m, hm, Nat.le_refl _⟩

/-! ## Loads -/

/-- The file a load takes its state from: the temporary one if it is whole, else the
main one. -/
def IsSource (aead : Aead) (secret : Option Bytes) (given : List Bytes) (files : Files)
    (f : File) : Prop :=
  Whole aead secret given f ∧
    (files.tmp = some f ∨
      files.main = some f ∧ ∀ t, files.tmp = some t → ¬ Whole aead secret given t)

/-- Every file that is there can be read. -/
def LoadFates.reads (fates : LoadFates) : Bool :=
  fates.readTmp && fates.readMain && fates.readBak

theorem tryCandidates_cases (fates : LoadFates) (h : FilesOk aead secret given lastOk files)
    (hkey : secret = some key.val) (hreads : fates.reads = true) :
    (∃ plaintext f, tryCandidates aead key (candidates files fates) = .ok (plaintext, f.writer) ∧
      IsSource aead secret given files f ∧ given[f.writer]? = some plaintext) ∨
    (∃ failures, tryCandidates aead key (candidates files fates) = .error failures) ∧
      files.main = none := by
  obtain ⟨⟨htmp, hmain⟩, -⟩ : (fates.readTmp = true ∧ fates.readMain = true) ∧
      fates.readBak = true := by
    simpa [LoadFates.reads] using hreads
  by_cases hwhole : ∃ t, files.tmp = some t ∧ Whole aead secret given t
  · obtain ⟨t, ht, hwhole⟩ := hwhole
    obtain ⟨plaintext, hgiven, hopen⟩ := hwhole.decrypt hkey
    refine Or.inl ⟨plaintext, t, ?_, ⟨hwhole, Or.inl ht⟩, hgiven⟩
    simp [candidates, tryCandidates, ht, htmp, hopen]
  · -- the temporary file does not authenticate, so the main file decides
    have hnot : ∀ t, files.tmp = some t → ¬ Whole aead secret given t :=
      fun t ht hw => hwhole ⟨t, ht, hw⟩
    have hdead : ∀ t, files.tmp = some t → decryptBlob aead key t.data = none :=
      fun t ht => (h.tmp t ht).resolve_left (hnot t ht) key
    cases hm : files.main with
    | some m =>
        have hmwhole := (h.main m hm).2
        obtain ⟨plaintext, hgiven, hopen⟩ := hmwhole.decrypt hkey
        refine Or.inl ⟨plaintext, m, ?_, ⟨hmwhole, Or.inr ⟨hm, hnot⟩⟩, hgiven⟩
        cases ht : files.tmp with
        | none => simp [candidates, tryCandidates, ht, hm, hmain, hopen]
        | some t =>
            simp [candidates, tryCandidates, ht, hm, htmp, hmain, hopen, hdead t ht,
              Except.mapError]
    | none =>
        refine Or.inr ⟨?_, rfl⟩
        have hbak := h.bak hm
        cases ht : files.tmp with
        | none => exact ⟨[], by simp [candidates, tryCandidates, ht, hm, hbak]⟩
        | some t =>
            exact ⟨_, by simp [candidates, tryCandidates, ht, hm, hbak, htmp, hdead t ht,
              Except.mapError]; rfl⟩

theorem resolveKey_run (fate : KeyringFate) (committed : Bool) (hworks : fate.get = true)
    (hsecret : s.secret = some key.val) :
    (resolveKey fate committed none).run.run s = (.ok key, s) := by
  obtain ⟨works, set, readBack⟩ := fate
  obtain ⟨files, secret, cache⟩ := s
  subst hworks
  subst hsecret
  change ((if h : key.val.length = 32 then pure ⟨key.val, h⟩
    else raise (.key (.corrupt key.val.length)) : Io Key).run.run _) = _
  rw [dif_pos key.property]
  rfl

theorem loadKey_run {fates : LoadFates} {committed : Bool} (hcache : s.cache = none)
    (hworks : fates.keyring = true) (hsecret : s.secret = some key.val) :
    (loadKey fates committed).run.run s = (.ok (some key), { s with cache := some key }) := by
  have hresolve := resolveKey_run { get := fates.keyring } committed hworks hsecret
  obtain ⟨files, secret, cache⟩ := s
  subst hcache
  have hget : (getKey { get := fates.keyring } committed none).run.run ⟨files, secret, none⟩ =
      (.ok key, ⟨files, secret, some key⟩) := by
    change (resolveKey { get := fates.keyring } committed none >>= fun key => do
        modify fun s => { s with cache := some key }
        pure key : Io Key).run.run _ = _
    simp only [ExceptT.run_bind, StateT.run_bind, hresolve]
    rfl
  change (tryCatch (some <$> getKey { get := fates.keyring } committed none) _ :
    Io (Option Key)).run.run _ = _
  simp only [ExceptT.run_tryCatch, ExceptT.run_map, StateT.run_bind, StateT.run_map, hget]
  rfl

/-- A load finds the key the files were written under, unless the keyring fails. -/
theorem loadKey_triple (files : Files) (key : Key) (fates : LoadFates) (committed : Bool) :
    Triple (fun s => (Good G s ∧ s.files = files) ∧ s.secret = some key.val)
      (loadKey fates committed)
      (fun r s => (Good G s ∧ s.files = files) ∧ s.secret = some key.val ∧ r = some key)
      (fun _ s => (Good G s ∧ s.files = files) ∧ s.secret = some key.val ∧
        fates.keyring = false) := by
  rintro s ⟨⟨hs, hfiles⟩, hsecret⟩
  cases hcache : s.cache with
  | some key' =>
      obtain rfl : key' = key :=
        Subtype.ext (Option.some.inj ((hs.cache key' hcache).symm.trans hsecret))
      have hrun : (loadKey fates committed).run.run s = (.ok (some key'), s) := by
        obtain ⟨f, secret, cache⟩ := s
        subst hcache
        rfl
      rw [hrun]
      exact ⟨⟨hs, hfiles⟩, hsecret, rfl⟩
  | none =>
      cases hworks : fates.keyring with
      | false =>
          have hrun : (loadKey fates committed).run.run s =
              (.error (.error (.key .unavailable)), s) := by
            obtain ⟨f, secret, cache⟩ := s
            subst hcache
            rw [loadKey, hworks]
            rfl
          rw [hrun]
          exact ⟨⟨hs, hfiles⟩, hsecret, rfl⟩
      | true =>
          rw [loadKey_run hcache hworks hsecret]
          refine ⟨⟨⟨hs.files, ?_⟩, hfiles⟩, hsecret, rfl⟩
          intro key' hkey'
          cases hkey'
          exact hsecret

/-- What a load that can read every file returns. -/
def Returned (aead : Aead) (secret : Option Bytes) (given : List Bytes) (files : Files) :
    Loaded → Prop
  | .fresh => files.main = none
  | .state plaintext writer => ∃ f, IsSource aead secret given files f ∧ f.writer = writer ∧
      given[writer]? = some plaintext

/-- A load leaves the directory and the keyring alone. Where it can read the files it
only stops when a `stat` or the keyring fails. -/
theorem loadState_triple (aead : Aead) (fates : LoadFates) (s₀ : Store) :
    Triple (fun s => Good (FilesOk aead · given lastOk) s ∧ s = s₀)
      (loadState aead fates)
      (fun r s => (Good (FilesOk aead · given lastOk) s ∧ s.files = s₀.files) ∧
        s.secret = s₀.secret ∧ (fates.reads = true → Returned aead s.secret given s.files r))
      (fun _ s => (Good (FilesOk aead · given lastOk) s ∧ s.files = s₀.files) ∧
        s.secret = s₀.secret ∧
        (fates.reads = true → fates.stat = false ∨ fates.keyring = false)) := by
  unfold loadState
  split
  · rename_i hstat
    rintro s ⟨hs, rfl⟩
    exact ⟨⟨hs, rfl⟩, rfl, fun _ => Or.inl (by simpa using hstat)⟩
  refine Triple.get_bind fun s₁ hs₁ => ?_
  obtain ⟨hgood, rfl⟩ := hs₁
  dsimp only
  split
  · -- no file at all
    rename_i hempty
    rintro s rfl
    refine ⟨⟨hgood, rfl⟩, rfl, fun _ => ?_⟩
    have hnone : s.files.main = none := by
      have hcommitted := (Bool.and_eq_true_iff.mp hempty).1
      simp only [Files.committed, Bool.not_eq_true', Bool.or_eq_false_iff,
        Option.isSome_eq_false_iff, Option.isNone_iff_eq_none] at hcommitted
      exact hcommitted.1
    exact hnone
  · rename_i hsome
    have hkey : ∃ key : Key, s₁.secret = some key.val := by
      cases hm : s₁.files.main with
      | some m =>
          obtain ⟨key, _, _, hkey, -⟩ := (hgood.files.main m hm).2
          exact ⟨key, hkey⟩
      | none =>
          cases ht : s₁.files.tmp with
          | some t => exact hgood.files.keyed t ht
          | none => simp [Files.committed, hm, ht, hgood.files.bak hm] at hsome
    obtain ⟨key, hkey⟩ := hkey
    refine Triple.bind ((loadKey_triple (G := (FilesOk aead · given lastOk)) s₁.files key fates
      _).weaken ?_ (fun _ _ h => h) ?_) fun r => ?_
    · rintro s rfl
      exact ⟨⟨hgood, rfl⟩, hkey⟩
    · exact fun _ s hs => ⟨hs.1, hs.2.1.trans hkey.symm, fun _ => Or.inr hs.2.2⟩
    · rintro s ⟨hs, hsecret, rfl⟩
      have hcases := tryCandidates_cases fates hgood.files hkey
      rw [hkey, ← hsecret] at hcases
      dsimp only
      cases htry : tryCandidates aead key (candidates s₁.files fates) with
      | ok found =>
          obtain ⟨plaintext, writer⟩ := found
          refine ⟨hs, hsecret.trans hkey.symm, fun hreads => ?_⟩
          rcases hcases hreads with ⟨plaintext', f, hfound, hsource, hgiven⟩ | ⟨⟨_, herror⟩, -⟩
          · rw [htry] at hfound
            cases hfound
            exact ⟨f, hs.2.symm ▸ hsource, rfl, hgiven⟩
          · rw [htry] at herror
            cases herror
      | error failures =>
          have hnone : fates.reads = true → s₁.files.main = none := by
            intro hreads
            rcases hcases hreads with ⟨_, _, hfound, -⟩ | ⟨-, hnone⟩
            · rw [htry] at hfound
              cases hfound
            · exact hnone
          cases hcommitted : s₁.files.committed with
          | true =>
              refine ⟨hs, hsecret.trans hkey.symm, fun hreads => ?_⟩
              simp [Files.committed, hnone hreads, hgood.files.bak (hnone hreads)] at hcommitted
          | false => exact ⟨hs, hsecret.trans hkey.symm, fun hreads => hs.2 ▸ hnone hreads⟩

end SpecterComs.MlsStore
