import SpecterComs.Verification.MlsStore.Runs

/-! # When loads never go back

A state recovered from the temporary file stays there alone until the next save has
synced its own. A save cut short in between loses it.
-/

namespace SpecterComs.MlsStore

variable {aead : Aead} {w : World} {secret : Option Bytes} {given : List Bytes}
  {lastOk : Option ℕ} {files : Files} {loads : List ℕ}

def storeSystem (aead : Aead) : StepSystem World (Input aead) where
  step w i := some (w.step i)

/-- The main file is at least as new as every state a load has returned. -/
def MainKeeps (loads : List ℕ) (files : Files) : Prop :=
  ∀ l ∈ loads, ∃ m, files.main = some m ∧ l ≤ m.writer

/-- Where a step keeps every state that a load returned: a save that truncates the
temporary file and does not sync it finds them in the main file, and a load falls back
past no file and takes no state from a temporary file whose sync had failed. -/
def Safe (w : World) : Input aead → Prop
  | .save save => save.write.cutShort = true → MainKeeps w.loads w.store.files
  | .load fates => fates.reads = true ∧
      ∀ t, w.store.files.tmp = some t → t.synced = false → Dead aead t
  | .crash _ => True

/-- A state that was loaded is in the main file or, synced, in the temporary one. -/
def Kept (aead : Aead) (secret : Option Bytes) (given : List Bytes) (loads : List ℕ)
    (files : Files) : Prop :=
  ∀ l ∈ loads, (∃ m, files.main = some m ∧ l ≤ m.writer) ∨
    ∃ t, files.tmp = some t ∧ t.synced = true ∧ Whole aead secret given t ∧ l ≤ t.writer

theorem MainKeeps.kept (h : MainKeeps loads files) : Kept aead secret given loads files :=
  fun l hl => Or.inl (h l hl)

theorem Kept.append (h : Kept aead secret given loads files) (more : List Bytes) :
    Kept aead secret (given ++ more) loads files := by
  intro l hl
  rcases h l hl with hmain | ⟨t, ht, hsynced, hwhole, hle⟩
  · exact Or.inl hmain
  · exact Or.inr ⟨t, ht, hsynced, hwhole.append more, hle⟩

theorem Kept.survive (h : Kept aead secret given loads files)
    (hok : FilesOk aead secret given lastOk files) (crash : Crash aead) :
    Kept aead secret given loads (files.survive crash) := by
  intro l hl
  rcases h l hl with hmain | ⟨t, ht, hsynced, hwhole, hle⟩
  · rw [hok.main_survive crash]
    exact Or.inl hmain
  · refine Or.inr ⟨t, ?_, hsynced, hwhole, hle⟩
    simp [Files.survive, ht, (survive_cases crash.tmp t).2.2.1 hsynced]

/-- Every loaded state comes from a save already made. -/
theorem Kept.le_writer (h : Kept aead secret given loads files)
    (hok : FilesOk aead secret given lastOk files) {writer : ℕ}
    (hlast : given.length = writer + 1) {l : ℕ} (hl : l ∈ loads) : l ≤ writer := by
  rcases h l hl with ⟨m, hm, hle⟩ | ⟨t, -, -, hwhole, hle⟩
  · have := (hok.main m hm).2.writer_lt
    omega
  · have := hwhole.writer_lt
    omega

/-- While the main file keeps the loaded states, a save may be cut short anywhere. -/
theorem Kept.save_of_mainKeeps (h : WorldOk aead w) (save : Save aead)
    (hmain : MainKeeps w.loads w.store.files) :
    Kept aead (w.step (.save save)).store.secret (w.step (.save save)).given w.loads
      (w.step (.save save)).store.files := by
  obtain ⟨hgiven, hlast⟩ := given_last w.given save.plaintext
  refine (save_step (Q := fun _ files => MainKeeps w.loads files) h save hmain
    (fun _ _ _ _ hkeeps => hkeeps) ?_).2.kept
  intro key blob hblob
  refine ⟨filesOk_and_writable hblob hgiven hlast ?_ (fun _ _ hkeeps => hkeeps)
    (fun _ _ hkeeps => hkeeps) ?_, Or.inl (filesOk_and_overwritable hblob hgiven hlast
      fun _ _ hkeeps => hkeeps)⟩
  · intro crash files hok hkeeps
    unfold MainKeeps
    rw [hok.main_survive crash]
    exact hkeeps
  · intro files hok htmp hkeeps l hl
    have hkept : Kept aead (some key.val) (w.given ++ [save.plaintext]) w.loads files :=
      hkeeps.kept
    exact ⟨_, htmp, hkept.le_writer hok hlast hl⟩

/-- A save that is not cut short replaces the temporary file by a newer one. -/
theorem Kept.save_of_not_cutShort (h : WorldOk aead w) {save : Save aead}
    (hcut : save.write.cutShort = false)
    (hkept : Kept aead w.store.secret w.given w.loads w.store.files) :
    Kept aead (w.step (.save save)).store.secret (w.step (.save save)).given w.loads
      (w.step (.save save)).store.files := by
  obtain ⟨hgiven, hlast⟩ := given_last w.given save.plaintext
  refine (save_step (Q := fun secret files =>
    Kept aead secret (w.given ++ [save.plaintext]) w.loads files) h save (hkept.append _) ?_ ?_).2
  · intro secret files hmain htmp hnone l hl
    rcases hnone l hl with ⟨m, hm, -⟩ | ⟨t, ht, -⟩
    · rw [hmain] at hm
      cases hm
    · rw [htmp] at ht
      cases ht
  · intro key blob hblob
    refine ⟨filesOk_and_writable hblob hgiven hlast ?_ (fun _ _ hkept => hkept) ?_ ?_,
      Or.inr hcut⟩
    · exact fun crash files hok hkept => hkept.survive hok crash
    · intro files hok hkept l hl
      exact Or.inr ⟨_, rfl, rfl, ⟨key, save.nonce, save.plaintext, rfl, hgiven, hblob⟩,
        hkept.le_writer hok hlast hl⟩
    · intro files hok htmp hkept l hl
      exact Or.inl ⟨_, htmp, hkept.le_writer hok hlast hl⟩

/-- The file a load takes is at least as new as every state loaded before. -/
theorem Kept.le_source {f : File} (h : Kept aead secret given loads files)
    (hok : FilesOk aead secret given lastOk files) (hsource : IsSource aead secret given files f)
    {l : ℕ} (hl : l ∈ loads) : l ≤ f.writer := by
  rcases h l hl with ⟨m, hm, hle⟩ | ⟨t, ht, -, hwhole, hle⟩
  · exact hle.trans (source_newer hok hsource m hm)
  · obtain ⟨-, htmp | ⟨-, hnot⟩⟩ := hsource
    · rw [ht] at htmp
      cases htmp
      exact hle
    · exact absurd hwhole (hnot t ht)

/-- A state that was just loaded stands where a crash does not reach it. -/
theorem kept_source {f : File} (hsource : IsSource aead secret given files f)
    (hsynced : ∀ t, files.tmp = some t → t.synced = false → Dead aead t) :
    Kept aead secret given [f.writer] files := by
  intro l hl
  rw [List.mem_singleton] at hl
  subst hl
  obtain ⟨hwhole, htmp | ⟨hmain, -⟩⟩ := hsource
  · cases hs : f.synced with
    | true => exact Or.inr ⟨f, htmp, hs, hwhole, Nat.le_refl _⟩
    | false => exact absurd (hsynced f htmp hs) hwhole.not_dead
  · exact Or.inl ⟨f, hmain, Nat.le_refl _⟩

/-- The loads so far went forward, and none of their states is lost. -/
structure Forward (aead : Aead) (w : World) : Prop where
  ok : WorldOk aead w
  kept : Kept aead w.store.secret w.given w.loads w.store.files
  sorted : w.loads.Pairwise (· ≤ ·)

theorem forward_start (secret : Option Bytes) : Forward aead (World.start secret) :=
  ⟨worldOk_start secret, fun _ hl => absurd hl List.not_mem_nil, List.Pairwise.nil⟩

theorem Forward.save (h : Forward aead w) {save : Save aead} (hsafe : Safe w (.save save)) :
    Forward aead (w.step (.save save)) := by
  refine ⟨h.ok.save save, ?_, h.sorted⟩
  cases hcut : save.write.cutShort with
  | true => exact Kept.save_of_mainKeeps h.ok save (hsafe hcut)
  | false => exact Kept.save_of_not_cutShort h.ok hcut h.kept

theorem Forward.load (h : Forward aead w) {fates : LoadFates}
    (hsafe : Safe w (.load fates : Input aead)) :
    Forward aead (w.step (.load fates : Input aead)) := by
  obtain ⟨hok, hfiles, hsecret, hreturned, -⟩ := load_step h.ok fates
  obtain ⟨hreads, hsynced⟩ := hsafe
  have hloads : (w.step (.load fates : Input aead)).loads =
      w.loads ++ Loaded.writers ((loadState aead fates).run.run w.store).1 := rfl
  have hgiven : (w.step (.load fates : Input aead)).given = w.given := rfl
  have hnext : (∀ l ∈ Loaded.writers ((loadState aead fates).run.run w.store).1,
      ∃ f, IsSource aead w.store.secret w.given w.store.files f ∧ f.writer = l) ∧
        (Loaded.writers ((loadState aead fates).run.run w.store).1).Pairwise (· ≤ ·) := by
    cases hresult : ((loadState aead fates).run.run w.store).1 with
    | error e => simp [Loaded.writers]
    | ok r =>
        have hstate := hreturned hreads r hresult
        cases r with
        | fresh => simp [Loaded.writers]
        | state plaintext writer =>
            obtain ⟨f, hsource, rfl, -⟩ := hstate
            refine ⟨?_, List.pairwise_singleton _ _⟩
            intro l hl
            rw [Loaded.writers, List.mem_singleton] at hl
            exact ⟨f, hsource, hl.symm⟩
  obtain ⟨hsources, hsorted⟩ := hnext
  refine ⟨hok, ?_, ?_⟩
  · rw [hfiles, hsecret, hgiven, hloads]
    intro l hl
    rcases List.mem_append.mp hl with hold | hnew
    · exact h.kept l hold
    · obtain ⟨f, hsource, rfl⟩ := hsources l hnew
      exact kept_source hsource hsynced _ (List.mem_singleton_self _)
  · rw [hloads, List.pairwise_append]
    refine ⟨h.sorted, hsorted, ?_⟩
    intro l hl l' hl'
    obtain ⟨f, hsource, rfl⟩ := hsources l' hl'
    exact h.kept.le_source h.ok.files hsource hl

theorem Forward.step (h : Forward aead w) {i : Input aead} (hsafe : Safe w i) :
    Forward aead (w.step i) := by
  cases i with
  | save save => exact h.save hsafe
  | load fates => exact h.load hsafe
  | crash crash =>
      refine ⟨h.ok.step (.crash crash), ?_, h.sorted⟩
      have hrun := h.kept.survive h.ok.files crash
      simpa [World.step, Store.crash] using hrun

/-- In a run whose steps are all safe, no load returns a state older than an earlier
load did. -/
theorem loads_forward (secret : Option Bytes) {inputs : List (Input aead)}
    (h : (storeSystem aead).Guarded Safe (World.start secret) inputs w) :
    w.loads.Pairwise (· ≤ ·) := by
  refine (h.invariant (P := Forward aead) ?_ (forward_start secret)).sorted
  intro w i w' hforward hsafe hstep
  cases hstep
  exact hforward.step hsafe

/-! ## A state that goes back -/

/-- A cipher that only appends its tag. -/
def tagOnly : Aead where
  encrypt _ _ plaintext := some (plaintext ++ List.replicate 16 0)
  decrypt _ _ ct :=
    if ct.drop (ct.length - 16) = List.replicate 16 0 then some (ct.take (ct.length - 16))
    else none
  length_encrypt h := by
    cases h
    simp
  decrypt_encrypt h := by
    cases h
    simp

theorem length_nonce : (List.replicate 12 (7 : UInt8)).length = 12 := rfl

theorem length_fresh : (List.replicate 32 (1 : UInt8)).length = 32 := rfl

def saveOf (state : UInt8) (write : WriteFates tagOnly) : Save tagOnly where
  plaintext := [state]
  nonce := ⟨List.replicate 12 7, length_nonce⟩
  fresh := ⟨List.replicate 32 1, length_fresh⟩
  write := write

/-- The second save goes down after its temporary file was synced, the third one just
after it truncated that file. -/
def twoCrashes : List (Input tagOnly) :=
  [.save (saveOf 0 {}), .save (saveOf 1 { copy := .crashed {} }), .load {},
    .save (saveOf 2 { write := .crashed { tmp := some ⟨[], fun _ => rfl⟩ } }), .load {}]

/-- The first load returns the second state, the next one the first state. -/
theorem loads_go_back :
    ¬ ∀ (aead : Aead) (secret : Option Bytes) (inputs : List (Input aead)),
      (after (World.start secret) inputs).loads.Pairwise (· ≤ ·) := by
  intro h
  have hloads : (after (World.start none) twoCrashes).loads = [1, 0] := by decide
  have hpairwise := h tagOnly none twoCrashes
  rw [hloads] at hpairwise
  simp at hpairwise

/-- A crash after the sync is safe: its state is loaded, and the next save completes. -/
def oneCrash : List (Input tagOnly) :=
  [.save (saveOf 0 {}), .save (saveOf 1 { copy := .crashed {} }), .load {},
    .save (saveOf 2 {}), .load {}]

theorem loads_forward_one_crash :
    (after (World.start none) oneCrash).loads.Pairwise (· ≤ ·) := by
  have hguarded : (storeSystem tagOnly).Guarded Safe (World.start none) oneCrash
      (after (World.start none) oneCrash) := by
    refine .cons ?_ rfl (.cons ?_ rfl (.cons ?_ rfl (.cons ?_ rfl (.cons ?_ rfl (.nil _)))))
    · exact fun hcut => absurd hcut (by decide)
    · exact fun hcut => absurd hcut (by decide)
    · refine ⟨rfl, ?_⟩
      intro t ht hsynced
      cases ht
      cases hsynced
    · exact fun hcut => absurd hcut (by decide)
    · refine ⟨rfl, ?_⟩
      intro t ht hsynced
      cases ht
  exact loads_forward none hguarded

end SpecterComs.MlsStore
