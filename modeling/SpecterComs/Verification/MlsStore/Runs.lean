import SpecterComs.Library.StepSystem
import SpecterComs.Verification.MlsStore.SaveLoad

/-! # Runs of saves, loads and crashes -/

namespace SpecterComs.MlsStore

open Prog

variable {aead : Aead} {w : World}

/-- The directory is good for every state given so far and for the last save that
returned. -/
def WorldOk (aead : Aead) (w : World) : Prop :=
  Good (FilesOk aead · w.given w.lastOk) w.store

theorem worldOk_start (secret : Option Bytes) : WorldOk aead (World.start secret) :=
  ⟨filesOk_empty, fun _ hkey => by cases hkey⟩

theorem good_crash {G : Option Bytes → Files → Prop} {s : Store} (h : Good G s)
    (hG : Stable aead (G s.secret)) (crash : Crash aead) :
    Good G (s.crash s.files crash) :=
  (h.holding.crash hG h.files crash).good

theorem given_last (given : List Bytes) (plaintext : Bytes) :
    (given ++ [plaintext])[given.length]? = some plaintext ∧
      (given ++ [plaintext]).length = given.length + 1 := by
  simp

/-- A save keeps anything else `Q` says of the directory, as long as the writes of the
save keep it, and the save is not cut short where `Q` speaks of the temporary file. -/
theorem save_step {Q : Option Bytes → Files → Prop} (h : WorldOk aead w) (save : Save aead)
    (hQ : Q w.store.secret w.store.files)
    (hmint : ∀ secret files, files.main = none → files.tmp = none → Q none files →
      Q secret files)
    (hwrite : ∀ (key : Key) (blob : Bytes),
      encryptBlob aead key save.nonce save.plaintext = some blob →
      let G : Files → Prop := fun files =>
        FilesOk aead (some key.val) (w.given ++ [save.plaintext]) w.lastOk files ∧
          Q (some key.val) files
      Writable aead (some key.val) (w.given ++ [save.plaintext]) w.lastOk w.given.length blob G ∧
        (Overwritable aead w.given.length blob G ∨ save.write.cutShort = false)) :
    WorldOk aead (w.step (.save save)) ∧
      Q (w.step (.save save)).store.secret (w.step (.save save)).store.files := by
  let G : Option Bytes → Files → Prop := fun secret files =>
    FilesOk aead secret (w.given ++ [save.plaintext]) w.lastOk files ∧ Q secret files
  have hG : Good G w.store := ⟨⟨h.files.append _, hQ⟩, h.cache⟩
  have hGmint : ∀ secret files, G none files → G secret files := by
    rintro secret files ⟨hfiles, hnone⟩
    refine ⟨hfiles.mint secret, hmint secret files ?_ ?_ hnone⟩
    · cases hm : files.main with
      | none => rfl
      | some m =>
          obtain ⟨_, _, _, hkey, -⟩ := (hfiles.main m hm).2
          cases hkey
    · cases ht : files.tmp with
      | none => rfl
      | some t =>
          obtain ⟨_, hkey⟩ := hfiles.keyed t ht
          cases hkey
  have htriple := saveState_triple w.given.length save hGmint hwrite
  unfold WorldOk World.step
  dsimp only
  have hrun := htriple w.store hG
  revert hrun
  rcases (saveState save w.given.length).run.run w.store with ⟨result, s'⟩
  cases result with
  | error e => exact fun hs => ⟨⟨hs.files.1, hs.cache⟩, hs.files.2⟩
  | ok u =>
      rintro ⟨hs, m, hm, hwriter⟩
      refine ⟨⟨?_, hs.cache⟩, hs.files.2⟩
      rw [← hwriter]
      exact hs.files.1.returned hm

theorem WorldOk.save (h : WorldOk aead w) (save : Save aead) :
    WorldOk aead (w.step (.save save)) := by
  obtain ⟨hgiven, hlast⟩ := given_last w.given save.plaintext
  refine (save_step (Q := fun _ _ => True) h save trivial (fun _ _ _ _ _ => trivial) ?_).1
  intro key blob hblob
  exact ⟨filesOk_and_writable hblob hgiven hlast (fun _ _ _ _ => trivial) (fun _ _ _ => trivial)
      (fun _ _ _ => trivial) (fun _ _ _ _ => trivial),
    Or.inl (filesOk_and_overwritable hblob hgiven hlast fun _ _ _ => trivial)⟩

/-- What a load leaves, and what it returns when it can read the files. -/
theorem load_step (h : WorldOk aead w) (fates : LoadFates) :
    WorldOk aead (w.step (.load fates : Input aead)) ∧
      (w.step (.load fates : Input aead)).store.files = w.store.files ∧
      (w.step (.load fates : Input aead)).store.secret = w.store.secret ∧
      (fates.reads = true → ∀ r, ((loadState aead fates).run.run w.store).1 = .ok r →
        Returned aead w.store.secret w.given w.store.files r) ∧
      (fates.reads = true → fates.stat = true → fates.keyring = true →
        ∃ r, ((loadState aead fates).run.run w.store).1 = .ok r) := by
  have hrun := loadState_triple aead fates w.store w.store ⟨h, rfl⟩
  unfold WorldOk World.step
  dsimp only
  revert hrun
  rcases (loadState aead fates).run.run w.store with ⟨result, s'⟩
  cases result with
  | ok r =>
      rintro ⟨⟨hs, hfiles⟩, hsecret, hreturned⟩
      refine ⟨hs, hfiles, hsecret, ?_, fun _ _ _ => ⟨r, rfl⟩⟩
      intro hreads r' hr'
      cases hr'
      rw [← hfiles, ← hsecret]
      exact hreturned hreads
  | error e =>
      rintro ⟨⟨hs, hfiles⟩, hsecret, hstop⟩
      refine ⟨hs, hfiles, hsecret, (fun _ r hr => by cases hr), ?_⟩
      intro hreads hstat hkeyring
      rcases hstop hreads with hfail | hfail
      · rw [hstat] at hfail
        cases hfail
      · rw [hkeyring] at hfail
        cases hfail

theorem WorldOk.step (h : WorldOk aead w) (i : Input aead) : WorldOk aead (w.step i) := by
  cases i with
  | save save => exact h.save save
  | load fates => exact (load_step h fates).1
  | crash crash => exact good_crash h filesOk_stable crash

theorem worldOk_after (h : WorldOk aead w) (inputs : List (Input aead)) :
    WorldOk aead (after w inputs) := by
  induction inputs generalizing w with
  | nil => exact h
  | cons i inputs ih => exact ih (h.step i)

/-- The state a load takes is at least as new as the last save that returned. -/
theorem source_newer {secret : Option Bytes} {given : List Bytes} {lastOk : Option ℕ}
    {files : Files} {f : File} (h : FilesOk aead secret given lastOk files)
    (hsource : IsSource aead secret given files f) :
    ∀ m, files.main = some m → m.writer ≤ f.writer := by
  intro m hm
  obtain ⟨hwhole, htmp | ⟨hmain, -⟩⟩ := hsource
  · exact h.newer f htmp hwhole m hm
  · rw [hm] at hmain
    cases hmain
    exact Nat.le_refl _

/-- After any saves, loads and crashes, a load whose keyring and file reads work
returns the complete state of a save at least as new as the last one that returned
`Ok`, or finds nothing when none has. -/
theorem load_after_run (aead : Aead) (secret : Option Bytes) (inputs : List (Input aead)) :
    let w := after (World.start secret) inputs
    (∃ plaintext writer,
      ((loadState aead {}).run.run w.store).1 = .ok (.state plaintext writer) ∧
        w.given[writer]? = some plaintext ∧ ∀ n, w.lastOk = some n → n ≤ writer) ∨
      ((loadState aead {}).run.run w.store).1 = .ok .fresh ∧ w.lastOk = none := by
  intro w
  have hok : WorldOk aead w := worldOk_after (worldOk_start secret) inputs
  obtain ⟨-, -, -, hreturned, hreturns⟩ := load_step hok {}
  obtain ⟨r, hr⟩ := hreturns rfl rfl rfl
  have hstate := hreturned rfl r hr
  cases r with
  | fresh =>
      refine Or.inr ⟨hr, ?_⟩
      cases hlast : w.lastOk with
      | none => rfl
      | some n =>
          obtain ⟨m, hm, -⟩ := hok.files.kept n hlast
          rw [show w.store.files.main = none from hstate] at hm
          cases hm
  | state plaintext writer =>
      obtain ⟨f, hsource, rfl, hgiven⟩ := hstate
      refine Or.inl ⟨plaintext, f.writer, hr, hgiven, ?_⟩
      intro n hn
      obtain ⟨m, hm, hle⟩ := hok.files.kept n hn
      exact hle.trans (source_newer hok.files hsource m hm)

end SpecterComs.MlsStore
