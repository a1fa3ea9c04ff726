import Mathlib.Data.List.Lemmas
import SpecterComs.Model.MlsStore

/-! # What the three files hold

A file is whole when it is the blob of the save that wrote it, under the keyring's
key. The main file is whole and synced whenever it is there; the temporary file is
whole or authenticates under no key.
-/

namespace SpecterComs.MlsStore

variable {aead : Aead} {secret : Option Bytes} {given : List Bytes} {lastOk : Option ℕ}
  {file : File} {files : Files}

/-- The file's bytes are the blob of the state its save was given. -/
def Whole (aead : Aead) (secret : Option Bytes) (given : List Bytes) (file : File) : Prop :=
  ∃ (key : Key) (nonce : Nonce) (plaintext : Bytes), secret = some key.val ∧
    given[file.writer]? = some plaintext ∧ encryptBlob aead key nonce plaintext = some file.data

def Dead (aead : Aead) (file : File) : Prop :=
  ∀ key, decryptBlob aead key file.data = none

theorem decryptBlob_encryptBlob {key : Key} {nonce : Nonce} {plaintext blob : Bytes}
    (h : encryptBlob aead key nonce plaintext = some blob) :
    decryptBlob aead key blob = some plaintext := by
  obtain ⟨ct, hct, rfl⟩ := Option.map_eq_some_iff.mp h
  have hlength := aead.length_encrypt hct
  unfold decryptBlob
  rw [if_neg, List.take_left' nonce.property, List.drop_left' nonce.property]
  · exact aead.decrypt_encrypt hct
  · rw [List.length_append, nonce.property, hlength]
    omega

/-- Under the keyring's key a whole file opens to the state its save was given. -/
theorem Whole.decrypt (h : Whole aead secret given file) {key : Key}
    (hkey : secret = some key.val) :
    ∃ plaintext, given[file.writer]? = some plaintext ∧
      decryptBlob aead key file.data = some plaintext := by
  obtain ⟨key', nonce, plaintext, hkey', hgiven, hblob⟩ := h
  obtain rfl : key = key' := Subtype.ext (Option.some.inj (hkey.symm.trans hkey'))
  exact ⟨plaintext, hgiven, decryptBlob_encryptBlob hblob⟩

theorem Whole.not_dead (h : Whole aead secret given file) : ¬ Dead aead file := by
  intro hdead
  obtain ⟨key, nonce, plaintext, -, -, hblob⟩ := h
  have hopen := decryptBlob_encryptBlob hblob
  rw [hdead key] at hopen
  cases hopen

theorem Whole.writer_lt (h : Whole aead secret given file) : file.writer < given.length := by
  obtain ⟨_, _, _, _, hgiven, _⟩ := h
  exact (List.getElem?_eq_some_iff.mp hgiven).1

theorem Whole.append (h : Whole aead secret given file) (more : List Bytes) :
    Whole aead secret (given ++ more) file := by
  have hlt := h.writer_lt
  obtain ⟨key, nonce, plaintext, hkey, hgiven, hblob⟩ := h
  exact ⟨key, nonce, plaintext, hkey, by rw [List.getElem?_append_left hlt, hgiven], hblob⟩

variable {synced : Bool} {writer : ℕ}

/-- Truncated to nothing, a file authenticates under no key. -/
theorem dead_nil : Dead aead ⟨[], synced, writer⟩ :=
  fun _ => rfl

theorem dead_torn (torn : Torn aead) : Dead aead ⟨torn, synced, writer⟩ :=
  torn.property

/-! ## Crashes -/

/-- A crash leaves a synced file alone, and of another one its bytes or nothing that
authenticates. -/
theorem survive_cases (left : Remains aead) (file : File) :
    (file.survive left).writer = file.writer ∧
      ((file.survive left).data = file.data ∨ file.synced = false ∧ Dead aead (file.survive left)) ∧
      (file.synced = true → file.survive left = file) ∧ (file.survive left).synced = true := by
  unfold File.survive
  cases hsynced : file.synced with
  | true => simp [hsynced]
  | false =>
      cases left with
      | none => simp [Remains.of]
      | some torn =>
          refine ⟨rfl, Or.inr ⟨rfl, ?_⟩, by simp, rfl⟩
          exact dead_torn torn

variable {left : Remains aead}

theorem whole_of_survive (h : Whole aead secret given (file.survive left)) :
    Whole aead secret given file := by
  obtain ⟨hwriter, hdata | ⟨-, hdead⟩, -⟩ := survive_cases left file
  · obtain ⟨key, nonce, plaintext, hkey, hgiven, hblob⟩ := h
    exact ⟨key, nonce, plaintext, hkey, hwriter ▸ hgiven, hdata ▸ hblob⟩
  · exact absurd hdead h.not_dead

theorem whole_or_dead_survive (h : Whole aead secret given file ∨ Dead aead file) :
    Whole aead secret given (file.survive left) ∨ Dead aead (file.survive left) := by
  obtain ⟨hwriter, hdata | ⟨-, hdead⟩, -⟩ := survive_cases left file
  · rcases h with ⟨key, nonce, plaintext, hkey, hgiven, hblob⟩ | hdead
    · exact Or.inl ⟨key, nonce, plaintext, hkey, hwriter.symm ▸ hgiven, hdata.symm ▸ hblob⟩
    · refine Or.inr fun key => ?_
      rw [hdata]
      exact hdead key
  · exact Or.inr hdead

/-! ## The directory invariant -/

/-- What every directory holds, the one in use and those a crash may fall back to. -/
structure FilesOk (aead : Aead) (secret : Option Bytes) (given : List Bytes)
    (lastOk : Option ℕ) (files : Files) : Prop where
  main : ∀ f, files.main = some f → f.synced = true ∧ Whole aead secret given f
  tmp : ∀ f, files.tmp = some f → Whole aead secret given f ∨ Dead aead f
  bak : files.main = none → files.bak = none
  /-- Nothing is staged before the keyring has its key. -/
  keyed : ∀ f, files.tmp = some f → ∃ key : Key, secret = some key.val
  /-- A temporary file that authenticates is the newest write. -/
  newer : ∀ f, files.tmp = some f → Whole aead secret given f →
    (∀ m, files.main = some m → m.writer ≤ f.writer)
  /-- The last save that returned `Ok` is in the main file, or a newer one is. -/
  kept : ∀ n, lastOk = some n → ∃ m, files.main = some m ∧ n ≤ m.writer

theorem filesOk_empty : FilesOk aead secret given none ⟨none, none, none⟩ := by
  constructor <;> simp

theorem FilesOk.append (h : FilesOk aead secret given lastOk files) (more : List Bytes) :
    FilesOk aead secret (given ++ more) lastOk files := by
  refine ⟨?_, ?_, h.bak, h.keyed, ?_, h.kept⟩
  · intro f hf
    exact ⟨(h.main f hf).1, (h.main f hf).2.append more⟩
  · intro f hf
    exact (h.tmp f hf).imp_left fun hw => hw.append more
  · intro f hf hwhole
    rcases h.tmp f hf with hold | hdead
    · exact h.newer f hf hold
    · exact absurd hdead hwhole.not_dead

/-- The keyring gets its key while the directory is empty. -/
theorem FilesOk.mint (h : FilesOk aead none given lastOk files) (secret : Option Bytes) :
    FilesOk aead secret given lastOk files := by
  have hmain : ∀ f, files.main ≠ some f := by
    intro f hf
    obtain ⟨key, nonce, plaintext, hkey, -⟩ := (h.main f hf).2
    cases hkey
  have htmp : ∀ f, files.tmp ≠ some f := by
    intro f hf
    obtain ⟨key, hkey⟩ := h.keyed f hf
    cases hkey
  exact ⟨fun f hf => absurd hf (hmain f), fun f hf => absurd hf (htmp f), h.bak,
    fun f hf => absurd hf (htmp f), fun f hf => absurd hf (htmp f), h.kept⟩

/-- The main file is synced, so a crash leaves it as it is. -/
theorem FilesOk.main_survive (h : FilesOk aead secret given lastOk files) (crash : Crash aead) :
    (files.survive crash).main = files.main := by
  unfold Files.survive
  cases hm : files.main with
  | none => rfl
  | some m =>
      simp only [Option.map_some]
      rw [(survive_cases crash.main m).2.2.1 (h.main m hm).1]

theorem FilesOk.survive (h : FilesOk aead secret given lastOk files) (crash : Crash aead) :
    FilesOk aead secret given lastOk (files.survive crash) := by
  have hmain := h.main_survive crash
  refine ⟨?_, ?_, ?_, ?_, ?_, ?_⟩
  · rw [hmain]
    exact h.main
  · intro f hf
    obtain ⟨t, ht, rfl⟩ := Option.map_eq_some_iff.mp hf
    exact whole_or_dead_survive (h.tmp t ht)
  · rw [hmain]
    intro hnone
    simp [Files.survive, h.bak hnone]
  · intro f hf
    obtain ⟨t, ht, rfl⟩ := Option.map_eq_some_iff.mp hf
    exact h.keyed t ht
  · intro f hf hwhole
    obtain ⟨t, ht, rfl⟩ := Option.map_eq_some_iff.mp hf
    rw [hmain, (survive_cases crash.tmp t).1]
    exact h.newer t ht (whole_of_survive hwhole)
  · rw [hmain]
    exact h.kept

/-! ## The writes of a save -/

theorem whole_or_dead_left {blob : Bytes} (h : Whole aead secret given ⟨blob, true, writer⟩)
    (left : Remains aead) :
    Whole aead secret given ⟨left.of blob, synced, writer⟩ ∨
      Dead aead ⟨left.of blob, synced, writer⟩ := by
  cases left with
  | none => exact Or.inl h
  | some torn => exact Or.inr (dead_torn torn)

/-- The newest save may write anything to the temporary file that is its blob or dead. -/
theorem FilesOk.setTmp (h : FilesOk aead secret given lastOk files)
    (hfile : Whole aead secret given file ∨ Dead aead file)
    (hkey : ∃ key : Key, secret = some key.val) (hlast : given.length = file.writer + 1) :
    FilesOk aead secret given lastOk { files with tmp := some file } := by
  refine ⟨h.main, ?_, h.bak, fun _ _ => hkey, ?_, h.kept⟩
  · intro f hf
    cases hf
    exact hfile
  · intro f hf _ m hm
    cases hf
    have := (h.main m hm).2.writer_lt
    omega

theorem FilesOk.setBak (h : FilesOk aead secret given lastOk files) {m : File}
    (hm : files.main = some m) (bak : Option File) :
    FilesOk aead secret given lastOk { files with bak := bak } := by
  refine ⟨h.main, h.tmp, ?_, h.keyed, h.newer, h.kept⟩
  intro hnone
  rw [hm] at hnone
  cases hnone

theorem filesOk_rename (htmp : files.tmp = some file) (hsynced : file.synced = true)
    (hwhole : Whole aead secret given file) :
    FilesOk aead secret given (some file.writer) { files with main := files.tmp, tmp := none } := by
  refine ⟨?_, ?_, ?_, ?_, ?_, ?_⟩
  · intro f hf
    rw [htmp] at hf
    cases hf
    exact ⟨hsynced, hwhole⟩
  · intro f hf
    cases hf
  · intro hnone
    rw [htmp] at hnone
    cases hnone
  · intro f hf
    cases hf
  · intro f hf
    cases hf
  · intro n hn
    cases hn
    exact ⟨file, htmp, Nat.le_refl _⟩

/-- A state newer than the last one that returned is as good. -/
theorem FilesOk.older {n : ℕ} (h : FilesOk aead secret given (some n) files)
    (hle : ∀ k, lastOk = some k → k ≤ n) : FilesOk aead secret given lastOk files := by
  refine ⟨h.main, h.tmp, h.bak, h.keyed, h.newer, ?_⟩
  intro k hk
  obtain ⟨m, hm, hnm⟩ := h.kept n rfl
  exact ⟨m, hm, (hle k hk).trans hnm⟩

end SpecterComs.MlsStore
