import SpecterComs.Library.ExceptBind
import SpecterComs.Model.MlsStore.Accounts
import SpecterComs.Verification.MlsStore.SaveLoad

/-! # What can stand in the files

A property of the bytes of every file that torn writes have and that a save's blob has
is kept by the save, wherever it stops. A load takes its state from one of the files
and changes nothing but the cached key.
-/

namespace SpecterComs.MlsStore

open Prog

variable {aead : Aead} {secret : Option Bytes} {P : Bytes → Prop} {files : Files} {α : Type}

/-- The bytes of every file have `P`. -/
def Files.All (P : Bytes → Prop) (files : Files) : Prop :=
  ∀ slot file, files.get slot = some file → P file.data

/-- Bytes that no key opens have `P`. -/
def HoldsOfTorn (aead : Aead) (P : Bytes → Prop) : Prop :=
  ∀ bytes, (∀ key, decryptBlob aead key bytes = none) → P bytes

theorem Files.get_set (file : Option File) (slot other : Slot) :
    (files.set file slot).get other = if other = slot then file else files.get other := by
  cases slot <;> cases other <;> rfl

theorem Files.All.set (h : files.All P) (file : Option File)
    (hfile : ∀ f, file = some f → P f.data) (slot : Slot) : (files.set file slot).All P := by
  intro other f hf
  rw [Files.get_set] at hf
  split at hf
  · exact hfile f hf
  · exact h other f hf

theorem HoldsOfTorn.survive (hP : HoldsOfTorn aead P) {file : File} (hfile : P file.data)
    (left : Remains aead) : P (file.survive left).data := by
  obtain ⟨-, hdata | ⟨-, hdead⟩, -⟩ := survive_cases left file
  · rw [hdata]
    exact hfile
  · exact hP _ hdead

variable {blob : Bytes}

theorem HoldsOfTorn.left (hP : HoldsOfTorn aead P) (hblob : P blob) (left : Remains aead) :
    P (left.of blob) := by
  cases left with
  | none => exact hblob
  | some torn => exact hP _ torn.property

theorem HoldsOfTorn.all_survive (hP : HoldsOfTorn aead P) (h : files.All P) (crash : Crash aead) :
    (files.survive crash).All P := by
  intro slot f hf
  have hsurvive : ∃ (left : Remains aead) (file : File), files.get slot = some file ∧ f = file.survive left := by
    cases slot with
    | tmp =>
        obtain ⟨file, hfile, rfl⟩ := Option.map_eq_some_iff.mp hf
        exact ⟨crash.tmp, file, hfile, rfl⟩
    | bak =>
        obtain ⟨file, hfile, rfl⟩ := Option.map_eq_some_iff.mp hf
        exact ⟨crash.bak, file, hfile, rfl⟩
    | main =>
        obtain ⟨file, hfile, rfl⟩ := Option.map_eq_some_iff.mp hf
        exact ⟨crash.main, file, hfile, rfl⟩
  obtain ⟨left, file, hfile, rfl⟩ := hsurvive
  exact hP.survive (h slot file hfile) left

/-! ## Saves -/

theorem HoldsOfTorn.stable (hP : HoldsOfTorn aead P) : Stable aead (Files.All P) :=
  fun crash _ h => hP.all_survive h crash

theorem stageTmp_all (hP : HoldsOfTorn aead P) {before : Files} (hbefore : before.All P)
    (hblob : P blob) (fates : WriteFates aead) (writer : ℕ) :
    Keeps secret (Files.All P) (stageTmp fates before writer blob) := by
  have htmp : ∀ data, P data → ∀ synced files, Files.All P files →
      Files.All P { files with tmp := some ⟨data, synced, writer⟩ } := by
    intro data hdata synced files h
    refine Files.All.set h (some ⟨data, synced, writer⟩) ?_ .tmp
    intro f hf
    cases hf
    exact hdata
  have hleft (left : Remains aead) := htmp _ (hP.left hblob left) false
  refine (createTmp_keeps hP.stable hbefore (htmp _ (hP [] fun _ => rfl) false) _).bind fun _ => ?_
  refine (writeTmp_keeps hP.stable hbefore hleft _).bind fun _ => ?_
  exact fsyncTmp_triple hP.stable hbefore hleft (htmp _ hblob true) _

theorem keepBackup_all (hP : HoldsOfTorn aead P) (fates : WriteFates aead) :
    Keeps secret (Files.All P) (keepBackup fates) := by
  refine (plainStep_keeps hP.stable _ _).bind fun _ => Triple.get_bind fun s₀ hs₀ => ?_
  cases hmain : s₀.files.main with
  | none =>
      simp only [hmain]
      rintro s rfl
      exact hs₀
  | some m =>
      simp only [hmain]
      have hm : P m.data := hs₀.files .main m hmain
      have hcopy : Keeps secret (Files.All P) (copyMain s₀.files m fates.copy) := by
        refine copyMain_keeps hP.stable hs₀.files ?_ fates.copy
        intro left files h
        refine Files.All.set h (some ⟨left.of m.data, false, m.writer⟩) ?_ .bak
        intro f hf
        cases hf
        exact hP.left hm left
      have hsync : Keeps secret (Files.All P) (syncBak s₀.files fates.syncBak) := by
        refine syncBak_keeps hP.stable hs₀.files ?_ fates.syncBak
        intro files h
        refine Files.All.set h _ ?_ .bak
        intro f hf
        obtain ⟨bak, hbak, rfl⟩ := Option.map_eq_some_iff.mp hf
        exact h .bak bak hbak
      refine (hcopy.bind fun _ => hsync).weaken ?_ (fun _ _ h => h) (fun _ _ h => h)
      rintro s rfl
      exact hs₀

theorem writeAtomic_all (hP : HoldsOfTorn aead P) (hblob : P blob) (fates : WriteFates aead)
    (writer : ℕ) : Keeps secret (Files.All P) (writeAtomic fates writer blob) := by
  refine (plainStep_keeps hP.stable _ _).bind fun _ => Triple.get_bind fun s₀ hs₀ => ?_
  have hreplace : Keeps secret (Files.All P) (replaceMain fates) := by
    refine replaceMain_triple hP.stable (fun _ h => h) ?_ (fun _ h => h) fates
    intro files h
    have hrenamed := Files.All.set h files.tmp (fun f hf => h .tmp f hf) .main
    exact Files.All.set hrenamed none (fun f hf => by cases hf) .tmp
  refine ((stageTmp_all hP hs₀.files hblob fates writer).bind fun _ =>
    (keepBackup_all hP fates).bind fun _ => hreplace).weaken ?_ (fun _ _ h => h) (fun _ _ h => h)
  rintro s rfl
  exact hs₀

/-! ## Loads -/

/-- Nothing changed but the cached key, which is now the keyring's. -/
structure Opened (before after : Store) : Prop where
  files : after.files = before.files
  secret : after.secret = before.secret
  cache : ∀ key, after.cache = some key →
    before.cache = some key ∨ before.secret = some key.val

theorem Opened.refl (s : Store) : Opened s s :=
  ⟨rfl, rfl, fun _ h => Or.inl h⟩

/-- Where no key may be created, only the one in use is found. -/
theorem getKey_opens (fate : KeyringFate) (committed : Bool) (s₀ : Store) :
    Triple (fun s => s = s₀) (getKey fate committed none)
      (fun key s => Opened s₀ s ∧ (s₀.cache = some key ∨ s₀.secret = some key.val))
      (fun stop s => stop ≠ .crashed ∧ s = s₀) := by
  rintro ⟨files, secret, cache⟩ rfl
  obtain ⟨works, set, readBack⟩ := fate
  cases cache with
  | some key => exact ⟨Opened.refl _, Or.inl rfl⟩
  | none =>
      cases works with
      | false => exact ⟨(fun h => nomatch h), rfl⟩
      | true =>
          cases secret with
          | none => cases committed <;> exact ⟨(fun h => nomatch h), rfl⟩
          | some v =>
              by_cases hlength : v.length = 32
              · have hrun : (getKey ⟨true, set, readBack⟩ committed none).run.run
                    ⟨files, some v, none⟩ =
                      (.ok ⟨v, hlength⟩, ⟨files, some v, some ⟨v, hlength⟩⟩) := by
                  change ((if h : v.length = 32 then pure ⟨v, h⟩
                    else raise (.key (.corrupt v.length)) : Io Key) >>= fun key => do
                      modify fun s => { s with cache := some key }
                      pure key : Io Key).run.run _ = _
                  rw [dif_pos hlength]
                  rfl
                rw [hrun]
                refine ⟨⟨rfl, rfl, ?_⟩, Or.inr rfl⟩
                intro key hkey
                cases hkey
                exact Or.inr rfl
              · have hrun : (getKey ⟨true, set, readBack⟩ committed none).run.run
                    ⟨files, some v, none⟩ =
                      (.error (.error (.key (.corrupt v.length))), ⟨files, some v, none⟩) := by
                  change ((if h : v.length = 32 then pure ⟨v, h⟩
                    else raise (.key (.corrupt v.length)) : Io Key) >>= fun key => do
                      modify fun s => { s with cache := some key }
                      pure key : Io Key).run.run _ = _
                  rw [dif_neg hlength]
                  rfl
                rw [hrun]
                exact ⟨(fun h => nomatch h), rfl⟩

/-- The state is what one of the candidates opens to. -/
theorem tryCandidates_opens {key : Key} {cs : List Candidate} {plaintext : Bytes} {writer : ℕ}
    (h : tryCandidates aead key cs = .ok (plaintext, writer)) :
    ∃ c ∈ cs, ∃ file, c.file = some file ∧ decryptBlob aead key file.data = some plaintext ∧
      file.writer = writer := by
  induction cs with
  | nil => cases h
  | cons c cs ih =>
      have hrest : tryCandidates aead key cs = .ok (plaintext, writer) →
          ∃ c' ∈ c :: cs, ∃ file, c'.file = some file ∧
            decryptBlob aead key file.data = some plaintext ∧ file.writer = writer := by
        intro hcs
        obtain ⟨c', hc', hopen⟩ := ih hcs
        exact ⟨c', List.mem_cons_of_mem _ hc', hopen⟩
      unfold tryCandidates at h
      cases hfile : c.file with
      | none =>
          simp only [hfile] at h
          exact hrest h
      | some file =>
          simp only [hfile] at h
          split at h
          · cases hopen : decryptBlob aead key file.data with
            | some opened =>
                simp only [hopen] at h
                cases h
                exact ⟨c, List.mem_cons_self, file, hfile, hopen, rfl⟩
            | none =>
                simp only [hopen] at h
                exact hrest (Except.mapError_eq_ok.mp h)
          · exact hrest (Except.mapError_eq_ok.mp h)

/-- What a load that returns has read, from the directory and with the key of `s`. -/
def ReadFrom (aead : Aead) (s : Store) : Loaded → Prop
  | .fresh => True
  | .state plaintext writer => ∃ key : Key, (s.cache = some key ∨ s.secret = some key.val) ∧
      ∃ slot file, s.files.get slot = some file ∧
        decryptBlob aead key file.data = some plaintext ∧ file.writer = writer

theorem loadState_opens (aead : Aead) (fates : LoadFates) (s₀ : Store) :
    Triple (fun s => s = s₀) (loadState aead fates)
      (fun r s => Opened s₀ s ∧ ReadFrom aead s₀ r)
      (fun stop s => stop ≠ .crashed ∧ Opened s₀ s) := by
  unfold loadState
  split
  · rintro s rfl
    exact ⟨(fun h => by cases h), Opened.refl s⟩
  refine Triple.get_bind fun s₁ hs₁ => ?_
  subst hs₁
  dsimp only
  split
  · rintro s rfl
    exact ⟨Opened.refl s, trivial⟩
  · have hkey : Triple (fun s => s = s₁) (loadKey fates s₁.files.committed)
        (fun r s => Opened s₁ s ∧ ∀ key, r = some key →
          s₁.cache = some key ∨ s₁.secret = some key.val)
        (fun stop s => stop ≠ .crashed ∧ Opened s₁ s) := by
      refine Triple.tryCatch (F := fun stop s => stop ≠ .crashed ∧ s = s₁) ?_ fun stop => ?_
      · refine Triple.bind (Q := fun key s => Opened s₁ s ∧
          (s₁.cache = some key ∨ s₁.secret = some key.val)) (getKey_opens _ _ s₁) fun key => ?_
        rintro s ⟨hopened, hkey⟩
        refine ⟨hopened, ?_⟩
        intro key' hkey'
        cases hkey'
        exact hkey
      · by_cases hmissing : stop = .error (.key .missing) ∧ s₁.files.committed = false
        · simp only [if_pos hmissing]
          rintro s ⟨-, rfl⟩
          exact ⟨Opened.refl s, fun _ h => by cases h⟩
        · simp only [if_neg hmissing]
          rintro s ⟨hstop, rfl⟩
          exact ⟨hstop, Opened.refl s⟩
    refine Triple.bind hkey fun r => ?_
    rintro s ⟨hopened, hr⟩
    cases r with
    | none => exact ⟨hopened, trivial⟩
    | some key =>
        dsimp only
        cases htry : tryCandidates aead key (candidates s₁.files fates) with
        | ok found =>
            obtain ⟨plaintext, writer⟩ := found
            refine ⟨hopened, key, hr key rfl, ?_⟩
            obtain ⟨c, hc, file, hfile, hopen, hwriter⟩ := tryCandidates_opens htry
            simp only [candidates, List.mem_cons, List.not_mem_nil, or_false] at hc
            rcases hc with rfl | rfl | rfl
            · exact ⟨.tmp, file, hfile, hopen, hwriter⟩
            · exact ⟨.main, file, hfile, hopen, hwriter⟩
            · exact ⟨.bak, file, hfile, hopen, hwriter⟩
        | error failures =>
            cases s₁.files.committed with
            | true => exact ⟨(fun h => by cases h), hopened⟩
            | false => exact ⟨hopened, trivial⟩

end SpecterComs.MlsStore
