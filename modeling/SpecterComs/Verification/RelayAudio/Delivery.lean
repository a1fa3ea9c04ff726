import SpecterComs.Verification.RelayAudio.Replay

/-! # Every authentic frame inside the window is delivered

The converse of replay protection: a number is refused only because the session
accepted it, or accepted one at least `replayWindow` above it.
-/

namespace SpecterComs.RelayAudio

/-- The call offers frame `seq` of session `key`: the tag verifies under the
session's key, and the timestamp is within the clock skew. -/
def Authentic (p : Primitives) (rx : ReceiverCore) (c : Call) (key : SessionKey) (seq : ℕ) :
    Prop :=
  ∃ parsed pt, parse c.frame = .ok parsed ∧ key = (c.ssrc, parsed.sessionId) ∧
    seq = parsed.seq ∧
    p.decrypt (rx.kdf.sessionCipher p rx.lane parsed.sessionId) (nonceFor parsed.seq)
      (aadFor parsed.header c.ssrc rx.lane) parsed.body = some pt ∧
    withinSkew parsed.tsMs c.nowMs = true

/-- The numbers of a session that a sequence of calls accepted. -/
def acceptedIn (p : Primitives) (rx : ReceiverCore) (calls : List Call) (key : SessionKey) :
    Set ℕ :=
  {seq | ∃ pre c post, calls = pre ++ c :: post ∧ Accepts p (after p rx pre) c key seq}

variable {p : Primitives} {rx rx₀ : ReceiverCore} {key k : SessionKey} {seq : ℕ}

theorem acceptedIn_nil : acceptedIn p rx [] key = ∅ := by
  ext s
  simp only [acceptedIn, Set.mem_ofPred_eq, Set.mem_empty_iff_false, iff_false]
  rintro ⟨pre, c, post, h, -⟩
  simp at h

variable {c : Call}

theorem mem_acceptedIn_append {calls : List Call} {s : ℕ} :
    s ∈ acceptedIn p rx (calls ++ [c]) key ↔
      s ∈ acceptedIn p rx calls key ∨ Accepts p (after p rx calls) c key s := by
  constructor
  · rintro ⟨pre, c', post, h, haccepts⟩
    rcases List.eq_nil_or_concat post with rfl | ⟨post, last, rfl⟩
    · obtain ⟨rfl, hc⟩ := List.append_inj' h rfl
      obtain rfl : c = c' := by simpa using hc
      exact Or.inr haccepts
    · rw [List.concat_eq_append, ← List.cons_append, ← List.append_assoc] at h
      obtain ⟨rfl, -⟩ := List.append_inj' h rfl
      exact Or.inl ⟨pre, c', post, rfl, haccepts⟩
  · rintro (⟨pre, c', post, rfl, haccepts⟩ | haccepts)
    · exact ⟨pre, c', post ++ [c], by simp, haccepts⟩
    · exact ⟨calls, c, [], rfl, haccepts⟩

/-! ## Session keys -/

/-- Secret and lane are those of `rx₀`, and every session holds its own key. -/
structure Keyed (p : Primitives) (rx₀ rx : ReceiverCore) : Prop where
  kdf : rx.kdf = rx₀.kdf
  lane : rx.lane = rx₀.lane
  cipher : ∀ k st, rx.sessions.lookup k = some st →
    st.cipher = rx₀.kdf.sessionCipher p rx₀.lane k.2

variable {rx' : ReceiverCore} {st : SessionState}

theorem Keyed.insert (h : Keyed p rx₀ rx)
    (hst : st.cipher = rx₀.kdf.sessionCipher p rx₀.lane key.2) (hkdf : rx'.kdf = rx.kdf)
    (hlane : rx'.lane = rx.lane) (hs : rx'.sessions = rx.sessions.insert key st) :
    Keyed p rx₀ rx' := by
  refine ⟨hkdf.trans h.kdf, hlane.trans h.lane, fun k st' hk => ?_⟩
  by_cases heq : k = key
  · subst heq
    rw [hs, AList.lookup_insert] at hk
    obtain rfl := Option.some.inj hk
    exact hst
  · rw [hs, AList.lookup_insert_ne heq] at hk
    exact h.cipher k st' hk

theorem Keyed.evictLru (h : Keyed p rx₀ rx) (onlySsrc : Option UInt32) :
    Keyed p rx₀ (ReceiverCore.evictLru p rx onlySsrc).1 := by
  unfold ReceiverCore.evictLru
  cases ReceiverCore.victim p rx onlySsrc with
  | none => exact h
  | some key =>
      simp only
      cases rx.sessions.lookup key with
      | none => exact h
      | some st =>
          refine ⟨h.kdf, h.lane, fun k st' hk => ?_⟩
          have hmem : k ∈ rx.sessions.erase key :=
            AList.lookup_isSome.mp (Option.isSome_of_eq_some hk)
          have hne : k ≠ key := (AList.mem_erase.mp hmem).1
          exact h.cipher k st' ((AList.lookup_erase_ne hne).symm.trans hk)

theorem Keyed.makeRoomFor (h : Keyed p rx₀ rx) (ssrc : UInt32) :
    Keyed p rx₀ (ReceiverCore.makeRoomFor p rx ssrc).1 :=
  ReceiverCore.makeRoomFor_induction (P := fun rx _ => Keyed p rx₀ rx)
    (fun _ _ onlySsrc h => h.evictLru onlySsrc) [] h ssrc

theorem Keyed.unretire (h : Keyed p rx₀ rx) : Keyed p rx₀ (rx.unretire key) := by
  unfold ReceiverCore.unretire
  split
  · exact ⟨h.kdf, h.lane, h.cipher⟩
  · exact h

theorem Keyed.run (h : Keyed p rx₀ rx) (c : Call) : Keyed p rx₀ (c.run p rx).core := by
  have htick : ∀ t, Keyed p rx₀ { rx with tick := t } := fun _ => ⟨h.kdf, h.lane, h.cipher⟩
  unfold Call.run ReceiverCore.openFrame
  cases parse c.frame with
  | error e => exact h
  | ok parsed =>
      simp only
      cases hlookup : rx.sessions.lookup (c.ssrc, parsed.sessionId) with
      | some st =>
          simp only
          split
          · exact htick _
          · split
            · exact htick _
            · split
              · refine (htick ((rx.tick + 1) % 2 ^ 64)).insert ?_ rfl rfl rfl
                exact h.cipher _ st hlookup
              · exact htick _
      | none =>
          simp only
          split
          · exact htick _
          · split
            · exact htick _
            · split
              · have hunretired : Keyed p rx₀ (ReceiverCore.unretire
                    { rx with tick := (rx.tick + 1) % 2 ^ 64 } (c.ssrc, parsed.sessionId)) :=
                  (htick _).unretire
                refine (hunretired.makeRoomFor c.ssrc).insert ?_ rfl rfl rfl
                rw [h.kdf, h.lane]
              · exact htick _

theorem Keyed.after (h : Keyed p rx₀ rx) (calls : List Call) :
    Keyed p rx₀ (RelayAudio.after p rx calls) := by
  induction calls generalizing rx with
  | nil => exact h
  | cons c calls ih => exact ih (h.run c)

theorem keyed_new {secret : Bytes} {lane : Lane}
    (h : ReceiverCore.new p secret lane = .ok rx) : Keyed p rx rx := by
  unfold ReceiverCore.new at h
  cases hkdf : GroupKdf.new p secret with
  | error e =>
      rw [hkdf] at h
      cases h
  | ok kdf =>
      rw [hkdf] at h
      cases h
      exact ⟨rfl, rfl, fun k st hk => by simp at hk⟩

/-! ## One authentic frame -/

/-- A tracked session answers every authentic frame its window does not refuse. -/
theorem Authentic.accepts_tracked (h : Authentic p rx₀ c key seq) (hkeyed : Keyed p rx₀ rx)
    (htracked : rx.sessions.lookup key = some st) (hnew : seq ∉ st.window.refused) :
    Accepts p rx c key seq := by
  obtain ⟨parsed, pt, hparse, rfl, rfl, hdecrypt, hskew⟩ := h
  refine ⟨parsed, pt, hparse, rfl, rfl, ?_⟩
  have hcheck : st.window.check parsed.seq = .ok () := ReplayWindow.check_eq_ok_iff.mpr hnew
  have hcipher : st.cipher = rx₀.kdf.sessionCipher p rx₀.lane parsed.sessionId :=
    hkeyed.cipher _ _ htracked
  rw [← hcipher, ← hkeyed.lane] at hdecrypt
  simp only [Call.run, ReceiverCore.openFrame, hparse, htracked, hcheck, hdecrypt, hskew, if_true]

variable {w : ReplayWindow}

/-- An unknown session answers every authentic frame its mark does not refuse. -/
theorem Authentic.accepts_unknown (h : Authentic p rx₀ c key seq) (hkeyed : Keyed p rx₀ rx)
    (hunknown : rx.sessions.lookup key = none) (hadmission : rx.admission key seq = .ok w) :
    Accepts p rx c key seq := by
  obtain ⟨parsed, pt, hparse, rfl, rfl, hdecrypt, hskew⟩ := h
  refine ⟨parsed, pt, hparse, rfl, rfl, ?_⟩
  have hadmission' : ∀ t, ReceiverCore.admission { rx with tick := t }
      (c.ssrc, parsed.sessionId) parsed.seq = .ok w := fun _ => hadmission
  rw [← hkeyed.lane, ← hkeyed.kdf] at hdecrypt
  simp only [Call.run, ReceiverCore.openFrame, hparse, hunknown, hadmission', hdecrypt, hskew,
    if_true]

/-! ## Numbers above every accepted one -/

/-- The highest number of every window and mark was accepted. -/
structure HighWater (accepted : SessionKey → Set ℕ) (rx : ReceiverCore) : Prop where
  live : ∀ k st, rx.sessions.lookup k = some st → st.window.highest ∈ accepted k
  mark : ∀ k highest, rx.retired.lookup k = some highest → highest ∈ accepted k

section HighWater

variable {accepted accepted' : SessionKey → Set ℕ}

theorem HighWater.evictLru (hinv : ReceiverCore.Inv rx) (h : HighWater accepted rx)
    (onlySsrc : Option UInt32) : HighWater accepted (ReceiverCore.evictLru p rx onlySsrc).1 := by
  rcases ReceiverCore.evictLru_cases (p := p) hinv onlySsrc with heq | ⟨victim, st, -, hev⟩
  · rwa [heq]
  · constructor
    · intro k st' hk
      rw [hev.sessions] at hk
      have hmem := AList.lookup_isSome.mp (Option.isSome_of_eq_some hk)
      rw [AList.lookup_erase_ne (AList.mem_erase.mp hmem).1] at hk
      exact h.live k st' hk
    · intro k highest hk
      rw [hev.retired] at hk
      split at hk
      · cases hk
      · split at hk
        · rename_i heq
          subst heq
          obtain rfl := Option.some.inj hk
          exact h.live _ st hev.tracked
        · exact h.mark k highest hk

theorem HighWater.makeRoomFor (hinv : ReceiverCore.Inv rx) (h : HighWater accepted rx)
    (ssrc : UInt32) : HighWater accepted (ReceiverCore.makeRoomFor p rx ssrc).1 :=
  (ReceiverCore.makeRoomFor_induction
    (P := fun rx _ => ReceiverCore.Inv rx ∧ HighWater accepted rx)
    (fun _ _ onlySsrc h => ⟨h.1.evictLru onlySsrc, h.2.evictLru h.1 onlySsrc⟩) [] ⟨hinv, h⟩ ssrc).2

theorem HighWater.unretire (h : HighWater accepted rx) : HighWater accepted (rx.unretire key) := by
  refine ⟨by simpa using h.live, fun k highest hk => ?_⟩
  by_cases heq : k = key
  · subst heq
    exact absurd (AList.lookup_isSome.mp (Option.isSome_of_eq_some hk))
      ReceiverCore.notMem_retired_unretire
  · rw [ReceiverCore.lookup_retired_unretire heq] at hk
    exact h.mark k highest hk

theorem HighWater.insert (h : HighWater accepted rx) (hst : st.window.highest ∈ accepted key)
    (hs : rx'.sessions = rx.sessions.insert key st) (hr : rx'.retired = rx.retired) :
    HighWater accepted rx' := by
  refine ⟨fun k st' hk => ?_, fun k highest hk => h.mark k highest (by rwa [hr] at hk)⟩
  by_cases heq : k = key
  · subst heq
    rw [hs, AList.lookup_insert] at hk
    obtain rfl := Option.some.inj hk
    exact hst
  · rw [hs, AList.lookup_insert_ne heq] at hk
    exact h.live k st' hk

theorem HighWater.mono (h : HighWater accepted rx) (hle : ∀ k, accepted k ⊆ accepted' k) :
    HighWater accepted' rx :=
  ⟨fun k st hk => hle k (h.live k st hk), fun k highest hk => hle k (h.mark k highest hk)⟩

/-- A new session starts at its first number or at its mark. -/
theorem highest_of_admission (h : rx.admission key seq = .ok w) :
    w.highest = seq ∨ rx.retired.lookup key = some w.highest := by
  unfold ReceiverCore.admission at h
  cases hmark : rx.retired.lookup key with
  | none =>
      rw [hmark] at h
      obtain rfl : ReplayWindow.fresh seq = w := Except.ok.inj h
      exact Or.inl rfl
  | some highest =>
      obtain ⟨rfl, -⟩ := admission_of_retired hmark h
      exact Or.inr rfl

/-- Accepting moves the highest number to the accepted one, or leaves it. -/
theorem highest_accept_mem {A : Set ℕ} {t : ℕ} (ht : t ∈ A) (hw : w.highest = t ∨ w.highest ∈ A) :
    (w.accept t).highest ∈ A := by
  rw [ReplayWindow.highest_accept]
  rcases le_total w.highest t with hle | hle
  · rwa [max_eq_right hle]
  · rw [max_eq_left hle]
    rcases hw with hw | hw
    · rwa [hw]
    · exact hw

theorem HighWater.run (hinv : ReceiverCore.Inv rx) (h : HighWater accepted rx) (c : Call)
    (hle : ∀ k, accepted k ⊆ accepted' k)
    (hnew : ∀ k s, Accepts p rx c k s → s ∈ accepted' k) :
    HighWater accepted' (c.run p rx).core := by
  have h' := h.mono hle
  rcases run_cases p rx c with hrefused | ⟨parsed, hparse, hcontinued | hadmitted⟩
  · exact ⟨by simpa [hrefused.sessions] using h'.live, by simpa [hrefused.retired] using h'.mark⟩
  · obtain ⟨st, st', htracked, -, hwindow, hsessions⟩ := hcontinued.window
    obtain ⟨pt, hresult⟩ := hcontinued.result
    have hmem := hnew _ _ ⟨parsed, pt, hparse, rfl, rfl, hresult⟩
    refine h'.insert ?_ hsessions hcontinued.retired
    rw [hwindow]
    exact highest_accept_mem hmem (Or.inr (h'.live _ st htracked))
  · obtain ⟨start, w, st, tick, hstart, hadmission, hwindow, hsessions, hretired, -⟩ :=
      hadmitted.room
    obtain ⟨pt, hresult⟩ := hadmitted.result
    have hmem := hnew _ _ ⟨parsed, pt, hparse, rfl, rfl, hresult⟩
    have hinv_start : ReceiverCore.Inv start := by
      rw [hstart]
      exact hinv.unretire.congr rfl rfl rfl
    have hwater : HighWater accepted' start := by
      rw [hstart]
      exact ⟨(h'.unretire).live, (h'.unretire).mark⟩
    refine (hwater.makeRoomFor hinv_start c.ssrc).insert ?_ hsessions hretired
    rw [hwindow]
    refine highest_accept_mem hmem ?_
    rcases highest_of_admission hadmission with heq | hmark
    · exact Or.inl heq
    · exact Or.inr (h'.mark _ _ hmark)

end HighWater

theorem highWater_after (hinv : ReceiverCore.Inv rx₀) (hempty : HighWater (fun _ => ∅) rx₀)
    (calls : List Call) : HighWater (acceptedIn p rx₀ calls) (after p rx₀ calls) := by
  induction calls using List.reverseRecOn with
  | nil => exact hempty.mono fun _ => Set.empty_subset _
  | append_singleton calls c ih =>
      rw [after_append]
      refine HighWater.run (inv_after hinv calls) ih c ?_ ?_
      · exact fun k s hs => mem_acceptedIn_append.mpr (Or.inl hs)
      · exact fun k s hs => mem_acceptedIn_append.mpr (Or.inr hs)

theorem highWater_new {secret : Bytes} {lane : Lane}
    (h : ReceiverCore.new p secret lane = .ok rx) : HighWater (fun _ => ∅) rx := by
  unfold ReceiverCore.new at h
  cases hkdf : GroupKdf.new p secret with
  | error e =>
      rw [hkdf] at h
      cases h
  | ok kdf =>
      rw [hkdf] at h
      cases h
      exact ⟨fun k st hk => by simp at hk, fun k highest hk => by simp at hk⟩

variable {accepted : SessionKey → Set ℕ}

/-- A number above every accepted one passes the window and the mark. -/
theorem Authentic.accepts_of_above (h : Authentic p rx₀ c key seq) (hkeyed : Keyed p rx₀ rx)
    (hwater : HighWater accepted rx) (habove : ∀ s ∈ accepted key, s < seq) : Accepts p rx c key seq := by
  cases htracked : rx.sessions.lookup key with
  | some st =>
      refine h.accepts_tracked hkeyed htracked fun hrefused => ?_
      have hle := ReplayWindow.le_highest_of_mem_refused hrefused
      exact absurd (habove _ (hwater.live key st htracked)) (Nat.not_lt.mpr hle)
  | none =>
      cases hmark : rx.retired.lookup key with
      | none =>
          refine h.accepts_unknown (w := ReplayWindow.fresh seq) hkeyed htracked ?_
          simp [ReceiverCore.admission, hmark]
      | some highest =>
          refine h.accepts_unknown (w := ReplayWindow.resumed highest) hkeyed htracked ?_
          have hlt : highest < seq := habove _ (hwater.mark key highest hmark)
          simp [ReceiverCore.admission, hmark, ReplayWindow.resumed, ReplayWindow.check, hlt,
            Except.map]

/-! ## A session that was never evicted -/

/-- The session is tracked, and its window refuses nothing but accepted numbers and
those at least `replayWindow` below one. -/
def Complete (accepted : Set ℕ) (rx : ReceiverCore) (key : SessionKey) : Prop :=
  ∃ st, rx.sessions.lookup key = some st ∧
    ∀ s ∈ st.window.refused, s ∈ accepted ∨ ∃ t ∈ accepted, s + replayWindow ≤ t

/-- A tracked session keeps its state unless it is evicted. -/
theorem tracked_makeRoomFor (hinv : ReceiverCore.Inv rx)
    (htracked : rx.sessions.lookup key = some st) (ssrc : UInt32)
    (hkept : key ∉ (ReceiverCore.makeRoomFor p rx ssrc).2) :
    (ReceiverCore.makeRoomFor p rx ssrc).1.sessions.lookup key = some st := by
  have hroom := ReceiverCore.makeRoomFor_induction (p := p)
    (P := fun rx evs => ReceiverCore.Inv rx ∧ (key ∉ evs → rx.sessions.lookup key = some st))
    ?_ [] ⟨hinv, fun _ => htracked⟩ ssrc
  · exact hroom.2 hkept
  · intro rx evs onlySsrc h
    refine ⟨h.1.evictLru onlySsrc, fun hkept => ?_⟩
    rw [List.mem_append, not_or] at hkept
    rcases ReceiverCore.evictLru_cases (p := p) h.1 onlySsrc with heq | ⟨victim, st', hkeys, hev⟩
    · rw [heq]
      exact h.2 hkept.1
    · have hne : key ≠ victim := by
        rintro rfl
        exact hkept.2 (by simp [hkeys])
      rw [hev.sessions, AList.lookup_erase_ne hne]
      exact h.2 hkept.1

/-- Accepting `t` refuses `t` and what falls out of the window, and nothing else. -/
theorem refused_accept_subset {A : Set ℕ} {t s : ℕ} (ht : t ∈ A)
    (hw : ∀ s ∈ w.refused, s ∈ A ∨ ∃ t ∈ A, s + replayWindow ≤ t) (hs : s ∈ (w.accept t).refused) :
    s ∈ A ∨ ∃ t ∈ A, s + replayWindow ≤ t := by
  rw [ReplayWindow.refused_accept, AntiReplay.mem_accept] at hs
  rcases hs with hs | rfl | hs
  · exact hw s hs
  · exact Or.inl ht
  · exact Or.inr ⟨t, ht, hs⟩

theorem Complete.run {A A' : Set ℕ} (hinv : ReceiverCore.Inv rx) (h : Complete A rx key)
    (c : Call) (hle : A ⊆ A') (hnew : ∀ s, Accepts p rx c key s → s ∈ A')
    (hkept : key ∉ (c.run p rx).evicted) : Complete A' (c.run p rx).core key := by
  obtain ⟨st, htracked, hrefused⟩ := h
  have hrefused' : ∀ s ∈ st.window.refused, s ∈ A' ∨ ∃ t ∈ A', s + replayWindow ≤ t := by
    intro s hs
    rcases hrefused s hs with hs | ⟨t, ht, hs⟩
    · exact Or.inl (hle hs)
    · exact Or.inr ⟨t, hle ht, hs⟩
  rcases run_cases p rx c with hcall | ⟨parsed, hparse, hcontinued | hadmitted⟩
  · exact ⟨st, by rw [hcall.sessions, htracked], hrefused'⟩
  · obtain ⟨st₁, st', htracked₁, -, hwindow, hsessions⟩ := hcontinued.window
    by_cases hk : key = (c.ssrc, parsed.sessionId)
    · subst hk
      obtain rfl : st = st₁ := Option.some.inj (htracked.symm.trans htracked₁)
      obtain ⟨pt, hresult⟩ := hcontinued.result
      have hmem := hnew _ ⟨parsed, pt, hparse, rfl, rfl, hresult⟩
      refine ⟨st', by rw [hsessions, AList.lookup_insert], fun s hs => ?_⟩
      rw [hwindow] at hs
      exact refused_accept_subset hmem hrefused' hs
    · exact ⟨st, by rw [hsessions, AList.lookup_insert_ne hk, htracked], hrefused'⟩
  · obtain ⟨start, w, st', tick, hstart, -, -, hsessions, -, -, hevicted⟩ := hadmitted.room
    have hk : key ≠ (c.ssrc, parsed.sessionId) := by
      rintro rfl
      rw [hadmitted.unknown] at htracked
      cases htracked
    have hinv_start : ReceiverCore.Inv start := by
      rw [hstart]
      exact hinv.unretire.congr rfl rfl rfl
    have hstart_tracked : start.sessions.lookup key = some st := by
      rw [hstart]
      simpa using htracked
    rw [hevicted] at hkept
    refine ⟨st, ?_, hrefused'⟩
    rw [hsessions, AList.lookup_insert_ne hk]
    exact tracked_makeRoomFor hinv_start hstart_tracked c.ssrc hkept

/-- The first accepted frame of a session opens a window that refuses nothing else. -/
theorem complete_of_first (hwater : HighWater accepted rx) (hfirst : accepted key = ∅)
    (haccepts : Accepts p rx c key seq) : Complete {seq} (c.run p rx).core key := by
  rcases haccepts.cases with hcontinued | hadmitted
  · obtain ⟨st, -, htracked, -⟩ := hcontinued.window
    have hmem := hwater.live key st htracked
    rw [hfirst] at hmem
    exact absurd hmem (Set.notMem_empty _)
  · obtain ⟨start, w, st, tick, -, hadmission, hwindow, hsessions, -⟩ := hadmitted.room
    have hmark : rx.retired.lookup key = none := by
      by_contra hsome
      obtain ⟨highest, hmark⟩ := Option.ne_none_iff_exists'.mp hsome
      have hmem := hwater.mark key highest hmark
      rw [hfirst] at hmem
      exact absurd hmem (Set.notMem_empty _)
    obtain rfl : ReplayWindow.fresh seq = w := by
      simpa [ReceiverCore.admission, hmark] using hadmission
    refine ⟨st, by rw [hsessions, AList.lookup_insert], fun s hs => ?_⟩
    rw [hwindow] at hs
    refine refused_accept_subset (Set.mem_singleton seq) (fun s hs => ?_) hs
    obtain ⟨hle, hfar | hbit⟩ := ReplayWindow.mem_refused.mp hs
    · simp only [ReplayWindow.fresh] at hle hfar
      exact Or.inr ⟨seq, rfl, by omega⟩
    · simp [ReplayWindow.fresh] at hbit

theorem evictions_append (calls more : List Call) :
    evictions p rx (calls ++ more) =
      evictions p rx calls ++ evictions p (after p rx calls) more := by
  induction calls generalizing rx with
  | nil => rfl
  | cons c calls ih =>
      rw [List.cons_append, evictions, ih, evictions, List.append_assoc]
      rfl

/-- From its first accepted frame until it is evicted, a session stays complete. -/
theorem complete_after {pre : List Call} {c₀ : Call} {seq₀ : ℕ}
    (hinv : ReceiverCore.Inv rx₀) (hempty : HighWater (fun _ => ∅) rx₀)
    (hfirst : acceptedIn p rx₀ pre key = ∅) (haccepts : Accepts p (after p rx₀ pre) c₀ key seq₀)
    (mid : List Call) (hkept : key ∉ evictions p (after p rx₀ (pre ++ [c₀])) mid) :
    Complete (acceptedIn p rx₀ (pre ++ c₀ :: mid) key) (after p rx₀ (pre ++ c₀ :: mid)) key := by
  induction mid using List.reverseRecOn with
  | nil =>
      have hcomplete := complete_of_first (highWater_after hinv hempty pre) hfirst haccepts
      obtain ⟨st, htracked, hrefused⟩ := hcomplete
      have hmem : seq₀ ∈ acceptedIn p rx₀ (pre ++ [c₀]) key :=
        mem_acceptedIn_append.mpr (Or.inr haccepts)
      refine ⟨st, by rw [after_append]; exact htracked, fun s hs => ?_⟩
      rcases hrefused s hs with rfl | ⟨t, rfl, hle⟩
      · exact Or.inl hmem
      · exact Or.inr ⟨t, hmem, hle⟩
  | append_singleton mid c ih =>
      rw [evictions_append, List.mem_append, not_or] at hkept
      have hsplit : pre ++ c₀ :: (mid ++ [c]) = (pre ++ c₀ :: mid) ++ [c] := by simp
      have hpast : after p (after p rx₀ (pre ++ [c₀])) mid = after p rx₀ (pre ++ c₀ :: mid) := by
        rw [← after_append]
        simp
      rw [hpast, evictions, evictions, List.append_nil] at hkept
      rw [hsplit, after_append]
      refine Complete.run (inv_after hinv _) (ih hkept.1) c ?_ ?_ hkept.2
      · exact fun s hs => mem_acceptedIn_append.mpr (Or.inl hs)
      · exact fun s hs => mem_acceptedIn_append.mpr (Or.inr hs)

/-- An authentic frame inside the window of a complete session is answered. -/
theorem Authentic.accepts_of_complete {A : Set ℕ} (h : Authentic p rx₀ c key seq)
    (hkeyed : Keyed p rx₀ rx) (hcomplete : Complete A rx key) (hnew : seq ∉ A)
    (hwindow : ∀ t ∈ A, t < seq + replayWindow) : Accepts p rx c key seq := by
  obtain ⟨st, htracked, hrefused⟩ := hcomplete
  refine h.accepts_tracked hkeyed htracked fun hseq => ?_
  rcases hrefused seq hseq with hmem | ⟨t, ht, hle⟩
  · exact hnew hmem
  · exact absurd (hwindow t ht) (Nat.not_lt.mpr hle)

/-- A number that was accepted stays refused while its session is not evicted. -/
theorem not_accepts_until_evicted (hinv : ReceiverCore.Inv rx) (haccepts : Accepts p rx c key seq)
    (later : List Call) (hkept : key ∉ evictions p (c.run p rx).core later) (c' : Call) :
    ¬ Accepts p (after p (c.run p rx).core later) c' key seq := by
  have hseen := Seen.of_accepts hinv haccepts []
  rcases hseen.after (p := p) (inv_run hinv c) later with hlater | ⟨mid₁, mid₂, rfl, hdropped, -⟩
  · exact hlater.not_accepts (inv_after (inv_run hinv c) later) c'
  · obtain ⟨l₁, l₂, hevs, -⟩ := hdropped
    have hmem : key ∈ evictions p (c.run p rx).core mid₁ := by
      rw [← List.nil_append (evictions p (c.run p rx).core mid₁), hevs]
      simp
    rw [evictions_append, List.mem_append, not_or] at hkept
    exact absurd hmem hkept.1

/-- Delivery is complete. An authentic frame above every accepted number of its session
is answered, whatever was evicted, retired and re-admitted before. While a session has
not been evicted since its first accepted frame, an authentic frame less than
`replayWindow` below the highest accepted one is answered if it was not answered yet,
and no later copy of it is. -/
theorem delivery_complete {secret : Bytes} {lane : Lane}
    (hnew : ReceiverCore.new p secret lane = .ok rx₀) (calls : List Call) {c : Call}
    (hauth : Authentic p rx₀ c key seq) :
    ((∀ s ∈ acceptedIn p rx₀ calls key, s < seq) → Accepts p (after p rx₀ calls) c key seq) ∧
      ∀ pre c₀ mid seq₀ highest, calls = pre ++ c₀ :: mid →
        acceptedIn p rx₀ pre key = ∅ → Accepts p (after p rx₀ pre) c₀ key seq₀ →
        key ∉ evictions p (after p rx₀ (pre ++ [c₀])) mid →
        IsGreatest (acceptedIn p rx₀ calls key) highest → highest < seq + replayWindow →
        seq ∉ acceptedIn p rx₀ calls key →
          Accepts p (after p rx₀ calls) c key seq ∧
            ∀ later c', key ∉ evictions p (after p rx₀ (calls ++ [c])) later →
              ¬ Accepts p (after p rx₀ (calls ++ c :: later)) c' key seq := by
  have hinv := ReceiverCore.inv_new hnew
  have hempty := highWater_new hnew
  have hkeyed := (keyed_new hnew).after calls
  refine ⟨fun habove => ?_, ?_⟩
  · exact hauth.accepts_of_above hkeyed (highWater_after hinv hempty calls) habove
  · intro pre c₀ mid seq₀ highest hcalls hfirst haccepts hkept hhighest hwindow hfresh
    have hcomplete := complete_after hinv hempty hfirst haccepts mid hkept
    rw [← hcalls] at hcomplete
    have hc : Accepts p (after p rx₀ calls) c key seq :=
      hauth.accepts_of_complete hkeyed hcomplete hfresh
        fun t ht => (hhighest.2 ht).trans_lt hwindow
    refine ⟨hc, fun later c' hlater => ?_⟩
    rw [after_append] at hlater ⊢
    exact not_accepts_until_evicted (inv_after hinv calls) hc later hlater c'

/-- Frame `seq` of the session of `seventhFrame`. -/
def numberedFrame (seq : ℕ) : Call :=
  ⟨headerFor (List.replicate sessionIdLen 5) seq 1000 ++ 42 :: List.replicate tagLen 0, 3, 1500⟩

/-- After frame 7, frame 9 is answered, and frame 5 still is, once. -/
theorem delivery_complete_fifth_after_seventh :
    Accepts plainPrimitives (after plainPrimitives emptyReceiver [numberedFrame 7])
        (numberedFrame 9) (3, List.replicate sessionIdLen 5) 9 ∧
      Accepts plainPrimitives (after plainPrimitives emptyReceiver [numberedFrame 7])
          (numberedFrame 5) (3, List.replicate sessionIdLen 5) 5 ∧
      ∀ later c', (3, List.replicate sessionIdLen 5) ∉ evictions plainPrimitives
          (after plainPrimitives emptyReceiver ([numberedFrame 7] ++ [numberedFrame 5])) later →
        ¬ Accepts plainPrimitives
          (after plainPrimitives emptyReceiver ([numberedFrame 7] ++ numberedFrame 5 :: later)) c'
          (3, List.replicate sessionIdLen 5) 5 := by
  have hnew : ReceiverCore.new plainPrimitives (List.replicate groupSecretLen 9) .channel =
      .ok emptyReceiver := rfl
  have hfifth : Authentic plainPrimitives emptyReceiver (numberedFrame 5)
      (3, List.replicate sessionIdLen 5) 5 :=
    ⟨_, [42], rfl, rfl, by decide, rfl, rfl⟩
  have hninth : Authentic plainPrimitives emptyReceiver (numberedFrame 9)
      (3, List.replicate sessionIdLen 5) 9 :=
    ⟨_, [42], rfl, rfl, by decide, rfl, rfl⟩
  have hseventh : Accepts plainPrimitives (after plainPrimitives emptyReceiver [])
      (numberedFrame 7) (3, List.replicate sessionIdLen 5) 7 :=
    ⟨_, [42], rfl, rfl, by decide, rfl⟩
  have haccepted : acceptedIn plainPrimitives emptyReceiver [numberedFrame 7]
      (3, List.replicate sessionIdLen 5) = {7} := by
    ext s
    rw [← List.nil_append [numberedFrame 7], mem_acceptedIn_append, acceptedIn_nil]
    constructor
    · rintro (hs | ⟨parsed, pt, hparse, -, rfl, -⟩)
      · exact absurd hs (Set.notMem_empty s)
      · obtain rfl := Except.ok.inj hparse
        decide
    · rintro rfl
      exact Or.inr hseventh
  refine ⟨(delivery_complete hnew [numberedFrame 7] hninth).1 ?_,
    (delivery_complete hnew [numberedFrame 7] hfifth).2 [] (numberedFrame 7) [] 7 7 rfl
      acceptedIn_nil hseventh (by simp [evictions]) ?_ (by decide) ?_⟩
  · rw [haccepted]
    simp
  · rw [haccepted]
    exact isGreatest_singleton
  · rw [haccepted]
    decide

end SpecterComs.RelayAudio
