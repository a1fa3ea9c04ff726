import SpecterComs.Verification.RelayAudio.Receiver

/-! # A frame is accepted once while its session is remembered

Once a frame is accepted, its number is followed through the live window, the
high-water mark of an eviction and the window the mark resumes. Only the loss of
that mark to later evictions opens the number again.
-/

namespace SpecterComs.RelayAudio

/-- The receiver still holds a window or a high-water mark for the session. -/
def Marked (rx : ReceiverCore) (key : SessionKey) : Prop :=
  key ∈ rx.sessions ∨ key ∈ rx.retired

/-- The session was evicted, and at least `maxRetired` evictions followed. -/
def Dropped (evs : List SessionKey) (key : SessionKey) : Prop :=
  ∃ l₁ l₂, evs = l₁ ++ key :: l₂ ∧ maxRetired ≤ l₂.length

/-- Frame `seq` is refused, by the window or by the mark. A mark is followed in
the queue by no more keys than there were evictions since. -/
inductive Seen (rx : ReceiverCore) (key : SessionKey) (seq : ℕ) (evs : List SessionKey) : Prop
  | live {st : SessionState} (tracked : rx.sessions.lookup key = some st)
      (refused : seq ∈ st.window.refused)
  | mark (highest : ℕ) (o₁ o₂ l₁ l₂ : List SessionKey)
      (retired : rx.retired.lookup key = some highest) (below : seq ≤ highest)
      (order : rx.retiredOrder = o₁ ++ key :: o₂) (evicted : evs = l₁ ++ key :: l₂)
      (later : o₂.length ≤ l₂.length)

/-- A frame accepted earlier is still refused, or its mark has been dropped. -/
def Remembered (rx : ReceiverCore) (key : SessionKey) (seq : ℕ) (evs : List SessionKey) : Prop :=
  Seen rx key seq evs ∨ Dropped evs key ∧ ¬ Marked rx key

variable {p : Primitives} {rx : ReceiverCore} {key k : SessionKey} {seq : ℕ}
  {evs : List SessionKey}

theorem Dropped.append (h : Dropped evs key) (more : List SessionKey) :
    Dropped (evs ++ more) key := by
  obtain ⟨l₁, l₂, rfl, hlen⟩ := h
  refine ⟨l₁, l₂ ++ more, by simp, ?_⟩
  rw [List.length_append]
  omega

variable {rx' : ReceiverCore}

/-- Only the table, the marks and their order matter. -/
theorem Seen.congr (h : Seen rx key seq evs)
    (hs : rx'.sessions.lookup key = rx.sessions.lookup key) (hr : rx'.retired = rx.retired)
    (ho : rx'.retiredOrder = rx.retiredOrder) : Seen rx' key seq evs := by
  cases h with
  | live tracked refused => exact .live (hs.trans tracked) refused
  | mark highest o₁ o₂ l₁ l₂ retired below order evicted later =>
      exact .mark highest o₁ o₂ l₁ l₂ (by rw [hr, retired]) below (ho.trans order) evicted later

/-! ## One eviction -/

variable {st : SessionState}

/-- An evicted session is marked with a number at or above every refused one. -/
theorem Seen.evict_self (hinv : ReceiverCore.Inv rx) (hev : ReceiverCore.Evicted rx key st rx')
    (h : Seen rx key seq evs) : Seen rx' key seq (evs ++ [key]) := by
  have hbounded := hinv.bounded
  have hsplit : ∃ o₁, rx'.retiredOrder = o₁ ++ [key] ∧
      key ∉ (rx.retiredOrder ++ [key]).take (rx.retiredOrder.length + 1 - maxRetired) := by
    have hle : rx.retiredOrder.length + 1 - maxRetired ≤ rx.retiredOrder.length := by
      have : 0 < maxRetired := by decide
      omega
    refine ⟨rx.retiredOrder.drop (rx.retiredOrder.length + 1 - maxRetired), ?_, ?_⟩
    · rw [hev.order, List.drop_append_of_le_length hle]
    · rw [List.take_append_of_le_length hle]
      exact fun hmem => hev.notMem_order hinv (List.mem_of_mem_take hmem)
  obtain ⟨o₁, horder, hkept⟩ := hsplit
  cases h with
  | @live st' tracked refused =>
      obtain rfl : st = st' := Option.some.inj (hev.tracked.symm.trans tracked)
      refine .mark st.window.highest o₁ [] evs [] ?_
        (ReplayWindow.le_highest_of_mem_refused refused) horder rfl (Nat.zero_le _)
      rw [hev.retired, if_neg hkept, if_pos rfl]
  | mark _ _ _ _ _ retired =>
      have htracked := AList.lookup_isSome.mp (Option.isSome_of_eq_some hev.tracked)
      exact absurd (AList.lookup_isSome.mp (Option.isSome_of_eq_some retired))
        (hinv.disjoint key htracked)

/-- The eviction of another session keeps the window or moves the mark one place
towards the front of the queue, where the next eviction drops it. -/
theorem Seen.evict_other (hinv : ReceiverCore.Inv rx) (hev : ReceiverCore.Evicted rx k st rx')
    (hne : key ≠ k) (h : Seen rx key seq evs) : Remembered rx' key seq (evs ++ [k]) := by
  cases h with
  | live tracked refused =>
      refine Or.inl (.live ?_ refused)
      rw [hev.sessions, AList.lookup_erase_ne hne, tracked]
  | mark highest o₁ o₂ l₁ l₂ retired below order evicted later =>
      have hbounded := hinv.bounded
      have hnodup := hev.nodup_append hinv
      have hlength : rx.retiredOrder.length = o₁.length + o₂.length + 1 := by
        rw [order, List.length_append, List.length_cons]
        omega
      by_cases hroom : rx.retiredOrder.length < maxRetired
      · have hzero : rx.retiredOrder.length + 1 - maxRetired = 0 := by omega
        refine Or.inl (.mark highest o₁ (o₂ ++ [k]) l₁ (l₂ ++ [k]) ?_ below ?_ ?_ ?_)
        · rw [hev.retired, hzero, List.take_zero, if_neg List.not_mem_nil, if_neg hne, retired]
        · rw [hev.order, hzero, List.drop_zero, order, List.append_assoc, List.cons_append]
        · rw [evicted, List.append_assoc, List.cons_append]
        · simpa using later
      · have hone : rx.retiredOrder.length + 1 - maxRetired = 1 := by omega
        cases o₁ with
        | nil =>
            have hmarks : rx'.retired.lookup key = none := by
              rw [hev.retired, hone, order, if_pos (by simp)]
            refine Or.inr ⟨⟨l₁, l₂ ++ [k], ?_, ?_⟩, ?_⟩
            · rw [evicted, List.append_assoc, List.cons_append]
            · rw [List.length_append, List.length_singleton]
              rw [List.length_nil] at hlength
              omega
            · rintro (hlive | hmark)
              · rw [hev.sessions, AList.mem_erase] at hlive
                exact hinv.disjoint key hlive.2
                  (AList.lookup_isSome.mp (Option.isSome_of_eq_some retired))
              · rw [← AList.lookup_isSome, hmarks] at hmark
                cases hmark
        | cons oldest o₁ =>
            have hkey : key ≠ oldest := by
              rintro rfl
              rw [order] at hnodup
              simp at hnodup
            refine Or.inl (.mark highest o₁ (o₂ ++ [k]) l₁ (l₂ ++ [k]) ?_ below ?_ ?_ ?_)
            · rw [hev.retired, hone, order, if_neg (by simpa using hkey), if_neg hne, retired]
            · rw [hev.order, hone, order]
              simp
            · rw [evicted, List.append_assoc, List.cons_append]
            · simpa using later

/-- Only tracked sessions get a mark. -/
theorem not_marked_evicted (hev : ReceiverCore.Evicted rx k st rx') (h : ¬ Marked rx key) :
    ¬ Marked rx' key := by
  have hk : key ≠ k := by
    rintro rfl
    exact h (Or.inl (AList.lookup_isSome.mp (Option.isSome_of_eq_some hev.tracked)))
  rintro (hlive | hmark)
  · rw [hev.sessions, AList.mem_erase] at hlive
    exact h (Or.inl hlive.2)
  · rw [← AList.lookup_isSome, hev.retired, if_neg hk] at hmark
    split at hmark
    · cases hmark
    · exact h (Or.inr (AList.lookup_isSome.mp hmark))

theorem not_marked_evictLru (hinv : ReceiverCore.Inv rx) (h : ¬ Marked rx key)
    (onlySsrc : Option UInt32) : ¬ Marked (ReceiverCore.evictLru p rx onlySsrc).1 key := by
  rcases ReceiverCore.evictLru_cases (p := p) hinv onlySsrc with heq | ⟨k, st, -, hev⟩
  · rwa [heq]
  · exact not_marked_evicted hev h

theorem not_marked_makeRoomFor (hinv : ReceiverCore.Inv rx) (h : ¬ Marked rx key)
    (ssrc : UInt32) : ¬ Marked (ReceiverCore.makeRoomFor p rx ssrc).1 key :=
  (ReceiverCore.makeRoomFor_induction (P := fun rx _ => ReceiverCore.Inv rx ∧ ¬ Marked rx key)
    (fun _ _ onlySsrc h => ⟨h.1.evictLru onlySsrc, not_marked_evictLru h.1 h.2 onlySsrc⟩) []
    ⟨hinv, h⟩ ssrc).2

theorem Remembered.evictLru (hinv : ReceiverCore.Inv rx) (h : Remembered rx key seq evs)
    (onlySsrc : Option UInt32) :
    Remembered (ReceiverCore.evictLru p rx onlySsrc).1 key seq
      (evs ++ (ReceiverCore.evictLru p rx onlySsrc).2) := by
  rcases ReceiverCore.evictLru_cases (p := p) hinv onlySsrc with heq | ⟨k, st, hkeys, hev⟩
  · simpa [heq] using h
  · rw [hkeys]
    rcases h with hseen | ⟨hdropped, hgone⟩
    · by_cases hk : key = k
      · subst k
        exact Or.inl (hseen.evict_self hinv hev)
      · exact hseen.evict_other hinv hev hk
    · exact Or.inr ⟨hdropped.append _, not_marked_evicted hev hgone⟩

theorem Remembered.makeRoomFor (hinv : ReceiverCore.Inv rx) (h : Remembered rx key seq evs)
    (ssrc : UInt32) :
    Remembered (ReceiverCore.makeRoomFor p rx ssrc).1 key seq
      (evs ++ (ReceiverCore.makeRoomFor p rx ssrc).2) :=
  (ReceiverCore.makeRoomFor_induction
    (P := fun rx evs => ReceiverCore.Inv rx ∧ Remembered rx key seq evs)
    (fun _ _ onlySsrc h => ⟨h.1.evictLru onlySsrc, h.2.evictLru h.1 onlySsrc⟩) evs ⟨hinv, h⟩ ssrc).2

/-! ## One call -/

theorem Seen.unretire (hinv : ReceiverCore.Inv rx) (hne : key ≠ k) (h : Seen rx key seq evs) :
    Seen (rx.unretire k) key seq evs := by
  cases h with
  | live tracked refused => exact .live (by rw [ReceiverCore.sessions_unretire, tracked]) refused
  | mark highest o₁ o₂ l₁ l₂ retired below order evicted later =>
      refine .mark highest (o₁.filter (· ≠ k)) (o₂.filter (· ≠ k)) l₁ l₂ ?_ below ?_ evicted ?_
      · rw [ReceiverCore.lookup_retired_unretire hne, retired]
      · rw [hinv.order_unretire, order, List.filter_append, List.filter_cons_of_pos]
        simpa using hne
      · exact (List.length_filter_le _ _).trans later

/-- Remembering a frame only reads the entries of its own session. -/
theorem Remembered.congr (h : Remembered rx key seq evs)
    (hs : rx'.sessions.lookup key = rx.sessions.lookup key) (hr : rx'.retired = rx.retired)
    (ho : rx'.retiredOrder = rx.retiredOrder) : Remembered rx' key seq evs := by
  rcases h with hseen | ⟨hdropped, hgone⟩
  · exact Or.inl (hseen.congr hs hr ho)
  · refine Or.inr ⟨hdropped, ?_⟩
    rwa [Marked, ← AList.lookup_isSome, hs, AList.lookup_isSome, hr]

/-- A marked session resumes the window of its mark. -/
theorem admission_of_retired {w : ReplayWindow} {highest : ℕ}
    (hretired : rx.retired.lookup key = some highest) (h : rx.admission key seq = .ok w) :
    w = ReplayWindow.resumed highest ∧ seq ∉ w.refused := by
  unfold ReceiverCore.admission at h
  rw [hretired] at h
  simp only at h
  cases hcheck : (ReplayWindow.resumed highest).check seq with
  | error e =>
      rw [hcheck] at h
      cases h
  | ok u =>
      rw [hcheck] at h
      obtain rfl : ReplayWindow.resumed highest = w := Except.ok.inj h
      exact ⟨rfl, ReplayWindow.check_eq_ok_iff.mp hcheck⟩

variable {o : ReceiverCore.Opened}

/-- The window of the session accepted a frame, so it refuses that frame and all
the frames its mark refused. -/
theorem Seen.admitted {ssrc : UInt32} {t : ℕ} (h : ReceiverCore.Admitted p rx ssrc key t o)
    (before : List SessionKey) (hseq : seq = t ∨ Seen rx key seq before) : Seen o.core key seq evs := by
  obtain ⟨start, w, st, tick, -, hadmission, hwindow, hsessions, -⟩ := h.room
  refine .live (by rw [hsessions, AList.lookup_insert]) ?_
  rw [hwindow]
  rcases hseq with rfl | hseen
  · exact ReplayWindow.mem_refused_accept_self w seq
  · apply ReplayWindow.refused_subset_accept
    cases hseen with
    | live tracked =>
        rw [h.unknown] at tracked
        cases tracked
    | mark _ _ _ _ _ retired below =>
        obtain ⟨rfl, -⟩ := admission_of_retired retired hadmission
        rw [ReplayWindow.refused_resumed]
        exact below

theorem Seen.continued {t : ℕ} (h : ReceiverCore.Continued rx key t o)
    (hinv : ReceiverCore.Inv rx) (before : List SessionKey)
    (hseq : seq = t ∨ Seen rx key seq before) : Seen o.core key seq evs := by
  obtain ⟨st, st', htracked, -, hwindow, hsessions⟩ := h.window
  refine .live (by rw [hsessions, AList.lookup_insert]) ?_
  rw [hwindow]
  rcases hseq with rfl | hseen
  · exact ReplayWindow.mem_refused_accept_self _ seq
  · apply ReplayWindow.refused_subset_accept
    cases hseen with
    | @live st'' tracked refused =>
        obtain rfl : st = st'' := Option.some.inj (htracked.symm.trans tracked)
        exact refused
    | mark _ _ _ _ _ retired =>
        have hmem := AList.lookup_isSome.mp (Option.isSome_of_eq_some htracked)
        exact absurd (AList.lookup_isSome.mp (Option.isSome_of_eq_some retired))
          (hinv.disjoint key hmem)

theorem run_cases (p : Primitives) (rx : ReceiverCore) (c : Call) :
    ReceiverCore.Refused rx (c.run p rx) ∨
      ∃ parsed, parse c.frame = .ok parsed ∧
        (ReceiverCore.Continued rx (c.ssrc, parsed.sessionId) parsed.seq (c.run p rx) ∨
          ReceiverCore.Admitted p rx c.ssrc (c.ssrc, parsed.sessionId) parsed.seq (c.run p rx)) :=
  ReceiverCore.openFrame_cases p rx c.frame c.ssrc c.nowMs

theorem inv_run (hinv : ReceiverCore.Inv rx) (c : Call) : ReceiverCore.Inv (c.run p rx).core := by
  rcases run_cases p rx c with
    hrefused | ⟨parsed, -, hcontinued | hadmitted⟩
  · exact hinv.congr hrefused.sessions hrefused.retired hrefused.order
  · obtain ⟨st, st', htracked, -, -, hsessions⟩ := hcontinued.window
    have hmem := AList.lookup_isSome.mp (Option.isSome_of_eq_some htracked)
    exact hinv.insert (hinv.disjoint _ hmem) hsessions hcontinued.retired hcontinued.order
  · obtain ⟨start, w, st, tick, hstart, -, -, hsessions, hretired, horder, -⟩ := hadmitted.room
    have hinv_start : ReceiverCore.Inv start := by
      rw [hstart]
      exact hinv.unretire.congr rfl rfl rfl
    have hunknown : ¬ Marked start (c.ssrc, parsed.sessionId) := by
      rw [hstart]
      rintro (hlive | hmark)
      · rw [ReceiverCore.sessions_unretire, ← AList.lookup_isSome, hadmitted.unknown] at hlive
        cases hlive
      · exact ReceiverCore.notMem_retired_unretire hmark
    have hroom := not_marked_makeRoomFor (p := p) hinv_start hunknown c.ssrc
    exact (hinv_start.makeRoomFor c.ssrc).insert (fun hmark => hroom (Or.inr hmark)) hsessions
      hretired horder

/-- One call keeps a seen frame refused, or the evictions it makes drop the mark. -/
theorem Seen.run (hinv : ReceiverCore.Inv rx) (h : Seen rx key seq evs) (c : Call) :
    Remembered (c.run p rx).core key seq (evs ++ (c.run p rx).evicted) := by
  rcases run_cases p rx c with
    hrefused | ⟨parsed, -, hcontinued | hadmitted⟩
  · refine Or.inl ?_
    rw [hrefused.evicted, List.append_nil]
    exact h.congr (by rw [hrefused.sessions]) hrefused.retired hrefused.order
  · by_cases hk : key = (c.ssrc, parsed.sessionId)
    · subst hk
      exact Or.inl (.continued hcontinued hinv evs (Or.inr h))
    · obtain ⟨st, st', -, -, -, hsessions⟩ := hcontinued.window
      refine Or.inl ?_
      rw [hcontinued.evicted, List.append_nil]
      exact h.congr (by rw [hsessions, AList.lookup_insert_ne hk]) hcontinued.retired
        hcontinued.order
  · by_cases hk : key = (c.ssrc, parsed.sessionId)
    · subst hk
      exact Or.inl (.admitted hadmitted evs (Or.inr h))
    · obtain ⟨start, w, st, tick, hstart, -, -, hsessions, hretired, horder, hevicted⟩ :=
        hadmitted.room
      have hinv_start : ReceiverCore.Inv start := by
        rw [hstart]
        exact hinv.unretire.congr rfl rfl rfl
      have hseen : Seen start key seq evs := by
        rw [hstart]
        exact (h.unretire hinv hk).congr rfl rfl rfl
      have hroom := Remembered.makeRoomFor (p := p) hinv_start (Or.inl hseen) c.ssrc
      rw [← hevicted] at hroom
      exact hroom.congr (by rw [hsessions, AList.lookup_insert_ne hk]) hretired horder

/-! ## Runs of calls -/

theorem inv_after (hinv : ReceiverCore.Inv rx) (calls : List Call) :
    ReceiverCore.Inv (after p rx calls) := by
  induction calls generalizing rx with
  | nil => exact hinv
  | cons c calls ih => exact ih (inv_run hinv c)

theorem after_append (calls more : List Call) :
    after p rx (calls ++ more) = after p (after p rx calls) more :=
  List.foldl_append

theorem Accepts.cases {c : Call} (h : Accepts p rx c key seq) :
    ReceiverCore.Continued rx key seq (c.run p rx) ∨
      ReceiverCore.Admitted p rx c.ssrc key seq (c.run p rx) := by
  obtain ⟨parsed, pt, hparse, rfl, rfl, hresult⟩ := h
  rcases run_cases p rx c with hrefused | ⟨parsed', hparse', hcase⟩
  · obtain ⟨e, he⟩ := hrefused.result
    rw [hresult] at he
    cases he
  · obtain rfl : parsed = parsed' := Except.ok.inj (hparse.symm.trans hparse')
    exact hcase

/-- An accepted frame is refused from then on. -/
theorem Seen.of_accepts {c : Call} (hinv : ReceiverCore.Inv rx) (h : Accepts p rx c key seq)
    (evs : List SessionKey) : Seen (c.run p rx).core key seq evs := by
  rcases h.cases with hcontinued | hadmitted
  · exact .continued hcontinued hinv [] (Or.inl rfl)
  · exact .admitted hadmitted [] (Or.inl rfl)

theorem Seen.not_accepts (h : Seen rx key seq evs) (hinv : ReceiverCore.Inv rx) (c : Call) :
    ¬ Accepts p rx c key seq := by
  intro haccepts
  rcases haccepts.cases with hcontinued | hadmitted
  · obtain ⟨st, st', htracked, hnew, -⟩ := hcontinued.window
    cases h with
    | @live st'' tracked refused =>
        obtain rfl : st = st'' := Option.some.inj (htracked.symm.trans tracked)
        exact hnew refused
    | mark _ _ _ _ _ retired =>
        exact hinv.disjoint key (AList.lookup_isSome.mp (Option.isSome_of_eq_some htracked))
          (AList.lookup_isSome.mp (Option.isSome_of_eq_some retired))
  · obtain ⟨start, w, st, tick, -, hadmission, -⟩ := hadmitted.room
    cases h with
    | live tracked =>
        rw [hadmitted.unknown] at tracked
        cases tracked
    | mark _ _ _ _ _ retired below =>
        obtain ⟨rfl, hnew⟩ := admission_of_retired retired hadmission
        rw [ReplayWindow.refused_resumed] at hnew
        exact hnew below

/-- Along a run a seen frame stays refused until the evictions drop its mark. -/
theorem Seen.after (hinv : ReceiverCore.Inv rx) (h : Seen rx key seq evs) (mid : List Call) :
    Seen (after p rx mid) key seq (evs ++ evictions p rx mid) ∨
      ∃ mid₁ mid₂, mid = mid₁ ++ mid₂ ∧ Dropped (evs ++ evictions p rx mid₁) key ∧
        ¬ Marked (RelayAudio.after p rx mid₁) key := by
  induction mid generalizing rx evs with
  | nil => exact Or.inl (by simpa [RelayAudio.after, evictions] using h)
  | cons c mid ih =>
      rcases h.run (p := p) hinv c with hseen | ⟨hdropped, hgone⟩
      · rcases ih (inv_run hinv c) hseen with hlater | ⟨mid₁, mid₂, rfl, hdropped, hgone⟩
        · exact Or.inl (by simpa [RelayAudio.after, evictions] using hlater)
        · exact Or.inr ⟨c :: mid₁, mid₂, rfl, by simpa [evictions] using hdropped, hgone⟩
      · exact Or.inr ⟨[c], mid, rfl, by simpa [evictions] using hdropped, hgone⟩

/-- A receiver that has accepted a frame answers no later copy of it, unless the
session was evicted in between, `maxRetired` further evictions followed, and the
receiver no longer held a window or a mark for the session. -/
theorem accepted_once {secret : Bytes} {lane : Lane} {rx₀ : ReceiverCore} {pre : List Call}
    {c₁ : Call} (hnew : ReceiverCore.new p secret lane = .ok rx₀)
    (haccepts : Accepts p (after p rx₀ pre) c₁ key seq) (mid : List Call) (c₂ : Call) :
    ¬ Accepts p (after p rx₀ (pre ++ c₁ :: mid)) c₂ key seq ∨
      ∃ mid₁ mid₂, mid = mid₁ ++ mid₂ ∧
        Dropped (evictions p (after p rx₀ (pre ++ [c₁])) mid₁) key ∧
        ¬ Marked (after p rx₀ (pre ++ c₁ :: mid₁)) key := by
  have hinv : ReceiverCore.Inv (after p rx₀ pre) :=
    inv_after (ReceiverCore.inv_new hnew) pre
  have hcons : ∀ calls, after p rx₀ (pre ++ c₁ :: calls) =
      after p (c₁.run p (after p rx₀ pre)).core calls :=
    fun calls => after_append pre (c₁ :: calls)
  have hseen := Seen.of_accepts hinv haccepts []
  rcases hseen.after (p := p) (inv_run hinv c₁) mid with
    hlater | ⟨mid₁, mid₂, hmid, hdropped, hgone⟩
  · refine Or.inl ?_
    rw [hcons]
    exact hlater.not_accepts (inv_after (inv_run hinv c₁) mid) c₂
  · refine Or.inr ⟨mid₁, mid₂, hmid, ?_, ?_⟩
    · rw [hcons]
      exact hdropped
    · rw [hcons]
      exact hgone

/-- A key schedule that returns the secret and a tag of sixteen zero bytes. -/
def plainPrimitives : Primitives where
  hkdfExpand := fun _ ikm _ => ikm
  encrypt := fun _ _ _ msg => some (msg ++ List.replicate tagLen 0)
  decrypt := fun _ _ _ ct =>
    if ct.drop (ct.length - tagLen) = List.replicate tagLen 0 then
      some (ct.take (ct.length - tagLen))
    else
      none
  hashIter := id
  hashIter_perm := fun entries => List.Perm.refl entries

/-- Frame 7 of a session whose identifier is sixteen fives. -/
def seventhFrame : Call :=
  ⟨headerFor (List.replicate sessionIdLen 5) 7 1000 ++ 42 :: List.replicate tagLen 0, 3, 1500⟩

def emptyReceiver : ReceiverCore :=
  ⟨⟨List.replicate groupSecretLen 9, List.replicate groupSecretLen 9⟩, .channel, ∅, ∅, [], 0⟩

/-- A new receiver accepts the frame, and is offered the same frame again. -/
theorem accepted_once_second_copy :
    ¬ Accepts plainPrimitives (after plainPrimitives emptyReceiver ([] ++ seventhFrame :: []))
        seventhFrame (3, List.replicate sessionIdLen 5) 7 ∨
      ∃ mid₁ mid₂, [] = mid₁ ++ mid₂ ∧
        Dropped (evictions plainPrimitives
          (after plainPrimitives emptyReceiver ([] ++ [seventhFrame])) mid₁)
          (3, List.replicate sessionIdLen 5) ∧
        ¬ Marked (after plainPrimitives emptyReceiver ([] ++ seventhFrame :: mid₁))
          (3, List.replicate sessionIdLen 5) := by
  have hnew : ReceiverCore.new plainPrimitives (List.replicate groupSecretLen 9) .channel =
      .ok emptyReceiver := rfl
  have haccepts : Accepts plainPrimitives (after plainPrimitives emptyReceiver []) seventhFrame
      (3, List.replicate sessionIdLen 5) 7 :=
    ⟨_, [42], rfl, rfl, by decide, rfl⟩
  exact accepted_once hnew haccepts [] seventhFrame

end SpecterComs.RelayAudio
