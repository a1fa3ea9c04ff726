import SpecterComs.Verification.RelayAudio.Window

/-! # Session table and retired marks of the receiver

One lemma says everything a call of `open` can do; the session table, the marks
of evicted sessions and their order are then followed through it.
-/

namespace SpecterComs.RelayAudio.ReceiverCore

variable {p : Primitives} {rx : ReceiverCore} {key k : SessionKey}

/-! ## What a call can do -/

/-- A refused call only counts the tick. -/
structure Refused (rx : ReceiverCore) (o : Opened) : Prop where
  result : ∃ e, o.result = .error e
  sessions : o.core.sessions = rx.sessions
  retired : o.core.retired = rx.retired
  order : o.core.retiredOrder = rx.retiredOrder
  evicted : o.evicted = []

/-- A frame of a tracked session moves that session's window and nothing else. -/
structure Continued (rx : ReceiverCore) (key : SessionKey) (seq : ℕ) (o : Opened) : Prop where
  result : ∃ pt, o.result = .ok pt
  window : ∃ st st', rx.sessions.lookup key = some st ∧ seq ∉ st.window.refused ∧
    st'.window = st.window.accept seq ∧ o.core.sessions = rx.sessions.insert key st'
  retired : o.core.retired = rx.retired
  order : o.core.retiredOrder = rx.retiredOrder
  evicted : o.evicted = []

/-- A frame of an unknown session takes its mark back, makes room and opens the session. -/
structure Admitted (p : Primitives) (rx : ReceiverCore) (ssrc : UInt32) (key : SessionKey)
    (seq : ℕ) (o : Opened) : Prop where
  result : ∃ pt, o.result = .ok pt
  unknown : rx.sessions.lookup key = none
  room : ∃ start w st tick, start = { rx.unretire key with tick := tick } ∧
    rx.admission key seq = .ok w ∧ st.window = w.accept seq ∧
    o.core.sessions = (makeRoomFor p start ssrc).1.sessions.insert key st ∧
    o.core.retired = (makeRoomFor p start ssrc).1.retired ∧
    o.core.retiredOrder = (makeRoomFor p start ssrc).1.retiredOrder ∧
    o.evicted = (makeRoomFor p start ssrc).2

theorem openFrame_cases (p : Primitives) (rx : ReceiverCore) (frame : Bytes) (ssrc : UInt32)
    (nowMs : ℕ) :
    Refused rx (openFrame p rx frame ssrc nowMs) ∨
      ∃ parsed, parse frame = .ok parsed ∧
        (Continued rx (ssrc, parsed.sessionId) parsed.seq (openFrame p rx frame ssrc nowMs) ∨
          Admitted p rx ssrc (ssrc, parsed.sessionId) parsed.seq
            (openFrame p rx frame ssrc nowMs)) := by
  unfold openFrame
  cases hparse : parse frame with
  | error e => exact Or.inl ⟨⟨e, rfl⟩, rfl, rfl, rfl, rfl⟩
  | ok parsed =>
      simp only
      cases hlookup : rx.sessions.lookup (ssrc, parsed.sessionId) with
      | some st =>
          simp only
          cases hcheck : st.window.check parsed.seq with
          | error e => exact Or.inl ⟨⟨e, rfl⟩, rfl, rfl, rfl, rfl⟩
          | ok u =>
              simp only
              split
              · exact Or.inl ⟨⟨_, rfl⟩, rfl, rfl, rfl, rfl⟩
              · split
                · refine Or.inr ⟨parsed, rfl, Or.inl ⟨⟨_, rfl⟩, ?_, rfl, rfl, rfl⟩⟩
                  exact ⟨st, _, hlookup, ReplayWindow.check_eq_ok_iff.mp hcheck, rfl, rfl⟩
                · exact Or.inl ⟨⟨_, rfl⟩, rfl, rfl, rfl, rfl⟩
      | none =>
          simp only
          cases hadmission : rx.admission (ssrc, parsed.sessionId) parsed.seq with
          | error e =>
              have hadmission' : ∀ t, ReceiverCore.admission { rx with tick := t }
                  (ssrc, parsed.sessionId) parsed.seq = .error e := fun _ => hadmission
              rw [hadmission']
              exact Or.inl ⟨⟨e, rfl⟩, rfl, rfl, rfl, rfl⟩
          | ok w =>
              have hadmission' : ∀ t, ReceiverCore.admission { rx with tick := t }
                  (ssrc, parsed.sessionId) parsed.seq = .ok w := fun _ => hadmission
              rw [hadmission']
              simp only
              split
              · exact Or.inl ⟨⟨_, rfl⟩, rfl, rfl, rfl, rfl⟩
              · split
                · refine Or.inr ⟨parsed, rfl, Or.inr ⟨⟨_, rfl⟩, hlookup, ?_⟩⟩
                  refine ⟨unretire { rx with tick := (rx.tick + 1) % 2 ^ 64 }
                    (ssrc, parsed.sessionId), w, _, (rx.tick + 1) % 2 ^ 64, ?_, hadmission, ?_, rfl,
                    rfl, rfl, rfl⟩
                  · unfold unretire
                    split <;> rfl
                  · rfl
                · exact Or.inl ⟨⟨_, rfl⟩, rfl, rfl, rfl, rfl⟩

/-! ## Trimming the marks -/

theorem trimRetired_snd (retired : AList fun _ : SessionKey => ℕ) (order : List SessionKey) :
    (trimRetired retired order).2 = order.drop (order.length - maxRetired) := by
  induction order generalizing retired with
  | nil => rfl
  | cons old order ih =>
      unfold trimRetired
      split
      · rename_i hlong
        have hdrop : (old :: order).length - maxRetired = order.length - maxRetired + 1 := by
          simp only [List.length_cons] at hlong ⊢
          omega
        rw [ih, hdrop, List.drop_succ_cons]
      · rename_i hshort
        have hzero : (old :: order).length - maxRetired = 0 := by omega
        rw [hzero, List.drop_zero]

theorem lookup_trimRetired (retired : AList fun _ : SessionKey => ℕ) (order : List SessionKey)
    (k : SessionKey) :
    (trimRetired retired order).1.lookup k =
      if k ∈ order.take (order.length - maxRetired) then none else retired.lookup k := by
  induction order generalizing retired with
  | nil => simp [trimRetired]
  | cons old order ih =>
      unfold trimRetired
      split
      · rename_i hlong
        have htake : (old :: order).length - maxRetired = order.length - maxRetired + 1 := by
          simp only [List.length_cons] at hlong ⊢
          omega
        rw [ih, htake, List.take_succ_cons]
        by_cases hk : k = old
        · subst k
          simp
        · simp [hk, AList.lookup_erase_ne hk]
      · rename_i hshort
        have hzero : (old :: order).length - maxRetired = 0 := by omega
        rw [hzero, List.take_zero]
        simp

/-! ## The table invariant -/

/-- A session is tracked or retired, never both, and every mark is queued exactly once. -/
structure Inv (rx : ReceiverCore) : Prop where
  disjoint : ∀ k, k ∈ rx.sessions → k ∉ rx.retired
  nodup : rx.retiredOrder.Nodup
  mem_order : ∀ k, k ∈ rx.retiredOrder ↔ k ∈ rx.retired
  bounded : rx.retiredOrder.length ≤ maxRetired

theorem inv_new {secret : Bytes} {lane : Lane} (h : ReceiverCore.new p secret lane = .ok rx) :
    Inv rx := by
  unfold ReceiverCore.new at h
  cases hkdf : GroupKdf.new p secret with
  | error e =>
      rw [hkdf] at h
      cases h
  | ok kdf =>
      rw [hkdf] at h
      cases h
      exact ⟨fun k hk => by simp at hk, List.nodup_nil, fun k => by simp, Nat.zero_le _⟩

variable {rx' : ReceiverCore}

/-- The invariant only reads the table, the marks and their order. -/
theorem Inv.congr (h : Inv rx) (hs : rx'.sessions = rx.sessions) (hr : rx'.retired = rx.retired)
    (ho : rx'.retiredOrder = rx.retiredOrder) : Inv rx' := by
  obtain ⟨h₁, h₂, h₃, h₄⟩ := h
  constructor
  · rwa [hs, hr]
  · rwa [ho]
  · rwa [ho, hr]
  · rwa [ho]

theorem Inv.insert {st : SessionState} (h : Inv rx) (hk : key ∉ rx.retired)
    (hs : rx'.sessions = rx.sessions.insert key st) (hr : rx'.retired = rx.retired)
    (ho : rx'.retiredOrder = rx.retiredOrder) : Inv rx' := by
  obtain ⟨h₁, h₂, h₃, h₄⟩ := h
  refine ⟨?_, by rwa [ho], by rwa [ho, hr], by rwa [ho]⟩
  intro k hmem
  rw [hs, AList.mem_insert] at hmem
  rw [hr]
  rcases hmem with rfl | hmem
  · exact hk
  · exact h₁ k hmem

@[simp] theorem sessions_unretire : (rx.unretire key).sessions = rx.sessions := by
  unfold unretire
  split <;> rfl

theorem lookup_retired_unretire (h : k ≠ key) :
    (rx.unretire key).retired.lookup k = rx.retired.lookup k := by
  unfold unretire
  split
  · exact AList.lookup_erase_ne h
  · rfl

theorem notMem_retired_unretire : key ∉ (rx.unretire key).retired := by
  unfold unretire
  split
  · simp [AList.mem_erase]
  · rename_i h
    intro hmem
    exact h (AList.lookup_isSome.mpr hmem)

/-- Taking one mark back removes exactly its queue entry. -/
theorem Inv.order_unretire (h : Inv rx) :
    (rx.unretire key).retiredOrder = rx.retiredOrder.filter (· ≠ key) := by
  unfold unretire
  split
  · rfl
  · rename_i hnone
    refine (List.filter_eq_self.mpr ?_).symm
    intro k hk
    have hne : k ≠ key := by
      rintro rfl
      exact hnone (AList.lookup_isSome.mpr ((h.mem_order k).mp hk))
    simpa using hne

theorem Inv.unretire (h : Inv rx) : Inv (rx.unretire key) := by
  have hmem : ∀ k, k ∈ (rx.unretire key).retired ↔ k ≠ key ∧ k ∈ rx.retired := by
    intro k
    by_cases hk : k = key
    · subst k
      simp [notMem_retired_unretire]
    · rw [← AList.lookup_isSome, lookup_retired_unretire hk, AList.lookup_isSome]
      simp [hk]
  refine ⟨?_, ?_, ?_, ?_⟩
  · intro k hk hret
    rw [sessions_unretire] at hk
    exact h.disjoint k hk ((hmem k).mp hret).2
  · rw [h.order_unretire]
    exact h.nodup.filter _
  · intro k
    rw [h.order_unretire, hmem, List.mem_filter, h.mem_order]
    simp [and_comm]
  · rw [h.order_unretire]
    exact (List.length_filter_le _ _).trans h.bounded

/-! ## One eviction -/

/-- What evicting session `key` leaves: its mark is queued last, and the oldest mark
goes when the queue was full. -/
structure Evicted (rx : ReceiverCore) (key : SessionKey) (st : SessionState)
    (rx' : ReceiverCore) : Prop where
  tracked : rx.sessions.lookup key = some st
  sessions : rx'.sessions = rx.sessions.erase key
  order : rx'.retiredOrder =
    (rx.retiredOrder ++ [key]).drop (rx.retiredOrder.length + 1 - maxRetired)
  retired : ∀ k, rx'.retired.lookup k =
    if k ∈ (rx.retiredOrder ++ [key]).take (rx.retiredOrder.length + 1 - maxRetired) then none
    else if k = key then some st.window.highest else rx.retired.lookup k

theorem evictLru_cases (h : Inv rx) (onlySsrc : Option UInt32) :
    evictLru p rx onlySsrc = (rx, []) ∨
      ∃ key st, (evictLru p rx onlySsrc).2 = [key] ∧
        Evicted rx key st (evictLru p rx onlySsrc).1 := by
  unfold evictLru
  cases victim p rx onlySsrc with
  | none => exact Or.inl rfl
  | some key =>
      simp only
      cases hst : rx.sessions.lookup key with
      | none => exact Or.inl rfl
      | some st =>
          have hkey : rx.retired.lookup key = none := by
            rw [AList.lookup_eq_none]
            exact h.disjoint key (AList.lookup_isSome.mp (by rw [hst]; rfl))
          refine Or.inr ⟨key, st, rfl, hst, rfl, ?_, ?_⟩
          · simp only [retire, hkey, Option.isNone_none, if_true, trimRetired_snd,
              List.length_append, List.length_singleton]
          · intro k
            simp only [retire, hkey, Option.isNone_none, if_true, lookup_trimRetired,
              List.length_append, List.length_singleton]
            by_cases hk : k = key
            · subst k
              simp
            · simp [hk, AList.lookup_insert_ne hk]

namespace Evicted

variable {st : SessionState} {rx' : ReceiverCore}

theorem notMem_order (h : Evicted rx key st rx') (hinv : Inv rx) : key ∉ rx.retiredOrder := by
  rw [hinv.mem_order]
  exact hinv.disjoint key (AList.lookup_isSome.mp (by rw [h.tracked]; rfl))

theorem nodup_append (h : Evicted rx key st rx') (hinv : Inv rx) :
    (rx.retiredOrder ++ [key]).Nodup := by
  rw [List.nodup_append]
  refine ⟨hinv.nodup, List.nodup_singleton key, ?_⟩
  intro a ha b hb hab
  rw [List.mem_singleton] at hb
  rw [hab, hb] at ha
  exact h.notMem_order hinv ha

theorem mem_retired (h : Evicted rx key st rx') (hinv : Inv rx) :
    k ∈ rx'.retired ↔ k ∈ rx'.retiredOrder := by
  have hnodup := h.nodup_append hinv
  rw [← AList.lookup_isSome, h.retired, h.order]
  set n := rx.retiredOrder.length + 1 - maxRetired
  have hsplit := List.take_append_drop n (rx.retiredOrder ++ [key])
  have hdisj : k ∈ (rx.retiredOrder ++ [key]).take n → k ∉ (rx.retiredOrder ++ [key]).drop n := by
    intro h₁ h₂
    rw [← hsplit] at hnodup
    exact (List.nodup_append.mp hnodup).2.2 k h₁ k h₂ rfl
  have hmem : k ∈ (rx.retiredOrder ++ [key]).take n ∨ k ∈ (rx.retiredOrder ++ [key]).drop n ↔
      k ∈ rx.retired ∨ k = key := by
    rw [← List.mem_append, hsplit, List.mem_append, List.mem_singleton, hinv.mem_order]
  by_cases htake : k ∈ (rx.retiredOrder ++ [key]).take n
  · simp [htake, hdisj htake]
  · rw [if_neg htake]
    by_cases hk : k = key
    · have hdrop := (hmem.mpr (Or.inr hk)).resolve_left htake
      simp [hk, hk ▸ hdrop]
    · rw [if_neg hk, AList.lookup_isSome]
      simpa [htake, hk] using hmem.symm

theorem inv (h : Evicted rx key st rx') (hinv : Inv rx) : Inv rx' := by
  refine ⟨?_, ?_, fun k => (h.mem_retired hinv).symm, ?_⟩
  · intro k hk hret
    rw [h.sessions, AList.mem_erase] at hk
    rw [h.mem_retired hinv, h.order] at hret
    have hmem := List.mem_of_mem_drop hret
    rw [List.mem_append, List.mem_singleton, hinv.mem_order] at hmem
    rcases hmem with hmem | hmem
    · exact hinv.disjoint k hk.2 hmem
    · exact hk.1 hmem
  · rw [h.order]
    exact (h.nodup_append hinv).sublist (List.drop_sublist _ _)
  · rw [h.order, List.length_drop, List.length_append, List.length_singleton]
    omega

end Evicted

/-- A property of the receiver and the evictions so far that one eviction keeps is
kept by `makeRoomFor`. -/
theorem makeRoomFor_induction {P : ReceiverCore → List SessionKey → Prop}
    (hevict : ∀ rx evs onlySsrc, P rx evs →
      P (evictLru p rx onlySsrc).1 (evs ++ (evictLru p rx onlySsrc).2))
    (evs : List SessionKey) (h : P rx evs) (ssrc : UInt32) :
    P (makeRoomFor p rx ssrc).1 (evs ++ (makeRoomFor p rx ssrc).2) := by
  have hcond : ∀ (c : Prop) [Decidable c] rx evs onlySsrc, P rx evs →
      P (if c then evictLru p rx onlySsrc else (rx, [])).1
        (evs ++ (if c then evictLru p rx onlySsrc else (rx, [])).2) := by
    intro c _ rx evs onlySsrc hP
    split
    · exact hevict rx evs onlySsrc hP
    · simpa using hP
  unfold makeRoomFor
  rw [← List.append_assoc]
  exact hcond _ _ _ _ (hcond _ _ _ _ h)

theorem Inv.evictLru (h : Inv rx) (onlySsrc : Option UInt32) :
    Inv (evictLru p rx onlySsrc).1 := by
  rcases evictLru_cases (p := p) h onlySsrc with heq | ⟨key, st, -, hev⟩
  · rwa [heq]
  · exact hev.inv h

theorem Inv.makeRoomFor (h : Inv rx) (ssrc : UInt32) : Inv (makeRoomFor p rx ssrc).1 :=
  makeRoomFor_induction (P := fun rx _ => Inv rx)
    (fun _ _ onlySsrc h => h.evictLru onlySsrc) [] h ssrc

end SpecterComs.RelayAudio.ReceiverCore
