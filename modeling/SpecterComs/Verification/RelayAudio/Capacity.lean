import SpecterComs.Library.ExceptBind
import SpecterComs.Verification.RelayAudio.Delivery

/-! # How full the tables of the receiver get

Room is made before a session is opened, one eviction for its ssrc and one for the table, so neither
bound is passed. The marks are bounded where they are queued.
-/

namespace SpecterComs.RelayAudio.ReceiverCore

variable {p : Primitives} {rx rx' : ReceiverCore} {key k : SessionKey}

/-! ## Counting sessions -/

/-- The sessions whose key is of a kind. -/
def countSessions (rx : ReceiverCore) (q : SessionKey → Bool) : ℕ :=
  rx.sessions.keys.countP q

def ofSsrc (ssrc : UInt32) (key : SessionKey) : Bool :=
  key.1 == ssrc

theorem countSessions_all : rx.countSessions (fun _ => true) = rx.sessions.keys.length := by
  simp [countSessions]

theorem countSessions_ofSsrc (ssrc : UInt32) : rx.countSessions (ofSsrc ssrc) = rx.sameSsrc ssrc :=
  List.countP_eq_length_filter

theorem mem_keys : k ∈ rx.sessions.keys ↔ k ∈ rx.sessions :=
  AList.mem_keys.symm

theorem keys_perm (hmem : key ∈ rx.sessions) :
    rx.sessions.keys.Perm (key :: (rx.sessions.erase key).keys) := by
  rw [AList.keys_erase]
  exact @List.perm_cons_erase _ instBEqOfDecidableEq _ _ _ (mem_keys.mpr hmem)

/-- A session that goes is one of its kind less. -/
theorem countSessions_erase (hmem : key ∈ rx.sessions) (hs : rx'.sessions = rx.sessions.erase key)
    (q : SessionKey → Bool) :
    rx.countSessions q = rx'.countSessions q + if q key then 1 else 0 := by
  rw [countSessions, countSessions, hs, (keys_perm hmem).countP_eq, List.countP_cons]

variable {st : SessionState}

theorem countSessions_insert (hs : rx'.sessions = rx.sessions.insert key st)
    (q : SessionKey → Bool) :
    rx'.countSessions q = (rx.sessions.erase key).keys.countP q + if q key then 1 else 0 := by
  rw [countSessions, hs, AList.keys_insert, ← AList.keys_erase, List.countP_cons]

/-- A session that is written again leaves the numbers as they are. -/
theorem countSessions_insert_of_mem (hmem : key ∈ rx.sessions)
    (hs : rx'.sessions = rx.sessions.insert key st) (q : SessionKey → Bool) :
    rx'.countSessions q = rx.countSessions q := by
  rw [countSessions_insert hs, countSessions, (keys_perm hmem).countP_eq, List.countP_cons]

theorem countSessions_insert_le (hs : rx'.sessions = rx.sessions.insert key st)
    (q : SessionKey → Bool) :
    rx'.countSessions q ≤ rx.countSessions q + if q key then 1 else 0 := by
  rw [countSessions_insert hs, AList.keys_erase]
  exact Nat.add_le_add_right (@List.erase_sublist _ instBEqOfDecidableEq _ _).countP_le _

/-! ## One eviction -/

variable {onlySsrc : Option UInt32}

/-- Where there is a session to choose from, one of the right ssrc is evicted. -/
theorem evictLru_erases (hmem : k ∈ rx.sessions) (hssrc : onlySsrc.all (· == k.1) = true) :
    ∃ key, key ∈ rx.sessions ∧ onlySsrc.all (· == key.1) = true ∧
      (evictLru p rx onlySsrc).1.sessions = rx.sessions.erase key := by
  have hentries := p.hashIter_perm rx.sessions.entries
  have hvictim : ∃ key, victim p rx onlySsrc = some key := by
    rw [← Option.isSome_iff_exists, victim, Option.isSome_map, Option.isSome_iff_ne_none, ne_eq,
      List.argmin_eq_none]
    obtain ⟨st, hst⟩ := Option.isSome_iff_exists.mp (AList.lookup_isSome.mpr hmem)
    refine List.ne_nil_of_mem (a := ⟨k, st⟩) (List.mem_filter.mpr ⟨?_, hssrc⟩)
    exact hentries.mem_iff.mpr (AList.mem_lookup_iff.mp hst)
  obtain ⟨key, hkey⟩ := hvictim
  obtain ⟨entry, hentry, rfl⟩ := Option.map_eq_some_iff.mp hkey
  obtain ⟨hin, hall⟩ := List.mem_filter.mp (List.argmin_mem hentry)
  have hlookup : rx.sessions.lookup entry.1 = some entry.2 :=
    AList.mem_lookup_iff.mpr (hentries.mem_iff.mp hin)
  refine ⟨entry.1, AList.lookup_isSome.mp (Option.isSome_of_eq_some hlookup), hall, ?_⟩
  rw [evictLru, hkey]
  dsimp only
  rw [hlookup]
  rfl

/-- An eviction takes one session of the ssrc away, if there is any. -/
theorem evictLru_count (q : SessionKey → Bool)
    (hq : ∀ key, onlySsrc.all (· == key.1) = true → q key = true)
    (hsome : ∃ key ∈ rx.sessions, onlySsrc.all (· == key.1) = true) :
    (evictLru p rx onlySsrc).1.countSessions q + 1 = rx.countSessions q := by
  obtain ⟨k, hmem, hssrc⟩ := hsome
  obtain ⟨key, hkey, hall, hs⟩ := evictLru_erases (p := p) hmem hssrc
  rw [countSessions_erase hkey hs q, if_pos (hq key hall)]

theorem evictLru_count_le (onlySsrc : Option UInt32) (q : SessionKey → Bool) :
    (evictLru p rx onlySsrc).1.countSessions q ≤ rx.countSessions q := by
  unfold evictLru
  cases victim p rx onlySsrc with
  | none => exact le_rfl
  | some key =>
    dsimp only
    cases hst : rx.sessions.lookup key with
    | none => exact le_rfl
    | some st =>
      have hmem : key ∈ rx.sessions := AList.lookup_isSome.mp (Option.isSome_of_eq_some hst)
      have hcount : rx.countSessions q = (retire { rx with sessions := rx.sessions.erase key } key
          st.window.highest).countSessions q + if q key then 1 else 0 :=
        countSessions_erase hmem rfl q
      exact hcount ▸ Nat.le_add_right _ _

/-! ## Room for one more -/

/-- At most so many sessions of one ssrc and in all. -/
structure Bounded (rx : ReceiverCore) : Prop where
  total : rx.countSessions (fun _ => true) ≤ maxSessionsTotal
  perSsrc : ∀ ssrc, rx.countSessions (ofSsrc ssrc) ≤ maxSessionsPerSsrc

variable {q : SessionKey → Bool}

theorem exists_of_countSessions (h : 0 < rx.countSessions q) :
    ∃ key ∈ rx.sessions, q key = true := by
  obtain ⟨key, hkey, hq⟩ := List.countP_pos_iff.mp h
  exact ⟨key, mem_keys.mp hkey, hq⟩

/-- Where the bound of a kind is reached, an eviction of the kind takes the number below it. -/
theorem evict_below {bound : ℕ} (hbound : 0 < bound)
    (hq : ∀ key, q key = onlySsrc.all (· == key.1)) (h : rx.countSessions q ≤ bound) :
    ((if bound ≤ rx.countSessions q then evictLru p rx onlySsrc else (rx, [])).1).countSessions q <
      bound := by
  split
  · rename_i hfull
    have hsome := exists_of_countSessions (hbound.trans_le hfull)
    have hcount : (evictLru p rx onlySsrc).1.countSessions q + 1 = rx.countSessions q :=
      evictLru_count q (fun key hkey => (hq key).trans hkey)
        (hsome.imp fun key ⟨hmem, hkey⟩ => ⟨hmem, (hq key).symm.trans hkey⟩)
    omega
  · rename_i hroom
    exact Nat.lt_of_not_le hroom

theorem evict_le {c : Prop} [Decidable c] (onlySsrc : Option UInt32) (q : SessionKey → Bool) :
    ((if c then evictLru p rx onlySsrc else (rx, [])).1).countSessions q ≤ rx.countSessions q := by
  split
  · exact evictLru_count_le onlySsrc q
  · exact le_rfl

theorem Bounded.makeRoomFor (h : Bounded rx) (ssrc : UInt32) :
    (makeRoomFor p rx ssrc).1.countSessions (fun _ => true) < maxSessionsTotal ∧
      (makeRoomFor p rx ssrc).1.countSessions (ofSsrc ssrc) < maxSessionsPerSsrc ∧
      ∀ other, (makeRoomFor p rx ssrc).1.countSessions (ofSsrc other) ≤ maxSessionsPerSsrc := by
  unfold ReceiverCore.makeRoomFor
  simp only [← countSessions_ofSsrc, ← countSessions_all]
  have hfirst : ∀ q, ((if maxSessionsPerSsrc ≤ rx.countSessions (ofSsrc ssrc) then
      evictLru p rx (some ssrc) else (rx, [])).1).countSessions q ≤ rx.countSessions q :=
    fun q => evict_le (some ssrc) q
  have hper : ((if maxSessionsPerSsrc ≤ rx.countSessions (ofSsrc ssrc) then
      evictLru p rx (some ssrc) else (rx, [])).1).countSessions (ofSsrc ssrc) <
        maxSessionsPerSsrc :=
    evict_below (by decide) (fun key => by simp [ofSsrc, Option.all, eq_comm, beq_eq_decide])
      (h.perSsrc ssrc)
  have htotal := (hfirst fun _ => true).trans h.total
  generalize (if maxSessionsPerSsrc ≤ rx.countSessions (ofSsrc ssrc) then
    evictLru p rx (some ssrc) else (rx, [])).1 = first at hfirst hper htotal ⊢
  refine ⟨?_, (evict_le none _).trans_lt hper, fun other =>
    (evict_le none _).trans ((hfirst _).trans (h.perSsrc other))⟩
  exact evict_below (by decide) (fun _ => rfl) htotal

/-! ## Runs of calls -/

theorem bounded_new {secret : Bytes} {lane : Lane}
    (h : ReceiverCore.new p secret lane = .ok rx) : Bounded rx := by
  unfold ReceiverCore.new at h
  obtain ⟨kdf, -, h⟩ := Except.bind_eq_ok.mp h
  cases h
  exact ⟨Nat.zero_le _, fun _ => Nat.zero_le _⟩

theorem Bounded.congr (h : Bounded rx) (hs : rx'.sessions = rx.sessions) : Bounded rx' := by
  have hcount : ∀ q, rx'.countSessions q = rx.countSessions q := fun q => by
    rw [countSessions, countSessions, hs]
  exact ⟨(hcount _).trans_le h.total, fun ssrc => (hcount _).trans_le (h.perSsrc ssrc)⟩

theorem Bounded.run (h : Bounded rx) (c : Call) : Bounded (c.run p rx).core := by
  rcases run_cases p rx c with hrefused | ⟨parsed, -, hcontinued | hadmitted⟩
  · exact h.congr hrefused.sessions
  · obtain ⟨st, st', htracked, -, -, hsessions⟩ := hcontinued.window
    have hmem := AList.lookup_isSome.mp (Option.isSome_of_eq_some htracked)
    have hcount := countSessions_insert_of_mem hmem hsessions
    exact ⟨(hcount _).trans_le h.total, fun ssrc => (hcount _).trans_le (h.perSsrc ssrc)⟩
  · obtain ⟨start, w, st, tick, hstart, -, -, hsessions, -, -, -⟩ := hadmitted.room
    have hbounded : Bounded start := h.congr (by rw [hstart]; exact sessions_unretire)
    obtain ⟨htotal, hper, hother⟩ := hbounded.makeRoomFor (p := p) c.ssrc
    have hcount := countSessions_insert_le hsessions
    generalize (c.run p rx).core = core at hcount ⊢
    refine ⟨(hcount _).trans htotal, fun ssrc => ?_⟩
    have hle := hcount (ofSsrc ssrc)
    by_cases hssrc : c.ssrc = ssrc
    · subst hssrc
      split at hle
      · exact hle.trans (Nat.succ_le_of_lt hper)
      · rw [Nat.add_zero] at hle
        exact hle.trans (Nat.le_of_lt hper)
    · have hne : ofSsrc ssrc (c.ssrc, parsed.sessionId) = false := by simp [ofSsrc, hssrc]
      rw [hne, if_neg Bool.false_ne_true, Nat.add_zero] at hle
      exact hle.trans (hother ssrc)

theorem bounded_after (h : Bounded rx) (calls : List Call) : Bounded (after p rx calls) := by
  induction calls generalizing rx with
  | nil => exact h
  | cons c calls ih => exact ih (h.run c)

/-- A call that returns an error changes the tick and nothing else. -/
theorem core_of_error {rx₀ : ReceiverCore} (hkeyed : Keyed p rx₀ rx) {c : Call} {e : RelayError}
    (h : (c.run p rx).result = .error e) :
    ∃ tick, (c.run p rx).core = { rx with tick := tick } := by
  rcases run_cases p rx c with hrefused | ⟨parsed, -, hcontinued | hadmitted⟩
  · have hkdf := (hkeyed.run c).kdf.trans hkeyed.kdf.symm
    have hlane := (hkeyed.run c).lane.trans hkeyed.lane.symm
    have hsessions := hrefused.sessions
    have hretired := hrefused.retired
    have horder := hrefused.order
    generalize (c.run p rx).core = core at hkdf hlane hsessions hretired horder ⊢
    obtain ⟨kdf, lane, sessions, retired, retiredOrder, tick⟩ := core
    dsimp only at hkdf hlane hsessions hretired horder
    subst hkdf hlane hsessions hretired horder
    exact ⟨tick, rfl⟩
  · obtain ⟨pt, hpt⟩ := hcontinued.result
    rw [hpt] at h
    cases h
  · obtain ⟨pt, hpt⟩ := hadmitted.result
    rw [hpt] at h
    cases h

/-- What every sequence of calls leaves. -/
structure TableInvariant (p : Primitives) (rx : ReceiverCore) : Prop where
  total : rx.sessions.keys.length ≤ maxSessionsTotal
  perSsrc : ∀ ssrc, rx.sameSsrc ssrc ≤ maxSessionsPerSsrc
  retired : rx.retired.keys.length ≤ maxRetired
  /-- Every mark is queued once, and nothing else is queued. -/
  order : ∀ key, rx.retiredOrder.count key = if key ∈ rx.retired then 1 else 0
  disjoint : ∀ key, ¬ (key ∈ rx.sessions ∧ key ∈ rx.retired)
  error : ∀ c e, (Call.run p rx c).result = .error e →
    ∃ tick, (Call.run p rx c).core = { rx with tick := tick }

theorem Inv.retired_perm (h : Inv rx) : rx.retired.keys.Perm rx.retiredOrder :=
  (List.perm_ext_iff_of_nodup rx.retired.keys_nodup h.nodup).mpr fun k =>
    AList.mem_keys.symm.trans (h.mem_order k).symm

/-- The tables stay within their bounds, every mark is queued once, no key is both live and retired,
and a refused call only counts. -/
theorem receiver_table_invariant {secret : Bytes} {lane : Lane} {rx₀ : ReceiverCore}
    (hnew : ReceiverCore.new p secret lane = .ok rx₀) (calls : List Call) :
    TableInvariant p (after p rx₀ calls) := by
  have hinv := inv_after (p := p) (inv_new hnew) calls
  have hbounded := bounded_after (p := p) (bounded_new hnew) calls
  constructor
  · exact countSessions_all.symm.trans_le hbounded.total
  · exact fun ssrc => (countSessions_ofSsrc ssrc).symm.trans_le (hbounded.perSsrc ssrc)
  · exact hinv.retired_perm.length_eq.trans_le hinv.bounded
  · intro key
    rw [List.Nodup.count hinv.nodup]
    simp only [hinv.mem_order]
  · exact fun key h => hinv.disjoint key h.1 h.2
  · exact fun c e h => core_of_error ((keyed_new hnew).after calls) h

theorem receiver_table_invariant_one_frame :
    TableInvariant plainPrimitives (after plainPrimitives emptyReceiver [numberedFrame 7]) :=
  have hnew : ReceiverCore.new plainPrimitives (List.replicate groupSecretLen 9) .channel =
      .ok emptyReceiver := rfl
  receiver_table_invariant hnew _

end SpecterComs.RelayAudio.ReceiverCore
