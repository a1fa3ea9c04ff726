import Mathlib.Tactic.Ring
import SpecterComs.Library.ExceptBind
import SpecterComs.Verification.RelayAudio.Delivery

/-! # Sender and receiver agree

What `seal` writes is what `open` reads: both build nonce, associated data and key from the same
header. The numbers of a session never repeat, and every frame of it that reaches the receiver in
time returns the payload it was sealed from.
-/

namespace SpecterComs.RelayAudio

/-! ## What is written into a frame is what `parse` reads

Numbers are written big-endian. A frame is its header and its body, and the offsets of the header
are the lengths of what stands before.
-/

section Wire

/-! ## Big-endian numbers -/

theorem toBeBytes_succ (width n : ℕ) :
    toBeBytes (width + 1) n = UInt8.ofNat (n / 256 ^ width) :: toBeBytes width n := by
  simp [toBeBytes, List.range_succ]

@[simp] theorem length_toBeBytes (width n : ℕ) : (toBeBytes width n).length = width := by
  simp [toBeBytes]

/-- Reading on after the bytes of `a` shifts `a` by the width. -/
theorem foldl_toBeBytes (width a n : ℕ) :
    (toBeBytes width n).foldl (fun n b => n * 256 + b.toNat) a =
      a * 256 ^ width + n % 256 ^ width := by
  induction width generalizing a with
  | zero => simp [toBeBytes, Nat.mod_one]
  | succ width ih =>
      rw [toBeBytes_succ, List.foldl_cons, ih, Nat.mod_pow_succ, UInt8.toNat_ofNat']
      ring

theorem fromBeBytes_toBeBytes {width n : ℕ} (h : n < 256 ^ width) :
    fromBeBytes (toBeBytes width n) = n := by
  rw [fromBeBytes, foldl_toBeBytes, Nat.zero_mul, Nat.zero_add, Nat.mod_eq_of_lt h]

/-! ## Frames -/

variable {sessionId body : Bytes} {seq tsMs : ℕ}

theorem length_headerFor (hsession : sessionId.length = sessionIdLen) :
    (headerFor sessionId seq tsMs).length = headerLen := by
  simp [headerFor, hsession, headerLen, tsOffset, seqOffset]
  omega

/-- A header in front of a body long enough for a tag reads back as it was written. -/
theorem parse_headerFor (hsession : sessionId.length = sessionIdLen) (hseq : seq < 2 ^ 64)
    (hts : tsMs < 2 ^ 64) (hbody : tagLen ≤ body.length) :
    parse (headerFor sessionId seq tsMs ++ body) =
      .ok ⟨sessionId, seq, tsMs, headerFor sessionId seq tsMs, body⟩ := by
  have hheader : (headerFor sessionId seq tsMs).length = headerLen := length_headerFor hsession
  have hfirst : (version :: sessionId).length = seqOffset := by
    rw [List.length_cons, hsession, seqOffset, Nat.add_comm]
  have hsplit : headerFor sessionId seq tsMs ++ body =
      (version :: sessionId) ++ (toBeBytes 8 seq ++ (toBeBytes 8 tsMs ++ body)) := by
    simp only [headerFor, List.append_assoc]
  have htoTs : ((version :: sessionId) ++ toBeBytes 8 seq).length = tsOffset := by
    rw [List.length_append, hfirst, length_toBeBytes, tsOffset]
  have hlong : ¬ (headerFor sessionId seq tsMs ++ body).length < headerLen + tagLen := by
    rw [List.length_append, hheader]
    omega
  have hid : ((headerFor sessionId seq tsMs ++ body).take seqOffset).drop 1 = sessionId := by
    rw [hsplit, List.take_left' hfirst, List.drop_one, List.tail_cons]
  have hnumber : ((headerFor sessionId seq tsMs ++ body).take tsOffset).drop seqOffset =
      toBeBytes 8 seq := by
    rw [hsplit, ← List.append_assoc, List.take_left' htoTs, List.drop_left' hfirst]
  have htime : ((headerFor sessionId seq tsMs ++ body).take headerLen).drop tsOffset =
      toBeBytes 8 tsMs := by
    rw [List.take_left' hheader, headerFor]
    exact List.drop_left' htoTs
  have hempty : (headerFor sessionId seq tsMs ++ body).isEmpty = false := rfl
  have hversion : (headerFor sessionId seq tsMs ++ body).head? = some version := rfl
  rw [parse, hempty, if_neg Bool.false_ne_true, if_neg (not_not_intro hversion), if_neg hlong, hid,
    hnumber, htime, List.take_left' hheader, List.drop_left' hheader,
    fromBeBytes_toBeBytes (by simpa using hseq), fromBeBytes_toBeBytes (by simpa using hts)]

end Wire

/-! ## The authenticated encryption -/

/-- What the code relies on of ChaCha20-Poly1305: the tag is appended, and decrypting under the same
key, nonce and associated data returns the message. -/
structure Aead (p : Primitives) : Prop where
  decrypt_encrypt : ∀ key nonce aad msg ct,
    p.encrypt key nonce aad msg = some ct → p.decrypt key nonce aad ct = some msg
  length_encrypt : ∀ key nonce aad msg ct,
    p.encrypt key nonce aad msg = some ct → ct.length = msg.length + tagLen

variable {p : Primitives} {tx tx₀ : SenderCore}

/-! ## One call of `seal` -/

/-- The three ways a call ends: the counter is dead, encryption fails, or a frame comes out. -/
theorem seal_cases (p : Primitives) (tx : SenderCore) (c : SealCall) :
    tx.nextSeq = 2 ^ 64 - 1 ∧ c.run p tx = (.error .sequenceExhausted, tx) ∨
      tx.nextSeq ≠ 2 ^ 64 - 1 ∧
        (c.run p tx).2 = { tx with
          nextSeq := tx.nextSeq + 1, lastTsMs := max c.nowMs.toNat tx.lastTsMs } ∧
        ((c.run p tx).1 = .error .authFailed ∨
          ∃ ct, p.encrypt tx.cipher (nonceFor tx.nextSeq)
              (aadFor (headerFor tx.sessionId tx.nextSeq (max c.nowMs.toNat tx.lastTsMs)) c.ssrc
                tx.lane) c.payload = some ct ∧
            (c.run p tx).1 =
              .ok (headerFor tx.sessionId tx.nextSeq (max c.nowMs.toNat tx.lastTsMs) ++ ct)) := by
  unfold SealCall.run SenderCore.seal
  by_cases hdead : tx.nextSeq = 2 ^ 64 - 1
  · exact Or.inl ⟨hdead, if_pos hdead⟩
  · refine Or.inr ⟨hdead, ?_⟩
    rw [if_neg hdead]
    dsimp only
    cases hct : p.encrypt tx.cipher (nonceFor tx.nextSeq)
        (aadFor (headerFor tx.sessionId tx.nextSeq (max c.nowMs.toNat tx.lastTsMs)) c.ssrc tx.lane)
        c.payload with
    | none => exact ⟨rfl, Or.inl rfl⟩
    | some ct => exact ⟨rfl, Or.inr ⟨ct, rfl, rfl⟩⟩

/-- A session after some of its calls: only the counter and the clock have moved, and both are
`u64`. -/
structure Session (tx₀ tx : SenderCore) : Prop where
  kdf : tx.kdf = tx₀.kdf
  lane : tx.lane = tx₀.lane
  sessionId : tx.sessionId = tx₀.sessionId
  cipher : tx.cipher = tx₀.cipher
  seq : tx.nextSeq ≤ 2 ^ 64 - 1
  ts : tx.lastTsMs < 2 ^ 64

theorem Session.run (h : Session tx₀ tx) (c : SealCall) : Session tx₀ (c.run p tx).2 := by
  rcases seal_cases p tx c with ⟨-, heq⟩ | ⟨hlive, heq, -⟩
  · rw [heq]
    exact h
  · have hseq := h.seq
    rw [heq]
    exact ⟨h.kdf, h.lane, h.sessionId, h.cipher, by dsimp only; omega,
      max_lt c.nowMs.toNat_lt h.ts⟩

theorem Session.after (h : Session tx₀ tx) (calls : List SealCall) :
    Session tx₀ (senderAfter p tx calls) := by
  induction calls generalizing tx with
  | nil => exact h
  | cons c calls ih => exact ih (h.run c)

/-! ## The frames of a session -/

/-- What is known of a sealed frame `f` of the session of `tx₀`. -/
structure Sealed (p : Primitives) (tx₀ : SenderCore) (f : SealedFrame) : Prop where
  seq : f.seq < 2 ^ 64 - 1
  ts : f.tsMs < 2 ^ 64
  body : ∃ ct, f.frame = headerFor tx₀.sessionId f.seq f.tsMs ++ ct ∧
    p.encrypt tx₀.cipher (nonceFor f.seq)
      (aadFor (headerFor tx₀.sessionId f.seq f.tsMs) f.call.ssrc tx₀.lane) f.call.payload = some ct

/-- A call returns nothing, or one frame in front of what the later calls return. -/
theorem sealedFrames_cons_cases (p : Primitives) (tx : SenderCore) (c : SealCall)
    (calls : List SealCall) :
    sealedFrames p tx (c :: calls) = sealedFrames p (c.run p tx).2 calls ∨
      ∃ frame, (c.run p tx).1 = .ok frame ∧ sealedFrames p tx (c :: calls) =
        ⟨c, tx.nextSeq, (c.run p tx).2.lastTsMs, frame⟩ :: sealedFrames p (c.run p tx).2 calls := by
  cases h : (c.run p tx).1 with
  | error e =>
      left
      simp [sealedFrames, h]
  | ok frame =>
      right
      exact ⟨frame, rfl, by simp [sealedFrames, h]⟩

variable {frame secret sessionId : Bytes}

theorem Session.sealed (h : Session tx₀ tx) {c : SealCall} (hframe : (c.run p tx).1 = .ok frame) :
    Sealed p tx₀ ⟨c, tx.nextSeq, (c.run p tx).2.lastTsMs, frame⟩ := by
  rcases seal_cases p tx c with ⟨-, heq⟩ | ⟨hlive, heq, hfailed | ⟨ct, hct, hok⟩⟩
  · rw [heq] at hframe
    cases hframe
  · rw [hfailed] at hframe
    cases hframe
  · have hseq := h.seq
    have hts := (h.run (p := p) c).ts
    obtain rfl := Except.ok.inj (hok.symm.trans hframe)
    rw [heq] at hts ⊢
    rw [h.cipher, h.sessionId, h.lane] at hct
    refine ⟨by dsimp only; omega, hts, ct, ?_, hct⟩
    rw [h.sessionId]

theorem Session.sealed_of_mem (h : Session tx₀ tx) (calls : List SealCall) :
    ∀ f ∈ sealedFrames p tx calls, Sealed p tx₀ f := by
  induction calls generalizing tx with
  | nil =>
      intro f hf
      cases hf
  | cons c calls ih =>
      intro f hf
      rcases sealedFrames_cons_cases p tx c calls with heq | ⟨frame, hframe, heq⟩
      · rw [heq] at hf
        exact ih (h.run c) f hf
      · rw [heq, List.mem_cons] at hf
        rcases hf with rfl | hf
        · exact h.sealed hframe
        · exact ih (h.run c) f hf

/-- The counter and the clock of a session never go back. -/
theorem le_run (p : Primitives) (tx : SenderCore) (c : SealCall) :
    tx.nextSeq ≤ (c.run p tx).2.nextSeq ∧ tx.lastTsMs ≤ (c.run p tx).2.lastTsMs := by
  rcases seal_cases p tx c with ⟨-, heq⟩ | ⟨-, heq, -⟩
  · rw [heq]
    exact ⟨le_rfl, le_rfl⟩
  · rw [heq]
    exact ⟨Nat.le_succ _, le_max_right _ _⟩

theorem le_of_mem_sealedFrames (calls : List SealCall) :
    ∀ f ∈ sealedFrames p tx calls, tx.nextSeq ≤ f.seq ∧ tx.lastTsMs ≤ f.tsMs := by
  induction calls generalizing tx with
  | nil =>
      intro f hf
      cases hf
  | cons c calls ih =>
      intro f hf
      obtain ⟨hseq, hts⟩ := le_run p tx c
      rcases sealedFrames_cons_cases p tx c calls with heq | ⟨frame, -, heq⟩
      · rw [heq] at hf
        exact ⟨hseq.trans (ih f hf).1, hts.trans (ih f hf).2⟩
      · rw [heq, List.mem_cons] at hf
        rcases hf with rfl | hf
        · exact ⟨le_rfl, hts⟩
        · exact ⟨hseq.trans (ih f hf).1, hts.trans (ih f hf).2⟩

/-- A call that returns a frame has used up its number. -/
theorem nextSeq_lt_of_ok {c : SealCall} (h : (c.run p tx).1 = .ok frame) :
    tx.nextSeq < (c.run p tx).2.nextSeq := by
  rcases seal_cases p tx c with ⟨-, heq⟩ | ⟨-, heq, -⟩
  · rw [heq] at h
    cases h
  · rw [heq]
    exact Nat.lt_succ_self _

theorem sealedFrames_pairwise (calls : List SealCall) :
    (sealedFrames p tx calls).Pairwise fun f g => f.seq < g.seq ∧ f.tsMs ≤ g.tsMs := by
  induction calls generalizing tx with
  | nil => exact List.Pairwise.nil
  | cons c calls ih =>
      rcases sealedFrames_cons_cases p tx c calls with heq | ⟨frame, hframe, heq⟩
      · rw [heq]
        exact ih
      · rw [heq]
        refine List.Pairwise.cons (fun g hg => ?_) ih
        have hlater := le_of_mem_sealedFrames calls g hg
        exact ⟨(nextSeq_lt_of_ok hframe).trans_le hlater.1, hlater.2⟩

variable {calls : List SealCall}

/-- Two frames of one number are the same frame. -/
theorem eq_of_seq_eq {f g : SealedFrame} (hf : f ∈ sealedFrames p tx calls)
    (hg : g ∈ sealedFrames p tx calls) (h : f.seq = g.seq) : f = g := by
  have hnodup : ((sealedFrames p tx calls).map SealedFrame.seq).Nodup :=
    List.pairwise_map.mpr ((sealedFrames_pairwise calls).imp fun h => h.1.ne)
  exact List.inj_on_of_nodup_map hnodup hf hg h

/-! ## What the receiver does with an authentic frame -/

variable {rx rx₀ : ReceiverCore} {key : SessionKey} {seq : ℕ}

theorem eq_replay_of_check {w : ReplayWindow} {e : RelayError} (h : w.check seq = .error e) :
    e = .replay := by
  unfold ReplayWindow.check at h
  split at h
  · cases h
  · dsimp only at h
    split at h
    · exact (Except.error.inj h).symm
    · split at h
      · exact (Except.error.inj h).symm
      · cases h

theorem eq_replay_of_admission {e : RelayError} (h : rx.admission key seq = .error e) : e = .replay := by
  unfold ReceiverCore.admission at h
  cases hmark : rx.retired.lookup key with
  | none =>
      rw [hmark] at h
      cases h
  | some highest =>
      rw [hmark] at h
      cases hcheck : (ReplayWindow.resumed highest).check seq with
      | error e' =>
          rw [eq_replay_of_check hcheck] at hcheck
          simp only [hcheck, Except.map] at h
          exact (Except.error.inj h).symm
      | ok u =>
          simp only [hcheck, Except.map] at h
          cases h

/-- The verdict on an authentic frame: its number is refused, or its timestamp decides. -/
theorem result_of_authentic (hkeyed : Keyed p rx₀ rx) {c : Call} {parsed : ParsedHeader}
    {pt : Bytes} (hparse : parse c.frame = .ok parsed)
    (hpt : p.decrypt (rx₀.kdf.sessionCipher p rx₀.lane parsed.sessionId) (nonceFor parsed.seq)
      (aadFor parsed.header c.ssrc rx₀.lane) parsed.body = some pt) :
    (c.run p rx).result = .error .replay ∨ (c.run p rx).result =
      if withinSkew parsed.tsMs c.nowMs then .ok pt else .error .staleTimestamp := by
  unfold Call.run ReceiverCore.openFrame
  rw [← hkeyed.kdf, ← hkeyed.lane] at hpt
  rw [hparse]
  dsimp only
  cases hlookup : rx.sessions.lookup (c.ssrc, parsed.sessionId) with
  | some st =>
      have hcipher := hkeyed.cipher _ st hlookup
      rw [← hkeyed.kdf, ← hkeyed.lane] at hcipher
      dsimp only
      cases hcheck : st.window.check parsed.seq with
      | error e =>
          obtain rfl := eq_replay_of_check hcheck
          exact Or.inl rfl
      | ok u =>
          right
          dsimp only
          rw [hcipher, hpt]
          dsimp only
          split <;> rfl
  | none =>
      dsimp only
      cases hadmission : ReceiverCore.admission { rx with tick := (rx.tick + 1) % 2 ^ 64 }
          (c.ssrc, parsed.sessionId) parsed.seq with
      | error e =>
          obtain rfl := eq_replay_of_admission hadmission
          exact Or.inl rfl
      | ok w =>
          right
          dsimp only
          rw [hpt]
          dsimp only
          split <;> rfl

/-- Nothing of a session that was not evicted was accepted yet, or its window is complete. -/
theorem complete_of_kept (hinv : ReceiverCore.Inv rx₀) (hempty : HighWater (fun _ => ∅) rx₀)
    (calls : List Call) (hkept : key ∉ evictions p rx₀ calls) :
    acceptedIn p rx₀ calls key = ∅ ∨
      Complete (acceptedIn p rx₀ calls key) (after p rx₀ calls) key := by
  induction calls using List.reverseRecOn with
  | nil => exact Or.inl acceptedIn_nil
  | append_singleton calls c ih =>
      rw [evictions_append, List.mem_append, not_or] at hkept
      have hstep : key ∉ (c.run p (after p rx₀ calls)).evicted := fun h =>
        hkept.2 (List.mem_append_left _ h)
      have hmem : ∀ s, Accepts p (after p rx₀ calls) c key s →
          s ∈ acceptedIn p rx₀ (calls ++ [c]) key :=
        fun s hs => mem_acceptedIn_append.mpr (Or.inr hs)
      rw [after_append]
      rcases ih hkept.1 with hnone | hcomplete
      · by_cases haccepts : ∃ s, Accepts p (after p rx₀ calls) c key s
        · obtain ⟨s, hs⟩ := haccepts
          right
          obtain ⟨st, htracked, hrefused⟩ :=
            complete_of_first (highWater_after hinv hempty calls) hnone hs
          refine ⟨st, htracked, fun t ht => ?_⟩
          rcases hrefused t ht with rfl | ⟨u, rfl, hle⟩
          · exact Or.inl (hmem t hs)
          · exact Or.inr ⟨u, hmem u hs, hle⟩
        · left
          ext s
          rw [mem_acceptedIn_append, hnone]
          simpa using fun hs => haccepts ⟨s, hs⟩
      · right
        exact hcomplete.run (inv_after hinv calls) c
          (fun s hs => mem_acceptedIn_append.mpr (Or.inl hs)) hmem hstep

/-- An authentic frame within the window of a session that was not evicted is answered, unless its
number was accepted before. -/
theorem Authentic.accepts_of_kept {c : Call} (h : Authentic p rx₀ c key seq)
    (hinv : ReceiverCore.Inv rx₀) (hempty : HighWater (fun _ => ∅) rx₀) (hkeyed : Keyed p rx₀ rx₀)
    (calls : List Call) (hkept : key ∉ evictions p rx₀ calls)
    (hnew : seq ∉ acceptedIn p rx₀ calls key)
    (hwindow : ∀ t ∈ acceptedIn p rx₀ calls key, t < seq + replayWindow) :
    Accepts p (after p rx₀ calls) c key seq := by
  rcases complete_of_kept hinv hempty calls hkept with hnone | hcomplete
  · refine h.accepts_of_above (hkeyed.after calls) (highWater_after hinv hempty calls) fun s hs => ?_
    rw [hnone] at hs
    exact absurd hs (Set.notMem_empty s)
  · exact h.accepts_of_complete (hkeyed.after calls) hcomplete hnew hwindow

/-! ## A sender and a receiver of one secret and lane -/

/-- The receiver derives the key of the sender's session. -/
structure Paired (p : Primitives) (tx : SenderCore) (rx : ReceiverCore) : Prop where
  lane : tx.lane = rx.lane
  cipher : tx.cipher = rx.kdf.sessionCipher p rx.lane tx.sessionId

theorem paired_new {lane : Lane} (htx : SenderCore.new p secret lane (some sessionId) = .ok tx)
    (hrx : ReceiverCore.new p secret lane = .ok rx) : Paired p tx rx := by
  obtain ⟨kdf, hkdf, htx⟩ := Except.bind_eq_ok.mp htx
  obtain ⟨kdf', hkdf', hrx⟩ := Except.bind_eq_ok.mp hrx
  obtain rfl := Except.ok.inj (hkdf.symm.trans hkdf')
  cases htx
  cases hrx
  exact ⟨rfl, rfl⟩

theorem start_of_new {lane : Lane} (htx : SenderCore.new p secret lane (some sessionId) = .ok tx) :
    tx.sessionId = sessionId ∧ tx.lane = lane ∧ tx.nextSeq = 0 ∧ tx.lastTsMs = 0 := by
  obtain ⟨kdf, -, htx⟩ := Except.bind_eq_ok.mp htx
  cases htx
  exact ⟨rfl, rfl, rfl, rfl⟩

/-- A session before its first call, its counter moved to any value. -/
theorem session_of_start (hts : tx.lastTsMs = 0) {next : ℕ} (hnext : next < 2 ^ 64) :
    Session tx { tx with nextSeq := next } :=
  ⟨rfl, rfl, rfl, rfl, Nat.le_sub_one_of_lt hnext, hts ▸ Nat.two_pow_pos 64⟩

section Sealed

variable {f : SealedFrame}

/-- A sealed frame parses to what was written, and its body is what encryption returned. -/
theorem Sealed.parse (h : Sealed p tx f) (haead : Aead p)
    (hsession : tx.sessionId.length = sessionIdLen) :
    ∃ body, f.frame = headerFor tx.sessionId f.seq f.tsMs ++ body ∧
      RelayAudio.parse f.frame = .ok
        ⟨tx.sessionId, f.seq, f.tsMs, headerFor tx.sessionId f.seq f.tsMs, body⟩ ∧
      p.encrypt tx.cipher (nonceFor f.seq)
        (aadFor (headerFor tx.sessionId f.seq f.tsMs) f.call.ssrc tx.lane) f.call.payload =
          some body := by
  obtain ⟨body, hframe, hbody⟩ := h.body
  have hseq := h.seq
  have hlength := haead.length_encrypt _ _ _ _ _ hbody
  refine ⟨body, hframe, ?_, hbody⟩
  rw [hframe]
  exact parse_headerFor hsession (by omega) h.ts (by omega)

variable {d : Delivery}

/-- A sealed frame is answered with its payload, unless its number is refused or it is out of
skew. -/
theorem Sealed.result (h : Sealed p tx d.sealed) (haead : Aead p)
    (hsession : tx.sessionId.length = sessionIdLen) (hpaired : Paired p tx rx₀)
    (hkeyed : Keyed p rx₀ rx) :
    (d.call.run p rx).result = .error .replay ∨ (d.call.run p rx).result =
      if d.inSkew then .ok d.sealed.call.payload else .error .staleTimestamp := by
  obtain ⟨body, -, hparse, hbody⟩ := h.parse haead hsession
  have hpt := haead.decrypt_encrypt _ _ _ _ _ hbody
  rw [hpaired.cipher, hpaired.lane] at hpt
  exact result_of_authentic (c := d.call) hkeyed hparse hpt

theorem Sealed.authentic (h : Sealed p tx d.sealed) (haead : Aead p)
    (hsession : tx.sessionId.length = sessionIdLen) (hpaired : Paired p tx rx₀)
    (hskew : d.inSkew = true) :
    Authentic p rx₀ d.call (d.sealed.call.ssrc, tx.sessionId) d.sealed.seq := by
  obtain ⟨body, -, hparse, hbody⟩ := h.parse haead hsession
  have hpt := haead.decrypt_encrypt _ _ _ _ _ hbody
  rw [hpaired.cipher, hpaired.lane] at hpt
  exact ⟨_, d.sealed.call.payload, hparse, rfl, rfl, hpt, hskew⟩

/-- A sealed frame is only answered for its own session and number, and in skew. -/
theorem Sealed.of_accepts (h : Sealed p tx d.sealed) (haead : Aead p)
    (hsession : tx.sessionId.length = sessionIdLen) (hpaired : Paired p tx rx₀)
    (hkeyed : Keyed p rx₀ rx) (haccepts : Accepts p rx d.call key seq) :
    d.inSkew = true ∧ d.sealed.call.ssrc = key.1 ∧ d.sealed.seq = seq := by
  obtain ⟨parsed, pt, hparse, rfl, rfl, hresult⟩ := haccepts
  obtain ⟨body, -, hparse', -⟩ := h.parse haead hsession
  obtain rfl := Except.ok.inj (hparse.symm.trans hparse')
  refine ⟨?_, rfl, rfl⟩
  rcases h.result haead hsession hpaired hkeyed with hreplay | hverdict
  · rw [hreplay] at hresult
    cases hresult
  · by_contra hskew
    rw [if_neg hskew, hresult] at hverdict
    cases hverdict

end Sealed

/-! ## What a sequence of deliveries returns -/

theorem returned_append (calls : List Call) (c : Call) :
    returned p rx (calls ++ [c]) = returned p rx calls ++
      match (c.run p (after p rx calls)).result with
      | .error _ => []
      | .ok pt => [pt] := by
  induction calls generalizing rx with
  | nil => rfl
  | cons c' calls ih =>
      rw [List.cons_append, returned, returned, ih]
      cases (c'.run p rx).result with
      | error e => rfl
      | ok pt => rfl

/-- Frames of one session that arrive in time come at most once, and less than `replayWindow` below
those of their ssrc that came before. -/
def InWindow (ds : List Delivery) : Prop :=
  ds.Pairwise fun d e => d.inSkew = true → e.inSkew = true → d.sealed ≠ e.sealed ∧
    (d.sealed.call.ssrc = e.sealed.call.ssrc → d.sealed.seq < e.sealed.seq + replayWindow)

theorem returned_deliveries (haead : Aead p) (hsession : Session tx₀ tx)
    (hlength : tx₀.sessionId.length = sessionIdLen) (hpaired : Paired p tx₀ rx₀)
    (hinv : ReceiverCore.Inv rx₀) (hempty : HighWater (fun _ => ∅) rx₀) (hkeyed : Keyed p rx₀ rx₀)
    {ds : List Delivery} (hds : ∀ d ∈ ds, d.sealed ∈ sealedFrames p tx calls)
    (hwindow : InWindow ds) (hkept : evictions p rx₀ (ds.map Delivery.call) = []) :
    returned p rx₀ (ds.map Delivery.call) =
      (ds.filter Delivery.inSkew).map fun d => d.sealed.call.payload := by
  induction ds using List.reverseRecOn with
  | nil => rfl
  | append_singleton ds d ih =>
      rw [List.map_append, List.map_singleton, evictions_append, List.append_eq_nil_iff] at hkept
      have hbefore : ∀ e ∈ ds, e.sealed ∈ sealedFrames p tx calls := fun e he =>
        hds e (List.mem_append_left _ he)
      have hpairwise := List.pairwise_append.mp hwindow
      have hmem := hds d (List.mem_append_right _ (List.mem_singleton_self d))
      have hsealed := hsession.sealed_of_mem calls d.sealed hmem
      rw [List.map_append, List.map_singleton, returned_append, ih hbefore hpairwise.1 hkept.1,
        List.filter_append, List.map_append]
      congr 1
      have hverdict := hsealed.result haead hlength hpaired (hkeyed.after (ds.map Delivery.call))
      cases hskew : d.inSkew with
      | false =>
          rw [hskew, if_neg Bool.false_ne_true] at hverdict
          rcases hverdict with hresult | hresult <;> simp [hresult, hskew]
      | true =>
          -- what was accepted of this session came from earlier deliveries in time
          have haccepted : ∀ s ∈ acceptedIn p rx₀ (ds.map Delivery.call)
              (d.sealed.call.ssrc, tx₀.sessionId), ∃ e ∈ ds, e.inSkew = true ∧
                e.sealed.call.ssrc = d.sealed.call.ssrc ∧ e.sealed.seq = s := by
            rintro s ⟨pre, c, post, hsplit, haccepts⟩
            have hc : c ∈ ds.map Delivery.call := by
              rw [hsplit]
              exact List.mem_append_right _ List.mem_cons_self
            obtain ⟨e, he, rfl⟩ := List.mem_map.mp hc
            have hsealed_e := hsession.sealed_of_mem calls e.sealed (hbefore e he)
            exact ⟨e, he, hsealed_e.of_accepts haead hlength hpaired (hkeyed.after pre) haccepts⟩
          have haccepts : Accepts p (after p rx₀ (ds.map Delivery.call)) d.call
              (d.sealed.call.ssrc, tx₀.sessionId) d.sealed.seq := by
            refine (hsealed.authentic haead hlength hpaired hskew).accepts_of_kept hinv hempty
              hkeyed (ds.map Delivery.call) (by simp [hkept.1]) ?_ ?_
            · intro hseq
              obtain ⟨e, he, heskew, -, heq⟩ := haccepted _ hseq
              refine (hpairwise.2.2 e he d (List.mem_singleton_self d) heskew hskew).1 ?_
              exact eq_of_seq_eq (hbefore e he) hmem heq
            · intro s hs
              obtain ⟨e, he, heskew, hssrc, rfl⟩ := haccepted s hs
              exact (hpairwise.2.2 e he d (List.mem_singleton_self d) heskew hskew).2 hssrc
          rw [hskew, if_pos rfl] at hverdict
          rcases hverdict with hreplay | hresult
          · obtain ⟨parsed, pt, -, -, -, hok⟩ := haccepts
            rw [hreplay] at hok
            cases hok
          · simp [hresult, hskew]

/-! ## Agreement -/

/-- What holds of the session `tx`, made of `secret` and `lane`, and of its receivers. -/
structure Agreement (p : Primitives) (secret : Bytes) (lane : Lane) (sessionId : Bytes)
    (tx : SenderCore) : Prop where
  /-- The number a call takes is below that of every later call. -/
  never_reused : ∀ pre c mid,
    (SealCall.run p (senderAfter p tx pre) c).1 ≠ .error .sequenceExhausted →
    (senderAfter p tx pre).nextSeq < (senderAfter p tx (pre ++ c :: mid)).nextSeq
  /-- The last `u64` is refused, and stays refused. -/
  exhausted : ∀ calls c, (senderAfter p tx calls).nextSeq = 2 ^ 64 - 1 →
    SealCall.run p (senderAfter p tx calls) c = (.error .sequenceExhausted, senderAfter p tx calls)
  ordered : ∀ calls, (sealedFrames p tx calls).Pairwise fun f g => f.seq < g.seq ∧ f.tsMs ≤ g.tsMs
  parsed : ∀ calls, ∀ f ∈ sealedFrames p tx calls, f.seq < 2 ^ 64 - 1 ∧ ∃ body,
    f.frame = headerFor sessionId f.seq f.tsMs ++ body ∧
    parse f.frame = .ok ⟨sessionId, f.seq, f.tsMs, headerFor sessionId f.seq f.tsMs, body⟩ ∧
    p.encrypt tx.cipher (nonceFor f.seq)
      (aadFor (headerFor sessionId f.seq f.tsMs) f.call.ssrc lane) f.call.payload = some body
  /-- In any order within the window, once each and without evictions, the frames in skew return
  their payloads. -/
  delivered : ∀ rx, ReceiverCore.new p secret lane = .ok rx → ∀ calls (ds : List Delivery),
    (∀ d ∈ ds, d.sealed ∈ sealedFrames p tx calls) → InWindow ds →
    evictions p rx (ds.map Delivery.call) = [] →
      returned p rx (ds.map Delivery.call) =
        (ds.filter Delivery.inSkew).map fun d => d.sealed.call.payload

theorem senderAfter_append (pre : List SealCall) (c : SealCall) (mid : List SealCall) :
    senderAfter p tx (pre ++ c :: mid) =
      senderAfter p (c.run p (senderAfter p tx pre)).2 mid := by
  rw [senderAfter, senderAfter, senderAfter, List.foldl_append, List.foldl_cons]

theorem nextSeq_le_after (calls : List SealCall) :
    tx.nextSeq ≤ (senderAfter p tx calls).nextSeq := by
  induction calls generalizing tx with
  | nil => exact le_rfl
  | cons c calls ih => exact (le_run p tx c).1.trans ih

/-- Sender and receiver agree, from a new session on or from any value its counter is moved to. -/
theorem sender_receiver_agree {secret sessionId : Bytes} {lane : Lane} (haead : Aead p)
    (hlength : sessionId.length = sessionIdLen)
    (htx : SenderCore.new p secret lane (some sessionId) = .ok tx) (next : UInt64) :
    Agreement p secret lane sessionId { tx with nextSeq := next.toNat } := by
  obtain ⟨rfl, hlane, -, hts⟩ := start_of_new htx
  have hsession := session_of_start hts next.toNat_lt
  constructor
  · intro pre c mid hlive
    rw [senderAfter_append]
    refine lt_of_lt_of_le ?_ (nextSeq_le_after mid)
    rcases seal_cases p (senderAfter p { tx with nextSeq := next.toNat } pre) c with
      ⟨-, heq⟩ | ⟨-, heq, -⟩
    · rw [heq] at hlive
      exact absurd rfl hlive
    · rw [heq]
      exact Nat.lt_succ_self _
  · intro calls c hdead
    rcases seal_cases p (senderAfter p { tx with nextSeq := next.toNat } calls) c with
      ⟨-, heq⟩ | ⟨hlive, -⟩
    · exact heq
    · exact absurd hdead hlive
  · exact fun calls => sealedFrames_pairwise calls
  · intro calls f hf
    have hsealed := hsession.sealed_of_mem calls f hf
    refine ⟨hsealed.seq, ?_⟩
    rw [← hlane]
    exact hsealed.parse haead hlength
  · intro rx hrx calls ds hds hwindow hkept
    exact returned_deliveries haead hsession hlength (paired_new htx hrx)
      (ReceiverCore.inv_new hrx) (highWater_new hrx) (keyed_new hrx) hds hwindow hkept

theorem aead_plainPrimitives : Aead plainPrimitives := by
  constructor
  · intro key nonce aad msg ct h
    obtain rfl := Option.some.inj h
    simp [plainPrimitives]
  · intro key nonce aad msg ct h
    obtain rfl := Option.some.inj h
    simp

/-- A sender of the secret of `emptyReceiver`. -/
def firstSender : SenderCore :=
  ⟨emptyReceiver.kdf, .channel, List.replicate sessionIdLen 5, List.replicate groupSecretLen 9, 0, 0⟩

/-- Two calls, the second when the clock has been put back by five seconds. -/
def twoSealCalls : List SealCall :=
  [⟨[1], 3, 9000⟩, ⟨[2], 3, 4000⟩]

/-- The second frame first, then the first. -/
def swappedDeliveries : List Delivery :=
  (sealedFrames plainPrimitives firstSender twoSealCalls).reverse.map fun f => ⟨f, 9000⟩

theorem sender_receiver_agree_swapped :
    returned plainPrimitives emptyReceiver (swappedDeliveries.map Delivery.call) = [[2], [1]] := by
  have htx : SenderCore.new plainPrimitives (List.replicate groupSecretLen 9) .channel
      (some (List.replicate sessionIdLen 5)) = .ok firstSender := rfl
  have hrx : ReceiverCore.new plainPrimitives (List.replicate groupSecretLen 9) .channel =
      .ok emptyReceiver := rfl
  have hagree := sender_receiver_agree aead_plainPrimitives (List.length_replicate ..) htx 0
  refine hagree.delivered emptyReceiver hrx twoSealCalls swappedDeliveries ?_ ?_ ?_
  · decide +kernel
  · unfold InWindow
    decide +kernel
  · decide +kernel

/-! # A sender whose clock was wrong

The timestamp of a frame is the highest reading of its session. A reading that was too early leaves
no trace; one that was too late is written until the clock has caught up with it.
-/

/-- A sender whose counter is dead stays as it is. -/
theorem senderAfter_of_exhausted (hdead : tx.nextSeq = 2 ^ 64 - 1) (calls : List SealCall) :
    senderAfter p tx calls = tx := by
  induction calls with
  | nil => rfl
  | cons c calls ih =>
      rcases seal_cases p tx c with ⟨-, heq⟩ | ⟨hlive, -⟩
      · calc senderAfter p tx (c :: calls) = senderAfter p (c.run p tx).2 calls := rfl
          _ = senderAfter p tx calls := by rw [heq]
          _ = tx := ih
      · exact absurd hdead hlive

/-- The clock of a live sender is the highest reading of its calls. -/
theorem lastTsMs_senderAfter (calls : List SealCall)
    (hlive : (senderAfter p tx calls).nextSeq ≠ 2 ^ 64 - 1) :
    (senderAfter p tx calls).lastTsMs =
      calls.foldl (fun ts c => max c.nowMs.toNat ts) tx.lastTsMs := by
  induction calls generalizing tx with
  | nil => rfl
  | cons c calls ih =>
      rcases seal_cases p tx c with ⟨hdead, -⟩ | ⟨-, heq, -⟩
      · rw [senderAfter_of_exhausted hdead] at hlive
        exact absurd hdead hlive
      · have hrest : (senderAfter p (c.run p tx).2 calls).lastTsMs =
            calls.foldl (fun ts c => max c.nowMs.toNat ts) (c.run p tx).2.lastTsMs := ih hlive
        rw [heq] at hrest
        rw [List.foldl_cons, ← hrest, ← heq]
        rfl

theorem lt_highest_iff (bound start : ℕ) (calls : List SealCall) :
    bound < calls.foldl (fun ts c => max c.nowMs.toNat ts) start ↔
      bound < start ∨ ∃ c ∈ calls, bound < c.nowMs.toNat := by
  induction calls generalizing start with
  | nil => simp
  | cons c calls ih =>
      rw [List.foldl_cons, ih, lt_max_iff]
      simp only [List.mem_cons, exists_eq_or_imp]
      tauto

/-- The timestamp of a frame, where it is within the skew of a clock unless a reading was ahead. -/
theorem withinSkew_max {readingMs highestMs nowMs : ℕ} (hskew : withinSkew readingMs nowMs = true) :
    withinSkew (max readingMs highestMs) nowMs = true ↔ ¬ nowMs + maxSkewMs < highestMs := by
  simp only [withinSkew, decide_eq_true_eq] at hskew ⊢
  omega

/-- A frame that is refused as stale carries a timestamp out of skew. -/
theorem not_withinSkew_of_stale {rx : ReceiverCore} {c : Call} {parsed : ParsedHeader}
    (hparse : parse c.frame = .ok parsed)
    (h : (c.run p rx).result = .error .staleTimestamp) : withinSkew parsed.tsMs c.nowMs = false := by
  by_contra hskew
  rw [Bool.not_eq_false] at hskew
  unfold Call.run ReceiverCore.openFrame at h
  rw [hparse] at h
  dsimp only at h
  cases hlookup : rx.sessions.lookup (c.ssrc, parsed.sessionId) with
  | some st =>
      rw [hlookup] at h
      dsimp only at h
      cases hcheck : st.window.check parsed.seq with
      | error e =>
          rw [hcheck, eq_replay_of_check hcheck] at h
          cases h
      | ok u =>
          rw [hcheck] at h
          dsimp only at h
          split at h
          · cases h
          · rw [if_pos hskew] at h
            cases h
  | none =>
      rw [hlookup] at h
      dsimp only at h
      cases hadmission : ReceiverCore.admission { rx with tick := (rx.tick + 1) % 2 ^ 64 }
          (c.ssrc, parsed.sessionId) parsed.seq with
      | error e =>
          rw [hadmission, eq_replay_of_admission hadmission] at h
          cases h
      | ok w =>
          rw [hadmission] at h
          dsimp only at h
          split at h
          · cases h
          · rw [if_pos hskew] at h
            cases h

/-- A session recovers from every wrong clock but one that was ahead: a frame sealed within the skew
of the receiver's clock is refused as stale on no receiver when no earlier reading was further ahead
of that clock. After such a reading it is refused by each of its receivers. -/
theorem recovers_unless_ahead {secret sessionId : Bytes} {lane : Lane} (haead : Aead p)
    (hlength : sessionId.length = sessionIdLen)
    (htx : SenderCore.new p secret lane (some sessionId) = .ok tx) (history : List SealCall)
    {c : SealCall} {frame : Bytes} (hframe : (c.run p (senderAfter p tx history)).1 = .ok frame)
    {nowMs : ℕ} (hskew : withinSkew c.nowMs.toNat nowMs = true) :
    ((∀ c' ∈ history, c'.nowMs.toNat ≤ nowMs + maxSkewMs) → ∀ rx ssrc,
        (Call.run p rx ⟨frame, ssrc, nowMs⟩).result ≠ .error .staleTimestamp) ∧
      ((∃ c' ∈ history, nowMs + maxSkewMs < c'.nowMs.toNat) → ∀ rx,
        ReceiverCore.new p secret lane = .ok rx → ∀ earlier,
          (Call.run p (after p rx earlier) ⟨frame, c.ssrc, nowMs⟩).result =
              .error .staleTimestamp ∨
            (Call.run p (after p rx earlier) ⟨frame, c.ssrc, nowMs⟩).result = .error .replay) := by
  obtain ⟨rfl, -, hseq, hzero⟩ := start_of_new htx
  have hsession : Session tx tx := by
    have hstart := session_of_start hzero (Nat.two_pow_pos 64)
    rwa [← hseq] at hstart
  have hsealed := (hsession.after (p := p) history).sealed hframe
  obtain ⟨body, -, hparse, -⟩ := hsealed.parse haead hlength
  -- the timestamp is the current reading or the highest one before it
  obtain ⟨hlive, hts⟩ : (senderAfter p tx history).nextSeq ≠ 2 ^ 64 - 1 ∧
      (c.run p (senderAfter p tx history)).2.lastTsMs =
        max c.nowMs.toNat (senderAfter p tx history).lastTsMs := by
    rcases seal_cases p (senderAfter p tx history) c with ⟨-, heq⟩ | ⟨hlive, heq, -⟩
    · rw [heq] at hframe
      cases hframe
    · exact ⟨hlive, by rw [heq]⟩
  have hahead : withinSkew (c.run p (senderAfter p tx history)).2.lastTsMs nowMs = true ↔
      ¬ ∃ c' ∈ history, nowMs + maxSkewMs < c'.nowMs.toNat := by
    rw [hts, withinSkew_max hskew, lastTsMs_senderAfter history hlive, lt_highest_iff, hzero]
    simp
  constructor
  · intro hbehind rx ssrc hstale
    have hout := not_withinSkew_of_stale hparse hstale
    have hin := hahead.mpr fun ⟨c', hc', hlt⟩ => absurd (hbehind c' hc') (Nat.not_le.mpr hlt)
    exact Bool.false_ne_true (hout.symm.trans hin)
  · intro hsome rx hrx earlier
    have hkeyed := (keyed_new hrx).after (p := p) earlier
    have hverdict := hsealed.result (d := ⟨_, nowMs⟩) haead hlength (paired_new htx hrx) hkeyed
    rw [Delivery.inSkew, if_neg fun hin => hahead.mp hin hsome] at hverdict
    exact hverdict.symm

/-! ## A clock that was ahead for one frame -/

/-- The claim for every history fails after one reading that was a minute and a half ahead. -/
theorem not_always_recovers :
    ¬ ∀ (p : Primitives) (secret sessionId : Bytes) (lane : Lane) (tx : SenderCore)
        (rx : ReceiverCore), Aead p → sessionId.length = sessionIdLen →
      SenderCore.new p secret lane (some sessionId) = .ok tx →
      ReceiverCore.new p secret lane = .ok rx →
      ∀ (history : List SealCall) (c : SealCall) (frame : Bytes) (nowMs : ℕ),
        (c.run p (senderAfter p tx history)).1 = .ok frame →
        withinSkew c.nowMs.toNat nowMs = true →
          (Call.run p rx ⟨frame, c.ssrc, nowMs⟩).result ≠ .error .staleTimestamp := by
  intro h
  refine h plainPrimitives (List.replicate groupSecretLen 9) (List.replicate sessionIdLen 5)
    .channel firstSender emptyReceiver aead_plainPrimitives (List.length_replicate ..) rfl rfl
    [⟨[1], 3, 99000⟩] ⟨[2], 3, 9000⟩ _ 9000 rfl (by decide) ?_
  decide +kernel

/-- A clock that was behind for one frame leaves no trace. -/
theorem recovers_unless_ahead_behind :
    (Call.run plainPrimitives emptyReceiver
      ⟨headerFor (List.replicate sessionIdLen 5) 1 9000 ++ 2 :: List.replicate tagLen 0, 3,
        9500⟩).result ≠ .error .staleTimestamp :=
  (recovers_unless_ahead (p := plainPrimitives) (c := ⟨[2], 3, 9000⟩) aead_plainPrimitives
    (List.length_replicate ..)
    (show SenderCore.new plainPrimitives (List.replicate groupSecretLen 9) .channel
      (some (List.replicate sessionIdLen 5)) = .ok firstSender from rfl)
    [⟨[1], 3, 0⟩] rfl (by decide)).1 (by decide) emptyReceiver 3

end SpecterComs.RelayAudio
