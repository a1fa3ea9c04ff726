import SpecterComs.Model.RelayAudio.Lanes
import SpecterComs.Verification.RelayAudio.Agreement
import SpecterComs.Verification.RelayAudio.KeyGraceSlot

/-! # Opening audio frames across rekeys

Two receivers of a lane are never of one secret, so a frame that was played meets the
receiver that played it for as long as that one is held. What a receiver has gone through
is a list of calls, whatever the slots did in the meantime.
-/

namespace SpecterComs.RelayLanes

open RelayAudio FrameProto KeyGrace

variable {p : Primitives} {s t u : Lanes} {rx : Receiver} {lane : Lane} {handle : ℕ}

/-! ## Receivers -/

/-- A receiver after some calls. -/
def Receiver.run (p : Primitives) (rx : Receiver) (calls : List Call) : Receiver :=
  ⟨after p rx.core calls, rx.evicted ++ evictions p rx.core calls⟩

theorem Receiver.run_nil (rx : Receiver) : rx.run p [] = rx := by
  simp [Receiver.run, after, evictions]

theorem Receiver.run_append (rx : Receiver) (calls more : List Call) :
    rx.run p (calls ++ more) = (rx.run p calls).run p more := by
  simp only [Receiver.run, after_append, evictions_append, List.append_assoc]

/-- What holds of every receiver that was created. -/
structure Receiver.Sound (p : Primitives) (rx : Receiver) : Prop where
  table : ReceiverCore.Inv rx.core
  keyed : Keyed p rx.core rx.core
  derived : ∃ secret, GroupKdf.new p secret = .ok rx.core.kdf

theorem Receiver.Sound.run (h : rx.Sound p) (calls : List Call) :
    (rx.run p calls).Sound p ∧ (rx.run p calls).core.kdf = rx.core.kdf ∧
      (rx.run p calls).core.lane = rx.core.lane := by
  have hkeyed := h.keyed.after calls
  refine ⟨⟨inv_after h.table calls, ⟨rfl, rfl, fun k st hk => ?_⟩, ?_⟩, hkeyed.kdf, hkeyed.lane⟩
  · rw [hkeyed.cipher k st hk]
    exact congrArg₂ (GroupKdf.sessionCipher p · · k.2) hkeyed.kdf.symm hkeyed.lane.symm
  · obtain ⟨secret, hsecret⟩ := h.derived
    exact ⟨secret, hsecret.trans (congrArg Except.ok hkeyed.kdf.symm)⟩

theorem groupKdf_new_eq_ok {secret : Bytes} {kdf : GroupKdf}
    (h : GroupKdf.new p secret = .ok kdf) :
    secret.length = groupSecretLen ∧
      kdf = ⟨secret, p.hkdfExpand kdfSalt secret kdfFingerprintInfo⟩ := by
  unfold GroupKdf.new at h
  split at h
  · cases h
  · rename_i hlength
    exact ⟨not_not.mp hlength, (Except.ok.inj h).symm⟩

theorem Receiver.Sound.length (h : rx.Sound p) :
    rx.core.kdf.groupSecret.length = groupSecretLen := by
  obtain ⟨secret, hsecret⟩ := h.derived
  obtain ⟨hlength, hkdf⟩ := groupKdf_new_eq_ok hsecret
  rw [hkdf]
  exact hlength

/-- A receiver recognises its own secret. -/
theorem Receiver.Sound.matchesSecret (h : rx.Sound p) :
    rx.core.matchesSecret p rx.core.kdf.groupSecret = true := by
  obtain ⟨secret, hsecret⟩ := h.derived
  obtain ⟨-, hkdf⟩ := groupKdf_new_eq_ok hsecret
  have hself : GroupKdf.new p rx.core.kdf.groupSecret = .ok rx.core.kdf := by
    rw [← hsecret]
    exact congrArg (GroupKdf.new p ·.groupSecret) hkdf
  simp [ReceiverCore.matchesSecret, GroupKdf.matches, hself]

/-- A new receiver is of the secret and the lane it was created for. -/
theorem sound_new {secret : Bytes} {core : ReceiverCore}
    (h : ReceiverCore.new p secret lane = .ok core) :
    Receiver.Sound p ⟨core, []⟩ ∧ core.kdf.groupSecret = secret ∧ core.lane = lane := by
  have hkeyed := keyed_new h
  have hinv := ReceiverCore.inv_new h
  obtain ⟨kdf, hkdf, hcore⟩ := Except.bind_eq_ok.mp h
  obtain rfl := Except.ok.inj hcore
  obtain ⟨-, hsecret⟩ := groupKdf_new_eq_ok hkdf
  exact ⟨⟨hinv, hkeyed, secret, hkdf⟩, congrArg GroupKdf.groupSecret hsecret, rfl⟩

/-- Each receiver has run some calls, and no receiver is gone. -/
def Ran (p : Primitives) (rxs rxs' : List Receiver) : Prop :=
  ∀ (handle : ℕ) (rx : Receiver), rxs[handle]? = some rx →
    ∃ calls, rxs'[handle]? = some (rx.run p calls)

theorem Ran.refl (rxs : List Receiver) : Ran p rxs rxs :=
  fun _ rx h => ⟨[], by rw [rx.run_nil, h]⟩

theorem Ran.trans {rxs rxs' rxs'' : List Receiver} (h : Ran p rxs rxs') (h' : Ran p rxs' rxs'') :
    Ran p rxs rxs'' := by
  intro handle rx hrx
  obtain ⟨calls, hcalls⟩ := h handle rx hrx
  obtain ⟨more, hmore⟩ := h' handle _ hcalls
  exact ⟨calls ++ more, by rw [rx.run_append, hmore]⟩

theorem ran_set {rxs : List Receiver} (hrx : rxs[handle]? = some rx) (c : Call) :
    Ran p rxs (rxs.set handle (rx.run p [c])) := by
  intro other rx' hrx'
  by_cases heq : handle = other
  · subst heq
    obtain rfl := Option.some.inj (hrx.symm.trans hrx')
    exact ⟨[c], List.getElem?_set_self (List.getElem?_eq_some_iff.mp hrx).1⟩
  · exact ⟨[], by rw [List.getElem?_set_ne heq, rx'.run_nil, hrx']⟩

theorem ran_append (rxs : List Receiver) (rx : Receiver) : Ran p rxs (rxs ++ [rx]) := by
  intro handle rx' hrx'
  refine ⟨[], ?_⟩
  rw [List.getElem?_append_left (List.getElem?_eq_some_iff.mp hrx').1, rx'.run_nil, hrx']

/-! ## Lanes -/

namespace Lanes

@[simp] theorem slot_setSlot_self (slot : Slot ℕ) : (s.setSlot lane slot).slot lane = slot := by
  cases lane <;> rfl

theorem slot_setSlot_of_ne {other : Lane} (h : other ≠ lane) (slot : Slot ℕ) :
    (s.setSlot lane slot).slot other = s.slot other := by
  cases lane <;> cases other <;> first | rfl | exact absurd rfl h

@[simp] theorem receivers_setSlot (slot : Slot ℕ) :
    (s.setSlot lane slot).receivers = s.receivers := by
  cases lane <;> rfl

def secretOf (s : Lanes) (handle : ℕ) : Option Bytes :=
  s.receivers[handle]?.map (·.core.kdf.groupSecret)

structure Inv (p : Primitives) (s : Lanes) : Prop where
  sound : ∀ (handle : ℕ) (rx : Receiver), s.receivers[handle]? = some rx → rx.Sound p
  slots : ∀ lane, (s.slot lane).Inv
  placed : ∀ lane, ∀ handle ∈ (s.slot lane).installed,
    ∃ rx, s.receivers[handle]? = some rx ∧ rx.core.lane = lane
  /-- The two receivers of a lane are of different secrets. -/
  apart : ∀ lane a b, (s.slot lane).current = some a → (s.slot lane).previous = some b →
    s.secretOf a ≠ s.secretOf b

theorem inv_empty : Inv p empty := by
  have hslots : ∀ lane, empty.slot lane = .empty := fun lane => by cases lane <;> rfl
  refine ⟨fun handle rx h => ?_, fun lane => ?_, fun lane handle h => ?_, fun lane a b h => ?_⟩
  · simp [empty] at h
  · rw [hslots]
    exact ⟨Slot.timed_empty, Slot.keys_empty⟩
  · rw [hslots] at h
    cases h
  · rw [hslots] at h
    cases h

theorem isFreed_eq_true_iff :
    s.isFreed handle = true ↔ ∃ lane, handle ∈ (s.slot lane).freed := by
  simp only [isFreed, List.any_append, Bool.or_eq_true, List.any_eq_true, decide_eq_true_eq,
    Slot.freed, List.mem_map]
  constructor
  · rintro (h | h)
    · exact ⟨.channel, h⟩
    · exact ⟨.cascade, h⟩
  · rintro ⟨lane, h⟩
    cases lane with
    | channel => exact .inl h
    | cascade => exact .inr h

/-- A held receiver is one of its lane, and was not freed. -/
theorem Inv.live_of_holds (h : s.Inv p) (hholds : (s.slot lane).Holds handle) :
    ∃ rx, s.live handle = some rx ∧ s.receivers[handle]? = some rx ∧ rx.core.lane = lane := by
  have hmem := ((h.slots lane).keys.owned handle).mpr (.inl hholds)
  obtain ⟨rx, hrx, hlane⟩ := h.placed lane handle hmem
  refine ⟨rx, ?_, hrx, hlane⟩
  have hfreed : s.isFreed handle ≠ true := by
    rw [Ne, isFreed_eq_true_iff]
    rintro ⟨other, hother⟩
    obtain ⟨rx', hrx', hlane'⟩ :=
      h.placed other handle (((h.slots other).keys.owned handle).mpr (.inr hother))
    obtain rfl := Option.some.inj (hrx.symm.trans hrx')
    obtain rfl : lane = other := hlane.symm.trans hlane'
    exact (h.slots lane).keys.unheld handle hother hholds
  rw [live, if_neg hfreed, hrx]

/-- Receivers that are held for one secret on one lane are one receiver. -/
theorem Inv.eq_of_secretOf {a b : ℕ} (h : s.Inv p) (ha : (s.slot lane).Holds a)
    (hb : (s.slot lane).Holds b) (hsecret : s.secretOf a = s.secretOf b) : a = b := by
  rcases ha with ha | ha
  · rcases hb with hb | hb
    · exact Option.some.inj (ha.symm.trans hb)
    · exact absurd hsecret (h.apart lane a b ha hb)
  · rcases hb with hb | hb
    · exact absurd hsecret.symm (h.apart lane b a hb ha)
    · exact Option.some.inj (ha.symm.trans hb)

/-! ## Calls of `open` -/

/-- A live receiver runs the call, and the code of what it throws is thrown on. -/
theorem openWith_live (h : s.live handle = some rx) (bytes : Bytes) (ssrc : UInt32) (nowMs : ℕ) :
    s.openWith p handle (some bytes) ssrc nowMs =
      ((Call.run p rx.core ⟨bytes, ssrc, nowMs⟩).result.mapError RelayError.code,
        { s with receivers := s.receivers.set handle (rx.run p [⟨bytes, ssrc, nowMs⟩]) }) := by
  simp [openWith, h, Call.run, Receiver.run, after, evictions]

/-- Calls move the receivers, and nothing else. -/
structure Called (p : Primitives) (s t : Lanes) : Prop where
  channel : t.channel = s.channel
  cascade : t.cascade = s.cascade
  length : t.receivers.length = s.receivers.length
  ran : Ran p s.receivers t.receivers

theorem Called.refl (s : Lanes) : Called p s s :=
  ⟨rfl, rfl, rfl, .refl _⟩

theorem Called.trans (h : Called p s t) (h' : Called p t u) : Called p s u :=
  ⟨h'.channel.trans h.channel, h'.cascade.trans h.cascade, h'.length.trans h.length,
    h.ran.trans h'.ran⟩

theorem Called.slot (h : Called p s t) (lane : Lane) : t.slot lane = s.slot lane := by
  cases lane with
  | channel => exact h.channel
  | cascade => exact h.cascade

theorem live_eq_some_iff :
    s.live handle = some rx ↔ s.isFreed handle = false ∧ s.receivers[handle]? = some rx := by
  unfold live
  split <;> simp_all

theorem Called.isFreed (h : Called p s t) (handle : ℕ) : t.isFreed handle = s.isFreed handle := by
  rw [Lanes.isFreed, h.channel, h.cascade, Lanes.isFreed]

theorem called_openWith (s : Lanes) (handle : ℕ) (bytes : Option Bytes) (ssrc : UInt32)
    (nowMs : ℕ) : Called p s (s.openWith p handle bytes ssrc nowMs).2 := by
  cases bytes with
  | none => exact .refl s
  | some bytes =>
      cases hlive : s.live handle with
      | none =>
          simp only [openWith, hlive]
          exact .refl s
      | some rx =>
          rw [openWith_live hlive]
          exact ⟨rfl, rfl, List.length_set, ran_set (live_eq_some_iff.mp hlive).2 _⟩

theorem Inv.called (h : s.Inv p) (hcalled : Called p s t) : t.Inv p := by
  -- a receiver of `t` is one of `s` that has run some calls
  have hback : ∀ (handle : ℕ) (rx' : Receiver), t.receivers[handle]? = some rx' →
      ∃ rx calls, s.receivers[handle]? = some rx ∧ rx' = rx.run p calls := by
    intro handle rx' hrx'
    have hlt := (List.getElem?_eq_some_iff.mp hrx').1
    rw [hcalled.length] at hlt
    obtain ⟨calls, hcalls⟩ := hcalled.ran handle _ (List.getElem?_eq_getElem hlt)
    exact ⟨_, calls, List.getElem?_eq_getElem hlt, Option.some.inj (hrx'.symm.trans hcalls)⟩
  have hsecret : ∀ handle, handle < s.receivers.length → t.secretOf handle = s.secretOf handle := by
    intro handle hlt
    have hrx := List.getElem?_eq_getElem hlt
    obtain ⟨calls, hcalls⟩ := hcalled.ran handle _ hrx
    rw [secretOf, secretOf, hcalls, hrx]
    exact congrArg (some ·.groupSecret) ((h.sound handle _ hrx).run calls).2.1
  refine ⟨fun handle rx' hrx' => ?_, fun lane => ?_, fun lane handle hmem => ?_,
    fun lane a b ha hb => ?_⟩
  · obtain ⟨rx, calls, hrx, rfl⟩ := hback handle rx' hrx'
    exact ((h.sound handle rx hrx).run calls).1
  · rw [hcalled.slot]
    exact h.slots lane
  · rw [hcalled.slot] at hmem
    obtain ⟨rx, hrx, hlane⟩ := h.placed lane handle hmem
    obtain ⟨calls, hcalls⟩ := hcalled.ran handle rx hrx
    exact ⟨_, hcalls, ((h.sound handle rx hrx).run calls).2.2.trans hlane⟩
  · rw [hcalled.slot] at ha hb
    have hlt : ∀ handle, (s.slot lane).Holds handle → handle < s.receivers.length := by
      intro handle hholds
      obtain ⟨rx, -, hrx, -⟩ := h.live_of_holds hholds
      exact (List.getElem?_eq_some_iff.mp hrx).1
    rw [hsecret a (hlt a (.inl ha)), hsecret b (hlt b (.inr hb))]
    exact h.apart lane a b ha hb

/-! ## Frames -/

/-- The current receiver of the frame's lane. -/
def current (s : Lanes) (frame : AudioFrame) : Option ℕ :=
  (s.slot (laneOf frame)).current

def previous (s : Lanes) (frame : AudioFrame) : Option ℕ :=
  (s.slot (laneOf frame)).previous

/-- What becomes of a frame. The previous receiver is tried when the current one fails to
decrypt it. -/
inductive Received (p : Primitives) (s : Lanes) (frame : AudioFrame) (nowMs prevNowMs : ℕ) :
    Opening × Lanes → Prop
  | noKey (hnone : s.current frame = none) :
      Received p s frame nowMs prevNowMs (.drop .noKey none false, s)
  | first {a : ℕ} {opus : Bytes} {s' : Lanes} (hcurrent : s.current frame = some a)
      (hopen : s.openWith p a frame.opusBytes (.ofNat frame.ssrc) nowMs = (.ok opus, s')) :
      Received p s frame nowMs prevNowMs (.play (some opus) false, s')
  | settled {a : ℕ} {e : String} {s' : Lanes} (hcurrent : s.current frame = some a)
      (hopen : s.openWith p a frame.opusBytes (.ofNat frame.ssrc) nowMs = (.error e, s'))
      (hlast : dropReasonForOpenError e ≠ .decryptFailed ∨
        ∀ b, s.previous frame = some b → b = a) :
      Received p s frame nowMs prevNowMs (.drop (dropReasonForOpenError e) (some e) false, s')
  | second {a b : ℕ} {e : String} {opus : Bytes} {s' s'' : Lanes}
      (hcurrent : s.current frame = some a) (hprevious : s.previous frame = some b) (hne : b ≠ a)
      (hopen : s.openWith p a frame.opusBytes (.ofNat frame.ssrc) nowMs = (.error e, s'))
      (hsecond : s'.openWith p b frame.opusBytes (.ofNat frame.ssrc) prevNowMs = (.ok opus, s'')) :
      Received p s frame nowMs prevNowMs (.play (some opus) true, s'')
  | reported {a b : ℕ} {e e' : String} {s' s'' : Lanes}
      (hcurrent : s.current frame = some a) (hprevious : s.previous frame = some b)
      (hopen : s.openWith p a frame.opusBytes (.ofNat frame.ssrc) nowMs = (.error e, s'))
      (hsecond : s'.openWith p b frame.opusBytes (.ofNat frame.ssrc) prevNowMs = (.error e', s''))
      (hreason : dropReasonForOpenError e' = .replay ∨ dropReasonForOpenError e' = .stale) :
      Received p s frame nowMs prevNowMs (.drop (dropReasonForOpenError e') (some e') true, s'')
  | failed {a b : ℕ} {e e' : String} {s' s'' : Lanes}
      (hcurrent : s.current frame = some a) (hprevious : s.previous frame = some b) (hne : b ≠ a)
      (hopen : s.openWith p a frame.opusBytes (.ofNat frame.ssrc) nowMs = (.error e, s'))
      (hfirst : dropReasonForOpenError e = .decryptFailed)
      (hsecond : s'.openWith p b frame.opusBytes (.ofNat frame.ssrc) prevNowMs = (.error e', s''))
      (hreason : ¬ (dropReasonForOpenError e' = .replay ∨ dropReasonForOpenError e' = .stale)) :
      Received p s frame nowMs prevNowMs (.drop .decryptFailed (some e) false, s'')

theorem received (p : Primitives) (s : Lanes) (frame : AudioFrame) (nowMs prevNowMs : ℕ) :
    Received p s frame nowMs prevNowMs (s.receive p frame nowMs prevNowMs) := by
  have hcurrent : (if frame.isGlobalBroadcast then s.keys.cascadeKey else s.keys.channelKey) =
      s.current frame := by
    unfold current laneOf Lane.fromGlobalBroadcast
    split <;> rfl
  have hprevious :
      (if frame.isGlobalBroadcast then s.keys.cascadePrevKey else s.keys.channelPrevKey) =
        s.previous frame := by
    unfold previous laneOf Lane.fromGlobalBroadcast
    split <;> rfl
  unfold receive openAudioFrame
  simp only [hcurrent, hprevious, Bool.not_true, Bool.false_eq_true, if_false]
  cases ha : s.current frame with
  | none => exact .noKey ha
  | some a =>
      dsimp only
      rcases hopen : s.openWith p a frame.opusBytes (UInt32.ofNat frame.ssrc) nowMs with
        ⟨e | opus, s'⟩
      · dsimp only
        by_cases hfirst : dropReasonForOpenError e = .decryptFailed
        · rw [if_neg (not_not.mpr hfirst)]
          cases hb : (s.previous frame).filter (· ≠ a) with
          | none =>
              refine .settled ha hopen (.inr fun b hb' => ?_)
              simpa [hb'] using hb
          | some b =>
              obtain ⟨hb, hne⟩ := Option.filter_eq_some_iff.mp hb
              have hne : b ≠ a := by simpa using hne
              dsimp only
              rcases hsecond : s'.openWith p b frame.opusBytes (UInt32.ofNat frame.ssrc) prevNowMs
                with ⟨e' | opus, s''⟩
              · dsimp only
                split
                · rename_i hreason
                  exact .reported ha hb hopen hsecond hreason
                · rename_i hreason
                  exact .failed ha hb hne hopen hfirst hsecond hreason
              · exact .second ha hb hne hopen hsecond
        · rw [if_pos hfirst]
          exact .settled ha hopen (.inl hfirst)
      · exact .first ha hopen

theorem called_receive (p : Primitives) (s : Lanes) (frame : AudioFrame) (nowMs prevNowMs : ℕ) :
    Called p s (s.receive p frame nowMs prevNowMs).2 := by
  have hfirst : ∀ {a r s'}, s.openWith p a frame.opusBytes (.ofNat frame.ssrc) nowMs = (r, s') →
      Called p s s' := by
    intro a r s' h
    have hcalled := called_openWith (p := p) s a frame.opusBytes (.ofNat frame.ssrc) nowMs
    rwa [h] at hcalled
  have hsecond : ∀ {a r r' b s' s''},
      s.openWith p a frame.opusBytes (.ofNat frame.ssrc) nowMs = (r, s') →
      s'.openWith p b frame.opusBytes (.ofNat frame.ssrc) prevNowMs = (r', s'') →
      Called p s s'' := by
    intro a r r' b s' s'' h h'
    have hcalled := called_openWith (p := p) s' b frame.opusBytes (.ofNat frame.ssrc) prevNowMs
    rw [h'] at hcalled
    exact (hfirst h).trans hcalled
  have hreceived := received p s frame nowMs prevNowMs
  generalize s.receive p frame nowMs prevNowMs = r at hreceived ⊢
  cases hreceived with
  | noKey => exact .refl s
  | first _ hopen => exact hfirst hopen
  | settled _ hopen => exact hfirst hopen
  | second _ _ _ hopen h => exact hsecond hopen h
  | reported _ _ hopen h => exact hsecond hopen h
  | failed _ _ _ hopen _ h => exact hsecond hopen h

theorem mapError_eq_ok {ε ε' α : Type} {f : ε → ε'} {x : Except ε α} {a : α} :
    x.mapError f = .ok a ↔ x = .ok a := by
  cases x <;> simp [Except.mapError]

/-- A receiver of the frame's lane plays the frame: it answers the call at `clock`, and has run that
call afterwards. -/
structure Plays (p : Primitives) (s : Lanes) (frame : AudioFrame) (clock : ℕ) (t : Lanes)
    (handle : ℕ) (pt : Bytes) : Prop where
  holds : (s.slot (laneOf frame)).Holds handle
  opens : ∃ bytes rx, frame.opusBytes = some bytes ∧ s.receivers[handle]? = some rx ∧
    (Call.run p rx.core ⟨bytes, .ofNat frame.ssrc, clock⟩).result = .ok pt ∧
    t.receivers[handle]? = some (rx.run p [⟨bytes, .ofNat frame.ssrc, clock⟩])

variable {ssrc : UInt32} {nowMs other k clock : ℕ} {pt bytes : Bytes}

theorem openWith_eq_ok {bytes : Option Bytes}
    (h : s.openWith p handle bytes ssrc nowMs = (.ok pt, t)) :
    ∃ b rx, bytes = some b ∧ s.receivers[handle]? = some rx ∧
      (Call.run p rx.core ⟨b, ssrc, nowMs⟩).result = .ok pt ∧
      t.receivers[handle]? = some (rx.run p [⟨b, ssrc, nowMs⟩]) := by
  cases bytes with
  | none => simp [openWith] at h
  | some b =>
      cases hlive : s.live handle with
      | none => simp [openWith, hlive] at h
      | some rx =>
          rw [openWith_live hlive, Prod.mk.injEq] at h
          obtain ⟨hresult, rfl⟩ := h
          have hrx := (live_eq_some_iff.mp hlive).2
          refine ⟨b, rx, rfl, hrx, mapError_eq_ok.mp hresult, ?_⟩
          exact List.getElem?_set_self (List.getElem?_eq_some_iff.mp hrx).1

/-- A call on one receiver leaves the others alone. -/
theorem receivers_openWith_of_ne (hne : other ≠ handle) (bytes : Option Bytes) (ssrc : UInt32)
    (nowMs : ℕ) :
    (s.openWith p handle bytes ssrc nowMs).2.receivers[other]? = s.receivers[other]? := by
  cases bytes with
  | none => rfl
  | some b =>
      cases hlive : s.live handle with
      | none => simp [openWith, hlive]
      | some rx =>
          rw [openWith_live hlive]
          exact List.getElem?_set_ne hne.symm

variable {frame : AudioFrame}

/-- Playable bytes come from the current receiver, or from the previous one at the second read of
the clock. -/
theorem plays_of_receive {prevNowMs : ℕ} {opus : Option Bytes} {previousKey : Bool}
    (h : s.receive p frame nowMs prevNowMs = (.play opus previousKey, t)) :
    ∃ handle pt, opus = some pt ∧
      (if previousKey then s.previous frame else s.current frame) = some handle ∧
      Plays p s frame (if previousKey then prevNowMs else nowMs) t handle pt := by
  have hreceived := received p s frame nowMs prevNowMs
  rw [h] at hreceived
  cases hreceived with
  | @first a pt _ hcurrent hopen =>
      exact ⟨a, pt, rfl, hcurrent, .inl hcurrent, openWith_eq_ok hopen⟩
  | @second a b e pt s' _ hcurrent hprevious hne hopen hsecond =>
      obtain ⟨bytes, rx, hbytes, hrx, hresult, ht⟩ := openWith_eq_ok hsecond
      have hother := receivers_openWith_of_ne (p := p) (s := s) hne frame.opusBytes
        (.ofNat frame.ssrc) nowMs
      rw [hopen] at hother
      exact ⟨b, pt, rfl, hprevious, .inr hprevious, bytes, rx, hbytes, hother.symm.trans hrx,
        hresult, ht⟩

/-! ## Authentic frames -/

/-- The frame verifies under the session key of the secret, for the lane and the ssrc. -/
def Verifies (p : Primitives) (secret : Bytes) (lane : Lane) (bytes : Bytes) (ssrc : UInt32) :
    Prop :=
  ∃ parsed pt, parse bytes = .ok parsed ∧
    p.decrypt (p.hkdfExpand kdfSalt secret (kdfInfoPrefix ++ [lane.toByte] ++ parsed.sessionId))
      (nonceFor parsed.seq) (aadFor parsed.header ssrc lane) parsed.body = some pt

/-- What the code relies on of HKDF-SHA256 and ChaCha20-Poly1305: no frame verifies under two
secrets, for two lanes or for two senders. -/
def Binds (p : Primitives) (bytes : Bytes) : Prop :=
  ∀ secret lane ssrc secret' lane' ssrc',
    secret.length = groupSecretLen → secret'.length = groupSecretLen →
    Verifies p secret lane bytes ssrc → Verifies p secret' lane' bytes ssrc' →
    secret = secret' ∧ lane = lane' ∧ ssrc = ssrc'

/-- A receiver does not fail to decrypt what is authentic under its secret. -/
theorem reason_of_verifies (hsound : rx.Sound p)
    (hauth : Verifies p rx.core.kdf.groupSecret rx.core.lane bytes ssrc) {e : String}
    (h : (Call.run p rx.core ⟨bytes, ssrc, nowMs⟩).result.mapError RelayError.code = .error e) :
    dropReasonForOpenError e = .replay ∨ dropReasonForOpenError e = .stale := by
  obtain ⟨parsed, pt, hparse, hpt⟩ := hauth
  rcases result_of_authentic (c := ⟨bytes, ssrc, nowMs⟩) hsound.keyed hparse hpt with
    hresult | hresult
  · rw [hresult] at h
    obtain rfl := Except.error.inj h
    exact .inl rfl
  · rw [hresult] at h
    split at h
    · cases h
    · obtain rfl := Except.error.inj h
      exact .inr rfl

/-- A receiver answers only what is authentic under its secret. -/
theorem verifies_of_result (hsound : rx.Sound p) {c : Call}
    (h : (c.run p rx.core).result = .ok pt) :
    Verifies p rx.core.kdf.groupSecret rx.core.lane c.frame c.ssrc := by
  unfold Call.run ReceiverCore.openFrame at h
  cases hparse : parse c.frame with
  | error e =>
      rw [hparse] at h
      cases h
  | ok parsed =>
      refine ⟨parsed, ?_⟩
      rw [hparse] at h
      dsimp only at h
      cases hlookup : rx.core.sessions.lookup (c.ssrc, parsed.sessionId) with
      | some st =>
          have hcipher := hsound.keyed.cipher _ st hlookup
          rw [hlookup] at h
          dsimp only at h
          split at h
          · cases h
          · rw [hcipher] at h
            split at h
            · cases h
            · rename_i pt' hpt
              exact ⟨pt', hparse, hpt⟩
      | none =>
          rw [hlookup] at h
          dsimp only at h
          split at h
          · cases h
          · split at h
            · cases h
            · rename_i pt' hpt
              exact ⟨pt', hparse, hpt⟩

/-- A frame that is authentic under a held key is not reported as a decrypt failure. -/
theorem Inv.reported (h : s.Inv p) {frame : AudioFrame} {bytes : Bytes}
    (hbytes : frame.opusBytes = some bytes) (hholds : (s.slot (laneOf frame)).Holds handle)
    (hrx : s.receivers[handle]? = some rx)
    (hauth : Verifies p rx.core.kdf.groupSecret (laneOf frame) bytes (.ofNat frame.ssrc))
    (nowMs prevNowMs : ℕ) (error : Option String) (previousKey : Bool) :
    (s.receive p frame nowMs prevNowMs).1 ≠ .drop .decryptFailed error previousKey := by
  obtain ⟨rx', hlive, hrx', hlane⟩ := h.live_of_holds hholds
  obtain rfl := Option.some.inj (hrx.symm.trans hrx')
  rw [← hlane] at hauth
  have hreason : ∀ {s' s'' : Lanes} {nowMs : ℕ} {e : String}, s'.live handle = some rx →
      s'.openWith p handle frame.opusBytes (.ofNat frame.ssrc) nowMs = (.error e, s'') →
      dropReasonForOpenError e = .replay ∨ dropReasonForOpenError e = .stale := by
    intro s' s'' nowMs e hlive' hopen
    rw [hbytes, openWith_live hlive', Prod.mk.injEq] at hopen
    exact reason_of_verifies (h.sound handle rx hrx) hauth hopen.1
  have hdiffer : ∀ {e}, dropReasonForOpenError e = .replay ∨ dropReasonForOpenError e = .stale →
      dropReasonForOpenError e ≠ .decryptFailed := by
    rintro e (he | he) <;> simp [he]
  have hreceived := received p s frame nowMs prevNowMs
  generalize s.receive p frame nowMs prevNowMs = r at hreceived ⊢
  cases hreceived with
  | noKey => simp
  | first => simp
  | second => simp
  | @settled a e s' hcurrent hopen hlast =>
      intro hdrop
      have he : dropReasonForOpenError e = .decryptFailed := (Opening.drop.inj hdrop).1
      have hself : handle = a := by
        rcases hholds with hc | hp
        · exact Option.some.inj (hc.symm.trans hcurrent)
        · exact (hlast.resolve_left (not_not.mpr he)) handle hp
      subst hself
      exact hdiffer (hreason hlive hopen) he
  | @reported a b e e' s' s'' _ _ _ _ hreason' =>
      intro hdrop
      exact hdiffer hreason' (Opening.drop.inj hdrop).1
  | @failed a b e e' s' s'' hcurrent hprevious hne hopen hfirst hsecond hfailed =>
      intro _
      rcases hholds with hc | hp
      · obtain rfl : handle = a := Option.some.inj (hc.symm.trans hcurrent)
        exact hdiffer (hreason hlive hopen) hfirst
      · obtain rfl : handle = b := Option.some.inj (hp.symm.trans hprevious)
        refine hfailed (hreason ?_ hsecond)
        have hcalled := called_openWith (p := p) s a frame.opusBytes (.ofNat frame.ssrc) nowMs
        have hother := receivers_openWith_of_ne (p := p) (s := s) hne frame.opusBytes
          (.ofNat frame.ssrc) nowMs
        rw [hopen] at hcalled hother
        rw [live_eq_some_iff] at hlive ⊢
        exact ⟨(hcalled.isFreed handle).trans hlive.1, hother.trans hlive.2⟩

/-! ## Rekeys -/

/-- What a step may make of a slot: it keeps its keys, swaps them, loses the previous one, or has
`next` in front of the old current one. -/
structure Moves (slot slot' : Slot ℕ) (next : Option ℕ) : Prop where
  inv : slot'.Inv
  installed : ∀ k ∈ slot'.installed, k ∈ slot.installed ∨ some k = next
  keys : slot'.previous = none ∨
    slot'.current = slot.current ∧ slot'.previous = slot.previous ∨
    slot'.current = slot.previous ∧ slot'.previous = slot.current ∨
    slot'.current = next ∧ slot'.previous = slot.current

variable {slot : Slot ℕ}

theorem moves_expire (h : slot.Inv) : Moves slot slot.expire none := by
  have heq := Slot.expire_eq h.timed
  refine ⟨⟨h.timed.expire, h.keys.expire h.timed⟩, fun k hk => .inl ?_, .inl ?_⟩
  · rwa [heq] at hk
  · rw [heq]

theorem moves_clear (h : slot.Inv) : Moves slot slot.clear none := by
  have heq := Slot.clear_eq h.timed
  refine ⟨⟨h.timed.clear, h.keys.clear h.timed⟩, fun k hk => .inl ?_, .inl ?_⟩
  · rwa [heq] at hk
  · rw [heq]

theorem installed_install (h : slot.Timed) {j : ℕ} (hj : j ∈ (slot.install (some k)).installed) :
    j ∈ slot.installed ∨ j = k := by
  by_cases hk : some k = slot.current
  · rw [Slot.install, if_pos hk] at hj
    exact .inl hj
  · rw [Slot.install_eq h hk] at hj
    dsimp only at hj
    split at hj
    · exact .inl hj
    · simpa using hj

/-- A held key is installed again: nothing moves, or the two keys are swapped. -/
theorem moves_held (h : slot.Inv) (hk : slot.Holds k) :
    Moves slot (slot.install (some k)) none := by
  have hmay : slot.mayInstall (some k) = true := by
    simp only [Slot.mayInstall, decide_eq_true_eq]
    exact hk.elim (fun hc => .inl hc.symm) fun hp => .inr (.inl hp.symm)
  refine ⟨⟨h.timed.install _, h.keys.install h.timed hmay⟩, fun j hj => .inl ?_, .inr ?_⟩
  · rcases installed_install h.timed hj with hj | rfl
    · exact hj
    · exact (h.keys.owned j).mpr (.inl hk)
  · by_cases hcurrent : some k = slot.current
    · rw [Slot.install, if_pos hcurrent]
      exact .inl ⟨rfl, rfl⟩
    · have hprevious : slot.previous = some k := hk.resolve_left fun hc => hcurrent hc.symm
      rw [Slot.install_eq h.timed hcurrent]
      exact .inr (.inl ⟨hprevious.symm, rfl⟩)

theorem moves_new (h : slot.Inv) (hk : k ∉ slot.installed) :
    Moves slot (slot.install (some k)) (some k) := by
  have hmay : slot.mayInstall (some k) = true := by
    simp only [Slot.mayInstall, decide_eq_true_eq]
    exact .inr (.inr hk)
  have hcurrent : some k ≠ slot.current := fun hc =>
    hk ((h.keys.owned k).mpr (.inl (.inl hc.symm)))
  refine ⟨⟨h.timed.install _, h.keys.install h.timed hmay⟩, fun j hj => ?_, ?_⟩
  · exact (installed_install h.timed hj).imp_right (congrArg some)
  · rw [Slot.install_eq h.timed hcurrent]
    exact .inr (.inr (.inr ⟨rfl, rfl⟩))

theorem Inv.setSlot (h : s.Inv p) {slot' : Slot ℕ} {next : Option ℕ}
    (hmoves : Moves (s.slot lane) slot' next)
    (hnext : ∀ k, next = some k → (∃ rx, s.receivers[k]? = some rx ∧ rx.core.lane = lane) ∧
      ∀ a, (s.slot lane).current = some a → s.secretOf k ≠ s.secretOf a) :
    (s.setSlot lane slot').Inv p := by
  have hsecret : ∀ handle, (s.setSlot lane slot').secretOf handle = s.secretOf handle := by
    intro handle
    rw [secretOf, secretOf, receivers_setSlot]
  refine ⟨fun handle rx hrx => ?_, fun other => ?_, fun other handle hmem => ?_,
    fun other a b ha hb => ?_⟩
  · rw [receivers_setSlot] at hrx
    exact h.sound handle rx hrx
  · by_cases hother : other = lane
    · subst hother
      rw [slot_setSlot_self]
      exact hmoves.inv
    · rw [slot_setSlot_of_ne hother]
      exact h.slots other
  · rw [receivers_setSlot]
    by_cases hother : other = lane
    · subst hother
      rw [slot_setSlot_self] at hmem
      rcases hmoves.installed handle hmem with hold | hnew
      · exact h.placed other handle hold
      · exact (hnext handle hnew.symm).1
    · rw [slot_setSlot_of_ne hother] at hmem
      exact h.placed other handle hmem
  · rw [hsecret, hsecret]
    by_cases hother : other = lane
    · subst hother
      rw [slot_setSlot_self] at ha hb
      rcases hmoves.keys with hnone | ⟨hc, hp⟩ | ⟨hc, hp⟩ | ⟨hc, hp⟩
      · rw [hnone] at hb
        cases hb
      · exact h.apart other a b (hc.symm.trans ha) (hp.symm.trans hb)
      · exact (h.apart other b a (hp.symm.trans hb) (hc.symm.trans ha)).symm
      · exact (hnext a (hc.symm.trans ha)).2 b (hp.symm.trans hb)
    · rw [slot_setSlot_of_ne hother] at ha hb
      exact h.apart other a b ha hb

/-- A new receiver, which no slot knows yet. -/
theorem Inv.append (h : s.Inv p) (hrx : rx.Sound p) :
    ({ s with receivers := s.receivers ++ [rx] } : Lanes).Inv p := by
  have hold : ∀ {handle : ℕ} {rx' : Receiver}, s.receivers[handle]? = some rx' →
      (s.receivers ++ [rx])[handle]? = some rx' := fun hrx' => by
    rw [List.getElem?_append_left (List.getElem?_eq_some_iff.mp hrx').1, hrx']
  have hslot : ∀ lane, ({ s with receivers := s.receivers ++ [rx] } : Lanes).slot lane =
      s.slot lane := fun lane => by cases lane <;> rfl
  refine ⟨fun handle rx' hrx' => ?_, fun lane => ?_, fun lane handle hmem => ?_,
    fun lane a b ha hb => ?_⟩
  · dsimp only at hrx'
    rw [List.getElem?_append] at hrx'
    split at hrx'
    · exact h.sound handle rx' hrx'
    · obtain ⟨-, rfl⟩ : _ ∧ rx = rx' := by simpa using List.getElem?_eq_some_iff.mp hrx'
      exact hrx
  · rw [hslot]
    exact h.slots lane
  · rw [hslot] at hmem
    obtain ⟨rx', hrx', hlane⟩ := h.placed lane handle hmem
    exact ⟨rx', hold hrx', hlane⟩
  · rw [hslot] at ha hb
    obtain ⟨rxa, -, hrxa, -⟩ := h.live_of_holds (.inl ha)
    obtain ⟨rxb, -, hrxb, -⟩ := h.live_of_holds (.inr hb)
    have hapart := h.apart lane a b ha hb
    rw [secretOf, secretOf, hrxa, hrxb] at hapart
    rw [secretOf, secretOf, hold hrxa, hold hrxb]
    exact hapart

/-- A rekey does nothing, installs the receiver that recognises the secret again, or creates one
that the current receiver does not recognise. -/
theorem rekey_cases (p : Primitives) (s : Lanes) (lane : Lane) (secret : Bytes) :
    s.rekey p lane secret = s ∨
      (∃ k, (s.slot lane).current = some k ∧
        s.rekey p lane secret = s.setSlot lane ((s.slot lane).install (some k))) ∨
      ∃ core, ReceiverCore.new p secret lane = .ok core ∧
        (∀ a rx, (s.slot lane).current = some a → s.live a = some rx →
          rx.core.matchesSecret p secret = false) ∧
        s.rekey p lane secret =
          ({ s with receivers := s.receivers ++ [⟨core, []⟩] } : Lanes).setSlot lane
            ((s.slot lane).install (some s.receivers.length)) := by
  have hcreate : (∀ a rx, (s.slot lane).current = some a → s.live a = some rx →
      rx.core.matchesSecret p secret = false) →
      s.retainOrReplaceRelayCipher p (s.slot lane).current secret (create p · lane secret) =
        s.create p lane secret := by
    intro hmatch
    unfold retainOrReplaceRelayCipher
    cases hcurrent : (s.slot lane).current with
    | none => rfl
    | some a =>
        refine if_neg ?_
        cases hlive : s.live a with
        | none => simp
        | some rx => simp [hmatch a rx hcurrent hlive]
  by_cases hmatch : ∀ a rx, (s.slot lane).current = some a → s.live a = some rx →
      rx.core.matchesSecret p secret = false
  · unfold rekey
    rw [hcreate hmatch, create]
    cases hnew : ReceiverCore.new p secret lane with
    | error e => exact .inl rfl
    | ok core =>
        refine .inr (.inr ⟨core, rfl, hmatch, ?_⟩)
        cases lane <;> rfl
  · push Not at hmatch
    obtain ⟨a, rx, ha, hlive, hrx⟩ := hmatch
    refine .inr (.inl ⟨a, ha, ?_⟩)
    simp [rekey, retainOrReplaceRelayCipher, ha, hlive, hrx]

theorem Inv.rekey (h : s.Inv p) (lane : Lane) (secret : Bytes) : (s.rekey p lane secret).Inv p := by
  rcases rekey_cases p s lane secret with heq | ⟨k, hcurrent, heq⟩ | ⟨core, hnew, hmatch, heq⟩
  · rwa [heq]
  · rw [heq]
    exact h.setSlot (moves_held (h.slots lane) (.inl hcurrent)) fun _ h => by cases h
  · rw [heq]
    obtain ⟨hsound, hsecret, hlane⟩ := sound_new hnew
    have hfresh : s.receivers.length ∉ (s.slot lane).installed := by
      intro hmem
      obtain ⟨rx, hrx, -⟩ := h.placed lane _ hmem
      rw [List.getElem?_eq_none (Nat.le_refl _)] at hrx
      cases hrx
    have happend := h.append hsound
    set s' : Lanes := { s with receivers := s.receivers ++ [⟨core, []⟩] } with hs'
    have hslot : s'.slot lane = s.slot lane := by cases lane <;> rfl
    have hk : s'.receivers[s.receivers.length]? = some ⟨core, []⟩ := by simp [hs']
    rw [← hslot] at hfresh ⊢
    refine happend.setSlot (moves_new (happend.slots lane) hfresh) fun k hkey => ?_
    obtain rfl := Option.some.inj hkey
    refine ⟨⟨_, hk, hlane⟩, fun a ha => ?_⟩
    rw [hslot] at ha
    obtain ⟨rx, hlive, hrx, -⟩ := h.live_of_holds (.inl ha)
    have hrx' : s'.receivers[a]? = some rx := by
      rw [hs', List.getElem?_append_left (List.getElem?_eq_some_iff.mp hrx).1, hrx]
    rw [secretOf, secretOf, hk, hrx']
    intro heq
    have hsame : secret = rx.core.kdf.groupSecret := hsecret.symm.trans (Option.some.inj heq)
    have hfalse := hmatch a rx ha hlive
    rw [hsame, (h.sound a rx hrx).matchesSecret] at hfalse
    cases hfalse

theorem Inv.step (h : s.Inv p) {input : Input} (hstep : s.step p input = some t) : t.Inv p := by
  cases input with
  | receive frame nowMs prevNowMs =>
      obtain rfl := Option.some.inj hstep
      exact h.called (called_receive p s frame nowMs prevNowMs)
  | rekey lane secret =>
      obtain rfl := Option.some.inj hstep
      exact h.rekey lane secret
  | swapBack lane =>
      obtain rfl := Option.some.inj hstep
      cases hprevious : (s.slot lane).previous with
      | none => exact h.setSlot (moves_clear (h.slots lane)) fun _ h => by cases h
      | some k => exact h.setSlot (moves_held (h.slots lane) (.inr hprevious)) fun _ h => by cases h
  | expire lane =>
      obtain rfl := Option.some.inj hstep
      exact h.setSlot (moves_expire (h.slots lane)) fun _ h => by cases h
  | clear lane =>
      obtain rfl := Option.some.inj hstep
      exact h.setSlot (moves_clear (h.slots lane)) fun _ h => by cases h
  | fire lane id =>
      obtain ⟨slot', hslot', rfl⟩ := Option.map_eq_some_iff.mp hstep
      obtain ⟨harmed, heq⟩ := Option.ite_none_right_eq_some.mp hslot'
      obtain rfl := (Option.some.inj heq).symm.trans
        (Slot.fire_eq (h.slots lane).timed harmed).1
      exact h.setSlot (moves_expire (h.slots lane)) fun _ h => by cases h

variable {inputs : List Input}

theorem inv_run (h : (lanes p).Run .empty inputs s) : s.Inv p :=
  h.invariant (fun _ _ _ hs hstep => hs.step hstep) inv_empty

/-- Whatever a step does, each receiver has only run calls. -/
theorem ran_step {input : Input} (h : s.step p input = some t) :
    Ran p s.receivers t.receivers := by
  have hset : ∀ lane slot, Ran p s.receivers (s.setSlot lane slot).receivers := fun lane slot => by
    rw [receivers_setSlot]
    exact .refl _
  cases input with
  | receive frame nowMs prevNowMs =>
      obtain rfl := Option.some.inj h
      exact (called_receive p s frame nowMs prevNowMs).ran
  | rekey lane secret =>
      obtain rfl := Option.some.inj h
      rcases rekey_cases p s lane secret with heq | ⟨k, -, heq⟩ | ⟨core, -, -, heq⟩
      · rw [heq]
        exact .refl _
      · rw [heq]
        exact hset _ _
      · rw [heq, receivers_setSlot]
        exact ran_append _ _
  | swapBack lane =>
      obtain rfl := Option.some.inj h
      exact hset _ _
  | expire lane =>
      obtain rfl := Option.some.inj h
      exact hset _ _
  | clear lane =>
      obtain rfl := Option.some.inj h
      exact hset _ _
  | fire lane id =>
      obtain ⟨slot', -, rfl⟩ := Option.map_eq_some_iff.mp h
      exact hset _ _

theorem ran_run (h : (lanes p).Run s inputs t) : Ran p s.receivers t.receivers :=
  h.invariant (P := fun t => Ran p s.receivers t.receivers)
    (fun _ _ _ hran hstep => hran.trans (ran_step hstep)) (.refl _)

/-! ## Playing a frame twice -/

/-- The receiver that plays a frame is any receiver of the frame's secret that is held. -/
theorem Plays.unique (h : s.Inv p) (hplays : Plays p s frame clock t handle pt)
    (hbytes : frame.opusBytes = some bytes) (hbinds : Binds p bytes)
    (hrx : s.receivers[other]? = some rx)
    (hverifies : Verifies p rx.core.kdf.groupSecret lane bytes ssrc)
    (hholds : (s.slot lane).Holds other) :
    (Call.run p rx.core ⟨bytes, ssrc, clock⟩).result = .ok pt ∧
      t.receivers[other]? = some (rx.run p [⟨bytes, ssrc, clock⟩]) := by
  obtain ⟨bytes', rx', hbytes', hrx', hresult, ht⟩ := hplays.opens
  obtain rfl := Option.some.inj (hbytes.symm.trans hbytes')
  obtain ⟨rx'', -, hrx'', hlane⟩ := h.live_of_holds hplays.holds
  obtain rfl := Option.some.inj (hrx'.symm.trans hrx'')
  have hverifies' := verifies_of_result (h.sound handle rx' hrx') hresult
  rw [hlane] at hverifies'
  obtain ⟨hsecret, rfl, rfl⟩ := hbinds _ _ _ _ _ _ (h.sound other rx hrx).length
    (h.sound handle rx' hrx').length hverifies hverifies'
  have hsame : s.secretOf other = s.secretOf handle := by
    rw [secretOf, secretOf, hrx, hrx', Option.map_some, Option.map_some, hsecret]
  obtain rfl := h.eq_of_secretOf hholds hplays.holds hsame
  obtain rfl := Option.some.inj (hrx.symm.trans hrx')
  exact ⟨hresult, ht⟩

/-- A receiver that answers one frame twice has dropped the session's mark in between. -/
theorem dropped_of_answered_twice (hsound : rx.Sound p) {pt' : Bytes} {clock' : ℕ}
    {parsed : ParsedHeader} (hparse : parse bytes = .ok parsed)
    (hfirst : (Call.run p rx.core ⟨bytes, ssrc, clock⟩).result = .ok pt) (calls : List Call)
    (hsecond : (Call.run p ((rx.run p [⟨bytes, ssrc, clock⟩]).run p calls).core ⟨bytes, ssrc, clock'⟩).result = .ok pt') :
    Dropped (evictions p (rx.run p [⟨bytes, ssrc, clock⟩]).core calls)
      (ssrc, parsed.sessionId) := by
  have haccepts : Accepts p rx.core ⟨bytes, ssrc, clock⟩ (ssrc, parsed.sessionId) parsed.seq :=
    ⟨parsed, pt, hparse, rfl, rfl, hfirst⟩
  have hinv := RelayAudio.inv_run (p := p) hsound.table ⟨bytes, ssrc, clock⟩
  rcases (Seen.of_accepts hsound.table haccepts []).after (p := p) hinv calls with
    hseen | ⟨mid₁, mid₂, rfl, hdropped, -⟩
  · exact absurd ⟨parsed, pt', hparse, rfl, rfl, hsecond⟩
      (hseen.not_accepts (inv_after hinv calls) ⟨bytes, ssrc, clock'⟩)
  · rw [List.nil_append] at hdropped
    rw [evictions_append]
    exact hdropped.append _

/-- What holds of every frame that arrives. -/
structure Opens (p : Primitives) (s : Lanes) : Prop where
  /-- Playable bytes are what the current or the previous receiver of the lane answered. -/
  played : ∀ frame nowMs prevNowMs t opus previousKey,
    s.receive p frame nowMs prevNowMs = (.play opus previousKey, t) →
      ∃ handle pt, opus = some pt ∧
        (if previousKey then s.previous frame else s.current frame) = some handle ∧
        Plays p s frame (if previousKey then prevNowMs else nowMs) t handle pt
  /-- A frame that is authentic under the current or the previous key, whether it is a replay, stale
  or neither, is not reported as a decrypt failure. -/
  reported : ∀ (frame : AudioFrame) (bytes : Bytes) (handle : ℕ) (rx : Receiver)
      (nowMs prevNowMs : ℕ) (error : Option String) (previousKey : Bool),
    frame.opusBytes = some bytes → (s.slot (laneOf frame)).Holds handle →
    s.receivers[handle]? = some rx →
    Verifies p rx.core.kdf.groupSecret (laneOf frame) bytes (.ofNat frame.ssrc) →
      (s.receive p frame nowMs prevNowMs).1 ≠ .drop .decryptFailed error previousKey
  /-- Of two plays of one frame, while a receiver of its secret is held, the second comes after the
  receiver has evicted the frame's session and `maxRetired` more. -/
  once : ∀ (frame frame' : AudioFrame) (nowMs prevNowMs nowMs' prevNowMs' : ℕ) (t u v : Lanes)
      (inputs : List Input) (opus opus' : Option Bytes) (previousKey previousKey' : Bool)
      (bytes : Bytes) (lane : Lane) (handle : ℕ) (rx : Receiver) (ssrc : UInt32),
    s.receive p frame nowMs prevNowMs = (.play opus previousKey, t) →
    (lanes p).Run t inputs u →
    u.receive p frame' nowMs' prevNowMs' = (.play opus' previousKey', v) →
    frame.opusBytes = some bytes → frame'.opusBytes = some bytes → Binds p bytes →
    s.receivers[handle]? = some rx → Verifies p rx.core.kdf.groupSecret lane bytes ssrc →
    (s.slot lane).Holds handle → (u.slot lane).Holds handle →
      ∃ parsed rx' rx'', parse bytes = .ok parsed ∧ t.receivers[handle]? = some rx' ∧
        u.receivers[handle]? = some rx'' ∧
        Dropped (rx''.evicted.drop rx'.evicted.length) (ssrc, parsed.sessionId)

theorem Inv.opens (h : s.Inv p) : s.Opens p where
  played _ _ _ _ _ _ hplay := plays_of_receive hplay
  reported _ _ _ _ nowMs prevNowMs error previousKey hbytes hholds hrx hverifies :=
    h.reported hbytes hholds hrx hverifies nowMs prevNowMs error previousKey
  once frame frame' nowMs prevNowMs nowMs' prevNowMs' t u v inputs opus opus' previousKey
      previousKey' bytes lane handle rx ssrc hfirst hrun hsecond hbytes hbytes' hbinds hrx
      hverifies hs hu := by
    obtain ⟨a, pt, -, -, hplays⟩ := plays_of_receive hfirst
    obtain ⟨b, pt', -, -, hplays'⟩ := plays_of_receive hsecond
    generalize (if previousKey then prevNowMs else nowMs) = clock at hplays
    generalize (if previousKey' then prevNowMs' else nowMs') = clock' at hplays'
    obtain ⟨hresult, ht⟩ := hplays.unique h hbytes hbinds hrx hverifies hs
    have hcalled := called_receive p s frame nowMs prevNowMs
    rw [hfirst] at hcalled
    have hinv : u.Inv p := hrun.invariant (fun _ _ _ hs hstep => hs.step hstep) (h.called hcalled)
    obtain ⟨calls, hcalls⟩ := ran_run hrun handle _ ht
    -- the receiver keeps its secret
    have hsound := (h.sound handle rx hrx).run [⟨bytes, ssrc, clock⟩]
    have hkdf := (hsound.1.run calls).2.1.trans hsound.2.1
    have hlater := hverifies
    rw [← hkdf] at hlater
    obtain ⟨hresult', -⟩ := hplays'.unique hinv hbytes' hbinds hcalls hlater hu
    obtain ⟨parsed, -, hparse, -⟩ := hverifies
    refine ⟨parsed, _, _, hparse, ht, hcalls, ?_⟩
    have hdrop : ((rx.run p [⟨bytes, ssrc, clock⟩]).run p calls).evicted.drop
        (rx.run p [⟨bytes, ssrc, clock⟩]).evicted.length =
          evictions p (rx.run p [⟨bytes, ssrc, clock⟩]).core calls :=
      List.drop_left
    rw [hdrop]
    exact dropped_of_answered_twice (h.sound handle rx hrx) hparse hresult calls hresult'

end Lanes

/-- After every sequence of frames, rekeys and timers, frames are opened by the receivers of their
lane only, an authentic one is not taken for a decrypt failure, and none is played twice while a
receiver of its secret is held. -/
theorem opens_across_rekeys {inputs : List Lanes.Input} (h : (lanes p).Run .empty inputs s) :
    s.Opens p :=
  (Lanes.inv_run h).opens

/-- The key that verifies `seventhFrame`. -/
def seventhKey : Bytes :=
  List.replicate groupSecretLen 9 ++
    (kdfInfoPrefix ++ [Lane.channel.toByte] ++ List.replicate sessionIdLen 5)

/-- A key schedule that writes its inputs behind each other, and a cipher for which `seventhKey` and
the associated data of `seventhFrame` are the only ones that verify. -/
def boundPrimitives : Primitives :=
  { plainPrimitives with
    hkdfExpand := fun _ ikm info => ikm ++ info
    decrypt := fun key nonce aad ct =>
      if key = seventhKey ∧
          aad = aadFor (headerFor (List.replicate sessionIdLen 5) 7 1000) 3 .channel then
        plainPrimitives.decrypt key nonce aad ct
      else none }

theorem toBeBytes_inj {width m n : ℕ} (hm : m < 256 ^ width) (hn : n < 256 ^ width)
    (h : toBeBytes width m = toBeBytes width n) : m = n := by
  rw [← fromBeBytes_toBeBytes hm, h, fromBeBytes_toBeBytes hn]

theorem aadFor_inj {header : Bytes} {ssrc ssrc' : UInt32} {lane' : Lane}
    (h : aadFor header ssrc lane = aadFor header ssrc' lane') : ssrc = ssrc' ∧ lane = lane' := by
  have hlength : (header ++ toBeBytes 4 ssrc.toNat).length =
      (header ++ toBeBytes 4 ssrc'.toNat).length := by simp
  obtain ⟨hfront, hlane⟩ := List.append_inj h hlength
  have hlt : ∀ x : UInt32, x.toNat < 256 ^ 4 := fun x => x.toNat_lt
  refine ⟨UInt32.toNat_inj.mp (toBeBytes_inj (hlt _) (hlt _) (List.append_cancel_left hfront)), ?_⟩
  cases lane <;> cases lane' <;> first | rfl | cases hlane

theorem parse_seventhFrame : parse seventhFrame.frame = .ok
    ⟨List.replicate sessionIdLen 5, 7, 1000, headerFor (List.replicate sessionIdLen 5) 7 1000,
      42 :: List.replicate tagLen 0⟩ :=
  parse_headerFor (List.length_replicate ..) (by decide) (by decide) (by decide)

theorem binds_seventhFrame : Lanes.Binds boundPrimitives seventhFrame.frame := by
  have hverifies : ∀ {secret lane ssrc}, secret.length = groupSecretLen →
      Lanes.Verifies boundPrimitives secret lane seventhFrame.frame ssrc →
      secret = List.replicate groupSecretLen 9 ∧ ssrc = 3 ∧ lane = .channel := by
    rintro secret lane ssrc hlength ⟨parsed, pt, hparse, hpt⟩
    obtain rfl := Except.ok.inj (parse_seventhFrame.symm.trans hparse)
    obtain ⟨⟨hkey, haad⟩, -⟩ := Option.ite_none_right_eq_some.mp hpt
    refine ⟨(List.append_inj hkey ?_).1, aadFor_inj haad⟩
    rw [hlength, List.length_replicate]
  intro secret lane ssrc secret' lane' ssrc' hlength hlength' h h'
  obtain ⟨rfl, rfl, rfl⟩ := hverifies hlength h
  obtain ⟨rfl, rfl, rfl⟩ := hverifies hlength' h'
  exact ⟨rfl, rfl, rfl⟩

def firstLanes : Lanes :=
  Lanes.empty.rekey boundPrimitives .channel (List.replicate groupSecretLen 9)

def seventhAudio : AudioFrame :=
  ⟨some seventhFrame.frame, 3, 0, false, none⟩

/-- The lanes when the frame was played and the channel rekeyed. -/
def rekeyedLanes : Lanes :=
  (firstLanes.receive boundPrimitives seventhAudio 1500 1500).2.rekey boundPrimitives .channel
    (List.replicate groupSecretLen 8)

/-- The frame was played, and its copy meets the previous receiver. -/
theorem opens_across_rekeys_second_copy :
    (firstLanes.receive boundPrimitives seventhAudio 1500 1500).1 = .play (some [42]) false ∧
      (∃ handle, rekeyedLanes.channel.previous = some handle ∧
        rekeyedLanes.channel.current ≠ some handle) ∧
      ∀ opus previousKey v, rekeyedLanes.receive boundPrimitives seventhAudio 1600 1600 ≠
        (.play opus previousKey, v) := by
  have hfirst : (lanes boundPrimitives).Run .empty
      [.rekey .channel (List.replicate groupSecretLen 9)] firstLanes := .cons rfl (.nil _)
  have hrun : (lanes boundPrimitives).Run
      (firstLanes.receive boundPrimitives seventhAudio 1500 1500).2
      [.rekey .channel (List.replicate groupSecretLen 8)] rekeyedLanes := .cons rfl (.nil _)
  have hplay : (firstLanes.receive boundPrimitives seventhAudio 1500 1500).1 =
      .play (some [42]) false := by decide +kernel
  have hrx : firstLanes.receivers[0]? = some
      ⟨⟨⟨List.replicate groupSecretLen 9, List.replicate groupSecretLen 9 ++ kdfFingerprintInfo⟩,
        .channel, ∅, ∅, [], 0⟩, []⟩ := rfl
  have hverifies : Lanes.Verifies boundPrimitives (List.replicate groupSecretLen 9) .channel
      seventhFrame.frame 3 :=
    ⟨_, [42], parse_seventhFrame, by decide +kernel⟩
  have hprevious : rekeyedLanes.channel.previous = some 0 := by decide +kernel
  refine ⟨hplay, ⟨0, hprevious, by decide +kernel⟩, fun opus previousKey v hsecond => ?_⟩
  obtain ⟨parsed, rx', rx'', -, -, hrx'', l₁, l₂, hdropped, -⟩ :=
    (opens_across_rekeys hfirst).once seventhAudio seventhAudio 1500 1500 1600 1600 _ rekeyedLanes v
      _ (some [42]) opus false previousKey seventhFrame.frame .channel 0 _ 3
      (Prod.ext hplay rfl) hrun hsecond rfl rfl binds_seventhFrame hrx hverifies
      (.inl (by decide +kernel)) (.inr hprevious)
  have hnone : rekeyedLanes.receivers[0]?.map Receiver.evicted = some [] := by decide +kernel
  rw [hrx''] at hnone
  rw [Option.some.inj hnone] at hdropped
  simp at hdropped

end SpecterComs.RelayLanes
