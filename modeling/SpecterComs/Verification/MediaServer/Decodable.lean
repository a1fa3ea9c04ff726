import SpecterComs.Model.MediaServer.Video
import Mathlib.Data.List.Chain

/-! # What a viewer can decode

A delta frame needs the keyframe it belongs to and all deltas since. The forward loop keeps
to that from its first frame on; the cached keyframe the stream begins with does not have to
be the one right before it.
-/

namespace SpecterComs.MediaServer.Video

/-! ## What a step does -/

namespace Room

variable {r r' : Room}

/-- A section of a publish session. -/
inductive Advanced (r : Room) (p : ℕ) (pub : Publisher) : Room → Prop
  | claimed (hs : pub.stage = .claimed) :
      Advanced r p pub ((r.insert p .activationSenders).setStage p pub .waiting)
  | giveUp (hs : pub.stage = .givingUp) (hnonce : r.holdsNonce p = true) :
      Advanced r p pub ((r.remove .publishNonces).setStage p pub .dropActivation)
  | givenUp (hs : pub.stage = .givingUp) (hnonce : ¬ r.holdsNonce p = true) :
      Advanced r p pub (r.setStage p pub .ended)
  | dropActivation (hs : pub.stage = .dropActivation) :
      Advanced r p pub ((r.remove .activationSenders).setStage p pub .ended)
  | enter {m : Map} {rest : List Map} (hs : pub.stage = .entering (m :: rest)) :
      Advanced r p pub (r.enter p pub m rest)
  | check (hs : pub.stage = .checking) (hnonce : r.holdsNonce p = true) :
      Advanced r p pub ((r.remove .publishNonces).setStage p pub (.clearing Stage.teardown))
  | checked (hs : pub.stage = .checking) (hnonce : ¬ r.holdsNonce p = true) :
      Advanced r p pub (r.setStage p pub .ended)
  | clear {m : Map} {rest : List Map} (hs : pub.stage = .clearing (m :: rest)) :
      Advanced r p pub (r.clear p pub m rest)

theorem advance_cases {p : ℕ} {pub : Publisher} (hstep : r.advance p pub = some r') :
    Advanced r p pub r' := by
  unfold advance at hstep
  split at hstep
  case h_1 hs => cases hstep; exact .claimed hs
  case h_2 hs =>
      split at hstep <;> cases hstep
      · exact .giveUp hs ‹_›
      · exact .givenUp hs ‹_›
  case h_3 hs => cases hstep; exact .dropActivation hs
  case h_4 hs => cases hstep; exact .enter hs
  case h_5 hs =>
      split at hstep <;> cases hstep
      · exact .check hs ‹_›
      · exact .checked hs ‹_›
  case h_6 hs => cases hstep; exact .clear hs
  all_goals cases hstep

/-- A step of the room: of a publish session, of its overlay task, or of a viewer. -/
inductive Stepped (r : Room) : Input → Room → Prop
  | publish : Stepped r .publish r.publish
  | accept {p : ℕ} {pub : Publisher} (accepted : Accepted) (hp : r.publishers p = some pub)
      (hs : pub.stage = .waiting) : Stepped r (.accept p accepted) (r.accept p pub accepted)
  | advance {p : ℕ} {pub : Publisher} {r' : Room} (hp : r.publishers p = some pub)
      (h : Advanced r p pub r') : Stepped r (.advance p) r'
  | read {p : ℕ} {pub : Publisher} (flags : ℕ) (hp : r.publishers p = some pub)
      (hs : pub.stage = .relaying none) : Stepped r (.read p flags) (r.read p pub flags)
  | broadcast {p : ℕ} {pub : Publisher} {frame : Frame} (hp : r.publishers p = some pub)
      (hs : pub.stage = .relaying (some frame)) : Stepped r (.broadcast p) (r.broadcast p pub frame)
  | stopRelay {p : ℕ} {pub : Publisher} (hp : r.publishers p = some pub)
      (hs : pub.stage = .relaying none) : Stepped r (.stopRelay p) (r.setStage p pub .checking)
  | overlayOpen {p : ℕ} {pub : Publisher} (hp : r.publishers p = some pub)
      (hs : pub.overlay = .waiting) :
      Stepped r (.overlayOpen p) (r.setOverlay p pub (.entering Overlay.registration))
  | overlayEnter {p : ℕ} {pub : Publisher} {m : Map} {rest : List Map}
      (hp : r.publishers p = some pub) (hs : pub.overlay = .entering (m :: rest)) :
      Stepped r (.overlayAdvance p)
        ((r.insert p m).setOverlay p pub (if rest = [] then .relaying else .entering rest))
  | overlayLeave {p : ℕ} {pub : Publisher} {m : Map} {rest : List Map}
      (hp : r.publishers p = some pub) (hs : pub.overlay = .leaving (m :: rest)) :
      Stepped r (.overlayAdvance p)
        ((r.remove m).setOverlay p pub (if rest = [] then .ended else .leaving rest))
  | overlayRead {p : ℕ} {pub : Publisher} (flags : ℕ) (hp : r.publishers p = some pub)
      (hs : pub.overlay = .relaying) :
      Stepped r (.overlayRead p flags) (r.overlayRead p pub flags)
  | overlayStop {p : ℕ} {pub : Publisher} (hp : r.publishers p = some pub)
      (hs : pub.overlay = .relaying) :
      Stepped r (.overlayStop p) (r.setOverlay p pub (.leaving Overlay.teardown))
  | subscribe {e : Entry} {pub : Publisher} (he : r.entries .streams = some e)
      (hp : r.publishers e.session = some pub) :
      Stepped r .subscribe (r.subscribe e.session pub)
  | readCache {w : ℕ} {viewer : Viewer} (hw : r.viewers w = some viewer) :
      Stepped r (.readCache w) (r.setViewer w
        { viewer with watching := .opening ((r.entries .keyframes).bind (·.frame)) })
  | openStream {w : ℕ} {viewer : Viewer} {keyframe : Option Frame} (opened : Bool)
      (hw : r.viewers w = some viewer) (hs : viewer.watching = .opening keyframe) :
      Stepped r (.openStream w opened) (r.openStream w viewer keyframe opened)
  | receive {w : ℕ} {viewer : Viewer} {pub : Publisher} {needsResync : Bool} {framesSent : ℕ}
      {message : Option Frame} (stale writes : Bool) (hw : r.viewers w = some viewer)
      (hp : r.publishers viewer.publisher = some pub)
      (hs : viewer.watching = .looping needsResync framesSent)
      (hm : pub.sent[viewer.position]? = some message) :
      Stepped r (.receive w stale writes)
        (r.receive w viewer needsResync framesSent stale writes message)
  | lag {w : ℕ} {viewer : Viewer} {framesSent : ℕ} (n : ℕ) (hw : r.viewers w = some viewer) :
      Stepped r (.lag w n) (r.setViewer w
        { viewer with position := viewer.position + n, watching := .looping true framesSent })
  | close {w : ℕ} {viewer : Viewer} (hw : r.viewers w = some viewer) :
      Stepped r (.close w) (r.setViewer w { viewer with watching := .closed })

theorem step_cases {i : Input} (hstep : r.step i = some r') : Stepped r i r' := by
  cases i with
  | publish => cases hstep; exact .publish
  | accept p accepted =>
      obtain ⟨pub, hp, hstep⟩ := Option.bind_eq_some_iff.mp hstep
      obtain ⟨hs, hstep⟩ := Option.ite_none_right_eq_some.mp hstep
      cases hstep
      exact .accept accepted hp hs
  | advance p =>
      obtain ⟨pub, hp, hstep⟩ := Option.bind_eq_some_iff.mp hstep
      exact .advance hp (advance_cases hstep)
  | read p flags =>
      obtain ⟨pub, hp, hstep⟩ := Option.bind_eq_some_iff.mp hstep
      obtain ⟨hs, hstep⟩ := Option.ite_none_right_eq_some.mp hstep
      cases hstep
      exact .read flags hp hs
  | broadcast p =>
      obtain ⟨pub, hp, hstep⟩ := Option.bind_eq_some_iff.mp hstep
      split at hstep <;> cases hstep
      exact .broadcast hp ‹_›
  | stopRelay p =>
      obtain ⟨pub, hp, hstep⟩ := Option.bind_eq_some_iff.mp hstep
      obtain ⟨hs, hstep⟩ := Option.ite_none_right_eq_some.mp hstep
      cases hstep
      exact .stopRelay hp hs
  | overlayOpen p =>
      obtain ⟨pub, hp, hstep⟩ := Option.bind_eq_some_iff.mp hstep
      obtain ⟨hs, hstep⟩ := Option.ite_none_right_eq_some.mp hstep
      cases hstep
      exact .overlayOpen hp hs
  | overlayAdvance p =>
      obtain ⟨pub, hp, hstep⟩ := Option.bind_eq_some_iff.mp hstep
      unfold overlayAdvance at hstep
      split at hstep <;> cases hstep
      · exact .overlayEnter hp ‹_›
      · exact .overlayLeave hp ‹_›
  | overlayRead p flags =>
      obtain ⟨pub, hp, hstep⟩ := Option.bind_eq_some_iff.mp hstep
      obtain ⟨hs, hstep⟩ := Option.ite_none_right_eq_some.mp hstep
      cases hstep
      exact .overlayRead flags hp hs
  | overlayStop p =>
      obtain ⟨pub, hp, hstep⟩ := Option.bind_eq_some_iff.mp hstep
      obtain ⟨hs, hstep⟩ := Option.ite_none_right_eq_some.mp hstep
      cases hstep
      exact .overlayStop hp hs
  | subscribe =>
      obtain ⟨e, he, hstep⟩ := Option.bind_eq_some_iff.mp hstep
      obtain ⟨pub, hp, hstep⟩ := Option.bind_eq_some_iff.mp hstep
      cases hstep
      exact .subscribe he hp
  | readCache w =>
      obtain ⟨viewer, hw, hstep⟩ := Option.bind_eq_some_iff.mp hstep
      obtain ⟨-, hstep⟩ := Option.ite_none_right_eq_some.mp hstep
      cases hstep
      exact .readCache hw
  | openStream w opened =>
      obtain ⟨viewer, hw, hstep⟩ := Option.bind_eq_some_iff.mp hstep
      split at hstep <;> cases hstep
      exact .openStream opened hw ‹_›
  | receive w stale writes =>
      obtain ⟨viewer, hw, hstep⟩ := Option.bind_eq_some_iff.mp hstep
      obtain ⟨pub, hp, hstep⟩ := Option.bind_eq_some_iff.mp hstep
      split at hstep
      · obtain ⟨message, hm, hstep⟩ := Option.bind_eq_some_iff.mp hstep
        cases hstep
        exact .receive stale writes hw hp ‹_› hm
      · cases hstep
  | lag w n =>
      obtain ⟨viewer, hw, hstep⟩ := Option.bind_eq_some_iff.mp hstep
      obtain ⟨pub, -, hstep⟩ := Option.bind_eq_some_iff.mp hstep
      split at hstep
      · obtain ⟨-, hstep⟩ := Option.ite_none_right_eq_some.mp hstep
        cases hstep
        exact .lag n hw
      · cases hstep
  | close w =>
      obtain ⟨viewer, hw, hstep⟩ := Option.bind_eq_some_iff.mp hstep
      cases hstep
      exact .close hw

end Room

/-! ## Decodable streams -/

/-- The next frame of the same publish session. -/
def Next (f g : Frame) : Prop :=
  f.session = g.session ∧ f.index + 1 = g.index

/-- The frames end with a keyframe and deltas that lead to the frame without a gap. -/
def Preceded (before : List Frame) (d : Frame) : Prop :=
  ∃ front keyframe deltas, before = front ++ keyframe :: deltas ∧ keyframe.isKeyframe ∧
    (∀ f ∈ deltas, f.isKeyframe = false) ∧ (keyframe :: (deltas ++ [d])).IsChain Next

/-- Every delta comes after the keyframe it belongs to and all deltas since. -/
def Decodable (written : List Frame) : Prop :=
  ∀ before d after, written = before ++ d :: after → d.isKeyframe = false → Preceded before d

theorem decodable_nil : Decodable [] :=
  fun before d after h => absurd h (by simp)

variable {written : List Frame}

theorem decodable_snoc {f : Frame} (h : Decodable written)
    (hf : f.isKeyframe = false → Preceded written f) : Decodable (written ++ [f]) := by
  intro before d after heq hd
  rcases List.eq_nil_or_concat after with rfl | ⟨front, x, rfl⟩
  · obtain ⟨rfl, hlast⟩ := List.append_inj' heq rfl
    obtain rfl : f = d := by simpa using hlast
    exact hf hd
  · rw [List.concat_eq_append, ← List.cons_append, ← List.append_assoc] at heq
    obtain ⟨hfront, -⟩ := List.append_inj' heq rfl
    exact h before d front hfront hd

/-- The frame after the last one written. -/
theorem preceded_next {f g : Frame} (h : Decodable written) (hlast : written.getLast? = some g)
    (hnext : Next g f) : Preceded written f := by
  obtain ⟨before, rfl⟩ := List.getLast?_eq_some_iff.mp hlast
  by_cases hg : g.isKeyframe
  · exact ⟨before, g, [], rfl, hg, by simp, by simpa using hnext⟩
  · obtain ⟨front, keyframe, deltas, rfl, hkey, hdeltas, hchain⟩ :=
      h before g [] rfl (Bool.not_eq_true _ ▸ hg)
    refine ⟨front, keyframe, deltas ++ [g], by simp, hkey, ?_, ?_⟩
    · intro x hx
      obtain hx | hx := List.mem_append.mp hx
      · exact hdeltas x hx
      · rw [List.mem_singleton.mp hx]
        exact Bool.not_eq_true _ ▸ hg
    · rw [← List.cons_append]
      refine List.isChain_append.mpr ⟨hchain, by simp, ?_⟩
      intro x hx y hy
      rw [← List.cons_append, List.getLast?_concat] at hx
      obtain rfl : g = x := by simpa using hx
      obtain rfl : f = y := by simpa using hy
      exact hnext

/-! ## What the server keeps -/

namespace Room

variable {r r' : Room}

/-- A frame is numbered by its place in the channel, and only keyframes are cached. -/
structure Numbered (r : Room) : Prop where
  sent : ∀ p pub i (f : Frame), r.publishers p = some pub → pub.sent[i]? = some (some f) →
    f.session = p ∧ f.index = i
  pending : ∀ p pub f, r.publishers p = some pub → pub.stage = .relaying (some f) →
    f.session = p ∧ f.index = pub.sent.length
  cached : ∀ e f, r.entries .keyframes = some e → e.frame = some f → f.isKeyframe

/-- What holds of a viewer: the stream is decodable, and after a frame of the loop its
receiver stands right behind it. -/
structure Follows (viewer : Viewer) : Prop where
  decodable : Decodable viewer.written
  opening : ∀ keyframe, viewer.watching = .opening keyframe → ∀ f ∈ keyframe, f.isKeyframe
  looping : ∀ n, viewer.watching = .looping false (n + 1) →
    ∃ f, viewer.written.getLast? = some f ∧ f.session = viewer.publisher ∧
      f.index + 1 = viewer.position

def Following (r : Room) : Prop :=
  ∀ w viewer, r.viewers w = some viewer → Follows viewer

/-- A delta that the loop writes as its first frame is the one right after the cached
keyframe. -/
def inSequence (r : Room) : Input → Bool
  | .receive w stale writes => (r.viewers w).all fun viewer =>
      match viewer.watching with
      | .looping false 0 =>
          !writes || stale ||
            (((r.publishers viewer.publisher).bind (·.sent[viewer.position]?)).join.all
              (·.isKeyframe)) ||
            viewer.written.getLast?.any fun keyframe =>
              keyframe.session = viewer.publisher && keyframe.index + 1 = viewer.position
      | _ => true
  | _ => true

/-! ## Publishing -/

variable {p w n : ℕ} {pub pub' : Publisher}

theorem Numbered.of_stage (h : r.Numbered) (hp : r.publishers p = some pub)
    (hpub : r'.publishers = Function.update r.publishers p (some pub'))
    (hsent : ∀ i (f : Frame), pub'.sent[i]? = some (some f) → f.session = p ∧ f.index = i)
    (hpending : ∀ f, pub'.stage = .relaying (some f) → f.session = p ∧ f.index = pub'.sent.length)
    (hcached : ∀ e f, r'.entries .keyframes = some e → e.frame = some f → f.isKeyframe) :
    r'.Numbered := by
  refine ⟨fun q pub₁ i f hq hi => ?_, fun q pub₁ f hq hs => ?_, hcached⟩
  · rw [hpub] at hq
    by_cases h' : q = p
    · subst h'
      rw [Function.update_self] at hq
      obtain rfl := Option.some.inj hq
      exact hsent i f hi
    · rw [Function.update_of_ne h'] at hq
      exact h.sent q pub₁ i f hq hi
  · rw [hpub] at hq
    by_cases h' : q = p
    · subst h'
      rw [Function.update_self] at hq
      obtain rfl := Option.some.inj hq
      exact hpending f hs
    · rw [Function.update_of_ne h'] at hq
      exact h.pending q pub₁ f hq hs

/-- A section that broadcasts nothing and reads no frame. -/
theorem Numbered.section (h : r.Numbered) (hp : r.publishers p = some pub)
    (hpub : r'.publishers = Function.update r.publishers p (some pub'))
    (hsent : pub'.sent = pub.sent) (hstage : ∀ f, pub'.stage ≠ .relaying (some f))
    (hcached : ∀ e f, r'.entries .keyframes = some e → e.frame = some f → f.isKeyframe) :
    r'.Numbered :=
  h.of_stage hp hpub (fun i f hi => h.sent p pub i f hp (hsent ▸ hi))
    (fun f hf => absurd hf (hstage f)) hcached

variable {m : Map}

/-- An entry without a frame, or none. -/
theorem Numbered.cached_update (h : r.Numbered) {e : Option Entry}
    (he : ∀ e' f, e = some e' → e'.frame = some f → f.isKeyframe)
    (hentries : r'.entries = Function.update r.entries m e) :
    ∀ e f, r'.entries .keyframes = some e → e.frame = some f → f.isKeyframe := by
  intro e' f he' hf
  rw [hentries] at he'
  by_cases hm : Map.keyframes = m
  · subst hm
    rw [Function.update_self] at he'
    exact he e' f he' hf
  · rw [Function.update_of_ne hm] at he'
    exact h.cached e' f he' hf

theorem Numbered.insert (h : r.Numbered) (hentries : r'.entries = (r.insert p m).entries) :
    ∀ e f, r'.entries .keyframes = some e → e.frame = some f → f.isKeyframe := by
  refine h.cached_update (fun e' f he hf => ?_) hentries
  obtain rfl := Option.some.inj he
  exact nomatch hf

theorem Numbered.remove (h : r.Numbered) (hentries : r'.entries = (r.remove m).entries) :
    ∀ e f, r'.entries .keyframes = some e → e.frame = some f → f.isKeyframe :=
  h.cached_update (e := none) (fun _ _ he => nomatch he) hentries

theorem Numbered.clear (h : r.Numbered) {p : ℕ} {pub : Publisher} (hp : r.publishers p = some pub)
    {m : Map} {rest : List Map} : (r.clear p pub m rest).Numbered := by
  unfold Room.clear
  dsimp only
  split
  · -- the empty chunk is no frame
    refine h.of_stage hp rfl (fun i f hi => ?_) (fun f hf => ?_) (h.remove rfl)
    · rw [List.getElem?_append] at hi
      split at hi
      · exact h.sent p pub i f hp hi
      · have := List.mem_of_getElem? hi
        simp at this
    · dsimp only at hf
      split at hf <;> exact nomatch hf
  · refine h.section hp rfl rfl (fun f hf => ?_) (h.remove rfl)
    dsimp only at hf
    split at hf <;> exact nomatch hf

theorem Numbered.advance (h : r.Numbered) (hp : r.publishers p = some pub)
    (hstep : Advanced r p pub r') : r'.Numbered := by
  cases hstep with
  | claimed hs => exact h.section hp rfl rfl (by simp) (h.insert rfl)
  | giveUp hs hnonce => exact h.section hp rfl rfl (by simp) (h.remove rfl)
  | givenUp hs hnonce => exact h.section hp rfl rfl (by simp) h.cached
  | dropActivation hs => exact h.section hp rfl rfl (by simp) (h.remove rfl)
  | enter hs =>
      unfold Room.enter
      split
      · exact h.section hp rfl rfl (by simp) (h.insert rfl)
      · exact h.section hp rfl rfl (by simp) (h.insert rfl)
  | check hs hnonce => exact h.section hp rfl rfl (by simp) (h.remove rfl)
  | checked hs hnonce => exact h.section hp rfl rfl (by simp) h.cached
  | clear hs => exact h.clear hp

theorem Numbered.publish (h : r.Numbered) : r.publish.Numbered := by
  have hcached : ∀ e f, r.publish.entries .keyframes = some e → e.frame = some f →
      f.isKeyframe := h.insert (m := .publishNonces) (p := r.nextNonce) rfl
  refine ⟨fun q pub i f hq hi => ?_, fun q pub f hq hs => ?_, hcached⟩
  · by_cases h' : q = r.nextNonce
    · subst h'
      obtain rfl := Option.some.inj ((Function.update_self r.nextNonce _ r.publishers).symm.trans hq)
      simp at hi
    · exact h.sent q pub i f ((Function.update_of_ne h' _ r.publishers).symm.trans hq) hi
  · by_cases h' : q = r.nextNonce
    · subst h'
      obtain rfl := Option.some.inj ((Function.update_self r.nextNonce _ r.publishers).symm.trans hq)
      exact nomatch hs
    · exact h.pending q pub f ((Function.update_of_ne h' _ r.publishers).symm.trans hq) hs

theorem Numbered.of_viewers (h : r.Numbered) (hpub : r'.publishers = r.publishers)
    (hentries : r'.entries = r.entries) : r'.Numbered :=
  ⟨hpub ▸ h.sent, hpub ▸ h.pending, hentries ▸ h.cached⟩

theorem Numbered.read (h : r.Numbered) (hp : r.publishers p = some pub) (flags : ℕ) :
    (r.read p pub flags).Numbered := by
  unfold Room.read
  dsimp only
  have hpending : ∀ f : Frame, Stage.relaying (some ⟨p, pub.sent.length, flags⟩) =
      .relaying (some f) → f.session = p ∧ f.index = pub.sent.length := by
    rintro f ⟨⟩
    exact ⟨rfl, rfl⟩
  split
  · rename_i hkey
    refine h.of_stage hp rfl (fun i f hi => h.sent p pub i f hp hi) hpending
      (h.cached_update (fun e f he hf => ?_) rfl)
    obtain rfl := Option.some.inj he
    obtain rfl := Option.some.inj hf
    exact hkey
  · exact h.of_stage hp rfl (fun i f hi => h.sent p pub i f hp hi) hpending h.cached

variable {frame : Frame}

theorem Numbered.broadcast (h : r.Numbered) (hp : r.publishers p = some pub)
    (hs : pub.stage = .relaying (some frame)) : (r.broadcast p pub frame).Numbered := by
  refine h.of_stage hp rfl (fun i f hi => ?_) (fun f hf => nomatch hf) h.cached
  rw [List.getElem?_append] at hi
  split at hi
  · exact h.sent p pub i f hp hi
  · obtain ⟨hi, hf⟩ := List.getElem?_eq_some_iff.mp hi
    have hlen : i = pub.sent.length := by
      simp only [List.length_singleton] at hi
      omega
    subst hlen
    obtain rfl : frame = f := by simpa using hf
    exact h.pending p pub frame hp hs

theorem Numbered.overlay (h : r.Numbered) (hp : r.publishers p = some pub) {overlay : Overlay}
    (hpub : r'.publishers = Function.update r.publishers p (some { pub with overlay }))
    (hcached : ∀ e f, r'.entries .keyframes = some e → e.frame = some f → f.isKeyframe) :
    r'.Numbered :=
  h.of_stage hp hpub (fun i f hi => h.sent p pub i f hp hi) (fun f hf => h.pending p pub f hp hf)
    hcached

theorem Numbered.overlayRead (h : r.Numbered) (hp : r.publishers p = some pub) (flags : ℕ) :
    (r.overlayRead p pub flags).Numbered := by
  have hsame : ∀ r' : Room, (∃ frames, r'.publishers =
      Function.update r.publishers p (some { pub with overlaySent := frames })) →
      (∀ e f, r'.entries .keyframes = some e → e.frame = some f → f.isKeyframe) → r'.Numbered :=
    fun r' ⟨_, hpub⟩ hcached => h.of_stage hp hpub (fun i f hi => h.sent p pub i f hp hi)
      (fun f hf => h.pending p pub f hp hf) hcached
  unfold Room.overlayRead
  dsimp only
  split
  · refine hsame _ ⟨_, rfl⟩ fun e f he hf => h.cached e f ?_ hf
    simpa [Room.cache, Room.setPublisher, Function.update_of_ne] using he
  · exact hsame _ ⟨_, rfl⟩ h.cached

variable {viewer : Viewer} {writes needsResync stale : Bool}

theorem numbered_write (h : r.Numbered) : (r.write w viewer frame n writes).Numbered := by
  unfold Room.write
  split <;> exact h.of_viewers rfl rfl

variable {message : Option Frame}

theorem numbered_receive (h : r.Numbered) :
    (r.receive w viewer needsResync n stale writes message).Numbered := by
  unfold Room.receive
  split
  · exact h.of_viewers rfl rfl
  · dsimp only
    split
    · split
      · exact numbered_write h
      · exact h.of_viewers rfl rfl
    · split
      · exact h.of_viewers rfl rfl
      · exact numbered_write h

theorem Numbered.step (h : r.Numbered) {i : Input} (hstep : r.step i = some r') : r'.Numbered := by
  cases step_cases hstep with
  | publish => exact h.publish
  | accept accepted hp hs => cases accepted <;> exact h.section hp rfl rfl (by simp) h.cached
  | advance hp hstep => exact h.advance hp hstep
  | read flags hp hs => exact h.read hp flags
  | broadcast hp hs => exact h.broadcast hp hs
  | stopRelay hp hs => exact h.section hp rfl rfl (by simp) h.cached
  | overlayOpen hp hs => exact h.overlay hp rfl h.cached
  | overlayEnter hp hs => exact h.overlay hp rfl (h.insert rfl)
  | overlayLeave hp hs => exact h.overlay hp rfl (h.remove rfl)
  | overlayRead flags hp hs => exact h.overlayRead hp flags
  | overlayStop hp hs => exact h.overlay hp rfl h.cached
  | subscribe he hp => exact h.of_viewers rfl rfl
  | readCache hw => exact h.of_viewers rfl rfl
  | openStream opened hw hs =>
      unfold Room.openStream
      split <;> exact h.of_viewers rfl rfl
  | receive stale writes hw hp hs hm => exact numbered_receive h
  | lag n hw => exact h.of_viewers rfl rfl
  | close hw => exact h.of_viewers rfl rfl

theorem Numbered.init : Room.init.Numbered :=
  ⟨fun _ _ _ _ h => (nomatch h), fun _ _ _ h => (nomatch h), fun _ _ h => (nomatch h)⟩

/-! ## Viewing -/

theorem Following.of_eq (h : r.Following) (hviewers : r'.viewers = r.viewers) : r'.Following :=
  fun w viewer hw => h w viewer (hviewers ▸ hw)

theorem Following.setViewer (h : r.Following)
    (hviewers : r'.viewers = Function.update r.viewers w (some viewer)) (hv : Follows viewer) :
    r'.Following := by
  intro w' viewer' hw'
  rw [hviewers] at hw'
  by_cases heq : w' = w
  · subst heq
    rw [Function.update_self] at hw'
    exact Option.some.inj hw' ▸ hv
  · rw [Function.update_of_ne heq] at hw'
    exact h w' viewer' hw'

theorem Follows.close (h : Follows viewer) : Follows { viewer with watching := .closed } :=
  ⟨h.decodable, (fun _ hw => nomatch hw), fun _ hw => nomatch hw⟩

/-- Frames are left out, and the loop waits for a keyframe. -/
theorem Follows.skip (h : Follows viewer) (position n : ℕ) :
    Follows { viewer with position, watching := .looping true n } :=
  ⟨h.decodable, (fun _ hw => nomatch hw), fun _ hw => nomatch hw⟩

theorem Following.write (h : r.Following) (hv : Follows viewer)
    (hframe : frame.session = viewer.publisher ∧ frame.index = viewer.position)
    (hnext : writes → frame.isKeyframe = false → Preceded viewer.written frame) :
    (r.write w viewer frame n writes).Following := by
  unfold Room.write
  split
  · rename_i hwrites
    refine h.setViewer rfl ⟨decodable_snoc hv.decodable (hnext hwrites), (fun _ hw => nomatch hw),
      fun _ _ => ⟨frame, List.getLast?_concat, hframe.1, ?_⟩⟩
    rw [hframe.2]
  · exact h.setViewer rfl hv.close

theorem Following.receive (hr : r.Numbered) (h : r.Following) (hw : r.viewers w = some viewer)
    (hp : r.publishers viewer.publisher = some pub)
    (hwatch : viewer.watching = .looping needsResync n)
    (hm : pub.sent[viewer.position]? = some message) (hg : r.inSequence (.receive w stale writes)) :
    (r.receive w viewer needsResync n stale writes message).Following := by
  have hv := h w viewer hw
  cases message with
  | none => exact h.setViewer rfl hv.close
  | some frame =>
      have hframe := hr.sent viewer.publisher pub viewer.position frame hp hm
      simp only [Room.receive]
      split
      · split
        · rename_i hkey
          exact h.write hv hframe fun _ hdelta => absurd hkey (by simp [hdelta])
        · exact h.setViewer rfl (hv.skip _ _)
      · split
        · exact h.setViewer rfl (hv.skip _ _)
        · rename_i hresync hstale
          refine h.write hv hframe fun hwrites hdelta => ?_
          rw [Bool.not_eq_true] at hresync
          subst hresync
          -- the last frame written, from the cache or the loop, stands right before this one
          obtain ⟨last, hlast, hsession, hindex⟩ : ∃ last, viewer.written.getLast? = some last ∧
              last.session = viewer.publisher ∧ last.index + 1 = viewer.position := by
            cases n with
            | zero =>
                simp only [hdelta, Bool.not_false, Bool.true_and, Bool.not_eq_true] at hstale
                simpa [inSequence, hw, hwatch, hp, hm, hdelta, hstale, hwrites,
                  Option.any_eq_true] using hg
            | succ n => exact hv.looping n hwatch
          exact preceded_next hv.decodable hlast
            ⟨hsession.trans hframe.1.symm, hindex.trans hframe.2.symm⟩

theorem advance_viewers (hstep : Advanced r p pub r') : r'.viewers = r.viewers := by
  cases hstep with
  | enter hs =>
      unfold Room.enter
      split <;> rfl
  | clear hs =>
      unfold Room.clear
      dsimp only
      split <;> rfl
  | _ => rfl

theorem Following.step (hr : r.Numbered) (h : r.Following) {i : Input} (hg : r.inSequence i)
    (hstep : r.step i = some r') : r'.Following := by
  cases step_cases hstep with
  | publish => exact h.of_eq rfl
  | accept accepted hp hs => cases accepted <;> exact h.of_eq rfl
  | advance hp hstep => exact h.of_eq (advance_viewers hstep)
  | read flags hp hs =>
      unfold Room.read
      dsimp only
      split <;> exact h.of_eq rfl
  | broadcast hp hs => exact h.of_eq rfl
  | stopRelay hp hs => exact h.of_eq rfl
  | overlayOpen hp hs => exact h.of_eq rfl
  | overlayEnter hp hs => exact h.of_eq rfl
  | overlayLeave hp hs => exact h.of_eq rfl
  | overlayRead flags hp hs =>
      unfold Room.overlayRead
      dsimp only
      split <;> exact h.of_eq rfl
  | overlayStop hp hs => exact h.of_eq rfl
  | subscribe he hp =>
      exact h.setViewer rfl ⟨decodable_nil, (fun _ hw => by cases hw), fun _ hw => by cases hw⟩
  | readCache hw =>
      refine h.setViewer rfl ⟨(h _ _ hw).decodable, ?_, fun _ hw => by cases hw⟩
      rintro _ ⟨⟩ f hf
      obtain ⟨e, he, hf⟩ := Option.bind_eq_some_iff.mp hf
      exact hr.cached e f he hf
  | @openStream w viewer keyframe opened hw hs =>
      have hv := h w viewer hw
      unfold Room.openStream
      split
      · refine h.setViewer rfl ⟨?_, (fun _ hw => by cases hw), fun _ hw => by cases hw⟩
        cases keyframe with
        | none => exact decodable_nil
        | some f =>
            refine decodable_snoc decodable_nil fun hdelta => ?_
            rw [hv.opening _ hs f rfl] at hdelta
            cases hdelta
      · exact h.setViewer rfl hv.close
  | receive stale writes hw hp hs hm => exact h.receive hr hw hp hs hm hg
  | lag n hw => exact h.setViewer rfl ((h _ _ hw).skip _ _)
  | close hw => exact h.setViewer rfl (h _ _ hw).close

/-! ## Runs -/

/-- What is written to each viewer can be decoded. -/
def AllDecodable (r : Room) : Prop :=
  ∀ w viewer, r.viewers w = some viewer → Decodable viewer.written

theorem decodable_in_sequence {is : List Input} (h : video.Guarded (inSequence · ·) .init is r) :
    r.AllDecodable := by
  have hinv : r.Numbered ∧ r.Following := by
    refine StepSystem.Guarded.invariant (P := fun r => r.Numbered ∧ r.Following)
      (fun _ _ _ hr hg hstep => ⟨hr.1.step hstep, hr.2.step hr.1 hg hstep⟩) h
      ⟨.init, fun w viewer hw => ?_⟩
    exact nomatch hw
  exact fun w viewer hw => (hinv.2 w viewer hw).decodable

/-- A publisher up to its relay loop. -/
def sharing (p : ℕ) : List Input :=
  [.publish, .advance p, .accept p .header, .advance p, .advance p, .advance p]

def frames (p : ℕ) (flags : List ℕ) : List Input :=
  flags.flatMap fun f => [.read p f, .broadcast p]

/-- A viewer that opens its stream. -/
def viewing (w : ℕ) : List Input :=
  [.subscribe, .readCache w, .openStream w true]

/-- A viewer who joins at a keyframe, falls behind and goes on at the next one. -/
def joinsAtKeyframe : List Input :=
  sharing 1 ++ frames 1 [0] ++ viewing 0 ++ frames 1 [1, 1, 1, 0, 1] ++
    [.receive 0 false true, .receive 0 true true, .lag 0 1, .receive 0 false true,
      .receive 0 false true]

theorem decodable_in_sequence_joins :
    AllDecodable (((video.restrict inSequence).exec .init joinsAtKeyframe).get (by decide)) :=
  decodable_in_sequence (StepSystem.exec_eq_some_iff.mp (Option.some_get _).symm).guarded

/-- The cached keyframe is three frames old when the viewer joins. -/
theorem joins_between_keyframes :
    ∃ r, video.Run .init
      (sharing 1 ++ frames 1 [0, 1, 1] ++ viewing 0 ++ frames 1 [1] ++ [.receive 0 false true]) r ∧
      ¬ r.AllDecodable := by
  let r := (video.exec .init (sharing 1 ++ frames 1 [0, 1, 1] ++ viewing 0 ++ frames 1 [1] ++
    [.receive 0 false true])).get (by decide)
  have hviewer : r.viewers 0 =
      some ⟨1, 4, .looping false 1, [⟨1, 0, 0⟩, ⟨1, 3, 1⟩]⟩ := by decide
  refine ⟨r, StepSystem.exec_eq_some_iff.mp (Option.some_get _).symm, fun h => ?_⟩
  obtain ⟨front, keyframe, deltas, heq, -, -, hchain⟩ :=
    h 0 _ hviewer [⟨1, 0, 0⟩] ⟨1, 3, 1⟩ [] rfl rfl
  cases front with
  | nil =>
      obtain ⟨rfl, rfl⟩ := List.cons_eq_cons.mp heq
      simp [Next] at hchain
  | cons f front =>
      have hlen := congrArg List.length heq
      simp at hlen

end Room

end SpecterComs.MediaServer.Video
