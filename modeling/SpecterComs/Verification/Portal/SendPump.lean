import SpecterComs.Model.Portal.SendPump
import Mathlib.Data.List.Pairwise

/-! # What a writer gets from the send pump

One frame is written at a time, in the order of the `submit` calls. A writer has the keyframe
and all deltas in front of each delta as long as a delta is only submitted to an idle pump when
the writer got the last keyframe and nothing was lost since.
-/

namespace SpecterComs.SendPump

variable {Writer : Type*}

namespace State

variable (s : State Writer)

/-- The writer got the last keyframe in front of frame `n` and all frames between the two. -/
def Gop (writer : Writer) (n : ℕ) : Prop :=
  ∃ k ∈ s.submitted, k.isKeyframe ∧ k.number < n ∧
    ∀ f ∈ s.submitted, k.number ≤ f.number → f.number < n →
      (f.isKeyframe → f = k) ∧ ⟨writer, f⟩ ∈ s.writes ∧ f ∉ s.failed

def Decodable : Prop :=
  ∀ d ∈ s.writes, d.frame.isKeyframe = false → s.Gop d.writer d.frame.number

def InOrder : Prop :=
  (s.writes.map fun x => x.frame.number).Pairwise (· < ·)

end State

/-- An idle pump takes a delta only where the writer got the last keyframe and nothing was lost
since. -/
def inSync [DecidableEq Writer] (s : State Writer) : Input Writer → Bool
  | .submit isKeyframe =>
      isKeyframe || s.sending || s.needsResync || s.writer.all (s.synced = some ·)
  | _ => true

variable {s s' : State Writer} {w : Writer} {f : Frame} {n t : ℕ} {key : Bool}

/-! ## Steps -/

theorem loop_empty (hq : s.queued = none) : s.loop = { s with sending := false } := by
  simp [State.loop, hq]

theorem loop_lost (hq : s.queued = some f) (hw : s.writer = none) :
    s.loop = { s with queued := none, sending := false, synced := none } := by
  simp [State.loop, hq, hw]

theorem loop_write (hq : s.queued = some f) (hw : s.writer = some w) :
    s.loop = { s with
      queued := none
      inFlight := s.inFlight ++ [⟨w, f⟩]
      writes := s.writes ++ [⟨w, f⟩]
      synced := if f.isKeyframe then some w else s.synced } := by
  simp [State.loop, hq, hw]

namespace State

/-- The frame of the next `submit` call. -/
def next (s : State Writer) (key : Bool) : Frame :=
  ⟨s.submitted.length, key⟩

def skip (s : State Writer) (key : Bool) : State Writer :=
  { s with submitted := s.submitted ++ [s.next key], drops := s.drops + 1 }

def wait (s : State Writer) (key : Bool) : State Writer :=
  { s with
    submitted := s.submitted ++ [s.next key], queued := some (s.next key), needsResync := false }

end State

/-- What a `submit` call does. -/
inductive Submits (s : State Writer) : Bool → State Writer → Prop
  | dropped (hs : s.sending = true) : Submits s false { s.skip false with needsResync := true }
  | waits (hs : s.sending = true) : Submits s true (s.wait true)
  | skipped (hs : s.sending = false) (hr : s.needsResync = true) : Submits s false (s.skip false)
  | starts {key : Bool} (hs : s.sending = false) (hr : key = false → s.needsResync = false) :
      Submits s key { s.wait key with sending := true }.loop

theorem submits (s : State Writer) (key : Bool) : Submits s key (s.submit key) := by
  cases hs : s.sending with
  | true =>
      obtain ⟨queued, sending, needsResync⟩ := s
      subst hs
      cases key with
      | false => exact .dropped rfl
      | true => exact .waits rfl
  | false =>
      cases hr : s.needsResync with
      | true =>
          obtain ⟨queued, sending, needsResync⟩ := s
          subst hs hr
          cases key with
          | false => exact .skipped rfl rfl
          | true => exact .starts rfl (by simp)
      | false =>
          obtain ⟨queued, sending, needsResync⟩ := s
          subst hs hr
          exact .starts rfl fun _ => rfl

/-! ## Order -/

/-- Frames are named by their place, and those handed out are behind each other. -/
structure Ordered (s : State Writer) : Prop where
  numbered : ∀ (i : ℕ) (f : Frame), s.submitted[i]? = some f → f.number = i
  handed : ∀ x ∈ s.writes, x.frame ∈ s.submitted
  queued : ∀ f ∈ s.queued, f ∈ s.submitted ∧ ∀ x ∈ s.writes, x.frame.number < f.number
  inOrder : s.InOrder
  failed : ∀ f ∈ s.failed, ∃ x ∈ s.writes, x.frame = f

/-- At most one pump runs, and the write it awaits was the last. -/
inductive One (s : State Writer) : Prop
  | idle (hs : s.sending = false) (hf : s.inFlight = [])
  | busy {x : Write Writer} (hs : s.sending = true) (hf : s.inFlight = [x])
      (hlast : s.writes.getLast? = some x)

theorem Ordered.number_lt (h : Ordered s) (hf : f ∈ s.submitted) :
    f.number < s.submitted.length := by
  obtain ⟨i, hi⟩ := List.mem_iff_getElem?.mp hf
  rw [h.numbered i f hi]
  exact (List.getElem?_eq_some_iff.mp hi).1

theorem Ordered.loop (h : Ordered s) : Ordered s.loop := by
  cases hq : s.queued with
  | none =>
      rw [loop_empty hq]
      exact ⟨h.numbered, h.handed, h.queued, h.inOrder, h.failed⟩
  | some f =>
      obtain ⟨hf, hlast⟩ := h.queued f hq
      cases hw : s.writer with
      | none =>
          rw [loop_lost hq hw]
          exact ⟨h.numbered, h.handed, by simp, h.inOrder, h.failed⟩
      | some w =>
          rw [loop_write hq hw]
          refine ⟨h.numbered, ?_, by simp, ?_, ?_⟩
          · intro x hx
            rcases List.mem_append.mp hx with hx | hx
            · exact h.handed x hx
            · rw [List.mem_singleton.mp hx]
              exact hf
          · have hinOrder := h.inOrder
            simp only [State.InOrder, List.map_append, List.pairwise_append] at hinOrder ⊢
            simpa [hinOrder] using hlast
          · intro g hg
            obtain ⟨x, hx, hxg⟩ := h.failed g hg
            exact ⟨x, List.mem_append_left _ hx, hxg⟩

theorem One.loop (hf : s.inFlight = []) (hs : s.sending = true) : One s.loop := by
  cases hq : s.queued with
  | none =>
      rw [loop_empty hq]
      exact .idle rfl hf
  | some f =>
      cases hw : s.writer with
      | none =>
          rw [loop_lost hq hw]
          exact .idle rfl hf
      | some w =>
          rw [loop_write hq hw]
          exact .busy hs (x := ⟨w, f⟩) (by simp [hf]) (by simp)

theorem Ordered.numbered_snoc (h : Ordered s) {i : ℕ}
    (hi : (s.submitted ++ [s.next key])[i]? = some f) : f.number = i := by
  rcases Nat.lt_or_ge i s.submitted.length with hlt | hge
  · rw [List.getElem?_append_left hlt] at hi
    exact h.numbered i f hi
  · obtain ⟨hlt, -⟩ := List.getElem?_eq_some_iff.mp hi
    obtain rfl : i = s.submitted.length := by simp at hlt; omega
    rw [List.getElem?_concat_length] at hi
    obtain rfl := Option.some.inj hi
    rfl

theorem Ordered.skip (h : Ordered s) (key : Bool) : Ordered (s.skip key) where
  numbered _ _ hi := h.numbered_snoc hi
  handed x hx := List.mem_append_left _ (h.handed x hx)
  queued f hf := ⟨List.mem_append_left _ (h.queued f hf).1, (h.queued f hf).2⟩
  inOrder := h.inOrder
  failed := h.failed

theorem Ordered.wait (h : Ordered s) (key : Bool) : Ordered (s.wait key) where
  numbered _ _ hi := h.numbered_snoc hi
  handed x hx := List.mem_append_left _ (h.handed x hx)
  queued f hf := by
    obtain rfl := Option.some.inj hf
    exact ⟨List.mem_append_right _ (List.mem_singleton_self _),
      fun x hx => h.number_lt (h.handed x hx)⟩
  inOrder := h.inOrder
  failed := h.failed

/-- What holds in every run. -/
structure Inv (s : State Writer) : Prop where
  ordered : Ordered s
  one : One s

theorem inv_init (writer : Option Writer) : Inv (State.init writer) where
  ordered := ⟨by simp [State.init], by simp [State.init], by simp [State.init],
    List.Pairwise.nil, by simp [State.init]⟩
  one := .idle rfl rfl

theorem Inv.submit (h : Inv s) (key : Bool) : Inv (s.submit key) := by
  have hone := h.one
  have hsubmit := submits s key
  generalize s.submit key = s' at hsubmit ⊢
  cases hsubmit with
  | dropped hs =>
      have hskip := h.ordered.skip false
      refine ⟨⟨hskip.numbered, hskip.handed, hskip.queued, hskip.inOrder, hskip.failed⟩, ?_⟩
      cases hone with
      | idle hidle _ => simp [hs] at hidle
      | busy _ hf hlast => exact .busy hs hf hlast
  | waits hs =>
      refine ⟨h.ordered.wait true, ?_⟩
      cases hone with
      | idle hidle _ => simp [hs] at hidle
      | busy _ hf hlast => exact .busy hs hf hlast
  | skipped hs _ =>
      refine ⟨h.ordered.skip false, ?_⟩
      cases hone with
      | idle _ hf => exact .idle hs hf
      | busy hbusy _ _ => simp [hs] at hbusy
  | starts hs _ =>
      have hwait := h.ordered.wait key
      refine ⟨Ordered.loop
        ⟨hwait.numbered, hwait.handed, hwait.queued, hwait.inOrder, hwait.failed⟩, ?_⟩
      cases hone with
      | idle _ hf => exact One.loop hf rfl
      | busy hbusy _ _ => simp [hs] at hbusy

variable {x : Write Writer}

/-- The write that completes or fails is the only one. -/
theorem Inv.of_inFlight (h : Inv s) (ht : s.inFlight[t]? = some x) :
    s.inFlight.eraseIdx t = [] ∧ s.sending = true ∧ s.writes.getLast? = some x := by
  cases h.one with
  | idle _ hf => simp [hf] at ht
  | busy hs hf hlast =>
      rw [hf] at ht ⊢
      cases t with
      | zero =>
          obtain rfl := Option.some.inj ht
          exact ⟨rfl, hs, hlast⟩
      | succ t => simp at ht

theorem Inv.completed (h : Inv s) (ht : s.inFlight[t]? = some x) : Inv (s.completed t) := by
  obtain ⟨hnone, hs, -⟩ := h.of_inFlight ht
  have ho := h.ordered
  exact ⟨Ordered.loop ⟨ho.numbered, ho.handed, ho.queued, ho.inOrder, ho.failed⟩,
    One.loop hnone hs⟩

theorem Inv.fails (h : Inv s) (ht : s.inFlight[t]? = some x) : Inv (s.fails t x) := by
  obtain ⟨hnone, -, hlast⟩ := h.of_inFlight ht
  have ho := h.ordered
  refine ⟨⟨ho.numbered, ho.handed, ho.queued, ho.inOrder, fun f hf => ?_⟩, .idle rfl hnone⟩
  rcases List.mem_append.mp hf with hf | hf
  · exact ho.failed f hf
  · exact ⟨x, List.mem_of_getLast? hlast, (List.mem_singleton.mp hf).symm⟩

theorem Inv.step {i : Input Writer} (h : Inv s) (hi : (system Writer).step s i = some s') :
    Inv s' := by
  cases i with
  | submit key =>
      obtain rfl := Option.some.inj hi
      exact h.submit key
  | completed t =>
      obtain ⟨x, ht, rfl⟩ := Option.map_eq_some_iff.mp hi
      exact h.completed ht
  | failed t =>
      obtain ⟨x, ht, rfl⟩ := Option.map_eq_some_iff.mp hi
      exact h.fails ht
  | setWriter writer =>
      obtain rfl := Option.some.inj hi
      obtain ⟨ho, hone⟩ := h
      refine ⟨⟨ho.numbered, ho.handed, ho.queued, ho.inOrder, ho.failed⟩, ?_⟩
      cases hone with
      | idle hs hf => exact .idle hs hf
      | busy hs hf hlast => exact .busy hs hf hlast

/-! ## Groups of frames -/

namespace State.Gop

theorem mono (h : s.Gop w n) (hsub : ∀ g ∈ s.submitted, g ∈ s'.submitted)
    (hold : ∀ g ∈ s'.submitted, g.number < n → g ∈ s.submitted)
    (hwrites : ∀ x ∈ s.writes, x ∈ s'.writes)
    (hfailed : ∀ g ∈ s'.failed, g.number < n → g ∈ s.failed) : s'.Gop w n := by
  obtain ⟨k, hk, hkey, hlt, hall⟩ := h
  refine ⟨k, hsub k hk, hkey, hlt, fun g hg hkg hgn => ?_⟩
  obtain ⟨hone, hwritten, hfail⟩ := hall g (hold g hg hgn) hkg hgn
  exact ⟨hone, hwrites _ hwritten, fun hbad => hfail (hfailed g hbad hgn)⟩

/-- The next frame is in the group, too, or begins one. -/
theorem snoc (hs : f.isKeyframe = false → s.Gop w f.number) (hf : f ∈ s.submitted)
    (hunique : ∀ g ∈ s.submitted, g.number = f.number → g = f) (hwritten : ⟨w, f⟩ ∈ s.writes)
    (hfail : f ∉ s.failed) : s.Gop w (f.number + 1) := by
  by_cases hkey : f.isKeyframe
  · refine ⟨f, hf, hkey, Nat.lt_succ_self _, fun g hg hle hlt => ?_⟩
    obtain rfl := hunique g hg (by omega)
    exact ⟨fun _ => rfl, hwritten, hfail⟩
  · have hdelta : f.isKeyframe = false := by simpa using hkey
    obtain ⟨k, hk, hkk, hlt, hall⟩ := hs hdelta
    refine ⟨k, hk, hkk, by omega, fun g hg hkg hgn => ?_⟩
    rcases Nat.lt_succ_iff_lt_or_eq.mp hgn with hgn | hgn
    · exact hall g hg hkg hgn
    · obtain rfl := hunique g hg hgn
      exact ⟨fun h => absurd h hkey, hwritten, hfail⟩

end State.Gop

theorem Ordered.unique (h : Ordered s) {g : Frame} (hf : f ∈ s.submitted) (hg : g ∈ s.submitted)
    (heq : g.number = f.number) : g = f := by
  obtain ⟨i, hi⟩ := List.mem_iff_getElem?.mp hf
  obtain ⟨j, hj⟩ := List.mem_iff_getElem?.mp hg
  rw [h.numbered i f hi, h.numbered j g hj] at heq
  rw [heq, hi] at hj
  exact (Option.some.inj hj).symm

/-! ## Where every delta was in sync -/

structure Synced (s : State Writer) : Prop where
  decodable : s.Decodable
  /-- The group of the last keyframe is with the writer. -/
  fresh : ∀ w, s.synced = some w → s.needsResync = false → s.queued = none →
    s.Gop w s.submitted.length
  stuck : s.queued ≠ none → s.sending = false → s.synced = none
  waiting : ∀ f ∈ s.queued, f.isKeyframe = true ∧
    (s.needsResync = false → s.sending = true → f.number + 1 = s.submitted.length)

/-- More frames are submitted, or their writes fail, than a group has. -/
theorem decodable_mono (h : s.Decodable) (hw : s'.writes = s.writes)
    (hsub : ∀ g ∈ s.submitted, g ∈ s'.submitted)
    (hold : ∀ d ∈ s.writes, ∀ g ∈ s'.submitted, g.number < d.frame.number → g ∈ s.submitted)
    (hfailed : ∀ d ∈ s.writes, ∀ g ∈ s'.failed, g.number < d.frame.number → g ∈ s.failed) :
    s'.Decodable := by
  intro d hd hdelta
  rw [hw] at hd
  exact (h d hd hdelta).mono hsub (hold d hd) (fun x hx => hw ▸ hx) (hfailed d hd)

/-- A frame of a later number was not there. -/
theorem mem_of_number_lt (hn : n ≤ s.submitted.length) :
    ∀ g ∈ s.submitted ++ [s.next key], g.number < n → g ∈ s.submitted := by
  intro g hg hlt
  rcases List.mem_append.mp hg with hg | hg
  · exact hg
  · rw [List.mem_singleton.mp hg] at hlt
    exact absurd hlt (Nat.not_lt.mpr hn)

theorem Ordered.decodable_snoc (h : Ordered s) (hd : s.Decodable) (hw : s'.writes = s.writes)
    (hsub : s'.submitted = s.submitted ++ [s.next key]) (hf : s'.failed = s.failed) :
    s'.Decodable := by
  apply decodable_mono hd hw
  · exact fun g hg => hsub ▸ List.mem_append_left _ hg
  · intro d hmem
    rw [hsub]
    exact mem_of_number_lt (Nat.le_of_lt (h.number_lt (h.handed d hmem)))
  · exact fun _ _ g hg _ => hf ▸ hg

/-- A pump goes on with a keyframe that waited, or with a delta that is in sync. -/
theorem Synced.loop (h : Ordered s) (hd : s.Decodable)
    (hfresh : ∀ w, s.synced = some w → s.needsResync = false → s.queued = none →
      s.Gop w s.submitted.length)
    (hlast : ∀ f ∈ s.queued, s.needsResync = false → f.number + 1 = s.submitted.length)
    (hdelta : ∀ f ∈ s.queued, f.isKeyframe = false → ∀ w, s.writer = some w →
      s.synced = some w ∧ s.Gop w f.number) : Synced s.loop := by
  cases hq : s.queued with
  | none =>
      rw [loop_empty hq]
      exact ⟨hd, hfresh, fun hne => absurd hq hne, by simp [hq]⟩
  | some f =>
      obtain ⟨hf, hnew⟩ := h.queued f hq
      cases hw : s.writer with
      | none =>
          rw [loop_lost hq hw]
          exact ⟨hd, by simp, by simp, by simp⟩
      | some w =>
          have hnotFailed : f ∉ s.failed := by
            intro hbad
            obtain ⟨x, hx, rfl⟩ := h.failed f hbad
            exact Nat.lt_irrefl _ (hnew x hx)
          have hgop : f.isKeyframe = false → s.Gop w f.number :=
            fun hkey => (hdelta f hq hkey w hw).2
          rw [loop_write hq hw]
          have hmono {u : Writer} {n : ℕ} (hg : s.Gop u n) : State.Gop
              { s with
                queued := none
                inFlight := s.inFlight ++ [⟨w, f⟩]
                writes := s.writes ++ [⟨w, f⟩]
                synced := if f.isKeyframe then some w else s.synced } u n :=
            hg.mono (fun _ hg => hg) (fun _ hg _ => hg) (fun _ hx => List.mem_append_left _ hx)
              fun _ hg _ => hg
          refine ⟨?_, ?_, by simp, by simp⟩
          · intro d hmem hkey
            rcases List.mem_append.mp hmem with hmem | hmem
            · exact hmono (hd d hmem hkey)
            · rw [List.mem_singleton.mp hmem] at hkey ⊢
              exact hmono (hgop hkey)
          · intro u hu hresync _
            have huw : u = w := by
              by_cases hkey : f.isKeyframe
              · simpa [hkey, eq_comm] using hu
              · have hsync := (hdelta f hq (by simpa using hkey) w hw).1
                simpa [hkey, hsync, eq_comm] using hu
            subst huw
            change State.Gop _ u s.submitted.length
            rw [← hlast f hq hresync]
            exact State.Gop.snoc (fun hkey => hmono (hgop hkey)) hf
              (fun g hg heq => h.unique hf hg heq)
              (List.mem_append_right _ (List.mem_singleton_self _)) hnotFailed

theorem synced_init (writer : Option Writer) : Synced (State.init writer) :=
  ⟨by simp [State.init, State.Decodable], by simp [State.init], by simp [State.init],
    by simp [State.init]⟩

theorem Synced.submit [DecidableEq Writer] (hinv : Inv s) (h : Synced s)
    (hin : inSync s (.submit key) = true) : Synced (s.submit key) := by
  have ho := hinv.ordered
  have hsubmit := submits s key
  generalize s.submit key = s' at hsubmit ⊢
  cases hsubmit with
  | dropped hs =>
      refine ⟨ho.decodable_snoc h.decodable rfl rfl rfl, by simp, fun _ hidle => ?_,
        fun f hf => ⟨(h.waiting f hf).1, by simp⟩⟩
      exact absurd (hs.symm.trans hidle) (by simp)
  | waits hs =>
      refine ⟨ho.decodable_snoc h.decodable rfl rfl rfl, fun _ _ _ hq => ?_, fun _ hidle => ?_,
        fun f hf => ?_⟩
      · simp [State.wait] at hq
      · exact absurd (hs.symm.trans hidle) (by simp)
      · obtain rfl := Option.some.inj hf
        exact ⟨rfl, fun _ _ => by simp [State.wait, State.next]⟩
  | skipped hs hr =>
      refine ⟨ho.decodable_snoc h.decodable rfl rfl rfl, fun _ _ hresync => ?_, h.stuck,
        fun f hf => ⟨(h.waiting f hf).1, fun _ hbusy => ?_⟩⟩
      · exact absurd (hr.symm.trans hresync) (by simp)
      · exact absurd (hs.symm.trans hbusy) (by simp)
  | starts hs hr =>
      have hwait := ho.wait key
      refine Synced.loop ⟨hwait.numbered, hwait.handed, hwait.queued, hwait.inOrder, hwait.failed⟩
        (ho.decodable_snoc h.decodable rfl rfl rfl) (fun _ _ _ hq => ?_) (fun f hf _ => ?_)
        fun f hf hkey w hw => ?_
      · simp [State.wait] at hq
      · obtain rfl := Option.some.inj hf
        simp [State.wait, State.next]
      · obtain rfl := Option.some.inj hf
        obtain rfl : key = false := hkey
        have hwriter : s.writer = some w := hw
        have hsync : s.synced = some w := by
          simpa [inSync, hs, hr rfl, hwriter] using hin
        have hempty : s.queued = none := by
          by_contra hne
          simp [h.stuck hne hs] at hsync
        refine ⟨hsync, (h.fresh w hsync (hr rfl) hempty).mono ?_ ?_ (fun _ hx => hx)
          fun _ hg _ => hg⟩
        · exact fun g hg => List.mem_append_left _ hg
        · exact mem_of_number_lt (Nat.le_refl _)

theorem Synced.completed (hinv : Inv s) (h : Synced s) (ht : s.inFlight[t]? = some x) :
    Synced (s.completed t) := by
  obtain ⟨-, hs, -⟩ := hinv.of_inFlight ht
  have ho := hinv.ordered
  refine Synced.loop ⟨ho.numbered, ho.handed, ho.queued, ho.inOrder, ho.failed⟩ h.decodable
    h.fresh (fun f hf hr => (h.waiting f hf).2 hr hs) fun f hf hkey => ?_
  exact absurd ((h.waiting f hf).1.symm.trans hkey) (by simp)

theorem Synced.fails (hinv : Inv s) (h : Synced s) (ht : s.inFlight[t]? = some x) :
    Synced (s.fails t x) := by
  obtain ⟨-, -, hlast⟩ := hinv.of_inFlight ht
  refine ⟨?_, by simp [State.fails], by simp [State.fails],
    fun f hf => ⟨(h.waiting f hf).1, by simp [State.fails]⟩⟩
  refine decodable_mono h.decodable rfl (fun _ hg => hg) (fun _ _ _ hg _ => hg) ?_
  intro d hd g hg hlt
  rcases List.mem_append.mp hg with hg | hg
  · exact hg
  · -- the write that failed was the last one
    rw [List.mem_singleton.mp hg] at hlt
    obtain ⟨before, hwrites⟩ := List.getLast?_eq_some_iff.mp hlast
    have horder := hinv.ordered.inOrder
    rw [State.InOrder, hwrites, List.map_append, List.pairwise_append] at horder
    rw [hwrites, List.mem_append, List.mem_singleton] at hd
    rcases hd with hd | rfl
    · have hdx := horder.2.2 _ (List.mem_map_of_mem hd) x.frame.number (by simp)
      omega
    · omega

theorem Synced.step [DecidableEq Writer] {i : Input Writer} (hinv : Inv s) (h : Synced s)
    (hin : inSync s i = true) (hi : (system Writer).step s i = some s') : Synced s' := by
  cases i with
  | submit key =>
      obtain rfl := Option.some.inj hi
      exact h.submit hinv hin
  | completed t =>
      obtain ⟨x, ht, rfl⟩ := Option.map_eq_some_iff.mp hi
      exact h.completed hinv ht
  | failed t =>
      obtain ⟨x, ht, rfl⟩ := Option.map_eq_some_iff.mp hi
      exact h.fails hinv ht
  | setWriter writer =>
      obtain rfl := Option.some.inj hi
      exact ⟨h.decodable, h.fresh, h.stuck, h.waiting⟩

/-! ## Runs -/

/-- In every run at most one write is in flight, and frames are written in the order of their
submission. Where deltas are in sync, every delta is behind its keyframe and all deltas since. -/
theorem pump_decodable [DecidableEq Writer] {writer : Option Writer} {is : List (Input Writer)}
    (h : (system Writer).Run (.init writer) is s) :
    s.inFlight.length ≤ 1 ∧ s.InOrder ∧
      ((system Writer).Guarded (fun s i => inSync s i = true) (.init writer) is s →
        s.Decodable) := by
  have hinv : Inv s := h.invariant (P := Inv) (fun _ _ _ hs hi => hs.step hi) (inv_init writer)
  refine ⟨?_, hinv.ordered.inOrder, fun hguarded => ?_⟩
  · cases hinv.one with
    | idle _ hf => simp [hf]
    | busy _ hf _ => simp [hf]
  · have hboth : Inv s ∧ Synced s := hguarded.invariant (P := fun s => Inv s ∧ Synced s)
      (fun _ _ _ hs hc hi => ⟨hs.1.step hi, hs.2.step hs.1 hc hi⟩)
      ⟨inv_init writer, synced_init writer⟩
    exact hboth.2.decodable

/-- A keyframe waits behind a write, which completes; the writer is replaced before the next
keyframe. -/
def steady : List (Input ℕ) :=
  [.submit true, .submit false, .submit true, .submit false, .completed 0, .completed 0,
    .submit false, .submit true, .completed 0, .submit false, .setWriter (some 8), .completed 0,
    .submit true]

theorem pump_decodable_steady : ∃ s : State ℕ,
    (system ℕ).Run (.init (some 7)) steady s ∧ s.writes.length = 5 ∧ s.inFlight.length ≤ 1 ∧
      s.InOrder ∧ s.Decodable := by
  obtain ⟨s, hs, hlen⟩ := Option.map_eq_some_iff.mp
    (by decide +kernel : (((system ℕ).restrict inSync).exec (.init (some 7)) steady).map
      (fun s => s.writes.length) = some 5)
  have hrun := StepSystem.exec_eq_some_iff.mp hs
  have h := pump_decodable hrun.guarded.run
  exact ⟨s, hrun.guarded.run, hlen, h.1, h.2.1, h.2.2 hrun.guarded⟩

/-- The write in front of a waiting keyframe fails, and a delta takes its place. -/
def keyframeLost : List (Input ℕ) :=
  [.submit true, .completed 0, .submit false, .submit true, .failed 0, .submit false]

instance (s : State ℕ) : Decidable s.Decodable :=
  inferInstanceAs (Decidable (∀ d ∈ s.writes, d.frame.isKeyframe = false →
    ∃ k ∈ s.submitted, k.isKeyframe ∧ k.number < d.frame.number ∧
      ∀ f ∈ s.submitted, k.number ≤ f.number → f.number < d.frame.number →
        (f.isKeyframe → f = k) ∧ ⟨d.writer, f⟩ ∈ s.writes ∧ f ∉ s.failed))

theorem keyframe_lost :
    ¬ ∀ (is : List (Input ℕ)) (s : State ℕ), (system ℕ).Run (.init (some 7)) is s →
      s.Decodable := by
  intro hclaim
  obtain ⟨s, hs, hbad⟩ := Option.map_eq_some_iff.mp
    (by decide +kernel : ((system ℕ).exec (.init (some 7)) keyframeLost).map
      (fun s => decide s.Decodable) = some false)
  exact of_decide_eq_false hbad (hclaim _ s (StepSystem.exec_eq_some_iff.mp hs))

end SpecterComs.SendPump
