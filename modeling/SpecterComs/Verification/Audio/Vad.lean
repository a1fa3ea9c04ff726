import SpecterComs.Model.Audio.Vad
import Mathlib.Data.List.Range

/-! # What the voice gate sends

The pre-roll holds the last windows that were not sent, so that a talk spurt is one run of
windows, and what is sent never goes back.
-/

namespace SpecterComs.Vad

/-! ## The end of a list -/

section Trailing

variable {α : Type*} {p : α → Bool} {l : List α} {a : α}

/-- How many elements in a row at the end meet `p`. -/
def trailing (p : α → Bool) (l : List α) : ℕ :=
  (l.reverse.takeWhile p).length

theorem trailing_snoc : trailing p (l ++ [a]) = if p a then trailing p l + 1 else 0 := by
  rw [trailing, List.reverse_append, List.reverse_singleton, List.singleton_append,
    List.takeWhile_cons]
  split <;> rfl

theorem trailing_snoc_of_pos (h : p a = true) : trailing p (l ++ [a]) = trailing p l + 1 := by
  rw [trailing_snoc, if_pos h]

theorem trailing_snoc_of_neg (h : p a = false) : trailing p (l ++ [a]) = 0 := by
  rw [trailing_snoc, if_neg (by simp [h])]

theorem trailing_le : trailing p l ≤ l.length := by
  have h := (List.takeWhile_sublist (l := l.reverse) p).length_le
  rwa [List.length_reverse] at h

end Trailing

/-! ## Judged windows -/

namespace Entry

variable (e : Entry)

def params : GateParams :=
  .forSensitivity e.call.sensitivity

def isAuto : Bool :=
  e.call.mode = .auto

def unsent : Bool :=
  e.isAuto && e.sent.isEmpty

def qualifies : Bool :=
  e.isAuto && e.levels.opens e.params

def fails : Bool :=
  e.isAuto && !e.levels.keeps e.params

end Entry

/-- The windows that open a talk spurt begin with the pre-roll. -/
def preRollOf (before : List Entry) : ℕ :=
  min preRollFrames (trailing Entry.unsent before)

/-- An entry fits what was captured before it. -/
structure Fits (before : List Entry) (e : Entry) : Prop where
  judged : e.step = none ↔ e.call.mode = .manual
  opened : e.step = some .opened →
    e.sent = List.range' (before.length - preRollOf before) (preRollOf before + 1) ∧
      e.params.confirm ≤ trailing Entry.qualifies (before ++ [e])
  isOpen : e.step = some .open → e.sent = [before.length] ∧
    ∃ front o opens, before = front ++ o :: opens ∧ o.step = some .opened ∧
      ∀ x ∈ opens, x.step = some .open
  closed : e.step = some .closed → e.sent = []
  closing : e.step = some .closing →
    e.sent = [] ∧ e.params.hangover ≤ trailing Entry.fails (before ++ [e])

theorem fits_manual {before : List Entry} {c : Call} {l : Levels} {sent : List ℕ}
    (hc : c.mode = .manual) : Fits before ⟨c, l, none, sent⟩ := by
  constructor <;> simp [hc]

/-! ## The gate -/

/-- What a step of the gate does. -/
inductive Gate.Steps (g : Gate) (p : GateParams) (l : Levels) : Gate → GateStep → Prop
  | opened (hg : g.isOpen = false) (ho : l.opens p = true) (hc : p.confirm ≤ g.streak + 1) :
      Steps g p l ⟨true, 0, p.hangover⟩ .opened
  | waiting (hg : g.isOpen = false) (ho : l.opens p = true) :
      Steps g p l { g with streak := g.streak + 1 } .closed
  | closed (hg : g.isOpen = false) : Steps g p l { g with streak := 0 } .closed
  | kept (hg : g.isOpen = true) : Steps g p l { g with hang := p.hangover } .open
  | hanging (hg : g.isOpen = true) (hk : l.keeps p = false) (hh : 1 < g.hang) :
      Steps g p l { g with hang := g.hang - 1 } .open
  | closing (hg : g.isOpen = true) (hk : l.keeps p = false) (hh : g.hang ≤ 1) :
      Steps g p l { g with isOpen := false, hang := 0 } .closing

theorem Gate.steps (g : Gate) (p : GateParams) (l : Levels) :
    Steps g p l (g.step p l).1 (g.step p l).2 := by
  unfold Gate.step
  cases hg : g.isOpen with
  | false =>
      cases ho : l.opens p with
      | false => simpa [hg] using Steps.closed hg
      | true =>
          by_cases hc : p.confirm ≤ g.streak + 1
          · simpa [hc] using Steps.opened hg ho hc
          · simpa [hc, hg] using Steps.waiting hg ho
  | true =>
      cases hk : l.keeps p with
      | true => simpa [hg] using Steps.kept hg
      | false =>
          by_cases hh : 1 < g.hang
          · simpa [hh, hg] using Steps.hanging hg hk hh
          · simpa [hh] using Steps.closing hg hk (Nat.le_of_not_lt hh)

/-! ## One window -/

/-- What the gate and the pre-roll hold of the windows so far. -/
structure Ready (log : List Entry) (gate : Gate) (preRoll : List Window) : Prop where
  preRoll_eq : preRoll.map Window.number =
    List.range' (log.length - preRollOf log) (preRollOf log)
  drained : gate.isOpen = true → preRoll = [] ∧ gate.streak = 0
  streak_le : gate.streak ≤ trailing Entry.qualifies log
  hang_le : gate.isOpen = true → autoHangoverFrames ≤ gate.hang + trailing Entry.fails log
  spurt : gate.isOpen = true → ∃ front o opens, log = front ++ o :: opens ∧
    o.step = some .opened ∧ ∀ x ∈ opens, x.step = some .open

variable {log : List Entry} {gate gate' : Gate} {preRoll : List Window} {tx : Window} {e : Entry}
  {st : GateStep}

theorem preRollOf_le : preRollOf log ≤ log.length :=
  (Nat.min_le_right _ _).trans trailing_le

theorem preRollOf_snoc_sent (h : e.sent ≠ []) : preRollOf (log ++ [e]) = 0 := by
  rw [preRollOf, trailing_snoc_of_neg, Nat.min_zero]
  simp [Entry.unsent, h]

/-- The windows in the pre-roll and the one that opens the gate, or joins them. -/
theorem Ready.numbers (h : Ready log gate preRoll) (htx : tx.number = log.length) :
    (preRoll ++ [tx]).map Window.number =
      List.range' (log.length - preRollOf log) (preRollOf log + 1) := by
  rw [List.map_append, h.preRoll_eq, List.range'_1_concat, Nat.sub_add_cancel preRollOf_le,
    List.map_singleton, htx]

/-- A window that is not sent goes into the pre-roll. -/
theorem Ready.numbers_unsent (h : Ready log gate preRoll) (htx : tx.number = log.length)
    (hauto : e.isAuto = true) (hsent : e.sent = []) :
    ((preRoll ++ [tx]).drop ((preRoll ++ [tx]).length - preRollFrames)).map Window.number =
      List.range' ((log ++ [e]).length - preRollOf (log ++ [e])) (preRollOf (log ++ [e])) := by
  have hlength := congrArg List.length (h.numbers htx)
  have hle := @preRollOf_le log
  rw [List.length_map, List.length_range'] at hlength
  have hmin : preRollOf (log ++ [e]) = min preRollFrames (preRollOf log + 1) := by
    rw [preRollOf, preRollOf, trailing_snoc_of_pos (by simp [Entry.unsent, hauto, hsent])]
    omega
  rw [List.map_drop, h.numbers htx, List.drop_range', hlength, hmin, List.length_append,
    List.length_singleton]
  unfold preRollFrames
  congr 1 <;> omega

/-- A step of the gate fits, and leaves the pre-roll and the counters as they should be. -/
theorem Ready.step (h : Ready log gate preRoll) (htx : tx.number = log.length)
    (hauto : e.isAuto = true) (hstep : gate.Steps e.params e.levels gate' st)
    (hentry : e.step = some st)
    (hsent : e.sent = (VoiceProcessor.dispatch preRoll tx st).1.map Window.number) :
    Fits log e ∧ Ready (log ++ [e]) gate' (VoiceProcessor.dispatch preRoll tx st).2 := by
  have hnumbers := h.numbers htx
  have hjudged : e.step = none ↔ e.call.mode = .manual := by
    simp_all [Entry.isAuto]
  have hspurt : gate.isOpen = true → st = .open → ∃ front o opens, log ++ [e] = front ++ o :: opens ∧
      o.step = some .opened ∧ ∀ x ∈ opens, x.step = some .open := by
    rintro hg rfl
    obtain ⟨front, o, opens, rfl, ho, hall⟩ := h.spurt hg
    refine ⟨front, o, opens ++ [e], by simp, ho, fun x hx => ?_⟩
    rcases List.mem_append.mp hx with hx | hx
    · exact hall x hx
    · rwa [List.mem_singleton.mp hx]
  cases hstep with
  | opened hg ho hc =>
      have hsent' : e.sent = List.range' (log.length - preRollOf log) (preRollOf log + 1) :=
        hsent.trans hnumbers
      have hqualifies : e.qualifies = true := by simp [Entry.qualifies, hauto, ho]
      have hstreak := h.streak_le
      refine ⟨⟨hjudged, fun _ => ⟨hsent', ?_⟩, by simp [hentry], by simp [hentry], by simp [hentry]⟩,
        ⟨?_, fun _ => ⟨rfl, rfl⟩, Nat.zero_le _, fun _ => Nat.le_add_right _ _, fun _ =>
          ⟨log, e, [], rfl, hentry, by simp⟩⟩⟩
      · rw [trailing_snoc_of_pos hqualifies]
        omega
      · rw [preRollOf_snoc_sent (by simp [hsent'])]
        rfl
  | waiting hg ho =>
      have hqualifies : e.qualifies = true := by simp [Entry.qualifies, hauto, ho]
      have hnone : e.sent = [] := hsent
      refine ⟨⟨hjudged, by simp [hentry], by simp [hentry], fun _ => hnone, by simp [hentry]⟩,
        ⟨h.numbers_unsent htx hauto hnone, by simp [hg], ?_, by simp [hg], by simp [hg]⟩⟩
      rw [trailing_snoc_of_pos hqualifies]
      exact Nat.succ_le_succ h.streak_le
  | closed hg =>
      have hnone : e.sent = [] := hsent
      exact ⟨⟨hjudged, by simp [hentry], by simp [hentry], fun _ => hnone, by simp [hentry]⟩,
        ⟨h.numbers_unsent htx hauto hnone, by simp [hg], Nat.zero_le _, by simp [hg], by simp [hg]⟩⟩
  | kept hg =>
      have hone : e.sent = [log.length] := by rw [← htx]; exact hsent
      refine ⟨⟨hjudged, by simp [hentry], fun _ => ⟨hone, h.spurt hg⟩, by simp [hentry], by simp [hentry]⟩,
        ⟨?_, fun _ => h.drained hg, ?_, fun _ => Nat.le_add_right _ _, fun _ => hspurt hg rfl⟩⟩
      · rw [preRollOf_snoc_sent (by simp [hone])]
        exact congrArg _ (h.drained hg).1
      · exact (h.drained hg).2.trans_le (Nat.zero_le _)
  | hanging hg hk hh =>
      have hone : e.sent = [log.length] := by rw [← htx]; exact hsent
      have hfails : e.fails = true := by simp [Entry.fails, hauto, hk]
      have hhang := h.hang_le hg
      refine ⟨⟨hjudged, by simp [hentry], fun _ => ⟨hone, h.spurt hg⟩, by simp [hentry], by simp [hentry]⟩,
        ⟨?_, fun _ => h.drained hg, ?_, fun _ => ?_, fun _ => hspurt hg rfl⟩⟩
      · rw [preRollOf_snoc_sent (by simp [hone])]
        exact congrArg _ (h.drained hg).1
      · exact (h.drained hg).2.trans_le (Nat.zero_le _)
      · rw [trailing_snoc_of_pos hfails]
        change _ ≤ gate.hang - 1 + _
        omega
  | closing hg hk hh =>
      have hnone : e.sent = [] := hsent
      have hfails : e.fails = true := by simp [Entry.fails, hauto, hk]
      have hhang := h.hang_le hg
      refine ⟨⟨hjudged, by simp [hentry], by simp [hentry], by simp [hentry], fun _ => ⟨hnone, ?_⟩⟩,
        ⟨h.numbers_unsent htx hauto hnone, by simp, ?_, by simp, by simp⟩⟩
      · rw [trailing_snoc_of_pos hfails]
        change autoHangoverFrames ≤ _
        omega
      · exact (h.drained hg).2.trans_le (Nat.zero_le _)

/-! ## What is sent -/

/-- What a window sends is nothing, or the end of the windows that were not sent and itself. -/
def SendsEnd (log : List Entry) (e : Entry) : Prop :=
  e.sent = [] ∨ ∃ k ≤ preRollOf log, e.sent = List.range' (log.length - k) (k + 1)

theorem Fits.sendsEnd (h : Fits log e) (hstep : e.step = some st) : SendsEnd log e := by
  cases st with
  | closed => exact .inl (h.closed hstep)
  | opened => exact .inr ⟨_, Nat.le_refl _, (h.opened hstep).1⟩
  | «open» => exact .inr ⟨0, Nat.zero_le _, (h.isOpen hstep).1⟩
  | closing => exact .inl (h.closing hstep).1

/-- The windows sent so far are in order, and before those that were not sent. -/
structure Sent (log : List Entry) : Prop where
  increasing : (log.flatMap Entry.sent).Pairwise (· < ·)
  sent_lt : ∀ x ∈ log.flatMap Entry.sent, x + trailing Entry.unsent log < log.length

theorem Sent.snoc (h : Sent log) (he : SendsEnd log e) : Sent (log ++ [e]) := by
  have hflat : (log ++ [e]).flatMap Entry.sent = log.flatMap Entry.sent ++ e.sent := by simp
  have hlength : (log ++ [e]).length = log.length + 1 := by simp
  rcases he with hnone | ⟨k, hk, hsent⟩
  · refine ⟨?_, fun x hx => ?_⟩
    · rw [hflat, hnone, List.append_nil]
      exact h.increasing
    · rw [hflat, hnone, List.append_nil] at hx
      have hlt := h.sent_lt x hx
      rw [trailing_snoc, hlength]
      split <;> omega
  · have hzero : trailing Entry.unsent (log ++ [e]) = 0 :=
      trailing_snoc_of_neg (by simp [Entry.unsent, hsent])
    have hunsent : k ≤ trailing Entry.unsent log := hk.trans (Nat.min_le_right _ _)
    have hle : trailing Entry.unsent log ≤ log.length := trailing_le
    refine ⟨?_, fun x hx => ?_⟩
    · rw [hflat, hsent, List.pairwise_append]
      refine ⟨h.increasing, List.pairwise_lt_range', fun x hx y hy => ?_⟩
      have hlt := h.sent_lt x hx
      have hy := List.mem_range'_1.mp hy
      omega
    · rw [hzero, hlength]
      rw [hflat, hsent] at hx
      rcases List.mem_append.mp hx with hx | hx
      · have hlt := h.sent_lt x hx
        omega
      · have hx := List.mem_range'_1.mp hx
        omega

/-! ## Captures -/

variable {State : Type*} {d : Denoiser State} {s s' : Capture State} {c : Call}

structure Inv (s : Capture State) : Prop where
  fits : ∀ before e after, s.log = before ++ e :: after → Fits before e
  sent : Sent s.log
  lastMode : ∀ e ∈ s.log.getLast?, e.call.mode = s.processor.lastMode
  ready : s.processor.lastMode = .auto → Ready s.log s.processor.gate s.processor.preRoll

theorem inv_start : Inv (.start : Capture State) where
  fits before e after h := by simp [Capture.start] at h
  sent := ⟨List.Pairwise.nil, by simp [Capture.start]⟩
  lastMode := by simp [Capture.start]
  ready h := by simp [Capture.start, VoiceProcessor.new] at h

/-- A mode switch begins with an empty pre-roll, and there is nothing to be in it. -/
theorem Inv.ready_switchMode (h : Inv s) : Ready s.log (s.processor.switchMode .auto).gate
    (s.processor.switchMode .auto).preRoll := by
  cases hmode : s.processor.lastMode with
  | auto =>
      rw [VoiceProcessor.switchMode, if_neg (by simp [hmode])]
      exact h.ready hmode
  | manual =>
      have hzero : preRollOf s.log = 0 := by
        rcases List.eq_nil_or_concat s.log with hnil | ⟨front, e, hlog⟩
        · rw [hnil]
          rfl
        · rw [List.concat_eq_append] at hlog
          have he := h.lastMode e (by simp [hlog])
          rw [hlog, preRollOf, trailing_snoc_of_neg, Nat.min_zero]
          simp [Entry.unsent, Entry.isAuto, he, hmode]
      rw [VoiceProcessor.switchMode, if_pos (by simp [hmode])]
      refine ⟨?_, by simp [Gate.reset], Nat.zero_le _, by simp [Gate.reset], by simp [Gate.reset]⟩
      rw [hzero]
      rfl

theorem lastMode_switchMode (p : VoiceProcessor State) (mode : VadMode) :
    (p.switchMode mode).lastMode = mode := by
  unfold VoiceProcessor.switchMode
  split
  · rfl
  · rename_i h
    exact (not_not.mp h).symm

theorem next_auto (s : Capture State) (hc : c.mode = .auto) :
    ∃ tx : Window, tx.number = s.log.length ∧
      let p := s.processor.switchMode .auto
      let r := p.gate.step (.forSensitivity c.sensitivity) (s.processor.levels d c)
      (s.next d c).processor.lastMode = .auto ∧ (s.next d c).processor.gate = r.1 ∧
        (s.next d c).processor.preRoll = (VoiceProcessor.dispatch p.preRoll tx r.2).2 ∧
        (s.next d c).log = s.log ++ [⟨c, s.processor.levels d c, some r.2,
          (VoiceProcessor.dispatch p.preRoll tx r.2).1.map Window.number⟩] := by
  obtain ⟨pcm, mode, threshold, suppression, sensitivity, now⟩ := c
  obtain rfl : mode = .auto := hc
  refine ⟨_, ?_, ?_, rfl, rfl, rfl⟩
  · dsimp only
    split <;> rfl
  · exact lastMode_switchMode s.processor .auto

theorem next_manual (s : Capture State) (hc : c.mode = .manual) :
    (s.next d c).processor.lastMode = .manual ∧ ∃ l sent,
      (s.next d c).log = s.log ++ [⟨c, l, none, sent⟩] ∧ (sent = [] ∨ sent = [s.log.length]) := by
  obtain ⟨pcm, mode, threshold, suppression, sensitivity, now⟩ := c
  obtain rfl : mode = .manual := hc
  refine ⟨lastMode_switchMode s.processor .manual, _, _, rfl, ?_⟩
  dsimp only
  split
  · exact .inr rfl
  · exact .inl rfl

theorem fits_snoc (h : ∀ before e after, log = before ++ e :: after → Fits before e)
    (he : Fits log e) :
    ∀ before e' after, log ++ [e] = before ++ e' :: after → Fits before e' := by
  intro before e' after heq
  rcases List.eq_nil_or_concat after with rfl | ⟨front, x, rfl⟩
  · obtain ⟨rfl, hlast⟩ := List.append_inj' heq rfl
    obtain rfl : e = e' := by simpa using hlast
    exact he
  · rw [List.concat_eq_append, ← List.cons_append, ← List.append_assoc] at heq
    obtain ⟨hfront, -⟩ := List.append_inj' heq rfl
    exact h before e' front hfront

theorem Inv.next (h : Inv s) (c : Call) : Inv (s.next d c) := by
  cases hc : c.mode with
  | manual =>
      obtain ⟨hmode, l, sent, hlog, hsent⟩ := @next_manual _ d c s hc
      have hends : SendsEnd s.log ⟨c, l, none, sent⟩ :=
        hsent.imp_right fun hone => ⟨0, Nat.zero_le _, hone⟩
      refine ⟨?_, ?_, ?_, ?_⟩
      · rw [hlog]
        exact fits_snoc h.fits (fits_manual hc)
      · rw [hlog]
        exact h.sent.snoc hends
      · simp [hlog, hmode, hc]
      · simp [hmode]
  | auto =>
      obtain ⟨tx, htx, hmode, hgate, hpreRoll, hlog⟩ := @next_auto _ d c s hc
      let r := (s.processor.switchMode .auto).gate.step (.forSensitivity c.sensitivity)
        (s.processor.levels d c)
      obtain ⟨hfits, hready⟩ := h.ready_switchMode.step
        (e := ⟨c, s.processor.levels d c, some r.2,
          (VoiceProcessor.dispatch (s.processor.switchMode .auto).preRoll tx r.2).1.map
            Window.number⟩)
        htx (by simp [Entry.isAuto, hc]) (Gate.steps _ _ _) rfl rfl
      refine ⟨?_, ?_, ?_, ?_⟩
      · rw [hlog]
        exact fits_snoc h.fits hfits
      · rw [hlog]
        exact h.sent.snoc (hfits.sendsEnd rfl)
      · simp [hlog, hmode, hc]
      · rw [hgate, hpreRoll, hlog]
        exact fun _ => hready

/-- The windows of a talk spurt behind the one that opened it. -/
theorem flatMap_spurt (h : ∀ before e after, log = before ++ e :: after → Fits before e)
    {front opens after : List Entry} (hlog : log = front ++ (opens ++ after))
    (hopen : ∀ x ∈ opens, x.step = some .open) :
    opens.flatMap Entry.sent = List.range' front.length opens.length := by
  induction opens generalizing front with
  | nil => rfl
  | cons x opens ih =>
      have hx := (h front x (opens ++ after) hlog).isOpen (hopen x List.mem_cons_self)
      have hrest := @ih (front ++ [x]) (by simp [hlog])
        fun y hy => hopen y (List.mem_cons_of_mem _ hy)
      rw [List.flatMap_cons, hx.1, hrest, List.length_cons, List.range'_succ]
      simp

/-! ## What is promised -/

/-- The order of what is sent. -/
structure VoiceOrder (log : List Entry) : Prop where
  /-- No window is sent twice or out of order. -/
  increasing : (log.flatMap Entry.sent).Pairwise (· < ·)
  captured : ∀ x ∈ log.flatMap Entry.sent, x < log.length
  /-- A talk spurt is one run of windows that begins with the pre-roll. -/
  contiguous : ∀ before e opens after, log = before ++ e :: (opens ++ after) →
    e.step = some .opened → (∀ x ∈ opens, x.step = some .open) →
      (e :: opens).flatMap Entry.sent =
        List.range' (before.length - preRollOf before) (preRollOf before + 1 + opens.length)
  inSpurt : ∀ before e after, log = before ++ e :: after → e.step = some .open →
    ∃ front o opens, before = front ++ o :: opens ∧ o.step = some .opened ∧
      ∀ x ∈ opens, x.step = some .open
  outside : ∀ e ∈ log, e.step = some .closed ∨ e.step = some .closing → e.sent = []
  judged : ∀ e ∈ log, e.step = none ↔ e.call.mode = .manual
  opens : ∀ before e after, log = before ++ e :: after → e.step = some .opened →
    e.params.confirm ≤ trailing Entry.qualifies (before ++ [e])
  closes : ∀ before e after, log = before ++ e :: after → e.step = some .closing →
    e.params.hangover ≤ trailing Entry.fails (before ++ [e])

theorem Inv.voiceOrder (h : Inv s) : VoiceOrder s.log where
  increasing := h.sent.increasing
  captured x hx := Nat.lt_of_le_of_lt (Nat.le_add_right _ _) (h.sent.sent_lt x hx)
  contiguous before e opens after hlog he hopen := by
    have hfirst := (h.fits before e (opens ++ after) hlog).opened he
    have hlog' : s.log = (before ++ [e]) ++ (opens ++ after) := by simp [hlog]
    have hrest := flatMap_spurt h.fits hlog' hopen
    have hle := @preRollOf_le before
    have hsum : before.length + 1 = before.length - preRollOf before + (preRollOf before + 1) := by
      omega
    rw [List.flatMap_cons, hfirst.1, hrest, List.length_append, List.length_singleton, hsum,
      List.range'_append_1]
  inSpurt before e after hlog he := ((h.fits before e after hlog).isOpen he).2
  outside e he hstep := by
    obtain ⟨before, after, hlog⟩ := List.append_of_mem he
    rcases hstep with hstep | hstep
    · exact (h.fits before e after hlog).closed hstep
    · exact ((h.fits before e after hlog).closing hstep).1
  judged e he := by
    obtain ⟨before, after, hlog⟩ := List.append_of_mem he
    exact (h.fits before e after hlog).judged
  opens before e after hlog he := ((h.fits before e after hlog).opened he).2
  closes before e after hlog he := ((h.fits before e after hlog).closing he).2

theorem run_log {calls : List Call} (h : (system d).Run s calls s') :
    s'.log.map Entry.call = s.log.map Entry.call ++ calls := by
  induction h with
  | nil s => simp
  | @cons s t u c calls hc _ ih =>
      obtain rfl := Option.some.inj hc
      have hlog : (s.next d c).log.map Entry.call = s.log.map Entry.call ++ [c] := by
        simp [Capture.next]
      rw [ih, hlog, List.append_assoc]
      rfl

/-- Whatever is captured under whatever settings, what is sent is in order. -/
theorem voice_order {calls : List Call} (h : (system d).Run .start calls s) :
    s.log.map Entry.call = calls ∧ VoiceOrder s.log := by
  have hinv : Inv s := h.invariant (P := Inv)
    (fun s c t hs hc => by
      obtain rfl := Option.some.inj hc
      exact hs.next c)
    inv_start
  exact ⟨run_log h, hinv.voiceOrder⟩

/-! ## A run -/

/-- A denoiser that hears no voice. -/
def deaf : Denoiser Unit where
  new := ()
  processFrame st half := (st, half, 0.0)

def silence (mode : VadMode) (now : ℕ) : Call where
  pcm := List.replicate frame 0
  mode := mode
  threshold := 100.0
  suppression := true
  sensitivity := .normal
  now := now

def switched : List Call :=
  [silence .auto 0, silence .manual 20000000, silence .auto 40000000]

theorem voice_order_switched : ∃ s : Capture Unit,
    (system deaf).Run .start switched s ∧ s.log.length = 3 ∧ VoiceOrder s.log := by
  obtain ⟨s, hs⟩ : ∃ s, (system deaf).exec .start switched = some s := ⟨_, rfl⟩
  have hrun := StepSystem.exec_eq_some_iff.mp hs
  obtain ⟨hcalls, horder⟩ := voice_order hrun
  exact ⟨s, hrun, by simpa [switched] using congrArg List.length hcalls, horder⟩

end SpecterComs.Vad
