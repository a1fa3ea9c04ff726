import SpecterComs.Verification.MediaServer.View

/-! # Ended sessions leave nothing behind

The session that registered last under a key covers every entry of the key until its
clean-up removes it.
-/

namespace SpecterComs.MediaServer

/-! ## Nonces -/

/-- The sessions of a key have different nonces. -/
structure View.Nonces (w : View) : Prop where
  below : ∀ s stage j, w.stage s = some stage → stage.joinedAs = some j → j.nonce < w.nextNonce
  unique : ∀ s s' stage stage' j j', w.stage s = some stage → w.stage s' = some stage' →
    stage.joinedAs = some j → stage'.joinedAs = some j' → j.nonce = j'.nonce → s = s'

namespace View

variable {w w' : View} {act : Act}

theorem Nonces.of_stage (hw : w.Nonces) {s : ℕ} {stage : Stage}
    (hstage : w'.stage = Function.update w.stage s (some stage))
    (hclock : w.nextNonce ≤ w'.nextNonce)
    (hj : ∀ j, stage.joinedAs = some j →
      (∃ old, w.stage s = some old ∧ old.joinedAs = some j) ∨
        j.nonce = w.nextNonce ∧ w.nextNonce < w'.nextNonce) : w'.Nonces := by
  -- a session with a nonce had it before, or it is `s` with the new one
  have hold : ∀ other st j, w'.stage other = some st → st.joinedAs = some j →
      (∃ old, w.stage other = some old ∧ old.joinedAs = some j) ∨
        other = s ∧ j.nonce = w.nextNonce ∧ w.nextNonce < w'.nextNonce := by
    intro other st j ho hst
    rw [hstage] at ho
    by_cases heq : other = s
    · subst heq
      rw [Function.update_self] at ho
      obtain rfl := Option.some.inj ho
      exact (hj j hst).imp_right fun h => ⟨rfl, h⟩
    · rw [Function.update_of_ne heq] at ho
      exact .inl ⟨st, ho, hst⟩
  constructor
  · intro other st j ho hst
    obtain ⟨old, h, hold⟩ | ⟨-, hn, hlt⟩ := hold other st j ho hst
    · exact (hw.below other old j h hold).trans_le hclock
    · omega
  · intro a b sa sb ja jb ha hb hja hjb heq
    obtain ⟨oa, hoa, hja⟩ | ⟨rfl, hna, -⟩ := hold a sa ja ha hja <;>
      obtain ⟨ob, hob, hjb⟩ | ⟨rfl, hnb, -⟩ := hold b sb jb hb hjb
    · exact hw.unique a b oa ob ja jb hoa hob hja hjb heq
    · have := hw.below a oa ja hoa hja
      omega
    · have := hw.below b ob jb hob hjb
      omega
    · rfl

theorem Nonces.step (hw : w.Nonces) (hstep : Step w act w') : w'.Nonces := by
  cases hstep with
  | idle => exact hw
  | clock n m hn hm =>
      exact ⟨fun s st j hs hj => (hw.below s st j hs hj).trans_le hn, hw.unique⟩
  | created n hn hroom =>
      exact ⟨fun s st j hs hj => (hw.below s st j hs hj).trans_le hn, hw.unique⟩
  | dropped r hroom hnonce => exact ⟨hw.below, hw.unique⟩
  | connect s hs => exact hw.of_stage rfl le_rfl fun j hj => nomatch hj
  | register s hs => exact hw.of_stage rfl le_rfl fun j hj => nomatch hj
  | registerMove s hs => exact hw.of_stage rfl le_rfl fun j hj => nomatch hj
  | join s j r hs hroom hj ho =>
      refine hw.of_stage rfl (Nat.le_succ _) fun j' hj' => .inr ?_
      obtain rfl := Option.some.inj hj'
      exact ⟨hj, Nat.lt_succ_self _⟩
  | joinNew s j hs hroom hj ho =>
      refine hw.of_stage rfl (Nat.le_succ _) fun j' hj' => .inr ?_
      obtain rfl := Option.some.inj hj'
      exact ⟨hj, Nat.lt_succ_self _⟩
  | failed s j hs => exact hw.of_stage rfl le_rfl fun j hj => nomatch hj
  | kill s j hs => exact hw.of_stage rfl le_rfl fun j hj => nomatch hj
  | leaveRoom s j room hs hleft => exact hw.of_stage rfl le_rfl fun j hj => nomatch hj
  | subscribe s j hs => exact hw.of_stage rfl le_rfl fun j' hj' => .inl ⟨_, hs, hj'⟩
  | opened s j hs => exact hw.of_stage rfl le_rfl fun j' hj' => .inl ⟨_, hs, hj'⟩
  | aborted s j hs => exact hw.of_stage rfl le_rfl fun j' hj' => .inl ⟨_, hs, hj'⟩
  | leave s j hs => exact hw.of_stage rfl le_rfl fun j' hj' => .inl ⟨_, hs, hj'⟩
  | unregister s j hs => exact hw.of_stage rfl le_rfl fun j' hj' => .inl ⟨_, hs, hj'⟩
  | unregisterMove s j hs => exact hw.of_stage rfl le_rfl fun j' hj' => .inl ⟨_, hs, hj'⟩
  | findOutputs s j o r hs hroom ho => exact hw.of_stage rfl le_rfl fun j' hj' => .inl ⟨_, hs, hj'⟩
  | noOutputs s j hs hroom => exact hw.of_stage rfl le_rfl fun j' hj' => .inl ⟨_, hs, hj'⟩
  | unsubscribe s j o hs => exact hw.of_stage rfl le_rfl fun j' hj' => .inl ⟨_, hs, hj'⟩

theorem Nonces.init (k : SessionKey) : (Server.init.view k).Nonces :=
  ⟨fun _ _ _ h => (nomatch h), fun _ _ _ _ _ _ h => (nomatch h)⟩

end View

/-! ## Entries and the session that removes them -/

/-- How much the session has yet to remove: all from registering on, then less with each
section of the clean-up. -/
@[simp] def Stage.owes : Stage → ℕ
  | .accepted => 0
  | .registered | .movable | .joined _ | .subscribed _ | .running _ _ => 6
  | .cleanup _ .session => 5
  | .cleanup _ .moveSender => 4
  | .cleanup _ .findOutputs => 3
  | .cleanup _ (.output _) => 2
  | .cleanup _ .room => 1
  | .finished => 0

namespace View

/-- The stage of the session that registered last. -/
def turn (w : View) : Option Stage :=
  w.newest.bind w.stage

/-- Each entry of the key is still to be removed by the session at this stage, and the room
is the one it joined. -/
structure Covered (turn : Option Stage) (session moveSender : Option ℕ) (room : Option RoomView)
    (output : ℕ → Option ℕ) : Prop where
  session : session ≠ none → ∃ stage, turn = some stage ∧ 5 ≤ stage.owes
  moveSender : moveSender ≠ none → ∃ stage, turn = some stage ∧ 4 ≤ stage.owes
  output : ∀ r, room = some r → output r.outputs ≠ none →
    ∃ stage, turn = some stage ∧ 2 ≤ stage.owes
  nonce : ∀ r, room = some r → r.nonce ≠ none → ∃ stage, turn = some stage ∧ 1 ≤ stage.owes
  joined : ∀ stage j, turn = some stage → stage.joinedAs = some j →
    room = some ⟨j.outputs.2, some j.nonce⟩
  found : ∀ j o, turn = some (.cleanup j (.output o)) → o.2 = j.outputs.2

def Held (w : View) : Prop :=
  Covered w.turn w.session w.moveSender w.room w.output

/-- A session skips its clean-up only after a newer one registered, and goes on with its
set-up only while the newest has not removed what this makes. -/
def tidy (w : View) : Act → Bool
  | .kill s | .openStream s .failed => w.newest ≠ some s
  | .advance s =>
      match w.stage s with
      | some .registered => w.turn.any (4 ≤ ·.owes)
      | some .movable => w.turn.any fun | .registered | .movable => true | _ => false
      | some (.joined j) =>
          w.room.all (·.outputs ≠ j.outputs.2) || w.turn.any (2 ≤ ·.owes)
      | _ => true
  | _ => true

variable {w w' : View} {act : Act} {s : ℕ} {stage old : Stage}

theorem turn_of_ne (hnewest : w'.newest = w.newest)
    (hstage : w'.stage = Function.update w.stage s (some stage)) (hn : w.newest ≠ some s) :
    w'.turn = w.turn := by
  unfold turn
  rw [hnewest, hstage]
  cases hw : w.newest with
  | none => rfl
  | some n =>
      have hne : n ≠ s := fun h => hn (hw.trans (congrArg some h))
      simp [hne]

theorem Held.setStage (hs : w.stage s = some old)
    (hstage : w'.stage = Function.update w.stage s (some stage)) (hnewest : w'.newest = w.newest)
    (hown : w.newest = some s → w.turn = some old → Covered (some stage) w'.session w'.moveSender w'.room w'.output)
    (hother : w.newest ≠ some s → Covered w.turn w'.session w'.moveSender w'.room w'.output) :
    w'.Held := by
  unfold Held
  by_cases hn : w.newest = some s
  · have hturn : w'.turn = some stage := by simp [turn, hnewest, hstage, hn]
    rw [hturn]
    exact hown hn (by simp [turn, hn, hs])
  · rw [turn_of_ne hnewest hstage hn]
    exact hother hn

variable {session moveSender : Option ℕ} {room : Option RoomView} {output output' : ℕ → Option ℕ}

theorem Covered.accepted {turn : Option Stage} (h : Covered turn session moveSender room output)
    (hturn : turn = none) : Covered (some .accepted) session moveSender room output := by
  subst hturn
  refine ⟨fun hne => ?_, fun hne => ?_, fun r hr hne => ?_, fun r hr hne => ?_, ?_, ?_⟩
  · exact nomatch h.session hne
  · exact nomatch h.moveSender hne
  · exact nomatch h.output r hr hne
  · exact nomatch h.nonce r hr hne
  · rintro _ j ⟨⟩ hj
    exact nomatch hj
  · exact fun j o ho => nomatch ho

/-- Entries may go, and the session that removes them may go on as far as they have. -/
theorem Covered.mono {turn turn' : Option Stage} {session' moveSender' : Option ℕ}
    (h : Covered turn session moveSender room output)
    (hsession : session' ≠ none → session ≠ none) (hmove : moveSender' ≠ none → moveSender ≠ none)
    (houtput : ∀ n, output' n ≠ none → output n ≠ none)
    (hturn : turn' = turn ∨ ∃ old stage j, turn = some old ∧ turn' = some stage ∧ old.joinedAs = some j ∧ stage.joinedAs = some j ∧ (session' ≠ none → 5 ≤ stage.owes) ∧ (moveSender' ≠ none → 4 ≤ stage.owes) ∧ ((∃ r, room = some r ∧ output' r.outputs ≠ none) → 2 ≤ stage.owes) ∧ 1 ≤ stage.owes ∧ ∀ o, stage = .cleanup j (.output o) → o.2 = j.outputs.2) :
    Covered turn' session' moveSender' room output' := by
  obtain rfl | ⟨old, stage, j, rfl, rfl, hold, hj, h₅, h₄, h₂, h₁, hfound⟩ := hturn
  · exact ⟨fun hne => h.session (hsession hne), fun hne => h.moveSender (hmove hne),
      fun r hr hne => h.output r hr (houtput _ hne), h.nonce, h.joined, h.found⟩
  · refine ⟨fun hne => ⟨stage, rfl, h₅ hne⟩, fun hne => ⟨stage, rfl, h₄ hne⟩,
      fun r hr hne => ⟨stage, rfl, h₂ ⟨r, hr, hne⟩⟩, fun _ _ _ => ⟨stage, rfl, h₁⟩, ?_, ?_⟩
    · intro st j' hst hj'
      obtain rfl := Option.some.inj hst
      obtain rfl := Option.some.inj (hj.symm.trans hj')
      exact h.joined old j rfl hold
    · intro j' o ho
      obtain rfl := Option.some.inj ho
      obtain rfl := Option.some.inj (hj.symm.trans (show (Stage.cleanup j' (.output o)).joinedAs = _
        from rfl))
      exact hfound o rfl

theorem Covered.owes (h : Covered (some old) session moveSender room output) :
    (session ≠ none → 5 ≤ old.owes) ∧ (moveSender ≠ none → 4 ≤ old.owes) ∧
      ((∃ r, room = some r ∧ output r.outputs ≠ none) → 2 ≤ old.owes) ∧
      ((∃ r, room = some r ∧ r.nonce ≠ none) → 1 ≤ old.owes) := by
  refine ⟨fun hne => ?_, fun hne => ?_, ?_, ?_⟩
  · obtain ⟨_, ⟨⟩, hle⟩ := h.session hne
    exact hle
  · obtain ⟨_, ⟨⟩, hle⟩ := h.moveSender hne
    exact hle
  · rintro ⟨r, hr, hne⟩
    obtain ⟨_, ⟨⟩, hle⟩ := h.output r hr hne
    exact hle
  · rintro ⟨r, hr, hne⟩
    obtain ⟨_, ⟨⟩, hle⟩ := h.nonce r hr hne
    exact hle

variable {j : Joined}

/-- The newest session goes on in the loop, or leaves it. -/
theorem Held.goOn (hw : w.Held) (hs : w.stage s = some old) (hold : old.joinedAs = some j)
    (hj : stage.joinedAs = some j) (howes : 5 ≤ stage.owes)
    (hfound : ∀ o, stage ≠ .cleanup j (.output o)) : (w.setStage s stage).Held := by
  have hc : Covered w.turn w.session w.moveSender w.room w.output := hw
  refine Held.setStage hs rfl rfl (fun _ hturn => ?_) fun _ => hw
  exact hc.mono id id (fun _ => id) (.inr ⟨old, stage, j, hturn, rfl, hold, hj, fun _ => howes,
    fun _ => by omega, fun _ => by omega, by omega, fun o h => absurd h (hfound o)⟩)

/-- While the newest session is in its set-up all may be there. -/
theorem Covered.of_setUp (howes : stage.owes = 6)
    (hjoined : ∀ j, stage.joinedAs = some j → room = some ⟨j.outputs.2, some j.nonce⟩) :
    Covered (some stage) session moveSender room output := by
  refine ⟨fun _ => ⟨stage, rfl, by omega⟩, fun _ => ⟨stage, rfl, by omega⟩,
    fun _ _ _ => ⟨stage, rfl, by omega⟩, fun _ _ _ => ⟨stage, rfl, by omega⟩, ?_, ?_⟩
  · rintro _ j ⟨⟩ hj
    exact hjoined j hj
  · rintro j o ⟨⟩
    exact absurd howes (by simp)

/-- A room that has no entry of the user. -/
theorem Covered.vacant {turn : Option Stage} {room' : Option RoomView}
    (h : Covered turn session moveSender room output)
    (hjoined : ∀ stage j, turn = some stage → stage.joinedAs ≠ some j)
    (hnonce : ∀ r, room' = some r → r.nonce = none)
    (houtput : ∀ r, room' = some r → output' r.outputs ≠ none → ∃ stage, turn = some stage ∧ 2 ≤ stage.owes) :
    Covered turn session moveSender room' output' :=
  ⟨h.session, h.moveSender, houtput, fun r hr hne => absurd (hnonce r hr) hne,
    fun stage j hst hj => absurd hj (hjoined stage j hst), h.found⟩

/-- A session that is not the newest leaves the room, if the room still holds its nonce. -/
theorem Held.leaveRoom_other (hn : w.Nonces) (hw : w.Held)
    (hs : w.stage s = some (.cleanup j .room)) (hleft : Left w j room)
    (hother : w.newest ≠ some s) : Covered w.turn w.session w.moveSender room w.output := by
  have hc : Covered w.turn w.session w.moveSender w.room w.output := hw
  -- the newest session did not join with the nonce of this one
  have hjoined : ∀ r, w.room = some r → r.nonce = some j.nonce →
      ∀ stage j', w.turn = some stage → stage.joinedAs ≠ some j' := by
    intro r hr hnonce stage j' hst hj'
    have hroom := hc.joined stage j' hst hj'
    rw [hr] at hroom
    obtain rfl := Option.some.inj hroom
    obtain ⟨n, hnew, hstage⟩ := Option.bind_eq_some_iff.mp hst
    have := hn.unique n s stage _ j' j hstage hs hj' rfl (Option.some.inj hnonce)
    exact hother (hnew.trans (congrArg some this))
  cases hleft with
  | gone h => exact h ▸ hc
  | newer r h hne => exact h ▸ hc
  | disposed r h hnonce =>
      exact hc.vacant (hjoined r h hnonce) (fun _ h => nomatch h) (fun _ h => nomatch h)
  | left r h hnonce =>
      refine hc.vacant (hjoined r h hnonce) (fun r' h' => ?_) (fun r' h' hne => ?_)
      · obtain rfl := Option.some.inj h'
        rfl
      · obtain rfl := Option.some.inj h'
        exact hc.output r h hne

theorem Held.leaveRoom_own (hw : w.Held) (hleft : Left w j room)
    (hturn : w.turn = some (.cleanup j .room)) :
    Covered (some .finished) w.session w.moveSender room w.output := by
  have hc : Covered w.turn w.session w.moveSender w.room w.output := hw
  rw [hturn] at hc
  have hroom := hc.joined _ j rfl rfl
  obtain ⟨h₅, h₄, h₂, -⟩ := hc.owes
  have hnone : ∀ r, room = some r → r.nonce = none ∧ w.output r.outputs = none := by
    intro r hr
    subst hr
    cases hleft with
    | newer r h hne =>
        rw [hroom] at h
        obtain rfl := Option.some.inj h
        exact absurd rfl hne
    | left r h hnonce =>
        refine ⟨rfl, ?_⟩
        by_contra hne
        exact absurd (h₂ ⟨r, h, hne⟩) (by simp)
  refine ⟨fun hne => absurd (h₅ hne) (by simp), fun hne => absurd (h₄ hne) (by simp),
    fun r hr hne => absurd (hnone r hr).2 hne, fun r hr hne => absurd (hnone r hr).1 hne, ?_, ?_⟩
  · rintro _ j' ⟨⟩ hj'
    exact nomatch hj'
  · intro j' o ho
    exact nomatch ho

theorem tidy_movable (hs : w.stage s = some .movable) (ht : w.tidy (.advance s)) :
    w.turn = some .registered ∨ w.turn = some .movable := by
  simp only [tidy, hs, Option.any_eq_true] at ht
  obtain ⟨stage, hturn, h⟩ := ht
  cases stage <;> simp_all

theorem tidy_joined (hs : w.stage s = some (.joined j)) (ht : w.tidy (.advance s)) {r : RoomView}
    (hr : w.room = some r) (ho : r.outputs = j.outputs.2) :
    ∃ stage, w.turn = some stage ∧ 2 ≤ stage.owes := by
  simpa [tidy, hs, hr, ho, Option.any_eq_true, -Stage.owes] using ht

theorem Held.step (hn : w.Nonces) (hw : w.Held) (ht : w.tidy act) (hstep : Step w act w') :
    w'.Held := by
  have hc : Covered w.turn w.session w.moveSender w.room w.output := hw
  cases hstep with
  | idle => exact hw
  | clock n m hn hm => exact hw
  | created n hn hroom =>
      refine hc.vacant (fun stage j hst hj => ?_) (fun r hr => ?_) (fun r hr hne => ?_)
      · have := hc.joined stage j hst hj
        rw [hroom] at this
        exact nomatch this
      · obtain rfl := Option.some.inj hr
        rfl
      · obtain rfl := Option.some.inj hr
        exact absurd (Function.update_self _ _ _) hne
  | dropped r hroom hnonce =>
      refine hc.vacant (fun stage j hst hj => ?_) (fun _ h => nomatch h) (fun _ h => nomatch h)
      have := hc.joined stage j hst hj
      rw [hroom] at this
      obtain rfl := Option.some.inj this
      exact nomatch hnonce
  | connect s hs =>
      by_cases hnew : w.newest = some s
      · have hturn : w.turn = none := by simp [turn, hnew, hs]
        have hturn' : (w.setStage s .accepted).turn = some .accepted := by
          simp [turn, View.setStage, hnew]
        unfold Held
        rw [hturn']
        exact hc.accepted hturn
      · have hturn : (w.setStage s .accepted).turn = w.turn :=
          turn_of_ne rfl rfl hnew
        unfold Held
        rw [hturn]
        exact hc
  | register s hs =>
      have hturn : View.turn { w.setStage s .registered with session := some s, newest := some s } =
          some .registered := by simp [turn, View.setStage]
      unfold Held
      rw [hturn]
      exact .of_setUp rfl fun j hj => nomatch hj
  | registerMove s hs =>
      refine Held.setStage hs rfl rfl (fun _ hturn => ?_) fun _ => ?_
      · rw [hturn] at hc
        exact .of_setUp rfl fun j hj => nomatch hj
      · obtain ⟨stage, hturn, hle⟩ : ∃ stage, w.turn = some stage ∧ 4 ≤ stage.owes := by
          simpa [tidy, hs, Option.any_eq_true, -Stage.owes] using ht
        exact ⟨hc.session, fun _ => ⟨stage, hturn, hle⟩, hc.output, hc.nonce, hc.joined, hc.found⟩
  | join s j r hs hroom hj ho =>
      refine Held.setStage hs rfl rfl (fun _ _ => ?_) fun _ => ?_
      · refine .of_setUp rfl fun j' hj' => ?_
        obtain rfl := Option.some.inj hj'
        rw [hj, ho]
      · obtain hturn | hturn := tidy_movable hs ht
        all_goals
          rw [hturn]
          exact .of_setUp rfl fun j hj => nomatch hj
  | joinNew s j hs hroom hj ho =>
      refine Held.setStage hs rfl rfl (fun _ _ => ?_) fun _ => ?_
      · refine .of_setUp rfl fun j' hj' => ?_
        obtain rfl := Option.some.inj hj'
        rw [hj, ho]
      · obtain hturn | hturn := tidy_movable hs ht
        all_goals
          rw [hturn]
          exact .of_setUp rfl fun j hj => nomatch hj
  | failed s j hs => exact Held.setStage hs rfl rfl (fun h => absurd h (of_decide_eq_true ht)) fun _ => hw
  | kill s j hs => exact Held.setStage hs rfl rfl (fun h => absurd h (of_decide_eq_true ht)) fun _ => hw
  | leaveRoom s j room hs hleft =>
      exact Held.setStage hs rfl rfl (fun _ hturn => hw.leaveRoom_own hleft hturn)
        (hw.leaveRoom_other hn hs hleft)
  | subscribe s j hs =>
      refine Held.setStage hs rfl rfl (fun _ hturn => ?_) fun _ => ?_
      · rw [hturn] at hc
        exact .of_setUp rfl fun j' hj' => hc.joined _ j' rfl hj'
      · refine ⟨hc.session, hc.moveSender, fun r hr hne => ?_, hc.nonce, hc.joined, hc.found⟩
        by_cases ho : r.outputs = j.outputs.2
        · exact tidy_joined hs ht hr ho
        · exact hc.output r hr (by simpa [ho] using hne)
  | opened s j hs => exact hw.goOn hs rfl rfl (by simp) (by simp)
  | aborted s j hs => exact hw.goOn hs rfl rfl (by simp) (by simp)
  | leave s j hs => exact hw.goOn hs rfl rfl (by simp) (by simp)
  | unregister s j hs =>
      refine Held.setStage hs rfl rfl (fun _ hturn => ?_) fun _ => ?_
      · exact hc.mono (fun h => absurd rfl h) id (fun _ => id)
          (.inr ⟨_, _, j, hturn, rfl, rfl, rfl, by simp, by simp, by simp, by simp, by simp⟩)
      · exact hc.mono (fun h => absurd rfl h) id (fun _ => id) (.inl rfl)
  | unregisterMove s j hs =>
      refine Held.setStage hs rfl rfl (fun _ hturn => ?_) fun _ => ?_
      · rw [hturn] at hc
        refine hc.mono id (fun h => absurd rfl h) (fun _ => id)
          (.inr ⟨_, _, j, rfl, rfl, rfl, rfl, fun hne => ?_, by simp, by simp, by simp, by simp⟩)
        exact absurd (hc.owes.1 hne) (by simp)
      · exact hc.mono id (fun h => absurd rfl h) (fun _ => id) (.inl rfl)
  | findOutputs s j o r hs hroom ho =>
      refine Held.setStage hs rfl rfl (fun _ hturn => ?_) fun _ => hw
      rw [hturn] at hc
      refine hc.mono id id (fun _ => id) (.inr ⟨_, _, j, rfl, rfl, rfl, rfl,
        fun hne => absurd (hc.owes.1 hne) (by simp),
        fun hne => absurd (hc.owes.2.1 hne) (by simp), by simp, by simp, ?_⟩)
      rintro o' ⟨⟩
      have := hc.joined _ j rfl rfl
      rw [hroom] at this
      rw [ho, Option.some.inj this]
  | noOutputs s j hs hroom =>
      refine Held.setStage hs rfl rfl (fun _ hturn => ?_) fun _ => hw
      rw [hturn] at hc
      have := hc.joined _ j rfl rfl
      rw [hroom] at this
      exact nomatch this
  | unsubscribe s j o hs =>
      have hless : ∀ n, Function.update w.output o.2 none n ≠ none → w.output n ≠ none := by
        intro n hne
        by_cases h : n = o.2 <;> simp_all
      refine Held.setStage hs rfl rfl (fun _ hturn => ?_) fun _ => ?_
      · rw [hturn] at hc
        refine hc.mono id id hless (.inr ⟨_, _, j, rfl, rfl, rfl, rfl,
          fun hne => absurd (hc.owes.1 hne) (by simp),
          fun hne => absurd (hc.owes.2.1 hne) (by simp), ?_, by simp, by simp⟩)
        rintro ⟨r, hr, hne⟩
        have hroom := hc.joined _ j rfl rfl
        rw [hr] at hroom
        rw [Option.some.inj hroom, hc.found j o rfl] at hne
        exact absurd (Function.update_self _ _ _) hne
      · exact hc.mono id id hless (.inl rfl)

theorem Held.init (k : SessionKey) : (Server.init.view k).Held := by
  refine ⟨fun h => absurd rfl h, fun h => absurd rfl h, ?_, ?_, ?_, ?_⟩
  · intro r hr
    exact absurd hr (by simp [Server.view, Server.init])
  · intro r hr
    exact absurd hr (by simp [Server.view, Server.init])
  · intro stage j h
    cases h
  · intro j o h
    cases h

/-- Once the newest session has finished, no entry is left. -/
theorem Held.finished (hw : w.Held) (hturn : w.turn = some .finished) :
    w.session = none ∧ w.moveSender = none ∧
      ∀ r, w.room = some r → r.nonce = none ∧ w.output r.outputs = none := by
  have hc : Covered w.turn w.session w.moveSender w.room w.output := hw
  rw [hturn] at hc
  obtain ⟨h₅, h₄, h₂, h₁⟩ := hc.owes
  refine ⟨by_contra fun h => absurd (h₅ h) (by simp), by_contra fun h => absurd (h₄ h) (by simp),
    fun r hr => ⟨?_, ?_⟩⟩
  · exact by_contra fun h => absurd (h₁ ⟨r, hr, h⟩) (by simp)
  · exact by_contra fun h => absurd (h₂ ⟨r, hr, h⟩) (by simp)

end View

/-! ## Runs of the server -/

/-- The session that takes a section of its own. -/
def Input.session : Input → Option ℕ
  | .advance s | .openStream s _ | .kill s | .leave s _ => some s
  | _ => none

namespace Server

variable {v : Server}

def tidy (v : Server) (i : Input) : Bool :=
  (i.session.bind v.tasks).all fun t => (v.view t.ticket.key).tidy (v.actOf t.ticket.key i)

theorem actOf_cases (v : Server) (k : SessionKey) (i : Input) :
    v.actOf k i = .other ∨ ∃ t, i.session.bind v.tasks = some t ∧ t.ticket.key = k := by
  cases i <;> simp only [actOf, Input.session, true_or] <;> split <;> simp_all [Option.any_eq_true]

theorem tidy_view {i : Input} (h : v.tidy i) (k : SessionKey) : (v.view k).tidy (v.actOf k i) := by
  obtain hact | ⟨t, ht, rfl⟩ := actOf_cases v k i
  · rw [hact]
    rfl
  · rw [tidy, ht] at h
    exact h

/-- The server knows nothing of the user in the channel. -/
structure Absent (v : Server) (k : SessionKey) : Prop where
  session : v.sessions k = none
  moveSender : v.moveSenders k = none
  room : ∀ st, v.rooms.lookup k.2 = some st →
    k.1 ∉ st.members ∧ k.1 ∉ announced st.roster ∧ st.callsigns k.1 = none ∧
      st.userGains k.1 = none ∧ st.memberOrgs k.1 = none ∧ st.sessionNonces k.1 = none ∧
      (v.outputs st.userOutputSenders).lookup k.1 = none

/-- A session that has ended left nothing of its user where no newer one registered, and no
room is empty. -/
structure NoLeaks (v : Server) : Prop where
  ended : ∀ s t, v.tasks s = some t → t.stage = .finished →
    v.newest t.ticket.key = some s → v.Absent t.ticket.key
  disposed : ∀ channel st, v.rooms.lookup channel = some st → st.members ≠ ∅

theorem Absent.of_view (hv : v.Wellformed) {k : SessionKey} (hsession : (v.view k).session = none)
    (hmove : (v.view k).moveSender = none)
    (hroom : ∀ r, (v.view k).room = some r → r.nonce = none ∧ (v.view k).output r.outputs = none) :
    v.Absent k := by
  refine ⟨hsession, hmove, fun st hst => ?_⟩
  have hok := hv.room _ st hst
  obtain ⟨hnonce, hout⟩ := hroom (st.view k.1) (by simp [Server.view, hst])
  have hmem : k.1 ∉ st.members := by
    rw [← hok.nonce]
    simpa [RoomState.view] using hnonce
  have hnone : ∀ {α : Type} {f : UserId → Option α},
      (∀ user, (f user).isSome ↔ user ∈ st.members) → f k.1 = none := fun hf =>
    Option.not_isSome_iff_eq_none.mp (mt (hf k.1).mp hmem)
  refine ⟨hmem, hok.roster ▸ hmem, hnone hok.callsign, hnone hok.gain, hnone hok.org,
    hnone hok.nonce, ?_⟩
  have heq : (k.2, st.userOutputSenders.2) = st.userOutputSenders := Prod.ext hok.outputs.symm rfl
  simpa [Server.view, RoomState.view, heq] using hout

/-- In a run whose steps are tidy no session leaves anything behind. -/
theorem tidy_run_no_leaks {is : List Input} (h : voice.Guarded (tidy · ·) .init is v) : v.NoLeaks := by
  have hinv : v.Wellformed ∧ ∀ k, (v.view k).Nonces ∧ (v.view k).Held := by
    refine StepSystem.Guarded.invariant
      (P := fun v : Server => v.Wellformed ∧ ∀ k, (v.view k).Nonces ∧ (v.view k).Held)
      (fun v i v' hv htidy hstep => ?_) h ⟨.init, fun k => ⟨.init k, .init k⟩⟩
    refine ⟨hv.1.step hstep, fun k => ?_⟩
    have hview := step_view (k := k) hv.1 hstep
    exact ⟨(hv.2 k).1.step hview, (hv.2 k).2.step (hv.2 k).1 (tidy_view htidy k) hview⟩
  refine ⟨fun s t ht hs hnew => ?_, fun channel st hst => (hinv.1.room channel st hst).occupied⟩
  have hturn : (v.view t.ticket.key).turn = some .finished := by
    have hstage := stage_eq (k := t.ticket.key) rfl ht
    rw [hs] at hstage
    exact Option.bind_eq_some_iff.mpr ⟨s, hnew, hstage⟩
  obtain ⟨hsession, hmove, hroom⟩ := (hinv.2 t.ticket.key).2.finished hturn
  exact .of_view hinv.1 hsession hmove hroom

def alice : Ticket := ⟨"alice", "acme", "ops", "Alice", none⟩

/-- A session from its connection to its loop. -/
def joins (s : ℕ) (t : Ticket) : List Input :=
  [.connect t, .advance s, .advance s, .advance s, .advance s, .openStream s .opened]

/-- A session that leaves its loop and cleans up. -/
def leaves (s : ℕ) : List Input :=
  [.leave s .closed, .advance s, .advance s, .advance s, .advance s, .advance s]

/-- A session is replaced by a second one, which leaves. -/
def replaced : List Input :=
  joins 0 alice ++ [.connect alice, .advance 1, .kill 0, .advance 1, .advance 1, .advance 1,
    .openStream 1 .opened] ++ leaves 1

theorem tidy_run_no_leaks_replaced :
    NoLeaks (((voice.restrict tidy).exec .init replaced).get (by decide)) :=
  tidy_run_no_leaks (StepSystem.exec_eq_some_iff.mp (Option.some_get _).symm).guarded

/-- The kill signal of a kick skips the clean-up as the one of a newer session does. -/
theorem kicked_user_stays :
    ∃ v, voice.Run .init (joins 0 alice ++ [.kick "alice", .kill 0]) v ∧ ¬ v.NoLeaks := by
  let ended := (voice.exec .init (joins 0 alice ++ [.kick "alice", .kill 0])).get (by decide)
  have hstage : ended.tasks 0 = some ⟨alice, .finished, true, [], none⟩ := rfl
  have hnew : ended.newest alice.key = some 0 := by decide
  have hkept : ended.sessions alice.key = some 0 := by decide
  refine ⟨ended, StepSystem.exec_eq_some_iff.mp (Option.some_get _).symm, fun h => ?_⟩
  have hnone := (h.ended 0 _ hstage rfl hnew).session
  rw [hkept] at hnone
  exact nomatch hnone

end Server

end SpecterComs.MediaServer
