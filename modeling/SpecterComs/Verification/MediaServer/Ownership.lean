import SpecterComs.Verification.MediaServer.Sessions

/-! # The entries of the newest session

While the session that registered last under a key sets up and runs, the entries it made
are its own, as long as no older session writes or clears one of them after it.
-/

namespace SpecterComs.MediaServer

/-- How many of its entries the session has made; none counts once it has left the loop. -/
@[simp] def Stage.entered : Stage → ℕ
  | .registered => 1
  | .movable => 2
  | .joined _ => 3
  | .subscribed _ | .running _ _ => 4
  | .accepted | .cleanup _ _ | .finished => 0

namespace View

/-- The session at the stage owns what it made. -/
structure Owns (w : View) (s : ℕ) (stage : Stage) : Prop where
  session : 1 ≤ stage.entered → w.session = some s
  moveSender : 2 ≤ stage.entered → w.moveSender = some s
  room : 3 ≤ stage.entered → ∀ j, stage.joinedAs = some j →
    w.room = some ⟨j.outputs.2, some j.nonce⟩
  output : 4 ≤ stage.entered → ∀ j, stage.joinedAs = some j → w.output j.outputs.2 = some s

def NewestOwns (w : View) : Prop :=
  ∀ s stage, w.newest = some s → w.stage s = some stage → w.Owns s stage

/-- A section of an older session that writes or clears an entry comes before the newest
session has made its own there. -/
def inOrder (w : View) : Act → Bool
  | .advance s =>
      w.newest = some s || w.turn.all fun newest =>
        match w.stage s with
        | some .registered | some (.cleanup _ .moveSender) => newest.entered < 2
        | some .movable => newest.entered < 3
        | some (.joined j) =>
            newest.entered < 4 || newest.joinedAs.all (·.outputs.2 ≠ j.outputs.2)
        | some (.cleanup _ (.output o)) =>
            newest.entered < 4 || newest.joinedAs.all (·.outputs.2 ≠ o.2)
        | some (.cleanup _ .session) => newest.entered < 1
        | _ => true
  | _ => true

variable {w w' : View} {act : Act} {s n : ℕ} {old stage : Stage}

theorem NewestOwns.setStage (hw : w.NewestOwns) (hs : w.stage s = some old)
    (hstage : w'.stage = Function.update w.stage s (some stage)) (hnewest : w'.newest = w.newest)
    (hown : w.Owns s old → w'.Owns s stage)
    (hother : ∀ n newest, w.newest = some n → n ≠ s → w.turn = some newest → w.Owns n newest → w'.Owns n newest) :
    w'.NewestOwns := by
  intro n newest hnew hn
  rw [hnewest] at hnew
  rw [hstage] at hn
  by_cases h : n = s
  · subst h
    rw [Function.update_self] at hn
    obtain rfl := Option.some.inj hn
    exact hown (hw n old hnew hs)
  · rw [Function.update_of_ne h] at hn
    exact hother n newest hnew h (Option.bind_eq_some_iff.mpr ⟨n, hnew, hn⟩) (hw n newest hnew hn)

theorem Owns.of_eq {stage' : Stage} (h : w.Owns s stage) (hsession : w'.session = w.session)
    (hmove : w'.moveSender = w.moveSender) (hroom : w'.room = w.room)
    (houtput : w'.output = w.output) (hentered : stage'.entered ≤ stage.entered)
    (hj : ∀ j, stage'.joinedAs = some j → stage.joinedAs = some j) : w'.Owns s stage' := by
  refine ⟨fun hle => ?_, fun hle => ?_, fun hle j h' => ?_, fun hle j h' => ?_⟩
  · rw [hsession]
    exact h.session (hle.trans hentered)
  · rw [hmove]
    exact h.moveSender (hle.trans hentered)
  · rw [hroom]
    exact h.room (hle.trans hentered) j (hj j h')
  · rw [houtput]
    exact h.output (hle.trans hentered) j (hj j h')

/-- A session that has left the loop claims nothing. -/
theorem Owns.of_left (h : stage.entered = 0) : w.Owns s stage := by
  refine ⟨?_, ?_, ?_, ?_⟩ <;> rw [h] <;> exact fun hle => absurd hle (by decide)

/-- What the guard says of a section of an older session. -/
theorem inOrder_older {newest : Stage} (hg : w.inOrder (.advance s)) (hs : w.stage s = some old)
    (hn : w.newest = some n) (hne : n ≠ s) (hturn : w.turn = some newest) :
    (match old with
      | .registered | .cleanup _ .moveSender => decide (newest.entered < 2)
      | .movable => decide (newest.entered < 3)
      | .joined j =>
          decide (newest.entered < 4) || newest.joinedAs.all (·.outputs.2 ≠ j.outputs.2)
      | .cleanup _ (.output o) =>
          decide (newest.entered < 4) || newest.joinedAs.all (·.outputs.2 ≠ o.2)
      | .cleanup _ .session => decide (newest.entered < 1)
      | _ => true) = true := by
  have hnew : w.newest ≠ some s := fun h => hne (Option.some.inj (hn.symm.trans h))
  simp only [inOrder, hnew, decide_false, Bool.false_or, hturn, Option.all_some, hs] at hg
  cases old with
  | cleanup j next => cases next <;> exact hg
  | _ => exact hg

/-- An output entry changes that is not the one of the session. -/
theorem Owns.output_ne {entry : Option ℕ} (h : w.Owns s stage)
    (hw' : w'.session = w.session ∧ w'.moveSender = w.moveSender ∧ w'.room = w.room ∧ w'.output = Function.update w.output n entry)
    (hne : (decide (stage.entered < 4) || stage.joinedAs.all (·.outputs.2 ≠ n)) = true) :
    w'.Owns s stage := by
  obtain ⟨hsession, hmove, hroom, houtput⟩ := hw'
  refine ⟨hsession ▸ h.session, hmove ▸ h.moveSender, hroom ▸ h.room, fun hle j hj => ?_⟩
  have hn : j.outputs.2 ≠ n := by
    have hlt : ¬ stage.entered < 4 := by omega
    simpa [hlt, hj, -Stage.entered] using hne
  rw [houtput, Function.update_of_ne hn]
  exact h.output hle j hj

/-- A room is created or goes where the newest session has not joined. -/
theorem Owns.no_room (h : w.Owns s stage)
    (hw' : w'.session = w.session ∧ w'.moveSender = w.moveSender) (hlt : stage.entered < 3) :
    w'.Owns s stage :=
  ⟨hw'.1 ▸ h.session, hw'.2 ▸ h.moveSender, fun hle => by omega, fun hle => by omega⟩

theorem Owns.entered_lt (h : w.Owns s stage)
    (hroom : ∀ j : Joined, w.room ≠ some ⟨j.outputs.2, some j.nonce⟩) : stage.entered < 3 := by
  by_contra hle
  cases stage with
  | joined j => exact hroom j (h.room (by simp) j rfl)
  | subscribed j => exact hroom j (h.room (by simp) j rfl)
  | running j _ => exact hroom j (h.room (by simp) j rfl)
  | _ => exact hle (by simp)

/-- An older session leaves the room, if it still holds its nonce. -/
theorem Owns.leaveRoom {j : Joined} (hn : w.Nonces) (h : w.Owns n stage) (hne : n ≠ s)
    (hs : w.stage s = some (.cleanup j .room)) (hstage : w.stage n = some stage)
    (hw' : w'.session = w.session ∧ w'.moveSender = w.moveSender ∧ w'.output = w.output)
    (hleft : Left w j w'.room) : w'.Owns n stage := by
  obtain ⟨hsession, hmove, houtput⟩ := hw'
  have hlt : w.room ≠ w'.room → stage.entered < 3 := by
    intro hroom
    by_contra hle
    -- the session has joined, so the room holds its nonce and not the older one's
    have hjoined : ∃ j', stage.joinedAs = some j' := by
      cases stage <;> first | exact ⟨_, rfl⟩ | exact absurd (by simp) hle
    obtain ⟨j', hj'⟩ := hjoined
    have hr := h.room (by omega) j' hj'
    have hnonce : ∀ r, w.room = some r → r.nonce ≠ some j.nonce := by
      intro r hr' hnonce
      rw [hr] at hr'
      obtain rfl := Option.some.inj hr'
      exact hne (hn.unique n s stage _ j' j hstage hs hj' rfl (Option.some.inj hnonce))
    generalize w'.room = room at hleft hroom
    cases hleft with
    | gone hr' => exact hroom hr'
    | newer r hr' => exact hroom hr'
    | disposed r hr' h' => exact hnonce r hr' h'
    | left r hr' h' => exact hnonce r hr' h'
  by_cases hroom : w.room = w'.room
  · exact h.of_eq hsession hmove hroom.symm houtput le_rfl fun _ => id
  · exact h.no_room ⟨hsession, hmove⟩ (hlt hroom)

theorem NewestOwns.step (hn : w.Nonces) (hw : w.NewestOwns) (hg : w.inOrder act)
    (hstep : Step w act w') : w'.NewestOwns := by
  cases hstep with
  | idle => exact hw
  | clock n m hn hm =>
      intro s stage hnew hs
      exact (hw s stage hnew hs).of_eq rfl rfl rfl rfl le_rfl fun _ => id
  | created n hn hroom =>
      intro s stage hnew hs
      have h := hw s stage hnew hs
      exact h.no_room ⟨rfl, rfl⟩ (h.entered_lt fun j hj => nomatch hroom.symm.trans hj)
  | dropped r hroom hnonce =>
      intro s stage hnew hs
      have h := hw s stage hnew hs
      refine h.no_room ⟨rfl, rfl⟩ (h.entered_lt fun j hj => ?_)
      rw [hroom] at hj
      obtain rfl := Option.some.inj hj
      exact nomatch hnonce
  | connect s hs =>
      intro n stage hnew hn
      by_cases h : n = s
      · subst h
        obtain rfl := Option.some.inj ((Function.update_self n _ w.stage).symm.trans hn)
        exact .of_left rfl
      · exact (hw n stage hnew ((Function.update_of_ne h _ w.stage).symm.trans hn)).of_eq rfl rfl
          rfl rfl le_rfl fun _ => id
  | register s hs =>
      intro n stage hnew hn
      obtain rfl := Option.some.inj hnew
      obtain rfl := Option.some.inj ((Function.update_self s _ w.stage).symm.trans hn)
      exact ⟨fun _ => rfl, fun h => absurd h (by simp), fun h => absurd h (by simp),
        fun h => absurd h (by simp)⟩
  | registerMove s hs =>
      refine hw.setStage hs rfl rfl (fun h => ?_) fun n newest hnew hne hturn h => ?_
      · exact ⟨fun _ => h.session (by simp), fun _ => rfl, fun h => absurd h (by simp),
          fun h => absurd h (by simp)⟩
      · have hlt := of_decide_eq_true (inOrder_older hg hs hnew hne hturn)
        exact ⟨h.session, fun hle => by omega, h.room, h.output⟩
  | join s j r hs hroom hj ho =>
      refine hw.setStage hs rfl rfl (fun h => ?_) fun n newest hnew hne hturn h => ?_
      · refine ⟨fun _ => h.session (by simp), fun _ => h.moveSender (by simp), fun _ j' hj' => ?_,
          fun h => absurd h (by simp)⟩
        obtain rfl := Option.some.inj hj'
        rw [hj, ho]
      · exact h.no_room ⟨rfl, rfl⟩ (of_decide_eq_true (inOrder_older hg hs hnew hne hturn))
  | joinNew s j hs hroom hj ho =>
      refine hw.setStage hs rfl rfl (fun h => ?_) fun n newest hnew hne hturn h => ?_
      · refine ⟨fun _ => h.session (by simp), fun _ => h.moveSender (by simp), fun _ j' hj' => ?_,
          fun h => absurd h (by simp)⟩
        obtain rfl := Option.some.inj hj'
        rw [hj, ho]
      · exact h.no_room ⟨rfl, rfl⟩ (of_decide_eq_true (inOrder_older hg hs hnew hne hturn))
  | subscribe s j hs =>
      refine hw.setStage hs rfl rfl (fun h => ?_) fun n newest hnew hne hturn h => ?_
      · refine ⟨fun _ => h.session (by simp), fun _ => h.moveSender (by simp),
          fun _ j' hj' => h.room (by simp) j' hj', fun _ j' hj' => ?_⟩
        obtain rfl := Option.some.inj hj'
        exact Function.update_self _ _ _
      · exact h.output_ne ⟨rfl, rfl, rfl, rfl⟩ (inOrder_older hg hs hnew hne hturn)
  | opened s j hs =>
      exact hw.setStage hs rfl rfl
        (fun h => h.of_eq rfl rfl rfl rfl le_rfl fun _ => id)
        fun n newest _ _ _ h => h.of_eq rfl rfl rfl rfl le_rfl fun _ => id
  | failed s j hs =>
      exact hw.setStage hs rfl rfl (fun _ => .of_left rfl)
        fun n newest _ _ _ h => h.of_eq rfl rfl rfl rfl le_rfl fun _ => id
  | aborted s j hs =>
      exact hw.setStage hs rfl rfl (fun _ => .of_left rfl)
        fun n newest _ _ _ h => h.of_eq rfl rfl rfl rfl le_rfl fun _ => id
  | kill s j hs =>
      exact hw.setStage hs rfl rfl (fun _ => .of_left rfl)
        fun n newest _ _ _ h => h.of_eq rfl rfl rfl rfl le_rfl fun _ => id
  | leave s j hs =>
      exact hw.setStage hs rfl rfl (fun _ => .of_left rfl)
        fun n newest _ _ _ h => h.of_eq rfl rfl rfl rfl le_rfl fun _ => id
  | unregister s j hs =>
      refine hw.setStage hs rfl rfl (fun _ => .of_left rfl) fun n newest hnew hne hturn h => ?_
      have hlt := of_decide_eq_true (inOrder_older hg hs hnew hne hturn)
      exact .of_left (by omega)
  | unregisterMove s j hs =>
      refine hw.setStage hs rfl rfl (fun _ => .of_left rfl) fun n newest hnew hne hturn h => ?_
      have hlt := of_decide_eq_true (inOrder_older hg hs hnew hne hturn)
      exact ⟨h.session, fun hle => by omega, h.room, h.output⟩
  | findOutputs s j o r hs hroom ho =>
      exact hw.setStage hs rfl rfl (fun _ => .of_left rfl)
        fun n newest _ _ _ h => h.of_eq rfl rfl rfl rfl le_rfl fun _ => id
  | noOutputs s j hs hroom =>
      exact hw.setStage hs rfl rfl (fun _ => .of_left rfl)
        fun n newest _ _ _ h => h.of_eq rfl rfl rfl rfl le_rfl fun _ => id
  | unsubscribe s j o hs =>
      refine hw.setStage hs rfl rfl (fun _ => .of_left rfl) fun n newest hnew hne hturn h => ?_
      exact h.output_ne ⟨rfl, rfl, rfl, rfl⟩ (inOrder_older hg hs hnew hne hturn)
  | leaveRoom s j room hs hleft =>
      refine hw.setStage hs rfl rfl (fun _ => .of_left rfl) fun n newest hnew hne hturn h => ?_
      obtain ⟨n', hnew', hstage⟩ := Option.bind_eq_some_iff.mp hturn
      obtain rfl := Option.some.inj (hnew.symm.trans hnew')
      exact h.leaveRoom hn hne hs hstage ⟨rfl, rfl, rfl⟩ hleft

end View

/-! ## Runs of the server -/

namespace Server

variable {v : Server} {s : ℕ} {t : Task}

def inOrder (v : Server) (i : Input) : Bool :=
  (i.session.bind v.tasks).all fun t => (v.view t.ticket.key).inOrder (v.actOf t.ticket.key i)

theorem inOrder_view {i : Input} (h : v.inOrder i) (k : SessionKey) :
    (v.view k).inOrder (v.actOf k i) := by
  obtain hact | ⟨t, ht, rfl⟩ := actOf_cases v k i
  · rw [hact]
    rfl
  · rw [inOrder, ht] at h
    exact h

/-- The entries the session has made, in the registries and in its room, are its own. -/
structure Own (v : Server) (s : ℕ) (t : Task) : Prop where
  session : 1 ≤ t.stage.entered → v.sessions t.ticket.key = some s
  moveSender : 2 ≤ t.stage.entered → v.moveSenders t.ticket.key = some s
  room : 3 ≤ t.stage.entered → ∀ j, t.stage.joinedAs = some j →
    ∃ st, v.rooms.lookup t.ticket.channelId = some st ∧ st.userOutputSenders = j.outputs ∧
      st.sessionNonces t.ticket.userId = some j.nonce ∧ t.ticket.userId ∈ st.members ∧
      t.ticket.userId ∈ announced st.roster ∧ (st.userGains t.ticket.userId).isSome ∧
      st.callsigns t.ticket.userId = some t.ticket.callsign ∧
      st.memberOrgs t.ticket.userId = some t.ticket.orgId
  output : 4 ≤ t.stage.entered → ∀ j, t.stage.joinedAs = some j →
    (v.outputs j.outputs).lookup t.ticket.userId = some s

/-- The session that registered last under a key owns its entries while it lives. -/
def NewestOwns (v : Server) : Prop :=
  ∀ s t, v.tasks s = some t → v.newest t.ticket.key = some s → v.Own s t

theorem Own.of_view (hv : v.Wellformed) (ht : v.tasks s = some t)
    (h : (v.view t.ticket.key).Owns s t.stage.quiet) : v.Own s t := by
  have hentered : t.stage.quiet.entered = t.stage.entered := by cases t.stage <;> rfl
  refine ⟨fun hle => h.session (hentered ▸ hle), fun hle => h.moveSender (hentered ▸ hle),
    fun hle j hj => ?_, fun hle j hj => ?_⟩
  · have hk := hv.keeps s t j ht hj
    have hroom := h.room (hentered ▸ hle) j (by rw [Stage.joinedAs_quiet, hj])
    obtain ⟨st, hst, hview⟩ := Option.map_eq_some_iff.mp hroom
    have hok := hv.room _ st hst
    have hnonce : st.sessionNonces t.ticket.userId = some j.nonce := congrArg RoomView.nonce hview
    have hout : st.userOutputSenders.2 = j.outputs.2 := congrArg RoomView.outputs hview
    have hmem : t.ticket.userId ∈ st.members := (hok.nonce _).mp (by rw [hnonce]; rfl)
    exact ⟨st, hst, Prod.ext (hok.outputs.trans hk.outputs.symm) hout, hnonce, hmem,
      hok.roster ▸ hmem, (hok.gain _).mpr hmem, hk.entry st hst hnonce⟩
  · have hk := hv.keeps s t j ht hj
    have hout := h.output (hentered ▸ hle) j (by rw [Stage.joinedAs_quiet, hj])
    have heq : (t.ticket.key.2, j.outputs.2) = j.outputs := Prod.ext hk.outputs.symm rfl
    rw [← heq]
    exact hout

/-- In a run whose steps are in order the newest session of every key owns its entries. -/
theorem newest_owns_in_order {is : List Input} (h : voice.Guarded (inOrder · ·) .init is v) :
    v.NewestOwns := by
  have hinv : v.Wellformed ∧ ∀ k, (v.view k).Nonces ∧ (v.view k).NewestOwns := by
    refine StepSystem.Guarded.invariant
      (P := fun v : Server => v.Wellformed ∧ ∀ k, (v.view k).Nonces ∧ (v.view k).NewestOwns)
      (fun v i v' hv horder hstep => ?_) h ⟨.init, fun k => ⟨.init k, fun s stage h => nomatch h⟩⟩
    refine ⟨hv.1.step hstep, fun k => ?_⟩
    have hview := step_view (k := k) hv.1 hstep
    exact ⟨(hv.2 k).1.step hview, (hv.2 k).2.step (hv.2 k).1 (inOrder_view horder k) hview⟩
  intro s t ht hnew
  exact .of_view hinv.1 ht ((hinv.2 t.ticket.key).2 s _ hnew (stage_eq rfl ht))

/-- A second session sets up while the first cleans up, each section before the one of the
second. -/
def overlapped : List Input :=
  joins 0 alice ++ [.leave 0 .closed, .advance 0, .connect alice, .advance 1, .advance 0,
    .advance 1, .advance 0, .advance 0, .advance 1, .advance 0, .advance 1, .openStream 1 .opened]

theorem newest_owns_in_order_overlapped :
    NewestOwns (((voice.restrict inOrder).exec .init overlapped).get (by decide)) :=
  newest_owns_in_order (StepSystem.exec_eq_some_iff.mp (Option.some_get _).symm).guarded

/-- The first session left its loop before the second registered, and removes its entry. -/
theorem old_session_unregisters_new :
    ∃ v, voice.Run .init (joins 0 alice ++ [.leave 0 .closed] ++ joins 1 alice ++ [.advance 0]) v ∧
      ¬ v.NewestOwns := by
  let after := (voice.exec .init
    (joins 0 alice ++ [.leave 0 .closed] ++ joins 1 alice ++ [.advance 0])).get (by decide)
  have hlive : after.tasks 1 =
      some ⟨alice, .running ⟨2, ("ops", 0)⟩ none, false, [], none⟩ := rfl
  have hnew : after.newest alice.key = some 1 := by decide
  have hgone : after.sessions alice.key = none := by decide
  refine ⟨after, StepSystem.exec_eq_some_iff.mp (Option.some_get _).symm, fun h => ?_⟩
  have hown := (h 1 _ hlive hnew).session (by simp)
  rw [hgone] at hown
  exact nomatch hown

end Server

end SpecterComs.MediaServer
