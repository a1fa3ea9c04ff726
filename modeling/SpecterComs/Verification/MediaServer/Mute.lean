import SpecterComs.Verification.MediaServer.Sessions

/-! # Admin mute

A mute is a gain in one room. It lasts as long as every session of the user that can send
frames stays in a room that holds it.
-/

namespace SpecterComs.MediaServer

/-- The session has joined its room, and its loop runs or starts next. -/
def Stage.speaks : Stage → Bool
  | .joined _ | .subscribed _ | .running _ _ => true
  | _ => false

/-- A frame of the session is past the mute check and not yet forwarded. -/
def Relay.forwards : Relay → Bool
  | .send _ _ _ | .readCascade | .cascade _ => true
  | .readTree _ | .duck _ _ => false

def Stage.forwards : Stage → Bool
  | .running _ (some relay) => relay.forwards
  | _ => false

namespace Server

variable {v v' : Server} {user : UserId} {s : ℕ} {t : Task}

/-- The room holds the user's mute. -/
def MutedIn (v : Server) (user : UserId) (channel : ChannelId) : Prop :=
  ∃ st, v.rooms.lookup channel = some st ∧ st.userGains user = some .muted

/-- Every session of the user that can send frames is muted in its room. -/
def Muted (v : Server) (user : UserId) : Prop :=
  ∀ s t, v.tasks s = some t → t.ticket.userId = user → t.stage.speaks →
    t.stage.forwards = false ∧ v.MutedIn user t.ticket.channelId

/-- The mute of the room reaches every session of the user that can send frames. -/
def silences (v : Server) (user : UserId) (room : Option ChannelId) : Bool :=
  (List.range v.nextTask).all fun s => (v.tasks s).all fun t =>
    t.ticket.userId ≠ user || !t.stage.speaks ||
      !t.stage.forwards &&
        (room = some t.ticket.channelId ||
          (v.rooms.lookup t.ticket.channelId).any (·.userGains user = some .muted))

/-- The user joins no room, and leaves none where another session can still send frames. -/
def keepsMuted (v : Server) (user : UserId) : Input → Bool
  | .advance s => (v.tasks s).all fun t => t.ticket.userId ≠ user ||
      match t.stage with
      | .movable => false
      | .cleanup j .room =>
          (v.rooms.lookup t.ticket.channelId).all (·.sessionNonces user ≠ some j.nonce) ||
            (List.range v.nextTask).all fun other => (v.tasks other).all fun t' =>
              t'.ticket.key ≠ t.ticket.key || !t'.stage.speaks
      | _ => true
  | _ => true

/-! ## What a step does to the mute -/

variable {channel other c : ChannelId}

theorem MutedIn.mono (h : v.MutedIn user channel)
    (hrooms : ∀ st, v.rooms.lookup channel = some st → st.userGains user = some .muted → ∃ st', v'.rooms.lookup channel = some st' ∧ st'.userGains user = some .muted) :
    v'.MutedIn user channel := by
  obtain ⟨st, hst, hgain⟩ := h
  exact hrooms st hst hgain

theorem Muted.of_rooms (h : v.Muted user)
    (htasks : ∀ s t', v'.tasks s = some t' → ∃ t, v.tasks s = some t ∧ t.ticket = t'.ticket ∧
      t.stage = t'.stage)
    (hrooms : ∀ channel, v.MutedIn user channel → v'.MutedIn user channel) : v'.Muted user := by
  intro s t' ht' huser hspeaks
  obtain ⟨t, ht, hticket, hstage⟩ := htasks s t' ht'
  rw [← hticket] at huser ⊢
  rw [← hstage] at hspeaks ⊢
  obtain ⟨hforward, hroom⟩ := h s t ht huser hspeaks
  exact ⟨hforward, hrooms _ hroom⟩

/-- The session takes a stage in which it sends nothing, or goes on in its loop. -/
theorem Muted.setStage (h : v.Muted user) (ht : v.tasks s = some t) {t' : Task}
    (htasks : v'.tasks = Function.update v.tasks s (some t')) (hticket : t'.ticket = t.ticket)
    (hspeaks : t.ticket.userId = user → t'.stage.speaks → t.stage.speaks)
    (hforward : t.ticket.userId = user → t'.stage.speaks → t.stage.forwards = false →
      t'.stage.forwards = false)
    (hrooms : ∀ other task, v.tasks other = some task → task.ticket.userId = user →
      task.stage.speaks → v.MutedIn user task.ticket.channelId →
        v'.MutedIn user task.ticket.channelId) : v'.Muted user := by
  intro other task hother huser hs
  rw [htasks] at hother
  by_cases ho : other = s
  · subst ho
    obtain rfl := Option.some.inj ((Function.update_self other _ v.tasks).symm.trans hother)
    rw [hticket] at huser ⊢
    obtain ⟨hf, hroom⟩ := h other t ht huser (hspeaks huser hs)
    exact ⟨hforward huser hs hf, hrooms other t ht huser (hspeaks huser hs) hroom⟩
  · rw [Function.update_of_ne ho] at hother
    obtain ⟨hf, hroom⟩ := h other task hother huser hs
    exact ⟨hf, hrooms other task hother huser hs hroom⟩

variable {f : RoomState → RoomState}

theorem MutedIn.modify (h : v.MutedIn user channel) (hrooms : v'.rooms = v.rooms.modify other f)
    (hf : ∀ st, st.userGains user = some .muted → (f st).userGains user = some .muted) :
    v'.MutedIn user channel := by
  obtain ⟨st, hst, hgain⟩ := h
  unfold MutedIn
  rw [hrooms]
  by_cases hc : channel = other
  · subst hc
    exact ⟨f st, by rw [Rooms.lookup_modify, if_pos rfl, hst]; rfl, hf st hgain⟩
  · exact ⟨st, by rw [Rooms.lookup_modify, if_neg hc]; exact hst, hgain⟩

theorem MutedIn.of_eq (h : v.MutedIn user channel) (hrooms : v'.rooms = v.rooms) :
    v'.MutedIn user channel := by
  unfold MutedIn
  rw [hrooms]
  exact h

theorem Muted.mapTasks (h : v.Muted user) (f : ℕ → Task → Task)
    (hf : ∀ s t, (f s t).ticket = t.ticket ∧ (f s t).stage = t.stage) :
    (v.mapTasks f).Muted user := by
  refine h.of_rooms (fun s t' ht' => ?_) fun _ hroom => hroom.of_eq rfl
  obtain ⟨t, ht, rfl⟩ := Option.map_eq_some_iff.mp ht'
  exact ⟨t, ht, (hf s t).1.symm, (hf s t).2.symm⟩

theorem Muted.modify (h : v.Muted user)
    (hf : ∀ st, st.userGains user = some .muted → (f st).userGains user = some .muted) :
    Muted { v with rooms := v.rooms.modify channel f } user :=
  h.of_rooms (fun _ t' ht' => ⟨t', ht', rfl, rfl⟩) fun _ hroom => hroom.modify rfl hf

/-- A section of the set-up or the clean-up that leaves the rooms alone. -/
theorem Muted.section (h : v.Muted user) (ht : v.tasks s = some t) {stage : Stage}
    (htasks : v'.tasks = Function.update v.tasks s (some { t with stage }))
    (hrooms : v'.rooms = v.rooms) (hspeaks : stage.speaks → t.stage.speaks)
    (hforward : stage.forwards = false) : v'.Muted user :=
  h.setStage ht htasks rfl (fun _ => hspeaks) (fun _ _ _ => hforward)
    fun _ _ _ _ _ hroom => hroom.of_eq hrooms

theorem Muted.register (h : v.Muted user) (ht : v.tasks s = some t) :
    (v.register s t).Muted user := by
  have hb : (v.mapTasks fun other task =>
      if v.sessions t.ticket.key = some other then { task with killed := true } else task).Muted
        user := by
    refine h.mapTasks _ fun other task => ?_
    split <;> exact ⟨rfl, rfl⟩
  intro other task hother huser hs
  by_cases ho : other = s
  · subst ho
    obtain rfl := Option.some.inj ((Function.update_self other _ _).symm.trans hother)
    exact nomatch hs
  · obtain ⟨hf, hroom⟩ := hb other task ((Function.update_of_ne ho _ _).symm.trans hother) huser hs
    exact ⟨hf, hroom.of_eq rfl⟩

/-- Another user joins a room, old or new. -/
theorem Muted.joinRoom (h : v.Muted user) (ht : v.tasks s = some t)
    (hother : t.ticket.userId ≠ user) : (v.joinRoom s t).Muted user := by
  cases hst : v.rooms.lookup t.ticket.channelId with
  | some st =>
      rw [joinRoom_of_some hst]
      refine h.setStage ht rfl rfl (fun hu => absurd hu hother) (fun hu => absurd hu hother)
        fun _ task _ _ _ hroom => hroom.mono fun st' hst' hgain => ?_
      by_cases hc : task.ticket.channelId = t.ticket.channelId
      · rw [hc, hst] at hst'
        obtain rfl := Option.some.inj hst'
        refine ⟨_, by rw [hc]; exact AList.lookup_insert v.rooms, ?_⟩
        simpa [RoomState.join, Function.update_of_ne hother.symm] using hgain
      · exact ⟨st', (AList.lookup_insert_ne hc).trans hst', hgain⟩
  | none =>
      rw [joinRoom_of_none hst]
      refine h.setStage ht rfl rfl (fun hu => absurd hu hother) (fun hu => absurd hu hother)
        fun _ task _ _ _ hroom => hroom.mono fun st' hst' hgain => ?_
      have hc : task.ticket.channelId ≠ t.ticket.channelId := by
        intro hc
        rw [hc, hst] at hst'
        exact nomatch hst'
      exact ⟨st', (AList.lookup_insert_ne hc).trans hst', hgain⟩

/-- Another user leaves a room; the muted user is in it, so it stays. -/
theorem MutedIn.leave (hv : v.Wellformed) {leaver : UserId} {st : RoomState}
    (h : v.MutedIn user channel) (hne : leaver ≠ user) (hst : v.rooms.lookup other = some st)
    (hrooms : v'.rooms = if (st.remove leaver).members = ∅ then v.rooms.erase other else v.rooms.insert other (st.remove leaver)) :
    v'.MutedIn user channel := by
  refine h.mono fun st' hst' hgain => ?_
  rw [hrooms]
  by_cases hc : channel = other
  · subst hc
    rw [hst] at hst'
    obtain rfl := Option.some.inj hst'
    have hmem : user ∈ (st.remove leaver).members := by
      refine Finset.mem_erase.mpr ⟨hne.symm, ((hv.room _ st hst).gain user).mp ?_⟩
      rw [hgain]
      rfl
    rw [if_neg (Finset.ne_empty_of_mem hmem)]
    refine ⟨_, AList.lookup_insert v.rooms, ?_⟩
    simpa [RoomState.remove, Function.update_of_ne hne.symm] using hgain
  · split
    · exact ⟨st', (AList.lookup_erase_ne hc).trans hst', hgain⟩
    · exact ⟨st', (AList.lookup_insert_ne hc).trans hst', hgain⟩

variable {j : Joined}

theorem leaveRoom_eq {st : RoomState} (hst : v.rooms.lookup t.ticket.channelId = some st)
    (hn : st.sessionNonces t.ticket.userId = some j.nonce) :
    v.leaveRoom s t j =
      { v.setStage s t .finished with
        rooms :=
          if (st.remove t.ticket.userId).members = ∅ then v.rooms.erase t.ticket.channelId
          else v.rooms.insert t.ticket.channelId (st.remove t.ticket.userId) } := by
  simp only [Server.leaveRoom, hst, hn, ne_eq, not_true_eq_false, if_false]
  split <;> rfl

/-- No other session of the key can send frames when the room forgets its user. -/
theorem Muted.leaveRoom (hv : v.Wellformed) (h : v.Muted user) (ht : v.tasks s = some t)
    (hs : t.stage = .cleanup j .room) (hg : v.keepsMuted user (.advance s)) :
    (v.leaveRoom s t j).Muted user := by
  have hstay : ∀ v' : Server, v'.tasks = Function.update v.tasks s (some { t with stage := .finished }) →
      v'.rooms = v.rooms → v'.Muted user := fun v' htasks hrooms =>
    h.section ht htasks hrooms (fun hf => nomatch hf) rfl
  by_cases hn : ∃ st, v.rooms.lookup t.ticket.channelId = some st ∧
      st.sessionNonces t.ticket.userId = some j.nonce
  · obtain ⟨st, hst, hn⟩ := hn
    rw [leaveRoom_eq hst hn]
    refine h.setStage ht rfl rfl (fun _ hf => nomatch hf) (fun _ hf => nomatch hf)
      fun other task hother huser hspeaks hroom => ?_
    by_cases hu : t.ticket.userId = user
    · have hc : task.ticket.channelId ≠ t.ticket.channelId := by
        intro hc
        have hkey : task.ticket.key = t.ticket.key := Prod.ext (huser.trans hu.symm) hc
        have hlt := hv.lt_nextTask hother
        rw [hu] at hn
        simp only [keepsMuted, ht, hs, hst, Option.all_some, hn, hu, ne_eq, not_true_eq_false,
          decide_false, Bool.false_or, List.all_eq_true, List.mem_range] at hg
        have := hg other hlt
        simp [hother, hkey, hspeaks] at this
      obtain ⟨st', hst', hgain⟩ := hroom
      refine ⟨st', ?_, hgain⟩
      dsimp only
      split
      · exact (AList.lookup_erase_ne hc).trans hst'
      · exact (AList.lookup_insert_ne hc).trans hst'
    · exact hroom.leave hv hu hst rfl
  · unfold Server.leaveRoom
    dsimp only
    cases hst : v.rooms.lookup t.ticket.channelId with
    | none => exact hstay _ rfl rfl
    | some st =>
        have hne : st.sessionNonces t.ticket.userId ≠ some j.nonce := fun h => hn ⟨st, hst, h⟩
        dsimp only
        rw [if_pos hne]
        exact hstay _ rfl rfl

theorem Muted.advance (hv : v.Wellformed) (h : v.Muted user) (ht : v.tasks s = some t)
    (hg : v.keepsMuted user (.advance s)) (hstep : v.advance s t = some v') : v'.Muted user := by
  unfold Server.advance at hstep
  split at hstep <;> cases hstep
  case h_1 => exact h.register ht
  case h_2 => exact h.section ht rfl rfl (fun hf => nomatch hf) rfl
  case h_3 hs =>
      refine h.joinRoom ht fun hu => ?_
      simp [keepsMuted, ht, hs, hu] at hg
  case h_4 j hs => exact h.section ht rfl rfl (fun _ => by rw [hs]; rfl) rfl
  case h_5 => exact h.section ht rfl rfl (fun hf => nomatch hf) rfl
  case h_6 => exact h.section ht rfl rfl (fun hf => nomatch hf) rfl
  case h_7 =>
      unfold Server.findOutputs
      split <;> exact h.section ht rfl rfl (fun hf => nomatch hf) rfl
  case h_8 => exact h.section ht rfl rfl (fun hf => nomatch hf) rfl
  case h_9 j hs => exact h.leaveRoom hv ht hs hg

/-! ### Frames -/

/-- The frames of the user that were forwarded. -/
def sentBy (v : Server) (user : UserId) : List Forward :=
  v.forwarded.filter (·.sender = user)

variable {broadcast empty : Bool} {now : ℕ}

theorem readFrame_of_muted (h : v.MutedIn t.ticket.userId t.ticket.channelId) :
    v.readFrame s t j broadcast empty now = v := by
  obtain ⟨st, hst, hgain⟩ := h
  simp [Server.readFrame, hst, hgain]

theorem Muted.readFrame (h : v.Muted user) (ht : v.tasks s = some t)
    (hs : t.stage = .running j none) :
    (v.readFrame s t j broadcast empty now).Muted user ∧
      (v.readFrame s t j broadcast empty now).sentBy user = v.sentBy user := by
  by_cases hu : t.ticket.userId = user
  · subst hu
    rw [readFrame_of_muted (h s t ht rfl (by rw [hs]; rfl)).2]
    exact ⟨h, rfl⟩
  · have hset : ∀ (t' : Task) (v' : Server), v'.tasks = Function.update v.tasks s (some t') →
        t'.ticket = t.ticket → (∀ channel, v.MutedIn user channel → v'.MutedIn user channel) →
        v'.Muted user := fun t' v' htasks hticket hrooms =>
      h.setStage ht htasks hticket (fun h => absurd h hu) (fun h => absurd h hu)
        fun _ _ _ _ _ hroom => hrooms _ hroom
    unfold Server.readFrame
    dsimp only
    split
    · exact ⟨h, rfl⟩
    · split
      · exact ⟨h, rfl⟩
      · split
        · split
          · exact ⟨hset _ _ rfl rfl fun _ hroom => hroom.of_eq rfl, rfl⟩
          · exact ⟨h, rfl⟩
        · split
          · exact ⟨h, rfl⟩
          · split
            · exact ⟨hset _ _ rfl rfl fun _ hroom => hroom.modify rfl fun _ => id, rfl⟩
            · exact ⟨hset _ _ rfl rfl fun _ hroom => hroom.of_eq rfl, rfl⟩

theorem MutedIn.foldl (hf : ∀ st, (f st).userGains = st.userGains) (channels : List ChannelId)
    {rooms : Rooms} (h : MutedIn { v with rooms } user c)
    (hrooms : v'.rooms = channels.foldl (fun rooms d => Rooms.modify rooms d f) rooms) :
    v'.MutedIn user c := by
  induction channels generalizing rooms with
  | nil => exact h.of_eq hrooms
  | cons d rest ih =>
      refine ih (h.modify rfl fun st hst => ?_) hrooms
      rw [hf]
      exact hst

variable {descendants : List ChannelId}

theorem MutedIn.duckRooms {speaker : UserId} {level : ℕ} (h : v.MutedIn user c)
    (hrooms : v'.rooms = v.duckRooms channel speaker level descendants now) :
    v'.MutedIn user c := by
  unfold Server.duckRooms at hrooms
  cases hst : v.rooms.lookup channel with
  | none =>
      rw [hst] at hrooms
      exact h.of_eq hrooms
  | some st =>
      simp only [hst] at hrooms
      split at hrooms
      · refine MutedIn.foldl (v := v) ?_ descendants ?_ hrooms
        · exact fun _ => rfl
        · exact h.modify rfl fun _ => id
      · exact h.of_eq hrooms

theorem filter_sendTo_ne {outputs : OutputsId} {mutes : UserId → Finset UserId} {sender : UserId}
    (h : sender ≠ user) : (v.sendTo outputs mutes sender).filter (·.sender = user) = [] := by
  rw [List.filter_eq_nil_iff]
  intro f hf
  obtain ⟨e, -, rfl⟩ := List.mem_map.mp hf
  simpa using h

theorem filter_cascadeTo_ne {sender : UserId} (h : sender ≠ user) :
    (v.cascadeTo descendants sender).filter (·.sender = user) = [] := by
  rw [List.filter_eq_nil_iff]
  intro f hf
  obtain ⟨channel, -, hf⟩ := List.mem_flatMap.mp hf
  split at hf
  · obtain ⟨e, -, rfl⟩ := List.mem_map.mp hf
    simpa using h
  · exact absurd hf List.not_mem_nil

theorem Muted.relayFrame (h : v.Muted user) (ht : v.tasks s = some t) {relay : Relay}
    (hs : t.stage = .running j (some relay)) :
    (v.relayFrame s t j now relay).Muted user ∧
      (v.relayFrame s t j now relay).sentBy user = v.sentBy user := by
  have hspeaks : t.stage.speaks := by rw [hs]; rfl
  -- a frame of the user is past its forwarding
  have hquiet : t.ticket.userId = user → relay.forwards = false := fun hu => by
    have := (h s t ht hu hspeaks).1
    rwa [hs] at this
  have hset : ∀ (stage : Stage) (v' : Server),
      v'.tasks = Function.update v.tasks s (some { t with stage }) →
      (t.ticket.userId = user → stage.forwards = false) →
      (∀ channel, v.MutedIn user channel → v'.MutedIn user channel) → v'.Muted user :=
    fun stage v' htasks hforward hrooms =>
      h.setStage ht htasks rfl (fun _ _ => hspeaks) (fun hu _ _ => hforward hu)
        fun _ _ _ _ _ hroom => hrooms _ hroom
  cases relay with
  | send outputs mutes level =>
      have hu : t.ticket.userId ≠ user := fun hu => nomatch hquiet hu
      refine ⟨hset _ _ rfl (fun h => absurd h hu) fun _ hroom => hroom.of_eq rfl, ?_⟩
      exact (List.filter_append ..).trans (by rw [filter_sendTo_ne hu, List.append_nil]; rfl)
  | readTree level =>
      exact ⟨hset _ _ rfl (fun _ => rfl) fun _ hroom => hroom.of_eq rfl, rfl⟩
  | duck level descendants =>
      exact ⟨hset _ _ rfl (fun _ => rfl) fun _ hroom => hroom.duckRooms rfl, rfl⟩
  | readCascade =>
      have hu : t.ticket.userId ≠ user := fun hu => nomatch hquiet hu
      exact ⟨hset _ _ rfl (fun h => absurd h hu) fun _ hroom => hroom.of_eq rfl, rfl⟩
  | cascade descendants =>
      have hu : t.ticket.userId ≠ user := fun hu => nomatch hquiet hu
      refine ⟨hset _ _ rfl (fun h => absurd h hu) fun _ hroom => hroom.of_eq rfl, ?_⟩
      exact (List.filter_append ..).trans (by rw [filter_cascadeTo_ne hu, List.append_nil]; rfl)

/-! ### One step -/

theorem Muted.connect (h : v.Muted user) (ticket : Ticket) :
    (v.connect ticket).Muted user := by
  intro s t ht huser hs
  by_cases hnew : s = v.nextTask
  · subst hnew
    obtain rfl := Option.some.inj ((Function.update_self v.nextTask _ v.tasks).symm.trans ht)
    exact nomatch hs
  · obtain ⟨hf, hroom⟩ := h s t ((Function.update_of_ne hnew _ v.tasks).symm.trans ht) huser hs
    exact ⟨hf, hroom.of_eq rfl⟩

variable {room : Option ChannelId}

theorem Muted.setGain (h : v.Muted user) {other : UserId} {gain : Gain}
    (hgain : other = user → gain = .muted) (hstep : v.setGain other gain room = some v') :
    v'.Muted user ∧ v'.sentBy user = v.sentBy user := by
  cases room with
  | none =>
      obtain ⟨_, hv'⟩ := Option.ite_none_right_eq_some.mp hstep
      obtain rfl := Option.some.inj hv'
      exact ⟨h, rfl⟩
  | some channel =>
      obtain ⟨_, hv'⟩ := Option.ite_none_right_eq_some.mp hstep
      obtain rfl := Option.some.inj hv'
      refine ⟨h.modify fun st hst => ?_, rfl⟩
      by_cases ho : other = user
      · subst ho
        rw [hgain rfl]
        simp [RoomState.setGain]
      · simpa [RoomState.setGain, Function.update_of_ne (Ne.symm ho)] using hst

theorem forwarded_advance (hstep : v.advance s t = some v') : v'.forwarded = v.forwarded := by
  unfold Server.advance at hstep
  split at hstep <;> cases hstep
  case h_3 =>
      unfold Server.joinRoom
      dsimp only
      split <;> rfl
  case h_7 =>
      unfold Server.findOutputs
      split <;> rfl
  case h_9 =>
      unfold Server.leaveRoom
      dsimp only
      split
      · rfl
      · split
        · rfl
        · split <;> rfl
  all_goals rfl

theorem Muted.step (hv : v.Wellformed) (h : v.Muted user) {i : Input} (hg : v.keepsMuted user i)
    (hi : ∀ room, i ≠ .unmute user room) (hstep : v.step i = some v') :
    v'.Muted user ∧ v'.sentBy user = v.sentBy user := by
  cases i with
  | connect ticket =>
      cases hstep
      exact ⟨h.connect ticket, rfl⟩
  | advance s =>
      obtain ⟨t, ht, hadvance⟩ := Option.bind_eq_some_iff.mp hstep
      refine ⟨h.advance hv ht hg hadvance, ?_⟩
      rw [sentBy, forwarded_advance hadvance]
      rfl
  | openStream s opening =>
      obtain ⟨t, j, ht, hs, rfl⟩ := openStream_cases hstep
      have hspeaks : t.stage.speaks := by rw [hs]; rfl
      cases opening with
      | opened => exact ⟨h.section ht rfl rfl (fun _ => hspeaks) rfl, rfl⟩
      | failed => exact ⟨h.section ht rfl rfl (fun _ => hspeaks) rfl, rfl⟩
      | aborted => exact ⟨h.section ht rfl rfl (fun _ => hspeaks) rfl, rfl⟩
  | kill s =>
      obtain ⟨t, j, ht, -, -, rfl⟩ := kill_cases hstep
      exact ⟨h.section ht rfl rfl (fun hf => nomatch hf) rfl, rfl⟩
  | leave s cause =>
      obtain ⟨t, j, ht, -, rfl⟩ := leave_cases hstep
      exact ⟨h.section ht rfl rfl (fun hf => nomatch hf) rfl, rfl⟩
  | frame s broadcast empty now =>
      obtain ⟨t, ht, hframe⟩ := Option.bind_eq_some_iff.mp hstep
      split at hframe <;> cases hframe
      rename_i hs
      exact h.readFrame ht hs
  | relay s now =>
      obtain ⟨t, ht, hrelay⟩ := Option.bind_eq_some_iff.mp hstep
      split at hrelay <;> cases hrelay
      rename_i hs
      exact h.relayFrame ht hs
  | localMute s muted target =>
      obtain ⟨t, ht, hmute⟩ := Option.bind_eq_some_iff.mp hstep
      split at hmute
      · split at hmute <;> cases hmute
        · exact ⟨h, rfl⟩
        · exact ⟨h.modify fun _ => id, rfl⟩
      · exact nomatch hmute
  | kick target =>
      cases hstep
      refine ⟨h.mapTasks _ fun s t => ?_, rfl⟩
      split <;> exact ⟨rfl, rfl⟩
  | drainOrg org =>
      cases hstep
      refine ⟨h.mapTasks _ fun s t => ?_, rfl⟩
      split <;> exact ⟨rfl, rfl⟩
  | mute other room => exact h.setGain (fun _ => rfl) hstep
  | unmute other room =>
      refine h.setGain (fun ho => ?_) hstep
      exact absurd (congrArg (Input.unmute · room) ho) (hi room)
  | move target channel =>
      cases hstep
      refine ⟨h.mapTasks _ fun s t => ?_, rfl⟩
      split <;> exact ⟨rfl, rfl⟩
  | eventTree channels =>
      cases hstep
      exact ⟨h.of_rooms (fun _ t' ht' => ⟨t', ht', rfl, rfl⟩) fun _ hroom => hroom.of_eq rfl, rfl⟩
  | sweep channel now =>
      cases hstep
      refine ⟨h.modify fun st hst => ?_, rfl⟩
      unfold RoomState.sweep
      split
      · exact hst
      · exact hst

/-! ## Runs -/

theorem muted_of_silences (hv : v.Wellformed) (hsilent : v.silences user room)
    (hstep : v.step (.mute user room) = some v') :
    v'.Muted user ∧ v'.sentBy user = v.sentBy user := by
  have hall : ∀ s t, v.tasks s = some t → t.ticket.userId = user → t.stage.speaks →
      t.stage.forwards = false ∧
        (room = some t.ticket.channelId ∨ v.MutedIn user t.ticket.channelId) := by
    intro s t ht huser hs
    have h := List.all_eq_true.mp hsilent s (List.mem_range.mpr (hv.lt_nextTask ht))
    simp only [ht, Option.all_some, huser, hs, ne_eq, not_true_eq_false, decide_false,
      Bool.false_or, Bool.not_true, Bool.and_eq_true, Bool.not_eq_true', Bool.or_eq_true,
      decide_eq_true_eq, Option.any_eq_true] at h
    exact h
  cases room with
  | none =>
      obtain ⟨_, hv'⟩ := Option.ite_none_right_eq_some.mp hstep
      obtain rfl := Option.some.inj hv'
      refine ⟨fun s t ht huser hs => ?_, rfl⟩
      obtain ⟨hf, h | h⟩ := hall s t ht huser hs
      · exact nomatch h
      · exact ⟨hf, h⟩
  | some channel =>
      obtain ⟨hmem, hv'⟩ := Option.ite_none_right_eq_some.mp hstep
      obtain rfl := Option.some.inj hv'
      obtain ⟨st, hst, -⟩ : ∃ st, v.rooms.lookup channel = some st ∧ user ∈ st.members := by
        simpa [Option.any_eq_true] using hmem
      refine ⟨fun s t ht huser hs => ?_, rfl⟩
      obtain ⟨hf, h | h⟩ := hall s t ht huser hs
      · obtain rfl := Option.some.inj h
        refine ⟨hf, st.setGain user .muted, ?_, by simp [RoomState.setGain]⟩
        rw [Rooms.lookup_modify, if_pos rfl, hst]
        rfl
      · refine ⟨hf, h.modify rfl fun st _ => ?_⟩
        simp [RoomState.setGain]

/-- After a mute that reaches every session of the user, and until the unmute, no frame of the
user is forwarded while the user joins no room and leaves none that another session is in. -/
theorem mute_lasts {is js : List Input} {room : Option ChannelId} {v v₁ v₂ : Server}
    (hrun : voice.Run .init is v) (hsilent : v.silences user room)
    (hmute : v.step (.mute user room) = some v₁)
    (hafter : voice.Guarded (fun v i => v.keepsMuted user i) v₁ js v₂)
    (huntil : ∀ room, .unmute user room ∉ js) : v₂.sentBy user = v₁.sentBy user := by
  have hv := Wellformed.run hrun
  have hv₁ := hv.step hmute
  obtain ⟨hmuted, -⟩ := muted_of_silences hv hsilent hmute
  clear hrun hmute hsilent hv
  induction hafter with
  | nil => rfl
  | cons hg hstep _ ih =>
      obtain ⟨hmuted', hsent⟩ := hmuted.step hv₁ hg
        (fun room h => huntil room (h ▸ List.mem_cons_self)) hstep
      rw [← hsent]
      exact ih (fun room h => huntil room (List.mem_cons_of_mem _ h)) (hv₁.step hstep) hmuted'

def bob : Ticket := ⟨"bob", "acme", "ops", "Bob", none⟩

/-- Alice and Bob talk in a room. -/
def talking : List Input :=
  joins 0 alice ++ joins 1 bob

theorem mute_lasts_talking :
    let muted := talking ++ [.mute "alice" (some "ops")]
    let after : List Input := [.frame 0 false false 7, .frame 1 false false 8, .relay 1 9]
    sentBy ((((voice.restrict fun v i => v.keepsMuted "alice" i).exec
      ((voice.exec .init muted).get (by decide)) after).get (by decide))) "alice" =
        sentBy ((voice.exec .init muted).get (by decide)) "alice" := by
  intro muted after
  have hsilent : ((voice.exec .init talking).get (by decide)).silences "alice" (some "ops") := by
    decide
  refine mute_lasts (StepSystem.exec_eq_some_iff.mp (Option.some_get _).symm) hsilent rfl
    (StepSystem.exec_eq_some_iff.mp (Option.some_get _).symm).guarded ?_
  intro room h
  simp [after] at h

/-- The muted user connects again, and her frames reach the room. -/
theorem rejoin_unmutes :
    ∃ v v₁ v₂, voice.Run .init talking v ∧ v.step (.mute "alice" (some "ops")) = some v₁ ∧
      voice.Run v₁ (joins 2 alice ++ [.frame 2 false false 7, .relay 2 8]) v₂ ∧
      v₂.sentBy "alice" ≠ v₁.sentBy "alice" := by
  let after := joins 2 alice ++ [.frame 2 false false 7, .relay 2 8]
  let v := (voice.exec .init talking).get (by decide)
  let v₁ := (v.step (.mute "alice" (some "ops"))).get (by decide)
  let v₂ := (voice.exec v₁ after).get (by decide)
  refine ⟨v, v₁, v₂, StepSystem.exec_eq_some_iff.mp (Option.some_get _).symm,
    (Option.some_get _).symm, StepSystem.exec_eq_some_iff.mp (Option.some_get _).symm, by decide⟩

end Server

end SpecterComs.MediaServer
