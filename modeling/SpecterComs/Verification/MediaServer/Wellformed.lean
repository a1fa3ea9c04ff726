import SpecterComs.Model.MediaServer.Voice

/-! # Members of the rooms

The member tables of a room agree with each other and with the roster its listeners were
sent, and no room is empty. What a session keeps from joining agrees with its room.
-/

namespace SpecterComs.MediaServer

/-! ## What joining and leaving see -/

namespace Stage

/-- What the session keeps from joining, from then to its end. -/
def joinedAs : Stage → Option Joined
  | .joined j | .subscribed j | .running j _ | .cleanup j _ => some j
  | _ => none

/-- The stage without the frame that is being relayed. -/
def quiet : Stage → Stage
  | .running j _ => .running j none
  | stage => stage

@[simp] theorem joinedAs_quiet (stage : Stage) : stage.quiet.joinedAs = stage.joinedAs := by
  cases stage <;> rfl

theorem quiet_eq_cleanup {stage : Stage} {j : Joined} {next : Cleanup} :
    stage.quiet = .cleanup j next ↔ stage = .cleanup j next := by
  cases stage <;> simp [quiet]

end Stage

/-- The task with its ticket and its stage only. -/
def Task.quiet (t : Task) : Task :=
  { t with stage := t.stage.quiet, killed := false, moves := [], lastSpeakingEmit := none }

/-- The members a listener knows from the roster messages. -/
def announced (msgs : List RosterMessage) : Finset UserId :=
  msgs.foldl (fun members msg =>
    match msg with
    | .ssrcMap members => members
    | .leave _ user => members.erase user
    | _ => members) ∅

theorem announced_append {msgs more : List RosterMessage} :
    announced (msgs ++ more) =
      more.foldl (fun members msg =>
        match msg with
        | .ssrcMap members => members
        | .leave _ user => members.erase user
        | _ => members) (announced msgs) := by
  rw [announced, List.foldl_append]
  rfl

/-- The room with what joining and leaving change. -/
def RoomState.quiet (st : RoomState) : RoomState :=
  { st with
    roster := [.ssrcMap (announced st.roster)]
    userGains := fun user => (st.userGains user).map fun _ => .normal
    localMutes := fun _ => ∅
    priorityLevels := fun _ => none
    prioritySpeaker := none
    priorityReleaseAt := none }

structure RoomState.Wellformed (st : RoomState) (channel : ChannelId) : Prop where
  outputs : st.userOutputSenders.1 = channel
  occupied : st.members ≠ ∅
  roster : announced st.roster = st.members
  nonce : ∀ user, (st.sessionNonces user).isSome ↔ user ∈ st.members
  callsign : ∀ user, (st.callsigns user).isSome ↔ user ∈ st.members
  gain : ∀ user, (st.userGains user).isSome ↔ user ∈ st.members
  org : ∀ user, (st.memberOrgs user).isSome ↔ user ∈ st.members

namespace RoomState

variable {st : RoomState} {channel : ChannelId}

theorem wellformed_quiet : st.quiet.Wellformed channel ↔ st.Wellformed channel := by
  constructor
  · intro h
    exact ⟨h.outputs, h.occupied, h.roster, h.nonce, h.callsign,
      by simpa [quiet] using h.gain, h.org⟩
  · intro h
    exact ⟨h.outputs, h.occupied, h.roster, h.nonce, h.callsign,
      by simpa [quiet] using h.gain, h.org⟩

theorem Wellformed.join (t : Ticket) (nonce : ℕ) (hout : st.userOutputSenders.1 = channel)
    (hnonce : ∀ user, (st.sessionNonces user).isSome ↔ user ∈ st.members)
    (hcallsign : ∀ user, (st.callsigns user).isSome ↔ user ∈ st.members)
    (hgain : ∀ user, (st.userGains user).isSome ↔ user ∈ st.members)
    (horg : ∀ user, (st.memberOrgs user).isSome ↔ user ∈ st.members) :
    (st.join t nonce).Wellformed channel where
  outputs := hout
  occupied := Finset.insert_ne_empty _ _
  roster := by simp [RoomState.join, announced_append]
  nonce user := by by_cases h : user = t.userId <;> simp [RoomState.join, h, hnonce]
  callsign user := by by_cases h : user = t.userId <;> simp [RoomState.join, h, hcallsign]
  gain user := by by_cases h : user = t.userId <;> simp [RoomState.join, h, hgain]
  org user := by by_cases h : user = t.userId <;> simp [RoomState.join, h, horg]

theorem Wellformed.rejoin (h : st.Wellformed channel) (t : Ticket) (nonce : ℕ) :
    (st.join t nonce).Wellformed channel :=
  .join t nonce h.outputs h.nonce h.callsign h.gain h.org

theorem Wellformed.remove (h : st.Wellformed channel) {user : UserId}
    (hmembers : (st.remove user).members ≠ ∅) :
    (st.remove user).Wellformed channel where
  outputs := h.outputs
  occupied := hmembers
  roster := by simp [RoomState.remove, announced_append, h.roster]
  nonce other := by by_cases ho : other = user <;> simp [RoomState.remove, ho, h.nonce]
  callsign other := by by_cases ho : other = user <;> simp [RoomState.remove, ho, h.callsign]
  gain other := by by_cases ho : other = user <;> simp [RoomState.remove, ho, h.gain]
  org other := by by_cases ho : other = user <;> simp [RoomState.remove, ho, h.org]

end RoomState

/-! ## The server -/

/-- No task changes its stage but between the frames of a running session. -/
def Input.passive : Input → Prop
  | .connect _ | .advance _ | .openStream _ _ | .kill _ | .leave _ _ => False
  | _ => True

namespace Server

/-- What the session keeps from joining agrees with its room, as long as the room holds its
nonce. -/
structure Keeps (v : Server) (t : Task) (j : Joined) : Prop where
  nonce : j.nonce < v.nextNonce
  outputs : j.outputs.1 = t.ticket.channelId
  found : ∀ o, t.stage = .cleanup j (.output o) → o.1 = t.ticket.channelId
  entry : ∀ st, v.rooms.lookup t.ticket.channelId = some st →
    st.sessionNonces t.ticket.userId = some j.nonce →
      st.callsigns t.ticket.userId = some t.ticket.callsign ∧
        st.memberOrgs t.ticket.userId = some t.ticket.orgId

structure Wellformed (v : Server) : Prop where
  fresh : ∀ s, v.nextTask ≤ s → v.tasks s = none
  keeps : ∀ s t j, v.tasks s = some t → t.stage.joinedAs = some j → v.Keeps t j
  room : ∀ channel st, v.rooms.lookup channel = some st → st.Wellformed channel

/-- Nothing changed but frames, signals, gains, mutes, the priority slots and the tree. -/
structure Same (v v' : Server) : Prop where
  sessions : v'.sessions = v.sessions
  moveSenders : v'.moveSenders = v.moveSenders
  newest : v'.newest = v.newest
  outputs : v'.outputs = v.outputs
  nextOutputs : v'.nextOutputs = v.nextOutputs
  nextNonce : v'.nextNonce = v.nextNonce
  nextTask : v'.nextTask = v.nextTask
  tasks : ∀ s, (v'.tasks s).map Task.quiet = (v.tasks s).map Task.quiet
  rooms : ∀ channel,
    (v'.rooms.lookup channel).map RoomState.quiet = (v.rooms.lookup channel).map RoomState.quiet

namespace Same

variable {v v' : Server} {s now : ℕ} {t' t : Task}

theorem task (h : Same v v') (ht : v'.tasks s = some t') :
    ∃ t, v.tasks s = some t ∧ t.ticket = t'.ticket ∧ t.stage.quiet = t'.stage.quiet := by
  have hs := h.tasks s
  rw [ht] at hs
  obtain ⟨t, ht, hquiet⟩ := Option.map_eq_some_iff.mp hs.symm
  exact ⟨t, ht, (congrArg Task.ticket hquiet :), (congrArg Task.stage hquiet :)⟩

variable {channel : ChannelId}

theorem room (h : Same v v') {st' : RoomState} (hst : v'.rooms.lookup channel = some st') :
    ∃ st, v.rooms.lookup channel = some st ∧ st.quiet = st'.quiet := by
  have hc := h.rooms channel
  rw [hst] at hc
  exact Option.map_eq_some_iff.mp hc.symm

theorem wellformed (h : Same v v') (hv : v.Wellformed) : v'.Wellformed where
  fresh s hs := by
    have := h.tasks s
    rw [h.nextTask] at hs
    simpa [hv.fresh s hs] using this
  keeps s t' j ht' hj := by
    obtain ⟨t, ht, hticket, hstage⟩ := h.task ht'
    have hj' : t.stage.joinedAs = some j := by
      rw [← Stage.joinedAs_quiet, hstage, Stage.joinedAs_quiet, hj]
    have hk := hv.keeps s t j ht hj'
    refine ⟨h.nextNonce ▸ hk.nonce, hticket ▸ hk.outputs, ?_, ?_⟩
    · intro o ho
      rw [← hticket]
      refine hk.found o (Stage.quiet_eq_cleanup.mp ?_)
      rw [hstage, ho]
      rfl
    · intro st' hst' hnonce
      obtain ⟨st, hst, hquiet⟩ := h.room hst'
      rw [← hticket] at hst hnonce ⊢
      have hn : st.sessionNonces = st'.sessionNonces :=
        (congrArg RoomState.sessionNonces hquiet :)
      have hc : st.callsigns = st'.callsigns :=
        (congrArg RoomState.callsigns hquiet :)
      have ho : st.memberOrgs = st'.memberOrgs :=
        (congrArg RoomState.memberOrgs hquiet :)
      rw [← hc, ← ho]
      exact hk.entry st hst (by rw [hn]; exact hnonce)
  room channel st' hst' := by
    obtain ⟨st, hst, hquiet⟩ := h.room hst'
    rw [← RoomState.wellformed_quiet, ← hquiet]
    exact RoomState.wellformed_quiet.mpr (hv.room channel st hst)

/-! ### Steps that leave the members alone -/

theorem refl (v : Server) : Same v v :=
  ⟨rfl, rfl, rfl, rfl, rfl, rfl, rfl, fun _ => rfl, fun _ => rfl⟩

theorem trans {v₁ v₂ v₃ : Server} (h : Same v₁ v₂) (h' : Same v₂ v₃) : Same v₁ v₃ :=
  ⟨h'.sessions.trans h.sessions, h'.moveSenders.trans h.moveSenders, h'.newest.trans h.newest,
    h'.outputs.trans h.outputs, h'.nextOutputs.trans h.nextOutputs,
    h'.nextNonce.trans h.nextNonce, h'.nextTask.trans h.nextTask,
    fun s => (h'.tasks s).trans (h.tasks s), fun c => (h'.rooms c).trans (h.rooms c)⟩

theorem mapTasks (f : ℕ → Task → Task) (hf : ∀ s t, (f s t).quiet = t.quiet) :
    Same v (v.mapTasks f) := by
  refine ⟨rfl, rfl, rfl, rfl, rfl, rfl, rfl, fun s => ?_, fun _ => rfl⟩
  simp only [Server.mapTasks, Option.map_map]
  congr 1
  exact funext fun t => hf s t

theorem setTask (ht : v.tasks s = some t) (hq : t'.quiet = t.quiet) : Same v (v.setTask s t') := by
  refine ⟨rfl, rfl, rfl, rfl, rfl, rfl, rfl, fun other => ?_, fun _ => rfl⟩
  by_cases h : other = s
  · subst h
    simp [Server.setTask, ht, hq]
  · simp [Server.setTask, h]

variable {f : RoomState → RoomState}

theorem modify (hf : ∀ st, v.rooms.lookup channel = some st → (f st).quiet = st.quiet) :
    Same v { v with rooms := v.rooms.modify channel f } := by
  refine ⟨rfl, rfl, rfl, rfl, rfl, rfl, rfl, fun _ => rfl, fun c => ?_⟩
  rw [Rooms.lookup_modify]
  by_cases h : c = channel
  · subst h
    cases hst : v.rooms.lookup c with
    | none => simp
    | some st => simp [hf st hst]
  · simp [h]

theorem modify_foldl (hf : ∀ st, (f st).quiet = st.quiet) (channels : List ChannelId) :
    ∀ rooms : Rooms, Same v { v with rooms } →
      Same v { v with rooms := channels.foldl (fun rooms d => Rooms.modify rooms d f) rooms } := by
  induction channels with
  | nil => exact fun _ h => h
  | cons d rest ih =>
      intro rooms h
      exact ih _ (h.trans (modify fun st _ => hf st))

/-! ### The steps -/

theorem setSpeaker_quiet (st : RoomState) (user : UserId) (now level : ℕ) (p : Prop)
    [Decidable p] :
    ((st.setSpeaker user now).send (if p then [.duck user level] else [])).quiet = st.quiet := by
  by_cases hp : p <;>
    simp [hp, RoomState.setSpeaker, RoomState.send, RoomState.quiet, announced_append]

variable {user : UserId}

theorem duckRooms {level : ℕ} {descendants : List ChannelId} :
    Same v { v with rooms := v.duckRooms channel user level descendants now } := by
  unfold Server.duckRooms
  cases hst : v.rooms.lookup channel with
  | none => exact refl v
  | some st =>
      dsimp only
      split
      · exact modify_foldl (fun st => setSpeaker_quiet st user now level _) descendants _
          (modify fun st _ => setSpeaker_quiet st user now level _)
      · exact refl v

theorem kick : Same v (v.kick user) := by
  refine mapTasks _ fun s t => ?_
  split <;> rfl

theorem drainOrg {org : OrgId} : Same v (v.drainOrg org) := by
  refine mapTasks _ fun s t => ?_
  split <;> rfl

theorem move : Same v (v.move user channel) := by
  refine mapTasks _ fun s t => ?_
  split <;> rfl

theorem sweep : Same v (v.sweep channel now) := by
  refine modify fun st _ => ?_
  unfold RoomState.sweep
  split <;> simp [RoomState.quiet, announced_append]

theorem localMute {muted : Bool} {target : UserId} :
    Same v (v.localMute channel user muted target) :=
  modify fun _ _ => rfl

theorem setGain (hv : v.Wellformed) {gain : Gain} {room : Option ChannelId}
    (hstep : v.setGain user gain room = some v') : Same v v' := by
  cases room with
  | none =>
      obtain ⟨_, h⟩ := Option.ite_none_right_eq_some.mp hstep
      obtain rfl := Option.some.inj h
      exact refl v
  | some channel =>
      obtain ⟨hmem, h⟩ := Option.ite_none_right_eq_some.mp hstep
      obtain rfl := Option.some.inj h
      refine modify fun st hst => ?_
      have hmem : user ∈ st.members := by simpa [hst] using hmem
      obtain ⟨g, hg⟩ := Option.isSome_iff_exists.mp (((hv.room channel st hst).gain user).mpr hmem)
      have hgains : (fun other => ((st.setGain user gain).userGains other).map fun _ => Gain.normal) =
          fun other => (st.userGains other).map fun _ => Gain.normal := by
        funext other
        by_cases ho : other = user
        · subst ho
          simp [RoomState.setGain, hg]
        · simp [RoomState.setGain, ho]
      simpa [RoomState.quiet, RoomState.setGain] using hgains

variable {j : Joined} {relay : Option Relay}

/-- Two stages of one session that is in the loop. -/
theorem running {relay' : Option Relay} (ht : v.tasks s = some t)
    (hs : t.stage = .running j relay) (hticket : t'.ticket = t.ticket)
    (hs' : t'.stage = .running j relay') : Same v (v.setTask s t') := by
  refine setTask ht ?_
  rw [Task.quiet, Task.quiet, hs, hs', hticket]
  rfl

theorem readFrame {broadcast empty : Bool} (ht : v.tasks s = some t)
    (hs : t.stage = .running j relay) : Same v (v.readFrame s t j broadcast empty now) := by
  unfold Server.readFrame
  dsimp only
  split
  · exact refl v
  · split
    · exact refl v
    · rename_i st hst
      split
      · split
        · exact running ht hs (by rfl) (by rfl)
        · exact refl v
      · split
        · exact refl v
        · split
          · refine trans (running ht hs (by rfl) (by rfl)) (modify fun st _ => ?_)
            simp [RoomState.quiet, RoomState.send, announced_append]
          · exact running ht hs (by rfl) (by rfl)

theorem forwards (frames : List Forward) :
    Same v { v with forwarded := frames } :=
  ⟨rfl, rfl, rfl, rfl, rfl, rfl, rfl, fun _ => rfl, fun _ => rfl⟩

theorem relayFrame {next : Relay} (ht : v.tasks s = some t) (hs : t.stage = .running j relay) :
    Same v (v.relayFrame s t j now next) := by
  cases next with
  | send outputs localMutes level =>
      exact trans (running ht hs (by rfl) (by rfl)) (forwards _)
  | readTree level => exact running ht hs (by rfl) (by rfl)
  | duck level descendants => exact trans (duckRooms) (running ht hs (by rfl) (by rfl))
  | readCascade => exact running ht hs (by rfl) (by rfl)
  | cascade descendants => exact trans (running ht hs (by rfl) (by rfl)) (forwards _)

theorem eventTree {channels : ChannelTree} :
    Same v { v with channelTree := v.channelTree.apply channels } :=
  ⟨rfl, rfl, rfl, rfl, rfl, rfl, rfl, fun _ => rfl, fun _ => rfl⟩

end Same

/-! ### Set-up and clean-up -/

/-- What a room holds for an earlier nonce it held before. -/
structure Follows (v v' : Server) : Prop where
  nextNonce : v.nextNonce ≤ v'.nextNonce
  room : ∀ channel st', v'.rooms.lookup channel = some st' → st'.Wellformed channel
  entry : ∀ channel st' user nonce, v'.rooms.lookup channel = some st' → nonce < v.nextNonce →
    st'.sessionNonces user = some nonce →
      ∃ st, v.rooms.lookup channel = some st ∧ st.sessionNonces user = some nonce ∧
        st.callsigns user = st'.callsigns user ∧ st.memberOrgs user = st'.memberOrgs user

variable {v v' : Server}

theorem Follows.of_rooms (hv : v.Wellformed) (hrooms : v'.rooms = v.rooms)
    (hnonce : v'.nextNonce = v.nextNonce) : Follows v v' := by
  refine ⟨hnonce.ge, ?_, ?_⟩
  · rw [hrooms]
    exact hv.room
  · intro channel st' user nonce hst' _ hn
    exact ⟨st', hrooms ▸ hst', hn, rfl, rfl⟩

variable {t : Task}

theorem Keeps.follow (h : Follows v v') {t' : Task} {j : Joined} (hk : v.Keeps t j)
    (hticket : t'.ticket = t.ticket)
    (hfound : ∀ o, t'.stage = .cleanup j (.output o) → o.1 = t.ticket.channelId) :
    v'.Keeps t' j := by
  refine ⟨hk.nonce.trans_le h.nextNonce, hticket ▸ hk.outputs, hticket ▸ hfound, ?_⟩
  rw [hticket]
  intro st' hst' hn
  obtain ⟨st, hst, hn, hc, ho⟩ := h.entry _ st' _ _ hst' hk.nonce hn
  rw [← hc, ← ho]
  exact hk.entry st hst hn

variable {s : ℕ}

theorem Wellformed.setTask (hv : v.Wellformed) (hs : s < v'.nextTask)
    (hnext : v.nextTask ≤ v'.nextTask) (htasks : v'.tasks = Function.update v.tasks s (some t))
    (h : Follows v v') (hown : ∀ j, t.stage.joinedAs = some j → v'.Keeps t j) : v'.Wellformed where
  fresh other ho := by
    rw [htasks, Function.update_of_ne (by omega)]
    exact hv.fresh other (hnext.trans ho)
  keeps other task j ho hj := by
    rw [htasks] at ho
    by_cases heq : other = s
    · subst heq
      obtain rfl := Option.some.inj ((Function.update_self other (some t) v.tasks).symm.trans ho)
      exact hown j hj
    · rw [Function.update_of_ne heq] at ho
      have hk := hv.keeps other task j ho hj
      exact hk.follow h rfl hk.found
  room := h.room

theorem Wellformed.lt_nextTask (hv : v.Wellformed) (ht : v.tasks s = some t) : s < v.nextTask := by
  by_contra h
  rw [hv.fresh s (by omega)] at ht
  exact nomatch ht

variable {stage : Stage}

/-- A stage that joins nothing and keeps what the session has. -/
theorem Wellformed.setStage (hv : v.Wellformed) (ht : v.tasks s = some t)
    (hnext : v'.nextTask = v.nextTask)
    (htasks : v'.tasks = Function.update v.tasks s (some { t with stage })) (h : Follows v v')
    (hj : ∀ j, stage.joinedAs = some j → t.stage.joinedAs = some j)
    (hfound : ∀ j o, stage = .cleanup j (.output o) → o.1 = t.ticket.channelId) :
    v'.Wellformed := by
  refine hv.setTask (hnext ▸ hv.lt_nextTask ht) hnext.ge htasks h fun j hstage => ?_
  exact (hv.keeps s t j ht (hj j hstage)).follow h rfl (hfound j)

section Steps

variable {v v' : Server} {s : ℕ} {t : Task}

theorem booted (v : Server) (t : Task) :
    Same v (v.mapTasks fun other task =>
      if v.sessions t.ticket.key = some other then { task with killed := true } else task) := by
  refine Same.mapTasks _ fun other task => ?_
  split <;> rfl

theorem Wellformed.connect (hv : v.Wellformed) (ticket : Ticket) : (v.connect ticket).Wellformed :=
  hv.setTask (Nat.lt_succ_self _) (Nat.le_succ _) rfl (.of_rooms hv rfl rfl) fun _ h => nomatch h

theorem Wellformed.register (hv : v.Wellformed) (ht : v.tasks s = some t) :
    (v.register s t).Wellformed := by
  have hv' := (booted v t).wellformed hv
  exact hv'.setTask (hv.lt_nextTask ht) le_rfl rfl (.of_rooms hv' rfl rfl) fun _ h => nomatch h

theorem Wellformed.registerMove (hv : v.Wellformed) (ht : v.tasks s = some t) :
    (v.registerMove s t).Wellformed :=
  hv.setStage ht rfl rfl (.of_rooms hv rfl rfl) (fun _ h => nomatch h) (fun _ _ h => nomatch h)

/-- The room that the user joins, old or new. -/
theorem Follows.join (hv : v.Wellformed) (ticket : Ticket) (before : RoomState)
    (hbefore : before.userOutputSenders.1 = ticket.channelId)
    (hst : v.rooms.lookup ticket.channelId = some before ∨
      before = .empty before.userOutputSenders)
    (hrooms : v'.rooms = v.rooms.insert ticket.channelId (before.join ticket v.nextNonce))
    (hnonce : v'.nextNonce = v.nextNonce + 1) : Follows v v' := by
  refine ⟨by omega, ?_, ?_⟩
  · intro channel st' hst'
    rw [hrooms] at hst'
    by_cases hc : channel = ticket.channelId
    · subst hc
      rw [AList.lookup_insert] at hst'
      obtain rfl := Option.some.inj hst'
      obtain h | h := hst
      · exact (hv.room _ before h).rejoin ticket _
      · refine .join ticket _ hbefore ?_ ?_ ?_ ?_ <;> rw [h] <;> simp [RoomState.empty]
    · rw [AList.lookup_insert_ne hc] at hst'
      exact hv.room channel st' hst'
  · intro channel st' user nonce hst' hlt hn
    rw [hrooms] at hst'
    by_cases hc : channel = ticket.channelId
    · subst hc
      rw [AList.lookup_insert] at hst'
      obtain rfl := Option.some.inj hst'
      -- the new nonce is not an earlier one
      have hu : user ≠ ticket.userId := by
        rintro rfl
        simp [RoomState.join] at hn
        omega
      simp only [RoomState.join, Function.update_of_ne hu] at hn ⊢
      obtain h | h := hst
      · exact ⟨before, h, hn, rfl, rfl⟩
      · rw [h] at hn
        cases hn
    · rw [AList.lookup_insert_ne hc] at hst'
      exact ⟨st', hst', hn, rfl, rfl⟩

theorem Keeps.join {ticket : Ticket} {killed : Bool} {moves : List ChannelId} {emit : Option ℕ}
    (before : RoomState) {n : ℕ} (hbefore : before.userOutputSenders.1 = ticket.channelId)
    (hrooms : v'.rooms = v.rooms.insert ticket.channelId (before.join ticket n))
    (hnonce : n < v'.nextNonce) (hstage : stage = .joined ⟨n, before.userOutputSenders⟩) :
    v'.Keeps ⟨ticket, stage, killed, moves, emit⟩ ⟨n, before.userOutputSenders⟩ := by
  refine ⟨hnonce, hbefore, fun o h => ?_, fun st hst _ => ?_⟩
  · rw [hstage] at h
    exact nomatch h
  · rw [hrooms, AList.lookup_insert] at hst
    obtain rfl := Option.some.inj hst
    simp [RoomState.join]

theorem joinRoom_of_some {st : RoomState} (hst : v.rooms.lookup t.ticket.channelId = some st) :
    v.joinRoom s t =
      { v.setStage s t (.joined ⟨v.nextNonce, st.userOutputSenders⟩) with
        rooms := v.rooms.insert t.ticket.channelId (st.join t.ticket v.nextNonce)
        nextNonce := v.nextNonce + 1 } := by
  simp [Server.joinRoom, hst]

theorem joinRoom_of_none (hst : v.rooms.lookup t.ticket.channelId = none) :
    v.joinRoom s t =
      { v.setStage s t (.joined ⟨v.nextNonce, (t.ticket.channelId, v.nextOutputs)⟩) with
        rooms := v.rooms.insert t.ticket.channelId
          ((RoomState.empty (t.ticket.channelId, v.nextOutputs)).join t.ticket v.nextNonce)
        outputs := Function.update v.outputs (t.ticket.channelId, v.nextOutputs) ∅
        nextOutputs := v.nextOutputs + 1
        nextNonce := v.nextNonce + 1 } := by
  simp [Server.joinRoom, hst]

theorem Wellformed.joinRoom (hv : v.Wellformed) (ht : v.tasks s = some t) :
    (v.joinRoom s t).Wellformed := by
  cases hst : v.rooms.lookup t.ticket.channelId with
  | some st =>
      have hout := (hv.room _ st hst).outputs
      rw [joinRoom_of_some hst]
      refine hv.setTask (hv.lt_nextTask ht) le_rfl rfl
        (.join hv t.ticket st hout (.inl hst) rfl rfl) fun j hj => ?_
      obtain rfl := Option.some.inj hj
      exact .join st hout rfl (Nat.lt_succ_self _) rfl
  | none =>
      let st := RoomState.empty (t.ticket.channelId, v.nextOutputs)
      rw [joinRoom_of_none hst]
      refine hv.setTask (hv.lt_nextTask ht) le_rfl rfl
        (.join hv t.ticket st rfl (.inr rfl) rfl rfl) fun j hj => ?_
      obtain rfl := Option.some.inj hj
      exact .join st rfl rfl (Nat.lt_succ_self _) rfl

theorem Follows.leave (hv : v.Wellformed) {channel : ChannelId} (user : UserId) {st : RoomState}
    (hst : v.rooms.lookup channel = some st)
    (hrooms : v'.rooms = v.rooms.erase channel ∨
      (st.remove user).members ≠ ∅ ∧ v'.rooms = v.rooms.insert channel (st.remove user))
    (hnonce : v'.nextNonce = v.nextNonce) : Follows v v' := by
  have hlookup : ∀ c st', v'.rooms.lookup c = some st' →
      (c ≠ channel ∧ v.rooms.lookup c = some st') ∨
        (c = channel ∧ st' = st.remove user ∧ (st.remove user).members ≠ ∅) := by
    intro c st' hst'
    obtain h | ⟨hne, h⟩ := hrooms
    · rw [h] at hst'
      by_cases hc : c = channel
      · subst hc
        rw [AList.lookup_erase] at hst'
        exact nomatch hst'
      · rw [AList.lookup_erase_ne hc] at hst'
        exact .inl ⟨hc, hst'⟩
    · rw [h] at hst'
      by_cases hc : c = channel
      · subst hc
        rw [AList.lookup_insert] at hst'
        exact .inr ⟨rfl, (Option.some.inj hst').symm, hne⟩
      · rw [AList.lookup_insert_ne hc] at hst'
        exact .inl ⟨hc, hst'⟩
  refine ⟨hnonce.ge, ?_, ?_⟩
  · intro c st' hst'
    obtain ⟨_, h⟩ | ⟨rfl, rfl, hne⟩ := hlookup c st' hst'
    · exact hv.room c st' h
    · exact (hv.room c st hst).remove hne
  · intro c st' other nonce hst' _ hn
    obtain ⟨_, h⟩ | ⟨rfl, rfl, hne⟩ := hlookup c st' hst'
    · exact ⟨st', h, hn, rfl, rfl⟩
    · have hu : other ≠ user := by
        rintro rfl
        simp [RoomState.remove] at hn
      simp only [RoomState.remove, Function.update_of_ne hu] at hn ⊢
      exact ⟨st, hst, hn, rfl, rfl⟩

theorem Wellformed.leaveRoom (hv : v.Wellformed) (ht : v.tasks s = some t) (j : Joined) :
    (v.leaveRoom s t j).Wellformed := by
  have hdone : ∀ v', v'.nextTask = v.nextTask →
      v'.tasks = Function.update v.tasks s (some { t with stage := .finished }) →
      Follows v v' → v'.Wellformed := fun v' hnext htasks h =>
    hv.setStage ht hnext htasks h (fun _ h => nomatch h) (fun _ _ h => nomatch h)
  unfold Server.leaveRoom
  dsimp only
  cases hst : v.rooms.lookup t.ticket.channelId with
  | none => exact hdone _ rfl rfl (.of_rooms hv rfl rfl)
  | some st =>
      dsimp only
      split
      · exact hdone _ rfl rfl (.of_rooms hv rfl rfl)
      · split
        · exact hdone _ rfl rfl (.leave hv t.ticket.userId hst (.inl rfl) rfl)
        · rename_i hne
          exact hdone _ rfl rfl (.leave hv t.ticket.userId hst (.inr ⟨hne, rfl⟩) rfl)

/-- A stage that only goes on, with the rooms as they are. -/
theorem Wellformed.goOn (hv : v.Wellformed) (ht : v.tasks s = some t) {j : Joined}
    (hj : t.stage.joinedAs = some j) (hstage : stage.joinedAs = some j)
    (hfound : ∀ o, stage = .cleanup j (.output o) → o.1 = t.ticket.channelId)
    (hnext : v'.nextTask = v.nextTask)
    (htasks : v'.tasks = Function.update v.tasks s (some { t with stage }))
    (hrooms : v'.rooms = v.rooms) (hnonce : v'.nextNonce = v.nextNonce) : v'.Wellformed := by
  refine hv.setTask (hnext ▸ hv.lt_nextTask ht) hnext.ge htasks (.of_rooms hv hrooms hnonce)
    fun j' hj' => ?_
  obtain rfl := Option.some.inj (hstage.symm.trans hj')
  exact (hv.keeps s t j ht hj).follow (.of_rooms hv hrooms hnonce) rfl hfound

theorem Wellformed.finish (hv : v.Wellformed) (ht : v.tasks s = some t) :
    (v.setStage s t .finished).Wellformed :=
  hv.setStage ht rfl rfl (.of_rooms hv rfl rfl) (fun _ h => nomatch h) (fun _ _ h => nomatch h)

theorem Wellformed.advance (hv : v.Wellformed) (ht : v.tasks s = some t)
    (hstep : v.advance s t = some v') : v'.Wellformed := by
  unfold Server.advance at hstep
  split at hstep <;> cases hstep
  case h_1 => exact hv.register ht
  case h_2 => exact hv.registerMove ht
  case h_3 => exact hv.joinRoom ht
  case h_4 j hs =>
      exact hv.goOn ht (j := j) (by rw [hs]; rfl) rfl (by simp) rfl rfl rfl rfl
  case h_5 j hs =>
      exact hv.goOn ht (j := j) (by rw [hs]; rfl) rfl (by simp) rfl rfl rfl rfl
  case h_6 j hs =>
      exact hv.goOn ht (j := j) (by rw [hs]; rfl) rfl (by simp) rfl rfl rfl rfl
  case h_7 j hs =>
      have hj : t.stage.joinedAs = some j := by rw [hs]; rfl
      unfold Server.findOutputs
      cases hst : v.rooms.lookup t.ticket.channelId with
      | some st =>
          refine hv.goOn ht hj rfl (fun o h => ?_) rfl rfl rfl rfl
          obtain rfl : st.userOutputSenders = o := by simpa using h
          exact (hv.room _ st hst).outputs
      | none => exact hv.goOn ht hj rfl (by simp) rfl rfl rfl rfl
  case h_8 j o hs =>
      exact hv.goOn ht (j := j) (by rw [hs]; rfl) rfl (by simp) rfl rfl rfl rfl
  case h_9 j hs => exact hv.leaveRoom ht j

theorem Wellformed.init : Server.init.Wellformed := by
  refine ⟨fun _ _ => rfl, (fun _ _ _ h => nomatch h), fun c st h => ?_⟩
  simp [Server.init] at h

/-! ### One step and a run -/

theorem same_of_passive (hv : v.Wellformed) {i : Input} (hi : i.passive)
    (hstep : v.step i = some v') : Same v v' := by
  cases i with
  | connect ticket => exact nomatch hi
  | advance s => exact nomatch hi
  | openStream s opening => exact nomatch hi
  | kill s => exact nomatch hi
  | leave s cause => exact nomatch hi
  | frame s broadcast empty now =>
      obtain ⟨t, ht, h⟩ := Option.bind_eq_some_iff.mp hstep
      split at h <;> cases h
      rename_i hs
      exact .readFrame ht hs
  | relay s now =>
      obtain ⟨t, ht, h⟩ := Option.bind_eq_some_iff.mp hstep
      split at h <;> cases h
      rename_i hs
      exact .relayFrame ht hs
  | localMute s muted target =>
      obtain ⟨t, ht, h⟩ := Option.bind_eq_some_iff.mp hstep
      split at h
      · split at h <;> cases h
        · exact .refl v
        · exact .localMute
      · exact nomatch h
  | kick user =>
      cases hstep
      exact .kick
  | drainOrg org =>
      cases hstep
      exact .drainOrg
  | mute user room => exact .setGain hv hstep
  | unmute user room => exact .setGain hv hstep
  | move user channel =>
      cases hstep
      exact .move
  | eventTree channels =>
      cases hstep
      exact .eventTree
  | sweep channel now =>
      cases hstep
      exact .sweep

theorem openStream_cases {opening : Opening} (hstep : v.step (.openStream s opening) = some v') :
    ∃ t j, v.tasks s = some t ∧ t.stage = .subscribed j ∧ v' = v.openStream s t j opening := by
  obtain ⟨t, ht, h⟩ := Option.bind_eq_some_iff.mp hstep
  split at h <;> cases h
  rename_i j hs
  exact ⟨t, j, ht, hs, rfl⟩

theorem kill_cases (hstep : v.step (.kill s) = some v') :
    ∃ t j, v.tasks s = some t ∧ t.stage = .running j none ∧ v.killable s t ∧
      v' = v.setStage s t .finished := by
  obtain ⟨t, ht, h⟩ := Option.bind_eq_some_iff.mp hstep
  split at h
  · rename_i j hs
    obtain ⟨hk, h⟩ := Option.ite_none_right_eq_some.mp h
    exact ⟨t, j, ht, hs, hk, (Option.some.inj h).symm⟩
  · exact nomatch h

theorem leave_cases {cause : LeaveCause} (hstep : v.step (.leave s cause) = some v') :
    ∃ t j, v.tasks s = some t ∧ t.stage = .running j none ∧
      v' = v.setStage s t (.cleanup j .session) := by
  obtain ⟨t, ht, h⟩ := Option.bind_eq_some_iff.mp hstep
  split at h
  · rename_i j hs
    obtain ⟨_, h⟩ := Option.ite_none_left_eq_some.mp h
    exact ⟨t, j, ht, hs, (Option.some.inj h).symm⟩
  · exact nomatch h

theorem Wellformed.step (hv : v.Wellformed) {i : Input} (hstep : v.step i = some v') :
    v'.Wellformed := by
  by_cases hi : i.passive
  · exact (same_of_passive hv hi hstep).wellformed hv
  cases i with
  | connect ticket =>
      cases hstep
      exact hv.connect ticket
  | advance s =>
      obtain ⟨t, ht, h⟩ := Option.bind_eq_some_iff.mp hstep
      exact hv.advance ht h
  | openStream s opening =>
      obtain ⟨t, j, ht, hs, rfl⟩ := openStream_cases hstep
      have hj : t.stage.joinedAs = some j := by rw [hs]; rfl
      cases opening with
      | opened => exact hv.goOn ht hj rfl (by simp) rfl rfl rfl rfl
      | failed => exact hv.finish ht
      | aborted => exact hv.goOn ht hj rfl (by simp) rfl rfl rfl rfl
  | kill s =>
      obtain ⟨t, j, ht, -, -, rfl⟩ := kill_cases hstep
      exact hv.finish ht
  | leave s cause =>
      obtain ⟨t, j, ht, hs, rfl⟩ := leave_cases hstep
      have hj : t.stage.joinedAs = some j := by rw [hs]; rfl
      exact hv.goOn ht hj rfl (by simp) rfl rfl rfl rfl
  | _ => exact absurd trivial hi

theorem Wellformed.run {is : List Input} (h : voice.Run .init is v) : v.Wellformed :=
  h.invariant (fun _ _ _ hv hstep => hv.step hstep) .init

end Steps

end Server

end SpecterComs.MediaServer
