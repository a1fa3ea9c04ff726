import SpecterComs.Verification.MediaServer.Wellformed

/-! # One registry key, as the sessions of the key see it

Everything the server stores about a user in a channel, and what each of its steps does to
that part. Steps of other sessions can only create the room or dispose of it.
-/

namespace SpecterComs.MediaServer

/-! ## The view of a key -/

/-- The room of the channel: its output map, and the nonce it holds for the user. -/
structure RoomView where
  outputs : ℕ
  nonce : Option ℕ
  deriving DecidableEq, Repr

@[ext]
structure View where
  session : Option ℕ
  moveSender : Option ℕ
  newest : Option ℕ
  room : Option RoomView
  /-- The user's entry in each output map of the channel. -/
  output : ℕ → Option ℕ
  /-- The sessions of the key. -/
  stage : ℕ → Option Stage
  nextNonce : ℕ
  nextOutputs : ℕ

def RoomState.view (st : RoomState) (user : UserId) : RoomView :=
  ⟨st.userOutputSenders.2, st.sessionNonces user⟩

def Task.view (t : Task) (k : SessionKey) : Option Stage :=
  if t.ticket.key = k then some t.stage.quiet else none

def Server.view (v : Server) (k : SessionKey) : View where
  session := v.sessions k
  moveSender := v.moveSenders k
  newest := v.newest k
  room := (v.rooms.lookup k.2).map (·.view k.1)
  output := fun n => (v.outputs (k.2, n)).lookup k.1
  stage := fun s => (v.tasks s).bind (·.view k)
  nextNonce := v.nextNonce
  nextOutputs := v.nextOutputs

/-! ## Its steps -/

inductive Act
  | other
  | advance (s : ℕ)
  | openStream (s : ℕ) (opening : Opening)
  | kill (s : ℕ)
  | leave (s : ℕ)

namespace View

def setStage (w : View) (s : ℕ) (stage : Stage) : View :=
  { w with stage := Function.update w.stage s (some stage) }

/-- Where the room holds the nonce of the session, the user's entry goes, and with it the
room or not. -/
inductive Left (w : View) (j : Joined) : Option RoomView → Prop
  | gone (h : w.room = none) : Left w j none
  | newer (r : RoomView) (h : w.room = some r) (hn : r.nonce ≠ some j.nonce) : Left w j (some r)
  | disposed (r : RoomView) (h : w.room = some r) (hn : r.nonce = some j.nonce) : Left w j none
  | left (r : RoomView) (h : w.room = some r) (hn : r.nonce = some j.nonce) :
      Left w j (some { r with nonce := none })

/-- What the steps of the server do to the part a key sees. -/
inductive Step (w : View) : Act → View → Prop
  | idle : Step w .other w
  /-- Others take nonces and output maps. -/
  | clock (n m : ℕ) (hn : w.nextNonce ≤ n) (hm : w.nextOutputs ≤ m) :
      Step w .other { w with nextNonce := n, nextOutputs := m }
  | created (n : ℕ) (hn : w.nextNonce ≤ n) (hroom : w.room = none) :
      Step w .other
        { w with
          room := some ⟨w.nextOutputs, none⟩
          output := Function.update w.output w.nextOutputs none
          nextOutputs := w.nextOutputs + 1
          nextNonce := n }
  | dropped (r : RoomView) (hroom : w.room = some r) (hnonce : r.nonce = none) :
      Step w .other { w with room := none }
  | connect (s : ℕ) (hs : w.stage s = none) : Step w .other (w.setStage s .accepted)
  | register (s : ℕ) (hs : w.stage s = some .accepted) :
      Step w (.advance s) { w.setStage s .registered with session := some s, newest := some s }
  | registerMove (s : ℕ) (hs : w.stage s = some .registered) :
      Step w (.advance s) { w.setStage s .movable with moveSender := some s }
  | join (s : ℕ) (j : Joined) (r : RoomView) (hs : w.stage s = some .movable)
      (hroom : w.room = some r) (hj : j.nonce = w.nextNonce) (ho : j.outputs.2 = r.outputs) :
      Step w (.advance s)
        { w.setStage s (.joined j) with
          room := some ⟨r.outputs, some w.nextNonce⟩
          nextNonce := w.nextNonce + 1 }
  | joinNew (s : ℕ) (j : Joined) (hs : w.stage s = some .movable) (hroom : w.room = none)
      (hj : j.nonce = w.nextNonce) (ho : j.outputs.2 = w.nextOutputs) :
      Step w (.advance s)
        { w.setStage s (.joined j) with
          room := some ⟨w.nextOutputs, some w.nextNonce⟩
          output := Function.update w.output w.nextOutputs none
          nextOutputs := w.nextOutputs + 1
          nextNonce := w.nextNonce + 1 }
  | subscribe (s : ℕ) (j : Joined) (hs : w.stage s = some (.joined j)) :
      Step w (.advance s)
        { w.setStage s (.subscribed j) with
          output := Function.update w.output j.outputs.2 (some s) }
  | opened (s : ℕ) (j : Joined) (hs : w.stage s = some (.subscribed j)) :
      Step w (.openStream s .opened) (w.setStage s (.running j none))
  | failed (s : ℕ) (j : Joined) (hs : w.stage s = some (.subscribed j)) :
      Step w (.openStream s .failed) (w.setStage s .finished)
  | aborted (s : ℕ) (j : Joined) (hs : w.stage s = some (.subscribed j)) :
      Step w (.openStream s .aborted) (w.setStage s (.cleanup j .session))
  | kill (s : ℕ) (j : Joined) (hs : w.stage s = some (.running j none)) :
      Step w (.kill s) (w.setStage s .finished)
  | leave (s : ℕ) (j : Joined) (hs : w.stage s = some (.running j none)) :
      Step w (.leave s) (w.setStage s (.cleanup j .session))
  | unregister (s : ℕ) (j : Joined) (hs : w.stage s = some (.cleanup j .session)) :
      Step w (.advance s) { w.setStage s (.cleanup j .moveSender) with session := none }
  | unregisterMove (s : ℕ) (j : Joined) (hs : w.stage s = some (.cleanup j .moveSender)) :
      Step w (.advance s) { w.setStage s (.cleanup j .findOutputs) with moveSender := none }
  | findOutputs (s : ℕ) (j : Joined) (o : OutputsId) (r : RoomView)
      (hs : w.stage s = some (.cleanup j .findOutputs)) (hroom : w.room = some r)
      (ho : o.2 = r.outputs) :
      Step w (.advance s) (w.setStage s (.cleanup j (.output o)))
  | noOutputs (s : ℕ) (j : Joined) (hs : w.stage s = some (.cleanup j .findOutputs))
      (hroom : w.room = none) : Step w (.advance s) (w.setStage s (.cleanup j .room))
  | unsubscribe (s : ℕ) (j : Joined) (o : OutputsId)
      (hs : w.stage s = some (.cleanup j (.output o))) :
      Step w (.advance s)
        { w.setStage s (.cleanup j .room) with output := Function.update w.output o.2 none }
  | leaveRoom (s : ℕ) (j : Joined) (room : Option RoomView)
      (hs : w.stage s = some (.cleanup j .room)) (hleft : Left w j room) :
      Step w (.advance s) { w.setStage s .finished with room := room }

theorem Step.to {w w₁ w₂ : View} {act : Act} (h : Step w act w₁) (heq : w₂ = w₁) :
    Step w act w₂ := by
  rw [heq]
  exact h

end View

/-! ## The server steps so -/

namespace Server

variable {v v' : Server} {k : SessionKey} {s : ℕ} {t : Task} {stage : Stage}

/-- The part of a step that a key sees as the step of one of its sessions. -/
def actOf (v : Server) (k : SessionKey) (i : Input) : Act :=
  let own (s : ℕ) (act : Act) :=
    if (v.tasks s).any (·.ticket.key = k) then act else .other
  match i with
  | .advance s => own s (.advance s)
  | .openStream s opening => own s (.openStream s opening)
  | .kill s => own s (.kill s)
  | .leave s _ => own s (.leave s)
  | _ => .other

theorem Same.view_eq (h : Same v v') : v'.view k = v.view k := by
  have hroom : (v'.rooms.lookup k.2).map (·.view k.1) = (v.rooms.lookup k.2).map (·.view k.1) := by
    have := congrArg (Option.map (·.view k.1)) (h.rooms k.2)
    rw [Option.map_map, Option.map_map] at this
    exact this
  have hstage : (fun s => (v'.tasks s).bind (·.view k)) = fun s => (v.tasks s).bind (·.view k) := by
    funext s
    have := congrArg (Option.bind · (Task.view · k)) (h.tasks s)
    simp only [Option.bind_map, Function.comp_def] at this
    have hquiet : ∀ t : Task, t.quiet.view k = t.view k := by
      intro t
      rcases t with ⟨ticket, stage, killed, moves, emit⟩
      cases stage <;> rfl
    simpa only [hquiet] using this
  refine View.ext ?_ ?_ ?_ hroom ?_ hstage ?_ ?_
  · exact congrFun h.sessions k
  · exact congrFun h.moveSenders k
  · exact congrFun h.newest k
  · simp only [Server.view, h.outputs]
  · exact h.nextNonce
  · exact h.nextOutputs

theorem stage_own (hk : t.ticket.key = k) (htasks : v'.tasks = Function.update v.tasks s (some t)) :
    (v'.view k).stage = Function.update (v.view k).stage s (some t.stage.quiet) := by
  funext other
  by_cases ho : other = s
  · subst ho
    simp [Server.view, htasks, Task.view, hk]
  · simp [Server.view, htasks, ho]

theorem stage_foreign (hk : t.ticket.key ≠ k) (ht : v.tasks s = some t)
    (htasks : v'.tasks = Function.update v.tasks s (some { t with stage })) :
    (v'.view k).stage = (v.view k).stage := by
  funext other
  by_cases ho : other = s
  · subst ho
    simp [Server.view, htasks, ht, Task.view, hk]
  · simp [Server.view, htasks, ho]

theorem stage_eq (hk : t.ticket.key = k) (ht : v.tasks s = some t) :
    (v.view k).stage s = some t.stage.quiet := by
  simp [Server.view, ht, Task.view, hk]

theorem setStage_own (hk : t.ticket.key = k) :
    (v.setStage s t stage).view k = (v.view k).setStage s stage.quiet :=
  View.ext rfl rfl rfl rfl rfl (stage_own (t := { t with stage }) hk rfl) rfl rfl

theorem setStage_foreign (hk : t.ticket.key ≠ k) (ht : v.tasks s = some t) :
    (v.setStage s t stage).view k = v.view k :=
  View.ext rfl rfl rfl rfl rfl (stage_foreign hk ht rfl) rfl rfl

/-- The step of a session as its own key sees it, and as the others do. -/
theorem step_of_key {act : Act} (hown : t.ticket.key = k → View.Step (v.view k) act (v'.view k))
    (hforeign : t.ticket.key ≠ k → View.Step (v.view k) .other (v'.view k)) :
    View.Step (v.view k) (if t.ticket.key = k then act else .other) (v'.view k) := by
  by_cases hk : t.ticket.key = k
  · rw [if_pos hk]
    exact hown hk
  · rw [if_neg hk]
    exact hforeign hk

theorem idle_of (h : v'.view k = v.view k) : View.Step (v.view k) .other (v'.view k) := by
  rw [h]
  exact .idle

theorem connect_view (hv : v.Wellformed) (ticket : Ticket) :
    View.Step (v.view k) .other ((v.connect ticket).view k) := by
  have hnew := hv.fresh v.nextTask le_rfl
  by_cases hk : ticket.key = k
  · have hview : (v.connect ticket).view k = (v.view k).setStage v.nextTask .accepted :=
      View.ext rfl rfl rfl rfl rfl
        (stage_own (t := ⟨ticket, .accepted, false, [], none⟩) hk rfl) rfl rfl
    rw [hview]
    exact .connect _ (by simp [Server.view, hnew])
  · refine idle_of (View.ext rfl rfl rfl rfl rfl ?_ rfl rfl)
    funext other
    by_cases ho : other = v.nextTask
    · subst ho
      simp [Server.view, Server.connect, Server.setTask, hnew, Task.view, hk]
    · simp [Server.view, Server.connect, Server.setTask, ho]

theorem register_view (ht : v.tasks s = some t) (hs : t.stage = .accepted) :
    View.Step (v.view k) (if t.ticket.key = k then .advance s else .other)
      ((v.register s t).view k) := by
  let booted := v.mapTasks fun other task =>
    if v.sessions t.ticket.key = some other then { task with killed := true } else task
  have hb : booted.view k = v.view k := (Server.booted v t).view_eq
  refine step_of_key (fun hk => ?_) fun hk => ?_
  · have hview : (v.register s t).view k =
        { (v.view k).setStage s .registered with session := some s, newest := some s } := by
      refine View.ext ?_ rfl ?_ rfl rfl ?_ rfl rfl
      · simp [Server.view, Server.register, hk]
      · simp [Server.view, Server.register, hk]
      · rw [← hb]
        exact stage_own (v := booted) (t := { t with stage := .registered }) hk rfl
    rw [hview]
    exact .register s (by rw [stage_eq hk ht, hs]; rfl)
  · refine idle_of (View.ext ?_ rfl ?_ rfl rfl ?_ rfl rfl)
    · simp [Server.view, Server.register, Function.update_of_ne (Ne.symm hk), Server.setStage,
        Server.setTask, Server.mapTasks]
    · simp [Server.view, Server.register, Function.update_of_ne (Ne.symm hk), Server.setStage,
        Server.setTask, Server.mapTasks]
    · rw [← hb]
      have htb : ∃ killed, booted.tasks s = some { t with killed } := by
        by_cases h : v.sessions t.ticket.key = some s
        · exact ⟨true, by simp [booted, Server.mapTasks, ht, h]⟩
        · exact ⟨t.killed, by simp [booted, Server.mapTasks, ht, h]⟩
      obtain ⟨killed, htb⟩ := htb
      funext other
      by_cases ho : other = s
      · subst ho
        simp [Server.view, Server.register, Server.setStage, Server.setTask, htb, Task.view, hk]
      · simp [Server.view, Server.register, Server.setStage, Server.setTask, ho, booted]

theorem registerMove_view (ht : v.tasks s = some t) (hs : t.stage = .registered) :
    View.Step (v.view k) (if t.ticket.key = k then .advance s else .other)
      ((v.registerMove s t).view k) := by
  refine step_of_key (fun hk => ?_) fun hk => ?_
  · have hview : (v.registerMove s t).view k =
        { (v.view k).setStage s .movable with moveSender := some s } := by
      refine View.ext rfl ?_ rfl rfl rfl (stage_own (t := { t with stage := .movable }) hk rfl) rfl
        rfl
      simp [Server.view, Server.registerMove, hk]
    rw [hview]
    exact .registerMove s (by rw [stage_eq hk ht, hs]; rfl)
  · refine idle_of (View.ext rfl ?_ rfl rfl rfl (stage_foreign hk ht rfl) rfl rfl)
    simp [Server.view, Server.registerMove, Function.update_of_ne (Ne.symm hk), Server.setStage,
      Server.setTask]

variable {j : Joined}

theorem unregister_view (ht : v.tasks s = some t) (hs : t.stage = .cleanup j .session) :
    View.Step (v.view k) (if t.ticket.key = k then .advance s else .other)
      ((v.unregister s t j).view k) := by
  refine step_of_key (fun hk => ?_) fun hk => ?_
  · have hview : (v.unregister s t j).view k =
        { (v.view k).setStage s (.cleanup j .moveSender) with session := none } := by
      refine View.ext ?_ rfl rfl rfl rfl
        (stage_own (t := { t with stage := .cleanup j .moveSender }) hk rfl) rfl rfl
      simp [Server.view, Server.unregister, hk]
    rw [hview]
    exact .unregister s j (by rw [stage_eq hk ht, hs]; rfl)
  · refine idle_of (View.ext ?_ rfl rfl rfl rfl (stage_foreign hk ht rfl) rfl rfl)
    simp [Server.view, Server.unregister, Function.update_of_ne (Ne.symm hk), Server.setStage,
      Server.setTask]

theorem unregisterMove_view (ht : v.tasks s = some t) (hs : t.stage = .cleanup j .moveSender) :
    View.Step (v.view k) (if t.ticket.key = k then .advance s else .other)
      ((v.unregisterMove s t j).view k) := by
  refine step_of_key (fun hk => ?_) fun hk => ?_
  · have hview : (v.unregisterMove s t j).view k =
        { (v.view k).setStage s (.cleanup j .findOutputs) with moveSender := none } := by
      refine View.ext rfl ?_ rfl rfl rfl
        (stage_own (t := { t with stage := .cleanup j .findOutputs }) hk rfl) rfl rfl
      simp [Server.view, Server.unregisterMove, hk]
    rw [hview]
    exact .unregisterMove s j (by rw [stage_eq hk ht, hs]; rfl)
  · refine idle_of (View.ext rfl ?_ rfl rfl rfl (stage_foreign hk ht rfl) rfl rfl)
    simp [Server.view, Server.unregisterMove, Function.update_of_ne (Ne.symm hk), Server.setStage,
      Server.setTask]

theorem findOutputs_view (ht : v.tasks s = some t) (hs : t.stage = .cleanup j .findOutputs) :
    View.Step (v.view k) (if t.ticket.key = k then .advance s else .other)
      ((v.findOutputs s t j).view k) := by
  unfold Server.findOutputs
  cases hst : v.rooms.lookup t.ticket.channelId with
  | some st =>
      refine step_of_key (fun hk => ?_) fun hk => idle_of (setStage_foreign hk ht)
      rw [setStage_own hk]
      refine .findOutputs s j _ (st.view k.1) (by rw [stage_eq hk ht, hs]; rfl) ?_ rfl
      subst hk
      simp [Server.view, Ticket.key, hst]
  | none =>
      refine step_of_key (fun hk => ?_) fun hk => idle_of (setStage_foreign hk ht)
      rw [setStage_own hk]
      refine .noOutputs s j (by rw [stage_eq hk ht, hs]; rfl) ?_
      subst hk
      simp [Server.view, Ticket.key, hst]

variable {o : OutputsId} {f : AList (fun _ : UserId => ℕ)}

/-- An output map of the user's channel changes at the user only. -/
theorem output_foreign (ho : o.1 = t.ticket.channelId) (hk : t.ticket.key ≠ k)
    (hf : ∀ user, user ≠ t.ticket.userId → f.lookup user = (v.outputs o).lookup user) :
    (fun n => (Function.update v.outputs o f (k.2, n)).lookup k.1) =
      fun n => (v.outputs (k.2, n)).lookup k.1 := by
  funext n
  by_cases h : (k.2, n) = o
  · subst h
    rw [Function.update_self]
    refine hf k.1 fun hu => hk ?_
    exact Prod.ext hu.symm ho.symm
  · rw [Function.update_of_ne h]

theorem output_own (ho : o.1 = t.ticket.channelId) (hk : t.ticket.key = k) :
    (fun n => (Function.update v.outputs o f (k.2, n)).lookup k.1) =
      Function.update (v.view k).output o.2 (f.lookup t.ticket.userId) := by
  subst hk
  funext n
  by_cases h : n = o.2
  · subst h
    have hn : (t.ticket.key.2, o.2) = o := Prod.ext ho.symm rfl
    rw [hn, Function.update_self, Function.update_self]
    rfl
  · have hn : (t.ticket.key.2, n) ≠ o := fun he => h (congrArg Prod.snd he)
    rw [Function.update_of_ne hn, Function.update_of_ne h]
    rfl

theorem subscribe_view (hv : v.Wellformed) (ht : v.tasks s = some t) (hs : t.stage = .joined j) :
    View.Step (v.view k) (if t.ticket.key = k then .advance s else .other)
      ((v.subscribe s t j).view k) := by
  have ho := (hv.keeps s t j ht (by rw [hs]; rfl)).outputs
  refine step_of_key (fun hk => ?_) fun hk => ?_
  · have hview : (v.subscribe s t j).view k =
        { (v.view k).setStage s (.subscribed j) with
          output := Function.update (v.view k).output j.outputs.2 (some s) } := by
      refine View.ext rfl rfl rfl rfl ?_
        (stage_own (t := { t with stage := .subscribed j }) hk rfl) rfl rfl
      refine (output_own ho hk).trans ?_
      rw [AList.lookup_insert]
    rw [hview]
    exact .subscribe s j (by rw [stage_eq hk ht, hs]; rfl)
  · refine idle_of (View.ext rfl rfl rfl rfl ?_ (stage_foreign hk ht rfl) rfl rfl)
    exact output_foreign ho hk fun user hu => AList.lookup_insert_ne hu

theorem unsubscribe_view (hv : v.Wellformed) (ht : v.tasks s = some t)
    (hs : t.stage = .cleanup j (.output o)) :
    View.Step (v.view k) (if t.ticket.key = k then .advance s else .other)
      ((v.unsubscribe s t j o).view k) := by
  have ho := (hv.keeps s t j ht (by rw [hs]; rfl)).found o hs
  refine step_of_key (fun hk => ?_) fun hk => ?_
  · have hview : (v.unsubscribe s t j o).view k =
        { (v.view k).setStage s (.cleanup j .room) with
          output := Function.update (v.view k).output o.2 none } := by
      refine View.ext rfl rfl rfl rfl ?_
        (stage_own (t := { t with stage := .cleanup j .room }) hk rfl) rfl rfl
      refine (output_own ho hk).trans ?_
      rw [AList.lookup_erase]
    rw [hview]
    exact .unsubscribe s j o (by rw [stage_eq hk ht, hs]; rfl)
  · refine idle_of (View.ext rfl rfl rfl rfl ?_ (stage_foreign hk ht rfl) rfl rfl)
    exact output_foreign ho hk fun user hu => AList.lookup_erase_ne hu

theorem key_ne (hk : t.ticket.key ≠ k) (hc : k.2 = t.ticket.channelId) : k.1 ≠ t.ticket.userId :=
  fun hu => hk (Prod.ext hu.symm hc.symm)

theorem joinOld_view {st : RoomState} (ht : v.tasks s = some t) (hs : t.stage = .movable)
    (hst : v.rooms.lookup t.ticket.channelId = some st) :
    View.Step (v.view k) (if t.ticket.key = k then .advance s else .other)
      ((v.joinRoom s t).view k) := by
  rw [joinRoom_of_some hst]
  refine step_of_key (fun hk => ?_) fun hk => ?_
  · have hroom : (v.view k).room = some (st.view k.1) := by
      subst hk
      simp [Server.view, Ticket.key, hst]
    have hstep := View.Step.join s ⟨v.nextNonce, st.userOutputSenders⟩ _
      (by rw [stage_eq hk ht, hs]; rfl) hroom rfl rfl
    refine hstep.to (View.ext rfl rfl rfl ?_ rfl ?_ rfl rfl)
    · subst hk
      simp [Server.view, Ticket.key, RoomState.view, RoomState.join]
    · exact (stage_own (t := { t with stage := .joined ⟨v.nextNonce, st.userOutputSenders⟩ })
        hk rfl)
  · have hstep := View.Step.clock (w := v.view k) (v.nextNonce + 1) v.nextOutputs (Nat.le_succ _)
      le_rfl
    refine hstep.to (View.ext rfl rfl rfl ?_ rfl (stage_foreign hk ht rfl) rfl rfl)
    by_cases hc : k.2 = t.ticket.channelId
    · have hu := key_ne hk hc
      obtain ⟨user, channel⟩ := k
      subst hc
      simp [Server.view, hst, RoomState.view, RoomState.join, hu]
    · simp [Server.view, AList.lookup_insert_ne hc]

theorem joinNew_view (ht : v.tasks s = some t) (hs : t.stage = .movable)
    (hst : v.rooms.lookup t.ticket.channelId = none) :
    View.Step (v.view k) (if t.ticket.key = k then .advance s else .other)
      ((v.joinRoom s t).view k) := by
  rw [joinRoom_of_none hst]
  refine step_of_key (fun hk => ?_) fun hk => ?_
  · have hroom : (v.view k).room = none := by
      subst hk
      simp [Server.view, Ticket.key, hst]
    have hstep := View.Step.joinNew s ⟨v.nextNonce, (t.ticket.channelId, v.nextOutputs)⟩
      (by rw [stage_eq hk ht, hs]; rfl) hroom rfl rfl
    refine hstep.to (View.ext rfl rfl rfl ?_ ?_ ?_ rfl rfl)
    · subst hk
      simp [Server.view, Ticket.key, RoomState.view, RoomState.join, RoomState.empty]
    · exact output_own (o := (t.ticket.channelId, v.nextOutputs)) rfl hk
    · exact (stage_own
        (t := { t with stage := .joined ⟨v.nextNonce, (t.ticket.channelId, v.nextOutputs)⟩ })
        hk rfl)
  · by_cases hc : k.2 = t.ticket.channelId
    · have hu := key_ne hk hc
      obtain ⟨user, channel⟩ := k
      subst hc
      have hroom : (v.view (user, t.ticket.channelId)).room = none := by simp [Server.view, hst]
      have hstep := View.Step.created (v.nextNonce + 1) (Nat.le_succ _) hroom
      refine hstep.to (View.ext rfl rfl rfl ?_ ?_ (stage_foreign hk ht rfl) rfl rfl)
      · simp [Server.view, RoomState.view, RoomState.join, RoomState.empty, hu]
      · funext n
        by_cases hn : n = v.nextOutputs
        · subst hn
          simp [Server.view]
        · have hne : (t.ticket.channelId, n) ≠ (t.ticket.channelId, v.nextOutputs) := fun h =>
            hn (congrArg Prod.snd h)
          simp [Server.view, Function.update_of_ne hn, Function.update_of_ne hne, Server.setStage,
            Server.setTask]
    · have hstep := View.Step.clock (w := v.view k) (v.nextNonce + 1) (v.nextOutputs + 1)
        (Nat.le_succ _) (Nat.le_succ _)
      refine hstep.to (View.ext rfl rfl rfl ?_ ?_ (stage_foreign hk ht rfl) rfl rfl)
      · simp [Server.view, AList.lookup_insert_ne hc]
      · funext n
        have hne : (k.2, n) ≠ (t.ticket.channelId, v.nextOutputs) := fun h =>
          hc (congrArg Prod.fst h)
        simp [Server.view, Function.update_of_ne hne, Server.setStage, Server.setTask]

theorem joinRoom_view (ht : v.tasks s = some t) (hs : t.stage = .movable) :
    View.Step (v.view k) (if t.ticket.key = k then .advance s else .other)
      ((v.joinRoom s t).view k) := by
  cases hst : v.rooms.lookup t.ticket.channelId with
  | some st => exact joinOld_view ht hs hst
  | none => exact joinNew_view ht hs hst

/-- Where the user leaves the room, another user sees it go or sees nothing. -/
theorem leave_foreign (hv : v.Wellformed) (hk : t.ticket.key ≠ k) (ht : v.tasks s = some t) :
    View.Step (v.view k) .other ((v.leaveRoom s t j).view k) := by
  have hidle : View.Step (v.view k) .other ((v.setStage s t .finished).view k) :=
    idle_of (setStage_foreign hk ht)
  unfold Server.leaveRoom
  dsimp only
  cases hst : v.rooms.lookup t.ticket.channelId with
  | none => exact hidle
  | some st =>
      dsimp only
      split
      · exact hidle
      by_cases hc : k.2 = t.ticket.channelId
      · have hu := key_ne hk hc
        obtain ⟨user, channel⟩ := k
        subst hc
        have hroom : (v.view (user, t.ticket.channelId)).room = some (st.view user) := by
          simp [Server.view, hst]
        split
        · rename_i hempty
          have hmem : user ∉ st.members := fun hmem => by
            have : user ∈ (st.remove t.ticket.userId).members :=
              Finset.mem_erase.mpr ⟨hu, hmem⟩
            rw [hempty] at this
            exact absurd this (Finset.notMem_empty _)
          have hnonce : (st.view user).nonce = none := by
            have := mt ((hv.room _ st hst).nonce user).mp hmem
            simpa [RoomState.view] using this
          refine (View.Step.dropped _ hroom hnonce).to
            (View.ext rfl rfl rfl ?_ rfl (stage_foreign hk ht rfl) rfl rfl)
          simp [Server.view]
        · refine idle_of (View.ext rfl rfl rfl ?_ rfl (stage_foreign hk ht rfl) rfl rfl)
          simp [Server.view, hst, RoomState.view, RoomState.remove, hu]
      · split
        · refine idle_of (View.ext rfl rfl rfl ?_ rfl (stage_foreign hk ht rfl) rfl rfl)
          simp [Server.view, AList.lookup_erase_ne hc]
        · refine idle_of (View.ext rfl rfl rfl ?_ rfl (stage_foreign hk ht rfl) rfl rfl)
          simp [Server.view, AList.lookup_insert_ne hc]

theorem leave_own (hk : t.ticket.key = k) (ht : v.tasks s = some t)
    (hs : t.stage = .cleanup j .room) :
    View.Step (v.view k) (.advance s) ((v.leaveRoom s t j).view k) := by
  subst hk
  have hstage : (v.view t.ticket.key).stage s = some (.cleanup j .room) := by
    rw [stage_eq rfl ht, hs]
    rfl
  have hroom : (v.view t.ticket.key).room =
      (v.rooms.lookup t.ticket.channelId).map (·.view t.ticket.userId) := rfl
  have hdone : ∀ v' : Server, v'.sessions = v.sessions → v'.moveSenders = v.moveSenders →
      v'.newest = v.newest → v'.outputs = v.outputs → v'.nextNonce = v.nextNonce →
      v'.nextOutputs = v.nextOutputs →
      v'.tasks = Function.update v.tasks s (some { t with stage := .finished }) →
      View.Left (v.view t.ticket.key) j
        ((v'.rooms.lookup t.ticket.channelId).map (·.view t.ticket.userId)) →
      View.Step (v.view t.ticket.key) (.advance s) (v'.view t.ticket.key) := by
    intro v' h₁ h₂ h₃ h₄ h₅ h₆ htasks hleft
    refine (View.Step.leaveRoom s j _ hstage hleft).to
      (View.ext (congrFun h₁ _) (congrFun h₂ _) (congrFun h₃ _) rfl ?_
        (stage_own (t := { t with stage := .finished }) rfl htasks) h₅ h₆)
    simp only [Server.view, h₄]
    rfl
  unfold Server.leaveRoom
  dsimp only
  cases hst : v.rooms.lookup t.ticket.channelId with
  | none =>
      rw [hst] at hroom
      refine hdone _ rfl rfl rfl rfl rfl rfl rfl ?_
      simpa [hst, Server.setStage, Server.setTask] using View.Left.gone hroom
  | some st =>
      rw [hst] at hroom
      dsimp only
      split
      · rename_i hn
        refine hdone _ rfl rfl rfl rfl rfl rfl rfl ?_
        simpa [hst, Server.setStage, Server.setTask] using View.Left.newer _ hroom hn
      · rename_i hn
        have hn : st.sessionNonces t.ticket.userId = some j.nonce := not_not.mp hn
        split
        · refine hdone _ rfl rfl rfl rfl rfl rfl rfl ?_
          simpa using View.Left.disposed _ hroom hn
        · refine hdone _ rfl rfl rfl rfl rfl rfl rfl ?_
          have hleft := View.Left.left _ hroom hn
          simpa [RoomState.view, RoomState.remove] using hleft

theorem leaveRoom_view (hv : v.Wellformed) (ht : v.tasks s = some t)
    (hs : t.stage = .cleanup j .room) :
    View.Step (v.view k) (if t.ticket.key = k then .advance s else .other)
      ((v.leaveRoom s t j).view k) :=
  step_of_key (fun hk => leave_own hk ht hs) fun hk => leave_foreign hv hk ht

theorem advance_view (hv : v.Wellformed) (ht : v.tasks s = some t)
    (hstep : v.advance s t = some v') :
    View.Step (v.view k) (if t.ticket.key = k then .advance s else .other) (v'.view k) := by
  unfold Server.advance at hstep
  split at hstep <;> cases hstep
  case h_1 hs => exact register_view ht hs
  case h_2 hs => exact registerMove_view ht hs
  case h_3 hs => exact joinRoom_view ht hs
  case h_4 j hs => exact subscribe_view hv ht hs
  case h_5 j hs => exact unregister_view ht hs
  case h_6 j hs => exact unregisterMove_view ht hs
  case h_7 j hs => exact findOutputs_view ht hs
  case h_8 j o hs => exact unsubscribe_view hv ht hs
  case h_9 j hs => exact leaveRoom_view hv ht hs

/-- Every step of the server is a step of the view of every key. -/
theorem step_view (hv : v.Wellformed) {i : Input} (hstep : v.step i = some v') :
    View.Step (v.view k) (v.actOf k i) (v'.view k) := by
  by_cases hi : i.passive
  · have hact : v.actOf k i = .other := by
      cases i <;> first | rfl | exact hi.elim
    rw [hact]
    exact idle_of (same_of_passive hv hi hstep).view_eq
  cases i with
  | connect ticket =>
      cases hstep
      exact connect_view hv ticket
  | advance s =>
      obtain ⟨t, ht, h⟩ := Option.bind_eq_some_iff.mp hstep
      simpa [Server.actOf, ht] using advance_view hv ht h
  | openStream s opening =>
      obtain ⟨t, j, ht, hs, rfl⟩ := openStream_cases hstep
      have hstage : t.ticket.key = k → (v.view k).stage s = some (.subscribed j) := fun hk => by
        rw [stage_eq hk ht, hs]
        rfl
      simp only [Server.actOf, ht, Option.any_some, decide_eq_true_eq]
      cases opening with
      | opened =>
          refine step_of_key (fun hk => ?_) fun hk => idle_of (setStage_foreign hk ht)
          exact (View.Step.opened s j (hstage hk)).to (setStage_own hk)
      | failed =>
          refine step_of_key (fun hk => ?_) fun hk => idle_of (setStage_foreign hk ht)
          exact (View.Step.failed s j (hstage hk)).to (setStage_own hk)
      | aborted =>
          refine step_of_key (fun hk => ?_) fun hk => idle_of (setStage_foreign hk ht)
          exact (View.Step.aborted s j (hstage hk)).to (setStage_own hk)
  | kill s =>
      obtain ⟨t, j, ht, hs, -, rfl⟩ := kill_cases hstep
      simp only [Server.actOf, ht, Option.any_some, decide_eq_true_eq]
      refine step_of_key (fun hk => ?_) fun hk => idle_of (setStage_foreign hk ht)
      refine (View.Step.kill s j ?_).to (setStage_own hk)
      rw [stage_eq hk ht, hs]
      rfl
  | leave s cause =>
      obtain ⟨t, j, ht, hs, rfl⟩ := leave_cases hstep
      simp only [Server.actOf, ht, Option.any_some, decide_eq_true_eq]
      refine step_of_key (fun hk => ?_) fun hk => idle_of (setStage_foreign hk ht)
      refine (View.Step.leave s j ?_).to (setStage_own hk)
      rw [stage_eq hk ht, hs]
      rfl
  | _ => exact absurd trivial hi

end Server

end SpecterComs.MediaServer
