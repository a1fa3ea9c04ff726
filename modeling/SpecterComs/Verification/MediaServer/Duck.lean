import SpecterComs.Verification.MediaServer.Mute

/-! # Duck signals

The priority speaker a room stores is the one its listeners were told of, as long as no
speaker leaves a room that stays, and no cascade meets a descendant that is not in step.
-/

namespace SpecterComs.MediaServer

/-! ## What the listeners of a room know -/

/-- The speaker the listeners duck for after the messages. -/
def ducked (msgs : List RosterMessage) : Option UserId :=
  msgs.foldl (fun speaker msg =>
    match msg with
    | .duck user _ => some user
    | .duckRelease => none
    | _ => speaker) none

/-- What may be sent while the listeners duck for a speaker: no other speaker's duck, and not
that this one left. -/
def RosterMessage.follows (msg : RosterMessage) (speaker : Option UserId) : Prop :=
  match msg with
  | .duck user _ => speaker = none ∨ speaker = some user
  | .leave _ user => speaker ≠ some user
  | _ => True

/-- Every duck is followed by its release before another speaker's duck and before its speaker
leaves. -/
def Orderly (msgs : List RosterMessage) : Prop :=
  ∀ before msg after, msgs = before ++ msg :: after → msg.follows (ducked before)

theorem ducked_snoc (msgs : List RosterMessage) (msg : RosterMessage) :
    ducked (msgs ++ [msg]) =
      match msg with
      | .duck user _ => some user
      | .duckRelease => none
      | _ => ducked msgs := by
  rw [ducked, List.foldl_append]
  rfl

variable {msgs : List RosterMessage}

theorem orderly_snoc {msg : RosterMessage} (h : Orderly msgs) (hmsg : msg.follows (ducked msgs)) :
    Orderly (msgs ++ [msg]) := by
  intro before last after heq
  rcases List.eq_nil_or_concat after with rfl | ⟨front, x, rfl⟩
  · obtain ⟨rfl, hlast⟩ := List.append_inj' heq rfl
    obtain rfl : msg = last := by simpa using hlast
    exact hmsg
  · rw [List.concat_eq_append, ← List.cons_append, ← List.append_assoc] at heq
    obtain ⟨hfront, -⟩ := List.append_inj' heq rfl
    exact h before last front hfront

namespace RoomState

structure DuckConsistent (st : RoomState) : Prop where
  speaker : st.prioritySpeaker = ducked st.roster
  orderly : Orderly st.roster

variable {st : RoomState}

/-- Messages that neither duck nor release, and nobody's leaving. -/
def Silent : RosterMessage → Prop
  | .duck _ _ | .duckRelease | .leave _ _ => False
  | _ => True

theorem DuckConsistent.of_append {st' : RoomState} (h : st.DuckConsistent)
    (hmsgs : ∀ msg ∈ msgs, Silent msg) (hroster : st'.roster = st.roster ++ msgs)
    (hspeaker : st'.prioritySpeaker = st.prioritySpeaker) : st'.DuckConsistent := by
  suffices hs : ducked (st.roster ++ msgs) = ducked st.roster ∧ Orderly (st.roster ++ msgs) by
    constructor
    · rw [hspeaker, hroster, hs.1]
      exact h.speaker
    · rw [hroster]
      exact hs.2
  clear hroster
  induction msgs using List.reverseRecOn with
  | nil => exact ⟨by rw [List.append_nil], by rw [List.append_nil]; exact h.orderly⟩
  | append_singleton front msg ih =>
      obtain ⟨hducked, horderly⟩ := ih fun m hm => hmsgs m (List.mem_append_left _ hm)
      have hsilent := hmsgs msg (List.mem_append_right _ (List.mem_singleton_self _))
      rw [← List.append_assoc]
      cases msg with
      | duck | duckRelease | leave => exact hsilent.elim
      | _ => exact ⟨by rw [ducked_snoc]; exact hducked, orderly_snoc horderly trivial⟩

theorem DuckConsistent.empty (outputs : OutputsId) : (RoomState.empty outputs).DuckConsistent :=
  ⟨rfl, fun before msg after h => by simp [RoomState.empty] at h⟩

theorem DuckConsistent.join (h : st.DuckConsistent) (t : Ticket) (nonce : ℕ) :
    (st.join t nonce).DuckConsistent :=
  h.of_append (by simp [Silent]) rfl rfl

variable {user : UserId}

/-- A user leaves who is not the speaker. -/
theorem DuckConsistent.remove (h : st.DuckConsistent) (hne : st.prioritySpeaker ≠ some user) :
    (st.remove user).DuckConsistent := by
  have hspeaker : (st.remove user).prioritySpeaker = st.prioritySpeaker := if_neg hne
  constructor
  · rw [hspeaker, h.speaker]
    exact (ducked_snoc _ (.leave _ user)).symm
  · exact orderly_snoc h.orderly (h.speaker ▸ hne)

theorem DuckConsistent.sweep (h : st.DuckConsistent) (now : ℕ) : (st.sweep now).DuckConsistent := by
  unfold RoomState.sweep
  split
  · exact ⟨(ducked_snoc _ .duckRelease).symm, orderly_snoc h.orderly trivial⟩
  · exact h

/-- The speaker takes the slot and announces it. -/
theorem DuckConsistent.announce (h : st.DuckConsistent) {now level : ℕ}
    (hfree : st.prioritySpeaker = none ∨ st.prioritySpeaker = some user) :
    ((st.setSpeaker user now).send [.duck user level]).DuckConsistent := by
  refine ⟨(ducked_snoc _ (.duck user level)).symm, orderly_snoc h.orderly ?_⟩
  rw [h.speaker] at hfree
  exact hfree

/-- The speaker that holds the slot renews it. -/
theorem DuckConsistent.renew (h : st.DuckConsistent) {now : ℕ}
    (hown : st.prioritySpeaker = some user) : ((st.setSpeaker user now).send []).DuckConsistent :=
  h.of_append (by simp) rfl hown.symm

end RoomState

namespace Server

variable {v v' : Server} {s : ℕ} {t : Task}

def DuckConsistent (v : Server) : Prop :=
  ∀ channel st, v.rooms.lookup channel = some st → st.DuckConsistent

/-- The speaker does not leave a room that stays, and a cascade meets descendants that are
free or the speaker's own, or only its own where it announces nothing. -/
def ducksInStep (v : Server) : Input → Bool
  | .advance s => (v.tasks s).all fun t =>
      match t.stage with
      | .cleanup j .room => (v.rooms.lookup t.ticket.channelId).all fun st =>
          st.sessionNonces t.ticket.userId ≠ some j.nonce ||
            st.prioritySpeaker ≠ some t.ticket.userId ||
              (st.remove t.ticket.userId).members = ∅
      | _ => true
  | .relay s _ => (v.tasks s).all fun t =>
      match t.stage with
      | .running _ (some (.duck _ descendants)) =>
          (v.rooms.lookup t.ticket.channelId).all fun st =>
            descendants.all fun d => (v.rooms.lookup d).all fun below =>
              below.prioritySpeaker = some t.ticket.userId ||
                (st.prioritySpeaker = none && below.prioritySpeaker = none) ||
                  (st.prioritySpeaker ≠ none && st.prioritySpeaker ≠ some t.ticket.userId)
      | _ => true
  | _ => true

/-! ## One step -/

theorem DuckConsistent.of_eq (h : v.DuckConsistent) (hrooms : v'.rooms = v.rooms) :
    v'.DuckConsistent := by
  unfold DuckConsistent
  rw [hrooms]
  exact h

variable {channel : ChannelId} {f : RoomState → RoomState}

theorem DuckConsistent.modify (h : v.DuckConsistent)
    (hrooms : v'.rooms = v.rooms.modify channel f)
    (hf : ∀ st, v.rooms.lookup channel = some st → st.DuckConsistent → (f st).DuckConsistent) :
    v'.DuckConsistent := by
  intro c st' hst'
  rw [hrooms, Rooms.lookup_modify] at hst'
  split at hst'
  · obtain ⟨st, hst, rfl⟩ := Option.map_eq_some_iff.mp hst'
    exact hf st hst (h channel st hst)
  · exact h c st' hst'

variable {st : RoomState}

theorem DuckConsistent.insert (h : v.DuckConsistent)
    (hrooms : v'.rooms = v.rooms.insert channel st) (hst : st.DuckConsistent) :
    v'.DuckConsistent := by
  intro c st' hst'
  rw [hrooms] at hst'
  by_cases hc : c = channel
  · subst hc
    rw [AList.lookup_insert] at hst'
    exact Option.some.inj hst' ▸ hst
  · rw [AList.lookup_insert_ne hc] at hst'
    exact h c st' hst'

theorem DuckConsistent.erase (h : v.DuckConsistent) (hrooms : v'.rooms = v.rooms.erase channel) :
    v'.DuckConsistent := by
  intro c st' hst'
  rw [hrooms] at hst'
  by_cases hc : c = channel
  · subst hc
    rw [AList.lookup_erase] at hst'
    exact nomatch hst'
  · rw [AList.lookup_erase_ne hc] at hst'
    exact h c st' hst'

variable {ready : RoomState → Prop}

/-- A cascade over rooms in step. What it needs of a descendant it makes true, so one that
comes twice is no trouble. -/
theorem DuckConsistent.foldl (hf : ∀ st, ready st → st.DuckConsistent → (f st).DuckConsistent)
    (hready : ∀ st, ready (f st)) (descendants : List ChannelId) {rooms : Rooms}
    (h : DuckConsistent { v with rooms })
    (hall : ∀ d ∈ descendants, ∀ st, rooms.lookup d = some st → ready st)
    (hrooms : v'.rooms = descendants.foldl (fun rooms d => Rooms.modify rooms d f) rooms) :
    v'.DuckConsistent := by
  induction descendants generalizing rooms with
  | nil => exact h.of_eq hrooms
  | cons d rest ih =>
      have hmod : DuckConsistent { v with rooms := Rooms.modify rooms d f } :=
        h.modify rfl fun st hst => hf st (hall d List.mem_cons_self st hst)
      refine ih hmod (fun other hother st hst => ?_) hrooms
      rw [Rooms.lookup_modify] at hst
      split at hst
      · obtain ⟨before, -, rfl⟩ := Option.map_eq_some_iff.mp hst
        exact hready before
      · exact hall other (List.mem_cons_of_mem _ hother) st hst

variable {descendants : List ChannelId}

/-- A speaker's room and its descendants. -/
theorem DuckConsistent.cascade (h : v.DuckConsistent) (hst : v.rooms.lookup channel = some st)
    (hf : ∀ st, ready st → st.DuckConsistent → (f st).DuckConsistent)
    (hready : ∀ st, ready (f st)) (hown : ready st)
    (hbelow : ∀ d ∈ descendants, ∀ below, v.rooms.lookup d = some below → ready below)
    (hrooms : v'.rooms = descendants.foldl (fun rooms d => Rooms.modify rooms d f) (v.rooms.modify channel f)) :
    v'.DuckConsistent := by
  have hmod : DuckConsistent { v with rooms := v.rooms.modify channel f } := by
    refine h.modify rfl fun st' hst' hok => hf st' ?_ hok
    rw [hst] at hst'
    exact Option.some.inj hst' ▸ hown
  refine hmod.foldl (v := v) hf hready descendants (fun d hd below hlookup => ?_) hrooms
  rw [Rooms.lookup_modify] at hlookup
  split at hlookup
  · obtain ⟨before, -, rfl⟩ := Option.map_eq_some_iff.mp hlookup
    exact hready before
  · exact hbelow d hd below hlookup

/-- The descendants of a speaker that takes the slot or renews it. -/
def Below (v : Server) (st : RoomState) (user : UserId) (descendants : List ChannelId) : Prop :=
  ∀ d ∈ descendants, ∀ below, v.rooms.lookup d = some below →
    below.prioritySpeaker = some user ∨ st.prioritySpeaker = none ∧ below.prioritySpeaker = none

variable {now level : ℕ}

theorem DuckConsistent.duckRooms (h : v.DuckConsistent) {user : UserId}
    (hbelow : ∀ st, v.rooms.lookup channel = some st → st.prioritySpeaker = none ∨ st.prioritySpeaker = some user → v.Below st user descendants)
    (hrooms : v'.rooms = v.duckRooms channel user level descendants now) : v'.DuckConsistent := by
  unfold Server.duckRooms at hrooms
  cases hst : v.rooms.lookup channel with
  | none =>
      rw [hst] at hrooms
      exact h.of_eq hrooms
  | some st =>
      simp only [hst] at hrooms
      split at hrooms
      · rename_i hslot
        have hdesc := hbelow st hst hslot
        by_cases hfree : st.prioritySpeaker = none
        · simp only [hfree, if_true] at hrooms
          exact h.cascade hst
            (fun st (hr : st.prioritySpeaker = none ∨ st.prioritySpeaker = some user) hok =>
              hok.announce hr) (fun st => .inr rfl) (.inl hfree)
            (fun d hd below hlookup => (hdesc d hd below hlookup).symm.imp_left And.right) hrooms
        · have hmine : st.prioritySpeaker = some user := hslot.resolve_left hfree
          simp only [if_neg hfree] at hrooms
          exact h.cascade hst
            (fun st (hr : st.prioritySpeaker = some user) hok => hok.renew hr) (fun st => rfl) hmine
            (fun d hd below hlookup =>
              (hdesc d hd below hlookup).resolve_right fun h => hfree h.1) hrooms
      · exact h.of_eq hrooms

theorem DuckConsistent.joinRoom (h : v.DuckConsistent) : (v.joinRoom s t).DuckConsistent := by
  cases hst : v.rooms.lookup t.ticket.channelId with
  | some st =>
      rw [joinRoom_of_some hst]
      exact h.insert rfl ((h _ st hst).join t.ticket _)
  | none =>
      rw [joinRoom_of_none hst]
      exact h.insert rfl (RoomState.DuckConsistent.join (.empty _) t.ticket _)

variable {j : Joined}

theorem DuckConsistent.leaveRoom (h : v.DuckConsistent) (ht : v.tasks s = some t)
    (hs : t.stage = .cleanup j .room) (hg : v.ducksInStep (.advance s)) :
    (v.leaveRoom s t j).DuckConsistent := by
  unfold Server.leaveRoom
  dsimp only
  cases hst : v.rooms.lookup t.ticket.channelId with
  | none => exact h.of_eq rfl
  | some st =>
      dsimp only
      split
      · exact h.of_eq rfl
      · rename_i hn
        split
        · exact h.erase rfl
        · rename_i hstays
          refine h.insert rfl ((h _ st hst).remove fun hspeaker => ?_)
          simp only [ducksInStep, ht, hs, hst, Option.all_some, hspeaker, not_not.mp hn] at hg
          simp at hg
          exact hstays hg

theorem DuckConsistent.advance (h : v.DuckConsistent) (ht : v.tasks s = some t)
    (hg : v.ducksInStep (.advance s)) (hstep : v.advance s t = some v') : v'.DuckConsistent := by
  unfold Server.advance at hstep
  split at hstep <;> cases hstep
  case h_3 => exact h.joinRoom
  case h_7 =>
      unfold Server.findOutputs
      split <;> exact h.of_eq rfl
  case h_9 j hs => exact h.leaveRoom ht hs hg
  all_goals exact h.of_eq rfl

theorem DuckConsistent.readFrame (h : v.DuckConsistent) {broadcast empty : Bool} :
    (v.readFrame s t j broadcast empty now).DuckConsistent := by
  unfold Server.readFrame
  dsimp only
  split
  · exact h
  · split
    · exact h
    · split
      · split <;> exact h.of_eq rfl
      · split
        · exact h
        · split
          · exact h.modify rfl fun _ _ hok => hok.of_append (by simp [RoomState.Silent]) rfl rfl
          · exact h.of_eq rfl

theorem below_of_inStep (ht : v.tasks s = some t)
    (hs : t.stage = .running j (some (.duck level descendants)))
    (hg : v.ducksInStep (.relay s now)) (hst : v.rooms.lookup t.ticket.channelId = some st)
    (hslot : st.prioritySpeaker = none ∨ st.prioritySpeaker = some t.ticket.userId) :
    v.Below st t.ticket.userId descendants := by
  intro d hd below hbelow
  simp only [ducksInStep, ht, hs, hst, Option.all_some, List.all_eq_true] at hg
  have hd := hg d hd
  rw [hbelow] at hd
  obtain hslot | hslot := hslot <;> simp_all

theorem DuckConsistent.step (h : v.DuckConsistent) {i : Input} (hg : v.ducksInStep i)
    (hstep : v.step i = some v') : v'.DuckConsistent := by
  cases i with
  | connect ticket =>
      cases hstep
      exact h.of_eq rfl
  | advance s =>
      obtain ⟨t, ht, hadvance⟩ := Option.bind_eq_some_iff.mp hstep
      exact h.advance ht hg hadvance
  | openStream s opening =>
      obtain ⟨t, j, -, -, rfl⟩ := openStream_cases hstep
      cases opening <;> exact h.of_eq rfl
  | kill s =>
      obtain ⟨t, j, -, -, -, rfl⟩ := kill_cases hstep
      exact h.of_eq rfl
  | leave s cause =>
      obtain ⟨t, j, -, -, rfl⟩ := leave_cases hstep
      exact h.of_eq rfl
  | frame s broadcast empty now =>
      obtain ⟨t, ht, hframe⟩ := Option.bind_eq_some_iff.mp hstep
      split at hframe <;> cases hframe
      exact h.readFrame
  | relay s now =>
      obtain ⟨t, ht, hrelay⟩ := Option.bind_eq_some_iff.mp hstep
      split at hrelay <;> cases hrelay
      rename_i j relay hs
      cases relay with
      | duck level descendants =>
          exact h.duckRooms (fun st hst hslot => below_of_inStep ht hs hg hst hslot) rfl
      | _ => exact h.of_eq rfl
  | localMute s muted target =>
      obtain ⟨t, ht, hmute⟩ := Option.bind_eq_some_iff.mp hstep
      split at hmute
      · split at hmute <;> cases hmute
        · exact h
        · exact h.modify rfl fun _ _ hok => ⟨hok.speaker, hok.orderly⟩
      · exact nomatch hmute
  | mute user room | unmute user room =>
      cases room with
      | none =>
          obtain ⟨_, hv'⟩ := Option.ite_none_right_eq_some.mp hstep
          exact Option.some.inj hv' ▸ h
      | some channel =>
          obtain ⟨_, hv'⟩ := Option.ite_none_right_eq_some.mp hstep
          obtain rfl := Option.some.inj hv'
          exact h.modify rfl fun _ _ hok => ⟨hok.speaker, hok.orderly⟩
  | kick user | drainOrg org | move user channel | eventTree channels =>
      cases hstep
      exact h.of_eq rfl
  | sweep channel now =>
      cases hstep
      exact h.modify rfl fun _ _ hok => hok.sweep now

/-! ## Runs -/

/-- In a run whose steps are in step every room stores the speaker its listeners know. -/
theorem ducks_in_step {is : List Input} (h : voice.Guarded (ducksInStep · ·) .init is v) :
    v.DuckConsistent := by
  refine StepSystem.Guarded.invariant (P := DuckConsistent) (fun _ _ _ hv hg hstep =>
    hv.step hg hstep) h ?_
  intro channel st hst
  simp [Server.init] at hst

def commander : Ticket := ⟨"alice", "acme", "ops", "Alice", some 1⟩

def carol : Ticket := ⟨"carol", "acme", "squad", "Carol", none⟩

/-- A priority frame with all its sections. -/
def priorityFrame (s now : ℕ) : List Input :=
  [.frame s false false now, .relay s now, .relay s now, .relay s now]

/-- A commander speaks over a channel and the one below it, is released and leaves. -/
def briefing : List Input :=
  [.eventTree [("ops", none), ("squad", some "ops")]] ++ joins 0 commander ++ joins 1 bob ++
    joins 2 carol ++ priorityFrame 0 0 ++ priorityFrame 0 20 ++ [.sweep "ops" 2000,
      .sweep "squad" 2000] ++ leaves 0

theorem ducks_in_step_briefing :
    DuckConsistent (((voice.restrict ducksInStep).exec .init briefing).get (by decide)) :=
  ducks_in_step (StepSystem.exec_eq_some_iff.mp (Option.some_get _).symm).guarded

/-- A commander speaks and leaves: the room forgets the speaker and its listeners do not. -/
theorem leaving_speaker_keeps_ducking :
    ∃ v, voice.Run .init (joins 0 commander ++ joins 1 bob ++ priorityFrame 0 0 ++ leaves 0) v ∧
      ¬ v.DuckConsistent := by
  let v := (voice.exec .init
    (joins 0 commander ++ joins 1 bob ++ priorityFrame 0 0 ++ leaves 0)).get (by decide)
  have hroom : ((v.rooms.lookup "ops").map fun st => (st.prioritySpeaker, ducked st.roster)) =
      some (none, some "alice") := by decide
  refine ⟨v, StepSystem.exec_eq_some_iff.mp (Option.some_get _).symm, fun h => ?_⟩
  obtain ⟨st, hst, heq⟩ := Option.map_eq_some_iff.mp hroom
  have hspeaker := (h "ops" st hst).speaker
  rw [(Prod.mk.inj heq).1, (Prod.mk.inj heq).2] at hspeaker
  exact nomatch hspeaker

end Server

end SpecterComs.MediaServer
