import Mathlib.Data.List.Pairwise
import SpecterComs.Model.IdentityNode.Friends

/-! # Well-formed friendships

The database keys a pair of users by the order in which a request spells their ids. One pair has one
key only as long as everybody spells an id as the database does.
-/

namespace SpecterComs.Friends

open Uuid (Spelling)

variable {s t : State} {u v : Uuid} {targetId : Spelling} {k : Uuid × Uuid}

/-- The row is one of the two users, in either order. -/
def Friendship.isOf (f : Friendship) (u v : Uuid) : Prop :=
  f.key = (u, v) ∨ f.key = (v, u)

/-- The conversation id of two users. -/
def conversation (u v : Uuid) : Spelling :=
  convId u.write v.write

namespace State

/-- No two rows are of the same users. -/
def onePerPair (s : State) : Prop :=
  s.friendships.Pairwise fun f f' => ¬ f'.isOf f.userA f.userB

/-- Every row was initiated by one of its users. -/
def initiated (s : State) : Prop :=
  ∀ f ∈ s.friendships, ∃ w, f.initiatedBy = some w ∧ (w = f.userA ∨ w = f.userB)

structure Sound (s : State) : Prop where
  onePerPair : s.onePerPair
  initiated : s.initiated

end State

/-- What the message says about the conversation and where it goes. -/
structure Relayed (dm : DirectMessage) (recipient : Uuid) (published : List Publication) : Prop where
  /-- The recipient's stream gets the message. -/
  heard : ∃ message, ⟨streamSubject recipient, .messageRelay dm.me.write message⟩ ∈ published
  conversation : ∀ p ∈ published, ∀ partnerId message,
    p.event = .messageRelay partnerId message ∨ p.event = .raw message →
      message.conversationId = conversation dm.me recipient
  subject : ∀ p ∈ published, ∀ convId, p.subject = .dm convId →
    convId = Friends.conversation dm.me recipient

/-- The turn leaves friendships well formed, and relays a message to a friend as it should. -/
structure Honored (callsigns : Uuid → Option String) (s : State) (turn : Turn) (t : State) :
    Prop where
  onePerPair : t.onePerPair
  /-- A row becomes accepted by a request of the user whom the other one asked. -/
  accepted : ∀ f ∈ t.friendships, f.status = .accepted → f ∈ s.friendships ∨
    ∃ n userId targetId v, turn = .execute n true ∧
      s.waiting n = some (.acceptFriendRequest userId targetId) ∧ Uuid.read targetId = some v ∧
        f.isOf userId v ∧ f.initiatedBy = some v ∧ v ≠ userId
  removed : ∀ n userId targetId v, turn = .execute n true →
    s.waiting n = some (.removeFriend userId targetId) → Uuid.read targetId = some v →
      ∀ f ∈ t.friendships, ¬ f.isOf userId v
  relayed : ∀ n dm v, turn = .execute n true → s.waiting n = some (.sendDirectMessage dm) →
    Uuid.read dm.recipientId = some v → s.areFriends dm.me v = true →
      Relayed dm v (s.published callsigns dm)

/-- If there is a row of the two users, the request computes its key. -/
def State.keyed (s : State) (userId : Uuid) (targetId : Spelling) : Prop :=
  ∀ v, Uuid.read targetId = some v →
    ∀ f ∈ s.friendships, f.isOf userId v → key userId targetId = some f.key

/-- A request that is sent or a friend who is removed is found under the key that the request
computes, and a friend is written to under the id as the database spells it. -/
def State.meets (s : State) : Turn → Prop
  | .execute n true =>
      match s.waiting n with
      | some (.sendFriendRequest userId targetId) | some (.removeFriend userId targetId) =>
          s.keyed userId targetId
      | some (.sendDirectMessage dm) =>
          ∀ v, Uuid.read dm.recipientId = some v → s.areFriends dm.me v = true →
            dm.recipientId = v.write
      | _ => True
  | _ => True

/-! ## Keys -/

variable {f f' : Friendship}

theorem Friendship.isOf_comm : f.isOf u v ↔ f.isOf v u :=
  or_comm

/-- The key of a request is the two users in one order or the other. -/
theorem key_of_read (h : Uuid.read targetId = some v) :
    key u targetId = some (if u.write < targetId then (u, v) else (v, u)) := by
  unfold key userA userB
  by_cases hlt : u.write < targetId
  · simp only [if_pos hlt, h, Uuid.read_write, Option.bind_eq_bind, Option.bind_some]
  · simp only [if_neg hlt, h, Uuid.read_write, Option.bind_eq_bind, Option.bind_some]

/-- A key is computed only where the other id can be read. -/
theorem read_of_key (h : key u targetId = some k) :
    ∃ v, Uuid.read targetId = some v ∧ (k = (u, v) ∨ k = (v, u)) := by
  cases hread : Uuid.read targetId with
  | none =>
      unfold key userA userB at h
      by_cases hlt : u.write < targetId
      · simp [if_pos hlt, hread] at h
      · simp [if_neg hlt, hread] at h
  | some v =>
      rw [key_of_read hread] at h
      obtain rfl := Option.some.inj h
      refine ⟨v, rfl, ?_⟩
      split
      · exact .inl rfl
      · exact .inr rfl

/-! ## Rows of one pair -/

theorem Friendship.isOf_of_isOf (h : f.isOf u v) (h' : f'.isOf u v) : f'.isOf f.userA f.userB := by
  rcases h with h | h
  · obtain ⟨rfl, rfl⟩ := Prod.mk.inj h
    exact h'
  · obtain ⟨rfl, rfl⟩ := Prod.mk.inj h
    exact isOf_comm.mp h'

theorem Friendship.isOf_trans (h : f.isOf f'.userA f'.userB) (h' : f'.isOf u v) : f.isOf u v := by
  rcases h' with h' | h'
  · obtain ⟨rfl, rfl⟩ := Prod.mk.inj h'
    exact h
  · obtain ⟨rfl, rfl⟩ := Prod.mk.inj h'
    exact isOf_comm.mp h

theorem Friendship.isOf_self : f.isOf f.userA f.userB :=
  .inl rfl

theorem State.onePerPair.eq (h : s.onePerPair) (hf : f ∈ s.friendships) (hf' : f' ∈ s.friendships)
    (hof : f.isOf u v) (hof' : f'.isOf u v) : f = f' := by
  by_contra hne
  have hsymm : Std.Symm fun f f' : Friendship => ¬ f'.isOf f.userA f.userB :=
    ⟨fun f f' hnot hof => hnot (Friendship.isOf_of_isOf hof Friendship.isOf_self)⟩
  exact h.forall hf hf' hne (Friendship.isOf_of_isOf hof hof')

/-- An insertion leaves one row of the pair exactly if there is no row under the other key. -/
theorem onePerPair_insert_iff (hs : s.onePerPair) (hk : k = (u, v) ∨ k = (v, u)) :
    (s.insert k u).onePerPair ↔ ∀ f ∈ s.friendships, f.isOf u v → f.key = k := by
  have hnew : ∀ f : Friendship, f.key = k → f.isOf u v := by
    rintro f hkey
    rcases hk with rfl | rfl
    · exact .inl hkey
    · exact .inr hkey
  unfold State.insert
  split
  · rename_i hany
    obtain ⟨f, hf, hkey⟩ := List.any_eq_true.mp hany
    have hkey : f.key = k := of_decide_eq_true hkey
    refine iff_of_true hs fun f' hf' hof => ?_
    rw [hs.eq hf' hf hof (hnew f hkey)]
    exact hkey
  · rename_i hany
    have hnone : ∀ f ∈ s.friendships, f.key ≠ k := fun f hf hkey =>
      hany (List.any_eq_true.mpr ⟨f, hf, decide_eq_true hkey⟩)
    have hself : (⟨k.1, k.2, .pending, some u⟩ : Friendship).isOf u v := hnew _ rfl
    constructor
    · intro hone f hf hof
      have hnot := (List.pairwise_append.mp hone).2.2 f hf _ (List.mem_singleton_self _)
      exact absurd (Friendship.isOf_of_isOf hof hself) hnot
    · intro hall
      refine List.pairwise_append.mpr ⟨hs, List.pairwise_singleton _ _, fun f hf f' hf' hof => ?_⟩
      obtain rfl := List.mem_singleton.mp hf'
      have hsame := Friendship.isOf_of_isOf hof Friendship.isOf_self
      exact hnone f hf (hall f hf (Friendship.isOf_trans hsame hself))

theorem mem_insert (h : f ∈ (s.insert k u).friendships) :
    f ∈ s.friendships ∨ f = ⟨k.1, k.2, .pending, some u⟩ := by
  unfold State.insert at h
  split at h
  · exact .inl h
  · rcases List.mem_append.mp h with h | h
    · exact .inl h
    · exact .inr (List.mem_singleton.mp h)

/-- No pair has two rows after a removal that leaves some rows out, and the others as they were. -/
theorem State.Sound.filter (hs : s.Sound) (p : Friendship → Bool)
    (ht : t.friendships = s.friendships.filter p) : t.Sound where
  onePerPair := by
    unfold State.onePerPair
    rw [ht]
    exact hs.onePerPair.filter p
  initiated f hf := by
    rw [ht] at hf
    exact hs.initiated f (List.mem_filter.mp hf).1

/-- A row keeps its users and who initiated it when it is accepted. -/
theorem State.Sound.map (hs : s.Sound) (p : Friendship → Bool)
    (ht : t.friendships = s.friendships.map fun f =>
      if p f then { f with status := .accepted } else f) : t.Sound where
  onePerPair := by
    unfold State.onePerPair
    rw [ht]
    refine List.pairwise_map.mpr (hs.onePerPair.imp fun hnot => ?_)
    split <;> split <;> exact hnot
  initiated f hf := by
    rw [ht] at hf
    obtain ⟨old, hold, rfl⟩ := List.mem_map.mp hf
    obtain ⟨w, hw⟩ := hs.initiated old hold
    refine ⟨w, ?_⟩
    split <;> exact hw

theorem State.Sound.of_eq (hs : s.Sound) (ht : t.friendships = s.friendships) : t.Sound where
  onePerPair := by
    unfold State.onePerPair
    rw [ht]
    exact hs.onePerPair
  initiated := by
    unfold State.initiated
    rw [ht]
    exact hs.initiated

/-! ## One statement -/

variable {callsigns : Uuid → Option String} {n : ℕ} {req : Request}

/-- Only what the statement's own request asks for has to be shown. -/
theorem Honored.of_request (hwaiting : s.waiting n = some req) (hone : t.onePerPair)
    (haccepted : ∀ f ∈ t.friendships, f.status = .accepted → f ∈ s.friendships ∨
      ∃ userId targetId v, req = .acceptFriendRequest userId targetId ∧
        Uuid.read targetId = some v ∧ f.isOf userId v ∧ f.initiatedBy = some v ∧ v ≠ userId)
    (hremoved : ∀ userId targetId v, req = .removeFriend userId targetId →
      Uuid.read targetId = some v → ∀ f ∈ t.friendships, ¬ f.isOf userId v)
    (hrelayed : ∀ dm v, req = .sendDirectMessage dm → Uuid.read dm.recipientId = some v →
      s.areFriends dm.me v = true → Relayed dm v (s.published callsigns dm)) :
    Honored callsigns s (.execute n true) t where
  onePerPair := hone
  accepted f hf hstatus := by
    rcases haccepted f hf hstatus with hold | ⟨userId, targetId, v, rfl, h⟩
    · exact .inl hold
    · exact .inr ⟨n, userId, targetId, v, rfl, hwaiting, h⟩
  removed n' userId targetId v hturn hreq hread := by
    obtain ⟨rfl, -⟩ := Turn.execute.inj hturn
    exact hremoved userId targetId v (Option.some.inj (hwaiting.symm.trans hreq)) hread
  relayed n' dm v hturn hreq hread hfriends := by
    obtain ⟨rfl, -⟩ := Turn.execute.inj hturn
    exact hrelayed dm v (Option.some.inj (hwaiting.symm.trans hreq)) hread hfriends

variable {turn : Turn}

/-- A turn that makes no statement changes no friendship. -/
theorem Honored.of_eq (hs : s.Sound) (ht : t.friendships = s.friendships)
    (hturn : ∀ n, turn ≠ .execute n true) : Honored callsigns s turn t where
  onePerPair := (hs.of_eq ht).onePerPair
  accepted _ hf _ := .inl (ht ▸ hf)
  removed n _ _ _ hexec := absurd hexec (hturn n)
  relayed n _ _ hexec := absurd hexec (hturn n)

theorem sendFriendRequest_honored (hs : s.Sound)
    (hwaiting : s.waiting n = some (.sendFriendRequest u targetId))
    (ht : t.friendships = (s.execute (.sendFriendRequest u targetId)).1.friendships) :
    (Honored callsigns s (.execute n true) t ↔ s.keyed u targetId) ∧
      (s.keyed u targetId → t.Sound) := by
  cases hkey : key u targetId with
  | none =>
      have hread : Uuid.read targetId = none := by
        cases hread : Uuid.read targetId with
        | none => rfl
        | some v =>
            rw [key_of_read hread] at hkey
            cases hkey
      simp only [State.execute, hkey] at ht
      have hsound := hs.of_eq ht
      refine ⟨iff_of_true ?_ ?_, fun _ => hsound⟩
      · refine Honored.of_request hwaiting hsound.onePerPair (fun f hf _ => .inl (ht ▸ hf)) ?_ ?_
        · intro _ _ _ hreq
          cases hreq
        · intro _ _ hreq
          cases hreq
      · intro v hv
        rw [hread] at hv
        cases hv
  | some k =>
      obtain ⟨v, hread, hk⟩ := read_of_key hkey
      simp only [State.execute, hkey] at ht
      have hkeyed : s.keyed u targetId ↔ ∀ f ∈ s.friendships, f.isOf u v → f.key = k := by
        constructor
        · intro h f hf hof
          exact (Option.some.inj (hkey.symm.trans (h v hread f hf hof))).symm
        · intro h v' hv' f hf hof
          obtain rfl := Option.some.inj (hread.symm.trans hv')
          rw [hkey, h f hf hof]
      have hone : t.onePerPair ↔ s.keyed u targetId := by
        rw [hkeyed, ← onePerPair_insert_iff hs.onePerPair hk]
        unfold State.onePerPair
        rw [ht]
      refine ⟨⟨fun h => hone.mp h.onePerPair, fun h => ?_⟩, fun h => ⟨hone.mpr h, ?_⟩⟩
      · refine Honored.of_request hwaiting (hone.mpr h) ?_ ?_ ?_
        · intro f hf hstatus
          rcases mem_insert (ht ▸ hf) with hold | rfl
          · exact .inl hold
          · cases hstatus
        · intro _ _ _ hreq
          cases hreq
        · intro _ _ hreq
          cases hreq
      · intro f hf
        rcases mem_insert (ht ▸ hf) with hold | rfl
        · exact hs.initiated f hold
        · refine ⟨u, rfl, ?_⟩
          rcases hk with rfl | rfl
          · exact .inl rfl
          · exact .inr rfl

theorem acceptFriendRequest_honored (hs : s.Sound)
    (hwaiting : s.waiting n = some (.acceptFriendRequest u targetId))
    (ht : t.friendships = (s.execute (.acceptFriendRequest u targetId)).1.friendships) :
    Honored callsigns s (.execute n true) t ∧ t.Sound := by
  have hcases : t.friendships = s.friendships ∨ ∃ k, key u targetId = some k ∧
      t.friendships = s.friendships.map fun f =>
        if f.awaits k u then { f with status := .accepted } else f := by
    unfold State.execute at ht
    cases hkey : key u targetId with
    | none =>
        simp only [hkey] at ht
        exact .inl ht
    | some k =>
        simp only [hkey] at ht
        split at ht
        · exact .inr ⟨k, rfl, ht⟩
        · exact .inl ht
  have hsound : t.Sound := by
    rcases hcases with hsame | ⟨k, -, hmap⟩
    · exact hs.of_eq hsame
    · exact hs.map _ hmap
  refine ⟨Honored.of_request hwaiting hsound.onePerPair ?_ ?_ ?_, hsound⟩
  · intro f hf hstatus
    rcases hcases with hsame | ⟨k, hkey, hmap⟩
    · exact .inl (hsame ▸ hf)
    · rw [hmap] at hf
      obtain ⟨old, hold, rfl⟩ := List.mem_map.mp hf
      by_cases hawaits : old.awaits k u = true
      · rw [if_pos hawaits]
        unfold Friendship.awaits at hawaits
        simp only [Bool.and_eq_true, decide_eq_true_eq] at hawaits
        obtain ⟨⟨rfl, -⟩, hother⟩ := hawaits
        obtain ⟨v, hread, hk⟩ := read_of_key hkey
        obtain ⟨w, hw, hmember⟩ := hs.initiated old hold
        have hne : w ≠ u := fun heq => hother (heq ▸ hw)
        have hof : old.isOf u v := hk
        have hwv : w = v := by
          rcases hk with hk | hk
          · obtain ⟨ha, hb⟩ := Prod.mk.inj hk
            rcases hmember with rfl | rfl
            · exact absurd ha hne
            · exact hb
          · obtain ⟨ha, hb⟩ := Prod.mk.inj hk
            rcases hmember with rfl | rfl
            · exact ha
            · exact absurd hb hne
        subst hwv
        exact .inr ⟨u, targetId, w, rfl, hread, hof, hw, hne⟩
      · rw [if_neg hawaits]
        exact .inl hold
  · intro _ _ _ hreq
    cases hreq
  · intro _ _ hreq
    cases hreq

theorem declineFriendRequest_honored (hs : s.Sound)
    (hwaiting : s.waiting n = some (.declineFriendRequest u targetId))
    (ht : t.friendships = (s.execute (.declineFriendRequest u targetId)).1.friendships) :
    Honored callsigns s (.execute n true) t ∧ t.Sound := by
  obtain ⟨p, hp⟩ : ∃ p, t.friendships = s.friendships.filter p := by
    unfold State.execute at ht
    cases hkey : key u targetId with
    | none =>
        simp only [hkey] at ht
        exact ⟨fun _ => true, ht.trans (List.filter_eq_self.mpr fun _ _ => rfl).symm⟩
    | some k =>
        simp only [hkey] at ht
        split at ht
        · exact ⟨_, ht⟩
        · exact ⟨fun _ => true, ht.trans (List.filter_eq_self.mpr fun _ _ => rfl).symm⟩
  have hsound := hs.filter p hp
  refine ⟨Honored.of_request hwaiting hsound.onePerPair ?_ ?_ ?_, hsound⟩
  · intro f hf _
    rw [hp] at hf
    exact .inl (List.mem_filter.mp hf).1
  · intro _ _ _ hreq
    cases hreq
  · intro _ _ hreq
    cases hreq

theorem removeFriend_honored (hs : s.Sound)
    (hwaiting : s.waiting n = some (.removeFriend u targetId))
    (ht : t.friendships = (s.execute (.removeFriend u targetId)).1.friendships) :
    (Honored callsigns s (.execute n true) t ↔ s.keyed u targetId) ∧ t.Sound := by
  have hp : t.friendships = s.friendships.filter fun f => key u targetId ≠ some f.key := by
    unfold State.execute at ht
    cases hkey : key u targetId with
    | none =>
        simp only [hkey] at ht
        simpa using ht
    | some k =>
        simp only [hkey] at ht
        split at ht
        · rw [ht]
          refine List.filter_congr fun f _ => decide_eq_decide.mpr ?_
          rw [Ne, Ne, Option.some.injEq, eq_comm]
        · rename_i hany
          rw [ht]
          refine (List.filter_eq_self.mpr fun f hf => ?_).symm
          refine decide_eq_true fun heq => hany (List.any_eq_true.mpr ⟨f, hf, ?_⟩)
          exact decide_eq_true (Option.some.inj heq).symm
  have hsound := hs.filter _ hp
  refine ⟨⟨fun h v hread f hf hof => ?_, fun h => ?_⟩, hsound⟩
  · by_contra hne
    refine h.removed n u targetId v rfl hwaiting hread f ?_ hof
    rw [hp]
    exact List.mem_filter.mpr ⟨hf, decide_eq_true hne⟩
  · refine Honored.of_request hwaiting hsound.onePerPair ?_ ?_ ?_
    · intro f hf _
      rw [hp] at hf
      exact .inl (List.mem_filter.mp hf).1
    · intro userId targetId' v hreq hread f hf hof
      obtain ⟨rfl, rfl⟩ := Request.removeFriend.inj hreq
      rw [hp] at hf
      obtain ⟨hf, hne⟩ := List.mem_filter.mp hf
      exact of_decide_eq_true hne (h v hread f hf hof)
    · intro _ _ hreq
      cases hreq

/-! ## One message -/

/-- The recipient's stream gets what is relayed only under the id that it subscribes to. -/
theorem relayed_iff (fromCallsign : String) (dm : DirectMessage) (recipient : Uuid) :
    Relayed dm recipient (relays fromCallsign dm) ↔ dm.recipientId = recipient.write := by
  constructor
  · intro h
    obtain ⟨message, hmessage⟩ := h.heard
    simp only [relays, List.mem_cons, List.not_mem_nil, or_false, Publication.mk.injEq,
      streamSubject, Subject.user.injEq, reduceCtorEq, and_false, false_or, Event.messageRelay.injEq,
      and_self] at hmessage
    rcases hmessage with ⟨hsubject, -⟩ | ⟨hsubject, hpartner, -⟩
    · exact hsubject.symm
    · rw [← hpartner, hsubject]
  · intro h
    have hconv : (relayPayload fromCallsign dm).conversationId = conversation dm.me recipient := by
      unfold conversation
      rw [← h]
      rfl
    constructor
    · refine ⟨relayPayload fromCallsign dm, ?_⟩
      unfold streamSubject
      rw [← h]
      exact List.mem_cons_of_mem _ List.mem_cons_self
    · intro p hp partnerId message hevent
      simp only [relays, List.mem_cons, List.not_mem_nil, or_false] at hp
      rcases hp with rfl | rfl | rfl | rfl
      · simp at hevent
      · simp only [Event.messageRelay.injEq, reduceCtorEq, or_false] at hevent
        rw [← hevent.2, hconv]
      · simp only [Event.messageRelay.injEq, reduceCtorEq, or_false] at hevent
        rw [← hevent.2, hconv]
      · simp only [Event.raw.injEq, reduceCtorEq, false_or] at hevent
        rw [← hevent, hconv]
    · intro p hp c hsubject
      simp only [relays, List.mem_cons, List.not_mem_nil, or_false] at hp
      rcases hp with rfl | rfl | rfl | rfl
      · cases hsubject
      · cases hsubject
      · cases hsubject
      · rw [← Subject.dm.inj hsubject, hconv]

theorem sendDirectMessage_honored {dm : DirectMessage} (hs : s.Sound)
    (hwaiting : s.waiting n = some (.sendDirectMessage dm))
    (ht : t.friendships = s.friendships) :
    (Honored callsigns s (.execute n true) t ↔
      ∀ v, Uuid.read dm.recipientId = some v → s.areFriends dm.me v = true →
        dm.recipientId = v.write) ∧ t.Sound := by
  have hpublished : ∀ v, Uuid.read dm.recipientId = some v → s.areFriends dm.me v = true →
      s.published callsigns dm = relays ((callsigns dm.me).getD "Unknown") dm := by
    intro v hread hfriends
    simp only [State.published, hread, if_pos hfriends]
  have hsound := hs.of_eq ht
  refine ⟨⟨fun h v hread hfriends => ?_, fun h => ?_⟩, hsound⟩
  · have hrelayed := h.relayed n dm v rfl hwaiting hread hfriends
    rw [hpublished v hread hfriends] at hrelayed
    exact (relayed_iff _ dm v).mp hrelayed
  · refine Honored.of_request hwaiting hsound.onePerPair (fun f hf _ => .inl (ht ▸ hf)) ?_ ?_
    · intro _ _ _ hreq
      cases hreq
    · intro dm' v hreq hread hfriends
      obtain rfl := Request.sendDirectMessage.inj hreq
      rw [hpublished v hread hfriends]
      exact (relayed_iff _ dm v).mpr (h v hread hfriends)

/-! ## Turns -/

theorem checkRateLimit_frame (s : State) (userId : Uuid) :
    (s.checkRateLimit userId).1.friendships = s.friendships ∧
      (s.checkRateLimit userId).1.waiting = s.waiting := by
  unfold State.checkRateLimit
  dsimp only
  split
  · exact ⟨rfl, rfl⟩
  · split
    · exact ⟨rfl, rfl⟩
    · split <;> exact ⟨rfl, rfl⟩

/-- The checks count requests and change nothing else. -/
theorem check_frame (s : State) (req : Request) :
    (s.check req).1.friendships = s.friendships ∧ (s.check req).1.waiting = s.waiting := by
  cases req with
  | sendFriendRequest userId targetId =>
      have hlimit := checkRateLimit_frame s userId
      simp only [State.check]
      split
      · exact ⟨rfl, rfl⟩
      · split
        · exact ⟨rfl, rfl⟩
        · split <;> rename_i heq <;> rw [heq] at hlimit <;> exact hlimit
  | acceptFriendRequest | declineFriendRequest | removeFriend | sendDirectMessage =>
      exact ⟨rfl, rfl⟩

theorem execute_waiting (s : State) (req : Request) :
    (s.execute req).1.waiting = s.waiting := by
  cases req with
  | sendFriendRequest userId targetId =>
      simp only [State.execute, State.insert]
      split
      · rfl
      · dsimp only
        split <;> rfl
  | sendDirectMessage dm => rfl
  | acceptFriendRequest userId targetId | declineFriendRequest userId targetId
  | removeFriend userId targetId =>
      simp only [State.execute]
      split
      · rfl
      · split <;> rfl

/-- What a turn does to the rows: only a statement that does not fail writes any. -/
theorem step_cases (h : friends.step s turn = some t) :
    ((∀ n, turn ≠ .execute n true) ∧ t.friendships = s.friendships) ∨
      ∃ n req, turn = .execute n true ∧ s.waiting n = some req ∧
        t.friendships = (s.execute req).1.friendships := by
  cases turn with
  | tick ms =>
      obtain rfl := Option.some.inj h
      exact .inl ⟨fun n heq => (by cases heq), rfl⟩
  | arrive n req =>
      refine .inl ⟨fun n heq => (by cases heq), ?_⟩
      have hcheck := (check_frame s req).1
      simp only [friends] at h
      split at h
      · cases h
      · rename_i heq
        obtain rfl := Option.some.inj h
        rw [heq] at hcheck
        exact hcheck
      · rename_i heq
        obtain rfl := Option.some.inj h
        rw [heq] at hcheck
        exact hcheck
  | execute n ok =>
      simp only [friends] at h
      cases hwaiting : s.waiting n with
      | none =>
          rw [hwaiting] at h
          cases h
      | some req =>
          rw [hwaiting] at h
          obtain rfl := Option.some.inj h
          cases ok with
          | false => exact .inl ⟨fun n heq => (by cases heq), rfl⟩
          | true => exact .inr ⟨n, req, rfl, hwaiting, rfl⟩

theorem step_honored (callsigns : Uuid → Option String) (hs : s.Sound)
    (h : friends.step s turn = some t) :
    (Honored callsigns s turn t ↔ s.meets turn) ∧ (s.meets turn → t.Sound) := by
  rcases step_cases h with ⟨hturn, ht⟩ | ⟨n, req, rfl, hwaiting, ht⟩
  · have hmeets : s.meets turn := by
      unfold State.meets
      split
      · exact absurd rfl (hturn _)
      · trivial
    exact ⟨iff_of_true (Honored.of_eq hs ht hturn) hmeets, fun _ => hs.of_eq ht⟩
  · unfold State.meets
    simp only [hwaiting]
    cases req with
    | sendFriendRequest userId targetId => exact sendFriendRequest_honored hs hwaiting ht
    | acceptFriendRequest userId targetId =>
        obtain ⟨hhonored, hsound⟩ := acceptFriendRequest_honored hs hwaiting ht
        exact ⟨iff_of_true hhonored trivial, fun _ => hsound⟩
    | declineFriendRequest userId targetId =>
        obtain ⟨hhonored, hsound⟩ := declineFriendRequest_honored hs hwaiting ht
        exact ⟨iff_of_true hhonored trivial, fun _ => hsound⟩
    | removeFriend userId targetId =>
        obtain ⟨hiff, hsound⟩ := removeFriend_honored hs hwaiting ht
        exact ⟨hiff, fun _ => hsound⟩
    | sendDirectMessage dm =>
        obtain ⟨hiff, hsound⟩ := sendDirectMessage_honored hs hwaiting ht
        exact ⟨hiff, fun _ => hsound⟩

theorem sound_start : State.start.Sound where
  onePerPair := List.Pairwise.nil
  initiated _ hf := by cases hf

/-- Friendships stay well formed and friends reach each other in exactly the runs where whoever sends
a request or removes a friend finds the row of the pair under the key that was computed, and whoever
writes to a friend spells the id as the database does. -/
theorem friendships_well_formed_iff (callsigns : Uuid → Option String) (is : List Turn) :
    (∀ s turn t, friends.Passes State.start is s turn t → Honored callsigns s turn t) ↔
      ∀ s turn t, friends.Passes State.start is s turn t → s.meets turn :=
  StepSystem.passes_iff (P := Honored callsigns) (C := State.meets)
    (fun _ _ _ hs h => step_honored callsigns hs h) sound_start is

/-! ## Capitals -/

def alice : Uuid :=
  ⟨List.replicate 32 10, rfl⟩

def bob : Uuid :=
  ⟨List.replicate 32 11, rfl⟩

/-- Alice asks Bob twice, the second time with his id in capitals, which come before her id. -/
def asksTwice : List Turn :=
  [.arrive 0 (.sendFriendRequest alice bob.write), .execute 0 true,
    .arrive 0 (.sendFriendRequest alice (bob.write.map Char.toUpper))]

instance (f : Friendship) (u v : Uuid) : Decidable (f.isOf u v) :=
  inferInstanceAs (Decidable (_ ∨ _))

instance (s : State) : Decidable s.onePerPair :=
  inferInstanceAs (Decidable (s.friendships.Pairwise _))

/-- Two requests leave two rows of one pair. -/
theorem not_always_one_per_pair :
    ¬ ∀ (callsigns : Uuid → Option String) (is : List Turn) (s t : State) (turn : Turn),
      friends.Passes State.start is s turn t → Honored callsigns s turn t := by
  intro h
  have hruns : ((friends.exec State.start asksTwice).bind fun s =>
      friends.step s (.execute 0 true)).any (fun t => !decide t.onePerPair) = true := by
    decide +kernel
  obtain ⟨t, ht, htwo⟩ := (Option.any_eq_true _ _).mp hruns
  obtain ⟨s, hs, hstep⟩ := Option.bind_eq_some_iff.mp ht
  have hhonored := h (fun _ => none) (asksTwice ++ [.execute 0 true]) s t (.execute 0 true)
    ⟨asksTwice, [], rfl, StepSystem.exec_eq_some_iff.mp hs, hstep⟩
  rw [decide_eq_true hhonored.onePerPair] at htwo
  cases htwo

/-! # Ids as the database spells them

While every request spells ids as the database does, a pair has one key, and a message is published
where the recipient listens.
-/

/-- The other id is spelled as the database spells it. -/
def Request.canonical : Request → Prop
  | .sendFriendRequest _ targetId | .acceptFriendRequest _ targetId
  | .declineFriendRequest _ targetId | .removeFriend _ targetId => ∃ v : Uuid, targetId = v.write
  | .sendDirectMessage dm => ∃ v : Uuid, dm.recipientId = v.write

/-- Every pair is stored with the id first that is written first, and nobody is about to ask
himself. -/
structure Canonical (s : State) : Prop where
  rows : ∀ f ∈ s.friendships, f.userA.write < f.userB.write
  waiting : ∀ n req, s.waiting n = some req → req.canonical
  others : ∀ n u targetId, s.waiting n = some (.sendFriendRequest u targetId) → u.write ≠ targetId

theorem canonical_start : Canonical State.start where
  rows _ hf := by cases hf
  waiting _ _ hreq := by cases hreq
  others _ _ _ hreq := by cases hreq

theorem Canonical.keyed (hs : Canonical s) (hv : targetId = v.write) : s.keyed u targetId := by
  intro v' hread f hf hof
  subst hv
  obtain rfl := Option.some.inj ((Uuid.read_write v).symm.trans hread)
  have hlt := hs.rows f hf
  rw [key_of_read hread]
  rcases hof with hof | hof
  · obtain ⟨rfl, rfl⟩ := Prod.mk.inj hof
    rw [if_pos hlt]
    rfl
  · obtain ⟨rfl, rfl⟩ := Prod.mk.inj hof
    rw [if_neg (lt_asymm hlt)]
    rfl

theorem Canonical.meets (hs : Canonical s) (turn : Turn) : s.meets turn := by
  unfold State.meets
  split
  · rename_i n
    cases hwaiting : s.waiting n with
    | none => trivial
    | some req =>
        have hcanonical := hs.waiting n req hwaiting
        cases req with
        | sendFriendRequest | removeFriend =>
            obtain ⟨v, hv⟩ := hcanonical
            exact hs.keyed hv
        | sendDirectMessage dm =>
            obtain ⟨v, hv⟩ := hcanonical
            intro v' hread _
            rw [hv, Uuid.read_write] at hread
            rw [hv, Option.some.inj hread]
        | acceptFriendRequest | declineFriendRequest => trivial
  · trivial

/-- A statement keeps the order of ids in every row. -/
theorem Canonical.execute (hs : Canonical s) {n : ℕ} {req : Request}
    (hwaiting : s.waiting n = some req) :
    ∀ f ∈ (s.execute req).1.friendships, f.userA.write < f.userB.write := by
  intro f hf
  cases req with
  | sendFriendRequest u targetId =>
      obtain ⟨v, rfl⟩ := hs.waiting n _ hwaiting
      have hne := hs.others n u _ hwaiting
      simp only [State.execute, key_of_read (Uuid.read_write v)] at hf
      rcases mem_insert hf with hold | rfl
      · exact hs.rows f hold
      · dsimp only
        split
        · assumption
        · rename_i hnot
          exact lt_of_le_of_ne (not_lt.mp hnot) hne.symm
  | acceptFriendRequest u targetId =>
      simp only [State.execute] at hf
      split at hf
      · exact hs.rows f hf
      · split at hf
        · obtain ⟨old, hold, rfl⟩ := List.mem_map.mp hf
          have hlt := hs.rows old hold
          split <;> exact hlt
        · exact hs.rows f hf
  | declineFriendRequest u targetId | removeFriend u targetId =>
      simp only [State.execute] at hf
      split at hf
      · exact hs.rows f hf
      · split at hf
        · exact hs.rows f (List.mem_filter.mp hf).1
        · exact hs.rows f hf
  | sendDirectMessage dm => exact hs.rows f hf

theorem ne_of_check {s' : State}
    (h : s.check (.sendFriendRequest u targetId) = (s', none)) : u.write ≠ targetId := by
  intro heq
  simp only [State.check, if_pos heq] at h
  split at h <;> cases h

/-- The request that arrives, if one does, is spelled as the database spells ids. -/
def Turn.canonical : Turn → Prop
  | .arrive _ req => req.canonical
  | _ => True

theorem Canonical.step {turn : Turn} (hs : Canonical s) (hturn : turn.canonical)
    (h : friends.step s turn = some t) : Canonical t := by
  cases turn with
  | tick ms =>
      obtain rfl := Option.some.inj h
      exact ⟨hs.rows, hs.waiting, hs.others⟩
  | arrive n req =>
      obtain ⟨hrows, hwaiting⟩ := check_frame s req
      simp only [friends] at h
      split at h
      · cases h
      · rename_i heq
        obtain rfl := Option.some.inj h
        rw [heq] at hrows hwaiting
        exact ⟨hrows ▸ hs.rows, hwaiting ▸ hs.waiting, hwaiting ▸ hs.others⟩
      · rename_i heq
        obtain rfl := Option.some.inj h
        rw [heq] at hrows hwaiting
        refine ⟨hrows ▸ hs.rows, fun n' req' hreq => ?_, fun n' u targetId hreq => ?_⟩
        · rcases eq_or_ne n' n with rfl | hn
          · dsimp only at hreq
            rw [Function.update_self] at hreq
            obtain rfl := Option.some.inj hreq
            exact hturn
          · dsimp only at hreq
            rw [Function.update_of_ne hn, hwaiting] at hreq
            exact hs.waiting n' req' hreq
        · rcases eq_or_ne n' n with rfl | hn
          · dsimp only at hreq
            rw [Function.update_self] at hreq
            obtain rfl := Option.some.inj hreq
            exact ne_of_check heq
          · dsimp only at hreq
            rw [Function.update_of_ne hn, hwaiting] at hreq
            exact hs.others n' u targetId hreq
  | execute n ok =>
      simp only [friends] at h
      cases hwaiting : s.waiting n with
      | none =>
          rw [hwaiting] at h
          cases h
      | some req =>
          rw [hwaiting] at h
          obtain rfl := Option.some.inj h
          have hleft : ∀ n' req', (if ok then (s.execute req).1 else s).waiting n' = some req' →
              s.waiting n' = some req' := by
            intro n' req' hreq
            cases ok with
            | false => exact hreq
            | true => exact execute_waiting s req ▸ hreq
          have hothers : ∀ n' req', Function.update
              (if ok then (s.execute req).1 else s).waiting n none n' = some req' →
                s.waiting n' = some req' := by
            intro n' req' hreq
            rcases eq_or_ne n' n with rfl | hn
            · rw [Function.update_self] at hreq
              cases hreq
            · rw [Function.update_of_ne hn] at hreq
              exact hleft n' req' hreq
          refine ⟨?_, fun n' req' hreq => hs.waiting n' req' (hothers n' req' hreq),
            fun n' u targetId hreq => hs.others n' u targetId (hothers n' _ hreq)⟩
          cases ok with
          | false => exact hs.rows
          | true => exact hs.execute hwaiting

/-- While every request spells ids as the database does, friendships are well formed and friends
reach each other, whatever the order of requests and statements. -/
theorem canonical_honored (callsigns : Uuid → Option String) {is : List Turn}
    (his : ∀ turn ∈ is, turn.canonical) {turn : Turn}
    (h : friends.Passes State.start is s turn t) : Honored callsigns s turn t := by
  refine (StepSystem.passes_iff (P := Honored callsigns) (C := State.meets)
    (fun _ _ _ hs h => step_honored callsigns hs h) sound_start is).mpr ?_ s turn t h
  rintro s turn t ⟨before, after, rfl, hrun, -⟩
  have hguarded := hrun.guarded_of_forall (C := fun _ turn => turn.canonical)
    fun turn hmem _ => his turn (List.mem_append_left _ hmem)
  have hcanonical : Canonical s := hguarded.invariant (P := Canonical)
    (fun _ _ _ hs hturn h => hs.step hturn h)
    canonical_start
  exact hcanonical.meets turn

theorem canonical_honored_alice : ∃ s t, t.friendships.length = 1 ∧
    Honored (fun _ => none) s (.execute 0 true) t := by
  let arrives : Turn := .arrive 0 (.sendFriendRequest alice bob.write)
  let s := (friends.exec State.start [arrives]).get (by decide +kernel)
  let t := (friends.step s (.execute 0 true)).get (by decide +kernel)
  have h : friends.Passes State.start [arrives, .execute 0 true] s (.execute 0 true) t :=
    ⟨[arrives], [], rfl, StepSystem.exec_eq_some_iff.mp (Option.some_get _).symm,
      (Option.some_get _).symm⟩
  exact ⟨s, t, by decide +kernel, canonical_honored _ (by simp [arrives, Turn.canonical,
    Request.canonical]) h⟩

end SpecterComs.Friends
