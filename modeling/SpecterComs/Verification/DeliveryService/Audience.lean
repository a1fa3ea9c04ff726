import Mathlib.Data.List.Dedup
import SpecterComs.Model.DeliveryService.ChannelAccess

/-! # One audience per channel

What an event channel admits is part of the audience of the event's cascade, and the endpoints
that go through `resolveChannelGroup` or check like it share one set of users. -/

namespace SpecterComs.DeliveryService

/-! ## The audience of a channel and the cascade's -/

namespace Roster

variable {t : Roster} {eventId : String} {userId : UserId}

theorem mem_eventCascadeMemberUserIds : userId ∈ t.eventCascadeMemberUserIds eventId ↔
    userId ∈ t.eventParticipants eventId ∨ userId ∈ t.staff eventId := by
  rw [eventCascadeMemberUserIds, List.mem_dedup, List.mem_append]

/-- An accepted member of a group of the event participates in it. -/
theorem mem_eventParticipants {m : EventGroupMember} (hm : m ∈ t.members)
    (haccepted : m.status = .accepted) (hevent : t.inEvent eventId m = true) :
    m.userId ∈ t.eventParticipants eventId := by
  refine List.mem_map_of_mem (List.mem_filter.mpr ⟨hm, ?_⟩)
  rw [hevent, haccepted]
  rfl

theorem groupMembers_sub {groupId : String} (h : ∃ g ∈ t.groups, g.id = groupId ∧ g.eventId = eventId)
    (huser : userId ∈ t.groupMembers (some groupId)) : userId ∈ t.eventParticipants eventId := by
  obtain ⟨m, hm, rfl⟩ := List.mem_map.mp huser
  obtain ⟨hm, hof⟩ := List.mem_filter.mp hm
  rw [Bool.and_eq_true, decide_eq_true_eq, decide_eq_true_eq] at hof
  obtain ⟨g, hg, hid, hge⟩ := h
  refine mem_eventParticipants hm hof.2 (List.any_eq_true.mpr ⟨g, hg, ?_⟩)
  rw [hid, hge, Option.some.inj hof.1]
  simp

theorem frequencyMembers_sub {frequencyId : Option String}
    (huser : userId ∈ t.frequencyMembers eventId frequencyId) :
    userId ∈ t.eventParticipants eventId := by
  obtain ⟨m, hm, rfl⟩ := List.mem_map.mp huser
  obtain ⟨hm, hof⟩ := List.mem_filter.mp hm
  rw [Bool.and_eq_true, Bool.and_eq_true, decide_eq_true_eq] at hof
  exact mem_eventParticipants hm hof.1.2 hof.2

end Roster

open Roster

variable {layout : EventLayout} {orgId chanId : String} {userId : UserId}
  {frequencyId groupId : Option String} {eventId orgId' chanId' : String} {kind : ChannelKind}

/-- The group of a group channel is one of the channel's event. -/
theorem getChannelScope_group
    (h : layout.getChannelScope chanId orgId = some (.event orgId' chanId' eventId kind groupId frequencyId))
    (g : String) (hg : groupId = some g) :
    ∃ group ∈ layout.groups, group.id = g ∧ group.eventId = eventId := by
  obtain ⟨c, hc, hscope⟩ := Option.bind_eq_some_iff.mp h
  cases hevent : c.eventId with
  | none =>
      rw [hevent] at hscope
      cases hscope
  | some event =>
      rw [hevent] at hscope
      dsimp only at hscope
      obtain ⟨-, -, rfl, -, rfl, -⟩ := ChannelScope.event.inj (Option.some.inj hscope)
      obtain ⟨group, hfind, rfl⟩ := Option.map_eq_some_iff.mp hg
      have hmem := List.mem_of_find?_eq_some hfind
      have hchannel : group.channelId = some c.id := by simpa using List.find?_some hfind
      have hown := layout.ownEvent group hmem c (List.mem_of_find?_eq_some hc) hchannel
      rw [hevent] at hown
      exact ⟨group, hmem, rfl, (Option.some.inj hown).symm⟩

/-- Whoever an event channel admits is in the cascade. -/
theorem channelMembers_sub_cascade
    (h : layout.getChannelScope chanId orgId = some (.event orgId' chanId' eventId kind groupId frequencyId))
    (huser : userId ∈ layout.channelMemberUserIds (.event orgId' chanId' eventId kind groupId frequencyId)) :
    userId ∈ layout.eventCascadeMemberUserIds eventId := by
  rw [mem_eventCascadeMemberUserIds]
  replace huser := List.mem_dedup.mp huser
  cases kind with
  | group =>
      left
      cases groupId with
      | none => simp [Roster.groupMembers] at huser
      | some g => exact groupMembers_sub (getChannelScope_group h g rfl) huser
  | frequency =>
      rcases List.mem_append.mp huser with huser | huser
      · exact .inl (frequencyMembers_sub huser)
      · exact .inr huser
  | command => exact List.mem_append.mp huser
  | other => exact List.mem_append.mp huser

/-! ## The endpoints of a channel -/

/-- The endpoints of a channel's group with their bodies. -/
inductive Endpoint
  | commit (body : Body)
  | externalCommit (body : Body)
  | catchUp
  | members
  | getGroupInfo
  | putGroupInfo (body : Body)
  deriving DecidableEq, Repr

/-- The refusal says that the caller, or the channel, is none. -/
def Refusal.denies (r : Refusal) : Bool :=
  r.status = 401 || r.status = 403 || r.status = 404

def denied {α : Type} : Except Refusal α → Bool
  | .error r => r.denies
  | .ok _ => false

namespace Endpoint

/-- The endpoint lets the user do what it is for; the epoch may still be the wrong one. -/
def admits (codec : Base64) (dir : Directory) (db : Db) (orgId chanId : String) (userId : UserId) :
    Endpoint → Bool
  | commit body => !denied (submitChannelCommit codec dir db (some userId) orgId chanId body)
  | externalCommit body =>
      !denied (submitExternalCommit codec dir db (some userId) (.channel orgId chanId) body)
  | catchUp => !denied (DeliveryService.catchUp codec dir db (some userId) (.channel orgId chanId))
  | members => !denied (getChannelMlsMembers dir (some userId) orgId chanId)
  | getGroupInfo =>
      !denied (DeliveryService.getGroupInfo codec dir db (some userId) (.channel orgId chanId))
  | putGroupInfo body =>
      !denied (DeliveryService.putGroupInfo codec dir db (some userId) (.channel orgId chanId) body)

/-- The body passes its schema, and welcomes only whom the channel admits. -/
def wellFormed (dir : Directory) (orgId chanId : String) : Endpoint → Prop
  | commit body => ∃ data, submitChannelCommitSchema.safeParse body = .ok data ∧
      ∀ scope, dir.getChannelScope chanId orgId = some scope →
        ∀ id ∈ data.welcomedUserIds.getD [], id ∈ dir.channelMemberUserIds scope
  | externalCommit body => ∃ data, externalCommitSchema.safeParse body = .ok data
  | putGroupInfo body => ∃ data, parsePutGroupInfo body = .ok data
  | catchUp | members | getGroupInfo => True

/-- The endpoint acts on the group: it commits to it, or reads or writes its GroupInfo. -/
def actsOnGroup : Endpoint → Bool
  | commit _ | externalCommit _ | getGroupInfo | putGroupInfo _ => true
  | catchUp | members => false

end Endpoint

/-- A member of the organization whom the channel admits. -/
def Roster.authorized (t : Roster) (orgId chanId : String) (userId : UserId) : Bool :=
  t.isOrgMember orgId userId &&
    (t.getChannelScope chanId orgId).any fun scope => (t.channelMemberUserIds scope).contains userId

section Admits

variable {codec : Base64} {db : Db} {t : Roster} {scope : ChannelScope}

/-- The audience of an org channel is the organization's. -/
theorem mem_orgChannel (h : t.getChannelScope chanId orgId = some scope)
    (hevent : scope.isEvent = false) :
    (t.channelMemberUserIds scope).contains userId = t.isOrgMember orgId userId := by
  obtain ⟨c, hc, hscope⟩ := Option.bind_eq_some_iff.mp h
  cases heventId : c.eventId with
  | some eventId =>
      rw [heventId] at hscope
      obtain rfl := Option.some.inj hscope
      cases hevent
  | none =>
      rw [heventId] at hscope
      obtain rfl := Option.some.inj hscope
      rw [Bool.eq_iff_iff, List.contains_iff_mem]
      simp [Roster.channelMemberUserIds, Roster.isOrgMember, and_assoc]

/-- The check of an event channel's audience, in an org channel as good as the one before it. -/
theorem audience_checked (h : t.getChannelScope chanId orgId = some scope)
    (hmember : t.isOrgMember orgId userId = true) :
    (!scope.isEvent || (t.channelMemberUserIds scope).contains userId) =
      t.authorized orgId chanId userId := by
  rw [Roster.authorized, hmember, h, Bool.true_and, Option.any_some]
  cases hevent : scope.isEvent with
  | true => rfl
  | false =>
      rw [mem_orgChannel h hevent, hmember]
      rfl

theorem authorized_of_not_member (hmember : t.isOrgMember orgId userId = false) :
    t.authorized orgId chanId userId = false := by
  rw [Roster.authorized, hmember, Bool.false_and]

theorem authorized_of_no_channel (h : t.getChannelScope chanId orgId = none) :
    t.authorized orgId chanId userId = false := by
  rw [Roster.authorized, h, Option.any_none, Bool.and_false]

variable {α : Type}

/-- After a gate a request is refused for its epoch at most. -/
theorem denied_bind {β : Type} {x : Except Refusal α} {f : α → Except Refusal β}
    (hf : ∀ a, denied (f a) = false) : denied (x >>= f) = denied x := by
  cases x with
  | error r => rfl
  | ok a => exact hf a

theorem denied_commitOrConflict {bumped : Option Db} {f : Db → Except Refusal Handled}
    (hf : ∀ db, denied (f db) = false) : denied (commitOrConflict bumped >>= f) = false := by
  cases bumped with
  | none => rfl
  | some db => exact hf db

/-- The checks for membership and for the channel, and what follows them. -/
def channelGate {α : Type} (dir : Directory) (userId : UserId) (orgId chanId : String)
    (code : Option String) (f : ChannelScope → Except Refusal α) : Except Refusal α := do
  checkOrgMember dir orgId userId
  let scope ← channelScope dir orgId chanId code
  f scope

variable {code : Option String}

theorem channelGate_eq {f : ChannelScope → Except Refusal α} :
    channelGate t.directory userId orgId chanId code f =
      if t.isOrgMember orgId userId then
        match t.getChannelScope chanId orgId with
        | none => .error (.message 404 "Channel not found" code)
        | some scope => f scope
      else .error (.message 403 "Not a member of this organization" none) := by
  unfold channelGate checkOrgMember require channelScope
  change (if t.isOrgMember orgId userId then Except.ok () else Except.error _) >>=
    (fun _ => (match t.getChannelScope chanId orgId with
      | none => Except.error _
      | some scope => Except.ok scope) >>= f) = _
  cases t.isOrgMember orgId userId with
  | false => rfl
  | true =>
      cases t.getChannelScope chanId orgId with
      | none => rfl
      | some scope => rfl

theorem denied_channelGate {allowed : Bool} {f : ChannelScope → Except Refusal α}
    (hmember : t.isOrgMember orgId userId = false → allowed = false)
    (hchannel : t.getChannelScope chanId orgId = none → allowed = false)
    (hf : ∀ scope, t.getChannelScope chanId orgId = some scope → t.isOrgMember orgId userId = true → denied (f scope) = !allowed) :
    denied (channelGate t.directory userId orgId chanId code f) = !allowed := by
  rw [channelGate_eq]
  cases hm : t.isOrgMember orgId userId with
  | false =>
      rw [hmember hm]
      rfl
  | true =>
      cases hscope : t.getChannelScope chanId orgId with
      | none =>
          rw [hchannel hscope]
          rfl
      | some scope => exact hf scope hscope hm

theorem denied_require {ok : Bool} {text : String} {f : Unit → Except Refusal α}
    (hf : denied (f ()) = false) : denied (require ok 403 text none >>= f) = !ok := by
  cases ok with
  | true => exact hf
  | false => rfl

theorem denied_resolveChannelGroup :
    denied (resolveChannelGroup t.directory (some userId) orgId chanId) =
      !t.authorized orgId chanId userId := by
  refine denied_channelGate authorized_of_not_member authorized_of_no_channel
    fun scope hscope hmember => ?_
  rw [← audience_checked hscope hmember]
  exact denied_require rfl

variable {body : Body}

/-- The checks of a commit, which also looks at whom it welcomes. -/
theorem admits_commit (hbody : (Endpoint.commit body).wellFormed t.directory orgId chanId) :
    (Endpoint.commit body).admits codec t.directory db orgId chanId userId =
      t.authorized orgId chanId userId := by
  obtain ⟨data, hdata, hwelcomed⟩ := hbody
  have hgate : denied (submitChannelCommit codec t.directory db (some userId) orgId chanId body) =
      !t.authorized orgId chanId userId := by
    unfold submitChannelCommit
    rw [hdata]
    refine denied_channelGate authorized_of_not_member authorized_of_no_channel
      fun scope hscope hmember => ?_
    rw [← audience_checked hscope hmember]
    have hall : (data.welcomedUserIds.getD []).all
        (t.directory.channelMemberUserIds scope).contains = true :=
      List.all_eq_true.mpr fun id hid => List.contains_iff_mem.mpr (hwelcomed scope hscope id hid)
    refine denied_require ?_
    rw [hall, Bool.or_true]
    exact denied_commitOrConflict fun _ => rfl
  rw [Endpoint.admits, hgate, Bool.not_not]

theorem admits_externalCommit
    (hbody : (Endpoint.externalCommit body).wellFormed t.directory orgId chanId) :
    (Endpoint.externalCommit body).admits codec t.directory db orgId chanId userId =
      t.authorized orgId chanId userId := by
  obtain ⟨data, hdata⟩ := hbody
  have hgate : denied (submitExternalCommit codec t.directory db (some userId)
      (.channel orgId chanId) body) =
        denied (resolveChannelGroup t.directory (some userId) orgId chanId) := by
    unfold submitExternalCommit
    rw [hdata]
    exact denied_bind fun access => denied_commitOrConflict fun _ => rfl
  rw [Endpoint.admits, hgate, denied_resolveChannelGroup, Bool.not_not]

theorem admits_getGroupInfo :
    Endpoint.getGroupInfo.admits codec t.directory db orgId chanId userId =
      t.authorized orgId chanId userId := by
  have hgate : denied (getGroupInfo codec t.directory db (some userId) (.channel orgId chanId)) =
      denied (resolveChannelGroup t.directory (some userId) orgId chanId) :=
    denied_bind fun _ => rfl
  rw [Endpoint.admits, hgate, denied_resolveChannelGroup, Bool.not_not]

theorem admits_putGroupInfo
    (hbody : (Endpoint.putGroupInfo body).wellFormed t.directory orgId chanId) :
    (Endpoint.putGroupInfo body).admits codec t.directory db orgId chanId userId =
      t.authorized orgId chanId userId := by
  obtain ⟨data, hdata⟩ := hbody
  have hgate : denied (putGroupInfo codec t.directory db (some userId) (.channel orgId chanId)
      body) = denied (resolveChannelGroup t.directory (some userId) orgId chanId) := by
    unfold putGroupInfo
    rw [hdata]
    change denied (resolveChannelGroup t.directory (some userId) orgId chanId >>= _) = _
    refine denied_bind fun access => ?_
    cases updateGroupInfo codec db access.groupId data.1 data.2 with
    | none => rfl
    | some db => rfl
  rw [Endpoint.admits, hgate, denied_resolveChannelGroup, Bool.not_not]

/-- The member list is for every member of the organization. -/
theorem admits_members :
    Endpoint.members.admits codec t.directory db orgId chanId userId =
      (t.isOrgMember orgId userId && (t.getChannelScope chanId orgId).isSome) := by
  have hgate : denied (getChannelMlsMembers t.directory (some userId) orgId chanId) =
      !(t.isOrgMember orgId userId && (t.getChannelScope chanId orgId).isSome) := by
    refine denied_channelGate ?_ ?_ fun scope hscope hmember => ?_
    · intro hmember
      rw [hmember, Bool.false_and]
    · intro hscope
      rw [hscope, Option.isSome_none, Bool.and_false]
    · rw [hmember, hscope]
      rfl
  rw [Endpoint.admits, hgate, Bool.not_not]

theorem getChannelMlsMembers_ok {reply : MembersReply}
    (h : getChannelMlsMembers t.directory (some userId) orgId chanId = .ok reply) :
    ∃ scope, t.getChannelScope chanId orgId = some scope ∧
      reply.userIds = t.channelMemberUserIds scope := by
  change channelGate t.directory userId orgId chanId _ _ = _ at h
  rw [channelGate_eq] at h
  cases hmember : t.isOrgMember orgId userId with
  | false =>
      rw [hmember] at h
      cases h
  | true =>
      rw [hmember] at h
      cases hscope : t.getChannelScope chanId orgId with
      | none =>
          rw [hscope] at h
          cases h
      | some scope =>
          rw [hscope] at h
          obtain rfl := Except.ok.inj h
          exact ⟨scope, rfl, rfl⟩

end Admits

/-- Whom an endpoint of a channel lets in: the ones that act on the group its audience, the member
list any member of the organization. -/
structure OneAudience (layout : EventLayout) (orgId chanId : String) : Prop where
  cascade : ∀ scope, layout.getChannelScope chanId orgId = some scope →
    ∀ userId, layout.canUseChannel scope userId = true →
      match scope with
      | .org _ _ => True
      | .event _ _ eventId _ _ _ => userId ∈ layout.eventCascadeMemberUserIds eventId
  acts : ∀ codec db userId (e : Endpoint), e.actsOnGroup = true →
    e.wellFormed layout.directory orgId chanId →
      e.admits codec layout.directory db orgId chanId userId =
        layout.authorized orgId chanId userId
  lists : ∀ codec db userId,
    Endpoint.members.admits codec layout.directory db orgId chanId userId =
      (layout.isOrgMember orgId userId && (layout.getChannelScope chanId orgId).isSome)
  listed : ∀ userId reply,
    getChannelMlsMembers layout.directory (some userId) orgId chanId = .ok reply →
      ∃ scope, layout.getChannelScope chanId orgId = some scope ∧
        reply.userIds = layout.channelMemberUserIds scope

theorem one_audience (layout : EventLayout) (orgId chanId : String) :
    OneAudience layout orgId chanId where
  cascade scope hscope userId huse := by
    cases scope with
    | org _ _ => trivial
    | event _ _ _ _ _ _ => exact channelMembers_sub_cascade hscope (List.contains_iff_mem.mp huse)
  acts codec db userId e hacts hbody := by
    cases e with
    | commit body => exact admits_commit hbody
    | externalCommit body => exact admits_externalCommit hbody
    | getGroupInfo => exact admits_getGroupInfo
    | putGroupInfo body => exact admits_putGroupInfo hbody
    | catchUp => cases hacts
    | members => cases hacts
  lists codec db userId := admits_members
  listed userId reply h := getChannelMlsMembers_ok h

/-- A launched event with one group, of which one of the two members of the organization is. -/
def patrol : EventLayout where
  channels := [⟨"alpha", "org", some "event", false⟩]
  events := [⟨"event", "org", none, none, none⟩]
  planners := []
  groups := [⟨"group", "event", some "alpha"⟩]
  members := [⟨"group", "ada", none, .accepted⟩]
  frequencies := []
  frequencyRoles := []
  orgMembers := [⟨"org", "ada"⟩, ⟨"org", "bob"⟩]
  friendships := []
  ownEvent := by decide

/-- The member list of an event channel answers whoever is in the organization. -/
theorem members_beyond_audience :
    ¬ ∀ (layout : EventLayout) (codec : Base64) (db : Db) (orgId chanId : String)
      (scope : ChannelScope) (userId : UserId) (e : Endpoint),
      layout.getChannelScope chanId orgId = some scope →
      e.wellFormed layout.directory orgId chanId →
        (e.admits codec layout.directory db orgId chanId userId = true ↔
          userId ∈ layout.channelMemberUserIds scope) := by
  intro hclaim
  have hbob := hclaim patrol ⟨fun _ => [], fun _ => ""⟩ Db.empty "org" "alpha"
    (.event "org" "alpha" "event" .group (some "group") none) "bob" .members (by decide) trivial
  rw [admits_members] at hbob
  exact absurd (hbob.mp (by decide)) (by decide)

end SpecterComs.DeliveryService
