import SpecterComs.Model.IdentityNode.EventStream

/-! # Whom a stream may hear

A connection keeps the subjects that it was given when it was opened. It follows the membership
exactly as long as nobody is removed from an organization whose subjects one of his connections
has, or is about to get.
-/

namespace SpecterComs.EventStream

open DeliveryService (UserId)
open Presence (Moderation)

variable {m : Moderation} {s s' : State} {turn : Turn}

/-- What a turn publishes about an organization is not forwarded to somebody who is no member of it. -/
def HeardByMembers (s : State) (turn : Turn) (s' : State) : Prop :=
  ∀ n c c' msg orgId, s.published turn = some msg → s.orgOf msg.subject = some orgId →
    s.connections n = some c → (orgId, c.userId) ∉ s.members →
    s'.connections n = some c' → c'.received = c.received

/-- The connection is subscribed to a subject of the organization, or has read that it will be. -/
def State.hears (s : State) (c : Connection) (orgId : String) : Prop :=
  (∃ orgIds, c.setup = .connectNats orgIds ∧ orgId ∈ orgIds) ∨
    ∃ subject ∈ c.subjects, s.orgOf subject = some orgId

/-- Nobody is removed from an organization while one of his connections hears it. -/
def State.unheard (s : State) : Turn → Prop
  | .kickMember _ _ key | .banMember _ _ key =>
      ∀ n c, s.connections n = some c → c.userId = key.2 → ¬ s.hears c key.1
  | _ => True

/-- Every connection hears only what its user is a member of, and knows the channels it hears. -/
structure Follows (s : State) : Prop where
  member : ∀ n c orgId, s.connections n = some c → s.hears c orgId → (orgId, c.userId) ∈ s.members
  known : ∀ n c channelId, s.connections n = some c → .channel channelId ∈ c.subjects →
    ∃ ch ∈ s.channels, ch.id = channelId
  ids : (s.channels.map Channel.id).Nodup

theorem follows_start (members bans : List Key) {channels : List Channel}
    (hids : (channels.map Channel.id).Nodup) : Follows (.start members bans channels) where
  member _ _ _ h := absurd h nofun
  known _ _ _ h := absurd h nofun
  ids := hids

/-- Channels of the same organizations under the same ids. -/
def SameChannels (s s' : State) : Prop :=
  ∀ channelId, (∃ ch ∈ s.channels, ch.id = channelId) →
    (∃ ch ∈ s'.channels, ch.id = channelId) ∧
      s'.orgOf (.channel channelId) = s.orgOf (.channel channelId)

theorem orgOf_channel (channelId : String) : s.orgOf (.channel channelId) =
    (s.channels.find? fun c => c.id = channelId).map Channel.orgId :=
  rfl

theorem SameChannels.refl (hchannels : s'.channels = s.channels) : SameChannels s s' := by
  intro channelId hknown
  rw [orgOf_channel, orgOf_channel, hchannels]
  exact ⟨hknown, rfl⟩

/-- A new channel leaves the others where they are. -/
theorem sameChannels_append (ch : Channel) (hchannels : s'.channels = s.channels ++ [ch]) :
    SameChannels s s' := by
  rintro channelId ⟨old, hold, rfl⟩
  refine ⟨⟨old, by rw [hchannels]; exact List.mem_append_left _ hold, rfl⟩, ?_⟩
  rw [orgOf_channel, orgOf_channel, hchannels, List.find?_append]
  cases hfind : s.channels.find? fun c => c.id = old.id with
  | none => exact absurd (List.find?_eq_none.mp hfind old hold) (by simp)
  | some found => rfl

/-- A channel that is deleted stays of its organization. -/
theorem sameChannels_map {f : Channel → Channel} (hf : ∀ ch, (f ch).id = ch.id ∧
    (f ch).orgId = ch.orgId) (hchannels : s'.channels = s.channels.map f) : SameChannels s s' := by
  rintro channelId ⟨old, hold, rfl⟩
  have hid : (fun c : Channel => decide (c.id = old.id)) ∘ f = fun c => decide (c.id = old.id) := by
    funext c
    simp [(hf c).1]
  refine ⟨⟨f old, by rw [hchannels]; exact List.mem_map_of_mem hold, (hf old).1⟩, ?_⟩
  rw [orgOf_channel, orgOf_channel, hchannels, List.find?_map, hid, Option.map_map]
  congr 1
  funext c
  exact (hf c).2

/-! ## One turn -/

/-- The connections after a turn that opens and sets up none. -/
def SameConnections (s s' : State) : Prop :=
  ∀ n c', s'.connections n = some c' → ∃ c, s.connections n = some c ∧ c'.userId = c.userId ∧
    c'.setup = c.setup ∧ c'.subjects = c.subjects

theorem SameConnections.refl (hconnections : s'.connections = s.connections) :
    SameConnections s s' :=
  fun n c' h => ⟨c', by rwa [hconnections] at h, rfl, rfl, rfl⟩

variable {n : ℕ}

/-- What a connection hears depends on what it has and on whose the channels are. -/
theorem hears_of_same (h : Follows s) {c c' : Connection} (hc : s.connections n = some c)
    (hsetup : c'.setup = c.setup) (hsubjects : c'.subjects = c.subjects)
    (hchannels : SameChannels s s') {orgId : String} (hhears : s'.hears c' orgId) :
    s.hears c orgId := by
  rcases hhears with ⟨orgIds, hpending, hmem⟩ | ⟨subject, hsubject, horg⟩
  · exact .inl ⟨orgIds, hsetup.symm.trans hpending, hmem⟩
  · rw [hsubjects] at hsubject
    refine .inr ⟨subject, hsubject, ?_⟩
    cases subject with
    | user userId | org orgId => exact horg
    | channel channelId =>
        rw [(hchannels channelId (h.known n c channelId hc hsubject)).2] at horg
        exact horg

/-- Where members only come, and go only if nobody hears, the connections go on following. -/
theorem Follows.of_same (h : Follows s) (hconnections : SameConnections s s')
    (hchannels : SameChannels s s') (hids : (s'.channels.map Channel.id).Nodup)
    (hmembers : ∀ n c orgId, s.connections n = some c → s.hears c orgId →
      (orgId, c.userId) ∈ s.members → (orgId, c.userId) ∈ s'.members) : Follows s' where
  member n c' orgId hc' hhears := by
    obtain ⟨c, hc, huser, hsetup, hsubjects⟩ := hconnections n c' hc'
    have hhears' := hears_of_same h hc hsetup hsubjects hchannels hhears
    rw [huser]
    exact hmembers n c orgId hc hhears' (h.member n c orgId hc hhears')
  known n c' channelId hc' hsubject := by
    obtain ⟨c, hc, -, -, hsubjects⟩ := hconnections n c' hc'
    rw [hsubjects] at hsubject
    exact (hchannels channelId (h.known n c channelId hc hsubject)).1
  ids := hids

variable {c : Option Connection}

theorem connections_set_self : (s.setConnection n c).connections n = c :=
  Function.update_self ..

theorem connections_set_of_ne {n' : ℕ} (h : n' ≠ n) :
    (s.setConnection n c).connections n' = s.connections n' :=
  Function.update_of_ne h ..

/-- A connection may be replaced by one that follows. -/
theorem Follows.setConnection (h : Follows s) {c : Connection}
    (hmember : ∀ orgId, s.hears c orgId → (orgId, c.userId) ∈ s.members)
    (hknown : ∀ channelId, .channel channelId ∈ c.subjects → ∃ ch ∈ s.channels, ch.id = channelId) :
    Follows (s.setConnection n (some c)) where
  member n' c' orgId hc' hhears := by
    by_cases hn : n' = n
    · subst hn
      rw [connections_set_self] at hc'
      obtain rfl := Option.some.inj hc'
      exact hmember orgId hhears
    · rw [connections_set_of_ne hn] at hc'
      exact h.member n' c' orgId hc' hhears
  known n' c' channelId hc' hsubject := by
    by_cases hn : n' = n
    · subst hn
      rw [connections_set_self] at hc'
      obtain rfl := Option.some.inj hc'
      exact hknown channelId hsubject
    · rw [connections_set_of_ne hn] at hc'
      exact h.known n' c' channelId hc' hsubject
  ids := h.ids

theorem mem_orgIds {userId : UserId} {orgId : String} :
    orgId ∈ s.orgIds userId ↔ (orgId, userId) ∈ s.members := by
  rw [State.orgIds, List.mem_map]
  constructor
  · rintro ⟨key, hkey, rfl⟩
    obtain ⟨hmem, huser⟩ := List.mem_filter.mp hkey
    rw [← of_decide_eq_true huser]
    exact hmem
  · exact fun hmem => ⟨(orgId, userId), List.mem_filter.mpr ⟨hmem, by simp⟩, rfl⟩

/-- The channels of a query are known, and of organizations its user is a member of. -/
theorem mem_channelIds {userId : UserId} {channelId : String} (h : channelId ∈ s.channelIds userId) :
    ∃ ch ∈ s.channels, ch.id = channelId ∧ (ch.orgId, userId) ∈ s.members := by
  obtain ⟨ch, hch, rfl⟩ := List.mem_map.mp h
  obtain ⟨hmem, hread⟩ := List.mem_filter.mp hch
  rw [Bool.and_eq_true, decide_eq_true_eq] at hread
  exact ⟨ch, hmem, rfl, hread.2⟩

theorem orgOf_of_mem (hids : (s.channels.map Channel.id).Nodup) {ch : Channel}
    (hch : ch ∈ s.channels) : s.orgOf (.channel ch.id) = some ch.orgId := by
  rw [orgOf_channel]
  cases hfind : s.channels.find? fun c => c.id = ch.id with
  | none => exact absurd (List.find?_eq_none.mp hfind ch hch) (by simp)
  | some found =>
      have hid : found.id = ch.id := by simpa using List.find?_some hfind
      rw [List.inj_on_of_nodup_map hids (List.mem_of_find?_eq_some hfind) hch hid]
      rfl

/-- Each statement of a connection reads what its user is a member of. -/
theorem Follows.setup (h : Follows s) {c c' : Connection} {ok : Bool}
    (hc : s.connections n = some c) (hsetup : s.setup c ok = some c') :
    Follows (s.setConnection n (some c')) := by
  have hold : ∀ orgId, (∃ subject ∈ c.subjects, s.orgOf subject = some orgId) →
      (orgId, c.userId) ∈ s.members := fun orgId hhears => h.member n c orgId hc (.inr hhears)
  unfold State.setup at hsetup
  cases hnext : c.setup with
  | selectOrgs =>
      rw [hnext] at hsetup
      obtain rfl := Option.some.inj hsetup
      refine h.setConnection (fun orgId hhears => ?_) fun channelId => h.known n c channelId hc
      rcases hhears with ⟨orgIds, hpending, hmem⟩ | hsubject
      · obtain rfl := Setup.connectNats.inj hpending
        cases ok with
        | false => cases hmem
        | true => exact mem_orgIds.mp hmem
      · exact hold orgId hsubject
  | connectNats orgIds =>
      rw [hnext] at hsetup
      cases ok with
      | false =>
          obtain rfl := Option.some.inj hsetup
          refine h.setConnection (fun orgId hhears => ?_) fun channelId => h.known n c channelId hc
          rcases hhears with ⟨_, hpending, -⟩ | hsubject
          · cases hpending
          · exact hold orgId hsubject
      | true =>
          obtain rfl := Option.some.inj hsetup
          refine h.setConnection (fun orgId hhears => ?_) fun channelId hsubject => ?_
          · rcases hhears with ⟨_, hpending, -⟩ | ⟨subject, hsubject, horg⟩
            · dsimp only at hpending
              split at hpending
              · cases hpending
              · cases hpending
            · rcases List.mem_cons.mp hsubject with rfl | hsubject
              · cases horg
              · obtain ⟨orgId', hmem, rfl⟩ := List.mem_map.mp hsubject
                obtain rfl := Option.some.inj horg
                exact h.member n c orgId' hc (.inl ⟨orgIds, hnext, hmem⟩)
          · rcases List.mem_cons.mp hsubject with heq | hsubject
            · cases heq
            · obtain ⟨orgId, -, heq⟩ := List.mem_map.mp hsubject
              cases heq
  | selectChannels =>
      rw [hnext] at hsetup
      obtain rfl := Option.some.inj hsetup
      -- a new subject is of a channel of an organization that was read together with it
      have hnew : ∀ subject ∈ (if ok then (s.channelIds c.userId).map Subject.channel else []),
          ∃ ch ∈ s.channels, subject = Subject.channel ch.id ∧ (ch.orgId, c.userId) ∈ s.members := by
        intro subject hsubject
        cases ok with
        | false => cases hsubject
        | true =>
            obtain ⟨channelId, hchannel, rfl⟩ := List.mem_map.mp hsubject
            obtain ⟨ch, hch, rfl, hmember⟩ := mem_channelIds hchannel
            exact ⟨ch, hch, rfl, hmember⟩
      refine h.setConnection (fun orgId hhears => ?_) fun channelId hsubject => ?_
      · rcases hhears with ⟨_, hpending, -⟩ | ⟨subject, hsubject, horg⟩
        · cases hpending
        · rcases List.mem_append.mp hsubject with hsubject | hsubject
          · exact hold orgId ⟨subject, hsubject, horg⟩
          · obtain ⟨ch, hch, rfl, hmember⟩ := hnew subject hsubject
            rw [orgOf_of_mem h.ids hch] at horg
            rw [← Option.some.inj horg]
            exact hmember
      · rcases List.mem_append.mp hsubject with hsubject | hsubject
        · exact h.known n c channelId hc hsubject
        · obtain ⟨ch, hch, heq, -⟩ := hnew _ hsubject
          exact ⟨ch, hch, (Subject.channel.inj heq).symm⟩
  | done =>
      rw [hnext] at hsetup
      cases hsetup

/-- A member who goes is heard about by none of his streams. -/
theorem Follows.removeMember (h : Follows s) {key : Key}
    (hunheard : ∀ n c, s.connections n = some c → c.userId = key.2 → ¬ s.hears c key.1)
    (hconnections : s'.connections = s.connections) (hchannels : s'.channels = s.channels)
    (hmembers : s'.members = s.members.filter (· ≠ key)) : Follows s' := by
  refine h.of_same (.refl hconnections) (.refl hchannels) (hchannels ▸ h.ids) ?_
  intro n c orgId hc hhears hmember
  rw [hmembers, List.mem_filter]
  refine ⟨hmember, decide_eq_true fun heq => ?_⟩
  obtain rfl := heq
  exact hunheard n c hc rfl hhears

theorem sameConnections_deliver (msg : Message) (hconnections :
    s'.connections = (s.deliver msg).connections) : SameConnections s s' := by
  intro n c' hc'
  rw [hconnections] at hc'
  obtain ⟨c, hc, rfl⟩ := Option.map_eq_some_iff.mp hc'
  refine ⟨c, hc, ?_⟩
  split <;> exact ⟨rfl, rfl, rfl⟩

theorem Follows.step (h : Follows s) (hunheard : s.unheard turn)
    (hstep : s.step m turn = some s') : Follows s' := by
  have hsame : SameConnections s s' → s'.channels = s.channels → s.members ⊆ s'.members →
      Follows s' := fun hconnections hchannels hmembers =>
    h.of_same hconnections (.refl hchannels) (hchannels ▸ h.ids) fun _ _ _ _ _ hmem => hmembers hmem
  cases turn with
  | connect n userId =>
      simp only [State.step] at hstep
      split at hstep
      · cases hstep
      · obtain rfl := Option.some.inj hstep
        refine h.setConnection (fun orgId hhears => ?_) fun channelId hsubject => by cases hsubject
        rcases hhears with ⟨_, hpending, -⟩ | ⟨subject, hsubject, -⟩
        · cases hpending
        · cases hsubject
  | setup n ok =>
      obtain ⟨c, hc, hstep⟩ := Option.bind_eq_some_iff.mp hstep
      obtain ⟨c', hsetup, hstep⟩ := Option.bind_eq_some_iff.mp hstep
      obtain rfl := Option.some.inj hstep
      exact h.setup hc hsetup
  | close n =>
      obtain rfl := Option.some.inj hstep
      refine hsame (fun n' c' hc' => ⟨c', ?_, rfl, rfl, rfl⟩) rfl (List.Subset.refl _)
      by_cases hn : n' = n
      · subst hn
        rw [connections_set_self] at hc'
        cases hc'
      · rwa [connections_set_of_ne hn] at hc'
  | join key =>
      obtain ⟨-, hstep⟩ := Option.ite_none_left_eq_some.mp hstep
      obtain rfl := Option.some.inj hstep
      exact hsame (.refl rfl) rfl (List.subset_append_left _ _)
  | kickMember t adminId key =>
      obtain ⟨-, hstep⟩ := Option.ite_none_right_eq_some.mp hstep
      obtain rfl := Option.some.inj hstep
      exact h.removeMember hunheard rfl rfl rfl
  | banMember t adminId key =>
      obtain ⟨-, hstep⟩ := Option.ite_none_right_eq_some.mp hstep
      obtain rfl := Option.some.inj hstep
      exact h.removeMember hunheard rfl rfl rfl
  | unbanMember adminId key =>
      obtain ⟨-, hstep⟩ := Option.ite_none_right_eq_some.mp hstep
      obtain rfl := Option.some.inj hstep
      exact hsame (.refl rfl) rfl (List.Subset.refl _)
  | createChannel channelId orgId =>
      obtain ⟨hnew, hstep⟩ := Option.ite_none_left_eq_some.mp hstep
      obtain rfl := Option.some.inj hstep
      refine h.of_same (.refl rfl) (sameChannels_append _ rfl) ?_ fun _ _ _ _ _ hmem => hmem
      rw [List.map_append]
      refine List.nodup_append.mpr ⟨h.ids, List.nodup_singleton _, fun id hid id' hid' heq => ?_⟩
      obtain ⟨ch, hch, rfl⟩ := List.mem_map.mp hid
      rw [List.map_singleton, List.mem_singleton] at hid'
      exact hnew (List.any_eq_true.mpr ⟨ch, hch, decide_eq_true (heq.trans hid')⟩)
  | deleteChannel channelId =>
      obtain rfl := Option.some.inj hstep
      have hkeeps : ∀ ch : Channel,
          (if ch.id = channelId then { ch with deleted := true } else ch).id = ch.id ∧
            (if ch.id = channelId then { ch with deleted := true } else ch).orgId = ch.orgId := by
        intro ch
        split <;> exact ⟨rfl, rfl⟩
      refine h.of_same (.refl rfl) (sameChannels_map hkeeps rfl) ?_ fun _ _ _ _ _ hmem => hmem
      have hids : s.channels.map (Channel.id ∘ fun ch =>
          if ch.id = channelId then { ch with deleted := true } else ch) =
            s.channels.map Channel.id := List.map_congr_left fun ch _ => (hkeeps ch).1
      dsimp only
      rw [List.map_map, hids]
      exact h.ids
  | publishDue t =>
      simp only [State.step] at hstep
      split at hstep
      · cases hstep
      · rename_i msg rest hdue
        obtain rfl := Option.some.inj hstep
        exact hsame (sameConnections_deliver msg rfl) rfl (List.Subset.refl _)
  | publish msg =>
      obtain rfl := Option.some.inj hstep
      exact hsame (sameConnections_deliver msg rfl) rfl (List.Subset.refl _)

/-- What is published reaches those who are subscribed. -/
theorem connections_of_published {msg : Message} (hstep : s.step m turn = some s')
    (hpublished : s.published turn = some msg) :
    s'.connections = (s.deliver msg).connections := by
  cases turn with
  | publishDue t =>
      simp only [State.step] at hstep
      cases hdue : s.due t with
      | nil =>
          rw [hdue] at hstep
          cases hstep
      | cons first rest =>
          rw [hdue] at hstep
          rw [State.published, hdue] at hpublished
          obtain rfl := Option.some.inj hpublished
          obtain rfl := Option.some.inj hstep
          rfl
  | publish msg' =>
      obtain rfl := Option.some.inj hpublished
      obtain rfl := Option.some.inj hstep
      rfl
  | _ => cases hpublished

theorem Follows.heardByMembers (h : Follows s) (hstep : s.step m turn = some s') :
    HeardByMembers s turn s' := by
  intro n c c' msg orgId hpublished horg hc hno hc'
  rw [connections_of_published hstep hpublished, State.deliver] at hc'
  dsimp only at hc'
  rw [hc, Option.map_some] at hc'
  obtain rfl := Option.some.inj hc'
  rw [if_neg]
  intro hsubject
  exact hno (h.member n c orgId hc (.inr ⟨msg.subject, hsubject, horg⟩))

/-- While nobody is removed from an organization that one of his streams hears, no stream is given
what is published about an organization its user is no member of. -/
theorem streams_follow_membership (m : Moderation) (members bans : List Key)
    {channels : List Channel} (hids : (channels.map Channel.id).Nodup) {turns : List Turn}
    {s : State}
    (hrun : (eventStreams m).Guarded State.unheard (.start members bans channels) turns s)
    {turn : Turn} {s' : State} (hstep : s.step m turn = some s') : HeardByMembers s turn s' := by
  have hfollows : Follows s :=
    hrun.invariant (fun _ _ _ h hunheard hs => h.step hunheard hs)
      (follows_start members bans hids)
  exact hfollows.heardByMembers hstep

/-! ## A member who is kicked -/

def idasOrg : Moderation where
  owners := [("org", "ida")]
  memberRoles := []

/-- Ada, who is a member, opens a stream. -/
def adaListens : List Turn :=
  .connect 0 "ada" :: List.replicate 3 (.setup 0 true)

/-- Ada's stream is given the message about her own removal, and would be given whatever is published
in the organization after it. -/
theorem not_always_heard_by_members :
    ¬ ∀ (m : Moderation) (members bans : List Key) (channels : List Channel) (turns : List Turn)
        (s : State) (turn : Turn) (s' : State), (channels.map Channel.id).Nodup →
      (eventStreams m).Run (.start members bans channels) turns s → s.step m turn = some s' →
      HeardByMembers s turn s' := by
  intro hclaim
  have hexec : (((eventStreams idasOrg).exec (.start [("org", "ada")] [] [⟨"alpha", "org", false⟩])
      (adaListens ++ [.kickMember 0 "ida" ("org", "ada")])).any fun s =>
        (s.step idasOrg (.publishDue 0)).any fun s' =>
          s.published (.publishDue 0) = some ⟨.org "org", "member_removed"⟩ &&
          s.connections 0 = some ⟨"ada", .done, [.user "ada", .org "org", .channel "alpha"], []⟩ &&
          ("org", "ada") ∉ s.members &&
          s'.connections 0 = some ⟨"ada", .done, [.user "ada", .org "org", .channel "alpha"],
            [⟨.org "org", "member_removed"⟩]⟩) = true := by
    decide +kernel
  obtain ⟨s, hs, hend⟩ := (Option.any_eq_true _ _).mp hexec
  obtain ⟨s', hstep, hend⟩ := (Option.any_eq_true _ _).mp hend
  simp only [Bool.and_eq_true, decide_eq_true_eq] at hend
  obtain ⟨⟨⟨hpublished, hc⟩, hno⟩, hc'⟩ := hend
  have hheard := hclaim idasOrg _ _ [⟨"alpha", "org", false⟩] _ s (.publishDue 0) s' (by decide)
    (StepSystem.exec_eq_some_iff.mp hs) hstep 0 _ _ _ "org" hpublished rfl hc hno hc'
  cases hheard

/-- While she is a member, nothing is wrong with what Ada hears. -/
theorem streams_follow_membership_ada :
    ∃ s s', (eventStreams idasOrg).Run (.start [("org", "ada")] [] [⟨"alpha", "org", false⟩])
        adaListens s ∧ s.step idasOrg (.publish ⟨.channel "alpha", "message_relay"⟩) = some s' ∧
      HeardByMembers s (.publish ⟨.channel "alpha", "message_relay"⟩) s' := by
  have hexec : ((eventStreams idasOrg).exec (.start [("org", "ada")] [] [⟨"alpha", "org", false⟩])
      adaListens).isSome = true := by
    decide +kernel
  obtain ⟨s, hs⟩ := Option.isSome_iff_exists.mp hexec
  have hrun := StepSystem.exec_eq_some_iff.mp hs
  have hguarded := hrun.guarded_of_forall (C := State.unheard) fun turn hturn s => by
    rcases List.mem_cons.mp hturn with rfl | hturn
    · trivial
    · rw [List.eq_of_mem_replicate hturn]
      trivial
  have hids : (([⟨"alpha", "org", false⟩] : List Channel).map Channel.id).Nodup := by decide
  exact ⟨s, _, hrun, rfl, streams_follow_membership idasOrg _ _ hids hguarded rfl⟩

end SpecterComs.EventStream
