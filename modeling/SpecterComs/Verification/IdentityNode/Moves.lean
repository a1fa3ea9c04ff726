import SpecterComs.Verification.IdentityNode.Presence

/-! # Whom a move of one member moves

The move is made by channels: whoever is subscribed to the channel that the member is in goes along,
and a member who is in none stays where he is.
-/

namespace SpecterComs.Presence

open DeliveryService (UserId)

variable {env : Env} {s s' : State}

/-- The target is in the channel, and everything of everybody else is as it was. -/
structure MovesOnly (s s' : State) (orgId : String) (userId : UserId) (channelId : String) :
    Prop where
  row : s'.row (userId, orgId) = some channelId
  present : s'.isPresent channelId userId = true
  left : ∀ c, s.row (userId, orgId) = some c → c ≠ channelId → s'.isPresent c userId = false
  rows : ∀ sub : Subscription, sub.userId ≠ userId → (sub ∈ s'.subscriptions ↔ sub ∈ s.subscriptions)
  presence : ∀ c e, e.1 ≠ userId → (e ∈ s'.presence c ↔ e ∈ s.presence c)

/-- The row of the target in the organization is the only subscription to its channel. -/
def State.alone (s : State) (orgId : String) (userId : UserId) : Prop :=
  ∃ sub, s.subscribed [sub.channelId] = [sub] ∧ sub.key = (userId, orgId)

/-! ## One user -/

section Writes

variable {channelId userId callsign : String} {k : Key} {sub : Subscription} {e : UserId × String}

theorem mem_upsert_other (hk : sub.key ≠ k) :
    sub ∈ (s.upsert channelId k).subscriptions ↔ sub ∈ s.subscriptions := by
  unfold State.upsert
  dsimp only
  split
  · rw [List.mem_map]
    constructor
    · rintro ⟨sub', hsub', rfl⟩
      by_cases hkey : sub'.key = k
      · rw [if_pos hkey] at hk
        exact absurd hkey hk
      · rwa [if_neg hkey]
    · exact fun hsub => ⟨sub, hsub, if_neg hk⟩
  · rw [List.mem_append, List.mem_singleton]
    constructor
    · rintro (hsub | rfl)
      · exact hsub
      · exact absurd rfl hk
    · exact .inl

/-- The row that an upsert writes is the one with this clock. -/
theorem mem_upsert_self : ⟨channelId, k.1, k.2, s.clock⟩ ∈ (s.upsert channelId k).subscriptions := by
  unfold State.upsert
  dsimp only
  split
  · rename_i hany
    obtain ⟨sub, hsub, hkey⟩ := List.any_eq_true.mp hany
    refine List.mem_map.mpr ⟨sub, hsub, ?_⟩
    obtain rfl : sub.key = k := of_decide_eq_true hkey
    rw [if_pos rfl]
    rfl
  · exact List.mem_append_right _ (List.mem_singleton_self _)

theorem mem_presence_remove (he : e.1 ≠ userId) (c : String) :
    e ∈ (s.remove channelId userId).presence c ↔ e ∈ s.presence c := by
  unfold State.remove
  dsimp only
  by_cases hc : c = channelId
  · subst hc
    rw [Function.update_self, List.mem_filter]
    simp [he]
  · rw [Function.update_of_ne hc]

theorem mem_presence_enter (he : e.1 ≠ userId) (c : String) :
    e ∈ (s.enter channelId userId callsign).presence c ↔ e ∈ s.presence c := by
  unfold State.enter
  dsimp only
  by_cases hc : c = channelId
  · subst hc
    rw [Function.update_self]
    split
    · rw [List.mem_map]
      constructor
      · rintro ⟨e', he', rfl⟩
        by_cases hu : e'.1 = userId
        · rw [if_pos hu] at he
          exact absurd rfl he
        · rwa [if_neg hu]
      · exact fun h => ⟨e, h, if_neg he⟩
    · rw [List.mem_append, List.mem_singleton]
      constructor
      · rintro (h | rfl)
        · exact h
        · exact absurd rfl he
      · exact .inl
  · rw [Function.update_of_ne hc]

end Writes

/-! ## The whole move -/

/-- A row that an upsert wrote stays when the next one is given the same channel. -/
theorem mem_upsertAll_of_mem {u orgId toChannelId : String} (subs : List Subscription)
    (h : ⟨toChannelId, u, orgId, s.clock⟩ ∈ s.subscriptions) :
    ⟨toChannelId, u, orgId, s.clock⟩ ∈
      (subs.foldl (fun s sub => s.upsert toChannelId (sub.userId, orgId)) s).subscriptions := by
  induction subs generalizing s with
  | nil => exact h
  | cons sub subs ih =>
      refine ih (s := s.upsert toChannelId (sub.userId, orgId)) ?_
      by_cases hu : u = sub.userId
      · subst hu
        exact mem_upsert_self (k := (sub.userId, orgId))
      · refine (mem_upsert_other fun hkey => hu ?_).mpr h
        exact congrArg Prod.fst hkey

/-- Everybody who goes along is given a row at the clock of the move. -/
theorem mem_upsertAll {orgId toChannelId : String} {subs : List Subscription} {sub : Subscription}
    (hsub : sub ∈ subs) (s : State) :
    ⟨toChannelId, sub.userId, orgId, s.clock⟩ ∈
      (subs.foldl (fun s sub => s.upsert toChannelId (sub.userId, orgId)) s).subscriptions := by
  induction subs generalizing s with
  | nil => cases hsub
  | cons sub' subs ih =>
      rcases List.mem_cons.mp hsub with rfl | hsub
      · exact mem_upsertAll_of_mem (s := s.upsert toChannelId (sub.userId, orgId)) subs
          (mem_upsert_self (k := (sub.userId, orgId)))
      · exact ih hsub (s.upsert toChannelId (sub'.userId, orgId))

theorem subscriptions_moveAll (env : Env) (channelId : String) (subs : List Subscription)
    (s : State) :
    (subs.foldl (fun s sub => (s.remove sub.channelId sub.userId).enter channelId sub.userId
      (env.callsign sub.userId)) s).subscriptions = s.subscriptions := by
  induction subs generalizing s with
  | nil => rfl
  | cons sub subs ih => exact ih _

section BulkMove

variable {orgId channelId : String} {userId : UserId} {sub : Subscription}

/-- The ways a bulk move ends: nobody is there to be moved, the upsert fails, or everybody who is
subscribed to the channels is moved. -/
theorem bulkMoveUsers_cases (env : Env) (s : State) (orgId : String) (fromChannelIds : List String)
    (channelId : String) :
    s.subscribed fromChannelIds = [] ∧
        s.bulkMoveUsers env orgId fromChannelIds channelId = some s ∨
      s.subscribed fromChannelIds ≠ [] ∧
        (¬ (channelExists env.roster channelId ∧
            ((s.subscribed fromChannelIds).map Subscription.userId).Nodup) ∧
          s.bulkMoveUsers env orgId fromChannelIds channelId = none ∨
        ((s.subscribed fromChannelIds).map Subscription.userId).Nodup ∧
          s.bulkMoveUsers env orgId fromChannelIds channelId = some
            ((s.subscribed fromChannelIds).foldl
              (fun s sub => (s.remove sub.channelId sub.userId).enter channelId sub.userId
                (env.callsign sub.userId))
              ((s.subscribed fromChannelIds).foldl
                (fun s sub => s.upsert channelId (sub.userId, orgId)) s))) := by
  unfold State.bulkMoveUsers
  by_cases hfrom : fromChannelIds = []
  · subst hfrom
    rw [if_pos rfl]
    exact .inl ⟨List.filter_eq_nil_iff.mpr (by simp), rfl⟩
  · rw [if_neg hfrom]
    simp only [State.proceed]
    by_cases hsubs : s.subscribed fromChannelIds = []
    · rw [if_pos hsubs]
      exact .inl ⟨hsubs, rfl⟩
    · rw [if_neg hsubs]
      refine .inr ⟨hsubs, ?_⟩
      by_cases hok : channelExists env.roster channelId ∧
          ((s.subscribed fromChannelIds).map Subscription.userId).Nodup
      · right
        simp only [if_pos hok]
        exact ⟨hok.2, trivial⟩
      · left
        simp only [if_neg hok]
        exact ⟨hok, trivial⟩

/-- A member who is alone in his channel is the only one who is moved. -/
theorem MovesOnly.of_alone (huniq : (s.subscriptions.map Subscription.key).Nodup)
    (hsub : s.subscribed [sub.channelId] = [sub]) (hkey : sub.key = (userId, orgId)) :
    MovesOnly s (((s.upsert channelId (userId, orgId)).remove sub.channelId userId).enter channelId
      userId (env.callsign userId)) orgId userId channelId := by
  have hmem : sub ∈ s.subscriptions := by
    have hin : sub ∈ s.subscribed [sub.channelId] := hsub ▸ List.mem_singleton_self sub
    exact (List.mem_filter.mp hin).1
  constructor
  · change (s.upsert channelId (userId, orgId)).row (userId, orgId) = some channelId
    rw [row_upsert, if_pos rfl]
  · exact isPresent_enter.mpr (.inr ⟨rfl, rfl⟩)
  · intro c hrow hc
    have hsame : c = sub.channelId :=
      Option.some.inj (hrow.symm.trans ((row_eq_some huniq).mpr ⟨sub, hmem, hkey, rfl⟩))
    rw [← Bool.not_eq_true, isPresent_enter, isPresent_remove]
    rintro (⟨-, hleft⟩ | ⟨hto, -⟩)
    · exact hleft ⟨hsame, rfl⟩
    · exact hc hto
  · intro other hother
    exact mem_upsert_other fun hkey' => hother (congrArg Prod.fst hkey')
  · intro c e he
    rw [mem_presence_enter he, mem_presence_remove he]
    exact Iff.rfl

/-- A move that moved only the member found nobody else in the channel: a row that it wrote for
somebody else would be newer than all there were. -/
theorem alone_of_movesOnly (huniq : (s.subscriptions.map Subscription.key).Nodup)
    (hpast : ∀ sub ∈ s.subscriptions, sub.joinedAt < s.clock)
    (hmoved : s.bulkMoveUsers env orgId (s.row (userId, orgId)).toList channelId = some s')
    (h : MovesOnly s s' orgId userId channelId) : s.alone orgId userId := by
  have hown : ∀ c, s.row (userId, orgId) = some c →
      ∃ sub ∈ s.subscribed [c], sub.key = (userId, orgId) ∧ sub.channelId = c := by
    intro c hrow
    obtain ⟨sub, hsub, hkey, hc⟩ := (row_eq_some huniq).mp hrow
    exact ⟨sub, List.mem_filter.mpr ⟨hsub, by simp [hc]⟩, hkey, hc⟩
  rcases bulkMoveUsers_cases env s orgId (s.row (userId, orgId)).toList channelId with
    ⟨hnone, heq⟩ | ⟨hsome, ⟨-, heq⟩ | ⟨hnodup, heq⟩⟩
  · obtain rfl := Option.some.inj (heq.symm.trans hmoved)
    rw [h.row, Option.toList_some] at hnone
    obtain ⟨sub, hsub, -⟩ := hown channelId h.row
    rw [hnone] at hsub
    cases hsub
  · rw [heq] at hmoved
    cases hmoved
  · cases hrow : s.row (userId, orgId) with
    | none =>
        rw [hrow] at hsome
        exact absurd (List.filter_eq_nil_iff.mpr (by simp)) hsome
    | some c =>
        obtain ⟨sub, hsub, hkey, rfl⟩ := hown c hrow
        rw [hrow, Option.toList_some] at hnodup heq hmoved
        obtain rfl := Option.some.inj (heq.symm.trans hmoved)
        have hall : ∀ sub' ∈ s.subscribed [sub.channelId], sub'.userId = userId := by
          intro sub' hsub'
          by_contra hother
          have hnew : ⟨channelId, sub'.userId, orgId, s.clock⟩ ∈
              ((s.subscribed [sub.channelId]).foldl
                (fun s sub => s.upsert channelId (sub.userId, orgId)) s).subscriptions :=
            mem_upsertAll hsub' s
          rw [← subscriptions_moveAll env channelId (s.subscribed [sub.channelId])] at hnew
          have hold := (h.rows ⟨channelId, sub'.userId, orgId, s.clock⟩ hother).mp hnew
          exact absurd (hpast _ hold) (lt_irrefl _)
        refine ⟨sub, ?_, hkey⟩
        generalize s.subscribed [sub.channelId] = subs at hsub hnodup hall
        match subs with
        | [] => cases hsub
        | [only] => rw [List.mem_singleton.mp hsub]
        | first :: second :: rest =>
            have hfirst := hall first List.mem_cons_self
            have hsecond := hall second (List.mem_cons_of_mem _ List.mem_cons_self)
            rw [List.map_cons, List.map_cons, hfirst, hsecond] at hnodup
            exact absurd List.mem_cons_self (List.nodup_cons.mp hnodup).1

end BulkMove

/-! ## The request -/

/-- A request that passes the checks hands the member's channel to the bulk move. -/
theorem moveMember_of_allowed {m : Moderation} {req : MoveRequest} {adminId : UserId}
    (hadmin : req.adminId = some adminId) (hchannel : req.channelId ≠ "")
    (hallowed : checkModerationPermission m adminId req.orgId "can_manage_channels" = true)
    (hexists : (env.roster.channels.any fun c =>
      c.id = req.channelId && c.orgId = req.orgId) = true) :
    moveMember env m s req =
      match s.bulkMoveUsers env req.orgId (s.row (req.targetUserId, req.orgId)).toList
        req.channelId with
      | none => ⟨s, 500, "Internal Server Error", none⟩
      | some s' =>
          ⟨s', 200, "Move command sent",
            some ⟨req.targetUserId, req.channelId, req.orgId, adminId⟩⟩ := by
  unfold moveMember
  rw [hadmin]
  dsimp only
  rw [if_neg hchannel, hallowed, Bool.not_true, if_neg Bool.false_ne_true, hexists, Bool.not_true]
  exact if_neg Bool.false_ne_true

/-- Moving one member moves only that member exactly when nobody shares the member's channel, and
fails to move a member who is in no channel. -/
theorem moveMember_moves_only_iff (env : Env) (m : Moderation) (s : State) {req : MoveRequest}
    {adminId : UserId} (hadmin : req.adminId = some adminId) (hchannel : req.channelId ≠ "")
    (hallowed : checkModerationPermission m adminId req.orgId "can_manage_channels" = true)
    (hexists : (env.roster.channels.any fun c =>
      c.id = req.channelId && c.orgId = req.orgId) = true)
    (huniq : (s.subscriptions.map Subscription.key).Nodup) :
    (s.alone req.orgId req.targetUserId → (moveMember env m s req).status = 200 ∧
        MovesOnly s (moveMember env m s req).state req.orgId req.targetUserId req.channelId) ∧
      ((∀ sub ∈ s.subscriptions, sub.joinedAt < s.clock) →
        (moveMember env m s req).status = 200 ∧
          MovesOnly s (moveMember env m s req).state req.orgId req.targetUserId req.channelId →
        s.alone req.orgId req.targetUserId) := by
  rw [moveMember_of_allowed hadmin hchannel hallowed hexists]
  constructor
  · rintro ⟨sub, hsub, hkey⟩
    have hin : sub ∈ s.subscribed [sub.channelId] := hsub ▸ List.mem_singleton_self sub
    have hrow : s.row (req.targetUserId, req.orgId) = some sub.channelId :=
      (row_eq_some huniq).mpr ⟨sub, (List.mem_filter.mp hin).1, hkey, rfl⟩
    have huser : sub.userId = req.targetUserId := congrArg Prod.fst hkey
    have htarget : channelExists env.roster req.channelId = true := by
      obtain ⟨c, hc, hid⟩ := List.any_eq_true.mp hexists
      rw [Bool.and_eq_true] at hid
      exact List.any_eq_true.mpr ⟨c, hc, hid.1⟩
    rw [hrow, Option.toList_some]
    rcases bulkMoveUsers_cases env s req.orgId [sub.channelId] req.channelId with
      ⟨hnone, -⟩ | ⟨-, ⟨hfails, -⟩ | ⟨-, heq⟩⟩
    · rw [hsub] at hnone
      cases hnone
    · rw [hsub] at hfails
      exact absurd ⟨htarget, List.nodup_singleton _⟩ hfails
    · rw [heq, hsub]
      refine ⟨rfl, ?_⟩
      rw [List.foldl_cons, List.foldl_cons, huser]
      exact MovesOnly.of_alone huniq hsub hkey
  · rintro hpast ⟨hstatus, honly⟩
    cases hmoved : s.bulkMoveUsers env req.orgId
        (s.row (req.targetUserId, req.orgId)).toList req.channelId with
    | none =>
        rw [hmoved] at hstatus
        cases hstatus
    | some s' =>
        rw [hmoved] at honly
        exact alone_of_movesOnly huniq hpast hmoved honly

/-! ## Two members in one channel -/

def adminOfOrg : Moderation where
  owners := [("org", "ida")]
  memberRoles := []

/-- Ada and Bob are in channel `alpha`, Cleo is in none. -/
def twoInAlpha : State where
  subscriptions := [⟨"alpha", "ada", "org", 0⟩, ⟨"alpha", "bob", "org", 0⟩]
  presence c := if c = "alpha" then [("ada", "Ada"), ("bob", "Bob")] else []
  clock := 1000
  waiting := []

def moveToBravo (userId : UserId) : MoveRequest where
  adminId := some "ida"
  orgId := "org"
  targetUserId := userId
  channelId := "bravo"

/-- Ada is moved, and Bob with her. -/
theorem not_always_moves_only :
    ¬ ∀ (env : Env) (m : Moderation) (s : State) (req : MoveRequest) (adminId : UserId),
      req.adminId = some adminId → req.channelId ≠ "" →
      checkModerationPermission m adminId req.orgId "can_manage_channels" = true →
      (env.roster.channels.any fun c => c.id = req.channelId && c.orgId = req.orgId) = true →
      (s.subscriptions.map Subscription.key).Nodup →
        MovesOnly s (moveMember env m s req).state req.orgId req.targetUserId req.channelId := by
  intro h
  have honly := h twoChannels adminOfOrg twoInAlpha (moveToBravo "ada") "ida" rfl (by decide)
    (by decide) (by decide) (by decide)
  have hbob := (honly.rows ⟨"alpha", "bob", "org", 0⟩ (by decide)).mpr (by decide)
  exact absurd hbob (by decide +kernel)

/-- Cleo, who is in no channel, is not moved at all; Ada alone would be. -/
theorem moveMember_moves_only_iff_cleo :
    ¬ MovesOnly twoInAlpha (moveMember twoChannels adminOfOrg twoInAlpha (moveToBravo "cleo")).state
        "org" "cleo" "bravo" ∧
      MovesOnly { twoInAlpha with subscriptions := [⟨"alpha", "ada", "org", 0⟩] }
        (moveMember twoChannels adminOfOrg
          { twoInAlpha with subscriptions := [⟨"alpha", "ada", "org", 0⟩] } (moveToBravo "ada")).state
        "org" "ada" "bravo" := by
  refine ⟨fun honly => ?_, ?_⟩
  · have halone := (moveMember_moves_only_iff twoChannels adminOfOrg twoInAlpha
      (show (moveToBravo "cleo").adminId = some "ida" from rfl) (by decide) (by decide) (by decide)
      (by decide)).2 (by decide) ⟨by decide +kernel, honly⟩
    obtain ⟨sub, hsub, hkey⟩ := halone
    have hmem : sub ∈ twoInAlpha.subscriptions :=
      (List.mem_filter.mp (hsub ▸ List.mem_singleton_self sub : sub ∈ _)).1
    have hnone : ∀ sub ∈ twoInAlpha.subscriptions, sub.key ≠ ("cleo", "org") := by decide
    exact hnone sub hmem hkey
  · exact ((moveMember_moves_only_iff twoChannels adminOfOrg
      { twoInAlpha with subscriptions := [⟨"alpha", "ada", "org", 0⟩] }
      (show (moveToBravo "ada").adminId = some "ida" from rfl) (by decide) (by decide) (by decide)
      (by decide)).1 ⟨⟨"alpha", "ada", "org", 0⟩, by decide, rfl⟩).2

end SpecterComs.Presence
