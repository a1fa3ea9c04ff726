import SpecterComs.Model.IdentityNode.Presence

/-! # Presence in the map and in the table

A request changes the row of a user, and the map when its query has been answered. While nobody
else is at the same user in the same organization in between, and every request names what a
join would let the user do, the map follows the table.
-/

namespace SpecterComs.Presence

open DeliveryService (UserId Roster)

variable {env : Env} {s s' : State} {k : Key}

/-! ## Who is at a user in an organization -/

namespace Await

/-- The request has been at the user's row and not yet at the map. -/
def holds (k : Key) : Await → Bool
  | joinSelect _ | pingUpsert _ | evictDelete _ _ _ | sweepDelete | moveSelect _ _ _ => false
  | joinLeaveOld v _ | joinUpsert v | joinEnter v | pingEnter v => v.key = k
  | evictRemove userId orgId _ => (userId, orgId) = k
  | sweepRemove stale => stale.any fun sub => sub.key = k
  | moveUpsert _ _ subs | moveEnter _ _ subs => subs.any fun sub => sub.key = k

end Await

namespace State

def held (s : State) (k : Key) : Bool :=
  s.waiting.any fun e => e.2.holds k

/-- The users whose rows the next query of a request is the first to touch. -/
def taken (s : State) : Await → List Key
  | .joinSelect v | .pingUpsert v => [v.key]
  | .evictDelete userId orgId _ => [(userId, orgId)]
  | .sweepDelete => (s.subscriptions.filter s.isStale).map Subscription.key
  | .moveSelect _ fromChannelIds _ => (s.subscribed fromChannelIds).map Subscription.key
  | _ => []

/-- A ping names a channel that a join would admit the user to, and no other than the row does; a
departure names a channel of the organization, or one the user is not in; a move is within the
organization, to a channel that all who are moved may use. -/
def proper (env : Env) (s : State) : Await → Bool
  | .pingUpsert v =>
      !channelExists env.roster v.channelId ||
        (mayUse env.roster v.userId v.channelId v.orgId && (s.row v.key).all (· = v.channelId))
  | .evictRemove userId orgId channelId =>
      (env.roster.getChannelScope channelId orgId).isSome || !s.isPresent channelId userId
  | .moveSelect orgId fromChannelIds toChannelId =>
      (s.subscribed fromChannelIds).all fun sub =>
        sub.orgId = orgId && mayUse env.roster sub.userId toChannelId orgId
  | _ => true

/-- Nobody else is at the users that the turn begins with, and what it does is proper. -/
def undisturbed (env : Env) (s : State) : Turn → Bool
  | .begin _ _ | .tick _ => true
  | .next t =>
      match s.waiting.lookup t with
      | none => true
      | some a => (s.taken a).all (fun k => !s.held k) && s.proper env a

/-- The user is in the channel, one of the organization. -/
def isIn (env : Env) (s : State) (k : Key) (channelId : String) : Prop :=
  s.isPresent channelId k.1 = true ∧ (env.roster.getChannelScope channelId k.2).isSome

/-- No request is under way. -/
def finished (s : State) : Prop :=
  s.waiting = []

end State

open State

/-! ## What is claimed of the map and the table -/

/-- The map and the table are consistent: at most one channel of an organization for a user, the same
in both when all requests have finished, and only one the user may use. -/
structure Consistent (env : Env) (s : State) : Prop where
  one : ∀ k c c', s.isIn env k c → s.isIn env k c' → c = c'
  rows : (s.subscriptions.map Subscription.key).Nodup
  same : s.finished → ∀ c u, s.isPresent c u = true ↔
    ∃ sub ∈ s.subscriptions, sub.channelId = c ∧ sub.userId = u
  present : ∀ c u, s.isPresent c u = true → ∃ orgId, mayUse env.roster u c orgId = true
  subscribed : ∀ sub ∈ s.subscriptions, mayUse env.roster sub.userId sub.channelId sub.orgId = true

/-! ## Rows and map -/

section Writes

theorem mayUse_isSome {t : Roster} {u c o : String} (h : mayUse t u c o = true) :
    (t.getChannelScope c o).isSome := by
  unfold mayUse at h
  cases hscope : t.getChannelScope c o with
  | none =>
      rw [hscope] at h
      cases h
  | some scope => rfl

variable {c u : String}

theorem row_eq_some (huniq : (s.subscriptions.map Subscription.key).Nodup) :
    s.row k = some c ↔ ∃ sub ∈ s.subscriptions, sub.key = k ∧ sub.channelId = c := by
  unfold row
  rw [Option.map_eq_some_iff]
  constructor
  · rintro ⟨sub, hfind, rfl⟩
    exact ⟨sub, List.mem_of_find?_eq_some hfind, by simpa using List.find?_some hfind, rfl⟩
  · rintro ⟨sub, hsub, rfl, rfl⟩
    cases hfind : s.subscriptions.find? fun sub' => sub'.key = sub.key with
    | none =>
        have hno := List.find?_eq_none.mp hfind sub hsub
        simp at hno
    | some sub' =>
        have hkey : sub'.key = sub.key := by simpa using List.find?_some hfind
        rw [List.inj_on_of_nodup_map huniq (List.mem_of_find?_eq_some hfind) hsub hkey]
        exact ⟨sub, rfl, rfl⟩

theorem row_delete {p : Subscription → Bool} (huniq : (s.subscriptions.map Subscription.key).Nodup) :
    (s.delete p).row k = some c ↔ ∃ sub ∈ s.subscriptions, sub.key = k ∧ sub.channelId = c ∧
      p sub = false := by
  have huniq' : ((s.delete p).subscriptions.map Subscription.key).Nodup :=
    huniq.sublist (List.filter_sublist.map _)
  rw [row_eq_some huniq']
  constructor
  · rintro ⟨sub, hsub, hk, hc⟩
    obtain ⟨hsub, hp⟩ := List.mem_filter.mp hsub
    exact ⟨sub, hsub, hk, hc, by simpa using hp⟩
  · rintro ⟨sub, hsub, hk, hc, hp⟩
    exact ⟨sub, List.mem_filter.mpr ⟨hsub, by simpa using hp⟩, hk, hc⟩

variable {channelId userId : String}

theorem isPresent_remove :
    (s.remove channelId userId).isPresent c u = true ↔
      s.isPresent c u = true ∧ ¬ (c = channelId ∧ u = userId) := by
  unfold isPresent remove
  dsimp only
  by_cases hc : c = channelId
  · subst hc
    rw [Function.update_self, List.any_eq_true, List.any_eq_true]
    simp only [List.mem_filter, decide_eq_true_eq, true_and]
    constructor
    · rintro ⟨e, ⟨he, hne⟩, rfl⟩
      exact ⟨⟨e, he, rfl⟩, by simpa using hne⟩
    · rintro ⟨⟨e, he, rfl⟩, hne⟩
      exact ⟨e, ⟨he, by simpa using hne⟩, rfl⟩
  · rw [Function.update_of_ne hc]
    simp [hc]

theorem isPresent_enter {callsign : String} :
    (s.enter channelId userId callsign).isPresent c u = true ↔
      s.isPresent c u = true ∨ (c = channelId ∧ u = userId) := by
  unfold isPresent enter
  dsimp only
  by_cases hc : c = channelId
  · subst hc
    rw [Function.update_self]
    simp only [true_and]
    split
    · rename_i hany
      rw [List.any_map]
      have hcongr : ((fun e : UserId × String => decide (e.1 = u)) ∘ fun e =>
          if e.1 = userId then (userId, callsign) else e) = fun e => decide (e.1 = u) := by
        funext e
        by_cases he : e.1 = userId
        · simp [he]
        · simp [he]
      rw [hcongr]
      constructor
      · exact fun h => .inl h
      · rintro (h | rfl)
        · exact h
        · exact hany
    · rw [List.any_append, Bool.or_eq_true]
      exact or_congr Iff.rfl (by simpa using eq_comm)
  · rw [Function.update_of_ne hc]
    simp [hc]

theorem subscriptions_upsert_key :
    ((s.upsert channelId k).subscriptions.map Subscription.key) =
      if s.subscriptions.any fun sub => sub.key = k then s.subscriptions.map Subscription.key
      else s.subscriptions.map Subscription.key ++ [k] := by
  unfold upsert
  dsimp only
  split
  · rw [List.map_map]
    refine List.map_congr_left fun sub _ => ?_
    simp only [Function.comp_apply]
    split <;> rfl
  · rw [List.map_append]
    rfl

theorem uniq_upsert (huniq : (s.subscriptions.map Subscription.key).Nodup) :
    ((s.upsert channelId k).subscriptions.map Subscription.key).Nodup := by
  rw [subscriptions_upsert_key]
  split
  · exact huniq
  · rename_i hnone
    refine List.nodup_append.mpr ⟨huniq, by simp, ?_⟩
    intro a ha b hb hab
    obtain ⟨sub, hsub, rfl⟩ := List.mem_map.mp ha
    rw [List.mem_singleton.mp hb] at hab
    exact hnone (List.any_eq_true.mpr ⟨sub, hsub, by simp [hab]⟩)

theorem mem_upsert {sub : Subscription} :
    sub ∈ (s.upsert channelId k).subscriptions →
      (sub ∈ s.subscriptions ∧ sub.key ≠ k) ∨ (sub.key = k ∧ sub.channelId = channelId) := by
  unfold upsert
  dsimp only
  split
  · intro h
    obtain ⟨sub', hsub', rfl⟩ := List.mem_map.mp h
    by_cases hk : sub'.key = k
    · rw [if_pos hk]
      exact .inr ⟨hk, rfl⟩
    · rw [if_neg hk]
      exact .inl ⟨hsub', hk⟩
  · rename_i hnone
    intro h
    rcases List.mem_append.mp h with h | h
    · refine .inl ⟨h, fun hk => hnone (List.any_eq_true.mpr ⟨sub, h, by simp [hk]⟩)⟩
    · rw [List.mem_singleton.mp h]
      exact .inr ⟨rfl, rfl⟩

theorem row_upsert {k' : Key} :
    (s.upsert channelId k).row k' = if k' = k then some channelId else s.row k' := by
  unfold row upsert
  dsimp only
  split
  · rename_i hany
    have hkeys : (fun sub : Subscription => decide (sub.key = k')) ∘ (fun sub =>
        if sub.key = k then { sub with channelId := channelId, joinedAt := s.clock } else sub) =
          fun sub => decide (sub.key = k') := by
      funext sub
      simp only [Function.comp_apply]
      split <;> rfl
    rw [List.find?_map, hkeys]
    cases hfind : s.subscriptions.find? fun sub => sub.key = k' with
    | none =>
        rw [if_neg]
        · rfl
        · rintro rfl
          obtain ⟨sub, hsub, hk⟩ := List.any_eq_true.mp hany
          exact List.find?_eq_none.mp hfind sub hsub hk
    | some sub =>
        have hk' : sub.key = k' := by simpa using List.find?_some hfind
        by_cases hk : k' = k
        · simp [hk', hk]
        · simp [hk', hk]
  · rename_i hnone
    rw [List.find?_append]
    by_cases hk : k' = k
    · have hold : s.subscriptions.find? (fun sub => decide (sub.key = k')) = none := by
        refine List.find?_eq_none.mpr fun sub hsub hmem => hnone ?_
        exact List.any_eq_true.mpr ⟨sub, hsub, hk ▸ hmem⟩
      rw [hold, if_pos hk]
      simp [Subscription.key, hk]
    · have hnew : ([⟨channelId, k.1, k.2, s.clock⟩] : List Subscription).find?
          (fun sub => decide (sub.key = k')) = none := by
        simpa [Subscription.key] using fun h : k = k' => hk h.symm
      rw [hnew, Option.or_none, if_neg hk]

end Writes

/-! ## What a request under way expects -/

/-- The map lists the user in the channel of the row. -/
def Agree (row : Option String) (isIn : String → Prop) : Prop :=
  ∀ c, isIn c ↔ row = some c

namespace Await

/-- What a request that is at a user's row finds there and in the map. -/
def expects (k : Key) (row : Option String) (isIn : String → Prop) : Await → Prop
  | joinSelect _ | pingUpsert _ | evictDelete _ _ _ | sweepDelete | moveSelect _ _ _ => True
  | joinLeaveOld _ oldChannelId => row = some oldChannelId ∧ Agree row isIn
  | joinUpsert v => (row = some v.channelId ∧ Agree row isIn) ∨ ∀ c, ¬ isIn c
  | joinEnter v | pingEnter v => row = some v.channelId ∧ ∀ c, isIn c → c = v.channelId
  | evictRemove _ _ channelId => row ≠ some channelId ∧
      (∀ c, c ≠ channelId → (isIn c ↔ row = some c)) ∧ (row ≠ none → ¬ isIn channelId)
  | sweepRemove stale => ∀ sub ∈ stale, sub.key = k →
      row = none ∧ ∀ c, isIn c ↔ c = sub.channelId
  | moveUpsert _ _ subs => ∀ sub ∈ subs, sub.key = k →
      row = some sub.channelId ∧ ∀ c, isIn c ↔ c = sub.channelId
  | moveEnter _ toChannelId subs => ∀ sub ∈ subs, sub.key = k →
      row = some toChannelId ∧ ∀ c, isIn c ↔ c = sub.channelId

/-- What has been checked before. -/
def checked (env : Env) : Await → Prop
  | joinSelect v | joinLeaveOld v _ | joinUpsert v | joinEnter v | pingEnter v =>
      mayUse env.roster v.userId v.channelId v.orgId = true
  | moveUpsert orgId toChannelId subs | moveEnter orgId toChannelId subs =>
      (subs.map Subscription.key).Nodup ∧ ∀ sub ∈ subs, sub.orgId = orgId ∧
        mayUse env.roster sub.userId toChannelId orgId = true
  | pingUpsert _ | evictDelete _ _ _ | evictRemove _ _ _ | sweepDelete | sweepRemove _
  | moveSelect _ _ _ => True

end Await

/-- The map follows the table, but where a request is between the two. -/
structure Inv (env : Env) (s : State) : Prop where
  rows : (s.subscriptions.map Subscription.key).Nodup
  present : ∀ c u, s.isPresent c u = true → ∃ orgId, mayUse env.roster u c orgId = true
  subscribed : ∀ sub ∈ s.subscriptions, mayUse env.roster sub.userId sub.channelId sub.orgId = true
  ids : (s.waiting.map Prod.fst).Nodup
  checked : ∀ e ∈ s.waiting, e.2.checked env
  exclusive : ∀ e ∈ s.waiting, ∀ e' ∈ s.waiting, ∀ k, e.2.holds k = true → e'.2.holds k = true →
    e.1 = e'.1
  expects : ∀ e ∈ s.waiting, ∀ k, e.2.holds k = true → e.2.expects k (s.row k) (s.isIn env k)
  agree : ∀ k, s.held k = false → Agree (s.row k) (s.isIn env k)

theorem inv_initial (env : Env) : Inv env .initial where
  rows := .nil
  present _ _ h := by cases h
  subscribed _ h := by cases h
  ids := .nil
  checked _ h := by cases h
  exclusive _ h := by cases h
  expects _ h := by cases h
  agree k _ c := by
    constructor
    · rintro ⟨h, -⟩
      cases h
    · intro h
      cases h

theorem held_iff : s.held k = true ↔ ∃ e ∈ s.waiting, e.2.holds k = true :=
  List.any_eq_true

variable {t : ℕ}

theorem mem_go {a : Option Await} {e : ℕ × Await} :
    e ∈ (s.go t a).waiting ↔ (e ∈ s.waiting ∧ e.1 ≠ t) ∨ ∃ b, a = some b ∧ e = (t, b) := by
  unfold go
  rw [List.mem_append, List.mem_filter]
  refine or_congr (by simp) ?_
  cases a with
  | none => simp
  | some b => simp

theorem ids_go {a : Option Await} (h : (s.waiting.map Prod.fst).Nodup) :
    ((s.go t a).waiting.map Prod.fst).Nodup := by
  unfold go
  rw [List.map_append, List.nodup_append]
  refine ⟨h.sublist (List.filter_sublist.map _), ?_, ?_⟩
  · cases a with
    | none => exact .nil
    | some a => exact List.nodup_singleton _
  · intro i hi j hj hij
    obtain ⟨e, he, rfl⟩ := List.mem_map.mp hi
    have hne : e.1 ≠ t := by simpa using (List.mem_filter.mp he).2
    cases a with
    | none => cases hj
    | some a => exact hne (hij.trans (List.mem_singleton.mp hj))

/-- A turn of a request keeps the invariant if the request has what it touches for itself and leaves
it as it goes on to expect it, or as it was found. -/
theorem Inv.proceed (h : Inv env s) {s₁ : State} {a : Await} {a' : Option Await}
    (ha : (t, a) ∈ s.waiting) (hwaiting : s₁.waiting = s.waiting) {T : Key → Prop}
    (hrows : (s₁.subscriptions.map Subscription.key).Nodup)
    (hpresent : ∀ c u, s₁.isPresent c u = true → ∃ orgId, mayUse env.roster u c orgId = true)
    (hsubscribed : ∀ sub ∈ s₁.subscriptions, mayUse env.roster sub.userId sub.channelId sub.orgId = true)
    (hchecked : ∀ b, a' = some b → b.checked env)
    (hframe : ∀ k, ¬ T k → s₁.row k = s.row k ∧ ∀ c, s₁.isIn env k c ↔ s.isIn env k c)
    (hfree : ∀ k, T k → a.holds k = true ∨ s.held k = false)
    (hbefore : ∀ k, a.holds k = true → T k)
    (hafter : ∀ b, a' = some b → ∀ k, b.holds k = true → T k ∧ b.expects k (s₁.row k) (s₁.isIn env k))
    (hleft : ∀ k, T k → (∀ b, a' = some b → b.holds k = false) → Agree (s₁.row k) (s₁.isIn env k)) :
    Inv env (s₁.go t a') := by
  -- Another request is at nobody that is touched.
  have hother : ∀ e ∈ s.waiting, e.1 ≠ t → ∀ k, e.2.holds k = true → ¬ T k := by
    intro e he hne k hk hT
    rcases hfree k hT with hak | hheld
    · exact hne (h.exclusive e he (t, a) ha k hk hak)
    · have hheld' : s.held k = true := held_iff.mpr ⟨e, he, hk⟩
      rw [hheld] at hheld'
      cases hheld'
  have hmem : ∀ e, e ∈ (s₁.go t a').waiting ↔
      (e ∈ s.waiting ∧ e.1 ≠ t) ∨ ∃ b, a' = some b ∧ e = (t, b) := by
    intro e
    rw [mem_go, hwaiting]
  refine ⟨hrows, hpresent, hsubscribed, ids_go (hwaiting ▸ h.ids), ?_, ?_, ?_, ?_⟩
  · intro e he
    rcases (hmem e).mp he with ⟨he, -⟩ | ⟨b, hb, rfl⟩
    · exact h.checked e he
    · exact hchecked b hb
  · intro e he e' he' k hk hk'
    rcases (hmem e).mp he with ⟨he, hne⟩ | ⟨b, hb, rfl⟩
    · rcases (hmem e').mp he' with ⟨he', -⟩ | ⟨b', hb', rfl⟩
      · exact h.exclusive e he e' he' k hk hk'
      · exact absurd (hafter b' hb' k hk').1 (hother e he hne k hk)
    · rcases (hmem e').mp he' with ⟨he', hne'⟩ | ⟨b', -, rfl⟩
      · exact absurd (hafter b hb k hk).1 (hother e' he' hne' k hk')
      · rfl
  · intro e he k hk
    rcases (hmem e).mp he with ⟨he, hne⟩ | ⟨b, hb, rfl⟩
    · obtain ⟨hrow, hin⟩ := hframe k (hother e he hne k hk)
      have hin' : s₁.isIn env k = s.isIn env k := funext fun c => propext (hin c)
      change e.2.expects k (s₁.row k) (s₁.isIn env k)
      rw [hrow, hin']
      exact h.expects e he k hk
    · exact (hafter b hb k hk).2
  · intro k hk
    have hnone : ∀ e ∈ (s₁.go t a').waiting, e.2.holds k = false := by
      intro e he
      by_contra hholds
      rw [Bool.not_eq_false] at hholds
      have hheld := held_iff.mpr ⟨e, he, hholds⟩
      rw [hk] at hheld
      cases hheld
    change Agree (s₁.row k) (s₁.isIn env k)
    by_cases hT : T k
    · exact hleft k hT fun b hb => hnone (t, b) ((hmem _).mpr (.inr ⟨b, hb, rfl⟩))
    · obtain ⟨hrow, hin⟩ := hframe k hT
      have hin' : s₁.isIn env k = s.isIn env k := funext fun c => propext (hin c)
      rw [hrow, hin']
      refine h.agree k ?_
      by_contra hheld
      rw [Bool.not_eq_false, held_iff] at hheld
      obtain ⟨e, he, hholds⟩ := hheld
      by_cases het : e.1 = t
      · have hsame : e = (t, a) := List.inj_on_of_nodup_map h.ids he ha het
        rw [hsame] at hholds
        exact hT (hbefore k hholds)
      · have hfalse := hnone e ((hmem e).mpr (.inl ⟨he, het⟩))
        rw [hholds] at hfalse
        cases hfalse

/-! ## The channels of an organization -/

theorem getChannelScope_isSome {t : Roster} {c o : String} (h : (t.getChannelScope c o).isSome) :
    ∃ channel ∈ t.channels, channel.id = c ∧ channel.orgId = o := by
  obtain ⟨scope, hscope⟩ := Option.isSome_iff_exists.mp h
  obtain ⟨channel, hfind, -⟩ := Option.bind_eq_some_iff.mp hscope
  have hkey := List.find?_some hfind
  rw [Bool.and_eq_true, decide_eq_true_eq, decide_eq_true_eq] at hkey
  exact ⟨channel, List.mem_of_find?_eq_some hfind, hkey⟩

/-- A channel is of one organization. -/
theorem org_unique {c o o' : String} (h : (env.roster.getChannelScope c o).isSome)
    (h' : (env.roster.getChannelScope c o').isSome) : o = o' := by
  obtain ⟨channel, hmem, hid, rfl⟩ := getChannelScope_isSome h
  obtain ⟨channel', hmem', hid', rfl⟩ := getChannelScope_isSome h'
  rw [List.inj_on_of_nodup_map env.channelKeys hmem hmem' (hid.trans hid'.symm)]

section Moves

variable {c u : String} {c₀ u₀ orgId toChannelId : String}

theorem isIn_enter {callsign : String} :
    (s.enter c₀ u₀ callsign).isIn env k c ↔
      s.isIn env k c ∨ (c = c₀ ∧ k.1 = u₀ ∧ (env.roster.getChannelScope c₀ k.2).isSome) := by
  unfold isIn
  rw [isPresent_enter]
  constructor
  · rintro ⟨h | ⟨rfl, hu⟩, hscope⟩
    · exact .inl ⟨h, hscope⟩
    · exact .inr ⟨rfl, hu, hscope⟩
  · rintro (⟨h, hscope⟩ | ⟨rfl, hu, hscope⟩)
    · exact ⟨.inl h, hscope⟩
    · exact ⟨.inr ⟨rfl, hu⟩, hscope⟩

theorem isIn_remove : (s.remove c₀ u₀).isIn env k c ↔ s.isIn env k c ∧ ¬ (c = c₀ ∧ k.1 = u₀) := by
  unfold isIn
  rw [isPresent_remove]
  tauto

theorem isPresent_removeAll (stale : List Subscription) (s : State) :
    ((stale.foldl (fun s sub => s.remove sub.channelId sub.userId) s).isPresent c u = true ↔
      s.isPresent c u = true ∧ ∀ sub ∈ stale, ¬ (c = sub.channelId ∧ u = sub.userId)) ∧
      (stale.foldl (fun s sub => s.remove sub.channelId sub.userId) s).subscriptions =
        s.subscriptions ∧
      (stale.foldl (fun s sub => s.remove sub.channelId sub.userId) s).waiting = s.waiting := by
  induction stale generalizing s with
  | nil => simp
  | cons sub stale ih =>
      obtain ⟨hpresent, hsubscriptions, hwaiting⟩ := ih (s.remove sub.channelId sub.userId)
      refine ⟨?_, hsubscriptions, hwaiting⟩
      rw [List.foldl_cons, hpresent, isPresent_remove, List.forall_mem_cons]
      tauto

/-- The row of everybody who is moved names the new channel. -/
theorem row_upsertAll (subs : List Subscription) (s : State) :
    ((subs.foldl (fun s sub => s.upsert toChannelId (sub.userId, orgId)) s).row k =
      if k ∈ subs.map (fun sub => (sub.userId, orgId)) then some toChannelId else s.row k) ∧
      (subs.foldl (fun s sub => s.upsert toChannelId (sub.userId, orgId)) s).presence =
        s.presence ∧
      (subs.foldl (fun s sub => s.upsert toChannelId (sub.userId, orgId)) s).waiting =
        s.waiting := by
  induction subs generalizing s with
  | nil => simp
  | cons sub subs ih =>
      obtain ⟨hrow, hpresence, hwaiting⟩ := ih (s.upsert toChannelId (sub.userId, orgId))
      refine ⟨?_, hpresence, hwaiting⟩
      rw [List.foldl_cons, hrow, row_upsert]
      by_cases hk : k = (sub.userId, orgId)
      · simp [hk]
      · simp [hk]

theorem subscriptions_upsertAll (subs : List Subscription) (s : State)
    (huniq : (s.subscriptions.map Subscription.key).Nodup) :
    ((subs.foldl (fun s sub => s.upsert toChannelId (sub.userId, orgId)) s).subscriptions.map
      Subscription.key).Nodup ∧
    ∀ row ∈ (subs.foldl (fun s sub => s.upsert toChannelId (sub.userId, orgId)) s).subscriptions,
      row ∈ s.subscriptions ∨
        (row.channelId = toChannelId ∧ ∃ sub ∈ subs, row.key = (sub.userId, orgId)) := by
  induction subs generalizing s with
  | nil => exact ⟨huniq, fun row hrow => .inl hrow⟩
  | cons sub subs ih =>
      obtain ⟨huniq', hmem⟩ := ih (s.upsert toChannelId (sub.userId, orgId)) (uniq_upsert huniq)
      refine ⟨huniq', fun row hrow => ?_⟩
      rcases hmem row hrow with hrow | ⟨hchannel, sub', hsub', hkey⟩
      · rcases mem_upsert hrow with ⟨hrow, -⟩ | ⟨hkey, hchannel⟩
        · exact .inl hrow
        · exact .inr ⟨hchannel, sub, List.mem_cons_self, hkey⟩
      · exact .inr ⟨hchannel, sub', List.mem_cons_of_mem _ hsub', hkey⟩

/-- Everybody who is moved leaves the old channel for the new one. -/
theorem isPresent_moveAll (subs : List Subscription) (s : State)
    (hnodup : (subs.map Subscription.userId).Nodup) :
    ((subs.foldl (fun s sub => (s.remove sub.channelId sub.userId).enter toChannelId sub.userId
        (env.callsign sub.userId)) s).isPresent c u = true ↔
      (s.isPresent c u = true ∧ ∀ sub ∈ subs, ¬ (c = sub.channelId ∧ u = sub.userId)) ∨
        (c = toChannelId ∧ ∃ sub ∈ subs, u = sub.userId)) ∧
      (subs.foldl (fun s sub => (s.remove sub.channelId sub.userId).enter toChannelId sub.userId
        (env.callsign sub.userId)) s).subscriptions = s.subscriptions ∧
      (subs.foldl (fun s sub => (s.remove sub.channelId sub.userId).enter toChannelId sub.userId
        (env.callsign sub.userId)) s).waiting = s.waiting := by
  induction subs generalizing s with
  | nil => simp
  | cons sub subs ih =>
      obtain ⟨hnew, hnodup⟩ := List.nodup_cons.mp hnodup
      obtain ⟨hpresent, hsubscriptions, hwaiting⟩ := ih ((s.remove sub.channelId sub.userId).enter
        toChannelId sub.userId (env.callsign sub.userId)) hnodup
      refine ⟨?_, hsubscriptions, hwaiting⟩
      rw [List.foldl_cons, hpresent, isPresent_enter, isPresent_remove, List.forall_mem_cons]
      have hother : u = sub.userId → ∀ sub' ∈ subs, ¬ u = sub'.userId := by
        rintro rfl sub' hsub' hu
        exact hnew (List.mem_map.mpr ⟨sub', hsub', hu.symm⟩)
      constructor
      · rintro (⟨⟨hold, hleft⟩ | ⟨rfl, hu⟩, hothers⟩ | ⟨rfl, sub', hsub', hu⟩)
        · exact .inl ⟨hold, hleft, hothers⟩
        · exact .inr ⟨rfl, sub, List.mem_cons_self, hu⟩
        · exact .inr ⟨rfl, sub', List.mem_cons_of_mem _ hsub', hu⟩
      · rintro (⟨hold, hleft, hothers⟩ | ⟨rfl, sub', hsub', hu⟩)
        · exact .inl ⟨.inl ⟨hold, hleft⟩, hothers⟩
        · rcases List.mem_cons.mp hsub' with rfl | hsub'
          · exact .inl ⟨.inr ⟨rfl, hu⟩, fun sub'' hsub'' hc => hother hu sub'' hsub'' hc.2⟩
          · exact .inr ⟨rfl, sub', hsub', hu⟩

end Moves

/-! ## Turns -/

section Turns

variable {t : ℕ}

/-- Nothing changes but what the request waits for. -/
theorem Inv.wait (h : Inv env s) {a b : Await} (ha : (t, a) ∈ s.waiting) {keys : List Key}
    (hkeys : ∀ k ∈ keys, s.held k = false) (hbefore : ∀ k, a.holds k = false)
    (hchecked : b.checked env)
    (hafter : ∀ k, b.holds k = true → k ∈ keys ∧ b.expects k (s.row k) (s.isIn env k)) :
    Inv env (s.go t (some b)) := by
  refine h.proceed ha rfl (T := fun k => k ∈ keys) h.rows h.present h.subscribed ?_
    (fun k _ => ⟨rfl, fun c => Iff.rfl⟩) (fun k hk => .inr (hkeys k hk)) ?_ ?_ ?_
  · rintro _ ⟨⟩
    exact hchecked
  · intro k hk
    rw [hbefore k] at hk
    cases hk
  · rintro _ ⟨⟩ k hk
    exact hafter k hk
  · exact fun k hk _ => h.agree k (hkeys k hk)

theorem Inv.joinSelect (h : Inv env s) {v : Visit} (ha : (t, Await.joinSelect v) ∈ s.waiting)
    (hfree : s.held v.key = false) :
    Inv env ((s.proceed env (.joinSelect v)).1.go t (s.proceed env (.joinSelect v)).2) := by
  have hagree := h.agree _ hfree
  have hchecked := h.checked _ ha
  have hkeys : ∀ k ∈ [v.key], s.held k = false := by simpa using hfree
  unfold State.proceed
  dsimp only
  cases hrow : s.row v.key with
  | none =>
      refine h.wait ha hkeys (fun _ => rfl) hchecked fun k hk => ?_
      obtain rfl : v.key = k := of_decide_eq_true hk
      refine ⟨by simp, .inr fun c hc => ?_⟩
      have hc := (hagree c).mp hc
      rw [hrow] at hc
      cases hc
  | some oldChannelId =>
      dsimp only
      split
      · refine h.wait ha hkeys (fun _ => rfl) hchecked fun k hk => ?_
        obtain rfl : v.key = k := of_decide_eq_true hk
        exact ⟨by simp, hrow, hagree⟩
      · rename_i hsame
        rw [not_not] at hsame
        refine h.wait ha hkeys (fun _ => rfl) hchecked fun k hk => ?_
        obtain rfl : v.key = k := of_decide_eq_true hk
        exact ⟨by simp, .inl ⟨hsame ▸ hrow, hagree⟩⟩

theorem Inv.joinLeaveOld (h : Inv env s) {v : Visit} {oldChannelId : String}
    (ha : (t, Await.joinLeaveOld v oldChannelId) ∈ s.waiting) :
    Inv env ((s.remove oldChannelId v.userId).go t (some (.joinUpsert v))) := by
  obtain ⟨hrow, hagree⟩ := h.expects _ ha v.key (decide_eq_true rfl)
  have hold : s.isIn env v.key oldChannelId := (hagree oldChannelId).mpr hrow
  refine h.proceed ha rfl (T := fun k => v.key = k) h.rows ?_ h.subscribed ?_ ?_ ?_ ?_ ?_ ?_
  · exact fun c u hc => h.present c u (isPresent_remove.mp hc).1
  · rintro _ ⟨⟩
    exact h.checked _ ha
  · refine fun k hk => ⟨rfl, fun c => ?_⟩
    rw [isIn_remove, and_iff_left_iff_imp]
    rintro ⟨-, hscope⟩ ⟨rfl, hu⟩
    exact hk (Prod.ext hu.symm (org_unique hold.2 hscope))
  · exact fun k hk => .inl (decide_eq_true hk)
  · exact fun k hk => of_decide_eq_true hk
  · rintro _ ⟨⟩ k hk
    obtain rfl : v.key = k := of_decide_eq_true hk
    refine ⟨rfl, .inr fun c hc => ?_⟩
    obtain ⟨hin, hne⟩ := isIn_remove.mp hc
    have hc := (hagree c).mp hin
    rw [hrow] at hc
    exact hne ⟨(Option.some.inj hc).symm, rfl⟩
  · intro k hk hnot
    have hholds := hnot _ rfl
    rw [show (Await.joinUpsert v).holds k = true from decide_eq_true hk] at hholds
    cases hholds

/-- The row of a join or a ping, and then the map. -/
theorem Inv.upsert (h : Inv env s) {v : Visit} {a b : Await} (ha : (t, a) ∈ s.waiting)
    (hb : b = .joinEnter v ∨ b = .pingEnter v)
    (hmay : mayUse env.roster v.userId v.channelId v.orgId = true)
    (hfree : a.holds v.key = true ∨ s.held v.key = false)
    (hbefore : ∀ k, a.holds k = true → v.key = k)
    (hin : ∀ c, s.isIn env v.key c → c = v.channelId) :
    Inv env ((s.upsert v.channelId v.key).go t (some b)) := by
  have hholds : ∀ k, b.holds k = true ↔ v.key = k := by
    rcases hb with rfl | rfl
    · exact fun k => decide_eq_true_iff
    · exact fun k => decide_eq_true_iff
  refine h.proceed ha rfl (T := fun k => v.key = k) (uniq_upsert h.rows) h.present ?_ ?_ ?_ ?_
    hbefore ?_ ?_
  · intro sub hsub
    rcases mem_upsert hsub with ⟨hsub, -⟩ | ⟨hkey, hchannel⟩
    · exact h.subscribed sub hsub
    · obtain ⟨hu, ho⟩ := Prod.mk.inj hkey
      rw [hu, ho, hchannel]
      exact hmay
  · rintro _ ⟨⟩
    rcases hb with rfl | rfl
    · exact hmay
    · exact hmay
  · intro k hk
    rw [row_upsert, if_neg (Ne.symm hk)]
    exact ⟨rfl, fun c => Iff.rfl⟩
  · rintro k rfl
    exact hfree
  · rintro _ ⟨⟩ k hk
    obtain rfl := (hholds k).mp hk
    have hrow : (s.upsert v.channelId v.key).row v.key = some v.channelId := by
      rw [row_upsert, if_pos rfl]
    rcases hb with rfl | rfl
    · exact ⟨rfl, hrow, hin⟩
    · exact ⟨rfl, hrow, hin⟩
  · intro k hk hnot
    have hholds := (hholds k).mpr hk
    rw [hnot _ rfl] at hholds
    cases hholds

theorem Inv.enter (h : Inv env s) {v : Visit} {a : Await} (ha : (t, a) ∈ s.waiting)
    (hb : a = .joinEnter v ∨ a = .pingEnter v) :
    Inv env ((s.enter v.channelId v.userId v.callsign).go t none) := by
  have hholds : ∀ k, a.holds k = true ↔ v.key = k := by
    rcases hb with rfl | rfl
    · exact fun k => decide_eq_true_iff
    · exact fun k => decide_eq_true_iff
  have hmay : mayUse env.roster v.userId v.channelId v.orgId = true := by
    have hchecked := h.checked _ ha
    rcases hb with rfl | rfl
    · exact hchecked
    · exact hchecked
  have hexpects := h.expects _ ha v.key ((hholds _).mpr rfl)
  obtain ⟨hrow, hin⟩ : s.row v.key = some v.channelId ∧ ∀ c, s.isIn env v.key c → c = v.channelId := by
    rcases hb with rfl | rfl
    · exact hexpects
    · exact hexpects
  refine h.proceed ha rfl (T := fun k => v.key = k) h.rows ?_ h.subscribed (by simp) ?_ ?_ ?_ ?_ ?_
  · intro c u hc
    rcases isPresent_enter.mp hc with hc | ⟨rfl, rfl⟩
    · exact h.present c u hc
    · exact ⟨v.orgId, hmay⟩
  · refine fun k hk => ⟨rfl, fun c => ?_⟩
    rw [isIn_enter, or_iff_left]
    rintro ⟨rfl, hu, hscope⟩
    exact hk (Prod.ext hu.symm (org_unique (mayUse_isSome hmay) hscope))
  · exact fun k hk => .inl ((hholds k).mpr hk)
  · exact fun k hk => (hholds k).mp hk
  · rintro _ ⟨⟩
  · rintro k rfl -
    intro c
    rw [isIn_enter]
    change _ ↔ s.row v.key = some c
    rw [hrow]
    constructor
    · rintro (hc | ⟨rfl, -, -⟩)
      · rw [hin c hc]
      · rfl
    · intro hc
      exact .inr ⟨(Option.some.inj hc).symm, rfl, mayUse_isSome hmay⟩

variable {p : Subscription → Bool}

theorem uniq_delete (h : (s.subscriptions.map Subscription.key).Nodup) :
    ((s.delete p).subscriptions.map Subscription.key).Nodup :=
  h.sublist (List.filter_sublist.map _)

/-- The row of a user none of whose rows is deleted. -/
theorem row_delete_other (h : (s.subscriptions.map Subscription.key).Nodup)
    (hk : ∀ sub ∈ s.subscriptions, sub.key = k → p sub = false) : (s.delete p).row k = s.row k := by
  refine Option.ext fun c => ?_
  rw [row_delete h, row_eq_some h]
  constructor
  · rintro ⟨sub, hsub, hkey, hc, -⟩
    exact ⟨sub, hsub, hkey, hc⟩
  · rintro ⟨sub, hsub, hkey, hc⟩
    exact ⟨sub, hsub, hkey, hc, hk sub hsub hkey⟩

variable {channelId userId orgId toChannelId : String}

theorem Inv.evictDelete (h : Inv env s)
    (ha : (t, Await.evictDelete userId orgId channelId) ∈ s.waiting)
    (hfree : s.held (userId, orgId) = false) :
    Inv env ((s.delete fun sub => sub.key = (userId, orgId) && sub.channelId = channelId).go t
      (some (.evictRemove userId orgId channelId))) := by
  have hagree := h.agree _ hfree
  refine h.proceed ha rfl (T := fun k => (userId, orgId) = k) (uniq_delete h.rows) h.present ?_ ?_ ?_
    ?_ ?_ ?_ ?_
  · exact fun sub hsub => h.subscribed sub (List.mem_filter.mp hsub).1
  · rintro _ ⟨⟩
    trivial
  · intro k hk
    refine ⟨row_delete_other h.rows fun sub _ hkey => ?_, fun c => Iff.rfl⟩
    have hne : sub.key ≠ (userId, orgId) := fun heq => hk (heq.symm.trans hkey)
    simp [hne]
  · rintro k rfl
    exact .inr hfree
  · rintro k ⟨⟩
  · rintro _ ⟨⟩ k hk
    obtain rfl : (userId, orgId) = k := of_decide_eq_true hk
    -- What is left of the row is another channel's.
    have hrow : ∀ c, (s.delete fun sub => sub.key = (userId, orgId) &&
        sub.channelId = channelId).row (userId, orgId) = some c ↔
          s.row (userId, orgId) = some c ∧ c ≠ channelId := by
      intro c
      rw [row_delete h.rows, row_eq_some h.rows]
      constructor
      · rintro ⟨sub, hsub, hkey, rfl, hp⟩
        refine ⟨⟨sub, hsub, hkey, rfl⟩, fun hc => ?_⟩
        rw [hkey, hc] at hp
        simp at hp
      · rintro ⟨⟨sub, hsub, hkey, rfl⟩, hne⟩
        exact ⟨sub, hsub, hkey, rfl, by simp [hne]⟩
    refine ⟨rfl, fun hc => ((hrow channelId).mp hc).2 rfl, fun c hne => ?_, fun hsome hin => ?_⟩
    · rw [hrow c, and_iff_left hne]
      exact hagree c
    · obtain ⟨c, hc⟩ := Option.ne_none_iff_exists'.mp hsome
      obtain ⟨hold, hne⟩ := (hrow c).mp hc
      have hchannel := (hagree channelId).mp hin
      rw [hold] at hchannel
      exact hne (Option.some.inj hchannel)
  · intro k hk hnot
    have hholds := hnot _ rfl
    rw [show (Await.evictRemove userId orgId channelId).holds k = true from
      decide_eq_true hk] at hholds
    cases hholds

theorem Inv.evictRemove (h : Inv env s)
    (ha : (t, Await.evictRemove userId orgId channelId) ∈ s.waiting)
    (hproper : (env.roster.getChannelScope channelId orgId).isSome = true ∨ s.isPresent channelId userId = false) :
    Inv env ((s.remove channelId userId).go t none) := by
  obtain ⟨hrow, hothers, hthere⟩ := h.expects _ ha (userId, orgId) (decide_eq_true rfl)
  refine h.proceed ha rfl (T := fun k => (userId, orgId) = k) h.rows ?_ h.subscribed (by simp) ?_
    ?_ ?_ ?_ ?_
  · exact fun c u hc => h.present c u (isPresent_remove.mp hc).1
  · refine fun k hk => ⟨rfl, fun c => ?_⟩
    rw [isIn_remove, and_iff_left_iff_imp]
    rintro ⟨hpresent, hscope⟩ ⟨rfl, hu⟩
    rcases hproper with hscope' | habsent
    · exact hk (Prod.ext hu.symm (org_unique hscope' hscope))
    · rw [hu, habsent] at hpresent
      cases hpresent
  · exact fun k hk => .inl (decide_eq_true hk)
  · exact fun k hk => of_decide_eq_true hk
  · rintro _ ⟨⟩
  · rintro k rfl -
    intro c
    rw [isIn_remove]
    change _ ↔ s.row (userId, orgId) = some c
    by_cases hc : c = channelId
    · rw [hc]
      constructor
      · exact fun hin => absurd ⟨rfl, rfl⟩ hin.2
      · exact fun hsome => absurd hsome hrow
    · rw [← hothers c hc]
      exact and_iff_left fun hboth => hc hboth.1

theorem Inv.sweepDelete (h : Inv env s) (ha : (t, Await.sweepDelete) ∈ s.waiting)
    (hfree : ∀ sub ∈ s.subscriptions.filter s.isStale, s.held sub.key = false) :
    Inv env ((s.delete s.isStale).go t
      (if s.subscriptions.filter s.isStale = [] then none
        else some (.sweepRemove (s.subscriptions.filter s.isStale)))) := by
  have hstale : ∀ sub ∈ s.subscriptions.filter s.isStale,
      (s.delete s.isStale).row sub.key = none ∧
        ∀ c, s.isIn env sub.key c ↔ c = sub.channelId := by
    intro sub hsub
    obtain ⟨hmem, hs⟩ := List.mem_filter.mp hsub
    constructor
    · refine Option.eq_none_iff_forall_ne_some.mpr fun c hc => ?_
      obtain ⟨sub', hsub', hkey, -, hp⟩ := (row_delete h.rows).mp hc
      rw [List.inj_on_of_nodup_map h.rows hsub' hmem hkey, hs] at hp
      cases hp
    · intro c
      have hrow : s.row sub.key = some sub.channelId :=
        (row_eq_some h.rows).mpr ⟨sub, hmem, rfl, rfl⟩
      rw [h.agree _ (hfree sub hsub) c, hrow, Option.some_inj, eq_comm]
  have hwaits : ∀ b, (if s.subscriptions.filter s.isStale = [] then none
      else some (Await.sweepRemove (s.subscriptions.filter s.isStale))) = some b →
        b = .sweepRemove (s.subscriptions.filter s.isStale) := by
    intro b hb
    split at hb
    · cases hb
    · exact (Option.some.inj hb).symm
  refine h.proceed ha rfl (T := fun k => ∃ sub ∈ s.subscriptions.filter s.isStale, sub.key = k)
    (uniq_delete h.rows) h.present ?_ ?_ ?_ ?_ ?_ ?_ ?_
  · exact fun sub hsub => h.subscribed sub (List.mem_filter.mp hsub).1
  · intro b hb
    rw [hwaits b hb]
    trivial
  · intro k hk
    refine ⟨row_delete_other h.rows fun sub hsub hkey => ?_, fun c => Iff.rfl⟩
    by_contra hs
    rw [Bool.not_eq_false] at hs
    exact hk ⟨sub, List.mem_filter.mpr ⟨hsub, hs⟩, hkey⟩
  · rintro k ⟨sub, hsub, rfl⟩
    exact .inr (hfree sub hsub)
  · rintro k ⟨⟩
  · intro b hb k hk
    rw [hwaits b hb] at hk ⊢
    obtain ⟨sub, hsub, hkey⟩ := List.any_eq_true.mp hk
    refine ⟨⟨sub, hsub, of_decide_eq_true hkey⟩, fun sub' hsub' hkey' => ?_⟩
    rw [← hkey']
    exact hstale sub' hsub'
  · rintro k ⟨sub, hsub, rfl⟩ hnot
    have hholds := hnot (.sweepRemove (s.subscriptions.filter s.isStale))
      (if_neg (List.ne_nil_of_mem hsub))
    have hheld : (Await.sweepRemove (s.subscriptions.filter s.isStale)).holds sub.key = true :=
      List.any_eq_true.mpr ⟨sub, hsub, decide_eq_true rfl⟩
    rw [hheld] at hholds
    cases hholds

theorem Inv.sweepRemove (h : Inv env s) {stale : List Subscription}
    (ha : (t, Await.sweepRemove stale) ∈ s.waiting) :
    Inv env ((stale.foldl (fun s sub => s.remove sub.channelId sub.userId) s).go t none) := by
  set s₁ := stale.foldl (fun s sub => s.remove sub.channelId sub.userId) s with hs₁
  have hpresent : ∀ c u, s₁.isPresent c u = true ↔
      s.isPresent c u = true ∧ ∀ sub ∈ stale, ¬ (c = sub.channelId ∧ u = sub.userId) :=
    fun c u => (isPresent_removeAll stale s).1
  have hsubscriptions : s₁.subscriptions = s.subscriptions := (isPresent_removeAll
    (c := "") (u := "") stale s).2.1
  have hrow : ∀ k, s₁.row k = s.row k := fun k => by rw [State.row, hsubscriptions, State.row]
  have hin : ∀ k c, s₁.isIn env k c ↔ s.isIn env k c ∧
      ∀ sub ∈ stale, ¬ (c = sub.channelId ∧ k.1 = sub.userId) := by
    intro k c
    unfold State.isIn
    rw [hpresent]
    tauto
  have hexpects : ∀ sub ∈ stale, s.row sub.key = none ∧
      ∀ c, s.isIn env sub.key c ↔ c = sub.channelId := fun sub hsub =>
    h.expects _ ha sub.key (List.any_eq_true.mpr ⟨sub, hsub, decide_eq_true rfl⟩) sub hsub rfl
  refine h.proceed ha (isPresent_removeAll (c := "") (u := "") stale s).2.2
    (T := fun k => ∃ sub ∈ stale, sub.key = k) (hsubscriptions ▸ h.rows) ?_
    (hsubscriptions ▸ h.subscribed) (by simp) ?_ ?_ ?_ ?_ ?_
  · exact fun c u hc => h.present c u ((hpresent c u).mp hc).1
  · refine fun k hk => ⟨hrow k, fun c => ?_⟩
    rw [hin, and_iff_left_iff_imp]
    rintro ⟨-, hscope⟩ sub hsub ⟨rfl, hu⟩
    have hold := ((hexpects sub hsub).2 sub.channelId).mpr rfl
    exact hk ⟨sub, hsub, Prod.ext hu.symm (org_unique hold.2 hscope)⟩
  · rintro k ⟨sub, hsub, rfl⟩
    exact .inl (List.any_eq_true.mpr ⟨sub, hsub, decide_eq_true rfl⟩)
  · intro k hk
    obtain ⟨sub, hsub, hkey⟩ := List.any_eq_true.mp hk
    exact ⟨sub, hsub, of_decide_eq_true hkey⟩
  · rintro _ ⟨⟩
  · rintro k ⟨sub, hsub, rfl⟩ -
    intro c
    obtain ⟨hnone, hchannel⟩ := hexpects sub hsub
    rw [hin, hrow, hnone]
    constructor
    · rintro ⟨hc, hleft⟩
      exact absurd ⟨(hchannel c).mp hc, rfl⟩ (hleft sub hsub)
    · intro hc
      cases hc

variable {subs : List Subscription}

theorem holds_of_mem {sub : Subscription} (hsub : sub ∈ subs) :
    (subs.any fun sub' => sub'.key = sub.key) = true :=
  List.any_eq_true.mpr ⟨sub, hsub, decide_eq_true rfl⟩

theorem Inv.moveSelect (h : Inv env s) {fromChannelIds : List String}
    (ha : (t, Await.moveSelect orgId fromChannelIds toChannelId) ∈ s.waiting)
    (hfree : ∀ sub ∈ s.subscribed fromChannelIds, s.held sub.key = false)
    (hproper : ∀ sub ∈ s.subscribed fromChannelIds, sub.orgId = orgId ∧ mayUse env.roster sub.userId toChannelId orgId = true) :
    Inv env (s.go t (if s.subscribed fromChannelIds = [] then none
      else some (.moveUpsert orgId toChannelId (s.subscribed fromChannelIds)))) := by
  split
  · refine h.proceed ha rfl (T := fun _ => False) h.rows h.present h.subscribed (by simp)
      (fun k _ => ⟨rfl, fun c => Iff.rfl⟩) (fun k hk => hk.elim) ?_ ?_ (fun k hk => hk.elim)
    · rintro k ⟨⟩
    · rintro _ ⟨⟩
  · have hkeys : ∀ k ∈ (s.subscribed fromChannelIds).map Subscription.key, s.held k = false := by
      intro k hk
      obtain ⟨sub, hsub, rfl⟩ := List.mem_map.mp hk
      exact hfree sub hsub
    refine h.wait ha hkeys (fun _ => rfl) ⟨h.rows.sublist (List.filter_sublist.map _), hproper⟩
      fun k hk => ?_
    obtain ⟨sub, hsub, hkey⟩ := List.any_eq_true.mp hk
    obtain rfl : sub.key = k := of_decide_eq_true hkey
    refine ⟨List.mem_map_of_mem hsub, fun sub' hsub' hkey' => ?_⟩
    have hrow : s.row sub.key = some sub'.channelId :=
      (row_eq_some h.rows).mpr ⟨sub', (List.mem_filter.mp hsub').1, hkey', rfl⟩
    refine ⟨hrow, fun c => ?_⟩
    rw [h.agree _ (hfree sub hsub) c, hrow, Option.some_inj, eq_comm]

/-- A move that is given up leaves the users as they were found. -/
theorem Inv.moveGivenUp (h : Inv env s)
    (ha : (t, Await.moveUpsert orgId toChannelId subs) ∈ s.waiting) : Inv env (s.go t none) := by
  refine h.proceed ha rfl (T := fun k => ∃ sub ∈ subs, sub.key = k) h.rows h.present h.subscribed
    (by simp) (fun k _ => ⟨rfl, fun c => Iff.rfl⟩) ?_ ?_ ?_ ?_
  · rintro k ⟨sub, hsub, rfl⟩
    exact .inl (holds_of_mem hsub)
  · intro k hk
    obtain ⟨sub, hsub, hkey⟩ := List.any_eq_true.mp hk
    exact ⟨sub, hsub, of_decide_eq_true hkey⟩
  · rintro _ ⟨⟩
  · rintro k ⟨sub, hsub, rfl⟩ - c
    obtain ⟨hrow, hin⟩ := h.expects _ ha sub.key (holds_of_mem hsub) sub hsub rfl
    rw [hin, hrow, Option.some_inj, eq_comm]

theorem Inv.moveUpsert (h : Inv env s)
    (ha : (t, Await.moveUpsert orgId toChannelId subs) ∈ s.waiting) :
    Inv env ((subs.foldl (fun s sub => s.upsert toChannelId (sub.userId, orgId)) s).go t
      (some (.moveEnter orgId toChannelId subs))) := by
  obtain ⟨hkeys, hproper⟩ := h.checked _ ha
  set s₁ := subs.foldl (fun s sub => s.upsert toChannelId (sub.userId, orgId)) s with hs₁
  have hsame : subs.map (fun sub => (sub.userId, orgId)) = subs.map Subscription.key :=
    List.map_congr_left fun sub hsub => Prod.ext rfl (hproper sub hsub).1.symm
  have hrow : ∀ k, s₁.row k =
      if k ∈ subs.map Subscription.key then some toChannelId else s.row k := by
    intro k
    rw [← hsame]
    exact (row_upsertAll subs s).1
  have hpresence : s₁.presence = s.presence := (row_upsertAll (k := ("", "")) subs s).2.1
  have hpresent : ∀ c u, s₁.isPresent c u = s.isPresent c u := by
    intro c u
    rw [State.isPresent, hpresence]
    rfl
  have hin : ∀ k c, s₁.isIn env k c ↔ s.isIn env k c := by
    intro k c
    rw [State.isIn, hpresent]
    rfl
  obtain ⟨huniq, hmem⟩ := subscriptions_upsertAll subs s h.rows
  refine h.proceed ha (row_upsertAll (k := ("", "")) subs s).2.2
    (T := fun k => ∃ sub ∈ subs, sub.key = k) huniq ?_ ?_ ?_ ?_ ?_ ?_ ?_ ?_
  · intro c u hc
    rw [hpresent] at hc
    exact h.present c u hc
  · intro sub hsub
    rcases hmem sub hsub with hsub | ⟨hchannel, sub', hsub', hkey⟩
    · exact h.subscribed sub hsub
    · obtain ⟨hu, ho⟩ := Prod.mk.inj hkey
      rw [hu, ho, hchannel]
      exact (hproper sub' hsub').2
  · rintro _ ⟨⟩
    exact ⟨hkeys, hproper⟩
  · intro k hk
    have hnot : k ∉ subs.map Subscription.key := fun hk' => hk (List.mem_map.mp hk')
    rw [hrow, if_neg hnot]
    exact ⟨rfl, hin k⟩
  · rintro k ⟨sub, hsub, rfl⟩
    exact .inl (holds_of_mem hsub)
  · intro k hk
    obtain ⟨sub, hsub, hkey⟩ := List.any_eq_true.mp hk
    exact ⟨sub, hsub, of_decide_eq_true hkey⟩
  · rintro _ ⟨⟩ k hk
    obtain ⟨sub, hsub, hkey⟩ := List.any_eq_true.mp hk
    obtain rfl : sub.key = k := of_decide_eq_true hkey
    refine ⟨⟨sub, hsub, rfl⟩, fun sub' hsub' hkey' => ?_⟩
    rw [hrow, if_pos (List.mem_map_of_mem hsub)]
    refine ⟨rfl, fun c => ?_⟩
    rw [hin]
    exact (h.expects _ ha sub.key (holds_of_mem hsub) sub' hsub' hkey').2 c
  · rintro k ⟨sub, hsub, rfl⟩ hnot
    have hholds := hnot _ rfl
    rw [show (Await.moveEnter orgId toChannelId subs).holds sub.key = true from
      holds_of_mem hsub] at hholds
    cases hholds

theorem Inv.moveEnter (h : Inv env s)
    (ha : (t, Await.moveEnter orgId toChannelId subs) ∈ s.waiting) :
    Inv env ((subs.foldl (fun s sub => (s.remove sub.channelId sub.userId).enter toChannelId
      sub.userId (env.callsign sub.userId)) s).go t none) := by
  obtain ⟨hkeys, hproper⟩ := h.checked _ ha
  have husers : (subs.map Subscription.userId).Nodup := by
    have hpairs : subs.map Subscription.key = (subs.map Subscription.userId).map (·, orgId) := by
      rw [List.map_map]
      exact List.map_congr_left fun sub hsub => Prod.ext rfl (hproper sub hsub).1
    rw [hpairs] at hkeys
    exact hkeys.of_map _
  set s₁ := subs.foldl (fun s sub => (s.remove sub.channelId sub.userId).enter toChannelId
    sub.userId (env.callsign sub.userId)) s with hs₁
  have hpresent : ∀ c u, s₁.isPresent c u = true ↔
      (s.isPresent c u = true ∧ ∀ sub ∈ subs, ¬ (c = sub.channelId ∧ u = sub.userId)) ∨
        (c = toChannelId ∧ ∃ sub ∈ subs, u = sub.userId) :=
    fun c u => (isPresent_moveAll subs s husers).1
  have hsubscriptions : s₁.subscriptions = s.subscriptions :=
    (isPresent_moveAll (c := "") (u := "") subs s husers).2.1
  have hrow : ∀ k, s₁.row k = s.row k := fun k => by rw [State.row, hsubscriptions, State.row]
  have hexpects : ∀ sub ∈ subs, s.row sub.key = some toChannelId ∧
      ∀ c, s.isIn env sub.key c ↔ c = sub.channelId := fun sub hsub =>
    h.expects _ ha sub.key (holds_of_mem hsub) sub hsub rfl
  refine h.proceed ha (isPresent_moveAll (c := "") (u := "") subs s husers).2.2
    (T := fun k => ∃ sub ∈ subs, sub.key = k) (hsubscriptions ▸ h.rows) ?_
    (hsubscriptions ▸ h.subscribed) (by simp) ?_ ?_ ?_ ?_ ?_
  · intro c u hc
    rcases (hpresent c u).mp hc with ⟨hc, -⟩ | ⟨rfl, sub, hsub, rfl⟩
    · exact h.present c u hc
    · exact ⟨orgId, (hproper sub hsub).2⟩
  · refine fun k hk => ⟨hrow k, fun c => ?_⟩
    unfold State.isIn
    rw [hpresent, and_congr_left_iff]
    intro hscope
    constructor
    · rintro (⟨hc, -⟩ | ⟨rfl, sub, hsub, hu⟩)
      · exact hc
      · refine absurd ⟨sub, hsub, Prod.ext hu.symm ?_⟩ hk
        exact (hproper sub hsub).1.trans (org_unique (mayUse_isSome (hproper sub hsub).2) hscope)
    · intro hc
      refine .inl ⟨hc, ?_⟩
      rintro sub hsub ⟨rfl, hu⟩
      have hold := ((hexpects sub hsub).2 sub.channelId).mpr rfl
      exact hk ⟨sub, hsub, Prod.ext hu.symm (org_unique hold.2 hscope)⟩
  · rintro k ⟨sub, hsub, rfl⟩
    exact .inl (holds_of_mem hsub)
  · intro k hk
    obtain ⟨sub, hsub, hkey⟩ := List.any_eq_true.mp hk
    exact ⟨sub, hsub, of_decide_eq_true hkey⟩
  · rintro _ ⟨⟩
  · rintro k ⟨sub, hsub, rfl⟩ - c
    obtain ⟨hto, hold⟩ := hexpects sub hsub
    rw [hrow, hto, Option.some_inj]
    unfold State.isIn
    rw [hpresent]
    constructor
    · rintro ⟨⟨hc, hleft⟩ | ⟨rfl, -⟩, hscope⟩
      · exact absurd ⟨(hold c).mp ⟨hc, hscope⟩, rfl⟩ (hleft sub hsub)
      · rfl
    · rintro rfl
      refine ⟨.inr ⟨rfl, sub, hsub, rfl⟩, ?_⟩
      have hscope := mayUse_isSome (hproper sub hsub).2
      rwa [← (hproper sub hsub).1] at hscope

/-- An undisturbed turn of a request keeps the invariant. -/
theorem Inv.next (h : Inv env s) {a : Await} (ha : (t, a) ∈ s.waiting)
    (hfree : ∀ k ∈ s.taken a, s.held k = false) (hproper : s.proper env a = true) :
    Inv env ((s.proceed env a).1.go t (s.proceed env a).2) := by
  cases a with
  | joinSelect v => exact h.joinSelect ha (hfree v.key (by simp [taken]))
  | joinLeaveOld v oldChannelId => exact h.joinLeaveOld ha
  | joinUpsert v =>
      refine h.upsert ha (.inl rfl) (h.checked _ ha) (.inl (decide_eq_true rfl))
        (fun k hk => of_decide_eq_true hk) fun c hc => ?_
      rcases h.expects _ ha v.key (decide_eq_true rfl) with ⟨hrow, hagree⟩ | hnone
      · have hc := (hagree c).mp hc
        rw [hrow] at hc
        exact (Option.some.inj hc).symm
      · exact absurd hc (hnone c)
  | joinEnter v => exact h.enter ha (.inl rfl)
  | pingUpsert v =>
      have hkey := hfree v.key (by simp [taken])
      unfold State.proceed
      dsimp only
      split
      · rename_i hexists
        simp only [State.proper] at hproper
        rw [hexists, Bool.not_true, Bool.false_or, Bool.and_eq_true] at hproper
        refine h.upsert ha (.inr rfl) hproper.1 (.inr hkey) (fun k hk => by cases hk) fun c hc => ?_
        have hrow := (h.agree _ hkey c).mp hc
        simpa [hrow] using hproper.2
      · refine h.proceed ha rfl (T := fun _ => False) h.rows h.present h.subscribed (by simp)
          (fun k _ => ⟨rfl, fun c => Iff.rfl⟩) (fun k hk => hk.elim) ?_ ?_ (fun k hk => hk.elim)
        · rintro k ⟨⟩
        · rintro _ ⟨⟩
  | pingEnter v => exact h.enter ha (.inr rfl)
  | evictDelete userId orgId channelId =>
      exact h.evictDelete ha (hfree _ (by simp [taken]))
  | evictRemove userId orgId channelId =>
      refine h.evictRemove ha ?_
      simpa [State.proper] using hproper
  | sweepDelete =>
      exact h.sweepDelete ha fun sub hsub => hfree _ (List.mem_map_of_mem hsub)
  | sweepRemove stale => exact h.sweepRemove ha
  | moveSelect orgId fromChannelIds toChannelId =>
      refine h.moveSelect ha (fun sub hsub => hfree _ (List.mem_map_of_mem hsub)) fun sub hsub => ?_
      have hsub' := List.all_eq_true.mp hproper sub hsub
      rwa [Bool.and_eq_true, decide_eq_true_eq] at hsub'
  | moveUpsert orgId toChannelId subs =>
      unfold State.proceed
      dsimp only
      split
      · exact h.moveUpsert ha
      · exact h.moveGivenUp ha
  | moveEnter orgId toChannelId subs => exact h.moveEnter ha

theorem Inv.begin (h : Inv env s) (ht : s.waiting.lookup t = none) (r : Request) :
    Inv env (s.go t (State.arrive env r)) := by
  have hnew : ∀ e ∈ s.waiting, e.1 ≠ t := by
    intro e he
    have hne := List.lookup_eq_none_iff.mp ht e he
    rintro rfl
    simp at hne
  have harrive : ∀ b, State.arrive env r = some b → b.checked env ∧ ∀ k, b.holds k = false := by
    intro b hb
    cases r with
    | joinChannelPresence v =>
        obtain ⟨hmay, hb⟩ := Option.ite_none_right_eq_some.mp hb
        obtain rfl := Option.some.inj hb
        exact ⟨hmay, fun _ => rfl⟩
    | leaveChannelPresence _ _ _ | pingChannelPresence _ | evictUserPresence _ _ _ | sweep =>
        obtain rfl := Option.some.inj hb
        exact ⟨trivial, fun _ => rfl⟩
    | bulkMoveUsers _ _ _ =>
        obtain ⟨-, hb⟩ := Option.ite_none_left_eq_some.mp hb
        obtain rfl := Option.some.inj hb
        exact ⟨trivial, fun _ => rfl⟩
  -- Whoever is at a user was there before.
  have hheld : ∀ k, ∀ e ∈ (s.go t (State.arrive env r)).waiting, e.2.holds k = true →
      e ∈ s.waiting := by
    intro k e he hk
    rcases mem_go.mp he with ⟨he, -⟩ | ⟨b, hb, rfl⟩
    · exact he
    · rw [(harrive b hb).2 k] at hk
      cases hk
  refine ⟨h.rows, h.present, h.subscribed, ids_go h.ids, ?_, ?_, ?_, ?_⟩
  · intro e he
    rcases mem_go.mp he with ⟨he, -⟩ | ⟨b, hb, rfl⟩
    · exact h.checked e he
    · exact (harrive b hb).1
  · exact fun e he e' he' k hk hk' =>
      h.exclusive e (hheld k e he hk) e' (hheld k e' he' hk') k hk hk'
  · exact fun e he k hk => h.expects e (hheld k e he hk) k hk
  · intro k hk
    refine h.agree k ?_
    by_contra hheld'
    rw [Bool.not_eq_false, held_iff] at hheld'
    obtain ⟨e, he, hholds⟩ := hheld'
    have hstill : (s.go t (State.arrive env r)).held k = true :=
      held_iff.mpr ⟨e, mem_go.mpr (.inl ⟨he, hnew e he⟩), hholds⟩
    rw [hk] at hstill
    cases hstill

theorem Inv.step (h : Inv env s) {turn : Turn} (hundisturbed : s.undisturbed env turn = true)
    (hstep : s.step env turn = some s') : Inv env s' := by
  cases turn with
  | begin t r =>
      simp only [State.step] at hstep
      cases ht : s.waiting.lookup t with
      | some a =>
          rw [ht] at hstep
          cases hstep
      | none =>
          rw [ht] at hstep
          obtain rfl := Option.some.inj hstep
          exact h.begin ht r
  | next t =>
      simp only [State.step] at hstep
      simp only [State.undisturbed] at hundisturbed
      cases ht : s.waiting.lookup t with
      | none =>
          rw [ht] at hstep
          cases hstep
      | some a =>
          rw [ht] at hstep hundisturbed
          obtain rfl := Option.some.inj hstep
          dsimp only at hundisturbed
          rw [Bool.and_eq_true, List.all_eq_true] at hundisturbed
          obtain ⟨before, after, hwaiting, -⟩ := List.lookup_eq_some_iff.mp ht
          have ha : (t, a) ∈ s.waiting := by
            rw [hwaiting]
            simp
          exact h.next ha (fun k hk => by simpa using hundisturbed.1 k hk) hundisturbed.2
  | tick ms =>
      obtain rfl := Option.some.inj hstep
      exact ⟨h.rows, h.present, h.subscribed, h.ids, h.checked, h.exclusive, h.expects, h.agree⟩

end Turns

/-! ## Runs -/

/-- A request that is at a user leaves the user in one channel at most. -/
theorem Await.expects_one {a : Await} {row : Option String} {isIn : String → Prop}
    (hk : a.holds k = true) (h : a.expects k row isIn) {c c' : String} (hc : isIn c)
    (hc' : isIn c') : c = c' := by
  cases a with
  | joinSelect _ | pingUpsert _ | evictDelete _ _ _ | sweepDelete | moveSelect _ _ _ => cases hk
  | joinLeaveOld v oldChannelId =>
      exact Option.some.inj (((h.2 c).mp hc).symm.trans ((h.2 c').mp hc'))
  | joinUpsert v =>
      rcases h with ⟨-, hagree⟩ | hnone
      · exact Option.some.inj (((hagree c).mp hc).symm.trans ((hagree c').mp hc'))
      · exact absurd hc (hnone c)
  | joinEnter v | pingEnter v => exact (h.2 c hc).trans (h.2 c' hc').symm
  | evictRemove userId orgId channelId =>
      obtain ⟨-, hothers, hthere⟩ := h
      by_cases hch : c = channelId
      · by_cases hch' : c' = channelId
        · exact hch.trans hch'.symm
        · have hrow := (hothers c' hch').mp hc'
          exact absurd (hch ▸ hc) (hthere (by simp [hrow]))
      · have hrow := (hothers c hch).mp hc
        by_cases hch' : c' = channelId
        · exact absurd (hch' ▸ hc') (hthere (by simp [hrow]))
        · exact Option.some.inj (hrow.symm.trans ((hothers c' hch').mp hc'))
  | sweepRemove subs | moveUpsert _ _ subs | moveEnter _ _ subs =>
      obtain ⟨sub, hsub, hkey⟩ := List.any_eq_true.mp hk
      obtain ⟨-, hin⟩ := h sub hsub (of_decide_eq_true hkey)
      exact ((hin c).mp hc).trans ((hin c').mp hc').symm

theorem Inv.consistent (h : Inv env s) : Consistent env s where
  one k c c' hc hc' := by
    cases hk : s.held k with
    | false =>
        have hagree := h.agree k hk
        exact Option.some.inj (((hagree c).mp hc).symm.trans ((hagree c').mp hc'))
    | true =>
        obtain ⟨e, he, hholds⟩ := held_iff.mp hk
        exact Await.expects_one hholds (h.expects e he k hholds) hc hc'
  rows := h.rows
  same hfinished c u := by
    have hagree : ∀ k, Agree (s.row k) (s.isIn env k) := by
      refine fun k => h.agree k ?_
      rw [State.held, show s.waiting = [] from hfinished]
      rfl
    constructor
    · intro hc
      obtain ⟨orgId, hmay⟩ := h.present c u hc
      have hrow := (hagree (u, orgId) c).mp ⟨hc, mayUse_isSome hmay⟩
      obtain ⟨sub, hsub, hkey, hchannel⟩ := (row_eq_some h.rows).mp hrow
      exact ⟨sub, hsub, hchannel, (Prod.mk.inj hkey).1⟩
    · rintro ⟨sub, hsub, rfl, rfl⟩
      exact ((hagree sub.key sub.channelId).mpr ((row_eq_some h.rows).mpr ⟨sub, hsub, rfl, rfl⟩)).1
  present := h.present
  subscribed := h.subscribed

/-- In a run of undisturbed turns the map and the table stay consistent. -/
theorem presence_consistent (env : Env) {turns : List Turn} {s : State}
    (hrun : (presence env).Guarded (fun s turn => s.undisturbed env turn = true) .initial turns s) :
    Consistent env s :=
  (hrun.invariant (fun _ _ _ h hundisturbed hstep => h.step hundisturbed hstep)
    (inv_initial env)).consistent

/-! ## A heartbeat for another channel -/

def twoChannels : Env where
  roster :=
    { channels := [⟨"alpha", "org", none, false⟩, ⟨"bravo", "org", none, false⟩]
      events := []
      planners := []
      groups := []
      members := []
      frequencies := []
      frequencyRoles := []
      orgMembers := [⟨"org", "ada"⟩]
      friendships := [] }
  callsign _ := "Ada"
  channelKeys := by decide

def joinAlpha : List Turn :=
  .begin 0 (.joinChannelPresence ⟨"org", "alpha", "ada", "Ada"⟩) :: List.replicate 3 (.next 0)

def pingBravo : List Turn :=
  .begin 1 (.pingChannelPresence ⟨"org", "bravo", "ada", "Ada"⟩) :: List.replicate 2 (.next 1)

theorem presence_consistent_joined :
    ∃ s, (presence twoChannels).Run .initial joinAlpha s ∧ s.isPresent "alpha" "ada" = true ∧
      Consistent twoChannels s := by
  have hexec : (((presence twoChannels).restrict fun s turn =>
      s.undisturbed twoChannels turn).exec .initial joinAlpha).map (fun s =>
        s.isPresent "alpha" "ada") = some true := by
    decide +kernel
  obtain ⟨s, hs, hpresent⟩ := Option.map_eq_some_iff.mp hexec
  have hguarded := (StepSystem.exec_eq_some_iff.mp hs).guarded
  exact ⟨s, hguarded.run, hpresent, presence_consistent twoChannels hguarded⟩

/-- A ping for another channel leaves the user in both. -/
theorem pinged_into_two_channels :
    ¬ ∀ (env : Env) (turns : List Turn) (s : State), (presence env).Run .initial turns s →
      Consistent env s := by
  intro hclaim
  have hexec : ((presence twoChannels).exec .initial (joinAlpha ++ pingBravo)).map (fun s =>
      s.isPresent "alpha" "ada" && s.isPresent "bravo" "ada") = some true := by
    decide +kernel
  obtain ⟨s, hs, hboth⟩ := Option.map_eq_some_iff.mp hexec
  rw [Bool.and_eq_true] at hboth
  have hone := (hclaim twoChannels _ s (StepSystem.exec_eq_some_iff.mp hs)).one ("ada", "org")
    "alpha" "bravo" ⟨hboth.1, by decide⟩ ⟨hboth.2, by decide⟩
  exact absurd hone (by decide)

end SpecterComs.Presence
