import SpecterComs.Verification.IdentityNode.Membership

/-! # The uses of an invite

Every redemption that is committed takes one use. Whether there is one left has been asked before,
without a lock.
-/

namespace SpecterComs.Membership

open DeliveryService (UserId)

variable {env : Env} {s s' : State} {t : ℕ} {a : Await} {a' : Option Await}

/-- How many redemptions of an invite were committed. -/
def State.redeemed (s : State) (code : String) : ℕ :=
  s.admitted.countP fun e => e.1 = code

/-- A limited invite never has less than no uses left, and has admitted no more users than it was
created for. -/
def Limited (s : State) : Prop :=
  ∀ code invite n, s.db.invites code = some invite → invite.createdWith = some n →
    (∃ left, invite.usesLeft = some left ∧ 0 ≤ left) ∧ (s.redeemed code : ℤ) ≤ n

/-- Where nobody is admitted, every invite is as it was. -/
def LeavesUses (s s' : State) : Prop :=
  s'.admitted = s.admitted →
    ∀ code invite, s.db.invites code = some invite → s'.db.invites code = some invite

namespace Await

/-- What a redemption under way has read of its invite. -/
def redemption : Await → Option Redemption
  | redeemSelectMember r | redeemSelectBan r | redeemInsert r | redeemUpdate r
  | redeemCommit r => some r
  | _ => none

/-- The invite still has a use when a redemption takes it, and is created with no less than none. -/
def usesRemain (s : State) : Await → Bool
  | redeemCommit r => ((s.db.invites r.code).bind Invite.usesLeft).all (0 < ·)
  | createInsert _ code usesLeft => (s.db.invites code).isSome || usesLeft.all (0 ≤ ·)
  | _ => true

end Await

def State.usesRemain (s : State) : Turn → Bool
  | .next t => (s.opened t).all fun a => a.usesRemain s
  | _ => true

/-! ## Counting -/

/-- The uses of an invite are those it was created with, less the redemptions. -/
structure Counted (s : State) : Prop where
  uses : ∀ code invite, s.db.invites code = some invite →
    invite.usesLeft = invite.createdWith.map fun n : ℤ => n - s.redeemed code
  read : ∀ t a r, s.opened t = some a → a.redemption = some r →
    ∃ invite, s.db.invites r.code = some invite ∧ invite.usesLeft.isSome = r.usesLeft.isSome
  known : ∀ e ∈ s.admitted, (s.db.invites e.1).isSome

theorem counted_start {db : Tables} (hdb : ∀ code, db.invites code = none) (clock : ℕ) :
    Counted (.start db clock) where
  uses code _ h := absurd ((hdb code).symm.trans h) nofun
  read _ _ _ h := absurd h nofun
  known _ he := absurd he List.not_mem_nil

/-- Nothing else is counted. -/
theorem Counted.congr (h : Counted s) (hinvites : s'.db.invites = s.db.invites)
    (hadmitted : s'.admitted = s.admitted)
    (hread : ∀ t a r, s'.opened t = some a → a.redemption = some r →
      ∃ invite, s.db.invites r.code = some invite ∧ invite.usesLeft.isSome = r.usesLeft.isSome) :
    Counted s' where
  uses := by
    unfold State.redeemed
    rw [hinvites, hadmitted]
    exact h.uses
  read := by
    rw [hinvites]
    exact hread
  known := by
    rw [hinvites, hadmitted]
    exact h.known

variable {code : String}

theorem redeemed_append {e : String × UserId} (hadmitted : s'.admitted = s.admitted ++ [e]) :
    s'.redeemed code = s.redeemed code + if e.1 = code then 1 else 0 := by
  rw [State.redeemed, hadmitted, List.countP_append, List.countP_singleton]
  simp [State.redeemed]

/-- An invite that was never created has admitted nobody. -/
theorem Counted.redeemed_eq_zero (h : Counted s) (hcode : s.db.invites code = none) :
    s.redeemed code = 0 := by
  refine List.countP_eq_zero.mpr fun e he heq => ?_
  have hsome := h.known e he
  rw [of_decide_eq_true heq, hcode] at hsome
  cases hsome

/-- With the uses counted, the bound on the redemptions is all there is to say. -/
theorem Counted.limited_iff (h : Counted s) :
    Limited s ↔ ∀ code invite n, s.db.invites code = some invite → invite.createdWith = some n →
      (s.redeemed code : ℤ) ≤ n := by
  constructor
  · exact fun hlimited code invite n hinvite hn => (hlimited code invite n hinvite hn).2
  · intro hbound code invite n hinvite hn
    have hle := hbound code invite n hinvite hn
    refine ⟨⟨n - s.redeemed code, ?_, by omega⟩, hle⟩
    rw [h.uses code invite hinvite, hn, Option.map_some]

/-! ## One statement -/

section Statements

/-- What the commit of a redemption does to its invite. -/
theorem redeem_invites (r : Redemption) : (s.redeem r).admitted = s.admitted ++ [(r.code, r.key.2)] ∧
    (s.redeem r).db.invites = if r.usesLeft.isSome then
      Function.update s.db.invites r.code ((s.db.invites r.code).map fun invite =>
        { invite with usesLeft := invite.usesLeft.map (· - 1) })
      else s.db.invites := by
  unfold State.redeem
  cases r.usesLeft <;> exact ⟨rfl, rfl⟩

/-- Every invite stays, limited or not as it was, and created with what it was created with. -/
theorem Commits.invite (h : Commits s a s') {invite : Invite}
    (hinvite : s.db.invites code = some invite) :
    ∃ invite', s'.db.invites code = some invite' ∧
      invite'.usesLeft.isSome = invite.usesLeft.isSome := by
  cases h with
  | nothing ha hdb hclock hadmitted hopened => exact ⟨invite, by rw [hdb, hinvite], rfl⟩
  | @redeem r =>
      rw [(redeem_invites r).2]
      split
      · by_cases hcode : code = r.code
        · subst hcode
          rw [Function.update_self, hinvite]
          exact ⟨_, rfl, by simp⟩
        · rw [Function.update_of_ne hcode]
          exact ⟨invite, hinvite, rfl⟩
      · exact ⟨invite, hinvite, rfl⟩
  | @create orgId code' usesLeft hcode =>
      refine ⟨invite, ?_, rfl⟩
      have hne : code ≠ code' := by
        rintro rfl
        rw [hcode] at hinvite
        cases hinvite
      exact (Function.update_of_ne hne ..).trans hinvite
  | @ban ban deleted => exact ⟨invite, by cases deleted <;> exact hinvite, rfl⟩
  | _ => exact ⟨invite, hinvite, rfl⟩

variable {r : Redemption}

/-- What a statement leaves of its request, and how a redemption goes on. -/
theorem redemption_proceed (h : s.proceed env t a = some (s', a')) {b : Await} (hb : a' = some b)
    (hr : b.redemption = some r) :
    a.redemption = some r ∨
      ∃ invite, s.db.invites r.code = some invite ∧ invite.usesLeft = r.usesLeft := by
  subst hb
  cases a with
  | joinSelectOrg key =>
      obtain ⟨m, -, rfl⟩ := Option.map_eq_some_iff.mp (Prod.mk.inj (Option.some.inj h)).2
      cases hr
  | joinSelectMember key joinMethod =>
      obtain ⟨-, hb⟩ := Option.ite_none_left_eq_some.mp (Prod.mk.inj (Option.some.inj h)).2
      obtain rfl := Option.some.inj hb
      cases hr
  | joinSelectBan key joinMethod =>
      simp only [State.proceed] at h
      split at h
      · cases (Prod.mk.inj (Option.some.inj h)).2
      · obtain ⟨-, hb⟩ := Option.ite_none_right_eq_some.mp (Prod.mk.inj (Option.some.inj h)).2
        obtain rfl := Option.some.inj hb
        cases hr
  | joinInsert key =>
      obtain ⟨-, h⟩ := Option.ite_none_left_eq_some.mp h
      split at h
      · cases (Prod.mk.inj (Option.some.inj h)).2
      · cases (Prod.mk.inj (Option.some.inj h)).2
  | redeemSelectInvite code userId beganAt =>
      simp only [State.proceed] at h
      cases hinvite : s.db.invites code with
      | none =>
          rw [hinvite] at h
          cases (Prod.mk.inj (Option.some.inj h)).2
      | some invite =>
          rw [hinvite] at h
          dsimp only at h
          split at h
          · cases (Prod.mk.inj (Option.some.inj h)).2
          · split at h
            · cases (Prod.mk.inj (Option.some.inj h)).2
            · obtain rfl := Option.some.inj (Prod.mk.inj (Option.some.inj h)).2
              obtain rfl := Option.some.inj hr
              exact .inr ⟨invite, hinvite, rfl⟩
  | redeemSelectMember r' =>
      obtain ⟨-, hb⟩ := Option.ite_none_left_eq_some.mp (Prod.mk.inj (Option.some.inj h)).2
      obtain rfl := Option.some.inj hb
      exact .inl hr
  | redeemSelectBan r' =>
      obtain ⟨-, hb⟩ := Option.ite_none_left_eq_some.mp (Prod.mk.inj (Option.some.inj h)).2
      obtain rfl := Option.some.inj hb
      exact .inl hr
  | redeemInsert r' =>
      obtain ⟨-, h⟩ := Option.ite_none_left_eq_some.mp h
      split at h
      · cases (Prod.mk.inj (Option.some.inj h)).2
      · have hb := Option.some.inj (Prod.mk.inj (Option.some.inj h)).2
        cases huses : r'.usesLeft with
        | none =>
            rw [huses] at hb
            obtain rfl := hb
            exact .inl hr
        | some left =>
            rw [huses] at hb
            obtain rfl := hb
            exact .inl hr
  | redeemUpdate r' =>
      obtain ⟨-, h⟩ := Option.ite_none_left_eq_some.mp h
      obtain rfl := Option.some.inj (Prod.mk.inj (Option.some.inj h)).2
      exact .inl hr
  | createInsert orgId code usesLeft =>
      simp only [State.proceed] at h
      split at h
      · cases (Prod.mk.inj (Option.some.inj h)).2
      · cases (Prod.mk.inj (Option.some.inj h)).2
  | banDelete ban =>
      simp only [State.proceed] at h
      split at h
      · obtain rfl := Option.some.inj (Prod.mk.inj (Option.some.inj h)).2
        cases hr
      · obtain ⟨-, h⟩ := Option.ite_none_left_eq_some.mp h
        obtain rfl := Option.some.inj (Prod.mk.inj (Option.some.inj h)).2
        cases hr
  | banInsert ban deleted =>
      obtain rfl := Option.some.inj (Prod.mk.inj (Option.some.inj h)).2
      cases hr
  | redeemCommit r' | banCommit ban deleted | unbanDelete key =>
      cases (Prod.mk.inj (Option.some.inj h)).2

theorem redemption_arrive {req : Request} (h : s.arrive env req = some a) : a.redemption = none := by
  cases req with
  | joinOrg key | redeemInvite code userId =>
      obtain rfl := Option.some.inj h
      rfl
  | createInvite createdBy orgId code usesLeft =>
      obtain ⟨-, h⟩ := Option.ite_none_right_eq_some.mp h
      obtain rfl := Option.some.inj h
      rfl
  | banMember adminId key expiresAt =>
      obtain ⟨-, h⟩ := Option.ite_none_left_eq_some.mp h
      obtain ⟨-, h⟩ := Option.ite_none_left_eq_some.mp h
      obtain ⟨-, h⟩ := Option.ite_none_left_eq_some.mp h
      obtain rfl := Option.some.inj h
      rfl
  | unbanMember adminId key =>
      obtain ⟨-, h⟩ := Option.ite_none_right_eq_some.mp h
      obtain rfl := Option.some.inj h
      rfl

/-- The counts after a statement, and what its commit means for the limits and the other invites. -/
structure Settled (s : State) (a : Await) (s' : State) : Prop where
  uses : ∀ code invite, s'.db.invites code = some invite →
    invite.usesLeft = invite.createdWith.map fun n : ℤ => n - s'.redeemed code
  known : ∀ e ∈ s'.admitted, (s'.db.invites e.1).isSome
  bound : Limited s → ((∀ code invite n, s'.db.invites code = some invite →
    invite.createdWith = some n → (s'.redeemed code : ℤ) ≤ n) ↔ a.usesRemain s = true)
  leaves : LeavesUses s s'

/-- A statement that changes neither invites nor admissions. -/
theorem Counted.settled_of_same (h : Counted s) (hinvites : s'.db.invites = s.db.invites)
    (hadmitted : s'.admitted = s.admitted) (ha : a.usesRemain s = true) : Settled s a s' := by
  have hredeemed : ∀ code, s'.redeemed code = s.redeemed code := fun code => by
    rw [State.redeemed, hadmitted]
    rfl
  constructor
  · simp only [hinvites, hredeemed]
    exact h.uses
  · rw [hinvites, hadmitted]
    exact h.known
  · intro hlimited
    simp only [hinvites, hredeemed]
    exact iff_of_true (h.limited_iff.mp hlimited) ha
  · intro _ code invite hinvite
    rw [hinvites, hinvite]

theorem Counted.settled_create (h : Counted s) {orgId : String} {usesLeft : Option ℤ}
    (hcode : s.db.invites code = none) :
    Settled s (.createInsert orgId code usesLeft) { s with db := { s.db with
      invites := Function.update s.db.invites code (some ⟨orgId, usesLeft, none, usesLeft⟩) } } := by
  have hnone := h.redeemed_eq_zero hcode
  have hother : ∀ other, other ≠ code → Function.update s.db.invites code
      (some ⟨orgId, usesLeft, none, usesLeft⟩) other = s.db.invites other :=
    fun other hne => Function.update_of_ne hne ..
  constructor
  · intro other invite hinvite
    by_cases hc : other = code
    · subst hc
      dsimp only at hinvite
      rw [Function.update_self] at hinvite
      obtain rfl := Option.some.inj hinvite
      change usesLeft = usesLeft.map fun n : ℤ => n - s.redeemed other
      rw [hnone]
      simp
    · exact h.uses other invite ((hother other hc).symm.trans hinvite)
  · intro e he
    by_cases hc : e.1 = code
    · change (Function.update s.db.invites code _ e.1).isSome
      rw [hc, Function.update_self]
      rfl
    · change (Function.update s.db.invites code _ e.1).isSome
      rw [hother e.1 hc]
      exact h.known e he
  · intro hlimited
    have hbound := h.limited_iff.mp hlimited
    rw [Await.usesRemain, hcode, Option.isSome_none, Bool.false_or]
    constructor
    · intro hnew
      cases usesLeft with
      | none => rfl
      | some n =>
          have hle := hnew code _ n (Function.update_self ..) rfl
          simp only [Option.all_some, decide_eq_true_eq]
          exact (Int.natCast_nonneg _).trans hle
    · intro hpos other invite n hinvite hn
      by_cases hc : other = code
      · subst hc
        dsimp only at hinvite
        rw [Function.update_self] at hinvite
        obtain rfl := Option.some.inj hinvite
        obtain rfl : usesLeft = some n := hn
        change (s.redeemed other : ℤ) ≤ n
        rw [hnone]
        simpa using hpos
      · exact hbound other invite n ((hother other hc).symm.trans hinvite) hn
  · intro _ other invite hinvite
    have hc : other ≠ code := by
      rintro rfl
      rw [hcode] at hinvite
      cases hinvite
    exact (hother other hc).trans hinvite

/-- The commit of a redemption leaves one use less of its invite. -/
theorem redeem_invites_of {invite : Invite} (hinvite : s.db.invites r.code = some invite)
    (hread : invite.usesLeft.isSome = r.usesLeft.isSome) :
    (s.redeem r).db.invites = Function.update s.db.invites r.code
      (some { invite with usesLeft := invite.usesLeft.map (· - 1) }) := by
  rw [(redeem_invites r).2, ← hread]
  cases huses : invite.usesLeft with
  | some left =>
      rw [Option.isSome_some, if_pos rfl, hinvite, Option.map_some, huses]
  | none =>
      have hsame : some { invite with usesLeft := none } = s.db.invites r.code := by
        rw [hinvite, ← huses]
      rw [Option.isSome_none, if_neg Bool.false_ne_true, Option.map_none, hsame,
        Function.update_eq_self]

theorem Counted.settled_redeem (h : Counted s) {invite : Invite}
    (hinvite : s.db.invites r.code = some invite)
    (hread : invite.usesLeft.isSome = r.usesLeft.isSome) :
    Settled s (.redeemCommit r) (s.redeem r) := by
  have hinvites := redeem_invites_of hinvite hread
  have hadmitted := (redeem_invites (s := s) r).1
  have hown := h.uses r.code invite hinvite
  have hredeemed : (s.redeem r).redeemed r.code = s.redeemed r.code + 1 := by
    rw [redeemed_append hadmitted, if_pos rfl]
  have hother : ∀ code, code ≠ r.code → (s.redeem r).redeemed code = s.redeemed code := by
    intro code hne
    rw [redeemed_append hadmitted, if_neg fun heq => hne heq.symm, Nat.add_zero]
  constructor
  · intro code invite' hinvite'
    rw [hinvites] at hinvite'
    by_cases hc : code = r.code
    · subst hc
      rw [Function.update_self] at hinvite'
      obtain rfl := Option.some.inj hinvite'
      rw [hredeemed]
      dsimp only
      rw [hown, Option.map_map]
      congr 1
      funext n
      simp only [Function.comp_apply]
      omega
    · rw [Function.update_of_ne hc] at hinvite'
      rw [hother code hc]
      exact h.uses code invite' hinvite'
  · intro e he
    rw [hinvites]
    by_cases hc : e.1 = r.code
    · rw [hc, Function.update_self]
      rfl
    · rw [Function.update_of_ne hc]
      rw [hadmitted, List.mem_append, List.mem_singleton] at he
      rcases he with he | rfl
      · exact h.known e he
      · exact absurd rfl hc
  · intro hlimited
    have hbound := h.limited_iff.mp hlimited
    rw [Await.usesRemain, hinvite, Option.bind_some, hown, hinvites]
    constructor
    · intro hnew
      cases hn : invite.createdWith with
      | none => rfl
      | some n =>
          have hle := hnew r.code _ n (Function.update_self ..) hn
          rw [hredeemed] at hle
          simp only [Option.map_some, Option.all_some, decide_eq_true_eq]
          omega
    · intro hpos code invite' n hinvite' hn
      by_cases hc : code = r.code
      · subst hc
        rw [Function.update_self] at hinvite'
        obtain rfl := Option.some.inj hinvite'
        dsimp only at hn
        rw [hn] at hpos
        simp only [Option.map_some, Option.all_some, decide_eq_true_eq] at hpos
        rw [hredeemed]
        omega
      · rw [Function.update_of_ne hc] at hinvite'
        rw [hother code hc]
        exact hbound code invite' n hinvite' hn
  · intro hsame
    rw [hadmitted] at hsame
    exact absurd hsame (by simp)

/-- What any statement does to the counts. -/
theorem Counted.settled (h : Counted s) (hcommits : Commits s a s')
    (hread : ∀ r, a.redemption = some r →
      ∃ invite, s.db.invites r.code = some invite ∧ invite.usesLeft.isSome = r.usesLeft.isSome) :
    Settled s a s' := by
  cases hcommits with
  | nothing ha hdb hclock hadmitted hopened =>
      refine h.settled_of_same (by rw [hdb]) hadmitted ?_
      cases a with
      | redeemCommit r | createInsert orgId code usesLeft => cases ha
      | _ => rfl
  | joined hmember | join | unban => exact h.settled_of_same rfl rfl rfl
  | @ban ban deleted => exact h.settled_of_same (by cases deleted <;> rfl) (by cases deleted <;> rfl) rfl
  | taken hcode => exact h.settled_of_same rfl rfl (by simp [Await.usesRemain, hcode])
  | create hcode => exact h.settled_create hcode
  | @redeem r =>
      obtain ⟨invite, hinvite, hlimited⟩ := hread r rfl
      exact h.settled_redeem hinvite hlimited

end Statements

/-! ## Turns -/

theorem Settled.go (h : Settled s a s') : Settled s a (s'.go t a') := by
  have hredeemed : ∀ code, (s'.go t a').redeemed code = s'.redeemed code := fun code => by
    rw [State.redeemed, State.go_admitted]
    rfl
  constructor
  · simp only [State.go_db, hredeemed]
    exact h.uses
  · simp only [State.go_db, State.go_admitted]
    exact h.known
  · simp only [State.go_db, hredeemed]
    exact h.bound
  · intro hsame
    rw [State.go_admitted] at hsame
    rw [State.go_db]
    exact h.leaves hsame

/-- A turn keeps the counts. It keeps the limits exactly when it does not take a use that is no
longer there, and changes no invite unless somebody is admitted. -/
theorem Counted.step (h : Counted s) {turn : Turn} (hstep : s.step env turn = some s') :
    Counted s' ∧ LeavesUses s s' ∧ (Limited s → (Limited s' ↔ s.usesRemain turn = true)) := by
  have hquiet : ∀ {s' : State}, s'.db.invites = s.db.invites → s'.admitted = s.admitted →
      (∀ t a r, s'.opened t = some a → a.redemption = some r → s.opened t = some a) →
      s.usesRemain turn = true →
      Counted s' ∧ LeavesUses s s' ∧ (Limited s → (Limited s' ↔ s.usesRemain turn = true)) := by
    intro s' hinvites hadmitted hopened hturn
    have hcounted : Counted s' := h.congr hinvites hadmitted fun t a r ha hr =>
      h.read t a r (hopened t a r ha hr) hr
    refine ⟨hcounted, fun _ code invite hinvite => by rw [hinvites, hinvite], fun hlimited => ?_⟩
    refine iff_of_true (hcounted.limited_iff.mpr ?_) hturn
    unfold State.redeemed
    rw [hinvites, hadmitted]
    exact h.limited_iff.mp hlimited
  rcases State.step_cases hstep with ⟨t, req, rfl, -, rfl⟩ | ⟨t, a, s₁, a', rfl, ha, hproceed, rfl⟩ |
    ⟨t, rfl, rfl⟩ | ⟨seconds, rfl, rfl⟩
  · refine hquiet (by simp) (by simp) (fun t' a r ha hr => ?_) rfl
    rw [State.go_opened] at ha
    by_cases ht : t' = t
    · subst ht
      rw [Function.update_self] at ha
      rw [redemption_arrive ha] at hr
      cases hr
    · rwa [Function.update_of_ne ht] at ha
  · have hcommits := commits_of_proceed hproceed
    have hsettled : Settled s a (s₁.go t a') :=
      (h.settled hcommits fun r hr => h.read t a r ha hr).go
    have hcounted : Counted (s₁.go t a') := by
      refine ⟨hsettled.uses, fun t' b r hb hr => ?_, hsettled.known⟩
      have hread : ∃ invite, s.db.invites r.code = some invite ∧
          invite.usesLeft.isSome = r.usesLeft.isSome := by
        rw [State.go_opened, hcommits.opened] at hb
        by_cases ht : t' = t
        · subst ht
          rw [Function.update_self] at hb
          rcases redemption_proceed hproceed hb hr with hsame | ⟨invite, hinvite, huses⟩
          · exact h.read t' a r ha hsame
          · exact ⟨invite, hinvite, by rw [huses]⟩
        · rw [Function.update_of_ne ht] at hb
          exact h.read t' b r hb hr
      obtain ⟨invite, hinvite, huses⟩ := hread
      obtain ⟨invite', hinvite', huses'⟩ := hcommits.invite hinvite
      exact ⟨invite', by rw [State.go_db, hinvite'], huses'.trans huses⟩
    refine ⟨hcounted, hsettled.leaves, fun hlimited => ?_⟩
    rw [hcounted.limited_iff, hsettled.bound hlimited, State.usesRemain, ha, Option.all_some]
  · refine hquiet (by simp) (by simp) (fun t' a r ha hr => ?_) rfl
    rw [State.go_opened] at ha
    by_cases ht : t' = t
    · subst ht
      rw [Function.update_self] at ha
      cases ha
    · rwa [Function.update_of_ne ht] at ha
  · exact hquiet rfl rfl (fun _ _ _ ha _ => ha) rfl

theorem limited_start {db : Tables} (hdb : ∀ code, db.invites code = none) (clock : ℕ) :
    Limited (.start db clock) :=
  fun code _ _ h => absurd ((hdb code).symm.trans h) nofun

/-- Ada and Bob redeem an invite for one, each reading it before the other has taken it. -/
def twoRedemptions : List Turn :=
  [.begin 0 (.createInvite "ida" "org" "C0DE" (some 1)), .next 0,
    .begin 1 (.redeemInvite "C0DE" "ada"), .next 1, .begin 2 (.redeemInvite "C0DE" "bob"), .next 2,
    .next 1, .next 1, .next 1, .next 1, .next 1, .next 2, .next 2, .next 2, .next 2, .next 2]

end SpecterComs.Membership
