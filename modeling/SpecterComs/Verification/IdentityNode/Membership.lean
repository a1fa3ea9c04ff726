import SpecterComs.Model.IdentityNode.Membership

/-! # Bans and members

A join and a ban check first and write later, and nothing is locked in between. No member is
banned exactly on the runs on which what was checked would be found again when the writes take
effect.
-/

namespace SpecterComs.Membership

open DeliveryService (UserId)

variable {env : Env} {s s' : State} {t : ℕ} {a : Await} {a' : Option Await}

/-! ## The end of a statement -/

namespace State

@[simp] theorem go_db : (s.go t a').db = s.db := by
  cases a' <;> rfl

@[simp] theorem go_clock : (s.go t a').clock = s.clock := by
  cases a' <;> rfl

@[simp] theorem go_admitted : (s.go t a').admitted = s.admitted := by
  cases a' <;> rfl

theorem go_opened : (s.go t a').opened = Function.update s.opened t a' := by
  cases a' <;> rfl

/-- What a turn is: a request that comes in, the next statement of one, a failure, or time. -/
theorem step_cases {turn : Turn} (h : s.step env turn = some s') :
    (∃ t r, turn = .begin t r ∧ s.opened t = none ∧ s' = s.go t (s.arrive env r)) ∨
      (∃ t a s₁ a', turn = .next t ∧ s.opened t = some a ∧ s.proceed env t a = some (s₁, a') ∧
        s' = s₁.go t a') ∨
      (∃ t, turn = .fail t ∧ s' = s.go t none) ∨
      ∃ seconds, turn = .tick seconds ∧ s' = { s with clock := s.clock + seconds } := by
  cases turn with
  | begin t r =>
      simp only [step] at h
      cases ho : s.opened t with
      | none =>
          rw [ho] at h
          exact .inl ⟨t, r, rfl, ho, (Option.some.inj h).symm⟩
      | some a =>
          rw [ho] at h
          cases h
  | next t =>
      obtain ⟨a, ha, h⟩ := Option.bind_eq_some_iff.mp h
      obtain ⟨⟨s₁, a'⟩, hproceed, h⟩ := Option.bind_eq_some_iff.mp h
      exact .inr (.inl ⟨t, a, s₁, a', rfl, ha, hproceed, (Option.some.inj h).symm⟩)
  | fail t =>
      obtain ⟨a, -, rfl⟩ := Option.map_eq_some_iff.mp h
      exact .inr (.inr (.inl ⟨t, rfl, rfl⟩))
  | tick seconds => exact .inr (.inr (.inr ⟨seconds, rfl, (Option.some.inj h).symm⟩))

end State

/-! ## What a statement does to the committed rows -/

/-- The statement is one whose writes are committed at once. -/
def Await.commits : Await → Bool
  | .joinInsert _ | .redeemCommit _ | .createInsert _ _ _ | .banCommit _ _ | .unbanDelete _ => true
  | _ => false

/-- What the next statement of a request commits. -/
inductive Commits (s : State) : Await → State → Prop
  | nothing {a : Await} {s' : State} : a.commits = false → s'.db = s.db → s'.clock = s.clock →
      s'.admitted = s.admitted → s'.opened = s.opened → Commits s a s'
  | joined {key : Key} : s.db.members key = true → Commits s (.joinInsert key) s
  | join {key : Key} : Commits s (.joinInsert key) (s.setMember key true)
  | redeem {r : Redemption} : Commits s (.redeemCommit r) (s.redeem r)
  | taken {orgId code : String} {usesLeft : Option ℤ} : (s.db.invites code).isSome →
      Commits s (.createInsert orgId code usesLeft) s
  | create {orgId code : String} {usesLeft : Option ℤ} : s.db.invites code = none →
      Commits s (.createInsert orgId code usesLeft) { s with db := { s.db with
        invites := Function.update s.db.invites code (some ⟨orgId, usesLeft, none, usesLeft⟩) } }
  | ban {ban : Ban} {deleted : Bool} : Commits s (.banCommit ban deleted) (s.ban ban deleted)
  | unban {key : Key} : Commits s (.unbanDelete key) { s with db := { s.db with
      bans := s.db.bans.filter fun ban => ban.key ≠ key } }

theorem commits_of_proceed (h : s.proceed env t a = some (s', a')) : Commits s a s' := by
  have hnothing : a.commits = false → s' = s → Commits s a s' := by
    rintro ha rfl
    exact .nothing ha rfl rfl rfl rfl
  cases a with
  | joinSelectOrg key | joinSelectMember key joinMethod | redeemSelectMember r | redeemSelectBan r
  | banInsert ban deleted =>
      exact hnothing rfl (Prod.mk.inj (Option.some.inj h)).1.symm
  | joinSelectBan key joinMethod =>
      simp only [State.proceed] at h
      split at h
      · exact hnothing rfl (Prod.mk.inj (Option.some.inj h)).1.symm
      · exact hnothing rfl (Prod.mk.inj (Option.some.inj h)).1.symm
  | joinInsert key =>
      obtain ⟨-, h⟩ := Option.ite_none_left_eq_some.mp h
      by_cases hmember : s.db.members key = true
      · rw [if_pos hmember] at h
        obtain ⟨rfl, -⟩ := Prod.mk.inj (Option.some.inj h)
        exact .joined hmember
      · rw [if_neg hmember] at h
        obtain ⟨rfl, -⟩ := Prod.mk.inj (Option.some.inj h)
        exact .join
  | redeemSelectInvite code userId beganAt =>
      simp only [State.proceed] at h
      split at h
      · exact hnothing rfl (Prod.mk.inj (Option.some.inj h)).1.symm
      · split at h
        · exact hnothing rfl (Prod.mk.inj (Option.some.inj h)).1.symm
        · split at h
          · exact hnothing rfl (Prod.mk.inj (Option.some.inj h)).1.symm
          · exact hnothing rfl (Prod.mk.inj (Option.some.inj h)).1.symm
  | redeemInsert r =>
      obtain ⟨-, h⟩ := Option.ite_none_left_eq_some.mp h
      split at h
      · exact hnothing rfl (Prod.mk.inj (Option.some.inj h)).1.symm
      · obtain ⟨rfl, -⟩ := Prod.mk.inj (Option.some.inj h)
        exact .nothing rfl rfl rfl rfl rfl
  | redeemUpdate r =>
      obtain ⟨-, h⟩ := Option.ite_none_left_eq_some.mp h
      obtain ⟨rfl, -⟩ := Prod.mk.inj (Option.some.inj h)
      exact .nothing rfl rfl rfl rfl rfl
  | redeemCommit r =>
      obtain ⟨rfl, -⟩ := Prod.mk.inj (Option.some.inj h)
      exact .redeem
  | createInsert orgId code usesLeft =>
      simp only [State.proceed] at h
      cases hcode : s.db.invites code with
      | some invite =>
          rw [hcode] at h
          obtain ⟨rfl, -⟩ := Prod.mk.inj (Option.some.inj h)
          exact .taken (by rw [hcode]; rfl)
      | none =>
          rw [hcode] at h
          obtain ⟨rfl, -⟩ := Prod.mk.inj (Option.some.inj h)
          exact .create hcode
  | banDelete ban =>
      simp only [State.proceed] at h
      split at h
      · exact hnothing rfl (Prod.mk.inj (Option.some.inj h)).1.symm
      · obtain ⟨-, h⟩ := Option.ite_none_left_eq_some.mp h
        obtain ⟨rfl, -⟩ := Prod.mk.inj (Option.some.inj h)
        exact .nothing rfl rfl rfl rfl rfl
  | banCommit ban deleted =>
      obtain ⟨rfl, -⟩ := Prod.mk.inj (Option.some.inj h)
      exact .ban
  | unbanDelete key =>
      obtain ⟨rfl, -⟩ := Prod.mk.inj (Option.some.inj h)
      exact .unban

/-! ## Bans exclude members -/

/-- No member is banned. -/
def Excluded (s : State) : Prop :=
  ∀ key, s.db.members key = true → s.db.isBanned key s.clock = false

/-- What a request found out about bans and members is so when its writes take effect. -/
def Await.undisturbed (s : State) : Await → Bool
  | .joinInsert key => !s.db.isBanned key s.clock
  | .redeemCommit r => !s.db.isBanned r.key s.clock
  | .banCommit ban deleted => deleted || !s.db.members ban.key || !ban.inForce s.clock
  | _ => true

def State.undisturbed (s : State) : Turn → Bool
  | .next t => (s.opened t).all fun a => a.undisturbed s
  | _ => true

variable {ban : Ban}

theorem Ban.inForce_mono {now later : ℕ} (hle : now ≤ later) (h : ban.inForce later = true) :
    ban.inForce now = true := by
  unfold Ban.inForce at h ⊢
  cases hexpires : ban.expiresAt with
  | none => rfl
  | some expiresAt =>
      rw [hexpires] at h
      simp only [Option.all_some, decide_eq_true_eq] at h ⊢
      omega

variable {key : Key}

theorem isBanned_iff {db : Tables} {now : ℕ} :
    db.isBanned key now = true ↔ ∃ ban ∈ db.bans, ban.key = key ∧ ban.inForce now = true := by
  simp [Tables.isBanned]

/-- A new member is not banned exactly when no ban is in force. -/
theorem excluded_setMember (h : Excluded s) :
    Excluded (s.setMember key true) ↔ s.db.isBanned key s.clock = false := by
  constructor
  · exact fun hex => hex key (Function.update_self ..)
  · intro hbanned other hmember
    by_cases hkey : other = key
    · rw [hkey]
      exact hbanned
    · exact h other ((Function.update_of_ne hkey ..).symm.trans hmember)

theorem isBanned_ban {deleted : Bool} {now : ℕ} :
    (s.ban ban deleted).db.isBanned key now =
      (s.db.isBanned key now || (decide (ban.key = key) && ban.inForce now)) := by
  cases deleted <;> simp [State.ban, State.setMember, Tables.isBanned]

theorem excluded_ban (h : Excluded s) {deleted : Bool} :
    Excluded (s.ban ban deleted) ↔
      (deleted || !s.db.members ban.key || !ban.inForce s.clock) = true := by
  have hclock : (s.ban ban deleted).clock = s.clock := by cases deleted <;> rfl
  simp only [Excluded, hclock, isBanned_ban]
  cases deleted with
  | true =>
      simp only [Bool.true_or, iff_true]
      intro key hmember
      by_cases hkey : key = ban.key
      · rw [hkey] at hmember
        exact absurd ((Function.update_self ..).symm.trans hmember) Bool.false_ne_true
      · have hold : s.db.members key = true := (Function.update_of_ne hkey ..).symm.trans hmember
        rw [h key hold, decide_eq_false fun heq => hkey heq.symm]
        rfl
  | false =>
      simp only [Bool.false_or, Bool.or_eq_true, Bool.not_eq_true']
      constructor
      · intro hex
        cases hmember : s.db.members ban.key with
        | false => exact .inl rfl
        | true =>
            have hnone := hex ban.key hmember
            rw [decide_eq_true rfl, Bool.true_and, Bool.or_eq_false_iff] at hnone
            exact .inr hnone.2
      · intro hsafe key hmember
        rw [h key hmember, Bool.false_or]
        by_cases hkey : ban.key = key
        · subst hkey
          rcases hsafe with hno | hexpired
          · exact absurd (hno.symm.trans hmember) Bool.false_ne_true
          · rw [hexpired, Bool.and_false]
        · rw [decide_eq_false hkey, Bool.false_and]

/-- The commit of a redemption makes one member, and changes no ban. -/
theorem redeem_members (r : Redemption) : (s.redeem r).db.members =
      Function.update s.db.members r.key true ∧ (s.redeem r).db.bans = s.db.bans ∧
      (s.redeem r).clock = s.clock := by
  unfold State.redeem
  cases r.usesLeft <;> exact ⟨rfl, rfl, rfl⟩

/-- Only members, bans and the clock matter. -/
theorem Excluded.congr (hmembers : s'.db.members = s.db.members) (hbans : s'.db.bans = s.db.bans)
    (hclock : s'.clock = s.clock) : Excluded s' ↔ Excluded s := by
  unfold Excluded Tables.isBanned
  rw [hmembers, hbans, hclock]

theorem excluded_next (h : Excluded s) (hcommits : Commits s a s') :
    Excluded s' ↔ a.undisturbed s = true := by
  cases hcommits with
  | nothing ha hdb hclock hadmitted hopened =>
      have htrue : a.undisturbed s = true := by
        cases a with
        | joinInsert key | redeemCommit r | banCommit ban deleted => cases ha
        | _ => rfl
      rw [Excluded.congr (by rw [hdb]) (by rw [hdb]) hclock]
      exact iff_of_true h htrue
  | joined hmember => exact iff_of_true h (by simp [Await.undisturbed, h _ hmember])
  | join =>
      rw [excluded_setMember h, Await.undisturbed, Bool.not_eq_true']
  | @redeem r =>
      obtain ⟨hmembers, hbans, hclock⟩ := redeem_members (s := s) r
      have hsame : Excluded (s.redeem r) ↔ Excluded (s.setMember r.key true) :=
        Excluded.congr hmembers hbans hclock
      rw [hsame, excluded_setMember h, Await.undisturbed, Bool.not_eq_true']
  | taken hcode => exact iff_of_true h rfl
  | create hcode => exact iff_of_true ((Excluded.congr rfl rfl rfl).mpr h) rfl
  | ban => exact excluded_ban h
  | @unban key =>
      refine iff_of_true (fun other hmember => ?_) rfl
      have hbanned := h other hmember
      rw [Tables.isBanned, List.any_eq_false] at hbanned ⊢
      exact fun ban hban => hbanned ban (List.mem_filter.mp hban).1

/-- After a turn no member is banned exactly when the turn did not go by an answer that is out of
date. -/
theorem excluded_step (h : Excluded s) {turn : Turn} (hstep : s.step env turn = some s') :
    Excluded s' ↔ s.undisturbed turn = true := by
  rcases State.step_cases hstep with ⟨t, r, rfl, -, rfl⟩ | ⟨t, a, s₁, a', rfl, ha, hproceed, rfl⟩ |
    ⟨t, rfl, rfl⟩ | ⟨seconds, rfl, rfl⟩
  · exact iff_of_true ((Excluded.congr (by simp) (by simp) (by simp)).mpr h) rfl
  · rw [Excluded.congr (s := s₁) (by simp) (by simp) (by simp),
      excluded_next h (commits_of_proceed hproceed), State.undisturbed, ha, Option.all_some]
  · exact iff_of_true ((Excluded.congr (by simp) (by simp) (by simp)).mpr h) rfl
  · refine iff_of_true (fun key hmember => ?_) rfl
    rw [← Bool.not_eq_true, isBanned_iff]
    rintro ⟨ban, hban, hkey, hinForce⟩
    have hnow : s.db.isBanned key s.clock = true :=
      isBanned_iff.mpr ⟨ban, hban, hkey, Ban.inForce_mono (Nat.le_add_right ..) hinForce⟩
    exact Bool.false_ne_true ((h key hmember).symm.trans hnow)

/-- The request that a turn is about. -/
def Turn.request : Turn → Option ℕ
  | .begin t _ | .next t | .fail t => some t
  | .tick _ => none

theorem Commits.opened (h : Commits s a s') : s'.opened = s.opened := by
  cases h with
  | nothing ha hdb hclock hadmitted hopened => exact hopened
  | @redeem r =>
      unfold State.redeem
      cases r.usesLeft <;> rfl
  | @ban ban deleted => cases deleted <;> rfl
  | _ => rfl

/-- A turn leaves the other requests where they are. -/
theorem opened_other {turn : Turn} (h : s.step env turn = some s') (ht : turn.request ≠ some t) :
    s'.opened t = s.opened t := by
  rcases State.step_cases h with ⟨t', r, rfl, -, rfl⟩ | ⟨t', a, s₁, a', rfl, ha, hproceed, rfl⟩ |
    ⟨t', rfl, rfl⟩ | ⟨seconds, rfl, rfl⟩
  · rw [State.go_opened, Function.update_of_ne fun heq => ht (congrArg some heq.symm)]
  · rw [State.go_opened, Function.update_of_ne fun heq => ht (congrArg some heq.symm),
      (commits_of_proceed hproceed).opened]
  · rw [State.go_opened, Function.update_of_ne fun heq => ht (congrArg some heq.symm)]
  · rfl

/-- A request that never came in is not open. -/
theorem opened_of_unused {turns : List Turn} (h : (membership env).Run s turns s')
    (ht : ∀ turn ∈ turns, turn.request ≠ some t) : s'.opened t = s.opened t := by
  induction h with
  | nil => rfl
  | cons hstep _ ih =>
      exact (ih fun turn hturn => ht turn (List.mem_cons_of_mem _ hturn)).trans
        (opened_other hstep (ht _ List.mem_cons_self))

/-- Ida owns the organization, which anybody may join. -/
def openOrg : Env where
  moderation := ⟨[("org", "ida")], []⟩
  joinMethod _ := some 0

def noRows : Tables where
  members _ := false
  bans := []
  invites _ := none

/-- Ada is banned between the check of her join and its insert. -/
def banDuringJoin : List Turn :=
  [.begin 0 (.joinOrg ("org", "ada")), .next 0, .next 0, .next 0,
    .begin 1 (.banMember "ida" ("org", "ada") none), .next 1, .next 1, .next 1, .next 0]

end SpecterComs.Membership
