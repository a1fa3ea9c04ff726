import SpecterComs.Library.Rows
import SpecterComs.Model.Billing.Contributions
import Mathlib.Algebra.GroupWithZero.Nat

/-! # Contributions are credited once

A contribution is credited by the flip of its status from pending. A failure or an expired session
takes the status away from pending too, and a success that is reported afterwards finds nothing to
flip.
-/

namespace SpecterComs.Billing

/-- The amounts of the contributions to an organization among those that were paid. -/
def Db.paidCents (db : Db) (paid : List ℕ) (orgId : ℕ) : List ℕ :=
  db.contributions.filterMap fun c =>
    if c.orgId = orgId ∧ c.id ∈ paid then some c.amountCents else none

/-- The credits that were booked for an organization. -/
def Db.bookedCents (db : Db) (orgId : ℕ) : List ℕ :=
  db.ledger.filterMap fun e => if e.orgId = orgId then some e.deltaCents else none

/-- The tables, for which contributions a payment has been reported to succeed, and which of them
`creditContribution` has credited. -/
structure State where
  db : Db
  paid : List ℕ
  credited : List ℕ

namespace State

def initial : State where
  db :=
    { contributions := []
      balanceCents := fun _ => 0
      ledger := []
      nextId := 0 }
  paid := []
  credited := []

/-- Each contribution that was paid is credited once, and no other is: in the ledger and in the
balance too. -/
structure CreditedOnce (s : State) : Prop where
  once : s.credited.Nodup
  paid : ∀ id, id ∈ s.credited ↔ id ∈ s.paid
  booked : ∀ orgId, (s.db.bookedCents orgId).Perm (s.db.paidCents s.paid orgId)
  balance : ∀ orgId, s.db.balanceCents orgId = (s.db.paidCents s.paid orgId).sum

end State

namespace Input

/-- The contribution for which the input reports that a payment succeeded. -/
def reports (env : Env) (db : Db) : Input → Option ℕ
  | webhook (.paymentIntentSucceeded _ (some id)) =>
      if db.contributions.any fun c => c.id = id then some id else none
  | webhook _ | createOrgInvoice _ _ => none
  | contributeToOrg orgId userId amountCents method _ =>
      if mayPay env orgId userId method && minContributionCents ≤ amountCents &&
          (env.ownerId orgId).isSome && env.provider = .dev then some db.nextId
      else none
  | payOrgInvoice orgId contributionId userId method _ =>
      if (db.invoice orgId contributionId).isSome && mayPay env orgId userId method &&
          env.provider = .dev then some contributionId
      else none

/-- The contribution that is credited for it, if it is pending: a new one is. -/
def credits (env : Env) (db : Db) (i : Input) : Option ℕ :=
  (i.reports env db).filter fun id => (db.pendingContribution id).isSome || id = db.nextId

/-- No success is reported for a contribution that has failed or was canceled. -/
def inTime (db : Db) : Input → Bool
  | webhook (.paymentIntentSucceeded _ (some id)) => db.contributions.all fun c =>
      c.id ≠ id || c.status = .pending || c.status = .succeeded
  | _ => true

end Input

/-- Requests and webhook deliveries, one after the other. -/
def billing (env : Env) : StepSystem State Input where
  step s i := some
    { db := handle env s.db i
      paid := (i.reports env s.db).toList ++ s.paid
      credited := (i.credits env s.db).toList ++ s.credited }

/-! ## What is credited -/

/-- The contributions that are marked as paid are the ones that were. -/
structure Inv (s : State) : Prop where
  keys : (s.db.contributions.map Contribution.id).Nodup
  fresh : ∀ c ∈ s.db.contributions, c.id < s.db.nextId
  paidFresh : ∀ id ∈ s.paid, id < s.db.nextId
  paid : ∀ c ∈ s.db.contributions, c.id ∈ s.paid ↔ c.status = .succeeded
  once : s.CreditedOnce

theorem inv_initial : Inv .initial where
  keys := .nil
  fresh _ h := by cases h
  paidFresh _ h := by cases h
  paid _ h := by cases h
  once := ⟨.nil, fun _ => Iff.rfl, fun _ => .nil, fun _ => rfl⟩

variable {env : Env} {s : State} {db : Db} {id : ℕ} {c : Contribution}

/-- A write to a row that leaves what the row is for. -/
def KeepsAmount (set : Contribution → Contribution) : Prop :=
  ∀ c, (set c).id = c.id ∧ (set c).orgId = c.orgId ∧ (set c).amountCents = c.amountCents

variable {set : Contribution → Contribution}

theorem mem_updateContribution {c' : Contribution}
    (h : c' ∈ (db.updateContribution id set).contributions) :
    ∃ c ∈ db.contributions, c' = if c.id = id then set c else c := by
  obtain ⟨c, hc, rfl⟩ := List.mem_map.mp h
  exact ⟨c, hc, rfl⟩

theorem KeepsAmount.row (hset : KeepsAmount set) (id : ℕ) (c : Contribution) :
    (if c.id = id then set c else c).id = c.id ∧ (if c.id = id then set c else c).orgId = c.orgId ∧
      (if c.id = id then set c else c).amountCents = c.amountCents := by
  by_cases hid : c.id = id
  · rw [if_pos hid]
    exact hset c
  · rw [if_neg hid]
    exact ⟨rfl, rfl, rfl⟩

theorem KeepsAmount.ids (hset : KeepsAmount set) :
    (db.updateContribution id set).contributions.map Contribution.id =
      db.contributions.map Contribution.id := by
  simp only [Db.updateContribution, List.map_map]
  exact List.map_congr_left fun c _ => (hset.row id c).1

theorem KeepsAmount.paidCents (hset : KeepsAmount set) (paid : List ℕ) (orgId : ℕ) :
    (db.updateContribution id set).paidCents paid orgId =
      db.paidCents paid orgId := by
  simp only [Db.paidCents, Db.updateContribution, List.filterMap_map]
  refine List.filterMap_congr fun c _ => ?_
  obtain ⟨hid, horg, hcents⟩ := hset.row id c
  simp only [Function.comp_apply, hid, horg, hcents]

/-- A payment for one more contribution. -/
theorem paidCents_cons (hkeys : (db.contributions.map Contribution.id).Nodup)
    (hc : c ∈ db.contributions) {paid : List ℕ} (hunpaid : c.id ∉ paid) :
    (db.paidCents (c.id :: paid) c.orgId).Perm
      (c.amountCents :: db.paidCents paid c.orgId) := by
  refine perm_filterMap_cons (.of_map Contribution.id hkeys) hc ?_ ?_ fun x hx hne => ?_
  · exact if_neg fun h => hunpaid h.2
  · exact if_pos ⟨rfl, List.mem_cons_self⟩
  · have hid : x.id ≠ c.id := fun hid => hne (List.inj_on_of_nodup_map hkeys hx hc hid)
    simp only [List.mem_cons, hid, false_or]

variable {orgId userId amountCents : ℕ}

theorem paidCents_cons_ne {paid : List ℕ} (hkeys : (db.contributions.map Contribution.id).Nodup)
    (hc : c ∈ db.contributions) (horg : c.orgId ≠ orgId) :
    db.paidCents (c.id :: paid) orgId = db.paidCents paid orgId := by
  refine List.filterMap_congr fun x hx => ?_
  by_cases hid : x.id = c.id
  · obtain rfl := List.inj_on_of_nodup_map hkeys hx hc hid
    rw [if_neg fun h => horg h.1, if_neg fun h => horg h.1]
  · simp only [List.mem_cons, hid, false_or]

/-- A write that leaves what is credited alone. -/
theorem Inv.update (h : Inv s) (id : ℕ) (hset : KeepsAmount set)
    (hstatus : ∀ c ∈ s.db.contributions, c.id = id → ((set c).status = .succeeded ↔ c.status = .succeeded)) :
    Inv ⟨s.db.updateContribution id set, s.paid, s.credited⟩ := by
  refine ⟨?_, ?_, h.paidFresh, ?_,
    ⟨h.once.once, h.once.paid, fun orgId => ?_, fun orgId => ?_⟩⟩
  · rw [hset.ids]
    exact h.keys
  · intro c' hc'
    obtain ⟨c, hc, rfl⟩ := mem_updateContribution hc'
    rw [(hset.row id c).1]
    exact h.fresh c hc
  · intro c' hc'
    obtain ⟨c, hc, rfl⟩ := mem_updateContribution hc'
    rw [(hset.row id c).1, h.paid c hc]
    by_cases hid : c.id = id
    · rw [if_pos hid]
      exact (hstatus c hc hid).symm
    · rw [if_neg hid]
  · rw [hset.paidCents]
    exact h.once.booked orgId
  · rw [hset.paidCents]
    exact h.once.balance orgId

theorem pendingContribution_some (h : db.pendingContribution id = some c) :
    c ∈ db.contributions ∧ c.id = id ∧ c.status = .pending := by
  have hc := List.find?_some h
  rw [Bool.and_eq_true, decide_eq_true_eq, decide_eq_true_eq] at hc
  exact ⟨List.mem_of_find?_eq_some h, hc⟩

theorem pendingContribution_none (h : db.pendingContribution id = none)
    (hc : c ∈ db.contributions) (hid : c.id = id) : c.status ≠ .pending := by
  intro hpending
  have := List.find?_eq_none.mp h c hc
  simp [hid, hpending] at this

theorem bookedCents_credit (hc : db.pendingContribution id = some c) (paymentId : Option String)
    (orgId : ℕ) :
    (db.creditContribution env id paymentId).bookedCents orgId =
      db.bookedCents orgId ++ if c.orgId = orgId then [c.amountCents] else [] := by
  simp only [Db.bookedCents, Db.creditContribution, hc, List.filterMap_append]
  by_cases horg : c.orgId = orgId
  · simp [horg]
  · simp [horg]

/-- A credit goes to the contribution it is for. -/
theorem Inv.credit (h : Inv s) (paymentId : Option String)
    (hc : s.db.pendingContribution id = some c) :
    Inv ⟨s.db.creditContribution env id paymentId, id :: s.paid, id :: s.credited⟩ := by
  obtain ⟨hmem, rfl, hpending⟩ := pendingContribution_some hc
  have hunpaid : c.id ∉ s.paid := by
    rw [h.paid c hmem, hpending]
    exact nofun
  have hset : KeepsAmount fun row : Contribution =>
      { row with
        status := .succeeded
        providerPaymentId := paymentId.or row.providerPaymentId } :=
    fun _ => ⟨rfl, rfl, rfl⟩
  have hpaid : ∀ orgId,
      (s.db.creditContribution env c.id paymentId).paidCents (c.id :: s.paid) orgId =
        s.db.paidCents (c.id :: s.paid) orgId := by
    intro orgId
    simp only [Db.creditContribution, hc]
    exact hset.paidCents _ orgId
  refine ⟨?_, ?_, ?_, ?_,
    ⟨List.nodup_cons.mpr ⟨fun hcredited => hunpaid ((h.once.paid _).mp hcredited), h.once.once⟩,
      fun id => by rw [List.mem_cons, List.mem_cons, h.once.paid id],
      fun orgId => ?_, fun orgId => ?_⟩⟩
  · simp only [Db.creditContribution, hc]
    rw [hset.ids]
    exact h.keys
  · simp only [Db.creditContribution, hc]
    intro c' hc'
    obtain ⟨x, hx, rfl⟩ := mem_updateContribution hc'
    rw [(hset.row c.id x).1]
    exact h.fresh x hx
  · simp only [Db.creditContribution, hc]
    intro id hid
    rcases List.mem_cons.mp hid with rfl | hid
    · exact h.fresh c hmem
    · exact h.paidFresh id hid
  · simp only [Db.creditContribution, hc]
    intro c' hc'
    obtain ⟨x, hx, rfl⟩ := mem_updateContribution hc'
    rw [(hset.row c.id x).1, List.mem_cons, h.paid x hx]
    by_cases hid : x.id = c.id
    · rw [if_pos hid]
      exact iff_of_true (.inl hid) rfl
    · rw [if_neg hid]
      exact or_iff_right hid
  · rw [hpaid, bookedCents_credit hc paymentId]
    by_cases horg : c.orgId = orgId
    · subst horg
      rw [if_pos rfl]
      exact (List.perm_append_singleton _ _).trans
        (((h.once.booked c.orgId).cons _).trans (paidCents_cons h.keys hmem hunpaid).symm)
    · rw [if_neg horg, List.append_nil, paidCents_cons_ne h.keys hmem horg]
      exact h.once.booked orgId
  · rw [hpaid]
    simp only [Db.creditContribution, hc]
    by_cases horg : c.orgId = orgId
    · subst horg
      rw [Function.update_self, (paidCents_cons h.keys hmem hunpaid).sum_nat, List.sum_cons,
        h.once.balance c.orgId, Nat.add_comm]
    · rw [Function.update_of_ne (Ne.symm horg), paidCents_cons_ne h.keys hmem horg]
      exact h.once.balance orgId

/-- A success that is reported again books nothing. -/
theorem Inv.again (h : Inv s) (hc : c ∈ s.db.contributions) (hid : c.id = id)
    (hstatus : c.status = .succeeded) : Inv ⟨s.db, id :: s.paid, s.credited⟩ := by
  obtain rfl := hid
  have hpaid : c.id ∈ s.paid := (h.paid c hc).mpr hstatus
  have hmem : ∀ id, id ∈ c.id :: s.paid ↔ id ∈ s.paid := by
    intro id
    rw [List.mem_cons]
    constructor
    · rintro (rfl | h)
      · exact hpaid
      · exact h
    · exact .inr
  have hcents : ∀ orgId, s.db.paidCents (c.id :: s.paid) orgId = s.db.paidCents s.paid orgId := by
    intro orgId
    simp only [Db.paidCents, hmem]
  refine ⟨h.keys, h.fresh, ?_, ?_,
    ⟨h.once.once, fun id => (h.once.paid id).trans (hmem id).symm, fun orgId => ?_, fun orgId => ?_⟩⟩
  · intro id hid
    exact h.paidFresh id ((hmem id).mp hid)
  · intro x hx
    rw [hmem]
    exact h.paid x hx
  · rw [hcents]
    exact h.once.booked orgId
  · rw [hcents]
    exact h.once.balance orgId

/-- A success that is reported after a failure is never booked. -/
theorem Inv.late (h : Inv s) (hc : c ∈ s.db.contributions) (hid : c.id = id)
    (hstatus : c.status ≠ .succeeded) : ¬ State.CreditedOnce ⟨s.db, id :: s.paid, s.credited⟩ := by
  obtain rfl := hid
  intro honce
  have hcredited : c.id ∈ s.credited := (honce.paid c.id).mpr List.mem_cons_self
  exact hstatus ((h.paid c hc).mp ((h.once.paid c.id).mp hcredited))

/-- A new contribution is not paid yet. -/
theorem Inv.insert (h : Inv s) (hc : c.status = .pending) :
    Inv ⟨s.db.insertContribution c, s.paid, s.credited⟩ := by
  have hunpaid : s.db.nextId ∉ s.paid := fun hpaid => Nat.lt_irrefl _ (h.paidFresh _ hpaid)
  have hcents : ∀ orgId,
      (s.db.insertContribution c).paidCents s.paid orgId = s.db.paidCents s.paid orgId := by
    intro orgId
    simp [Db.paidCents, Db.insertContribution, List.filterMap_append, hunpaid]
  refine ⟨?_, ?_, ?_, ?_, ⟨h.once.once, h.once.paid, fun orgId => ?_, fun orgId => ?_⟩⟩
  · simp only [Db.insertContribution, List.map_append, List.map_cons, List.map_nil]
    refine List.nodup_append.mpr ⟨h.keys, List.nodup_singleton _, ?_⟩
    rintro id hid id' hid' rfl
    obtain rfl := List.mem_singleton.mp hid'
    obtain ⟨x, hx, hid⟩ := List.mem_map.mp hid
    exact Nat.lt_irrefl _ (hid ▸ h.fresh x hx)
  · intro x hx
    rcases List.mem_append.mp hx with hx | hx
    · exact Nat.lt_succ_of_lt (h.fresh x hx)
    · obtain rfl := List.mem_singleton.mp hx
      exact Nat.lt_succ_self _
  · intro id hid
    exact Nat.lt_succ_of_lt (h.paidFresh id hid)
  · intro x hx
    rcases List.mem_append.mp hx with hx | hx
    · exact h.paid x hx
    · obtain rfl := List.mem_singleton.mp hx
      refine iff_of_false hunpaid ?_
      dsimp only
      rw [hc]
      exact nofun
  · rw [hcents]
    exact h.once.booked orgId
  · rw [hcents]
    exact h.once.balance orgId

theorem Inv.fail (h : Inv s) (id : ℕ) {status : ContributionStatus} (paymentId : Option String)
    (hstatus : status ≠ .succeeded) :
    Inv ⟨s.db.markContributionFailed id status paymentId, s.paid, s.credited⟩ := by
  cases hc : s.db.pendingContribution id with
  | none =>
      simp only [Db.markContributionFailed, hc]
      exact h
  | some c =>
      obtain ⟨hmem, hid, hpending⟩ := pendingContribution_some hc
      simp only [Db.markContributionFailed, hc]
      refine h.update id (fun _ => ⟨rfl, rfl, rfl⟩) fun x hx hxid => ?_
      obtain rfl := List.inj_on_of_nodup_map h.keys hx hmem (hxid.trans hid.symm)
      refine iff_of_false hstatus ?_
      rw [hpending]
      exact nofun

/-! ## Inputs -/

theorem pendingContribution_insert (h : Inv s) (hc : c.status = .pending) :
    (s.db.insertContribution c).pendingContribution s.db.nextId =
      some { c with id := s.db.nextId } := by
  simp only [Db.pendingContribution, Db.insertContribution, List.find?_append]
  have hnone : (s.db.contributions.find? fun x => x.id = s.db.nextId && x.status = .pending) =
      none := by
    refine List.find?_eq_none.mpr fun x hx => ?_
    simp [Nat.ne_of_lt (h.fresh x hx)]
  rw [hnone, Option.none_or, List.find?_singleton, if_pos]
  simp [hc]

theorem invoice_some (h : s.db.invoice orgId id = some c) :
    c ∈ s.db.contributions ∧ c.id = id ∧ c.status = .pending := by
  have hc := List.find?_some h
  simp only [Bool.and_eq_true, decide_eq_true_eq] at hc
  exact ⟨List.mem_of_find?_eq_some h, hc.1.1.1, hc.2⟩

theorem Inv.pending (h : Inv s) (hc : c ∈ s.db.contributions) (hid : c.id = id)
    (hpending : c.status = .pending) : s.db.pendingContribution id = some c := by
  cases hfind : s.db.pendingContribution id with
  | none => exact absurd hpending (pendingContribution_none hfind hc hid)
  | some c' =>
      obtain ⟨hc', hid', -⟩ := pendingContribution_some hfind
      rw [List.inj_on_of_nodup_map h.keys hc hc' (hid.trans hid'.symm)]

theorem Inv.notPending (h : Inv s) (hc : c ∈ s.db.contributions) (hid : c.id = id)
    (hpending : c.status ≠ .pending) : s.db.pendingContribution id = none := by
  refine List.find?_eq_none.mpr fun x hx hx' => ?_
  rw [Bool.and_eq_true, decide_eq_true_eq, decide_eq_true_eq] at hx'
  obtain rfl := List.inj_on_of_nodup_map h.keys hx hc (hx'.1.trans hid.symm)
  exact hpending hx'.2

variable {paymentId session : String}

/-- A success that is reported for a row that is there. -/
theorem step_succeeded (h : Inv s) (hc : c ∈ s.db.contributions) (hid : c.id = id) :
    (billing env).step s (.webhook (.paymentIntentSucceeded paymentId (some id))) = some
      ⟨s.db.creditContribution env id (some paymentId), id :: s.paid,
        if c.status = .pending then id :: s.credited else s.credited⟩ := by
  have hany : (s.db.contributions.any fun c => c.id = id) = true :=
    List.any_eq_true.mpr ⟨c, hc, decide_eq_true hid⟩
  have hold : id ≠ s.db.nextId := hid ▸ Nat.ne_of_lt (h.fresh c hc)
  simp only [billing, handle, webhook, Input.credits, Input.reports, if_pos hany]
  by_cases hpending : c.status = .pending
  · simp [Option.filter_some, h.pending hc hid hpending, hpending]
  · simp [h.notPending hc hid hpending, hpending, hold]

/-- A success that is reported for a row that is not there. -/
theorem step_succeeded_unknown (hc : ∀ c ∈ s.db.contributions, c.id ≠ id) :
    (billing env).step s (.webhook (.paymentIntentSucceeded paymentId (some id))) = some s := by
  have hany : ¬ (s.db.contributions.any fun c => c.id = id) = true := by
    rw [Bool.not_eq_true, List.any_eq_false]
    exact fun c hmem => by simpa using hc c hmem
  have hnone : s.db.pendingContribution id = none := by
    refine List.find?_eq_none.mpr fun x hx => ?_
    simp [hc x hx]
  simp only [billing, handle, webhook, Input.credits, Input.reports, if_neg hany,
    Db.creditContribution, hnone]
  rfl

variable {method : PaymentMethod} {t : State}

theorem step_contributeToOrg (h : Inv s)
    (hstep : (billing env).step s (.contributeToOrg orgId userId amountCents method session) = some t) :
    Inv t := by
  obtain rfl := Option.some.inj hstep
  simp only [Input.credits, Input.reports, handle, contributeToOrg]
  by_cases hpay : (mayPay env orgId userId method && decide (minContributionCents ≤ amountCents) &&
      (env.ownerId orgId).isSome) = true
  · simp only [hpay, if_true, Bool.true_and]
    cases hprovider : env.provider with
    | dev =>
        simp only [decide_true, if_true, Option.filter_some, Bool.or_true, Option.toList_some,
          Db.createCheckout, Db.sessionId, hprovider, List.singleton_append]
        exact (h.insert rfl).credit _ (pendingContribution_insert h rfl)
    | stripe =>
        simp only [reduceCtorEq, decide_false, Bool.false_eq_true, if_false, Option.filter_none,
          Option.toList_none, Db.createCheckout, Db.sessionId, hprovider, List.nil_append]
        exact (h.insert rfl).update _ (fun _ => ⟨rfl, rfl, rfl⟩) fun _ _ _ => Iff.rfl
  · simp only [hpay, Bool.false_and, Bool.false_eq_true, if_false, Option.filter_none,
      Option.toList_none, List.nil_append]
    exact h

theorem step_payOrgInvoice (h : Inv s) {contributionId : ℕ}
    (hstep : (billing env).step s (.payOrgInvoice orgId contributionId userId method session) = some t) :
    Inv t := by
  obtain rfl := Option.some.inj hstep
  simp only [Input.credits, Input.reports, handle, payOrgInvoice]
  cases hinvoice : s.db.invoice orgId contributionId with
  | none =>
      simp only [Option.isSome_none, Bool.false_and, Bool.false_eq_true, if_false,
        Option.filter_none, Option.toList_none, List.nil_append]
      exact h
  | some c =>
      obtain ⟨hc, hid, hpending⟩ := invoice_some hinvoice
      have hfind := h.pending hc hid hpending
      by_cases hpay : mayPay env orgId userId method = true
      · simp only [hpay, if_true, Option.isSome_some, Bool.true_and]
        cases hprovider : env.provider with
        | dev =>
            simp only [decide_true, if_true, Option.filter_some, hfind, Option.isSome_some,
              Bool.true_or, Option.toList_some, Db.createCheckout, hprovider,
              List.singleton_append]
            exact (h.credit _ hfind).update _ (fun _ => ⟨rfl, rfl, rfl⟩) fun _ _ _ => Iff.rfl
        | stripe =>
            simp only [reduceCtorEq, decide_false, Bool.false_eq_true, if_false,
              Option.filter_none, Option.toList_none, Db.createCheckout, hprovider,
              List.nil_append]
            exact h.update _ (fun _ => ⟨rfl, rfl, rfl⟩) fun _ _ _ => Iff.rfl
      · simp only [hpay, Bool.false_eq_true, if_false, Bool.and_false, Bool.false_and,
          Option.filter_none, Option.toList_none, List.nil_append]
        exact h

theorem step_createOrgInvoice (h : Inv s)
    (hstep : (billing env).step s (.createOrgInvoice orgId amountCents) = some t) : Inv t := by
  obtain rfl := Option.some.inj hstep
  simp only [Input.credits, Input.reports, Option.filter_none, Option.toList_none,
    List.nil_append, handle, createOrgInvoice]
  cases env.ownerId orgId with
  | none => exact h
  | some ownerId =>
      dsimp only
      split
      · exact h.insert rfl
      · exact h

/-- A step leaves everything credited once exactly if no success comes late, and it keeps the
invariant then. -/
theorem step_credited {i : Input} (h : Inv s) (hstep : (billing env).step s i = some t) :
    (t.CreditedOnce ↔ i.inTime s.db = true) ∧ (i.inTime s.db = true → Inv t) := by
  have hkept {t : State} (hinTime : i.inTime s.db = true) (ht : Inv t) :
      (t.CreditedOnce ↔ i.inTime s.db = true) ∧ (i.inTime s.db = true → Inv t) :=
    ⟨iff_of_true ht.once hinTime, fun _ => ht⟩
  cases i with
  | createOrgInvoice orgId amountCents => exact hkept rfl (step_createOrgInvoice h hstep)
  | contributeToOrg orgId userId amountCents method session =>
      exact hkept rfl (step_contributeToOrg h hstep)
  | payOrgInvoice orgId contributionId userId method session =>
      exact hkept rfl (step_payOrgInvoice h hstep)
  | webhook event =>
      cases event with
      | other type =>
          obtain rfl := Option.some.inj hstep
          exact hkept rfl h
      | checkoutSessionExpired id =>
          obtain rfl := Option.some.inj hstep
          cases id with
          | none => exact hkept rfl h
          | some id => exact hkept rfl (h.fail id none nofun)
      | paymentIntentPaymentFailed paymentId id =>
          obtain rfl := Option.some.inj hstep
          cases id with
          | none => exact hkept rfl h
          | some id => exact hkept rfl (h.fail id (some paymentId) nofun)
      | paymentIntentSucceeded paymentId id =>
          cases id with
          | none =>
              obtain rfl := Option.some.inj hstep
              exact hkept rfl h
          | some id =>
              by_cases hrow : ∃ c ∈ s.db.contributions, c.id = id
              · obtain ⟨c, hc, hid⟩ := hrow
                have hinTime : (Input.webhook (.paymentIntentSucceeded paymentId (some id))).inTime
                    s.db = true ↔ c.status = .pending ∨ c.status = .succeeded := by
                  simp only [Input.inTime, List.all_eq_true, Bool.or_eq_true, decide_eq_true_eq]
                  constructor
                  · intro hall
                    rcases hall c hc with (hne | hstatus) | hstatus
                    · exact absurd hid hne
                    · exact .inl hstatus
                    · exact .inr hstatus
                  · intro hstatus x hx
                    by_cases hxid : x.id = id
                    · obtain rfl := List.inj_on_of_nodup_map h.keys hx hc (hxid.trans hid.symm)
                      exact hstatus.elim (fun h => .inl (.inr h)) .inr
                    · exact .inl (.inl hxid)
                rw [step_succeeded h hc hid] at hstep
                obtain rfl := Option.some.inj hstep
                by_cases hpending : c.status = .pending
                · rw [if_pos hpending]
                  exact hkept (hinTime.mpr (.inl hpending)) (h.credit _ (h.pending hc hid hpending))
                · have hdb : s.db.creditContribution env id (some paymentId) = s.db := by
                    have hnone := h.notPending hc hid hpending
                    simp only [Db.creditContribution, hnone]
                  rw [if_neg hpending, hdb]
                  by_cases hstatus : c.status = .succeeded
                  · exact hkept (hinTime.mpr (.inr hstatus)) (h.again hc hid hstatus)
                  · have hlate := fun h => (hinTime.mp h).elim hpending hstatus
                    exact ⟨iff_of_false (h.late hc hid hstatus) hlate, fun h => absurd h hlate⟩
              · have hne : ∀ c ∈ s.db.contributions, c.id ≠ id := fun c hc hid => hrow ⟨c, hc, hid⟩
                rw [step_succeeded_unknown hne] at hstep
                obtain rfl := Option.some.inj hstep
                refine hkept ?_ h
                simp only [Input.inTime, List.all_eq_true, Bool.or_eq_true, decide_eq_true_eq]
                exact fun c hc => .inl (.inl (hne c hc))

/-- Throughout a run every paid contribution is credited once, exactly if no payment is reported to
succeed for a contribution that has failed or was canceled before. -/
theorem credited_once_iff (env : Env) (is : List Input) :
    (∀ s i t, (billing env).Passes .initial is s i t → t.CreditedOnce) ↔
      ∀ s i t, (billing env).Passes .initial is s i t → i.inTime s.db = true :=
  StepSystem.passes_iff (P := fun _ _ t => t.CreditedOnce) (C := fun s i => i.inTime s.db = true)
    (fun _ _ _ hs hstep => step_credited hs hstep) inv_initial is

def stripe : Env where
  provider := .stripe
  paymentsEnabled := true
  enforce := true
  isMember _ _ := true
  ownerId _ := some 7
  cardFeeCents netCents := netCents / 20

/-- An invoice has two checkout sessions: the first one expires, and the second one is paid. -/
theorem not_credited_once :
    ¬ ∀ (env : Env) (is : List Input) (t : State),
      (billing env).Run .initial is t → t.CreditedOnce := by
  intro h
  have hrun := h stripe
    [.createOrgInvoice 1 5000,
      .payOrgInvoice 1 0 7 .card "cs_1",
      .payOrgInvoice 1 0 7 .ach "cs_2",
      .webhook (.checkoutSessionExpired (some 0)),
      .webhook (.paymentIntentSucceeded "pi_2" (some 0))]
    _ (StepSystem.exec_eq_some_iff.mp rfl)
  have hpaid := hrun.paid 0
  revert hpaid
  decide +kernel

end SpecterComs.Billing
