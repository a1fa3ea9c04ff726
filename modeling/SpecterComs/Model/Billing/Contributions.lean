import SpecterComs.Library.StepSystem

/-! # Contributions to the pool of an organization

`identity-node/src/utils/billingCredit.ts`, `routes/stripeWebhook.ts` and the handlers that start
a checkout (`billingController.ts`, `adminController.ts`), over the tables they write. Every
webhook delivery decides on the locked row of its contribution, so deliveries act one after the
other; one that fails is rolled back and delivered again. Whoever sends a request is logged in.
-/

namespace SpecterComs.Billing

def minContributionCents : ℕ := 100

inductive ContributionStatus
  | pending
  | succeeded
  | failed
  | canceled
  deriving DecidableEq, Repr

inductive PaymentMethod
  | card
  | ach
  | dev
  deriving DecidableEq, Repr

def PaymentMethod.text : PaymentMethod → String
  | card => "card"
  | ach => "ach"
  | dev => "dev"

inductive PaymentProvider
  | dev
  | stripe
  deriving DecidableEq, Repr

structure Contribution where
  id : ℕ
  orgId : ℕ
  userId : ℕ
  amountCents : ℕ
  feeCents : ℕ
  paymentMethod : PaymentMethod
  provider : PaymentProvider
  status : ContributionStatus
  /-- `source = 'admin_invoice'`. -/
  isInvoice : Bool
  providerPaymentId : Option String
  providerSessionId : Option String
  deriving DecidableEq, Repr

structure LedgerEntry where
  orgId : ℕ
  deltaCents : ℕ
  description : String
  deriving DecidableEq, Repr

structure Db where
  contributions : List Contribution
  /-- `org_billing.balance_cents`; a row is created at 0. -/
  balanceCents : ℕ → ℕ
  ledger : List LedgerEntry
  nextId : ℕ

/-- The configuration, and what other tables and the processor's fee say. -/
structure Env where
  provider : PaymentProvider
  paymentsEnabled : Bool
  /-- `BILLING_ENFORCE`. -/
  enforce : Bool
  isMember : (orgId userId : ℕ) → Bool
  /-- `organizations.owner_id`. -/
  ownerId : (orgId : ℕ) → Option ℕ
  /-- The fee of a card charge, computed with floating point numbers. -/
  cardFeeCents : (netCents : ℕ) → ℕ

namespace Db

variable (env : Env) (db : Db)

/-- `UPDATE billing_contributions SET … WHERE id = $1`. -/
def updateContribution (id : ℕ) (set : Contribution → Contribution) : Db :=
  { db with contributions := db.contributions.map fun c => if c.id = id then set c else c }

/-- `… WHERE id = $1 AND status = 'pending'`. -/
def pendingContribution (id : ℕ) : Option Contribution :=
  db.contributions.find? fun c => c.id = id && c.status = .pending

def creditContribution (contributionId : ℕ) (providerPaymentId : Option String) : Db :=
  match db.pendingContribution contributionId with
  | none => db
  | some c =>
      let note := "Member contribution (" ++ c.paymentMethod.text ++ ")" ++
        if env.enforce then "" else " (enforcement inactive — testing mode)"
      { db.updateContribution contributionId fun row =>
          { row with
            status := .succeeded
            providerPaymentId := providerPaymentId.or row.providerPaymentId } with
        balanceCents := Function.update db.balanceCents c.orgId
          (db.balanceCents c.orgId + c.amountCents)
        ledger := db.ledger ++ [⟨c.orgId, c.amountCents, note⟩] }

def markContributionFailed (contributionId : ℕ) (status : ContributionStatus)
    (providerPaymentId : Option String) : Db :=
  match db.pendingContribution contributionId with
  | none => db
  | some _ =>
      db.updateContribution contributionId fun row =>
        { row with
          status := status
          providerPaymentId := providerPaymentId.or row.providerPaymentId }

def insertContribution (c : Contribution) : Db :=
  { db with
    contributions := db.contributions ++ [{ c with id := db.nextId }]
    nextId := db.nextId + 1 }

/-- The charge of a method for the payer, and how it is recorded. -/
def feeCents (method : PaymentMethod) (netCents : ℕ) : ℕ :=
  match method with
  | .card => env.cardFeeCents netCents
  | .ach | .dev => 0

def recorded (method : PaymentMethod) : PaymentMethod :=
  match env.provider with
  | .dev => .dev
  | .stripe => method

/-- `createCheckout`: the development provider settles at once. -/
def createCheckout (contributionId : ℕ) : Db :=
  match env.provider with
  | .dev => db.creditContribution env contributionId (some ("dev_" ++ toString contributionId))
  | .stripe => db

/-- The checkout session that the processor opens. -/
def sessionId (session : String) : Option String :=
  match env.provider with
  | .dev => none
  | .stripe => some session

end Db

/-- The events of the processor that the webhook handles. -/
inductive WebhookEvent
  | paymentIntentSucceeded (paymentId : String) (contributionId : Option ℕ)
  | paymentIntentPaymentFailed (paymentId : String) (contributionId : Option ℕ)
  | checkoutSessionExpired (contributionId : Option ℕ)
  | other (type : String)
  deriving DecidableEq, Repr

inductive Input
  | createOrgInvoice (orgId amountCents : ℕ)
  | contributeToOrg (orgId userId amountCents : ℕ) (method : PaymentMethod) (session : String)
  | payOrgInvoice (orgId contributionId userId : ℕ) (method : PaymentMethod) (session : String)
  | webhook (event : WebhookEvent)
  deriving DecidableEq, Repr

def webhook (env : Env) (db : Db) : WebhookEvent → Db
  | .paymentIntentSucceeded paymentId (some id) => db.creditContribution env id (some paymentId)
  | .paymentIntentPaymentFailed paymentId (some id) =>
      db.markContributionFailed id .failed (some paymentId)
  | .checkoutSessionExpired (some id) => db.markContributionFailed id .canceled none
  | .paymentIntentSucceeded _ none | .paymentIntentPaymentFailed _ none
  | .checkoutSessionExpired none | .other _ => db

def createOrgInvoice (env : Env) (db : Db) (orgId amountCents : ℕ) : Db :=
  match env.ownerId orgId with
  | none => db
  | some ownerId =>
      if 0 < amountCents then
        db.insertContribution
          { id := 0
            orgId := orgId
            userId := ownerId
            amountCents := amountCents
            feeCents := 0
            paymentMethod := .dev
            provider := .dev
            status := .pending
            isInvoice := true
            providerPaymentId := none
            providerSessionId := none }
      else db

/-- A checkout is begun: payments are on, the method is the payer's to choose, and the payer is in
the organization. -/
def mayPay (env : Env) (orgId userId : ℕ) (method : PaymentMethod) : Bool :=
  env.paymentsEnabled && method ≠ .dev && env.isMember orgId userId

def contributeToOrg (env : Env) (db : Db) (orgId userId amountCents : ℕ) (method : PaymentMethod)
    (session : String) : Db :=
  if mayPay env orgId userId method && minContributionCents ≤ amountCents &&
      (env.ownerId orgId).isSome then
    let id := db.nextId
    let db := db.insertContribution
      { id := 0
        orgId := orgId
        userId := userId
        amountCents := amountCents
        feeCents := Db.feeCents env method amountCents
        paymentMethod := Db.recorded env method
        provider := env.provider
        status := .pending
        isInvoice := false
        providerPaymentId := none
        providerSessionId := none }
    let db := db.createCheckout env id
    match Db.sessionId env session with
    | some session => db.updateContribution id fun c => { c with providerSessionId := some session }
    | none => db
  else db

/-- A pending invoice of the organization. -/
def Db.invoice (db : Db) (orgId contributionId : ℕ) : Option Contribution :=
  db.contributions.find? fun c =>
    c.id = contributionId && c.orgId = orgId && c.isInvoice && c.status = .pending

def payOrgInvoice (env : Env) (db : Db) (orgId contributionId userId : ℕ) (method : PaymentMethod)
    (session : String) : Db :=
  match db.invoice orgId contributionId with
  | none => db
  | some c =>
      if mayPay env orgId userId method then
        (db.createCheckout env contributionId).updateContribution contributionId fun row =>
          { row with
            userId := userId
            paymentMethod := Db.recorded env method
            provider := env.provider
            feeCents := Db.feeCents env method c.amountCents
            providerSessionId := Db.sessionId env session }
      else db

def handle (env : Env) (db : Db) : Input → Db
  | .createOrgInvoice orgId amountCents => createOrgInvoice env db orgId amountCents
  | .contributeToOrg orgId userId amountCents method session =>
      contributeToOrg env db orgId userId amountCents method session
  | .payOrgInvoice orgId contributionId userId method session =>
      payOrgInvoice env db orgId contributionId userId method session
  | .webhook event => webhook env db event

end SpecterComs.Billing
