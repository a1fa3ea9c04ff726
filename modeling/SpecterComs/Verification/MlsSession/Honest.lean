import SpecterComs.Library.AppendLogs
import SpecterComs.Model.MlsSession.Network

/-! # Honest devices

A held group is the chain of commits its copy was made from. A device that is told what is logged
keeps copies of logged commits, and asks the service only for commits built on those, in whatever
order the awaits of many devices come.
-/

namespace SpecterComs.MlsSession

open DeliveryService (Base64)

variable {State : Type}

/-- The accepted commits of each group. -/
abbrev CommitLogs := AppendLogs GroupId Bytes

variable {x y : CommitLogs} {g : GroupId} {ch : List Bytes} {commit : Bytes}

/-- `commit` is logged as the one that leads to `epoch`. -/
def Logged (x : CommitLogs) (g : GroupId) (epoch : ℕ) (commit : Bytes) : Prop :=
  0 < epoch ∧ (x.log g)[epoch - 1]? = some commit

variable {epoch : ℕ}

theorem Logged.later (h : Logged x g epoch commit) (hxy : x ≤ y) : Logged y g epoch commit :=
  ⟨h.1, AppendLogs.getElem?_of_le h.2 hxy⟩

theorem Logged.epoch_le (h : Logged x g epoch commit) : epoch ≤ (x.log g).length := by
  have hlt := (List.getElem?_eq_some_iff.mp h.2).1
  have hpos := h.1
  omega

theorem Logged.snoc (h : Logged x g (ch.length + 1) commit) (hch : ch <+: x.log g) :
    ch ++ [commit] <+: x.log g :=
  AppendLogs.snoc hch h.2

/-- How commits, Welcomes and GroupInfos name the chain they belong to. -/
structure Chains (State : Type) where
  /-- The chain of a held group. -/
  chain : State → GroupId → Option (List Bytes)
  builtOn : GroupId → List Bytes → Bytes → Prop
  welcomes : GroupId → List Bytes → Bytes → Prop
  describes : GroupId → List Bytes → Bytes → Prop

namespace Chains

variable {C : Crypto State} (K : Chains State)

/-- The result of a commit on `ch`. -/
structure Commits (s : State) (g : GroupId) (ch : List Bytes) (r : CommitResult State) : Prop where
  builtOn : K.builtOn g ch r.commit
  chain : K.chain r.deviceState = Function.update (K.chain s) g (some (ch ++ [r.commit]))
  welcome : r.welcome ≠ [] → K.welcomes g (ch ++ [r.commit]) r.welcome
  groupInfo : r.groupInfo ≠ [] → K.describes g (ch ++ [r.commit]) r.groupInfo

/-- What the protocol says of the module. A commit is processed on exactly the chain it was
built on, and a join yields the chain its author was on. -/
structure Lawful (C : Crypto State) : Prop where
  epoch : ∀ s g, C.groupEpoch s g = (K.chain s g).map List.length
  built_unique : ∀ {g ch ch' commit}, K.builtOn g ch commit → K.builtOn g ch' commit → ch = ch'
  generateIdentity : ∀ seed label g, K.chain (C.generateIdentity seed label).1 g = none
  createGroup : ∀ {seed s g t}, C.createGroup seed s g = .ok t →
    K.chain t = Function.update (K.chain s) g (some [])
  addMember : ∀ {seed s g packages r}, C.addMember seed s g packages = .ok r →
    ∃ ch, K.chain s g = some ch ∧ K.Commits s g ch r
  removeMember : ∀ {seed s g labels r}, C.removeMember seed s g labels = .ok r →
    ∃ ch, K.chain s g = some ch ∧ K.Commits s g ch r
  joinFromWelcome : ∀ {s g ch welcome t}, C.joinFromWelcome s welcome = .ok t →
    K.welcomes g ch welcome → K.chain t = Function.update (K.chain s) g (some ch)
  processCommit : ∀ {s g commit t}, C.processCommit s g commit = .ok t →
    ∃ ch, K.chain s g = some ch ∧ K.builtOn g ch commit ∧
      K.chain t = Function.update (K.chain s) g (some (ch ++ [commit]))
  encrypt : ∀ {seed s g plaintext r}, C.encrypt seed s g plaintext = .ok r →
    K.chain r.1 = K.chain s
  decrypt : ∀ {s g ciphertext r}, C.decrypt s g ciphertext = .ok r → K.chain r.1 = K.chain s
  joinExternal : ∀ {seed s g ch info label r}, C.joinExternal seed s info label = .ok r →
    K.describes g ch info → K.Commits s g ch r
  resyncExternal : ∀ {seed s g ch info r}, C.resyncExternal seed s g info = .ok r →
    K.describes g ch info → K.Commits s g ch r
  exportGroupInfo : ∀ {s g info}, C.exportGroupInfo s g = .ok info →
    ∃ ch, K.chain s g = some ch ∧ K.describes g ch info

/-- Every copy of a group is a copy of logged commits. -/
def Good (x : CommitLogs) (s : State) : Prop :=
  ∀ g ch, K.chain s g = some ch → ch <+: x.log g

variable {K} {s t : State}

theorem Good.later (h : K.Good x s) (hxy : x ≤ y) : K.Good y s :=
  fun g ch hch => AppendLogs.prefix_of_le (h g ch hch) hxy

theorem Good.congr (h : K.Good x s) (hchain : K.chain t = K.chain s) : K.Good x t := by
  intro g ch hch
  rw [hchain] at hch
  exact h g ch hch

/-- Another copy of one group, and the rest as it was. -/
theorem Good.update (h : K.Good x s) (hch : ch <+: x.log g)
    (hchain : K.chain t = Function.update (K.chain s) g (some ch)) : K.Good x t := by
  intro g' ch' h'
  rw [hchain] at h'
  by_cases hg : g' = g
  · subst hg
    rw [Function.update_self] at h'
    exact Option.some.inj h' ▸ hch
  · rw [Function.update_of_ne hg] at h'
    exact h g' ch' h'

theorem good_generateIdentity (hK : K.Lawful C) (seed : Seed) (label : Label) :
    K.Good x (C.generateIdentity seed label).1 := by
  intro g ch hch
  rw [hK.generateIdentity] at hch
  cases hch

/-! ## What is logged -/

variable (K)

/-- Every logged commit was built on those before it. -/
def Built (x : CommitLogs) : Prop :=
  ∀ g n commit, (x.log g)[n]? = some commit → K.builtOn g ((x.log g).take n) commit

variable {K}

/-- A logged commit that applies leads to the next logged chain. -/
theorem Good.processCommit (hK : K.Lawful C) (hx : K.Built x) (h : K.Good x s)
    (hlogged : Logged x g epoch commit) (hok : C.processCommit s g commit = .ok t) :
    K.Good x t := by
  obtain ⟨ch, hch, hbuilt, hchain⟩ := hK.processCommit hok
  have heq : ch = (x.log g).take (epoch - 1) :=
    hK.built_unique hbuilt (hx g _ commit hlogged.2)
  have hlt : epoch - 1 < (x.log g).length := (List.getElem?_eq_some_iff.mp hlogged.2).1
  have hlength : ch.length = epoch - 1 := by
    rw [heq, List.length_take]
    omega
  refine h.update (AppendLogs.snoc (h g ch hch) ?_) hchain
  rw [hlength]
  exact hlogged.2

/-! ## Plans -/

variable (K)

/-- A plan for group `g`, made on `base` from logged commits. -/
structure Plans (x : CommitLogs) (g : GroupId) (base : State) (p : Plan State)
    (ch : List Bytes) : Prop where
  logged : ch <+: x.log g
  target : p.targetEpoch = ch.length + 1
  commits : K.Commits base g ch ⟨p.state, p.commit, p.welcome, p.groupInfo⟩

variable {K} {p : Plan State}

/-- Once its commit is logged, the plan's state is good. -/
theorem Plans.good (hp : K.Plans x g s p ch) (h : K.Good x s)
    (hlogged : Logged x g p.targetEpoch p.commit) : K.Good x p.state := by
  rw [hp.target] at hlogged
  exact h.update (hlogged.snoc hp.logged) hp.commits.chain

theorem Plans.later (hp : K.Plans x g s p ch) (hxy : x ≤ y) : K.Plans y g s p ch :=
  { hp with logged := AppendLogs.prefix_of_le hp.logged hxy }

variable {r : CommitResult State}

/-- A commit with its Welcome left out. -/
theorem Commits.noWelcome (h : K.Commits s g ch r) : K.Commits s g ch { r with welcome := [] } :=
  ⟨h.builtOn, h.chain, fun hne => absurd rfl hne, h.groupInfo⟩

theorem Commits.plans (h : K.Commits s g ch r) (hch : ch <+: x.log g) (ids : List UserId) :
    K.Plans x g s (r.plan (ch.length + 1) ids) ch :=
  ⟨hch, rfl, h⟩

theorem groupEpoch!_eq (hK : K.Lawful C) (hch : K.chain s g = some ch) :
    groupEpoch! C g s = .ok ch.length := by
  rw [groupEpoch!, hK.epoch, hch]
  rfl

variable {ids : List UserId} {seed : Seed}

theorem genesisPlan_plans (hK : K.Lawful C) {packages : List Bytes}
    (h : genesisPlan C g packages ids seed s = .ok (some p)) : K.Plans x g s p [] := by
  obtain ⟨solo, hsolo, h⟩ := Except.bind_eq_ok.mp h
  obtain ⟨r, hr, h⟩ := Except.bind_eq_ok.mp h
  have hchain := hK.createGroup hsolo
  obtain ⟨ch, hch, hcommits⟩ := hK.addMember hr
  obtain rfl : [] = ch := by simpa [hchain] using hch
  rw [groupEpoch!_eq hK hch] at h
  cases h
  refine Commits.plans { hcommits with chain := hcommits.chain.trans ?_ } List.nil_prefix ids
  rw [hchain, Function.update_idem]

theorem addPlan_plans (hK : K.Lawful C) (hs : K.Good x s) {missing : List MlsSession.Device}
    (h : addPlan C g missing ids seed s = .ok (some p)) : ∃ ch, K.Plans x g s p ch := by
  obtain ⟨r, hr, h⟩ := Except.bind_eq_ok.mp h
  obtain ⟨ch, hch, hcommits⟩ := hK.addMember hr
  rw [groupEpoch!_eq hK hch] at h
  cases h
  exact ⟨ch, hcommits.plans (hs g ch hch) ids⟩

theorem removePlan_plans (hK : K.Lawful C) (hs : K.Good x s) {labels : List Label}
    (h : removePlan C g labels seed s = .ok (some p)) : ∃ ch, K.Plans x g s p ch := by
  obtain ⟨r, hr, h⟩ := Except.bind_eq_ok.mp h
  obtain ⟨ch, hch, hcommits⟩ := hK.removeMember hr
  rw [groupEpoch!_eq hK hch] at h
  cases h
  exact ⟨ch, hcommits.noWelcome.plans (hs g ch hch) []⟩

variable (K)

/-- A build that plans from logged commits wherever it runs from now on. -/
def PlansFrom (x : CommitLogs) (g : GroupId) (build : Build C) : Prop :=
  ∀ y, x ≤ y → ∀ seed view p, K.Good y view.state → build.run seed view = .ok (some p) →
    ∃ ch, K.Plans y g view.state p ch

variable {K}

theorem reconciliation_plans (hK : K.Lawful C) (work : Reconciliation) :
    K.PlansFrom x g (work.build C g) := by
  intro y _ seed view p hs h
  cases work with
  | genesis devices ids =>
      simp only [Reconciliation.build, genesisBuild] at h
      split_ifs at h
      · cases h
      · exact ⟨[], genesisPlan_plans hK h⟩
  | removeStale ids =>
      simp only [Reconciliation.build, removeStaleBuild] at h
      split_ifs at h
      · cases h
      · exact removePlan_plans hK hs h
  | addMissing devices =>
      simp only [Reconciliation.build, addMissingBuild] at h
      split_ifs at h
      · cases h
      · exact addPlan_plans hK hs h
  | member devices mayCreate =>
      simp only [Reconciliation.build, memberBuild] at h
      split_ifs at h
      · cases h
      · exact ⟨[], genesisPlan_plans hK h⟩
      · cases h
      · exact addPlan_plans hK hs h

theorem removeOwnStaleBuild_plans (hK : K.Lawful C) : K.PlansFrom x g (removeOwnStaleBuild C g) := by
  intro y _ seed view p hs h
  simp only [removeOwnStaleBuild] at h
  split at h
  · cases h
  · split_ifs at h
    · cases h
    · exact removePlan_plans hK hs h

/-- An external commit, from a GroupInfo of a logged epoch. -/
theorem externalBuild_plans (hK : K.Lawful C) {info : Bytes} {force : Bool}
    (hch : ch <+: x.log g) (hinfo : K.describes g ch info) :
    K.PlansFrom x g (externalBuild C g info ch.length force) := by
  intro y hxy seed view p _ h
  have hlogged := AppendLogs.prefix_of_le hch hxy
  simp only [externalBuild] at h
  split at h
  · split_ifs at h
    · cases h
    · obtain ⟨r, hr, h⟩ := Except.bind_eq_ok.mp h
      cases h
      exact ⟨ch, (hK.resyncExternal hr hinfo).noWelcome.plans hlogged []⟩
  · obtain ⟨label, -, h⟩ := Except.bind_eq_ok.mp h
    obtain ⟨r, hr, h⟩ := Except.bind_eq_ok.mp h
    cases h
    exact ⟨ch, (hK.joinExternal hr hinfo).noWelcome.plans hlogged []⟩

end Chains

/-- What goes through base64 comes back, on either side. -/
structure Readable (codec : Codec) (base64 : Base64) : Prop where
  served : ∀ b, codec.fromB64 (base64.encode b) = .ok b
  sent : ∀ b, base64.decode (codec.toB64 b) = b
  shown : ∀ b, codec.fromB64 (codec.toB64 b) = .ok b

variable {C : Crypto State}

/-- What devices and service agree on. -/
structure Setting (C : Crypto State) extends Chains State where
  lawful : toChains.Lawful C
  codec : Codec
  base64 : Base64
  readable : Readable codec base64

/-- The body of a plan. -/
structure Carries (codec : Codec) (body : Body) (p : Plan State) : Prop where
  epoch : body.epoch = .value (p.targetEpoch : ℕ)
  commit : body.commit = .value (codec.toB64 p.commit)
  welcome : ∀ text, body.welcome = .value text → p.welcome ≠ [] ∧ text = codec.toB64 p.welcome
  groupInfo : ∀ text, body.groupInfo = .value text →
    p.groupInfo ≠ [] ∧ text = codec.toB64 p.groupInfo

theorem body_carries (codec : Codec) (sub : Submission State) :
    Carries codec (sub.body codec) sub.plan := by
  have hb64 : ∀ (b : Bytes) (text : String), nullable (toB64OrNull codec b) = .value text →
      b ≠ [] ∧ text = codec.toB64 b := by
    rintro (_ | ⟨a, b⟩) text ⟨⟩
    exact ⟨List.cons_ne_nil a b, rfl⟩
  obtain ⟨ctx, route, plan⟩ := sub
  cases route with
  | commit =>
      refine ⟨rfl, rfl, fun text h => hb64 _ text h, fun text h => ?_⟩
      simp only [Submission.body, Context.commitBody] at h
      split_ifs at h
      exact hb64 _ text h
  | externalCommit => exact ⟨rfl, rfl, fun text h => (by cases h), fun text h => hb64 _ text h⟩

/-- The context's group is the one the service means. -/
def Context.Fits (me : UserId) (ctx : Context) : Prop :=
  ctx.target.groupId me = ctx.groupIdStr

namespace Setting

variable (S : Setting C) (me : UserId)

/-- The text is the commit logged as the one that leads to `epoch`. -/
def Logs (x : CommitLogs) (g : GroupId) (epoch : ℕ) (text : String) : Prop :=
  ∃ c, S.codec.fromB64 text = .ok c ∧ Logged x g epoch c

/-- The text is a Welcome to a logged chain. -/
def Invites (x : CommitLogs) (g : GroupId) (text : String) : Prop :=
  ∃ ch b, S.codec.fromB64 text = .ok b ∧ ch <+: x.log g ∧ S.welcomes g ch b

def Asks (x : CommitLogs) : ApiRequest → Prop
  | .submit _ target body =>
      ∃ base p ch, S.Plans x (target.groupId me) base p ch ∧ Carries S.codec body p
  | .putGroupInfo target body =>
      ∃ ch info, ch <+: x.log (target.groupId me) ∧ S.describes (target.groupId me) ch info ∧
        body = uploadBody ch.length (S.codec.toB64 info)
  | _ => True

/-- A catch-up of logged commits. -/
structure Serves (x : CommitLogs) (g : GroupId) (data : CatchUpData) : Prop where
  commits : ∀ p ∈ data.commits, S.Logs x g p.1 p.2
  welcome : ∀ text ∈ data.welcome, S.Invites x g text

/-- A GroupInfo of a logged epoch. -/
def Shows (x : CommitLogs) (g : GroupId) (reply : DeliveryService.GroupInfoReply) : Prop :=
  ∀ text ∈ reply.groupInfo, ∃ ch b, S.codec.fromB64 text = .ok b ∧ ch <+: x.log g ∧
    ch.length = reply.epoch ∧ S.describes g ch b

def Answers (x : CommitLogs) : (r : ApiRequest) → r.Reply → Prop
  | .submit _ target body, .ok _ => ∀ p : Plan State, Carries S.codec body p →
      Logged x (target.groupId me) p.targetEpoch p.commit
  | .catchUp target, .ok data => S.Serves x (target.groupId me) data
  | .getGroupInfo target, .ok reply => S.Shows x (target.groupId me) reply
  | _, _ => True

variable {S me}

theorem Logs.later {text : String} (h : S.Logs x g epoch text) (hxy : x ≤ y) :
    S.Logs y g epoch text := by
  obtain ⟨c, hc, hlogged⟩ := h
  exact ⟨c, hc, hlogged.later hxy⟩

theorem Invites.later {text : String} (h : S.Invites x g text) (hxy : x ≤ y) :
    S.Invites y g text := by
  obtain ⟨ch, b, hb, hch, hw⟩ := h
  exact ⟨ch, b, hb, AppendLogs.prefix_of_le hch hxy, hw⟩

theorem Asks.later {r : ApiRequest} (h : S.Asks me x r) (hxy : x ≤ y) : S.Asks me y r := by
  cases r with
  | submit route target body =>
      obtain ⟨base, p, ch, hp, hbody⟩ := h
      exact ⟨base, p, ch, hp.later hxy, hbody⟩
  | putGroupInfo target body =>
      obtain ⟨ch, info, hch, hinfo⟩ := h
      exact ⟨ch, info, AppendLogs.prefix_of_le hch hxy, hinfo⟩
  | _ => trivial

variable {data : CatchUpData}

theorem Serves.later (h : S.Serves x g data) (hxy : x ≤ y) : S.Serves y g data :=
  ⟨fun p hp => (h.commits p hp).later hxy, fun text htext => (h.welcome text htext).later hxy⟩

theorem Answers.later {r : ApiRequest} {reply : r.Reply} (h : S.Answers me x r reply)
    (hxy : x ≤ y) : S.Answers me y r reply := by
  cases r with
  | submit route target body =>
      cases reply with
      | ok done => exact fun p hp => (h p hp).later hxy
      | error e => trivial
  | catchUp target =>
      cases reply with
      | ok data => exact Serves.later h hxy
      | error e => trivial
  | getGroupInfo target =>
      cases reply with
      | ok reply =>
          intro text htext
          obtain ⟨ch, b, hb, hch, hrest⟩ := h text htext
          exact ⟨ch, b, hb, AppendLogs.prefix_of_le hch hxy, hrest⟩
      | error e => trivial
  | _ => trivial

theorem answers_failed (text : String) (r : ApiRequest) :
    S.Answers me x r (r.failed text) := by
  cases r <;> trivial

/-! ## Lock sections -/

variable (S me)

def sections : Async.Contract CommitLogs SectionOp SectionOp.Result where
  pre x
    | .api r => S.Asks me x r
    | .sleep _ => True
  post x
    | .api r, reply => S.Built x ∧ S.Answers me x r reply
    | .sleep _, _ => S.Built x
  pre_mono {x y o} hxy h := by
    cases o with
    | api r => exact Asks.later h hxy
    | sleep ms => trivial

/-- A finished section leaves a good state. -/
def Leaves (x : CommitLogs) (f : Finish State) : Prop :=
  ∀ s ∈ f.state?, S.Good x s

/-- What is left of a section ends in a good state. -/
def SectionSafe (x : CommitLogs) (p : Section State) : Prop :=
  p.Safe (S.sections me) S.Leaves x

def StartSafe (x : CommitLogs) : Start State → Prop
  | .ended f => S.Leaves x f
  | .ownCommit _ rest => S.SectionSafe me x rest

/-- Lock work that does so from every good state. -/
def WorkSafe (x : CommitLogs) (work : LockWork C) : Prop :=
  ∀ y, x ≤ y → S.Built y → ∀ seed view, S.Good y view.state →
    S.StartSafe me y (work.run seed view)

variable {S me}

theorem SectionSafe.later {p : Section State} (h : S.SectionSafe me x p)
    (hxy : x ≤ y) : S.SectionSafe me y p :=
  Async.Safe.later (fun hle hf s hs => (hf s hs).later hle) h hxy

theorem WorkSafe.later {work : LockWork C} (h : S.WorkSafe me x work) (hxy : x ≤ y) :
    S.WorkSafe me y work :=
  fun z hz => h z (hxy.trans hz)

theorem leaves_returned (r : LockResult) : S.Leaves x (.returned r : Finish State) :=
  fun _ hs => by cases hs

theorem leaves_thrown (e : Error) : S.Leaves x (.thrown e : Finish State) :=
  fun _ hs => by cases hs

variable {s : State}

/-- The commit states of a finish are good if its state is. -/
theorem leaves_of {f : Finish State} (hf : f.state? = some s) (h : S.Good x s) : S.Leaves x f := by
  intro t ht
  rw [hf] at ht
  exact Option.some.inj ht ▸ h

/-- A commit the log check finds is logged. -/
theorem Serves.logged (h : S.Serves x g data) {c : Bytes}
    (hfound : (data.commits.any fun p => p.1 == epoch && p.2 == S.codec.toB64 c) = true) :
    Logged x g epoch c := by
  obtain ⟨p, hp, hmatch⟩ := List.any_eq_true.mp hfound
  simp only [Bool.and_eq_true, beq_iff_eq] at hmatch
  obtain ⟨c', hc', hlogged⟩ := h.commits p hp
  rw [hmatch.2, S.readable.shown] at hc'
  cases hc'
  exact hmatch.1 ▸ hlogged

theorem wasOwnCommitAccepted_safe (target : DeliveryService.Target) (epoch : ℕ) (c : Bytes)
    (attempts : List ℕ) :
    (wasOwnCommitAccepted target epoch (S.codec.toB64 c) attempts).Safe (S.sections me)
      (fun y r => r = some true → Logged y (target.groupId me) epoch c) x := by
  induction attempts generalizing x with
  | nil => exact fun h => by cases h
  | cons attempt rest ih =>
      refine ⟨trivial, fun y _ reply hreply => ?_⟩
      cases reply with
      | ok data => exact fun h => hreply.2.logged (Option.some.inj h)
      | error e => exact ⟨trivial, fun z _ _ _ => ih⟩

theorem submitPlan_safe {sub : Submission State} {base : State} (hfits : sub.ctx.Fits me)
    (hbase : S.Good x base) (hp : S.Plans x sub.ctx.groupIdStr base sub.plan ch) :
    S.SectionSafe me x (submitPlan C S.codec sub base) := by
  have hbody := body_carries S.codec sub
  rw [← hfits] at hp
  have hmerge : ∀ y, x ≤ y → Logged y (sub.ctx.target.groupId me) sub.plan.targetEpoch
      sub.plan.commit → S.Leaves y (mergePlan C sub base) := fun y hxy hlogged =>
    leaves_of rfl ((hp.later hxy).good (hbase.later hxy) hlogged)
  refine ⟨⟨base, sub.plan, ch, hp, hbody⟩, fun y hxy reply hreply => ?_⟩
  cases reply with
  | ok done => exact hmerge y hxy (hreply.2 _ hbody)
  | error e =>
      dsimp only
      generalize isEpochConflict e = conflict
      cases conflict with
      | true => exact leaves_returned _
      | false =>
          refine Async.Safe.bind (wasOwnCommitAccepted_safe _ _ _ _) fun z hyz answer hanswer => ?_
          match answer with
          | some true => exact hmerge z (hxy.trans hyz) (hanswer rfl)
          | some false => exact leaves_returned _
          | none => exact leaves_returned _

theorem ownCommitWork_safe (ctx : Context) {route : Route} {build : Build C} (hfits : ctx.Fits me)
    (hbuild : S.PlansFrom x ctx.groupIdStr build) :
    S.WorkSafe me x (ownCommitWork S.codec ctx route build) := by
  intro y hxy _ seed view hview
  simp only [ownCommitWork, ownCommitSection]
  split
  · exact leaves_thrown _
  · exact leaves_returned _
  · next plan h =>
      obtain ⟨ch, hp⟩ := hbuild y hxy seed view plan hview h
      let sub : Submission State := ⟨ctx, route, plan⟩
      have hsafe : S.SectionSafe me y (submitPlan C S.codec sub view.state) :=
        submitPlan_safe hfits hview hp
      exact hsafe

theorem encryptWork_safe (plaintext : Bytes) : S.WorkSafe me x (encryptWork C g plaintext) := by
  intro y _ _ seed view hview s hs
  have hencrypt := fun r (h : C.encrypt seed view.state g plaintext = .ok r) =>
    hview.congr (S.lawful.encrypt h)
  grind [encryptWork, LockWork.pure, encryptSection, Finish.state?]

theorem decryptWork_safe (ciphertext : Bytes) :
    S.WorkSafe me x (decryptWork C S.codec g ciphertext) := by
  intro y _ _ seed view hview s hs
  have hdecrypt := fun r (h : C.decrypt view.state g ciphertext = .ok r) =>
    hview.congr (S.lawful.decrypt h)
  grind [decryptWork, LockWork.pure, decryptSection, Finish.state?]

theorem welcomeWork_safe {g' : GroupId} {welcome : Bytes} (hch : ch <+: x.log g')
    (hw : S.welcomes g' ch welcome) : S.WorkSafe me x (welcomeWork C g welcome) := by
  intro y hxy _ seed view hview s hs
  have hjoin := fun t (h : C.joinFromWelcome view.state welcome = .ok t) =>
    hview.update (AppendLogs.prefix_of_le hch hxy) (S.lawful.joinFromWelcome h hw)
  grind [welcomeWork, LockWork.pure, welcomeSection, Finish.state?]

theorem commitWork_safe (hlogged : Logged x g epoch commit) :
    S.WorkSafe me x (commitWork C g commit) := by
  intro y hxy hbuilt seed view hview s hs
  have hprocess := fun t (h : C.processCommit view.state g commit = .ok t) =>
    hview.processCommit S.lawful hbuilt (hlogged.later hxy) h
  grind [commitWork, LockWork.pure, commitSection, Finish.state?]

theorem applyWelcome_good (hs : S.Good x s) (hdata : S.Serves x g data) :
    S.Good x (applyWelcome C S.codec g s data.welcome).1 := by
  unfold applyWelcome
  split
  · exact hs
  · next text htext =>
      obtain ⟨ch, b, hb, hch, hw⟩ := hdata.welcome text htext
      split_ifs
      · exact hs
      · rw [hb]
        split
        · exact hs
        · next h => exact hs.update hch (S.lawful.joinFromWelcome h hw)

variable {a : Applied State}

theorem applyCommit_good (hs : S.Good x a.state) (hbuilt : S.Built x) {p : ℕ × String}
    (hp : S.Logs x g p.1 p.2) : S.Good x (applyCommit C S.codec g a p).state := by
  obtain ⟨c, hc, hlogged⟩ := hp
  unfold applyCommit
  split_ifs
  · exact hs
  · rw [hc]
    split
    · exact hs
    · next t h =>
        have ht : S.Good x t := hs.processCommit S.lawful hbuilt hlogged h
        split
        · exact ht
        · exact ht

theorem applyCommits_good (hs : S.Good x a.state) (hbuilt : S.Built x)
    {commits : List (ℕ × String)} (hcommits : ∀ p ∈ commits, S.Logs x g p.1 p.2) :
    S.Good x (applyCommits C S.codec g a commits).state := by
  have hsorted : ∀ p ∈ sortCommits commits, S.Logs x g p.1 p.2 := fun p hp =>
    hcommits p ((List.perm_insertionSort _ _).mem_iff.mp hp)
  unfold applyCommits
  generalize sortCommits commits = sorted at hsorted
  induction sorted generalizing a with
  | nil => exact hs
  | cons p rest ih =>
      exact ih (applyCommit_good hs hbuilt (hsorted p List.mem_cons_self))
        fun q hq => hsorted q (List.mem_cons_of_mem _ hq)

theorem applyCatchUp_good (hs : S.Good x s) (hbuilt : S.Built x) (hdata : S.Serves x g data) :
    S.Good x (applyCatchUp C S.codec g s data).state := by
  have hwelcomed := applyWelcome_good hs hdata
  simp only [applyCatchUp]
  split
  · exact hwelcomed
  · exact applyCommits_good hwelcomed hbuilt hdata.commits

theorem catchUpWork_safe (hdata : S.Serves x g data) :
    S.WorkSafe me x (catchUpWork C S.codec g data) := by
  intro y hxy hbuilt seed view hview s hs
  have happlied := applyCatchUp_good hview hbuilt (hdata.later hxy)
  grind [catchUpWork, LockWork.pure, catchUpSection, Finish.state?]

end Setting

end SpecterComs.MlsSession
