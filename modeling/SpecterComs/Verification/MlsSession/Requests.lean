import SpecterComs.Verification.MlsSession.OneGroup

/-! # Commit requests against the server's schemas

Genesis and reconciliation put every missing device into one commit. The server bounds
each field of the request by the kind of group.
-/

namespace SpecterComs.DeliveryService

/-- The schema of the endpoint that takes a target's commits. -/
def Target.commitSchema : Target → CommitSchema
  | .dm _ => submitDmCommitSchema
  | .channel _ _ => submitChannelCommitSchema
  | .event _ _ => submitEventGroupCommitSchema

/-! ## What each field's parser takes -/

theorem parseEpoch_succ (n : ℕ) :
    parseEpoch (.value ((n + 1 : ℕ) : ℤ)) = .ok n.succPNat := by
  rfl

variable {path : String} {max : ℕ}

theorem parseString_isOk {s : String} :
    (∃ a, parseString path 0 max (.value s) = .ok a) ↔ jsLength s ≤ max := by
  by_cases h : jsLength s ≤ max <;> simp [parseString, h]

/-- A nullable text of a request. -/
def Within (max : ℕ) (text : Option String) : Prop :=
  ∀ s ∈ text, jsLength s ≤ max

theorem parseNullish_isOk {text : Option String} :
    (∃ a, parseNullish path max (text.elim .null .value) = .ok a) ↔ Within max text := by
  cases text with
  | none => simp [parseNullish, Within]
  | some s => by_cases h : jsLength s ≤ max <;> simp [parseNullish, Within, h]

theorem uuidIssues_values {path : String} {ids : List UserId} :
    uuidIssues path (ids.map .value) = [] ↔ ∀ id ∈ ids, isUuid id := by
  simp only [uuidIssues, List.map_eq_nil_iff, List.filter_eq_nil_iff]
  constructor
  · intro h id hid
    obtain ⟨i, hi, rfl⟩ := List.mem_iff_getElem.mp hid
    have hmem : (Field.value ids[i], i) ∈ (ids.map Field.value).zipIdx := by
      rw [List.mk_mem_zipIdx_iff_getElem?]
      simp [hi]
    simpa using h _ hmem
  · intro h e he
    have hvalue := List.mem_map.mp (List.fst_mem_of_mem_zipIdx he)
    obtain ⟨id, hid, hvalue⟩ := hvalue
    rw [← hvalue]
    simpa using h id hid

theorem parseUuids_isOk {ids : List UserId} :
    (∃ a, parseUuids path max (.value (ids.map .value)) = .ok a) ↔
      ids.length ≤ max ∧ ∀ id ∈ ids, isUuid id := by
  by_cases hmax : max < ids.length
  · simp [parseUuids, hmax]
  · have hle : ids.length ≤ max := by omega
    rw [← @uuidIssues_values path ids]
    by_cases hissues : uuidIssues path (ids.map .value) = []
    · simp [parseUuids, hmax, hle, hissues]
    · simp [parseUuids, hmax, hissues]

/-- A body is taken where each field is. -/
theorem safeParse_isOk {schema : CommitSchema} {body : Body} :
    (∃ data, schema.safeParse body = .ok data) ↔
      (∃ a, parseEpoch body.epoch = .ok a) ∧
      (∃ a, parseString "commit" 0 schema.commitMax body.commit = .ok a) ∧
      (∀ max ∈ schema.welcomeMax, ∃ a, parseNullish "welcome" max body.welcome = .ok a) ∧
      (∀ max ∈ schema.welcomedMax,
        ∃ a, parseUuids "welcomed_user_ids" max body.welcomedUserIds = .ok a) ∧
      ∃ a, parseNullish "group_info" groupInfoMax body.groupInfo = .ok a := by
  have optional : ∀ {α : Type} (max? : Option ℕ) (parse : ℕ → Except Issues (Option α)),
      (∃ a, max?.elim (.ok none) parse = .ok a) ↔ ∀ max ∈ max?, ∃ a, parse max = .ok a := by
    intro α max? parse
    cases max? <;> simp
  rw [← optional schema.welcomeMax, ← optional schema.welcomedMax]
  unfold CommitSchema.safeParse
  simp only
  constructor
  · rintro ⟨data, h⟩
    split at h
    · next hepoch hcommit hwelcome hwelcomed hinfo =>
        exact ⟨⟨_, hepoch⟩, ⟨_, hcommit⟩, ⟨_, hwelcome⟩, ⟨_, hwelcomed⟩, ⟨_, hinfo⟩⟩
    · cases h
  · rintro ⟨⟨_, hepoch⟩, ⟨_, hcommit⟩, ⟨_, hwelcome⟩, ⟨_, hwelcomed⟩, ⟨_, hinfo⟩⟩
    rw [hepoch, hcommit, hwelcome, hwelcomed, hinfo]
    exact ⟨_, rfl⟩

end SpecterComs.DeliveryService

namespace SpecterComs.MlsSession

open DeliveryService

section

variable {State : Type} (C : Crypto State) (codec : Codec)

/-! ## The commits of genesis and reconciliation -/

namespace Reconciliation

variable (groupId : GroupId)

/-- The fetched devices that are no leaf of the group. -/
def missing (s : State) (devices : List Device) : List Device :=
  devices.filter fun d => !d.isIn (C.groupMemberLabels s groupId)

/-- The users a Welcome goes to. -/
def welcomed (s : State) : Reconciliation → List UserId
  | genesis _ otherMemberIds => otherMemberIds
  | removeStale _ => []
  | addMissing devices => ((missing C groupId s devices).map Device.userId).eraseDups
  | member _ _ => []

/-- The library's call for the commit. -/
def call (seed : Seed) (s : State) : Reconciliation → Except String (CommitResult State)
  | genesis devices _ => do
      let solo ← C.createGroup seed s groupId
      C.addMember seed solo groupId (devices.map Device.keyPackage)
  | removeStale currentMemberIds => do
      let r ← C.removeMember seed s groupId
        ((C.groupMemberLabels s groupId).filter fun label =>
          !currentMemberIds.contains (userIdOfLabel label)).eraseDups
      .ok { r with welcome := [] }
  | addMissing devices =>
      C.addMember seed s groupId ((missing C groupId s devices).map Device.keyPackage)
  | member devices _ =>
      if C.groupExists s groupId then
        C.addMember seed s groupId ((missing C groupId s devices).map Device.keyPackage)
      else do
        let solo ← C.createGroup seed s groupId
        C.addMember seed solo groupId (devices.map Device.keyPackage)

variable {C groupId} {ids : List UserId} {seed : Seed} {s : State} {plan : Plan State}

theorem genesisPlan_eq {packages : List Bytes}
    (h : genesisPlan C groupId packages ids seed s = .ok (some plan)) :
    ∃ r n, (do
        let solo ← C.createGroup seed s groupId
        C.addMember seed solo groupId packages) = .ok r ∧ plan = r.plan (n + 1) ids := by
  obtain ⟨solo, hsolo, h⟩ := Except.bind_eq_ok.mp h
  obtain ⟨r, hr, h⟩ := Except.bind_eq_ok.mp h
  obtain ⟨epoch, -, h⟩ := Except.bind_eq_ok.mp h
  cases h
  exact ⟨r, epoch, Except.bind_eq_ok.mpr ⟨solo, hsolo, hr⟩, rfl⟩

theorem addPlan_eq {devices : List Device}
    (h : addPlan C groupId devices ids seed s = .ok (some plan)) :
    ∃ r n, C.addMember seed s groupId (devices.map Device.keyPackage) = .ok r ∧
      plan = r.plan (n + 1) ids := by
  obtain ⟨r, hr, h⟩ := Except.bind_eq_ok.mp h
  obtain ⟨epoch, -, h⟩ := Except.bind_eq_ok.mp h
  cases h
  exact ⟨r, epoch, hr, rfl⟩

theorem removePlan_eq {labels : List Label}
    (h : removePlan C groupId labels seed s = .ok (some plan)) :
    ∃ r n, (do
        let r ← C.removeMember seed s groupId labels
        .ok { r with welcome := [] }) = .ok r ∧ plan = r.plan (n + 1) [] := by
  obtain ⟨r, hr, h⟩ := Except.bind_eq_ok.mp h
  obtain ⟨epoch, -, h⟩ := Except.bind_eq_ok.mp h
  cases h
  exact ⟨_, epoch, Except.bind_eq_ok.mpr ⟨r, hr, rfl⟩, rfl⟩

/-- The plan carries what the library returned, the users that are welcomed and the
epoch after a held one. -/
theorem build_eq_some {work : Reconciliation} {view : View State}
    (h : (work.build C groupId).run seed view = .ok (some plan)) :
    ∃ r n, work.call C groupId seed view.state = .ok r ∧
      plan = r.plan (n + 1) (work.welcomed C groupId view.state) := by
  cases work with
  | genesis devices otherMemberIds =>
      simp only [build, genesisBuild] at h
      split_ifs at h
      · cases h
      · exact genesisPlan_eq h
  | removeStale currentMemberIds =>
      simp only [build, removeStaleBuild] at h
      split_ifs at h
      · cases h
      · exact removePlan_eq h
  | addMissing devices =>
      simp only [build, addMissingBuild] at h
      split_ifs at h
      · cases h
      · exact addPlan_eq h
  | member devices mayCreate =>
      simp only [build, memberBuild] at h
      by_cases hheld : C.groupExists view.state groupId
      · rw [if_neg (by simp [hheld])] at h
        split_ifs at h
        · cases h
        · simpa [call, hheld, welcomed, missing] using addPlan_eq h
      · rw [if_pos (by simp [hheld])] at h
        split_ifs at h
        · cases h
        · simpa [call, hheld, welcomed] using genesisPlan_eq h

/-! ## When the server takes them -/

variable (C)

/-- The users to welcome are few enough and uuids, where the request names them. -/
def FewWelcomed (ctx : Context) (s : State) (work : Reconciliation) : Prop :=
  ∀ max ∈ ctx.target.commitSchema.welcomedMax,
    (work.welcomed C ctx.groupIdStr s).length ≤ max ∧
      ∀ id ∈ work.welcomed C ctx.groupIdStr s, isUuid id

/-- What the library returns for the commit is short enough. The older routes send no
GroupInfo. -/
def ShortResult (ctx : Context) (seed : Seed) (s : State) (work : Reconciliation) : Prop :=
  ∀ r, work.call C ctx.groupIdStr seed s = .ok r →
    jsLength (codec.toB64 r.commit) ≤ ctx.target.commitSchema.commitMax ∧
    (∀ max ∈ ctx.target.commitSchema.welcomeMax, Within max (toB64OrNull codec r.welcome)) ∧
    (ctx.routes.mlsCommit → Within groupInfoMax (toB64OrNull codec r.groupInfo))

end Reconciliation

theorem nullable_eq_elim {α : Type} (text : Option α) : nullable text = text.elim .null .value := by
  cases text <;> rfl

/-- A commit request of genesis or reconciliation passes the schema of its kind of group
exactly where the users it welcomes are few enough and the library's result is short
enough. -/
theorem commit_request_accepted {work : Reconciliation} {ctx : Context} {seed : Seed}
    {view : View State} {plan : Plan State}
    (h : (work.build C ctx.groupIdStr).run seed view = .ok (some plan)) :
    (∃ data, ctx.target.commitSchema.safeParse
        (Submission.body codec ⟨ctx, .commit, plan⟩) = .ok data) ↔
      work.FewWelcomed C ctx view.state ∧ work.ShortResult C codec ctx seed view.state := by
  obtain ⟨r, n, hcall, rfl⟩ := Reconciliation.build_eq_some h
  have hshort : work.ShortResult C codec ctx seed view.state ↔
      jsLength (codec.toB64 r.commit) ≤ ctx.target.commitSchema.commitMax ∧
      (∀ max ∈ ctx.target.commitSchema.welcomeMax, Within max (toB64OrNull codec r.welcome)) ∧
      (ctx.routes.mlsCommit → Within groupInfoMax (toB64OrNull codec r.groupInfo)) := by
    simp [Reconciliation.ShortResult, hcall]
  have hepoch : ∃ a, parseEpoch (.value ((n + 1 : ℕ) : ℤ)) = .ok a := ⟨_, parseEpoch_succ n⟩
  have hids : (∀ max ∈ ctx.target.commitSchema.welcomedMax,
        ∃ a, parseUuids "welcomed_user_ids" max
          (Submission.body codec ⟨ctx, .commit, r.plan (n + 1)
            (work.welcomed C ctx.groupIdStr view.state)⟩).welcomedUserIds = .ok a) ↔
      work.FewWelcomed C ctx view.state := by
    simp only [Reconciliation.FewWelcomed]
    cases hctx : ctx.target with
    | dm other => simp [Target.commitSchema, submitDmCommitSchema]
    | channel orgId chanId =>
        simp [Submission.body, Context.commitBody, hctx, CommitResult.plan, parseUuids_isOk]
    | event orgId eventId =>
        simp [Submission.body, Context.commitBody, hctx, CommitResult.plan, parseUuids_isOk]
  have hinfo : (∃ a, parseNullish "group_info" groupInfoMax
        (Submission.body codec ⟨ctx, .commit, r.plan (n + 1)
          (work.welcomed C ctx.groupIdStr view.state)⟩).groupInfo = .ok a) ↔
      (ctx.routes.mlsCommit → Within groupInfoMax (toB64OrNull codec r.groupInfo)) := by
    cases hroute : ctx.routes.mlsCommit with
    | false => simp [Submission.body, Context.commitBody, hroute, parseNullish]
    | true =>
        simp [Submission.body, Context.commitBody, hroute, nullable_eq_elim, parseNullish_isOk,
          CommitResult.plan]
  rw [safeParse_isOk, hids, hinfo, hshort]
  simp only [Submission.body, Context.commitBody, CommitResult.plan, nullable_eq_elim,
    parseString_isOk, parseNullish_isOk, hepoch, true_and]
  tauto

end

namespace OneGroup

/-- A channel of a current server. -/
def lounge : Context :=
  channelContext ⟨true, true, true, true, true, true⟩ "org" name

def fresh : View OneGroup := ⟨⟨"u:d", none, 0⟩, some "u:d"⟩

def userNumber (i : ℕ) : UserId :=
  String.ofList ("00000000-0000-4000-8000-0000000000".toList ++
    [Nat.digitChar (i / 10), Nat.digitChar (i % 10)])

/-- The digits and hyphens that all users of the example share. -/
def uuidStart : List Char :=
  List.replicate 8 '0' ++ '-' :: (List.replicate 4 '0' ++ '-' :: (('4' :: List.replicate 3 '0') ++
    '-' :: (('8' :: List.replicate 3 '0') ++ '-' :: List.replicate 10 '0')))

theorem toList_userNumber (i : ℕ) :
    (userNumber i).toList = uuidStart ++ [Nat.digitChar (i / 10), Nat.digitChar (i % 10)] := by
  have hstart : "00000000-0000-4000-8000-0000000000".toList = uuidStart := by decide +kernel
  rw [← hstart]
  exact String.toList_ofList

theorem userNumber_inj {i j : ℕ} (hi : i < 51) (hj : j < 51)
    (h : userNumber i = userNumber j) : i = j := by
  have hlist := congrArg String.toList h
  rw [toList_userNumber, toList_userNumber] at hlist
  obtain ⟨htens, hones⟩ := List.cons.inj (List.append_cancel_left hlist)
  have hdigits : ∀ a < 10, ∀ b < 10, Nat.digitChar a = Nat.digitChar b → a = b := by decide
  have htens := hdigits (i / 10) (by omega) (j / 10) (by omega) htens
  have hones := hdigits (i % 10) (by omega) (j % 10) (by omega) (List.cons.inj hones).1
  omega

theorem isUuid_userNumber {i : ℕ} (h : i < 51) : isUuid (userNumber i) := by
  have hdigits : ∀ a < 10, isHex (Nat.digitChar a) ∧ '-' ≠ Nat.digitChar a := by decide
  have htens := hdigits (i / 10) (by omega)
  have hones := hdigits (i % 10) (by omega)
  let groups := [List.replicate 8 '0', List.replicate 4 '0', '4' :: List.replicate 3 '0',
    '8' :: List.replicate 3 '0',
    List.replicate 10 '0' ++ [Nat.digitChar (i / 10), Nat.digitChar (i % 10)]]
  have hsplit : (userNumber i).toList.splitOn '-' = groups := by
    rw [toList_userNumber]
    have hgroups : ∀ group ∈ groups, '-' ∉ group := by
      simp [groups, htens.2, hones.2]
    exact List.splitOn_intercalate '-' hgroups (List.cons_ne_nil _ _)
  have hzero : isHex '0' ∧ isHex '4' ∧ isHex '8' := by decide
  simp only [isUuid, hsplit]
  simp [groups, htens.1, hones.1, hzero]

def devicesOf (ids : List UserId) : List Device :=
  ids.map fun id => ⟨id, "d", [0]⟩

theorem commit_request_accepted_one_user :
    ∃ plan data, ((Reconciliation.genesis (devicesOf [userNumber 1]) [userNumber 1]).build crypto
        name).run 0 fresh = .ok (some plan) ∧
      submitChannelCommitSchema.safeParse
        (Submission.body codec ⟨lounge, .commit, plan⟩) = .ok data := by
  obtain ⟨plan, hplan⟩ : ∃ plan, ((Reconciliation.genesis (devicesOf [userNumber 1])
      [userNumber 1]).build crypto name).run 0 fresh = .ok (some plan) := ⟨_, rfl⟩
  have hfits : (Reconciliation.genesis (devicesOf [userNumber 1]) [userNumber 1]).FewWelcomed
        crypto lounge fresh.state ∧
      (Reconciliation.genesis (devicesOf [userNumber 1]) [userNumber 1]).ShortResult
        crypto codec lounge 0 fresh.state := by
    constructor
    · intro max hmax
      cases hmax
      exact ⟨by decide, by decide +kernel⟩
    · intro r hr
      obtain rfl : extend ⟨"u:d", some [], 0⟩ 0 [] = r := Except.ok.inj hr
      refine ⟨by decide, ?_, ?_⟩
      · intro max hmax s hs
        cases hmax
        cases hs
        decide
      · intro _ s hs
        cases hs
        decide
  obtain ⟨data, hdata⟩ := (@commit_request_accepted _ crypto codec _ lounge _ _ _ hplan).mpr hfits
  exact ⟨plan, data, hplan, hdata⟩

/-- The 51 other members of a channel. -/
def crowd : List UserId :=
  (List.range 51).map userNumber

/-- Genesis of a channel with 51 other members asks for more than the schema takes. -/
theorem crowd_refused :
    crowd.Nodup ∧ (∀ id ∈ crowd, isUuid id) ∧
    ∃ plan, ((Reconciliation.genesis (devicesOf crowd) crowd).build crypto name).run 0 fresh =
        .ok (some plan) ∧
      ∀ data, lounge.target.commitSchema.safeParse
        (Submission.body codec ⟨lounge, .commit, plan⟩) ≠ .ok data := by
  have hnodup : crowd.Nodup := List.Nodup.map_on
    (fun _ hi _ hj => userNumber_inj (List.mem_range.mp hi) (List.mem_range.mp hj))
    List.nodup_range
  have huuid : ∀ id ∈ crowd, isUuid id := by
    intro id hid
    obtain ⟨i, hi, rfl⟩ := List.mem_map.mp hid
    exact isUuid_userNumber (List.mem_range.mp hi)
  refine ⟨hnodup, huuid, _, rfl, ?_⟩
  intro data hdata
  have hids := (safeParse_isOk.mp ⟨data, hdata⟩).2.2.2.1 50 rfl
  have hlength : crowd.length ≤ 50 := (parseUuids_isOk.mp hids).1
  exact absurd hlength (by decide)

end OneGroup

end SpecterComs.MlsSession
