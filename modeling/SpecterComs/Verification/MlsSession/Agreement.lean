import SpecterComs.Verification.MlsSession.Divergence
import SpecterComs.Verification.MlsSession.Serving

/-! # Devices and service agree

Every state a device caches or saves holds copies of the service's logs, so copies at the same
epoch are the same.
-/

namespace SpecterComs.MlsSession

open DeliveryService (Base64)

variable {State : Type} {C : Crypto State}

namespace Setting

variable (S : Setting C) (account : ℕ → UserId)

/-- A device's states are good, and its section is safe. -/
structure Keeps (me : UserId) (x : CommitLogs) (c : Client State) : Prop where
  cache : ∀ s ∈ c.cache, S.Good x s
  saved : ∀ s ∈ c.saved, S.Good x s
  holder : ∀ p ∈ c.holder, S.SectionSafe me x p

/-- All that is held and all that is under way belongs to the logged chains. -/
structure Honest (n : Network State) : Prop where
  holds : S.Holds n.db
  past : ∀ db ∈ n.past, S.Holds db ∧ logsOf db ≤ logsOf n.db
  published : ∀ ev ∈ n.published, S.Publishes (logsOf n.db) ev
  devices : ∀ d, S.Keeps (account d) (logsOf n.db) (n.devices d)
  sent : ∀ q ∈ n.sent, S.Asks (account q.1) (logsOf n.db) q.2
  answers : ∀ a ∈ n.answers, S.Answers (account a.device) (logsOf n.db) a.request a.reply

variable {S account} {me : UserId} {x y : CommitLogs} {c : Client State} {s : State}
  {n n' : Network State} {d : ℕ}

theorem Keeps.later (h : S.Keeps me x c) (hxy : x ≤ y) : S.Keeps me y c where
  cache s hs := (h.cache s hs).later hxy
  saved s hs := (h.saved s hs).later hxy
  holder p hp := (h.holder p hp).later hxy

theorem Keeps.store (h : S.Keeps me x c) (hs : S.Good x s) : S.Keeps me x (c.store s) where
  cache _ ht := Option.some.inj ht ▸ hs
  saved := List.forall_mem_cons.mpr ⟨hs, h.saved⟩
  holder := h.holder

theorem Keeps.proceed (h : S.Keeps me x c) {p : Section State} (hp : S.SectionSafe me x p) :
    S.Keeps me x (c.proceed p) := by
  cases p with
  | op o k => exact { h with holder := fun q hq => Option.some.inj hq ▸ hp }
  | ret f =>
      have hidle : S.Keeps me x { c with holder := none } := { h with holder := by rintro _ ⟨⟩ }
      simp only [Client.proceed]
      split
      · next s hs =>
          split_ifs
          · exact hidle.store (hp s hs)
          · exact hidle
      · exact hidle

namespace Honest

theorem setDevice (h : S.Honest account n) (hc : S.Keeps (account d) (logsOf n.db) c) :
    S.Honest account (n.setDevice d c) := by
  refine { h with devices := fun d' => ?_ }
  by_cases hd : d' = d
  · subst hd
    simpa [Network.setDevice] using hc
  · simpa [Network.setDevice, hd] using h.devices d'

variable {request : ApiRequest}

theorem send (h : S.Honest account n) (hasks : S.Asks (account d) (logsOf n.db) request) :
    S.Honest account { n with sent := n.sent ++ [(d, request)] } := by
  refine { h with sent := fun q hq => ?_ }
  rcases List.mem_append.mp hq with hold | hnew
  · exact h.sent q hold
  · obtain rfl := List.mem_singleton.mp hnew
    exact hasks

theorem own_safe {target : Target} {build : GroupId → Build C}
    (hbuild : S.PlansFrom x (target.groupId (account d)) (build (target.groupId (account d))))
    (routes : Routes) (route : Route) : S.WorkSafe (account d) x
      (Network.lockWork.own C S.codec account d routes target route build) :=
  ownCommitWork_safe (Network.contextOf (account d) routes target) rfl hbuild

/-- Whatever a device is given to run is safe. -/
theorem lockWork_safe (h : S.Honest account n) {w : Work} {work : LockWork C}
    (hwork : n.lockWork C S.codec account d w = some work) :
    S.WorkSafe (account d) (logsOf n.db) work := by
  cases w with
  | encrypt g plaintext => cases hwork; exact encryptWork_safe plaintext
  | decrypt g ciphertext => cases hwork; exact decryptWork_safe ciphertext
  | reconcile target routes commit =>
      cases hwork
      exact own_safe (Chains.reconciliation_plans S.lawful commit) routes .commit
  | removeOwnStale target routes =>
      cases hwork
      exact own_safe (Chains.removeOwnStaleBuild_plans S.lawful) routes .commit
  | external routes k force =>
      simp only [Network.lockWork] at hwork
      split at hwork
      · next d' target data hk =>
          have hshows := h.answers _ (List.mem_of_getElem? hk)
          simp only [Option.bind_eq_bind, Option.bind_eq_some_iff] at hwork
          obtain ⟨groupInfo, ⟨info, hinfo, hread⟩, hwork⟩ := hwork
          split_ifs at hwork with hd
          subst hd
          obtain ⟨ch, b, hb, hch, hlength, hdescribes⟩ := hshows info hinfo
          rw [hb] at hread
          cases hread
          cases hwork
          rw [← hlength]
          exact own_safe (Chains.externalBuild_plans S.lawful hch hdescribes) routes .externalCommit
      · cases hwork
  | catchUp k =>
      simp only [Network.lockWork] at hwork
      split at hwork
      · next d' target data hk =>
          have hserves := h.answers _ (List.mem_of_getElem? hk)
          split_ifs at hwork with hd
          subst hd
          cases hwork
          exact catchUpWork_safe hserves
      · cases hwork
  | event k =>
      simp only [Network.lockWork, Option.bind_eq_bind, Option.bind_eq_some_iff] at hwork
      obtain ⟨ev, hev, bytes, hread, hwork⟩ := hwork
      have hpublished := h.published ev (List.mem_of_getElem? hev)
      split_ifs at hwork with htype htype
      · obtain ⟨e, b, hb, hlogged⟩ := hpublished.commit htype
        rw [hb] at hread
        cases hread
        cases hwork
        exact commitWork_safe hlogged
      · obtain ⟨ch, b, hb, hch, hw⟩ := hpublished.welcome htype
        rw [hb] at hread
        cases hread
        cases hwork
        exact welcomeWork_safe hch hw

theorem answered (h : S.Honest account n) {answer : (r : ApiRequest) → Option r.Reply}
    (hanswer : ∀ r, ∀ reply ∈ answer r, S.Answers (account d) (logsOf n.db) r reply)
    (hstep : n.answered d answer = some n') : S.Honest account n' := by
  unfold Network.answered at hstep
  split at hstep
  · next r k hholder =>
      obtain ⟨reply, hreply, rfl⟩ := Option.map_eq_some_iff.mp hstep
      have hsafe := (h.devices d).holder _ hholder
      exact h.setDevice ((h.devices d).proceed
        (hsafe.2 _ le_rfl reply ⟨h.holds.built, hanswer r reply hreply⟩))
  · cases hstep

/-- The service takes a request. -/
theorem servedBy (h : S.Honest account n) {directory : DeliveryService.Directory}
    {fault : DeliveryService.Fault} (hasks : S.Asks (account d) (logsOf n.db) request)
    (hstep : n.servedBy S.base64 account d request directory fault = some n') :
    S.Honest account n' := by
  simp only [Network.servedBy, Option.bind_eq_bind, Option.bind_eq_some_iff] at hstep
  obtain ⟨service, hservice, hstep⟩ := hstep
  cases hstep
  have hdone := h.holds.run directory fault hasks hservice
  have hgrows := hdone.grows
  refine ⟨hdone.holds, fun db hdb => ?_, fun ev hev => ?_, fun d' => (h.devices d').later hgrows,
    fun q hq => (h.sent q hq).later hgrows, fun a ha => ?_⟩
  · rcases List.mem_append.mp hdb with hold | hnew
    · exact ⟨(h.past db hold).1, (h.past db hold).2.trans hgrows⟩
    · obtain rfl := List.mem_singleton.mp hnew
      exact ⟨h.holds, hgrows⟩
  · rcases List.mem_append.mp hev with hold | hnew
    · exact (h.published ev hold).later hgrows
    · exact hdone.events ev hnew
  · rcases List.mem_append.mp ha with hold | hnew
    · exact (h.answers a hold).later hgrows
    · obtain ⟨reply, hreply, rfl⟩ := Option.map_eq_some_iff.mp (Option.mem_toList.mp hnew)
      exact hdone.answers reply hreply

theorem step (h : S.Honest account n) {input : Network.Input}
    (hstep : n.step C S.codec S.base64 account input = some n') : S.Honest account n' := by
  cases input with
  | start d work seed label =>
      simp only [Network.step] at hstep
      split at hstep
      · next s work hcache hholder hwork =>
          have hkeeps := h.devices d
          have hcurrent : S.Keeps (account d) (logsOf n.db) { n.devices d with current := true } :=
            { hkeeps with }
          have hstart := h.lockWork_safe hwork _ le_rfl h.holds.built seed ⟨s, label⟩
            (hkeeps.cache s hcache)
          split at hstep
          · next f hf =>
              cases hstep
              rw [hf] at hstart
              exact h.setDevice (hcurrent.proceed (p := .ret f) hstart)
          · next sub rest hrest =>
              cases hstep
              rw [hrest] at hstart
              exact h.setDevice (hcurrent.proceed hstart)
      · cases hstep
  | send d =>
      simp only [Network.step] at hstep
      split at hstep
      · next request k hholder =>
          cases hstep
          exact h.send ((h.devices d).holder _ hholder).1
      · cases hstep
  | ask d target groupInfo =>
      cases hstep
      cases groupInfo with
      | true => exact h.send trivial
      | false => exact h.send trivial
  | upload d target =>
      simp only [Network.step, Option.bind_eq_bind, Option.bind_eq_some_iff] at hstep
      obtain ⟨s, hcache, epoch, hepoch, info, hinfo, hstep⟩ := hstep
      cases hstep
      have hexport : C.exportGroupInfo s (target.groupId (account d)) = .ok info := by
        cases hok : C.exportGroupInfo s (target.groupId (account d)) with
        | ok i =>
            rw [hok] at hinfo
            exact congrArg _ (Option.some.inj hinfo)
        | error e =>
            rw [hok] at hinfo
            cases hinfo
      obtain ⟨ch, hch, hdescribes⟩ := S.lawful.exportGroupInfo hexport
      rw [S.lawful.epoch, hch] at hepoch
      cases hepoch
      exact h.send ⟨ch, info, (h.devices d).cache s hcache _ ch hch, hdescribes, rfl⟩
  | serve k directory fault =>
      simp only [Network.step, Option.bind_eq_bind, Option.bind_eq_some_iff] at hstep
      obtain ⟨⟨d, request⟩, hk, hstep⟩ := hstep
      exact h.servedBy (h.sent _ (List.mem_of_getElem? hk)) hstep
  | serveLate k j directory =>
      simp only [Network.step] at hstep
      split at hstep
      · next d target logDb hk hj =>
          split at hstep
          · cases hstep
          · next gate hgate =>
              cases hstep
              obtain ⟨hholds, hle⟩ := h.past logDb (List.mem_of_getElem? hj)
              refine { h with answers := fun a ha => ?_ }
              rcases List.mem_append.mp ha with hold | hnew
              · exact h.answers a hold
              · obtain rfl := List.mem_singleton.mp hnew
                have hg : gate.2 = target.groupId (account d) :=
                  DeliveryService.catchUpGate_groupId hgate
                exact hg ▸ hholds.serves hle n.db gate.2 gate.1
      · cases hstep
  | reply d k =>
      simp only [Network.step] at hstep
      split at hstep
      · next a ha =>
          split_ifs at hstep with hd
          subst hd
          refine h.answered (fun r reply hreply => ?_) hstep
          unfold Answer.give at hreply
          split_ifs at hreply with hr
          · subst hr
            cases hreply
            exact h.answers a (List.mem_of_getElem? ha)
          · cases hreply
      · cases hstep
  | fail d text =>
      refine h.answered (fun r reply hreply => ?_) hstep
      cases hreply
      exact answers_failed text r
  | slept d =>
      simp only [Network.step] at hstep
      split at hstep
      · next ms k hholder =>
          cases hstep
          exact h.setDevice ((h.devices d).proceed
            (((h.devices d).holder _ hholder).2 _ le_rfl () h.holds.built))
      · cases hstep
  | reset d =>
      cases hstep
      exact h.setDevice { h.devices d with cache := by rintro _ ⟨⟩ }
  | restart d =>
      cases hstep
      exact h.setDevice { h.devices d with cache := by rintro _ ⟨⟩, holder := by rintro _ ⟨⟩ }
  | load d k =>
      simp only [Network.step] at hstep
      split at hstep
      · next s hcache hs =>
          cases hstep
          have hgood := (h.devices d).saved s (List.mem_of_getElem? hs)
          exact h.setDevice { h.devices d with cache := fun t ht => Option.some.inj ht ▸ hgood }
      · cases hstep
  | identity d seed label =>
      simp only [Network.step] at hstep
      split at hstep
      · cases hstep
        exact h.setDevice ((h.devices d).store (Chains.good_generateIdentity S.lawful seed label))
      · cases hstep

theorem start : S.Honest account .start where
  holds := holds_empty
  past := by simp [Network.start]
  published := by simp [Network.start]
  devices d := ⟨by simp [Network.start], by simp [Network.start], by simp [Network.start]⟩
  sent := by simp [Network.start]
  answers := by simp [Network.start]

end Honest

end Setting

namespace Network

/-- What holds of devices and service together. -/
structure Agree (K : Chains State) (C : Crypto State) (n : Network State) : Prop where
  /-- Every commit of the log was built on those before it. -/
  chain : K.Built (logsOf n.db)
  /-- A device caches, and its disk holds, copies of the logs. -/
  copies : ∀ d, ∀ s ∈ (n.devices d).cache, K.Good (logsOf n.db) s
  disks : ∀ d, ∀ s ∈ (n.devices d).saved, K.Good (logsOf n.db) s
  /-- Two copies at one epoch are the same. -/
  agree : ∀ d d', ∀ s ∈ (n.devices d).cache, ∀ s' ∈ (n.devices d').cache, ∀ g,
    C.groupEpoch s g = C.groupEpoch s' g → K.chain s g = K.chain s' g

variable {K : Chains State} {codec : Codec} {base64 : Base64} {account : ℕ → UserId}
  {inputs : List Input} {n : Network State}

section
variable (hK : K.Lawful C) (hR : Readable codec base64)
  (hrun : (network C codec base64 account).Run start inputs n)
include hK hR hrun

theorem honest :
    ({ K with lawful := hK, codec, base64, readable := hR } : Setting C).Honest account n :=
  hrun.invariant (P := Setting.Honest _ account) (fun _ _ _ hn hstep => hn.step hstep)
    Setting.Honest.start

theorem agreement : n.Agree K C := by
  have h := honest hK hR hrun
  refine ⟨h.holds.built, fun d => (h.devices d).cache, fun d => (h.devices d).saved, ?_⟩
  intro d d' s hs s' hs' g hepoch
  rw [hK.epoch, hK.epoch] at hepoch
  cases hch : K.chain s g with
  | none =>
      rw [hch] at hepoch
      exact (Option.map_eq_none_iff.mp hepoch.symm).symm
  | some ch =>
      rw [hch] at hepoch
      obtain ⟨ch', hch', hlength⟩ := Option.map_eq_some_iff.mp hepoch.symm
      rw [hch', AppendLogs.agree ((h.devices d).cache s hs g ch hch)
        ((h.devices d').cache s' hs' g ch' hch') hlength.symm]

/-- However often its request is served, a commit is logged at most once. -/
theorem logged_once (g : GroupId) : ((logsOf n.db).log g).Nodup := by
  have hbuilt := (honest hK hR hrun).holds.built
  refine List.nodup_iff_getElem?_ne_getElem?.mpr fun i j hij hj heq => ?_
  have hi := List.getElem?_eq_getElem (hij.trans hj)
  have hsame := hK.built_unique (hbuilt g i _ hi) (hbuilt g j _ (heq ▸ hi))
  have hlength := congrArg List.length hsame
  simp only [List.length_take] at hlength
  omega

/-- Whoever joins by what the service keeps joins the logged commits. -/
theorem joins_logged :
    (∀ row ∈ n.db.commitLog, ∀ w ∈ row.welcome,
      K.welcomes row.groupId (((logsOf n.db).log row.groupId).take row.epoch) w) ∧
    ∀ g info e, n.db.storedInfo g = (some info, some e) →
      K.describes g (((logsOf n.db).log g).take e) info := by
  have h := (honest hK hR hrun).holds
  exact ⟨fun row hrow => (h.rows row hrow).2, h.infos⟩

end

end Network

/-! ## Two devices -/

namespace OneGroup

/-- A commit carries the chain it was built on, a Welcome and a GroupInfo the one it leads to. -/
def chains : Chains OneGroup where
  chain s g := (s.held g).toOption
  builtOn _ ch commit := built commit = ch
  welcomes g ch welcome := g = name ∧ welcome = pack ch
  describes g ch info := g = name ∧ info = pack ch

theorem chain_with (s : OneGroup) (ch : List Bytes) :
    chains.chain { s with chain := some ch } = Function.update (chains.chain s) name (some ch) := by
  funext g
  by_cases hg : g = name
  · subst hg
    simp [chains, held, Except.toOption]
  · cases hs : s.chain <;> simp [chains, held, hg, hs, Except.toOption]

theorem of_held {s : OneGroup} {g : GroupId} {ch : List Bytes} (h : s.held g = .ok ch) :
    chains.chain s g = some ch ∧ g = name := by
  refine ⟨congrArg Except.toOption h, ?_⟩
  unfold held at h
  grind

theorem of_held_map {α : Type} {s : OneGroup} {g : GroupId} {f : List Bytes → α} {r : α}
    (h : (s.held g).map f = .ok r) : ∃ ch, chains.chain s g = some ch ∧ g = name ∧ f ch = r := by
  cases hs : s.held g with
  | error e =>
      rw [hs] at h
      cases h
  | ok ch =>
      rw [hs] at h
      exact ⟨ch, (of_held hs).1, (of_held hs).2, Except.ok.inj h⟩

theorem commits_extend (s : OneGroup) (seed : Seed) (ch : List Bytes) :
    chains.Commits s name ch (s.extend seed ch) where
  builtOn := by simp [chains, extend, commitOn, built]
  chain := chain_with s _
  welcome _ := ⟨rfl, rfl⟩
  groupInfo _ := ⟨rfl, rfl⟩

theorem lawful_chains : chains.Lawful crypto where
  epoch _ _ := rfl
  built_unique h h' := h.symm.trans h'
  generateIdentity _ _ _ := rfl
  createGroup {seed s g t} h := by
    simp only [crypto] at h
    split_ifs at h with hg
    cases h
    exact hg ▸ chain_with s []
  addMember {seed s g packages r} h := by
    obtain ⟨ch, hch, rfl, rfl⟩ := of_held_map h
    exact ⟨ch, hch, commits_extend s seed ch⟩
  removeMember {seed s g labels r} h := by
    obtain ⟨ch, hch, rfl, rfl⟩ := of_held_map h
    exact ⟨ch, hch, (commits_extend s seed ch).noWelcome⟩
  joinFromWelcome {s g ch welcome t} h := by
    rintro ⟨rfl, rfl⟩
    cases h
    rw [unpack_pack]
    exact chain_with s ch
  processCommit {s g commit t} h := by
    obtain ⟨ch, hheld, happly⟩ := Except.bind_eq_ok.mp h
    obtain ⟨hch, rfl⟩ := of_held hheld
    split_ifs at happly with hbuilt
    cases happly
    exact ⟨ch, hch, hbuilt, chain_with s _⟩
  encrypt {seed s g plaintext r} h := by
    obtain ⟨ch, -, -, rfl⟩ := of_held_map h
    rfl
  decrypt {s g ciphertext r} h := by
    obtain ⟨ch, -, -, rfl⟩ := of_held_map h
    rfl
  joinExternal {seed s g ch info label r} h := by
    rintro ⟨rfl, rfl⟩
    cases h
    rw [unpack_pack]
    exact (commits_extend s seed ch).noWelcome
  resyncExternal {seed s g ch info r} h := by
    rintro ⟨rfl, rfl⟩
    cases h
    rw [unpack_pack]
    exact (commits_extend s seed ch).noWelcome
  exportGroupInfo {s g info} h := by
    obtain ⟨ch, hch, rfl, rfl⟩ := of_held_map h
    exact ⟨ch, hch, rfl, rfl⟩

theorem encodeText_toB64 (b : Bytes) : codec.encodeText (codec.toB64 b) = b := by
  have hbyte : ∀ n < 256, (Char.ofNat n).toNat = n := by decide +kernel
  simp only [codec, String.toList_ofList, List.map_map]
  exact List.map_id'' (fun x => by simp [hbyte _ x.toNat_lt]) b

theorem readable_codec : Readable codec base64 where
  served b := congrArg Except.ok (encodeText_toB64 b)
  sent b := encodeText_toB64 b
  shown b := congrArg Except.ok (encodeText_toB64 b)

def lobby : DeliveryService.Target := .channel "o" name

def other : UserId := "00000000-0000-4000-8000-000000000001"

/-- One device founds the group and invites the other's user, whose device catches up. The
founding commit is served once more. -/
def invited : List Network.Input :=
  [.identity 0 0 "u:d",
    .start 0 (.reconcile lobby ⟨true, true, true, true, true, true⟩
      (.genesis [⟨other, "d", [0]⟩] [other])) 1 (some "u:d"),
    .send 0, .serve 0 everyone .none, .reply 0 0, .identity 1 0 (credentialFor other "d"),
    .ask 1 lobby false, .serve 1 everyone .none,
    .start 1 (.catchUp 1) 0 (some (credentialFor other "d")), .serve 0 everyone .none]

abbrev pair := Network.network crypto codec base64 fun d => if d = 0 then "u" else other

def joined : Network OneGroup :=
  (pair.exec .start invited).get (by decide +kernel)

theorem run_joined : pair.Run .start invited joined :=
  StepSystem.exec_eq_some_iff.mp (Option.some_get _).symm

theorem agreement_joined : (joined.devices 0).cache.bind (crypto.groupEpoch · name) = some 1 ∧
    (joined.devices 1).cache.bind (crypto.groupEpoch · name) = some 1 ∧
    joined.Agree chains crypto :=
  ⟨by decide +kernel, by decide +kernel,
    Network.agreement lawful_chains readable_codec run_joined⟩

theorem logged_once_joined : ((logsOf joined.db).log name).length = 1 ∧
    ((logsOf joined.db).log name).Nodup :=
  ⟨by decide +kernel, Network.logged_once lawful_chains readable_codec run_joined name⟩

theorem joins_logged_joined : ∃ row ∈ joined.db.commitLog, ∃ w ∈ row.welcome,
    chains.welcomes row.groupId (((logsOf joined.db).log row.groupId).take row.epoch) w := by
  have h := (Network.joins_logged lawful_chains readable_codec run_joined).1
  have hkept : ∃ row ∈ joined.db.commitLog, row.welcome.isSome := by decide +kernel
  obtain ⟨row, hrow, hsome⟩ := hkept
  obtain ⟨w, hw⟩ := Option.isSome_iff_exists.mp hsome
  exact ⟨row, hrow, w, hw, h row hrow w hw⟩

end OneGroup

end SpecterComs.MlsSession
