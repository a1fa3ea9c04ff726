import SpecterComs.Verification.DeliveryService.Invariant
import SpecterComs.Verification.MlsSession.Honest

/-! # What the service holds

Asked honestly, the service logs a commit on the logged ones, keeps a Welcome and a GroupInfo
with the epoch they are of, and serves and publishes nothing else.
-/

namespace SpecterComs.DeliveryService

variable {codec : Base64} {dir : Directory} {db db' : Db} {g : GroupId} {body : Body}
  {me : UserId} {target : Target}

/-- What an accepted commit request did, told by its body. -/
structure Took (codec : Base64) (db : Db) (g : GroupId) (body : Body) (entry : LogRow)
    (handled : Handled) : Prop where
  bumped : Bumped db entry (body.info codec) handled.db
  group : entry.groupId = g
  epoch : body.epoch = .value (entry.epoch : ℕ)
  commit : ∃ text, body.commit = .value text ∧ entry.commit = codec.decode text
  welcome : ∀ w ∈ entry.welcome, bytesOrNull codec body.welcome.toOption = some w
  events : ∀ ev ∈ handled.events, ev.group.2 = g ∧
    (ev.type = "mls_commit" ∧ body.commit = .value ev.payload ∨
      ev.type = "mls_welcome" ∧ body.welcome = .value ev.payload)

theorem value_of_bytes {f : Field String} {b : Bytes}
    (h : bytesOrNull codec f.toOption = some b) : ∃ text, f = .value text ∧ b = codec.decode text := by
  cases f with
  | value text =>
      simp only [Field.toOption, bytesOrNull] at h
      split_ifs at h
      cases h
      exact ⟨text, rfl, rfl⟩
  | _ => cases h

variable {schema : CommitSchema} {data : CommitData}

theorem safeParse_values (h : schema.safeParse body = .ok data) : body.commit = .value data.commit ∧
      ∀ w ∈ data.welcome, body.welcome = .value w := by
  unfold CommitSchema.safeParse at h
  simp only at h
  split at h
  · next epoch commit welcome welcomed groupInfo _ hcommit hwelcome _ _ =>
      cases h
      refine ⟨(parseString_eq_ok hcommit).1, fun w hw => ?_⟩
      cases hmax : schema.welcomeMax with
      | none =>
          rw [hmax] at hwelcome
          cases hwelcome
          cases hw
      | some max =>
          rw [hmax] at hwelcome
          have hvalue := (parseNullish_eq_ok hwelcome).symm.trans hw
          cases hbody : body.welcome <;> simp_all [Field.toOption]
  · cases h

variable {welcome : Option String}

theorem took_of_bump {welcomed : Option (List UserId)} {events : List Event}
    (hdata : bodyOf (schema.safeParse body) = .ok data)
    (hwelcome : welcome = data.welcome ∨ welcome = none)
    (hbump : commitOrConflict (bumpGroupEpoch codec db g data.epoch data.commit welcome welcomed
      data.groupInfo) = .ok db')
    (hevents : ∀ ev ∈ events, ev.group.2 = g ∧
      (ev.type = "mls_commit" ∧ ev.payload = data.commit ∨
        ev.type = "mls_welcome" ∧ data.welcome = some ev.payload)) :
    ∃ entry, Took codec db g body entry ⟨db', .accepted data.epoch, events⟩ := by
  obtain ⟨hepoch, hinfo⟩ := safeParse_eq_ok codec (bodyOf_eq_ok hdata)
  obtain ⟨hcommit, hw⟩ := safeParse_values (bodyOf_eq_ok hdata)
  obtain ⟨entry, hgroup, hentry, hdecoded, hstored, hb⟩ :=
    bumpGroupEpoch_bumped (commitOrConflict_eq_ok hbump)
  refine ⟨entry, hinfo ▸ hb, hgroup, hentry ▸ hepoch, ⟨_, hcommit, hdecoded⟩, fun w hmem => ?_,
    by grind⟩
  rw [hstored] at hmem
  rcases hwelcome with rfl | rfl
  · cases htext : data.welcome with
    | none =>
        rw [htext] at hmem
        cases hmem
    | some text =>
        rw [hw text htext]
        rw [htext] at hmem
        exact hmem
  · cases hmem

theorem of_mem_welcomeEvents {group : String × GroupId} {ids : List UserId} {ev : Event}
    (h : ev ∈ welcomeEvents group welcome ids) :
    ev.group = group ∧ ev.type = "mls_welcome" ∧ welcome = some ev.payload := by
  unfold welcomeEvents at h
  grind

variable {handled : Handled}

theorem submitCommit_took (h : submitCommit codec dir db (some me) target body = .ok handled) :
    ∃ entry, Took codec db (target.groupId me) body entry handled := by
  cases target with
  | dm other =>
      simp only [submitCommit, submitDmCommit, Except.bind_eq_ok] at h
      obtain ⟨me, ⟨⟩, -, -, data, hdata, -, -, db', hbump, ⟨⟩⟩ := h
      exact took_of_bump hdata (.inl rfl) hbump (by grind [of_mem_welcomeEvents, Target.groupId])
  | channel orgId chanId =>
      simp only [submitCommit, submitChannelCommit, Except.bind_eq_ok] at h
      obtain ⟨me, ⟨⟩, data, hdata, -, -, -, -, -, -, -, -, db', hbump, ⟨⟩⟩ := h
      exact took_of_bump hdata (.inl rfl) hbump
        (by grind [channelCommitEvents, of_mem_welcomeEvents, Target.groupId])
  | event orgId eventId =>
      simp only [submitCommit, submitEventGroupCommit, Except.bind_eq_ok] at h
      obtain ⟨me, ⟨⟩, data, hdata, -, -, -, -, db', hbump, ⟨⟩⟩ := h
      exact took_of_bump hdata (.inl rfl) hbump
        (by grind [eventCommitEvents, of_mem_welcomeEvents, Target.groupId])

variable {access : GroupAccess}

/-- Whom a group's access publishes a commit to, it tells of that group. -/
theorem resolve_events {commit : String} (h : resolve dir (some me) target = .ok access) :
    ∀ ev ∈ access.publishCommit commit,
      ev.group.2 = access.groupId ∧ ev.type = "mls_commit" ∧ ev.payload = commit := by
  cases target with
  | dm other =>
      simp only [resolve, resolveDmGroup, Except.bind_eq_ok] at h
      obtain ⟨me, -, -, -, -, -, ⟨⟩⟩ := h
      grind [dmCommitEvents]
  | channel orgId chanId =>
      simp only [resolve, resolveChannelGroup, Except.bind_eq_ok] at h
      obtain ⟨me, -, -, -, -, -, -, -, ⟨⟩⟩ := h
      grind [channelCommitEvents]
  | event orgId eventId =>
      simp only [resolve, resolveEventGroup, Except.bind_eq_ok] at h
      obtain ⟨me, -, -, -, ⟨⟩⟩ := h
      grind [eventCommitEvents]

theorem resolve_groupId (h : resolve dir (some me) target = .ok access) :
    access.groupId = target.groupId me := by
  obtain ⟨me', ⟨⟩, hgroup⟩ := resolve_eq_ok h
  exact hgroup.symm

theorem submitExternalCommit_took
    (h : submitExternalCommit codec dir db (some me) target body = .ok handled) :
    ∃ entry, Took codec db (target.groupId me) body entry handled := by
  simp only [submitExternalCommit, Except.bind_eq_ok] at h
  obtain ⟨data, hdata, access, haccess, db', hbump, ⟨⟩⟩ := h
  rw [← resolve_groupId haccess]
  exact took_of_bump hdata (.inr rfl) hbump fun ev hev =>
    ⟨(resolve_events haccess ev hev).1, .inl (resolve_events haccess ev hev).2⟩

theorem catchUpGate_groupId {user : UserId} (h : catchUpGate dir (some me) target = .ok (user, g)) :
    g = target.groupId me := by
  unfold catchUpGate at h
  cases target <;> grind [requireUser, Except.bind_eq_ok, Target.groupId]

end SpecterComs.DeliveryService

namespace SpecterComs.MlsSession

open DeliveryService

variable {State : Type} {C : Crypto State} {db db' : Db} {g : GroupId}

/-- The commits the service has logged. -/
def logsOf (db : Db) : CommitLogs :=
  ⟨fun g => (db.commitLog.filter (·.groupId == g)).map LogRow.commit⟩

theorem logsOf_length (h : Inv db) (g : GroupId) : ((logsOf db).log g).length = db.epoch g := by
  simpa [logsOf, Db.loggedEpochs] using congrArg List.length (h.logged g)

variable {entry : LogRow} {info : Option Bytes}

theorem logsOf_bumped (h : Inv db) (hb : Bumped db entry info db') (g : GroupId) :
    (logsOf db').log g =
      (logsOf db).log g ++ if g = entry.groupId then [entry.commit] else [] := by
  simp only [logsOf, hb.log, h.insertLog_fresh hb.next, List.filter_append, List.map_append]
  by_cases hg : g = entry.groupId
  · simp [hg]
  · simp [hg, Ne.symm hg]

namespace Setting

variable (S : Setting C) (me : UserId)

/-- What the tables hold belongs to the logged chains. -/
structure Holds (db : Db) : Prop where
  inv : Inv db
  built : S.Built (logsOf db)
  rows : ∀ row ∈ db.commitLog, Logged (logsOf db) row.groupId row.epoch row.commit ∧
    ∀ w ∈ row.welcome, S.welcomes row.groupId (((logsOf db).log row.groupId).take row.epoch) w
  infos : ∀ g info e, db.storedInfo g = (some info, some e) →
    S.describes g (((logsOf db).log g).take e) info

/-- A published event carries a logged commit or a Welcome to a logged chain. -/
structure Publishes (x : CommitLogs) (ev : Event) : Prop where
  commit : ev.type = "mls_commit" → ∃ e, S.Logs x ev.group.2 e ev.payload
  welcome : ev.type = "mls_welcome" → S.Invites x ev.group.2 ev.payload

/-- What the service makes of an honest request. -/
structure Done (db : Db) (r : ApiRequest) (handled : Handled) : Prop where
  holds : S.Holds handled.db
  grows : logsOf db ≤ logsOf handled.db
  answers : ∀ reply ∈ r.read handled.response, S.Answers me (logsOf handled.db) r reply
  events : ∀ ev ∈ handled.events, S.Publishes (logsOf handled.db) ev

variable {S me} {x y : CommitLogs}

theorem holds_empty : S.Holds .empty where
  inv := inv_empty
  built g n c h := by simp [logsOf, Db.empty] at h
  rows row h := by cases h
  infos g info e h := by simp [Db.empty, Db.storedInfo] at h

theorem Publishes.later {ev : Event} (h : S.Publishes x ev) (hxy : x ≤ y) : S.Publishes y ev where
  commit htype := (h.commit htype).imp fun _ hlogs => hlogs.later hxy
  welcome htype := (h.welcome htype).later hxy

/-! ## Writes -/

/-- The transaction of a commit on all that is logged. -/
theorem Holds.bumped (h : S.Holds db) (hb : Bumped db entry info db') {ch : List Bytes}
    (hch : ch = (logsOf db).log entry.groupId) (hbuilt : S.builtOn entry.groupId ch entry.commit)
    (hwelcome : ∀ w ∈ entry.welcome, S.welcomes entry.groupId (ch ++ [entry.commit]) w)
    (hinfo : ∀ i ∈ info, S.describes entry.groupId (ch ++ [entry.commit]) i) :
    S.Holds db' ∧ logsOf db ≤ logsOf db' := by
  subst hch
  have hlogs := logsOf_bumped h.inv hb
  have hlength := logsOf_length h.inv entry.groupId
  have hnext := hb.next
  have hgrows : logsOf db ≤ logsOf db' := fun g => ⟨_, (hlogs g).symm⟩
  have hwhole : ((logsOf db').log entry.groupId).take entry.epoch =
      (logsOf db).log entry.groupId ++ [entry.commit] := by
    rw [hlogs, if_pos rfl, List.take_of_length_le]
    simp only [List.length_append, List.length_singleton]
    omega
  refine ⟨⟨h.inv.bumped hb, fun g n c hc => ?_, fun row hrow => ?_, fun g i e hstored => ?_⟩, hgrows⟩
  · rw [hlogs] at hc
    by_cases hn : n < ((logsOf db).log g).length
    · rw [List.getElem?_append_left hn] at hc
      rw [AppendLogs.take_of_le hgrows hn.le]
      exact h.built g n c hc
    · split_ifs at hc with hg
      · subst hg
        obtain ⟨hlt, hc⟩ := List.getElem?_eq_some_iff.mp hc
        simp only [List.length_append, List.length_singleton] at hlt
        obtain rfl : n = ((logsOf db).log entry.groupId).length := by omega
        obtain rfl : entry.commit = c := by simpa using hc
        rw [AppendLogs.take_of_le hgrows le_rfl, List.take_length]
        exact hbuilt
      · rw [List.append_nil] at hc
        exact absurd (List.getElem?_eq_some_iff.mp hc).1 hn
  · rw [hb.log, h.inv.insertLog_fresh hnext] at hrow
    rcases List.mem_append.mp hrow with hold | hnew
    · obtain ⟨hlogged, hw⟩ := h.rows row hold
      refine ⟨hlogged.later hgrows, fun w hwelcome => ?_⟩
      rw [AppendLogs.take_of_le hgrows hlogged.epoch_le]
      exact hw w hwelcome
    · obtain rfl := List.mem_singleton.mp hnew
      refine ⟨⟨by omega, ?_⟩, fun w hw => hwhole ▸ hwelcome w hw⟩
      rw [hlogs, if_pos rfl, ← hnext, Nat.add_sub_cancel, ← hlength]
      exact List.getElem?_concat_length
  · rw [hb.infos] at hstored
    split_ifs at hstored with hsome
    · cases hstored
      obtain ⟨rfl, -⟩ := hsome
      exact hwhole ▸ hinfo i rfl
    · have hle := h.inv.info_le g _ e hstored
      rw [← logsOf_length h.inv] at hle
      rw [AppendLogs.take_of_le hgrows hle]
      exact h.infos g i e hstored

theorem Holds.uploaded (h : S.Holds db) {epoch : ℕ} {info : Bytes}
    (hu : Uploaded db g epoch info db') (hinfo : S.describes g ((logsOf db).log g) info) :
    S.Holds db' ∧ logsOf db ≤ logsOf db' := by
  have hlogs : logsOf db' = logsOf db := by
    simp only [logsOf, hu.log]
  refine ⟨⟨h.inv.uploaded hu, hlogs ▸ h.built, ?_, fun g' i e hstored => ?_⟩, hlogs ▸ le_rfl⟩
  · rw [hu.log, hlogs]
    exact h.rows
  · rw [hu.infos] at hstored
    rw [hlogs]
    split_ifs at hstored with hg
    · cases hstored
      subst hg
      rw [← hu.current, ← logsOf_length h.inv, List.take_length]
      exact hinfo
    · exact h.infos g' i e hstored

/-! ## Reads -/

theorem Holds.serves (h : S.Holds db) (hle : logsOf db ≤ x) (epochDb : Db) (g : GroupId)
    (user : UserId) :
    S.Serves x g (catchUpData (fetchGroupCatchUp S.base64 db epochDb g user)) := by
  have hrow : ∀ row ∈ db.selectLog g, row ∈ db.commitLog ∧ row.groupId = g := by
    intro row hmem
    rw [h.inv.selectLog_eq] at hmem
    simpa using hmem
  refine ⟨fun p hp => ?_, fun text htext => ?_⟩
  · obtain ⟨row, hmem, rfl⟩ := List.mem_map.mp hp
    obtain ⟨hlog, rfl⟩ := hrow row hmem
    exact ⟨row.commit, S.readable.served _, (h.rows row hlog).1.later hle⟩
  · obtain ⟨entry, hentry, rfl⟩ := Option.map_eq_some_iff.mp htext
    obtain ⟨row, hmem, hfound⟩ := List.exists_of_findSome?_eq_some hentry
    obtain ⟨hlog, rfl⟩ := hrow row hmem
    split at hfound
    · cases hfound
    · next w hw =>
        split_ifs at hfound
        cases hfound
        exact ⟨_, w, S.readable.served w, (List.take_prefix _ _).trans (hle _),
          (h.rows row hlog).2 w hw⟩

theorem Holds.shows (h : S.Holds db) (g : GroupId) :
    S.Shows (logsOf db) g (readGroupInfo S.base64 db g) := by
  intro text htext
  obtain ⟨-, hepoch, info, rfl, hstored⟩ := readGroupInfo_served htext
  refine ⟨_, info, S.readable.served info, List.take_prefix _ _, ?_, h.infos g info _ hstored⟩
  rw [List.length_take, logsOf_length h.inv, hepoch, Nat.min_self]

/-! ## Requests -/

theorem epoch_inj {m n : ℕ} (h : Field.value (m : ℤ) = .value (n : ℤ)) : m = n :=
  Int.ofNat.inj (Field.value.inj h)

theorem toB64_inj {b b' : Bytes} (h : S.codec.toB64 b = S.codec.toB64 b') : b = b' := by
  rw [← S.readable.sent b, h, S.readable.sent]

variable {handled : Handled}

/-- A commit the service took is logged, and so is its plan. -/
theorem Holds.took (h : S.Holds db) {route : Route} {target : Target} {body : Body}
    (hasks : S.Asks me (logsOf db) (.submit route target body))
    (ht : Took S.base64 db (target.groupId me) body entry handled) :
    S.Done me db (.submit route target body) handled := by
  obtain ⟨base, p, ch, hp, hbody⟩ := hasks
  obtain ⟨hb, hgroup, hepoch, ⟨text, htext, hdecoded⟩, hwelcome, hevents⟩ := ht
  have hnext := hb.next
  have hcommit : entry.commit = p.commit := by
    obtain rfl := Field.value.inj (htext.symm.trans hbody.commit)
    rw [hdecoded, S.readable.sent]
  have hnumber : entry.epoch = p.targetEpoch := epoch_inj (hepoch.symm.trans hbody.epoch)
  have htarget := hp.target
  have hch : ch = (logsOf db).log entry.groupId := by
    rw [← hgroup] at hp
    refine AppendLogs.whole hp.logged ?_
    rw [logsOf_length h.inv]
    omega
  have hcommits := hp.commits
  rw [← hgroup] at hcommits hevents
  have hdecode : ∀ {f : Field String} {b b' : Bytes},
      (∀ text, f = .value text → b' ≠ [] ∧ text = S.codec.toB64 b') →
      bytesOrNull S.base64 f.toOption = some b → b' ≠ [] ∧ b = b' := by
    intro f b b' hf hbytes
    obtain ⟨text, hvalue, rfl⟩ := value_of_bytes hbytes
    obtain ⟨hne, rfl⟩ := hf text hvalue
    exact ⟨hne, S.readable.sent b'⟩
  obtain ⟨hholds, hgrows⟩ := h.bumped hb hch (hcommit ▸ hcommits.builtOn)
    (fun w hw => by
      obtain ⟨hne, rfl⟩ := hdecode hbody.welcome (hwelcome w hw)
      exact hcommit ▸ hcommits.welcome hne)
    (fun i hi => by
      obtain ⟨hne, rfl⟩ := hdecode hbody.groupInfo hi
      exact hcommit ▸ hcommits.groupInfo hne)
  have hlog := logsOf_bumped h.inv hb entry.groupId
  rw [if_pos rfl, ← hch, hcommit] at hlog
  have hlogged : Logged (logsOf handled.db) entry.groupId p.targetEpoch p.commit := by
    refine ⟨by omega, ?_⟩
    rw [hlog, htarget, Nat.add_sub_cancel]
    exact List.getElem?_concat_length
  refine ⟨hholds, hgrows, fun reply _ => ?_, fun ev hev => ?_⟩
  · cases reply with
    | ok done =>
        intro p' hp'
        rw [← hgroup, ← epoch_inj (hbody.epoch.symm.trans hp'.epoch),
          ← toB64_inj (Field.value.inj (hbody.commit.symm.trans hp'.commit))]
        exact hlogged
    | error e => trivial
  · obtain ⟨hev, hcases⟩ := hevents ev hev
    rw [← hev] at hlogged hlog hcommits
    rcases hcases with ⟨htype, hpayload⟩ | ⟨htype, hpayload⟩
    · have hsent := Field.value.inj (hpayload.symm.trans hbody.commit)
      exact ⟨fun _ => ⟨_, _, by rw [hsent, S.readable.shown], hlogged⟩,
        fun hw => by simp [htype] at hw⟩
    · obtain ⟨hne, hsent⟩ := hbody.welcome _ hpayload
      exact ⟨fun hc => by simp [htype] at hc, fun _ => ⟨_, _, by rw [hsent, S.readable.shown],
        hlog ▸ List.prefix_rfl, hcommits.welcome hne⟩⟩

variable {request : Request}

theorem Holds.handle (h : S.Holds db) {dir : Directory} {r : ApiRequest}
    (hasks : S.Asks me (logsOf db) r) (hservice : r.service = some request)
    (hok : handle S.base64 dir db (some me) request = .ok handled) : S.Done me db r handled := by
  have hread : ∀ {response}, (∀ reply ∈ r.read response, S.Answers me (logsOf db) r reply) →
      S.Done me db r ⟨db, response, []⟩ := fun hanswers => ⟨h, le_rfl, hanswers, by simp⟩
  match r with
  | .submit .commit target body =>
      cases hservice
      obtain ⟨entry, ht⟩ := submitCommit_took hok
      exact h.took hasks ht
  | .submit .externalCommit target body =>
      cases hservice
      obtain ⟨entry, ht⟩ := submitExternalCommit_took hok
      exact h.took hasks ht
  | .putGroupInfo target body =>
      cases hservice
      obtain ⟨ch, info, hch, hinfo, rfl⟩ := hasks
      simp only [DeliveryService.handle, putGroupInfo, Except.bind_eq_ok] at hok
      obtain ⟨data, hdata, access, haccess, hok⟩ := hok
      split at hok
      · cases hok
      · next db' hupdate =>
          cases hok
          rw [resolve_groupId haccess] at hupdate
          have hu := updateGroupInfo_uploaded hupdate
          obtain ⟨hepoch, hcarried⟩ := parsePutGroupInfo_eq_ok S.base64 (bodyOf_eq_ok hdata)
          obtain ⟨text, htext, hdecoded⟩ := value_of_bytes hcarried
          obtain rfl := Field.value.inj htext
          have hwhole : ch = (logsOf db).log (target.groupId me) := by
            refine AppendLogs.whole hch ?_
            rw [logsOf_length h.inv, hu.current, epoch_inj hepoch]
          rw [hdecoded, S.readable.sent] at hu
          obtain ⟨hholds, hgrows⟩ := h.uploaded hu (hwhole ▸ hinfo)
          exact ⟨hholds, hgrows, fun reply _ => by cases reply <;> trivial, by simp⟩
  | .getGroupInfo target =>
      cases hservice
      simp only [DeliveryService.handle, getGroupInfo, Except.bind_eq_ok] at hok
      obtain ⟨access, haccess, ⟨⟩⟩ := hok
      refine hread fun reply hreply => ?_
      obtain rfl := Option.some.inj hreply
      exact resolve_groupId haccess ▸ h.shows access.groupId
  | .catchUp target =>
      cases hservice
      simp only [DeliveryService.handle, catchUp, Except.bind_eq_ok] at hok
      obtain ⟨gate, hgate, ⟨⟩⟩ := hok
      refine hread fun reply hreply => ?_
      obtain rfl := Option.some.inj hreply
      exact catchUpGate_groupId hgate ▸ h.serves le_rfl db gate.2 gate.1

/-- A request the service meets, wherever its infrastructure fails. -/
theorem Holds.run (h : S.Holds db) (dir : Directory) (fault : Fault) {r : ApiRequest}
    (hasks : S.Asks me (logsOf db) r) (hservice : r.service = some request) :
    S.Done me db r ((⟨some me, request, dir, fault⟩ : DeliveryService.Call).run S.base64 db) := by
  have hrefused : ∀ refusal, S.Done me db r ⟨db, .refused refusal, []⟩ := by
    refine fun refusal => ⟨h, le_rfl, fun reply hreply => ?_, by simp⟩
    cases r <;> cases hreply
  simp only [DeliveryService.Call.run]
  cases hok : DeliveryService.handle S.base64 dir db (some me) request with
  | error refusal =>
      cases fault with
      | none => exact hrefused refusal
      | query =>
          dsimp only
          split_ifs <;> exact hrefused _
      | afterCommit sent =>
          dsimp only
          split_ifs <;> exact hrefused _
  | ok handled =>
      have hdone := h.handle hasks hservice hok
      cases fault with
      | none => exact hdone
      | query => exact hrefused _
      | afterCommit sent =>
          refine ⟨hdone.holds, hdone.grows, fun reply hreply => ?_, fun ev hev => ?_⟩
          · cases r <;> cases hreply
          · exact hdone.events ev (List.mem_of_mem_take hev)

end Setting

end SpecterComs.MlsSession
