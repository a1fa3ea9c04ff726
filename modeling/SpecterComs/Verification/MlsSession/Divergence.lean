import SpecterComs.Model.MlsSession.CatchUp
import SpecterComs.Verification.DeliveryService.Invariant
import SpecterComs.Verification.MlsSession.OneGroup

/-! # When a catch-up reports divergence

A copy that the service's log leads on to the newest epoch is reported diverged where the
service moved on between its two queries, or the device after them.
-/

namespace SpecterComs.DeliveryService

variable {codec : Base64} {db : Db} {g : GroupId}

/-! ## A log that grows -/

/-- What a group's log shows to a device. -/
def Db.served (db : Db) (codec : Base64) (g : GroupId) : List (ℕ × String) :=
  (db.selectLog g).map fun row => (row.epoch, codec.encode row.commit)

theorem insertLog_prefix (log : List LogRow) (row : LogRow) : log <+: insertLog log row := by
  unfold insertLog
  split_ifs
  · exact List.prefix_rfl
  · exact List.prefix_append log [row]

theorem commitLog_prefix_run (db : Db) (c : Call) :
    db.commitLog <+: (c.run codec db).db.commitLog := by
  rcases run_cases codec db c with ⟨hdb, -⟩ | ⟨handled, heffect, hdb, -⟩
  · exact ⟨[], by rw [hdb, List.append_nil]⟩
  · rw [hdb]
    cases heffect with
    | wrote _ _ _ _ _ hwrote =>
        cases hwrote with
        | commit entry _ _ hbumped =>
            rw [hbumped.log]
            exact insertLog_prefix _ _
        | upload _ _ huploaded => exact huploaded.log ▸ List.prefix_rfl
    | readInfo _ hsame _ => exact hsame ▸ List.prefix_rfl
    | readLog _ _ hsame _ => exact hsame ▸ List.prefix_rfl

theorem served_prefix {db' : Db} (h : Inv db) (h' : Inv db')
    (hlog : db.commitLog <+: db'.commitLog) : db.served codec g <+: db'.served codec g := by
  rw [Db.served, Db.served, h.selectLog_eq, h'.selectLog_eq]
  exact (hlog.filter _).map _

theorem Inv.served_epochs (h : Inv db) :
    (db.served codec g).map Prod.fst = List.range' 1 (db.epoch g) := by
  rw [Db.served, h.selectLog_eq, List.map_map, ← h.logged]
  rfl

theorem Inv.served_length (h : Inv db) : (db.served codec g).length = db.epoch g := by
  have hepochs : (db.served codec g).map Prod.fst = List.range' 1 (db.epoch g) := h.served_epochs
  simpa using congrArg List.length hepochs

end SpecterComs.DeliveryService

namespace SpecterComs.MlsSession

open DeliveryService (Base64 Db Call CatchUp fetchGroupCatchUp Inv)

section

variable {State : Type} {C : Crypto State} {codec : Codec} {base64 : Base64} {g : GroupId}

/-! ## Copies on the chain -/

variable (C codec g) in
/-- The commits apply one after the other, each to the epoch it is logged for. -/
def Follows (s : State) : List (ℕ × String) → Prop
  | [] => True
  | c :: rest =>
      ∃ t, codec.fromB64 c.2 >>= C.processCommit s g = .ok t ∧ C.groupEpoch t g = some c.1 ∧
        Follows t rest

variable (C codec base64 g) in
/-- The copy is at an epoch of the service's log, and the commits logged from there on
apply to it. -/
structure OnChain (db : Db) (s : State) (epoch : ℕ) : Prop where
  held : C.groupEpoch s g = some epoch
  reached : epoch ≤ db.epoch g
  follows : Follows C codec g s ((db.served base64 g).drop epoch)

theorem Follows.of_prefix {s : State} {xs ys : List (ℕ × String)} (hserved : xs <+: ys)
    (h : Follows C codec g s ys) : Follows C codec g s xs := by
  induction xs generalizing s ys with
  | nil => trivial
  | cons x xs ih =>
      obtain ⟨rest, rfl⟩ := hserved
      obtain ⟨t, happly, hepoch, hrest⟩ := h
      exact ⟨t, happly, hepoch, ih (List.prefix_append xs rest) hrest⟩

/-! ## The loop over the logged commits -/

variable {a : Applied State} {c : ℕ × String}

theorem applyCommit_skip (h : c.1 ≤ a.epoch) : applyCommit C codec g a c = a := by
  rw [applyCommit, if_pos h]

theorem applyCommit_next {t : State} (h : a.epoch < c.1)
    (happly : codec.fromB64 c.2 >>= C.processCommit a.state g = .ok t)
    (hepoch : C.groupEpoch t g = some c.1) : applyCommit C codec g a c = ⟨t, c.1, true⟩ := by
  rw [applyCommit, if_neg (Nat.not_le.mpr h), happly]
  simp only [hepoch]

variable {commits : List (ℕ × String)}

theorem foldl_applyCommit_skip (h : ∀ c ∈ commits, c.1 ≤ a.epoch) :
    commits.foldl (applyCommit C codec g) a = a := by
  induction commits with
  | nil => rfl
  | cons c rest ih =>
      rw [List.foldl_cons, applyCommit_skip (h c List.mem_cons_self)]
      exact ih fun c' hc' => h c' (List.mem_cons_of_mem _ hc')

theorem foldl_applyCommit_follows
    (hepochs : commits.map Prod.fst = List.range' (a.epoch + 1) commits.length)
    (h : Follows C codec g a.state commits) :
    (commits.foldl (applyCommit C codec g) a).epoch = a.epoch + commits.length := by
  induction commits generalizing a with
  | nil => rfl
  | cons c rest ih =>
      obtain ⟨t, happly, hepoch, hrest⟩ := h
      rw [List.length_cons, List.map_cons, List.range'_succ] at hepochs
      obtain ⟨hc, hepochs⟩ := List.cons_eq_cons.mp hepochs
      have hlast : (rest.foldl (applyCommit C codec g) ⟨t, c.1, true⟩).epoch = c.1 + rest.length :=
        ih (by rwa [hc]) hrest
      rw [List.foldl_cons, applyCommit_next (by omega) happly hepoch, hlast, List.length_cons]
      omega

/-- From a copy on the chain the loop reaches the last logged commit it was given. -/
theorem applyCommits_epoch (hepochs : commits.map Prod.fst = List.range' 1 commits.length)
    (h : Follows C codec g a.state (commits.drop a.epoch)) :
    (applyCommits C codec g a commits).epoch = max a.epoch commits.length := by
  have hsorted : commits.Pairwise fun c c' => c.1 ≤ c'.1 := by
    rw [← List.pairwise_map (f := Prod.fst) (R := (· ≤ ·)), hepochs]
    exact List.pairwise_le_range'
  have hskip : ∀ c ∈ commits.take a.epoch, c.1 ≤ a.epoch := by
    intro c hc
    obtain ⟨i, hi, rfl⟩ := List.mem_take_iff_getElem.mp hc
    have hget := congrArg (·[i]?) hepochs
    have hnumber : commits[i].1 = 1 + i := by simpa [show i < commits.length by omega] using hget
    omega
  have hrest : (commits.drop a.epoch).map Prod.fst =
      List.range' (a.epoch + 1) (commits.drop a.epoch).length := by
    rw [List.map_drop, hepochs, List.drop_range', List.length_drop, Nat.mul_one, Nat.add_comm]
  rw [applyCommits, sortCommits, hsorted.insertionSort_eq]
  calc (commits.foldl (applyCommit C codec g) a).epoch
      = ((commits.drop a.epoch).foldl (applyCommit C codec g) a).epoch := by
        conv_lhs => rw [← List.take_append_drop a.epoch commits]
        rw [List.foldl_append, foldl_applyCommit_skip hskip]
    _ = a.epoch + (commits.drop a.epoch).length := foldl_applyCommit_follows hrest h
    _ = max a.epoch commits.length := by
        rw [List.length_drop]
        omega

variable {data : CatchUpData}

/-- What the loop reaches where the log read is an older one. -/
theorem applyCatchUp_epoch {db logDb : Db} {s : State} {epoch : ℕ} (hinv : Inv db)
    (hlogged : Inv logDb) (hlog : logDb.commitLog <+: db.commitLog)
    (hcommits : data.commits = logDb.served base64 g)
    (h : OnChain C codec base64 g db (applyWelcome C codec g s data.welcome).1 epoch) :
    (applyCatchUp C codec g s data).epoch = some (max epoch data.commits.length) := by
  have hserved : logDb.served base64 g <+: db.served base64 g :=
    DeliveryService.served_prefix hlogged hinv hlog
  simp only [applyCatchUp, h.held, Option.some.injEq]
  apply applyCommits_epoch
  · rw [hcommits, hlogged.served_epochs, hlogged.served_length]
  · obtain ⟨newer, hnewer⟩ := hserved
    have hfollows := h.follows
    rw [← hnewer, List.drop_append] at hfollows
    rw [hcommits]
    exact hfollows.of_prefix (List.prefix_append _ _)

/-! ## Reports -/

theorem CatchUpData.diverged_of_epoch {server epoch : ℕ} (h : data.currentEpoch = some server) :
    data.diverged (some epoch) = false ↔ server = 0 ∨ epoch = server := by
  simp only [CatchUpData.diverged, CatchUpData.serverEpoch, h]
  simp
  omega

namespace CatchingUp

variable {userId : UserId} {w w' : CatchingUp State} {s : State}

/-- The queries of the catch-up read tables the service had. -/
structure Readable (base64 : Base64) (g : GroupId) (userId : UserId) (w : CatchingUp State) :
    Prop where
  inv : Inv w.db
  logDb : ∀ logDb ∈ w.logDb, Inv logDb ∧ logDb.commitLog <+: w.db.commitLog
  reply : ∀ reply ∈ w.reply, ∃ logDb epochDb, Inv logDb ∧ Inv epochDb ∧
    logDb.commitLog <+: epochDb.commitLog ∧ epochDb.commitLog <+: w.db.commitLog ∧
    reply = fetchGroupCatchUp base64 logDb epochDb g userId

theorem readable_start : Readable base64 g userId (.start .empty s) where
  inv := DeliveryService.inv_empty
  logDb _ h := nomatch h
  reply _ h := nomatch h

theorem Readable.step {i : Input} (h : Readable base64 g userId w)
    (hstep : step C codec base64 g userId w i = some w') : Readable base64 g userId w' := by
  cases i with
  | request c =>
      obtain rfl := Option.some.inj hstep
      have hgrow : w.db.commitLog <+: (c.run base64 w.db).db.commitLog :=
        DeliveryService.commitLog_prefix_run w.db c
      refine ⟨h.inv.run c, fun logDb hlogDb => ?_, fun reply hreply => ?_⟩
      · obtain ⟨hinv, hlog⟩ := h.logDb logDb hlogDb
        exact ⟨hinv, hlog.trans hgrow⟩
      · obtain ⟨logDb, epochDb, hlogInv, hepochInv, hlog, hepoch, heq⟩ := h.reply reply hreply
        exact ⟨logDb, epochDb, hlogInv, hepochInv, hlog, hepoch.trans hgrow, heq⟩
  | live commit =>
      obtain rfl := Option.some.inj hstep
      exact ⟨h.inv, h.logDb, h.reply⟩
  | queryLog =>
      obtain rfl := Option.some.inj hstep
      refine ⟨h.inv, fun logDb hlogDb => ?_, fun reply hreply => nomatch hreply⟩
      obtain rfl := Option.some.inj hlogDb
      exact ⟨h.inv, List.prefix_rfl⟩
  | queryEpoch =>
      obtain ⟨logDb, hlogDb, hstep⟩ := Option.bind_eq_some_iff.mp hstep
      obtain rfl := Option.some.inj hstep
      refine ⟨h.inv, (fun logDb hlogDb => nomatch hlogDb), fun reply hreply => ?_⟩
      obtain rfl := Option.some.inj hreply
      obtain ⟨hinv, hlog⟩ := h.logDb logDb hlogDb
      exact ⟨logDb, w.db, hinv, h.inv, hlog, List.prefix_rfl, rfl⟩
  | applyReply =>
      obtain ⟨reply, hreply, hstep⟩ := Option.bind_eq_some_iff.mp hstep
      obtain rfl := Option.some.inj hstep
      exact ⟨h.inv, h.logDb, fun reply hreply => nomatch hreply⟩

theorem readable_of_run {inputs : List Input}
    (h : (catchingUp C codec base64 g userId).Run (.start .empty s) inputs w) :
    Readable base64 g userId w :=
  h.invariant (fun _ _ _ hw hstep => hw.step hstep) readable_start

/-- In any run, a copy on the chain when the reply is applied is reported healthy exactly
where no commit later than the epoch query was applied before, and the log read was
complete or no longer needed. -/
theorem healthy_iff {inputs : List Input} {reply : CatchUp} {epoch : ℕ}
    (hrun : (catchingUp C codec base64 g userId).Run (.start .empty s) inputs w)
    (hreply : w.reply = some reply)
    (hchain : OnChain C codec base64 g w.db
      (applyWelcome C codec g w.state (catchUpData reply).welcome).1 epoch) :
    ∃ w' status, step C codec base64 g userId w .applyReply = some w' ∧
      w'.status = some status ∧
      (status.diverged = false ↔ reply.currentEpoch = 0 ∨ (epoch ≤ reply.currentEpoch ∧
        (reply.commits.length = reply.currentEpoch ∨ epoch = reply.currentEpoch))) := by
  have hreadable := readable_of_run hrun
  obtain ⟨logDb, epochDb, hlogInv, hepochInv, hlog, hepoch, heq⟩ := hreadable.reply reply hreply
  have hcommits : reply.commits = logDb.served base64 g := by rw [heq]; rfl
  have hreached := applyCatchUp_epoch hreadable.inv hlogInv (hlog.trans hepoch) hcommits hchain
  have hle : reply.commits.length ≤ reply.currentEpoch := by
    have hserved : logDb.served base64 g <+: epochDb.served base64 g :=
      DeliveryService.served_prefix hlogInv hepochInv hlog
    have hserver : reply.currentEpoch = epochDb.epoch g := by rw [heq]; rfl
    have hlength := hserved.length_le
    rwa [hserver, hcommits, ← hepochInv.served_length]
  refine ⟨_, _, Option.bind_eq_some_iff.mpr ⟨reply, hreply, rfl⟩, rfl, ?_⟩
  change (catchUpData reply).diverged _ = false ↔ _
  rw [hreached, CatchUpData.diverged_of_epoch rfl]
  change reply.currentEpoch = 0 ∨ max epoch reply.commits.length = reply.currentEpoch ↔ _
  omega

end CatchingUp

end

/-! ## Two catch-ups -/

namespace OneGroup

def base64 : Base64 := ⟨codec.encodeText, codec.decodeText⟩

/-- Every user may act on every group. -/
def everyone : DeliveryService.Directory where
  friends _ _ := true
  isOrgMember _ _ := true
  getChannelScope chanId orgId := some (.org orgId chanId)
  channelMemberUserIds _ := []
  eventExists _ _ := true
  eventCascadeMemberUserIds _ := []

/-- The commit on a chain, submitted for its channel. -/
def submitOn (chain : List Bytes) : DeliveryService.Call where
  user := some "u"
  request := .submitCommit (.channel "o" name) {
    epoch := .value (chain.length + 1)
    commit := .value (codec.toB64 (commitOn 0 chain))
    welcome := .null
    welcomedUserIds := .absent
    groupInfo := .null }
  directory := everyone
  fault := .none

def first : Bytes := commitOn 0 []

def second : Bytes := commitOn 0 [first]

/-- A device at epoch 0 of the group, beside an empty service. -/
def started : CatchingUp OneGroup := .start .empty ⟨"u:d", some [], 0⟩

/-- The second commit is accepted after both queries. -/
def fetched : List CatchingUp.Input :=
  [.request (submitOn []), .live first, .queryLog, .queryEpoch, .request (submitOn [first])]

abbrev fetching := CatchingUp.catchingUp crypto codec base64 name "u"

def behind : CatchingUp OneGroup :=
  (fetching.exec started fetched).get (by decide +kernel)

/-- The second commit reaches the device before the lock section. -/
def ahead : CatchingUp OneGroup :=
  (fetching.exec started (fetched ++ [.live second])).get (by decide +kernel)

theorem run_behind : fetching.Run started fetched behind :=
  StepSystem.exec_eq_some_iff.mp (Option.some_get _).symm

theorem run_ahead : fetching.Run started (fetched ++ [.live second]) ahead :=
  StepSystem.exec_eq_some_iff.mp (Option.some_get _).symm

theorem onChain_behind : OnChain crypto codec base64 name behind.db behind.state 1 where
  held := by decide +kernel
  reached := by decide +kernel
  follows := by
    rw [Db.served, (CatchingUp.readable_of_run run_behind).inv.selectLog_eq]
    have hrest : ((behind.db.commitLog.filter (·.groupId == name)).map fun row =>
        (row.epoch, base64.encode row.commit)).drop 1 = [(2, codec.toB64 second)] := by
      decide +kernel
    rw [hrest]
    exact ⟨⟨"u:d", some [first, second], 0⟩, by decide +kernel, by decide +kernel, trivial⟩

theorem onChain_ahead : OnChain crypto codec base64 name ahead.db ahead.state 2 where
  held := by decide +kernel
  reached := by decide +kernel
  follows := by
    rw [Db.served, (CatchingUp.readable_of_run run_ahead).inv.selectLog_eq]
    have hrest : ((ahead.db.commitLog.filter (·.groupId == name)).map fun row =>
        (row.epoch, base64.encode row.commit)).drop 2 = [] := by
      decide +kernel
    rw [hrest]
    trivial

theorem behind_healthy :
    ∃ w' status, fetching.step behind .applyReply = some w' ∧ w'.status = some status ∧
      status.diverged = false := by
  have hreply : behind.reply = some ⟨none, [(1, codec.toB64 first)], 1, none⟩ := by
    decide +kernel
  obtain ⟨w', status, hstep, hstatus, hiff⟩ :=
    CatchingUp.healthy_iff run_behind hreply onChain_behind
  exact ⟨w', status, hstep, hstatus, hiff.mpr (by decide)⟩

/-- A device that is ahead of the epoch query is on the chain, and reported diverged. -/
theorem ahead_reported_diverged :
    fetching.Run started (fetched ++ [.live second]) ahead ∧
      OnChain crypto codec base64 name ahead.db ahead.state 2 ∧
      ((fetching.step ahead .applyReply).bind CatchingUp.status).map Status.diverged =
        some true :=
  ⟨run_ahead, onChain_ahead, by decide +kernel⟩

end OneGroup

end SpecterComs.MlsSession
