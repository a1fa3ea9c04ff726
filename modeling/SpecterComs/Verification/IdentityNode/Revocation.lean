import SpecterComs.Verification.IdentityNode.Successors

/-! # Theft revocation

A revocation reaches the rows of its snapshot. It is complete unless a transaction that inserts
a token for the user commits after the snapshot, or is still under way when the revocation
commits.
-/

namespace SpecterComs.RefreshTokens

variable {Token Hash Agent : Type*} {env : Env Token Hash Agent}
variable {s s' : State Token Hash Agent} {t userId : ℕ} {tx : Tx Token Hash Agent}

/-- The transaction revokes the tokens of the user: its snapshot is taken, or it is about to
commit. -/
def Revokes (env : Env Token Hash Agent) (s : State Token Hash Agent) (tx : Tx Token Hash Agent)
    (userId : ℕ) : Prop :=
  (tx.next = .revokeAll userId ∧ tx.scan.isSome) ∨
    (tx.next = .commit alreadyUsed ∧ ∃ (p : Redemption Token Agent) (i : ℕ) (r : Row Hash),
      tx.request = p.request ∧ s.rows i = some r ∧ r.tokenHash = p.tokenHash env ∧
        r.userId = userId)

/-- The transaction has inserted a token for the user. -/
def Inserting (s : State Token Hash Agent) (tx : Tx Token Hash Agent) (userId : ℕ) : Prop :=
  ∃ i w, tx.writes i = some w ∧ s.rows i = none ∧ w.userId = userId

/-- No transaction commits a token for a user while another revokes that user's, and none has
inserted one when the revocation commits. -/
def Apart (env : Env Token Hash Agent) (s : State Token Hash Agent) : Action Token Agent → Prop
  | .commit t _ => ∀ tx t' tx' userId, s.txs t = some tx → t' ≠ t → s.txs t' = some tx' →
      (Inserting s tx userId → ¬ Revokes env s tx' userId) ∧
        (Revokes env s tx userId → ¬ Inserting s tx' userId)
  | _ => True

/-- Every live row of the user is revoked by the transaction or still to come. -/
def Sweeping (s : State Token Hash Agent) (tx : Tx Token Hash Agent) (userId : ℕ) : Prop :=
  ∀ i r, s.rows i = some r → r.userId = userId → r.live = true →
    (tx.writes i).isSome ∨
      (tx.next = .revokeAll userId ∧ ∃ scan, tx.scan = some scan ∧ i ∈ scan.todo)

variable {request : Request Token Agent} {now i k : ℕ}

theorem not_revokes_opened {next : Next Token Hash Agent} (h : next ≠ .revokeAll userId)
    (h' : next ≠ .commit alreadyUsed) : ¬ Revokes env s' (.opened request now next) userId := by
  intro hr
  rcases hr with ⟨hnext, _⟩ | ⟨hnext, _⟩
  · exact h hnext
  · exact h' hnext

section
variable [DecidableEq Hash]

/-- The user whose tokens are revoked at a commit is the presented token's. -/
theorem Inv.revokes_back (h : Inv env s) (h' : Rooted env s') (he : Evolves s s')
    (htx : s.txs t = some tx) (hr : Revokes env s' tx userId) : Revokes env s tx userId := by
  rcases hr with hr | ⟨hnext, p, i, r, hreq, hi, hh, hu⟩
  · exact .inl hr
  · refine .inr ⟨hnext, p, ?_⟩
    generalize ha : (alreadyUsed : Answer Token) = a at hnext
    cases h.commits htx hnext with
    | reused p' userId' hreq' _ hreused =>
        obtain ⟨i', j, r', rj, hs, _, _⟩ := hreused
        obtain rfl := Redemption.request_inj (hreq.symm.trans hreq')
        obtain ⟨r'', hr'', he''⟩ := he i' r' hs.row
        obtain rfl := h'.unique hi hr'' (hh.trans (he''.tokenHash.trans hs.tokenHash).symm)
        obtain rfl := Option.some.inj (hi.symm.trans hr'')
        exact ⟨i, r', hreq, hs.row, hs.tokenHash, he''.userId.symm.trans hu⟩
    | rotated p' callsign _ _ _ => cases ha
    | replayed p' userId callsign _ _ _ _ => cases ha
    | loggedOut refreshToken _ _ => cases ha
    | issued callsign refreshToken _ _ _ _ _ => cases ha

/-! ## The sweep -/

theorem Sweeping.snapshot (hl : s.Locked) (hnext : tx.next = .revokeAll userId) {order : List ℕ}
    (hperm : order.Perm (s.matching tx env (.revokeAll userId))) :
    Sweeping s { tx with scan := some ⟨order, []⟩ } userId := by
  intro i r hi hu hlive
  cases hw : tx.writes i with
  | some w => exact .inl rfl
  | none =>
      refine .inr ⟨hnext, _, rfl, hperm.mem_iff.mpr (List.mem_filter.mpr ⟨?_, ?_⟩)⟩
      · exact List.mem_range.mpr (hl.rows hi)
      · simp only [State.visible, hw, hi, Option.none_or, Option.any_some]
        exact Query.finds_revokeAll.mpr ⟨hu, hlive⟩

theorem Sweeping.lockRow (h : Sweeping s tx userId) {id : ℕ} {todo found : List ℕ}
    (hscan : tx.scan = some ⟨id :: todo, found⟩) {tx' : Tx Token Hash Agent}
    (htx' : (s.lockRow t tx env (.revokeAll userId) id todo found).txs t = some tx') :
    Sweeping s tx' userId := by
  intro i r hi hu hl
  have hold := h i r hi hu hl
  have htodo : ∀ scan, tx.scan = some scan → i ∈ scan.todo → i = id ∨ i ∈ todo := by
    intro scan hs hm
    obtain rfl := Option.some.inj (hscan.symm.trans hs)
    exact List.mem_cons.mp hm
  unfold State.lockRow at htx'
  split at htx'
  · rename_i hv
    obtain rfl := State.eq_of_setTx htx'
    rcases hold with hw | ⟨hnext, scan, hs, hm⟩
    · exact .inl hw
    · rcases htodo scan hs hm with rfl | hm
      · simp [State.visible, hi] at hv
      · exact .inr ⟨hnext, _, rfl, hm⟩
  · rename_i w hv
    split at htx'
    · obtain rfl := State.eq_of_setTx htx'
      by_cases hii : i = id
      · exact .inl (by simp [hii, Query.set])
      · rcases hold with hw | ⟨hnext, scan, hs, hm⟩
        · exact .inl (by simpa [Function.update_of_ne hii] using hw)
        · exact .inr ⟨hnext, _, rfl, (htodo scan hs hm).resolve_left hii⟩
    · rename_i hf
      obtain rfl := State.eq_of_setTx htx'
      rcases hold with hw | ⟨hnext, scan, hs, hm⟩
      · exact .inl hw
      · rcases htodo scan hs hm with rfl | hm
        · -- a row that is passed over is one the transaction wrote
          cases hw : tx.writes i with
          | some w => exact .inl rfl
          | none =>
              obtain rfl : r = w := by simpa [State.visible, hw, hi] using hv
              exact absurd (Query.finds_revokeAll.mpr ⟨hu, hl⟩) hf
        · exact .inr ⟨hnext, _, rfl, hm⟩

/-- After its last row the handler commits, with every live row of the user written. -/
theorem Sweeping.resume (hi : Inv env s) (htx : s.txs t = some tx) {q : Query Hash}
    {found : List ℕ} (hq : tx.next.query env = some q) (hscan : tx.scan = some ⟨[], found⟩)
    (h : ∀ {u}, Revokes env s tx u → Sweeping s tx u) {rows : List (ℕ × Row Hash)}
    {tx' : Tx Token Hash Agent}
    (htx' : tx' = { tx with next := tx.next.resume env tx.now rows, scan := none })
    (hr : Revokes env s tx' userId) : Sweeping s tx' userId := by
  have hk := hi.knows htx
  subst htx'
  rcases hr with ⟨_, hscan'⟩ | ⟨hnext, p, i, r, hreq, hir, hh, hu⟩
  · cases hscan'
  replace hreq : tx.request = p.request := hreq
  unfold Knows at hk
  generalize hn : tx.next = n at hq hnext hk
  cases n with
  | selectPresented p' =>
      simp only [Next.resume] at hnext
      split at hnext
      · cases hnext
      · unfold redeem at hnext
        split at hnext
        · split at hnext <;> cases hnext
        · split at hnext
          · cases hnext
          · split at hnext <;> cases hnext
  | selectSuccessor p' u cs j =>
      simp only [Next.resume] at hnext
      split at hnext
      · cases hnext
      · unfold replay at hnext
        split at hnext <;> cases hnext
  | revokeAll u =>
      obtain ⟨_, p', hreq', i', j, r', rj, hs, hu', _⟩ := hk
      obtain rfl := Redemption.request_inj (hreq.symm.trans hreq')
      obtain rfl := hi.rooted.unique hir hs.row (hh.trans hs.tokenHash.symm)
      obtain rfl := Option.some.inj (hir.symm.trans hs.row)
      obtain rfl : u = userId := hu'.symm.trans hu
      intro k rk hk huk hlk
      rcases h (.inl ⟨hn, by simp [hscan]⟩) k rk hk huk hlk with hw | ⟨_, scan, hsc, hm⟩
      · exact .inl hw
      · obtain rfl := Option.some.inj (hscan.symm.trans hsc)
        cases hm
  | retire p' i' u cs j =>
      simp only [Next.resume] at hnext
      split at hnext <;> cases hnext
  | logout a => cases hnext
  | insertSuccessor p' i' u cs => cases hq
  | insertIssued u cs a => cases hq
  | commit a => cases hq
  | rollback a => cases hq

variable {act : Action Token Agent}

/-- Rows that others commit are none of the user's, where they keep apart. -/
theorem Sweeping.mono (hi : Inv env s) (hact : Apart env s act) (ha : s.step env act = some s')
    (ht : t ≠ act.tx) (htx : s.txs t = some tx) (hr : Revokes env s tx userId)
    (h : Sweeping s tx userId) : Sweeping s' tx userId := by
  intro i r' hi' hu hl
  cases hrow : s.rows i with
  | some r =>
      obtain ⟨r'', hr'', he⟩ := hi.evolves ha i r hrow
      obtain rfl := Option.some.inj (hi'.symm.trans hr'')
      have hlive : r.live = true := by
        cases hlr : r.live with
        | true => rfl
        | false => rw [he.retired hlr, hlr] at hl; cases hl
      exact h i r hrow (he.userId.symm.trans hu) hlive
  | none =>
      cases hm : State.step_moves ha with
      | quiet hrows _ _ => simp [hrows, hrow] at hi'
      | loggedOut _ now => simp [hrow] at hi'
      | abandons htx₀ _ => simp [State.finish, hrow] at hi'
      | @commits t₀ tx₀ _ _ _ htx₀ _ _ =>
          have hw : tx₀.writes i = some r' := by
            simpa [State.finish, State.visible, hrow] using hi'
          exact absurd hr ((hact _ _ _ _ htx₀ ht htx).1 ⟨i, r', hw, hrow, hu⟩)

theorem sweeping_own (hi : Inv env s) (hi' : Rooted env s') (ha : s.step env act = some s')
    (h : ∀ {t tx u}, s.txs t = some tx → Revokes env s tx u → Sweeping s tx u)
    (htx : s'.txs act.tx = some tx) (hr : Revokes env s' tx userId) : Sweeping s' tx userId := by
  have he := hi.evolves ha
  cases act with
  | begin t request now =>
      obtain ⟨ht, hb⟩ := State.step_begin.mp ha
      cases request with
      | refresh refreshToken userAgent =>
          obtain rfl := Option.some.inj hb
          obtain rfl := State.eq_of_setTx htx
          exact absurd hr (not_revokes_opened (by simp) (by simp))
      | logout refreshToken =>
          cases refreshToken with
          | none =>
              obtain rfl := Option.some.inj hb
              cases ht.symm.trans htx
          | some refreshToken =>
              obtain rfl := Option.some.inj hb
              obtain rfl := State.eq_of_setTx htx
              exact absurd hr (not_revokes_opened (by simp) (by simp))
      | issueTokenPair u =>
          obtain ⟨callsign, _, rfl⟩ := Option.map_eq_some_iff.mp hb
          obtain rfl := State.eq_of_setTx htx
          exact absurd hr (not_revokes_opened (by simp) (by simp))
  | snapshot t order =>
      obtain ⟨tx, q, _, hq, _, hperm, rfl⟩ := State.step_snapshot.mp ha
      obtain rfl := State.eq_of_setTx htx
      rcases hr with ⟨hnext, _⟩ | ⟨hnext, _⟩
      · obtain rfl := Option.some.inj ((congrArg (Next.query env) hnext).symm.trans hq)
        exact Sweeping.snapshot hi.locked hnext hperm
      · cases (congrArg (Next.query env) hnext).symm.trans hq
  | lockRow t =>
      obtain ⟨tx₀, q, id, todo, found, htx₀, hq, hscan, _, rfl⟩ := State.step_lockRow.mp ha
      obtain ⟨_, hnext₀, _, _, _, _⟩ := State.lockRow_tx htx
      rcases hr with ⟨hnext, _⟩ | ⟨hnext, _⟩
      · have hnext := hnext₀.symm.trans hnext
        obtain rfl := Option.some.inj ((congrArg (Next.query env) hnext).symm.trans hq)
        have hold := h htx₀ (.inl ⟨hnext, by simp [hscan]⟩)
        intro i r hi
        rw [State.lockRow_rows] at hi
        exact hold.lockRow hscan htx i r hi
      · cases (congrArg (Next.query env) (hnext₀.symm.trans hnext)).symm.trans hq
  | resume t =>
      obtain ⟨tx₀, q, found, htx₀, hq, hscan, rfl⟩ := State.step_resume.mp ha
      obtain rfl := State.eq_of_setTx htx
      exact Sweeping.resume hi htx₀ hq hscan (h htx₀) rfl hr
  | insert t dateNow =>
      obtain ⟨tx, row, next, _, hins, rfl⟩ := State.step_insert.mp ha
      obtain rfl := State.eq_of_setTx htx
      generalize tx.next = n at hins
      cases hins with
      | successor p i u cs =>
          rcases hr with ⟨hnext, _⟩ | ⟨hnext, _⟩
          · cases hnext
          · cases hnext
      | issued u cs a =>
          rcases hr with ⟨hnext, _⟩ | ⟨hnext, _⟩
          · cases hnext
          · cases hnext
  | commit t reported =>
      obtain ⟨tx, a, _, _, rfl⟩ := State.step_commit.mp ha
      cases finish_txs.symm.trans htx
  | rollback t =>
      obtain ⟨tx, a, _, _, rfl⟩ := State.step_rollback.mp ha
      cases finish_txs.symm.trans htx
  | fail t =>
      obtain ⟨tx, _, rfl⟩ := State.step_fail.mp ha
      cases finish_txs.symm.trans htx

theorem sweeping_step (hi : Inv env s) (hc : env.CollisionFree) (hact : Apart env s act)
    (ha : s.step env act = some s')
    (h : ∀ {t tx u}, s.txs t = some tx → Revokes env s tx u → Sweeping s tx u)
    (htx : s'.txs t = some tx) (hr : Revokes env s' tx userId) : Sweeping s' tx userId := by
  by_cases ht : t = act.tx
  · subst ht
    exact sweeping_own hi (hi.rooted_step hc ha) ha h htx hr
  · have htx₀ : s.txs t = some tx := (hi.locked.frame ha).txs ht ▸ htx
    have hr₀ := hi.revokes_back (hi.rooted_step hc ha) (hi.evolves ha) htx₀ hr
    exact (h htx₀ hr₀).mono hi hact ha ht htx₀ hr₀

/-- Where transactions keep apart, a revocation sweeps all rows of its user. -/
theorem sweeping_run (hc : env.CollisionFree) {acts : List (Action Token Agent)}
    (h : (system env).Guarded (Apart env) .init acts s) :
    Inv env s ∧ ∀ {t tx u}, s.txs t = some tx → Revokes env s tx u → Sweeping s tx u :=
  h.invariant (P := fun s => Inv env s ∧
      ∀ {t tx u}, s.txs t = some tx → Revokes env s tx u → Sweeping s tx u)
    (fun _ _ _ hs hact ha => ⟨hs.1.step hc ha, sweeping_step hs.1 hc hact ha hs.2⟩)
    ⟨inv_init, by simp [State.init]⟩

end

/-! ## After the revocation -/

section

/-- No token of the user with an id below `n` is live, committed or not. -/
structure Dead (s : State Token Hash Agent) (n userId : ℕ) : Prop where
  rows : ∀ {i r}, i < n → s.rows i = some r → r.userId = userId → r.live = false
  writes : ∀ {t tx i w}, s.txs t = some tx → i < n → tx.writes i = some w → w.userId = userId →
    w.live = false
  nextId : n ≤ s.nextId

variable {n : ℕ}

theorem Dead.setTx (h : Dead s n userId) {tx' : Tx Token Hash Agent}
    (hw : ∀ {i w}, i < n → tx'.writes i = some w → w.userId = userId → w.live = false) :
    Dead (s.setTx t tx') n userId where
  rows := h.rows
  writes {t' tx} := by
    intro i w htx
    by_cases ht : t' = t
    · subst ht
      obtain rfl := State.eq_of_setTx htx
      exact hw
    · exact h.writes (by simpa [State.setTx, Function.update_of_ne ht] using htx)
  nextId := h.nextId

theorem Dead.finish (h : Dead s n userId) {rows : ℕ → Option (Row Hash)} {a : Answer Token}
    (hr : ∀ {i r}, i < n → rows i = some r → r.userId = userId → r.live = false) :
    Dead (s.finish t tx rows a) n userId where
  rows := hr
  writes {t' tx'} := by
    intro i w htx
    by_cases ht : t' = t
    · subst ht
      cases finish_txs.symm.trans htx
    · exact h.writes (by simpa [State.finish, Function.update_of_ne ht] using htx)
  nextId := h.nextId

theorem Dead.visible (h : Dead s n userId) (htx : s.txs t = some tx) {i : ℕ} {r : Row Hash}
    (hi : i < n) (hv : s.visible tx i = some r) (hu : r.userId = userId) : r.live = false := by
  cases hw : tx.writes i with
  | none => exact h.rows hi (by simpa [State.visible, hw] using hv) hu
  | some w =>
      obtain rfl : w = r := by simpa [State.visible, hw] using hv
      exact h.writes htx hi hw hu

theorem Query.set_live {q : Query Hash} {r w : Row Hash} (h : q.set now r = some w) :
    w.live = false := by
  cases q <;> simp only [set, reduceCtorEq, Option.some.injEq] at h <;> subst h <;> simp

theorem Dead.begin (h : Dead s n userId) (ha : s.begin t env request now = some s') :
    Dead s' n userId := by
  cases request with
  | refresh refreshToken userAgent =>
      exact Option.some.inj ha ▸ h.setTx (by simp [Tx.opened])
  | logout refreshToken =>
      cases refreshToken with
      | none => exact Option.some.inj ha ▸ ⟨h.rows, h.writes, h.nextId⟩
      | some refreshToken => exact Option.some.inj ha ▸ h.setTx (by simp [Tx.opened])
  | issueTokenPair u =>
      obtain ⟨callsign, _, rfl⟩ := Option.map_eq_some_iff.mp ha
      have hset : Dead (s.setTx t (.opened (.issueTokenPair u) now
          (.insertIssued u callsign (env.randomBytes s.drawn)))) n userId :=
        h.setTx (by simp [Tx.opened])
      exact ⟨hset.rows, hset.writes, hset.nextId⟩

end

theorem Revoking.dead_write (h : Revoking s tx.now tx.writes) {w : Row Hash}
    (hw : tx.writes i = some w) : w.live = false := by
  obtain ⟨r, _, _, rfl⟩ := h i w hw
  exact Row.live_revoke _ _

theorem Rotating.live_write {p : Redemption Token Agent} {j u : ℕ} {r w : Row Hash}
    (h : Rotating env s t tx p i u j r) (hw : tx.writes k = some w) (hl : w.live = true) :
    s.rows k = none := by
  rcases h.others hw with rfl | ⟨_, rfl⟩
  · exact h.fresh
  · simp at hl

section
variable [DecidableEq Hash]

theorem Dead.lockRow {n : ℕ} (h : Dead s n userId) (htx : s.txs t = some tx) {q : Query Hash}
    {id : ℕ} {todo found : List ℕ} : Dead (s.lockRow t tx env q id todo found) n userId := by
  unfold State.lockRow
  split
  · exact h.setTx fun hi hw => h.writes htx hi hw
  · rename_i r hv
    split
    · have hset : Dead (s.setTx t
          { tx with
            scan := some ⟨todo, found ++ [id]⟩
            writes := Function.update tx.writes id ((q.set tx.now r).or (tx.writes id)) })
          n userId := by
        refine h.setTx fun {i w} hi hw hu => ?_
        by_cases hii : i = id
        · subst hii
          simp only [Function.update_self] at hw
          cases hq : q.set tx.now r with
          | some w' =>
              obtain rfl : w' = w := by simpa [hq] using hw
              exact Query.set_live hq
          | none => exact h.writes htx hi (by simpa [hq] using hw) hu
        · exact h.writes htx hi (by simpa [Function.update_of_ne hii] using hw) hu
      exact ⟨hset.rows, hset.writes, hset.nextId⟩
    · exact h.setTx fun hi hw => h.writes htx hi hw

/-- The tokens stay dead, whatever comes. -/
theorem Dead.step {n : ℕ} (h : Dead s n userId) {act : Action Token Agent}
    (ha : s.step env act = some s') : Dead s' n userId := by
  cases act with
  | begin t request now => exact h.begin (State.step_begin.mp ha).2
  | snapshot t order =>
      obtain ⟨tx, q, htx, _, _, _, rfl⟩ := State.step_snapshot.mp ha
      exact h.setTx fun hi hw => h.writes htx hi hw
  | lockRow t =>
      obtain ⟨tx, q, id, todo, found, htx, _, _, _, rfl⟩ := State.step_lockRow.mp ha
      exact h.lockRow htx
  | resume t =>
      obtain ⟨tx, q, found, htx, _, _, rfl⟩ := State.step_resume.mp ha
      exact h.setTx fun hi hw => h.writes htx hi hw
  | insert t dateNow =>
      obtain ⟨tx, row, next, htx, _, rfl⟩ := State.step_insert.mp ha
      have hset : Dead (s.setTx t
          { tx with next, writes := Function.update tx.writes s.nextId (some row) }) n userId := by
        refine h.setTx fun {i w} hi hw hu => ?_
        have hne : i ≠ s.nextId := Nat.ne_of_lt (Nat.lt_of_lt_of_le hi h.nextId)
        exact h.writes htx hi (by simpa [Function.update_of_ne hne] using hw) hu
      exact ⟨hset.rows, hset.writes, Nat.le_succ_of_le hset.nextId⟩
  | commit t reported =>
      obtain ⟨tx, a, htx, _, rfl⟩ := State.step_commit.mp ha
      exact h.finish fun hi hv hu => h.visible htx hi hv hu
  | rollback t =>
      obtain ⟨tx, a, _, _, rfl⟩ := State.step_rollback.mp ha
      exact h.finish h.rows
  | fail t =>
      obtain ⟨tx, _, rfl⟩ := State.step_fail.mp ha
      exact h.finish h.rows

/-- What a transaction has written and left live is a row it has inserted. -/
theorem Knows.live_write (h : Knows env s t tx) {w : Row Hash} (hw : tx.writes k = some w)
    (hl : w.live = true) : s.rows k = none := by
  unfold Knows at h
  split at h
  · simp [h.2.1] at hw
  · simp [h.2.1] at hw
  · simp [h.2.1] at hw
  · obtain ⟨_, r, hr, _⟩ := h
    exact hr.live_write hw hl
  · simp [h.1.dead_write hw] at hl
  · simp [h.2.dead_write hw] at hl
  · simp [h.2.2] at hw
  · cases h with
    | rotated p callsign _ hr _ => exact hr.live_write hw hl
    | replayed p u callsign _ hempty _ _ => simp [hempty] at hw
    | reused p u _ hr _ => simp [hr.dead_write hw] at hl
    | loggedOut refreshToken _ hr => simp [hr.dead_write hw] at hl
    | issued callsign refreshToken _ _ hj _ ho => exact ho k w hw ▸ hj
  · obtain ⟨p, _, hempty, _⟩ := h
    simp [hempty] at hw

/-- At the commit of a revocation no token of the user is live, committed or not. -/
theorem dead_commit (hi : Inv env s)
    (hsweep : ∀ {t tx u}, s.txs t = some tx → Revokes env s tx u → Sweeping s tx u)
    {reported : Bool} (hact : Apart env s (.commit t reported)) (htx : s.txs t = some tx)
    (hnext : tx.next = .commit alreadyUsed) (hr : Revokes env s tx userId)
    (ha : s.step env (.commit t reported) = some s') : Dead s' s.nextId userId := by
  obtain ⟨tx', a, htx', _, rfl⟩ := State.step_commit.mp ha
  obtain rfl := Option.some.inj (htx.symm.trans htx')
  refine ⟨fun {i r} hin hv hu => ?_, fun {t' tx' i w} htx' hin hw hu => ?_, Nat.le_refl _⟩
  · by_contra hlive
    have hlive : r.live = true := by simpa using hlive
    replace hv : s.visible tx i = some r := hv
    cases hw : tx.writes i with
    | none =>
        have hrow : s.rows i = some r := by simpa [State.visible, hw] using hv
        rcases hsweep htx hr i r hrow hu hlive with hw' | ⟨hnext', _⟩
        · simp [hw] at hw'
        · cases hnext.symm.trans hnext'
    | some w =>
        obtain rfl : w = r := by simpa [State.visible, hw] using hv
        generalize ha : (alreadyUsed : Answer Token) = b at hnext
        cases hi.commits htx hnext with
        | reused p u _ hrev _ => simp [hrev.dead_write hw] at hlive
        | rotated p callsign _ _ _ => cases ha
        | replayed p u callsign _ _ _ _ => cases ha
        | loggedOut refreshToken _ _ => cases ha
        | issued callsign refreshToken _ _ _ _ _ => cases ha
  · by_cases ht : t' = t
    · subst ht
      cases finish_txs.symm.trans htx'
    · have htx₀ : s.txs t' = some tx' := by
        simpa [State.finish, Function.update_of_ne ht] using htx'
      by_contra hlive
      have hlive : w.live = true := by simpa using hlive
      exact (hact _ _ _ _ htx ht htx₀).2 hr ⟨i, w, hw, (hi.knows htx₀).live_write hw hlive, hu⟩

/-- Where transactions keep apart, a detected reuse ends every token that was minted for the
user before the revocation committed. -/
theorem revocation_complete (hc : env.CollisionFree) {acts rest : List (Action Token Agent)}
    {s₁ s₂ s₃ : State Token Hash Agent} {reported : Bool} {p : Redemption Token Agent}
    {i userId : ℕ} {r : Row Hash} (h : (system env).Guarded (Apart env) .init acts s₁)
    (htx : s₁.txs t = some tx) (hnext : tx.next = .commit alreadyUsed)
    (hreq : tx.request = p.request) (hr : s₁.rows i = some r) (hh : r.tokenHash = p.tokenHash env)
    (hu : r.userId = userId) (hact : Apart env s₁ (.commit t reported))
    (ha : s₁.step env (.commit t reported) = some s₂) (h' : (system env).Run s₂ rest s₃)
    {k : ℕ} {q : Row Hash} (hk : k < s₁.nextId) (hq : s₃.rows k = some q)
    (huser : q.userId = userId) : q.live = false := by
  obtain ⟨hi, hsweep⟩ := sweeping_run hc h
  have hdead := dead_commit hi hsweep hact htx hnext
    (.inr ⟨hnext, p, i, r, hreq, hr, hh, hu⟩) ha
  have hrest : Dead s₃ s₁.nextId userId :=
    h'.invariant (P := fun s => Dead s s₁.nextId userId) (fun _ _ _ hs ha => hs.step ha) hdead
  exact hrest.rows hk hq huser

omit [DecidableEq Hash] in
/-- One request at a time keeps apart. -/
theorem apart_alone (hs : ∀ t', t' ≠ t → s.txs t' = none) {act : Action Token Agent}
    (hact : act.tx = t) : Apart env s act := by
  cases act with
  | commit t₀ reported =>
      obtain rfl : t₀ = t := hact
      intro tx t' tx' u _ ht htx'
      cases (hs t' ht).symm.trans htx'
  | _ => trivial

theorem guarded_alone {acts : List (Action Token Agent)} (h : (system env).Run s acts s')
    (hl : s.Locked) (hs : ∀ t', t' ≠ t → s.txs t' = none) (hacts : ∀ act ∈ acts, act.tx = t) :
    (system env).Guarded (Apart env) s acts s' ∧ ∀ t', t' ≠ t → s'.txs t' = none := by
  induction h with
  | nil s => exact ⟨.nil s, hs⟩
  | @cons s u s' act acts ha _ ih =>
      have hact : act.tx = t := hacts act List.mem_cons_self
      have hu : ∀ t', t' ≠ t → u.txs t' = none := by
        intro t' ht
        rw [(hl.frame ha).txs (hact ▸ ht)]
        exact hs t' ht
      obtain ⟨hg, hs'⟩ := ih (hl.step ha) hu fun b hb => hacts b (List.mem_cons_of_mem _ hb)
      exact ⟨.cons (apart_alone hs hact) ha hg, hs'⟩

end

/-! ## A rotation that a revocation does not see

The token of a login is rotated. Its successor is being rotated when the first token is
presented again: the successor's own successor is inserted before the revocation takes its
snapshot and committed after it. -/

def missed : List (Action Sym ℕ) :=
  login 7 0 ++ rotation 0 0 (.random 0) 1 10000 ++
    [.begin 1 (.refresh (.successor (.random 0) 1) 1) 100000] ++ query 1 1 ++
    [.insert 1 100000, .begin 2 (.refresh (.random 0) 2) 100001] ++ query 2 0 ++
    [.snapshot 2 [1]] ++ query 1 1 ++ [.commit 1 true, .lockRow 2, .resume 2]

/-- Before the revocation commits. -/
theorem missed_states : ((system symbolic).exec .init missed).map (fun s =>
      ((s.txs 2).map (fun tx => (tx.next, tx.request)), s.rows 0)) =
    some (some (.commit alreadyUsed, .refresh (.random 0) 2),
      some ⟨7, .random 0, refreshTokenTtlMs, some 10000, some 1⟩) := by
  decide +kernel

/-- After it has committed. -/
theorem missed_after : ((system symbolic).exec .init missed).map (fun s =>
      (s.nextId, (s.step symbolic (.commit 2 true)).bind fun s => s.rows 2)) =
    some (3, some ⟨7, .successor (.successor (.random 0) 1) 1, 100000 + refreshTokenTtlMs, none,
      none⟩) := by
  decide +kernel

/-- The revocation has committed, and a token that was minted before is live. -/
theorem revocation_misses : ∃ s₁ s₂ tx r q, (system symbolic).Run .init missed s₁ ∧
    s₁.txs 2 = some tx ∧ tx.next = .commit alreadyUsed ∧
    tx.request = .refresh (.random 0) 2 ∧ s₁.rows 0 = some r ∧
    r.tokenHash = symbolic.hashRefreshToken (.random 0) ∧ r.userId = 7 ∧
    s₁.step symbolic (.commit 2 true) = some s₂ ∧ 2 < s₁.nextId ∧ s₂.rows 2 = some q ∧
    q.userId = 7 ∧ q.live = true := by
  obtain ⟨s₁, hs, h⟩ := Option.map_eq_some_iff.mp missed_states
  have h' := missed_after
  rw [hs] at h'
  obtain ⟨htx, hrow⟩ := Prod.mk.inj h
  obtain ⟨hnext, hcommit⟩ := Prod.mk.inj (Option.some.inj h')
  obtain ⟨tx, htx, hpair⟩ := Option.map_eq_some_iff.mp htx
  obtain ⟨s₂, hs₂, hq⟩ := Option.bind_eq_some_iff.mp hcommit
  obtain ⟨hn, hreq⟩ := Prod.mk.inj hpair
  exact ⟨s₁, s₂, tx, _, _, StepSystem.exec_eq_some_iff.mp hs, htx, hn, hreq, hrow, rfl, rfl, hs₂,
    by omega, hq, rfl, rfl⟩

/-- The same reuse, with nothing else under way. -/
def caught : List (Action Sym ℕ) :=
  login 7 0 ++ rotation 0 0 (.random 0) 1 10000 ++
    [.begin 0 (.refresh (.random 0) 2) 100000] ++ query 0 0 ++ query 0 1

theorem caught_states : ((system symbolic).exec .init caught).map (fun s =>
      ((s.txs 0).map (fun tx => (tx.next, tx.request)), s.rows 0)) =
    some (some (.commit alreadyUsed, .refresh (.random 0) 2),
      some ⟨7, .random 0, refreshTokenTtlMs, some 10000, some 1⟩) := by
  decide +kernel

theorem caught_after : ((system symbolic).exec .init caught).map (fun s =>
      (s.nextId, (s.step symbolic (.commit 0 true)).bind fun s => s.rows 1)) =
    some (2, some ⟨7, .successor (.random 0) 1, 10000 + refreshTokenTtlMs, some 100000, none⟩) := by
  decide +kernel

theorem revocation_complete_caught : ∃ s₁ s₂ q, (system symbolic).Run .init caught s₁ ∧
    s₁.step symbolic (.commit 0 true) = some s₂ ∧ s₂.rows 1 = some q ∧ q.live = false := by
  obtain ⟨s₁, hs, h⟩ := Option.map_eq_some_iff.mp caught_states
  have h' := caught_after
  rw [hs] at h'
  obtain ⟨htx, hrow⟩ := Prod.mk.inj h
  obtain ⟨hnext, hcommit⟩ := Prod.mk.inj (Option.some.inj h')
  obtain ⟨tx, htx, hpair⟩ := Option.map_eq_some_iff.mp htx
  obtain ⟨s₂, hs₂, hq⟩ := Option.bind_eq_some_iff.mp hcommit
  obtain ⟨hn, hreq⟩ := Prod.mk.inj hpair
  have hrun := StepSystem.exec_eq_some_iff.mp hs
  have hinit : Inv symbolic .init := inv_init
  obtain ⟨hg, halone⟩ := guarded_alone (t := 0) hrun hinit.locked (fun _ _ => rfl) (by decide)
  exact ⟨s₁, s₂, _, hrun, hs₂, hq, revocation_complete (p := ⟨.random 0, 2⟩)
    symbolic_collisionFree hg htx hn hreq hrow rfl rfl (apart_alone halone rfl) hs₂ (.nil s₂)
    (by omega) hq rfl⟩

end SpecterComs.RefreshTokens
