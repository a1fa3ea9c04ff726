import SpecterComs.Verification.IdentityNode.Chains

/-! # One successor

The tokens of a login are those that descend from the issued one. At most one of them is live,
each has at most one successor, and a retry that is answered gets that successor.
-/

namespace SpecterComs.RefreshTokens

variable {Token Hash Agent : Type*} {env : Env Token Hash Agent}
variable {s s' : State Token Hash Agent} {t : ℕ} {tx : Tx Token Hash Agent}

/-- The tokens of a login. -/
inductive Env.Descends (env : Env Token Hash Agent) (k : ℕ) : Token → Prop
  | issued : Descends env k (env.randomBytes k)
  | rotated {a : Token} (userAgent : Agent) :
      Descends env k a → Descends env k (env.deriveSuccessorRefreshToken a userAgent)

namespace State

/-- The token has a committed row. -/
def Minted (env : Env Token Hash Agent) (s : State Token Hash Agent) (a : Token) : Prop :=
  ∃ i r, s.rows i = some r ∧ r.tokenHash = env.hashRefreshToken a

def Live (env : Env Token Hash Agent) (s : State Token Hash Agent) (a : Token) : Prop :=
  ∃ i r, s.rows i = some r ∧ r.tokenHash = env.hashRefreshToken a ∧ r.live = true

/-- Row `i` is rotated to row `j`. -/
def Link (s : State Token Hash Agent) (i j : ℕ) : Prop :=
  ∃ r, s.rows i = some r ∧ r.replacedBy = some j

theorem link_rightUnique (s : State Token Hash Agent) : Relator.RightUnique s.Link := by
  intro i j k hj hk
  obtain ⟨r, hr, hj⟩ := hj
  obtain ⟨r', hr', hk⟩ := hk
  obtain rfl := Option.some.inj (hr.symm.trans hr')
  exact Option.some.inj (hj.symm.trans hk)

end State

variable {i j k : ℕ} {r rj : Row Hash}

open Relation in
/-- A live row is the last of its chain. -/
theorem Chained.last (h : Chained env s) (hr : s.rows i = some r) (hl : r.live = true)
    (hij : ReflTransGen s.Link i j) : i = j := by
  rcases hij.cases_head with rfl | ⟨k, ⟨r', hr', hk⟩, _⟩
  · rfl
  · obtain rfl := Option.some.inj (hr.symm.trans hr')
    have := (h hr hk).1
    simp [hl] at this

/-! ## One live token -/

variable {p : Redemption Token Agent}

/-- The row a successor was made for. -/
theorem Rooted.predecessor (h : Rooted env s) (hc : env.CollisionFree) (hj : s.rows j = some rj)
    (hh : rj.tokenHash = p.successorHash env) :
    ∃ i r, s.rows i = some r ∧ r.tokenHash = p.tokenHash env ∧ r.replacedBy = some j := by
  rcases h.origin hj with ⟨n, _, hn⟩ | ⟨i, r, hr, hrj⟩
  · exact absurd (hc.hash (hh.symm.trans hn)) hc.issued
  · obtain ⟨_, rj', hrj', _, p', hp', hpj⟩ := h.chained hr hrj
    obtain rfl := Option.some.inj (hj.symm.trans hrj')
    obtain rfl := hc.redemption (hh.symm.trans hpj)
    exact ⟨i, r, hr, hp', hrj⟩

open Relation in
/-- The chain of a token's row begins at the issued token's. -/
theorem Env.Descends.chain {a : Token} (ha : env.Descends k a) (h : Rooted env s)
    (hc : env.CollisionFree) (hj : s.rows j = some rj)
    (hh : rj.tokenHash = env.hashRefreshToken a) :
    ∃ i r, s.rows i = some r ∧ r.tokenHash = env.hashRefreshToken (env.randomBytes k) ∧
      ReflTransGen s.Link i j := by
  induction ha generalizing j rj with
  | issued => exact ⟨j, rj, hj, hh, .refl⟩
  | @rotated a userAgent _ ih =>
      obtain ⟨i', r', hr', hh', hj'⟩ := h.predecessor hc (p := ⟨a, userAgent⟩) hj hh
      obtain ⟨i, r, hr, hk, hchain⟩ := ih hr' hh'
      exact ⟨i, r, hr, hk, hchain.tail ⟨r', hr', hj'⟩⟩

theorem Rooted.one_live (h : Rooted env s) (hc : env.CollisionFree) {a b : Token}
    (ha : env.Descends k a) (hb : env.Descends k b) (hla : s.Live env a) (hlb : s.Live env b) :
    a = b := by
  obtain ⟨i, r, hr, hra, hl⟩ := hla
  obtain ⟨j, r', hr', hrb, hl'⟩ := hlb
  obtain ⟨root, q, hq, hqk, hi⟩ := ha.chain h hc hr hra
  obtain ⟨root', q', hq', hqk', hj⟩ := hb.chain h hc hr' hrb
  obtain rfl := h.unique hq hq' (hqk.trans hqk'.symm)
  have hij : i = j := by
    rcases hi.total_of_right_unique s.link_rightUnique hj with hij | hji
    · exact Chained.last h.chained hr hl hij
    · exact (Chained.last h.chained hr' hl' hji).symm
  subst hij
  obtain rfl := Option.some.inj (hr.symm.trans hr')
  exact hc.hash (hra.symm.trans hrb)

/-! ## One successor -/

theorem Rooted.one_successor (h : Rooted env s) (hc : env.CollisionFree) {a : Token} {u v : Agent}
    (hu : s.Minted env (env.deriveSuccessorRefreshToken a u))
    (hv : s.Minted env (env.deriveSuccessorRefreshToken a v)) : u = v := by
  obtain ⟨j, rj, hj, hhj⟩ := hu
  obtain ⟨k, rk, hk, hhk⟩ := hv
  obtain ⟨i, r, hr, hh, hij⟩ := h.predecessor hc (p := ⟨a, u⟩) hj hhj
  obtain ⟨i', r', hr', hh', hik⟩ := h.predecessor hc (p := ⟨a, v⟩) hk hhk
  obtain rfl := h.unique hr hr' (hh.trans hh'.symm)
  obtain rfl := Option.some.inj (hr.symm.trans hr')
  obtain rfl := Option.some.inj (hij.symm.trans hik)
  obtain rfl := Option.some.inj (hj.symm.trans hk)
  exact (hc.successor (hc.hash (hhj.symm.trans hhk))).2

theorem Superseded.unique {p' : Redemption Token Agent} {i' j' : ℕ} {r' rj' : Row Hash}
    (h : Superseded env s p i j r rj) (h' : Superseded env s p' i' j' r' rj') (hr : Rooted env s)
    (hp : p.refreshToken = p'.refreshToken) : r = r' ∧ j = j' ∧ rj = rj' := by
  have hh : r.tokenHash = r'.tokenHash := by
    rw [h.tokenHash, h'.tokenHash, Redemption.tokenHash, Redemption.tokenHash, hp]
  obtain rfl := hr.unique h.row h'.row hh
  obtain rfl := Option.some.inj (h.row.symm.trans h'.row)
  obtain rfl := Option.some.inj (h.replacedBy.symm.trans h'.replacedBy)
  exact ⟨rfl, rfl, Option.some.inj (h.successor.symm.trans h'.successor)⟩

/-! ## Retries -/

/-- Only tokens that were minted are presented. -/
def Presents (env : Env Token Hash Agent) (s : State Token Hash Agent) : Action Token Agent → Prop
  | .begin _ (.refresh refreshToken _) _ => s.Minted env refreshToken
  | _ => True

/-- The row of a presented token is found. -/
def Found (env : Env Token Hash Agent) (s : State Token Hash Agent) (tx : Tx Token Hash Agent) :
    Prop :=
  match tx.next with
  | .selectPresented p => ∃ i r, s.rows i = some r ∧ r.tokenHash = p.tokenHash env ∧
      ∀ scan, tx.scan = some scan → i ∈ scan.todo ∨ i ∈ scan.found
  | .rollback a => a ≠ invalidToken
  | _ => True

theorem Found.mono (h : Found env s tx) (he : Evolves s s') : Found env s' tx := by
  unfold Found at h ⊢
  split at h
  · obtain ⟨i, r, hr, hh, hscan⟩ := h
    obtain ⟨r', hr', he'⟩ := he i r hr
    exact ⟨i, r', hr', he'.tokenHash.trans hh, hscan⟩
  · exact h
  · trivial

theorem redeem_found {now : ℕ} {callsign : String} (tx : Tx Token Hash Agent) :
    Found env s { tx with next := redeem now p i r callsign, scan := none } := by
  unfold redeem
  split
  · split
    · simp [Found, tokenExpired, invalidToken]
    · trivial
  · split
    · simp [Found, alreadyUsed, invalidToken]
    · split
      · trivial
      · trivial

section
variable [DecidableEq Hash]

variable {q : Query Hash}

theorem Found.snapshot (h : Found env s tx) (hi : Inv env s) (htx : s.txs t = some tx)
    {order : List ℕ} (hq : tx.next.query env = some q) (hperm : order.Perm (s.matching tx env q)) :
    Found env s { tx with scan := some ⟨order, []⟩ } := by
  have hk := hi.knows htx
  unfold Found Knows at *
  split at h <;> rename_i hnext <;> simp only [hnext] at hk ⊢
  · obtain ⟨i, r, hr, hh, _⟩ := h
    refine ⟨i, r, hr, hh, fun scan hscan => .inl ?_⟩
    obtain rfl : _ = scan := Option.some.inj hscan
    obtain rfl := Option.some.inj ((congrArg (Next.query env) hnext).symm.trans hq)
    refine hperm.mem_iff.mpr (List.mem_filter.mpr ⟨List.mem_range.mpr (hi.locked.rows hr), ?_⟩)
    rw [State.visible_of_empty hk.2.1, hr, Option.any_some]
    exact Query.finds_presented.mpr ⟨hh, hi.rooted.callsign hr⟩
  · exact h

theorem Found.lockRow (h : Found env s tx) (hi : Inv env s) (htx : s.txs t = some tx) {id : ℕ}
    {todo found : List ℕ} (hq : tx.next.query env = some q)
    (hscan : tx.scan = some ⟨id :: todo, found⟩) {tx' : Tx Token Hash Agent}
    (htx' : (s.lockRow t tx env q id todo found).txs t = some tx') : Found env s tx' := by
  have hk := hi.knows htx
  obtain ⟨_, hnext', found', hs', hsub, hid⟩ := State.lockRow_tx htx'
  unfold Found Knows at *
  rw [hnext']
  split at h <;> rename_i hnext <;> simp only [hnext] at hk ⊢
  · obtain ⟨i, r, hr, hh, hmem⟩ := h
    refine ⟨i, r, hr, hh, fun scan hscan₁ => ?_⟩
    obtain rfl := Option.some.inj (hs'.symm.trans hscan₁)
    rcases hmem _ hscan with hm | hm
    · rcases List.mem_cons.mp hm with rfl | hm
      · rcases hid with hid | hid
        · exact .inr hid
        · obtain rfl := Option.some.inj ((congrArg (Next.query env) hnext).symm.trans hq)
          have := hid r ((State.visible_of_empty hk.2.1 i).trans hr)
          rw [Query.finds_presented.mpr ⟨hh, hi.rooted.callsign hr⟩] at this
          cases this
      · exact .inl hm
    · exact .inr (hsub i hm)
  · exact h

/-- What a handler decides after a query is not that the token is unknown. -/
theorem Found.resume (h : Found env s tx) (hi : Inv env s) (htx : s.txs t = some tx)
    {found : List ℕ} (hq : tx.next.query env = some q) (hscan : tx.scan = some ⟨[], found⟩) :
    Found env s
      { tx with
        next := tx.next.resume env tx.now
          (found.filterMap fun id => (s.visible tx id).map fun r => (id, r))
        scan := none } := by
  have hk := hi.knows htx
  unfold Found at h
  unfold Knows at hk
  split at h
  · rename_i hnext
    simp only [hnext] at hk ⊢
    obtain ⟨i, r, hr, hh, hmem⟩ := h
    have hmem : (i, r) ∈ found.filterMap fun id => (s.visible tx id).map fun r => (id, r) := by
      refine List.mem_filterMap.mpr ⟨i, ?_, by simp [State.visible_of_empty hk.2.1, hr]⟩
      simpa using hmem _ hscan
    simp only [Next.resume]
    split
    · rename_i hnil
      simp [hnil] at hmem
    · exact redeem_found tx
  · rename_i hnext
    simp [hnext, Next.query] at hq
  · rename_i hpresented _
    generalize hn : tx.next = n at hq
    cases n with
    | selectPresented p => exact absurd hn (hpresented p)
    | selectSuccessor p u cs j =>
        simp only [Next.resume]
        split
        · trivial
        · unfold replay
          split <;> trivial
    | revokeAll u => trivial
    | insertSuccessor p i u cs => trivial
    | retire p i u cs j =>
        simp only [Next.resume]
        split
        · trivial
        · simp [Found, alreadyUsed, invalidToken]
    | logout a => trivial
    | insertIssued u cs a => trivial
    | commit a => trivial
    | rollback a => simp [Next.query] at hq

variable {act : Action Token Agent}

theorem found_step (hi : Inv env s) (hact : Presents env s act) (ha : s.step env act = some s')
    (h : ∀ {t tx}, s.txs t = some tx → Found env s tx) (htx : s'.txs t = some tx) : Found env s' tx := by
  have he := hi.evolves ha
  by_cases ht : t = act.tx
  swap
  · exact (h ((hi.locked.frame ha).txs ht ▸ htx)).mono he
  subst ht
  cases act with
  | begin t request now =>
      obtain ⟨ht, hb⟩ := State.step_begin.mp ha
      cases request with
      | refresh refreshToken userAgent =>
          obtain rfl := Option.some.inj hb
          obtain rfl := State.eq_of_setTx htx
          obtain ⟨i, r, hr, hh⟩ := hact
          exact ⟨i, r, hr, hh, by simp [Tx.opened]⟩
      | logout refreshToken =>
          cases refreshToken with
          | none =>
              obtain rfl := Option.some.inj hb
              cases ht.symm.trans htx
          | some refreshToken =>
              obtain rfl := Option.some.inj hb
              obtain rfl := State.eq_of_setTx htx
              trivial
      | issueTokenPair userId =>
          obtain ⟨callsign, _, rfl⟩ := Option.map_eq_some_iff.mp hb
          obtain rfl := State.eq_of_setTx htx
          trivial
  | snapshot t order =>
      obtain ⟨tx, q, htx₀, hq, _, hperm, rfl⟩ := State.step_snapshot.mp ha
      obtain rfl := State.eq_of_setTx htx
      exact ((h htx₀).snapshot hi htx₀ hq hperm).mono he
  | lockRow t =>
      obtain ⟨tx, q, id, todo, found, htx₀, hq, hscan, _, rfl⟩ := State.step_lockRow.mp ha
      exact ((h htx₀).lockRow hi htx₀ hq hscan htx).mono he
  | resume t =>
      obtain ⟨tx, q, found, htx₀, hq, hscan, rfl⟩ := State.step_resume.mp ha
      obtain rfl := State.eq_of_setTx htx
      exact ((h htx₀).resume hi htx₀ hq hscan).mono he
  | insert t dateNow =>
      obtain ⟨tx, row, next, _, hins, rfl⟩ := State.step_insert.mp ha
      obtain rfl := State.eq_of_setTx htx
      generalize tx.next = n at hins
      cases hins <;> trivial
  | commit t reported =>
      obtain ⟨tx, a, _, _, rfl⟩ := State.step_commit.mp ha
      cases finish_txs.symm.trans htx
  | rollback t =>
      obtain ⟨tx, a, _, _, rfl⟩ := State.step_rollback.mp ha
      cases finish_txs.symm.trans htx
  | fail t =>
      obtain ⟨tx, _, rfl⟩ := State.step_fail.mp ha
      cases finish_txs.symm.trans htx

/-- Where tokens that were minted are presented, none is unknown. -/
theorem found_run (hc : env.CollisionFree) {acts : List (Action Token Agent)}
    (h : (system env).Guarded (Presents env) .init acts s) :
    Inv env s ∧ ∀ {t tx}, s.txs t = some tx → Found env s tx :=
  h.invariant (P := fun s => Inv env s ∧ ∀ {t tx}, s.txs t = some tx → Found env s tx)
    (fun _ _ _ hs hact ha => ⟨hs.1.step hc ha, found_step hs.1 hact ha hs.2⟩)
    ⟨inv_init, by simp [State.init]⟩

/-- The token was rotated within the grace period to a live successor of this client. -/
def Replayable (env : Env Token Hash Agent) (s : State Token Hash Agent)
    (p : Redemption Token Agent) (now : ℕ) : Prop :=
  ∃ i j r rj, Superseded env s p i j r rj ∧ r.withinGrace now = true ∧
    rj.replayable env p now = true

/-- A retry in time is answered with the successor, unless it fails. -/
theorem Inv.retry (h : Inv env s) (hfound : ∀ {t tx}, s.txs t = some tx → Found env s tx)
    (ha : s.step env act = some s') {x : Answered Token Agent} (hx : s'.log = s.log ++ [x])
    (hreq : x.request = p.request) (hp : Replayable env s p x.now) :
    (∃ u cs, x.answer = .tokens u cs (p.successorRaw env)) ∨ x.answer = .internalServerError := by
  obtain ⟨i, j, r, rj, hs, hgrace, hrj⟩ := hp
  cases State.step_moves ha with
  | quiet _ _ hlog =>
      rw [hlog] at hx
      simp at hx
  | loggedOut _ now =>
      obtain rfl : _ = x := by simpa using hx
      cases hreq
  | @commits t tx reported a a' htx hnext ha' =>
      obtain rfl : _ = x := by simpa [State.finish] using hx
      replace hreq : tx.request = p.request := hreq
      rcases ha' with rfl | rfl
      swap
      · exact .inr (by simp [hreq, Redemption.request, Request.failed])
      cases h.commits htx hnext with
      | rotated p' callsign hreq' hrot hw =>
          obtain rfl := Redemption.request_inj (hreq.symm.trans hreq')
          exact .inl ⟨_, callsign, rfl⟩
      | replayed p' userId callsign hreq' _ _ _ =>
          obtain rfl := Redemption.request_inj (hreq.symm.trans hreq')
          exact .inl ⟨userId, callsign, rfl⟩
      | reused p' _ hreq' _ hr =>
          obtain rfl := Redemption.request_inj (hreq.symm.trans hreq')
          obtain ⟨i', j', r', rj', hs', _, hr'⟩ := hr
          obtain ⟨rfl, _, rfl⟩ := hs.unique hs' h.rooted rfl
          have := hr' hgrace
          simp [hrj] at this
      | loggedOut refreshToken hreq' _ => cases hreq.symm.trans hreq'
      | issued callsign refreshToken hreq' _ _ _ _ => cases hreq.symm.trans hreq'
  | @abandons _ tx a' htx ha' =>
      obtain rfl : _ = x := by simpa [State.finish] using hx
      replace hreq : tx.request = p.request := hreq
      rcases ha' with hnext | rfl
      swap
      · exact .inr (by simp [hreq, Redemption.request, Request.failed])
      obtain ⟨p', hreq', hr⟩ := h.refused htx hnext
      obtain rfl := Redemption.request_inj (hreq.symm.trans hreq')
      generalize ha' : a' = a at hr
      cases hr with
      | invalid =>
          have := hfound htx
          simp [Found, hnext, ha'] at this
      | used hi hh hl hnone =>
          obtain rfl := h.rooted.unique hs.row hi (hs.tokenHash.trans hh.symm)
          obtain rfl := Option.some.inj (hs.row.symm.trans hi)
          cases hnone.symm.trans hs.replacedBy
      | expired hi _ hh hl =>
          obtain rfl := h.rooted.unique hs.row hi (hs.tokenHash.trans hh.symm)
          obtain rfl := Option.some.inj (hs.row.symm.trans hi)
          cases hl.symm.trans hs.live

/-- At every moment at most one token of a login is live, each token has at most one successor,
all refreshes of it that are answered get that one, and a retry in time gets it unless a query
fails. -/
theorem never_forks (hc : env.CollisionFree) {acts : List (Action Token Agent)}
    (h : (system env).Run .init acts s) :
    (∀ {k a b}, env.Descends k a → env.Descends k b → s.Live env a → s.Live env b → a = b) ∧
    (∀ {a u v}, s.Minted env (env.deriveSuccessorRefreshToken a u) →
      s.Minted env (env.deriveSuccessorRefreshToken a v) → u = v) ∧
    (∀ x ∈ s.log, ∀ y ∈ s.log, ∀ {a u v i j cs ds b b'}, x.request = .refresh a u →
      y.request = .refresh a v → x.answer = .tokens i cs b → y.answer = .tokens j ds b' →
      b = b') ∧
    ((system env).Guarded (Presents env) .init acts s →
      ∀ {act s' x p}, s.step env act = some s' → s'.log = s.log ++ [x] → x.request = p.request →
        Replayable env s p x.now →
        (∃ i cs, x.answer = .tokens i cs (p.successorRaw env)) ∨
          x.answer = .internalServerError) := by
  have hi := inv_run hc h
  refine ⟨hi.rooted.one_live hc, hi.rooted.one_successor hc, ?_, ?_⟩
  · intro x hx y hy a u v i j cs ds b b' hxr hyr hxa hya
    obtain ⟨_, _, _, rj, hs, hb⟩ := hi.logged x hx (p := ⟨a, u⟩) hxr hxa
    obtain ⟨_, _, _, rj', hs', hb'⟩ := hi.logged y hy (p := ⟨a, v⟩) hyr hya
    obtain ⟨_, _, rfl⟩ := hs.unique hs' hi.rooted rfl
    exact hc.hash (hb.symm.trans hb')
  · intro hg act s' x p ha hx hreq hp
    obtain ⟨hi, hfound⟩ := found_run hc hg
    exact hi.retry hfound ha hx hreq hp

end

/-! ## Two clients

Tokens as terms: nothing collides. A login, a refresh, and a refresh of the same token from
another client ten seconds later. -/

inductive Sym
  | random (n : ℕ)
  | successor (a : Sym) (userAgent : ℕ)
  deriving DecidableEq, Repr

def symbolic : Env Sym Sym ℕ where
  hashRefreshToken := id
  deriveSuccessorRefreshToken := .successor
  randomBytes := .random
  callsign := fun _ => some "Ghost"

theorem symbolic_collisionFree : symbolic.CollisionFree where
  hash h := h
  successor h := Sym.successor.inj h
  random h := Sym.random.inj h
  issued h := nomatch h

def login (userId now : ℕ) : List (Action Sym ℕ) :=
  [.begin 0 (.issueTokenPair userId) now, .insert 0 now, .commit 0 true]

/-- A query of one row on connection `t`. -/
def query (t id : ℕ) : List (Action Sym ℕ) :=
  [.snapshot t [id], .lockRow t, .resume t]

def rotation (t id : ℕ) (a : Sym) (userAgent now : ℕ) : List (Action Sym ℕ) :=
  [.begin t (.refresh a userAgent) now] ++ query t id ++ [.insert t now] ++ query t id ++
    [.commit t true]

def twoClients : List (Action Sym ℕ) :=
  login 7 0 ++ rotation 0 0 (.random 0) 1 10000 ++ [.begin 0 (.refresh (.random 0) 2) 20000] ++
    query 0 0 ++ query 0 1 ++ query 0 1 ++ [.commit 0 true]

theorem twoClients_log : ((system symbolic).exec .init twoClients).map (·.log) = some
    [⟨.issueTokenPair 7, 0, .tokens 7 "Ghost" (.random 0)⟩,
      ⟨.refresh (.random 0) 1, 10000, .tokens 7 "Ghost" (.successor (.random 0) 1)⟩,
      ⟨.refresh (.random 0) 2, 20000, alreadyUsed⟩] := by
  decide +kernel

/-- Within the grace period the second client is refused, not given the successor. -/
theorem grace_two_clients : ∃ s, (system symbolic).Run .init twoClients s ∧
    ∃ x ∈ s.log, ∃ y ∈ s.log, ∃ a u v b, x.request = .refresh a u ∧ y.request = .refresh a v ∧
      x.now ≤ y.now ∧ y.now < x.now + refreshReuseGraceSeconds * 1000 ∧
      x.answer = .tokens 7 "Ghost" b ∧ ∀ i cs, y.answer ≠ .tokens i cs b := by
  obtain ⟨s, hs, hlog⟩ := Option.map_eq_some_iff.mp twoClients_log
  refine ⟨s, StepSystem.exec_eq_some_iff.mp hs, ?_⟩
  rw [hlog]
  refine ⟨⟨.refresh (.random 0) 1, 10000, .tokens 7 "Ghost" (.successor (.random 0) 1)⟩, by simp,
    ⟨.refresh (.random 0) 2, 20000, alreadyUsed⟩, by simp, .random 0, 1, 2,
    .successor (.random 0) 1, rfl, rfl, by decide, by decide, rfl, ?_⟩
  simp [alreadyUsed]

theorem never_forks_twoClients : ∃ s, (system symbolic).Run .init twoClients s ∧
    ∀ {k a b}, symbolic.Descends k a → symbolic.Descends k b → s.Live symbolic a →
      s.Live symbolic b → a = b := by
  obtain ⟨s, hs, _⟩ := Option.map_eq_some_iff.mp twoClients_log
  have hrun := StepSystem.exec_eq_some_iff.mp hs
  exact ⟨s, hrun, (never_forks symbolic_collisionFree hrun).1⟩

end SpecterComs.RefreshTokens
