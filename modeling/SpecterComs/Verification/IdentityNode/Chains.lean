import SpecterComs.Verification.IdentityNode.Handlers

/-! # Rotation chains

Every token of a login descends from the token that was issued, and at most one of them is
live. Hashes and successors do not collide, and random tokens are never successors.
-/

namespace SpecterComs.RefreshTokens

variable {Token Hash Agent : Type*}

/-- SHA-256 and HMAC-SHA-256 do not collide, and random tokens are new. -/
structure Env.CollisionFree (env : Env Token Hash Agent) : Prop where
  hash : ∀ {a b}, env.hashRefreshToken a = env.hashRefreshToken b → a = b
  successor : ∀ {a b u v}, env.deriveSuccessorRefreshToken a u = env.deriveSuccessorRefreshToken b v →
    a = b ∧ u = v
  random : ∀ {m n}, env.randomBytes m = env.randomBytes n → m = n
  issued : ∀ {a u n}, env.deriveSuccessorRefreshToken a u ≠ env.randomBytes n

/-- The token an `issueTokenPair` has drawn. -/
def Tx.issuing (tx : Tx Token Hash Agent) : Option Token :=
  match tx.request, tx.next with
  | .issueTokenPair _, .insertIssued _ _ refreshToken => some refreshToken
  | .issueTokenPair _, .commit (.tokens _ _ refreshToken) => some refreshToken
  | _, _ => none

section
variable (env : Env Token Hash Agent) (s : State Token Hash Agent)

/-- A row is the token of a login, or it has a predecessor. -/
def Origin (j : ℕ) (rj : Row Hash) : Prop :=
  (∃ k < s.drawn, rj.tokenHash = env.hashRefreshToken (env.randomBytes k)) ∨
    ∃ i r, s.rows i = some r ∧ r.replacedBy = some j

/-- The committed rows. -/
structure Rooted : Prop where
  chained : Chained env s
  origin : ∀ {j rj}, s.rows j = some rj → Origin env s j rj
  unique : ∀ {i j r rj}, s.rows i = some r → s.rows j = some rj → r.tokenHash = rj.tokenHash → i = j
  callsign : ∀ {i r}, s.rows i = some r → (env.callsign r.userId).isSome

/-- The tokens that are drawn and not yet committed. -/
structure Issuing : Prop where
  drawn : ∀ {t tx a}, s.txs t = some tx → tx.issuing = some a →
    (∃ k < s.drawn, a = env.randomBytes k) ∧
      ∀ i r, s.rows i = some r → r.tokenHash ≠ env.hashRefreshToken a
  distinct : ∀ {t t' tx tx' a}, s.txs t = some tx → s.txs t' = some tx' → tx.issuing = some a →
    tx'.issuing = some a → t = t'

/-- Every refresh token that was handed out for another is its committed successor. -/
def Logged : Prop :=
  ∀ x ∈ s.log, ∀ {p : Redemption Token Agent} {u cs a}, x.request = p.request →
    x.answer = .tokens u cs a → ∃ i j r rj, Superseded env s p i j r rj ∧
      rj.tokenHash = env.hashRefreshToken a

structure Inv [DecidableEq Hash] : Prop where
  locked : s.Locked
  knows : ∀ {t tx}, s.txs t = some tx → Knows env s t tx
  rooted : Rooted env s
  issuing : Issuing env s
  logged : Logged env s

end

variable {env : Env Token Hash Agent} {s s' : State Token Hash Agent} {t : ℕ}
variable {tx : Tx Token Hash Agent}

/-! ## What a commit does to the rows -/

/-- The versions a transaction wrote over rows that are there. -/
def Overwrites (s : State Token Hash Agent) (tx : Tx Token Hash Agent) : Prop :=
  ∀ i w r, tx.writes i = some w → s.rows i = some r → r.Evolves w

theorem Revoking.overwrites (h : Revoking s tx.now tx.writes) : Overwrites s tx := by
  intro i w r hw hr
  obtain ⟨r', hr', hl, rfl⟩ := h i w hw
  obtain rfl := Option.some.inj (hr'.symm.trans hr)
  exact Row.evolves_revoke _ hl

variable {p p' : Redemption Token Agent} {i j userId u now : ℕ} {r : Row Hash}

theorem Rotating.overwrites (h : Rotating env s t tx p i userId j r) : Overwrites s tx := by
  intro k w rk hw hrk
  rcases h.others hw with rfl | ⟨rfl, rfl⟩
  · rw [h.fresh] at hrk
    cases hrk
  · obtain rfl := Option.some.inj (h.row.symm.trans hrk)
    exact Row.evolves_retire _ _ h.live

theorem Overwrites.visible (h : Overwrites s tx) (hr : s.rows i = some r) :
    ∃ r', s.visible tx i = some r' ∧ r.Evolves r' := by
  cases hw : tx.writes i with
  | none => exact ⟨r, by simp [State.visible, hw, hr], .refl r⟩
  | some w => exact ⟨w, by simp [State.visible, hw], h i w r hw hr⟩

variable {a a' : Answer Token}

theorem Overwrites.evolves (h : Overwrites s tx) : Evolves s (s.finish t tx (s.visible tx) a) :=
  fun _ _ hr => h.visible hr

theorem Evolves.refl (s : State Token Hash Agent) : Evolves s s :=
  fun _ r hr => ⟨r, hr, .refl r⟩

theorem Keeps.of_eq (hrows : s'.rows = s.rows)
    (hlocks : ∀ i, s.locks i = some t → s'.locks i = some t) : Keeps s s' t :=
  fun i hi => ⟨hlocks i hi, by rw [hrows]⟩

theorem finish_txs {rows : ℕ → Option (Row Hash)} : (s.finish t tx rows a).txs t = none :=
  Function.update_self _ _ _

/-! ## The rows stay chains -/

theorem Env.CollisionFree.redemption (hc : env.CollisionFree)
    (h : p.successorHash env = p'.successorHash env) : p = p' := by
  obtain ⟨h₁, h₂⟩ := hc.successor (hc.hash h)
  cases p
  cases p'
  simp_all

theorem Origin.mono {rj rj' : Row Hash} (h : Origin env s j rj) (hchained : Chained env s)
    (he : Evolves s s') (hd : s.drawn ≤ s'.drawn) (hh : rj'.tokenHash = rj.tokenHash) :
    Origin env s' j rj' := by
  rcases h with ⟨k, hk, hkh⟩ | ⟨i, r, hr, hrj⟩
  · exact .inl ⟨k, Nat.lt_of_lt_of_le hk hd, hh.trans hkh⟩
  · exact .inr ⟨i, r, he.retired hr (hchained hr hrj).1, hrj⟩

/-- The rows evolve, some to a successor that is there, and new rows come in. -/
structure Grows (env : Env Token Hash Agent) (s s' : State Token Hash Agent)
    (fresh : ℕ → Row Hash → Prop) : Prop where
  evolves : Evolves s s'
  drawn : s.drawn ≤ s'.drawn
  rows : ∀ {i r'}, s'.rows i = some r' → fresh i r' ∨ ∃ r, s.rows i = some r ∧ r.Evolves r' ∧
    (r'.replacedBy = r.replacedBy ∨ ∃ j, r'.replacedBy = some j ∧ Linked env s' r' j)

/-- What makes a new row one of a chain. -/
structure Fresh (env : Env Token Hash Agent) (s s' : State Token Hash Agent) (i : ℕ)
    (r : Row Hash) : Prop where
  replacedBy : r.replacedBy = none
  origin : Origin env s' i r
  callsign : (env.callsign r.userId).isSome
  tokenHash : ∀ {k rk}, s.rows k = some rk → rk.tokenHash ≠ r.tokenHash

variable {fresh : ℕ → Row Hash → Prop}

theorem Chained.grow (h : Chained env s) (hg : Grows env s s' fresh)
    (hfresh : ∀ {i r}, fresh i r → r.replacedBy = none) : Chained env s' := by
  intro i j r' hi hj
  rcases hg.rows hi with hn | ⟨r, hr, he, hsame | ⟨j', hj', hlink⟩⟩
  · simp [hfresh hn] at hj
  · obtain ⟨hl, rj, hrj, hu, p, hp, hpj⟩ := h hr (hsame ▸ hj)
    obtain rfl := he.retired hl
    obtain ⟨rj', hrj', hej⟩ := hg.evolves j rj hrj
    exact ⟨hl, rj', hrj', hej.userId.trans hu, p, hp, hej.tokenHash.trans hpj⟩
  · obtain rfl := Option.some.inj (hj'.symm.trans hj)
    exact hlink

theorem Rooted.grow (h : Rooted env s) (hg : Grows env s s' fresh)
    (hfresh : ∀ {i r}, fresh i r → Fresh env s s' i r)
    (hone : ∀ {i j r r'}, fresh i r → fresh j r' → i = j) : Rooted env s' where
  chained := Chained.grow h.chained hg fun hn => (hfresh hn).replacedBy
  origin {j rj} hj := by
    rcases hg.rows hj with hn | ⟨r, hr, he, _⟩
    · exact (hfresh hn).origin
    · exact (h.origin hr).mono h.chained hg.evolves hg.drawn he.tokenHash
  unique {i j r r'} hi hj hh := by
    rcases hg.rows hi with hn | ⟨q, hq, he, _⟩
    · rcases hg.rows hj with hn' | ⟨q', hq', he', _⟩
      · exact hone hn hn'
      · exact absurd (he'.tokenHash.symm.trans hh.symm) ((hfresh hn).tokenHash hq')
    · rcases hg.rows hj with hn' | ⟨q', hq', he', _⟩
      · exact absurd (he.tokenHash.symm.trans hh) ((hfresh hn').tokenHash hq)
      · exact h.unique hq hq' (he.tokenHash.symm.trans (hh.trans he'.tokenHash))
  callsign {i r'} hi := by
    rcases hg.rows hi with hn | ⟨r, hr, he, _⟩
    · exact (hfresh hn).callsign
    · rw [he.userId]
      exact h.callsign hr

/-- No row has the hash of a successor that is not yet minted. -/
theorem Rooted.successor_new (h : Rooted env s) (hc : env.CollisionFree) {k : ℕ} {rk : Row Hash}
    (hi : s.rows i = some r) (hh : r.tokenHash = p.tokenHash env) (hl : r.live = true)
    (hk : s.rows k = some rk) : rk.tokenHash ≠ p.successorHash env := by
  intro heq
  rcases h.origin hk with ⟨n, _, hn⟩ | ⟨i', r', hr', hrk⟩
  · exact hc.issued (hc.hash (heq.symm.trans hn))
  · obtain ⟨hl', rk', hrk', _, p', hp', hpk'⟩ := h.chained hr' hrk
    obtain rfl := Option.some.inj (hk.symm.trans hrk')
    obtain rfl := hc.redemption (heq.symm.trans hpk')
    obtain rfl := h.unique hi hr' (hh.trans hp'.symm)
    obtain rfl := Option.some.inj (hi.symm.trans hr')
    simp [hl] at hl'

/-- No row has the hash of a random token that is not yet drawn. -/
theorem Rooted.undrawn (h : Rooted env s) (hc : env.CollisionFree) {n : ℕ} (hn : s.drawn ≤ n)
    (hi : s.rows i = some r) : r.tokenHash ≠ env.hashRefreshToken (env.randomBytes n) := by
  intro heq
  rcases h.origin hi with ⟨k, hk, hkh⟩ | ⟨i', r', hr', hri⟩
  · exact absurd (hc.random (hc.hash (hkh.symm.trans heq))) (by omega)
  · obtain ⟨_, r₁, hr₁, _, p, _, hp⟩ := h.chained hr' hri
    obtain rfl := Option.some.inj (hi.symm.trans hr₁)
    exact hc.issued (hc.hash (hp.symm.trans heq))

/-! ## What a commit adds -/

theorem Revoking.grows (h : Revoking s tx.now tx.writes) :
    Grows env s (s.finish t tx (s.visible tx) a) fun _ _ => False where
  evolves := h.overwrites.evolves
  drawn := Nat.le_refl _
  rows {i r'} hi := by
    cases hw : tx.writes i with
    | none =>
        exact .inr ⟨r', by simpa [State.finish, State.visible, hw] using hi, .refl r', .inl rfl⟩
    | some w =>
        obtain rfl : w = r' := by simpa [State.finish, State.visible, hw] using hi
        obtain ⟨r, hr, hl, rfl⟩ := h i w hw
        exact .inr ⟨r, hr, Row.evolves_revoke _ hl, .inl rfl⟩

theorem Revoking.rooted (h : Revoking s tx.now tx.writes) (hr : Rooted env s) :
    Rooted env (s.finish t tx (s.visible tx) a) :=
  hr.grow h.grows False.elim False.elim

section
variable {p : Redemption Token Agent} {i j userId : ℕ} {r : Row Hash}

theorem Rotating.linked (h : Rotating env s t tx p i userId j r)
    (hw : tx.writes i = some (r.retire tx.now j)) :
    ∃ e, Superseded env (s.finish t tx (s.visible tx) a) p i j (r.retire tx.now j)
      ⟨userId, p.successorHash env, e, none, none⟩ := by
  obtain ⟨e, hj⟩ := h.inserted
  exact ⟨e,
    { row := by simp [State.finish, State.visible, hw]
      tokenHash := h.tokenHash
      live := Row.live_retire _ _ _
      replacedBy := rfl
      successor := by simp [State.finish, State.visible, hj] }⟩

theorem Rotating.grows (h : Rotating env s t tx p i userId j r)
    (hw : tx.writes i = some (r.retire tx.now j)) :
    Grows env s (s.finish t tx (s.visible tx) a) fun k rk =>
      k = j ∧ tx.writes j = some rk where
  evolves := h.overwrites.evolves
  drawn := Nat.le_refl _
  rows {k rk} hk := by
    cases hwk : tx.writes k with
    | none =>
        exact .inr ⟨rk, by simpa [State.finish, State.visible, hwk] using hk, .refl rk, .inl rfl⟩
    | some w =>
        obtain rfl : w = rk := by simpa [State.finish, State.visible, hwk] using hk
        rcases h.others hwk with rfl | ⟨rfl, rfl⟩
        · exact .inl ⟨rfl, hwk⟩
        · obtain ⟨e, hs⟩ := h.linked hw (a := a)
          exact .inr ⟨r, h.row, Row.evolves_retire _ _ h.live, .inr ⟨j, rfl, hs.live, _,
            hs.successor, h.owner.symm, p, h.tokenHash, rfl⟩⟩

theorem Rotating.rooted (h : Rotating env s t tx p i userId j r)
    (hw : tx.writes i = some (r.retire tx.now j)) (hc : env.CollisionFree) (hr : Rooted env s) :
    Rooted env (s.finish t tx (s.visible tx) a) := by
  refine hr.grow (h.grows hw) ?_ fun hi hj => hi.1.trans hj.1.symm
  intro k rk hk
  obtain ⟨rfl, hk⟩ := hk
  obtain ⟨e, hj⟩ := h.inserted
  obtain ⟨_, hs⟩ := h.linked hw (a := a)
  obtain rfl := Option.some.inj (hj.symm.trans hk)
  have hcallsign := hr.callsign h.row
  rw [h.owner] at hcallsign
  exact
    { replacedBy := rfl
      origin := .inr ⟨i, _, hs.row, rfl⟩
      callsign := hcallsign
      tokenHash := hr.successor_new hc h.row h.tokenHash h.live }

end

/-- Only a new row is written. -/
theorem grows_inserted (hover : Overwrites s tx) (ho : ∀ k w, tx.writes k = some w → k = j) :
    Grows env s (s.finish t tx (s.visible tx) a) fun k rk => k = j ∧ tx.writes j = some rk where
  evolves := hover.evolves
  drawn := Nat.le_refl _
  rows {k rk} hk := by
    cases hwk : tx.writes k with
    | none =>
        exact .inr ⟨rk, by simpa [State.finish, State.visible, hwk] using hk, .refl rk, .inl rfl⟩
    | some w =>
        obtain rfl : w = rk := by simpa [State.finish, State.visible, hwk] using hk
        obtain rfl := ho k w hwk
        exact .inl ⟨rfl, hwk⟩

theorem Tx.issuing_eq {refreshToken : Token} {userId' : ℕ} {callsign : String}
    (hreq : tx.request = .issueTokenPair userId)
    (hnext : tx.next = .commit (.tokens userId' callsign refreshToken)) :
    tx.issuing = some refreshToken := by
  simp [Tx.issuing, hreq, hnext]

theorem Tx.request_of_issuing {a : Token} (h : tx.issuing = some a) :
    ∃ userId, tx.request = .issueTokenPair userId := by
  unfold issuing at h
  split at h
  · rename_i userId _ _ _ hreq _
    exact ⟨userId, hreq⟩
  · rename_i userId _ _ _ hreq _
    exact ⟨userId, hreq⟩
  · cases h

theorem Rooted.congr (h : Rooted env s) (he : Evolves s s') (hrows : s'.rows = s.rows)
    (hd : s.drawn ≤ s'.drawn) : Rooted env s' := by
  have hg : Grows env s s' fun _ _ => False :=
    ⟨he, hd, fun {i r} hi => .inr ⟨r, hrows ▸ hi, .refl r, .inl rfl⟩⟩
  exact h.grow hg False.elim False.elim

/-! ## The log -/

@[simp] theorem Request.failed_ne_tokens (request : Request Token Agent) (u : ℕ) (cs : String)
    (a : Token) : request.failed ≠ .tokens u cs a := by
  cases request <;> simp [failed]

theorem Redemption.request_inj (h : p.request = p'.request) : p = p' := by
  cases p
  cases p'
  simpa [request] using h

theorem Logged.mono (h : Logged env s) (he : Evolves s s') {x : Answered Token Agent}
    (hx : x ∈ s.log) {cs : String} {a : Token} (hreq : x.request = p.request)
    (hans : x.answer = .tokens u cs a) :
    ∃ i j r rj, Superseded env s' p i j r rj ∧ rj.tokenHash = env.hashRefreshToken a := by
  obtain ⟨i, j, r, rj, hs, hh⟩ := h x hx hreq hans
  obtain ⟨rj', hs', he'⟩ := hs.mono he
  exact ⟨i, j, r, rj', hs', he'.tokenHash.trans hh⟩

/-! ## The invariant is kept -/

variable [DecidableEq Hash]

theorem Commits.overwrites (h : Commits env s t tx a) : Overwrites s tx := by
  cases h with
  | rotated p callsign _ hr _ => exact hr.overwrites
  | replayed p userId callsign _ hw _ _ =>
      intro i w r hi
      simp [hw] at hi
  | reused p _ _ hw _ => exact hw.overwrites
  | loggedOut refreshToken _ hw => exact hw.overwrites
  | issued callsign refreshToken _ _ hj _ ho =>
      intro i w r hi hr
      rw [ho i w hi, hj] at hr
      cases hr

theorem Inv.commits (h : Inv env s) {a : Answer Token} (htx : s.txs t = some tx)
    (hnext : tx.next = .commit a) : Commits env s t tx a := by
  have := h.knows htx
  unfold Knows at this
  rwa [hnext] at this

variable {act : Action Token Agent}

/-- No committed row is lost, and what is revoked stays as it is. -/
theorem Inv.evolves (h : Inv env s) (ha : s.step env act = some s') : Evolves s s' := by
  cases State.step_moves ha with
  | quiet hrows _ _ =>
      intro i r hr
      exact ⟨r, hrows ▸ hr, .refl r⟩
  | loggedOut _ now => exact .refl s
  | commits htx hnext _ => exact (h.commits htx hnext).overwrites.evolves
  | abandons htx _ => exact .refl s

variable {request : Request Token Agent}

theorem knows_opened {next : Next Token Hash Agent} (h : Knows env s t (.opened request now next)) :
    Knows env (s.setTx t (.opened request now next)) t (.opened request now next) :=
  h.mono (.of_eq rfl fun _ hi => hi) (.refl s) (by simp [Tx.opened])

theorem Inv.knows_begin (ht : s.txs t = none) (ha : s.begin t env request now = some s')
    (htx : s'.txs t = some tx) : Knows env s' t tx := by
  cases request with
  | refresh refreshToken userAgent =>
      obtain rfl := Option.some.inj ha
      obtain rfl := State.eq_of_setTx htx
      exact knows_opened ⟨rfl, fun _ => rfl, by simp [Tx.opened]⟩
  | logout refreshToken =>
      cases refreshToken with
      | none =>
          obtain rfl := Option.some.inj ha
          simp [ht] at htx
      | some refreshToken =>
          obtain rfl := Option.some.inj ha
          obtain rfl := State.eq_of_setTx htx
          exact knows_opened ⟨rfl, fun _ _ hw => by simp [Tx.opened] at hw⟩
  | issueTokenPair userId =>
      obtain ⟨callsign, hcs, rfl⟩ := Option.map_eq_some_iff.mp ha
      obtain rfl := State.eq_of_setTx htx
      exact ⟨rfl, hcs, fun _ => rfl⟩

theorem Inv.knows_lockRow (h : Inv env s) (htx : s.txs t = some tx) {q : Query Hash} {id : ℕ}
    {todo found : List ℕ} {tx' : Tx Token Hash Agent} (hq : tx.next.query env = some q)
    (hscan : tx.scan = some ⟨id :: todo, found⟩)
    (htx' : (s.lockRow t tx env q id todo found).txs t = some tx') :
    Knows env (s.lockRow t tx env q id todo found) t tx' := by
  have hk := h.knows htx
  unfold State.lockRow at htx' ⊢
  split at htx'
  · rename_i hv
    obtain rfl := State.eq_of_setTx htx'
    exact (hk.pass hq hscan (by simp [hv])).mono (.of_eq rfl fun _ hi => hi) (.refl s)
      fun hw => h.locked.writes htx hw
  · rename_i r hv
    split at htx'
    · rename_i hf
      obtain rfl := State.eq_of_setTx htx'
      simp only [hf, if_true]
      -- the row is locked first, then found and written
      refine Knows.lock (s := { s.setTx t _ with locks := Function.update s.locks id (some t) })
        (hk.mono (.of_eq rfl fun i hi => ?_) (.refl s) ?_) hq hscan hv hf
        (Function.update_self _ _ _)
      · by_cases hii : i = id
        · simp [hii]
        · simpa [Function.update_of_ne hii] using hi
      · exact h.locked.writes htx
    · rename_i hf
      obtain rfl := State.eq_of_setTx htx'
      simp only [hf]
      exact (hk.pass hq hscan (by simp [hv, hf])).mono (.of_eq rfl fun _ hi => hi) (.refl s)
        fun hw => h.locked.writes htx hw

/-- The transaction that took the step. -/
theorem Inv.knows_own (h : Inv env s) {a : Action Token Agent} (ha : s.step env a = some s')
    (htx : s'.txs a.tx = some tx) : Knows env s' a.tx tx := by
  cases a with
  | begin t request now =>
      obtain ⟨ht, hb⟩ := State.step_begin.mp ha
      exact knows_begin ht hb htx
  | snapshot t order =>
      obtain ⟨tx, q, htx₀, hq, hscan, hperm, rfl⟩ := State.step_snapshot.mp ha
      obtain rfl := State.eq_of_setTx htx
      exact ((h.knows htx₀).snapshot h.locked hq hscan hperm).mono (.of_eq rfl fun _ hi => hi)
        (.refl s) fun hw => h.locked.writes htx₀ hw
  | lockRow t =>
      obtain ⟨tx, q, id, todo, found, htx₀, hq, hscan, hid, rfl⟩ := State.step_lockRow.mp ha
      exact h.knows_lockRow htx₀ hq hscan htx
  | resume t =>
      obtain ⟨tx, q, found, htx₀, hq, hscan, rfl⟩ := State.step_resume.mp ha
      obtain rfl := State.eq_of_setTx htx
      exact ((h.knows htx₀).resume h.rooted.chained hq hscan).mono (.of_eq rfl fun _ hi => hi)
        (.refl s) fun hw => h.locked.writes htx₀ hw
  | insert t dateNow =>
      obtain ⟨tx, row, next, htx₀, hins, rfl⟩ := State.step_insert.mp ha
      obtain rfl := State.eq_of_setTx htx
      have hj : s.rows s.nextId = none := by
        cases hr : s.rows s.nextId with
        | none => rfl
        | some r => exact absurd (h.locked.rows hr) (Nat.lt_irrefl _)
      have hkeeps : Keeps s (s.insert t tx row next) t := by
        refine .of_eq rfl fun i hi => ?_
        by_cases hii : i = s.nextId
        · simp [State.insert, hii]
        · simpa [State.insert, Function.update_of_ne hii] using hi
      exact ((h.knows htx₀).mono hkeeps (.refl s) (h.locked.writes htx₀)).insert hins hj
  | commit t reported =>
      obtain ⟨tx, a, _, _, rfl⟩ := State.step_commit.mp ha
      cases finish_txs.symm.trans htx
  | rollback t =>
      obtain ⟨tx, a, _, _, rfl⟩ := State.step_rollback.mp ha
      cases finish_txs.symm.trans htx
  | fail t =>
      obtain ⟨tx, _, rfl⟩ := State.step_fail.mp ha
      cases finish_txs.symm.trans htx

theorem Inv.knows_step (h : Inv env s) {a : Action Token Agent} (ha : s.step env a = some s')
    (htx : s'.txs t = some tx) : Knows env s' t tx := by
  by_cases ht : t = a.tx
  · subst ht
    exact h.knows_own ha htx
  · have hf := h.locked.frame ha
    have htx₀ : s.txs t = some tx := hf.txs ht ▸ htx
    exact (h.knows htx₀).mono (hf.keeps ht) (h.evolves ha) (h.locked.writes htx₀)

theorem Commits.rooted (h : Commits env s t tx a) (hc : env.CollisionFree) (hi : Inv env s)
    (htx : s.txs t = some tx) (hnext : tx.next = .commit a) :
    Rooted env (s.finish t tx (s.visible tx) a') := by
  have hr := hi.rooted
  have hover := h.overwrites
  cases h with
  | rotated p callsign hreq hrot hw => exact hrot.rooted hw hc hr
  | replayed p userId callsign hreq hw hs hj =>
      exact Revoking.rooted (fun i w hi => by simp [hw] at hi) hr
  | reused p _ hreq hw _ => exact hw.rooted hr
  | loggedOut refreshToken hreq hw => exact hw.rooted hr
  | issued callsign refreshToken hreq hcs hj hw ho =>
      rename_i j userId e
      obtain ⟨hdrawn, hnew⟩ := hi.issuing.drawn htx (Tx.issuing_eq hreq hnext)
      refine hr.grow (grows_inserted hover ho) ?_ fun hi hj => hi.1.trans hj.1.symm
      intro k rk hk
      obtain ⟨rfl, hk⟩ := hk
      obtain rfl := Option.some.inj (hw.symm.trans hk)
      obtain ⟨n, hn, rfl⟩ := hdrawn
      exact
        { replacedBy := rfl
          origin := .inl ⟨n, hn, rfl⟩
          callsign := by simp [hcs]
          tokenHash := hnew _ _ }

/-- No query is made to issue a token. -/
theorem Knows.not_issuing (h : Knows env s t tx) {q : Query Hash}
    (hq : tx.next.query env = some q) (userId : ℕ) : tx.request ≠ .issueTokenPair userId := by
  unfold Knows at h
  intro hreq
  split at h <;> rename_i hnext <;> simp only [hnext, Next.query, reduceCtorEq] at hq
  · simp [hreq, Redemption.request] at h
  · simp [hreq, Redemption.request] at h
  · simp [hreq, Redemption.request] at h
  · simp [hreq, Redemption.request] at h
  · simp [hreq] at h

/-- A token that is being issued was so before the step, or it has just been drawn. -/
theorem Inv.issuing_back (h : Inv env s) {a : Token} (ha : s.step env act = some s')
    (htx : s'.txs t = some tx) (hiss : tx.issuing = some a) :
    (∃ tx₀, s.txs t = some tx₀ ∧ tx₀.issuing = some a) ∨
      (t = act.tx ∧ a = env.randomBytes s.drawn ∧ s'.drawn = s.drawn + 1 ∧ s'.rows = s.rows) := by
  by_cases ht : t = act.tx
  swap
  · exact .inl ⟨tx, (h.locked.frame ha).txs ht ▸ htx, hiss⟩
  subst ht
  obtain ⟨userId, hreq⟩ := tx.request_of_issuing hiss
  cases act with
  | begin t request now =>
      obtain ⟨ht, hb⟩ := State.step_begin.mp ha
      cases request with
      | refresh refreshToken userAgent =>
          obtain rfl := Option.some.inj hb
          obtain rfl := State.eq_of_setTx htx
          cases hreq
      | logout refreshToken =>
          cases refreshToken with
          | none =>
              obtain rfl := Option.some.inj hb
              cases ht.symm.trans htx
          | some refreshToken =>
              obtain rfl := Option.some.inj hb
              obtain rfl := State.eq_of_setTx htx
              cases hreq
      | issueTokenPair userId =>
          obtain ⟨callsign, hcs, rfl⟩ := Option.map_eq_some_iff.mp hb
          obtain rfl := State.eq_of_setTx htx
          exact .inr ⟨rfl, (Option.some.inj hiss).symm, rfl, rfl⟩
  | snapshot t order =>
      obtain ⟨tx, q, htx₀, _, _, _, rfl⟩ := State.step_snapshot.mp ha
      obtain rfl := State.eq_of_setTx htx
      exact .inl ⟨tx, htx₀, hiss⟩
  | lockRow t =>
      obtain ⟨tx₀, q, id, todo, found, htx₀, hq, _, _, rfl⟩ := State.step_lockRow.mp ha
      exact absurd ((State.lockRow_tx htx).1.symm.trans hreq) ((h.knows htx₀).not_issuing hq userId)
  | resume t =>
      obtain ⟨tx₀, q, found, htx₀, hq, _, rfl⟩ := State.step_resume.mp ha
      obtain rfl := State.eq_of_setTx htx
      exact absurd hreq ((h.knows htx₀).not_issuing hq userId)
  | insert t dateNow =>
      obtain ⟨tx₀, row, next, htx₀, hins, rfl⟩ := State.step_insert.mp ha
      obtain rfl := State.eq_of_setTx htx
      replace hreq : tx₀.request = .issueTokenPair userId := hreq
      refine .inl ⟨tx₀, htx₀, ?_⟩
      have hk := h.knows htx₀
      generalize hn : tx₀.next = n at hins
      cases hins with
      | successor p i u callsign =>
          simp only [Knows, hn, hreq] at hk
          cases hk.1
      | issued u callsign refreshToken =>
          simp only [Tx.issuing, hreq] at hiss
          simpa only [Tx.issuing, hreq, hn] using hiss
  | commit t reported =>
      obtain ⟨tx, a, _, _, rfl⟩ := State.step_commit.mp ha
      cases finish_txs.symm.trans htx
  | rollback t =>
      obtain ⟨tx, a, _, _, rfl⟩ := State.step_rollback.mp ha
      cases finish_txs.symm.trans htx
  | fail t =>
      obtain ⟨tx, _, rfl⟩ := State.step_fail.mp ha
      cases finish_txs.symm.trans htx

/-- What the hash of a committed row is of. -/
theorem Commits.row_hash (h : Commits env s t tx a) (hnext : tx.next = .commit a)
    (hi : s.visible tx i = some r) :
    (∃ r₀, s.rows i = some r₀ ∧ r.tokenHash = r₀.tokenHash) ∨
      (∃ p : Redemption Token Agent, r.tokenHash = p.successorHash env) ∨
      ∃ b, tx.issuing = some b ∧ r.tokenHash = env.hashRefreshToken b := by
  cases hw : tx.writes i with
  | none => exact .inl ⟨r, by simpa [State.visible, hw] using hi, rfl⟩
  | some w =>
      obtain rfl : w = r := by simpa [State.visible, hw] using hi
      cases hr : s.rows i with
      | some r₀ => exact .inl ⟨r₀, rfl, (h.overwrites i w r₀ hw hr).tokenHash⟩
      | none =>
          cases h with
          | rotated p callsign _ hrot _ =>
              rcases hrot.others hw with rfl | ⟨rfl, _⟩
              · obtain ⟨e, hj⟩ := hrot.inserted
                obtain rfl := Option.some.inj (hj.symm.trans hw)
                exact .inr (.inl ⟨p, rfl⟩)
              · cases hrot.row.symm.trans hr
          | replayed p userId callsign _ hwrites _ _ => simp [hwrites] at hw
          | reused p _ _ hrev _ =>
              obtain ⟨r₀, hr₀, _⟩ := hrev i w hw
              cases hr₀.symm.trans hr
          | loggedOut refreshToken _ hrev =>
              obtain ⟨r₀, hr₀, _⟩ := hrev i w hw
              cases hr₀.symm.trans hr
          | issued callsign refreshToken hreq _ _ hj ho =>
              obtain rfl := ho i w hw
              obtain rfl := Option.some.inj (hj.symm.trans hw)
              exact .inr (.inr ⟨refreshToken, Tx.issuing_eq hreq hnext, rfl⟩)

theorem Inv.rows_hash (h : Inv env s) (ha : s.step env act = some s') (hi : s'.rows i = some r) :
    (∃ r₀, s.rows i = some r₀ ∧ r.tokenHash = r₀.tokenHash) ∨
      (∃ p : Redemption Token Agent, r.tokenHash = p.successorHash env) ∨
      ∃ tx b, s.txs act.tx = some tx ∧ s'.txs act.tx = none ∧ tx.issuing = some b ∧
        r.tokenHash = env.hashRefreshToken b := by
  cases State.step_moves ha with
  | quiet hrows _ _ => exact .inl ⟨r, hrows ▸ hi, rfl⟩
  | loggedOut _ now => exact .inl ⟨r, hi, rfl⟩
  | commits htx hnext _ =>
      rcases (h.commits htx hnext).row_hash hnext hi with hold | hsucc | ⟨b, hb, hh⟩
      · exact .inl hold
      · exact .inr (.inl hsucc)
      · exact .inr (.inr ⟨_, b, htx, finish_txs, hb, hh⟩)
  | abandons htx _ => exact .inl ⟨r, hi, rfl⟩

theorem State.drawn_le (ha : s.step env act = some s') : s.drawn ≤ s'.drawn := by
  cases State.step_moves ha with
  | quiet _ hd _ => exact hd
  | loggedOut _ now => exact Nat.le_refl _
  | commits _ _ _ => exact Nat.le_refl _
  | abandons _ _ => exact Nat.le_refl _

theorem Inv.issuing_step (h : Inv env s) (hc : env.CollisionFree) (ha : s.step env act = some s') :
    Issuing env s' where
  drawn {t tx a} htx hiss := by
    rcases h.issuing_back ha htx hiss with ⟨tx₀, htx₀, hiss₀⟩ | ⟨rfl, rfl, hd, hrows⟩
    · obtain ⟨⟨k, hk, rfl⟩, hnew⟩ := h.issuing.drawn htx₀ hiss₀
      refine ⟨⟨k, Nat.lt_of_lt_of_le hk (State.drawn_le ha), rfl⟩, fun i r hi heq => ?_⟩
      rcases h.rows_hash ha hi with ⟨r₀, hr₀, hh⟩ | ⟨p, hh⟩ | ⟨tx', b, htx', hnone, hb, hh⟩
      · exact hnew i r₀ hr₀ (hh.symm.trans heq)
      · exact hc.issued (hc.hash (hh.symm.trans heq))
      · obtain rfl := hc.hash (hh.symm.trans heq)
        obtain rfl := h.issuing.distinct htx₀ htx' hiss₀ hb
        simp [hnone] at htx
    · refine ⟨⟨s.drawn, by omega, rfl⟩, fun i r hi => ?_⟩
      exact h.rooted.undrawn hc (Nat.le_refl _) (hrows ▸ hi)
  distinct {t t' tx tx' a} htx htx' hiss hiss' := by
    rcases h.issuing_back ha htx hiss with ⟨tx₀, htx₀, hiss₀⟩ | ⟨rfl, rfl, _, _⟩
    · rcases h.issuing_back ha htx' hiss' with ⟨tx₁, htx₁, hiss₁⟩ | ⟨rfl, rfl, _, _⟩
      · exact h.issuing.distinct htx₀ htx₁ hiss₀ hiss₁
      · obtain ⟨⟨k, hk, heq⟩, _⟩ := h.issuing.drawn htx₀ hiss₀
        exact absurd (hc.random heq) (by omega)
    · rcases h.issuing_back ha htx' hiss' with ⟨tx₁, htx₁, hiss₁⟩ | ⟨rfl, _, _, _⟩
      · obtain ⟨⟨k, hk, heq⟩, _⟩ := h.issuing.drawn htx₁ hiss₁
        exact absurd (hc.random heq) (by omega)
      · rfl

theorem Inv.rooted_step (h : Inv env s) (hc : env.CollisionFree) (ha : s.step env act = some s') :
    Rooted env s' := by
  have he := h.evolves ha
  cases State.step_moves ha with
  | quiet hrows hd _ => exact h.rooted.congr he hrows hd
  | loggedOut _ now => exact h.rooted.congr he rfl (Nat.le_refl _)
  | commits htx hnext _ => exact (h.commits htx hnext).rooted hc h htx hnext
  | abandons htx _ => exact h.rooted.congr he rfl (Nat.le_refl _)

theorem Inv.refused (h : Inv env s) (htx : s.txs t = some tx) (hnext : tx.next = .rollback a) :
    ∃ p, tx.request = p.request ∧ Refused env s t p a := by
  have hk := h.knows htx
  unfold Knows at hk
  rw [hnext] at hk
  obtain ⟨p, hreq, _, hr⟩ := hk
  exact ⟨p, hreq, hr⟩

theorem Commits.logged (h : Commits env s t tx a) {cs : String} {b : Token}
    (hreq : tx.request = p.request) (hans : a = .tokens u cs b) :
    ∃ i j r rj, Superseded env (s.finish t tx (s.visible tx) a') p i j r rj ∧
      rj.tokenHash = env.hashRefreshToken b := by
  have he := h.overwrites.evolves (t := t) (a := a')
  cases h with
  | rotated p' callsign hreq' hrot hw =>
      obtain rfl := Redemption.request_inj (hreq.symm.trans hreq')
      obtain ⟨e, hs⟩ := hrot.linked hw (a := a')
      cases hans
      exact ⟨_, _, _, _, hs, rfl⟩
  | replayed p' userId callsign hreq' hw hs hj =>
      obtain rfl := Redemption.request_inj (hreq.symm.trans hreq')
      obtain ⟨rj', hs', he'⟩ := hs.mono he
      cases hans
      exact ⟨_, _, _, rj', hs', he'.tokenHash.trans hj⟩
  | reused p' _ _ _ _ => cases hans
  | loggedOut refreshToken _ _ => cases hans
  | issued callsign refreshToken hreq' _ _ _ _ =>
      rw [hreq'] at hreq
      cases hreq

theorem Inv.logged_step (h : Inv env s) (ha : s.step env act = some s') : Logged env s' := by
  have he := h.evolves ha
  intro x hx p u cs b hreq hans
  cases State.step_moves ha with
  | quiet _ _ hlog => exact h.logged.mono he (hlog ▸ hx) hreq hans
  | loggedOut _ now =>
      rcases List.mem_append.mp hx with hx | hx
      · exact h.logged.mono he hx hreq hans
      · obtain rfl := List.mem_singleton.mp hx
        cases hans
  | commits htx hnext ha' =>
      rcases List.mem_append.mp hx with hx | hx
      · exact h.logged.mono he hx hreq hans
      · obtain rfl := List.mem_singleton.mp hx
        rcases ha' with rfl | rfl
        · exact (h.commits htx hnext).logged hreq hans
        · simp at hans
  | abandons htx ha' =>
      rcases List.mem_append.mp hx with hx | hx
      · exact h.logged.mono he hx hreq hans
      · obtain rfl := List.mem_singleton.mp hx
        rcases ha' with hnext | rfl
        · obtain ⟨p', _, hr⟩ := h.refused htx hnext
          have hans : _ = Answer.tokens u cs b := hans
          cases hr <;> cases hans
        · simp at hans

theorem Inv.step (h : Inv env s) (hc : env.CollisionFree) {act : Action Token Agent}
    (ha : s.step env act = some s') : Inv env s' where
  locked := h.locked.step ha
  knows := h.knows_step ha
  rooted := h.rooted_step hc ha
  issuing := h.issuing_step hc ha
  logged := h.logged_step ha

theorem inv_init : Inv env (.init : State Token Hash Agent) where
  locked := ⟨by simp [State.init], by simp [State.init], by simp [State.init]⟩
  knows := by simp [State.init]
  rooted := ⟨by simp [Chained, State.init], by simp [State.init], by simp [State.init],
    by simp [State.init]⟩
  issuing := ⟨by simp [State.init], by simp [State.init]⟩
  logged := by simp [Logged, State.init]

theorem inv_run (hc : env.CollisionFree) {acts : List (Action Token Agent)}
    (h : (system env).Run .init acts s) : Inv env s :=
  h.invariant (P := fun s => Inv env s) (fun _ _ _ hs ha => hs.step hc ha) inv_init

end SpecterComs.RefreshTokens
