import SpecterComs.Model.IdentityNode.RefreshTokens
import Mathlib.Data.List.Perm.Lattice

/-! # What a refresh transaction has read and written

A transaction writes only rows it holds, and a row that is revoked does not change any more.
What the handler knows of the rows it has read therefore stays true until it commits.
-/

namespace SpecterComs.RefreshTokens

variable {Token Hash Agent : Type*} {env : Env Token Hash Agent}

/-! ## Rows -/

namespace Row

@[simp] theorem live_revoke (r : Row Hash) (now : ℕ) : (r.revoke now).live = false := by
  simp [live, revoke]

@[simp] theorem live_retire (r : Row Hash) (now j : ℕ) : (r.retire now j).live = false := by
  simp [live, retire]

/-- What a committed row may become. -/
structure Evolves (r r' : Row Hash) : Prop where
  userId : r'.userId = r.userId
  tokenHash : r'.tokenHash = r.tokenHash
  expiresAt : r'.expiresAt = r.expiresAt
  retired : r.live = false → r' = r

theorem Evolves.refl (r : Row Hash) : r.Evolves r :=
  ⟨rfl, rfl, rfl, fun _ => rfl⟩

theorem evolves_revoke {r : Row Hash} (now : ℕ) (h : r.live = true) : r.Evolves (r.revoke now) :=
  ⟨rfl, rfl, rfl, fun hr => by simp [h] at hr⟩

theorem evolves_retire {r : Row Hash} (now j : ℕ) (h : r.live = true) :
    r.Evolves (r.retire now j) :=
  ⟨rfl, rfl, rfl, fun hr => by simp [h] at hr⟩

end Row

namespace State

variable {s s' : State Token Hash Agent} {t t' : ℕ} {tx : Tx Token Hash Agent}

/-! ## What one step can do -/

section
variable [DecidableEq Hash]

theorem step_begin {request : Request Token Agent} {now : ℕ} :
    s.step env (.begin t request now) = some s' ↔
      s.txs t = none ∧ s.begin t env request now = some s' := by
  simp only [step]
  split <;> simp_all

theorem step_snapshot {order : List ℕ} :
    s.step env (.snapshot t order) = some s' ↔
      ∃ tx q, s.txs t = some tx ∧ tx.next.query env = some q ∧ tx.scan = none ∧
        order.Perm (s.matching tx env q) ∧ s' = s.setTx t { tx with scan := some ⟨order, []⟩ } := by
  simp only [step, snapshot, Option.bind_eq_some_iff]
  constructor
  · intro h
    obtain ⟨tx, htx, q, hq, h⟩ := h
    split at h
    · rename_i hc
      exact ⟨tx, q, htx, hq, by simpa using hc.1, List.isPerm_iff.mp hc.2, by simpa using h.symm⟩
    · cases h
  · intro h
    obtain ⟨tx, q, htx, hq, hscan, hperm, rfl⟩ := h
    exact ⟨tx, htx, q, hq, by simp [hscan, List.isPerm_iff.mpr hperm]⟩

theorem step_lockRow :
    s.step env (.lockRow t) = some s' ↔
      ∃ tx q id todo found, s.txs t = some tx ∧ tx.next.query env = some q ∧
        tx.scan = some ⟨id :: todo, found⟩ ∧ (s.locks id = none ∨ s.locks id = some t) ∧
        s' = s.lockRow t tx env q id todo found := by
  simp only [step, Option.bind_eq_some_iff]
  constructor
  · intro h
    obtain ⟨tx, htx, q, hq, h⟩ := h
    split at h
    · rename_i id todo found hscan
      split at h
      · rename_i hc
        exact ⟨tx, q, id, todo, found, htx, hq, hscan, hc, by simpa using h.symm⟩
      · cases h
    · cases h
  · intro h
    obtain ⟨tx, q, id, todo, found, htx, hq, hscan, hc, rfl⟩ := h
    exact ⟨tx, htx, q, hq, by simp [hscan, hc]⟩

theorem step_resume :
    s.step env (.resume t) = some s' ↔
      ∃ tx q found, s.txs t = some tx ∧ tx.next.query env = some q ∧
        tx.scan = some ⟨[], found⟩ ∧ s' = s.resume t tx env found := by
  simp only [step, Option.bind_eq_some_iff]
  constructor
  · intro h
    obtain ⟨tx, htx, h⟩ := h
    split at h
    · rename_i q found hq hscan
      exact ⟨tx, q, found, htx, hq, hscan, by simpa using h.symm⟩
    · cases h
  · intro h
    obtain ⟨tx, q, found, htx, hq, hscan, rfl⟩ := h
    exact ⟨tx, htx, by simp [hq, hscan]⟩

/-- The row and the next query of an INSERT. -/
inductive Inserts (env : Env Token Hash Agent) (id dateNow : ℕ) :
    Next Token Hash Agent → Row Hash → Next Token Hash Agent → Prop
  | successor (p : Redemption Token Agent) (old userId : ℕ) (callsign : String) :
      Inserts env id dateNow (.insertSuccessor p old userId callsign)
        ⟨userId, p.successorHash env, dateNow + refreshTokenTtlMs, none, none⟩
        (.retire p old userId callsign id)
  | issued (userId : ℕ) (callsign : String) (refreshToken : Token) :
      Inserts env id dateNow (.insertIssued userId callsign refreshToken)
        ⟨userId, env.hashRefreshToken refreshToken, dateNow + refreshTokenTtlMs, none, none⟩
        (.commit (.tokens userId callsign refreshToken))

theorem step_insert {dateNow : ℕ} :
    s.step env (.insert t dateNow) = some s' ↔
      ∃ tx row next, s.txs t = some tx ∧ Inserts env s.nextId dateNow tx.next row next ∧
        s' = s.insert t tx row next := by
  simp only [step, Option.bind_eq_some_iff]
  constructor
  · intro h
    obtain ⟨tx, htx, h⟩ := h
    split at h
    · rename_i p id userId callsign hnext
      exact ⟨tx, _, _, htx, by rw [hnext]; exact .successor p id userId callsign,
        by simpa using h.symm⟩
    · rename_i userId callsign refreshToken hnext
      exact ⟨tx, _, _, htx, by rw [hnext]; exact .issued userId callsign refreshToken,
        by simpa using h.symm⟩
    · cases h
  · intro h
    obtain ⟨tx, row, next, htx, hins, rfl⟩ := h
    refine ⟨tx, htx, ?_⟩
    generalize hn : tx.next = n at hins
    cases hins <;> rfl

theorem step_commit {reported : Bool} :
    s.step env (.commit t reported) = some s' ↔
      ∃ tx a, s.txs t = some tx ∧ tx.next = .commit a ∧
        s' = s.finish t tx (s.visible tx) (if reported then a else tx.request.failed) := by
  simp only [step, Option.bind_eq_some_iff]
  constructor
  · intro h
    obtain ⟨tx, htx, h⟩ := h
    split at h
    · rename_i a hnext
      exact ⟨tx, a, htx, hnext, by simpa using h.symm⟩
    · cases h
  · intro h
    obtain ⟨tx, a, htx, hnext, rfl⟩ := h
    exact ⟨tx, htx, by simp [hnext]⟩

theorem step_rollback :
    s.step env (.rollback t) = some s' ↔
      ∃ tx a, s.txs t = some tx ∧ tx.next = .rollback a ∧ s' = s.finish t tx s.rows a := by
  simp only [step, Option.bind_eq_some_iff]
  constructor
  · intro h
    obtain ⟨tx, htx, h⟩ := h
    split at h
    · rename_i a hnext
      exact ⟨tx, a, htx, hnext, by simpa using h.symm⟩
    · cases h
  · intro h
    obtain ⟨tx, a, htx, hnext, rfl⟩ := h
    exact ⟨tx, htx, by simp [hnext]⟩

theorem step_fail :
    s.step env (.fail t) = some s' ↔
      ∃ tx, s.txs t = some tx ∧ s' = s.finish t tx s.rows tx.request.failed := by
  simp only [step, Option.bind_eq_some_iff, Option.some.injEq]
  constructor
  · intro h
    obtain ⟨tx, htx, h⟩ := h
    exact ⟨tx, htx, h.symm⟩
  · intro h
    obtain ⟨tx, htx, h⟩ := h
    exact ⟨tx, htx, h.symm⟩

end

end State

/-- The connection a step is on. -/
def Action.tx : Action Token Agent → ℕ
  | .begin t _ _ | .snapshot t _ | .lockRow t | .resume t | .insert t _ | .commit t _ | .rollback t
  | .fail t => t

namespace State

variable {s s' : State Token Hash Agent} {t t' : ℕ} {tx : Tx Token Hash Agent}

/-- What one step does to the rows and the log. -/
inductive Moves (s : State Token Hash Agent) : Action Token Agent → State Token Hash Agent → Prop
  | quiet {act s'} : s'.rows = s.rows → s.drawn ≤ s'.drawn → s'.log = s.log → Moves s act s'
  | loggedOut (t now : ℕ) : Moves s (.begin t (.logout none) now)
      { s with log := s.log ++ [⟨.logout none, now, .loggedOut⟩] }
  | commits {t tx reported a a'} : s.txs t = some tx → tx.next = .commit a →
      (a' = a ∨ a' = tx.request.failed) →
      Moves s (.commit t reported) (s.finish t tx (s.visible tx) a')
  | abandons {act tx a'} : s.txs act.tx = some tx →
      (tx.next = .rollback a' ∨ a' = tx.request.failed) →
      Moves s act (s.finish act.tx tx s.rows a')

variable {request : Request Token Agent} {now i : ℕ}

theorem begin_moves (h : s.begin t env request now = some s') : Moves s (.begin t request now) s' := by
  cases request with
  | refresh refreshToken userAgent =>
      exact Option.some.inj h ▸ .quiet rfl (Nat.le_refl _) rfl
  | logout refreshToken =>
      cases refreshToken with
      | none => exact Option.some.inj h ▸ .loggedOut t now
      | some refreshToken => exact Option.some.inj h ▸ .quiet rfl (Nat.le_refl _) rfl
  | issueTokenPair userId =>
      obtain ⟨callsign, _, rfl⟩ := Option.map_eq_some_iff.mp h
      exact .quiet rfl (Nat.le_succ _) rfl

variable {tx' : Tx Token Hash Agent}

theorem eq_of_setTx (h : (s.setTx t tx).txs t = some tx') : tx = tx' := by
  simpa [setTx] using h

section
variable [DecidableEq Hash] {q : Query Hash} {id : ℕ} {todo found : List ℕ}

theorem lockRow_rows : (s.lockRow t tx env q id todo found).rows = s.rows := by
  unfold lockRow
  split
  · rfl
  · split
    · rfl
    · rfl

/-- A row is added to those that were found, or it is not one the query finds. -/
theorem lockRow_tx (h : (s.lockRow t tx env q id todo found).txs t = some tx') :
    tx'.request = tx.request ∧ tx'.next = tx.next ∧ ∃ found', tx'.scan = some ⟨todo, found'⟩ ∧
      (∀ x ∈ found, x ∈ found') ∧
      (id ∈ found' ∨ ∀ r, s.visible tx id = some r → q.finds env id r = false) := by
  unfold lockRow at h
  split at h
  · rename_i hv
    obtain rfl := eq_of_setTx h
    exact ⟨rfl, rfl, found, rfl, fun _ hx => hx, .inr (by simp [hv])⟩
  · rename_i r hv
    split at h
    · obtain rfl := eq_of_setTx h
      exact ⟨rfl, rfl, _, rfl, fun _ hx => List.mem_append_left _ hx, .inl (by simp)⟩
    · rename_i hf
      obtain rfl := eq_of_setTx h
      exact ⟨rfl, rfl, found, rfl, fun _ hx => hx, .inr (by simpa [hv] using hf)⟩

end

theorem step_moves [DecidableEq Hash] {act : Action Token Agent}
    (h : s.step env act = some s') : Moves s act s' := by
  cases act with
  | begin t request now => exact begin_moves (step_begin.mp h).2
  | snapshot t order =>
      obtain ⟨tx, q, _, _, _, _, rfl⟩ := step_snapshot.mp h
      exact .quiet rfl (Nat.le_refl _) rfl
  | lockRow t =>
      obtain ⟨tx, q, id, todo, found, _, _, _, _, rfl⟩ := step_lockRow.mp h
      refine .quiet lockRow_rows ?_ ?_
      · unfold lockRow
        split
        · exact Nat.le_refl _
        · split <;> exact Nat.le_refl _
      · unfold lockRow
        split
        · rfl
        · split <;> rfl
  | resume t =>
      obtain ⟨tx, q, found, _, _, _, rfl⟩ := step_resume.mp h
      exact .quiet rfl (Nat.le_refl _) rfl
  | insert t dateNow =>
      obtain ⟨tx, row, next, _, _, rfl⟩ := step_insert.mp h
      exact .quiet rfl (Nat.le_refl _) rfl
  | commit t reported =>
      obtain ⟨tx, a, htx, hnext, rfl⟩ := step_commit.mp h
      refine .commits htx hnext ?_
      split
      · exact .inl rfl
      · exact .inr rfl
  | rollback t =>
      obtain ⟨tx, a, htx, hnext, rfl⟩ := step_rollback.mp h
      exact .abandons htx (.inl hnext)
  | fail t =>
      obtain ⟨tx, htx, rfl⟩ := step_fail.mp h
      exact .abandons htx (.inr rfl)

/-! ## What the others keep -/

/-- The bookkeeping of ids and locks. -/
structure Locked (s : State Token Hash Agent) : Prop where
  rows : ∀ {i r}, s.rows i = some r → i < s.nextId
  locks : ∀ {i t}, s.locks i = some t → i < s.nextId ∧ (s.txs t).isSome
  writes : ∀ {t tx i w}, s.txs t = some tx → tx.writes i = some w → s.locks i = some t

/-- What a step of transaction `t` leaves to the other transactions. -/
structure Frame (s s' : State Token Hash Agent) (t : ℕ) : Prop where
  txs : ∀ {t'}, t' ≠ t → s'.txs t' = s.txs t'
  locks : ∀ {t' i}, t' ≠ t → (s'.locks i = some t' ↔ s.locks i = some t')
  rows : ∀ {i}, s.locks i ≠ some t → s'.rows i = s.rows i
  nextId : s.nextId ≤ s'.nextId

theorem setTx_frame : Frame s (s.setTx t tx) t :=
  ⟨fun h => Function.update_of_ne h _ _, fun _ => Iff.rfl, fun _ => rfl, Nat.le_refl _⟩

variable {rows : ℕ → Option (Row Hash)} {a : Answer Token}

theorem finish_locks : (s.finish t tx rows a).locks i = some t' ↔ s.locks i = some t' ∧ t' ≠ t := by
  simp only [finish]
  split
  · simp_all
  · rename_i h
    constructor
    · intro hi
      exact ⟨hi, fun ht => h (ht ▸ hi)⟩
    · exact And.left

theorem finish_frame (h : ∀ i, s.locks i ≠ some t → rows i = s.rows i) :
    Frame s (s.finish t tx rows a) t :=
  ⟨fun ht => Function.update_of_ne ht _ _, fun ht => by simp [finish_locks, ht], h _, Nat.le_refl _⟩

theorem lock_frame (h : s.locks i = none ∨ s.locks i = some t) :
    Frame s { s.setTx t tx with locks := Function.update s.locks i (some t) } t where
  txs ht := Function.update_of_ne ht _ _
  locks {t' j} ht := by
    by_cases hj : j = i
    · subst hj
      simp only [Function.update_self, Option.some.injEq]
      constructor
      · intro h'
        exact absurd h'.symm ht
      · intro h'
        rcases h with h | h
        · simp [h] at h'
        · exact absurd (Option.some.inj (h'.symm.trans h)) ht
    · simp [Function.update_of_ne hj]
  rows _ := rfl
  nextId := Nat.le_refl _

theorem insert_frame (h : s.Locked) {row : Row Hash} {next : Next Token Hash Agent} :
    Frame s (s.insert t tx row next) t where
  txs ht := Function.update_of_ne ht _ _
  locks {t' i} ht := by
    by_cases hi : i = s.nextId
    · subst hi
      simp only [insert, Function.update_self, Option.some.injEq]
      constructor
      · intro h'
        exact absurd h'.symm ht
      · intro h'
        exact absurd (h.locks h').1 (Nat.lt_irrefl _)
    · simp [insert, Function.update_of_ne hi]
  rows _ := rfl
  nextId := Nat.le_succ _

theorem begin_frame (h : s.begin t env request now = some s') : Frame s s' t := by
  cases request with
  | refresh refreshToken userAgent =>
      obtain rfl := Option.some.inj h
      exact setTx_frame
  | logout refreshToken =>
      cases refreshToken with
      | none =>
          obtain rfl := Option.some.inj h
          exact ⟨fun _ => rfl, fun _ => Iff.rfl, fun _ => rfl, Nat.le_refl _⟩
      | some refreshToken =>
          obtain rfl := Option.some.inj h
          exact setTx_frame
  | issueTokenPair userId =>
      obtain ⟨callsign, _, rfl⟩ := Option.map_eq_some_iff.mp h
      exact ⟨fun ht => Function.update_of_ne ht _ _, fun _ => Iff.rfl, fun _ => rfl, Nat.le_refl _⟩

/-- The bookkeeping holds after a step if it does for the transaction that took it. -/
theorem Locked.next (h : s.Locked) (hf : Frame s s' t)
    (hrows : ∀ {i r}, s'.rows i = some r → i < s'.nextId)
    (hlocks : ∀ {i}, s'.locks i = some t → i < s'.nextId ∧ (s'.txs t).isSome)
    (hwrites : ∀ {tx i w}, s'.txs t = some tx → tx.writes i = some w → s'.locks i = some t) :
    s'.Locked where
  rows := hrows
  locks {i t'} hi := by
    by_cases ht : t' = t
    · subst ht
      exact hlocks hi
    · obtain ⟨hlt, hsome⟩ := h.locks ((hf.locks ht).mp hi)
      exact ⟨Nat.lt_of_lt_of_le hlt hf.nextId, by rwa [hf.txs ht]⟩
  writes {t' tx' i w} htx hw := by
    by_cases ht : t' = t
    · subst ht
      exact hwrites htx hw
    · exact (hf.locks ht).mpr (h.writes (hf.txs ht ▸ htx) hw)

theorem Locked.setTx (h : s.Locked) (hw : ∀ {i w}, tx'.writes i = some w → s.locks i = some t) :
    (s.setTx t tx').Locked := by
  refine h.next setTx_frame h.rows (fun hi => ⟨(h.locks hi).1, by simp [State.setTx]⟩) ?_
  intro tx i w htx
  obtain rfl : tx' = tx := by simpa [State.setTx] using htx
  exact hw

theorem Locked.finish (h : s.Locked) (hrows : ∀ i, s.locks i ≠ some t → rows i = s.rows i) :
    (s.finish t tx rows a).Locked := by
  refine h.next (finish_frame hrows) ?_ ?_ ?_
  · intro i r hi
    by_cases hl : s.locks i = some t
    · exact (h.locks hl).1
    · exact h.rows ((hrows i hl).symm.trans hi)
  · intro i hi
    exact absurd rfl (finish_locks.mp hi).2
  · intro tx i w htx
    simp [State.finish] at htx

theorem Locked.begin (h : s.Locked) (ha : s.begin t env request now = some s') : s'.Locked := by
  cases request with
  | refresh refreshToken userAgent => exact Option.some.inj ha ▸ h.setTx (by simp [Tx.opened])
  | logout refreshToken =>
      cases refreshToken with
      | none => exact Option.some.inj ha ▸ ⟨h.rows, h.locks, h.writes⟩
      | some refreshToken => exact Option.some.inj ha ▸ h.setTx (by simp [Tx.opened])
  | issueTokenPair userId =>
      obtain ⟨callsign, _, rfl⟩ := Option.map_eq_some_iff.mp ha
      have hset : (s.setTx t (.opened (.issueTokenPair userId) now
          (.insertIssued userId callsign (env.randomBytes s.drawn)))).Locked :=
        h.setTx (by simp [Tx.opened])
      exact ⟨hset.rows, hset.locks, hset.writes⟩

theorem Locked.insert (h : s.Locked) (htx : s.txs t = some tx) {row : Row Hash}
    {next : Next Token Hash Agent} : (s.insert t tx row next).Locked := by
  refine h.next (insert_frame h) (fun hi => Nat.lt_succ_of_lt (h.rows hi)) ?_ ?_
  · intro i hi
    refine ⟨?_, by simp [State.insert, State.setTx]⟩
    by_cases hii : i = s.nextId
    · exact hii ▸ Nat.lt_succ_self _
    · exact Nat.lt_succ_of_lt
        (h.locks (by simpa [State.insert, Function.update_of_ne hii] using hi)).1
  · intro tx' i w htx' hw
    by_cases hii : i = s.nextId
    · simp [State.insert, hii]
    · simp only [State.insert, State.setTx, Function.update_self, Option.some.injEq] at htx'
      subst htx'
      simp only [State.insert, Function.update_of_ne hii] at hw ⊢
      exact h.writes htx hw

theorem Locked.visible (h : s.Locked) (htx : s.txs t = some tx) (i : ℕ)
    (hi : s.locks i ≠ some t) : s.visible tx i = s.rows i := by
  cases hw : tx.writes i with
  | none => simp [State.visible, hw]
  | some w => exact absurd (h.writes htx hw) hi

variable [DecidableEq Hash] {todo found : List ℕ}

theorem lockRow_frame {q : Query Hash} {id : ℕ} (h : s.locks id = none ∨ s.locks id = some t) :
    Frame s (s.lockRow t tx env q id todo found) t := by
  unfold lockRow
  split
  · exact setTx_frame
  · split
    · exact lock_frame h
    · exact setTx_frame

theorem Locked.lockRow (h : s.Locked) {q : Query Hash} {id : ℕ} (htx : s.txs t = some tx)
    (hid : s.locks id = none ∨ s.locks id = some t) :
    (s.lockRow t tx env q id todo found).Locked := by
  unfold State.lockRow
  split
  · exact h.setTx fun hw => h.writes htx hw
  · rename_i r hv
    split
    · have hlt : id < s.nextId := by
        cases hw : tx.writes id with
        | none => exact h.rows (by simpa [State.visible, hw] using hv)
        | some w => exact (h.locks (h.writes htx hw)).1
      refine h.next (lock_frame hid) h.rows ?_ ?_
      · intro i hi
        by_cases hii : i = id
        · exact ⟨hii ▸ hlt, by simp [State.setTx]⟩
        · exact ⟨(h.locks (by simpa [Function.update_of_ne hii] using hi)).1, by simp [State.setTx]⟩
      · intro tx' i w htx' hw
        by_cases hii : i = id
        · simp [hii]
        · simp only [State.setTx, Function.update_self, Option.some.injEq] at htx'
          subst htx'
          simp only [Function.update_of_ne hii] at hw ⊢
          exact h.writes htx hw
    · exact h.setTx fun hw => h.writes htx hw

theorem Locked.frame (h : s.Locked) {a : Action Token Agent} (ha : s.step env a = some s') :
    Frame s s' a.tx := by
  cases a with
  | begin t request now => exact begin_frame (step_begin.mp ha).2
  | snapshot t order =>
      obtain ⟨tx, q, _, _, _, _, rfl⟩ := step_snapshot.mp ha
      exact setTx_frame
  | lockRow t =>
      obtain ⟨tx, q, id, todo, found, _, _, _, hc, rfl⟩ := step_lockRow.mp ha
      exact lockRow_frame hc
  | resume t =>
      obtain ⟨tx, q, found, _, _, _, rfl⟩ := step_resume.mp ha
      exact setTx_frame
  | insert t dateNow =>
      obtain ⟨tx, row, next, _, _, rfl⟩ := step_insert.mp ha
      exact insert_frame h
  | commit t reported =>
      obtain ⟨tx, a, htx, _, rfl⟩ := step_commit.mp ha
      exact finish_frame (h.visible htx)
  | rollback t =>
      obtain ⟨tx, a, _, _, rfl⟩ := step_rollback.mp ha
      exact finish_frame fun _ _ => rfl
  | fail t =>
      obtain ⟨tx, _, rfl⟩ := step_fail.mp ha
      exact finish_frame fun _ _ => rfl

theorem Locked.step (h : s.Locked) {a : Action Token Agent} (ha : s.step env a = some s') :
    s'.Locked := by
  cases a with
  | begin t request now => exact h.begin (step_begin.mp ha).2
  | snapshot t order =>
      obtain ⟨tx, q, htx, _, _, _, rfl⟩ := step_snapshot.mp ha
      exact h.setTx fun hw => h.writes htx hw
  | lockRow t =>
      obtain ⟨tx, q, id, todo, found, htx, _, _, hid, rfl⟩ := step_lockRow.mp ha
      exact h.lockRow htx hid
  | resume t =>
      obtain ⟨tx, q, found, htx, _, _, rfl⟩ := step_resume.mp ha
      exact h.setTx fun hw => h.writes htx hw
  | insert t dateNow =>
      obtain ⟨tx, row, next, htx, _, rfl⟩ := step_insert.mp ha
      exact h.insert htx
  | commit t reported =>
      obtain ⟨tx, a, htx, _, rfl⟩ := step_commit.mp ha
      exact h.finish (h.visible htx)
  | rollback t =>
      obtain ⟨tx, a, _, _, rfl⟩ := step_rollback.mp ha
      exact h.finish fun _ _ => rfl
  | fail t =>
      obtain ⟨tx, _, rfl⟩ := step_fail.mp ha
      exact h.finish fun _ _ => rfl

end State

/-! ## What a transaction knows -/

/-- The successor is one the client of `p` gets again. -/
def Row.replayable [DecidableEq Hash] (env : Env Token Hash Agent) (p : Redemption Token Agent)
    (now : ℕ) (s : Row Hash) : Bool :=
  s.live && !s.expired now && s.tokenHash = p.successorHash env

section
variable (env : Env Token Hash Agent) (s : State Token Hash Agent) (t : ℕ)
variable (tx : Tx Token Hash Agent) (p : Redemption Token Agent)

def Redemption.request : Request Token Agent :=
  .refresh p.refreshToken p.userAgent

/-- Row `i` is held, and it is the presented token's and live. -/
structure Presented (i userId : ℕ) (r : Row Hash) : Prop where
  row : s.rows i = some r
  lock : s.locks i = some t
  tokenHash : r.tokenHash = p.tokenHash env
  owner : r.userId = userId
  live : r.live = true

/-- Row `j` is inserted to succeed row `i`, and nothing else is written but the retirement of
row `i`. -/
structure Rotating (i userId j : ℕ) (r : Row Hash) : Prop extends
    Presented env s t p i userId r where
  fresh : s.rows j = none
  inserted : ∃ expiresAt, tx.writes j = some ⟨userId, p.successorHash env, expiresAt, none, none⟩
  others : ∀ {k w}, tx.writes k = some w → k = j ∨ (k = i ∧ w = r.retire tx.now j)

/-- Every row that is written is a live one that is revoked. -/
def Revoking (now : ℕ) (writes : ℕ → Option (Row Hash)) : Prop :=
  ∀ i w, writes i = some w → ∃ r, s.rows i = some r ∧ r.live = true ∧ w = r.revoke now

/-- The presented token has a successor. -/
structure Superseded (i j : ℕ) (r rj : Row Hash) : Prop where
  row : s.rows i = some r
  tokenHash : r.tokenHash = p.tokenHash env
  live : r.live = false
  replacedBy : r.replacedBy = some j
  successor : s.rows j = some rj

/-- The presented token of the user has a successor, and this client does not get it again. -/
def Reused [DecidableEq Hash] (now userId : ℕ) : Prop :=
  ∃ i j r rj, Superseded env s p i j r rj ∧ r.userId = userId ∧
    (r.withinGrace now = true → rj.replayable env p now = false)

/-- The statement is about one row, which is still before it or behind it. -/
def OneRow (i : ℕ) (before behind : Prop) : Prop :=
  ((tx.scan = none ∨ tx.scan = some ⟨[i], []⟩) ∧ before) ∨ (tx.scan = some ⟨[], [i]⟩ ∧ behind)

/-- What `refresh` found where it gives up. -/
inductive Refused : Answer Token → Prop
  | invalid : Refused invalidToken
  | used {i r} : s.rows i = some r → r.tokenHash = p.tokenHash env → r.live = false →
      r.replacedBy = none → Refused alreadyUsed
  | expired {i r} : s.rows i = some r → s.locks i = some t → r.tokenHash = p.tokenHash env →
      r.live = true → Refused tokenExpired

/-- What a transaction is about to commit. -/
inductive Commits [DecidableEq Hash] : Answer Token → Prop
  | rotated (p : Redemption Token Agent) {i j userId r} (callsign : String) :
      tx.request = p.request → Rotating env s t tx p i userId j r →
      tx.writes i = some (r.retire tx.now j) →
      Commits (.tokens userId callsign (p.successorRaw env))
  | replayed (p : Redemption Token Agent) {i j r rj} (userId : ℕ) (callsign : String) :
      tx.request = p.request → (∀ k, tx.writes k = none) → Superseded env s p i j r rj →
      rj.tokenHash = p.successorHash env →
      Commits (.tokens userId callsign (p.successorRaw env))
  | reused (p : Redemption Token Agent) (userId : ℕ) :
      tx.request = p.request → Revoking s tx.now tx.writes → Reused env s p tx.now userId →
      Commits alreadyUsed
  | loggedOut (refreshToken : Token) :
      tx.request = .logout (some refreshToken) → Revoking s tx.now tx.writes → Commits .loggedOut
  | issued {j userId expiresAt} (callsign : String) (refreshToken : Token) :
      tx.request = .issueTokenPair userId → env.callsign userId = some callsign →
      s.rows j = none →
      tx.writes j = some ⟨userId, env.hashRefreshToken refreshToken, expiresAt, none, none⟩ →
      (∀ k w, tx.writes k = some w → k = j) →
      Commits (.tokens userId callsign refreshToken)

/-- What the handler has read and written, by what it does next. -/
def Knows [DecidableEq Hash] : Prop :=
  match tx.next with
  | .selectPresented p =>
      tx.request = p.request ∧ (∀ k, tx.writes k = none) ∧
        ∀ scan, tx.scan = some scan → ∀ x ∈ scan.found, s.locks x = some t ∧
          ∃ r, s.rows x = some r ∧ r.tokenHash = p.tokenHash env
  | .selectSuccessor p userId _ j =>
      tx.request = p.request ∧ (∀ k, tx.writes k = none) ∧ OneRow tx j True (s.locks j = some t) ∧
        ∃ i r rj, Superseded env s p i j r rj ∧ r.userId = userId ∧ rj.userId = userId
  | .insertSuccessor p i userId _ =>
      tx.request = p.request ∧ (∀ k, tx.writes k = none) ∧ tx.scan = none ∧
        ∃ r, Presented env s t p i userId r
  | .retire p i userId _ j =>
      tx.request = p.request ∧ ∃ r, Rotating env s t tx p i userId j r ∧
        OneRow tx i (tx.writes i = none) (tx.writes i = some (r.retire tx.now j))
  | .revokeAll userId => Revoking s tx.now tx.writes ∧
      ∃ p, tx.request = p.request ∧ Reused env s p tx.now userId
  | .logout refreshToken => tx.request = .logout (some refreshToken) ∧ Revoking s tx.now tx.writes
  | .insertIssued userId callsign _ =>
      tx.request = .issueTokenPair userId ∧ env.callsign userId = some callsign ∧
        (∀ k, tx.writes k = none)
  | .commit a => Commits env s t tx a
  | .rollback a => ∃ p, tx.request = p.request ∧ (∀ k, tx.writes k = none) ∧ Refused env s t p a

end

namespace OneRow

variable {tx : Tx Token Hash Agent} {i id : ℕ} {before behind : Prop} {todo found : List ℕ}

theorem unbegun (h : OneRow tx i before behind) (hscan : tx.scan = none) : before := by
  rcases h with h | h
  · exact h.2
  · simp [hscan] at h

theorem ahead (h : OneRow tx i before behind) (hscan : tx.scan = some ⟨id :: todo, found⟩) :
    id = i ∧ todo = [] ∧ found = [] ∧ before := by
  rcases h with ⟨h | h, hb⟩ | h
  · simp [hscan] at h
  · simp only [hscan, Option.some.injEq, Scan.mk.injEq, List.cons.injEq] at h
    exact ⟨h.1.1, h.1.2, h.2, hb⟩
  · simp [hscan] at h

theorem done (h : OneRow tx i before behind) (hscan : tx.scan = some ⟨[], found⟩) :
    found = [i] ∧ behind := by
  rcases h with ⟨h | h, _⟩ | ⟨h, hb⟩
  · simp [hscan] at h
  · simp [hscan] at h
  · simp only [hscan, Option.some.injEq, Scan.mk.injEq, true_and] at h
    exact ⟨h, hb⟩

end OneRow

/-! ## The rest of the system moves on -/

/-- The committed rows move on. -/
def Evolves (s s' : State Token Hash Agent) : Prop :=
  ∀ i r, s.rows i = some r → ∃ r', s'.rows i = some r' ∧ r.Evolves r'

/-- The rows a transaction holds stay held and stay as they are. -/
def Keeps (s s' : State Token Hash Agent) (t : ℕ) : Prop :=
  ∀ i, s.locks i = some t → s'.locks i = some t ∧ s'.rows i = s.rows i

section
variable {s s' : State Token Hash Agent} {t t₀ : ℕ} {tx : Tx Token Hash Agent}
variable {p : Redemption Token Agent} {i j userId now : ℕ} {r rj : Row Hash}

theorem Evolves.retired (h : Evolves s s') (hi : s.rows i = some r) (hr : r.live = false) :
    s'.rows i = some r := by
  obtain ⟨r', hr', he⟩ := h i r hi
  rwa [he.retired hr] at hr'

/-- A row that another transaction holds does not change. -/
theorem State.Frame.keeps (h : State.Frame s s' t₀) (ht : t ≠ t₀) : Keeps s s' t := by
  intro i hi
  refine ⟨(h.locks ht).mpr hi, h.rows ?_⟩
  rw [hi]
  intro h'
  exact ht (Option.some.inj h')

theorem Presented.mono (h : Presented env s t p i userId r) (hf : Keeps s s' t) :
    Presented env s' t p i userId r where
  row := (hf _ h.lock).2.trans h.row
  lock := (hf _ h.lock).1
  tokenHash := h.tokenHash
  owner := h.owner
  live := h.live

theorem Rotating.mono (h : Rotating env s t tx p i userId j r) (hf : Keeps s s' t)
    (hj : s.locks j = some t) : Rotating env s' t tx p i userId j r where
  toPresented := h.toPresented.mono hf
  fresh := (hf _ hj).2.trans h.fresh
  inserted := h.inserted
  others := h.others

theorem Superseded.mono (h : Superseded env s p i j r rj) (he : Evolves s s') :
    ∃ rj', Superseded env s' p i j r rj' ∧ rj.Evolves rj' := by
  obtain ⟨rj', hrj', he'⟩ := he j rj h.successor
  exact ⟨rj', ⟨he.retired h.row h.live, h.tokenHash, h.live, h.replacedBy, hrj'⟩, he'⟩

theorem Revoking.mono (h : Revoking s tx.now tx.writes) (hf : Keeps s s' t)
    (hl : ∀ {i w}, tx.writes i = some w → s.locks i = some t) : Revoking s' tx.now tx.writes := by
  intro i w hw
  obtain ⟨r, hr, h⟩ := h i w hw
  exact ⟨r, (hf _ (hl hw)).2.trans hr, h⟩

theorem Refused.mono {a : Answer Token} (h : Refused env s t p a) (hf : Keeps s s' t)
    (he : Evolves s s') : Refused env s' t p a := by
  cases h with
  | invalid => exact .invalid
  | used hi hh hl hr => exact .used (he.retired hi hl) hh hl hr
  | expired hi hlock hh hl =>
      exact .expired ((hf _ hlock).2.trans hi) ((hf _ hlock).1) hh hl

variable [DecidableEq Hash]

theorem Row.Evolves.replayable {r' : Row Hash} (h : r.Evolves r')
    (hr : r.replayable env p now = false) : r'.replayable env p now = false := by
  cases hl : r.live with
  | false => rwa [h.retired hl]
  | true =>
      cases hl' : r'.live with
      | false => simp [Row.replayable, hl']
      | true =>
          simpa [Row.replayable, hl, hl', Row.expired, h.expiresAt, h.tokenHash] using hr

theorem Reused.mono (h : Reused env s p now userId) (he : Evolves s s') :
    Reused env s' p now userId := by
  obtain ⟨i, j, r, rj, hs, hu, hr⟩ := h
  obtain ⟨rj', hs', he'⟩ := hs.mono he
  exact ⟨i, j, r, rj', hs', hu, fun hg => he'.replayable (hr hg)⟩

theorem Commits.mono {a : Answer Token} (h : Commits env s t tx a) (hf : Keeps s s' t)
    (he : Evolves s s') (hl : ∀ {i w}, tx.writes i = some w → s.locks i = some t) :
    Commits env s' t tx a := by
  cases h with
  | rotated p callsign hreq hr hw =>
      obtain ⟨e, hj⟩ := hr.inserted
      exact .rotated p callsign hreq (hr.mono hf (hl hj)) hw
  | replayed p userId callsign hreq hw hs hj =>
      obtain ⟨rj', hs', he'⟩ := hs.mono he
      exact .replayed p userId callsign hreq hw hs' (he'.tokenHash.trans hj)
  | reused p userId hreq hw hr => exact .reused p userId hreq (hw.mono hf hl) (hr.mono he)
  | loggedOut refreshToken hreq hw => exact .loggedOut refreshToken hreq (hw.mono hf hl)
  | issued callsign refreshToken hreq hc hj hw ho =>
      exact .issued callsign refreshToken hreq hc ((hf _ (hl hw)).2.trans hj) hw ho

/-- What a transaction knows stays true while others take steps. -/
theorem Knows.mono (h : Knows env s t tx) (hf : Keeps s s' t)
    (he : Evolves s s') (hl : ∀ {i w}, tx.writes i = some w → s.locks i = some t) :
    Knows env s' t tx := by
  unfold Knows at h ⊢
  split at h
  · rename_i p hnext
    obtain ⟨hreq, hw, hfound⟩ := h
    refine ⟨hreq, hw, fun scan hscan x hx => ?_⟩
    obtain ⟨hlock, r, hr, hh⟩ := hfound scan hscan x hx
    exact ⟨(hf _ hlock).1, r, (hf _ hlock).2.trans hr, hh⟩
  · rename_i p userId callsign j hnext
    obtain ⟨hreq, hw, hone, i, r, rj, hs, hu, huj⟩ := h
    obtain ⟨rj', hs', he'⟩ := hs.mono he
    refine ⟨hreq, hw, ?_, i, r, rj', hs', hu, he'.userId.trans huj⟩
    exact hone.imp_right (And.imp_right fun hj => (hf _ hj).1)
  · rename_i p i userId callsign hnext
    obtain ⟨hreq, hw, hscan, r, hr⟩ := h
    exact ⟨hreq, hw, hscan, r, hr.mono hf⟩
  · rename_i p i userId callsign j hnext
    obtain ⟨hreq, r, hr, hone⟩ := h
    obtain ⟨e, hj⟩ := hr.inserted
    exact ⟨hreq, r, hr.mono hf (hl hj), hone⟩
  · obtain ⟨hw, p, hreq, hr⟩ := h
    exact ⟨hw.mono hf hl, p, hreq, hr.mono he⟩
  · exact ⟨h.1, h.2.mono hf hl⟩
  · exact h
  · exact h.mono hf he hl
  · obtain ⟨p, hreq, hw, hr⟩ := h
    exact ⟨p, hreq, hw, hr.mono hf he⟩

end

end SpecterComs.RefreshTokens
