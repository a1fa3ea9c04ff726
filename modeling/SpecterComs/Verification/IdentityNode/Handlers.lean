import SpecterComs.Verification.IdentityNode.Rotation

/-! # The handlers keep what they know

Each query, INSERT and decision of a handler, over tables whose rotated rows are all revoked and
have their successor row.
-/

namespace SpecterComs.RefreshTokens

variable {Token Hash Agent : Type*} {env : Env Token Hash Agent}

/-- The row is revoked and its successor `j` is there, of the same user and derived from the
token. -/
def Linked (env : Env Token Hash Agent) (s : State Token Hash Agent) (r : Row Hash) (j : ℕ) : Prop :=
  r.live = false ∧ ∃ rj, s.rows j = some rj ∧ rj.userId = r.userId ∧
    ∃ p : Redemption Token Agent, r.tokenHash = p.tokenHash env ∧ rj.tokenHash = p.successorHash env

/-- Every rotated row has its successor. -/
def Chained (env : Env Token Hash Agent) (s : State Token Hash Agent) : Prop :=
  ∀ {i j r}, s.rows i = some r → r.replacedBy = some j → Linked env s r j

section
variable {s : State Token Hash Agent} {t i j userId : ℕ} {tx : Tx Token Hash Agent}
variable {p : Redemption Token Agent} {r : Row Hash}

theorem State.visible_of_empty (h : ∀ k, tx.writes k = none) (k : ℕ) :
    s.visible tx k = s.rows k := by
  simp [State.visible, h]

theorem Presented.ne (h : Presented env s t p i userId r) (hj : s.rows j = none) : i ≠ j := by
  intro hij
  rw [← hij, h.row] at hj
  cases hj

/-- A row that is revoked by the transaction was live. -/
theorem Revoking.visible_live (h : Revoking s tx.now tx.writes) (hv : s.visible tx i = some r)
    (hr : r.live = true) : tx.writes i = none ∧ s.rows i = some r := by
  cases hw : tx.writes i with
  | none => exact ⟨rfl, by simpa [State.visible, hw] using hv⟩
  | some w =>
      obtain ⟨r', _, _, rfl⟩ := h i w hw
      obtain rfl : r'.revoke tx.now = r := by simpa [State.visible, hw] using hv
      simp at hr

variable {q : Query Hash}

theorem update_empty {id : ℕ} {now : ℕ} (hw : ∀ k, tx.writes k = none) (hq : q.set now r = none)
    (k : ℕ) : Function.update tx.writes id ((q.set now r).or (tx.writes id)) k = none := by
  by_cases hk : k = id
  · subst hk
    simp [hq, hw]
  · simp [Function.update_of_ne hk, hw]

theorem Revoking.revoke (h : Revoking s tx.now tx.writes) {id : ℕ}
    (hv : s.visible tx id = some r) (hl : r.live = true) :
    Revoking s tx.now (Function.update tx.writes id (some (r.revoke tx.now))) := by
  intro k w hw
  by_cases hk : k = id
  · subst hk
    obtain rfl : r.revoke tx.now = w := by simpa using hw
    exact ⟨r, (h.visible_live hv hl).2, hl, rfl⟩
  · exact h k w (by simpa [Function.update_of_ne hk] using hw)

theorem Chained.superseded (hc : Chained env s) (hi : s.rows i = some r)
    (hh : r.tokenHash = p.tokenHash env) (hj : r.replacedBy = some j) :
    ∃ rj, Superseded env s p i j r rj ∧ rj.userId = r.userId := by
  obtain ⟨hl, rj, hrj, hu, _⟩ := hc hi hj
  exact ⟨rj, ⟨hi, hh, hl, hj, hrj⟩, hu⟩

variable [DecidableEq Hash] {order todo found : List ℕ}

theorem State.perm_matching (hi : i < s.nextId)
    (h : ∀ k, (s.visible tx k).any (fun r => q.finds env k r) = true ↔ k = i)
    (hperm : order.Perm (s.matching tx env q)) : order = [i] := by
  have hm : (s.matching tx env q).Perm [i] := by
    refine (List.perm_ext_iff_of_nodup (List.nodup_range.filter _) (List.nodup_singleton i)).mpr ?_
    intro k
    simp only [List.mem_filter, List.mem_range, h, List.mem_singleton,
      and_iff_right_iff_imp]
    intro hk
    exact hk ▸ hi
  exact List.perm_singleton.mp (hperm.trans hm)

/-! ## Queries -/

section
variable {k : ℕ} {w : Row Hash} {h : Hash}

theorem Query.finds_presented : (Query.presented h).finds env k w = true ↔
    w.tokenHash = h ∧ (env.callsign w.userId).isSome := by
  simp [Query.finds]

theorem Query.finds_revokeAll :
    (Query.revokeAll userId).finds env k w = true ↔ w.userId = userId ∧ w.live = true := by
  simp [Query.finds]

theorem Query.finds_retire :
    (Query.retire j i).finds env k w = true ↔ k = i ∧ w.live = true := by
  simp [Query.finds]

theorem Query.finds_revoke :
    (Query.revoke h).finds env k w = true ↔ w.tokenHash = h ∧ w.live = true := by
  simp [Query.finds]

end

theorem Rotating.visible (h : Rotating env s t tx p i userId j r) (hi : tx.writes i = none) (k : ℕ) :
    (s.visible tx k).any (fun w => (Query.retire j i).finds env k w) = true ↔ k = i := by
  simp only [Option.any_eq_true, Query.finds_retire]
  constructor
  · intro hk
    obtain ⟨w, _, hk, _⟩ := hk
    exact hk
  · intro hk
    subst hk
    exact ⟨r, by simp [State.visible, hi, h.row], rfl, h.live⟩

/-- The snapshot of a query. -/
theorem Knows.snapshot (h : Knows env s t tx) (hlocked : s.Locked)
    (hq : tx.next.query env = some q) (hscan : tx.scan = none)
    (hperm : order.Perm (s.matching tx env q)) :
    Knows env s t { tx with scan := some ⟨order, []⟩ } := by
  unfold Knows at h ⊢
  split at h <;> rename_i hnext <;>
    simp only [hnext, Next.query, Option.some.injEq, reduceCtorEq] at hq ⊢
  · obtain ⟨hreq, hw, hfound⟩ := h
    exact ⟨hreq, hw, by simp⟩
  · rename_i p userId callsign j
    obtain ⟨hreq, hw, hone, i, r, rj, hs, hu⟩ := h
    subst hq
    have horder : order = [j] := by
      refine State.perm_matching (hlocked.rows hs.successor) (fun k => ?_) hperm
      simp only [Option.any_eq_true]
      constructor
      · intro hk
        obtain ⟨w, _, hk⟩ := hk
        simpa [Query.finds] using hk
      · intro hk
        subst hk
        simp [State.visible_of_empty hw, hs.successor, Query.finds]
    subst horder
    exact ⟨hreq, hw, .inl ⟨.inr rfl, trivial⟩, i, r, rj, hs, hu⟩
  · rename_i p i userId callsign j
    obtain ⟨hreq, r, hr, hone⟩ := h
    subst hq
    have hi := hone.unbegun hscan
    obtain rfl := State.perm_matching (hlocked.rows hr.row) (hr.visible hi) hperm
    exact ⟨hreq, r, ⟨hr.toPresented, hr.fresh, hr.inserted, hr.others⟩, .inl ⟨.inr rfl, hi⟩⟩
  · exact h
  · exact h

/-- A row that the query does not find any more is passed over. -/
theorem Knows.pass (h : Knows env s t tx) {id : ℕ} (hq : tx.next.query env = some q)
    (hscan : tx.scan = some ⟨id :: todo, found⟩)
    (hpass : ∀ w, s.visible tx id = some w → q.finds env id w = false) :
    Knows env s t { tx with scan := some ⟨todo, found⟩ } := by
  unfold Knows at h ⊢
  split at h <;> rename_i hnext <;>
    simp only [hnext, Next.query, Option.some.injEq, reduceCtorEq] at hq ⊢
  · obtain ⟨hreq, hw, hfound⟩ := h
    refine ⟨hreq, hw, fun scan hs x hx => hfound _ hscan x ?_⟩
    obtain rfl : _ = scan := hs
    exact hx
  · rename_i p userId callsign j
    obtain ⟨hreq, hw, hone, i, r, rj, hs, hu⟩ := h
    subst hq
    -- the successor row is there, so it is not passed over
    obtain ⟨rfl, _⟩ := hone.ahead hscan
    have := hpass rj (by rw [State.visible_of_empty hw, hs.successor])
    simp [Query.finds] at this
  · rename_i p i userId callsign j
    obtain ⟨hreq, r, hr, hone⟩ := h
    subst hq
    obtain ⟨rfl, _, _, hi⟩ := hone.ahead hscan
    have := hpass r (by simp [State.visible, hi, hr.row])
    simp [Query.finds, hr.live] at this
  · exact h
  · exact h

/-- A row is locked and, by an UPDATE, written. -/
theorem Knows.lock (h : Knows env s t tx) {id : ℕ} (hq : tx.next.query env = some q)
    (hscan : tx.scan = some ⟨id :: todo, found⟩) (hv : s.visible tx id = some r)
    (hf : q.finds env id r = true) (hlock : s.locks id = some t) :
    Knows env s t
      { tx with
        scan := some ⟨todo, found ++ [id]⟩
        writes := Function.update tx.writes id ((q.set tx.now r).or (tx.writes id)) } := by
  unfold Knows at h ⊢
  split at h <;> rename_i hnext <;>
    simp only [hnext, Next.query, Option.some.injEq, reduceCtorEq] at hq ⊢
  · rename_i p
    obtain ⟨hreq, hw, hfound⟩ := h
    subst hq
    refine ⟨hreq, update_empty hw rfl, fun scan hs x hx => ?_⟩
    obtain rfl : _ = scan := hs
    rcases List.mem_append.mp hx with hx | hx
    · exact hfound _ hscan x hx
    · obtain rfl := List.mem_singleton.mp hx
      rw [State.visible_of_empty hw] at hv
      exact ⟨hlock, r, hv, (Query.finds_presented.mp hf).1⟩
  · rename_i p userId callsign j
    obtain ⟨hreq, hw, hone, i, ri, rj, hs, hu⟩ := h
    subst hq
    obtain ⟨rfl, rfl, rfl, _⟩ := hone.ahead hscan
    exact ⟨hreq, update_empty hw rfl, .inr ⟨rfl, hlock⟩, i, ri, rj, hs, hu⟩
  · rename_i p i userId callsign j
    obtain ⟨hreq, ri, hr, hone⟩ := h
    subst hq
    obtain ⟨rfl, rfl, rfl, hi⟩ := hone.ahead hscan
    obtain rfl : ri = r := by simpa [State.visible, hi, hr.row] using hv
    have hne : j ≠ id := (hr.toPresented.ne hr.fresh).symm
    refine ⟨hreq, ri, ⟨hr.toPresented, hr.fresh, ?_, ?_⟩, .inr ⟨rfl, by simp [Query.set]⟩⟩
    · obtain ⟨e, hj⟩ := hr.inserted
      exact ⟨e, by simp [Function.update_of_ne hne, hj]⟩
    · intro k w hw
      by_cases hk : k = id
      · subst hk
        simp only [Query.set, Option.some_or, Function.update_self, Option.some.injEq] at hw
        exact .inr ⟨rfl, hw.symm⟩
      · exact hr.others (by simpa [Function.update_of_ne hk] using hw)
  · obtain ⟨hw, hr⟩ := h
    subst hq
    exact ⟨hw.revoke hv (Query.finds_revokeAll.mp hf).2, hr⟩
  · obtain ⟨hreq, hw⟩ := h
    subst hq
    exact ⟨hreq, hw.revoke hv (Query.finds_revoke.mp hf).2⟩

/-! ## Decisions -/

/-- `refresh` with the presented row. -/
theorem knows_redeem (hc : Chained env s) (hreq : tx.request = p.request)
    (hw : ∀ k, tx.writes k = none) (hi : s.rows i = some r) (hlock : s.locks i = some t)
    (hh : r.tokenHash = p.tokenHash env) (callsign : String) :
    Knows env s t { tx with next := redeem tx.now p i r callsign, scan := none } := by
  have hrevoking : Revoking s tx.now tx.writes := by
    intro k w hk
    simp [hw] at hk
  unfold redeem
  split
  · rename_i hl
    split
    · exact ⟨p, hreq, hw, .expired hi hlock hh hl⟩
    · exact ⟨hreq, hw, rfl, r, ⟨hi, hlock, hh, rfl, hl⟩⟩
  · rename_i hl
    have hl : r.live = false := by simpa using hl
    split
    · rename_i hr
      exact ⟨p, hreq, hw, .used hi hh hl hr⟩
    · rename_i j hr
      obtain ⟨rj, hs, hu⟩ := hc.superseded hi hh hr
      split
      · exact ⟨hreq, hw, .inl ⟨.inl rfl, trivial⟩, i, r, rj, hs, rfl, hu⟩
      · rename_i hg
        exact ⟨hrevoking, p, hreq, i, j, r, rj, hs, rfl, fun hg' => absurd hg' hg⟩

/-- The benign-retry path with the successor row. -/
theorem knows_replay {ri rj : Row Hash} (hs : Superseded env s p i j ri rj)
    (hreq : tx.request = p.request) (hw : ∀ k, tx.writes k = none) (hu : ri.userId = userId)
    (huj : rj.userId = userId) (callsign : String) :
    Knows env s t { tx with next := replay env tx.now p userId callsign rj, scan := none } := by
  unfold replay
  split
  · rename_i hr
    simp only [Bool.and_eq_true, decide_eq_true_eq] at hr
    exact .replayed p userId callsign hreq hw hs hr.2
  · rename_i hr
    refine ⟨fun k w hk => by simp [hw] at hk, p, hreq, i, j, ri, rj, hs, hu, fun _ => ?_⟩
    simpa [Row.replayable, huj] using hr

/-- What the handler does with the rows of its query. -/
theorem Knows.resume (h : Knows env s t tx) (hc : Chained env s) (hq : tx.next.query env = some q)
    (hscan : tx.scan = some ⟨[], found⟩) :
    Knows env s t
      { tx with
        next := tx.next.resume env tx.now
          (found.filterMap fun id => (s.visible tx id).map fun r => (id, r))
        scan := none } := by
  unfold Knows at h
  split at h <;> rename_i hnext <;>
    simp only [hnext, Next.query, Next.resume, Option.some.injEq, reduceCtorEq] at hq ⊢
  · rename_i p
    obtain ⟨hreq, hw, hfound⟩ := h
    split
    · exact ⟨p, hreq, hw, .invalid⟩
    · rename_i id r rest hrows
      have hmem : (id, r) ∈ found.filterMap fun id => (s.visible tx id).map fun r => (id, r) := by
        rw [hrows]
        exact List.mem_cons_self
      simp only [List.mem_filterMap, Option.map_eq_some_iff, Prod.mk.injEq] at hmem
      obtain ⟨id', hid, r', hv, rfl, rfl⟩ := hmem
      obtain ⟨hlock, r'', hr, hh⟩ := hfound _ hscan _ hid
      rw [State.visible_of_empty hw, hr] at hv
      obtain rfl := Option.some.inj hv
      exact knows_redeem hc hreq hw hr hlock hh _
  · rename_i p userId callsign j
    obtain ⟨hreq, hw, hone, i, ri, rj, hs, hu, huj⟩ := h
    obtain ⟨rfl, _⟩ := hone.done hscan
    simp only [State.visible_of_empty hw, List.filterMap_cons, hs.successor, Option.map_some]
    exact knows_replay hs hreq hw hu huj callsign
  · rename_i p i userId callsign j
    obtain ⟨hreq, r, hr, hone⟩ := h
    obtain ⟨rfl, hi⟩ := hone.done hscan
    -- the row lock holds, so the guard on the row count is met
    simp only [State.visible, hi, List.filterMap_cons, Option.some_or, Option.map_some,
      List.filterMap_nil, List.length_singleton, if_true]
    exact .rotated p callsign hreq ⟨hr.toPresented, hr.fresh, hr.inserted, hr.others⟩ hi
  · obtain ⟨hw, p, hreq, hr⟩ := h
    exact .reused p _ hreq hw hr
  · obtain ⟨hreq, hw⟩ := h
    exact .loggedOut _ hreq hw

/-- An INSERT. -/
theorem Knows.insert (h : Knows env s t tx) {dateNow : ℕ} {row : Row Hash}
    {next : Next Token Hash Agent} (hins : State.Inserts env j dateNow tx.next row next)
    (hj : s.rows j = none) :
    Knows env s t { tx with next, writes := Function.update tx.writes j (some row) } := by
  unfold Knows at h
  generalize hn : tx.next = n at hins h
  cases hins with
  | successor p i userId callsign =>
      obtain ⟨hreq, hw, hscan, r, hr⟩ := h
      have hne : i ≠ j := hr.ne hj
      refine ⟨hreq, r, ⟨hr, hj, ⟨_, Function.update_self _ _ _⟩, ?_⟩, .inl ⟨.inl hscan, ?_⟩⟩
      · intro k w hk
        by_cases hkj : k = j
        · exact .inl hkj
        · simp [Function.update_of_ne hkj, hw] at hk
      · simp [Function.update_of_ne hne, hw]
  | issued userId callsign refreshToken =>
      obtain ⟨hreq, hcs, hw⟩ := h
      refine .issued callsign refreshToken hreq hcs hj (Function.update_self _ _ _) fun k w hk => ?_
      by_contra hkj
      simp [Function.update_of_ne hkj, hw] at hk

end

end SpecterComs.RefreshTokens
