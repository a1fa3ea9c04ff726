import SpecterComs.Verification.MlsSession.Durability

/-! # Saves that fail after the account has switched

The writer does not look at `sessionGen` after its await: whoever the bytes were of, a
save that fails rejects every waiter there is and, where Rust refuses the account, resets
the session that is bound now. What that does is read off the session it returns to.
-/

namespace SpecterComs.MlsSession

variable {State : Type} {C : Crypto State} {s t : Session C} {codec : Codec} {message : String}

/-! ## What a save may do -/

/-- A save of another session's bytes, in flight as the `k`-th. -/
def Session.StaleSave (s : Session C) (k : ℕ) : Prop :=
  ∃ save, s.inFlight[k]? = some save ∧ save.gen ≠ s.sessionGen

/-- The waiter is the running lock work's, of the session that is bound now. -/
def Session.Registered (s : Session C) (w : Waiter) : Prop :=
  w ∈ s.durableWaiters ∧
    ∃ h, s.holder = some h ∧ h.ticket = some w.ticket ∧ h.gen = s.sessionGen

/-- The account of `s` notices nothing: its state, its session and its promises stay. -/
structure Unharmed (s t : Session C) : Prop where
  cache : t.deviceStateCache = s.deviceStateCache
  session : s.boundUserId ≠ none →
    t.sessionGen = s.sessionGen ∧ t.boundUserId = s.boundUserId
  waiters : ∀ w, s.Registered w → ∀ error, t.promises w.ticket ≠ some (.error error)

/-- A save of another session's bytes that fails harms nobody. -/
def StaleFailureStays (s : Session C) : Input State → Session C → Prop
  | .saveReturned k (.error _), t => s.StaleSave k → Unharmed s t
  | _, _ => True

/-- Nobody waits for the disk, and no account is there to be reset. -/
structure NothingAtStake (s : Session C) (message : String) : Prop where
  waiters : s.durableWaiters = []
  reset : Session.isStaleAccount message = true → s.boundUserId = none ∧ s.deviceStateCache = none

def StaleFailureMeets (s : Session C) : Input State → Prop
  | .saveReturned k (.error message) => s.StaleSave k → NothingAtStake s message
  | _ => True

/-! ## One failing save -/

theorem saveRejected_stale (hstale : Session.isStaleAccount message = true) :
    (s.saveRejected message).deviceStateCache = none ∧
      (s.saveRejected message).boundUserId = none := by
  simp only [Session.saveRejected, if_pos hstale]
  exact ⟨rfl, rfl⟩

theorem saveRejected_fresh (hfresh : Session.isStaleAccount message = false) :
    (s.saveRejected message).deviceStateCache = s.deviceStateCache ∧
      (s.saveRejected message).sessionGen = s.sessionGen ∧
      (s.saveRejected message).boundUserId = s.boundUserId := by
  simp only [Session.saveRejected, hfresh, Bool.false_eq_true, if_false]
  exact ⟨rfl, rfl, rfl⟩

/-- A reset that finds no waiter rejects none. -/
theorem resetForUser_promises (hnone : s.durableWaiters = []) (user : Option UserId) :
    (s.resetForUser user).promises = s.promises := by
  funext ticket
  simp [Session.resetForUser, Session.settle, Session.assign, hnone]

/-- Whatever the error is, every waiter is rejected. -/
theorem saveRejected_waiter (message : String) {w : Waiter} (hw : w ∈ s.durableWaiters) :
    ∃ error, (s.saveRejected message).promises w.ticket = some (.error error) := by
  have hmem : w.ticket ∈ s.durableWaiters.map Waiter.ticket := List.mem_map_of_mem hw
  refine ⟨.other message, ?_⟩
  cases hstale : Session.isStaleAccount message with
  | false =>
      simp only [Session.saveRejected, hstale, Bool.false_eq_true, if_false]
      exact if_pos hmem
  | true =>
      simp only [Session.saveRejected, hstale, if_true]
      rw [resetForUser_promises rfl]
      exact if_pos hmem

/-- A failing save leaves the session unharmed exactly if nobody waits and, where it
resets, no account is there. -/
theorem saveRejected_unharmed_iff (hs : s.OnDisk) (inFlight : List (Save State)) :
    Unharmed s (Session.saveRejected { s with inFlight } message) ↔ NothingAtStake s message := by
  let returned : Session C := { s with inFlight }
  constructor
  · intro h
    constructor
    · rw [List.eq_nil_iff_forall_not_mem]
      intro w hw
      obtain ⟨error, herror⟩ := saveRejected_waiter (s := returned) message hw
      obtain ⟨holder, hholder, hticket, hgen, -⟩ := hs.held w hw
      exact h.waiters w ⟨hw, holder, hholder, hticket, hgen⟩ error herror
    · intro hstale
      obtain ⟨hcache, hbound⟩ := saveRejected_stale (s := returned) hstale
      constructor
      · by_contra hne
        exact hne ((h.session hne).2.symm.trans hbound)
      · exact h.cache.symm.trans hcache
  · intro h
    have hwaiters : ∀ w, s.Registered w → ∀ error,
        (returned.saveRejected message).promises w.ticket ≠ some (.error error) := by
      intro w hw
      have hmem := hw.1
      rw [h.waiters] at hmem
      cases hmem
    cases hstale : Session.isStaleAccount message with
    | false =>
        obtain ⟨hcache, hgen, hbound⟩ := saveRejected_fresh (s := returned) hstale
        exact ⟨hcache, fun _ => ⟨hgen, hbound⟩, hwaiters⟩
    | true =>
        obtain ⟨hnone, hempty⟩ := h.reset hstale
        have hcache := (saveRejected_stale (s := returned) hstale).1
        exact ⟨hcache.trans hempty.symm, fun hne => absurd hnone hne, hwaiters⟩

theorem staleFailure_step (hs : s.OnDisk) {input : Input State}
    (hstep : s.step codec true input = some t) :
    StaleFailureStays s input t ↔ StaleFailureMeets s input := by
  cases input with
  | saveReturned k result =>
      cases result with
      | ok _ => exact Iff.rfl
      | error message =>
          have hunharmed : ∀ save, s.inFlight[k]? = some save →
              (Unharmed s t ↔ NothingAtStake s message) := by
            intro save hsave
            simp only [Session.step, Session.saveReturned, hsave] at hstep
            rw [← Option.some.inj hstep]
            exact saveRejected_unharmed_iff hs _
          constructor
          · rintro h ⟨save, hsave, hgen⟩
            exact (hunharmed save hsave).mp (h ⟨save, hsave, hgen⟩)
          · rintro h ⟨save, hsave, hgen⟩
            exact (hunharmed save hsave).mpr (h ⟨save, hsave, hgen⟩)
  | _ => exact Iff.rfl

/-! ## Runs -/

/-- For every order of calls, resets, replies and saves of the desktop app: the failing
saves of earlier sessions all stay without effect on the account that is bound exactly if
each of them comes back while nobody waits for the disk, and with no account there to be
reset if it is Rust that refuses the account. -/
theorem stale_failures_stay_iff (codec : Codec) (deviceIds : Option UserId → Option DeviceId)
    (inputs : List (Input State)) :
    (∀ s input t, (session C codec true).Passes (.start C deviceIds) inputs s input t →
        StaleFailureStays s input t) ↔
      ∀ s input t, (session C codec true).Passes (.start C deviceIds) inputs s input t →
        StaleFailureMeets s input := by
  have hstep : ∀ (s : Session C) (input : Input State) (t : Session C), s.Inv ∧ s.OnDisk →
      (session C codec true).step s input = some t →
        (StaleFailureStays s input t ↔ StaleFailureMeets s input) ∧
          (StaleFailureMeets s input → t.Inv ∧ t.OnDisk) := by
    rintro s input t ⟨hinv, hdisk⟩ hstep
    exact ⟨staleFailure_step hdisk hstep, fun _ => ⟨hinv.step hstep, hdisk.step hinv hstep⟩⟩
  exact StepSystem.passes_iff hstep
    ⟨Session.inv_start deviceIds, Session.onDisk_start deviceIds⟩ inputs

namespace OneGroup

/-- The save of user `u` is on its way when user `v` signs in, loads its own state and
commits to it. -/
def switchedDuringSave : List (Input OneGroup) :=
  signedIn ++ caughtUp ++
    [.call (some "v") routes (.syncChannelGroupEpoch "o" name), .advance 1,
      .loaded 1 (.ok (some ⟨"v:d2", some [firstCommit], 0⟩)) uuid 0, .resume, .advance 1,
      .advance 1, .reply 1 twoCommits, .advance 1, .lockNext 0]

/-- Rust refuses it, and user `v` loses the state and the session. -/
def staleRefusal : Input OneGroup :=
  .saveReturned 0 (.error "MLS_ACCOUNT_MISMATCH: this state belongs to another account")

theorem stale_failure_resets_current :
    ¬ ∀ (inputs : List (Input OneGroup)) (s : Session crypto) input t,
      (session crypto OneGroup.codec true).Passes (.start crypto noDeviceIds) inputs s input t →
        StaleFailureStays s input t := by
  intro h
  obtain ⟨t, hexec⟩ := Option.isSome_iff_exists.mp
    (show (after true (switchedDuringSave ++ [staleRefusal])).isSome = true by decide)
  obtain ⟨s, hrun, hlast⟩ := (StepSystem.exec_eq_some_iff.mp hexec).split
  have hpasses : (session crypto OneGroup.codec true).Passes (.start crypto noDeviceIds)
      (switchedDuringSave ++ [staleRefusal]) s staleRefusal t := by
    cases hlast with
    | cons hstep hnil =>
        cases hnil
        exact ⟨switchedDuringSave, [], rfl, hrun, hstep⟩
  have hbefore : (s.inFlight.map Save.gen, s.sessionGen, s.boundUserId) = ([0], 1, some "v") := by
    have hmap : ((after true switchedDuringSave).map fun s =>
        (s.inFlight.map Save.gen, s.sessionGen, s.boundUserId)) = some ([0], 1, some "v") := by
      decide
    rw [after, StepSystem.exec_eq_some_iff.mpr hrun] at hmap
    exact Option.some.inj hmap
  have hafter : t.sessionGen = 2 := by
    have hmap : ((after true (switchedDuringSave ++ [staleRefusal])).map fun t => t.sessionGen) =
        some 2 := by
      decide
    rw [hexec] at hmap
    exact Option.some.inj hmap
  simp only [Prod.mk.injEq] at hbefore
  obtain ⟨hflight, hgen, hbound⟩ := hbefore
  obtain ⟨save, rest, hcons, hsave, -⟩ := List.map_eq_cons_iff.mp hflight
  have hstale : s.StaleSave 0 := by
    refine ⟨save, by rw [hcons]; rfl, ?_⟩
    rw [hsave, hgen]
    decide
  have hunharmed : Unharmed s t := h _ s staleRefusal t hpasses hstale
  have hkept := (hunharmed.session (by rw [hbound]; exact Option.some_ne_none "v")).1
  omega

end OneGroup

end SpecterComs.MlsSession
