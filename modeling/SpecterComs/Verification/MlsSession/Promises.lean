import SpecterComs.Verification.MlsSession.Accounts
import SpecterComs.Verification.MlsSession.Disk

/-! # What lock work may rely on

Work that awaits a promise is told so only when its version is on disk. A save that
succeeds, a save that fails and a reset all keep it that way.
-/

namespace SpecterComs.MlsSession

variable {State : Type} {C : Crypto State} {codec : Codec} {s t : Session C} {h : Holder State}

/-! ## Lock work and the disk -/

/-- The version whose durability the work awaits. -/
def Holder.due (h : Holder State) : ℕ :=
  (h.committed.map Committed.version).getD h.version

/-- The state and the ciphertext are one encryption's, of the state the work has read. -/
def Holder.Encrypted (C : Crypto State) (h : Holder State) (state : State) (bytes : Bytes) :
    Prop :=
  ∃ base seed groupId plaintext, h.base = some base ∧
    C.encrypt seed base.state groupId plaintext = .ok (state, bytes)

/-- The work returns a ciphertext only with the commit of its encryption. -/
def Holder.Sends (C : Crypto State) (h : Holder State) : Finish State → Prop
  | .returned (.ciphertext bytes) => ∃ c, h.committed = some c ∧ h.Encrypted C c.state bytes
  | .commitState _ (.ciphertext _) => False
  | .merge _ (.ciphertext _) => False
  | .commitDurable state (.ciphertext bytes) => h.Encrypted C state bytes
  | _ => True

theorem Holder.sends_of_sound {base : Cell State} (hbase : h.base = some base) {f : Finish State}
    (hf : f.Sound C base.state) : h.Sends C f := by
  have hsends := hf.sends
  cases f with
  | returned result =>
      cases result with
      | ciphertext bytes => exact hsends.elim
      | _ => trivial
  | thrown error => trivial
  | commitState state result =>
      cases result with
      | ciphertext bytes => exact hsends.elim
      | _ => trivial
  | commitDurable state result =>
      cases result with
      | ciphertext bytes =>
          obtain ⟨seed, groupId, plaintext, hencrypt⟩ := hsends
          exact ⟨base, seed, groupId, plaintext, hbase, hencrypt⟩
      | _ => trivial
  | merge state result =>
      cases result with
      | ciphertext bytes => exact hsends.elim
      | _ => trivial

/-- What the running work may rely on. -/
structure Relies (C : Crypto State) (d : Disk State) (h : Holder State) : Prop where
  ticketed : ∀ ticket, h.ticket = some ticket → ticket < d.nextTicket ∧
    (d.promises ticket = some (.ok ()) → d.Holds h.gen h.due)
  running : h.ticket = none → h.committed = none ∧ d.Holds h.gen h.version
  returning : h.committed ≠ none → ∃ f, h.rest = .ret f
  sends : h.rest.Returns (h.Sends C)

/-- What lock work that settled had on disk. -/
structure Settled.OnDisk (C : Crypto State) (d : Disk State) (e : Settled State) : Prop where
  holds : ∀ r c, e.result = .ok r → e.work.committed = some c → d.Holds e.work.gen c.version
  ciphertext : ∀ bytes, e.result = .ok (.ciphertext bytes) →
    ∃ c, e.work.committed = some c ∧ e.work.Encrypted C c.state bytes

variable {d d' : Disk State}

/-- The disk keeps what it holds. -/
def Disk.Grows (d d' : Disk State) : Prop :=
  d.saved ⊆ d'.saved ∧ d.loads ⊆ d'.loads

theorem Disk.Grows.refl (d : Disk State) : d.Grows d :=
  ⟨List.Subset.refl _, List.Subset.refl _⟩

theorem Disk.Holds.later {gen version : ℕ} (h : d.Holds gen version) (hd : d.Grows d') :
    d'.Holds gen version :=
  h.mono (fun _ hsave => hd.1 hsave) fun _ hload => hd.2 hload

theorem Settled.OnDisk.later {e : Settled State} (h : e.OnDisk C d) (hd : d.Grows d') :
    e.OnDisk C d' where
  holds r c hr hc := (h.holds r c hr hc).later hd
  ciphertext := h.ciphertext

theorem Relies.later (hr : Relies C d h) (hd : d.Grows d') (htickets : d.nextTicket ≤ d'.nextTicket)
    (hpromises : ∀ ticket, h.ticket = some ticket → d'.promises ticket = some (.ok ()) →
      d.promises ticket = some (.ok ()) ∨ d'.Holds h.gen h.due) : Relies C d' h where
  ticketed ticket hticket := by
    obtain ⟨hlt, hholds⟩ := hr.ticketed ticket hticket
    refine ⟨hlt.trans_le htickets, fun hok => ?_⟩
    rcases hpromises ticket hticket hok with hold | hnow
    · exact (hholds hold).later hd
    · exact hnow
  running hnone := ⟨(hr.running hnone).1, (hr.running hnone).2.later hd⟩
  returning := hr.returning
  sends := hr.sends

namespace Session

/-! ## The invariant -/

/-- What was sent from this device, and what its lock work returned. -/
structure Told (s : Session C) : Prop where
  submitted : ∀ h ∈ s.submitted, s.disk.Holds h.gen h.version
  settled : ∀ e ∈ s.settled, e.OnDisk C s.disk

structure OnDisk (s : Session C) : Prop where
  stored : Stored s.disk s.writerActive
  told : s.Told
  /-- Only the running lock work waits for the disk. -/
  held : ∀ w ∈ s.durableWaiters, ∃ h, s.holder = some h ∧ h.ticket = some w.ticket ∧
    h.gen = s.sessionGen ∧ h.due = w.version
  relies : ∀ h, s.holder = some h → Relies C s.disk h

/-- The session while lock work runs from one await to the next. -/
structure Between (s : Session C) : Prop where
  stored : Stored s.disk s.writerActive
  told : s.Told
  waiters : s.durableWaiters = []

theorem Told.later (hs : s.Told) (hd : s.disk.Grows t.disk) (hsubmitted : t.submitted = s.submitted)
    (hsettled : t.settled = s.settled) : t.Told where
  submitted h hh := (hs.submitted h (hsubmitted ▸ hh)).later hd
  settled e he := (hs.settled e (hsettled ▸ he)).later hd

/-- Other variables do not matter. -/
theorem OnDisk.frame (hs : s.OnDisk) (hdisk : t.disk = s.disk)
    (hactive : t.writerActive = s.writerActive) (hholder : t.holder = s.holder)
    (hsubmitted : t.submitted = s.submitted) (hsettled : t.settled = s.settled) : t.OnDisk where
  stored := by
    rw [hdisk, hactive]
    exact hs.stored
  told := hs.told.later (hdisk ▸ .refl _) hsubmitted hsettled
  held w hw := by
    have hwaiters : t.durableWaiters = s.durableWaiters := congrArg Disk.durableWaiters hdisk
    have hgen : t.sessionGen = s.sessionGen := congrArg Disk.sessionGen hdisk
    rw [hholder, hgen]
    exact hs.held w (hwaiters ▸ hw)
  relies h hh := by
    rw [hdisk]
    exact hs.relies h (hholder ▸ hh)

theorem onDisk_start (deviceIds : Option UserId → Option DeviceId) :
    (start C deviceIds).OnDisk where
  stored := stored_start deviceIds
  told :=
    { submitted h hh := by cases hh
      settled e he := by cases he }
  held w hw := by cases hw
  relies h hh := by cases hh

/-- Work without a promise to await leaves nobody waiting. -/
theorem OnDisk.between (hs : s.OnDisk)
    (hticket : ∀ h ticket, s.holder = some h → h.ticket = some ticket →
      s.promises ticket ≠ none) : s.Between where
  stored := hs.stored
  told := hs.told
  waiters := by
    rw [List.eq_nil_iff_forall_not_mem]
    intro w hw
    obtain ⟨h, hholder, hh, -, -⟩ := hs.held w hw
    exact hticket h w.ticket hholder hh (hs.stored.waiting.tickets w hw).2

/-! ## Saves -/

theorem OnDisk.resetForUser (hs : s.OnDisk) (user : Option UserId) :
    (s.resetForUser user).OnDisk where
  stored := stored_resetForUser hs.stored user
  told := hs.told.later (.refl _) rfl rfl
  held w hw := by cases hw
  relies h hh := by
    refine (hs.relies h hh).later (.refl _) (Nat.le_refl _) fun ticket _ hok => .inl ?_
    rcases settle_promises (s := s) s.durableWaiters hok with ⟨herror, -⟩ | hold
    · cases herror
    · exact hold

variable {k : ℕ} {save : Save State}

/-- The save that a writer awaits is the one in flight. -/
theorem OnDisk.single (hs : s.OnDisk) (hk : s.inFlight[k]? = some save) :
    s.inFlight = [save] ∧ s.inFlight.eraseIdx k = [] ∧ s.writerActive = true := by
  have hone := hs.stored.one
  change s.inFlight.length ≤ 1 at hone
  have hlt := (List.getElem?_eq_some_iff.mp hk).1
  obtain ⟨x, hx⟩ := List.length_eq_one_iff.mp (show s.inFlight.length = 1 by omega)
  obtain rfl : k = 0 := by omega
  rw [hx] at hk
  obtain rfl : x = save := by simpa using hk
  refine ⟨hx, by rw [hx]; rfl, hs.stored.active.mpr ?_⟩
  change s.inFlight ≠ []
  simp [hx]

theorem OnDisk.saveRejected (hs : s.OnDisk) (hk : s.inFlight[k]? = some save) (message : String) :
    (Session.saveRejected { s with inFlight := s.inFlight.eraseIdx k } message).OnDisk := by
  obtain ⟨hsingle, herase, -⟩ := hs.single hk
  have hw := hs.stored.waiting
  rw [herase]
  let u : Session C := settle { s with
    inFlight := []
    durableWaiters := []
    durableWanted := s.durableVersion } s.durableWaiters (.error (.other message))
  have hu : ({ u with writerActive := false } : Session C).OnDisk := by
    refine ⟨⟨⟨hw.durable_le, ?_, ?_, ?_, fun _ => rfl, ?_, ?_, hw.current, hw.resolved, hw.sent_le,
      hw.ordered, ?_⟩, ?_, ?_, fun _ => rfl⟩, hs.told.later (.refl _) rfl rfl, ?_, ?_⟩
    · intro save hsave
      cases hsave
    · intro w hmem
      cases hmem
    · intro hlt
      exact absurd hlt (Nat.lt_irrefl _)
    · intro w hmem
      cases hmem
    · intro ticket hle
      exact settle_fresh (s := s) hw (fun _ hmem => hmem) hle
    · exact (List.sublist_append_right s.inFlight s.saved).trans hw.saved
    · exact Nat.zero_le _
    · change false = true ↔ ([] : List (Save State)) ≠ []
      simp
    · intro w hmem
      cases hmem
    · intro h hh
      refine (hs.relies h hh).later (.refl _) (Nat.le_refl _) fun ticket _ hok => .inl ?_
      rcases settle_promises (s := s) s.durableWaiters hok with ⟨herror, -⟩ | hold
      · cases herror
      · exact hold
  simp only [Session.saveRejected]
  split_ifs
  · exact (hu.resetForUser none).frame rfl rfl rfl rfl rfl
  · exact hu

/-- A durable save settles the promises it covers. -/
theorem OnDisk.savedDurably (hs : s.OnDisk) (hk : s.inFlight[k]? = some save)
    (hdurable : save.durable = true) :
    (Session.saveAccepted { s with inFlight := s.inFlight.eraseIdx k } save).OnDisk := by
  obtain ⟨hsingle, herase, hactive⟩ := hs.single hk
  have hw := hs.stored.waiting
  rw [herase]
  have hsaved : (save :: s.saved).Sublist s.sent := by
    have := hw.saved
    simp only [disk, hsingle, List.cons_append, List.nil_append] at this
    exact this
  obtain ⟨hsave_le, hsave_gen⟩ := hw.flight save (show save ∈ s.inFlight by simp [hsingle])
  have hdurable_le : s.durableVersion ≤ s.stateVersion := hw.durable_le
  change save.version ≤ s.stateVersion at hsave_le
  change save.gen ≠ s.sessionGen → save.version ≤ s.durableVersion at hsave_gen
  let ready := s.durableWaiters.filter fun w => w.version ≤ max s.durableVersion save.version
  let u : Session C := settle { s with
    inFlight := []
    persistedVersion := max s.persistedVersion save.version
    saved := save :: s.saved
    durableVersion := max s.durableVersion save.version
    durableWaiters := s.durableWaiters.filter fun w =>
      max s.durableVersion save.version < w.version
    resolved := ready.map (fun w : Waiter => (s.sessionGen, w.version)) ++ s.resolved } ready
      (.ok ())
  have hgrows : s.disk.Grows u.disk := ⟨List.subset_cons_self _ _, List.Subset.refl _⟩
  -- what is newly counted as durable is on disk by this very save
  have hholds : ∀ version, s.durableVersion < version →
      version ≤ max s.durableVersion save.version → u.disk.Holds s.sessionGen version := by
    intro version hlt hle
    have hversion : version ≤ save.version := by omega
    refine .inl ⟨save, List.mem_cons_self, hdurable, ?_, hversion⟩
    by_contra hgen
    have := hsave_gen hgen
    omega
  have hready : ∀ w ∈ ready, w ∈ s.durableWaiters ∧ u.disk.Holds s.sessionGen w.version := by
    intro w hmem
    obtain ⟨hmem, hle⟩ := List.mem_filter.mp hmem
    exact ⟨hmem, hholds _ (hw.waiters w hmem).1 (by simpa using hle)⟩
  have hwaiting : Waiting u.disk := by
    refine ⟨max_le hw.durable_le hsave_le, ?_, ?_, ?_, ?_, ?_, ?_, ?_, ?_, hw.sent_le, hw.ordered,
      ?_⟩
    · intro save hsave
      cases hsave
    · intro w hmem
      obtain ⟨hmem, hlt⟩ := List.mem_filter.mp hmem
      exact ⟨by simpa [disk, u, settle] using hlt, (hw.waiters w hmem).2⟩
    · intro hlt
      change max s.durableVersion save.version < s.durableWanted at hlt
      obtain ⟨w, hmem, hversion⟩ := hw.wanted ((le_max_left _ _).trans_lt hlt)
      refine ⟨w, List.mem_filter.mpr ⟨hmem, ?_⟩, hversion⟩
      change w.version = s.durableWanted at hversion
      rw [hversion]
      simpa using hlt
    · intro hnone
      change s.durableWaiters.filter _ = []
      rw [show s.durableWaiters = [] from hw.cacheless hnone, List.filter_nil]
    · intro w hmem
      obtain ⟨hmem, hlt⟩ := List.mem_filter.mp hmem
      obtain ⟨hticket, hnone⟩ := hw.tickets w hmem
      refine ⟨hticket, ?_⟩
      change (if w.ticket ∈ ready.map Waiter.ticket then _ else s.promises w.ticket) = none
      rw [if_neg]
      · exact hnone
      · intro hin
        obtain ⟨w', hmem', hsame⟩ := List.mem_map.mp hin
        obtain ⟨hmem', hle'⟩ := List.mem_filter.mp hmem'
        obtain ⟨h, hholder, hticket, -, hdue⟩ := hs.held w hmem
        obtain ⟨h', hholder', hticket', -, hdue'⟩ := hs.held w' hmem'
        obtain rfl := Option.some.inj (hholder.symm.trans hholder')
        have hlt : max s.durableVersion save.version < w.version := by simpa using hlt
        have hle' : w'.version ≤ max s.durableVersion save.version := by simpa using hle'
        omega
    · intro ticket hle
      exact settle_fresh (s := s) hw (fun w hmem => (hready w hmem).1) hle
    · intro hcached hle
      change s.stateVersion ≤ max s.durableVersion save.version at hle
      by_cases hold : s.stateVersion ≤ s.durableVersion
      · exact (hw.current hcached hold).later hgrows
      · exact hholds _ (Nat.lt_of_not_le hold) hle
    · intro p hp
      rcases List.mem_append.mp hp with hp | hp
      · obtain ⟨w, hmem, rfl⟩ := List.mem_map.mp hp
        exact (hready w hmem).2
      · exact (hw.resolved p hp).later hgrows
    · exact hsaved
  have hstored := stored_writerPass (s := u) hwaiting rfl hactive
  obtain ⟨active, inFlight, sent, heq⟩ := writerPass_eq u
  have hresult : Session.saveAccepted { s with inFlight := [] } save = u.writerPass := by
    simp only [Session.saveAccepted]
    rw [if_pos hdurable]
  rw [hresult]
  refine ⟨hstored, ?_, ?_, ?_⟩
  · rw [heq]
    exact hs.told.later hgrows rfl rfl
  · rw [heq]
    intro w hmem
    exact hs.held w (List.mem_filter.mp hmem).1
  · rw [heq]
    intro h hh
    refine (hs.relies h hh).later hgrows (Nat.le_refl _) fun ticket hticket hok => ?_
    rcases settle_promises ready hok with ⟨-, w, hmem, rfl⟩ | hold
    · obtain ⟨hmem, hw'⟩ := hready w hmem
      obtain ⟨h', hholder, -, hgen, hdue⟩ := hs.held w hmem
      obtain rfl := Option.some.inj (hholder.symm.trans hh)
      right
      rw [hgen, hdue]
      exact hw'
    · exact .inl hold

theorem OnDisk.savedWeakly (hs : s.OnDisk) (hk : s.inFlight[k]? = some save)
    (hdurable : save.durable ≠ true) :
    (Session.saveAccepted { s with inFlight := s.inFlight.eraseIdx k } save).OnDisk := by
  obtain ⟨hsingle, herase, hactive⟩ := hs.single hk
  have hw := hs.stored.waiting
  rw [herase]
  let u : Session C := { s with
    inFlight := []
    persistedVersion := max s.persistedVersion save.version
    saved := save :: s.saved }
  have hgrows : s.disk.Grows u.disk := ⟨List.subset_cons_self _ _, List.Subset.refl _⟩
  have hwaiting : Waiting u.disk := by
    refine ⟨hw.durable_le, ?_, hw.waiters, hw.wanted, hw.cacheless, hw.tickets, hw.fresh, ?_, ?_,
      hw.sent_le, hw.ordered, ?_⟩
    · intro save hsave
      cases hsave
    · intro hcached hle
      exact (hw.current hcached hle).later hgrows
    · intro p hp
      exact (hw.resolved p hp).later hgrows
    · have := hw.saved
      simp only [disk, hsingle, List.cons_append, List.nil_append] at this
      exact this
  have hstored := stored_writerPass (s := u) hwaiting rfl hactive
  obtain ⟨active, inFlight, sent, heq⟩ := writerPass_eq u
  have hresult : Session.saveAccepted { s with inFlight := [] } save = u.writerPass := by
    simp only [Session.saveAccepted]
    rw [if_neg hdurable]
  rw [hresult]
  refine ⟨hstored, ?_, ?_, ?_⟩
  · rw [heq]
    exact hs.told.later hgrows rfl rfl
  · rw [heq]
    exact hs.held
  · rw [heq]
    intro h hh
    exact (hs.relies h hh).later hgrows (Nat.le_refl _) fun _ _ hok => .inl hok

theorem OnDisk.saveReturned (hs : s.OnDisk) {result : Except String Unit}
    (hstep : s.saveReturned k result = some t) : t.OnDisk := by
  unfold Session.saveReturned at hstep
  split at hstep
  · cases hstep
  · next save hk =>
      cases result with
      | ok _ =>
          cases hstep
          by_cases hdurable : save.durable = true
          · exact hs.savedDurably hk hdurable
          · exact hs.savedWeakly hk hdurable
      | error message =>
          cases hstep
          exact hs.saveRejected hk message

end Session

end SpecterComs.MlsSession
