import SpecterComs.Verification.MlsSession.OneGroup

/-! # Where a catch-up leaves the copy

The loop of `catchUpGroup` sorts the logged commits, skips what the copy is past, and
tries the rest, whatever their order and whether they apply. A run is what the log can
lead a copy to, one epoch at a time; the copy ends up where no run goes on.
-/

namespace SpecterComs.LoggedRuns

open MlsSession

/-! ## The module -/

/-- What a device state holds of each group, and what belongs to the whole device: its
identity and its KeyPackages. -/
structure Parts (State Held Device : Type) where
  group : State → GroupId → Held
  device : State → Device

variable {State Held Device : Type} (C : Crypto State) (codec : Codec)
  (P : Parts State Held Device) (g : GroupId)

/-- What the session relies on in `process_commit` and `join_from_welcome`. -/
structure MlsLaws : Prop where
  /-- The epoch is part of what is held of the group. -/
  epoch : ∀ {s t g}, P.group s g = P.group t g → C.groupEpoch s g = C.groupEpoch t g
  /-- A commit leads from one epoch to the next. -/
  commit_epoch : ∀ {s t g commit}, C.processCommit s g commit = .ok t →
    ∃ e, C.groupEpoch s g = some e ∧ C.groupEpoch t g = some (e + 1)
  commit_group : ∀ {s t g commit}, C.processCommit s g commit = .ok t →
    ∀ other, other ≠ g → P.group t other = P.group s other
  commit_device : ∀ {s t g commit}, C.processCommit s g commit = .ok t → P.device t = P.device s
  /-- A Welcome is to one group. Its join uses up a KeyPackage. -/
  welcome_group : ∀ {s t welcome}, C.joinFromWelcome s welcome = .ok t →
    ∃ joined, ∀ other, other ≠ joined → P.group t other = P.group s other

/-! ## Runs of logged commits -/

/-- `process_commit(state, groupId, fromB64(c.commit))`. -/
def logged (s : State) (c : ℕ × String) : Except String State :=
  codec.fromB64 c.2 >>= C.processCommit s g

/-- `n` logged commits lead from `s` to the copy, each logged for the epoch after the
one it applies to. -/
inductive LoggedRun (commits : List (ℕ × String)) (s : State) : State → ℕ → Prop
  | start : LoggedRun commits s s 0
  | next {t u : State} {n e : ℕ} {c : ℕ × String} (run : LoggedRun commits s t n)
      (held : C.groupEpoch t g = some e) (mem : c ∈ commits) (epoch : c.1 = e + 1)
      (applies : logged C codec g t c = .ok u) : LoggedRun commits s u (n + 1)

/-- A logged commit's epoch is the epoch it produces. -/
def Labelled (commits : List (ℕ × String)) : Prop :=
  ∀ c ∈ commits, ∀ s t, logged C codec g s c = .ok t → C.groupEpoch t g = some c.1

/-- Entries of one epoch never lead one copy to two different ones. -/
def Unforked (commits : List (ℕ × String)) : Prop :=
  ∀ c ∈ commits, ∀ d ∈ commits, c.1 = d.1 → ∀ s t u, logged C codec g s c = .ok t →
    logged C codec g s d = .ok u → t = u

/-- A Welcome that a device without the group can use is one to this group. -/
def OwnWelcome (s : State) (welcome : Option String) : Prop :=
  C.groupEpoch s g = none → ∀ text, welcome = some text → ∀ t,
    codec.fromB64 text >>= C.joinFromWelcome s = .ok t → C.groupEpoch t g ≠ none

/-! ## What a catch-up does -/

/-- The copy the loop starts from: the local one, or the one that the Welcome gives. -/
def startOf (s : State) (data : CatchUpData) : State :=
  (applyWelcome C codec g s data.welcome).1

/-- The copy the catch-up ends with. -/
def finalOf (s : State) (data : CatchUpData) : State :=
  (applyCatchUp C codec g s data).state

/-- Whatever the reply is, the epoch does not decrease and only the Welcome changes more
than the group. If the log is labelled, the copy ends where no logged commit applies any
more: at the end of a run, which is the longest one unless the log is forked; and the same
reply changes nothing more. -/
structure CatchesUp (s : State) (data : CatchUpData) : Prop where
  run : Labelled C codec g data.commits →
    ∃ n, LoggedRun C codec g data.commits (startOf C codec g s data) (finalOf C codec g s data) n ∧
      (Unforked C codec g data.commits → ∀ t m,
        LoggedRun C codec g data.commits (startOf C codec g s data) t m → m ≤ n)
  last : Labelled C codec g data.commits → ∀ e, C.groupEpoch (finalOf C codec g s data) g = some e →
    ∀ c ∈ data.commits, e < c.1 → ∀ t, logged C codec g (finalOf C codec g s data) c ≠ .ok t
  epoch : (applyCatchUp C codec g s data).epoch = C.groupEpoch (finalOf C codec g s data) g
  grows : ∀ e, C.groupEpoch s g = some e →
    ∃ e', (applyCatchUp C codec g s data).epoch = some e' ∧ e ≤ e'
  others : OwnWelcome C codec g s data.welcome → ∀ other, other ≠ g →
    P.group (finalOf C codec g s data) other = P.group s other
  device : P.device (finalOf C codec g s data) = P.device (startOf C codec g s data)
  again : Labelled C codec g data.commits → OwnWelcome C codec g s data.welcome →
    applyCatchUp C codec g (finalOf C codec g s data) data =
      ⟨finalOf C codec g s data, (applyCatchUp C codec g s data).epoch, false⟩

/-- The same of any log and any Welcome. -/
structure CatchesUpOutright (s : State) (data : CatchUpData) : Prop where
  run : ∃ n, LoggedRun C codec g data.commits (startOf C codec g s data) (finalOf C codec g s data) n ∧
    ∀ t m, LoggedRun C codec g data.commits (startOf C codec g s data) t m → m ≤ n
  grows : ∀ e, C.groupEpoch s g = some e →
    ∃ e', (applyCatchUp C codec g s data).epoch = some e' ∧ e ≤ e'
  others : ∀ other, other ≠ g → P.group (finalOf C codec g s data) other = P.group s other
  device : P.device (finalOf C codec g s data) = P.device s
  again : applyCatchUp C codec g (finalOf C codec g s data) data =
    ⟨finalOf C codec g s data, (applyCatchUp C codec g s data).epoch, false⟩

variable {C codec P g} {commits : List (ℕ × String)} {s t u : State} {n m e : ℕ}

/-! ## Runs -/

theorem MlsLaws.logged_epoch (h : MlsLaws C P) {c : ℕ × String}
    (happly : logged C codec g s c = .ok t) :
    ∃ e, C.groupEpoch s g = some e ∧ C.groupEpoch t g = some (e + 1) := by
  obtain ⟨bytes, -, hcommit⟩ := Except.bind_eq_ok.mp happly
  exact h.commit_epoch hcommit

/-- Each commit of a run adds one to the epoch. -/
theorem LoggedRun.epoch (h : MlsLaws C P) (hrun : LoggedRun C codec g commits s t n)
    (hheld : C.groupEpoch s g = some e) : C.groupEpoch t g = some (e + n) := by
  induction hrun with
  | start => exact hheld
  | next _ _ _ _ happly ih =>
      obtain ⟨e', he', hnext⟩ := h.logged_epoch happly
      rw [ih] at he'
      rw [hnext, ← Option.some.inj he']
      rfl

/-- A run that goes on past `n` commits passes a copy to which another one applies. -/
theorem LoggedRun.passes (hrun : LoggedRun C codec g commits s u m) (hlt : n < m) :
    ∃ t, LoggedRun C codec g commits s t n ∧ ∃ e c, C.groupEpoch t g = some e ∧ c ∈ commits ∧
      c.1 = e + 1 ∧ ∃ v, logged C codec g t c = .ok v := by
  induction hrun with
  | start => omega
  | @next t u k e c run held mem epoch applies ih =>
      by_cases hk : n < k
      · exact ih hk
      · obtain rfl : n = k := by omega
        exact ⟨t, run, e, c, held, mem, epoch, u, applies⟩

/-- Without a fork, the length of a run says where it ends. -/
theorem LoggedRun.unique (hfork : Unforked C codec g commits)
    (hrun : LoggedRun C codec g commits s t n) (hrun' : LoggedRun C codec g commits s u n) :
    t = u := by
  induction hrun generalizing u with
  | start =>
      cases hrun'
      rfl
  | next _ held mem epoch applies ih =>
      cases hrun' with
      | next run' held' mem' epoch' applies' =>
          obtain rfl := ih run'
          rw [held] at held'
          have hsame := Option.some.inj held'
          exact hfork _ mem _ mem' (by omega) _ _ _ applies applies'

/-- Without a fork, a run that cannot go on is the longest. -/
theorem LoggedRun.longest (hfork : Unforked C codec g commits)
    (hrun : LoggedRun C codec g commits s t n)
    (hlast : ∀ e, C.groupEpoch t g = some e → ∀ c ∈ commits, e < c.1 →
      ∀ v, logged C codec g t c ≠ .ok v)
    (hrun' : LoggedRun C codec g commits s u m) : m ≤ n := by
  by_contra hlt
  obtain ⟨t', hrun'', e, c, held, mem, epoch, v, applies⟩ := hrun'.passes (Nat.lt_of_not_le hlt)
  obtain rfl := hrun.unique hfork hrun''
  exact hlast e held c mem (by omega) v applies

/-! ## The loop -/

variable {a b : Applied State} {c : ℕ × String}

/-- The entry is behind the copy or does not apply to it. -/
def Idle (C : Crypto State) (codec : Codec) (g : GroupId) (a : Applied State) (c : ℕ × String) :
    Prop :=
  c.1 ≤ a.epoch ∨ ∀ t, logged C codec g a.state c ≠ .ok t

theorem applyCommit_idle (h : Idle C codec g a c) : applyCommit C codec g a c = a := by
  by_cases hle : c.1 ≤ a.epoch
  · rw [applyCommit, if_pos hle]
  · have hfails := h.resolve_left hle
    rw [applyCommit, if_neg hle]
    cases happly : codec.fromB64 c.2 >>= C.processCommit a.state g with
    | error e => rfl
    | ok t => exact absurd happly (hfails t)

theorem foldl_idle (h : ∀ c ∈ commits, Idle C codec g a c) :
    commits.foldl (applyCommit C codec g) a = a := by
  induction commits with
  | nil => rfl
  | cons c rest ih =>
      rw [List.foldl_cons, applyCommit_idle (h c List.mem_cons_self)]
      exact ih fun d hd => h d (List.mem_cons_of_mem _ hd)

/-- The other entries lead to the next epoch. -/
theorem applyCommit_next (hlaws : MlsLaws C P) (hheld : C.groupEpoch a.state g = some a.epoch)
    (hidle : ¬ Idle C codec g a c) :
    ∃ t, logged C codec g a.state c = .ok t ∧ C.groupEpoch t g = some (a.epoch + 1) ∧
      applyCommit C codec g a c = ⟨t, a.epoch + 1, true⟩ := by
  obtain ⟨hle, t, happly⟩ : ¬ c.1 ≤ a.epoch ∧ ∃ t, logged C codec g a.state c = .ok t := by
    simpa [Idle] using hidle
  obtain ⟨e, he, hnext⟩ := hlaws.logged_epoch happly
  rw [hheld] at he
  obtain rfl := Option.some.inj he
  refine ⟨t, happly, hnext, ?_⟩
  rw [applyCommit, if_neg hle]
  change codec.fromB64 c.2 >>= C.processCommit a.state g = .ok t at happly
  rw [happly]
  simp only [hnext]

/-- What the loop keeps of the copy `s` at epoch `e`, whatever the entries are. -/
structure Kept (C : Crypto State) (P : Parts State Held Device) (g : GroupId) (s : State) (e : ℕ)
    (a : Applied State) : Prop where
  held : C.groupEpoch a.state g = some a.epoch
  grows : e ≤ a.epoch
  others : ∀ other, other ≠ g → P.group a.state other = P.group s other
  device : P.device a.state = P.device s

theorem Kept.applyCommit (hlaws : MlsLaws C P) (h : Kept C P g s e a) (c : ℕ × String) :
    Kept C P g s e (applyCommit C codec g a c) := by
  by_cases hidle : Idle C codec g a c
  · rw [applyCommit_idle hidle]
    exact h
  · obtain ⟨t, happly, hnext, hresult⟩ := applyCommit_next hlaws h.held hidle
    obtain ⟨bytes, -, hcommit⟩ := Except.bind_eq_ok.mp happly
    rw [hresult]
    refine ⟨hnext, Nat.le_succ_of_le h.grows, ?_, ?_⟩
    · intro other hother
      exact (hlaws.commit_group hcommit other hother).trans (h.others other hother)
    · exact (hlaws.commit_device hcommit).trans h.device

theorem Kept.foldl (hlaws : MlsLaws C P) (h : Kept C P g s e a) (rest : List (ℕ × String)) :
    Kept C P g s e (rest.foldl (MlsSession.applyCommit C codec g) a) := by
  induction rest generalizing a with
  | nil => exact h
  | cons c rest ih => exact ih (h.applyCommit hlaws c)

/-- What holds of a labelled log once the entries `done` are behind the loop, which
started from the copy `s`. -/
structure Looped (C : Crypto State) (codec : Codec) (g : GroupId) (commits : List (ℕ × String))
    (s : State) (done : List (ℕ × String)) (a : Applied State) : Prop where
  held : C.groupEpoch a.state g = some a.epoch
  run : ∃ n, LoggedRun C codec g commits s a.state n
  done : ∀ c ∈ done, Idle C codec g a c

/-- One entry: the entries before it stay behind the copy, since their epochs are no
later than the one it reaches. -/
theorem Looped.applyCommit (hlaws : MlsLaws C P) (hlabelled : Labelled C codec g commits)
    {done : List (ℕ × String)} (h : Looped C codec g commits s done a) (hc : c ∈ commits)
    (hsorted : ∀ d ∈ done, d.1 ≤ c.1) :
    Looped C codec g commits s (done ++ [c]) (applyCommit C codec g a c) := by
  by_cases hidle : Idle C codec g a c
  · rw [applyCommit_idle hidle]
    refine ⟨h.held, h.run, ?_⟩
    intro d hd
    rcases List.mem_append.mp hd with hd | hd
    · exact h.done d hd
    · rw [List.mem_singleton.mp hd]
      exact hidle
  · obtain ⟨t, happly, hnext, hresult⟩ := applyCommit_next hlaws h.held hidle
    have hlabel : c.1 = a.epoch + 1 := by
      have hepoch := hlabelled c hc a.state t happly
      rw [hnext] at hepoch
      exact (Option.some.inj hepoch).symm
    rw [hresult]
    obtain ⟨n, hrun⟩ := h.run
    refine ⟨hnext, ⟨n + 1, hrun.next h.held hc hlabel happly⟩, ?_⟩
    intro d hd
    left
    dsimp only
    rcases List.mem_append.mp hd with hd | hd
    · have := hsorted d hd
      omega
    · rw [List.mem_singleton.mp hd]
      omega

theorem Looped.foldl (hlaws : MlsLaws C P) (hlabelled : Labelled C codec g commits)
    {done rest : List (ℕ × String)} (h : Looped C codec g commits s done a)
    (hmem : ∀ c ∈ rest, c ∈ commits) (hsorted : (done ++ rest).Pairwise fun c d => c.1 ≤ d.1) :
    Looped C codec g commits s (done ++ rest)
      (rest.foldl (MlsSession.applyCommit C codec g) a) := by
  induction rest generalizing done a with
  | nil =>
      rw [List.append_nil]
      exact h
  | cons c rest ih =>
      have hbefore : ∀ d ∈ done, d.1 ≤ c.1 := by
        intro d hd
        exact (List.pairwise_append.mp hsorted).2.2 d hd c List.mem_cons_self
      have hone := h.applyCommit hlaws hlabelled (hmem c List.mem_cons_self) hbefore
      rw [List.append_cons] at hsorted ⊢
      exact ih hone (fun d hd => hmem d (List.mem_cons_of_mem _ hd)) hsorted

theorem mem_sortCommits : c ∈ sortCommits commits ↔ c ∈ commits :=
  List.mem_insertionSort _

theorem pairwise_sortCommits (commits : List (ℕ × String)) :
    (sortCommits commits).Pairwise fun c d => c.1 ≤ d.1 := by
  have : Std.Total fun c d : ℕ × String => c.1 ≤ d.1 := ⟨fun c d => Nat.le_total c.1 d.1⟩
  have : IsTrans (ℕ × String) fun c d => c.1 ≤ d.1 := ⟨fun _ _ _ => Nat.le_trans⟩
  exact List.pairwise_insertionSort _ commits

/-- The whole loop: every entry is behind the copy or does not apply to it. -/
theorem applyCommits_looped (hlaws : MlsLaws C P) (hlabelled : Labelled C codec g commits)
    (hheld : C.groupEpoch a.state g = some a.epoch) :
    Looped C codec g commits a.state commits (applyCommits C codec g a commits) := by
  have hstart : Looped C codec g commits a.state [] a :=
    ⟨hheld, ⟨0, .start⟩, fun _ hc => (nomatch hc)⟩
  have hloop : Looped C codec g commits a.state ([] ++ sortCommits commits)
      (applyCommits C codec g a commits) :=
    hstart.foldl hlaws hlabelled (fun _ hc => mem_sortCommits.mp hc) (pairwise_sortCommits commits)
  exact ⟨hloop.held, hloop.run, fun c hc => hloop.done c (mem_sortCommits.mpr hc)⟩

/-! ## The whole catch-up -/

variable {data : CatchUpData}

/-- A Welcome is only used where the group is not held. -/
theorem applyWelcome_cases (C : Crypto State) (codec : Codec) (g : GroupId) (s : State)
    (welcome : Option String) :
    applyWelcome C codec g s welcome = (s, false) ∨
      C.groupEpoch s g = none ∧ ∃ text t, welcome = some text ∧
        codec.fromB64 text >>= C.joinFromWelcome s = .ok t ∧
        applyWelcome C codec g s welcome = (t, true) := by
  cases welcome with
  | none => exact Or.inl rfl
  | some text =>
      by_cases hheld : C.groupExists s g = true
      · exact Or.inl (by rw [applyWelcome, if_pos hheld])
      · rw [applyWelcome, if_neg hheld]
        cases hjoin : codec.fromB64 text >>= C.joinFromWelcome s with
        | error e => exact Or.inl rfl
        | ok t =>
            refine Or.inr ⟨?_, text, t, rfl, hjoin, rfl⟩
            simpa [Crypto.groupExists] using hheld

theorem applyWelcome_held (hheld : C.groupEpoch s g ≠ none) (welcome : Option String) :
    applyWelcome C codec g s welcome = (s, false) := by
  rcases applyWelcome_cases C codec g s welcome with h | ⟨hnone, -⟩
  · exact h
  · exact absurd hnone hheld

/-- A copy that is held is the one the loop starts from, and joining this group leaves
the others alone. -/
theorem startOf_others (hlaws : MlsLaws C P) (hwelcome : OwnWelcome C codec g s data.welcome) :
    ∀ other, other ≠ g → P.group (startOf C codec g s data) other = P.group s other := by
  intro other hother
  rcases applyWelcome_cases C codec g s data.welcome with h | ⟨hnone, text, t, htext, hjoin, h⟩
  · rw [startOf, h]
  · rw [startOf, h]
    obtain ⟨bytes, -, hbytes⟩ := Except.bind_eq_ok.mp hjoin
    obtain ⟨joined, hjoined⟩ := hlaws.welcome_group hbytes
    have hsame : joined = g := by
      by_contra hne
      have hepoch := hlaws.epoch (hjoined g fun h => hne h.symm)
      rw [hnone] at hepoch
      exact hwelcome hnone text htext t hjoin hepoch
    subst hsame
    exact hjoined other hother

/-- Without the group there is nothing to apply. -/
theorem applyCatchUp_of_unheld (hnone : C.groupEpoch (startOf C codec g s data) g = none) :
    applyCatchUp C codec g s data =
      ⟨startOf C codec g s data, none, (applyWelcome C codec g s data.welcome).2⟩ := by
  unfold startOf at hnone ⊢
  simp only [applyCatchUp, hnone]

/-- The loop from a copy at epoch `e`. -/
theorem applyCatchUp_of_held (hheld : C.groupEpoch (startOf C codec g s data) g = some e) :
    let a := applyCommits C codec g
      ⟨startOf C codec g s data, e, (applyWelcome C codec g s data.welcome).2⟩ data.commits
    applyCatchUp C codec g s data = ⟨a.state, some a.epoch, a.changed⟩ := by
  unfold startOf at hheld ⊢
  simp only [applyCatchUp, hheld]

theorem startOf_held (hheld : C.groupEpoch s g ≠ none) : startOf C codec g s data = s := by
  rw [startOf, applyWelcome_held hheld]

/-- A device that does not get to hold the group. -/
theorem catchesUp_of_unheld (hlaws : MlsLaws C P)
    (hnone : C.groupEpoch (startOf C codec g s data) g = none) : CatchesUp C codec P g s data := by
  have hresult := applyCatchUp_of_unheld hnone
  have hfinal : finalOf C codec g s data = startOf C codec g s data := by rw [finalOf, hresult]
  have hs : C.groupEpoch s g = none := by
    by_contra hheld
    rw [startOf_held hheld] at hnone
    exact hheld hnone
  constructor
  · intro _
    rw [hfinal]
    refine ⟨0, .start, fun _ t m hrun => ?_⟩
    by_contra hlt
    obtain ⟨t', hrun', e, c, held, -⟩ := hrun.passes (Nat.lt_of_not_le hlt)
    cases hrun'
    rw [hnone] at held
    cases held
  · intro _ e he
    rw [hfinal, hnone] at he
    cases he
  · rw [hfinal, hnone, hresult]
  · intro e he
    rw [hs] at he
    cases he
  · intro hwelcome other hother
    rw [hfinal]
    exact startOf_others hlaws hwelcome other hother
  · rw [hfinal]
  · -- no Welcome was used, so the next time nothing is different
    intro _ hwelcome
    rcases applyWelcome_cases C codec g s data.welcome with h | ⟨-, text, t, htext, hjoin, h⟩
    · have hstart : startOf C codec g s data = s := by rw [startOf, h]
      rw [hfinal, hstart]
      rw [h, hstart] at hresult
      rw [hresult]
    · rw [startOf, h] at hnone
      exact absurd hnone (hwelcome hs text htext t hjoin)

/-- A device that held the group or joined it. -/
theorem catchesUp_of_held (hlaws : MlsLaws C P)
    (hheld : C.groupEpoch (startOf C codec g s data) g = some e) :
    CatchesUp C codec P g s data := by
  have hresult := applyCatchUp_of_held hheld
  let start : Applied State :=
    ⟨startOf C codec g s data, e, (applyWelcome C codec g s data.welcome).2⟩
  let a : Applied State := applyCommits C codec g start data.commits
  change applyCatchUp C codec g s data = ⟨a.state, some a.epoch, a.changed⟩ at hresult
  have hfinal : finalOf C codec g s data = a.state := by rw [finalOf, hresult]
  have hkept : Kept C P g (startOf C codec g s data) e a := by
    have hstart : Kept C P g (startOf C codec g s data) e start :=
      ⟨hheld, Nat.le_refl e, fun _ _ => rfl, rfl⟩
    exact hstart.foldl hlaws (sortCommits data.commits)
  have hloop : Labelled C codec g data.commits →
      Looped C codec g data.commits (startOf C codec g s data) data.commits a :=
    fun hlabelled => applyCommits_looped (a := start) hlaws hlabelled hheld
  have hlast : Labelled C codec g data.commits → ∀ e, C.groupEpoch a.state g = some e →
      ∀ c ∈ data.commits, e < c.1 → ∀ t, logged C codec g a.state c ≠ .ok t := by
    intro hlabelled e he c hc hlt
    rw [hkept.held] at he
    have hsame := Option.some.inj he
    exact ((hloop hlabelled).done c hc).resolve_left (by omega)
  constructor
  · intro hlabelled
    obtain ⟨n, hrun⟩ := (hloop hlabelled).run
    rw [hfinal]
    exact ⟨n, hrun, fun hfork t m => hrun.longest hfork (hlast hlabelled)⟩
  · rw [hfinal]
    exact hlast
  · rw [hfinal, hresult, hkept.held]
  · intro e' he'
    rw [startOf_held (by rw [he']; exact Option.some_ne_none e'), he'] at hheld
    obtain rfl := Option.some.inj hheld
    exact ⟨a.epoch, by rw [hresult], hkept.grows⟩
  · intro hwelcome other hother
    rw [hfinal, hkept.others other hother]
    exact startOf_others hlaws hwelcome other hother
  · rw [hfinal]
    exact hkept.device
  · intro hlabelled _
    rw [hfinal, hresult]
    have hwelcomed : applyWelcome C codec g a.state data.welcome = (a.state, false) := by
      apply applyWelcome_held
      rw [hkept.held]
      exact Option.some_ne_none a.epoch
    have hidle : applyCommits C codec g ⟨a.state, a.epoch, false⟩ data.commits =
        ⟨a.state, a.epoch, false⟩ := by
      apply foldl_idle
      intro c hc
      exact (hloop hlabelled).done c (mem_sortCommits.mp hc)
    simp only [applyCatchUp, hwelcomed, hkept.held, hidle]

/-- For every device, group and reply: held or not, with logged commits in any order,
duplicates, gaps, entries from before the join and entries that do not apply. -/
theorem catchUp_reaches_longest_run (hlaws : MlsLaws C P) (s : State) (data : CatchUpData) :
    CatchesUp C codec P g s data := by
  cases hheld : C.groupEpoch (startOf C codec g s data) g with
  | none => exact catchesUp_of_unheld hlaws hheld
  | some e => exact catchesUp_of_held hlaws hheld

/-! ## A device with KeyPackages and groups -/

/-- KeyPackages by a number, and of each group the chain of its commits, the newest copy
first. -/
structure Wallet where
  packages : Bytes
  groups : List (GroupId × List Bytes)
  deriving DecidableEq

namespace Wallet

def parts : Parts Wallet (Option (List Bytes)) Bytes :=
  ⟨fun s g => s.groups.lookup g, Wallet.packages⟩

/-- A Welcome is to one of the KeyPackages, which its join uses up. -/
def join (s : Wallet) (welcome : Bytes) : Except String Wallet :=
  match unpack welcome with
  | [package] :: name :: chain =>
      if s.packages.contains package then
        .ok ⟨s.packages.erase package, (OneGroup.codec.decodeText name, chain) :: s.groups⟩
      else .error "no matching KeyPackage"
  | _ => .error "expected a Welcome message"

def applyCommit (s : Wallet) (g : GroupId) (commit : Bytes) : Except String Wallet :=
  match s.groups.lookup g with
  | none => .error "no such group"
  | some chain =>
      if OneGroup.built commit = chain then .ok { s with groups := (g, chain ++ [commit]) :: s.groups }
      else .error "wrong epoch"

/-- The module, as far as a catch-up calls it. -/
def crypto : Crypto Wallet where
  generateIdentity _ _ := (⟨[], []⟩, [])
  deviceCredential _ := .error "no credential in device state"
  ownPublicKey _ := []
  groupEpoch s g := (s.groups.lookup g).map List.length
  groupMemberLabels _ _ := []
  createGroup _ _ _ := .error "no signer in device state"
  addMember _ _ _ _ := .error "no signer in device state"
  removeMember _ _ _ _ := .error "no signer in device state"
  joinFromWelcome := join
  processCommit := applyCommit
  encrypt _ _ _ _ := .error "no signer in device state"
  decrypt _ _ _ := .error "no signer in device state"
  joinExternal _ _ _ _ := .error "no signer in device state"
  resyncExternal _ _ _ _ := .error "no signer in device state"
  exportGroupInfo _ _ := .error "no signer in device state"
  messageEpoch message := .ok (OneGroup.built message).length
  exportSecret _ _ _ _ := .ok []
  signBytes _ bytes := bytes

@[simp] theorem crypto_groupEpoch (s : Wallet) (g : GroupId) :
    crypto.groupEpoch s g = (s.groups.lookup g).map List.length :=
  rfl

theorem lookup_cons_of_ne {groups : List (GroupId × List Bytes)} {g other : GroupId}
    {chain : List Bytes} (h : other ≠ g) :
    ((g, chain) :: groups).lookup other = groups.lookup other := by
  rw [List.lookup_cons, beq_eq_false_iff_ne.mpr h]

theorem applyCommit_eq_ok {s t : Wallet} {g : GroupId} {commit : Bytes}
    (h : s.applyCommit g commit = .ok t) :
    s.groups.lookup g = some (OneGroup.built commit) ∧
      t = { s with groups := (g, OneGroup.built commit ++ [commit]) :: s.groups } := by
  unfold applyCommit at h
  cases hchain : s.groups.lookup g with
  | none =>
      rw [hchain] at h
      cases h
  | some chain =>
      rw [hchain] at h
      dsimp only at h
      split at h
      · rename_i hbuilt
        subst hbuilt
        exact ⟨rfl, (Except.ok.inj h).symm⟩
      · cases h

theorem laws : MlsLaws crypto parts where
  epoch h := congrArg (Option.map List.length) h
  commit_epoch {s t g commit} h := by
    obtain ⟨hchain, rfl⟩ := applyCommit_eq_ok h
    refine ⟨(OneGroup.built commit).length, ?_, ?_⟩
    · simp [hchain]
    · simp
  commit_group {s t g commit} h other hother := by
    obtain ⟨-, rfl⟩ := applyCommit_eq_ok h
    exact lookup_cons_of_ne hother
  commit_device {s t g commit} h := by
    obtain ⟨-, rfl⟩ := applyCommit_eq_ok h
    rfl
  welcome_group {s t welcome} h := by
    change s.join welcome = .ok t at h
    unfold join at h
    split at h
    · rename_i package name chain hunpack
      split at h
      · cases h
        exact ⟨OneGroup.codec.decodeText name, fun other hother => lookup_cons_of_ne hother⟩
      · cases h
    · cases h

theorem logged_eq_ok {s t : Wallet} {g : GroupId} (h : logged crypto OneGroup.codec g s c = .ok t) :
    s.applyCommit g (OneGroup.codec.encodeText c.2) = .ok t :=
  h

theorem labelled {g : GroupId}
    (h : ∀ c ∈ commits, c.1 = (OneGroup.built (OneGroup.codec.encodeText c.2)).length + 1) :
    Labelled crypto OneGroup.codec g commits := by
  intro c hc s t happly
  obtain ⟨-, rfl⟩ := applyCommit_eq_ok (logged_eq_ok happly)
  rw [h c hc]
  simp

theorem unforked {g : GroupId}
    (h : ∀ c ∈ commits, ∀ d ∈ commits, c.1 = d.1 → c.2 = d.2 ∨ OneGroup.built (OneGroup.codec.encodeText c.2) ≠ OneGroup.built (OneGroup.codec.encodeText d.2)) :
    Unforked crypto OneGroup.codec g commits := by
  intro c hc d hd hlabel s t u happly happly'
  obtain ⟨hc', rfl⟩ := applyCommit_eq_ok (logged_eq_ok happly)
  obtain ⟨hd', rfl⟩ := applyCommit_eq_ok (logged_eq_ok happly')
  rcases h c hc d hd hlabel with hsame | hbuilt
  · rw [hsame]
  · rw [hc'] at hd'
    exact absurd (Option.some.inj hd') hbuilt

end Wallet

def first : Bytes := OneGroup.commitOn 1 []
def second : Bytes := OneGroup.commitOn 1 [first]
def rival : Bytes := OneGroup.commitOn 2 []
def afterRival : Bytes := OneGroup.commitOn 1 [rival]

def logOf (commits : List (ℕ × Bytes)) : CatchUpData :=
  ⟨none, commits.map fun c => (c.1, OneGroup.codec.toB64 c.2), none, none⟩

/-- Commits out of order and twice, with one that does not apply, one from before the
copy and one beyond a gap. -/
def shuffled : CatchUpData :=
  logOf [(2, afterRival), (2, second), (1, first), (2, second),
    (4, OneGroup.commitOn 1 [[], [], []])]

/-- A copy at epoch 1 catches up to epoch 2. -/
theorem catchUp_reaches_longest_run_shuffled :
    Labelled Wallet.crypto OneGroup.codec "g" shuffled.commits ∧
      Unforked Wallet.crypto OneGroup.codec "g" shuffled.commits ∧
      CatchesUp Wallet.crypto OneGroup.codec Wallet.parts "g" ⟨[], [("g", [first])]⟩ shuffled ∧
      (applyCatchUp Wallet.crypto OneGroup.codec "g" ⟨[], [("g", [first])]⟩ shuffled).epoch =
        some 2 :=
  ⟨Wallet.labelled (by decide), Wallet.unforked (by decide),
    catchUp_reaches_longest_run Wallet.laws _ _, by decide⟩

/-! ## Why the conditions are there -/

/-- A member of the group at epoch 0, and a device with one KeyPackage and no group. -/
def member : Wallet := ⟨[], [("g", [])]⟩
def newcomer : Wallet := ⟨[1], []⟩

/-- A log whose entries carry other epochs than their commits produce. -/
def mislabelled : CatchUpData :=
  logOf [(2, second), (3, first)]

def forked : CatchUpData :=
  logOf [(1, first), (1, rival), (2, afterRival)]

/-- The Welcome to a group for the newcomer's KeyPackage. -/
def welcomeTo (g : GroupId) : CatchUpData :=
  ⟨some (OneGroup.codec.toB64 (pack [[1], OneGroup.codec.encodeText g])), [], none, none⟩

/-- A mislabelled log, applied again, leads one epoch further; in a forked log the first
entry that applies may not be the one of the longest run; the Welcome uses up a
KeyPackage; and a Welcome to another group joins that one. -/
theorem catchUp_not_outright :
    ¬ CatchesUpOutright Wallet.crypto OneGroup.codec Wallet.parts "g" member mislabelled ∧
    ¬ CatchesUpOutright Wallet.crypto OneGroup.codec Wallet.parts "g" member forked ∧
    ¬ CatchesUpOutright Wallet.crypto OneGroup.codec Wallet.parts "g" newcomer (welcomeTo "g") ∧
    ¬ CatchesUpOutright Wallet.crypto OneGroup.codec Wallet.parts "g" newcomer (welcomeTo "h") := by
  refine ⟨?_, ?_, ?_, ?_⟩
  · intro h
    have hagain := congrArg CaughtUp.changed h.again
    revert hagain
    decide
  · intro h
    obtain ⟨n, hrun, hlongest⟩ := h.run
    let branched : Wallet := ⟨[], [("g", [rival]), ("g", [])]⟩
    let ended : Wallet := ⟨[], [("g", [rival, afterRival]), ("g", [rival]), ("g", [])]⟩
    have hfirst : LoggedRun Wallet.crypto OneGroup.codec "g" forked.commits
        (startOf Wallet.crypto OneGroup.codec "g" member forked) branched 1 :=
      .next (c := (1, OneGroup.codec.toB64 rival)) .start rfl (by decide) rfl (by decide)
    have hsecond : LoggedRun Wallet.crypto OneGroup.codec "g" forked.commits
        (startOf Wallet.crypto OneGroup.codec "g" member forked) ended 2 :=
      .next (c := (2, OneGroup.codec.toB64 afterRival)) hfirst rfl (by decide) rfl (by decide)
    have hlength := hlongest ended 2 hsecond
    have hepoch := hrun.epoch Wallet.laws (e := 0) (by decide)
    have hone : Wallet.crypto.groupEpoch
        (finalOf Wallet.crypto OneGroup.codec "g" member forked) "g" = some 1 := by decide
    rw [hone] at hepoch
    have := Option.some.inj hepoch
    omega
  · intro h
    have hdevice := h.device
    revert hdevice
    decide
  · intro h
    have hothers := h.others "h" (by decide)
    revert hothers
    decide

end SpecterComs.LoggedRuns
