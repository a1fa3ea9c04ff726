import Mathlib.Algebra.Order.BigOperators.Group.List
import Mathlib.Data.Prod.Lex
import SpecterComs.Verification.Chat.Attempts

/-! # Retries are bounded

Each row is decrypted at most `maxDecryptAttempts` times. A pass that decrypts nothing changes
no group, and one asked for while it runs is one pass more, so the engine comes to rest.
-/

namespace SpecterComs.Chat

variable {platform : Platform} {me : String}

namespace DeliveryEngine

variable {saved : List (Kind × String)} {e e' : DeliveryEngine}

/-! ## A measure for the steps of the engine -/

/-- The stored rows. -/
def places (e : DeliveryEngine) : List (Kind × String) :=
  (e.stores .channel).rows.map (fun row => (.channel, row.id)) ++
    (e.stores .dm).rows.map fun row => (.dm, row.id)

/-- The decryptions that are left. -/
def budget (e : DeliveryEngine) : ℕ :=
  maxDecryptAttempts * e.places.length - e.decrypted.length

/-- A list over `keys` in which nothing stands more than `n` times. -/
theorem length_le_mul {α : Type} [BEq α] [LawfulBEq α] {n : ℕ} {xs keys : List α}
    (hcount : ∀ x, xs.count x ≤ n) (hkeys : ∀ x ∈ xs, x ∈ keys) : xs.length ≤ n * keys.length := by
  induction keys generalizing xs with
  | nil =>
      obtain rfl : xs = [] := List.eq_nil_iff_forall_not_mem.mpr fun x hx => nomatch hkeys x hx
      exact Nat.zero_le _
  | cons key keys ih =>
      have hrest : (xs.filter fun x => !(x == key)).length ≤ n * keys.length := by
        refine ih (fun x => (List.filter_sublist.count_le x).trans (hcount x)) fun x hx => ?_
        obtain ⟨hmem, hne⟩ := List.mem_filter.mp hx
        exact (List.mem_cons.mp (hkeys x hmem)).resolve_left (by simpa using hne)
      have hkey : (xs.filter (· == key)).length ≤ n := by
        rw [← List.count_eq_length_filter]
        exact hcount key
      rw [List.length_eq_length_filter_add (· == key), List.length_cons, Nat.mul_succ, Nat.add_comm]
      exact Nat.add_le_add hrest hkey

theorem Inv.length_le (h : Inv e saved) :
    e.decrypted.length ≤ maxDecryptAttempts * e.places.length := by
  refine length_le_mul h.count_le fun ⟨kind, id⟩ hmem => ?_
  obtain ⟨row, hrow⟩ := Option.isSome_iff_exists.mp (h.stored hmem)
  have hrows : row ∈ (e.stores kind).rows := List.mem_of_find?_eq_some hrow
  obtain rfl := Store.get_eq_some hrow
  cases kind with
  | channel => exact List.mem_append_left _ (List.mem_map_of_mem hrows)
  | dm => exact List.mem_append_right _ (List.mem_map_of_mem hrows)

/-- A bundle that does not open is tried once more. -/
def taskWork : DecryptTask → ℕ
  | .retry _ => 0
  | .relay _ => 1
  | .bundle _ isRetry => if isRetry then 1 else 3

def runningWork : RunningTask → ℕ
  | .retry _ => 0
  | .relay _ => 1
  | .bundle _ isRetry => if isRetry then 1 else 3

/-- The messages and bundles to decrypt. -/
def work (e : DeliveryEngine) : ℕ :=
  (e.chain.map taskWork).sum + e.running.elim 0 runningWork + 2 * e.failedBundles.length

/-- The passes that are asked for. -/
def asked (entries : List RetryEntry) : ℕ :=
  (entries.map fun entry => if entry.again then 2 else 1).sum

def phase : RunningTask → ℕ
  | .retry ⟨_, _, some _⟩ => 2
  | _ => 1

/-- The tasks that have to begin and to end, and the outcome that has to be saved. -/
def todo (e : DeliveryEngine) : ℕ :=
  3 * e.chain.length + e.running.elim 0 phase

abbrev Rank := ℕ ×ₗ ℕ ×ₗ ℕ ×ₗ ℕ ×ₗ ℕ

def rank (e : DeliveryEngine) : Rank :=
  toLex (e.work, toLex (e.budget, toLex (e.changes.length, toLex (asked e.retrying, e.todo))))

theorem rank_lt (h : e'.work < e.work ∨ e'.work ≤ e.work ∧ (e'.budget < e.budget ∨
    e'.budget ≤ e.budget ∧ (e'.changes.length < e.changes.length ∨
      e'.changes.length ≤ e.changes.length ∧ (asked e'.retrying < asked e.retrying ∨
        asked e'.retrying ≤ asked e.retrying ∧ e'.todo < e.todo)))) : e'.rank < e.rank := by
  simp only [rank, Prod.Lex.toLex_lt_toLex]
  omega

theorem asked_filter (entries : List RetryEntry) (key : RetryKey) :
    asked (entries.filter (·.key ≠ key)) ≤ asked entries :=
  (List.filter_sublist.map _).sum_le_sum (by simp)

/-- An entry with another pass asked for counts two. -/
theorem asked_filter_again {entries : List RetryEntry} {key : RetryKey}
    (h : entries.any fun entry => entry.key = key ∧ entry.again) :
    asked (entries.filter (·.key ≠ key)) + 2 ≤ asked entries := by
  induction entries with
  | nil => cases h
  | cons entry entries ih =>
      by_cases hentry : entry.key = key ∧ entry.again
      · have hrest := asked_filter entries key
        simp only [asked] at hrest ⊢
        simp [hentry.1, hentry.2] at hrest ⊢
        omega
      · have hrest := ih (by simpa [hentry] using h)
        simp only [asked] at hrest ⊢
        by_cases hkey : entry.key = key
        · simp [hkey] at hrest ⊢
          omega
        · simp [hkey] at hrest ⊢
          omega

@[simp] theorem chain_work_retryPending (e : DeliveryEngine) (key : RetryKey) :
    ((e.retryPending key).chain.map taskWork).sum = (e.chain.map taskWork).sum := by
  unfold retryPending
  split_ifs <;> simp [taskWork]

theorem work_onGroupChanged (e : DeliveryEngine) (groupId : String) :
    (e.onGroupChanged me groupId).work ≤ e.work := by
  unfold onGroupChanged
  by_cases hempty : groupId = ""
  · rw [if_pos hempty]
  · rw [if_neg hempty]
    have hsplit := List.length_eq_length_filter_add (l := e.failedBundles) (·.groupId = groupId)
    have hretries : ∀ kind : Kind, ((e.failedBundles.filter (·.groupId = groupId)).map fun bundle =>
        taskWork (.bundle { bundle with kind } true)).sum =
          (e.failedBundles.filter (·.groupId = groupId)).length := by
      simp [taskWork]
    simp only [work, failedBundles_retryPending, running_retryPending, List.map_append,
      List.sum_append, List.map_map, Function.comp_def, chain_work_retryPending, hretries,
      decide_not]
    omega

/-- A pass that ends with another one asked for is followed by one. -/
theorem endPass_lt (e : DeliveryEngine) (key : RetryKey) (pass : RetryPass)
    (hrunning : e.running = some (.retry pass)) :
    asked (e.endPass key).retrying < asked e.retrying ∨
      asked (e.endPass key).retrying ≤ asked e.retrying ∧ (e.endPass key).todo < e.todo := by
  simp only [endPass]
  split_ifs with hagain
  · left
    have hle := asked_filter_again hagain
    unfold retryPending
    split_ifs with hempty hany
    · simp only
      omega
    · obtain ⟨entry, hentry, hkey⟩ := List.any_eq_true.mp hany
      have hne := (List.mem_filter.mp hentry).2
      simp at hne hkey
      exact absurd hkey hne
    · simp only [asked, List.map_append, List.sum_append] at hle ⊢
      simp only [List.map_cons, List.map_nil, List.sum_cons, List.sum_nil, Bool.false_eq_true,
        if_false]
      omega
  · right
    refine ⟨asked_filter _ _, ?_⟩
    have hphase : 0 < phase (.retry pass) := by
      unfold phase
      split <;> omega
    simp only [todo, hrunning, Option.elim_none, Option.elim_some]
    omega

theorem runningWork_bundle_pos (bundle : SyncBundle) (isRetry : Bool) :
    0 < runningWork (.bundle bundle isRetry) := by
  cases isRetry <;> simp [runningWork]

theorem keepBundle_lt {bundle : SyncBundle} {isRetry : Bool} {changes : List String}
    {reason : String} (hrunning : e.running = some (.bundle bundle isRetry)) :
    ({ e with running := none, changes := e.changes ++ changes }.keepBundle
      bundle isRetry reason).work < e.work := by
  unfold keepBundle
  split_ifs with hkeep
  · have hfirst : isRetry = false := by simpa using hkeep.1
    simp only [work, hrunning, hfirst, runningWork, List.length_append, List.length_singleton,
      Option.elim_none, Option.elim_some, Bool.false_eq_true, if_false]
    omega
  · have hpos := runningWork_bundle_pos bundle isRetry
    simp only [work, hrunning, Option.elim_none, Option.elim_some]
    omega

theorem work_endPass {pass : RetryPass} (key : RetryKey)
    (hrunning : e.running = some (.retry pass)) : (e.endPass key).work = e.work := by
  simp only [endPass]
  split_ifs with hagain
  · simp [work, hrunning, runningWork]
  · simp [work, hrunning, runningWork]

theorem length_places_merge {kind : Kind} {fixed : Option String}
    {batch : List (Incoming kind.Extra)}
    (h : (mergeRowsInto (e.stores kind) fixed batch).1.rows.length ≤ (e.stores kind).rows.length) :
    (e.merge kind fixed batch).places.length ≤ e.places.length := by
  simp only [places, merge, List.length_append, List.length_map]
  cases kind with
  | channel =>
      rw [Function.update_self, Function.update_of_ne Kind.noConfusion]
      exact Nat.add_le_add_right h _
  | dm =>
      rw [Function.update_self, Function.update_of_ne Kind.noConfusion]
      exact Nat.add_le_add_left h _

theorem budget_write (h : Inv e saved) {key : RetryKey} {row : Row key.kind.Extra}
    {todo : List (Row key.kind.Extra)} {opened : Opened} {now : String}
    (hrunning : e.running = some (.retry ⟨key, row :: todo, some opened⟩)) :
    (e.merge key.kind none [⟨retriedMsg row opened, now⟩]).budget ≤ e.budget := by
  have hrow := h.due _ hrunning row List.mem_cons_self
  obtain ⟨stored, hstored⟩ := Option.isSome_iff_exists.mp hrow.stored
  have hlength : (mergeRowsInto (e.stores key.kind) none
      [⟨retriedMsg row opened, now⟩]).1.rows.length ≤ (e.stores key.kind).rows.length :=
    length_merge_singleton (key_retriedMsg hrow.id hrow.timestamp opened) hstored
  exact Nat.sub_le_sub_right (Nat.mul_le_mul_left _ (length_places_merge hlength)) _

/-- Every step of the engine lowers the rank. -/
theorem rank_lt_step (h : Inv e saved) {i : Input} (hown : i.isOwn = true)
    (hstep : step platform me e i = some e') : e'.rank < e.rank := by
  cases i with
  | relay => cases hown
  | bundle => cases hown
  | retryChannel => cases hown
  | change => cases hown
  | save => cases hown
  | deliver index =>
      obtain ⟨groupId, hgroup, rfl⟩ := step_deliver hstep
      obtain ⟨hindex, -⟩ := List.getElem?_eq_some_iff.mp hgroup
      -- The change is used up, whatever passes it asks for.
      refine rank_lt (.inr ⟨work_onGroupChanged _ groupId, .inr ⟨?_, .inl ?_⟩⟩)
      · simp [budget, places]
      · rw [changes_onGroupChanged, List.length_eraseIdx_of_lt hindex]
        omega
  | begin readable =>
      obtain ⟨task, chain, hrunning, hchain, rfl⟩ := step_begin hstep
      have hwork : runningWork (e.beginTask platform readable task) = taskWork task := by
        cases task <;> rfl
      have hphase : phase (e.beginTask platform readable task) = 1 := by
        cases task <;> rfl
      refine rank_lt (.inr ⟨?_, .inr ⟨le_rfl, .inr ⟨le_rfl, .inr ⟨le_rfl, ?_⟩⟩⟩⟩)
      · simp only [work, hrunning, hchain, hwork, List.map_cons, List.sum_cons, Option.elim_none,
          Option.elim_some]
        omega
      · simp only [todo, hrunning, hchain, hphase, List.length_cons, Option.elim_none,
          Option.elim_some]
        omega
  | decrypt opened changes =>
      obtain ⟨key, row, todo, hrunning, rfl⟩ := step_decrypt hstep
      -- It may change groups, but it spends one of the decryptions that are left.
      have hlength := (h.decrypt hrunning opened changes).length_le
      refine rank_lt (.inr ⟨?_, .inl ?_⟩)
      · simp [work, hrunning, runningWork]
      · simp only [budget, places, List.length_append, List.length_singleton] at hlength ⊢
        omega
  | write now =>
      obtain ⟨key, row, todo, opened, hrunning, rfl⟩ := step_write hstep
      refine rank_lt (.inr ⟨?_, .inr ⟨budget_write h hrunning, .inr ⟨le_rfl, .inr ⟨le_rfl, ?_⟩⟩⟩⟩)
      · simp [work, hrunning, runningWork, merge]
      · simp [DeliveryEngine.todo, hrunning, phase, merge]
  | endPass =>
      obtain ⟨key, hrunning, rfl⟩ := step_endPass hstep
      refine rank_lt (.inr ⟨(work_endPass key hrunning).le, .inr ⟨?_, .inr ⟨?_,
        endPass_lt e key _ hrunning⟩⟩⟩)
      · simp [budget, places]
      · simp
  | endRelay changes fixed batch =>
      obtain ⟨kind, hrunning, rfl⟩ := step_endRelay hstep
      exact rank_lt (.inl (by simp [work, hrunning, runningWork, merge]))
  | endBundle changes rows =>
      cases rows with
      | error reason =>
          obtain ⟨bundle, isRetry, hrunning, rfl⟩ := step_closed hstep
          exact rank_lt (.inl (keepBundle_lt hrunning))
      | ok batch =>
          obtain ⟨bundle, isRetry, hrunning, rfl⟩ := step_opened hstep
          have hpos := runningWork_bundle_pos bundle isRetry
          refine rank_lt (.inl ?_)
          simp only [work, merge, hrunning, Option.elim_none, Option.elim_some]
          omega

/-! ## Runs -/

/-- Some task runs or waits, or a group change is on its way. -/
def Busy (e : DeliveryEngine) : Prop :=
  e.running ≠ none ∨ e.chain ≠ [] ∨ e.changes ≠ []

/-- No stored row may be retried, and the pass that runs has no row left. -/
structure NothingToRetry (e : DeliveryEngine) : Prop where
  rows : ∀ kind id row, (e.stores kind).get id = some row → isRetryable row = false
  pass : ∀ pass, e.running = some (.retry pass) → pass.todo = []

/-- Inputs that save rows, apart from those of the passes. -/
def Input.savesRows : Input → Bool
  | .save .. | .endRelay .. | .endBundle _ (.ok _) => true
  | _ => false

theorem kept_step {i : Input} (h : step platform me e i = some e') (kind : Kind) (id : String) :
    Kept ((e.stores kind).get id) ((e'.stores kind).get id) := by
  cases i with
  | relay kind =>
      obtain rfl := Option.some.inj h
      exact .refl _
  | bundle bundle =>
      obtain rfl := Option.some.inj h
      exact .refl _
  | retryChannel channelId =>
      obtain rfl := Option.some.inj h
      rw [stores_retryPending]
      exact .refl _
  | change groupId =>
      obtain rfl := Option.some.inj h
      exact .refl _
  | save kind' fixed batch =>
      obtain rfl := Option.some.inj h
      exact kept_merge e kind' fixed batch kind id
  | deliver index =>
      obtain ⟨groupId, -, rfl⟩ := step_deliver h
      rw [stores_onGroupChanged]
      exact .refl _
  | begin readable =>
      obtain ⟨task, chain, -, -, rfl⟩ := step_begin h
      exact .refl _
  | decrypt opened changes =>
      obtain ⟨key, row, todo, -, rfl⟩ := step_decrypt h
      exact .refl _
  | write now =>
      obtain ⟨key, row, todo, opened, -, rfl⟩ := step_write h
      exact kept_merge e key.kind none _ kind id
  | endPass =>
      obtain ⟨key, -, rfl⟩ := step_endPass h
      rw [stores_endPass]
      exact .refl _
  | endRelay changes fixed batch =>
      obtain ⟨kind', -, rfl⟩ := step_endRelay h
      exact kept_merge e kind' fixed (batch kind') kind id
  | endBundle changes rows =>
      cases rows with
      | error reason =>
          obtain ⟨bundle, isRetry, -, rfl⟩ := step_closed h
          rw [stores_keepBundle]
          exact .refl _
      | ok batch =>
          obtain ⟨bundle, isRetry, -, rfl⟩ := step_opened h
          exact kept_merge _ bundle.kind _ (batch bundle.kind) kind id

variable {is : List Input}

theorem kept_run (h : (delivery platform me).Run e is e') (kind : Kind) (id : String) :
    Kept ((e.stores kind).get id) ((e'.stores kind).get id) := by
  induction h with
  | nil e => exact .refl _
  | cons hi _ ih => exact (kept_step hi kind id).trans ih

theorem inv_run (h : (delivery platform me).Run start is e) : ∃ saved, Inv e saved :=
  h.invariant (P := fun e => ∃ saved, Inv e saved) (fun _ _ _ ⟨_, hs⟩ hi => hs.step hi)
    ⟨[], inv_start⟩

/-- The engine while nothing comes from outside. -/
abbrev alone (platform : Platform) (me : String) : StepSystem DeliveryEngine Input :=
  (delivery platform me).restrict fun _ i => i.isOwn

/-- The engine alone does not go on forever. -/
theorem settles (h : Inv e saved) (r : (alone platform me).Forever) (hr : r.state 0 = e) :
    False := by
  refine r.false_of_lt (f := rank) (P := fun e => ∃ saved, Inv e saved) ?_ ?_
    (hr ▸ ⟨saved, h⟩)
  · rintro s i t ⟨saved, hs⟩ hi
    exact hs.step (StepSystem.restrict_step.mp hi).2
  · rintro s i t ⟨saved, hs⟩ hi
    obtain ⟨hown, hi⟩ := StepSystem.restrict_step.mp hi
    exact rank_lt_step hs hown hi

/-- An engine that is busy can go on by itself. -/
theorem goes_on (h : Inv e saved) (hbusy : e.Busy) :
    ∃ i e', (alone platform me).step e i = some e' := by
  suffices hown : ∃ i : Input, i.isOwn = true ∧ (step platform me e i).isSome by
    obtain ⟨i, hi, hsome⟩ := hown
    obtain ⟨e', he'⟩ := Option.isSome_iff_exists.mp hsome
    exact ⟨i, e', StepSystem.restrict_step.mpr ⟨hi, he'⟩⟩
  cases hrunning : e.running with
  | some task =>
      rcases task with ⟨key, _ | ⟨row, todo⟩, _ | opened⟩ | kind | ⟨bundle, isRetry⟩
      · exact ⟨.endPass, rfl, by simp [step, hrunning]⟩
      · cases h.opened _ hrunning rfl
      · exact ⟨.decrypt ⟨none, none⟩ [], rfl, by simp [step, hrunning]⟩
      · exact ⟨.write "", rfl, by simp [step, hrunning]⟩
      · exact ⟨.endRelay [] none fun _ => [], rfl, by simp [step, hrunning]⟩
      · exact ⟨.endBundle [] (.error ""), rfl, by simp [step, hrunning]⟩
  | none =>
      rcases hbusy with hbusy | hchain | hchanges
      · exact absurd hrunning hbusy
      · obtain ⟨task, chain, hchain⟩ := List.exists_cons_of_ne_nil hchain
        exact ⟨.begin true, rfl, by simp [step, hrunning, hchain]⟩
      · exact ⟨.deliver 0, rfl, by
          simpa [step] using List.length_pos_iff.mpr hchanges⟩

theorem NothingToRetry.step (h : NothingToRetry e) {i : Input} (hstore : i.savesRows = false)
    (hstep : step platform me e i = some e') :
    NothingToRetry e' ∧ e'.stores = e.stores ∧ e'.decrypted = e.decrypted := by
  have hframe : ∀ {e' : DeliveryEngine}, e'.stores = e.stores → (∀ pass,
      e'.running = some (.retry pass) → pass.todo = []) → NothingToRetry e' :=
    fun hstores hpass => ⟨hstores ▸ h.rows, hpass⟩
  cases i with
  | relay kind =>
      obtain rfl := Option.some.inj hstep
      exact ⟨⟨h.rows, h.pass⟩, rfl, rfl⟩
  | bundle bundle =>
      obtain rfl := Option.some.inj hstep
      exact ⟨⟨h.rows, h.pass⟩, rfl, rfl⟩
  | retryChannel channelId =>
      obtain rfl := Option.some.inj hstep
      exact ⟨hframe (by simp) (by simpa using h.pass), by simp, by simp⟩
  | change groupId =>
      obtain rfl := Option.some.inj hstep
      exact ⟨⟨h.rows, h.pass⟩, rfl, rfl⟩
  | save => cases hstore
  | deliver index =>
      obtain ⟨groupId, -, rfl⟩ := step_deliver hstep
      exact ⟨hframe (by simp) (by simpa using h.pass), by simp, by simp⟩
  | begin readable =>
      obtain ⟨task, chain, -, -, rfl⟩ := step_begin hstep
      refine ⟨⟨h.rows, ?_⟩, rfl, rfl⟩
      cases task with
      | retry key =>
          rintro pass ⟨⟩
          change e.retryRows platform key readable = []
          unfold retryRows
          split_ifs
          · refine List.eq_nil_iff_forall_not_mem.mpr fun row hrow => ?_
            obtain ⟨hstored, hretry⟩ := (pickRetryRows_spec platform _ _).2 row hrow
            rw [h.rows key.kind row.id row hstored] at hretry
            cases hretry
          · rfl
      | relay kind => nofun
      | bundle bundle isRetry => nofun
  | decrypt opened changes =>
      obtain ⟨key, row, todo, hrunning, rfl⟩ := step_decrypt hstep
      cases h.pass _ hrunning
  | write now =>
      obtain ⟨key, row, todo, opened, hrunning, rfl⟩ := step_write hstep
      cases h.pass _ hrunning
  | endPass =>
      obtain ⟨key, -, rfl⟩ := step_endPass hstep
      exact ⟨hframe (by simp) (by simp), by simp, by simp⟩
  | endRelay => cases hstore
  | endBundle changes rows =>
      cases rows with
      | error reason =>
          obtain ⟨bundle, isRetry, -, rfl⟩ := step_closed hstep
          exact ⟨hframe (by simp) (by simp), by simp, by simp⟩
      | ok batch => cases hstore

theorem NothingToRetry.run (h : (delivery platform me).Run e is e')
    (hstores : ∀ i ∈ is, Input.savesRows i = false) (he : NothingToRetry e) :
    NothingToRetry e' ∧ e'.stores = e.stores ∧ e'.decrypted = e.decrypted := by
  induction h with
  | nil e => exact ⟨he, rfl, rfl⟩
  | cons hi _ ih =>
      obtain ⟨hnext, hstore, hdecrypted⟩ := he.step (hstores _ List.mem_cons_self) hi
      obtain ⟨hlast, hstore', hdecrypted'⟩ :=
        ih (fun i his => hstores i (List.mem_cons_of_mem _ his)) hnext
      exact ⟨hlast, hstore'.trans hstore, hdecrypted'.trans hdecrypted⟩

end DeliveryEngine

open DeliveryEngine in
/-- Retries are bounded: a row is decrypted at most `maxDecryptAttempts` times and its attempts
do not drop while it is unreadable, whatever is merged. The engine alone comes to rest, and
where nothing may be retried its passes decrypt nothing, so they change no group. -/
theorem retries_bounded {inputs : List Input} {e : DeliveryEngine}
    (h : (delivery platform me).Run start inputs e) :
    (∀ kind id, e.decrypted.count (kind, id) ≤ maxDecryptAttempts) ∧
      (∀ later e', (delivery platform me).Run e later e' →
        ∀ kind id, Kept ((e.stores kind).get id) ((e'.stores kind).get id)) ∧
      (¬ ∃ r : (alone platform me).Forever, r.state 0 = e) ∧
      (e.Busy → ∃ i e', (alone platform me).step e i = some e') ∧
      (e.NothingToRetry → ∀ later e', (delivery platform me).Run e later e' →
        (∀ i ∈ later, Input.savesRows i = false) →
          e'.NothingToRetry ∧ e'.stores = e.stores ∧ e'.decrypted = e.decrypted) := by
  obtain ⟨saved, hinv⟩ := inv_run h
  refine ⟨fun kind id => hinv.count_le (kind, id), fun later e' hrun => kept_run hrun, ?_,
    goes_on hinv, fun hnothing later e' hrun hsaves => hnothing.run hrun hsaves⟩
  rintro ⟨r, hr⟩
  exact settles hinv r hr

/-! A row whose retry changes its own group: another pass follows. -/

def unopened : Msg ChannelExtra where
  id := "m"
  place := "c"
  senderId := none
  callsign := none
  encryptedContent := "x"
  plaintext := none
  timestamp := "t"
  receivedAt := none
  failReason := "no_epoch"
  attempts := some 1
  relayedBy := none
  extra := ⟨none, none⟩

/-- The pass that the change of "c" asks for, with these rows to decrypt. -/
def passOver (rows : List ChannelRow) : DeliveryEngine where
  stores := Function.update (fun _ => .empty) .channel
    (mergeRowsInto .empty none [⟨unopened, "now"⟩]).1
  running := some (.retry ⟨⟨.channel, "c"⟩, rows, none⟩)
  chain := []
  retrying := [⟨⟨.channel, "c"⟩, false⟩]
  failedBundles := []
  changes := []
  decrypted := []

def storedRow : ChannelRow := rowOf (⟨unopened, "now"⟩, ("m", "t"))

theorem run_passOver : (delivery isoPlatform "u").Run .start
    [.save .channel none [⟨unopened, "now"⟩], .change "c", .deliver 0, .begin true]
      (passOver [storedRow]) := by
  have hindex : indexRange (mergeRowsInto .empty none [⟨unopened, "now"⟩]).1 "c" none =
      [storedRow] := List.mergeSort_singleton _
  have hrows : pickRetryRows isoPlatform (getChannelMessages isoPlatform
      (mergeRowsInto .empty none [⟨unopened, "now"⟩]).1 "c" storeWindow) = [storedRow] := by
    rw [getChannelMessages, hindex, sortByTimestamp, List.mergeSort_singleton]
    exact List.mergeSort_singleton _
  rw [← hrows]
  exact .cons rfl (.cons rfl (.cons rfl (.cons rfl (.nil _))))

theorem run_storedRow : ∃ e, (delivery isoPlatform "u").Run (passOver [storedRow])
    [.decrypt ⟨none, some "no_epoch"⟩ ["c"], .deliver 0, .write "now", .endPass] e ∧
      (e.decrypted, e.chain) = ([(.channel, "m")], [.retry ⟨.channel, "c"⟩]) := by
  have hexec : ((delivery isoPlatform "u").exec (passOver [storedRow])
      [.decrypt ⟨none, some "no_epoch"⟩ ["c"], .deliver 0, .write "now", .endPass]).map
        (fun e => (e.decrypted, e.chain)) =
          some ([(.channel, "m")], [.retry ⟨.channel, "c"⟩]) := rfl
  obtain ⟨e, he, hends⟩ := Option.map_eq_some_iff.mp hexec
  exact ⟨e, StepSystem.exec_eq_some_iff.mp he, hends⟩

open DeliveryEngine in
theorem retries_bounded_own_change : ∃ inputs e,
    (delivery isoPlatform "u").Run start inputs e ∧
      (e.decrypted, e.chain) = ([(.channel, "m")], [.retry ⟨.channel, "c"⟩]) ∧
      (∀ kind id, e.decrypted.count (kind, id) ≤ maxDecryptAttempts) ∧
      ¬ ∃ r : (alone isoPlatform "u").Forever, r.state 0 = e := by
  obtain ⟨e, hrun, hends⟩ := run_storedRow
  have hall := run_passOver.append hrun
  obtain ⟨hcount, -, hsettles, -⟩ := retries_bounded hall
  exact ⟨_, e, hall, hends, hcount, hsettles⟩

end SpecterComs.Chat
