import SpecterComs.Library.StepSystem
import SpecterComs.Model.Billing.UsageCycle
import SpecterComs.Verification.Chat.Dates

/-! # What a read of the usage cycle reports

The bytes of a cycle are those recorded since it began, as long as each rollover comes before the
first usage of the new cycle, and finds the start that it read.
-/

namespace SpecterComs.UsageCycle

open Chat (msPerDay epochDay dayOfYear isLeap monthLengths momentOf yearOfDay splitMonths
  dayOfYear_yearOfDay dayOfYear_succ sum_monthLengths)

/-! ## Months -/

variable {lengths : List ℕ} {d read : ℕ}

theorem sum_take_splitMonths (h : d < lengths.sum) :
    (lengths.take (splitMonths lengths d).1).sum + (splitMonths lengths d).2 = d := by
  induction lengths generalizing d with
  | nil => simp at h
  | cons n ns ih =>
      by_cases hd : d < n
      · simp [splitMonths, hd]
      · have hrest : d - n < ns.sum := by
          simp only [List.sum_cons] at h
          omega
        have hsum := ih hrest
        simp only [splitMonths, if_neg hd, List.take_succ_cons, List.sum_cons]
        omega

theorem splitMonths_lt_length (h : d < lengths.sum) :
    (splitMonths lengths d).1 < lengths.length := by
  obtain ⟨n, hn, -⟩ := Chat.splitMonths_spec h
  exact (List.getElem?_eq_some_iff.mp hn).1

/-- The month after the one of day `d`, on the same day of the month, is at least 28 days later. -/
theorem makeDay_succ {year : ℤ} (h : d < (monthLengths (isLeap year)).sum) :
    dayOfYear year + d - epochDay + 28 ≤
      makeDay year ((splitMonths (monthLengths (isLeap year)) d).1 + 1)
        ((splitMonths (monthLengths (isLeap year)) d).2 + 1) := by
  have hsum := sum_take_splitMonths h
  have hlt := splitMonths_lt_length h
  generalize splitMonths (monthLengths (isLeap year)) d = p at hsum hlt ⊢
  obtain ⟨m, k⟩ := p
  have hlength : (monthLengths (isLeap year)).length = 12 := by cases isLeap year <;> rfl
  rw [hlength] at hlt
  dsimp only at hsum hlt ⊢
  rcases Nat.lt_or_ge (m + 1) 12 with hin | hout
  · -- The next month is one of the same year.
    have hdiv : (m + 1) / 12 = 0 := Nat.div_eq_of_lt hin
    have hmod : (m + 1) % 12 = m + 1 := Nat.mod_eq_of_lt hin
    have hlen : ∀ n ∈ monthLengths (isLeap year), 28 ≤ n := by cases isLeap year <;> decide
    have hm : m < (monthLengths (isLeap year)).length := hlength ▸ hlt
    have htake : ((monthLengths (isLeap year)).take (m + 1)).sum =
        ((monthLengths (isLeap year)).take m).sum + (monthLengths (isLeap year))[m] := by
      rw [List.take_add_one, List.getElem?_eq_getElem hm, Option.toList_some, List.sum_append,
        List.sum_singleton]
    have hmonth := hlen _ (List.getElem_mem hm)
    unfold makeDay
    simp only [hdiv, hmod, htake, Nat.cast_zero, add_zero]
    omega
  · -- It is the first one of the next year.
    obtain rfl : m = 11 := by omega
    have hyear := dayOfYear_succ year
    have hfirst : ((monthLengths (isLeap year)).take 11).sum + 31 =
        (monthLengths (isLeap year)).sum := by cases isLeap year <;> rfl
    rw [sum_monthLengths] at hfirst
    unfold makeDay
    simp only [Nat.reduceAdd, Nat.reduceDiv, Nat.reduceMod, List.take_zero, List.sum_nil,
      Nat.cast_one, Nat.cast_zero, add_zero, hyear]
    push_cast
    split_ifs at hfirst ⊢ <;> omega

theorem lt_addMonths (zone : Zone) (d : ℤ) : d < addMonths zone d 1 := by
  have hlocal := zone.localTime_near d
  unfold addMonths
  generalize zone.localTime d = t at hlocal
  obtain ⟨hlow, hhigh⟩ := dayOfYear_yearOfDay (t / msPerDay + epochDay)
  have hday : (t / msPerDay + epochDay - dayOfYear (yearOfDay (t / msPerDay + epochDay))).toNat <
      (monthLengths (isLeap (yearOfDay (t / msPerDay + epochDay)))).sum := by
    rw [dayOfYear_succ] at hhigh
    rw [sum_monthLengths]
    split_ifs at hhigh ⊢ <;> omega
  have hmonth := makeDay_succ hday
  rw [Int.toNat_of_nonneg (by omega)] at hmonth
  have hutc := zone.utc_near
    (makeDay (momentOf t).year ((momentOf t).month - 1 + 1) (momentOf t).day * msPerDay +
      t % msPerDay)
  have hlater : t / msPerDay + 28 ≤
      makeDay (momentOf t).year ((momentOf t).month - 1 + 1) (momentOf t).day := by
    simp only [momentOf, Nat.add_sub_cancel]
    omega
  dsimp only
  unfold msPerDay at *
  omega

theorem catchUp_spec {zone : Zone} {now : ℤ} {fuel : ℕ} {s : ℤ} (hfuel : (now - s).toNat ≤ fuel) :
    now < addMonths zone (catchUp zone now fuel s) 1 ∧ (s ≤ now → catchUp zone now fuel s ≤ now) := by
  induction fuel generalizing s with
  | zero =>
      have hlater := lt_addMonths zone s
      exact ⟨by unfold catchUp; omega, id⟩
  | succ fuel ih =>
      unfold catchUp
      split_ifs with hdue
      · have hlater := lt_addMonths zone s
        obtain ⟨hlt, hle⟩ := ih (s := addMonths zone s 1) (by omega)
        exact ⟨hlt, fun _ => hle hdue⟩
      · exact ⟨not_le.mp hdue, id⟩

/-! ## Runs -/

/-- The row and the reads, what has been recorded so far and when, and what had been when each read
selected the row. -/
structure State where
  db : Db
  usage : List (ℤ × ℕ)
  seen : ℕ → List (ℤ × ℕ)

/-- All bytes recorded since a time in milliseconds. -/
def since (start : ℤ) (usage : List (ℤ × ℕ)) : ℕ :=
  ((usage.filter fun u => 1000 * start ≤ u.1).map Prod.snd).sum

namespace State

def initial (clock : ℤ) : State where
  db :=
    { clock := clock
      row := none
      reads := fun _ => none }
  usage := []
  seen := fun _ => []

variable (s : State)

/-- The time that the read of a step takes for now. -/
def now : Input → ℤ
  | .update read =>
      match s.db.reads read with
      | some (.rolling _ now _) => now
      | _ => toMs s.db.clock
  | _ => toMs s.db.clock

/-- What had been recorded when the row of the response was read. -/
def recorded : Input → List (ℤ × ℕ)
  | .now read => s.seen read
  | _ => s.usage

end State

def usageCycle (env : Env) : StepSystem State Input where
  step s i := (step env s.db i).map fun db =>
    { db := db
      usage :=
        match i with
        | .recordUsage bytesOut => s.usage ++ [(s.db.clock, bytesOut)]
        | _ => s.usage
      seen :=
        match i with
        | .select read => Function.update s.seen read s.usage
        | _ => s.seen }

/-- A time is in the cycle that begins at `start`. -/
def InCycle (env : Env) (start now : ℤ) : Prop :=
  start ≤ now ∧ now < addMonths env.zone start 1

/-- The step responds, if it does, with the current cycle and its bytes, and leaves the current
cycle in the row. -/
structure Accounted (env : Env) (s : State) (i : Input) (t : State) : Prop where
  reported : ∀ r, response env s.db i = some r →
    InCycle env r.startAt (s.now i) ∧ r.bytesOut = since r.startAt (s.recorded i)
  stored : ∀ r, response env s.db i = some r →
    ∃ row, t.db.row = some row ∧ InCycle env (toMs row.cycleStartAt) (s.now i)

/-- An update finds the start that was read, to the microsecond, and comes before the first usage of
the cycle that it begins. -/
def InTime (s : State) : Input → Prop
  | .update read => ∀ row now cycleStart, s.db.reads read = some (.rolling row now cycleStart) →
      unchanged s.db row = true ∧ since cycleStart s.usage = 0
  | _ => True

/-! ## What holds until an update comes too late -/

/-- What a read in progress knows. -/
def ReadInv (env : Env) (s : State) (stored : Row) (seen : List (ℤ × ℕ)) : Read → Prop
  | .selected row =>
      row.cycleStartAt ≤ s.db.clock ∧
        row.cycleBytesOut = since (toMs row.cycleStartAt) seen ∧
        (stored.cycleStartAt = row.cycleStartAt ∨ due env row (toMs s.db.clock) = true)
  | .rolling row now cycleStart =>
      now ≤ toMs s.db.clock ∧ due env row now = true ∧ InCycle env cycleStart now

structure Inv (env : Env) (s : State) : Prop where
  unused : s.db.row = none → s.usage = [] ∧ ∀ read, s.db.reads read = none
  started : ∀ row, s.db.row = some row → row.cycleStartAt ≤ s.db.clock
  counted : ∀ row, s.db.row = some row →
    row.cycleBytesOut = since (toMs row.cycleStartAt) s.usage
  reads : ∀ row, s.db.row = some row → ∀ read r, s.db.reads read = some r →
    ReadInv env s row (s.seen read) r

theorem inv_initial (env : Env) (clock : ℤ) : Inv env (.initial clock) where
  unused _ := ⟨rfl, fun _ => rfl⟩
  started _ h := by cases h
  counted _ h := by cases h
  reads _ h := by cases h

variable {env : Env} {s t : State}

theorem toMs_le {a b : ℤ} (h : a ≤ b) : toMs a ≤ toMs b :=
  Int.ediv_le_ediv (by decide) h

theorem toMs_mul (ms : ℤ) : toMs (1000 * ms) = ms :=
  Int.mul_ediv_cancel_left ms (by decide)

theorem mul_toMs_le (us : ℤ) : 1000 * toMs us ≤ us :=
  Int.mul_ediv_self_le (by decide)

variable {row : Row}

theorem due_mono {now now' : ℤ} (h : now ≤ now') (hdue : due env row now = true) :
    due env row now' = true := by
  unfold due at *
  rw [decide_eq_true_eq] at *
  exact hdue.trans h

theorem since_append {start : ℤ} {usage : List (ℤ × ℕ)} {time : ℤ} (bytesOut : ℕ)
    (h : 1000 * start ≤ time) :
    since start (usage ++ [(time, bytesOut)]) = since start usage + bytesOut := by
  simp [since, List.filter_append, h]

theorem inCycle_cycleStart {now : ℤ} (h : toMs row.cycleStartAt ≤ now) :
    InCycle env (cycleStart env row now) now :=
  have hspec := catchUp_spec (le_refl (now - toMs row.cycleStartAt).toNat)
  ⟨hspec.2 h, hspec.1⟩

theorem ReadInv.later {stored stored' : Row} {seen : List (ℤ × ℕ)} {r : Read}
    (h : ReadInv env s stored seen r) (hclock : s.db.clock ≤ t.db.clock)
    (hstart : stored'.cycleStartAt = stored.cycleStartAt) : ReadInv env t stored' seen r := by
  cases r with
  | selected row =>
      obtain ⟨hle, hbytes, hstored⟩ := h
      refine ⟨hle.trans hclock, hbytes, ?_⟩
      rcases hstored with hsame | hdue
      · exact .inl (hstart.trans hsame)
      · exact .inr (due_mono (toMs_le hclock) hdue)
  | rolling row now cycleStart =>
      obtain ⟨hnow, hdue, hcycle⟩ := h
      exact ⟨hnow.trans (toMs_le hclock), hdue, hcycle⟩

theorem Inv.wait (h : Inv env s) (us : ℕ) :
    Inv env { s with db := { s.db with clock := s.db.clock + us } } where
  unused := h.unused
  started row hrow := (h.started row hrow).trans (by dsimp only; omega)
  counted := h.counted
  reads row hrow read r hr := (h.reads row hrow read r hr).later (by dsimp only; omega) rfl

theorem Inv.recordUsage (h : Inv env s) (bytesOut : ℕ) :
    Inv env
      { s with
        db := { s.db with row := some (recordUsage env s.db bytesOut) }
        usage := s.usage ++ [(s.db.clock, bytesOut)] } := by
  cases hrow : s.db.row with
  | none =>
      obtain ⟨husage, hreads⟩ := h.unused hrow
      have hcreated := env.createdAt_le s.db.clock
      refine ⟨nofun, ?_, ?_, ?_⟩
      · rintro row ⟨⟩
        simpa [UsageCycle.recordUsage, newRow, hrow] using hcreated
      · rintro row ⟨⟩
        have hle := (mul_toMs_le _).trans hcreated
        simp only [UsageCycle.recordUsage, newRow, hrow, Option.getD_none]
        rw [since_append bytesOut hle, husage]
        rfl
      · intro row _ read r hr
        dsimp only at hr
        rw [hreads read] at hr
        cases hr
  | some row =>
      refine ⟨nofun, ?_, ?_, ?_⟩
      · rintro row' ⟨⟩
        simpa [UsageCycle.recordUsage, hrow] using h.started row hrow
      · rintro row' ⟨⟩
        have hle := (mul_toMs_le _).trans (h.started row hrow)
        simp only [UsageCycle.recordUsage, hrow, Option.getD_some]
        rw [since_append bytesOut hle, ← h.counted row hrow]
      · rintro row' ⟨⟩ read r hr
        refine (h.reads row hrow read r hr).later (le_refl _) ?_
        simp [UsageCycle.recordUsage, hrow]

theorem Inv.ensureRow (h : Inv env s) :
    Inv env { s with db := { s.db with row := some (s.db.row.getD (newRow env s.db)) } } := by
  cases hrow : s.db.row with
  | none =>
      obtain ⟨husage, hreads⟩ := h.unused hrow
      refine ⟨nofun, ?_, ?_, ?_⟩
      · rintro row ⟨⟩
        exact env.createdAt_le s.db.clock
      · rintro row ⟨⟩
        dsimp only
        rw [husage]
        rfl
      · intro row _ read r hr
        dsimp only at hr
        rw [hreads read] at hr
        cases hr
  | some row =>
      have hsame : ({ s with db := { s.db with row := some row } } : State) = s := by rw [← hrow]
      rw [Option.getD_some, hsame]
      exact h

theorem Inv.select (h : Inv env s) (hrow : s.db.row = some row) :
    Inv env
      { s with
        db := { s.db with reads := Function.update s.db.reads read (some (.selected row)) }
        seen := Function.update s.seen read s.usage } := by
  refine ⟨fun hnone => ?_, h.started, h.counted, ?_⟩
  · rw [hrow] at hnone
    cases hnone
  · intro row' hrow' read' r hr
    obtain rfl := Option.some.inj (hrow.symm.trans hrow')
    dsimp only at hr ⊢
    by_cases hread : read' = read
    · subst hread
      rw [Function.update_self] at hr ⊢
      obtain rfl := Option.some.inj hr
      exact ⟨h.started row hrow, h.counted row hrow, .inl rfl⟩
    · rw [Function.update_of_ne hread] at hr ⊢
      exact h.reads row hrow read' r hr

/-- A read that ends leaves the others. -/
theorem Inv.closeRead (h : Inv env s) (read : ℕ) :
    Inv env { s with db := closeRead s.db read } := by
  have hreads : ∀ read' r, (UsageCycle.closeRead s.db read).reads read' = some r →
      s.db.reads read' = some r := by
    intro read' r hr
    dsimp only [UsageCycle.closeRead] at hr
    by_cases hread : read' = read
    · subst hread
      rw [Function.update_self] at hr
      cases hr
    · rwa [Function.update_of_ne hread] at hr
  refine ⟨fun hnone => ⟨(h.unused hnone).1, fun read' => ?_⟩, h.started, h.counted, ?_⟩
  · refine Option.eq_none_iff_forall_ne_some.mpr fun r hr => ?_
    have hopen := hreads read' r hr
    rw [(h.unused hnone).2 read'] at hopen
    cases hopen
  · intro row hrow read' r hr
    exact h.reads row hrow read' r (hreads read' r hr)

theorem Inv.rolling (h : Inv env s) (hread : s.db.reads read = some (.selected row))
    (hdue : due env row (toMs s.db.clock) = true) :
    Inv env
      { s with
        db := { s.db with
          reads := Function.update s.db.reads read
            (some (.rolling row (toMs s.db.clock) (cycleStart env row (toMs s.db.clock)))) } } := by
  refine ⟨fun hnone => ?_, h.started, h.counted, ?_⟩
  · rw [(h.unused hnone).2 read] at hread
    cases hread
  · intro stored hstored read' r hr
    dsimp only at hr
    by_cases hsame : read' = read
    · subst hsame
      rw [Function.update_self] at hr
      obtain rfl := Option.some.inj hr
      obtain ⟨hle, -, -⟩ := h.reads stored hstored read' _ hread
      exact ⟨le_refl _, hdue, inCycle_cycleStart (toMs_le hle)⟩
    · rw [Function.update_of_ne hsame] at hr
      exact h.reads stored hstored read' r hr

theorem unchanged_some (h : unchanged s.db row = true) :
    ∃ stored, s.db.row = some stored ∧ stored.cycleStartAt = 1000 * toMs row.cycleStartAt := by
  unfold unchanged at h
  cases hrow : s.db.row with
  | none =>
      rw [hrow] at h
      cases h
  | some stored =>
      rw [hrow, Option.any_some, decide_eq_true_eq] at h
      exact ⟨stored, rfl, h⟩

/-- A rollover that comes in time begins the cycle with nothing recorded. -/
theorem Inv.update (h : Inv env s) {now cycleStart : ℤ}
    (hread : s.db.reads read = some (.rolling row now cycleStart))
    (hsame : unchanged s.db row = true) (hsince : since cycleStart s.usage = 0) :
    Inv env
      { s with
        db := { UsageCycle.closeRead s.db read with
          row := some { cycleBytesOut := 0, cycleStartAt := 1000 * cycleStart } } } := by
  obtain ⟨stored, hstored, hstart⟩ := unchanged_some hsame
  obtain ⟨hnow, hdue, hcycle⟩ := h.reads stored hstored read _ hread
  have hclock : 1000 * cycleStart ≤ s.db.clock := by
    have hle := mul_toMs_le s.db.clock
    have hcs := hcycle.1
    omega
  refine ⟨nofun, ?_, ?_, ?_⟩
  · rintro _ ⟨⟩
    exact hclock
  · rintro _ ⟨⟩
    dsimp only
    rw [toMs_mul]
    exact hsince.symm
  · rintro _ ⟨⟩ read' r hr
    have hr' := (h.closeRead read).reads stored hstored read' r hr
    cases r with
    | rolling row' now' cycleStart' => exact hr'
    | selected row' =>
        obtain ⟨hle, hbytes, hstored'⟩ := hr'
        refine ⟨hle, hbytes, .inr ?_⟩
        rcases hstored' with heq | hdue'
        · -- The start that this read has seen is the one that was due.
          have hms : toMs row'.cycleStartAt = toMs row.cycleStartAt := by
            rw [← heq, hstart, toMs_mul]
          unfold due at hdue ⊢
          rw [hms]
          exact due_mono hnow hdue
        · exact hdue'

/-! ## Steps -/

theorem accounted_of_none {i : Input} (h : response env s.db i = none) : Accounted env s i t where
  reported r hr := by
    rw [h] at hr
    cases hr
  stored r hr := by
    rw [h] at hr
    cases hr

/-- A read that finds no rollover due. -/
theorem Inv.accounted_now (h : Inv env s) (hread : s.db.reads read = some (.selected row))
    (hdue : ¬ due env row (toMs s.db.clock) = true) :
    Accounted env s (.now read) { s with db := UsageCycle.closeRead s.db read } := by
  obtain ⟨stored, hstored⟩ : ∃ stored, s.db.row = some stored := by
    cases hrow : s.db.row with
    | none =>
        rw [(h.unused hrow).2 read] at hread
        cases hread
    | some stored => exact ⟨stored, rfl⟩
  obtain ⟨hle, hbytes, hsame⟩ := h.reads stored hstored read _ hread
  have hcycle : InCycle env (toMs row.cycleStartAt) (toMs s.db.clock) := by
    unfold due at hdue
    rw [decide_eq_true_eq, not_le] at hdue
    exact ⟨toMs_le hle, hdue⟩
  have hresponse : response env s.db (.now read) = some (report row) := by
    simp only [response, hread, if_neg hdue]
  constructor
  · intro r hr
    obtain rfl := Option.some.inj (hresponse.symm.trans hr)
    exact ⟨hcycle, hbytes⟩
  · intro r _
    refine ⟨stored, hstored, ?_⟩
    rw [hsame.resolve_right hdue]
    exact hcycle

/-- A read that rolls over. -/
theorem Inv.accounted_update (h : Inv env s) {now cycleStart : ℤ}
    (hread : s.db.reads read = some (.rolling row now cycleStart))
    (hstep : (usageCycle env).step s (.update read) = some t) :
    (Accounted env s (.update read) t ↔ InTime s (.update read)) ∧
      (InTime s (.update read) → Inv env t) := by
  have hnow : s.now (.update read) = now := by simp only [State.now, hread]
  have hinTime : InTime s (.update read) ↔
      unchanged s.db row = true ∧ since cycleStart s.usage = 0 := by
    constructor
    · intro h
      exact h row now cycleStart hread
    · intro h row' now' cycleStart' hread'
      obtain ⟨rfl, rfl, rfl⟩ := Read.rolling.inj (Option.some.inj (hread.symm.trans hread'))
      exact h
  obtain ⟨stored, hstored⟩ : ∃ stored, s.db.row = some stored := by
    cases hrow : s.db.row with
    | none =>
        rw [(h.unused hrow).2 read] at hread
        cases hread
    | some stored => exact ⟨stored, rfl⟩
  obtain ⟨-, hdue, hcycle⟩ := h.reads stored hstored read _ hread
  rw [hinTime]
  by_cases hsame : unchanged s.db row = true
  · have hresponse : response env s.db (.update read) =
        some { startAt := cycleStart, bytesOut := 0 } := by
      simp only [response, hread, if_pos hsame]
    simp only [usageCycle, step, hread, if_pos hsame, Option.map_some] at hstep
    obtain rfl := Option.some.inj hstep
    refine ⟨⟨fun haccounted => ⟨hsame, ?_⟩, fun hC => ⟨?_, ?_⟩⟩, fun hC => ?_⟩
    · exact (haccounted.reported _ hresponse).2.symm
    · intro r hr
      obtain rfl := Option.some.inj (hresponse.symm.trans hr)
      rw [hnow]
      exact ⟨hcycle, hC.2.symm⟩
    · intro r _
      refine ⟨_, rfl, ?_⟩
      rw [hnow, toMs_mul]
      exact hcycle
    · exact h.update hread hC.1 hC.2
  · have hresponse : response env s.db (.update read) = some (report row) := by
      simp only [response, hread, if_neg hsame]
    -- The row was changed meanwhile, and the old cycle is reported.
    have hstale : ¬ Accounted env s (.update read) t := by
      intro haccounted
      have hlt := (haccounted.reported _ hresponse).1.2
      rw [hnow] at hlt
      unfold due at hdue
      rw [decide_eq_true_eq] at hdue
      exact absurd hdue (not_le.mpr hlt)
    exact ⟨iff_of_false hstale fun hC => hsame hC.1, fun hC => absurd hC.1 hsame⟩

/-- A step accounts for all bytes exactly if it is in time, and keeps the invariant if it is. -/
theorem step_accounted {i : Input} (h : Inv env s) (hstep : (usageCycle env).step s i = some t) :
    (Accounted env s i t ↔ InTime s i) ∧ (InTime s i → Inv env t) := by
  cases i with
  | wait us =>
      obtain rfl := Option.some.inj hstep
      exact ⟨iff_of_true (accounted_of_none rfl) trivial, fun _ => h.wait us⟩
  | recordUsage bytesOut =>
      obtain rfl := Option.some.inj hstep
      exact ⟨iff_of_true (accounted_of_none rfl) trivial, fun _ => h.recordUsage bytesOut⟩
  | ensureRow =>
      obtain rfl := Option.some.inj hstep
      exact ⟨iff_of_true (accounted_of_none rfl) trivial, fun _ => h.ensureRow⟩
  | select read =>
      cases hrow : s.db.row with
      | none => simp [usageCycle, step, hrow] at hstep
      | some row =>
          cases hread : s.db.reads read with
          | some r => simp [usageCycle, step, hrow, hread] at hstep
          | none =>
              simp only [usageCycle, step, hrow, hread, Option.map_some] at hstep
              obtain rfl := Option.some.inj hstep
              refine ⟨iff_of_true (accounted_of_none rfl) trivial, fun _ => ?_⟩
              rw [← hrow]
              exact h.select hrow
  | now read =>
      cases hread : s.db.reads read with
      | none => simp [usageCycle, step, hread] at hstep
      | some r =>
          cases r with
          | rolling row now cycleStart => simp [usageCycle, step, hread] at hstep
          | selected row =>
              by_cases hdue : due env row (toMs s.db.clock) = true
              · simp only [usageCycle, step, hread, if_pos hdue, Option.map_some] at hstep
                obtain rfl := Option.some.inj hstep
                have hnone : response env s.db (.now read) = none := by
                  simp only [response, hread, if_pos hdue]
                exact ⟨iff_of_true (accounted_of_none hnone) trivial,
                  fun _ => h.rolling hread hdue⟩
              · simp only [usageCycle, step, hread, if_neg hdue, Option.map_some] at hstep
                obtain rfl := Option.some.inj hstep
                exact ⟨iff_of_true (h.accounted_now hread hdue) trivial,
                  fun _ => h.closeRead read⟩
  | update read =>
      cases hread : s.db.reads read with
      | none => simp [usageCycle, step, hread] at hstep
      | some r =>
          cases r with
          | selected row => simp [usageCycle, step, hread] at hstep
          | rolling row now cycleStart => exact h.accounted_update hread hstep

/-- All reads of a run report the current cycle with the bytes recorded since it began, and leave it
in the row, exactly if every rollover is in time. -/
theorem accounted_iff (env : Env) (clock : ℤ) (is : List Input) :
    (∀ s i t, (usageCycle env).Passes (.initial clock) is s i t → Accounted env s i t) ↔
      ∀ s i t, (usageCycle env).Passes (.initial clock) is s i t → InTime s i :=
  StepSystem.passes_iff (P := Accounted env) (C := InTime)
    (fun _ _ _ hs hstep => step_accounted hs hstep) (inv_initial env clock) is

def greenwich : Env where
  zone := .greenwich
  createdAt := id
  createdAt_le := le_refl

/-- Usage is recorded on the second of February, and the cycle that began on the first of January is
read afterwards. -/
theorem late_read_drops_usage :
    ¬ ∀ (env : Env) (clock : ℤ) (is : List Input) (s : State) (i : Input) (t : State),
      (usageCycle env).Passes (.initial clock) is s i t → Accounted env s i t := by
  intro h
  have hlate : (usageCycle greenwich).Passes (.initial 0)
      ([.recordUsage 5, .wait 2764800000000, .recordUsage 7, .select 1, .now 1] ++ .update 1 :: [])
      _ (.update 1) _ :=
    ⟨_, _, rfl, StepSystem.exec_eq_some_iff.mp rfl, rfl⟩
  have hbytes := ((h _ _ _ _ _ _ hlate).reported { startAt := 2678400000, bytesOut := 0 }
    (by decide +kernel)).2
  revert hbytes
  decide +kernel

end SpecterComs.UsageCycle
