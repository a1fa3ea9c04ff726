import Mathlib.Data.Set.Card
import SpecterComs.Verification.Chat.Network

/-! # Gaps in the history

What is asked for is computed from what is stored. A message that was missed is asked for
where nothing stored since hides it; where all that is stored can be read and some of it
is newer, it never is.
-/

namespace SpecterComs.Chat

section

variable (platform : Platform) (byteLength : BundleItem → ℕ) (channelId : String)

/-- Nothing stored hides a missing message. -/
def AskOk (net : Network) : Prop :=
  ∀ row ∈ channelRows net.peer channelId, Started platform channelId net.own row →
    ¬Held net.own row.id → Ahead platform net.own channelId (row.time platform)

/-- For each missing message asked for the answer brings one that is missing and not
newer. -/
def AnswerOk (net : Network) (since : Option String) : Prop :=
  ∀ row ∈ channelRows net.peer channelId, Started platform channelId net.own row →
    After since row.timestamp → ¬Held net.own row.id →
      ∃ brought, InPage platform byteLength net.peer channelId since brought ∧
        ¬Held net.own brought.id ∧ brought.time platform ≤ row.time platform

def StepOk (net : Network) : NetworkAction → Prop
  | .ask _ => AskOk platform channelId net
  | .answer r => ∀ since, net.rounds r = .asked since →
      AnswerOk platform byteLength channelId net since
  | _ => True

end

variable {platform : Platform} {byteLength : BundleItem → ℕ} {relayedBy : Option String}
  {channelId : String}

/-! ## Runs -/

section

variable (run : (network platform byteLength relayedBy channelId).Forever)

theorem effect_at (n : ℕ) :
    Effect platform byteLength relayedBy channelId (run.state n) (run.input n)
      (run.state (n + 1)) :=
  effect_of_step (run.step n)

/-- A round that was asked for is still waiting, or was answered. -/
theorem asked_or_answered {r n m : ℕ} {since : Option String} (h : n ≤ m)
    (hasked : (run.state n).rounds r = .asked since) :
    (run.state m).rounds r = .asked since ∨
      ∃ a, n ≤ a ∧ a < m ∧ (run.state a).rounds r = .asked since ∧ run.input a = .answer r := by
  induction h with
  | refl => exact .inl hasked
  | @step m hle ih =>
      rcases ih with hwaiting | ⟨a, hna, ham, ha⟩
      · rcases (effect_at run m).asked hwaiting with hstill | hanswer
        · exact .inl hstill
        · exact .inr ⟨m, hle, Nat.lt_succ_self m, hwaiting, hanswer⟩
      · exact .inr ⟨a, hna, ham.trans (Nat.lt_succ_self m), ha⟩

variable (hstart : Honest platform channelId (run.state 0))

include hstart

theorem honest_at (n : ℕ) : Honest platform channelId (run.state n) :=
  run.kept (fun _ _ _ h hstep => h.effect (effect_of_step hstep)) (Nat.zero_le n) hstart

/-- What a step keeps of an honest network it keeps from any time on. -/
theorem kept_honest {P : Network → Prop}
    (hstep : ∀ net action next, Honest platform channelId net →
      Effect platform byteLength relayedBy channelId net action next → P net → P next)
    {n m : ℕ} (h : n ≤ m) (hn : P (run.state n)) : P (run.state m) :=
  (run.kept (P := fun net => Honest platform channelId net ∧ P net)
    (fun _ _ _ h hs => ⟨h.1.effect (effect_of_step hs), hstep _ _ _ h.1 (effect_of_step hs) h.2⟩)
    h ⟨honest_at run hstart n, hn⟩).2

/-- A message that is missing when a round begins is held when it ends, or one that is not
newer has been obtained meanwhile. -/
theorem round_progress (hp : platform.Lawful)
    (hok : ∀ n, StepOk platform byteLength channelId (run.state n) (run.input n))
    {n r m l : ℕ} {row : ChannelRow} (hrow : row ∈ channelRows (run.state n).peer channelId)
    (hstarted : Started platform channelId (run.state n).own row) (hnm : n ≤ m) (hml : m < l)
    (hask : run.input m = .ask r) (hdone : (run.state l).rounds r = .answered []) :
    Held (run.state l).own row.id ∨ ∃ brought : ChannelRow,
      (∃ a, brought ∈ channelRows (run.state a).peer channelId) ∧
        brought.time platform ≤ row.time platform ∧ ¬Held (run.state n).own brought.id ∧
          Held (run.state l).own brought.id := by
  by_contra hnot
  push Not at hnot
  obtain ⟨hmissing, hnone⟩ := hnot
  have hpeer : ∀ k, n ≤ k → row ∈ channelRows (run.state k).peer channelId := fun k hk =>
    run.kept (P := fun net => row ∈ channelRows net.peer channelId)
      (fun _ _ _ h hstep => peer_effect (effect_of_step hstep) h) hk hrow
  have hstill : ∀ k, n ≤ k → Started platform channelId (run.state k).own row := fun k hk =>
    kept_honest run hstart (P := fun net => Started platform channelId net.own row)
      (fun _ _ _ h he => h.started_effect he) hk hstarted
  have hheld : ∀ {id : String} {j k : ℕ}, j ≤ k → Held (run.state j).own id →
      Held (run.state k).own id := fun hjk =>
    kept_honest run hstart (P := fun net => Held net.own _) (fun _ _ _ h he => h.held_effect he) hjk
  -- the round asks for the message
  have hc := (honest_at run hstart m).comparable
  have hdated := hc.responder row (hpeer m hnm)
  have hahead : AskOk platform channelId (run.state m) := by
    have := hok m
    rwa [hask] at this
  have hafter : After (sinceOf platform (run.state m).own channelId) row.timestamp :=
    after_of_before (since_of_ahead hp hc.requester hdated
      (hahead row (hpeer m hnm) (hstill m hnm) fun h => hmissing (hheld hml.le h)))
  have hasked : (run.state (m + 1)).rounds r =
      .asked (sinceOf platform (run.state m).own channelId) := by
    have he := effect_at run m
    rw [hask] at he
    exact he.ask_rounds
  -- its answer brings a missing message that is not newer
  rcases asked_or_answered run (Nat.succ_le_of_lt hml) hasked with hwaiting | ⟨a, hma, hal, hat, hanswer⟩
  · rw [hdone] at hwaiting
    cases hwaiting
  have hna : n ≤ a := by omega
  have hbrings : AnswerOk platform byteLength channelId (run.state a)
      (sinceOf platform (run.state m).own channelId) := by
    have := hok a
    rw [hanswer] at this
    exact this _ hat
  obtain ⟨brought, hpage, hnew, hle⟩ := hbrings row (hpeer a hna) (hstill a hna) hafter
    fun h => hmissing (hheld hal.le h)
  obtain ⟨copy, hcopy, hkey⟩ := (@mem_page_iff platform byteLength _ channelId _ hp
    (honest_at run hstart a).comparable.responder none "" brought.id brought.timestamp).mpr
      ⟨brought, hpage, rfl, rfl⟩
  have hcoming : Coming platform channelId r brought.id (run.state (a + 1)) := by
    have he := effect_at run a
    rw [hanswer] at he
    exact .inr ⟨_, he.answer_rounds hat, copy, hcopy, _, hkey, rfl⟩
  have hlater : Coming platform channelId r brought.id (run.state l) :=
    kept_honest run hstart (fun _ _ _ h he => h.coming_effect he) (Nat.succ_le_of_lt hal) hcoming
  refine hnone brought ⟨a, hpage.mem⟩ hle (fun h => hnew (hheld hna h)) ?_
  rcases hlater with hheldlater | ⟨bundles, hbundles, copy, hcopy, -⟩
  · exact hheldlater
  · rw [hdone] at hbundles
    obtain rfl := Round.answered.inj hbundles
    cases hcopy

end

/-! ## Rounds one after another -/

section

variable (platform : Platform) (byteLength : BundleItem → ℕ) (relayedBy : Option String)
  (channelId : String)

/-- What is next where only round `r` goes on, and the round that goes on then. -/
def turn (net : Network) (r : ℕ) : NetworkAction × ℕ :=
  match net.rounds r with
  | .fresh => (.ask r, r)
  | .asked _ => (.answer r, r)
  | .answered (_ :: _) => (.merge r "", r)
  | .answered [] => (.ask (r + 1), r + 1)

def turns (start : Network) : ℕ → Network × ℕ
  | 0 => (start, 0)
  | n + 1 =>
      let last := turns start n
      let next := turn last.1 last.2
      (((network platform byteLength relayedBy channelId).step last.1 next.1).getD last.1, next.2)

end

variable {start : Network}

theorem step_turn {net : Network} {r : ℕ} (h : ∀ k, r < k → net.rounds k = .fresh) :
    ∃ next, (network platform byteLength relayedBy channelId).step net (turn net r).1 =
        some next ∧ ∀ k, (turn net r).2 < k → next.rounds k = .fresh := by
  unfold turn
  cases hr : net.rounds r with
  | fresh =>
      refine ⟨_, by simp only [network, Network.step, hr]; rfl, fun k hk => ?_⟩
      simp only at hk ⊢
      rw [Function.update_of_ne (by omega), h k hk]
  | asked since =>
      refine ⟨_, by simp only [network, Network.step, hr]; rfl, fun k hk => ?_⟩
      simp only at hk ⊢
      rw [Function.update_of_ne (by omega), h k hk]
  | answered bundles =>
      cases bundles with
      | nil =>
          have hnext := h (r + 1) (Nat.lt_succ_self r)
          refine ⟨_, by simp only [network, Network.step, hnext]; rfl, fun k hk => ?_⟩
          simp only at hk ⊢
          rw [Function.update_of_ne (by omega), h k (by omega)]
      | cons bundle bundles =>
          refine ⟨_, by simp only [network, Network.step, hr]; rfl, fun k hk => ?_⟩
          simp only at hk ⊢
          rw [Function.update_of_ne (by omega), h k hk]

theorem turns_fresh (h : ∀ r, start.rounds r = .fresh) (n : ℕ) :
    ∀ k, (turns platform byteLength relayedBy channelId start n).2 < k →
      (turns platform byteLength relayedBy channelId start n).1.rounds k = .fresh := by
  induction n with
  | zero => exact fun k _ => h k
  | succ n ih =>
      obtain ⟨next, hstep, hfresh⟩ := @step_turn platform byteLength relayedBy channelId _ _ ih
      intro k hk
      simp only [turns, hstep, Option.getD_some] at hk ⊢
      exact hfresh k hk

/-- The run in which a round is asked for, answered and merged, and then the next. -/
def roundRun (platform : Platform) (byteLength : BundleItem → ℕ) (relayedBy : Option String)
    (channelId : String) (start : Network) (h : ∀ r, start.rounds r = .fresh) :
    (network platform byteLength relayedBy channelId).Forever where
  state n := (turns platform byteLength relayedBy channelId start n).1
  input n :=
    let last := turns platform byteLength relayedBy channelId start n
    (turn last.1 last.2).1
  step n := by
    obtain ⟨next, hstep, -⟩ := @step_turn platform byteLength relayedBy channelId _ _
      (@turns_fresh platform byteLength relayedBy channelId start h n)
    simp only [turns, hstep, Option.getD_some]

section

variable (h : ∀ r, start.rounds r = .fresh)

include h

theorem turns_effect (n : ℕ) :
    Effect platform byteLength relayedBy channelId
      (turns platform byteLength relayedBy channelId start n).1
      (turn (turns platform byteLength relayedBy channelId start n).1
        (turns platform byteLength relayedBy channelId start n).2).1
      (turns platform byteLength relayedBy channelId start (n + 1)).1 :=
  effect_of_step ((roundRun platform byteLength relayedBy channelId start h).step n)

/-- Every round ends. -/
theorem exists_done (n : ℕ) :
    ∃ l, n ≤ l ∧ (turns platform byteLength relayedBy channelId start l).2 =
        (turns platform byteLength relayedBy channelId start n).2 ∧
      (turns platform byteLength relayedBy channelId start l).1.rounds
        (turns platform byteLength relayedBy channelId start n).2 = .answered [] := by
  let at' (n : ℕ) := turns platform byteLength relayedBy channelId start n
  let Done (n : ℕ) : Prop :=
    ∃ l, n ≤ l ∧ (at' l).2 = (at' n).2 ∧ (at' l).1.rounds (at' n).2 = .answered []
  have hsucc : ∀ n, (at' (n + 1)).2 = (turn (at' n).1 (at' n).2).2 := fun n => rfl
  have hlater : ∀ n, (at' (n + 1)).2 = (at' n).2 → Done (n + 1) → Done n := by
    rintro n hsame ⟨l, hl, hindex, hdone⟩
    exact ⟨l, by omega, hindex.trans hsame, hsame ▸ hdone⟩
  have heffect : ∀ n, Effect platform byteLength relayedBy channelId (at' n).1
      (turn (at' n).1 (at' n).2).1 (at' (n + 1)).1 := turns_effect h
  have hanswered : ∀ bundles n, (at' n).1.rounds (at' n).2 = .answered bundles → Done n := by
    intro bundles
    induction bundles with
    | nil => exact fun n hn => ⟨n, le_rfl, rfl, hn⟩
    | cons bundle bundles ih =>
        intro n hn
        have he := heffect n
        have hturn : turn (at' n).1 (at' n).2 = (.merge (at' n).2 "", (at' n).2) := by
          simp only [turn, hn]
        have hsame : (at' (n + 1)).2 = (at' n).2 := by rw [hsucc, hturn]
        rw [hturn] at he
        exact hlater n hsame (ih (n + 1) (by rw [hsame]; exact he.merge_rounds hn))
  have hasked : ∀ since n, (at' n).1.rounds (at' n).2 = .asked since → Done n := by
    intro since n hn
    have he := heffect n
    have hturn : turn (at' n).1 (at' n).2 = (.answer (at' n).2, (at' n).2) := by
      simp only [turn, hn]
    have hsame : (at' (n + 1)).2 = (at' n).2 := by rw [hsucc, hturn]
    rw [hturn] at he
    exact hlater n hsame (hanswered _ (n + 1) (by rw [hsame]; exact he.answer_rounds hn))
  cases hn : (at' n).1.rounds (at' n).2 with
  | answered bundles => exact hanswered bundles n hn
  | asked since => exact hasked since n hn
  | fresh =>
      have he := heffect n
      have hturn : turn (at' n).1 (at' n).2 = (.ask (at' n).2, (at' n).2) := by
        simp only [turn, hn]
      have hsame : (at' (n + 1)).2 = (at' n).2 := by rw [hsucc, hturn]
      rw [hturn] at he
      exact hlater n hsame (hasked _ (n + 1) (by rw [hsame]; exact he.ask_rounds))

theorem roundRun_rounds (n : ℕ) :
    ∃ r m l, n ≤ m ∧ m < l ∧
      (roundRun platform byteLength relayedBy channelId start h).input m = .ask r ∧
      ((roundRun platform byteLength relayedBy channelId start h).state l).rounds r =
        .answered [] := by
  let at' (n : ℕ) := turns platform byteLength relayedBy channelId start n
  obtain ⟨m, hnm, hindex, hdone⟩ := @exists_done platform byteLength relayedBy channelId start h n
  rw [← hindex] at hdone
  have hturn : turn (at' m).1 (at' m).2 = (.ask ((at' m).2 + 1), (at' m).2 + 1) := by
    simp only [turn, at', hdone]
  obtain ⟨l, hml, -, hdone'⟩ :=
    @exists_done platform byteLength relayedBy channelId start h (m + 1)
  have hnext : (at' (m + 1)).2 = (at' m).2 + 1 := congrArg Prod.snd hturn
  exact ⟨(at' m).2 + 1, m, l, hnm, hml, congrArg Prod.fst hturn, hnext ▸ hdone'⟩

theorem roundRun_isRound (n : ℕ) :
    IsRound ((roundRun platform byteLength relayedBy channelId start h).input n) := by
  change IsRound (turn _ _).1
  unfold turn
  split <;> trivial

/-- What the parts of rounds keep holds throughout the run. -/
theorem roundRun_kept {P : Network → Prop} (hhonest : Honest platform channelId start)
    (hstep : ∀ net action next, Honest platform channelId net → IsRound action →
      Effect platform byteLength relayedBy channelId net action next → P net → P next)
    (hstart : P start) (n : ℕ) :
    P ((roundRun platform byteLength relayedBy channelId start h).state n) := by
  induction n with
  | zero => exact hstart
  | succ n ih =>
      exact hstep _ _ _ (honest_at _ hhonest n) (roundRun_isRound h n) (effect_at _ n) ih

end

/-! ## A run without gaps -/

/-- In a run in which rounds keep being completed, where no request is made while a
missing message is hidden and every answer makes progress, each message newer than the
start of the stored history is held at the end of a later round. -/
theorem gaps_filled (run : (network platform byteLength relayedBy channelId).Forever)
    (hp : platform.Lawful) (hstart : Honest platform channelId (run.state 0))
    (hok : ∀ n, StepOk platform byteLength channelId (run.state n) (run.input n))
    (hclock : ∀ t, {id | ∃ n, ∃ row ∈ channelRows (run.state n).peer channelId,
      row.id = id ∧ row.time platform ≤ t}.Finite)
    (hrounds : ∀ n, ∃ r m l, n ≤ m ∧ m < l ∧ run.input m = .ask r ∧
      (run.state l).rounds r = .answered []) :
    ∀ n, ∀ row ∈ channelRows (run.state n).peer channelId,
      Started platform channelId (run.state n).own row →
        ∃ r m l, n ≤ m ∧ m < l ∧ run.input m = .ask r ∧
          (run.state l).rounds r = .answered [] ∧ Held (run.state l).own row.id := by
  intro n row hrow hstarted
  classical
  have hheld : ∀ {id : String} {j k : ℕ}, j ≤ k → Held (run.state j).own id →
      Held (run.state k).own id := fun hjk =>
    kept_honest run hstart (P := fun net => Held net.own _) (fun _ _ _ h he => h.held_effect he) hjk
  -- the messages not newer that are missing
  let older (k : ℕ) : Finset String :=
    (hclock (row.time platform)).toFinset.filter fun id => ¬Held (run.state k).own id
  have heventually : ∀ count k, n ≤ k → (older k).card = count →
      ∃ l, n ≤ l ∧ Held (run.state l).own row.id := by
    intro count
    induction count using Nat.strong_induction_on with
    | _ count ih =>
        intro k hk hcount
        have hpeer := run.kept (P := fun net => row ∈ channelRows net.peer channelId)
          (fun _ _ _ h hstep => peer_effect (effect_of_step hstep) h) hk hrow
        have hstill := kept_honest run hstart (P := fun net => Started platform channelId net.own row)
          (fun _ _ _ h he => h.started_effect he) hk hstarted
        obtain ⟨r, m, l, hkm, hml, hask, hdone⟩ := hrounds k
        rcases round_progress run hstart hp hok hpeer hstill hkm hml hask hdone with
          hdone | ⟨brought, ⟨a, ha⟩, hle, hnew, hobtained⟩
        · exact ⟨l, by omega, hdone⟩
        · have hlt : (older l).card < (older k).card := by
            apply Finset.card_lt_card
            rw [Finset.ssubset_iff_of_subset]
            · refine ⟨brought.id, ?_, by simp [older, hobtained]⟩
              simp only [older, Finset.mem_filter, Set.Finite.mem_toFinset, Set.mem_ofPred_eq]
              exact ⟨⟨a, brought, ha, rfl, hle⟩, hnew⟩
            · intro id hid
              simp only [older, Finset.mem_filter] at hid ⊢
              exact ⟨hid.1, fun h => hid.2 (hheld (by omega) h)⟩
          exact ih _ (hcount ▸ hlt) l (by omega) rfl
  obtain ⟨k, hnk, hk⟩ := heventually _ n le_rfl rfl
  obtain ⟨r, m, l, hkm, hml, hask, hdone⟩ := hrounds k
  exact ⟨r, m, l, by omega, hml, hask, hdone, hheld (by omega) hk⟩

/-- A device that was offline when the last of two messages came. -/
def behind : Network where
  peer :=
    { rows := [rowAt "first" 0, rowAt "m" 1000]
      nodup := by decide }
  own := lone
  rounds _ := .fresh

variable {row : ChannelRow}

theorem mem_behind (h : row ∈ channelRows behind.peer "c") :
    row = rowAt "first" 0 ∨ row = rowAt "m" 1000 := by
  simpa [behind] using (mem_channelRows.mp h).1

theorem first_mem : rowAt "first" 0 ∈ channelRows lone "c" :=
  mem_channelRows.mpr ⟨by simp [lone], rfl⟩

theorem honest_behind : Honest isoPlatform "c" behind where
  comparable :=
    { requester := comparable_lone.requester
      responder row hrow := by
        rcases mem_behind hrow with rfl | rfl
        · exact dated_rowAt (by decide)
        · exact dated_rowAt (by decide)
      same row hrow own hown hid := by
        rw [mem_lone hown] at hid ⊢
        rcases mem_behind hrow with rfl | rfl
        · exact ⟨rfl, rfl⟩
        · exact absurd hid (by decide) }
  flight r bundles hr := by cases hr

/-- The peer has two messages, and the device holds readable copies of its rows, the first
among them. -/
structure Following (net : Network) : Prop where
  peer : net.peer = behind.peer
  first : Held net.own "first"
  sourced : ∀ own ∈ net.own.rows, own.isReadable ∧
    ∃ row ∈ channelRows behind.peer "c", row.id = own.id

variable {net next : Network} {action : NetworkAction}

theorem following_effect (h : Honest isoPlatform "c" net) (hround : IsRound action)
    (he : Effect isoPlatform (fun _ => 100) none "c" net action next) (hf : Following net) :
    Following next where
  peer := (he.peer_of_isRound hround).trans hf.peer
  first := h.held_effect he hf.first
  sourced own hown := by
    rcases h.own_of_isRound he hround hown with hold | ⟨hreadable, hsource⟩
    · exact hf.sourced own hold
    · exact ⟨hreadable, hf.peer ▸ hsource⟩

/-- What the device misses is newer than all it holds, and the next answer brings it. -/
theorem following_ok (h : Honest isoPlatform "c" net) (hf : Following net)
    (action : NetworkAction) : StepOk isoPlatform (fun _ => 100) "c" net action := by
  have hmissing : ∀ row ∈ channelRows net.peer "c", ¬Held net.own row.id →
      row = rowAt "m" 1000 := by
    intro row hrow hnew
    rcases mem_behind (hf.peer ▸ hrow) with rfl | rfl
    · exact absurd hf.first hnew
    · rfl
  have hahead : AskOk isoPlatform "c" net := by
    intro row hrow hstarted hnew
    obtain rfl := hmissing row hrow hnew
    refine .inl fun own hown => ?_
    obtain ⟨hmem, -⟩ := mem_channelRows.mp hown
    obtain ⟨hreadable, source, hsource, hid⟩ := hf.sourced own hmem
    rcases mem_behind hsource with rfl | rfl
    · have htime := (h.comparable.same _ (hf.peer ▸ hsource) own hmem hid.symm).2
      have hsame : own.time isoPlatform = (rowAt "first" 0).time isoPlatform :=
        congrArg (timeOf isoPlatform) htime
      rw [hsame, time_rowAt (by decide), time_rowAt (by decide)]
      decide
    · exact absurd (hid ▸ held_of_mem hmem hreadable) hnew
  cases action with
  | publish => trivial
  | relay => trivial
  | merge => trivial
  | ask => exact hahead
  | answer r =>
      intro since _ row hrow _ hasked hnew
      obtain rfl := hmissing row hrow hnew
      refine ⟨_, inPage_of_few ?_ hrow rfl hasked sendable_rowAt, hnew, le_rfl⟩
      rw [hf.peer]
      decide

theorem gaps_filled_behind :
    ∃ n, Held ((roundRun isoPlatform (fun _ => 100) none "c" behind fun _ => rfl).state n).own
      "m" := by
  let run := roundRun isoPlatform (fun _ => 100) none "c" behind fun _ => rfl
  have hfollowing : ∀ n, Following (run.state n) :=
    roundRun_kept (fun _ => rfl) honest_behind
      (fun _ _ _ h hround he => following_effect h hround he)
      ⟨rfl, held_of_mem (mem_channelRows.mp first_mem).1 rfl, fun own hown => by
        rw [mem_lone hown]
        exact ⟨rfl, rowAt "first" 0, by decide, rfl⟩⟩
  obtain ⟨r, m, l, -, -, -, -, hheld⟩ := gaps_filled run isoPlatform_lawful honest_behind
    (fun n => following_ok (honest_at run honest_behind n) (hfollowing n) _)
    (fun t => (List.finite_toSet (behind.peer.rows.map Row.id)).subset (by
      rintro id ⟨n, row, hrow, rfl, -⟩
      rw [(hfollowing n).peer] at hrow
      exact List.mem_map_of_mem (mem_channelRows.mp hrow).1))
    (roundRun_rounds fun _ => rfl) 0 (rowAt "m" 1000) (by decide)
    ⟨_, first_mem, by
      rw [time_rowAt (by decide), time_rowAt (by decide)]
      decide⟩
  exact ⟨l, hheld⟩

/-! ## A gap that is never filled -/

/-- The message is hidden, and no round that was begun asks for it or brings it. -/
structure Lost (platform : Platform) (channelId : String) (row : ChannelRow) (net : Network) :
    Prop where
  mem : row ∈ channelRows net.peer channelId
  hidden : Hidden platform channelId net.own row
  asked : ∀ r since, net.rounds r = .asked since → ¬After since row.timestamp
  flight : ∀ r bundles, net.rounds r = .answered bundles →
    ∀ copy ∈ page platform none "" channelId bundles, ∀ key ∈ copy.msg.key, key.1 ≠ row.id

theorem hidden_effect (h : Honest platform channelId net) (hround : IsRound action)
    (he : Effect platform byteLength relayedBy channelId net action next)
    (hlost : Lost platform channelId row net) : Hidden platform channelId next.own row where
  readable own hown := by
    obtain ⟨hmem, hplace⟩ := mem_channelRows.mp hown
    rcases h.own_of_isRound he hround hmem with hold | ⟨hreadable, -⟩
    · exact hlost.hidden.readable own (mem_channelRows.mpr ⟨hold, hplace⟩)
    · exact hreadable
  newer := by
    obtain ⟨own, hown, hle⟩ := hlost.hidden.newer
    obtain ⟨fixed, batch, hnext, hplace, hcopies⟩ := h.own_effect he
    obtain ⟨later, hlater, -, htime⟩ :=
      exists_row_mergeRowsInto h.comparable hplace hcopies hown
    have hsame : later.time platform = own.time platform := congrArg (timeOf platform) htime
    exact ⟨later, hnext ▸ hlater, hsame ▸ hle⟩
  missing hheld := by
    cases he with
    | publish => exact hround
    | relay => exact hround
    | ask => exact hlost.hidden.missing hheld
    | answer => exact hlost.hidden.missing hheld
    | @merge r now bundle rest hanswered =>
        rcases (h.held_merge hanswered).mp hheld with hold | ⟨copy, hcopy, key, hkey, hid⟩
        · exact hlost.hidden.missing hold
        · exact hlost.flight r _ hanswered copy (List.mem_append_left _ hcopy) key hkey hid

theorem lost_effect (hp : platform.Lawful) (h : Honest platform channelId net)
    (hround : IsRound action)
    (he : Effect platform byteLength relayedBy channelId net action next)
    (hlost : Lost platform channelId row net) : Lost platform channelId row next where
  mem := he.peer_of_isRound hround ▸ hlost.mem
  hidden := hidden_effect h hround he hlost
  asked r since hr := by
    cases he with
    | publish => exact hround.elim
    | relay => exact hround.elim
    | @ask r' hfresh =>
        rcases eq_or_ne r r' with rfl | hne
        · simp only [Function.update_self, Round.asked.injEq] at hr
          exact hr ▸ not_after_of_hidden hp h.comparable hlost.mem hlost.hidden
        · simp only [Function.update_of_ne hne] at hr
          exact hlost.asked r since hr
    | @answer r' since' hasked =>
        rcases eq_or_ne r r' with rfl | hne
        · simp at hr
        · simp only [Function.update_of_ne hne] at hr
          exact hlost.asked r since hr
    | @merge r' now bundle rest hanswered =>
        rcases eq_or_ne r r' with rfl | hne
        · simp at hr
        · simp only [Function.update_of_ne hne] at hr
          exact hlost.asked r since hr
  flight r bundles hr copy hcopy key hkey hid := by
    cases he with
    | publish => exact hround
    | relay => exact hround
    | @ask r' hfresh =>
        rcases eq_or_ne r r' with rfl | hne
        · simp at hr
        · simp only [Function.update_of_ne hne] at hr
          exact hlost.flight r bundles hr copy hcopy key hkey hid
    | @answer r' since hasked =>
        rcases eq_or_ne r r' with rfl | hne
        · simp only [Function.update_self, Round.answered.injEq] at hr
          subst hr
          obtain ⟨source, hsource, hof, hafter⟩ := page_spec.2 copy hcopy
          rw [hof.key] at hkey
          obtain rfl := Option.some.inj hkey
          have heq := List.inj_on_of_nodup_map net.peer.nodup (mem_channelRows.mp hsource).1
            (mem_channelRows.mp hlost.mem).1 hid
          exact hlost.asked r since hasked (heq ▸ hafter)
        · simp only [Function.update_of_ne hne] at hr
          exact hlost.flight r bundles hr copy hcopy key hkey hid
    | @merge r' now bundle rest hanswered =>
        rcases eq_or_ne r r' with rfl | hne
        · simp only [Function.update_self, Round.answered.injEq] at hr
          subst hr
          exact hlost.flight r _ hanswered copy (List.mem_append_right _ hcopy) key hkey hid
        · simp only [Function.update_of_ne hne] at hr
          exact hlost.flight r bundles hr copy hcopy key hkey hid

/-- A device that missed the second of three messages and got the third. -/
def gap : Network where
  peer :=
    { rows := [rowAt "first" 0, rowAt "m" 1000, rowAt "last" 2000]
      nodup := by decide }
  own :=
    { rows := [rowAt "first" 0, rowAt "last" 2000]
      nodup := by decide }
  rounds _ := .fresh

theorem mem_gap (h : row ∈ gap.peer.rows) :
    row = rowAt "first" 0 ∨ row = rowAt "m" 1000 ∨ row = rowAt "last" 2000 := by
  simpa [gap] using h

theorem mem_gap_own (h : row ∈ gap.own.rows) : row = rowAt "first" 0 ∨ row = rowAt "last" 2000 := by
  simpa [gap] using h

theorem honest_gap : Honest isoPlatform "c" gap where
  comparable :=
    { requester row hrow := by
        rcases mem_gap_own (mem_channelRows.mp hrow).1 with rfl | rfl
        · exact dated_rowAt (by decide)
        · exact dated_rowAt (by decide)
      responder row hrow := by
        rcases mem_gap (mem_channelRows.mp hrow).1 with rfl | rfl | rfl
        · exact dated_rowAt (by decide)
        · exact dated_rowAt (by decide)
        · exact dated_rowAt (by decide)
      same row hrow own hown hid := by
        have hmem : own ∈ gap.peer.rows := by
          rcases mem_gap_own hown with rfl | rfl
          · decide
          · decide
        have heq := List.inj_on_of_nodup_map gap.peer.nodup hmem (mem_channelRows.mp hrow).1 hid
        rw [heq]
        exact ⟨(mem_channelRows.mp hrow).2, rfl⟩ }
  flight r bundles hr := by cases hr

theorem lost_gap : Lost isoPlatform "c" (rowAt "m" 1000) gap where
  mem := by decide
  hidden :=
    { readable row hrow := by
        rcases mem_gap_own (mem_channelRows.mp hrow).1 with rfl | rfl
        · rfl
        · rfl
      newer := by
        refine ⟨rowAt "last" 2000, by decide, ?_⟩
        rw [time_rowAt (by decide), time_rowAt (by decide)]
        decide
      missing hheld := by
        obtain ⟨row, hrow, hid, -⟩ := exists_row_of_held hheld
        rcases mem_gap_own hrow with rfl | rfl
        · exact absurd hid (by decide)
        · exact absurd hid (by decide) }
  asked r since hr := by cases hr
  flight r bundles hr := by cases hr

/-- Rounds are completed again and again, and the message that was missed, though newer
than the start of the stored history, is never held. -/
theorem gap_never_filled :
    ∃ run : (network isoPlatform (fun _ => 100) none "c").Forever,
      (∀ n, ∃ r m l, n ≤ m ∧ m < l ∧ run.input m = .ask r ∧
        (run.state l).rounds r = .answered []) ∧
      rowAt "m" 1000 ∈ channelRows (run.state 0).peer "c" ∧
      Started isoPlatform "c" (run.state 0).own (rowAt "m" 1000) ∧
      ∀ n, ¬Held (run.state n).own "m" := by
  refine ⟨roundRun isoPlatform (fun _ => 100) none "c" gap fun _ => rfl,
    roundRun_rounds fun _ => rfl, lost_gap.mem, ⟨rowAt "first" 0, by decide, ?_⟩, fun n => ?_⟩
  · rw [time_rowAt (by decide), time_rowAt (by decide)]
    decide
  · exact (roundRun_kept (fun _ => rfl) honest_gap
      (fun _ _ _ h hround he => lost_effect isoPlatform_lawful h hround he) lost_gap n).hidden.missing

end SpecterComs.Chat
