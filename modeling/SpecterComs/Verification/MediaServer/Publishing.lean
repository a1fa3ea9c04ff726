import SpecterComs.Verification.MediaServer.Decodable

/-! # Entries of a publish session

The session that claimed the nonce last owns the entries it made, while it relays all
entries are its own, and no ended session has one.
-/

namespace SpecterComs.MediaServer.Video

namespace Stage

/-- The entries the session has made and not begun to remove. -/
def holds : Stage → List Map
  | .claimed | .checking => [.publishNonces]
  | .waiting | .givingUp => [.publishNonces, .activationSenders]
  | .entering rest =>
      [.publishNonces, .activationSenders] ++ Stage.registration.filter (· ∉ rest)
  | .relaying _ => [.publishNonces, .activationSenders] ++ Stage.registration
  | .dropActivation | .clearing _ | .ended => []

/-- The entries that can be the session's. -/
def mayOwn : Stage → Map → Bool
  | .claimed, m => m ∈ [Map.publishNonces]
  | .waiting, m | .givingUp, m => m ∈ [Map.publishNonces, Map.activationSenders]
  | .dropActivation, m => m ∈ [Map.activationSenders]
  | .entering _, _ | .relaying _, _ | .checking, _ => true
  | .clearing rest, m => m ∈ Map.overlayStreams :: rest
  | .ended, _ => false

def isRelaying : Stage → Bool
  | .relaying _ => true
  | _ => false

theorem isRelaying_iff {stage : Stage} : stage.isRelaying ↔ ∃ pending, stage = .relaying pending := by
  cases stage <;> simp [isRelaying]

/-- The teardown of all entries is under way or done. -/
def isClosing : Stage → Bool
  | .clearing _ | .ended => true
  | _ => false

end Stage

/-- The relay loop has not begun. -/
def Stage.isEarly : Stage → Bool
  | .claimed | .waiting | .entering _ => true
  | _ => false

/-- The entries the overlay task has made and not begun to remove. -/
def Overlay.holds : Overlay → List Map
  | .entering rest => Overlay.registration.filter (· ∉ rest)
  | .relaying => Overlay.registration
  | .unborn | .waiting | .leaving _ | .ended => []

/-- The overlay's relay loop has not begun. -/
def Overlay.isEarly : Overlay → Bool
  | .unborn | .waiting | .entering _ => true
  | .relaying | .leaving _ | .ended => false

namespace Publisher

variable (pub : Publisher)

/-- A keyframe of the session has been cached. -/
def hasKeyframe : Bool :=
  pub.sent.any (·.any (·.isKeyframe)) ||
    match pub.stage with
    | .relaying (some frame) => frame.isKeyframe
    | _ => false

def hasOverlayKeyframe : Bool :=
  pub.overlay = .relaying && pub.overlaySent.any (·.isKeyframe)

/-- The entries that come with the frames and the overlay. -/
def extras : List Map :=
  (if pub.hasKeyframe then [Map.keyframes] else []) ++ pub.overlay.holds ++
    if pub.hasOverlayKeyframe then [Map.overlayKeyframes] else []

end Publisher

/-- The publish session a section is of. -/
def Input.session : Input → Option ℕ
  | .accept p _ | .advance p | .read p _ | .broadcast p | .stopRelay p | .overlayOpen p
  | .overlayAdvance p | .overlayRead p _ | .overlayStop p => some p
  | .publish | .subscribe | .readCache _ | .openStream _ _ | .receive _ _ _ | .lag _ _
  | .close _ => none

namespace Room

/-- The session that claimed the nonce last. -/
def isLatest (r : Room) (p : ℕ) : Bool :=
  p + 1 = r.nextNonce

/-- The entry is not one of a newer session. -/
def notNewer (r : Room) (p : ℕ) (m : Map) : Bool :=
  (r.entries m).all (·.session ≤ p)

def ownsNothing (r : Room) (p : ℕ) : Bool :=
  [Map.publishNonces, .activationSenders, .headers, .streams, .sharers, .keyframes,
    .overlayHeaders, .overlayStreams, .overlayKeyframes].all fun m =>
      (r.entries m).all (·.session ≠ p)

/-- Only the latest session writes, the overlay task only while the session relays; none
removes an entry of a newer one; a session skips its teardown only when it has no entry left;
the latest begins to relay, and ends, only when nothing of another is left, and no session
ends with its overlay channel in the map. -/
def orderly (r : Room) : Input → Bool
  | .advance p => (r.publishers p).all fun pub =>
      match pub.stage with
      | .claimed => r.isLatest p
      | .entering (_ :: rest) =>
          r.isLatest p && (!rest.isEmpty ||
            ([Map.keyframes, .overlayHeaders, .overlayStreams, .overlayKeyframes].all fun m =>
              r.entries m = none))
      | .givingUp | .checking => r.holdsNonce p || r.ownsNothing p
      | .dropActivation =>
          if r.isLatest p then
            [Map.publishNonces, .headers, .streams, .sharers, .keyframes, .overlayHeaders,
              .overlayStreams, .overlayKeyframes].all fun m => r.entries m = none
          else r.notNewer p .activationSenders
      | .clearing (m :: rest) =>
          r.notNewer p m && (!rest.isEmpty ||
            if r.isLatest p then r.entries .overlayStreams = none
            else (r.entries .overlayStreams).all (·.session ≠ p))
      | _ => true
  | .read p flags => flags % 2 = 1 || r.isLatest p
  | .overlayAdvance p => (r.publishers p).all fun pub =>
      match pub.overlay with
      | .entering _ => r.isLatest p && pub.stage.isRelaying
      | .leaving (m :: _) => r.notNewer p m
      | _ => true
  | .overlayRead p flags => flags % 2 = 1 || (r.isLatest p &&
      (r.publishers p).all (·.stage.isRelaying))
  | _ => true

variable {r r' : Room} {p : ℕ} {pub pub' : Publisher} {stage : Stage}

def owner (r : Room) (m : Map) : Option ℕ :=
  (r.entries m).map (·.session)

/-- What the stage of a session says about the entries. -/
structure StageOk (r : Room) (p : ℕ) (stage : Stage) : Prop where
  mayOwn : ∀ m, r.owner m = some p → stage.mayOwn m
  holds : r.isLatest p → ∀ m ∈ stage.holds, r.owner m = some p
  settled : r.isLatest p → stage.isRelaying → ∀ m, r.owner m = none ∨ r.owner m = some p
  cleared : r.isLatest p → stage.isClosing → ∀ m, r.owner m ≠ none → stage.mayOwn m

structure PublisherOk (r : Room) (p : ℕ) (pub : Publisher) : Prop where
  stage : r.StageOk p pub.stage
  early : pub.stage.isEarly → pub.overlay = .unborn ∧ pub.sent = []
  unsent : pub.overlay.isEarly → pub.overlaySent = []
  extras : r.isLatest p → pub.stage.isRelaying → ∀ m ∈ pub.extras, r.owner m = some p
  leaving : ∀ rest, pub.overlay = .leaving rest → ∀ m ∈ rest, m ∈ Overlay.teardown

structure Entered (r : Room) : Prop where
  fresh : ∀ p, r.nextNonce ≤ p → r.publishers p = none
  known : ∀ m p, r.owner m = some p → (r.publishers p).isSome
  publisher : ∀ p pub, r.publishers p = some pub → r.PublisherOk p pub

/-! ## Sections of a session -/

/-- What a section may do to an entry: nothing, remove one that is not a newer session's, or
write as the latest. -/
def Touches (r r' : Room) (p : ℕ) : Prop :=
  ∀ m, r'.owner m = r.owner m ∨ (r'.owner m = none ∧ ∀ q, r.owner m = some q → q ≤ p) ∨
    (r'.owner m = some p ∧ r.isLatest p)

variable {q flags : ℕ}

theorem latest_unique (hp : r.isLatest p) (hq : r.isLatest q) : p = q := by
  simp only [isLatest, decide_eq_true_eq] at hp hq
  omega

theorem isLatest_congr (hnext : r'.nextNonce = r.nextNonce) (p : ℕ) :
    r'.isLatest p = r.isLatest p := by
  rw [isLatest, isLatest, hnext]

theorem Entered.lt_nextNonce (h : r.Entered) (hp : (r.publishers p).isSome) : p < r.nextNonce := by
  by_contra hle
  rw [h.fresh p (by omega)] at hp
  exact nomatch hp

theorem latest_not_le (hq : r.isLatest q) (hne : q ≠ p) (hlt : p < r.nextNonce) : ¬ q ≤ p := by
  simp only [isLatest, decide_eq_true_eq] at hq
  omega

/-- The sections of one session leave the others' stages right. -/
theorem StageOk.other (h : r.StageOk q stage) (hne : q ≠ p) (hlt : p < r.nextNonce)
    (hnext : r'.nextNonce = r.nextNonce) (htouch : Touches r r' p) : r'.StageOk q stage := by
  have hnot : r.isLatest q → ¬ r.isLatest p := fun hq hp => hne (latest_unique hq hp)
  refine ⟨fun m ho => ?_, fun hq m hm => ?_, fun hq hs m => ?_, fun hq hs m ho => ?_⟩
  · obtain heq | ⟨heq, -⟩ | ⟨heq, -⟩ := htouch m
    · exact h.mayOwn m (heq ▸ ho)
    · rw [heq] at ho
      exact nomatch ho
    · rw [heq] at ho
      exact absurd (Option.some.inj ho).symm hne
  · rw [isLatest_congr hnext] at hq
    have hold := h.holds hq m hm
    obtain heq | ⟨-, hle⟩ | ⟨-, hp⟩ := htouch m
    · rw [heq]
      exact hold
    · exact absurd (hle q hold) (latest_not_le hq hne hlt)
    · exact absurd hp (hnot hq)
  · rw [isLatest_congr hnext] at hq
    obtain heq | ⟨heq, -⟩ | ⟨-, hp⟩ := htouch m
    · rw [heq]
      exact h.settled hq hs m
    · exact .inl heq
    · exact absurd hp (hnot hq)
  · rw [isLatest_congr hnext] at hq
    obtain heq | ⟨heq, -⟩ | ⟨-, hp⟩ := htouch m
    · exact h.cleared hq hs m (heq ▸ ho)
    · exact absurd heq ho
    · exact absurd hp (hnot hq)

theorem PublisherOk.other (h : r.PublisherOk q pub) (hne : q ≠ p) (hlt : p < r.nextNonce)
    (hnext : r'.nextNonce = r.nextNonce) (htouch : Touches r r' p) : r'.PublisherOk q pub := by
  refine ⟨h.stage.other hne hlt hnext htouch, h.early, h.unsent, fun hq hs m hm => ?_, h.leaving⟩
  rw [isLatest_congr hnext] at hq
  have hold := h.extras hq hs m hm
  obtain heq | ⟨-, hle⟩ | ⟨-, hp⟩ := htouch m
  · rw [heq]
    exact hold
  · exact absurd (hle q hold) (latest_not_le hq hne hlt)
  · exact absurd (latest_unique hq hp) hne

/-- What a section of a session comes to. -/
structure Moved (r r' : Room) (p : ℕ) : Prop where
  touches : Touches r r' p
  entered : r'.Entered

theorem Entered.section (h : r.Entered) (hp : r.publishers p = some pub)
    (hpub : r'.publishers = Function.update r.publishers p (some pub'))
    (hnext : r'.nextNonce = r.nextNonce) (htouch : Touches r r' p)
    (hown : r'.PublisherOk p pub') : r.Moved r' p := by
  have hlt : p < r.nextNonce := h.lt_nextNonce (by rw [hp]; rfl)
  refine ⟨htouch, fun q hq => ?_, fun m q ho => ?_, fun q pub₁ hq => ?_⟩
  · rw [hnext] at hq
    rw [hpub, Function.update_of_ne (by omega)]
    exact h.fresh q hq
  · rw [hpub]
    by_cases hqp : q = p
    · subst hqp
      rw [Function.update_self]
      rfl
    · rw [Function.update_of_ne hqp]
      obtain heq | ⟨heq, -⟩ | ⟨heq, -⟩ := htouch m
      · exact h.known m q (heq ▸ ho)
      · rw [heq] at ho
        exact nomatch ho
      · rw [heq] at ho
        exact absurd (Option.some.inj ho).symm hqp
  · rw [hpub] at hq
    by_cases hqp : q = p
    · subst hqp
      rw [Function.update_self] at hq
      exact Option.some.inj hq ▸ hown
    · rw [Function.update_of_ne hqp] at hq
      exact (h.publisher q pub₁ hq).other hqp hlt hnext htouch

variable {m other : Map}

theorem Entered.notNewer_latest (h : r.Entered) (hp : r.isLatest p) :
    ∀ q, r.owner m = some q → q ≤ p := by
  intro q ho
  have hlt := h.lt_nextNonce (h.known m q ho)
  have heq : p + 1 = r.nextNonce := of_decide_eq_true hp
  omega

theorem Touches.same (hentries : r'.entries = r.entries) : Touches r r' p := fun m =>
  .inl (by rw [owner, owner, hentries])

theorem Touches.remove (hentries : r'.entries = (r.remove m).entries)
    (hm : ∀ q, r.owner m = some q → q ≤ p) : Touches r r' p := by
  intro other
  by_cases ho : other = m
  · subst ho
    exact .inr (.inl ⟨by simp [owner, hentries, Room.remove], hm⟩)
  · exact .inl (by simp [owner, hentries, Room.remove, Function.update_of_ne ho])

variable {e : Entry}

theorem Touches.insert (he : e.session = p)
    (hentries : r'.entries = Function.update r.entries m (some e)) (hp : r.isLatest p) :
    Touches r r' p := by
  intro other
  by_cases ho : other = m
  · subst ho
    exact .inr (.inr ⟨by simp [owner, hentries, he], hp⟩)
  · exact .inl (by simp [owner, hentries, Function.update_of_ne ho])

theorem notNewer_iff : r.notNewer p m ↔ ∀ q, r.owner m = some q → q ≤ p := by
  unfold notNewer owner
  cases r.entries m <;> simp

/-! ## The stages -/

theorem owner_remove (hentries : r'.entries = (r.remove m).entries) :
    r'.owner other = if other = m then none else r.owner other := by
  by_cases ho : other = m
  · subst ho
    simp [owner, hentries, Room.remove]
  · simp [owner, hentries, Room.remove, ho]

theorem owner_insert (hentries : r'.entries = Function.update r.entries m (some e)) :
    r'.owner other = if other = m then some e.session else r.owner other := by
  by_cases ho : other = m
  · subst ho
    simp [owner, hentries]
  · simp [owner, hentries, ho]

theorem owner_eq_none : r.owner m = none ↔ r.entries m = none :=
  Option.map_eq_none_iff

theorem holdsNonce_iff : r.holdsNonce p ↔ r.owner .publishNonces = some p := by
  simp [holdsNonce, owner, Option.any_eq_true]

theorem ownsNothing_owner (h : r.ownsNothing p) (m : Map) : r.owner m ≠ some p := by
  have hm : (r.entries m).all (·.session ≠ p) := by
    simp only [ownsNothing, List.all_cons, List.all_nil, Bool.and_true, Bool.and_eq_true] at h
    cases m <;> simp_all only
  intro ho
  obtain ⟨e, he, rfl⟩ := Option.map_eq_some_iff.mp ho
  simp [he] at hm

variable {stage' : Stage}

theorem StageOk.of_owner (h : r.StageOk p stage) (hnext : r'.nextNonce = r.nextNonce)
    (howner : ∀ m, r'.owner m = r.owner m) (hmay : ∀ m, stage.mayOwn m → stage'.mayOwn m)
    (hholds : ∀ m ∈ stage'.holds, m ∈ stage.holds) (hrelay : stage'.isRelaying → stage.isRelaying)
    (hclose : stage'.isClosing → stage.isClosing) : r'.StageOk p stage' := by
  refine ⟨fun m ho => hmay m (h.mayOwn m (howner m ▸ ho)), fun hp m hm => ?_, fun hp hs m => ?_,
    fun hp hs m ho => ?_⟩
  · rw [howner]
    exact h.holds (isLatest_congr hnext p ▸ hp) m (hholds m hm)
  · rw [howner]
    exact h.settled (isLatest_congr hnext p ▸ hp) (hrelay hs) m
  · exact hmay m (h.cleared (isLatest_congr hnext p ▸ hp) (hclose hs) m (howner m ▸ ho))

/-- A session that has lost its nonce and has no entry ends. -/
theorem StageOk.skip (h : r.StageOk p stage) (hnext : r'.nextNonce = r.nextNonce)
    (howner : ∀ m, r'.owner m = r.owner m) (hholds : Map.publishNonces ∈ stage.holds)
    (hnonce : ¬ r.holdsNonce p) (hnothing : r.ownsNothing p) : r'.StageOk p .ended := by
  have hnot : ¬ r.isLatest p := fun hp => hnonce (holdsNonce_iff.mpr (h.holds hp _ hholds))
  refine ⟨fun m ho => ?_, (fun _ m hm => nomatch hm), (fun _ hs => nomatch hs), fun hp => ?_⟩
  · rw [howner] at ho
    exact absurd ho (ownsNothing_owner hnothing m)
  · exact absurd (isLatest_congr hnext p ▸ hp) hnot

/-- The session writes an entry while it relays. -/
theorem StageOk.write (h : r.StageOk p stage) (hs : stage.isRelaying) (hs' : stage'.isRelaying)
    (hnext : r'.nextNonce = r.nextNonce) (he : e.session = p)
    (hentries : r'.entries = Function.update r.entries m (some e)) : r'.StageOk p stage' := by
  have howner : ∀ other, r.owner other = some p → r'.owner other = some p := by
    intro other ho
    rw [owner_insert hentries, he, ho]
    split <;> rfl
  obtain ⟨pending, rfl⟩ := Stage.isRelaying_iff.mp hs
  obtain ⟨pending', rfl⟩ := Stage.isRelaying_iff.mp hs'
  refine ⟨fun _ _ => rfl, fun hp other ho => ?_, fun hp _ other => ?_, fun _ hc => nomatch hc⟩
  · exact howner other (h.holds (isLatest_congr hnext p ▸ hp) other ho)
  · rw [owner_insert hentries, he]
    split
    · exact .inr rfl
    · exact h.settled (isLatest_congr hnext p ▸ hp) hs other

/-- The session's overlay task removes an entry. -/
theorem StageOk.unwrite (h : r.StageOk p stage) (hm : m ∉ stage.holds)
    (hnext : r'.nextNonce = r.nextNonce) (hentries : r'.entries = (r.remove m).entries) :
    r'.StageOk p stage := by
  refine ⟨fun other ho => ?_, fun hp other ho => ?_, fun hp hs other => ?_, fun hp hs other ho => ?_⟩
  · rw [owner_remove hentries] at ho
    split at ho
    · exact nomatch ho
    · exact h.mayOwn other ho
  · have hne : other ≠ m := fun heq => hm (heq ▸ ho)
    rw [owner_remove hentries, if_neg hne]
    exact h.holds (isLatest_congr hnext p ▸ hp) other ho
  · rw [owner_remove hentries]
    split
    · exact .inl rfl
    · exact h.settled (isLatest_congr hnext p ▸ hp) hs other
  · rw [owner_remove hentries] at ho
    split at ho
    · exact absurd rfl ho
    · exact h.cleared (isLatest_congr hnext p ▸ hp) hs other ho

/-- A stage of the session without a relay loop. -/
theorem PublisherOk.quiet (h : r.PublisherOk p pub) (hstage : r'.StageOk p pub'.stage)
    (hoverlay : pub'.overlay = pub.overlay) (hframes : pub'.overlaySent = pub.overlaySent)
    (hrelay : pub'.stage.isRelaying = false)
    (hearly : pub'.stage.isEarly → pub.stage.isEarly ∧ pub'.sent = pub.sent) :
    r'.PublisherOk p pub' := by
  refine ⟨hstage, fun he => ?_, fun he => ?_, fun _ hs => ?_, hoverlay ▸ h.leaving⟩
  · obtain ⟨hold, hsent⟩ := hearly he
    rw [hoverlay, hsent]
    exact h.early hold
  · rw [hoverlay] at he
    rw [hframes]
    exact h.unsent he
  · rw [hrelay] at hs
    exact nomatch hs

/-! ## One step -/

theorem Entered.publish (h : r.Entered) : r.publish.Entered := by
  have howner : ∀ m, r.publish.owner m =
      if m = .publishNonces then some r.nextNonce else r.owner m := fun m =>
    owner_insert (e := ⟨r.nextNonce, none⟩) rfl
  have hpub : ∀ q, q ≠ r.nextNonce → r.publish.publishers q = r.publishers q := fun q hq =>
    Function.update_of_ne hq _ _
  have hnew : r.publish.publishers r.nextNonce = some ⟨.claimed, .unborn, [], []⟩ :=
    Function.update_self _ _ _
  refine ⟨fun q hq => ?_, fun m q ho => ?_, fun q pub hq => ?_⟩
  · have hle : r.nextNonce + 1 ≤ q := hq
    rw [hpub q (by omega)]
    exact h.fresh q (by omega)
  · by_cases hqn : q = r.nextNonce
    · rw [hqn, hnew]
      rfl
    · rw [howner] at ho
      rw [hpub q hqn]
      split at ho
      · exact absurd (Option.some.inj ho).symm hqn
      · exact h.known m q ho
  · by_cases hqn : q = r.nextNonce
    · subst hqn
      obtain rfl := Option.some.inj (hnew.symm.trans hq)
      refine ⟨⟨fun m ho => ?_, fun _ m hm => ?_, (fun _ hs => nomatch hs),
        (fun _ hs => nomatch hs)⟩, (fun _ => ⟨rfl, rfl⟩), (fun _ => rfl),
        (fun _ hs => nomatch hs), fun _ hr => nomatch hr⟩
      · rw [howner] at ho
        split at ho
        · simp_all [Stage.mayOwn]
        · exact absurd (h.lt_nextNonce (h.known m _ ho)) (Nat.lt_irrefl _)
      · obtain rfl := List.mem_singleton.mp hm
        rw [howner, if_pos rfl]
    · rw [hpub q hqn] at hq
      -- an older session is not the latest any more
      have hnot : ¬ r.publish.isLatest q := fun hlatest => by
        have heq : q + 1 = r.nextNonce + 1 := of_decide_eq_true hlatest
        omega
      have hok := h.publisher q pub hq
      refine ⟨⟨fun m ho => ?_, fun hp => absurd hp hnot, fun hp => absurd hp hnot,
        fun hp => absurd hp hnot⟩, hok.early, hok.unsent, fun hp => absurd hp hnot, hok.leaving⟩
      rw [howner] at ho
      split at ho
      · exact absurd (Option.some.inj ho).symm hqn
      · exact hok.stage.mayOwn m ho

/-- The session gives up its nonce, which it holds. -/
theorem StageOk.dropNonce (h : r.StageOk p stage)
    (hentries : r'.entries = (r.remove .publishNonces).entries) (hholds : stage'.holds = [])
    (hmay : ∀ m, m ≠ .publishNonces → stage.mayOwn m → stage'.mayOwn m)
    (hrelay : stage'.isRelaying = false)
    (hclose : stage'.isClosing → ∀ m, m ≠ .publishNonces → stage'.mayOwn m) :
    r'.StageOk p stage' := by
  refine ⟨fun m ho => ?_, fun _ m hm => ?_, fun _ hs => ?_, fun _ hs m ho => ?_⟩
  · rw [owner_remove hentries] at ho
    split at ho
    · exact nomatch ho
    · rename_i hm
      exact hmay m hm (h.mayOwn m ho)
  · rw [hholds] at hm
    exact absurd hm List.not_mem_nil
  · rw [hrelay] at hs
    exact nomatch hs
  · rw [owner_remove hentries] at ho
    split at ho
    · exact absurd rfl ho
    · rename_i hm
      exact hclose hs m hm

theorem Entered.of_eq (h : r.Entered) (hpub : r'.publishers = r.publishers)
    (hentries : r'.entries = r.entries) (hnext : r'.nextNonce = r.nextNonce) : r'.Entered := by
  have howner : ∀ m, r'.owner m = r.owner m := fun m => by rw [owner, owner, hentries]
  refine ⟨fun p hp => ?_, fun m p ho => ?_, fun p pub hp => ?_⟩
  · rw [hpub]
    exact h.fresh p (hnext ▸ hp)
  · rw [hpub]
    exact h.known m p (howner m ▸ ho)
  · have hok := h.publisher p pub (hpub ▸ hp)
    refine ⟨hok.stage.of_owner hnext howner (fun _ => id) (fun _ => id) id id, hok.early,
      hok.unsent, fun hlatest hs m hm => ?_, hok.leaving⟩
    rw [howner]
    exact hok.extras (isLatest_congr hnext p ▸ hlatest) hs m hm

/-- The nonce that is removed is the session's own. -/
theorem nonce_touch (hnonce : r.holdsNonce p) :
    ∀ q, r.owner .publishNonces = some q → q ≤ p := by
  intro q ho
  rw [holdsNonce_iff.mp hnonce] at ho
  exact Nat.le_of_eq (Option.some.inj ho).symm

theorem Entered.activate (h : r.Entered) (hp : r.publishers p = some pub)
    (hs : pub.stage = .claimed) (hlatest : r.isLatest p) :
    r.Moved ((r.insert p .activationSenders).setStage p pub .waiting) p := by
  have hok := (h.publisher p pub hp).stage
  rw [hs] at hok
  have howner : ∀ m, ((r.insert p .activationSenders).setStage p pub .waiting).owner m =
      if m = .activationSenders then some p else r.owner m := fun m =>
    owner_insert (e := ⟨p, none⟩) rfl
  refine h.section hp rfl rfl (.insert rfl rfl hlatest) ((h.publisher p pub hp).quiet
    ⟨fun m ho => ?_, fun _ m hm => ?_, (fun _ hs => nomatch hs), (fun _ hs => nomatch hs)⟩ rfl rfl rfl
    fun _ => ⟨by rw [hs]; rfl, rfl⟩)
  · rw [howner] at ho
    split at ho
    · simp_all [Stage.mayOwn]
    · have := hok.mayOwn m ho
      simp_all [Stage.mayOwn]
  · rw [howner]
    split
    · rfl
    · refine hok.holds hlatest m ?_
      simp_all [Stage.holds]

theorem Entered.enter (h : r.Entered) (hp : r.publishers p = some pub) {m : Map} {rest : List Map}
    (hs : pub.stage = .entering (m :: rest)) (hlatest : r.isLatest p)
    (hclean : rest = [] → ∀ other ∈ [Map.keyframes, .overlayHeaders, .overlayStreams,
      .overlayKeyframes], r.entries other = none) : r.Moved (r.enter p pub m rest) p := by
  have hpok := h.publisher p pub hp
  have hok := hpok.stage
  rw [hs] at hok
  have howner : ∀ other, (r.enter p pub m rest).owner other =
      if other = m then some p else r.owner other := fun other => by
    refine owner_insert (e := ⟨p, none⟩) ?_
    unfold Room.enter
    split <;> rfl
  have hheld : ∀ other ∈ [Map.publishNonces, .activationSenders] ++
      Stage.registration.filter (· ∉ rest), (r.enter p pub m rest).owner other = some p := by
    intro other ho
    rw [howner]
    split
    · rfl
    · refine hok.holds hlatest other ?_
      simp_all [Stage.holds]
  unfold Room.enter at hheld howner ⊢
  split
  · rename_i hrest
    simp only [hrest, if_true] at hheld howner
    obtain ⟨hoverlay, hsent⟩ := hpok.early (by rw [hs]; rfl)
    refine h.section hp rfl rfl (.insert rfl rfl hlatest)
      ⟨⟨fun _ _ => rfl, fun _ other ho => ?_, fun _ _ other => ?_, (fun _ hc => nomatch hc)⟩,
        (fun he => nomatch he), (fun _ => hpok.unsent (by rw [hoverlay]; rfl)),
        fun _ _ other ho => ?_, fun _ hr => nomatch hr⟩
    · refine hheld other ?_
      simpa [Stage.holds, Stage.registration] using ho
    · by_cases hmem : other ∈ [Map.publishNonces, .activationSenders] ++ Stage.registration
      · refine .inr (hheld other ?_)
        simpa [Stage.registration] using hmem
      · have hnone := hclean hrest other (by
          cases other <;> simp_all [Stage.registration])
        rw [howner]
        split
        · exact .inr rfl
        · exact .inl (owner_eq_none.mpr hnone)
    · -- nothing was sent before, so the frames and the overlay have no entry yet
      simp [Publisher.extras, Publisher.hasKeyframe, Publisher.hasOverlayKeyframe, Overlay.holds,
        hsent] at ho
  · rename_i hrest
    simp only [hrest, if_false] at hheld howner
    exact h.section hp rfl rfl (.insert rfl rfl hlatest) (hpok.quiet
      ⟨fun _ _ => rfl, fun _ other ho => hheld other ho, (fun _ hs => nomatch hs),
        (fun _ hc => nomatch hc)⟩ rfl rfl rfl fun _ => ⟨by rw [hs]; rfl, rfl⟩)

/-- The last section of a session leaves none of its entries, and none at all if it is the
latest. -/
theorem StageOk.finish (hnext : r'.nextNonce = r.nextNonce)
    (hentries : r'.entries = (r.remove m).entries)
    (hown : ∀ other, other ≠ m → r.owner other ≠ some p)
    (hall : r.isLatest p → ∀ other, other ≠ m → r.owner other = none) : r'.StageOk p .ended := by
  refine ⟨fun other ho => ?_, (fun _ _ hm => nomatch hm), (fun _ hs => nomatch hs),
    fun hp _ other ho => ?_⟩
  · rw [owner_remove hentries] at ho
    split at ho
    · exact nomatch ho
    · rename_i hne
      exact absurd ho (hown other hne)
  · rw [owner_remove hentries] at ho
    split at ho
    · exact absurd rfl ho
    · rename_i hne
      exact absurd (hall (isLatest_congr hnext p ▸ hp) other hne) ho

theorem Entered.dropActivation (h : r.Entered) (hp : r.publishers p = some pub)
    (hs : pub.stage = .dropActivation)
    (hg : if r.isLatest p then ∀ m, m ≠ .activationSenders → r.entries m = none
      else r.notNewer p .activationSenders) :
    r.Moved ((r.remove .activationSenders).setStage p pub .ended) p := by
  have hok := (h.publisher p pub hp).stage
  rw [hs] at hok
  refine h.section hp rfl rfl (.remove rfl ?_) ((h.publisher p pub hp).quiet
    (.finish (r := r) rfl rfl (fun other hne ho => ?_) fun hlatest other hne => ?_) rfl rfl rfl
    fun he => nomatch he)
  · by_cases hlatest : r.isLatest p
    · exact h.notNewer_latest hlatest
    · rw [if_neg hlatest] at hg
      exact notNewer_iff.mp hg
  · have := hok.mayOwn other ho
    simp_all [Stage.mayOwn]
  · rw [if_pos hlatest] at hg
    exact owner_eq_none.mpr (hg other hne)

theorem Entered.clear (h : r.Entered) (hp : r.publishers p = some pub) {m : Map} {rest : List Map}
    (hs : pub.stage = .clearing (m :: rest)) (hm : r.notNewer p m)
    (hlast : rest = [] → (r.owner .overlayStreams ≠ some p) ∧
      (r.isLatest p → r.owner .overlayStreams = none)) : r.Moved (r.clear p pub m rest) p := by
  have hok := (h.publisher p pub hp).stage
  rw [hs] at hok
  -- the stage after the section, whether the empty chunk is sent with it or not
  have hstage : ∀ r' : Room, r'.nextNonce = r.nextNonce → r'.entries = (r.remove m).entries →
      r'.StageOk p (if rest = [] then .ended else .clearing rest) := by
    intro r' hnext hentries
    have hleft : ∀ other, other ≠ m → (Stage.clearing (m :: rest)).mayOwn other →
        other ∈ Map.overlayStreams :: rest := by
      intro other hne hmay
      simp_all [Stage.mayOwn]
    by_cases hrest : rest = []
    · rw [if_pos hrest]
      obtain ⟨hown, hall⟩ := hlast hrest
      refine .finish hnext hentries (fun other hne ho => ?_) fun hlatest other hne => ?_
      · have := hleft other hne (hok.mayOwn other ho)
        rw [hrest, List.mem_singleton] at this
        exact hown (this ▸ ho)
      · by_contra ho
        have := hleft other hne (hok.cleared hlatest rfl other ho)
        rw [hrest, List.mem_singleton] at this
        exact ho (this ▸ hall hlatest)
    · rw [if_neg hrest]
      refine ⟨fun other ho => ?_, (fun _ _ hm => nomatch hm), (fun _ hs => nomatch hs),
        fun hlatest _ other ho => ?_⟩
      · rw [owner_remove hentries] at ho
        split at ho
        · exact nomatch ho
        · rename_i hne
          simpa [Stage.mayOwn] using hleft other hne (hok.mayOwn other ho)
      · rw [owner_remove hentries] at ho
        split at ho
        · exact absurd rfl ho
        · rename_i hne
          simpa [Stage.mayOwn] using
            hleft other hne (hok.cleared (isLatest_congr hnext p ▸ hlatest) rfl other ho)
  have hclosing : (if rest = [] then Stage.ended else .clearing rest).isRelaying = false ∧
      ¬ (if rest = [] then Stage.ended else .clearing rest).isEarly := by
    split <;> exact ⟨rfl, Bool.false_ne_true⟩
  unfold Room.clear
  dsimp only
  split
  · exact h.section hp rfl rfl (.remove rfl (notNewer_iff.mp hm))
      ((h.publisher p pub hp).quiet (hstage _ rfl rfl) rfl rfl hclosing.1 fun he => absurd he hclosing.2)
  · exact h.section hp rfl rfl (.remove rfl (notNewer_iff.mp hm))
      ((h.publisher p pub hp).quiet (hstage _ rfl rfl) rfl rfl hclosing.1 fun he => absurd he hclosing.2)

theorem Entered.advance (h : r.Entered) (hp : r.publishers p = some pub)
    (hg : r.orderly (.advance p)) (hstep : Advanced r p pub r') : r.Moved r' p := by
  have hpok := h.publisher p pub hp
  have hok := hpok.stage
  simp only [orderly, hp, Option.all_some] at hg
  cases hstep with
  | claimed hs =>
      rw [hs] at hg
      exact h.activate hp hs hg
  | giveUp hs hnonce =>
      rw [hs] at hok
      refine h.section hp rfl rfl (.remove rfl (nonce_touch hnonce)) (hpok.quiet
        (hok.dropNonce rfl rfl (fun m hne hm => ?_) rfl fun hc => by cases hc) rfl rfl rfl
        fun he => by cases he)
      simp_all [Stage.mayOwn]
  | givenUp hs hnonce =>
      rw [hs] at hok hg
      rw [Bool.or_eq_true] at hg
      exact h.section hp rfl rfl (.same rfl) (hpok.quiet
        (hok.skip rfl (fun _ => rfl) (by simp [Stage.holds]) hnonce (hg.resolve_left hnonce))
        rfl rfl rfl fun he => by cases he)
  | dropActivation hs =>
      rw [hs] at hg
      refine h.dropActivation hp hs ?_
      dsimp only at hg
      split at hg
      · rename_i hlatest
        rw [if_pos hlatest]
        intro m hm
        cases m <;> simp_all
      · rename_i hlatest
        rw [if_neg hlatest]
        exact hg
  | @enter m rest hs =>
      rw [hs] at hg
      rw [Bool.and_eq_true] at hg
      refine h.enter hp hs hg.1 fun hrest other hother => ?_
      have := hg.2
      subst hrest
      simp only [List.isEmpty_nil, Bool.not_true, Bool.false_or, List.all_eq_true,
        decide_eq_true_eq] at this
      exact this other hother
  | check hs hnonce =>
      rw [hs] at hok
      refine h.section hp rfl rfl (.remove rfl (nonce_touch hnonce)) (hpok.quiet
        (hok.dropNonce rfl rfl (fun m hne _ => ?_) rfl fun _ m hne => ?_) rfl rfl rfl
        fun he => by cases he)
      · cases m <;> simp_all [Stage.mayOwn, Stage.teardown]
      · cases m <;> simp_all [Stage.mayOwn, Stage.teardown]
  | checked hs hnonce =>
      rw [hs] at hok hg
      rw [Bool.or_eq_true] at hg
      exact h.section hp rfl rfl (.same rfl) (hpok.quiet
        (hok.skip rfl (fun _ => rfl) (by simp [Stage.holds]) hnonce (hg.resolve_left hnonce))
        rfl rfl rfl fun he => by cases he)
  | @clear m rest hs =>
      rw [hs] at hg
      rw [Bool.and_eq_true] at hg
      refine h.clear hp hs hg.1 fun hrest => ?_
      have hlast := hg.2
      subst hrest
      simp only [List.isEmpty_nil, Bool.not_true, Bool.false_or] at hlast
      split at hlast
      · have hnone : r.owner .overlayStreams = none :=
          owner_eq_none.mpr (of_decide_eq_true hlast)
        exact ⟨by rw [hnone]; simp, fun _ => hnone⟩
      · rename_i hlatest
        refine ⟨fun ho => ?_, fun hl => absurd hl hlatest⟩
        obtain ⟨e, he, rfl⟩ := Option.map_eq_some_iff.mp ho
        simp [he] at hlast

/-- The entries of a session whose overlay task is under way. -/
theorem PublisherOk.overlay {overlay : Overlay} (h : r.PublisherOk p pub)
    (hborn : pub.overlay ≠ .unborn) (hstage : r'.StageOk p pub.stage)
    (hunsent : overlay.isEarly → pub.overlay.isEarly)
    (hextras : r'.isLatest p → pub.stage.isRelaying →
      ∀ m ∈ { pub with overlay }.extras, r'.owner m = some p)
    (hleaving : ∀ rest, overlay = .leaving rest → ∀ m ∈ rest, m ∈ Overlay.teardown) :
    r'.PublisherOk p { pub with overlay } :=
  ⟨hstage, fun he => absurd (h.early he).1 hborn, fun he => h.unsent (hunsent he), hextras,
    hleaving⟩

theorem Entered.overlayEnter (h : r.Entered) (hp : r.publishers p = some pub) {rest : List Map}
    (hs : pub.overlay = .entering (m :: rest)) (hlatest : r.isLatest p)
    (hrelay : pub.stage.isRelaying) :
    r.Moved ((r.insert p m).setOverlay p pub (if rest = [] then .relaying else .entering rest)) p := by
  have hpok := h.publisher p pub hp
  have hsent : pub.overlaySent = [] := hpok.unsent (by rw [hs]; rfl)
  refine h.section hp rfl rfl (.insert rfl rfl hlatest) (hpok.overlay (by rw [hs]; simp)
    (hpok.stage.write hrelay hrelay rfl rfl rfl) (fun _ => by rw [hs]; rfl) (fun _ _ other ho => ?_)
    fun rest' hr => ?_)
  · rw [owner_insert (r := r) (m := m) (e := ⟨p, none⟩) rfl]
    split
    · rfl
    · rename_i hne
      refine hpok.extras hlatest hrelay other ?_
      -- nothing of the overlay was sent, so only its own entries are new
      by_cases hrest : rest = [] <;>
        simp_all [Publisher.extras, Publisher.hasKeyframe, Publisher.hasOverlayKeyframe,
          Overlay.holds]
  · split at hr <;> exact nomatch hr

theorem Entered.overlayLeave (h : r.Entered) (hp : r.publishers p = some pub) {rest : List Map}
    (hs : pub.overlay = .leaving (m :: rest)) (hm : r.notNewer p m) :
    r.Moved ((r.remove m).setOverlay p pub (if rest = [] then .ended else .leaving rest)) p := by
  have hpok := h.publisher p pub hp
  have hleaving := hpok.leaving (m :: rest) hs
  have hmem := hleaving m List.mem_cons_self
  -- no session waits for an entry that only the overlay task makes
  have hholds : m ∉ pub.stage.holds := by
    cases hstage : pub.stage <;>
      cases m <;> simp_all [Stage.holds, Overlay.teardown, Stage.registration]
  refine h.section hp rfl rfl (.remove rfl (notNewer_iff.mp hm)) (hpok.overlay (by rw [hs]; simp)
    (hpok.stage.unwrite hholds rfl rfl) (fun he => ?_) (fun hlatest hrelay other ho => ?_)
    fun rest' hr => ?_)
  · split at he <;> exact nomatch he
  · have hkeyframes : other = .keyframes ∧ pub.hasKeyframe := by
      by_cases hrest : rest = [] <;>
        simp_all [Publisher.extras, Publisher.hasKeyframe, Publisher.hasOverlayKeyframe,
          Overlay.holds]
    obtain ⟨rfl, hkey⟩ := hkeyframes
    have hne : Map.keyframes ≠ m := by
      rintro rfl
      simp [Overlay.teardown] at hmem
    refine (owner_remove (r := r) (m := m) rfl).trans ?_
    rw [if_neg hne]
    exact hpok.extras hlatest hrelay _ (by simp [Publisher.extras, hkey])
  · split at hr
    · exact nomatch hr
    · obtain rfl := Overlay.leaving.inj hr
      exact fun other ho => hleaving other (List.mem_cons_of_mem _ ho)

/-- A session that relays, before and after. -/
theorem PublisherOk.relay (h : r.PublisherOk p pub) (hstage : r'.StageOk p pub'.stage)
    (hrelay : pub'.stage.isRelaying) (hoverlay : pub'.overlay = pub.overlay)
    (hunsent : pub.overlay.isEarly → pub'.overlaySent = pub.overlaySent)
    (hextras : r'.isLatest p → ∀ m ∈ pub'.extras, r'.owner m = some p) : r'.PublisherOk p pub' := by
  refine ⟨hstage, fun he => ?_, fun he => ?_, fun hlatest _ => hextras hlatest,
    hoverlay ▸ h.leaving⟩
  · obtain ⟨pending, hpending⟩ := Stage.isRelaying_iff.mp hrelay
    rw [hpending] at he
    exact nomatch he
  · rw [hoverlay] at he
    rw [hunsent he]
    exact h.unsent he

theorem Entered.read (h : r.Entered) (hp : r.publishers p = some pub)
    (hs : pub.stage = .relaying none) (hg : r.orderly (.read p flags)) :
    r.Moved (r.read p pub flags) p := by
  have hpok := h.publisher p pub hp
  have hok := hpok.stage
  rw [hs] at hok
  unfold Room.read
  dsimp only
  split
  · rename_i hkey
    have hlatest : r.isLatest p := by simpa [orderly, of_decide_eq_true hkey] using hg
    refine h.section hp rfl rfl (.insert rfl rfl hlatest) (hpok.relay (hok.write rfl rfl rfl rfl rfl)
      rfl rfl (fun _ => rfl) fun _ other ho => ?_)
    refine (owner_insert (r := r) (m := .keyframes) rfl).trans ?_
    split
    · rfl
    · rename_i hne
      refine hpok.extras hlatest (by rw [hs]; rfl) other ?_
      simp_all [Publisher.extras, Publisher.hasKeyframe, Publisher.hasOverlayKeyframe]
  · rename_i hkey
    refine h.section hp rfl rfl (.same rfl) (hpok.relay
      (hok.of_owner rfl (fun _ => rfl) (fun _ => id) (fun _ => id) id id) rfl rfl (fun _ => rfl)
      fun hlatest other ho => hpok.extras hlatest (by rw [hs]; rfl) other ?_)
    simp_all [Publisher.extras, Publisher.hasKeyframe, Publisher.hasOverlayKeyframe]

theorem Entered.broadcast (h : r.Entered) (hp : r.publishers p = some pub) {frame : Frame}
    (hs : pub.stage = .relaying (some frame)) : r.Moved (r.broadcast p pub frame) p := by
  have hpok := h.publisher p pub hp
  have hok := hpok.stage
  rw [hs] at hok
  refine h.section hp rfl rfl (.same rfl) (hpok.relay
    (hok.of_owner rfl (fun _ => rfl) (fun _ => id) (fun _ => id) id id) rfl rfl (fun _ => rfl)
    fun hlatest other ho => hpok.extras hlatest (by rw [hs]; rfl) other ?_)
  -- the frame that waited is the last that was sent
  have hkey : { pub with stage := .relaying none, sent := pub.sent ++ [some frame] }.hasKeyframe =
      pub.hasKeyframe := by
    simp [Publisher.hasKeyframe, hs]
  have hextras : { pub with stage := .relaying none, sent := pub.sent ++ [some frame] }.extras =
      pub.extras := by
    unfold Publisher.extras
    rw [hkey]
    rfl
  exact hextras ▸ ho

theorem Entered.overlayRead (h : r.Entered) (hp : r.publishers p = some pub)
    (hs : pub.overlay = .relaying) (hg : r.orderly (.overlayRead p flags)) :
    r.Moved (r.overlayRead p pub flags) p := by
  have hpok := h.publisher p pub hp
  have hearly : ¬ pub.stage.isEarly := fun he => by
    have := (hpok.early he).1
    simp [hs] at this
  have hunsent : ∀ sent : List Frame, pub.overlay.isEarly → sent = [] := by
    intro sent he
    rw [hs] at he
    exact nomatch he
  unfold Room.overlayRead
  dsimp only
  split
  · rename_i hkey
    obtain ⟨hlatest, hrelay⟩ : r.isLatest p ∧ pub.stage.isRelaying := by
      simpa [orderly, of_decide_eq_true hkey, hp] using hg
    refine h.section hp rfl rfl (.insert rfl rfl hlatest)
      ⟨hpok.stage.write hrelay hrelay rfl rfl rfl, fun he => absurd he hearly, hunsent _,
        fun _ _ other ho => ?_, hpok.leaving⟩
    refine (owner_insert (r := r) (m := .overlayKeyframes) rfl).trans ?_
    split
    · rfl
    · rename_i hne
      refine hpok.extras hlatest hrelay other ?_
      simp_all [Publisher.extras, Publisher.hasKeyframe, Publisher.hasOverlayKeyframe]
  · rename_i hkey
    refine h.section hp rfl rfl (.same rfl)
      ⟨hpok.stage.of_owner rfl (fun _ => rfl) (fun _ => id) (fun _ => id) id id,
        fun he => absurd he hearly, hunsent _, fun hlatest hrelay other ho =>
        hpok.extras hlatest hrelay other ?_, hpok.leaving⟩
    simp_all [Publisher.extras, Publisher.hasKeyframe, Publisher.hasOverlayKeyframe]

/-- A receive changes the viewer only, and leaves the session that it watches. -/
theorem receive_viewer {w : ℕ} {viewer : Viewer} {needsResync : Bool} {n : ℕ} {stale writes : Bool}
    {message : Option Frame} :
    ∃ viewer', r.receive w viewer needsResync n stale writes message = r.setViewer w viewer' ∧
      viewer'.publisher = viewer.publisher := by
  unfold Room.receive Room.write
  split
  · exact ⟨_, rfl, rfl⟩
  · dsimp only
    split
    · split
      · split <;> exact ⟨_, rfl, rfl⟩
      · exact ⟨_, rfl, rfl⟩
    · split
      · exact ⟨_, rfl, rfl⟩
      · split <;> exact ⟨_, rfl, rfl⟩

theorem Entered.accept (h : r.Entered) (hp : r.publishers p = some pub) (hs : pub.stage = .waiting)
    (accepted : Accepted) : r.Moved (r.accept p pub accepted) p := by
  have hpok := h.publisher p pub hp
  have hok := hpok.stage
  rw [hs] at hok
  cases accepted with
  | failed =>
      exact h.section hp rfl rfl (.same rfl) (hpok.quiet
        (hok.of_owner rfl (fun _ => rfl) (fun _ => id) (fun _ => id) id id) rfl rfl rfl
        fun he => by cases he)
  | rejected =>
      exact h.section hp rfl rfl (.same rfl) (hpok.quiet
        (hok.of_owner rfl (fun _ => rfl) (fun _ _ => rfl) (by simp [Stage.holds]) id id)
        rfl rfl rfl fun he => by cases he)
  | header =>
      exact h.section hp rfl rfl (.same rfl) (hpok.quiet
        (hok.of_owner rfl (fun _ => rfl) (fun _ _ => rfl)
          (by simp [Stage.holds, Stage.registration]) id id)
        rfl rfl rfl fun _ => ⟨by rw [hs]; rfl, rfl⟩)

theorem Entered.moved (h : r.Entered) {i : Input} (hi : i.session = some p) (hg : r.orderly i)
    (hstep : r.step i = some r') : r.Moved r' p := by
  cases step_cases hstep with
  | accept accepted hp hs =>
      cases hi
      exact h.accept hp hs accepted
  | advance hp hstep =>
      cases hi
      exact h.advance hp hg hstep
  | read flags hp hs =>
      cases hi
      exact h.read hp hs hg
  | broadcast hp hs =>
      cases hi
      exact h.broadcast hp hs
  | stopRelay hp hs =>
      cases hi
      have hpok := h.publisher p _ hp
      have hok := hpok.stage
      rw [hs] at hok
      exact h.section hp rfl rfl (.same rfl) (hpok.quiet
        (hok.of_owner rfl (fun _ => rfl) (fun _ => id) (by simp [Stage.holds])
          (fun hr => by cases hr) id) rfl rfl rfl fun he => by cases he)
  | overlayOpen hp hs =>
      cases hi
      have hpok := h.publisher p _ hp
      refine h.section hp rfl rfl (.same rfl) (hpok.overlay (by rw [hs]; simp)
        (hpok.stage.of_owner rfl (fun _ => rfl) (fun _ => id) (fun _ => id) id id)
        (fun _ => by rw [hs]; rfl)
        (fun hlatest hrelay other ho => hpok.extras hlatest hrelay other ?_) fun _ hr => by cases hr)
      simp_all [Publisher.extras, Publisher.hasKeyframe, Publisher.hasOverlayKeyframe,
        Overlay.holds, Overlay.registration]
  | overlayEnter hp hs =>
      cases hi
      simp only [orderly, hp, Option.all_some, hs, Bool.and_eq_true] at hg
      exact h.overlayEnter hp hs hg.1 hg.2
  | overlayLeave hp hs =>
      cases hi
      simp only [orderly, hp, Option.all_some, hs] at hg
      exact h.overlayLeave hp hs hg
  | overlayRead flags hp hs =>
      cases hi
      exact h.overlayRead hp hs hg
  | overlayStop hp hs =>
      cases hi
      have hpok := h.publisher p _ hp
      refine h.section hp rfl rfl (.same rfl) (hpok.overlay (by rw [hs]; simp)
        (hpok.stage.of_owner rfl (fun _ => rfl) (fun _ => id) (fun _ => id) id id)
        (fun he => by cases he)
        (fun hlatest hrelay other ho => hpok.extras hlatest hrelay other ?_) ?_)
      · simp_all [Publisher.extras, Publisher.hasKeyframe, Publisher.hasOverlayKeyframe,
          Overlay.holds]
      · rintro rest ⟨⟩ m hm
        exact hm
  | _ => cases hi

theorem Entered.step (h : r.Entered) {i : Input} (hg : r.orderly i) (hstep : r.step i = some r') :
    r'.Entered := by
  cases step_cases hstep with
  | publish => exact h.publish
  | subscribe he hp => exact h.of_eq rfl rfl rfl
  | readCache hw => exact h.of_eq rfl rfl rfl
  | openStream opened hw hs =>
      unfold Room.openStream
      split <;> exact h.of_eq rfl rfl rfl
  | receive stale writes hw hp hs hm =>
      obtain ⟨viewer', hviewer, -⟩ := receive_viewer (r := r)
      rw [hviewer]
      exact h.of_eq rfl rfl rfl
  | lag n hw => exact h.of_eq rfl rfl rfl
  | close hw => exact h.of_eq rfl rfl rfl
  | _ => exact (h.moved rfl hg hstep).entered

theorem Entered.init : Entered .init :=
  ⟨fun _ _ => rfl, (fun _ _ ho => nomatch ho), fun _ _ hp => nomatch hp⟩

/-! ## Runs -/

/-- The entries are those of the latest session as long as it is live, and no section takes
an entry of a newer session. -/
structure Registered (r : Room) : Prop where
  own : ∀ p pub, r.publishers p = some pub → r.isLatest p →
    ∀ m ∈ pub.stage.holds, r.owner m = some p
  extras : ∀ p pub, r.publishers p = some pub → r.isLatest p → pub.stage.isRelaying →
    ∀ m ∈ pub.extras, r.owner m = some p
  only : ∀ p pub, r.publishers p = some pub → r.isLatest p → pub.stage.isRelaying →
    ∀ m, r.owner m = none ∨ r.owner m = some p
  gone : ∀ p pub, r.publishers p = some pub → r.isLatest p → pub.stage = .ended →
    ∀ m, r.owner m = none
  live : ∀ m p, r.owner m = some p → ∃ pub, r.publishers p = some pub ∧ pub.stage ≠ .ended
  keeps : ∀ i p r', i.session = some p → r.orderly i → r.step i = some r' →
    ∀ m q, p < q → r.owner m = some q → r'.owner m = some q

theorem Moved.keeps (hmoved : r.Moved r' p) (h : r.Entered) (hq : p < q) (ho : r.owner m = some q) :
    r'.owner m = some q := by
  obtain heq | ⟨-, hle⟩ | ⟨-, hp⟩ := hmoved.touches m
  · rw [heq]
    exact ho
  · exact absurd (hle q ho) (Nat.not_le.mpr hq)
  · exact absurd (h.notNewer_latest hp q ho) (Nat.not_le.mpr hq)

theorem Entered.registered (h : r.Entered) : r.Registered where
  own := fun p pub hp => (h.publisher p pub hp).stage.holds
  extras := fun p pub hp => (h.publisher p pub hp).extras
  only := fun p pub hp => (h.publisher p pub hp).stage.settled
  gone := fun p pub hp hlatest hs m => by
    have hok := (h.publisher p pub hp).stage
    rw [hs] at hok
    by_contra ho
    exact nomatch hok.cleared hlatest rfl m ho
  live := fun m p ho => by
    obtain ⟨pub, hp⟩ := Option.isSome_iff_exists.mp (h.known m p ho)
    refine ⟨pub, hp, fun hs => ?_⟩
    have hmay := (h.publisher p pub hp).stage.mayOwn m ho
    rw [hs] at hmay
    exact nomatch hmay
  keeps := fun _ _ _ hi hg hstep _ _ hq ho => (h.moved hi hg hstep).keeps h hq ho

/-- The overlay stream of a session, from its header to its end. -/
def overlaid (p : ℕ) : List Input :=
  [.overlayOpen p, .overlayAdvance p, .overlayAdvance p, .overlayRead p 0, .overlayStop p,
    .overlayAdvance p, .overlayAdvance p, .overlayAdvance p]

/-- The second session registers over the first before that one ends. -/
def reconnects : List Input :=
  sharing 1 ++ sharing 2 ++ [.stopRelay 1, .advance 1] ++ frames 2 [0, 1] ++ overlaid 2 ++
    .stopRelay 2 :: List.replicate 8 (.advance 2)

end Room

end SpecterComs.MediaServer.Video
