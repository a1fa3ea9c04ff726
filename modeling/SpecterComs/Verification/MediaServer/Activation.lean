import SpecterComs.Verification.MediaServer.Publishing

/-! # Viewers of the current publish session

The count of the current session is that of its viewers, as long as no viewer of another session
changes it.
-/

namespace SpecterComs.MediaServer.Video

namespace Room

/-- A publish session that has not put its activation channel into the map. -/
def unregistered (r : Room) (p : ℕ) : Prop :=
  ∀ pub, r.publishers p = some pub → pub.stage = .claimed

/-- Sessions and viewers are numbered, and what is in the maps or is watched has been registered. -/
structure Ordered (r : Room) : Prop where
  publishers : ∀ p, r.nextNonce ≤ p → r.publishers p = none
  viewers : ∀ w, r.nextViewer ≤ w → r.viewers w = none
  entering : ∀ p pub rest, r.publishers p = some pub → pub.stage = .entering rest →
    ∀ m ∈ rest, m ∈ Stage.registration
  overlay : ∀ p pub rest, r.publishers p = some pub → pub.overlay = .entering rest →
    ∀ m ∈ rest, m ∈ Overlay.registration
  senders : ∀ p, r.owner .activationSenders = some p → ¬ r.unregistered p
  streams : ∀ p, r.owner .streams = some p → ¬ r.unregistered p
  watched : ∀ w viewer, r.viewers w = some viewer → ¬ r.unregistered viewer.publisher

/-- What a step of the room does to its viewers and to the activation channels. -/
structure Grows (r r' : Room) : Prop where
  unregistered : ∀ p, r'.unregistered p → r.unregistered p
  senders : ∀ p, r'.owner .activationSenders = some p →
    r.owner .activationSenders = some p ∨ r.unregistered p
  kept : ∀ w viewer, r.viewers w = some viewer →
    ∃ viewer', r'.viewers w = some viewer' ∧ viewer'.publisher = viewer.publisher

variable {r r' : Room} {p : ℕ} {pub pub' : Publisher}

theorem unregistered_iff (hp : r.publishers p = some pub) :
    r.unregistered p ↔ pub.stage = .claimed := by
  constructor
  · intro h
    exact h pub hp
  · intro h pub' hp'
    rwa [← Option.some.inj (hp.symm.trans hp')]

variable {q : ℕ}

theorem unregistered_update (hne : q ≠ p)
    (hpub : r'.publishers = Function.update r.publishers p (some pub')) :
    r'.unregistered q ↔ r.unregistered q := by
  unfold unregistered
  rw [hpub, Function.update_of_ne hne]

/-- A section of a publish session. -/
theorem Ordered.section (h : r.Ordered) (hp : r.publishers p = some pub)
    (hpub : r'.publishers = Function.update r.publishers p (some pub'))
    (hviewers : r'.viewers = r.viewers) (hnonce : r'.nextNonce = r.nextNonce)
    (hviewer : r'.nextViewer = r.nextViewer)
    (hstage : pub'.stage = .claimed → pub.stage = .claimed)
    (hentering : ∀ rest, pub'.stage = .entering rest → ∀ m ∈ rest, m ∈ Stage.registration)
    (hoverlay : ∀ rest, pub'.overlay = .entering rest → ∀ m ∈ rest, m ∈ Overlay.registration)
    (hsenders : ∀ q, r'.owner .activationSenders = some q →
      r.owner .activationSenders = some q ∨ q = p ∧ pub.stage = .claimed ∧ pub'.stage ≠ .claimed)
    (hstreams : ∀ q, r'.owner .streams = some q →
      r.owner .streams = some q ∨ q = p ∧ pub.stage ≠ .claimed) :
    r'.Ordered ∧ r.Grows r' := by
  have hp' : r'.publishers p = some pub' := by rw [hpub, Function.update_self]
  have hback : ∀ q, r'.unregistered q → r.unregistered q := by
    intro q hq
    by_cases hqp : q = p
    · subst hqp
      exact (unregistered_iff hp).mpr (hstage ((unregistered_iff hp').mp hq))
    · exact (unregistered_update hqp hpub).mp hq
  constructor
  · refine ⟨?_, ?_, ?_, ?_, ?_, ?_, ?_⟩
    · intro q hq
      have hq' := h.publishers q (hnonce ▸ hq)
      have hqp : q ≠ p := by
        rintro rfl
        rw [hp] at hq'
        cases hq'
      rw [hpub, Function.update_of_ne hqp]
      exact hq'
    · intro w hw
      rw [hviewers]
      exact h.viewers w (hviewer ▸ hw)
    · intro q pubq rest hq hrest
      by_cases hqp : q = p
      · subst hqp
        obtain rfl := Option.some.inj (hp'.symm.trans hq)
        exact hentering rest hrest
      · rw [hpub, Function.update_of_ne hqp] at hq
        exact h.entering q pubq rest hq hrest
    · intro q pubq rest hq hrest
      by_cases hqp : q = p
      · subst hqp
        obtain rfl := Option.some.inj (hp'.symm.trans hq)
        exact hoverlay rest hrest
      · rw [hpub, Function.update_of_ne hqp] at hq
        exact h.overlay q pubq rest hq hrest
    · intro q hq hunregistered
      rcases hsenders q hq with hold | ⟨rfl, -, hnew⟩
      · exact h.senders q hold (hback q hunregistered)
      · exact hnew ((unregistered_iff hp').mp hunregistered)
    · intro q hq hunregistered
      rcases hstreams q hq with hold | ⟨rfl, hnew⟩
      · exact h.streams q hold (hback q hunregistered)
      · exact hnew (hstage ((unregistered_iff hp').mp hunregistered))
    · intro w viewer hw hunregistered
      rw [hviewers] at hw
      exact h.watched w viewer hw (hback _ hunregistered)
  · refine ⟨hback, ?_, ?_⟩
    · intro q hq
      rcases hsenders q hq with hold | ⟨rfl, hclaimed, -⟩
      · exact .inl hold
      · exact .inr ((unregistered_iff hp).mpr hclaimed)
    · intro w viewer hw
      exact ⟨viewer, hviewers ▸ hw, rfl⟩

/-- A section of a viewer. -/
theorem Ordered.setViewer (h : r.Ordered) {w : ℕ} {viewer viewer' : Viewer}
    (hw : r.viewers w = some viewer) (hsame : viewer'.publisher = viewer.publisher) :
    (r.setViewer w viewer').Ordered ∧ r.Grows (r.setViewer w viewer') := by
  constructor
  · refine ⟨h.publishers, ?_, h.entering, h.overlay, h.senders, h.streams, ?_⟩
    · intro w' hw'
      have hnone := h.viewers w' hw'
      have hne : w' ≠ w := by
        rintro rfl
        rw [hw] at hnone
        cases hnone
      exact (Function.update_of_ne hne ..).trans hnone
    · intro w' viewer'' hw'
      dsimp only [Room.setViewer] at hw'
      by_cases hww : w' = w
      · subst hww
        rw [Function.update_self] at hw'
        obtain rfl := Option.some.inj hw'
        rw [hsame]
        exact h.watched w' viewer hw
      · rw [Function.update_of_ne hww] at hw'
        exact h.watched w' viewer'' hw'
  · refine ⟨fun _ => id, fun _ => .inl, ?_⟩
    intro w' viewer'' hw'
    by_cases hww : w' = w
    · subst hww
      obtain rfl := Option.some.inj (hw.symm.trans hw')
      exact ⟨viewer', Function.update_self .., hsame⟩
    · exact ⟨viewer'', (Function.update_of_ne hww ..).trans hw', rfl⟩

variable {m other : Map}

/-- The owner of an entry that is left was its owner. -/
theorem owner_of_remove (hentries : r'.entries = (r.remove m).entries)
    (hq : r'.owner other = some q) : r.owner other = some q := by
  rw [owner_remove hentries] at hq
  split at hq
  · cases hq
  · exact hq

/-- A section that leaves the entries and the lists of entries alone. -/
theorem Ordered.quiet (h : r.Ordered) (hp : r.publishers p = some pub)
    (hpub : r'.publishers = Function.update r.publishers p (some pub'))
    (hviewers : r'.viewers = r.viewers) (hnonce : r'.nextNonce = r.nextNonce)
    (hviewer : r'.nextViewer = r.nextViewer)
    (howner : ∀ m ∈ [Map.activationSenders, Map.streams], ∀ q, r'.owner m = some q →
      r.owner m = some q)
    (hstage : pub'.stage = pub.stage ∨
      pub'.stage ≠ .claimed ∧ ∀ rest, pub'.stage = .entering rest → ∀ m ∈ rest,
        m ∈ Stage.registration)
    (hoverlay : ∀ rest, pub'.overlay = .entering rest →
      pub.overlay = .entering rest ∨ ∀ m ∈ rest, m ∈ Overlay.registration) :
    r'.Ordered ∧ r.Grows r' := by
  refine h.section hp hpub hviewers hnonce hviewer ?_ ?_ ?_
    (fun q hq => .inl (howner _ (by simp) q hq)) (fun q hq => .inl (howner _ (by simp) q hq))
  · intro hclaimed
    rcases hstage with heq | ⟨hne, -⟩
    · rwa [← heq]
    · exact absurd hclaimed hne
  · intro rest hrest
    rcases hstage with heq | ⟨-, hall⟩
    · exact h.entering p pub rest hp (heq ▸ hrest)
    · exact hall rest hrest
  · intro rest hrest
    rcases hoverlay rest hrest with heq | hall
    · exact h.overlay p pub rest hp heq
    · exact hall

theorem publish_publishers :
    r.publish.publishers r.nextNonce = some ⟨.claimed, .unborn, [], []⟩ :=
  Function.update_self ..

theorem Ordered.publish (h : r.Ordered) : r.publish.Ordered ∧ r.Grows r.publish := by
  have hnone := h.publishers r.nextNonce (le_refl _)
  have hclaimed : r.unregistered r.nextNonce := by
    intro pub hp
    rw [hnone] at hp
    cases hp
  have hback : ∀ q, r.publish.unregistered q → r.unregistered q := by
    intro q hq
    by_cases hqn : q = r.nextNonce
    · exact hqn ▸ hclaimed
    · exact (unregistered_update hqn rfl).mp hq
  have howner : ∀ m, m ≠ Map.publishNonces → r.publish.owner m = r.owner m := by
    intro m hm
    exact (owner_insert rfl).trans (if_neg hm)
  constructor
  · refine ⟨?_, h.viewers, ?_, ?_, ?_, ?_, ?_⟩
    · intro q hq
      have hlt : r.nextNonce < q := hq
      exact (Function.update_of_ne (Nat.ne_of_gt hlt) ..).trans (h.publishers q hlt.le)
    · intro q pub rest hq hrest
      by_cases hqn : q = r.nextNonce
      · subst hqn
        obtain rfl := Option.some.inj (publish_publishers.symm.trans hq)
        cases hrest
      · exact h.entering q pub rest ((Function.update_of_ne hqn ..).symm.trans hq) hrest
    · intro q pub rest hq hrest
      by_cases hqn : q = r.nextNonce
      · subst hqn
        obtain rfl := Option.some.inj (publish_publishers.symm.trans hq)
        cases hrest
      · exact h.overlay q pub rest ((Function.update_of_ne hqn ..).symm.trans hq) hrest
    · intro q hq hunregistered
      rw [howner _ (by simp)] at hq
      exact h.senders q hq (hback q hunregistered)
    · intro q hq hunregistered
      rw [howner _ (by simp)] at hq
      exact h.streams q hq (hback q hunregistered)
    · intro w viewer hw hunregistered
      exact h.watched w viewer hw (hback _ hunregistered)
  · refine ⟨hback, fun q hq => .inl ?_, fun w viewer hw => ⟨viewer, hw, rfl⟩⟩
    rwa [howner _ (by simp)] at hq

/-- A section after which the session has neither just been claimed nor entries to make. -/
theorem Ordered.settle (h : r.Ordered) (hp : r.publishers p = some pub)
    (hpub : r'.publishers = Function.update r.publishers p (some pub'))
    (hviewers : r'.viewers = r.viewers) (hnonce : r'.nextNonce = r.nextNonce)
    (hviewer : r'.nextViewer = r.nextViewer)
    (howner : ∀ m ∈ [Map.activationSenders, Map.streams], ∀ q, r'.owner m = some q →
      r.owner m = some q)
    (hclaimed : pub'.stage ≠ .claimed) (hentering : ∀ rest, pub'.stage ≠ .entering rest)
    (hoverlay : pub'.overlay = pub.overlay) : r'.Ordered ∧ r.Grows r' :=
  h.quiet hp hpub hviewers hnonce hviewer howner
    (.inr ⟨hclaimed, fun rest hrest => absurd hrest (hentering rest)⟩)
    fun _ hrest => .inl (hoverlay ▸ hrest)

theorem Ordered.enter (h : r.Ordered) (hp : r.publishers p = some pub) {m : Map} {rest : List Map}
    (hs : pub.stage = .entering (m :: rest)) :
    (r.enter p pub m rest).Ordered ∧ r.Grows (r.enter p pub m rest) := by
  have hlist := h.entering p pub _ hp hs
  have hm := hlist m List.mem_cons_self
  have hsender : m ≠ .activationSenders := by
    rintro rfl
    exact absurd hm (by decide)
  have hclaimed : pub.stage ≠ .claimed := by
    rw [hs]
    simp
  have hentries : ∀ other q, (r.enter p pub m rest).owner other = some q →
      if other = m then q = p else r.owner other = some q := by
    intro other q hq
    have howner : (r.enter p pub m rest).owner other =
        if other = m then some p else r.owner other := by
      unfold Room.enter
      split
      · exact owner_insert (e := ⟨p, none⟩) rfl
      · exact owner_insert (e := ⟨p, none⟩) rfl
    rw [howner] at hq
    split at hq
    · rw [if_pos ‹_›]
      exact (Option.some.inj hq).symm
    · rw [if_neg ‹_›]
      exact hq
  have hsenders : ∀ q, (r.enter p pub m rest).owner .activationSenders = some q →
      r.owner .activationSenders = some q := by
    intro q hq
    have := hentries _ q hq
    rwa [if_neg (Ne.symm hsender)] at this
  have hstreams : ∀ q, (r.enter p pub m rest).owner .streams = some q →
      r.owner .streams = some q ∨ q = p ∧ pub.stage ≠ .claimed := by
    intro q hq
    have := hentries _ q hq
    split at this
    · exact .inr ⟨this, hclaimed⟩
    · exact .inl this
  by_cases hrest : rest = []
  · have henter : r.enter p pub m rest = (r.insert p m).setPublisher p
        { pub with stage := .relaying none, overlay := .waiting } := if_pos hrest
    rw [henter] at hsenders hstreams ⊢
    exact h.section hp rfl rfl rfl rfl (by simp) (by simp)
      (fun rest hrest => by cases hrest)
      (fun q hq => .inl (hsenders q hq)) hstreams
  · have henter : r.enter p pub m rest = (r.insert p m).setStage p pub (.entering rest) :=
      if_neg hrest
    rw [henter] at hsenders hstreams ⊢
    refine h.section hp rfl rfl rfl rfl (by simp) ?_
      (fun rest hrest => h.overlay p pub rest hp hrest) (fun q hq => .inl (hsenders q hq)) hstreams
    rintro _ ⟨⟩ m' hm'
    exact hlist m' (List.mem_cons_of_mem _ hm')

theorem Ordered.clear (h : r.Ordered) (hp : r.publishers p = some pub) {m : Map} {rest : List Map} :
    (r.clear p pub m rest).Ordered ∧ r.Grows (r.clear p pub m rest) := by
  have hclaimed : (if rest = [] then Stage.ended else .clearing rest) ≠ .claimed := by
    split <;> simp
  have hentering : ∀ rest', (if rest = [] then Stage.ended else .clearing rest) ≠ .entering rest' := by
    split <;> simp
  unfold Room.clear
  dsimp only
  split
  · exact h.settle hp rfl rfl rfl rfl (fun m _ q hq => owner_of_remove rfl hq) hclaimed hentering rfl
  · exact h.settle hp rfl rfl rfl rfl (fun m _ q hq => owner_of_remove rfl hq) hclaimed hentering rfl

theorem Ordered.advance (h : r.Ordered) (hp : r.publishers p = some pub)
    (hstep : Advanced r p pub r') : r'.Ordered ∧ r.Grows r' := by
  cases hstep with
  | claimed hs =>
      -- The session puts its activation channel into the map.
      refine h.section hp rfl rfl rfl rfl (by simp) (by simp)
        (fun rest hrest => h.overlay p pub rest hp hrest) ?_ ?_
      · intro q hq
        rw [owner_insert (m := .activationSenders) (e := ⟨p, none⟩) rfl, if_pos rfl] at hq
        exact .inr ⟨(Option.some.inj hq).symm, hs, by simp⟩
      · intro q hq
        rw [owner_insert (m := .activationSenders) (e := ⟨p, none⟩) rfl, if_neg (by simp)] at hq
        exact .inl hq
  | giveUp hs hnonce =>
      exact h.settle hp rfl rfl rfl rfl (fun m _ q hq => owner_of_remove rfl hq) (by simp) (by simp)
        rfl
  | givenUp hs hnonce =>
      exact h.settle hp rfl rfl rfl rfl (fun _ _ _ => id) (by simp) (by simp) rfl
  | dropActivation hs =>
      exact h.settle hp rfl rfl rfl rfl (fun m _ q hq => owner_of_remove rfl hq) (by simp) (by simp)
        rfl
  | enter hs => exact h.enter hp hs
  | check hs hnonce =>
      exact h.settle hp rfl rfl rfl rfl (fun m _ q hq => owner_of_remove rfl hq) (by simp) (by simp)
        rfl
  | checked hs hnonce =>
      exact h.settle hp rfl rfl rfl rfl (fun _ _ _ => id) (by simp) (by simp) rfl
  | clear hs => exact h.clear hp

/-- An entry that is neither of the two. -/
theorem owner_of_insert {e : Entry} (hentries : r'.entries = Function.update r.entries m (some e))
    (hne : other ≠ m) (hq : r'.owner other = some q) : r.owner other = some q := by
  rwa [owner_insert hentries, if_neg hne] at hq

theorem Ordered.overlayEnter (h : r.Ordered) (hp : r.publishers p = some pub) {rest : List Map}
    (hs : pub.overlay = .entering (m :: rest)) :
    let r' := (r.insert p m).setOverlay p pub (if rest = [] then .relaying else .entering rest)
    r'.Ordered ∧ r.Grows r' := by
  have hlist := h.overlay p pub _ hp hs
  have hm := hlist m List.mem_cons_self
  refine h.quiet hp rfl rfl rfl rfl (fun other hother q hq => owner_of_insert rfl ?_ hq) (.inl rfl) ?_
  · rintro rfl
    revert hother hm
    cases other <;> decide
  · intro rest' hrest'
    dsimp only at hrest'
    split at hrest'
    · cases hrest'
    · cases hrest'
      exact .inr fun m' hm' => hlist m' (List.mem_cons_of_mem _ hm')

/-- A new viewer watches a session that has been registered. -/
theorem Ordered.subscribe (h : r.Ordered) (hp : r.owner .streams = some p) :
    (r.subscribe p pub).Ordered ∧ r.Grows (r.subscribe p pub) := by
  have hnone := h.viewers r.nextViewer (le_refl _)
  constructor
  · refine ⟨h.publishers, ?_, h.entering, h.overlay, h.senders, h.streams, ?_⟩
    · intro w hw
      have hlt : r.nextViewer < w := hw
      exact (Function.update_of_ne (Nat.ne_of_gt hlt) ..).trans (h.viewers w hlt.le)
    · intro w viewer hw
      dsimp only [Room.subscribe, Room.setViewer] at hw
      by_cases hwn : w = r.nextViewer
      · subst hwn
        rw [Function.update_self] at hw
        obtain rfl := Option.some.inj hw
        exact h.streams p hp
      · rw [Function.update_of_ne hwn] at hw
        exact h.watched w viewer hw
  · refine ⟨fun _ => id, fun _ => .inl, fun w viewer hw => ?_⟩
    have hwn : w ≠ r.nextViewer := by
      rintro rfl
      rw [hnone] at hw
      cases hw
    exact ⟨viewer, (Function.update_of_ne hwn ..).trans hw, rfl⟩

/-- What a step of the room keeps. -/
theorem Ordered.step (h : r.Ordered) {i : Input} (hstep : r.step i = some r') :
    r'.Ordered ∧ r.Grows r' := by
  cases step_cases hstep with
  | publish => exact h.publish
  | accept accepted hp hs =>
      cases accepted with
      | failed => exact h.settle hp rfl rfl rfl rfl (fun _ _ _ => id) (by simp) (by simp) rfl
      | rejected => exact h.settle hp rfl rfl rfl rfl (fun _ _ _ => id) (by simp) (by simp) rfl
      | header =>
          refine h.quiet hp rfl rfl rfl rfl (fun _ _ _ => id) (.inr ⟨by simp, ?_⟩) fun _ => .inl
          rintro _ ⟨⟩ m hm
          exact hm
  | advance hp hstep => exact h.advance hp hstep
  | read flags hp hs =>
      unfold Room.read
      dsimp only
      split
      · refine h.settle hp rfl rfl rfl rfl (fun m hm q hq => owner_of_insert rfl ?_ hq) (by simp)
          (by simp) rfl
        rintro rfl
        exact absurd hm (by decide)
      · exact h.settle hp rfl rfl rfl rfl (fun _ _ _ => id) (by simp) (by simp) rfl
  | broadcast hp hs =>
      exact h.settle hp rfl rfl rfl rfl (fun _ _ _ => id) (by simp) (by simp) rfl
  | stopRelay hp hs =>
      exact h.settle hp rfl rfl rfl rfl (fun _ _ _ => id) (by simp) (by simp) rfl
  | overlayOpen hp hs =>
      refine h.quiet hp rfl rfl rfl rfl (fun _ _ _ => id) (.inl rfl) ?_
      rintro _ ⟨⟩
      exact .inr fun m hm => hm
  | overlayEnter hp hs => exact h.overlayEnter hp hs
  | overlayLeave hp hs =>
      refine h.quiet hp rfl rfl rfl rfl (fun other _ q hq => owner_of_remove rfl hq) (.inl rfl) ?_
      intro rest' hrest'
      dsimp only at hrest'
      split at hrest' <;> cases hrest'
  | overlayRead flags hp hs =>
      unfold Room.overlayRead
      dsimp only
      split
      · refine h.quiet hp rfl rfl rfl rfl (fun m hm q hq => owner_of_insert rfl ?_ hq) (.inl rfl)
          fun _ => .inl
        rintro rfl
        exact absurd hm (by decide)
      · exact h.quiet hp rfl rfl rfl rfl (fun _ _ _ => id) (.inl rfl) fun _ => .inl
  | overlayStop hp hs =>
      exact h.quiet hp rfl rfl rfl rfl (fun _ _ _ => id) (.inl rfl) fun _ hrest => by cases hrest
  | @subscribe e pub he hp =>
      have howner : r.owner .streams = some e.session := by
        unfold owner
        rw [he]
        rfl
      exact h.subscribe howner
  | readCache hw => exact h.setViewer hw rfl
  | openStream opened hw hs =>
      unfold Room.openStream
      split
      · exact h.setViewer hw rfl
      · exact h.setViewer hw rfl
  | receive stale writes hw hp hs hm =>
      obtain ⟨viewer', hviewer, hsame⟩ := receive_viewer (r := r)
      rw [hviewer]
      exact h.setViewer hw hsame
  | lag n hw => exact h.setViewer hw rfl
  | close hw => exact h.setViewer hw rfl

theorem Ordered.init : Room.init.Ordered where
  publishers _ _ := rfl
  viewers _ _ := rfl
  entering _ _ _ h := nomatch h
  overlay _ _ _ h := nomatch h
  senders _ h := nomatch h
  streams _ h := nomatch h
  watched _ _ h := nomatch h

end Room

namespace Audience

/-- A viewer receives from the channel of the session. -/
def watches (a : Audience) (p w : ℕ) : Bool :=
  (a.room.viewers w).any fun viewer => viewer.publisher = p

/-- The number of viewers of a publish session. -/
def watchers (a : Audience) (p : ℕ) : ℕ :=
  a.counted.countP (a.watches p)

/-- The session whose activation channel is in the map. -/
def current (a : Audience) : Option ℕ :=
  a.room.owner .activationSenders

/-- The count of the current session is the number of its viewers. -/
def Balanced (a : Audience) : Prop :=
  ∀ p, a.current = some p → a.counts p = a.watchers p

/-- A viewer that is counted watches the current session, which does not have 2 ^ 32 - 1 viewers
already; one that leaves watches it too, or nobody else does. -/
def Matches (a : Audience) : AudienceInput → Prop
  | .room _ => True
  | .activate w => ∀ p, a.current = some p → a.watches p w ∧ a.watchers p + 1 < 2 ^ 32
  | .deactivate w => ∀ p, a.current = some p → a.watches p w ∨ a.watchers p = 0

structure Inv (a : Audience) : Prop where
  ordered : a.room.Ordered
  known : ∀ w ∈ a.counted, (a.room.viewers w).isSome
  fresh : ∀ p, a.room.unregistered p → a.counts p = 0
  small : ∀ p, a.counts p < 2 ^ 32
  balanced : a.Balanced

theorem inv_init : init.Inv where
  ordered := .init
  known _ h := nomatch h
  fresh _ _ := rfl
  small _ := Nat.two_pow_pos 32
  balanced _ h := nomatch h

variable {a a' : Audience} {p w : ℕ}

theorem watches_iff {viewer : Viewer} (hw : a.room.viewers w = some viewer) :
    a.watches p w = true ↔ viewer.publisher = p := by
  unfold watches
  rw [hw, Option.any_some, decide_eq_true_eq]

/-- Nobody watches a session that has not been registered. -/
theorem Inv.unwatched (h : a.Inv) (hp : a.room.unregistered p) : a.watchers p = 0 := by
  refine List.countP_eq_zero.mpr fun w hw => ?_
  obtain ⟨viewer, hviewer⟩ := Option.isSome_iff_exists.mp (h.known w hw)
  rw [watches_iff hviewer]
  rintro rfl
  exact h.ordered.watched w viewer hviewer hp

theorem Inv.room (h : a.Inv) {i : Input} {r : Room} (hstep : a.room.step i = some r) :
    ({ a with room := r } : Audience).Inv := by
  obtain ⟨hordered, hgrows⟩ := h.ordered.step hstep
  have hwatches : ∀ p w, w ∈ a.counted → ({ a with room := r } : Audience).watches p w =
      a.watches p w := by
    intro p w hw
    obtain ⟨viewer, hviewer⟩ := Option.isSome_iff_exists.mp (h.known w hw)
    obtain ⟨viewer', hviewer', hsame⟩ := hgrows.kept w viewer hviewer
    simp only [watches, hviewer, hviewer', Option.any_some, hsame]
  have hwatchers : ∀ p, ({ a with room := r } : Audience).watchers p = a.watchers p := fun p =>
    List.countP_congr fun w hw => by rw [hwatches p w hw]
  refine ⟨hordered, ?_, fun p hp => h.fresh p (hgrows.unregistered p hp), h.small, ?_⟩
  · intro w hw
    obtain ⟨viewer, hviewer⟩ := Option.isSome_iff_exists.mp (h.known w hw)
    obtain ⟨viewer', hviewer', -⟩ := hgrows.kept w viewer hviewer
    exact Option.isSome_iff_exists.mpr ⟨viewer', hviewer'⟩
  · intro p hp
    rw [hwatchers]
    rcases hgrows.senders p hp with hold | hnew
    · exact h.balanced p hold
    · -- A session that begins has count 0, and no viewer yet.
      exact (h.fresh p hnew).trans (h.unwatched hnew).symm

theorem sendModify_eq (f : ℕ → ℕ) (p : ℕ) :
    a.sendModify f p = if a.current = some p then f (a.counts p) else a.counts p := by
  unfold sendModify current Room.owner
  cases a.room.entries .activationSenders with
  | none => simp
  | some e =>
      by_cases hp : e.session = p
      · subst hp
        simp
      · simp [hp, Function.update_of_ne (Ne.symm hp)]

theorem watchers_activate (p : ℕ) :
    (a.activate w).watchers p = a.watchers p + if a.watches p w then 1 else 0 :=
  List.countP_cons

theorem watchers_deactivate (hw : w ∈ a.counted) (p : ℕ) :
    (a.deactivate w).watchers p = a.watchers p - if a.watches p w then 1 else 0 := by
  have hperm := (List.perm_cons_erase hw).countP_eq (a.watches p)
  rw [List.countP_cons] at hperm
  exact (Nat.sub_eq_of_eq_add hperm).symm

/-- The invariant goes through where the count of the current session stays that of its viewers. -/
theorem Inv.sendModify (h : a.Inv) {f : ℕ → ℕ} (hf : ∀ n < 2 ^ 32, f n < 2 ^ 32)
    {counted : List ℕ} (hknown : ∀ w ∈ counted, (a.room.viewers w).isSome)
    (hbalanced : ({ a with counts := a.sendModify f, counted := counted } : Audience).Balanced) :
    ({ a with counts := a.sendModify f, counted := counted } : Audience).Inv := by
  refine ⟨h.ordered, hknown, ?_, ?_, hbalanced⟩
  · intro p hp
    have hne : a.current ≠ some p := fun hcurrent => h.ordered.senders p hcurrent hp
    exact ((sendModify_eq f p).trans (if_neg hne)).trans (h.fresh p hp)
  · intro p
    have hlt := h.small p
    refine lt_of_eq_of_lt (sendModify_eq f p) ?_
    split
    · exact hf _ hlt
    · exact hlt

theorem Inv.balanced_activate (h : a.Inv) (w : ℕ) :
    (a.activate w).Balanced ↔ a.Matches (.activate w) := by
  refine forall₂_congr fun p hp => ?_
  have hlt := h.small p
  have hcount := h.balanced p hp
  have hcount' : (a.activate w).counts p = (a.counts p + 1) % 2 ^ 32 :=
    (sendModify_eq (a := a) (fun v => (v + 1) % 2 ^ 32) p).trans (if_pos hp)
  rw [hcount', watchers_activate, hcount]
  rw [hcount] at hlt
  by_cases hw : a.watches p w = true
  · simp only [hw, if_true, true_and]
    omega
  · simp only [hw, Bool.false_eq_true, if_false, false_and]
    refine iff_of_false ?_ id
    omega

theorem Inv.balanced_deactivate (h : a.Inv) (hw : w ∈ a.counted) :
    (a.deactivate w).Balanced ↔ a.Matches (.deactivate w) := by
  refine forall₂_congr fun p hp => ?_
  have hcount' : (a.deactivate w).counts p = a.counts p - 1 :=
    (sendModify_eq (a := a) (· - 1) p).trans (if_pos hp)
  rw [hcount', watchers_deactivate hw, h.balanced p hp]
  by_cases hwatches : a.watches p w = true
  · simp [hwatches]
  · simp only [hwatches, Bool.false_eq_true, if_false, false_or]
    omega

/-- A step leaves the counts right exactly if it matches, and keeps the invariant if it does. -/
theorem step_balanced {i : AudienceInput} (h : a.Inv) (hstep : audience.step a i = some a') :
    (a'.Balanced ↔ a.Matches i) ∧ (a.Matches i → a'.Inv) := by
  cases i with
  | room i =>
      obtain ⟨-, hstep⟩ := Option.ite_none_right_eq_some.mp hstep
      obtain ⟨r, hr, rfl⟩ := Option.map_eq_some_iff.mp hstep
      have hinv := h.room hr
      exact ⟨iff_of_true hinv.balanced trivial, fun _ => hinv⟩
  | activate w =>
      obtain ⟨viewer, hviewer, hstep⟩ := Option.bind_eq_some_iff.mp hstep
      obtain ⟨-, hstep⟩ := Option.ite_none_right_eq_some.mp hstep
      obtain rfl := Option.some.inj hstep
      have hiff := h.balanced_activate w
      refine ⟨hiff, fun hmatches => ?_⟩
      refine h.sendModify (fun n _ => Nat.mod_lt _ (Nat.two_pow_pos 32)) ?_ (hiff.mpr hmatches)
      intro w' hw'
      rcases List.mem_cons.mp hw' with rfl | hw'
      · exact Option.isSome_iff_exists.mpr ⟨viewer, hviewer⟩
      · exact h.known w' hw'
  | deactivate w =>
      obtain ⟨viewer, hviewer, hstep⟩ := Option.bind_eq_some_iff.mp hstep
      obtain ⟨⟨-, hw⟩, hstep⟩ := Option.ite_none_right_eq_some.mp hstep
      obtain rfl := Option.some.inj hstep
      have hiff := h.balanced_deactivate hw
      refine ⟨hiff, fun hmatches => ?_⟩
      refine h.sendModify (fun n hn => lt_of_le_of_lt (Nat.sub_le n 1) hn) ?_ (hiff.mpr hmatches)
      exact fun w' hw' => h.known w' (List.mem_of_mem_erase hw')

/-- Throughout a run the count of the current session is the number of its viewers, exactly if no
viewer of another session changes it. -/
theorem balanced_iff (is : List AudienceInput) :
    (∀ a i a', audience.Passes .init is a i a' → a'.Balanced) ↔
      ∀ a i a', audience.Passes .init is a i a' → a.Matches i :=
  StepSystem.passes_iff (P := fun _ _ a' => a'.Balanced) (C := Matches)
    (fun _ _ _ h hstep => step_balanced h hstep) inv_init is

/-- A publish session begins, up to its relay loop. -/
def register (p : ℕ) : List AudienceInput :=
  [.room .publish, .room (.advance p), .room (.accept p .header), .room (.advance p),
    .room (.advance p), .room (.advance p)]

/-- A viewer joins the current stream. -/
def watch (w : ℕ) : List AudienceInput :=
  [.room .subscribe, .room (.readCache w), .room (.openStream w true), .activate w]

/-- The sharer reconnects while it has a viewer. The next one joins the new session, the old one
leaves, and the count is 0 while the new session is watched. -/
theorem reconnect_deactivates :
    ¬ ∀ (is : List AudienceInput) (a : Audience), audience.Run .init is a → a.Balanced := by
  intro h
  have hrun := h
    (register 1 ++ watch 0 ++ register 2 ++ watch 1 ++ [.room (.close 0), .deactivate 0])
    _ (StepSystem.exec_eq_some_iff.mp rfl) 2 rfl
  revert hrun
  decide +kernel

end Audience

end SpecterComs.MediaServer.Video
