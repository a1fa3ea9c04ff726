import SpecterComs.Verification.Chat.CatchUp

/-! # What every step of the network keeps

What a device stores are copies of its peer's rows. Nothing held is lost, and the messages
of a bundle on its way are held once it is merged.
-/

namespace SpecterComs.Chat

section

variable (platform : Platform) (channelId : String)

/-- The message is newer than the start of the history that is stored. -/
def Started (own : ChannelStore) (row : ChannelRow) : Prop :=
  ∃ first ∈ channelRows own channelId, first.time platform < row.time platform

/-- The bundles on their way are made of the peer's rows. -/
structure Honest (net : Network) : Prop where
  comparable : Comparable channelId net.peer net.own
  flight : ∀ r bundles, net.rounds r = .answered bundles →
    ∀ copy ∈ page platform none "" channelId bundles,
      ∃ row ∈ channelRows net.peer channelId, CopyOf row copy

/-- The message is held, or in a bundle of the round. -/
def Coming (r : ℕ) (id : String) (net : Network) : Prop :=
  Held net.own id ∨ ∃ bundles, net.rounds r = .answered bundles ∧
    ∃ copy ∈ page platform none "" channelId bundles, ∃ key ∈ copy.msg.key, key.1 = id

end

variable {platform : Platform} {byteLength : BundleItem → ℕ} {relayedBy : Option String}
  {channelId : String} {s : ChannelStore}

/-! ## One write -/

variable {fixed since : Option String} {batch : List (Incoming ChannelExtra)}

theorem held_mergeRowsInto {id : String} (h : Held s id) : Held (mergeRowsInto s fixed batch).1 id := by
  obtain ⟨text, htext⟩ := h
  exact ⟨text, @writeAll_readable _ s [⟨fixed, batch⟩] id text htext⟩

/-- No id is removed. -/
theorem exists_mergeRowsInto {fixed : Option String} {batch : List (Incoming ChannelExtra)}
    {row : ChannelRow} (h : row ∈ s.rows) :
    ∃ later ∈ (mergeRowsInto s fixed batch).1.rows, later.id = row.id := by
  have hget : ((mergeRowsInto s fixed batch).1.get row.id).isSome := by
    rw [get_mergeRowsInto, Store.get_eq_some_iff.mpr h]
    simp
  obtain ⟨later, hlater⟩ := Option.isSome_iff_exists.mp hget
  have hid := Store.get_eq_some hlater
  exact ⟨later, Store.get_eq_some_iff.mp (hid ▸ hlater), hid⟩

variable {row : ChannelRow}

/-- A row keeps its place and time, or has those of a copy. -/
theorem mem_mergeRowsInto
    (hplace : ∀ incoming ∈ batch, fixed.or incoming.msg.place = some channelId)
    (h : row ∈ (mergeRowsInto s fixed batch).1.rows) :
    (∃ old ∈ s.rows, old.id = row.id ∧ old.place = row.place ∧ old.timestamp = row.timestamp) ∨
      (row.place = some channelId ∧
        ∃ incoming ∈ batch, incoming.msg.key = some (row.id, row.timestamp)) := by
  have hget := Store.get_eq_some_iff.mpr h
  rw [get_mergeRowsInto] at hget
  rcases Option.or_eq_some_iff.mp hget with hwrite | ⟨-, hold⟩
  · obtain ⟨copy, hcopy, hwrite⟩ := List.mem_filterMap.mp (List.mem_of_getLast? hwrite)
    obtain ⟨hcopy, hid⟩ := mem_copiesOf.mp hcopy
    obtain ⟨incoming, hincoming, hmap⟩ := List.mem_filterMap.mp hcopy
    obtain ⟨key, hkey, rfl⟩ := Option.map_eq_some_iff.mp hmap
    have hcopied : ∀ written : ChannelRow, written.id = key.1 →
        written.place = fixed.or incoming.msg.place → written.timestamp = key.2 →
          written.place = some channelId ∧
            ∃ incoming ∈ batch, incoming.msg.key = some (written.id, written.timestamp) := by
      intro written hid hwrittenplace htime
      exact ⟨hwrittenplace.trans (hplace incoming hincoming), incoming, hincoming,
        by rw [hid, htime, hkey]⟩
    have hor : ∀ other : Option String,
        (fixed.or incoming.msg.place).or other = fixed.or incoming.msg.place := by
      intro other
      rw [hplace incoming hincoming]
      rfl
    unfold writeOf mergeRow mergeNormalized at hwrite
    cases hexisting : s.get key.1 with
    | none =>
        rw [hexisting] at hwrite
        obtain rfl := Option.some.inj hwrite
        exact .inr (hcopied _ rfl (hor _) rfl)
    | some existing =>
        rw [hexisting] at hwrite
        simp only at hwrite
        split_ifs at hwrite with hreadable hnext hsame
        · obtain rfl := Option.some.inj hwrite
          exact .inr (hcopied _ rfl (hor _) rfl)
        · -- a refresh keeps the row
          obtain rfl := Option.some.inj hwrite
          have hid' := Store.get_eq_some hexisting
          exact .inl ⟨existing, Store.get_eq_some_iff.mp (hid'.symm ▸ hexisting), rfl, rfl, rfl⟩
  · exact .inl ⟨row, Store.get_eq_some_iff.mp hold, rfl, rfl, rfl⟩

section

variable {peer : ChannelStore} {fixed : Option String} {batch : List (Incoming ChannelExtra)}
  (hc : Comparable channelId peer s)
  (hplace : ∀ incoming ∈ batch, fixed.or incoming.msg.place = some channelId)
  (hcopies : ∀ incoming ∈ batch, ∀ key ∈ incoming.msg.key,
    ∃ row ∈ channelRows peer channelId, key = (row.id, row.timestamp))

include hc hplace hcopies

omit hc in
/-- What is written agrees with the responder. -/
theorem mergeRowsInto_cases (h : row ∈ (mergeRowsInto s fixed batch).1.rows) :
    (∃ old ∈ s.rows, old.id = row.id ∧ old.place = row.place ∧ old.timestamp = row.timestamp) ∨
      (row.place = some channelId ∧ ∃ source ∈ channelRows peer channelId,
        source.id = row.id ∧ source.timestamp = row.timestamp) := by
  rcases mem_mergeRowsInto hplace h with hold | ⟨hrowplace, incoming, hincoming, hkey⟩
  · exact .inl hold
  · obtain ⟨source, hsource, heq⟩ := hcopies incoming hincoming _ hkey
    obtain ⟨hid, htime⟩ := Prod.mk.inj heq
    exact .inr ⟨hrowplace, source, hsource, hid.symm, htime.symm⟩

theorem comparable_mergeRowsInto :
    Comparable channelId peer (mergeRowsInto s fixed batch).1 where
  requester row hrow := by
    obtain ⟨hmem, hrowplace⟩ := mem_channelRows.mp hrow
    rcases mergeRowsInto_cases hplace hcopies hmem with
      ⟨old, hold, -, holdplace, htime⟩ | ⟨-, source, hsource, -, htime⟩
    · exact htime ▸ hc.requester old (mem_channelRows.mpr ⟨hold, holdplace.trans hrowplace⟩)
    · exact htime ▸ hc.responder source hsource
  responder := hc.responder
  same row hrow own hown hid := by
    rcases mergeRowsInto_cases hplace hcopies hown with
      ⟨old, hold, holdid, holdplace, htime⟩ | ⟨hownplace, source, hsource, hsourceid, htime⟩
    · rw [← holdplace, ← htime]
      exact hc.same row hrow old hold (holdid.trans hid)
    · have heq := List.inj_on_of_nodup_map peer.nodup (mem_channelRows.mp hsource).1
        (mem_channelRows.mp hrow).1 (hsourceid.trans hid)
      exact ⟨hownplace, by rw [← htime, heq]⟩

/-- A row of the channel keeps its time. -/
theorem exists_row_mergeRowsInto {first : ChannelRow} (h : first ∈ channelRows s channelId) :
    ∃ later ∈ channelRows (mergeRowsInto s fixed batch).1 channelId,
      later.id = first.id ∧ later.timestamp = first.timestamp := by
  obtain ⟨hmem, hfirstplace⟩ := mem_channelRows.mp h
  obtain ⟨later, hlater, hid⟩ := @exists_mergeRowsInto s fixed batch first hmem
  rcases mergeRowsInto_cases hplace hcopies hlater with
    ⟨old, hold, holdid, holdplace, htime⟩ | ⟨hlaterplace, source, hsource, hsourceid, htime⟩
  · have heq := List.inj_on_of_nodup_map s.nodup hold hmem (holdid.trans hid)
    rw [heq] at holdplace htime
    exact ⟨later, mem_channelRows.mpr ⟨hlater, holdplace.symm.trans hfirstplace⟩, hid, htime.symm⟩
  · obtain ⟨-, hfirsttime⟩ := hc.same source hsource first hmem (hid.symm.trans hsourceid.symm)
    exact ⟨later, mem_channelRows.mpr ⟨hlater, hlaterplace⟩, hid, by rw [← htime, hfirsttime]⟩

theorem started_mergeRowsInto (h : Started platform channelId s row) :
    Started platform channelId (mergeRowsInto s fixed batch).1 row := by
  obtain ⟨first, hfirst, hlt⟩ := h
  obtain ⟨later, hlater, -, htime⟩ := exists_row_mergeRowsInto hc hplace hcopies hfirst
  refine ⟨later, hlater, ?_⟩
  rwa [Row.time, htime]

end

/-! ## One step -/

/-- What each action does, and where it can be taken. -/
inductive Effect (platform : Platform) (byteLength : BundleItem → ℕ) (relayedBy : Option String)
    (channelId : String) (net : Network) : NetworkAction → Network → Prop
  | publish {row : ChannelRow} {t : ℤ} (hpeer : net.peer.get row.id = none)
      (hown : net.own.get row.id = none) (hreadable : row.isReadable) (ht : Stamp t) :
      Effect platform byteLength relayedBy channelId net (.publish row t)
        { net with peer := net.peer.put (published channelId row t) }
  | relay {incoming : Incoming ChannelExtra} (hcopy : isCopy channelId net.peer incoming) :
      Effect platform byteLength relayedBy channelId net (.relay incoming)
        { net with own := (mergeRowsInto net.own none [incoming]).1 }
  | ask {r : ℕ} (hfresh : net.rounds r = .fresh) :
      Effect platform byteLength relayedBy channelId net (.ask r)
        { net with
          rounds := Function.update net.rounds r (.asked (sinceOf platform net.own channelId)) }
  | answer {r : ℕ} {since : Option String} (hasked : net.rounds r = .asked since) :
      Effect platform byteLength relayedBy channelId net (.answer r)
        { net with
          rounds := Function.update net.rounds r
            (.answered (answerOrgSync platform byteLength net.peer channelId since)) }
  | merge {r : ℕ} {now : String} {bundle : List BundleItem} {bundles : List (List BundleItem)}
      (hanswered : net.rounds r = .answered (bundle :: bundles)) :
      Effect platform byteLength relayedBy channelId net (.merge r now)
        { net with
          own := (mergeRowsInto net.own (some channelId)
            (parseBundle platform channelId relayedBy now bundle)).1
          rounds := Function.update net.rounds r (.answered bundles) }

variable {net next : Network} {action : NetworkAction}

theorem effect_of_step
    (h : (network platform byteLength relayedBy channelId).step net action = some next) :
    Effect platform byteLength relayedBy channelId net action next := by
  change Network.step platform byteLength relayedBy channelId net action = some next at h
  cases action with
  | publish row t =>
      simp only [Network.step] at h
      split_ifs at h with hguard
      obtain rfl := Option.some.inj h
      obtain ⟨hpeer, hown, hreadable, hlow, hhigh⟩ := hguard
      exact .publish (Option.isNone_iff_eq_none.mp hpeer) (Option.isNone_iff_eq_none.mp hown)
        hreadable ⟨hlow, hhigh⟩
  | relay incoming =>
      simp only [Network.step] at h
      split_ifs at h with hguard
      obtain rfl := Option.some.inj h
      exact .relay hguard
  | ask r =>
      simp only [Network.step] at h
      split at h
      next hfresh =>
        obtain rfl := Option.some.inj h
        exact .ask hfresh
      next => cases h
  | answer r =>
      simp only [Network.step] at h
      split at h
      next since hasked =>
        obtain rfl := Option.some.inj h
        exact .answer hasked
      next => cases h
  | merge r now =>
      simp only [Network.step] at h
      split at h
      next bundle bundles hanswered =>
        obtain rfl := Option.some.inj h
        rw [handleSyncResponse, saveMessages_eq]
        exact .merge hanswered
      next => cases h

/-! ## What every step keeps -/

theorem ne_of_get_eq_none {id : String} (h : s.get id = none) (hrow : row ∈ s.rows) : row.id ≠ id := by
  rintro rfl
  rw [Store.get_eq_some_iff.mpr hrow] at h
  cases h

theorem mem_put {row new : ChannelRow} (hnew : s.get new.id = none) :
    row ∈ (s.put new).rows ↔ row ∈ s.rows ∨ row = new := by
  simp only [Store.put, List.mem_append, List.mem_filter, List.mem_singleton, bne_iff_ne]
  constructor
  · exact fun h => h.imp And.left id
  · exact fun h => h.imp (fun hrow => ⟨hrow, ne_of_get_eq_none hnew hrow⟩) id

section

variable {net next : Network} {action : NetworkAction}

/-- What a step writes to the device's store are copies of the peer's rows. -/
theorem Honest.own_effect (h : Honest platform channelId net)
    (he : Effect platform byteLength relayedBy channelId net action next) :
    ∃ fixed batch, next.own = (mergeRowsInto net.own fixed batch).1 ∧
      (∀ incoming ∈ batch, fixed.or incoming.msg.place = some channelId) ∧
      ∀ incoming ∈ batch, ∀ key ∈ incoming.msg.key,
        ∃ row ∈ channelRows net.peer channelId, key = (row.id, row.timestamp) := by
  have hnothing : ∃ fixed batch, net.own = (mergeRowsInto net.own fixed batch).1 ∧
      (∀ incoming ∈ batch, fixed.or incoming.msg.place = some channelId) ∧
      ∀ incoming ∈ batch, ∀ key ∈ incoming.msg.key,
        ∃ row ∈ channelRows net.peer channelId, key = (row.id, row.timestamp) :=
    ⟨none, [], rfl, by simp, by simp⟩
  cases he with
  | publish => exact hnothing
  | ask => exact hnothing
  | answer => exact hnothing
  | @relay incoming hcopy =>
      simp only [isCopy, Bool.and_eq_true, beq_iff_eq, List.any_eq_true] at hcopy
      obtain ⟨hplace, row, hrow, ⟨hrowplace, hkey⟩, -⟩ := hcopy
      refine ⟨none, [incoming], rfl, by simpa using hplace, ?_⟩
      intro other hother key hotherkey
      rw [List.mem_singleton.mp hother, hkey] at hotherkey
      exact ⟨row, mem_channelRows.mpr ⟨hrow, hrowplace⟩, (Option.some.inj hotherkey).symm⟩
  | @merge r now bundle bundles hanswered =>
      refine ⟨some channelId, _, rfl, fun _ _ => rfl, ?_⟩
      intro incoming hincoming key hkey
      have hpage : incoming ∈ page platform relayedBy now channelId (bundle :: bundles) :=
        List.mem_flatMap.mpr ⟨bundle, by simp, hincoming⟩
      obtain ⟨copy, hcopy, hsame, -⟩ := @page_other _ _ relayedBy none now "" _ _ hpage
      obtain ⟨row, hrow, hof⟩ := h.flight r _ hanswered copy hcopy
      rw [← hsame, hof.key] at hkey
      exact ⟨row, hrow, (Option.some.inj hkey).symm⟩

theorem peer_effect (he : Effect platform byteLength relayedBy channelId net action next)
    (hrow : row ∈ channelRows net.peer channelId) : row ∈ channelRows next.peer channelId := by
  cases he with
  | @publish new t hpeer =>
      obtain ⟨hmem, hplace⟩ := mem_channelRows.mp hrow
      exact mem_channelRows.mpr
        ⟨(@mem_put _ _ (published channelId new t) hpeer).mpr (.inl hmem), hplace⟩
  | _ => exact hrow

theorem Honest.held_effect (h : Honest platform channelId net)
    (he : Effect platform byteLength relayedBy channelId net action next) {id : String}
    (hheld : Held net.own id) : Held next.own id := by
  obtain ⟨fixed, batch, hown, -, -⟩ := h.own_effect he
  rw [hown]
  exact held_mergeRowsInto hheld

theorem Honest.started_effect (h : Honest platform channelId net)
    (he : Effect platform byteLength relayedBy channelId net action next)
    (hstarted : Started platform channelId net.own row) :
    Started platform channelId next.own row := by
  obtain ⟨fixed, batch, hown, hplace, hcopies⟩ := h.own_effect he
  rw [hown]
  exact started_mergeRowsInto h.comparable hplace hcopies hstarted

theorem Honest.effect (h : Honest platform channelId net)
    (he : Effect platform byteLength relayedBy channelId net action next) :
    Honest platform channelId next where
  comparable := by
    obtain ⟨fixed, batch, hown, hplace, hcopies⟩ := h.own_effect he
    have hmerged := comparable_mergeRowsInto h.comparable hplace hcopies
    rw [← hown] at hmerged
    cases he with
    | @publish row t hpeer hownid hreadable ht =>
        refine ⟨hmerged.requester, fun other hother => ?_, fun other hother own hown hid => ?_⟩
        · obtain ⟨hmem, hplace⟩ := mem_channelRows.mp hother
          rcases (@mem_put _ _ (published channelId row t) hpeer).mp hmem with hold | rfl
          · exact hmerged.responder other (mem_channelRows.mpr ⟨hold, hplace⟩)
          · exact ⟨t, ht, rfl⟩
        · obtain ⟨hmem, hplace⟩ := mem_channelRows.mp hother
          rcases (@mem_put _ _ (published channelId row t) hpeer).mp hmem with hold | rfl
          · exact hmerged.same other (mem_channelRows.mpr ⟨hold, hplace⟩) own hown hid
          · exact absurd hid (ne_of_get_eq_none hownid hown)
    | relay => exact hmerged
    | ask => exact hmerged
    | answer => exact hmerged
    | merge => exact hmerged
  flight r bundles hr copy hcopy := by
    have hkept : ∀ bundles, net.rounds r = .answered bundles →
        copy ∈ page platform none "" channelId bundles →
          ∃ row ∈ channelRows next.peer channelId, CopyOf row copy := by
      intro bundles hr hcopy
      obtain ⟨row, hrow, hof⟩ := h.flight r bundles hr copy hcopy
      exact ⟨row, peer_effect he hrow, hof⟩
    cases he with
    | publish => exact hkept bundles hr hcopy
    | relay => exact hkept bundles hr hcopy
    | @ask r' hfresh =>
        rcases eq_or_ne r r' with rfl | hne
        · simp at hr
        · simp only [Function.update_of_ne hne] at hr
          exact hkept bundles hr hcopy
    | @answer r' since hasked =>
        rcases eq_or_ne r r' with rfl | hne
        · simp only [Function.update_self, Round.answered.injEq] at hr
          subst hr
          obtain ⟨row, hrow, hof, -⟩ := page_spec.2 copy hcopy
          exact ⟨row, hrow, hof⟩
        · simp only [Function.update_of_ne hne] at hr
          exact hkept bundles hr hcopy
    | @merge r' now bundle rest hanswered =>
        rcases eq_or_ne r r' with rfl | hne
        · simp only [Function.update_self, Round.answered.injEq] at hr
          subst hr
          exact hkept _ hanswered (List.mem_append_right _ hcopy)
        · simp only [Function.update_of_ne hne] at hr
          exact hkept bundles hr hcopy

variable {bundle : List BundleItem}

theorem bundle_readable {now : String} :
    Readable channelId
      [⟨some channelId, parseBundle platform channelId relayedBy now bundle⟩] := by
  intro b hb
  rw [List.mem_singleton.mp hb]
  exact ⟨rfl, fun copy hcopy => (parseBundle_readable copy hcopy).1⟩

/-- Once a bundle is merged its messages are held, and those held before. -/
theorem Honest.held_merge (h : Honest platform channelId net) {r : ℕ} {now : String}
    {rest : List (List BundleItem)} (hr : net.rounds r = .answered (bundle :: rest)) {id : String} :
    Held (mergeRowsInto net.own (some channelId)
        (parseBundle platform channelId relayedBy now bundle)).1 id ↔
      Held net.own id ∨ ∃ copy ∈ parseBundle platform channelId none "" bundle,
        ∃ key ∈ copy.msg.key, key.1 = id := by
  have hone : ∀ relayedBy now copy, copy ∈ page platform relayedBy now channelId [bundle] ↔
      copy ∈ parseBundle platform channelId relayedBy now bundle := by simp [page]
  have hagree : ∀ id, Cell.Agree (textsOf id (handed [(⟨some channelId,
      parseBundle platform channelId relayedBy now bundle⟩ : Batch ChannelExtra)])) := by
    refine @agree_of_rows net.peer _ fun msg hmsg => ?_
    obtain ⟨copy, hcopy, rfl⟩ : ∃ copy ∈ parseBundle platform channelId relayedBy now bundle,
        copy.msg = msg := by simpa [handed] using hmsg
    obtain ⟨copy', hcopy', hsame, htext⟩ :=
      @page_other _ _ relayedBy none now "" _ _ ((hone _ _ copy).mpr hcopy)
    obtain ⟨row, hrow, hof⟩ := h.flight r _ hr copy' (by
      rw [page, List.flatMap_cons]
      exact List.mem_append_left _ ((hone _ _ copy').mp hcopy'))
    exact ⟨row, (mem_channelRows.mp hrow).1, by rw [← hsame, hof.key], by rw [← htext, hof.text]⟩
  refine (@held_writeAll net.own channelId _ bundle_readable hagree id).trans
    (or_congr_right ?_)
  have hkeys : ∀ relayedBy relayedBy' now now',
      (∃ copy ∈ parseBundle platform channelId relayedBy now bundle,
        ∃ key ∈ copy.msg.key, key.1 = id) →
      ∃ copy ∈ parseBundle platform channelId relayedBy' now' bundle,
        ∃ key ∈ copy.msg.key, key.1 = id := by
    rintro relayedBy relayedBy' now now' ⟨copy, hcopy, key, hkey, hid⟩
    obtain ⟨copy', hcopy', hsame, -⟩ :=
      @page_other _ _ relayedBy relayedBy' now now' _ _ ((hone _ _ copy).mpr hcopy)
    exact ⟨copy', (hone _ _ copy').mp hcopy', key, hsame ▸ hkey, hid⟩
  constructor
  · rintro ⟨msg, hmsg, hkey⟩
    obtain ⟨copy, hcopy, rfl⟩ : ∃ copy ∈ parseBundle platform channelId relayedBy now bundle,
        copy.msg = msg := by simpa [handed] using hmsg
    obtain ⟨key, hkey, hid⟩ := (Option.any_eq_true _ _).mp hkey
    exact hkeys relayedBy none now "" ⟨copy, hcopy, key, hkey, by simpa using hid⟩
  · intro hcopies
    obtain ⟨copy, hcopy, key, hkey, hid⟩ := hkeys none relayedBy "" now hcopies
    refine ⟨copy.msg, by simpa [handed] using ⟨copy, hcopy, rfl⟩, ?_⟩
    rw [Option.mem_def.mp hkey]
    simpa using hid

/-- What is on its way stays so until it is held. -/
theorem Honest.coming_effect (h : Honest platform channelId net)
    (he : Effect platform byteLength relayedBy channelId net action next) {r : ℕ} {id : String}
    (hcoming : Coming platform channelId r id net) : Coming platform channelId r id next := by
  rcases hcoming with hheld | ⟨bundles, hr, copy, hcopy, key, hkey, hid⟩
  · exact .inl (h.held_effect he hheld)
  have hkept : next.rounds r = net.rounds r → Coming platform channelId r id next :=
    fun hsame => .inr ⟨bundles, hsame.trans hr, copy, hcopy, key, hkey, hid⟩
  cases he with
  | publish => exact hkept rfl
  | relay => exact hkept rfl
  | @ask r' hfresh =>
      rcases eq_or_ne r r' with rfl | hne
      · rw [hfresh] at hr
        cases hr
      · exact hkept (Function.update_of_ne hne _ _)
  | @answer r' since hasked =>
      rcases eq_or_ne r r' with rfl | hne
      · rw [hasked] at hr
        cases hr
      · exact hkept (Function.update_of_ne hne _ _)
  | @merge r' now bundle rest hanswered =>
      rcases eq_or_ne r r' with rfl | hne
      · obtain rfl : bundles = bundle :: rest := by
          rw [hanswered] at hr
          exact (Round.answered.inj hr).symm
        rcases List.mem_append.mp hcopy with hcopy | hcopy
        · exact .inl ((h.held_merge hanswered).mpr (.inr ⟨copy, hcopy, key, hkey, hid⟩))
        · exact .inr ⟨rest, Function.update_self _ _ _, copy, hcopy, key, hkey, hid⟩
      · exact hkept (Function.update_of_ne hne _ _)

end

variable {r : ℕ}

theorem Effect.asked (he : Effect platform byteLength relayedBy channelId net action next)
    (hasked : net.rounds r = .asked since) : next.rounds r = .asked since ∨ action = .answer r := by
  cases he with
  | publish => exact .inl hasked
  | relay => exact .inl hasked
  | @ask r' hfresh =>
      rcases eq_or_ne r r' with rfl | hne
      · rw [hfresh] at hasked
        cases hasked
      · exact .inl ((Function.update_of_ne hne _ _).trans hasked)
  | @answer r' since' hasked' =>
      rcases eq_or_ne r r' with rfl | hne
      · exact .inr rfl
      · exact .inl ((Function.update_of_ne hne _ _).trans hasked)
  | @merge r' now bundle rest hanswered =>
      rcases eq_or_ne r r' with rfl | hne
      · rw [hanswered] at hasked
        cases hasked
      · exact .inl ((Function.update_of_ne hne _ _).trans hasked)

theorem Effect.ask_rounds (he : Effect platform byteLength relayedBy channelId net (.ask r) next) :
    next.rounds r = .asked (sinceOf platform net.own channelId) := by
  cases he with
  | ask => exact Function.update_self _ _ _

theorem Effect.answer_rounds
    (he : Effect platform byteLength relayedBy channelId net (.answer r) next)
    (hasked : net.rounds r = .asked since) :
    next.rounds r =
      .answered (answerOrgSync platform byteLength net.peer channelId since) := by
  cases he with
  | answer hasked' =>
      rw [hasked] at hasked'
      obtain rfl := Round.asked.inj hasked'
      exact Function.update_self _ _ _

theorem Effect.merge_rounds {now : String} {bundle : List BundleItem}
    {rest : List (List BundleItem)}
    (he : Effect platform byteLength relayedBy channelId net (.merge r now) next)
    (hanswered : net.rounds r = .answered (bundle :: rest)) : next.rounds r = .answered rest := by
  cases he with
  | merge hanswered' =>
      rw [hanswered] at hanswered'
      obtain ⟨-, rfl⟩ := List.cons.inj (Round.answered.inj hanswered')
      exact Function.update_self _ _ _

/-- The action is a part of a round. -/
def IsRound : NetworkAction → Prop
  | .publish _ _ => False
  | .relay _ => False
  | _ => True

theorem Effect.peer_of_isRound
    (he : Effect platform byteLength relayedBy channelId net action next)
    (hround : IsRound action) : next.peer = net.peer := by
  cases he with
  | publish => exact hround.elim
  | _ => rfl

/-- In a part of a round only readable copies of the peer's rows are stored. -/
theorem Honest.own_of_isRound (h : Honest platform channelId net)
    (he : Effect platform byteLength relayedBy channelId net action next)
    (hround : IsRound action) {own : ChannelRow} (hown : own ∈ next.own.rows) :
    own ∈ net.own.rows ∨ own.isReadable ∧
      ∃ row ∈ channelRows net.peer channelId, row.id = own.id := by
  cases he with
  | publish => exact hround.elim
  | relay => exact hround.elim
  | ask => exact .inl hown
  | answer => exact .inl hown
  | @merge r now bundle rest hanswered =>
      rcases @mem_writeAll net.own channelId
          [⟨some channelId, parseBundle platform channelId relayedBy now bundle⟩]
          bundle_readable own hown with hold | ⟨⟨msg, hmsg, hkey⟩, -, hreadable⟩
      · exact .inl hold
      · obtain ⟨copy, hcopy, rfl⟩ :
            ∃ copy ∈ parseBundle platform channelId relayedBy now bundle, copy.msg = msg := by
          simpa [handed] using hmsg
        have hpage : copy ∈ page platform relayedBy now channelId (bundle :: rest) :=
          List.mem_flatMap.mpr ⟨bundle, by simp, hcopy⟩
        obtain ⟨copy', hcopy', hsame, -⟩ := @page_other _ _ relayedBy none now "" _ _ hpage
        obtain ⟨row, hrow, hof⟩ := h.flight r _ hanswered copy' hcopy'
        rw [← hsame, hof.key] at hkey
        exact .inr ⟨hreadable, row, hrow, congrArg Prod.fst (Option.some.inj hkey)⟩

end SpecterComs.Chat
