import SpecterComs.Library.StepSystem
import SpecterComs.Model.MlsSession.Leaves

/-! # Leaves and the devices they were added for

A leaf carries the credential inside the key package. The server compares the one sent beside it
with the account, and neither the client nor the module compares the two.
-/

namespace SpecterComs.Leaves

open MlsSession (Bytes UserId GroupId Label DeviceId credentialFor userIdOfLabel
  userIdOfLabel_credentialFor)

def commits (P : Platform) : StepSystem World Input where
  step := World.step P

/-! ## The property -/

/-- The leaf carries the credential of the device it was added for, so it is labelled as no other
user, and as no other device. -/
structure Leaf.Honest (leaf : Leaf) : Prop where
  credential : leaf.credential = credentialFor leaf.userId leaf.deviceId
  user : userIdOfLabel leaf.credential = leaf.userId
  device : ∀ userId (deviceId : DeviceId), leaf.credential = credentialFor userId deviceId.text →
    leaf.userId = userId ∧ leaf.deviceId = deviceId.text

/-- Every leaf in a group is honest. -/
def World.Honest (w : World) : Prop :=
  ∀ groupId leaves, w.groups groupId = some leaves → ∀ leaf ∈ leaves, leaf.Honest

/-- The credential inside the key package, if it is one, is the label of the device. -/
def Device.Honest (P : Platform) (d : Device) : Prop :=
  ∀ k, P.deserialize d.keyPackage = some k → k.credential = credentialFor d.userId d.deviceId

/-- A commit adds honest devices. -/
def AddsHonest (P : Platform) (w : World) : Input → Prop
  | .genesis run _ _ _ => ∀ groupId devices, w.fetched run = some (groupId, devices) →
      ∀ d ∈ devices, d.Honest P
  | .addMissing run _ => ∀ groupId devices leaves, w.fetched run = some (groupId, devices) →
      w.groups groupId = some leaves → ∀ d ∈ devices.filter (·.isMissing leaves), d.Honest P
  | _ => True

/-- Registered ids, and those fetched, have no colon. -/
structure World.Inv (w : World) : Prop where
  rows : ∀ row ∈ w.db, ':' ∉ row.id.toList
  fetched : ∀ run groupId devices, w.fetched run = some (groupId, devices) →
    ∀ d ∈ devices, ':' ∉ d.deviceId.toList
  honest : w.Honest

def World.empty : World where
  db := []
  groups _ := none
  fetched _ := none

theorem inv_empty : World.empty.Inv where
  rows _ h := nomatch h
  fetched _ _ _ h := nomatch h
  honest _ _ h := nomatch h

variable {P : Platform} {w w' : World}

/-! ## Labels -/

variable {userId : UserId}

theorem credentialFor_inj {userId' : UserId} {deviceId deviceId' : DeviceId}
    (h : credentialFor userId deviceId.text = credentialFor userId' deviceId'.text) :
    userId = userId' ∧ deviceId.text = deviceId'.text := by
  have huser : userId = userId' := by
    rw [← userIdOfLabel_credentialFor userId deviceId, h, userIdOfLabel_credentialFor]
  subst huser
  refine ⟨rfl, ?_⟩
  have hlist := congrArg String.toList h
  simp only [credentialFor, String.toList_append] at hlist
  exact String.toList_injective (List.append_cancel_left hlist)

theorem Leaf.honest_iff_label {leaf : Leaf} (hcolon : ':' ∉ leaf.deviceId.toList) :
    leaf.Honest ↔ leaf.credential = credentialFor leaf.userId leaf.deviceId := by
  constructor
  · exact Leaf.Honest.credential
  · intro h
    have huser := userIdOfLabel_credentialFor leaf.userId ⟨leaf.deviceId, hcolon⟩
    refine ⟨h, h ▸ huser, fun userId deviceId hlabel => ?_⟩
    have hsame : credentialFor leaf.userId (⟨leaf.deviceId, hcolon⟩ : DeviceId).text =
        credentialFor userId deviceId.text := h.symm.trans hlabel
    exact credentialFor_inj hsame

theorem Leaf.own_honest (userId : UserId) (deviceId : DeviceId) :
    (Leaf.own userId deviceId).Honest :=
  (Leaf.honest_iff_label deviceId.no_colon).mpr rfl

/-- A character other than the separator is in a part. -/
theorem mem_splitOn {sep c : Char} {cs : List Char} (hc : c ∈ cs) (hne : c ≠ sep) :
    ∃ part ∈ cs.splitOn sep, c ∈ part := by
  induction cs with
  | nil => cases hc
  | cons x xs ih =>
      rw [List.splitOn_cons_eq_if_modifyHead]
      obtain ⟨head, tail, hparts⟩ := List.exists_cons_of_ne_nil (List.splitOn_ne_nil sep xs)
      rw [hparts] at ih ⊢
      by_cases hx : (x == sep) = true
      · rw [if_pos hx]
        rcases List.mem_cons.mp hc with rfl | hin
        · exact absurd (beq_iff_eq.mp hx) hne
        · obtain ⟨part, hpart, hmem⟩ := ih hin
          exact ⟨part, List.mem_cons_of_mem _ hpart, hmem⟩
      · rw [if_neg hx, List.modifyHead_cons]
        rcases List.mem_cons.mp hc with rfl | hin
        · exact ⟨_, List.mem_cons_self, List.mem_cons_self⟩
        · obtain ⟨part, hpart, hmem⟩ := ih hin
          rcases List.mem_cons.mp hpart with rfl | hpart
          · exact ⟨_, List.mem_cons_self, List.mem_cons_of_mem _ hmem⟩
          · exact ⟨part, List.mem_cons_of_mem _ hpart, hmem⟩

theorem colon_notMem_of_isUuid {s : String} (h : DeliveryService.isUuid s = true) :
    ':' ∉ s.toList := by
  intro hcolon
  unfold DeliveryService.isUuid at h
  rw [Bool.and_eq_true, List.all_eq_true] at h
  obtain ⟨part, hpart, hmem⟩ := mem_splitOn hcolon (by decide : ':' ≠ '-')
  have hhex := List.all_eq_true.mp (h.2 part hpart) _ hmem
  revert hhex
  decide

/-! ## Registrations -/

theorem registerDevice_ok {db db' : List DeviceRow} {body : RegisterBody}
    (h : registerDevice P db userId body = .ok db') :
    DeliveryService.isUuid body.deviceId = true ∧
      ∀ row ∈ db', row ∈ db ∨ row = body.row P userId := by
  unfold registerDevice at h
  split at h
  · rename_i hvalid
    have huuid : DeliveryService.isUuid body.deviceId = true := by
      unfold RegisterBody.isValid at hvalid
      simp only [Bool.and_eq_true] at hvalid
      exact hvalid.1.1.1
    refine ⟨huuid, ?_⟩
    split at h
    · split at h
      · obtain rfl := Except.ok.inj h
        intro row hrow
        rcases List.mem_append.mp hrow with hrow | hrow
        · exact .inl hrow
        · exact .inr (List.mem_singleton.mp hrow)
      · split at h
        · obtain rfl := Except.ok.inj h
          intro row hrow
          obtain ⟨old, hold, rfl⟩ := List.mem_map.mp hrow
          split
          · exact .inr rfl
          · exact .inl hold
        · cases h
    · cases h
  · cases h

theorem getUserDeviceKeyPackages_spec {db : List DeviceRow} {d : Device}
    (h : d ∈ getUserDeviceKeyPackages db userId) :
    d.userId = userId ∧ ∃ row ∈ db, row.userId = userId ∧ row.id = d.deviceId ∧
      row.keyPackage = d.keyPackage := by
  obtain ⟨row, hrow, rfl⟩ := List.mem_map.mp h
  obtain ⟨hrow, hkept⟩ := List.mem_filter.mp hrow
  rw [Bool.and_eq_true, decide_eq_true_eq] at hkept
  exact ⟨rfl, row, hrow, hkept.1, rfl, rfl⟩

/-! ## Commits -/

/-- Elements and their results, side by side. -/
theorem mem_zipWith_mapM {α β γ : Type} {f : α → Option β} {g : α → β → γ} {l : List α}
    {rs : List β} (h : l.mapM f = some rs) {c : γ} :
    c ∈ List.zipWith g l rs ↔ ∃ a ∈ l, ∃ b, f a = some b ∧ c = g a b := by
  induction l generalizing rs with
  | nil =>
      obtain rfl := Option.some.inj h
      simp
  | cons x xs ih =>
      rw [List.mapM_cons] at h
      obtain ⟨b, hb, h⟩ := Option.bind_eq_some_iff.mp h
      obtain ⟨bs, hbs, h⟩ := Option.bind_eq_some_iff.mp h
      obtain rfl := Option.some.inj h
      rw [List.zipWith_cons_cons, List.mem_cons, ih hbs]
      constructor
      · rintro (rfl | ⟨a, ha, hrest⟩)
        · exact ⟨x, List.mem_cons_self, b, hb, rfl⟩
        · exact ⟨a, List.mem_cons_of_mem _ ha, hrest⟩
      · rintro ⟨a, ha, b', hb', rfl⟩
        rcases List.mem_cons.mp ha with rfl | ha
        · exact .inl (by rw [Option.some.inj (hb.symm.trans hb')])
        · exact .inr ⟨a, ha, b', hb', rfl⟩

theorem mem_of_mapM {α β : Type} {f : α → Option β} {l : List α} {rs : List β}
    (h : l.mapM f = some rs) {a : α} (ha : a ∈ l) : ∃ b, f a = some b := by
  induction l generalizing rs with
  | nil => cases ha
  | cons x xs ih =>
      rw [List.mapM_cons] at h
      obtain ⟨b, hb, h⟩ := Option.bind_eq_some_iff.mp h
      obtain ⟨bs, hbs, -⟩ := Option.bind_eq_some_iff.mp h
      rcases List.mem_cons.mp ha with rfl | ha
      · exact ⟨b, hb⟩
      · exact ih hbs ha

variable {now run : ℕ} {devices : List Device}

/-- The leaves that are added carry what is inside the packages of the devices. -/
theorem honest_addMember {leaves leaves' : List Leaf} (hleaves : ∀ leaf ∈ leaves, leaf.Honest)
    (hcolon : ∀ d ∈ devices, ':' ∉ d.deviceId.toList)
    (h : addMember P now leaves devices = some leaves') :
    (∀ leaf ∈ leaves', leaf.Honest) ↔ ∀ d ∈ devices, d.Honest P := by
  obtain ⟨packages, hpackages, h⟩ := Option.bind_eq_some_iff.mp h
  obtain ⟨-, h⟩ := Option.ite_none_right_eq_some.mp h
  obtain rfl := Option.some.inj h
  have hadded {leaf : Leaf} : leaf ∈ List.zipWith Device.leaf devices packages ↔
      ∃ d ∈ devices, ∃ k, validated P now d.keyPackage = some k ∧ leaf = d.leaf k :=
    mem_zipWith_mapM hpackages
  constructor
  · intro hhonest d hd k hk
    obtain ⟨k', hk'⟩ := mem_of_mapM hpackages hd
    obtain rfl := Option.some.inj (hk.symm.trans (Option.filter_eq_some_iff.mp hk').1)
    have hleaf := hhonest (d.leaf k)
      (List.mem_append_right _ (hadded.mpr ⟨d, hd, k, hk', rfl⟩))
    exact hleaf.credential
  · intro hdevices leaf hleaf
    rcases List.mem_append.mp hleaf with hold | hnew
    · exact hleaves leaf hold
    · obtain ⟨d, hd, k, hk, rfl⟩ := hadded.mp hnew
      exact (Leaf.honest_iff_label (hcolon d hd)).mpr
        (hdevices d hd k (Option.filter_eq_some_iff.mp hk).1)

/-- Another state of one group. -/
theorem honest_setLeaves (h : w.Honest) (groupId : GroupId) (leaves : List Leaf) :
    (w.setLeaves groupId leaves).Honest ↔ ∀ leaf ∈ leaves, leaf.Honest := by
  constructor
  · intro hset
    exact hset groupId leaves (Function.update_self ..)
  · intro hleaves groupId' leaves' hgroup
    dsimp only [World.setLeaves] at hgroup
    by_cases hsame : groupId' = groupId
    · subst hsame
      rw [Function.update_self] at hgroup
      obtain rfl := Option.some.inj hgroup
      exact hleaves
    · rw [Function.update_of_ne hsame] at hgroup
      exact h groupId' leaves' hgroup

variable {groupId : GroupId}

theorem World.Inv.setLeaves (h : w.Inv) {leaves : List Leaf}
    (hleaves : ∀ leaf ∈ leaves, leaf.Honest) : (w.setLeaves groupId leaves).Inv :=
  ⟨h.rows, h.fetched, (honest_setLeaves h.honest groupId leaves).mpr hleaves⟩

/-- What one run has fetched changes. -/
theorem fetched_update {Q : Device → Prop} {fetched : ℕ → Option (GroupId × List Device)}
    (h : ∀ run groupId devices, fetched run = some (groupId, devices) → ∀ d ∈ devices, Q d)
    (hdevices : ∀ d ∈ devices, Q d) (run' : ℕ) (groupId' : GroupId) (devices' : List Device)
    (hfetched : Function.update fetched run (some (groupId, devices)) run' = some (groupId', devices')) :
    ∀ d ∈ devices', Q d := by
  by_cases hrun : run' = run
  · subst hrun
    rw [Function.update_self] at hfetched
    obtain ⟨-, rfl⟩ := Prod.mk.inj (Option.some.inj hfetched)
    exact hdevices
  · rw [Function.update_of_ne hrun] at hfetched
    exact h run' groupId' devices' hfetched

theorem World.Inv.putFetched (h : w.Inv) (hdevices : ∀ d ∈ devices, ':' ∉ d.deviceId.toList) :
    ({ w with fetched := Function.update w.fetched run (some (groupId, devices)) } : World).Inv :=
  ⟨h.rows, fetched_update h.fetched hdevices, h.honest⟩

theorem World.Inv.genesis (h : w.Inv) {deviceId : DeviceId}
    (hstep : w.genesis P run (.own userId deviceId) now = some w') :
    (w'.Honest ↔ AddsHonest P w (.genesis run userId deviceId now)) ∧ (w'.Honest → w'.Inv) := by
  obtain ⟨⟨groupId, devices⟩, hfetched, hstep⟩ := Option.bind_eq_some_iff.mp hstep
  obtain ⟨-, hstep⟩ := Option.ite_none_right_eq_some.mp hstep
  obtain ⟨leaves, hleaves, rfl⟩ := Option.map_eq_some_iff.mp hstep
  have hown : ∀ leaf ∈ [Leaf.own userId deviceId], leaf.Honest := by
    intro leaf hleaf
    rw [List.mem_singleton.mp hleaf]
    exact Leaf.own_honest userId deviceId
  have hadd := honest_addMember hown (h.fetched run groupId devices hfetched) hleaves
  rw [honest_setLeaves h.honest, hadd]
  refine ⟨?_, fun hdevices => h.setLeaves (hadd.mpr hdevices)⟩
  constructor
  · intro hdevices groupId' devices' hfetched'
    obtain ⟨-, rfl⟩ := Prod.mk.inj (Option.some.inj (hfetched.symm.trans hfetched'))
    exact hdevices
  · intro hadds
    exact hadds groupId devices hfetched

theorem World.Inv.addMissing (h : w.Inv) (hstep : w.addMissing P run now = some w') :
    (w'.Honest ↔ AddsHonest P w (.addMissing run now)) ∧ (w'.Honest → w'.Inv) := by
  obtain ⟨⟨groupId, devices⟩, hfetched, hstep⟩ := Option.bind_eq_some_iff.mp hstep
  obtain ⟨leaves, hgroup, hstep⟩ := Option.bind_eq_some_iff.mp hstep
  obtain ⟨-, hstep⟩ := Option.ite_none_right_eq_some.mp hstep
  obtain ⟨leaves', hleaves', rfl⟩ := Option.map_eq_some_iff.mp hstep
  have hcolon : ∀ d ∈ devices.filter (·.isMissing leaves), ':' ∉ d.deviceId.toList := fun d hd =>
    h.fetched run groupId devices hfetched d (List.mem_of_mem_filter hd)
  have hadd := honest_addMember (h.honest groupId leaves hgroup) hcolon hleaves'
  rw [honest_setLeaves h.honest, hadd]
  refine ⟨?_, fun hdevices => h.setLeaves (hadd.mpr hdevices)⟩
  constructor
  · intro hdevices groupId' devices' leaves'' hfetched' hgroup'
    obtain ⟨rfl, rfl⟩ := Prod.mk.inj (Option.some.inj (hfetched.symm.trans hfetched'))
    obtain rfl := Option.some.inj (hgroup.symm.trans hgroup')
    exact hdevices
  · intro hadds
    exact hadds groupId devices leaves hfetched hgroup

theorem World.Inv.fetch (h : w.Inv) (hfetched : w.fetched run = some (groupId, devices))
    (userId : UserId) :
    ∀ d ∈ devices ++ getUserDeviceKeyPackages w.db userId, ':' ∉ d.deviceId.toList := by
  intro d hd
  rcases List.mem_append.mp hd with hold | hnew
  · exact h.fetched run groupId devices hfetched d hold
  · obtain ⟨-, row, hrow, -, hid, -⟩ := getUserDeviceKeyPackages_spec hnew
    rw [← hid]
    exact h.rows row hrow

/-- A step leaves all leaves honest exactly if the devices it adds are, and keeps the invariant if
they are. -/
theorem step_honest {i : Input} (h : w.Inv) (hstep : (commits P).step w i = some w') :
    (w'.Honest ↔ AddsHonest P w i) ∧ (AddsHonest P w i → w'.Inv) := by
  have hkept {w' : World} (hinv : w'.Inv) :
      (w'.Honest ↔ True) ∧ (True → w'.Inv) :=
    ⟨iff_of_true hinv.honest trivial, fun _ => hinv⟩
  cases i with
  | registerDevice userId body =>
      obtain ⟨db, hdb, rfl⟩ := Option.map_eq_some_iff.mp hstep
      refine hkept ⟨?_, h.fetched, h.honest⟩
      cases hregister : registerDevice P w.db userId body with
      | error e =>
          rw [hregister] at hdb
          cases hdb
      | ok db' =>
          rw [hregister] at hdb
          obtain rfl := Option.some.inj hdb
          obtain ⟨huuid, hrows⟩ := registerDevice_ok hregister
          intro row hrow
          rcases hrows row hrow with hold | rfl
          · exact h.rows row hold
          · exact colon_notMem_of_isUuid huuid
  | revoke deviceId =>
      obtain rfl := Option.some.inj hstep
      refine hkept ⟨?_, h.fetched, h.honest⟩
      intro row hrow
      obtain ⟨old, hold, rfl⟩ := List.mem_map.mp hrow
      split
      · exact h.rows old hold
      · exact h.rows old hold
  | beginFetch run groupId =>
      obtain rfl := Option.some.inj hstep
      exact hkept (h.putFetched nofun)
  | fetch run userId =>
      obtain ⟨⟨groupId, devices⟩, hfetched, rfl⟩ := Option.map_eq_some_iff.mp hstep
      exact hkept (h.putFetched (h.fetch hfetched userId))
  | genesis run userId deviceId now =>
      obtain ⟨hiff, hinv⟩ := h.genesis hstep
      exact ⟨hiff, fun hadds => hinv (hiff.mpr hadds)⟩
  | removeStale groupId currentMemberIds =>
      obtain ⟨leaves, hgroup, rfl⟩ := Option.map_eq_some_iff.mp hstep
      refine hkept (h.setLeaves fun leaf hleaf => ?_)
      exact h.honest groupId leaves hgroup leaf (List.mem_of_mem_filter hleaf)
  | addMissing run now =>
      obtain ⟨hiff, hinv⟩ := h.addMissing hstep
      exact ⟨hiff, fun hadds => hinv (hiff.mpr hadds)⟩

/-- Throughout a run every leaf is that of the device it was added for, exactly if every device that
is added has its label inside its key package. -/
theorem honest_iff (P : Platform) (is : List Input) :
    (∀ w i w', (commits P).Passes .empty is w i w' → w'.Honest) ↔
      ∀ w i w', (commits P).Passes .empty is w i w' → AddsHonest P w i :=
  StepSystem.passes_iff (P := fun _ _ w' => w'.Honest) (C := AddsHonest P)
    (fun _ _ _ h hstep => step_honest h hstep) inv_empty is

/-- Bytes are the codes of characters, and a key package is its credential. -/
def plain : Platform where
  fromBase64 s := s.toList.map Char.toUInt8
  utf8 b := String.ofList (b.map Char.ofUInt8)
  deserialize b := some
    { credential := String.ofList (b.map Char.ofUInt8)
      signed := true
      notAfter := 1 }
  accepts _ _ := true

def phone : DeviceId where
  text := "00000000-0000-4000-8000-000000000003"
  no_colon := by decide

/-- Mallory's registered key package carries the label of Alice's device, and Bob's group has a leaf
of Alice. -/
theorem registered_package_of_another :
    ¬ ∀ (P : Platform) (is : List Input) (w : World),
      (commits P).Run .empty is w → w.Honest := by
  intro h
  let is : List Input :=
    [.registerDevice "mallory"
        { deviceId := "00000000-0000-4000-8000-000000000001"
          keyPackage := "alice:00000000-0000-4000-8000-000000000002"
          credential := "mallory:00000000-0000-4000-8000-000000000001"
          publicKey := none },
      .beginFetch 0 "group",
      .fetch 0 "mallory",
      .genesis 0 "bob" phone 0]
  let leaf : Leaf :=
    { credential := "alice:00000000-0000-4000-8000-000000000002"
      userId := "mallory"
      deviceId := "00000000-0000-4000-8000-000000000001" }
  have hadded : ((commits plain).exec .empty is).any (fun w =>
      (w.groups "group").any fun leaves => leaf ∈ leaves) = true := by
    decide +kernel
  obtain ⟨w, hrun, hgroup⟩ := (Option.any_eq_true _ _).mp hadded
  obtain ⟨leaves, hleaves, hin⟩ := (Option.any_eq_true _ _).mp hgroup
  have hleaf := h plain is w (StepSystem.exec_eq_some_iff.mp hrun) "group" leaves hleaves leaf
    (of_decide_eq_true hin)
  exact absurd hleaf.credential (by decide +kernel)

/-! ## Honest registrations -/

/-- The key package that is registered has the label inside that it is registered under. -/
def RegistersHonest (P : Platform) : Input → Prop
  | .registerDevice userId body =>
      Device.Honest P
        { userId := userId
          deviceId := body.deviceId
          keyPackage := P.fromBase64 body.keyPackage }
  | _ => True

/-- What is registered and what has been fetched is honest. -/
structure World.Registered (P : Platform) (w : World) : Prop where
  inv : w.Inv
  rows : ∀ row ∈ w.db, Device.Honest P
    { userId := row.userId
      deviceId := row.id
      keyPackage := row.keyPackage }
  fetched : ∀ run groupId devices, w.fetched run = some (groupId, devices) →
    ∀ d ∈ devices, d.Honest P

theorem World.Registered.adds (h : w.Registered P) (i : Input) : AddsHonest P w i := by
  cases i with
  | genesis run userId deviceId now => exact h.fetched run
  | addMissing run now =>
      intro groupId devices leaves hfetched _ d hd
      exact h.fetched run groupId devices hfetched d (List.mem_of_mem_filter hd)
  | registerDevice userId body => trivial
  | revoke deviceId => trivial
  | beginFetch run groupId => trivial
  | fetch run userId => trivial
  | removeStale groupId currentMemberIds => trivial

theorem World.Registered.step (h : w.Registered P) {i : Input} (hi : RegistersHonest P i)
    (hstep : (commits P).step w i = some w') : w'.Registered P := by
  have hinv := (step_honest h.inv hstep).2 (h.adds i)
  cases i with
  | registerDevice userId body =>
      obtain ⟨db, hdb, rfl⟩ := Option.map_eq_some_iff.mp hstep
      refine ⟨hinv, ?_, h.fetched⟩
      cases hregister : registerDevice P w.db userId body with
      | error e =>
          rw [hregister] at hdb
          cases hdb
      | ok db' =>
          rw [hregister] at hdb
          obtain rfl := Option.some.inj hdb
          intro row hrow
          rcases (registerDevice_ok hregister).2 row hrow with hold | rfl
          · exact h.rows row hold
          · exact hi
  | revoke deviceId =>
      obtain rfl := Option.some.inj hstep
      refine ⟨hinv, ?_, h.fetched⟩
      intro row hrow
      obtain ⟨old, hold, rfl⟩ := List.mem_map.mp hrow
      split
      · exact h.rows old hold
      · exact h.rows old hold
  | beginFetch run groupId =>
      obtain rfl := Option.some.inj hstep
      exact ⟨hinv, h.rows, fetched_update h.fetched nofun⟩
  | fetch run userId =>
      obtain ⟨⟨groupId, devices⟩, hfetched, rfl⟩ := Option.map_eq_some_iff.mp hstep
      refine ⟨hinv, h.rows, fetched_update h.fetched fun d hd => ?_⟩
      rcases List.mem_append.mp hd with hold | hnew
      · exact h.fetched run groupId devices hfetched d hold
      · obtain ⟨huser, row, hrow, huser', hid, hpackage⟩ := getUserDeviceKeyPackages_spec hnew
        have hhonest := h.rows row hrow
        rw [huser', hid, hpackage, ← huser] at hhonest
        exact hhonest
  | genesis run userId deviceId now =>
      obtain ⟨⟨groupId, devices⟩, -, hgenesis⟩ := Option.bind_eq_some_iff.mp hstep
      obtain ⟨-, hgenesis⟩ := Option.ite_none_right_eq_some.mp hgenesis
      obtain ⟨leaves, -, rfl⟩ := Option.map_eq_some_iff.mp hgenesis
      exact ⟨hinv, h.rows, h.fetched⟩
  | removeStale groupId currentMemberIds =>
      obtain ⟨leaves, -, rfl⟩ := Option.map_eq_some_iff.mp hstep
      exact ⟨hinv, h.rows, h.fetched⟩
  | addMissing run now =>
      obtain ⟨⟨groupId, devices⟩, -, hadd⟩ := Option.bind_eq_some_iff.mp hstep
      obtain ⟨leaves, -, hadd⟩ := Option.bind_eq_some_iff.mp hadd
      obtain ⟨-, hadd⟩ := Option.ite_none_right_eq_some.mp hadd
      obtain ⟨leaves', -, rfl⟩ := Option.map_eq_some_iff.mp hadd
      exact ⟨hinv, h.rows, h.fetched⟩

/-- Where all users register their own key packages, every leaf is that of its device. -/
theorem honest_of_registrations {is : List Input}
    (h : (commits P).Guarded (fun _ i => RegistersHonest P i) .empty is w) : w.Honest :=
  have hregistered : w.Registered P :=
    h.invariant (fun _ _ _ hw hi hstep => hw.step hi hstep) ⟨inv_empty, nofun, nofun⟩
  hregistered.inv.honest

end SpecterComs.Leaves
