import Mathlib.Data.List.Perm.Basic
import SpecterComs.Model.Chat.Retries
import SpecterComs.Verification.Chat.Answers
import SpecterComs.Verification.Chat.Batch

/-! # The attempts of a row

A retry that fails raises the stored attempts, and no merge lowers them. So the stored
attempts of an unreadable row count the decryptions of it whose outcome is saved.
-/

namespace SpecterComs.Chat

variable {Extra : Type} {platform : Platform} {me : String}

/-! ## What a transaction does to one row -/

/-- A row stays stored; if it stays unreadable, it was so before and its attempts do not drop. -/
def Kept (stored : Option (Row Extra)) (row' : Option (Row Extra)) : Prop :=
  ∀ row, stored = some row → ∃ new, row' = some new ∧
    (new.isReadable = false → row.isReadable = false ∧ row.attempts ≤ new.attempts)

theorem Kept.refl (stored : Option (Row Extra)) : Kept stored stored :=
  fun row h => ⟨row, h, fun hrow => ⟨hrow, le_rfl⟩⟩

theorem Kept.trans {a b c : Option (Row Extra)} (h : Kept a b) (h' : Kept b c) : Kept a c := by
  intro row hrow
  obtain ⟨new, hnew, hkept⟩ := h row hrow
  obtain ⟨last, hlast, hkept'⟩ := h' new hnew
  refine ⟨last, hlast, fun hunread => ?_⟩
  obtain ⟨hunread', hle⟩ := hkept' hunread
  exact ⟨(hkept hunread').1, (hkept hunread').2.trans hle⟩

theorem Kept.isSome {stored new : Option (Row Extra)} (h : Kept stored new)
    (hstored : stored.isSome) : new.isSome := by
  obtain ⟨row, hrow⟩ := Option.isSome_iff_exists.mp hstored
  obtain ⟨next, hnext, -⟩ := h row hrow
  exact Option.isSome_iff_exists.mpr ⟨next, hnext⟩

theorem kept_batch (s : Store Extra) (fixed : Option String) (batch : List (Incoming Extra))
    (id : String) : Kept (s.get id) ((mergeRowsInto s fixed batch).1.get id) := by
  intro row hrow
  rw [get_batch, hrow]
  cases hlast : (((copiesOf id (keyed fixed batch)).map rowOf).filterMap
      (writeOver (some row))).getLast? with
  | none => exact ⟨row, rfl, fun hunread => ⟨hunread, le_rfl⟩⟩
  | some new =>
      refine ⟨new, rfl, fun hunread => ?_⟩
      obtain ⟨copy, -, hwrite⟩ := List.mem_filterMap.mp (List.mem_of_getLast? hlast)
      rcases writeOver_cases hwrite with ⟨hnone, -⟩ | ⟨old, hold, hunread', hcase⟩
      · cases hnone
      · obtain rfl := Option.some.inj hold
        refine ⟨hunread', ?_⟩
        rcases hcase with ⟨hreadable, rfl⟩ | ⟨-, rfl⟩
        · have hcontra : copy.isReadable = false := hunread
          rw [hreadable] at hcontra
          cases hcontra
        · exact le_max_left _ _

/-- Rows have an id and a timestamp. -/
def Store.Named (s : Store Extra) : Prop :=
  ∀ id row, s.get id = some row → row.id ≠ "" ∧ row.timestamp ≠ ""

variable {key : String × String}

theorem key_eq_some {msg : Msg Extra} (h : msg.key = some key) : key.1 ≠ "" ∧ key.2 ≠ "" := by
  unfold Msg.key at h
  simp only [Option.bind_eq_bind, Option.bind_eq_some_iff, Option.filter_eq_some_iff,
    Option.some.injEq] at h
  obtain ⟨id, ⟨-, hid⟩, timestamp, ⟨-, htimestamp⟩, rfl⟩ := h
  exact ⟨by simpa using hid, by simpa using htimestamp⟩

variable {fixed : Option String}

theorem key_of_mem_keyed {batch : List (Incoming Extra)}
    {copy : Incoming Extra × (String × String)} (h : copy ∈ keyed fixed batch) :
    copy.2.1 ≠ "" ∧ copy.2.2 ≠ "" := by
  obtain ⟨incoming, -, hkey⟩ := List.mem_filterMap.mp h
  cases hmsg : incoming.msg.key with
  | none =>
      rw [hmsg] at hkey
      cases hkey
  | some key =>
      rw [hmsg] at hkey
      obtain rfl := Option.some.inj hkey
      exact key_eq_some hmsg

variable {s : Store Extra}

theorem Store.Named.batch (h : s.Named) (fixed : Option String) (batch : List (Incoming Extra)) :
    (mergeRowsInto s fixed batch).1.Named := by
  intro id row hrow
  rw [get_batch] at hrow
  rcases Option.or_eq_some_iff.mp hrow with hlast | ⟨-, hold⟩
  · obtain ⟨next, hnext, hwrite⟩ := List.mem_filterMap.mp (List.mem_of_getLast? hlast)
    obtain ⟨copy, hcopy, rfl⟩ := List.mem_map.mp hnext
    have hnamed := key_of_mem_keyed (mem_copiesOf.mp hcopy).1
    rcases writeOver_cases hwrite with ⟨-, rfl⟩ | ⟨old, hold, -, ⟨-, rfl⟩ | ⟨-, rfl⟩⟩
    · exact hnamed
    · exact hnamed
    · exact h id old hold
  · exact h id row hold

/-! ## What a retry does to its row -/

theorem key_of_named {msg : Msg Extra} {id timestamp : String} (hid : msg.id = some id)
    (htimestamp : msg.timestamp = some timestamp) (h : id ≠ "") (h' : timestamp ≠ "") :
    msg.key = some (id, timestamp) := by
  simp [Msg.key, hid, htimestamp, Option.filter, h, h']

variable {row : Row Extra}

theorem key_retriedMsg (hid : row.id ≠ "") (htimestamp : row.timestamp ≠ "") (opened : Opened) :
    (retriedMsg row opened).key = some (row.id, row.timestamp) := by
  unfold retriedMsg
  cases opened.plaintext with
  | none => exact key_of_named rfl rfl hid htimestamp
  | some plaintext => exact key_of_named rfl rfl hid htimestamp

variable {incoming : Incoming Extra}

/-- One message is merged into the row of its id. -/
theorem get_merge_singleton (hkey : incoming.msg.key = some key) {id : String} :
    (mergeRowsInto s none [incoming]).1.get id =
      if key.1 = id then absorbRow (s.get id) (rowOf (incoming, key)) else s.get id := by
  have hkeyed : keyed none [incoming] = [(incoming, key)] := by
    simp [keyed, hkey]
  rw [get_batch, hkeyed]
  by_cases hid : key.1 = id
  · simp only [copiesOf, List.filter_cons, hid, beq_self_eq_true, if_true, List.filter_nil,
      List.map_cons, List.map_nil]
    rw [absorbRow]
    cases hwrite : writeOver (s.get id) (rowOf (incoming, key)) with
    | none => rw [List.filterMap_cons_none hwrite]; rfl
    | some row => rw [List.filterMap_cons_some hwrite]; rfl
  · simp [copiesOf, hid]

/-- After a failed retry the stored row counts it. -/
theorem attempts_retried {stored : Row Extra} (hid : row.id ≠ "")
    (htimestamp : row.timestamp ≠ "") (hstored : s.get row.id = some stored)
    (hunread : row.isReadable = false) (opened : Opened) (now : String) :
    ∃ new, (mergeRowsInto s none [⟨retriedMsg row opened, now⟩]).1.get row.id = some new ∧
      (new.isReadable = false → row.attempts + 1 ≤ new.attempts) := by
  rw [get_merge_singleton (key_retriedMsg hid htimestamp opened), if_pos rfl, hstored]
  set next := rowOf (⟨retriedMsg row opened, now⟩, (row.id, row.timestamp)) with hnext
  cases hread : stored.isReadable with
  | true =>
      refine ⟨stored, absorbRow_readable hread, fun h => ?_⟩
      rw [hread] at h
      cases h
  | false =>
      cases hopened : opened.plaintext with
      | some plaintext =>
          have htext : next.isReadable = true := by
            simp [hnext, rowOf, normalizeRow, Row.isReadable, retriedMsg, hopened]
          refine ⟨_, absorbRow_text hread htext, fun h => ?_⟩
          have h' : next.isReadable = false := h
          rw [htext] at h'
          cases h'
      | none =>
          have hplain : row.plaintext = none := by simpa [Row.isReadable] using hunread
          have htext : next.isReadable = false := by
            simp [hnext, rowOf, normalizeRow, Row.isReadable, retriedMsg, hopened, Row.toMsg,
              hplain]
          have hattempts : next.attempts = row.attempts + 1 := by
            simp [hnext, rowOf, normalizeRow, retriedMsg, hopened, Row.toMsg, hplain]
          refine ⟨_, absorbRow_unreadable hread htext, fun _ => ?_⟩
          rw [refresh, hattempts]
          exact le_max_right _ _

/-- A message for a stored row adds no row. -/
theorem length_merge_singleton (hkey : incoming.msg.key = some key) {stored : Row Extra}
    (hstored : s.get key.1 = some stored) :
    (mergeRowsInto s none [incoming]).1.rows.length ≤ s.rows.length := by
  have hkeyed : keyed none [incoming] = [(incoming, key)] := by
    simp [keyed, hkey]
  rw [mergeRowsInto_eq, hkeyed]
  cases hwrite : writeOf s (incoming, key) with
  | none => simp [hwrite]
  | some row =>
      have hid : row.id = key.1 := writeOf_id hwrite
      have hmem : stored ∈ s.rows := List.mem_of_find?_eq_some hstored
      have hlt : (s.rows.filter fun other => other.id != row.id).length < s.rows.length := by
        refine List.length_filter_lt_length_iff_exists.mpr ⟨stored, hmem, ?_⟩
        simp [hid, Store.get_eq_some hstored]
      rw [List.filterMap_cons_some hwrite, List.filterMap_nil, List.foldl_cons, List.foldl_nil]
      change (_ ++ [row]).length ≤ _
      rw [List.length_append, List.length_singleton]
      exact hlt

/-! ## The rows of a pass -/

theorem get_of_mem (h : row ∈ s.rows) : s.get row.id = some row := by
  cases hget : s.get row.id with
  | none =>
      have hnone := List.find?_eq_none.mp hget row h
      simp at hnone
  | some other =>
      have hmem : other ∈ s.rows := List.mem_of_find?_eq_some hget
      rw [List.inj_on_of_nodup_map s.nodup hmem h (Store.get_eq_some hget)]

/-- A pass begins with stored rows that may be retried, each of them once. -/
theorem pickRetryRows_spec (platform : Platform) (s : Store Extra) (id : String) :
    ((pickRetryRows platform (getChannelMessages platform s id storeWindow)).map Row.id).Nodup ∧
      ∀ row ∈ pickRetryRows platform (getChannelMessages platform s id storeWindow),
        s.get row.id = some row ∧ isRetryable row = true := by
  have hindex : (indexRange s id none).Perm (s.rows.filter _) := List.mergeSort_perm _ _
  have hread : (getChannelMessages platform s id storeWindow).Subperm s.rows := by
    have hlast : (getChannelMessages platform s id storeWindow).Sublist
        (sortByTimestamp platform (indexRange s id none)) := List.drop_sublist _ _
    exact hlast.subperm.trans
      ((sortByTimestamp_perm.trans hindex).subperm.trans List.filter_sublist.subperm)
  have hpick : (pickRetryRows platform (getChannelMessages platform s id storeWindow)).Perm
      ((getChannelMessages platform s id storeWindow).filter isRetryable) := sortByTimestamp_perm
  constructor
  · obtain ⟨rows, hrows, hsub⟩ := hpick.subperm.trans (List.filter_sublist.subperm.trans hread)
    exact (hrows.map Row.id).nodup_iff.mp (s.nodup.sublist (hsub.map Row.id))
  · intro row hrow
    obtain ⟨hmem, hretry⟩ := List.mem_filter.mp (hpick.mem_iff.mp hrow)
    exact ⟨get_of_mem (hread.subset hmem), hretry⟩

/-! ## What the runs keep -/

namespace DeliveryEngine

/-- The decryption whose outcome is not saved yet. -/
def unsaved (e : DeliveryEngine) : List (Kind × String) :=
  match e.running with
  | some (.retry ⟨key, row :: _, some _⟩) => [(key.kind, row.id)]
  | _ => []

variable {stores stores' : (kind : Kind) → Store kind.Extra} {saved : List (Kind × String)}

/-- The stored attempts of an unreadable row count the decryptions that were saved. -/
structure Counted (stores : (kind : Kind) → Store kind.Extra) (saved : List (Kind × String)) :
    Prop where
  named : ∀ kind, (stores kind).Named
  stored : ∀ kind id, (kind, id) ∈ saved → ((stores kind).get id).isSome
  spent : ∀ kind id row, (stores kind).get id = some row → row.isReadable = false →
    saved.count (kind, id) ≤ row.attempts
  bounded : ∀ place, saved.count place ≤ maxDecryptAttempts

/-- A row that a pass has yet to decrypt. -/
structure Due (stores : (kind : Kind) → Store kind.Extra) (saved : List (Kind × String))
    (kind : Kind) (row : Row kind.Extra) : Prop where
  unread : row.isReadable = false
  attempts : row.attempts < maxDecryptAttempts
  id : row.id ≠ ""
  timestamp : row.timestamp ≠ ""
  stored : ((stores kind).get row.id).isSome
  counted : saved.count (kind, row.id) ≤ row.attempts

/-- What holds while the outcomes of `saved` are saved. -/
structure Inv (e : DeliveryEngine) (saved : List (Kind × String)) : Prop where
  split : e.decrypted = saved ++ e.unsaved
  counted : Counted e.stores saved
  nodup : ∀ pass, e.running = some (.retry pass) → (pass.todo.map Row.id).Nodup
  due : ∀ pass, e.running = some (.retry pass) →
    ∀ row ∈ pass.todo, Due e.stores saved pass.key.kind row
  opened : ∀ pass, e.running = some (.retry pass) → pass.todo = [] → pass.opened = none

theorem Counted.kept (h : Counted stores saved) (hnamed : ∀ kind, (stores' kind).Named)
    (hkept : ∀ kind id, Kept ((stores kind).get id) ((stores' kind).get id)) :
    Counted stores' saved where
  named := hnamed
  stored kind id hmem := (hkept kind id).isSome (h.stored kind id hmem)
  spent kind id row hrow hunread := by
    cases hold : (stores kind).get id with
    | none =>
        -- What was decrypted is stored, so a new row was not.
        have hnew : (kind, id) ∉ saved := fun hmem => by
          have hsome := h.stored kind id hmem
          rw [hold] at hsome
          cases hsome
        rw [List.count_eq_zero_of_not_mem hnew]
        exact Nat.zero_le _
    | some old =>
        obtain ⟨new, hnew, hle⟩ := hkept kind id old hold
        obtain rfl := Option.some.inj (hrow.symm.trans hnew)
        exact (h.spent kind id old hold (hle hunread).1).trans (hle hunread).2
  bounded := h.bounded

variable {kind : Kind}

theorem Due.kept {row : Row kind.Extra} (h : Due stores saved kind row)
    (hkept : ∀ kind id, Kept ((stores kind).get id) ((stores' kind).get id)) :
    Due stores' saved kind row :=
  { h with stored := (hkept kind row.id).isSome h.stored }

/-- One more decryption is saved. -/
theorem Counted.push (h : Counted stores saved) {id : String} {row : Row kind.Extra}
    (hrow : (stores kind).get id = some row) (hlt : saved.count (kind, id) < maxDecryptAttempts)
    (hspent : row.isReadable = false → saved.count (kind, id) + 1 ≤ row.attempts) :
    Counted stores (saved ++ [(kind, id)]) where
  named := h.named
  stored kind' id' hmem := by
    rcases List.mem_append.mp hmem with hold | hlast
    · exact h.stored kind' id' hold
    · obtain ⟨rfl, rfl⟩ := Prod.mk.inj (List.mem_singleton.mp hlast)
      exact Option.isSome_iff_exists.mpr ⟨row, hrow⟩
  spent kind' id' row' hrow' hunread := by
    by_cases hplace : (kind', id') = (kind, id)
    · obtain ⟨rfl, rfl⟩ := Prod.mk.inj hplace
      obtain rfl := Option.some.inj (hrow.symm.trans hrow')
      simpa using hspent hunread
    · simpa [List.count_singleton, Ne.symm hplace] using h.spent kind' id' row' hrow' hunread
  bounded place := by
    by_cases hplace : place = (kind, id)
    · subst hplace
      rw [List.count_append, List.count_singleton_self]
      exact hlt
    · simpa [List.count_singleton, Ne.symm hplace] using h.bounded place

theorem kept_merge (e : DeliveryEngine) (kind : Kind) (fixed : Option String)
    (batch : List (Incoming kind.Extra)) (kind' : Kind) (id : String) :
    Kept ((e.stores kind').get id) (((e.merge kind fixed batch).stores kind').get id) := by
  by_cases hkind : kind' = kind
  · subst hkind
    simp only [merge, Function.update_self]
    exact kept_batch _ _ _ _
  · simp only [merge, Function.update_of_ne hkind]
    exact Kept.refl _

theorem named_merge {e : DeliveryEngine} (h : ∀ kind, (e.stores kind).Named) (kind : Kind)
    (fixed : Option String) (batch : List (Incoming kind.Extra)) (kind' : Kind) :
    ((e.merge kind fixed batch).stores kind').Named := by
  by_cases hkind : kind' = kind
  · subst hkind
    simp only [merge, Function.update_self]
    exact (h kind').batch _ _
  · simp only [merge, Function.update_of_ne hkind]
    exact h kind'

theorem Counted.merge {e : DeliveryEngine} (h : Counted e.stores saved) (kind : Kind)
    (fixed : Option String) (batch : List (Incoming kind.Extra)) :
    Counted (e.merge kind fixed batch).stores saved :=
  h.kept (named_merge h.named kind fixed batch) (kept_merge e kind fixed batch)

/-! ## What a step of the engine does -/

variable {e e' : DeliveryEngine}

theorem step_deliver {index : ℕ} (h : step platform me e (.deliver index) = some e') :
    ∃ groupId, e.changes[index]? = some groupId ∧
      { e with changes := e.changes.eraseIdx index }.onGroupChanged me groupId = e' :=
  Option.map_eq_some_iff.mp h

theorem step_begin {readable : Bool} (h : step platform me e (.begin readable) = some e') :
    ∃ task chain, e.running = none ∧ e.chain = task :: chain ∧
      { e with running := some (e.beginTask platform readable task), chain } = e' := by
  simp only [step] at h
  split at h
  next task chain hrunning hchain => exact ⟨task, chain, hrunning, hchain, Option.some.inj h⟩
  · cases h

variable {changes : List String}

theorem step_decrypt {opened : Opened}
    (h : step platform me e (.decrypt opened changes) = some e') :
    ∃ key row todo, e.running = some (.retry ⟨key, row :: todo, none⟩) ∧
      { e with
        running := some (.retry ⟨key, row :: todo, some opened⟩)
        changes := e.changes ++ changes
        decrypted := e.decrypted ++ [(key.kind, row.id)] } = e' := by
  simp only [step] at h
  split at h
  next key row todo hrunning => exact ⟨key, row, todo, hrunning, Option.some.inj h⟩
  · cases h

theorem step_write {now : String} (h : step platform me e (.write now) = some e') :
    ∃ key row todo opened, e.running = some (.retry ⟨key, row :: todo, some opened⟩) ∧
      { e.merge key.kind none [⟨retriedMsg row opened, now⟩] with
        running := some (.retry ⟨key, todo, none⟩) } = e' := by
  simp only [step] at h
  split at h
  next key row todo opened hrunning => exact ⟨key, row, todo, opened, hrunning, Option.some.inj h⟩
  · cases h

theorem step_endPass (h : step platform me e .endPass = some e') :
    ∃ key, e.running = some (.retry ⟨key, [], none⟩) ∧ e.endPass key = e' := by
  simp only [step] at h
  split at h
  next key hrunning => exact ⟨key, hrunning, Option.some.inj h⟩
  · cases h

variable {batch : (kind : Kind) → List (Incoming kind.Extra)}

theorem step_endRelay (h : step platform me e (.endRelay changes fixed batch) = some e') :
    ∃ kind, e.running = some (.relay kind) ∧
      { e.merge kind fixed (batch kind) with
        running := none, changes := e.changes ++ changes } = e' := by
  simp only [step] at h
  split at h
  next kind hrunning => exact ⟨kind, hrunning, Option.some.inj h⟩
  · cases h

theorem step_closed {reason : String}
    (h : step platform me e (.endBundle changes (.error reason)) = some e') :
    ∃ bundle isRetry, e.running = some (.bundle bundle isRetry) ∧
      { e with running := none, changes := e.changes ++ changes }.keepBundle
        bundle isRetry reason = e' := by
  simp only [step] at h
  split at h
  next bundle isRetry hrunning => exact ⟨bundle, isRetry, hrunning, Option.some.inj h⟩
  · cases h

theorem step_opened (h : step platform me e (.endBundle changes (.ok batch)) = some e') :
    ∃ bundle isRetry, e.running = some (.bundle bundle isRetry) ∧
      { e with running := none, changes := e.changes ++ changes }.merge
        bundle.kind bundle.groupId (batch bundle.kind) = e' := by
  simp only [step] at h
  split at h
  next bundle isRetry hrunning => exact ⟨bundle, isRetry, hrunning, Option.some.inj h⟩
  · cases h

section Frame

variable (e) (key : RetryKey) (groupId : String)

@[simp] theorem stores_retryPending : (e.retryPending key).stores = e.stores := by
  unfold retryPending
  split_ifs <;> rfl

@[simp] theorem running_retryPending : (e.retryPending key).running = e.running := by
  unfold retryPending
  split_ifs <;> rfl

@[simp] theorem decrypted_retryPending : (e.retryPending key).decrypted = e.decrypted := by
  unfold retryPending
  split_ifs <;> rfl

@[simp] theorem changes_retryPending : (e.retryPending key).changes = e.changes := by
  unfold retryPending
  split_ifs <;> rfl

@[simp] theorem failedBundles_retryPending :
    (e.retryPending key).failedBundles = e.failedBundles := by
  unfold retryPending
  split_ifs <;> rfl

@[simp] theorem stores_onGroupChanged : (e.onGroupChanged me groupId).stores = e.stores := by
  unfold onGroupChanged
  split_ifs <;> simp

@[simp] theorem running_onGroupChanged : (e.onGroupChanged me groupId).running = e.running := by
  unfold onGroupChanged
  split_ifs <;> simp

@[simp] theorem decrypted_onGroupChanged :
    (e.onGroupChanged me groupId).decrypted = e.decrypted := by
  unfold onGroupChanged
  split_ifs <;> simp

@[simp] theorem changes_onGroupChanged : (e.onGroupChanged me groupId).changes = e.changes := by
  unfold onGroupChanged
  split_ifs <;> simp

@[simp] theorem stores_endPass : (e.endPass key).stores = e.stores := by
  simp only [endPass]
  split_ifs <;> simp

@[simp] theorem running_endPass : (e.endPass key).running = none := by
  simp only [endPass]
  split_ifs <;> simp

@[simp] theorem decrypted_endPass : (e.endPass key).decrypted = e.decrypted := by
  simp only [endPass]
  split_ifs <;> simp

@[simp] theorem changes_endPass : (e.endPass key).changes = e.changes := by
  simp only [endPass]
  split_ifs <;> simp

@[simp] theorem stores_keepBundle (bundle : SyncBundle) (isRetry : Bool) (reason : String) :
    (e.keepBundle bundle isRetry reason).stores = e.stores := by
  unfold keepBundle
  split_ifs <;> rfl

@[simp] theorem running_keepBundle (bundle : SyncBundle) (isRetry : Bool) (reason : String) :
    (e.keepBundle bundle isRetry reason).running = e.running := by
  unfold keepBundle
  split_ifs <;> rfl

@[simp] theorem decrypted_keepBundle (bundle : SyncBundle) (isRetry : Bool) (reason : String) :
    (e.keepBundle bundle isRetry reason).decrypted = e.decrypted := by
  unfold keepBundle
  split_ifs <;> rfl

end Frame

/-! ## The invariant -/

theorem Inv.frame (h : Inv e saved) (hstores : e'.stores = e.stores)
    (hrunning : e'.running = e.running) (hdecrypted : e'.decrypted = e.decrypted) :
    Inv e' saved where
  split := by
    rw [unsaved, hrunning, hdecrypted]
    exact h.split
  counted := hstores ▸ h.counted
  nodup pass hpass := h.nodup pass (hrunning ▸ hpass)
  due pass hpass row hrow := hstores ▸ h.due pass (hrunning ▸ hpass) row hrow
  opened pass hpass := h.opened pass (hrunning ▸ hpass)

/-- Between two decryptions all outcomes are saved. -/
theorem Inv.decrypted_eq (h : Inv e saved) (hnone : e.unsaved = []) : e.decrypted = saved := by
  rw [h.split, hnone, List.append_nil]

/-- No pass runs. -/
theorem Inv.of_none (hcounted : Counted e.stores saved) (hdecrypted : e.decrypted = saved)
    (hrunning : ∀ pass, e.running ≠ some (.retry pass)) : Inv e saved where
  split := by
    have hnone : e.unsaved = [] := by
      unfold unsaved
      split
      next key row todo opened hpass => exact absurd hpass (hrunning _)
      · rfl
    rw [hnone, List.append_nil, hdecrypted]
  counted := hcounted
  nodup pass hpass := absurd hpass (hrunning pass)
  due pass hpass := absurd hpass (hrunning pass)
  opened pass hpass := absurd hpass (hrunning pass)

theorem inv_start : Inv start [] := by
  refine .of_none ⟨fun kind id row h => ?_, nofun, fun kind id row h => ?_, fun place => ?_⟩
    rfl nofun
  · cases h
  · cases h
  · exact Nat.zero_le _

theorem due_retryRows (h : Counted e.stores saved) (platform : Platform) (key : RetryKey)
    (readable : Bool) :
    ((e.retryRows platform key readable).map Row.id).Nodup ∧
      ∀ row ∈ e.retryRows platform key readable, Due e.stores saved key.kind row := by
  unfold retryRows
  cases readable with
  | false => simp
  | true =>
      rw [if_pos rfl]
      obtain ⟨hnodup, hrows⟩ := pickRetryRows_spec platform (e.stores key.kind) key.id
      refine ⟨hnodup, fun row hrow => ?_⟩
      obtain ⟨hstored, hretry⟩ := hrows row hrow
      have hunread : row.isReadable = false ∧ row.attempts < maxDecryptAttempts := by
        unfold isRetryable at hretry
        split_ifs at hretry with hread
        exact ⟨by simpa using hread, by simpa using hretry⟩
      obtain ⟨hid, htimestamp⟩ := h.named key.kind row.id row hstored
      exact ⟨hunread.1, hunread.2, hid, htimestamp, Option.isSome_iff_exists.mpr ⟨row, hstored⟩,
        h.spent key.kind row.id row hstored hunread.1⟩

theorem Inv.endPass (h : Inv e saved) {key : RetryKey}
    (hrunning : e.running = some (.retry ⟨key, [], none⟩)) : Inv (e.endPass key) saved := by
  have hsaved : e.decrypted = saved := h.decrypted_eq (by rw [unsaved, hrunning])
  exact .of_none (by simpa using h.counted) (by simpa using hsaved) (by simp)

/-- Between a decryption and its save nothing else is decrypted. -/
theorem Inv.decrypt (h : Inv e saved) {key : RetryKey} {row : Row key.kind.Extra}
    {todo : List (Row key.kind.Extra)}
    (hrunning : e.running = some (.retry ⟨key, row :: todo, none⟩)) (opened : Opened)
    (changes : List String) :
    Inv
      { e with
        running := some (.retry ⟨key, row :: todo, some opened⟩)
        changes := e.changes ++ changes
        decrypted := e.decrypted ++ [(key.kind, row.id)] } saved where
  split := by
    have hsaved : e.decrypted = saved := h.decrypted_eq (by rw [unsaved, hrunning])
    exact congrArg (· ++ [(key.kind, row.id)]) hsaved
  counted := h.counted
  nodup := by
    rintro pass ⟨⟩
    exact h.nodup ⟨key, row :: todo, none⟩ hrunning
  due := by
    rintro pass ⟨⟩
    exact h.due ⟨key, row :: todo, none⟩ hrunning
  opened := by
    rintro pass ⟨⟩ hempty
    cases hempty

theorem Inv.write (h : Inv e saved) {key : RetryKey} {row : Row key.kind.Extra}
    {todo : List (Row key.kind.Extra)} {opened : Opened} {now : String}
    (hrunning : e.running = some (.retry ⟨key, row :: todo, some opened⟩)) :
    Inv
      { e.merge key.kind none [⟨retriedMsg row opened, now⟩] with
        running := some (.retry ⟨key, todo, none⟩) } (saved ++ [(key.kind, row.id)]) := by
  have hdue := h.due _ hrunning
  have hrow := hdue row List.mem_cons_self
  have hnodup : ((row :: todo).map Row.id).Nodup := h.nodup _ hrunning
  rw [List.map_cons, List.nodup_cons] at hnodup
  obtain ⟨stored, hstored⟩ := Option.isSome_iff_exists.mp hrow.stored
  obtain ⟨new, hnew, hattempts⟩ :=
    attempts_retried hrow.id hrow.timestamp hstored hrow.unread opened now
  have hkept := kept_merge e key.kind none [⟨retriedMsg row opened, now⟩]
  constructor
  · have hsplit := h.split
    rw [unsaved, hrunning] at hsplit
    simpa [unsaved, merge] using hsplit
  · have hget : ((e.merge key.kind none [⟨retriedMsg row opened, now⟩]).stores key.kind).get
        row.id = some new := by simpa [merge] using hnew
    exact (h.counted.merge key.kind none _).push hget (hrow.counted.trans_lt hrow.attempts)
      fun hunread => (Nat.succ_le_succ hrow.counted).trans (hattempts hunread)
  · rintro pass ⟨⟩
    exact hnodup.2
  · rintro pass ⟨⟩ other hother
    have hold := hdue other (List.mem_cons_of_mem _ hother)
    -- The rows of a pass have different ids, so this one's count stays.
    have hne : row.id ≠ other.id := fun hid =>
      hnodup.1 (hid ▸ List.mem_map_of_mem hother)
    have hcount : (saved ++ [(key.kind, row.id)]).count (key.kind, other.id) =
        saved.count (key.kind, other.id) := by
      simp [hne]
    exact { hold.kept hkept with counted := hcount ▸ hold.counted }
  · rintro pass ⟨⟩ -
    rfl

theorem Inv.begin (h : Inv e saved) {task : DecryptTask} {chain : List DecryptTask}
    {readable : Bool} (hrunning : e.running = none) :
    Inv { e with running := some (e.beginTask platform readable task), chain } saved := by
  have hsaved : e.decrypted = saved := h.decrypted_eq (by rw [unsaved, hrunning])
  cases task with
  | retry key =>
      obtain ⟨hnodup, hdue⟩ := due_retryRows h.counted platform key readable
      constructor
      · simpa [unsaved, beginTask] using hsaved
      · exact h.counted
      · rintro pass ⟨⟩
        exact hnodup
      · rintro pass ⟨⟩
        exact hdue
      · rintro pass ⟨⟩ -
        rfl
  | relay kind => exact .of_none h.counted hsaved nofun
  | bundle bundle isRetry => exact .of_none h.counted hsaved nofun

/-- Every step keeps the invariant. -/
theorem Inv.step (h : Inv e saved) {i : Input} (hstep : step platform me e i = some e') :
    ∃ saved', Inv e' saved' := by
  cases i with
  | relay kind =>
      obtain rfl := Option.some.inj hstep
      exact ⟨saved, h.frame rfl rfl rfl⟩
  | bundle bundle =>
      obtain rfl := Option.some.inj hstep
      exact ⟨saved, h.frame rfl rfl rfl⟩
  | retryChannel channelId =>
      obtain rfl := Option.some.inj hstep
      exact ⟨saved, h.frame (by simp) (by simp) (by simp)⟩
  | change groupId =>
      obtain rfl := Option.some.inj hstep
      exact ⟨saved, h.frame rfl rfl rfl⟩
  | save kind fixed batch =>
      obtain rfl := Option.some.inj hstep
      exact ⟨saved, h.split, h.counted.merge kind fixed batch, h.nodup,
        fun pass hpass row hrow => (h.due pass hpass row hrow).kept (kept_merge e kind fixed batch),
        h.opened⟩
  | deliver index =>
      obtain ⟨groupId, -, rfl⟩ := step_deliver hstep
      exact ⟨saved, h.frame (by simp) (by simp) (by simp)⟩
  | begin readable =>
      obtain ⟨task, chain, hrunning, -, rfl⟩ := step_begin hstep
      exact ⟨saved, h.begin hrunning⟩
  | decrypt opened changes =>
      obtain ⟨key, row, todo, hrunning, rfl⟩ := step_decrypt hstep
      exact ⟨saved, h.decrypt hrunning opened changes⟩
  | write now =>
      obtain ⟨key, row, todo, opened, hrunning, rfl⟩ := step_write hstep
      exact ⟨_, h.write hrunning⟩
  | endPass =>
      obtain ⟨key, hrunning, rfl⟩ := step_endPass hstep
      exact ⟨saved, h.endPass hrunning⟩
  | endRelay changes fixed batch =>
      obtain ⟨kind, hrunning, rfl⟩ := step_endRelay hstep
      have hsaved : e.decrypted = saved := h.decrypted_eq (by rw [unsaved, hrunning])
      exact ⟨saved, .of_none (h.counted.merge kind fixed (batch kind)) hsaved nofun⟩
  | endBundle changes rows =>
      cases rows with
      | error reason =>
          obtain ⟨bundle, isRetry, hrunning, rfl⟩ := step_closed hstep
          have hsaved : e.decrypted = saved := h.decrypted_eq (by rw [unsaved, hrunning])
          exact ⟨saved, .of_none (by simpa using h.counted) (by simpa using hsaved) (by simp)⟩
      | ok batch =>
          obtain ⟨bundle, isRetry, hrunning, rfl⟩ := step_opened hstep
          have hsaved : e.decrypted = saved := h.decrypted_eq (by rw [unsaved, hrunning])
          exact ⟨saved, .of_none (h.counted.merge bundle.kind _ (batch bundle.kind)) hsaved nofun⟩

theorem Inv.count_le (h : Inv e saved) (place : Kind × String) :
    e.decrypted.count place ≤ maxDecryptAttempts := by
  rw [h.split, unsaved]
  split
  next key row todo opened hrunning =>
      by_cases hplace : (key.kind, row.id) = place
      · have hrow := h.due _ hrunning row List.mem_cons_self
        rw [← hplace, List.count_append, List.count_singleton_self]
        exact hrow.counted.trans_lt hrow.attempts
      · simpa [List.count_singleton, hplace] using h.counted.bounded place
  · simpa using h.counted.bounded place

theorem Inv.stored (h : Inv e saved) {id : String} (hmem : (kind, id) ∈ e.decrypted) :
    ((e.stores kind).get id).isSome := by
  rw [h.split, unsaved] at hmem
  split at hmem
  next key row todo opened hrunning =>
      rcases List.mem_append.mp hmem with hsaved | hlast
      · exact h.counted.stored kind id hsaved
      · obtain ⟨rfl, rfl⟩ := Prod.mk.inj (List.mem_singleton.mp hlast)
        exact (h.due _ hrunning row List.mem_cons_self).stored
  · exact h.counted.stored kind id (by simpa using hmem)

end DeliveryEngine

end SpecterComs.Chat
