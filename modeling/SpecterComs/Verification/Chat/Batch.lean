import SpecterComs.Verification.Chat.Merge

/-! # One batch against one message after another

The reads of a batch all see the rows from before it, so a batch leaves for each id what
its last writing copy makes of the stored row. Merged one after another, the copies of an
id leave what all of them come to.
-/

namespace SpecterComs.Chat

variable {Extra : Type}

attribute [ext] Row

/-! ## One message after another -/

/-- Each message is merged with what the ones before it left. -/
def mergeInTurn (s : Store Extra) (copies : List (Incoming Extra × (String × String))) :
    Store Extra :=
  copies.foldl (fun s copy => (writeOf s copy).elim s s.put) s

/-- A copy as it is normalised, with the place it names itself. -/
def rowOf (copy : Incoming Extra × (String × String)) : Row Extra :=
  normalizeRow copy.1.now copy.2 copy.1.msg.place copy.1.msg

/-- What a normalised copy writes over the stored row. -/
def writeOver (stored : Option (Row Extra)) (row : Row Extra) : Option (Row Extra) :=
  mergeNormalized stored { row with place := row.place.or (stored.bind Row.place) }

/-- The stored row once a copy was merged. -/
def absorbRow (stored : Option (Row Extra)) (row : Row Extra) : Option (Row Extra) :=
  (writeOver stored row).or stored

variable {s : Store Extra}

theorem writeOf_eq_writeOver {copy : Incoming Extra × (String × String)} :
    writeOf s copy = writeOver (s.get copy.2.1) (rowOf copy) := rfl

/-- In turn, each id ends with what its own copies make of its row. -/
theorem get_mergeInTurn {copies : List (Incoming Extra × (String × String))} {id : String} :
    (mergeInTurn s copies).get id =
      ((copiesOf id copies).map rowOf).foldl absorbRow (s.get id) := by
  induction copies generalizing s with
  | nil => rfl
  | cons copy copies ih =>
      have hget : ((writeOf s copy).elim s s.put).get id =
          if copy.2.1 = id then absorbRow (s.get id) (rowOf copy) else s.get id := by
        cases hwrite : writeOf s copy with
        | none =>
            split_ifs with hid
            · subst hid
              rw [writeOf_eq_writeOver] at hwrite
              simp [absorbRow, hwrite]
            · rfl
        | some row =>
            have hrow : row.id = copy.2.1 := writeOf_id hwrite
            rw [Option.elim_some, Store.get_put, hrow]
            split_ifs with hid
            · subst hid
              rw [writeOf_eq_writeOver] at hwrite
              simp [absorbRow, hwrite]
            · rfl
      have hstep : mergeInTurn s (copy :: copies) =
          mergeInTurn ((writeOf s copy).elim s s.put) copies := rfl
      rw [hstep, ih, hget]
      by_cases hid : copy.2.1 = id
      · simp [copiesOf, hid]
      · simp [copiesOf, hid]

/-- In a batch, each id ends with the last row its copies write over its stored row. -/
theorem get_batch {fixed : Option String} {batch : List (Incoming Extra)} {id : String} :
    (mergeRowsInto s fixed batch).1.get id =
      ((((copiesOf id (keyed fixed batch)).map rowOf).filterMap
        (writeOver (s.get id))).getLast?).or (s.get id) := by
  have hwrites : (copiesOf id (keyed fixed batch)).filterMap (writeOf s) =
      ((copiesOf id (keyed fixed batch)).map rowOf).filterMap (writeOver (s.get id)) := by
    rw [List.filterMap_map]
    apply List.filterMap_congr
    intro copy hcopy
    rw [writeOf_eq_writeOver, (mem_copiesOf.mp hcopy).2]
    rfl
  rw [get_mergeRowsInto, hwrites]

/-! ## Normalised rows -/

/-- A readable row is not pending, has no failure and no attempts; any other is pending. -/
structure Normal (row : Row Extra) : Prop where
  pending : row.pending = !row.isReadable
  clean : row.isReadable → row.failReason = none ∧ row.attempts = 0

theorem normal_rowOf (copy : Incoming Extra × (String × String)) : Normal (rowOf copy) := by
  refine ⟨rfl, fun h => ?_⟩
  have h' : copy.1.msg.plaintext.isSome := h
  simp [rowOf, normalizeRow, h']

variable {stored : Option (Row Extra)} {row w old o first : Row Extra}

theorem writeOver_cases (h : writeOver stored row = some w) :
    (stored = none ∧ w = row) ∨
      ∃ old, stored = some old ∧ old.isReadable = false ∧
        ((row.isReadable ∧ w =
          { row with
            place := row.place.or old.place
            encryptedContent := row.encryptedContent.or old.encryptedContent
            receivedAt := old.receivedAt }) ∨
          (row.isReadable = false ∧ w = refresh old row)) := by
  cases stored with
  | none =>
      refine Or.inl ⟨rfl, ?_⟩
      have hw := Option.some.inj h
      rw [← hw]
      simp
  | some old =>
      simp only [writeOver, mergeNormalized] at h
      split_ifs at h with hold hrow hsame
      · exact Or.inr ⟨old, rfl, by simpa using hold, Or.inl ⟨hrow, (Option.some.inj h).symm⟩⟩
      · refine Or.inr ⟨old, rfl, by simpa using hold, Or.inr ⟨?_, (Option.some.inj h).symm⟩⟩
        simpa [Row.isReadable] using hrow

/-- An unreadable copy refreshes an unreadable row, whether that writes or not. -/
theorem absorbRow_unreadable (hold : old.isReadable = false) (hrow : row.isReadable = false) :
    absorbRow (some old) row = some (refresh old row) := by
  have hrow' : ({ row with place := row.place.or old.place } : Row Extra).isReadable = false := hrow
  simp only [absorbRow, writeOver, mergeNormalized, hold, Option.bind_some, hrow',
    Bool.false_eq_true, if_false]
  split_ifs with hsame
  · simp only [unchanged, refresh, Bool.and_eq_true, beq_iff_eq] at hsame
    obtain ⟨⟨⟨hcipher, hreason⟩, hattempts⟩, hpending⟩ := hsame
    simp [refresh, hcipher, hreason, hattempts, ← hpending]
  · rfl

theorem absorbRow_text (hold : old.isReadable = false) (hrow : row.isReadable) :
    absorbRow (some old) row = some
      { row with
        place := row.place.or old.place
        encryptedContent := row.encryptedContent.or old.encryptedContent
        receivedAt := old.receivedAt } := by
  have hrow' : ({ row with place := row.place.or old.place } : Row Extra).isReadable = true := hrow
  simp [absorbRow, writeOver, mergeNormalized, hold, hrow']

theorem absorbRow_readable (hold : old.isReadable) : absorbRow (some old) row = some old := by
  simp [absorbRow, writeOver, mergeNormalized, hold]

variable {rows : List (Row Extra)}

theorem foldl_absorbRow_readable (hold : old.isReadable) :
    rows.foldl absorbRow (some old) = some old := by
  induction rows with
  | nil => rfl
  | cons row rows ih => rw [List.foldl_cons, absorbRow_readable hold, ih]

/-! ## What several copies come to -/

theorem findSome?_snoc {α : Type*} {f : Row Extra → Option α} :
    (rows ++ [row]).findSome? f = (rows.findSome? f).or (f row) := by
  rw [List.findSome?_append]
  cases h : f row <;> simp [h]

theorem findSome?_head {α : Type*} {f : Row Extra → Option α} :
    (row :: rows).findSome? f = (f row).or (rows.findSome? f) := by
  cases h : f row <;> simp [h]

/-- Unreadable copies keep the first ciphertext, the last reason and the most attempts. -/
theorem foldl_refresh :
    rows.foldl refresh old =
      { old with
        pending := old.pending || !rows.isEmpty
        encryptedContent := (old :: rows).findSome? Row.encryptedContent
        failReason := (old :: rows).reverse.findSome? Row.failReason
        attempts := rows.foldl (fun n row => max n row.attempts) old.attempts } := by
  induction rows using List.reverseRecOn with
  | nil => simp
  | append_singleton rows row ih =>
      have hcipher : (old :: (rows ++ [row])).findSome? Row.encryptedContent =
          ((old :: rows).findSome? Row.encryptedContent).or row.encryptedContent := by
        rw [← List.cons_append, findSome?_snoc]
      have hreason : (old :: (rows ++ [row])).reverse.findSome? Row.failReason =
          row.failReason.or ((old :: rows).reverse.findSome? Row.failReason) := by
        rw [← List.cons_append, List.reverse_append, List.reverse_singleton,
          List.singleton_append, findSome?_head]
      rw [List.foldl_append, List.foldl_cons, List.foldl_nil, ih, refresh, List.foldl_append,
        hcipher, hreason]
      simp

/-- The copies before the first readable one, and that one. -/
theorem foldl_absorbRow_unreadable (hold : old.isReadable = false) :
    rows.foldl absorbRow (some old) = some
      (match rows.find? Row.isReadable with
      | some first =>
          { first with
            place := first.place.or old.place
            encryptedContent := first.encryptedContent.or
              ((old :: rows.takeWhile fun row => !row.isReadable).findSome? Row.encryptedContent)
            receivedAt := old.receivedAt }
      | none => rows.foldl refresh old) := by
  induction rows generalizing old with
  | nil => rfl
  | cons row rows ih =>
      rw [List.foldl_cons]
      cases hrow : row.isReadable with
      | true =>
          have hkept : rows.foldl absorbRow (absorbRow (some old) row) =
              absorbRow (some old) row := by
            rw [absorbRow_text hold hrow]
            exact foldl_absorbRow_readable hrow
          rw [hkept, absorbRow_text hold hrow]
          simp [hrow]
      | false =>
          have hrefresh : (refresh old row).isReadable = false := hold
          rw [absorbRow_unreadable hold hrow, ih hrefresh]
          have hfind : (row :: rows).find? Row.isReadable = rows.find? Row.isReadable := by
            simp [hrow]
          rw [hfind]
          cases rows.find? Row.isReadable with
          | none => rfl
          | some first =>
              have hcipher : ∀ rest : List (Row Extra),
                  (refresh old row :: rest).findSome? Row.encryptedContent =
                    (old :: row :: rest).findSome? Row.encryptedContent := by
                intro rest
                simp only [findSome?_head, refresh, Option.or_assoc]
              simp only [hcipher, List.takeWhile_cons, hrow, Bool.not_false, if_true]
              rfl

/-! ## A row that carries what all copies carry -/

/-- `w` has what the first readable copy says, its ciphertext or else the first one before
it, and the place and arrival of the row `o` the id starts from. -/
structure CarriesText (o first w : Row Extra) (before : List (Row Extra)) : Prop where
  text : w.plaintext = first.plaintext
  author : w.senderId = first.senderId ∧ w.callsign = first.callsign
  sent : w.timestamp = first.timestamp ∧ w.relayedBy = first.relayedBy ∧ w.extra = first.extra
  place : w.place = first.place.or o.place
  ciphertext : w.encryptedContent =
    first.encryptedContent.or ((o :: before).findSome? Row.encryptedContent)
  received : w.receivedAt = o.receivedAt

/-- `w` is the row `o` the id starts from, with the first ciphertext, the last reason and
the most attempts of all copies. -/
structure CarriesState (o w : Row Extra) (rows : List (Row Extra)) : Prop where
  author : w.senderId = o.senderId ∧ w.callsign = o.callsign
  sent : w.timestamp = o.timestamp ∧ w.relayedBy = o.relayedBy ∧ w.extra = o.extra
  place : w.place = o.place
  ciphertext : w.encryptedContent = (o :: rows).findSome? Row.encryptedContent
  reason : w.failReason = (o :: rows).reverse.findSome? Row.failReason
  attempts : w.attempts = rows.foldl (fun n row => max n row.attempts) o.attempts
  received : w.receivedAt = o.receivedAt

def Carries (o w : Row Extra) (rows : List (Row Extra)) : Prop :=
  match rows.find? Row.isReadable with
  | some first => CarriesText o first w (rows.takeWhile fun row => !row.isReadable)
  | none => CarriesState o w rows

/-- The last copy that writes over the stored row carries what all copies carry. The id
starts from the stored row, or from its first copy. -/
def LastCarriesAll (stored : Option (Row Extra)) (rows : List (Row Extra)) : Prop :=
  ∀ o ∈ stored.or rows.head?, ∀ w ∈ (rows.filterMap (writeOver stored)).getLast?,
    Carries o w rows

theorem eq_text_iff {before : List (Row Extra)} (hfirst : Normal first)
    (hreadable : first.isReadable) (hw : Normal w) (hid : w.id = first.id) :
    w = { first with
        place := first.place.or o.place
        encryptedContent :=
          first.encryptedContent.or ((o :: before).findSome? Row.encryptedContent)
        receivedAt := o.receivedAt } ↔ CarriesText o first w before := by
  constructor
  · intro h
    rw [h]
    exact ⟨rfl, ⟨rfl, rfl⟩, ⟨rfl, rfl, rfl⟩, rfl, rfl, rfl⟩
  · rintro ⟨htext, ⟨hsender, hcallsign⟩, ⟨htime, hrelayed, hextra⟩, hplace, hcipher, hreceived⟩
    have hsame : w.isReadable = true := by rwa [Row.isReadable, htext]
    have hpending : w.pending = first.pending := by
      rw [hw.pending, hfirst.pending, hsame, hreadable]
    obtain ⟨hreason, hattempts⟩ := hw.clean hsame
    obtain ⟨hreason', hattempts'⟩ := hfirst.clean hreadable
    exact Row.ext hid hplace hsender hcallsign hcipher htext htime hreceived hpending
      (hreason.trans hreason'.symm) (hattempts.trans hattempts'.symm) hrelayed hextra

theorem eq_state_iff (hid : w.id = o.id) (htext : w.plaintext = o.plaintext)
    (hpending : w.pending = (o.pending || !rows.isEmpty)) :
    w = rows.foldl refresh o ↔ CarriesState o w rows := by
  rw [foldl_refresh]
  constructor
  · intro h
    rw [h]
    exact ⟨⟨rfl, rfl⟩, ⟨rfl, rfl, rfl⟩, rfl, rfl, rfl, rfl, rfl⟩
  · rintro ⟨⟨hsender, hcallsign⟩, ⟨htime, hrelayed, hextra⟩, hplace, hcipher, hreason, hattempts,
      hreceived⟩
    exact Row.ext hid hplace hsender hcallsign hcipher htext htime hreceived hpending hreason
      hattempts hrelayed hextra

/-- Written rows are normal. -/
theorem normal_of_writeOver (hrow : Normal row) (h : writeOver stored row = some w) : Normal w := by
  rcases writeOver_cases h with ⟨-, rfl⟩ | ⟨old, -, hold, ⟨hreadable, rfl⟩ | ⟨-, rfl⟩⟩
  · exact hrow
  · exact ⟨hrow.pending, hrow.clean⟩
  · have hplain : (refresh old row).isReadable = false := hold
    refine ⟨by rw [hplain]; rfl, fun hr => ?_⟩
    rw [hplain] at hr
    cases hr

theorem id_of_writeOver {id : String} (hstored : ∀ old ∈ stored, old.id = id) (hrow : row.id = id)
    (h : writeOver stored row = some w) : w.id = id := by
  rcases writeOver_cases h with ⟨-, rfl⟩ | ⟨old, hold, -, ⟨-, rfl⟩ | ⟨-, rfl⟩⟩
  · exact hrow
  · exact hrow
  · exact hstored old hold

/-- What an unreadable copy writes stays unreadable. -/
theorem unreadable_of_writeOver (hrow : row.isReadable = false)
    (h : writeOver stored row = some w) : w.isReadable = false := by
  rcases writeOver_cases h with ⟨-, rfl⟩ | ⟨old, -, hold, ⟨hreadable, -⟩ | ⟨-, rfl⟩⟩
  · exact hrow
  · rw [hrow] at hreadable
    cases hreadable
  · exact hold

/-- Copies that write nothing leave the row alone, one after another too. -/
theorem foldl_absorbRow_quiet (h : rows.filterMap (writeOver stored) = []) :
    rows.foldl absorbRow stored = stored := by
  induction rows with
  | nil => rfl
  | cons row rows ih =>
      have hquiet := List.filterMap_eq_nil_iff.mp h
      have hrow : absorbRow stored row = stored := by
        rw [absorbRow, hquiet row (by simp), Option.none_or]
      rw [List.foldl_cons, hrow]
      exact ih (List.filterMap_eq_nil_iff.mpr fun r hr => hquiet r (by simp [hr]))

/-- Starting from an unreadable row, a written row is what all copies come to exactly where
it carries what they carry. -/
theorem eq_foldl_absorbRow_iff {id : String} (ho : o.isReadable = false) (hoid : o.id = id)
    (hrows : ∀ row ∈ rows, Normal row ∧ row.id = id) (hw : Normal w) (hwid : w.id = id)
    (hplain : (∀ row ∈ rows, row.isReadable = false) → w.isReadable = false)
    (hpending : o.pending = true ∨ rows ≠ []) :
    some w = rows.foldl absorbRow (some o) ↔ Carries o w rows := by
  rw [foldl_absorbRow_unreadable ho, Option.some_inj, Carries]
  cases hfind : rows.find? Row.isReadable with
  | some first =>
      have hfirst := hrows first (List.mem_of_find?_eq_some hfind)
      have hreadable : first.isReadable := List.find?_some hfind
      exact eq_text_iff hfirst.1 hreadable hw (hwid.trans hfirst.2.symm)
  | none =>
      have hunreadable : ∀ row ∈ rows, row.isReadable = false := by
        simpa using List.find?_eq_none.mp hfind
      have hwplain := hplain hunreadable
      have htext : w.plaintext = o.plaintext := by
        have h₁ : w.plaintext = none := by simpa [Row.isReadable] using hwplain
        have h₂ : o.plaintext = none := by simpa [Row.isReadable] using ho
        rw [h₁, h₂]
      have hpending' : w.pending = (o.pending || !rows.isEmpty) := by
        rw [hw.pending, hwplain]
        rcases hpending with h | h
        · simp [h]
        · simp [h]
      exact eq_state_iff (hwid.trans hoid.symm) htext hpending'

/-- The first copy counts once, as the row the id starts from. -/
theorem carries_cons_self {rest : List (Row Extra)} (hreadable : first.isReadable = false) :
    Carries first w rest ↔ Carries first w (first :: rest) := by
  have hcipher : ∀ rows : List (Row Extra),
      (first :: first :: rows).findSome? Row.encryptedContent =
        (first :: rows).findSome? Row.encryptedContent := by
    intro rows
    cases h : first.encryptedContent <;> simp [h]
  have hreason : (first :: first :: rest).reverse.findSome? Row.failReason =
      (first :: rest).reverse.findSome? Row.failReason := by
    simp only [List.reverse_cons, findSome?_snoc]
    cases first.failReason <;> simp
  have hattempts : (first :: rest).foldl (fun n row => max n row.attempts) first.attempts =
      rest.foldl (fun n row => max n row.attempts) first.attempts := by simp
  simp only [Carries, List.find?_cons, hreadable, List.takeWhile_cons, Bool.not_false, if_true]
  cases rest.find? Row.isReadable with
  | some text =>
      constructor
      · rintro ⟨h₁, h₂, h₃, h₄, h₅, h₆⟩
        exact ⟨h₁, h₂, h₃, h₄, by rw [hcipher, h₅], h₆⟩
      · rintro ⟨h₁, h₂, h₃, h₄, h₅, h₆⟩
        exact ⟨h₁, h₂, h₃, h₄, by rw [h₅, hcipher], h₆⟩
  | none =>
      constructor
      · rintro ⟨h₁, h₂, h₃, h₄, h₅, h₆, h₇⟩
        exact ⟨h₁, h₂, h₃, by rw [hcipher, h₄], by rw [hreason, h₅], by rw [hattempts, h₆], h₇⟩
      · rintro ⟨h₁, h₂, h₃, h₄, h₅, h₆, h₇⟩
        exact ⟨h₁, h₂, h₃, by rw [h₄, hcipher], by rw [h₅, hreason], by rw [h₆, hattempts], h₇⟩

theorem lastWrite_eq_foldl_iff {id : String} (hstored : ∀ old ∈ stored, old.id = id)
    (hrows : ∀ row ∈ rows, Normal row ∧ row.id = id) :
    ((rows.filterMap (writeOver stored)).getLast?).or stored = rows.foldl absorbRow stored ↔
      LastCarriesAll stored rows := by
  unfold LastCarriesAll
  cases hlast : (rows.filterMap (writeOver stored)).getLast? with
  | none =>
      rw [foldl_absorbRow_quiet (List.getLast?_eq_none_iff.mp hlast)]
      simp
  | some w =>
      obtain ⟨last, hmem, hwrite⟩ := List.mem_filterMap.mp (List.mem_of_getLast? hlast)
      have hw := normal_of_writeOver (hrows last hmem).1 hwrite
      have hwid := id_of_writeOver hstored (hrows last hmem).2 hwrite
      have hplain : (∀ row ∈ rows, row.isReadable = false) → w.isReadable = false :=
        fun h => unreadable_of_writeOver (h last hmem) hwrite
      have hne : rows ≠ [] := by
        rintro rfl
        simp at hmem
      cases stored with
      | some old =>
          have hold : old.isReadable = false := by
            rcases writeOver_cases hwrite with ⟨h, -⟩ | ⟨old', h, hold, -⟩
            · cases h
            · rw [Option.some.inj h]
              exact hold
          have hiff := eq_foldl_absorbRow_iff hold (hstored old rfl) hrows hw hwid hplain
            (Or.inr hne)
          simpa using hiff
      | none =>
          obtain ⟨first, rest, rfl⟩ := List.exists_cons_of_ne_nil hne
          have hfirst := hrows first (by simp)
          have hstart : absorbRow none first = some first := by
            simp [absorbRow, writeOver, mergeNormalized]
          rw [List.foldl_cons, hstart, Option.or_none, Option.none_or]
          simp only [List.head?_cons, Option.mem_def, Option.some_inj, forall_eq']
          cases hreadable : first.isReadable with
          | true =>
              have hcarries : Carries first w (first :: rest) ↔ CarriesText first first w [] := by
                simp [Carries, hreadable]
              rw [foldl_absorbRow_readable hreadable, hcarries,
                ← eq_text_iff hfirst.1 hreadable hw (hwid.trans hfirst.2.symm)]
              simp
          | false =>
              have hpending : first.pending = true := by rw [hfirst.1.pending, hreadable]; rfl
              have hplain' : (∀ row ∈ rest, row.isReadable = false) → w.isReadable = false :=
                fun h => hplain fun row hrow => by
                  rcases List.mem_cons.mp hrow with rfl | hrow
                  · exact hreadable
                  · exact h row hrow
              rw [eq_foldl_absorbRow_iff hreadable hfirst.2
                (fun row hrow => hrows row (List.mem_cons_of_mem _ hrow)) hw hwid hplain'
                (Or.inl hpending)]
              exact carries_cons_self hreadable

/-! ## Batch and turn -/

/-- Once a readable copy was merged in turn, the row is readable. -/
theorem readable_foldl_absorbRow (h : stored.any Row.isReadable ∨ ∃ row ∈ rows, row.isReadable) :
    (rows.foldl absorbRow stored).any Row.isReadable := by
  induction rows generalizing stored with
  | nil =>
      rcases h with h | ⟨row, hrow, -⟩
      · exact h
      · simp at hrow
  | cons row rows ih =>
      rw [List.foldl_cons]
      apply ih
      by_cases hstored : stored.any Row.isReadable
      · obtain ⟨old, rfl, hold⟩ := (Option.any_eq_true _ _).mp hstored
        left
        rw [absorbRow_readable hold]
        exact hold
      · by_cases hrow : row.isReadable
        · left
          cases stored with
          | none => simpa [absorbRow, writeOver, mergeNormalized] using hrow
          | some old =>
              rw [absorbRow_text (by simpa using hstored) hrow]
              exact hrow
        · right
          rcases h with h | ⟨other, hother, hreadable⟩
          · exact absurd h hstored
          · rcases List.mem_cons.mp hother with rfl | hother
            · exact absurd hreadable hrow
            · exact ⟨other, hother, hreadable⟩

/-- A batch leaves the store as its messages merged in turn exactly where, for each id, the
last copy that writes over the stored row carries what all its copies carry. In turn, a
message with a readable copy ends readable. -/
theorem batch_merge_exact (s : Store Extra) (fixed : Option String)
    (batch : List (Incoming Extra)) :
    ((∀ id, (mergeRowsInto s fixed batch).1.get id =
        (mergeInTurn s (keyed fixed batch)).get id) ↔
      ∀ id, LastCarriesAll (s.get id) ((copiesOf id (keyed fixed batch)).map rowOf)) ∧
    ∀ copy ∈ keyed fixed batch, (textOf copy).isSome →
      ((mergeInTurn s (keyed fixed batch)).get copy.2.1).any Row.isReadable := by
  constructor
  · refine forall_congr' fun id => ?_
    rw [get_batch, get_mergeInTurn]
    refine lastWrite_eq_foldl_iff (fun old hold => Store.get_eq_some hold) fun row hrow => ?_
    obtain ⟨copy, hcopy, rfl⟩ := List.mem_map.mp hrow
    exact ⟨normal_rowOf copy, (mem_copiesOf.mp hcopy).2⟩
  · intro copy hcopy htext
    rw [get_mergeInTurn]
    exact readable_foldl_absorbRow
      (Or.inr ⟨rowOf copy, List.mem_map_of_mem (mem_copiesOf.mpr ⟨hcopy, rfl⟩), htext⟩)

/-- A readable copy and then an unreadable one of one message: the batch leaves it
unreadable, one after another leave it readable. -/
theorem batch_differs_in_turn :
    (mergeRowsInto Store.empty none [copyOf (some "hi"), copyOf none]).1.get "m" ≠
      (mergeInTurn Store.empty (keyed none [copyOf (some "hi"), copyOf none])).get "m" := by
  decide

end SpecterComs.Chat
