import Mathlib.Data.List.Induction
import SpecterComs.Library.WriteOnce
import SpecterComs.Model.Chat.Rows

/-! # Convergence of the chat merge

For each id the store is a cell that a readable copy fills once. A transaction reads all
its rows before it writes any, which shows where one batch holds two copies of a message.
-/

namespace SpecterComs.Chat

variable {Extra : Type}

/-! ## Reading what was written -/

namespace Store

variable {s : Store Extra}

theorem get_eq_some {id : String} {row : Row Extra} (h : s.get id = some row) : row.id = id := by
  simpa using List.find?_some h

theorem get_put {row : Row Extra} {id : String} :
    (s.put row).get id = if row.id = id then some row else s.get id := by
  unfold get put
  rw [List.find?_append]
  by_cases h : row.id = id
  · have hnone : (s.rows.filter fun other => other.id != row.id).find?
        (fun other => other.id == id) = none := by
      rw [List.find?_eq_none]
      intro other hother
      have hne : other.id ≠ row.id := by simpa using (List.mem_filter.mp hother).2
      simpa [← h] using hne
    rw [hnone, Option.none_or]
    simp [h]
  · have hfind : (s.rows.filter fun other => other.id != row.id).find?
        (fun other => other.id == id) = s.rows.find? fun other => other.id == id := by
      rw [List.find?_filter]
      congr 1
      funext other
      by_cases hid : other.id = id
      · simp [hid, Ne.symm h]
      · simp [hid]
    rw [hfind]
    simp [h]

/-- The last write of an id wins. -/
theorem get_foldl_put {writes : List (Row Extra)} {id : String} :
    (writes.foldl put s).get id =
      ((writes.filter fun row => row.id == id).getLast?).or (s.get id) := by
  induction writes generalizing s with
  | nil => simp
  | cons row writes ih =>
      rw [List.foldl_cons, ih, get_put, List.filter_cons]
      by_cases h : row.id = id
      · cases hw : (writes.filter fun row => row.id == id).getLast? with
        | none => simp [h, List.getLast?_cons, hw]
        | some last => simp [h, List.getLast?_cons, hw]
      · simp [h]

end Store

variable {row : Row Extra}

theorem mergeRow_id {now : String} {existing : Option (Row Extra)} {key : String × String}
    {msg : Msg Extra} (hid : ∀ e ∈ existing, e.id = key.1)
    (h : mergeRow now existing key msg = some row) : row.id = key.1 := by
  unfold mergeRow mergeNormalized at h
  cases existing with
  | none =>
      cases h
      rfl
  | some existing =>
      have hexisting : existing.id = key.1 := hid existing rfl
      simp only at h
      split_ifs at h
      · cases h
        rfl
      · cases h
        simpa [refresh] using hexisting

/-! ## One transaction -/

/-- The messages of a batch that are merged, with their ids and timestamps. -/
def keyed (fixed : Option String) (batch : List (Incoming Extra)) :
    List (Incoming Extra × (String × String)) :=
  batch.filterMap fun incoming =>
    incoming.msg.key.map fun key =>
      ({ incoming with msg := { incoming.msg with place := fixed.or incoming.msg.place } }, key)

/-- The row one copy would write over what is stored. -/
def writeOf (s : Store Extra) (copy : Incoming Extra × (String × String)) : Option (Row Extra) :=
  mergeRow copy.1.now (s.get copy.2.1) copy.2 copy.1.msg

variable {s : Store Extra}

theorem serve_eq {writes : List (Row Extra)} {reads : List (Incoming Extra × (String × String))} :
    serve s writes reads =
      ((writes ++ reads.filterMap (writeOf s)).foldl Store.put s,
        writes ++ reads.filterMap (writeOf s)) := by
  induction reads generalizing writes with
  | nil => simp [serve]
  | cons copy reads ih =>
      obtain ⟨incoming, key⟩ := copy
      rw [serve, ih]
      cases h : writeOf s (incoming, key) with
      | none =>
          have h' : mergeRow incoming.now (s.get key.1) key incoming.msg = none := h
          simp [h, h']
      | some row =>
          have h' : mergeRow incoming.now (s.get key.1) key incoming.msg = some row := h
          simp [h, h']

variable {fixed : Option String} {batch : List (Incoming Extra)}

/-- What a transaction wrote. -/
theorem mergeRowsInto_eq :
    mergeRowsInto s fixed batch =
      (((keyed fixed batch).filterMap (writeOf s)).foldl Store.put s,
        (keyed fixed batch).filterMap (writeOf s)) := by
  simp only [mergeRowsInto]
  rw [serve_eq]
  rfl

variable {copy : Incoming Extra × (String × String)}

theorem writeOf_id (h : writeOf s copy = some row) : row.id = copy.2.1 :=
  mergeRow_id (fun _ he => Store.get_eq_some he) h

/-- The copies of one id in a batch. -/
def copiesOf (id : String) (copies : List (Incoming Extra × (String × String))) :
    List (Incoming Extra × (String × String)) :=
  copies.filter fun copy => copy.2.1 == id

variable {copies : List (Incoming Extra × (String × String))}

theorem filter_writes {id : String} :
    (copies.filterMap (writeOf s)).filter (fun row => row.id == id) =
      (copiesOf id copies).filterMap (writeOf s) := by
  induction copies with
  | nil => rfl
  | cons copy copies ih =>
      have hcons : copiesOf id (copy :: copies) =
          if copy.2.1 == id then copy :: copiesOf id copies else copiesOf id copies := by
        simp only [copiesOf, List.filter_cons]
      rw [hcons]
      cases h : writeOf s copy with
      | none =>
          rw [List.filterMap_cons_none h, ih]
          split_ifs
          · rw [List.filterMap_cons_none h]
          · rfl
      | some row =>
          have hid : row.id = copy.2.1 := writeOf_id h
          rw [List.filterMap_cons_some h, List.filter_cons, hid, ih]
          split_ifs
          · rw [List.filterMap_cons_some h]
          · rfl

/-- A batch leaves for each id the last row its copies wrote. -/
theorem get_mergeRowsInto {id : String} :
    (mergeRowsInto s fixed batch).1.get id =
      (((copiesOf id (keyed fixed batch)).filterMap (writeOf s)).getLast?).or (s.get id) := by
  rw [mergeRowsInto_eq, Store.get_foldl_put, filter_writes]

/-! ## The store as cells -/

/-- What is known of a message: nothing, that it exists, or its text. -/
def cellOf : Option (Row Extra) → Cell String
  | none => .absent
  | some row => row.plaintext.elim .blank .filled

def Store.cell (s : Store Extra) (id : String) : Cell String :=
  cellOf (s.get id)

/-- The text a copy carries. -/
def textOf (copy : Incoming Extra × (String × String)) : Option String :=
  copy.1.msg.plaintext

theorem writeOf_eq_some (h : writeOf s copy = some row) :
    (∀ text, s.cell copy.2.1 ≠ .filled text) ∧ row.plaintext = textOf copy := by
  unfold writeOf mergeRow mergeNormalized at h
  cases hget : s.get copy.2.1 with
  | none =>
      rw [hget] at h
      cases h
      exact ⟨by simp [Store.cell, hget, cellOf], rfl⟩
  | some existing =>
      rw [hget] at h
      simp only at h
      split_ifs at h with hreadable hnext
      · have hnone : existing.plaintext = none := by simpa [Row.isReadable] using hreadable
        cases h
        exact ⟨by simp [Store.cell, hget, cellOf, hnone], rfl⟩
      · have hnone : existing.plaintext = none := by simpa [Row.isReadable] using hreadable
        have hcopy : textOf copy = none := by
          simpa [Row.isReadable, normalizeRow, textOf] using hnext
        cases h
        exact ⟨by simp [Store.cell, hget, cellOf, hnone], by simp [refresh, hnone, hcopy]⟩

theorem writeOf_eq_none (h : writeOf s copy = none) :
    (∃ text, s.cell copy.2.1 = .filled text) ∨
      (s.cell copy.2.1 = .blank ∧ textOf copy = none) := by
  unfold writeOf mergeRow mergeNormalized at h
  cases hget : s.get copy.2.1 with
  | none => simp [hget] at h
  | some existing =>
      rw [hget] at h
      simp only at h
      split_ifs at h with hreadable hnext hsame
      · obtain ⟨text, htext⟩ := Option.isSome_iff_exists.mp hreadable
        exact .inl ⟨text, by simp [Store.cell, hget, cellOf, htext]⟩
      · have hnone : existing.plaintext = none := by simpa [Row.isReadable] using hreadable
        have hcopy : textOf copy = none := by
          simpa [Row.isReadable, normalizeRow, textOf] using hnext
        exact .inr ⟨by simp [Store.cell, hget, cellOf, hnone], hcopy⟩

/-- No readable copy is followed, in the same batch, by an unreadable copy of the message
that is written. -/
def Orderly (s : Store Extra) (copies : List (Incoming Extra × (String × String))) : Prop :=
  copies.Pairwise fun first second => first.2.1 = second.2.1 → (textOf first).isSome →
    textOf second = none → writeOf s second = none

/-- What the last write of an id's copies leaves. -/
theorem cell_lastWrite {id : String} (hid : ∀ copy ∈ copies, copy.2.1 = id)
    (hagree : Cell.Agree (copies.map textOf)) (horderly : Orderly s copies) :
    cellOf ((copies.filterMap (writeOf s)).getLast?.or (s.get id)) =
      (s.cell id).absorbAll (copies.map textOf) := by
  induction copies using List.reverseRecOn with
  | nil => rfl
  | append_singleton copies copy ih =>
      have hcopy : copy.2.1 = id := hid copy (by simp)
      have hagree' : Cell.Agree (copies.map textOf) := fun a b ha hb =>
        hagree a b (by simp_all) (by simp_all)
      obtain ⟨horderly', -, hlast⟩ := List.pairwise_append.mp horderly
      have ih := ih (fun other hother => hid other (by simp [hother])) hagree' horderly'
      rw [List.map_append, Cell.absorbAll_append, List.map_singleton, Cell.absorbAll_cons,
        Cell.absorbAll_nil]
      cases hwrite : writeOf s copy with
      | none =>
          have hsame : (copies ++ [copy]).filterMap (writeOf s) = copies.filterMap (writeOf s) := by
            simp [hwrite]
          rw [hsame, ih]
          rcases writeOf_eq_none hwrite with ⟨text, htext⟩ | ⟨hblank, hnone⟩
          · rw [hcopy] at htext
            simp [htext]
          · rw [hcopy] at hblank
            have hne : s.cell id ≠ .absent := by simp [hblank]
            rw [hnone, Cell.absorb_none (Cell.absorbAll_ne_absent hne)]
      | some row =>
          obtain ⟨hopen, htext⟩ := writeOf_eq_some hwrite
          rw [hcopy] at hopen
          have hrow : ((copies ++ [copy]).filterMap (writeOf s)).getLast? = some row := by
            simp [hwrite]
          have hcell : cellOf (some row) = (textOf copy).elim .blank .filled := by
            simp [cellOf, htext]
          rw [hrow, Option.some_or, hcell]
          by_cases hfilled : ∃ text, (s.cell id).absorbAll (copies.map textOf) = .filled text
          · obtain ⟨text, hfilled⟩ := hfilled
            have hmem := Cell.mem_of_absorbAll_eq_filled hopen hfilled
            obtain ⟨first, hfirst, hsome⟩ := List.mem_map.mp hmem
            have hreadable : (textOf first).isSome := by simp [hsome]
            have hsame : first.2.1 = copy.2.1 := by
              rw [hid first (by simp [hfirst]), hcopy]
            cases hlate : textOf copy with
            | none =>
                have hquiet := hlast first hfirst copy (by simp) hsame hreadable hlate
                rw [hwrite] at hquiet
                cases hquiet
            | some text' =>
                have heq : text = text' :=
                  hagree text text' (by simp [hmem]) (by simp [hlate])
                rw [hfilled, heq]
                rfl
          · have hopen' : ∀ text, (s.cell id).absorbAll (copies.map textOf) ≠ .filled text :=
              fun text htext => hfilled ⟨text, htext⟩
            rw [Cell.absorb_of_open hopen']

theorem mem_copiesOf {id : String} : copy ∈ copiesOf id copies ↔ copy ∈ copies ∧ copy.2.1 = id := by
  simp [copiesOf]

/-- The readable copies of one message carry one text. -/
def AgreeOn (copies : List (Incoming Extra × (String × String))) : Prop :=
  ∀ id, Cell.Agree ((copiesOf id copies).map textOf)

/-- After the writes of an orderly batch each message is what its copies make of it. -/
theorem cell_foldl_put (hagree : AgreeOn copies) (horderly : Orderly s copies) (id : String) :
    ((copies.filterMap (writeOf s)).foldl Store.put s).cell id =
      (s.cell id).absorbAll ((copiesOf id copies).map textOf) := by
  unfold Store.cell
  rw [Store.get_foldl_put, filter_writes]
  exact cell_lastWrite (fun copy hcopy => (mem_copiesOf.mp hcopy).2) (hagree id)
    (horderly.sublist List.filter_sublist)

/-! ## Writes over readable rows -/

/-- Between the writes of a batch, once a row is readable it stays so with its text. -/
def Final (s : Store Extra) (writes : List (Row Extra)) : Prop :=
  ∀ done more, done <+: more → more <+: writes → ∀ id text,
    (done.foldl Store.put s).cell id = .filled text →
      (more.foldl Store.put s).cell id = .filled text

theorem prefix_filterMap {α β : Type*} {f : α → Option β} {xs : List α} {ys : List β}
    (h : ys <+: xs.filterMap f) : ∃ zs, zs <+: xs ∧ zs.filterMap f = ys := by
  obtain ⟨rest, hrest⟩ := h
  obtain ⟨zs, zs', rfl, hzs, -⟩ := List.filterMap_eq_append_iff.mp hrest.symm
  exact ⟨zs, List.prefix_append _ _, hzs⟩

theorem AgreeOn.of_sublist {copies' : List (Incoming Extra × (String × String))}
    (hagree : AgreeOn copies) (h : copies'.Sublist copies) : AgreeOn copies' :=
  fun id a b ha hb => hagree id a b (((h.filter _).map _).mem ha) (((h.filter _).map _).mem hb)

theorem final_of_orderly (hagree : AgreeOn copies) (horderly : Orderly s copies) :
    Final s (copies.filterMap (writeOf s)) := by
  intro done more hdone hmore id text htext
  obtain ⟨moreCopies, hmoreCopies, rfl⟩ := prefix_filterMap hmore
  obtain ⟨doneCopies, ⟨rest, rfl⟩, rfl⟩ := prefix_filterMap hdone
  have hsub : doneCopies.Sublist copies := (List.sublist_append_left _ _).trans hmoreCopies.sublist
  rw [cell_foldl_put (hagree.of_sublist hsub) (horderly.sublist hsub)] at htext
  rw [cell_foldl_put (hagree.of_sublist hmoreCopies.sublist)
    (horderly.sublist hmoreCopies.sublist)]
  simp only [copiesOf, List.filter_append, List.map_append, Cell.absorbAll_append] at htext ⊢
  rw [htext, Cell.absorbAll_filled]

/-- The last write is what its id reads. -/
theorem cell_put_last {writes : List (Row Extra)} :
    ((writes ++ [row]).foldl Store.put s).cell row.id = row.plaintext.elim .blank .filled := by
  simp [Store.cell, Store.get_put, cellOf]

theorem orderly_of_final (hfinal : Final s (copies.filterMap (writeOf s))) : Orderly s copies := by
  rw [Orderly, List.pairwise_iff_forall_sublist]
  intro first second hsub hid hreadable hnone
  obtain ⟨front, back, rfl, hfirst, hsecond⟩ := List.cons_sublist_iff.mp hsub
  obtain ⟨p, q, rfl⟩ := List.append_of_mem hfirst
  obtain ⟨q', r, rfl⟩ := List.append_of_mem (List.singleton_sublist.mp hsecond)
  by_contra hwrite
  obtain ⟨row, hrow⟩ := Option.ne_none_iff_exists'.mp hwrite
  obtain ⟨hopen, hblank⟩ := writeOf_eq_some hrow
  -- the readable copy is written as well, since the stored row is not readable
  obtain ⟨good, hgood⟩ : ∃ good, writeOf s first = some good := by
    by_contra hno
    rcases writeOf_eq_none (Option.eq_none_iff_forall_ne_some.mpr fun good h => hno ⟨good, h⟩)
      with ⟨text, htext⟩ | ⟨-, hunreadable⟩
    · exact hopen text (hid ▸ htext)
    · simp [hunreadable] at hreadable
  obtain ⟨text, htext⟩ := Option.isSome_iff_exists.mp hreadable
  have hgoodId : good.id = row.id := by rw [writeOf_id hgood, writeOf_id hrow, hid]
  have hgoodText : good.plaintext = some text := by rw [(writeOf_eq_some hgood).2, htext]
  have hrowText : row.plaintext = none := by rw [hblank, hnone]
  have hdone : (p.filterMap (writeOf s) ++ [good]) <+:
      p.filterMap (writeOf s) ++ [good] ++ q.filterMap (writeOf s) ++
        q'.filterMap (writeOf s) ++ [row] := by
    simp only [List.append_assoc]
    exact List.prefix_append_right_inj _ |>.mpr (List.prefix_append _ _)
  have hmore : p.filterMap (writeOf s) ++ [good] ++ q.filterMap (writeOf s) ++
      q'.filterMap (writeOf s) ++ [row] <+:
        (p ++ first :: q ++ (q' ++ second :: r)).filterMap (writeOf s) := by
    refine ⟨r.filterMap (writeOf s), ?_⟩
    simp [hgood, hrow]
  have hkept := hfinal _ _ hdone hmore row.id text (by
    rw [← hgoodId, cell_put_last, hgoodText]
    rfl)
  rw [cell_put_last, hrowText] at hkept
  simp at hkept

/-! ## Runs of batches -/

structure Batch (Extra : Type) where
  fixed : Option String
  copies : List (Incoming Extra)

namespace Batch

def keyed (b : Batch Extra) : List (Incoming Extra × (String × String)) :=
  Chat.keyed b.fixed b.copies

def writes (s : Store Extra) (b : Batch Extra) : List (Row Extra) :=
  (mergeRowsInto s b.fixed b.copies).2

end Batch

/-- The store after each of these transactions. -/
def writeAll (s : Store Extra) (run : List (Batch Extra)) : Store Extra :=
  run.foldl (fun s b => (mergeRowsInto s b.fixed b.copies).1) s

/-- Every batch has the property in the state it is written to. -/
def EachBatch (P : Store Extra → Batch Extra → Prop) : Store Extra → List (Batch Extra) → Prop
  | _, [] => True
  | s, b :: run => P s b ∧ EachBatch P (mergeRowsInto s b.fixed b.copies).1 run

/-- The messages handed to the store. -/
def handed (run : List (Batch Extra)) : List (Msg Extra) :=
  run.flatMap fun b => b.copies.map Incoming.msg

/-- The texts of a message's copies. -/
def textsOf (id : String) (msgs : List (Msg Extra)) : List (Option String) :=
  (msgs.filter fun msg => msg.key.any fun key => key.1 == id).map Msg.plaintext

variable {b : Batch Extra}

theorem texts_keyed {id : String} :
    (copiesOf id b.keyed).map textOf = textsOf id (b.copies.map Incoming.msg) := by
  obtain ⟨fixed, copies⟩ := b
  induction copies with
  | nil => rfl
  | cons incoming copies ih =>
      simp only [Batch.keyed, copiesOf, textsOf, keyed] at ih ⊢
      cases hkey : incoming.msg.key with
      | none => simp [hkey, ih]
      | some key =>
          by_cases hid : key.1 = id
          · simp [hkey, hid, ih, textOf]
          · simp [hkey, hid, ih]

theorem textsOf_append {id : String} {msgs msgs' : List (Msg Extra)} :
    textsOf id (msgs ++ msgs') = textsOf id msgs ++ textsOf id msgs' := by
  simp [textsOf]

variable {run : List (Batch Extra)}

theorem handed_cons : handed (b :: run) = b.copies.map Incoming.msg ++ handed run := rfl

theorem cell_mergeRowsInto (hagree : ∀ id, Cell.Agree (textsOf id (b.copies.map Incoming.msg)))
    (horderly : Orderly s b.keyed) (id : String) :
    (mergeRowsInto s b.fixed b.copies).1.cell id =
      (s.cell id).absorbAll (textsOf id (b.copies.map Incoming.msg)) := by
  have hagree' : AgreeOn b.keyed := fun other => by
    rw [texts_keyed]
    exact hagree other
  rw [mergeRowsInto_eq, ← texts_keyed]
  exact cell_foldl_put hagree' horderly id

/-- After a run of orderly batches each message is what all its copies make of it. -/
theorem cell_writeAll (hagree : ∀ id, Cell.Agree (textsOf id (handed run)))
    (horderly : EachBatch (fun s b => Orderly s b.keyed) s run) (id : String) :
    (writeAll s run).cell id = (s.cell id).absorbAll (textsOf id (handed run)) := by
  induction run generalizing s with
  | nil => rfl
  | cons b run ih =>
      obtain ⟨hb, hrun⟩ := horderly
      have hsplit : ∀ id, textsOf id (handed (b :: run)) =
          textsOf id (b.copies.map Incoming.msg) ++ textsOf id (handed run) := fun id => by
        rw [handed_cons, textsOf_append]
      have hfirst : ∀ id, Cell.Agree (textsOf id (b.copies.map Incoming.msg)) := fun id x y hx hy =>
        hagree id x y (by simp [hsplit, hx]) (by simp [hsplit, hy])
      have hrest : ∀ id, Cell.Agree (textsOf id (handed run)) := fun id x y hx hy =>
        hagree id x y (by simp [hsplit, hx]) (by simp [hsplit, hy])
      rw [hsplit, Cell.absorbAll_append, ← cell_mergeRowsInto hfirst hb id]
      exact ih hrest hrun

/-- A row that is readable before a transaction is so after it, in every run. -/
theorem writeAll_readable {s : Store Extra} {run : List (Batch Extra)} {id text : String}
    (h : s.cell id = .filled text) : (writeAll s run).cell id = .filled text := by
  induction run generalizing s with
  | nil => exact h
  | cons b run ih =>
      apply ih
      have hquiet : (copiesOf id b.keyed).filterMap (writeOf s) = [] := by
        apply List.filterMap_eq_nil_iff.mpr
        intro copy hcopy
        by_contra hwrite
        obtain ⟨row, hrow⟩ := Option.ne_none_iff_exists'.mp hwrite
        refine (writeOf_eq_some hrow).1 text ?_
        rw [(mem_copiesOf.mp hcopy).2, h]
      unfold Store.cell
      rw [get_mergeRowsInto, show keyed b.fixed b.copies = b.keyed from rfl, hquiet]
      exact h

theorem eachBatch_iff {P Q : Store Extra → Batch Extra → Prop} (h : ∀ s, ∀ b ∈ run, P s b ↔ Q s b) :
    EachBatch P s run ↔ EachBatch Q s run := by
  induction run generalizing s with
  | nil => rfl
  | cons b run ih =>
      simp only [EachBatch, h s b (by simp),
        ih (fun s' b' hb' => h s' b' (List.mem_cons_of_mem _ hb'))]

/-- Runs that hand over the same copies, each message's readable copies with one text,
lead to the same messages with the same texts where their batches are orderly. The
batches are orderly exactly where no write makes a readable row unreadable or changes its
text, and a readable row survives every later transaction in any case. -/
theorem chat_merge_converges {s : Store Extra} {run₁ run₂ : List (Batch Extra)}
    (hsame : ∀ msg, msg ∈ handed run₁ ↔ msg ∈ handed run₂)
    (hagree : ∀ id, Cell.Agree (textsOf id (handed run₁))) :
    (EachBatch (fun s b => Orderly s b.keyed) s run₁ →
      EachBatch (fun s b => Orderly s b.keyed) s run₂ →
        ∀ id, (writeAll s run₁).cell id = (writeAll s run₂).cell id) ∧
    (EachBatch (fun s b => Orderly s b.keyed) s run₁ ↔
      EachBatch (fun s b => Final s (b.writes s)) s run₁) ∧
    ∀ id text, s.cell id = .filled text → (writeAll s run₁).cell id = .filled text := by
  have hmem : ∀ id copy, copy ∈ textsOf id (handed run₁) ↔ copy ∈ textsOf id (handed run₂) := by
    intro id copy
    simp only [textsOf, List.mem_map, List.mem_filter, hsame]
  have hagree₂ : ∀ id, Cell.Agree (textsOf id (handed run₂)) := fun id x y hx hy =>
    hagree id x y ((hmem id _).mpr hx) ((hmem id _).mpr hy)
  refine ⟨?_, ?_, fun id text h => writeAll_readable h⟩
  · intro h₁ h₂ id
    rw [cell_writeAll hagree h₁, cell_writeAll hagree₂ h₂]
    exact Cell.absorbAll_congr (hagree id) (hmem id)
  · apply eachBatch_iff
    intro s' b hb
    have hagreeOn : AgreeOn b.keyed := fun id x y hx hy => by
      rw [texts_keyed] at hx hy
      have hsub : ∀ z, z ∈ textsOf id (b.copies.map Incoming.msg) →
          z ∈ textsOf id (handed run₁) := by
        intro z hz
        simp only [textsOf, List.mem_map, List.mem_filter] at hz ⊢
        obtain ⟨msg, ⟨hmsg, hkey⟩, rfl⟩ := hz
        exact ⟨msg, ⟨List.mem_flatMap.mpr ⟨b, hb, List.mem_map.mpr hmsg⟩, hkey⟩, rfl⟩
      exact hagree id x y (hsub _ hx) (hsub _ hy)
    have hwrites : b.writes s' = b.keyed.filterMap (writeOf s') := by
      rw [Batch.writes, mergeRowsInto_eq]
      rfl
    rw [hwrites]
    exact ⟨final_of_orderly hagreeOn, orderly_of_final⟩

/-! ## One message twice in a batch -/

def copyOf (text : Option String) : Incoming ChannelExtra where
  msg :=
    { id := "m", place := "c", senderId := "u", callsign := none, encryptedContent := "x",
      plaintext := text, timestamp := "2026-01-01T00:00:00.000Z", receivedAt := none,
      failReason := none, attempts := none, relayedBy := none, extra := ⟨none, none⟩ }
  now := "2026-01-01T00:00:01.000Z"

theorem chat_merge_converges_two_orders :
    (writeAll Store.empty [⟨none, [copyOf none]⟩, ⟨none, [copyOf (some "hi")]⟩]).cell "m" =
      (writeAll Store.empty [⟨none, [copyOf (some "hi")]⟩, ⟨none, [copyOf none]⟩]).cell "m" := by
  refine (@chat_merge_converges _ Store.empty
    [⟨none, [copyOf none]⟩, ⟨none, [copyOf (some "hi")]⟩]
    [⟨none, [copyOf (some "hi")]⟩, ⟨none, [copyOf none]⟩] ?_ ?_).1 ?_ ?_ "m"
  · intro msg
    simp [handed, or_comm]
  · intro id a b ha hb
    by_cases h : id = "m"
    · subst h
      have ha' : some a ∈ [none, some "hi"] := ha
      have hb' : some b ∈ [none, some "hi"] := hb
      simp at ha' hb'
      rw [ha', hb']
    · have hnone : textsOf id (handed [⟨none, [copyOf none]⟩, ⟨none, [copyOf (some "hi")]⟩]) =
          [] := by
        have hkey : ∀ text, (copyOf text).msg.key = some ("m", "2026-01-01T00:00:00.000Z") :=
          fun text => rfl
        simp [textsOf, handed, hkey, Ne.symm h]
      simp [hnone] at ha
  · exact ⟨List.pairwise_singleton _ _, List.pairwise_singleton _ _, trivial⟩
  · exact ⟨List.pairwise_singleton _ _, List.pairwise_singleton _ _, trivial⟩

/-- A readable copy before an unreadable one in one batch is lost, in two batches it
stays. -/
theorem batch_loses_text :
    (writeAll Store.empty [⟨none, [copyOf (some "hi"), copyOf none]⟩]).cell "m" = .blank ∧
      (writeAll Store.empty [⟨none, [copyOf (some "hi")]⟩, ⟨none, [copyOf none]⟩]).cell "m" =
        .filled "hi" :=
  ⟨by decide, by decide⟩

end SpecterComs.Chat
