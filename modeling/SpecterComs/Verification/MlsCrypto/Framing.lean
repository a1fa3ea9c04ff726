import SpecterComs.Model.MlsCrypto.Framing

/-! # Framed lists read back

What one round of the decoder does with the bytes that are left, and from it the round trip, exact
acceptance, and the buffers on which the decoder panics.
-/

namespace SpecterComs.Framing

variable {checks : Bool} {front rest tail entry : Bytes} {rounds : ℕ} {out items : List Bytes}

/-! ## Length prefixes -/

@[simp] theorem length_toLeBytes (n : ℕ) : (toLeBytes n).length = 4 := rfl

variable {n len offset : ℕ}

theorem fromLeBytes_toLeBytes (h : n < 2 ^ 32) (tail : Bytes) :
    fromLeBytes (toLeBytes n ++ tail) = n := by
  simp only [toLeBytes, List.cons_append, fromLeBytes, UInt8.toNat_ofNat']
  omega

theorem toLeBytes_fromLeBytes (a b c d : UInt8) :
    toLeBytes (fromLeBytes [a, b, c, d]) = [a, b, c, d] := by
  have ha := a.toNat_lt
  have hb := b.toNat_lt
  have hc := c.toNat_lt
  have hd := d.toNat_lt
  simp only [toLeBytes, fromLeBytes, List.cons.injEq, and_true, ← UInt8.toNat_inj,
    UInt8.toNat_ofNat']
  omega

theorem toLeBytes_inj {m : ℕ} (hm : m < 2 ^ 32) (hn : n < 2 ^ 32)
    (h : toLeBytes m ++ rest = toLeBytes n ++ tail) : m = n := by
  have hread := congrArg fromLeBytes h
  rwa [fromLeBytes_toLeBytes hm, fromLeBytes_toLeBytes hn] at hread

/-- What is left is too short for a length prefix, or begins with one. -/
theorem header_cases (rest : Bytes) :
    rest.length < 4 ∨ ∃ len tail, len < 2 ^ 32 ∧ rest = toLeBytes len ++ tail := by
  match rest with
  | [] | [_] | [_, _] | [_, _, _] => simp
  | a :: b :: c :: d :: tail =>
      right
      refine ⟨fromLeBytes [a, b, c, d], tail, ?_, ?_⟩
      · have ha := a.toNat_lt
        have hb := b.toNat_lt
        have hc := c.toNat_lt
        have hd := d.toNat_lt
        simp only [fromLeBytes]
        omega
      · simp [toLeBytes_fromLeBytes]

theorem frameItem_eq (h : entry.length < 2 ^ 32) : frameItem entry = toLeBytes entry.length ++ entry := by
  rw [frameItem, Nat.mod_eq_of_lt h]

@[simp] theorem length_frameItem (entry : Bytes) : (frameItem entry).length = 4 + entry.length := by
  simp [frameItem]

/-! ## One round -/

theorem usizeAdd_of_lt {a b : ℕ} (h : a + b < 2 ^ 32) : usizeAdd checks a b = some (a + b) :=
  if_pos h

theorem decodeFrom_done : decodeFrom checks front rounds front.length out = some (.ok out) := by
  cases rounds <;> simp [decodeFrom]

theorem decodeFrom_short (hpos : 0 < rest.length) (hshort : rest.length < 4)
    (hbuffer : (front ++ rest).length < 2 ^ 31) :
    decodeFrom checks (front ++ rest) (rounds + 1) front.length out =
      some (.error "truncated length prefix in framed buffer") := by
  rw [List.length_append] at hbuffer
  have hadd : usizeAdd checks front.length 4 = some (front.length + 4) := usizeAdd_of_lt (by omega)
  simp [decodeFrom, hadd, hpos, hshort]

/-- A round past the length prefix. -/
theorem decodeFrom_header (hlen : len < 2 ^ 32)
    (hbuffer : (front ++ (toLeBytes len ++ tail)).length < 2 ^ 31) :
    decodeFrom checks (front ++ (toLeBytes len ++ tail)) (rounds + 1) front.length out =
      (usizeAdd checks (front.length + 4) len).bind fun stop =>
        if (front ++ (toLeBytes len ++ tail)).length < stop then
          some (.error "truncated entry in framed buffer")
        else
          (slice (front ++ (toLeBytes len ++ tail)) (front.length + 4) stop).bind fun entry =>
            decodeFrom checks (front ++ (toLeBytes len ++ tail)) rounds stop (out ++ [entry]) := by
  simp only [List.length_append, length_toLeBytes] at hbuffer
  have hadd : usizeAdd checks front.length 4 = some (front.length + 4) := usizeAdd_of_lt (by omega)
  have hpos : 0 < 4 + tail.length := by omega
  have hwhole : ¬ 4 + tail.length < 4 := by omega
  simp [decodeFrom, hadd, fromLeBytes_toLeBytes hlen, hpos, hwhole]

/-- The end of the entry does not fit into a `usize`. Without overflow checks it wraps around to a
place before its start, and the slice panics. -/
theorem decodeFrom_overflow (hlen : len < 2 ^ 32)
    (hbuffer : (front ++ (toLeBytes len ++ tail)).length < 2 ^ 31)
    (hover : 2 ^ 32 ≤ front.length + 4 + len) :
    decodeFrom checks (front ++ (toLeBytes len ++ tail)) (rounds + 1) front.length out = none := by
  rw [decodeFrom_header hlen hbuffer]
  have hadd : ¬ front.length + 4 + len < 2 ^ 32 := by omega
  cases checks with
  | true => rw [usizeAdd, if_neg hadd, if_pos rfl, Option.bind_none]
  | false =>
      have hstop : (front.length + 4 + len) % 2 ^ 32 < front.length + 4 := by omega
      generalize hwrapped : (front.length + 4 + len) % 2 ^ 32 = stop at hstop
      have hslice : slice (front ++ (toLeBytes len ++ tail)) (front.length + 4) stop = none :=
        if_neg (by omega)
      have hshort : ¬ (front ++ (toLeBytes len ++ tail)).length < stop := by
        simp only [List.length_append, length_toLeBytes]
        omega
      simp only [usizeAdd, if_neg hadd, Bool.false_eq_true, if_false, hwrapped, Option.bind_some,
        if_neg hshort, hslice, Option.bind_none]

theorem decodeFrom_truncated (hlen : len < 2 ^ 32)
    (hbuffer : (front ++ (toLeBytes len ++ tail)).length < 2 ^ 31)
    (hfits : front.length + 4 + len < 2 ^ 32) (htail : tail.length < len) :
    decodeFrom checks (front ++ (toLeBytes len ++ tail)) (rounds + 1) front.length out =
      some (.error "truncated entry in framed buffer") := by
  have hshort : (front ++ (toLeBytes len ++ tail)).length < front.length + 4 + len := by
    simp only [List.length_append, length_toLeBytes]
    omega
  rw [decodeFrom_header hlen hbuffer, usizeAdd_of_lt hfits, Option.bind_some, if_pos hshort]

theorem decodeFrom_entry (hbuffer : (front ++ (frameItem entry ++ tail)).length < 2 ^ 31) :
    decodeFrom checks (front ++ (frameItem entry ++ tail)) (rounds + 1) front.length out =
      decodeFrom checks (front ++ (frameItem entry ++ tail)) rounds
        (front ++ frameItem entry).length (out ++ [entry]) := by
  have hlength : front.length + (4 + entry.length + tail.length) < 2 ^ 31 := by
    simpa using hbuffer
  have hlen : entry.length < 2 ^ 32 := by omega
  rw [frameItem_eq hlen, List.append_assoc] at hbuffer ⊢
  have hslice : slice (front ++ (toLeBytes entry.length ++ (entry ++ tail))) (front.length + 4)
      (front.length + 4 + entry.length) = some entry := by
    have hbound : front.length + 4 + entry.length ≤
        (front ++ (toLeBytes entry.length ++ (entry ++ tail))).length := by
      simp only [List.length_append, length_toLeBytes]
      omega
    rw [slice, if_pos ⟨by omega, hbound⟩]
    simp [List.take_append, List.drop_append, Nat.add_assoc]
  have hwhole : ¬ (front ++ (toLeBytes entry.length ++ (entry ++ tail))).length <
      front.length + 4 + entry.length := by
    simp only [List.length_append, length_toLeBytes]
    omega
  rw [decodeFrom_header hlen hbuffer, usizeAdd_of_lt (by omega), Option.bind_some, if_neg hwhole,
    hslice, Option.bind_some]
  simp [Nat.add_assoc]

/-! ## Whole buffers -/

/-- Where the bytes begin with whole entries, the end of the entry behind them fits into a `usize`,
whatever its length prefix says. -/
def PrefixesFit (offset : ℕ) (rest : Bytes) : Prop :=
  ∀ items len tail, len < 2 ^ 32 → rest = frameBytesList items ++ (toLeBytes len ++ tail) →
    offset + (frameBytesList items).length + 4 + len < 2 ^ 32

theorem prefixesFit_short (h : rest.length < 4) : PrefixesFit offset rest := by
  intro items len tail _ hrest
  have hlength := congrArg List.length hrest
  simp only [List.length_append, length_toLeBytes] at hlength
  omega

/-- Entries that begin with a length prefix begin with the entry it announces. -/
theorem frameBytesList_header {len' : ℕ} {tail' : Bytes} (hlen : len < 2 ^ 32)
    (hbuffer : (toLeBytes len ++ tail).length < 2 ^ 32)
    (h : toLeBytes len ++ tail = frameBytesList items ++ (toLeBytes len' ++ tail')) :
    items = [] ∨ ∃ entry items', items = entry :: items' ∧ entry.length = len ∧
      tail = entry ++ (frameBytesList items' ++ (toLeBytes len' ++ tail')) := by
  cases items with
  | nil => exact .inl rfl
  | cons entry items' =>
      right
      have hentry : entry.length < 2 ^ 32 := by
        rw [h] at hbuffer
        simp only [frameBytesList, List.length_append, length_frameItem] at hbuffer
        omega
      rw [frameBytesList, frameItem_eq hentry, List.append_assoc, List.append_assoc] at h
      have hsame := toLeBytes_inj hlen hentry h
      rw [← hsame] at h
      exact ⟨entry, items', rfl, hsame.symm, List.append_cancel_left h⟩

theorem prefixesFit_header (hlen : len < 2 ^ 32) :
    PrefixesFit offset (toLeBytes len ++ tail) → offset + 4 + len < 2 ^ 32 := by
  intro h
  simpa [frameBytesList] using h [] len tail hlen rfl

theorem prefixesFit_truncated (hlen : len < 2 ^ 32)
    (hbuffer : (toLeBytes len ++ tail).length < 2 ^ 32) (hfits : offset + 4 + len < 2 ^ 32)
    (htail : tail.length < len) : PrefixesFit offset (toLeBytes len ++ tail) := by
  intro items len' tail' hlen' hrest
  rcases frameBytesList_header hlen hbuffer hrest with rfl | ⟨entry, items', -, hentry, htail'⟩
  · have hsame := toLeBytes_inj hlen hlen' hrest
    simpa [frameBytesList, ← hsame] using hfits
  · have hlength := congrArg List.length htail'
    simp only [List.length_append] at hlength
    omega

theorem prefixesFit_entry (hbuffer : (frameItem entry ++ tail).length < 2 ^ 32)
    (hfits : offset + 4 + entry.length < 2 ^ 32) :
    PrefixesFit offset (frameItem entry ++ tail) ↔
      PrefixesFit (offset + (frameItem entry).length) tail := by
  have hentry : entry.length < 2 ^ 32 := by omega
  constructor
  · intro h items len tail' hlen hrest
    have hfirst := h (entry :: items) len tail' hlen (by rw [hrest, frameBytesList, List.append_assoc])
    simp only [frameBytesList, List.length_append] at hfirst
    omega
  · intro h items len tail' hlen hrest
    rw [frameItem_eq hentry, List.append_assoc] at hbuffer hrest
    rcases frameBytesList_header hentry hbuffer hrest with rfl | ⟨first, items', rfl, hfirst, htail⟩
    · have hsame := toLeBytes_inj hentry hlen hrest
      simpa [frameBytesList, ← hsame] using hfits
    · obtain ⟨rfl, rfl⟩ := List.append_inj htail hfirst.symm
      have hlater := h items' len tail' hlen rfl
      simp only [frameBytesList, List.length_append]
      omega

/-- The rounds that are left read the rest of the buffer. -/
theorem decodeFrom_spec (checks : Bool) (front : Bytes) (out : List Bytes)
    (hbuffer : (front ++ rest).length < 2 ^ 31)
    (hrounds : rest.length ≤ rounds) :
    ((decodeFrom checks (front ++ rest) rounds front.length out).isSome ↔
        PrefixesFit front.length rest) ∧
      ∀ items, decodeFrom checks (front ++ rest) rounds front.length out = some (.ok items) →
        ∃ items', items = out ++ items' ∧ rest = frameBytesList items' := by
  induction rounds generalizing front rest out with
  | zero =>
      obtain rfl : rest = [] := by simpa using hrounds
      rw [List.append_nil, decodeFrom_done]
      exact ⟨iff_of_true rfl (prefixesFit_short (by simp)), by rintro _ ⟨⟩; exact ⟨[], by simp, rfl⟩⟩
  | succ rounds ih =>
      rcases header_cases rest with hshort | ⟨len, tail, hlen, rfl⟩
      · cases rest with
        | nil =>
            rw [List.append_nil, decodeFrom_done]
            exact ⟨iff_of_true rfl (prefixesFit_short hshort),
              by rintro _ ⟨⟩; exact ⟨[], by simp, rfl⟩⟩
        | cons b rest =>
            rw [decodeFrom_short (by simp) hshort hbuffer]
            exact ⟨iff_of_true rfl (prefixesFit_short hshort), nofun⟩
      · have hlength : (toLeBytes len ++ tail).length < 2 ^ 32 := by
          rw [List.length_append] at hbuffer
          omega
        by_cases hfits : front.length + 4 + len < 2 ^ 32
        · by_cases htail : tail.length < len
          · rw [decodeFrom_truncated hlen hbuffer hfits htail]
            exact ⟨iff_of_true rfl (prefixesFit_truncated hlen hlength hfits htail), nofun⟩
          · -- a whole entry follows, and the next round reads on behind it
            obtain ⟨entry, tail, rfl, rfl⟩ : ∃ entry tail', tail = entry ++ tail' ∧ entry.length = len :=
              ⟨tail.take len, tail.drop len, by simp, by simp; omega⟩
            have hitem : toLeBytes entry.length ++ (entry ++ tail) = frameItem entry ++ tail := by
              rw [frameItem_eq hlen, List.append_assoc]
            rw [hitem] at hbuffer hrounds hlength ⊢
            rw [decodeFrom_entry hbuffer, prefixesFit_entry hlength hfits, ← List.append_assoc]
            rw [← List.append_assoc] at hbuffer
            have hrest : tail.length ≤ rounds := by
              simp only [List.length_append, length_frameItem] at hrounds
              omega
            obtain ⟨hreturns, hreads⟩ := ih _ (out ++ [entry]) hbuffer hrest
            rw [List.length_append] at hreturns
            refine ⟨by simpa using hreturns, fun items hitems => ?_⟩
            obtain ⟨items', rfl, rfl⟩ := hreads items hitems
            exact ⟨entry :: items', by simp, rfl⟩
        · rw [decodeFrom_overflow hlen hbuffer (by omega)]
          exact ⟨iff_of_false (by simp) fun h => hfits (prefixesFit_header hlen h), nofun⟩

theorem decodeFrom_frameBytesList (checks : Bool) (front : Bytes) (out : List Bytes)
    (hbuffer : (front ++ frameBytesList items).length < 2 ^ 31)
    (hrounds : (frameBytesList items).length ≤ rounds) :
    decodeFrom checks (front ++ frameBytesList items) rounds front.length out =
      some (.ok (out ++ items)) := by
  induction items generalizing front rounds out with
  | nil => simp [frameBytesList, decodeFrom_done]
  | cons item items ih =>
      simp only [frameBytesList, List.length_append, length_frameItem] at hrounds
      obtain ⟨rounds, rfl⟩ : ∃ r, rounds = r + 1 := ⟨rounds - 1, by omega⟩
      rw [frameBytesList] at hbuffer ⊢
      rw [decodeFrom_entry hbuffer, ← List.append_assoc]
      rw [← List.append_assoc] at hbuffer
      rw [ih _ _ hbuffer (by omega)]
      simp

/-- A framed list reads back as it is, and what reads as a list is that list's framing. The decoder
returns exactly on the buffers all of whose length prefixes fit. -/
theorem decodes_framed_iff (checks : Bool) :
    (∀ keyPackages framed, frameKeyPackages keyPackages = some framed →
        decodeFramed checks framed = some (.ok (keyPackages.map Subtype.val))) ∧
      ∀ bytes : Buffer,
        ((∀ items, decodeFramed checks bytes = some (.ok items) → bytes = frameBytesList items) ∧
          (decodeFramed checks bytes).isSome) ↔ PrefixesFit 0 bytes := by
  constructor
  · intro keyPackages framed h
    obtain ⟨hlength, h⟩ := Option.dite_none_right_eq_some.mp h
    cases h
    exact decodeFrom_frameBytesList checks [] [] hlength (Nat.le_refl _)
  · intro bytes
    have hspec := decodeFrom_spec checks [] [] bytes.property (Nat.le_refl _)
    constructor
    · intro h
      exact hspec.1.mp h.2
    · intro h
      refine ⟨fun items hitems => ?_, hspec.1.mpr h⟩
      obtain ⟨_, rfl, hrest⟩ := hspec.2 items hitems
      exact hrest

/-- A length prefix of `u32::MAX`. -/
theorem decode_framed_panics :
    decodeFramed false ⟨[0xFF, 0xFF, 0xFF, 0xFF], by decide⟩ = none ∧
      decodeFramed true ⟨[0xFF, 0xFF, 0xFF, 0xFF], by decide⟩ = none := by
  constructor <;> decide

end SpecterComs.Framing
