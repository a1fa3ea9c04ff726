import SpecterComs.Model.Chat.Sync
import SpecterComs.Verification.Chat.Dates

/-! # Where a catch-up continues

With timestamps in the server's format the orders of `localeCompare`, of the index and of
time are one. What is asked for then starts below a message exactly where nothing held
hides it.
-/

namespace SpecterComs.Chat

/-! ## Timestamps in the server's format -/

/-- A time from 1970 on whose year has four digits. -/
def Stamp (t : ℤ) : Prop :=
  0 ≤ t ∧ t < 253402300800000

instance (t : ℤ) : Decidable (Stamp t) :=
  inferInstanceAs (Decidable (_ ∧ _))

theorem Stamp.fourDigits {t : ℤ} (h : Stamp t) : FourDigits t := by
  unfold Stamp at h
  unfold FourDigits
  omega

/-- What the platform does with the timestamps the server writes. -/
structure Platform.Lawful (platform : Platform) : Prop where
  parse : ∀ t, Stamp t → platform.dateParse (toISOString t) = some t
  compare : ∀ t u, Stamp t → Stamp u →
    platform.localeCompare (toISOString t) (toISOString u) = compare t u

open Classical in
/-- A platform that knows the dates of the server's format and orders them as strings. -/
noncomputable def isoPlatform : Platform where
  localeCompare a b := if before a b then .lt else if before b a then .gt else .eq
  dateParse s := if h : ∃ t, Stamp t ∧ toISOString t = s then some h.choose else none

theorem isoPlatform_lawful : isoPlatform.Lawful where
  parse t ht := by
    have h : ∃ u, Stamp u ∧ toISOString u = toISOString t := ⟨t, ht, rfl⟩
    have heq : h.choose = t :=
      toISOString_inj h.choose_spec.1.fourDigits ht.fourDigits h.choose_spec.2
    simp only [isoPlatform, dif_pos h, heq]
  compare t u ht hu := by
    simp only [isoPlatform, before_toISOString ht.fourDigits hu.fourDigits,
      before_toISOString hu.fourDigits ht.fourDigits]
    rcases lt_trichotomy t u with hlt | heq | hlt
    · rw [if_pos hlt, compare_lt_iff_lt.mpr hlt]
    · rw [if_neg (by omega), if_neg (by omega), heq, compare_eq_iff_eq.mpr rfl]
    · rw [if_neg (by omega), if_pos hlt, compare_gt_iff_gt.mpr hlt]

/-- A timestamp as `new Date().toISOString()` writes it. -/
def Dated (timestamp : String) : Prop :=
  ∃ t, Stamp t ∧ timestamp = toISOString t

def timeOf (platform : Platform) (timestamp : String) : ℤ :=
  (platform.dateParse timestamp).getD 0

variable {platform : Platform} {Extra : Type}

def Row.time (platform : Platform) (row : Row Extra) : ℤ :=
  timeOf platform row.timestamp

theorem timeOf_toISOString (hp : platform.Lawful) {t : ℤ} (h : Stamp t) :
    timeOf platform (toISOString t) = t := by
  rw [timeOf, hp.parse t h, Option.getD_some]

variable {a channelId : String}

theorem Dated.stamp (hp : platform.Lawful) (h : Dated a) :
    Stamp (timeOf platform a) ∧ a = toISOString (timeOf platform a) := by
  obtain ⟨t, ht, rfl⟩ := h
  rw [timeOf_toISOString hp ht]
  exact ⟨ht, rfl⟩

theorem Dated.parse (hp : platform.Lawful) (h : Dated a) :
    platform.dateParse a = some (timeOf platform a) := by
  obtain ⟨ht, ha⟩ := h.stamp hp
  rw [ha, hp.parse _ ht, timeOf_toISOString hp ht]

theorem before_iff (hp : platform.Lawful) {b : String} (ha : Dated a) (hb : Dated b) :
    before a b ↔ timeOf platform a < timeOf platform b := by
  obtain ⟨hta, ha⟩ := ha.stamp hp
  obtain ⟨htb, hb⟩ := hb.stamp hp
  rw [ha, hb, before_toISOString hta.fourDigits htb.fourDigits, timeOf_toISOString hp hta,
    timeOf_toISOString hp htb]

/-- No date of the format comes after the end of the index range. -/
theorem not_before_end (h : Dated a) : before "\uFFFF" a = false := by
  obtain ⟨t, ht, rfl⟩ := h
  obtain ⟨hlow, hhigh⟩ := year_four_digits.mpr ht.fourDigits
  rw [before, decide_eq_false_iff_not, utf16_toISOString hlow hhigh]
  have hhead : ∃ n rest, code 4 (momentOf t).year.toNat = n :: rest ∧ n < 65535 := by
    refine ⟨_, _, rfl, ?_⟩
    have hascii : ∀ k < 10, (Nat.digitChar k).toNat < 65535 := by decide
    exact hascii _ (Nat.mod_lt _ (by norm_num))
  obtain ⟨n, rest, hcode, hn⟩ := hhead
  have hend : utf16 "\uFFFF" = [65535] := by decide
  rw [hcode, hend, List.cons_append, List.cons_lt_cons_iff]
  omega

/-! ## Sorted rows -/

def AllDated (rows : List (Row Extra)) : Prop :=
  ∀ row ∈ rows, Dated row.timestamp

variable {rows : List (Row Extra)}

theorem sortByTimestamp_perm : (sortByTimestamp platform rows).Perm rows :=
  List.mergeSort_perm _ _

variable {row : Row Extra}

theorem mem_sortByTimestamp : row ∈ sortByTimestamp platform rows ↔ row ∈ rows :=
  sortByTimestamp_perm.mem_iff

theorem sortByTimestamp_sorted (hp : platform.Lawful) (h : AllDated rows) :
    (sortByTimestamp platform rows).Pairwise fun a b => a.time platform ≤ b.time platform := by
  have hmap : (sortByTimestamp platform rows).map (Row.time platform) =
      (rows.map (Row.time platform)).mergeSort fun a b => decide (a ≤ b) := by
    apply List.map_mergeSort
    intro a ha b hb
    obtain ⟨hta, heqa⟩ := (h a ha).stamp hp
    obtain ⟨htb, heqb⟩ := (h b hb).stamp hp
    rw [heqa, heqb, hp.compare _ _ hta htb, Bool.eq_iff_iff]
    simp only [bne_iff_ne, ne_eq, compare_gt_iff_gt, not_lt, decide_eq_true_eq]
    rfl
  have hsorted : ((rows.map (Row.time platform)).mergeSort fun a b => decide (a ≤ b)).Pairwise
      fun a b => decide (a ≤ b) :=
    List.pairwise_mergeSort (fun a b c hab hbc => by
      simp only [decide_eq_true_eq] at hab hbc ⊢
      omega) (fun a b => by
      simp only [Bool.or_eq_true, decide_eq_true_eq]
      omega) _
  rw [← hmap, List.pairwise_map] at hsorted
  exact hsorted.imp fun hab => by simpa using hab

/-- The last of the sorted rows is newest. -/
theorem le_of_getLast? {last : Row Extra}
    (hsorted : rows.Pairwise fun a b => a.time platform ≤ b.time platform)
    (hlast : rows.getLast? = some last) : ∀ row ∈ rows, row.time platform ≤ last.time platform := by
  obtain ⟨front, rfl⟩ := List.getLast?_eq_some_iff.mp hlast
  intro row hrow
  rcases List.mem_append.mp hrow with hfront | hlast
  · exact (List.pairwise_append.mp hsorted).2.2 row hfront last (by simp)
  · rw [List.mem_singleton.mp hlast]

/-- The first row of a kind is the oldest of it. -/
theorem le_of_find? {kind : Row Extra → Bool} {first : Row Extra}
    (hsorted : rows.Pairwise fun a b => a.time platform ≤ b.time platform)
    (hfirst : rows.find? kind = some first) :
    ∀ row ∈ rows, kind row → first.time platform ≤ row.time platform := by
  obtain ⟨-, front, back, rfl, hfront⟩ := List.find?_eq_some_iff_append.mp hfirst
  intro row hrow hkind
  rcases List.mem_append.mp hrow with hrow | hrow
  · simpa [hkind] using hfront row hrow
  · rcases List.mem_cons.mp hrow with rfl | hrow
    · exact le_rfl
    · exact List.rel_of_pairwise_cons (List.pairwise_append.mp hsorted).2.1 hrow

/-! ## The rows that are looked at -/

def channelRows (s : Store Extra) (channelId : String) : List (Row Extra) :=
  s.rows.filter fun row => row.place == some channelId

variable {s : Store Extra}

theorem mem_channelRows :
    row ∈ channelRows s channelId ↔ row ∈ s.rows ∧ row.place = some channelId := by
  simp [channelRows]

theorem indexRange_perm (h : AllDated (channelRows s channelId)) :
    (indexRange s channelId none).Perm (channelRows s channelId) := by
  refine (List.mergeSort_perm _ _).trans ?_
  rw [channelRows]
  apply List.Perm.of_eq
  apply List.filter_congr
  intro row hrow
  by_cases hplace : row.place = some channelId
  · simp [hplace, not_before_end (h row (mem_channelRows.mpr ⟨hrow, hplace⟩))]
  · simp [hplace]

variable {n : ℕ}

theorem mem_lastOf {α : Type} {xs : List α} {x : α} (h : x ∈ lastOf n xs) : x ∈ xs :=
  List.mem_of_mem_drop h

/-- The sorted rows of a channel. -/
def sortedRows (platform : Platform) (s : Store Extra) (channelId : String) : List (Row Extra) :=
  sortByTimestamp platform (indexRange s channelId none)

theorem sortedRows_perm (h : AllDated (channelRows s channelId)) :
    (sortedRows platform s channelId).Perm (channelRows s channelId) :=
  sortByTimestamp_perm.trans (indexRange_perm h)

theorem sortedRows_sorted (hp : platform.Lawful) (h : AllDated (channelRows s channelId)) :
    (sortedRows platform s channelId).Pairwise fun a b => a.time platform ≤ b.time platform :=
  sortByTimestamp_sorted hp fun row hrow => h row ((indexRange_perm h).mem_iff.mp hrow)

theorem getChannelMessages_eq :
    getChannelMessages platform s channelId n = lastOf n (sortedRows platform s channelId) := rfl

/-- The newest `n` rows are some of the channel's. -/
theorem mem_channelRows_of_read (h : AllDated (channelRows s channelId))
    (hrow : row ∈ getChannelMessages platform s channelId n) : row ∈ channelRows s channelId :=
  (sortedRows_perm h).mem_iff.mp (mem_lastOf hrow)

/-- A row is read where at most `n` rows, itself among them, are not older. -/
theorem mem_read_of_count (hp : platform.Lawful) {u : Row Extra}
    (h : AllDated (channelRows s channelId)) (hu : u ∈ channelRows s channelId)
    (hcount : (channelRows s channelId).countP (fun row => decide (u.time platform ≤ row.time platform)) ≤ n) :
    u ∈ getChannelMessages platform s channelId n := by
  rw [getChannelMessages_eq, lastOf]
  by_contra hmem
  have hsorted := sortedRows_sorted hp h
  rw [← (sortedRows_perm h).countP_eq] at hcount
  have hu' : u ∈ sortedRows platform s channelId := (sortedRows_perm h).mem_iff.mpr hu
  generalize sortedRows platform s channelId = rows at *
  rw [← List.take_append_drop (rows.length - n) rows] at hsorted hcount hu'
  have hfront : u ∈ rows.take (rows.length - n) :=
    (List.mem_append.mp hu').resolve_right hmem
  have hback : (rows.drop (rows.length - n)).countP
      (fun row => decide (u.time platform ≤ row.time platform)) =
        (rows.drop (rows.length - n)).length := by
    rw [List.countP_eq_length]
    intro row hrow
    simpa using (List.pairwise_append.mp hsorted).2.2 u hfront row hrow
  have hself : 0 < (rows.take (rows.length - n)).countP
      (fun row => decide (u.time platform ≤ row.time platform)) :=
    List.countP_pos_iff.mpr ⟨u, hfront, by simp⟩
  have hpos : 0 < rows.length - n := by
    by_contra hzero
    simp [Nat.eq_zero_of_not_pos hzero] at hfront
  rw [List.countP_append, hback, List.length_drop] at hcount
  omega

/-! ## What is asked for -/

/-- Nothing the device holds of the channel hides what it misses at time `t`: it is newer
than all of it, or one of the rows looked at is unreadable and not newer. -/
def Ahead (platform : Platform) (s : Store Extra) (channelId : String) (t : ℤ) : Prop :=
  (∀ row ∈ channelRows s channelId, row.time platform < t) ∨
    ∃ u ∈ channelRows s channelId, u.isReadable = false ∧ u.time platform ≤ t ∧
      (channelRows s channelId).countP
        (fun row => decide (u.time platform ≤ row.time platform)) ≤ storeWindow

/-- What the device asks its peers since. -/
def sinceOf (platform : Platform) (s : Store Extra) (channelId : String) : Option String :=
  computeSyncSince platform (getChannelMessages platform s channelId storeWindow)

/-- With all rows readable the newest of them is where a request starts. -/
theorem sinceOf_readable (hp : platform.Lawful) (h : AllDated (channelRows s channelId))
    (hreadable : ∀ row ∈ channelRows s channelId, row.isReadable) {own : Row Extra}
    (hown : own ∈ channelRows s channelId) :
    ∃ last ∈ channelRows s channelId, sinceOf platform s channelId = some last.timestamp ∧
      own.time platform ≤ last.time platform := by
  have hread : ∀ row ∈ getChannelMessages platform s channelId storeWindow,
      row ∈ channelRows s channelId := fun row hrow => mem_channelRows_of_read h hrow
  have hsorted := sortByTimestamp_sorted hp fun row hrow => h row (hread row hrow)
  -- the newest row is one of those looked at
  have hnewest : ∃ last ∈ getChannelMessages platform s channelId storeWindow,
      own.time platform ≤ last.time platform := by
    have hmem : own ∈ sortedRows platform s channelId := (sortedRows_perm h).mem_iff.mpr hown
    cases hlast : (sortedRows platform s channelId).getLast? with
    | none =>
        rw [List.getLast?_eq_none_iff] at hlast
        simp [hlast] at hmem
    | some last =>
        refine ⟨last, ?_, le_of_getLast? (sortedRows_sorted hp h) hlast own hmem⟩
        obtain ⟨front, hfront⟩ := List.getLast?_eq_some_iff.mp hlast
        rw [getChannelMessages_eq, lastOf, hfront]
        apply List.mem_of_getLast?
        have hread : ¬(front ++ [last]).length ≤ (front ++ [last]).length - storeWindow := by
          simp only [List.length_append, List.length_singleton, storeWindow]
          omega
        rw [List.getLast?_drop, if_neg hread, List.getLast?_concat]
  obtain ⟨newest, hnewest, hle⟩ := hnewest
  have hnone : (sortByTimestamp platform (getChannelMessages platform s channelId
      storeWindow)).find? (fun row => !row.isReadable) = none := by
    rw [List.find?_eq_none]
    intro row hrow
    simp [hreadable row (hread row (mem_sortByTimestamp.mp hrow))]
  cases hlast : (sortByTimestamp platform (getChannelMessages platform s channelId
      storeWindow)).getLast? with
  | none =>
      rw [List.getLast?_eq_none_iff] at hlast
      have hmem : newest ∈ sortByTimestamp platform (getChannelMessages platform s channelId
          storeWindow) := mem_sortByTimestamp.mpr hnewest
      simp [hlast] at hmem
  | some last =>
      refine ⟨last, hread last (mem_sortByTimestamp.mp (List.mem_of_getLast? hlast)), ?_, ?_⟩
      · unfold sinceOf computeSyncSince
        simp only
        rw [hnone, Option.bind_none, hlast]
        rfl
      · exact hle.trans (le_of_getLast? hsorted hlast newest (mem_sortByTimestamp.mpr hnewest))

/-- What nothing hides is asked for. -/
theorem since_of_ahead (hp : platform.Lawful) (h : AllDated (channelRows s channelId))
    {timestamp : String} (hdated : Dated timestamp)
    (hahead : Ahead platform s channelId (timeOf platform timestamp)) :
    ∀ since ∈ sinceOf platform s channelId, before since timestamp := by
  have hread : ∀ row ∈ getChannelMessages platform s channelId storeWindow,
      row ∈ channelRows s channelId := fun row hrow => mem_channelRows_of_read h hrow
  have hdates : AllDated (getChannelMessages platform s channelId storeWindow) :=
    fun row hrow => h row (hread row hrow)
  have hsorted := sortByTimestamp_sorted hp hdates
  intro since hsince
  unfold sinceOf computeSyncSince at hsince
  simp only at hsince
  cases hfind : (sortByTimestamp platform (getChannelMessages platform s channelId
      storeWindow)).find? fun row => !row.isReadable with
  | some u =>
      have humem := mem_sortByTimestamp.mp (List.mem_of_find?_eq_some hfind)
      have hu : u.time platform ≤ timeOf platform timestamp := by
        rcases hahead with hall | ⟨v, hv, hunreadable, hle, hcount⟩
        · exact (hall u (hread u humem)).le
        · have hvmem := mem_read_of_count hp h hv hcount
          have hfirst := le_of_find? hsorted hfind v (mem_sortByTimestamp.mpr hvmem)
            (by simp [hunreadable])
          exact hfirst.trans hle
      have hparse := (hdates u humem).parse hp
      have hstamp := ((hdates u humem).stamp hp).1
      change platform.dateParse u.timestamp = some (u.time platform) at hparse
      change Stamp (u.time platform) at hstamp
      rw [hfind, Option.bind_some, hparse] at hsince
      simp only at hsince
      split_ifs at hsince with hpos
      · have hstamp' : Stamp (u.time platform - 1) := by
          unfold Stamp at *
          omega
        obtain rfl : toISOString (u.time platform - 1) = since := Option.some.inj hsince
        rw [before_iff hp ⟨_, hstamp', rfl⟩ hdated, timeOf_toISOString hp hstamp']
        omega
      · cases hsince
  | none =>
      rw [hfind, Option.bind_none] at hsince
      simp only at hsince
      obtain ⟨last, hlast, rfl⟩ := Option.map_eq_some_iff.mp hsince
      have hlastmem := mem_sortByTimestamp.mp (List.mem_of_getLast? hlast)
      rw [before_iff hp (hdates last hlastmem) hdated]
      rcases hahead with hall | ⟨v, hv, hunreadable, hle, hcount⟩
      · exact hall last (hread last hlastmem)
      · have hvmem : v ∈ sortByTimestamp platform (getChannelMessages platform s channelId
            storeWindow) := mem_sortByTimestamp.mpr (mem_read_of_count hp h hv hcount)
        have hreadable := List.find?_eq_none.mp hfind v hvmem
        simp [hunreadable] at hreadable

end SpecterComs.Chat
