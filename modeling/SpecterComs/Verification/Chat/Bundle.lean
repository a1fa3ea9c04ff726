import SpecterComs.Model.Chat.Bundle
import SpecterComs.Verification.Chat.Answers

/-! # The codec of bundles

A chunk's text is as long as `chunkBundle` reckons it, less one: a comma is counted for
every item, so for the last one too. Reading the chunks gives the items that were put in
them, and these are the items that fit unless one fills a document to the byte.
-/

namespace SpecterComs.Chat

open JsonText (Text Value)

/-! ## An item is read back -/

variable {field : Option String}

theorem stringMember_eq {key : String} {v : Value} (h : v.get? key.toList = some (nullable field)) :
    stringMember key v = field := by
  rw [stringMember, h]
  cases field with
  | none => rfl
  | some s => exact congrArg some String.ofList_toList

theorem itemOf_value (item : BundleItem) : itemOf item.value = item := by
  have hid : stringMember "id" item.value = item.id := stringMember_eq rfl
  have hsender : stringMember "sender_id" item.value = item.senderId := stringMember_eq rfl
  have hcallsign : stringMember "callsign" item.value = item.callsign := stringMember_eq rfl
  have htag : stringMember "global_tag" item.value = item.globalTag := stringMember_eq rfl
  have htime : stringMember "timestamp" item.value = item.timestamp := stringMember_eq rfl
  have htext : stringMember "text" item.value = item.text := stringMember_eq rfl
  have himage : stringMember "image_url" item.value = item.imageUrl := stringMember_eq rfl
  rw [itemOf, hid, hsender, hcallsign, htag, htime, htext, himage]

theorem docItems_wrap (items : List BundleItem) : docItems (wrap items) = some items := by
  have hv : (bundleDoc items).get? "v".toList = some (.number 1 0) := rfl
  have hitems : (bundleDoc items).get? "items".toList =
      some (.array (items.map BundleItem.value)) := rfl
  have hversion : isVersion 1 0 = true := by decide
  have hread : (items.map BundleItem.value).map itemOf = items := by
    rw [List.map_map]
    exact List.map_id'' itemOf_value items
  rw [docItems, wrap, JsonText.parse_write, Option.bind_eq_bind, Option.bind_some, hv, hitems]
  simp only [hversion, if_true, hread]

/-- An item with fields that `parseBundle` takes. -/
structure WithinLimits (platform : Platform) (item : BundleItem) : Prop where
  id : ∃ id, item.id = some id ∧ id ≠ "" ∧ DeliveryService.jsLength id ≤ 128
  senderId : ∀ s ∈ item.senderId, DeliveryService.jsLength s ≤ 128
  callsign : ∀ s ∈ item.callsign, DeliveryService.jsLength s ≤ 128
  globalTag : ∀ s ∈ item.globalTag, DeliveryService.jsLength s ≤ 128
  timestamp : ∃ timestamp, item.timestamp = some timestamp ∧ timestamp ≠ "" ∧
    DeliveryService.jsLength timestamp ≤ 64 ∧ (platform.dateParse timestamp).isSome
  text : ∃ text, item.text = some text ∧ DeliveryService.jsLength text ≤ 20000
  imageUrl : ∀ s ∈ item.imageUrl, DeliveryService.jsLength s ≤ 800000

variable {platform : Platform} {item : BundleItem} {items : List BundleItem} {maxBytes : ℕ}

theorem str_of_le {max : ℕ} (h : ∀ s ∈ field, DeliveryService.jsLength s ≤ max) :
    str field max = field := by
  cases field with
  | none => rfl
  | some s => simp [str, Option.filter, h s rfl]

/-- The row of an item with all its fields. -/
def bundleRow (channelId : String) (relayedBy : Option String) (now : String) (item : BundleItem) :
    Incoming ChannelExtra where
  msg :=
    { id := item.id
      place := channelId
      senderId := item.senderId
      callsign := item.callsign
      encryptedContent := none
      plaintext := item.text
      timestamp := item.timestamp
      receivedAt := now
      failReason := none
      attempts := none
      relayedBy
      extra := ⟨item.globalTag, item.imageUrl⟩ }
  now

theorem bundleRow_injective {channelId now : String} {relayedBy : Option String} :
    Function.Injective (bundleRow channelId relayedBy now) := by
  intro a b h
  simp only [bundleRow, Incoming.mk.injEq, Msg.mk.injEq, ChannelExtra.mk.injEq] at h
  cases a
  cases b
  simp_all

theorem WithinLimits.parseItem (h : WithinLimits platform item) (channelId : String)
    (relayedBy : Option String) (now : String) :
    parseItem platform channelId relayedBy now item =
      some (bundleRow channelId relayedBy now item) := by
  obtain ⟨id, hid, hidne, hidlen⟩ := h.id
  obtain ⟨timestamp, htime, htimene, htimelen, hdate⟩ := h.timestamp
  obtain ⟨text, htext, htextlen⟩ := h.text
  obtain ⟨t, ht⟩ := Option.isSome_iff_exists.mp hdate
  have hstrid : str item.id 128 = item.id := str_of_le (by rw [hid]; simpa using hidlen)
  have hstrtime : str item.timestamp 64 = item.timestamp :=
    str_of_le (by rw [htime]; simpa using htimelen)
  have hstrtext : str item.text 20000 = item.text := str_of_le (by rw [htext]; simpa using htextlen)
  unfold Chat.parseItem
  rw [hstrid, hstrtime, hstrtext, str_of_le h.senderId, str_of_le h.callsign,
    str_of_le h.globalTag, str_of_le h.imageUrl]
  simp [hid, htime, htext, hidne, htimene, ht, bundleRow, Option.filter]

theorem WithinLimits.noImage (h : WithinLimits platform item) :
    WithinLimits platform { item with imageUrl := none } :=
  { h with imageUrl := nofun }

/-! ## The length of a document -/

theorem byteLength_append (s t : Text) : byteLength (s ++ t) = byteLength s + byteLength t := by
  rw [byteLength, List.map_append, List.sum_append]
  rfl

theorem byteLength_cons (c : Char) (t : Text) :
    byteLength (c :: t) = c.utf8Size + byteLength t := rfl

/-- What `chunkBundle` reckons for the items of a chunk. -/
def reckoned (items : List BundleItem) : ℕ :=
  bundleOverhead + (items.map fun item => itemLength item + 1).sum

theorem byteLength_writeItems (item : BundleItem) (items : List BundleItem) :
    byteLength (JsonText.writeItems ((item :: items).map BundleItem.value)) + 1 =
      ((item :: items).map fun item => itemLength item + 1).sum := by
  induction items generalizing item with
  | nil => rfl
  | cons next items ih =>
      have hcomma : ','.utf8Size = 1 := rfl
      have hrest := ih next
      rw [List.map_cons, List.map_cons, JsonText.writeItems_cons_cons, byteLength_append,
        byteLength_cons, List.map_cons, List.sum_cons]
      rw [List.map_cons] at hrest
      rw [← hrest, hcomma, itemLength]
      omega

theorem byteLength_wrap (item : BundleItem) (items : List BundleItem) :
    byteLength (wrap (item :: items)) + 1 = reckoned (item :: items) := by
  have hitems := byteLength_writeItems item items
  have hdoc : wrap (item :: items) = "\x7b\"v\":1,\"items\":[".toList ++
      (JsonText.writeItems ((item :: items).map BundleItem.value) ++ "]\x7d".toList) := by
    rw [wrap, bundleDoc]
    simp only [JsonText.write, JsonText.writeMembers, JsonText.writeMember]
    have hone : Nat.toDigits 10 1 = ['1'] := rfl
    simp [JsonText.writeString, JsonText.writeNumber, JsonText.writeInt, JsonText.escapeChar, hone]
  rw [hdoc, byteLength_append, byteLength_append, reckoned, ← hitems]
  have hopen : byteLength "\x7b\"v\":1,\"items\":[".toList = 16 := by decide
  have hclose : byteLength "]\x7d".toList = 2 := by decide
  rw [hopen, hclose, bundleOverhead]
  omega

/-! ## Filling the chunks -/

/-- The chunks made so far are within the limit, and so is the one being filled. -/
structure Packed (maxBytes : ℕ) (c : Chunking) : Prop where
  bytes : c.bytes = reckoned c.current
  current : c.current ≠ [] → c.bytes ≤ maxBytes
  done : ∀ chunk ∈ c.done, chunk ≠ [] ∧ reckoned chunk ≤ maxBytes

theorem reckoned_append (chunk : List BundleItem) (item : BundleItem) :
    reckoned (chunk ++ [item]) = reckoned chunk + (itemLength item + 1) := by
  simp [reckoned, Nat.add_assoc]

theorem packed_chunkItem {c : Chunking} (h : Packed maxBytes c) (item : BundleItem) :
    Packed maxBytes (chunkItem itemLength maxBytes c item) := by
  simp only [chunkItem]
  generalize (if maxBytes < bundleOverhead + (itemLength item + 1) ∧
    item.imageUrl.any (· ≠ "") then { item with imageUrl := none } else item) = kept
  have hbytes := h.bytes
  split_ifs with hskip hfull
  · exact h
  · refine ⟨rfl, fun _ => Nat.le_of_not_lt hskip, fun chunk hchunk => ?_⟩
    cases List.mem_append.mp hchunk with
    | inl hdone => exact h.done chunk hdone
    | inr hlast =>
        obtain rfl := List.mem_singleton.mp hlast
        exact ⟨hfull.2, hbytes ▸ h.current hfull.2⟩
  · refine ⟨?_, fun _ => ?_, h.done⟩
    · rw [reckoned_append, hbytes]
    · by_cases hempty : c.current = []
      · rw [hempty] at hbytes
        change c.bytes + (itemLength kept + 1) ≤ maxBytes
        rw [hbytes]
        exact Nat.le_of_not_lt hskip
      · exact Nat.le_of_not_lt fun hlt => hfull ⟨hlt, hempty⟩

theorem packed_foldl {c : Chunking} (h : Packed maxBytes c) (items : List BundleItem) :
    Packed maxBytes (items.foldl (chunkItem itemLength maxBytes) c) := by
  induction items generalizing c with
  | nil => exact h
  | cons item items ih => exact ih (packed_chunkItem h item)

theorem reckoned_le {chunk : List BundleItem}
    (h : chunk ∈ chunkBundle itemLength items maxBytes) :
    chunk ≠ [] ∧ reckoned chunk ≤ maxBytes := by
  have hpacked : Packed maxBytes
      (items.foldl (chunkItem itemLength maxBytes) ⟨[], [], bundleOverhead⟩) :=
    packed_foldl ⟨rfl, fun hne => absurd rfl hne, by simp⟩ items
  simp only [chunkBundle] at h
  generalize items.foldl (chunkItem itemLength maxBytes) ⟨[], [], bundleOverhead⟩ = c at h hpacked
  cases List.mem_append.mp h with
  | inl hdone => exact hpacked.done chunk hdone
  | inr hlast =>
      split_ifs at hlast with hempty
      · cases hlast
      · obtain rfl := List.mem_singleton.mp hlast
        exact ⟨hempty, hpacked.bytes ▸ hpacked.current hempty⟩

/-- Every chunk is shorter than the limit. -/
theorem byteLength_lt {json : Text} (h : json ∈ chunkTexts items maxBytes) :
    byteLength json < maxBytes := by
  obtain ⟨chunk, hchunk, rfl⟩ := List.mem_map.mp h
  obtain ⟨hne, hle⟩ := reckoned_le hchunk
  cases chunk with
  | nil => exact absurd rfl hne
  | cons item items =>
      rw [← byteLength_wrap] at hle
      exact hle

/-! ## Reading the chunks -/

theorem WithinLimits.sent {kept : BundleItem} (h : WithinLimits platform item)
    (hkept : sent itemLength maxBytes item = some kept) : WithinLimits platform kept := by
  unfold Chat.sent fitted at hkept
  split_ifs at hkept
  · obtain rfl := Option.some.inj hkept
    exact h.noImage
  · obtain rfl := Option.some.inj hkept
    exact h

/-- The rows of all chunks are those of the items that were put in them. -/
theorem flatMap_parseText (hlimits : ∀ item ∈ items, WithinLimits platform item)
    (hcount : ∀ chunk ∈ chunkBundle itemLength items maxBytes, chunk.length ≤ syncReplyMax)
    (channelId : String) (relayedBy : Option String) (now : String) :
    (chunkTexts items maxBytes).flatMap (parseText platform channelId relayedBy now) =
      (items.filterMap (sent itemLength maxBytes)).map (bundleRow channelId relayedBy now) := by
  have hwithin : ∀ kept ∈ (chunkBundle itemLength items maxBytes).flatten,
      WithinLimits platform kept := by
    intro kept hkept
    rw [flatten_chunkBundle] at hkept
    obtain ⟨item, hitem, hsent⟩ := List.mem_filterMap.mp hkept
    exact (hlimits item hitem).sent hsent
  rw [← flatten_chunkBundle, chunkTexts, List.flatMap_map, List.map_flatten, List.flatMap]
  refine congrArg List.flatten (List.map_congr_left fun chunk hchunk => ?_)
  rw [parseText, docItems_wrap]
  simp only
  rw [parseBundle, List.take_of_length_le (hcount chunk hchunk)]
  have hrow : ∀ item ∈ chunk, parseItem platform channelId relayedBy now item =
      some (bundleRow channelId relayedBy now item) := fun item hitem =>
    (hwithin item (List.mem_flatten.mpr ⟨chunk, hchunk, hitem⟩)).parseItem channelId relayedBy now
  rw [List.filterMap_congr hrow, List.filterMap_eq_map']

/-! ## The items that fit -/

/-- What a document of this length has room for: the item, or else the item without its
image. -/
def fitting (maxBytes : ℕ) (item : BundleItem) : Option BundleItem :=
  if byteLength (wrap [item]) ≤ maxBytes then some item
  else if byteLength (wrap [{ item with imageUrl := none }]) ≤ maxBytes then
    some { item with imageUrl := none }
  else none

/-- A document of the item alone has exactly this length, or one without the image has
where the image is too much. -/
def Brimful (maxBytes : ℕ) (item : BundleItem) : Prop :=
  byteLength (wrap [item]) = maxBytes ∨
    (maxBytes < byteLength (wrap [item]) ∧
      byteLength (wrap [{ item with imageUrl := none }]) = maxBytes)

theorem byteLength_wrap_single (item : BundleItem) :
    byteLength (wrap [item]) = bundleOverhead + itemLength item := by
  have h := byteLength_wrap item []
  simp only [reckoned, List.map_cons, List.map_nil, List.sum_cons, List.sum_nil] at h
  omega

theorem itemLength_noImage (h : item.imageUrl = some "") :
    itemLength { item with imageUrl := none } = itemLength item + 2 := by
  simp only [itemLength, BundleItem.value, JsonText.write, JsonText.writeMembers,
    JsonText.writeMember, byteLength_append, byteLength_cons, h, nullable]
  have hnull : byteLength "null".toList = 4 := by decide
  have hempty : byteLength (JsonText.writeString "".toList) = 2 := by decide
  rw [hnull, hempty]
  omega

/-- `item.image_url` counts as present unless it is empty. -/
theorem image_cases (item : BundleItem) :
    (item.imageUrl.any (· ≠ "") = true ∧ { item with imageUrl := none } ≠ item) ∨
      (item.imageUrl.any (· ≠ "") = false ∧
        itemLength item ≤ itemLength { item with imageUrl := none } ∧
        (itemLength item = itemLength { item with imageUrl := none } →
          { item with imageUrl := none } = item)) := by
  cases himage : item.imageUrl with
  | none =>
      have hsame : { item with imageUrl := none } = item := by rw [← himage]
      exact Or.inr ⟨rfl, by rw [hsame], fun _ => hsame⟩
  | some s =>
      by_cases hs : s = ""
      · subst hs
        rw [itemLength_noImage himage]
        exact Or.inr ⟨rfl, by omega, by omega⟩
      · refine Or.inl ⟨by simpa using hs, fun hsame => ?_⟩
        have hnone := congrArg BundleItem.imageUrl hsame
        rw [himage] at hnone
        cases hnone

theorem sent_isSome (h : (sent itemLength maxBytes item).isSome) :
    (fitting maxBytes item).isSome := by
  unfold sent fitted at h
  unfold fitting
  rw [byteLength_wrap_single, byteLength_wrap_single]
  split_ifs at h ⊢ <;> first | rfl | omega

/-- What is put into the chunks is what fits, unless it fits exactly. -/
theorem sent_eq_fitting_iff :
    sent itemLength maxBytes item = fitting maxBytes item ↔ ¬ Brimful maxBytes item := by
  unfold sent fitted fitting Brimful
  rw [byteLength_wrap_single, byteLength_wrap_single]
  have hcases := image_cases item
  generalize { item with imageUrl := none } = plain at hcases ⊢
  obtain ⟨himage, hne⟩ | ⟨himage, hle, hsame⟩ := hcases
  · simp only [himage, and_true]
    rcases Nat.lt_trichotomy (bundleOverhead + itemLength item) maxBytes with hlt | heq | hgt
    · have hwhole : ¬ maxBytes < bundleOverhead + (itemLength item + 1) := by omega
      rw [if_neg hwhole, if_pos (by omega), if_pos (by omega)]
      simp only [true_iff]
      omega
    · have hdropped : maxBytes < bundleOverhead + (itemLength item + 1) := by omega
      rw [if_pos hdropped, if_pos (by omega : bundleOverhead + itemLength item ≤ maxBytes)]
      split_ifs <;> simp [heq, hne]
    · have hdropped : maxBytes < bundleOverhead + (itemLength item + 1) := by omega
      rw [if_pos hdropped, if_neg (by omega : ¬ bundleOverhead + itemLength item ≤ maxBytes)]
      split_ifs
      · simp only [true_iff]
        omega
      · omega
      · simp only [false_iff]
        omega
      · simp only [true_iff]
        omega
  · simp only [himage, Bool.false_eq_true, and_false, if_false]
    rcases Nat.lt_trichotomy (bundleOverhead + itemLength item) maxBytes with hlt | heq | hgt
    · rw [if_pos (by omega), if_pos (by omega)]
      simp only [true_iff]
      omega
    · rw [if_neg (by omega), if_pos (by omega)]
      simp [heq]
    · rw [if_neg (by omega), if_neg (by omega), if_neg (by omega)]
      simp only [true_iff]
      omega

section

variable {α β : Type} {f g : α → Option β}

theorem length_filterMap_le_of_isSome {xs : List α} (h : ∀ x ∈ xs, (f x).isSome → (g x).isSome) :
    (xs.filterMap f).length ≤ (xs.filterMap g).length := by
  induction xs with
  | nil => exact Nat.le_refl 0
  | cons x xs ih =>
      have hrest := ih fun y hy => h y (List.mem_cons_of_mem x hy)
      have hx := h x List.mem_cons_self
      rw [List.filterMap_cons, List.filterMap_cons]
      cases hf : f x <;> cases hg : g x <;> simp_all
      omega

/-- Where `g` keeps all that `f` keeps, the two lists agree only item by item. -/
theorem filterMap_eq_filterMap_iff {xs : List α} (h : ∀ x ∈ xs, (f x).isSome → (g x).isSome) :
    xs.filterMap f = xs.filterMap g ↔ ∀ x ∈ xs, f x = g x := by
  refine ⟨fun heq => ?_, List.filterMap_congr⟩
  induction xs with
  | nil => nofun
  | cons x xs ih =>
      have hrest : ∀ y ∈ xs, (f y).isSome → (g y).isSome := fun y hy =>
        h y (List.mem_cons_of_mem x hy)
      have hx := h x List.mem_cons_self
      have hlength := length_filterMap_le_of_isSome hrest
      rw [List.filterMap_cons, List.filterMap_cons] at heq
      have hhead : f x = g x ∧ xs.filterMap f = xs.filterMap g := by
        cases hf : f x with
        | none =>
            cases hg : g x with
            | none => 
                rw [hf, hg] at heq
                exact ⟨rfl, heq⟩
            | some b =>
                rw [hf, hg] at heq
                have := congrArg List.length heq
                simp at this
                omega
        | some a =>
            obtain ⟨b, hg⟩ := Option.isSome_iff_exists.mp (hx (by rw [hf]; rfl))
            rw [hf, hg] at heq
            obtain ⟨hab, htail⟩ := List.cons.inj heq
            exact ⟨by rw [hg, hab], htail⟩
      exact List.forall_mem_cons.mpr ⟨hhead.1, ih hrest hhead.2⟩

end

/-- Every chunk is within the limit, and the chunks together are read as the items that
fit, exactly where no item fills a document to the byte. -/
theorem chunks_carry_iff (channelId : String) (relayedBy : Option String) (now : String)
    (hlimits : ∀ item ∈ items, WithinLimits platform item)
    (hcount : ∀ chunk ∈ chunkBundle itemLength items maxBytes, chunk.length ≤ syncReplyMax) :
    ((∀ json ∈ chunkTexts items maxBytes, byteLength json ≤ maxBytes) ∧
      (chunkTexts items maxBytes).flatMap (parseText platform channelId relayedBy now) =
        (items.filterMap (fitting maxBytes)).map (bundleRow channelId relayedBy now)) ↔
    ∀ item ∈ items, ¬ Brimful maxBytes item := by
  have hsome : ∀ item ∈ items, (sent itemLength maxBytes item).isSome →
      (fitting maxBytes item).isSome := fun _ _ => sent_isSome
  rw [and_iff_right fun json hjson => Nat.le_of_lt (byteLength_lt hjson),
    flatMap_parseText hlimits hcount,
    (List.map_injective_iff.mpr bundleRow_injective).eq_iff, filterMap_eq_filterMap_iff hsome]
  exact forall₂_congr fun item _ => sent_eq_fitting_iff

/-! ## One message -/

/-- A platform that knows the start of 1970. -/
def utcPlatform : Platform :=
  ⟨fun a b => compareOfLessAndEq a b,
    fun s => if s = "1970-01-01T00:00:00.000Z" then some 0 else none⟩

def shortItem : BundleItem :=
  ⟨"m", "u", "Nova", none, "1970-01-01T00:00:00.000Z", "hi", none⟩

theorem shortItem_within : ∀ item ∈ [shortItem], WithinLimits utcPlatform item := by
  intro item hitem
  obtain rfl := List.mem_singleton.mp hitem
  exact
    { id := ⟨"m", rfl, by decide, by decide⟩
      senderId := by decide
      callsign := by decide
      globalTag := by decide
      timestamp := ⟨"1970-01-01T00:00:00.000Z", rfl, by decide, by decide, by decide⟩
      text := ⟨"hi", rfl, by decide⟩
      imageUrl := by decide }

theorem shortItem_length : byteLength (wrap [shortItem]) = 148 := by
  decide +kernel

theorem chunks_carry_short :
    (chunkTexts [shortItem] 149).flatMap (parseText utcPlatform "c" (some "p") "now") =
      [bundleRow "c" (some "p") "now" shortItem] := by
  have hfree : ∀ item ∈ [shortItem], ¬ Brimful 149 item := by
    intro item hitem
    obtain rfl := List.mem_singleton.mp hitem
    rw [Brimful, shortItem_length]
    omega
  have hfits : fitting 149 shortItem = some shortItem := by
    rw [fitting, shortItem_length, if_pos (by omega)]
  have hcount : ∀ chunk ∈ chunkBundle itemLength [shortItem] 149,
      chunk.length ≤ syncReplyMax := by
    decide +kernel
  have h := ((chunks_carry_iff "c" (some "p") "now" shortItem_within hcount).mpr hfree).2
  exact h.trans (by rw [List.filterMap_cons, hfits]; rfl)

/-- The message is lost where the limit is the length of its document. -/
theorem brimful_is_lost :
    ¬ ((∀ json ∈ chunkTexts [shortItem] 148, byteLength json ≤ 148) ∧
      (chunkTexts [shortItem] 148).flatMap (parseText utcPlatform "c" (some "p") "now") =
        ([shortItem].filterMap (fitting 148)).map (bundleRow "c" (some "p") "now")) := by
  have hfits : fitting 148 shortItem = some shortItem := by
    rw [fitting, shortItem_length, if_pos (by omega)]
  have hnone : chunkTexts [shortItem] 148 = [] := by
    decide +kernel
  rw [hnone, List.filterMap_cons, hfits]
  exact fun h => nomatch h.2

end SpecterComs.Chat
