import SpecterComs.Model.RelayAudio.FrameProto

/-! # The decoder of audio frames

It ends where every length it comes to leads forward. What the encoder writes is read back.
-/

namespace SpecterComs.FrameProto

open RelayAudio (Bytes)

variable {bytes rest data : Bytes} {pos : ℤ} {d d' : Decoding} {frame : AudioFrame}

/-! ## Positions -/

theorem varintLoop_le (bytes : Bytes) (left : ℕ) (pos : ℤ) (val : BitVec 32) (shift : ℕ) :
    pos ≤ (varintLoop bytes left pos val shift).2 := by
  induction left generalizing pos val shift with
  | zero => exact Int.le_refl pos
  | succ left ih =>
      rw [varintLoop]
      split
      · exact Int.le_add_one (Int.le_refl pos)
      · exact Int.le_trans (Int.le_add_one (Int.le_refl pos)) (ih ..)

theorem readVarint_le (bytes : Bytes) (pos : ℤ) : pos ≤ (readVarint bytes pos).2 :=
  varintLoop_le ..

theorem readVarint_lt (h : pos < bytes.length) : pos < (readVarint bytes pos).2 := by
  obtain ⟨left, hleft⟩ : ∃ n, (bytes.length - pos).toNat = n + 1 :=
    ⟨(bytes.length - pos).toNat - 1, by omega⟩
  rw [readVarint, hleft, varintLoop]
  split
  · exact Int.lt_add_one_of_le (Int.le_refl pos)
  · exact Int.lt_of_lt_of_le (Int.lt_add_one_of_le (Int.le_refl pos)) (varintLoop_le ..)

/-- Before the array there are only zeros. -/
theorem readVarint_neg (h : pos < 0) : readVarint bytes pos = (0, pos + 1) := by
  obtain ⟨left, hleft⟩ : ∃ n, (bytes.length - pos).toNat = n + 1 :=
    ⟨(bytes.length - pos).toNat - 1, by omega⟩
  have hbyte : byteAt bytes pos = 0 := if_pos h
  rw [readVarint, hleft, varintLoop, hbyte]
  rfl

/-- Where the field at `pos` ends, if it has one of the two wire types. -/
def fieldEnd (bytes : Bytes) (pos : ℤ) : Option ℤ :=
  let (tag, pos) := readVarint bytes pos
  if wireType tag = 0 then some (readVarint bytes pos).2
  else if wireType tag = 2 then
    let (len, pos) := readVarint bytes pos
    some (pos + len.toInt)
  else none

theorem decodeField_pos (bytes : Bytes) (d : Decoding) :
    (decodeField bytes d).map Decoding.pos =
      if d.pos < bytes.length then fieldEnd bytes d.pos else none := by
  rw [decodeField, fieldEnd]
  split
  · dsimp only
    split
    · rfl
    · split
      · rfl
      · rfl
  · rfl

/-- The positions at which the decoder reads a field. -/
inductive Reached (bytes : Bytes) : ℤ → Prop
  | start : Reached bytes 0
  | field {pos next : ℤ} :
      Reached bytes pos → pos < bytes.length → fieldEnd bytes pos = some next → Reached bytes next

/-- The length of a field, as a signed number, leads to a position behind the field's start. -/
def LengthAdvances (bytes : Bytes) (pos : ℤ) : Prop :=
  let (tag, lengthPos) := readVarint bytes pos
  wireType tag = 2 →
    pos < (readVarint bytes lengthPos).2 + (readVarint bytes lengthPos).1.toInt

theorem fieldEnd_advances_iff (h : pos < bytes.length) :
    (∀ next, fieldEnd bytes pos = some next → pos < next) ↔ LengthAdvances bytes pos := by
  rw [fieldEnd, LengthAdvances]
  dsimp only
  split
  · rename_i hwire
    constructor
    · intro _ htwo
      rw [hwire] at htwo
      cases htwo
    · rintro - next hnext
      rw [← Option.some.inj hnext]
      exact Int.lt_of_lt_of_le (readVarint_lt h) (readVarint_le ..)
  · split
    · rename_i hwire
      exact ⟨fun hnext _ => hnext _ rfl, fun hlen next hnext => Option.some.inj hnext ▸ hlen hwire⟩
    · rename_i hwire
      exact ⟨fun _ htwo => absurd htwo hwire, fun _ _ hnext => nomatch hnext⟩

/-! ## The loop -/

/-- The decoder comes to `d`. -/
def Visits (bytes : Bytes) : Decoding → Prop :=
  Relation.ReflTransGen (fun d d' => decodeField bytes d = some d') start

theorem Visits.reached (h : Visits bytes d) : Reached bytes d.pos := by
  induction h with
  | refl => exact .start
  | @tail d d' _ hstep ih =>
      have hpos := decodeField_pos bytes d
      rw [hstep] at hpos
      split at hpos
      · exact .field ih ‹_› hpos.symm
      · cases hpos

theorem Reached.visits (h : Reached bytes pos) : ∃ d, Visits bytes d ∧ d.pos = pos := by
  induction h with
  | start => exact ⟨FrameProto.start, .refl, rfl⟩
  | @field pos next _ hlt hend ih =>
      obtain ⟨d, hvisits, rfl⟩ := ih
      have hpos := decodeField_pos bytes d
      rw [if_pos hlt, hend] at hpos
      obtain ⟨d', hstep, hnext⟩ := Option.map_eq_some_iff.mp hpos
      exact ⟨d', hvisits.tail hstep, hnext⟩

/-- `decodeAudioFrameProto` ends, and each iteration of its outer loop moves forward. -/
structure Ends (bytes : Bytes) : Prop where
  decodes : ∃ frame, Decodes bytes frame
  advances : ∀ d d', Visits bytes d → decodeField bytes d = some d' → d.pos < d'.pos

theorem decodeLoop_isSome
    (hadvances : ∀ d d', Visits bytes d → decodeField bytes d = some d' → d.pos < d'.pos)
    (hd : Visits bytes d) {rounds : ℕ} (hrounds : bytes.length - d.pos < rounds) :
    ∃ frame, decodeLoop bytes (rounds + 1) d = some frame := by
  induction rounds generalizing d with
  | zero =>
      have hend : decodeField bytes d = none := by
        rw [decodeField, if_neg (by omega)]
      exact ⟨d.frame, by rw [decodeLoop, hend]⟩
  | succ rounds ih =>
      rw [decodeLoop]
      cases hstep : decodeField bytes d with
      | none => exact ⟨d.frame, rfl⟩
      | some d' =>
          have hlt := hadvances d d' hd hstep
          exact ih (hd.tail hstep) (by omega)

/-- For every byte string: the decoder ends and moves forward in each iteration exactly if each
length it comes to advances. -/
theorem decoder_ends_iff (bytes : Bytes) :
    Ends bytes ↔ ∀ pos, Reached bytes pos → pos < bytes.length → LengthAdvances bytes pos := by
  constructor
  · intro h pos hreached hlt
    obtain ⟨d, hvisits, rfl⟩ := hreached.visits
    refine (fieldEnd_advances_iff hlt).mp fun next hnext => ?_
    have hpos := decodeField_pos bytes d
    rw [if_pos hlt, hnext] at hpos
    obtain ⟨d', hstep, rfl⟩ := Option.map_eq_some_iff.mp hpos
    exact h.advances d d' hvisits hstep
  · intro h
    have hadvances : ∀ d d', Visits bytes d → decodeField bytes d = some d' → d.pos < d'.pos := by
      intro d d' hvisits hstep
      have hpos := decodeField_pos bytes d
      rw [hstep] at hpos
      split at hpos
      · rename_i hlt
        exact (fieldEnd_advances_iff hlt).mpr (h d.pos hvisits.reached hlt) _ hpos.symm
      · cases hpos
    refine ⟨?_, hadvances⟩
    have hbound : bytes.length - start.pos < (bytes.length + 1 : ℕ) := by
      show (bytes.length : ℤ) - 0 < _
      omega
    obtain ⟨frame, hframe⟩ := decodeLoop_isSome hadvances .refl hbound
    exact ⟨frame, _, hframe⟩

/-- A state that leads to one of the same kind never ends. -/
theorem decodeLoop_never {P : ℤ → Prop}
    (h : ∀ d, P d.pos → ∃ d', decodeField bytes d = some d' ∧ P d'.pos) (hd : P d.pos)
    (rounds : ℕ) : decodeLoop bytes rounds d = none := by
  induction rounds generalizing d with
  | zero => rfl
  | succ rounds ih =>
      obtain ⟨d', hstep, hd'⟩ := h d hd
      rw [decodeLoop, hstep]
      exact ih hd'

/-- A payload field of length -6. -/
def circling : Bytes := [0x0a, 0xfa, 0xff, 0xff, 0xff, 0x0f]

theorem circling_never_ends : isAudio circling = true ∧
    (∀ rounds, decodeLoop circling rounds start = none) ∧ ¬ Ends circling := by
  have hnever : ∀ rounds, decodeLoop circling rounds start = none := by
    intro rounds
    refine decodeLoop_never (P := (· = 0)) (fun d hd => ?_) rfl rounds
    obtain ⟨pos, frame⟩ := d
    obtain rfl : pos = 0 := hd
    have htag : readVarint circling 0 = (10, 1) := by decide
    have hlen : readVarint circling 1 = (-6, 6) := by decide
    refine ⟨⟨0, frame.setBytes 1 []⟩, ?_, rfl⟩
    rw [decodeField, htag]
    dsimp only
    rw [hlen]
    rfl
  refine ⟨by decide, hnever, fun h => ?_⟩
  obtain ⟨frame, rounds, hframe⟩ := h.decodes
  rw [hnever] at hframe
  cases hframe

/-! # What the encoder of audio frames writes is read back

Lengths are read as signed numbers, so this is about payloads and signatures of less than
`2 ^ 31` bytes. A signature without bytes is left out.
-/

variable {bytes rest data : Bytes} {pos n : ℕ} {frame : AudioFrame}

/-! ## Varints -/

theorem byteAt_drop {b : UInt8} (h : bytes.drop pos = b :: rest) : byteAt bytes pos = b := by
  have hget : (bytes.drop pos)[0]? = some b := by rw [h]; rfl
  rw [List.getElem?_drop, Nat.add_zero] at hget
  rw [byteAt, if_neg (by omega), Int.toNat_natCast, hget]
  rfl

theorem drop_succ {b : UInt8} (h : bytes.drop pos = b :: rest) : bytes.drop (pos + 1) = rest := by
  rw [← List.drop_drop, h, List.drop_succ_cons, List.drop_zero]

theorem drop_append {front : Bytes} (h : bytes.drop pos = front ++ rest) :
    bytes.drop (pos + front.length) = rest := by
  rw [← List.drop_drop, h, List.drop_left]

theorem length_of_drop (h : bytes.drop pos = rest) (hne : rest ≠ []) :
    bytes.length = pos + rest.length := by
  have hlength := congrArg List.length h
  have hpos : 0 < rest.length := List.length_pos_iff.mpr hne
  rw [List.length_drop] at hlength
  omega

theorem ofNat_shiftLeft (n shift : ℕ) :
    BitVec.ofNat 32 (n * 2 ^ shift) = BitVec.ofNat 32 n <<< shift := by
  apply BitVec.eq_of_toNat_eq
  simp [Nat.shiftLeft_eq]

theorem lt_of_drop (h : bytes.drop pos = rest) (hne : rest ≠ []) : (pos : ℤ) < bytes.length := by
  have hlength := length_of_drop h hne
  have hpos : 0 < rest.length := List.length_pos_iff.mpr hne
  omega

/-- The low seven bits and the others make up the number. -/
theorem low_or_high (n shift : ℕ) :
    BitVec.ofNat 32 (n % 128) <<< shift ||| BitVec.ofNat 32 (n / 128) <<< (shift + 7) =
      BitVec.ofNat 32 n <<< shift := by
  have hor : n / 128 * 2 ^ 7 ||| n % 128 = n := by
    have hlow : n % 128 < 2 ^ 7 := Nat.mod_lt n (by decide)
    rw [Nat.mul_comm, ← Nat.two_pow_add_eq_or_of_lt hlow]
    omega
  have hsplit : BitVec.ofNat 32 n =
      BitVec.ofNat 32 (n / 128) <<< 7 ||| BitVec.ofNat 32 (n % 128) := by
    rw [← ofNat_shiftLeft, ← BitVec.ofNat_or, hor]
  rw [hsplit, BitVec.shiftLeft_or_distrib, BitVec.or_comm, ← BitVec.shiftLeft_add, Nat.add_comm 7]

theorem low_bits (b : UInt8) : (b &&& 0x7f).toNat = b.toNat % 128 := by
  rw [UInt8.toNat_and]
  exact Nat.and_two_pow_sub_one_eq_mod b.toNat 7

theorem continues_iff (b : UInt8) : b &&& 0x80 = 0 ↔ b.toNat < 128 := by
  have hall : ∀ n : Fin 256, UInt8.ofNat n &&& 0x80 = 0 ↔ n.val < 128 := by decide +kernel
  simpa using hall ⟨b.toNat, b.toNat_lt⟩

variable {left shift tag : ℕ}

theorem varintLoop_last (val : BitVec 32) (hshift : shift < 32)
    (hbytes : bytes.drop pos = UInt8.ofNat n :: rest) (hn : n < 128) :
    varintLoop bytes (left + 1) pos val shift =
      (val ||| BitVec.ofNat 32 n <<< shift, ((pos + 1 : ℕ) : ℤ)) := by
  have hbyte : (UInt8.ofNat n).toNat = n := by
    rw [UInt8.toNat_ofNat']
    omega
  rw [varintLoop, byteAt_drop hbytes, low_bits, hbyte, Nat.mod_eq_of_lt hn, Nat.mod_eq_of_lt hshift,
    if_pos ((continues_iff _).mpr (by omega))]
  rfl

theorem varintLoop_more (val : BitVec 32) (hshift : shift < 32)
    (hbytes : bytes.drop pos = UInt8.ofNat (n % 128 + 128) :: rest) :
    varintLoop bytes (left + 1) pos val shift =
      varintLoop bytes left ((pos + 1 : ℕ) : ℤ) (val ||| BitVec.ofNat 32 (n % 128) <<< shift)
        (shift + 7) := by
  have hbyte : (UInt8.ofNat (n % 128 + 128)).toNat = n % 128 + 128 := by
    rw [UInt8.toNat_ofNat']
    omega
  have hlow : (n % 128 + 128) % 128 = n % 128 := by omega
  rw [varintLoop, byteAt_drop hbytes, low_bits, hbyte, hlow, Nat.mod_eq_of_lt hshift,
    if_neg (mt (continues_iff _).mp (by omega))]
  rfl

theorem varintBytes_succ (width n : ℕ) :
    varintBytes (width + 1) n =
      if n < 128 then [UInt8.ofNat n]
      else UInt8.ofNat (n % 128 + 128) :: varintBytes width (n / 128) := by
  have hlow : n &&& 0x7f = n % 128 := Nat.and_two_pow_sub_one_eq_mod n 7
  rw [varintBytes, hlow]
  split
  · rename_i hlarge
    have hhigh : n % 128 ||| 0x80 = n % 128 + 128 := by
      rw [Nat.or_comm, Nat.add_comm]
      exact (Nat.two_pow_add_eq_or_of_lt (Nat.mod_lt n (by decide : 0 < 2 ^ 7)) 1).symm
    rw [if_neg (by omega), hhigh, Nat.shiftRight_eq_div_pow]
  · rw [if_pos (by omega), Nat.mod_eq_of_lt (by omega)]

/-- A number that fits into so many bytes is added to the bits read before. -/
theorem varintLoop_write (width : ℕ) (val : BitVec 32) (hn : n < 2 ^ (7 * width))
    (hwidth : 0 < width) (hshift : shift + 7 * width ≤ 35)
    (hbytes : bytes.drop pos = varintBytes width n ++ rest)
    (hleft : (varintBytes width n).length ≤ left) :
    varintLoop bytes left pos val shift =
      (val ||| BitVec.ofNat 32 n <<< shift, ((pos + (varintBytes width n).length : ℕ) : ℤ)) := by
  induction width generalizing n left pos val shift with
  | zero => cases hwidth
  | succ width ih =>
      rw [varintBytes_succ] at hbytes hleft ⊢
      split at hbytes
      · rename_i hsmall
        rw [if_pos hsmall] at hleft ⊢
        obtain ⟨left, rfl⟩ : ∃ m, left = m + 1 := ⟨left - 1, by simp at hleft; omega⟩
        have hshift' : shift < 32 := by omega
        exact varintLoop_last val hshift' hbytes hsmall
      · rename_i hlarge
        rw [if_neg hlarge] at hleft ⊢
        obtain ⟨left, rfl⟩ : ∃ m, left = m + 1 := ⟨left - 1, by simp at hleft; omega⟩
        have hpow : 2 ^ (7 * (width + 1)) = 2 ^ (7 * width) * 128 := by
          rw [Nat.mul_succ, Nat.pow_add]
        have hdiv : n / 128 < 2 ^ (7 * width) := by omega
        have hpos : 0 < width := by
          rcases Nat.eq_zero_or_pos width with rfl | hpos
          · omega
          · exact hpos
        have hshift' : shift < 32 := by omega
        have hrest : shift + 7 + 7 * width ≤ 35 := by omega
        have hlength : (varintBytes width (n / 128)).length ≤ left := by simpa using hleft
        rw [varintLoop_more val hshift' hbytes, ih _ hdiv hpos hrest (drop_succ hbytes) hlength,
          BitVec.or_assoc, low_or_high, List.length_cons, Nat.add_right_comm, Nat.add_assoc]

theorem readVarint_write (hn : n < 2 ^ 32) (hbytes : bytes.drop pos = writeVarint n ++ rest) :
    readVarint bytes pos = (BitVec.ofNat 32 n, ((pos + (writeVarint n).length : ℕ) : ℤ)) := by
  rw [writeVarint, Nat.mod_eq_of_lt hn] at hbytes ⊢
  have hne : varintBytes 5 n ++ rest ≠ [] := by
    rw [varintBytes_succ]
    split <;> simp
  have hlength := length_of_drop hbytes hne
  rw [List.length_append] at hlength
  rw [readVarint, varintLoop_write 5 0 (by omega) (by omega) (by omega) hbytes (by omega),
    BitVec.shiftLeft_zero]
  exact congrArg (·, _) BitVec.zero_or

/-! ## Fields -/

/-- The decoder gets from `pos` with this frame to the result. -/
def Continues (bytes : Bytes) (pos : ℕ) (frame result : AudioFrame) : Prop :=
  ∃ rounds, decodeLoop bytes rounds ⟨pos, frame⟩ = some result

theorem continues_end (h : bytes.drop pos = []) (frame : AudioFrame) :
    Continues bytes pos frame frame := by
  have hend : ¬ ((pos : ℤ) < bytes.length) := by
    have hlength := List.drop_eq_nil_iff.mp h
    omega
  refine ⟨1, ?_⟩
  rw [decodeLoop, decodeField, if_neg hend]

variable {result : AudioFrame}

theorem continues_step {next : ℕ} {frame' : AudioFrame}
    (hstep : decodeField bytes ⟨pos, frame⟩ = some ⟨next, frame'⟩)
    (h : Continues bytes next frame' result) : Continues bytes pos frame result := by
  obtain ⟨rounds, hrounds⟩ := h
  refine ⟨rounds + 1, ?_⟩
  rw [decodeLoop, hstep]
  exact hrounds

theorem writeVarint_ne_nil (n : ℕ) (rest : Bytes) : writeVarint n ++ rest ≠ [] := by
  rw [writeVarint, varintBytes_succ]
  split <;> simp

/-- A field with a number. -/
theorem continues_varint (htag : tag < 2 ^ 32) (hwire : wireType (BitVec.ofNat 32 tag) = 0)
    (hn : n < 2 ^ 32) (hbytes : bytes.drop pos = writeVarint tag ++ (writeVarint n ++ rest))
    (h : ∀ next, bytes.drop next = rest → Continues bytes next (frame.setVarint (fieldNumber (BitVec.ofNat 32 tag)) (BitVec.ofNat 32 n)) result) :
    Continues bytes pos frame result := by
  have hlt : (pos : ℤ) < bytes.length := lt_of_drop hbytes (writeVarint_ne_nil _ _)
  have hvalue := drop_append hbytes
  refine continues_step ?_ (h _ (drop_append hvalue))
  rw [decodeField, if_pos hlt, readVarint_write htag hbytes]
  dsimp only
  rw [if_pos hwire, readVarint_write hn hvalue]

theorem slice_drop (h : bytes.drop pos = data ++ rest) :
    slice bytes pos (pos + data.length) = data := by
  have hstart : ¬ ((pos : ℤ) < 0) := by omega
  have hstop : ¬ ((pos : ℤ) + data.length < 0) := by omega
  have htoNat : ((pos : ℤ) + data.length).toNat = pos + data.length := by omega
  simp only [slice, if_neg hstart, if_neg hstop, htoNat, Int.toNat_natCast]
  rw [List.drop_take, h, Nat.add_sub_cancel_left, List.take_left]

/-- A field with bytes. -/
theorem continues_bytes (htag : tag < 2 ^ 32) (hwire : wireType (BitVec.ofNat 32 tag) = 2)
    (hdata : data.length < 2 ^ 31)
    (hbytes : bytes.drop pos = writeVarint tag ++ (writeVarint data.length ++ (data ++ rest)))
    (h : ∀ next, bytes.drop next = rest → Continues bytes next (frame.setBytes (fieldNumber (BitVec.ofNat 32 tag)) data) result) :
    Continues bytes pos frame result := by
  have hlt : (pos : ℤ) < bytes.length := lt_of_drop hbytes (writeVarint_ne_nil _ _)
  have hlen := drop_append hbytes
  have hcontents := drop_append hlen
  have hsigned : (BitVec.ofNat 32 data.length).toInt = data.length := by
    have htoNat : (BitVec.ofNat 32 data.length).toNat = data.length := by
      rw [BitVec.toNat_ofNat, Nat.mod_eq_of_lt (by omega)]
    rw [BitVec.toInt_eq_toNat_of_lt (by omega), htoNat]
  refine continues_step ?_ (h _ (drop_append hcontents))
  rw [decodeField, if_pos hlt, readVarint_write htag hbytes]
  dsimp only
  rw [if_neg (by rw [hwire]; decide), if_pos hwire, readVarint_write (by omega) hlen]
  dsimp only
  rw [hsigned, slice_drop hcontents]
  rfl

/-! ## The round trip -/

/-- What is read back of a frame. -/
def readBack (ssrc : ℕ) (sequence : ℤ) (opusBytes : Bytes) (isGlobalBroadcast : Bool)
    (senderSignature : Option Bytes) : AudioFrame where
  opusBytes := some opusBytes
  ssrc := ssrc
  sequence := (sequence % 2 ^ 31).toNat
  isGlobalBroadcast := isGlobalBroadcast
  senderSignature := senderSignature

theorem sequence_bits (sequence : ℤ) :
    (BitVec.ofInt 32 sequence &&& 0x7fffffff#32).toNat = (sequence % 2 ^ 31).toNat := by
  rw [BitVec.toNat_and, BitVec.toNat_ofInt]
  have hmask : (0x7fffffff#32).toNat = 2 ^ 31 - 1 := by decide
  rw [hmask, Nat.and_two_pow_sub_one_eq_mod]
  omega

/-- The last field, where there is one. -/
theorem continues_signature {signature : Option Bytes}
    (hbytes : bytes.drop pos =
      match signature with
      | none => []
      | some signature =>
          if 0 < signature.length then
            writeVarint (5 <<< 3 ||| 2) ++ (writeVarint signature.length ++ signature)
          else [])
    (hlength : ∀ bytes ∈ signature, bytes.length < 2 ^ 31) (hframe : frame.senderSignature = none) :
    Continues bytes pos frame { frame with senderSignature := signature.filter (· ≠ []) } := by
  have hsame : { frame with senderSignature := none } = frame := by
    rw [← hframe]
  cases signature with
  | none =>
      rw [Option.filter_none, hsame]
      exact continues_end hbytes frame
  | some signature =>
      cases signature with
      | nil =>
          have hfilter : (some ([] : Bytes)).filter (· ≠ []) = none := rfl
          rw [hfilter, hsame]
          exact continues_end hbytes frame
      | cons b signature =>
          have hbytes' : bytes.drop pos = writeVarint (5 <<< 3 ||| 2) ++
              (writeVarint (b :: signature).length ++ ((b :: signature) ++ [])) := by
            simpa using hbytes
          refine continues_bytes (by decide) (by decide) (hlength _ rfl) hbytes' fun next hnext => ?_
          exact continues_end hnext _

/-- The payload, the ssrc below `2 ^ 32`, the flag and the signature come back, and the sequence
number modulo `2 ^ 31`. -/
theorem encoded_decodes {ssrc : ℕ} (sequence : ℤ) {opusBytes : Bytes} (isGlobalBroadcast : Bool)
    {senderSignature : Option Bytes} (hssrc : ssrc < 2 ^ 32) (hopus : opusBytes.length < 2 ^ 31)
    (hsignature : ∀ signature ∈ senderSignature, signature.length < 2 ^ 31) :
    Decodes (encode ssrc sequence opusBytes isGlobalBroadcast senderSignature)
      (readBack ssrc sequence opusBytes isGlobalBroadcast (senderSignature.filter (· ≠ []))) := by
  generalize hbytes : encode ssrc sequence opusBytes isGlobalBroadcast senderSignature = bytes
  rw [← List.drop_zero (l := bytes), eq_comm] at hbytes
  simp only [encode, List.append_assoc] at hbytes
  have hsequence : (BitVec.ofInt 32 sequence &&& 0x7fffffff#32).toNat < 2 ^ 32 := BitVec.isLt _
  have hsequenceBits : (BitVec.ofNat 32
      (BitVec.ofInt 32 sequence &&& 0x7fffffff#32).toNat).toNat = (sequence % 2 ^ 31).toNat := by
    rw [BitVec.toNat_ofNat, Nat.mod_eq_of_lt hsequence, sequence_bits]
  have hssrcBits : (BitVec.ofNat 32 ssrc).toNat = ssrc := by
    rw [BitVec.toNat_ofNat, Nat.mod_eq_of_lt hssrc]
  refine continues_bytes (by decide) (by decide) hopus hbytes fun p₁ h₁ => ?_
  refine continues_varint (by decide) (by decide) hssrc h₁ fun p₂ h₂ => ?_
  refine continues_varint (by decide) (by decide) hsequence h₂ fun p₃ h₃ => ?_
  have hframe : readBack ssrc sequence opusBytes isGlobalBroadcast
      (senderSignature.filter (· ≠ [])) =
      { ((start.frame.setBytes 1 opusBytes).setVarint 2 (BitVec.ofNat 32 ssrc)).setVarint 3
          (BitVec.ofNat 32 (BitVec.ofInt 32 sequence &&& 0x7fffffff#32).toNat) with
        isGlobalBroadcast
        senderSignature := senderSignature.filter (· ≠ []) } := by
    simp only [readBack, start, AudioFrame.setBytes, AudioFrame.setVarint, if_true, hssrcBits,
      hsequenceBits]
    rfl
  rw [hframe]
  cases isGlobalBroadcast with
  | false =>
      rw [if_neg Bool.false_ne_true, List.nil_append] at h₃
      exact continues_signature h₃ hsignature rfl
  | true =>
      rw [if_pos rfl, List.append_assoc] at h₃
      refine continues_varint (by decide) (by decide) (by decide) h₃ fun p₄ h₄ => ?_
      exact continues_signature h₄ hsignature rfl

theorem encoded_decodes_signed :
    Decodes (encode 4294967295 (-1) [0x2a, 0x01] true (some [9]))
      (readBack 4294967295 (-1) [0x2a, 0x01] true (some [9])) :=
  encoded_decodes (-1) true (by decide) (by decide) (by decide)

/-! ## Frames that are not read back -/

theorem decodeLoop_mono {rounds more : ℕ} {d : Decoding} (h : decodeLoop bytes rounds d = some frame)
    (hmore : rounds ≤ more) : decodeLoop bytes more d = some frame := by
  induction rounds generalizing d more with
  | zero => cases h
  | succ rounds ih =>
      obtain ⟨more, rfl⟩ : ∃ n, more = n + 1 := ⟨more - 1, by omega⟩
      rw [decodeLoop] at h ⊢
      split at h
      · exact h
      · exact ih h (by omega)

theorem Decodes.unique {other : AudioFrame} (h : Decodes bytes frame) (h' : Decodes bytes other) :
    frame = other := by
  obtain ⟨rounds, hrounds⟩ := h
  obtain ⟨rounds', hrounds'⟩ := h'
  exact Option.some.inj ((decodeLoop_mono hrounds (Nat.le_max_left rounds rounds')).symm.trans
    (decodeLoop_mono hrounds' (Nat.le_max_right rounds rounds')))

/-- Of a payload of `2 ^ 31` bytes the decoder goes back before the array, and from there to the
first field again. -/
theorem decodeLoop_large {opusBytes : Bytes} (hlength : opusBytes.length = 2 ^ 31) (ssrc : ℕ)
    (sequence : ℤ) (isGlobalBroadcast : Bool) (senderSignature : Option Bytes) (rounds : ℕ) :
    decodeLoop (encode ssrc sequence opusBytes isGlobalBroadcast senderSignature) rounds start =
      none := by
  obtain ⟨rest, hencode⟩ : ∃ rest, encode ssrc sequence opusBytes isGlobalBroadcast senderSignature =
      writeVarint 10 ++ (writeVarint (2 ^ 31) ++ rest) := by
    simp only [encode, List.append_assoc, hlength]
    exact ⟨_, rfl⟩
  generalize encode ssrc sequence opusBytes isGlobalBroadcast senderSignature = bytes at hencode
  have hdrop : bytes.drop 0 = writeVarint 10 ++ (writeVarint (2 ^ 31) ++ rest) := hencode
  have htag : readVarint bytes 0 = (10, 1) := by
    have hread := readVarint_write (by decide) hdrop
    exact hread
  have hlen : readVarint bytes 1 = (BitVec.ofNat 32 (2 ^ 31), 6) := by
    have hread := readVarint_write (by decide) (drop_append hdrop)
    exact hread
  have hpositive : 0 < bytes.length := by
    rw [hencode, List.length_append]
    exact Nat.add_pos_left (by decide) _
  refine decodeLoop_never (P := fun pos => pos ≤ 0 ∧ pos % 2 = 0) (fun d hd => ?_) ⟨le_rfl, rfl⟩ rounds
  obtain ⟨pos, frame⟩ := d
  obtain ⟨hle, heven⟩ : pos ≤ 0 ∧ pos % 2 = 0 := hd
  have hlt : pos < bytes.length := by omega
  rcases Int.lt_or_eq_of_le hle with hneg | rfl
  · have hnext : pos + 1 < 0 := by omega
    refine ⟨⟨pos + 1 + 1, frame.setVarint (fieldNumber 0) 0⟩, ?_, ?_⟩
    · rw [decodeField, if_pos hlt, readVarint_neg hneg]
      dsimp only
      rw [if_pos (by decide), readVarint_neg hnext]
    · dsimp only
      omega
  · let back : ℤ := 6 + (BitVec.ofNat 32 (2 ^ 31)).toInt
    refine ⟨⟨back, frame.setBytes (fieldNumber 10) (slice bytes 6 back)⟩, ?_, ?_⟩
    · rw [decodeField, if_pos hlt, htag]
      dsimp only
      rw [if_neg (by decide), if_pos (by decide), hlen]
    · show back ≤ 0 ∧ back % 2 = 0
      decide

/-- A signature without bytes is not read back, and a payload of `2 ^ 31` bytes is not read at
all. -/
theorem not_read_back :
    ¬ Decodes (encode 1 0 [7] false (some [])) (readBack 1 0 [7] false (some [])) ∧
      ∀ frame, ¬ Decodes (encode 1 0 (List.replicate (2 ^ 31) 7) false none) frame := by
  constructor
  · intro h
    have hread : Decodes (encode 1 0 [7] false (some [])) (readBack 1 0 [7] false none) :=
      ⟨10, by decide⟩
    have hsignature := congrArg AudioFrame.senderSignature (h.unique hread)
    cases hsignature
  · rintro frame ⟨rounds, hframe⟩
    rw [decodeLoop_large (List.length_replicate ..)] at hframe
    cases hframe

end SpecterComs.FrameProto
