/-
# `Sw.FpgaFilter` — the admin packet writer (`fpga-filter.hh`)

The writer keeps a 64-bit accumulator that it fills from its top bit down, and a
reversal of each field on the way in and of the whole word on the way out.  Read
through `BitVec.reverse` the accumulator fills from bit 0 up, and the writer is the plain
one: bit `n` of what was written is bit `n mod 8` of byte `n / 8`.

    reverseBits64_eq, flushWord_eq    the three bit tricks are `BitVec.reverse`
    Holds b L st                      `st` holds the first `L` bits of the stream `b`
    holds_write                       a call extends them by its low bits
    holds_close                       a closing call pads them to a group of four bytes
    writeToAdminPkt_bits              the 128 bytes of a packet

A state is the file's globals.  A shift by the width of its operand or more, and a
shift of the `int` in the mask past its width, gives zero bits.
-/
import DnsAdtm.Sw.Fpga
import DnsAdtm.SiphashAgree

namespace DnsAdtm.Sw

/-! ## The bit tricks -/

/-- One turn of the loop of `reverse_bits_64`. -/
def reverseTurn (nm : BitVec 64 × BitVec 64) (s : Nat) : BitVec 64 × BitVec 64 :=
  let mask := nm.2 ^^^ (nm.2 <<< s)
  (((nm.1 >>> s) &&& mask) ||| ((nm.1 <<< s) &&& ~~~mask), mask)

/-- `reverse_bits_64`; `s` runs through the proper halvings of 64. -/
def reverseBits64 (n : BitVec 64) : BitVec 64 :=
  ([32, 16, 8, 4, 2, 1].foldl reverseTurn (n, BitVec.allOnes 64)).1

/-- The body of the loop of `reverse_bits_byte_64`. -/
def reverseBitsByte (p : BitVec 8) : BitVec 8 :=
  ((p.setWidth 64 * 0x0202020202 &&& 0x010884422010) % 1023).setWidth 8

/-- `reverse_bits_byte_64` -/
def reverseBitsByte64 (n : BitVec 64) : BitVec 64 :=
  ofBytesLE 64 ((bytesLE n 8).map reverseBitsByte)

/-- `__bswap_64` -/
def bswap64 (n : BitVec 64) : BitVec 64 := ofBytesLE 64 (bytesLE n 8).reverse

/-- A turn moves bits: bit `i` comes from `i + s` under the mask and from `i - s` outside. -/
theorem getLsbD_reverseTurn (n m : BitVec 64) (s i : Nat) (hi : i < 64)
    (hs : (m ^^^ (m <<< s)).getLsbD i = false → s ≤ i) :
    (reverseTurn (n, m) s).1.getLsbD i =
      n.getLsbD (if (m ^^^ (m <<< s)).getLsbD i then s + i else i - s) := by
  simp only [reverseTurn, BitVec.getLsbD_or, BitVec.getLsbD_and, BitVec.getLsbD_ushiftRight,
    BitVec.getLsbD_shiftLeft, BitVec.getLsbD_not]
  cases hm : (m ^^^ (m <<< s)).getLsbD i with
  | true => simp
  | false => simp [hi, Nat.not_lt.mpr (hs hm)]

/-- The bit that the turns `ss`, started under the mask `m`, bring to place `i`. -/
def turnSource : List Nat → BitVec 64 → Nat → Option Nat
  | [], _, i => some i
  | s :: ss, m, i =>
      (turnSource ss (m ^^^ (m <<< s)) i).bind fun j =>
        if j < 64 ∧ ((m ^^^ (m <<< s)).getLsbD j = false → s ≤ j) then
          some (if (m ^^^ (m <<< s)).getLsbD j then s + j else j - s)
        else none

theorem getLsbD_turns (ss : List Nat) (n m : BitVec 64) {i j : Nat}
    (h : turnSource ss m i = some j) : (ss.foldl reverseTurn (n, m)).1.getLsbD i = n.getLsbD j := by
  induction ss generalizing n m j with
  | nil =>
      cases h
      rfl
  | cons s ss ih =>
      rw [turnSource, Option.bind_eq_some_iff] at h
      obtain ⟨k, hk, hj⟩ := h
      split at hj
      · rename_i hcond
        cases hj
        rw [List.foldl_cons, ← getLsbD_reverseTurn n m s k hcond.1 hcond.2]
        exact ih _ _ hk
      · cases hj

theorem reverseBits64_eq (n : BitVec 64) : reverseBits64 n = n.reverse := by
  have hsource : ∀ i < 64, turnSource [32, 16, 8, 4, 2, 1] (BitVec.allOnes 64) i = some (63 - i) := by
    decide +kernel
  apply BitVec.eq_of_getLsbD_eq
  intro i hi
  rw [reverseBits64, getLsbD_turns _ n _ (hsource i hi), BitVec.getLsbD_reverse, BitVec.getMsbD,
    decide_eq_true hi, Bool.true_and]

theorem reverseBitsByte_eq : ∀ p : BitVec 8, reverseBitsByte p = p.reverse := by
  decide +kernel

/-- What is written to the file of a full accumulator. -/
theorem flushWord_eq (n : BitVec 64) : reverseBitsByte64 (bswap64 n) = n.reverse := by
  apply BitVec.eq_of_getLsbD_eq
  intro i hi
  have hswap : bytesLE (bswap64 n) 8 = (bytesLE n 8).reverse := by
    rw [bytesLE, bswap64]
    apply List.ext_getElem (by simp)
    intro j hj _
    have hj8 : j < 8 := by simpa using hj
    apply BitVec.eq_of_getLsbD_eq
    intro k hk
    have hdiv : (8 * j + k) / 8 = j := by omega
    have hmod : (8 * j + k) % 8 = k := by omega
    rw [List.getElem_map, List.getElem_range, BitVec.getLsbD_extractLsb', getLsbD_ofBytesLE,
      decide_eq_true hk, decide_eq_true (show 8 * j + k < 64 by omega), Bool.true_and, Bool.true_and,
      bitAt, hdiv, hmod, List.getD_eq_getElem _ _ (by simpa using hj8)]
  have hdiv : i / 8 < 8 := by omega
  rw [reverseBitsByte64, getLsbD_ofBytesLE, decide_eq_true hi, Bool.true_and, hswap, bitAt,
    List.getD_eq_getElem _ _ (by simpa using hdiv), List.getElem_map, reverseBitsByte_eq,
    BitVec.getLsbD_reverse, List.getElem_reverse]
  simp only [bytesLE, List.getElem_map, List.getElem_range, List.length_map, List.length_range,
    BitVec.getMsbD, BitVec.getLsbD_extractLsb', BitVec.getLsbD_reverse]
  rw [decide_eq_true hi, decide_eq_true (show i % 8 < 8 by omega),
    decide_eq_true (show 8 - 1 - i % 8 < 8 by omega)]
  simp only [Bool.true_and]
  congr 1
  omega

/-! ## The writer -/

/-- The globals of the file: `admin_buf`, `admin_buf_bits_clean`, `admin_buf_data_ptr`, the
bytes of `admin_buf_data`, and what has been written to `admin_pkt`. -/
structure AdminBuf where
  adminBuf : BitVec 64
  bitsClean : Nat
  dataPtr : Nat
  data : List (BitVec 8)
  adminPkt : List (BitVec 8)

/-- The globals at the start of the process. -/
def AdminBuf.init : AdminBuf where
  adminBuf := 0
  bitsClean := 64
  dataPtr := 0
  data := List.replicate 128 0
  adminPkt := []

/-- `write_admin_buf_item_and_hash` -/
def writeAdminBufItemAndHash (st : AdminBuf) (buf : BitVec 64) (bytesToWrite : Nat) : AdminBuf :=
  { st with
    data := st.data.take st.dataPtr ++ bytesLE buf bytesToWrite ++
      st.data.drop (st.dataPtr + bytesToWrite)
    dataPtr := st.dataPtr + bytesToWrite
    adminPkt := st.adminPkt ++ bytesLE buf bytesToWrite }

/-- `(1 << (bits_after_write + 1)) - 1`, an `int`, widened for the `&`. -/
def keepMask (bitsAfterWrite : Nat) : BitVec 64 :=
  ((1#32 <<< (bitsAfterWrite + 1)) - 1).signExtend 64

/-- `write_admin_buf` -/
def writeAdminBuf (st : AdminBuf) (call : BitVec 64 × Nat) : AdminBuf :=
  let bits := call.2
  let info := reverseBits64 call.1 >>> (64 - bits)
  if bits = 0 then
    -- dump all admin_buf to admin_pkt, ready to close
    let bytesToWrite := ((64 - st.bitsClean + 7) / 8 + 3) / 4 * 4
    { writeAdminBufItemAndHash st (reverseBitsByte64 (bswap64 st.adminBuf)) bytesToWrite with
      bitsClean := 64
      adminBuf := 0 }
  else if st.bitsClean ≥ bits then
    -- normal case
    { st with
      adminBuf := st.adminBuf ||| (info <<< (st.bitsClean - bits))
      bitsClean := st.bitsClean - bits }
  else
    -- write partially, write to admin_pkt, write the other part
    let bitsAfterWrite := bits - st.bitsClean
    let buf := st.adminBuf ||| (info >>> bitsAfterWrite)
    { writeAdminBufItemAndHash st (reverseBitsByte64 (bswap64 buf)) 8 with
      bitsClean := 64 - bitsAfterWrite
      adminBuf := (info &&& keepMask bitsAfterWrite) <<< (64 - bitsAfterWrite) }

/-- `admin_buf_key` -/
def adminBufKey : BitVec 128 := 0xdecaface1eadf1a91713440219990927

/-- `append_auth_hash`; `none` where the hash function refuses. -/
def appendAuthHash (st : AdminBuf) : Option AdminBuf :=
  (siphash st.data 120 (keyBytes adminBufKey) 8).map fun out =>
    writeAdminBuf (writeAdminBuf st (ofBytesLE 64 out, 64)) (0, 0)

/-- One call for each byte of an array. -/
def byteCalls {n : Nat} (c : Vector (BitVec 8) n) : List (BitVec 64 × Nat) :=
  c.toList.map fun b => (b.setWidth 64, 8)

/-- The calls of `write_admin_buf` for the fields of a filter, in order. -/
def Filter.calls (f : Filter) : List (BitVec 64 × Nat) :=
  [(f.srcMACBW.setWidth 64, 1), (f.srcMACLength.setWidth 64, 2)] ++ f.srcMACList.toList.flatMap byteCalls ++
  [(f.dstMACBW.setWidth 64, 1), (f.dstMACLength.setWidth 64, 2)] ++ f.dstMACList.toList.flatMap byteCalls ++
  [(f.srcIPBW.setWidth 64, 1), (f.srcIPLength.setWidth 64, 2)] ++ f.srcIPList.toList.flatMap byteCalls ++
  [(f.dstIPBW.setWidth 64, 1), (f.dstIPLength.setWidth 64, 2)] ++ f.dstIPList.toList.flatMap byteCalls ++
  [(f.srcPortBW.setWidth 64, 1), (f.srcPortLength.setWidth 64, 2)] ++
    f.srcPortList.toList.map (fun p => ((bswap16 p).setWidth 64, 16)) ++
  [(f.dstPortBW.setWidth 64, 1), (f.dstPortLength.setWidth 64, 2)] ++
    f.dstPortList.toList.map (fun p => ((bswap16 p).setWidth 64, 16)) ++
  [(f.dnsBW.setWidth 64, 1), (f.dnsLength.setWidth 64, 2)] ++
    f.dnsItemEndPtr.toList.map (fun p => (p.setWidth 64, 8)) ++ f.dnsList.toList.flatMap byteCalls ++
  [(f.replyType.setWidth 64, 1)]

/-- `write_to_admin_pkt`, on a file that opens: the globals after it, with the bytes of the
file in `adminPkt`. -/
def writeToAdminPkt (f : Filter) (st : AdminBuf) : Option AdminBuf :=
  let st := { st with dataPtr := 0, data := List.replicate 120 0 ++ st.data.drop 120, adminPkt := [] }
  let st := f.calls.foldl writeAdminBuf st
  let st := writeAdminBuf st (0, 0)
  let st := (List.replicate 4 (0, 64)).foldl writeAdminBuf st
  -- closing
  let st := writeAdminBuf st (0, 0)
  appendAuthHash st

/-! ## The writer's law -/

/-- The writer, `len` bytes into the file and with `clean` free bits in the accumulator,
has written the bits of `b`, and its copy for the hash agrees with the file. -/
structure Holds (b : Nat → Bool) (len clean : Nat) (st : AdminBuf) : Prop where
  free : st.bitsClean = clean
  free_le : clean ≤ 64
  length : st.adminPkt.length = len
  ptr : st.dataPtr = len
  data : st.data.take len = st.adminPkt
  written : ∀ n, n < 8 * len → bitAt st.adminPkt n = b n
  pending : ∀ n, st.adminBuf.reverse.getLsbD n = (decide (n < 64 - clean) && b (8 * len + n))

/-- Where a call of `bits` bits takes the two positions. -/
def advance (pos : Nat × Nat) (bits : Nat) : Nat × Nat :=
  if bits ≤ pos.2 then (pos.1, pos.2 - bits) else (pos.1 + 8, 64 - (bits - pos.2))

theorem getLsbD_reverse' (x : BitVec 64) (n : Nat) :
    x.reverse.getLsbD n = (decide (n < 64) && x.getLsbD (63 - n)) := by
  rw [BitVec.getLsbD_reverse, BitVec.getMsbD]

/-- The field as the accumulator takes it: reversed, in the low bits. -/
theorem getLsbD_info (info : BitVec 64) {bits : Nat} (hbits : bits ≤ 64) (k : Nat) :
    (reverseBits64 info >>> (64 - bits)).getLsbD k =
      (decide (k < bits) && info.getLsbD (bits - 1 - k)) := by
  rw [reverseBits64_eq, BitVec.getLsbD_ushiftRight, getLsbD_reverse']
  by_cases hk : k < bits
  · rw [decide_eq_true hk, decide_eq_true (show 64 - bits + k < 64 by omega),
      show 63 - (64 - bits + k) = bits - 1 - k by omega]
  · rw [decide_eq_false hk, decide_eq_false (show ¬ 64 - bits + k < 64 by omega), Bool.false_and,
      Bool.false_and]

/-- The mask keeps what is left of the field. -/
theorem getLsbD_keepMask {m k : Nat} (hk : k < m) (hk64 : k < 64) : (keepMask m).getLsbD k = true := by
  rcases Nat.lt_or_ge m 31 with hm | hm
  · have hall : ∀ m < 31, ∀ k < m, (keepMask m).getLsbD k = true := by decide +kernel
    exact hall m hm k hk
  · have hones : ∀ k < 64, ((0 - 1 : BitVec 32).signExtend 64).getLsbD k = true := by decide +kernel
    rw [keepMask, BitVec.shiftLeft_eq_zero (by omega)]
    exact hones k hk64

variable {b b' : Nat → Bool} {len clean : Nat} {st : AdminBuf}

theorem Holds.congr (h : Holds b len clean st) (hb : ∀ n, n < 8 * len + (64 - clean) → b n = b' n) :
    Holds b' len clean st where
  free := h.free
  free_le := h.free_le
  length := h.length
  ptr := h.ptr
  data := h.data
  written n hn := by rw [h.written n hn, hb n (by omega)]
  pending n := by
    rw [h.pending]
    by_cases hn : n < 64 - clean
    · rw [hb _ (by omega)]
    · rw [decide_eq_false hn, Bool.false_and, Bool.false_and]

/-- Emptying the accumulator: `k` of its bytes go to the file and to the copy. -/
theorem Holds.flush (h : Holds b len clean st) (buf : BitVec 64) (k : Nat)
    (hbuf : ∀ n, n < 8 * k → buf.getLsbD n = b (8 * len + n)) :
    (writeAdminBufItemAndHash st buf k).adminPkt.length = len + k ∧
      (writeAdminBufItemAndHash st buf k).dataPtr = len + k ∧
      (writeAdminBufItemAndHash st buf k).data.take (len + k) =
        (writeAdminBufItemAndHash st buf k).adminPkt ∧
      ∀ n, n < 8 * (len + k) → bitAt (writeAdminBufItemAndHash st buf k).adminPkt n = b n := by
  have htake : (st.data.take len ++ bytesLE buf k).length = len + k := by
    rw [List.length_append, h.data, h.length, length_bytesLE]
  refine ⟨?_, by simp [writeAdminBufItemAndHash, h.ptr], ?_, fun n hn => ?_⟩
  · simp [writeAdminBufItemAndHash, h.length]
  · simp only [writeAdminBufItemAndHash, h.ptr]
    rw [List.take_append_of_le_length (by omega), ← h.data, ← htake, List.take_length]
  · simp only [writeAdminBufItemAndHash]
    rw [bitAt_append, h.length]
    by_cases hold : n < 8 * len
    · rw [if_pos hold, h.written n hold]
    · rw [if_neg hold, bitAt_bytesLE _ (by omega), hbuf _ (by omega)]
      congr 1
      omega

/-- A call writes the low bits of its field behind what is written. -/
theorem holds_write (h : Holds b len clean st) (info : BitVec 64) (bits : Nat) (hpos : 1 ≤ bits)
    (hbits : bits ≤ 64)
    (hinfo : ∀ j, j < bits → info.getLsbD j = b (8 * len + (64 - clean) + j)) :
    Holds b (advance (len, clean) bits).1 (advance (len, clean) bits).2
      (writeAdminBuf st (info, bits)) := by
  have hle := h.free_le
  unfold writeAdminBuf advance
  simp only [h.free, show bits ≠ 0 by omega, if_false]
  by_cases hroom : bits ≤ clean
  · -- normal case
    simp only [hroom, if_true]
    refine ⟨rfl, by omega, h.length, h.ptr, h.data, h.written, fun n => ?_⟩
    have hold := h.pending n
    rw [getLsbD_reverse'] at hold
    rw [getLsbD_reverse', BitVec.getLsbD_or, BitVec.getLsbD_shiftLeft, getLsbD_info info hbits,
      Bool.and_or_distrib_left, hold]
    by_cases hn : n < 64 - clean
    · simp [hn, show n < 64 - (clean - bits) by omega, show ¬ 63 - n - (clean - bits) < bits by omega]
    · by_cases hn' : n < 64 - (clean - bits)
      · have hj := hinfo (n - (64 - clean)) (by omega)
        rw [show 8 * len + (64 - clean) + (n - (64 - clean)) = 8 * len + n by omega] at hj
        simp [hn, hn', show n < 64 by omega, show 63 - n < 64 by omega,
          show ¬ 63 - n < clean - bits by omega, show 63 - n - (clean - bits) < bits by omega,
          show bits - 1 - (63 - n - (clean - bits)) = n - (64 - clean) by omega, ← hj]
      · simp only [hn, hn', decide_false, Bool.false_and, Bool.false_or]
        by_cases h64 : n < 64
        · simp [show 63 - n < clean - bits by omega]
        · simp [h64]
  · -- write partially
    simp only [hroom, if_false, flushWord_eq]
    have hbuf : ∀ n, n < 8 * 8 →
        (st.adminBuf ||| (reverseBits64 info >>> (64 - bits)) >>> (bits - clean)).reverse.getLsbD n =
          b (8 * len + n) := by
      intro n hn
      have hold := h.pending n
      rw [getLsbD_reverse', decide_eq_true (show n < 64 by omega), Bool.true_and] at hold
      rw [getLsbD_reverse', BitVec.getLsbD_or, BitVec.getLsbD_ushiftRight, getLsbD_info info hbits, hold]
      by_cases hn' : n < 64 - clean
      · simp [hn', show n < 64 by omega, show ¬ bits - clean + (63 - n) < bits by omega]
      · have hj := hinfo (n - (64 - clean)) (by omega)
        rw [show 8 * len + (64 - clean) + (n - (64 - clean)) = 8 * len + n by omega] at hj
        simp [hn', show n < 64 by omega, show bits - clean + (63 - n) < bits by omega,
          show bits - 1 - (bits - clean + (63 - n)) = n - (64 - clean) by omega, ← hj]
    obtain ⟨hlen, hptr, hdata, hwritten⟩ := h.flush _ 8 hbuf
    refine ⟨rfl, by omega, hlen, hptr, hdata, hwritten, fun n => ?_⟩
    rw [getLsbD_reverse', BitVec.getLsbD_shiftLeft, BitVec.getLsbD_and, getLsbD_info info hbits]
    by_cases hn : n < bits - clean
    · have hj := hinfo (clean + n) (by omega)
      rw [show 8 * len + (64 - clean) + (clean + n) = 8 * (len + 8) + n by omega] at hj
      have hkeep : (keepMask (bits - clean)).getLsbD (63 - n - (64 - (bits - clean))) = true :=
        getLsbD_keepMask (by omega) (by omega)
      simp [hkeep, show n < 64 by omega, show 63 - n < 64 by omega,
        show ¬ 63 - n < 64 - (bits - clean) by omega,
        show 63 - n - (64 - (bits - clean)) < bits by omega,
        show bits - 1 - (63 - n - (64 - (bits - clean))) = clean + n by omega, ← hj,
        show n < 64 - (64 - (bits - clean)) by omega]
    · rw [decide_eq_false (show ¬ n < 64 - (64 - (bits - clean)) by omega), Bool.false_and]
      by_cases h64 : n < 64
      · simp [show 63 - n < 64 - (bits - clean) by omega]
      · simp [h64]

/-- A closing call empties the accumulator, padded with zeros to a group of four bytes. -/
theorem holds_close (h : Holds b len clean st) (info : BitVec 64) {k : Nat}
    (hk : k = ((64 - clean + 7) / 8 + 3) / 4 * 4)
    (hpad : ∀ n, 8 * len + (64 - clean) ≤ n → n < 8 * (len + k) → b n = false) :
    Holds b (len + k) 64 (writeAdminBuf st (info, 0)) := by
  unfold writeAdminBuf
  simp only [h.free, ← hk, if_true, flushWord_eq]
  have hbuf : ∀ n, n < 8 * k → st.adminBuf.reverse.getLsbD n = b (8 * len + n) := by
    intro n hn
    rw [h.pending]
    by_cases hn' : n < 64 - clean
    · rw [decide_eq_true hn', Bool.true_and]
    · rw [decide_eq_false hn', Bool.false_and, hpad _ (by omega) (by omega)]
  obtain ⟨hlen, hptr, hdata, hwritten⟩ := h.flush _ k hbuf
  refine ⟨rfl, Nat.le_refl _, hlen, hptr, hdata, hwritten, fun n => ?_⟩
  simp [getLsbD_reverse']

/-- The low bits of the calls, as segments. -/
def callSegs (calls : List (BitVec 64 × Nat)) : List Seg :=
  calls.map fun c => ⟨c.2, c.1.setWidth c.2⟩

/-- A run of calls writes their low bits one after another. -/
theorem holds_calls (calls : List (BitVec 64 × Nat)) (h : Holds b len clean st)
    (hcalls : ∀ c ∈ calls, 1 ≤ c.2 ∧ c.2 ≤ 64)
    (hb : ∀ j, j < widths (callSegs calls) →
      b (8 * len + (64 - clean) + j) = stream (callSegs calls) j) :
    Holds b ((calls.map (·.2)).foldl advance (len, clean)).1
      ((calls.map (·.2)).foldl advance (len, clean)).2 (calls.foldl writeAdminBuf st) := by
  induction calls generalizing st len clean with
  | nil => exact h
  | cons c calls ih =>
      obtain ⟨info, bits⟩ := c
      obtain ⟨hpos, hbits⟩ := hcalls _ (List.mem_cons_self ..)
      have hsegs : callSegs ((info, bits) :: calls) = ⟨bits, info.setWidth bits⟩ :: callSegs calls := rfl
      rw [hsegs, widths_cons] at hb
      simp only at hb hpos hbits
      have hstep := holds_write h info bits hpos hbits fun j hj => by
        have := hb j (by omega)
        rw [stream, if_pos hj, BitVec.getLsbD_setWidth, decide_eq_true hj, Bool.true_and] at this
        exact this.symm
      have hle := h.free_le
      have hpos' : 8 * (advance (len, clean) bits).1 + (64 - (advance (len, clean) bits).2) =
          8 * len + (64 - clean) + bits := by
        unfold advance
        split <;> simp only <;> omega
      have hbehind : ∀ j, j < widths (callSegs calls) → b (8 * (advance (len, clean) bits).1 +
          (64 - (advance (len, clean) bits).2) + j) = stream (callSegs calls) j := by
        intro j hj
        have := hb (bits + j) (by omega)
        rw [stream, if_neg (by omega), Nat.add_sub_cancel_left] at this
        rw [hpos', Nat.add_assoc (8 * len + (64 - clean)), this]
      exact ih hstep (fun c hc => hcalls c (List.mem_cons_of_mem _ hc)) hbehind

/-! ## A packet -/

/-- Between two packets the accumulator is empty. -/
structure AdminBuf.Fresh (st : AdminBuf) : Prop where
  buf : st.adminBuf = 0
  free : st.bitsClean = 64

/-- The globals after any packets written by the process. -/
inductive AdminBuf.Reachable : AdminBuf → Prop
  | start : AdminBuf.Reachable .init
  | write {st st' : AdminBuf} (f : Filter) : AdminBuf.Reachable st → writeToAdminPkt f st = some st' →
      AdminBuf.Reachable st'

theorem callSegs_append (a b : List (BitVec 64 × Nat)) :
    callSegs (a ++ b) = callSegs a ++ callSegs b :=
  List.map_append

theorem vector_two {α : Type} (l : Vector α 2) :
    l.toList = [getElem l 0 Nat.zero_lt_two, getElem l 1 Nat.one_lt_two] := by
  apply List.ext_getElem (by simp)
  intro i hi _
  have hi2 : i < 2 := by simpa using hi
  rcases (by omega : i = 0 ∨ i = 1) with rfl | rfl <;> simp

theorem byteCalls_bits {n : Nat} (l : Vector (Vector (BitVec 8) n) 2) :
    (l.toList.flatMap byteCalls).map (·.2) = List.replicate (n + n) 8 := by
  rw [vector_two, List.flatMap_cons, List.flatMap_cons, List.flatMap_nil, List.append_nil,
    List.map_append, ← List.replicate_append_replicate]
  simp [byteCalls, Function.comp_def, List.map_const']

/-- The widths of the calls for a filter. -/
def callBits : List Nat :=
  [1, 2] ++ List.replicate 12 8 ++ [1, 2] ++ List.replicate 12 8 ++ [1, 2] ++ List.replicate 8 8 ++
  [1, 2] ++ List.replicate 8 8 ++ [1, 2] ++ [16, 16] ++ [1, 2] ++ [16, 16] ++
  [1, 2] ++ [8, 8] ++ List.replicate 32 8 ++ [1]

theorem callBits_le : ∀ n ∈ callBits, 1 ≤ n ∧ n ≤ 64 := by decide

/-- The fields fill 80 bytes and leave 26 bits of the accumulator free. -/
theorem callBits_advance : callBits.foldl advance (0, 64) = (80, 26) := by
  decide +kernel

theorem calls_bits (f : Filter) : f.calls.map (·.2) = callBits := by
  have hports : ∀ l : Vector (BitVec 16) 2,
      (l.toList.map fun p => ((bswap16 p).setWidth 64, 16)).map (·.2) = [16, 16] := by
    intro l
    simp [vector_two]
  have hptrs : ∀ l : Vector (BitVec 8) 2,
      (l.toList.map fun p => (p.setWidth 64, 8)).map (·.2) = [8, 8] := by
    intro l
    simp [vector_two]
  simp only [callBits, Filter.calls, List.map_append, byteCalls_bits, hports, hptrs, List.map_cons, List.map_nil]

/-- The calls for a filter write the hardware's layout of it. -/
theorem calls_samePacking (f : Filter) : SamePacking (callSegs f.calls) f.toHw.segments := by
  have hhead : ∀ (bw : BitVec 1) (n : BitVec 2), callSegs [(bw.setWidth 64, 1), (n.setWidth 64, 2)] =
      [⟨1, BitVec.ofBool (bw.getLsbD 0)⟩, ⟨2, BitVec.ofNat 2 n.toNat⟩] := by
    decide +kernel
  have hreply : ∀ b : BitVec 1, callSegs [(b.setWidth 64, 1)] = [⟨1, BitVec.ofBool (b.getLsbD 0)⟩] := by
    decide +kernel
  have hbytes : ∀ {n : Nat} (l : Vector (Vector (BitVec 8) n) 2),
      SamePacking (callSegs (l.toList.flatMap byteCalls))
        ([⟨8 * n, hwBytes l[0]⟩] ++ [⟨8 * n, hwBytes l[1]⟩]) := by
    intro n l
    have hone : ∀ c : Vector (BitVec 8) n,
        SamePacking (callSegs (byteCalls c)) [⟨8 * n, hwBytes c⟩] := by
      intro c
      have : callSegs (byteCalls c) = c.toList.map fun b => ⟨8, b⟩ := by
        simp [callSegs, byteCalls]
      rw [this]
      exact samePacking_bytes (by simp)
    rw [vector_two, List.flatMap_cons, List.flatMap_cons, List.flatMap_nil, List.append_nil,
      callSegs_append]
    exact (hone _).append (hone _)
  have hports : ∀ l : Vector (BitVec 16) 2,
      callSegs (l.toList.map fun p => ((bswap16 p).setWidth 64, 16)) =
        [⟨16, bswap16 l[0]⟩, ⟨16, bswap16 l[1]⟩] := by
    intro l
    simp [vector_two, callSegs]
  have hptrs : ∀ l : Vector (BitVec 8) 2, callSegs (l.toList.map fun p => (p.setWidth 64, 8)) =
      [⟨8, BitVec.ofNat 8 l[0].toNat⟩, ⟨8, BitVec.ofNat 8 l[1].toNat⟩] := by
    intro l
    simp [vector_two, callSegs]
  simp only [Filter.calls, callSegs_append, hhead, hports, hptrs, hreply, Hw.Filter.segments,
    Filter.toHw, Vector.getElem_map]
  -- only the byte arrays are cut differently
  have h₄ : ∀ a b c d : List Seg, SamePacking
      (a ++ callSegs (f.srcMACList.toList.flatMap byteCalls) ++ b ++
        callSegs (f.dstMACList.toList.flatMap byteCalls) ++ c ++
        callSegs (f.srcIPList.toList.flatMap byteCalls) ++ d ++
        callSegs (f.dstIPList.toList.flatMap byteCalls)) _ := fun a b c d =>
    (((((((SamePacking.refl a).append (hbytes f.srcMACList)).append
      (SamePacking.refl b)).append (hbytes f.dstMACList)).append
      (SamePacking.refl c)).append (hbytes f.srcIPList)).append
      (SamePacking.refl d)).append (hbytes f.dstIPList)
  refine SamePacking.trans_eq ((((((((((h₄ _ _ _ _).append (SamePacking.refl _)).append
    (SamePacking.refl _)).append (SamePacking.refl _)).append (SamePacking.refl _)).append
    (SamePacking.refl _)).append (SamePacking.refl _))).append (hbytes f.dnsList)).append
    (SamePacking.refl _)) ?_
  simp only [List.cons_append, List.nil_append]

/-- What a packet holds: the layout of the filter, zeros up to bit 960, and the tag. -/
structure AdminPkt (f : Filter) (bytes : List (BitVec 8)) : Prop where
  length : bytes.length = 128
  payload : ∀ n, n < 960 → bitAt bytes n = stream f.toHw.segments n
  tag : ∀ n, n < 64 → bitAt bytes (960 + n) =
    (Hw.hashOf adminBufKey (field (stream f.toHw.segments) 0 960)).getLsbD n

section Packet
variable {f : Filter}

/-- The fields, up to bit 678. -/
theorem holds_fields (h : Holds (stream f.toHw.segments) 0 64 st) :
    Holds (stream f.toHw.segments) 80 26 (f.calls.foldl writeAdminBuf st) := by
  have hwritten := holds_calls f.calls h
    (fun c hc => by
      have hmem : c.2 ∈ f.calls.map (·.2) := List.mem_map_of_mem hc
      rw [calls_bits] at hmem
      exact callBits_le _ hmem)
    (fun j _ => by
      rw [(calls_samePacking f).stream]
      congr 1
      omega)
  rw [calls_bits, callBits_advance] at hwritten
  exact hwritten

theorem stream_segments_of_ge {n : Nat} (hn : 678 ≤ n) : stream f.toHw.segments n = false :=
  stream_of_ge _ _ (by rw [Hw.Filter.widths_segments]; exact hn)

/-- Closed behind the fields, padded by four zero words, and closed again: 120 bytes. -/
theorem holds_padding (h : Holds (stream f.toHw.segments) 80 26 st) :
    Holds (stream f.toHw.segments) 120 64
      (writeAdminBuf ((List.replicate 4 (0, 64)).foldl writeAdminBuf (writeAdminBuf st (0, 0))) (0, 0)) := by
  have hclose : Holds (stream f.toHw.segments) 88 64 (writeAdminBuf st (0, 0)) :=
    holds_close h 0 (k := 8) (by decide) fun n hn _ => stream_segments_of_ge (by omega)
  have hzeros : ∀ j < 256, stream (callSegs (List.replicate 4 (0, 64))) j = false := by
    decide +kernel
  have hwords := holds_calls (List.replicate 4 (0, 64)) hclose (by decide) fun j hj => by
    rw [stream_segments_of_ge (by omega)]
    exact (hzeros j hj).symm
  have hpos : ((List.replicate 4 ((0 : BitVec 64), 64)).map (·.2)).foldl advance (88, 64) = (112, 0) := by
    decide
  rw [hpos] at hwords
  exact holds_close hwords 0 (k := 8) (by decide) fun n hn _ => stream_segments_of_ge (by simp only at hn; omega)

/-- The tag of the 120 bytes so far goes behind them. -/
theorem holds_tag (h : Holds b 120 64 st) :
    ∃ st', appendAuthHash st = some st' ∧ st'.Fresh ∧ st'.adminPkt.length = 128 ∧
      (∀ n, n < 960 → bitAt st'.adminPkt n = b n) ∧
      (∀ n, n < 64 → bitAt st'.adminPkt (960 + n) =
        (Hw.hashOf adminBufKey (field b 0 960)).getLsbD n) := by
  have hhash : siphash st.data 120 (keyBytes adminBufKey) 8 =
      some (bytesLE (Hw.hashOf adminBufKey (field b 0 960)) 8) := by
    refine siphash_eq_hashOf adminBufKey _ fun i hi => ?_
    have hdata : bitAt st.data i = bitAt st.adminPkt i := by
      rw [← h.data, bitAt, bitAt, List.getD_eq_getElem?_getD, List.getD_eq_getElem?_getD,
        List.getElem?_take_of_lt (by omega)]
    rw [hdata, h.written i (by omega), getLsbD_field, decide_eq_true hi, Bool.true_and, Nat.zero_add]
  generalize Hw.hashOf adminBufKey (field b 0 960) = tag at hhash
  have hout : ofBytesLE 64 (bytesLE tag 8) = tag := by
    rw [ofBytesLE_bytesLE _ (by omega)]
    simp
  have htarget : Holds (fun n => if n < 960 then b n else tag.getLsbD (n - 960)) 120 64 st :=
    h.congr fun n hn => by rw [if_pos (by omega)]
  have htag : Holds (fun n => if n < 960 then b n else tag.getLsbD (n - 960)) 120 0
      (writeAdminBuf st (tag, 64)) :=
    holds_write htarget tag 64 (by decide) (by decide) fun j hj => by
      rw [if_neg (by omega), show 8 * 120 + (64 - 64) + j - 960 = j by omega]
  have hclose : Holds (fun n => if n < 960 then b n else tag.getLsbD (n - 960)) 128 64
      (writeAdminBuf (writeAdminBuf st (tag, 64)) (0, 0)) :=
    holds_close htag 0 (k := 8) (by decide) fun n hn hn' => absurd hn' (by omega)
  refine ⟨_, ?_, ⟨?_, hclose.free⟩, hclose.length, fun n hn => ?_, fun n hn => ?_⟩
  · rw [appendAuthHash, hhash, Option.map_some, hout]
  · simp [writeAdminBuf]
  · rw [hclose.written n (by omega), if_pos hn]
  · rw [hclose.written _ (by omega), if_neg (by omega), Nat.add_sub_cancel_left]

/-- One packet, from an empty accumulator to an empty accumulator. -/
theorem writeToAdminPkt_spec (f : Filter) (hst : st.Fresh) :
    ∃ st', writeToAdminPkt f st = some st' ∧ st'.Fresh ∧ AdminPkt f st'.adminPkt := by
  have hempty : Holds (stream f.toHw.segments) 0 64 { st with
      dataPtr := 0, data := List.replicate 120 0 ++ st.data.drop 120, adminPkt := [] } :=
    ⟨hst.free, Nat.le_refl _, rfl, rfl, rfl, fun n hn => absurd hn (by omega), fun n => by
      simp [hst.buf, getLsbD_reverse']⟩
  obtain ⟨st', hw, hfresh, hlen, hpayload, htag⟩ := holds_tag (holds_padding (holds_fields hempty))
  exact ⟨st', hw, hfresh, hlen, hpayload, htag⟩

end Packet

theorem AdminBuf.Reachable.fresh {st : AdminBuf} (h : st.Reachable) : st.Fresh := by
  induction h with
  | start => exact ⟨rfl, rfl⟩
  | write f _ hw ih =>
      obtain ⟨st', hw', hfresh, _⟩ := writeToAdminPkt_spec f ih
      rw [hw] at hw'
      cases hw'
      exact hfresh

end DnsAdtm.Sw
