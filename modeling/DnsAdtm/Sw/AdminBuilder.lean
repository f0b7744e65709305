/-
# `Sw.AdminBuilder` — the stand-alone packet builder (`admin-builder.cc`)

A second copy of the bit writer and of the sequence of fields.  The accumulator is that of
`fpga-filter.hh`; but its `filter_t` has no `replyType`, a port is written as it is stored,
nothing is padded to 120 bytes, and what goes behind the fields is no SipHash tag: it is the
exclusive or of a key and of the 32-bit words written so far.

    twin_write          the copy of the writer does what the original does
    hashVal_write       the running hash is that of the words in the file
    writeToFile_bits    the 92 bytes of a file
-/
import DnsAdtm.Sw.FpgaFilter

namespace DnsAdtm.Sw

/-- `filter_t` of `fpga-prober.hh` -/
structure BuilderFilter where
  srcMACBW : BitVec 1
  srcMACLength : BitVec 2
  srcMACList : Vector MacAddr filterDepth
  dstMACBW : BitVec 1
  dstMACLength : BitVec 2
  dstMACList : Vector MacAddr filterDepth
  srcIPBW : BitVec 1
  srcIPLength : BitVec 2
  srcIPList : Vector IpAddr filterDepth
  dstIPBW : BitVec 1
  dstIPLength : BitVec 2
  dstIPList : Vector IpAddr filterDepth
  srcPortBW : BitVec 1
  srcPortLength : BitVec 2
  srcPortList : Vector (BitVec 16) filterDepth
  dstPortBW : BitVec 1
  dstPortLength : BitVec 2
  dstPortList : Vector (BitVec 16) filterDepth
  dnsBW : BitVec 1
  dnsLength : BitVec 2
  dnsItemEndPtr : Vector (BitVec 8) filterDepth
  dnsList : Vector DnsFilterItem filterDepth
  deriving DecidableEq

/-! ## The writer -/

/-- The globals of the file: `buf`, `bits_clean`, `hash_val`, and what has been written. -/
structure BuilderBuf where
  buf : BitVec 64
  bitsClean : Nat
  hashVal : BitVec 32
  file : List (BitVec 8)

def BuilderBuf.init : BuilderBuf where
  buf := 0
  bitsClean := 64
  hashVal := 0
  file := []

/-- `write_buf_item_and_hash` -/
def writeBufItemAndHash (st : BuilderBuf) (buf : BitVec 64) (bytesToWrite : Nat) : BuilderBuf :=
  { st with
    hashVal := st.hashVal ^^^ (buf &&& 0xffffffff).setWidth 32 ^^^
      ((buf &&& 0xffffffff00000000) >>> 32).setWidth 32
    file := st.file ++ bytesLE buf bytesToWrite }

/-- `write_buf` -/
def writeBuf (st : BuilderBuf) (call : BitVec 64 × Nat) : BuilderBuf :=
  let bits := call.2
  let info := reverseBits64 call.1 >>> (64 - bits)
  if bits = 0 then
    -- dump all buf to file, ready to close
    let bytesToWrite := ((64 - st.bitsClean + 7) / 8 + 3) / 4 * 4
    { writeBufItemAndHash st (reverseBitsByte64 (bswap64 st.buf)) bytesToWrite with
      bitsClean := 64
      buf := 0 }
  else if st.bitsClean ≥ bits then
    -- normal case
    { st with
      buf := st.buf ||| (info <<< (st.bitsClean - bits))
      bitsClean := st.bitsClean - bits }
  else
    -- write partially, write to file, write the other part
    let bitsAfterWrite := bits - st.bitsClean
    let buf := st.buf ||| (info >>> bitsAfterWrite)
    { writeBufItemAndHash st (reverseBitsByte64 (bswap64 buf)) 8 with
      bitsClean := 64 - bitsAfterWrite
      buf := (info &&& keepMask bitsAfterWrite) <<< (64 - bitsAfterWrite) }

/-- `key` -/
def builderKey : BitVec 32 := 0xdecaface

/-- `append_auth_hash` -/
def appendBuilderHash (st : BuilderBuf) : BuilderBuf :=
  writeBuf (writeBuf st (st.hashVal.setWidth 64, 32)) (0, 0)

/-- The calls of `write_buf` for the fields of a filter, in order. -/
def BuilderFilter.calls (f : BuilderFilter) : List (BitVec 64 × Nat) :=
  [(f.srcMACBW.setWidth 64, 1), (f.srcMACLength.setWidth 64, 2)] ++ f.srcMACList.toList.flatMap byteCalls ++
  [(f.dstMACBW.setWidth 64, 1), (f.dstMACLength.setWidth 64, 2)] ++ f.dstMACList.toList.flatMap byteCalls ++
  [(f.srcIPBW.setWidth 64, 1), (f.srcIPLength.setWidth 64, 2)] ++ f.srcIPList.toList.flatMap byteCalls ++
  [(f.dstIPBW.setWidth 64, 1), (f.dstIPLength.setWidth 64, 2)] ++ f.dstIPList.toList.flatMap byteCalls ++
  [(f.srcPortBW.setWidth 64, 1), (f.srcPortLength.setWidth 64, 2)] ++
    f.srcPortList.toList.map (fun p => (p.setWidth 64, 16)) ++
  [(f.dstPortBW.setWidth 64, 1), (f.dstPortLength.setWidth 64, 2)] ++
    f.dstPortList.toList.map (fun p => (p.setWidth 64, 16)) ++
  [(f.dnsBW.setWidth 64, 1), (f.dnsLength.setWidth 64, 2)] ++
    f.dnsItemEndPtr.toList.map (fun p => (p.setWidth 64, 8)) ++ f.dnsList.toList.flatMap byteCalls

/-- `write_to_file`, on a file that opens. -/
def writeToFile (f : BuilderFilter) (st : BuilderBuf) : BuilderBuf :=
  let st := { st with file := [], hashVal := builderKey }
  let st := f.calls.foldl writeBuf st
  -- closing
  let st := writeBuf st (0, 0)
  appendBuilderHash st

/-! ## The copy and the original -/

/-- The filter of `fpga.hh`, with `replyType` clear. -/
def BuilderFilter.toFilter (f : BuilderFilter) : Filter where
  srcMACBW := f.srcMACBW
  srcMACLength := f.srcMACLength
  srcMACList := f.srcMACList
  dstMACBW := f.dstMACBW
  dstMACLength := f.dstMACLength
  dstMACList := f.dstMACList
  srcIPBW := f.srcIPBW
  srcIPLength := f.srcIPLength
  srcIPList := f.srcIPList
  dstIPBW := f.dstIPBW
  dstIPLength := f.dstIPLength
  dstIPList := f.dstIPList
  srcPortBW := f.srcPortBW
  srcPortLength := f.srcPortLength
  srcPortList := f.srcPortList
  dstPortBW := f.dstPortBW
  dstPortLength := f.dstPortLength
  dstPortList := f.dstPortList
  dnsBW := f.dnsBW
  dnsLength := f.dnsLength
  dnsItemEndPtr := f.dnsItemEndPtr
  dnsList := f.dnsList
  replyType := 0

/-- The filter for which `write_to_admin_pkt` would write the same fields: its swap of the ports
undoes this one. -/
def BuilderFilter.asWritten (f : BuilderFilter) : Filter :=
  { f.toFilter with
    srcPortList := f.srcPortList.map bswap16
    dstPortList := f.dstPortList.map bswap16 }

/-- The original writes one bit more. -/
theorem calls_asWritten (f : BuilderFilter) : f.asWritten.calls = f.calls ++ [(0, 1)] := by
  have hports : ∀ l : Vector (BitVec 16) filterDepth,
      (l.map bswap16).toList.map (fun p => ((bswap16 p).setWidth 64, 16)) =
        l.toList.map fun p => (p.setWidth 64, 16) := by
    intro l
    simp [Vector.toList_map, Function.comp_def, bswap16_bswap16]
  simp only [Filter.calls, BuilderFilter.calls, BuilderFilter.asWritten, BuilderFilter.toFilter, hports]
  rfl

/-- The accumulators and the files agree. -/
structure Twin (st : BuilderBuf) (a : AdminBuf) : Prop where
  buf : st.buf = a.adminBuf
  bitsClean : st.bitsClean = a.bitsClean
  file : st.file = a.adminPkt

theorem twin_write {st : BuilderBuf} {a : AdminBuf} (h : Twin st a) (call : BitVec 64 × Nat) :
    Twin (writeBuf st call) (writeAdminBuf a call) := by
  simp only [writeBuf, writeAdminBuf, h.buf, h.bitsClean]
  split_ifs with hclose hroom
  · exact ⟨rfl, rfl, by simp only [writeBufItemAndHash, writeAdminBufItemAndHash, h.file]⟩
  · exact ⟨rfl, rfl, h.file⟩
  · exact ⟨rfl, rfl, by simp only [writeBufItemAndHash, writeAdminBufItemAndHash, h.file]⟩

theorem twin_calls {st : BuilderBuf} {a : AdminBuf} (h : Twin st a) (calls : List (BitVec 64 × Nat)) :
    Twin (calls.foldl writeBuf st) (calls.foldl writeAdminBuf a) := by
  induction calls generalizing st a with
  | nil => exact h
  | cons call calls ih => exact ih (twin_write h call)

/-! ## The running hash -/

/-- The exclusive or of the key and of the first words of a stream. -/
def checksum (b : Nat → Bool) (words : Nat) : BitVec 32 :=
  (List.range words).foldl (fun h i => h ^^^ field b (32 * i) 32) builderKey

theorem checksum_succ (b : Nat → Bool) (n : Nat) : checksum b (n + 1) = checksum b n ^^^ field b (32 * n) 32 := by
  rw [checksum, List.range_succ, List.foldl_append, List.foldl_cons, List.foldl_nil, checksum]

theorem checksum_congr {b b' : Nat → Bool} {n : Nat} (h : ∀ i < 32 * n, b i = b' i) : checksum b n = checksum b' n := by
  induction n with
  | zero => rw [checksum, checksum, List.range_zero, List.foldl_nil, List.foldl_nil]
  | succ n ih =>
      rw [checksum_succ, checksum_succ, ih fun i hi => h i (by omega),
        field_congr fun i hi => h (32 * n + i) (by omega)]

/-- The file has been written in words of 64 bits, and the hash is theirs. -/
structure Hashed (st : BuilderBuf) : Prop where
  words : 8 ∣ st.file.length
  hashVal : st.hashVal = checksum (bitAt st.file) (st.file.length / 4)

theorem hashed_flush {st : BuilderBuf} (h : Hashed st) (buf : BitVec 64) : Hashed (writeBufItemAndHash st buf 8) := by
  have hfile : (writeBufItemAndHash st buf 8).file = st.file ++ bytesLE buf 8 := rfl
  have hlen : (st.file ++ bytesLE buf 8).length = st.file.length + 8 := by rw [List.length_append, length_bytesLE]
  obtain ⟨m, hm⟩ := h.words
  have hword : ∀ k < 2, field (bitAt (st.file ++ bytesLE buf 8)) (32 * (2 * m + k)) 32 =
      buf.extractLsb' (32 * k) 32 := by
    intro k hk
    apply BitVec.eq_of_getLsbD_eq
    intro i hi
    rw [getLsbD_field, BitVec.getLsbD_extractLsb', bitAt_append, if_neg (by omega), bitAt_bytesLE _ (by omega),
      show 32 * (2 * m + k) + i - 8 * st.file.length = 32 * k + i by omega]
  have hold : checksum (bitAt (st.file ++ bytesLE buf 8)) (2 * m) = st.hashVal := by
    rw [h.hashVal, hm, show 8 * m / 4 = 2 * m by omega]
    refine checksum_congr fun i hi => ?_
    rw [bitAt_append, if_pos (by omega)]
  have hlow : (buf &&& 0xffffffff).setWidth 32 = buf.extractLsb' (32 * 0) 32 := by
    apply BitVec.eq_of_getLsbD_eq
    intro i hi
    have hmask : ∀ i < 32, (0xffffffff : BitVec 64).getLsbD i = true := by decide
    rw [BitVec.getLsbD_setWidth, BitVec.getLsbD_and, hmask i hi, BitVec.getLsbD_extractLsb']
    simp [hi]
  have hhigh : ((buf &&& 0xffffffff00000000) >>> 32).setWidth 32 = buf.extractLsb' (32 * 1) 32 := by
    apply BitVec.eq_of_getLsbD_eq
    intro i hi
    have hmask : ∀ i < 32, (0xffffffff00000000 : BitVec 64).getLsbD (32 + i) = true := by decide
    rw [BitVec.getLsbD_setWidth, BitVec.getLsbD_ushiftRight, BitVec.getLsbD_and, hmask i hi, BitVec.getLsbD_extractLsb']
    simp [hi]
  refine ⟨?_, ?_⟩
  · rw [hfile, hlen]
    omega
  · have hfirst := hword 0 (by decide)
    have hsecond := hword 1 (by decide)
    rw [Nat.add_zero] at hfirst
    rw [hfile, hlen, show (st.file.length + 8) / 4 = 2 * m + 1 + 1 by omega, checksum_succ, checksum_succ, hold,
      hfirst, hsecond, ← hlow, ← hhigh]
    rfl

/-- A call keeps it, unless it closes with a group of four bytes. -/
theorem hashed_write {st : BuilderBuf} (h : Hashed st) (call : BitVec 64 × Nat)
    (hcall : call.2 = 0 → ((64 - st.bitsClean + 7) / 8 + 3) / 4 * 4 = 8) : Hashed (writeBuf st call) := by
  unfold writeBuf
  dsimp only
  split_ifs with hclose hroom
  · rw [hcall hclose]
    exact ⟨(hashed_flush h _).words, (hashed_flush h _).hashVal⟩
  · exact ⟨h.words, h.hashVal⟩
  · exact ⟨(hashed_flush h _).words, (hashed_flush h _).hashVal⟩

theorem hashed_calls {st : BuilderBuf} (h : Hashed st) {calls : List (BitVec 64 × Nat)}
    (hcalls : ∀ c ∈ calls, 1 ≤ c.2) : Hashed (calls.foldl writeBuf st) := by
  induction calls generalizing st with
  | nil => exact h
  | cons call calls ih =>
      have hpos := hcalls call List.mem_cons_self
      exact ih (hashed_write h call fun hzero => absurd hzero (by omega)) fun c hc => hcalls c (List.mem_cons_of_mem call hc)

/-! ## A file -/

/-- The bits of the fields, as the hardware lays them out. -/
def BuilderFilter.fields (f : BuilderFilter) : Nat → Bool := stream f.asWritten.toHw.segments

/-- The bits of a file: the fields, zeros up to bit 704, and the hash of these 22 words. -/
def BuilderFilter.content (f : BuilderFilter) (n : Nat) : Bool :=
  if n < 704 then f.fields n else (checksum f.fields 22).getLsbD (n - 704)

theorem builder_calls_bits (f : BuilderFilter) : f.calls.map (·.2) = callBits.dropLast := by
  have hall := calls_bits f.asWritten
  rw [calls_asWritten, List.map_append] at hall
  rw [← hall, List.map_singleton, List.dropLast_concat]

/-- The fields are the low bits of the calls. -/
theorem fields_eq (f : BuilderFilter) (n : Nat) :
    f.fields n = stream (callSegs f.calls ++ callSegs [(0, 1)]) n := by
  rw [BuilderFilter.fields, ← (calls_samePacking f.asWritten).stream, calls_asWritten, callSegs_append]

theorem widths_builder_calls (f : BuilderFilter) : widths (callSegs f.calls) = 677 := by
  have hbits : (callSegs f.calls).map (·.1) = callBits.dropLast := by
    rw [← builder_calls_bits, callSegs, List.map_map]
    rfl
  rw [widths, hbits]
  decide

theorem fields_of_ge (f : BuilderFilter) {n : Nat} (hn : 677 ≤ n) : f.fields n = false := by
  have hlast : ∀ k, stream (callSegs [(0, 1)]) k = false := by
    intro k
    rw [callSegs, List.map_singleton, stream]
    split_ifs
    · simp
    · rw [stream]
  rw [fields_eq, stream_append, widths_builder_calls, if_neg (by omega), hlast]

/-- The file behind the fields and the first closing call, and the hash of it. -/
theorem builder_fields (f : BuilderFilter) : ∃ a : AdminBuf,
    Twin (writeBuf (f.calls.foldl writeBuf ⟨0, 64, builderKey, []⟩) (0, 0)) a ∧ Holds f.content 88 64 a ∧
      (writeBuf (f.calls.foldl writeBuf ⟨0, 64, builderKey, []⟩) (0, 0)).hashVal = checksum f.fields 22 := by
  have hcalls : ∀ c ∈ f.calls, 1 ≤ c.2 ∧ c.2 ≤ 64 := by
    intro c hc
    have hmem : c.2 ∈ f.calls.map (·.2) := List.mem_map_of_mem hc
    rw [builder_calls_bits] at hmem
    exact callBits_le _ (List.mem_of_mem_dropLast hmem)
  have hempty : Holds f.content 0 64 .init :=
    ⟨rfl, Nat.le_refl _, rfl, rfl, rfl, fun n hn => absurd hn (by omega), fun n => by
      simp [AdminBuf.init, getLsbD_reverse']⟩
  have hwritten := holds_calls f.calls hempty hcalls fun j hj => by
    rw [widths_builder_calls] at hj
    rw [show 8 * 0 + (64 - 64) + j = j by omega, BuilderFilter.content, if_pos (by omega), fields_eq, stream_append,
      widths_builder_calls, if_pos hj]
  have hpos : callBits.dropLast.foldl advance (0, 64) = (80, 27) := by decide +kernel
  rw [builder_calls_bits, hpos] at hwritten
  have hclosed : Holds f.content 88 64 (writeAdminBuf (f.calls.foldl writeAdminBuf .init) (0, 0)) :=
    holds_close hwritten 0 (k := 8) (by decide) fun n hn hn' => by
      rw [BuilderFilter.content, if_pos (by omega), fields_of_ge f (by simp only at hn; omega)]
  have htwin : Twin (f.calls.foldl writeBuf ⟨0, 64, builderKey, []⟩) (f.calls.foldl writeAdminBuf .init) :=
    twin_calls ⟨rfl, rfl, rfl⟩ f.calls
  have htwin' := twin_write htwin (0, 0)
  refine ⟨_, htwin', hclosed, ?_⟩
  have hashed : Hashed (f.calls.foldl writeBuf ⟨0, 64, builderKey, []⟩) :=
    hashed_calls ⟨⟨0, rfl⟩, rfl⟩ fun c hc => (hcalls c hc).1
  have hashed' := hashed_write hashed (0, 0) fun _ => by
    rw [htwin.bitsClean, hwritten.free]
    rfl
  rw [hashed'.hashVal, htwin'.file, hclosed.length]
  refine checksum_congr fun n hn => ?_
  rw [hclosed.written n (by omega), BuilderFilter.content, if_pos (by omega)]

theorem writeToFile_bits (f : BuilderFilter) :
    (writeToFile f .init).file.length = 92 ∧ ∀ n, bitAt (writeToFile f .init).file n = f.content n := by
  obtain ⟨a, htwin, hholds, hhash⟩ := builder_fields f
  have htag : Holds f.content 88 32 (writeAdminBuf a ((checksum f.fields 22).setWidth 64, 32)) :=
    holds_write hholds _ 32 (by decide) (by decide) fun j hj => by
      rw [show 8 * 88 + (64 - 64) + j = 704 + j by omega, BuilderFilter.content, if_neg (by omega),
        Nat.add_sub_cancel_left, BitVec.getLsbD_setWidth]
      simp [show j < 64 by omega]
  have hclosed : Holds f.content 92 64
      (writeAdminBuf (writeAdminBuf a ((checksum f.fields 22).setWidth 64, 32)) (0, 0)) :=
    holds_close htag 0 (k := 4) (by decide) fun n hn hn' => absurd hn' (by omega)
  have hfile : (writeToFile f .init).file =
      (writeAdminBuf (writeAdminBuf a ((checksum f.fields 22).setWidth 64, 32)) (0, 0)).adminPkt := by
    rw [← hhash]
    exact (twin_write (twin_write htwin _) (0, 0)).file
  rw [hfile]
  refine ⟨hclosed.length, fun n => ?_⟩
  rcases Nat.lt_or_ge n 736 with hlt | hge
  · exact hclosed.written n (by omega)
  · -- behind the file
    have hout : (checksum f.fields 22).getLsbD (n - 704) = false := BitVec.getLsbD_of_ge _ _ (by omega)
    rw [bitAt, List.getD_eq_default _ _ (by rw [hclosed.length]; omega), BuilderFilter.content, if_neg (by omega), hout]
    simp

end DnsAdtm.Sw
