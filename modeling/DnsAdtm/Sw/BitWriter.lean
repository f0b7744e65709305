/-
# `Sw.BitWriter` — the law of the bit writer (`fpga-filter.hh`)

What a sequence of calls of `write_admin_buf` appends, to the file and to `admin_buf_data`
alike, depends on the accumulator only.  From an empty one it is the low bits of the calls, one
after another, and zeros up to a group of four bytes.

A shift by the width of its operand or more has no defined result.  A call that spills more than
30 bits of its field over the end of the accumulator makes one, and so does every closing call,
which shifts by 64; but that result is not used.

    extended_run           what is appended
    writeShifts            the shift counts of a call
    spills                 how many bits each call spills over
    write_admin_buf_law    the law, and where the shifts are proper
-/
import DnsAdtm.Sw.FpgaFilter

namespace DnsAdtm.Sw

variable {st st' s₀ : AdminBuf} {calls : List (BitVec 64 × Nat)}

/-! ## What is appended -/

/-- `st'` is behind `st` by `bytes`, in the file and in `admin_buf_data`. -/
structure Extended (st : AdminBuf) (bytes : List (BitVec 8)) (st' : AdminBuf) : Prop where
  adminPkt : st'.adminPkt = st.adminPkt ++ bytes
  dataPtr : st'.dataPtr = st.dataPtr + bytes.length
  data : st'.data = st.data.take st.dataPtr ++ bytes ++ st.data.drop (st.dataPtr + bytes.length)

theorem Extended.refl (st : AdminBuf) : Extended st [] st := ⟨by simp, by simp, by simp⟩

theorem Extended.trans {a b : List (BitVec 8)} {st'' : AdminBuf} (h : Extended st a st')
    (h' : Extended st' b st'') (hptr : st.dataPtr ≤ st.data.length) : Extended st (a ++ b) st'' := by
  have htake : (st.data.take st.dataPtr).length = st.dataPtr := List.length_take_of_le hptr
  refine ⟨?_, ?_, ?_⟩
  · rw [h'.adminPkt, h.adminPkt, List.append_assoc]
  · rw [h'.dataPtr, h.dataPtr, List.length_append, Nat.add_assoc]
  · have hlen : (st.data.take st.dataPtr ++ a).length = st.dataPtr + a.length := by
      rw [List.length_append, htake]
    have hbefore : st'.data.take st'.dataPtr = st.data.take st.dataPtr ++ a := by
      rw [h.data, h.dataPtr, ← hlen, List.take_left]
    have hbehind : st'.data.drop (st'.dataPtr + b.length) =
        st.data.drop (st.dataPtr + (a ++ b).length) := by
      rw [h.data, h.dataPtr, ← hlen, List.drop_append, List.drop_eq_nil_of_le (Nat.le_add_right _ _),
        List.nil_append, Nat.add_sub_cancel_left, List.drop_drop, hlen, List.length_append, Nat.add_assoc]
    rw [h'.data, hbefore, hbehind, List.append_assoc (st.data.take _)]

/-- The accumulators agree. -/
structure Alike (st s₀ : AdminBuf) : Prop where
  adminBuf : st.adminBuf = s₀.adminBuf
  bitsClean : st.bitsClean = s₀.bitsClean

theorem extended_flush (st : AdminBuf) (buf : BitVec 64) (k : Nat) :
    Extended st (bytesLE buf k) (writeAdminBufItemAndHash st buf k) where
  adminPkt := rfl
  dataPtr := by rw [length_bytesLE]; rfl
  data := by rw [length_bytesLE]; rfl

/-- A call appends the same bytes wherever the file and the copy stand. -/
theorem extended_write (h : Alike st s₀) (call : BitVec 64 × Nat) :
    ∃ bytes, Extended st bytes (writeAdminBuf st call) ∧ Extended s₀ bytes (writeAdminBuf s₀ call) ∧
      Alike (writeAdminBuf st call) (writeAdminBuf s₀ call) := by
  simp only [writeAdminBuf, h.adminBuf, h.bitsClean]
  split_ifs with hclose hroom
  · have happ (s : AdminBuf) := extended_flush s (reverseBitsByte64 (bswap64 s₀.adminBuf))
      (((64 - s₀.bitsClean + 7) / 8 + 3) / 4 * 4)
    exact ⟨_, { happ st with }, { happ s₀ with }, rfl, rfl⟩
  · exact ⟨[], { Extended.refl st with }, { Extended.refl s₀ with }, rfl, rfl⟩
  · have happ (s : AdminBuf) := extended_flush s (reverseBitsByte64 (bswap64 (s₀.adminBuf |||
      ((reverseBits64 call.1 >>> (64 - call.2)) >>> (call.2 - s₀.bitsClean))))) 8
    exact ⟨_, { happ st with }, { happ s₀ with }, rfl, rfl⟩

theorem extended_run (h : Alike st s₀) (hptr : st.dataPtr ≤ st.data.length) (hptr₀ : s₀.dataPtr ≤ s₀.data.length)
    (calls : List (BitVec 64 × Nat)) :
    ∃ bytes, Extended st bytes (calls.foldl writeAdminBuf st) ∧
      Extended s₀ bytes (calls.foldl writeAdminBuf s₀) ∧
      Alike (calls.foldl writeAdminBuf st) (calls.foldl writeAdminBuf s₀) := by
  induction calls using List.reverseRecOn with
  | nil => exact ⟨[], .refl st, .refl s₀, h⟩
  | append_singleton calls call ih =>
      obtain ⟨a, happ, happ₀, halike⟩ := ih
      obtain ⟨b, hone, hone₀, halike'⟩ := extended_write halike call
      rw [List.foldl_append, List.foldl_append]
      exact ⟨a ++ b, happ.trans hone hptr, happ₀.trans hone₀ hptr₀, halike'⟩

/-- `write_admin_buf` for each of the calls, and the closing call. -/
def written (st : AdminBuf) (calls : List (BitVec 64 × Nat)) : AdminBuf :=
  (calls ++ [(0, 0)]).foldl writeAdminBuf st

/-- The two positions say how many bits have been written. -/
theorem advance_total (bits : List Nat) (pos : Nat × Nat) (hdvd : 8 ∣ pos.1) (hle : pos.2 ≤ 64)
    (hbits : ∀ n ∈ bits, n ≤ 64) :
    8 ∣ (bits.foldl advance pos).1 ∧ (bits.foldl advance pos).2 ≤ 64 ∧
      8 * (bits.foldl advance pos).1 + (64 - (bits.foldl advance pos).2) =
        8 * pos.1 + (64 - pos.2) + bits.sum := by
  induction bits generalizing pos with
  | nil => exact ⟨hdvd, hle, rfl⟩
  | cons n bits ih =>
      have hn := hbits n List.mem_cons_self
      have hone : 8 ∣ (advance pos n).1 ∧ (advance pos n).2 ≤ 64 ∧
          8 * (advance pos n).1 + (64 - (advance pos n).2) = 8 * pos.1 + (64 - pos.2) + n := by
        unfold advance
        split
        · dsimp only
          omega
        · dsimp only
          omega
      obtain ⟨hdvd', hle', htotal⟩ := ih _ hone.1 hone.2.1 fun k hk => hbits k (List.mem_cons_of_mem n hk)
      rw [List.foldl_cons, List.sum_cons]
      exact ⟨hdvd', hle', by omega⟩

/-- How many bytes hold so many bits, in groups of four. -/
def groupBytes (total : Nat) : Nat := 4 * ((total + 31) / 32)

/-- What the calls and the closing call append: the low bits of the calls and zeros, to the file and
inside of `admin_buf_data`; and the accumulator is empty again. -/
def Writes (st : AdminBuf) (calls : List (BitVec 64 × Nat)) : Prop :=
  ∃ bytes, bytes.length = groupBytes (widths (callSegs calls)) ∧
    (∀ n, n < 8 * bytes.length → bitAt bytes n = stream (callSegs calls) n) ∧
    Extended st bytes (written st calls) ∧ (written st calls).data.length = st.data.length ∧
    (written st calls).Fresh

theorem widths_callSegs (calls : List (BitVec 64 × Nat)) :
    widths (callSegs calls) = (calls.map (·.2)).sum := by
  rw [widths, callSegs, List.map_map]
  rfl

theorem writes (hst : st.Fresh) (hcalls : ∀ c ∈ calls, 1 ≤ c.2 ∧ c.2 ≤ 64)
    (hroom : st.dataPtr + groupBytes (widths (callSegs calls)) ≤ st.data.length) : Writes st calls := by
  obtain ⟨pos, hpos⟩ : ∃ pos, pos = (calls.map (·.2)).foldl advance (0, 64) := ⟨_, rfl⟩
  obtain ⟨hdvd, hle, htotal⟩ := advance_total (calls.map (·.2)) (0, 64) (Nat.dvd_zero 8) (Nat.le_refl 64)
    fun n hn => by
      obtain ⟨c, hc, rfl⟩ := List.mem_map.mp hn
      exact (hcalls c hc).2
  rw [← widths_callSegs, ← hpos] at htotal
  rw [← hpos] at hdvd hle
  -- from the power-on globals, the bits are those of the calls
  have hinit : Holds (stream (callSegs calls)) 0 64 AdminBuf.init :=
    ⟨rfl, Nat.le_refl 64, rfl, rfl, rfl, fun n hn => absurd hn (by omega), fun n => by simp [AdminBuf.init, getLsbD_reverse']⟩
  have hwritten := holds_calls calls hinit hcalls fun j _ => by
    congr 1
    omega
  rw [← hpos] at hwritten
  have hclosed := holds_close hwritten 0 rfl fun n hn _ => stream_of_ge _ _ (by omega)
  obtain ⟨bytes, happ, happ₀, halike⟩ := extended_run (show Alike st .init from ⟨hst.buf, hst.free⟩)
    (by omega) (Nat.zero_le _) (calls ++ [(0, 0)])
  have hbytes : (written .init calls).adminPkt = bytes := happ₀.adminPkt
  have hend : written .init calls = writeAdminBuf (calls.foldl writeAdminBuf .init) (0, 0) := List.foldl_append ..
  rw [hend] at hbytes
  have hlen : bytes.length = groupBytes (widths (callSegs calls)) := by
    rw [← hbytes, hclosed.length, groupBytes]
    omega
  refine ⟨bytes, hlen, fun n hn => ?_, happ, ?_, ?_⟩
  · rw [← hbytes]
    refine hclosed.written n ?_
    rw [hlen, groupBytes] at hn
    omega
  · rw [written, happ.data, List.length_append, List.length_append, List.length_take_of_le (by omega),
      List.length_drop]
    omega
  · rw [written, List.foldl_append]
    exact ⟨by simp [writeAdminBuf], by simp [writeAdminBuf]⟩

/-! ## The shifts -/

/-- The counts of the shifts of `reverse_bits_64`, each with the width of what is shifted. -/
def reverseShifts : List (Nat × Nat) :=
  [32, 16, 8, 4, 2, 1].flatMap (fun s => [(1, 64), (s, 64), (s, 64), (s, 64)]) ++ [(1, 64)]

/-- Those of a call of `write_admin_buf`. -/
def writeShifts (st : AdminBuf) (call : BitVec 64 × Nat) : List (Nat × Nat) :=
  let bits := call.2
  reverseShifts ++ [(64 - bits, 64)] ++
    if bits = 0 then []
    else if st.bitsClean ≥ bits then [(st.bitsClean - bits, 64)]
    else
      let bitsAfterWrite := bits - st.bitsClean
      -- the mask is shifted as an `int`
      [(bitsAfterWrite, 64), (bitsAfterWrite + 1, 32), (64 - bitsAfterWrite, 64)]

/-- And those of a run of calls. -/
def runShifts (st : AdminBuf) : List (BitVec 64 × Nat) → List (Nat × Nat)
  | [] => []
  | call :: calls => writeShifts st call ++ runShifts (writeAdminBuf st call) calls

/-- No shift count reaches the width of its operand. -/
def Proper (shifts : List (Nat × Nat)) : Prop := ∀ s ∈ shifts, s.1 < s.2

theorem proper_append {a b : List (Nat × Nat)} : Proper (a ++ b) ↔ Proper a ∧ Proper b :=
  List.forall_mem_append

theorem runShifts_append (st : AdminBuf) (a b : List (BitVec 64 × Nat)) :
    runShifts st (a ++ b) = runShifts st a ++ runShifts (a.foldl writeAdminBuf st) b := by
  induction a generalizing st with
  | nil => rfl
  | cons call a ih => rw [List.cons_append, runShifts, runShifts, ih, List.append_assoc, List.foldl_cons]

/-- The closing call shifts by 64. -/
theorem closing_not_proper (st : AdminBuf) (info : BitVec 64) : ¬ Proper (writeShifts st (info, 0)) := by
  intro h
  have hmem : (64, 64) ∈ writeShifts st (info, 0) :=
    List.mem_append_left _ (List.mem_append_right _ List.mem_cons_self)
  exact absurd (h _ hmem) (Nat.lt_irrefl 64)

/-- How many bits of its field a call spills over the end of the accumulator, for those that do. -/
def spills : Nat → List Nat → List Nat
  | _, [] => []
  | clean, bits :: rest =>
    if bits ≤ clean then spills (clean - bits) rest
    else (bits - clean) :: spills (64 - (bits - clean)) rest

theorem bitsClean_write (st : AdminBuf) (info : BitVec 64) {bits : Nat} (hpos : 1 ≤ bits) :
    (writeAdminBuf st (info, bits)).bitsClean =
      if bits ≤ st.bitsClean then st.bitsClean - bits else 64 - (bits - st.bitsClean) := by
  simp only [writeAdminBuf, ge_iff_le]
  rw [if_neg (show ¬ bits = 0 by omega)]
  split <;> rfl

/-- A call shifts properly exactly where it spills at most 30 bits. -/
theorem proper_write (st : AdminBuf) (info : BitVec 64) {bits : Nat} (hpos : 1 ≤ bits) (hbits : bits ≤ 64)
    (hclean : st.bitsClean ≤ 64) :
    Proper (writeShifts st (info, bits)) ↔ bits ≤ st.bitsClean ∨ bits - st.bitsClean ≤ 30 := by
  have hreverse : Proper reverseShifts := by
    unfold Proper
    decide
  have hfirst : Proper [(64 - bits, 64)] := by
    intro s hs
    rw [List.mem_singleton.mp hs]
    show 64 - bits < 64
    omega
  simp only [writeShifts, proper_append, hreverse, hfirst, true_and, if_neg (show ¬ bits = 0 by omega)]
  split
  · rename_i hroom
    refine ⟨fun _ => .inl hroom, fun _ s hs => ?_⟩
    rw [List.mem_singleton.mp hs]
    show st.bitsClean - bits < 64
    omega
  · rename_i hroom
    simp only [Proper, List.forall_mem_cons, List.not_mem_nil, false_implies, implies_true, and_true]
    omega

theorem proper_run (hclean : st.bitsClean ≤ 64) (hcalls : ∀ c ∈ calls, 1 ≤ c.2 ∧ c.2 ≤ 64) :
    Proper (runShifts st calls) ↔ ∀ n ∈ spills st.bitsClean (calls.map (·.2)), n ≤ 30 := by
  induction calls generalizing st with
  | nil => exact ⟨fun _ => nofun, fun _ => nofun⟩
  | cons call calls ih =>
      obtain ⟨info, bits⟩ := call
      obtain ⟨hpos, hbits⟩ := hcalls _ List.mem_cons_self
      dsimp only at hpos hbits
      have hnext := bitsClean_write st info hpos
      have hih : Proper (runShifts (writeAdminBuf st (info, bits)) calls) ↔ _ := ih (by rw [hnext]; split <;> omega)
        fun c hc => hcalls c (List.mem_cons_of_mem _ hc)
      rw [runShifts, proper_append, proper_write st info hpos hbits hclean, hih, hnext, List.map_cons, spills]
      by_cases hroom : bits ≤ st.bitsClean
      · simp only [hroom, if_true, true_or, true_and]
      · simp only [hroom, if_false, false_or, List.forall_mem_cons]

/-! ## The law -/

/-- What a sequence of calls and the closing call should do. -/
def WriterLaw (st : AdminBuf) (calls : List (BitVec 64 × Nat)) : Prop :=
  Writes st calls ∧ Proper (runShifts st (calls ++ [(0, 0)]))

theorem not_writerLaw (st : AdminBuf) (calls : List (BitVec 64 × Nat)) : ¬ WriterLaw st calls := by
  rintro ⟨-, hproper⟩
  rw [runShifts_append, proper_append] at hproper
  refine closing_not_proper (calls.foldl writeAdminBuf st) 0 fun s hs => hproper.2 s ?_
  rw [runShifts]
  exact List.mem_append_left _ hs

/-- **The bit writer.**  No sequence keeps the whole law, since the closing call shifts a word by its
width.  The shifts of the calls themselves are proper exactly where no call spills more than
30 bits; and then the bytes are right and the accumulator is empty again. -/
theorem write_admin_buf_law (st : AdminBuf) (hst : st.Fresh) (calls : List (BitVec 64 × Nat))
    (hcalls : ∀ c ∈ calls, 1 ≤ c.2 ∧ c.2 ≤ 64)
    (hroom : st.dataPtr + groupBytes (widths (callSegs calls)) ≤ st.data.length) :
    ¬ WriterLaw st calls ∧
      (Proper (runShifts st calls) ↔ ∀ n ∈ spills 64 (calls.map (·.2)), n ≤ 30) ∧
      (Proper (runShifts st calls) → Writes st calls) := by
  refine ⟨not_writerLaw st calls, ?_, fun _ => writes hst hcalls hroom⟩
  rw [proper_run (by rw [hst.free]) hcalls, hst.free]

/-- Forty bits and then sixty-four: the second call spills forty. -/
def spillingCalls : List (BitVec 64 × Nat) := [(1, 40), (0xffffffffffffffff, 64)]

theorem spillingCalls_bits : ∀ c ∈ spillingCalls, 1 ≤ c.2 ∧ c.2 ≤ 64 := by decide

theorem spillingCalls_room :
    AdminBuf.init.dataPtr + groupBytes (widths (callSegs spillingCalls)) ≤ AdminBuf.init.data.length := by
  have hbytes : groupBytes (widths (callSegs spillingCalls)) = 16 := by decide
  have hdata : AdminBuf.init.data.length = 128 := List.length_replicate ..
  rw [hbytes, hdata]
  decide

theorem write_admin_buf_law_spilling :
    ¬ WriterLaw .init spillingCalls ∧
      (Proper (runShifts .init spillingCalls) ↔ ∀ n ∈ spills 64 (spillingCalls.map (·.2)), n ≤ 30) ∧
      (Proper (runShifts .init spillingCalls) → Writes .init spillingCalls) :=
  write_admin_buf_law .init ⟨rfl, rfl⟩ spillingCalls spillingCalls_bits spillingCalls_room

/-- The mask of the second call is an `int` shifted by 41, and the closing call shifts by 64. -/
theorem spillingCalls_improper : ¬ Proper (runShifts .init spillingCalls) ∧
    ¬ ∀ (st : AdminBuf) (calls : List (BitVec 64 × Nat)), st.Fresh → (∀ c ∈ calls, 1 ≤ c.2 ∧ c.2 ≤ 64) →
      widths (callSegs calls) ≤ 1024 →
      st.dataPtr + groupBytes (widths (callSegs calls)) ≤ st.data.length → WriterLaw st calls := by
  constructor
  · intro hproper
    rw [proper_run (Nat.le_refl 64) spillingCalls_bits] at hproper
    exact absurd (hproper 40 (by decide)) (by decide)
  · intro h
    exact not_writerLaw _ _
      (h .init spillingCalls ⟨rfl, rfl⟩ spillingCalls_bits (by decide) spillingCalls_room)

end DnsAdtm.Sw
