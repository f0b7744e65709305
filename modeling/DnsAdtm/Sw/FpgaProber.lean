/-
# `Sw.FpgaProber` — the probe parser (`fpga-prober.hh`)

The parser takes every field out of the payload by its first and last bit, with one
function that masks and shifts whole bytes.

    extractBitsFromArr_eq     it takes the bits `s` to `e`, least significant first
    extract_bits_from_arr_law as a number, with its shifts and its reads
    toHw_parseFields          so the parser reads the layout of `Hw.FilterCodec`
    parse_write, write_parse  and it is the inverse of the writer

A byte array is the list of its bytes; a byte read past its end is zero.
-/
import DnsAdtm.Sw.FpgaFilter

namespace DnsAdtm.Sw

/-! ## The bit extractor -/

/-- What the turn `i` of the loop over the bytes puts into `buf`. -/
def extractByte (pkt : List (BitVec 8)) (s e i : Nat) : BitVec 64 :=
  let sb := s / 8
  let so := s % 8
  let eb := e / 8
  let eo := e % 8 + 1
  if i = sb then
    ((pkt.getD sb 0).setWidth 64 &&& (0xff - ((1 <<< so) - 1))) >>> so
  else if i = eb then
    ((pkt.getD eb 0).setWidth 64 &&& (0xff - (((1 <<< (8 - eo)) - 1) <<< eo))) <<< ((i - sb) * 8 - so)
  else
    (pkt.getD i 0).setWidth 64 <<< ((i - sb) * 8 - so)

/-- `extract_bits_from_arr` -/
def extractBitsFromArr (pkt : List (BitVec 8)) (s e : Nat) : BitVec 64 :=
  let sb := s / 8
  let so := s % 8
  let eb := e / 8
  let eo := e % 8 + 1
  if sb = eb then
    ((pkt.getD sb 0).setWidth 64 &&&
      (0xff - ((1 <<< so) - 1) - (((1 <<< (8 - eo)) - 1) <<< eo))) >>> so
  else
    (List.range' sb (eb + 1 - sb)).foldl
      (fun buf i => if i = sb then extractByte pkt s e i else buf ||| extractByte pkt s e i) 0

/-- The mask of the first byte. -/
theorem getLsbD_lowMask : ∀ so < 8, ∀ k < 64,
    (0xff - ((1 <<< so) - 1) : BitVec 64).getLsbD k = decide (so ≤ k ∧ k < 8) := by
  decide +kernel

/-- The mask of the last byte. -/
theorem getLsbD_highMask : ∀ eo < 8, ∀ k < 64,
    (0xff - (((1 <<< (8 - (eo + 1))) - 1) <<< (eo + 1)) : BitVec 64).getLsbD k = decide (k ≤ eo) := by
  decide +kernel

/-- The mask of a field inside one byte. -/
theorem getLsbD_midMask : ∀ so < 8, ∀ eo < 8, so ≤ eo → ∀ k < 64,
    (0xff - ((1 <<< so) - 1) - (((1 <<< (8 - (eo + 1))) - 1) <<< (eo + 1)) : BitVec 64).getLsbD k =
      decide (so ≤ k ∧ k ≤ eo) := by
  decide +kernel

variable {pkt : List (BitVec 8)} {s e i j : Nat}

theorem bitAt_of_byte {k : Nat} (hk : k < 8) : bitAt pkt (8 * i + k) = (pkt.getD i 0).getLsbD k := by
  rw [bitAt, show (8 * i + k) / 8 = i by omega, show (8 * i + k) % 8 = k by omega]

theorem getLsbD_byte (k : Nat) :
    ((pkt.getD i 0).setWidth 64).getLsbD k = (decide (k < 8) && bitAt pkt (8 * i + k)) := by
  rw [BitVec.getLsbD_setWidth]
  by_cases hk : k < 8
  · rw [bitAt_of_byte hk, decide_eq_true hk, decide_eq_true (by omega)]
  · rw [decide_eq_false hk, BitVec.getLsbD_of_ge _ _ (by omega), Bool.and_false, Bool.false_and]

/-- A turn contributes the bits of its own byte. -/
theorem getLsbD_extractByte (hse : s ≤ e) (hb : s / 8 ≠ e / 8)
    (hlo : s / 8 ≤ i) (hhi : i ≤ e / 8) (hj : j < 64) :
    (extractByte pkt s e i).getLsbD j =
      (decide (8 * i ≤ s + j ∧ s + j < 8 * (i + 1) ∧ s + j ≤ e) && bitAt pkt (s + j)) := by
  have hso : s % 8 < 8 := by omega
  have heo : e % 8 < 8 := by omega
  simp only [extractByte]
  split
  · -- the first byte
    rename_i hi
    subst hi
    rw [BitVec.getLsbD_ushiftRight, BitVec.getLsbD_and, getLsbD_byte,
      show 8 * (s / 8) + (s % 8 + j) = s + j by omega]
    by_cases hk : s % 8 + j < 8
    · rw [getLsbD_lowMask _ hso _ (by omega)]
      simp [hk, show 8 * (s / 8) ≤ s + j by omega, show s + j < 8 * (s / 8 + 1) by omega,
        show s + j ≤ e by omega]
    · simp [hk, show ¬ s + j < 8 * (s / 8 + 1) by omega]
  · rename_i hfirst
    have hshift : (i - s / 8) * 8 - s % 8 = 8 * i - s := by omega
    split
    · -- the last byte
      rename_i hi
      subst hi
      rw [BitVec.getLsbD_shiftLeft, BitVec.getLsbD_and, getLsbD_byte, hshift]
      by_cases hk : 8 * (e / 8) ≤ s + j
      · rw [getLsbD_highMask _ heo _ (by omega), show 8 * (e / 8) + (j - (8 * (e / 8) - s)) = s + j by omega]
        by_cases hle : s + j ≤ e
        · simp [hj, hk, hle, show ¬ j < 8 * (e / 8) - s by omega, show s + j < 8 * (e / 8 + 1) by omega,
            show j - (8 * (e / 8) - s) < 8 by omega, show j - (8 * (e / 8) - s) ≤ e % 8 by omega]
        · simp [hle, show ¬ j - (8 * (e / 8) - s) ≤ e % 8 by omega]
      · simp [hk, show j < 8 * (e / 8) - s by omega]
    · -- a byte in between
      rename_i hlast
      rw [BitVec.getLsbD_shiftLeft, getLsbD_byte, hshift]
      by_cases hk : 8 * i ≤ s + j
      · rw [show 8 * i + (j - (8 * i - s)) = s + j by omega]
        by_cases hlt : s + j < 8 * (i + 1)
        · simp [hj, hk, hlt, show ¬ j < 8 * i - s by omega, show j - (8 * i - s) < 8 by omega,
            show s + j ≤ e by omega]
        · simp [hlt, show ¬ j - (8 * i - s) < 8 by omega]
      · simp [hk, show j < 8 * i - s by omega]

/-- The loop over the bytes, by induction on its turns. -/
theorem getLsbD_extractLoop (hse : s ≤ e) (hb : s / 8 ≠ e / 8) (hj : j < 64)
    (n : Nat) (hn : s / 8 + n ≤ e / 8 + 1) :
    ((List.range' (s / 8) n).foldl
      (fun buf i => if i = s / 8 then extractByte pkt s e i else buf ||| extractByte pkt s e i)
      0).getLsbD j =
      (decide (s + j < 8 * (s / 8 + n) ∧ s + j ≤ e) && bitAt pkt (s + j)) := by
  induction n with
  | zero => simp [show ¬ s + j < 8 * (s / 8) by omega]
  | succ n ih =>
      have ih := ih (by omega)
      rw [List.range'_concat, List.foldl_append, List.foldl_cons, List.foldl_nil, Nat.one_mul]
      have hbyte := @getLsbD_extractByte pkt s e (s / 8 + n) j hse hb (by omega) (by omega) hj
      split
      · rename_i hfirst
        obtain rfl : n = 0 := by omega
        rw [hbyte]
        congr 1
        rw [decide_eq_decide]
        omega
      · rw [BitVec.getLsbD_or, ih, hbyte, ← Bool.and_or_distrib_right]
        congr 1
        rw [← Bool.decide_or, decide_eq_decide]
        omega

/-- The extractor takes the bits `s` to `e`. -/
theorem extractBitsFromArr_eq (hse : s ≤ e) :
    extractBitsFromArr pkt s e = (field (bitAt pkt) s (e + 1 - s)).setWidth 64 := by
  apply BitVec.eq_of_getLsbD_eq
  intro j hj
  rw [BitVec.getLsbD_setWidth, getLsbD_field, decide_eq_true hj, Bool.true_and]
  simp only [extractBitsFromArr]
  split
  · -- a field inside one byte
    rename_i hb
    rw [BitVec.getLsbD_ushiftRight, BitVec.getLsbD_and, getLsbD_byte,
      show 8 * (s / 8) + (s % 8 + j) = s + j by omega]
    by_cases hk : s % 8 + j < 8
    · rw [getLsbD_midMask _ (by omega) _ (by omega) (by omega) _ (by omega)]
      by_cases hle : j < e + 1 - s
      · simp [hk, hle, show s % 8 + j ≤ e % 8 by omega]
      · simp [hle, show ¬ s % 8 + j ≤ e % 8 by omega]
    · simp [hk, show ¬ j < e + 1 - s by omega]
  · rename_i hb
    rw [getLsbD_extractLoop hse hb hj _ (by omega)]
    congr 1
    rw [decide_eq_decide]
    omega

/-! ## Its shifts and reads -/

/-- The counts of the shifts of `extract_bits_from_arr`, each with the width of what is shifted: an
`int` in the masks and in the first case, a `uint64_t` in the loop. -/
def extractShifts (s e : Nat) : List (Nat × Nat) :=
  let sb := s / 8
  let so := s % 8
  let eb := e / 8
  let eo := e % 8 + 1
  if sb = eb then [(so, 32), (8 - eo, 32), (eo, 32), (so, 32)]
  else
    (List.range' sb (eb + 1 - sb)).flatMap fun i =>
      if i = sb then [(so, 32), (so, 64)]
      else if i = eb then [(8 - eo, 32), (eo, 32), ((i - sb) * 8 - so, 64)]
      else [((i - sb) * 8 - so, 64)]

/-- The indices of the bytes it reads. -/
def extractReads (s e : Nat) : List Nat :=
  let sb := s / 8
  let eb := e / 8
  if sb = eb then [sb] else List.range' sb (eb + 1 - sb)

theorem extractShifts_lt (hse : s ≤ e) (hw : e - s ≤ 63) : ∀ c ∈ extractShifts s e, c.1 < c.2 ∧ c.1 < 64 := by
  intro c hc
  simp only [extractShifts] at hc
  split at hc
  · -- a field inside one byte
    simp only [List.mem_cons, List.not_mem_nil, or_false] at hc
    rcases hc with rfl | rfl | rfl | rfl
    all_goals
      dsimp only
      omega
  · rename_i hb
    obtain ⟨i, hi, hc⟩ := List.mem_flatMap.mp hc
    rw [List.mem_range'_1] at hi
    split at hc
    · simp only [List.mem_cons, List.not_mem_nil, or_false] at hc
      rcases hc with rfl | rfl
      all_goals
        dsimp only
        omega
    · split at hc
      · simp only [List.mem_cons, List.not_mem_nil, or_false] at hc
        rcases hc with rfl | rfl | rfl
        all_goals
          dsimp only
          omega
      · -- at most eight bytes on, less the bits of the first that are left out
        rw [List.mem_singleton] at hc
        subst hc
        dsimp only
        omega

theorem extractReads_le : ∀ i ∈ extractReads s e, i ≤ e / 8 := by
  intro i hi
  simp only [extractReads] at hi
  split at hi
  · rw [List.mem_singleton] at hi
    omega
  · rw [List.mem_range'_1] at hi
    omega

/-- **The bit extractor.**  For every field of at most 64 bits inside the array, the result is the
number of its bits, the first the lowest; every shift count is less than the width of what is
shifted; and no byte behind the array is read. -/
theorem extract_bits_from_arr_law (pkt : List (BitVec 8)) {s e : Nat} (hse : s ≤ e) (hw : e - s ≤ 63)
    (he : e / 8 < pkt.length) :
    (extractBitsFromArr pkt s e).toNat = ∑ i ∈ Finset.range (e - s + 1), 2 ^ i * (bitAt pkt (s + i)).toNat ∧
      (∀ c ∈ extractShifts s e, c.1 < c.2 ∧ c.1 < 64) ∧ ∀ i ∈ extractReads s e, i < pkt.length := by
  refine ⟨?_, extractShifts_lt hse hw, fun i hi => Nat.lt_of_le_of_lt (extractReads_le i hi) he⟩
  have hwidth : e + 1 - s = e - s + 1 := by omega
  have hlt := (field (bitAt pkt) s (e - s + 1)).isLt
  have hpow : 2 ^ (e - s + 1) ≤ 2 ^ 64 := Nat.pow_le_pow_right (by decide) (by omega)
  rw [extractBitsFromArr_eq hse, hwidth, BitVec.toNat_setWidth, Nat.mod_eq_of_lt (Nat.lt_of_lt_of_le hlt hpow),
    toNat_field]

/-- Sixty-four bits across nine bytes. -/
theorem extract_bits_from_arr_law_nine : let pkt := (List.range 9).map (BitVec.ofNat 8)
    (extractBitsFromArr pkt 6 69).toNat = ∑ i ∈ Finset.range 64, 2 ^ i * (bitAt pkt (6 + i)).toNat ∧
      (∀ c ∈ extractShifts 6 69, c.1 < c.2 ∧ c.1 < 64) ∧ ∀ i ∈ extractReads 6 69, i < pkt.length :=
  extract_bits_from_arr_law _ (by decide) (by decide) (by decide)

/-! ## The parser -/

/-- `parse_admin_bin` from its length check on. -/
def parseFields (payload : List (BitVec 8)) : Filter where
  srcMACBW := (extractBitsFromArr payload 0 0).setWidth 1
  srcMACLength := (extractBitsFromArr payload 1 2).setWidth 2
  srcMACList := .ofFn fun i : Fin 2 => .ofFn fun j : Fin 6 =>
    (extractBitsFromArr payload (3 + i * 48 + j * 8) (10 + i * 48 + j * 8)).setWidth 8
  dstMACBW := (extractBitsFromArr payload 99 99).setWidth 1
  dstMACLength := (extractBitsFromArr payload 100 101).setWidth 2
  dstMACList := .ofFn fun i : Fin 2 => .ofFn fun j : Fin 6 =>
    (extractBitsFromArr payload (102 + i * 48 + j * 8) (109 + i * 48 + j * 8)).setWidth 8
  srcIPBW := (extractBitsFromArr payload 198 198).setWidth 1
  srcIPLength := (extractBitsFromArr payload 199 200).setWidth 2
  srcIPList := .ofFn fun i : Fin 2 => .ofFn fun j : Fin 4 =>
    (extractBitsFromArr payload (201 + i * 32 + j * 8) (208 + i * 32 + j * 8)).setWidth 8
  dstIPBW := (extractBitsFromArr payload 265 265).setWidth 1
  dstIPLength := (extractBitsFromArr payload 266 267).setWidth 2
  dstIPList := .ofFn fun i : Fin 2 => .ofFn fun j : Fin 4 =>
    (extractBitsFromArr payload (268 + i * 32 + j * 8) (275 + i * 32 + j * 8)).setWidth 8
  srcPortBW := (extractBitsFromArr payload 332 332).setWidth 1
  srcPortLength := (extractBitsFromArr payload 333 334).setWidth 2
  srcPortList := .ofFn fun i : Fin 2 =>
    bswap16 ((extractBitsFromArr payload (335 + i * 16) (350 + i * 16)).setWidth 16)
  dstPortBW := (extractBitsFromArr payload 367 367).setWidth 1
  dstPortLength := (extractBitsFromArr payload 368 369).setWidth 2
  dstPortList := .ofFn fun i : Fin 2 =>
    bswap16 ((extractBitsFromArr payload (370 + i * 16) (385 + i * 16)).setWidth 16)
  dnsBW := (extractBitsFromArr payload 402 402).setWidth 1
  dnsLength := (extractBitsFromArr payload 403 404).setWidth 2
  dnsItemEndPtr := .ofFn fun i : Fin 2 =>
    (extractBitsFromArr payload (405 + i * 8) (412 + i * 8)).setWidth 8
  dnsList := .ofFn fun i : Fin 2 => .ofFn fun j : Fin 16 =>
    (extractBitsFromArr payload (421 + i * 128 + j * 8) (428 + i * 128 + j * 8)).setWidth 8
  replyType := (extractBitsFromArr payload 677 677).setWidth 1

/-- `parse_admin_bin`; `fCurr` is the global `f_curr`. -/
def parseAdminBin (fCurr : Filter) (payload : List (BitVec 8)) (length : Nat) : Filter :=
  if length < 85 then fCurr else parseFields payload

/-- `stats_t` -/
structure Stats where
  stc : BitVec 64
  sfc : BitVec 64
  smc : BitVec 64
  sic : BitVec 64
  spc : BitVec 64
  deriving DecidableEq

/-- `probe_response_t` -/
structure ProbeResponse where
  f : Filter
  s : Stats
  deriving DecidableEq

/-- `probe_response_t {}` -/
def ProbeResponse.empty : ProbeResponse := ⟨.empty, ⟨0, 0, 0, 0, 0⟩⟩

/-- `parse_probe_pkt`; `length` is a `size_t`, and what is subtracted from it are the sizes of
three pointers.  The headers are of 14, 20 and 8 bytes. -/
def parseProbePkt (fCurr : Filter) (pkt : List (BitVec 8)) (length : Nat) : ProbeResponse :=
  let payload := pkt.drop (14 + 20 + 8)
  let length := (2 ^ 64 - (8 + 8 + 8) + length) % 2 ^ 64
  if length < 128 then .empty
  else
    { f := parseAdminBin fCurr payload length
      s :=
        { stc := extractBitsFromArr payload 678 741
          sfc := extractBitsFromArr payload 742 805
          smc := extractBitsFromArr payload 806 869
          sic := extractBitsFromArr payload 870 933
          spc := extractBitsFromArr payload 934 997 } }

/-- A field of at most 64 bits is extracted whole. -/
theorem extract_setWidth (p : List (BitVec 8)) (s e w : Nat) (hw : e + 1 = s + w) (hpos : 0 < w)
    (hle : w ≤ 64) : (extractBitsFromArr p s e).setWidth w = field (bitAt p) s w := by
  rw [extractBitsFromArr_eq (by omega), show e + 1 - s = w by omega, BitVec.setWidth_setWidth_of_le _ hle,
    BitVec.setWidth_eq]

theorem hwBytes_extract (p : List (BitVec 8)) (n off : Nat) (lo hi : Fin n → Nat)
    (hlo : ∀ j, lo j = off + 8 * j) (hhi : ∀ j, hi j = off + 8 * j + 7) :
    hwBytes (.ofFn fun j => (extractBitsFromArr p (lo j) (hi j)).setWidth 8) =
      field (bitAt p) off (8 * n) := by
  apply BitVec.eq_of_getLsbD_eq
  intro i hi'
  have hdiv : i / 8 < n := by omega
  rw [hwBytes, getLsbD_ofBytesLE, getLsbD_field, decide_eq_true hi', Bool.true_and, Bool.true_and, bitAt,
    List.getD_eq_getElem _ _ (by simpa using hdiv), Vector.getElem_toList, Vector.getElem_ofFn,
    extract_setWidth p _ _ 8 (by rw [hlo, hhi]) (by decide) (by decide), getLsbD_field, hlo,
    decide_eq_true (by omega), Bool.true_and]
  congr 1
  simp only
  omega

/-- The parser reads the hardware's layout. -/
theorem toHw_parseFields (p : List (BitVec 8)) : (parseFields p).toHw = Hw.Filter.decode (bitAt p) := by
  have hbit : ∀ n, ((extractBitsFromArr p n n).setWidth 1).getLsbD 0 = bitAt p n := by
    intro n
    rw [extract_setWidth p n n 1 rfl (by decide) (by decide), getLsbD_field]
    rfl
  have hnat : ∀ s e w, e + 1 = s + w → 0 < w → w ≤ 64 →
      ((extractBitsFromArr p s e).setWidth w).toNat = (field (bitAt p) s w).toNat :=
    fun s e w hw hpos hle => by rw [extract_setWidth p s e w hw hpos hle]
  have htwo : ∀ {α β : Type} (g : α → β) (c : Fin 2 → α), (Vector.ofFn c).map g = #v[g (c 0), g (c 1)] := by
    intro α β g c
    apply Vector.ext
    intro i hi
    rcases (by omega : i = 0 ∨ i = 1) with rfl | rfl <;> simp
  have hbytes : ∀ (n off : Nat) (lo hi : Fin 2 → Fin n → Nat),
      (∀ i j, lo i j = off + 8 * n * i + 8 * j) → (∀ i j, hi i j = off + 8 * n * i + 8 * j + 7) →
      (Vector.ofFn fun i => Vector.ofFn fun j => (extractBitsFromArr p (lo i j) (hi i j)).setWidth 8).map
        hwBytes = #v[field (bitAt p) off (8 * n), field (bitAt p) (off + 8 * n) (8 * n)] := by
    intro n off lo hi hlo hhi
    rw [htwo, hwBytes_extract p n off (lo 0) (hi 0) (by simp [hlo]) (by simp [hhi]),
      hwBytes_extract p n (off + 8 * n) (lo 1) (hi 1) (by simp [hlo]) (by simp [hhi])]
  have hports : ∀ (off : Nat) (lo hi : Fin 2 → Nat), (∀ i, lo i = off + 16 * i) →
      (∀ i, hi i = off + 16 * i + 15) →
      (Vector.ofFn fun i => bswap16 ((extractBitsFromArr p (lo i) (hi i)).setWidth 16)).map bswap16 =
        #v[field (bitAt p) off 16, field (bitAt p) (off + 16) 16] := by
    intro off lo hi hlo hhi
    rw [htwo, bswap16_bswap16, bswap16_bswap16, hlo, hlo, hhi, hhi]
    rw [extract_setWidth p _ _ 16 (by simp) (by decide) (by decide),
      extract_setWidth p _ _ 16 (by simp) (by decide) (by decide)]
    rfl
  have hptrs : (Vector.ofFn fun i : Fin 2 =>
      (extractBitsFromArr p (405 + i * 8) (412 + i * 8)).setWidth 8).map (·.toNat) =
        #v[(field (bitAt p) 405 8).toNat, (field (bitAt p) 413 8).toNat] := by
    rw [htwo]
    rw [hnat _ _ 8 (by simp) (by decide) (by decide), hnat _ _ 8 (by simp) (by decide) (by decide)]
    rfl
  unfold Hw.Filter.decode
  refine (Hw.Filter.mk.injEq ..).mpr
    ⟨hbit 0, hnat 1 2 2 rfl (by decide) (by decide), hbytes 6 3 _ _ ?_ ?_,
    hbit 99, hnat 100 101 2 rfl (by decide) (by decide), hbytes 6 102 _ _ ?_ ?_,
    hbit 198, hnat 199 200 2 rfl (by decide) (by decide), hbytes 4 201 _ _ ?_ ?_,
    hbit 265, hnat 266 267 2 rfl (by decide) (by decide), hbytes 4 268 _ _ ?_ ?_,
    hbit 332, hnat 333 334 2 rfl (by decide) (by decide), hports 335 _ _ ?_ ?_,
    hbit 367, hnat 368 369 2 rfl (by decide) (by decide), hports 370 _ _ ?_ ?_,
    hbit 402, hnat 403 404 2 rfl (by decide) (by decide), hptrs, hbytes 16 421 _ _ ?_ ?_,
    hbit 677⟩
  all_goals
    intros
    omega

/-- The parser looks at 167 bytes, and at the length.  That it could return `f_curr` is of no
account: a payload of 128 bytes is not shorter than 85. -/
theorem parseProbePkt_congr (fCurr fCurr' : Filter) (length : Nat) {p q : List (BitVec 8)}
    (h : ∀ n < 167, p.getD n 0 = q.getD n 0) : parseProbePkt fCurr p length = parseProbePkt fCurr' q length := by
  have hbits : ∀ i < 1000, bitAt (p.drop (14 + 20 + 8)) i = bitAt (q.drop (14 + 20 + 8)) i := by
    intro i hi
    have hbyte := h (14 + 20 + 8 + i / 8) (by omega)
    rw [List.getD_eq_getElem?_getD, List.getD_eq_getElem?_getD] at hbyte
    rw [bitAt, bitAt, List.getD_eq_getElem?_getD, List.getD_eq_getElem?_getD, List.getElem?_drop,
      List.getElem?_drop, hbyte]
  have hextract : ∀ s e, s ≤ e → e < 1000 → extractBitsFromArr (p.drop (14 + 20 + 8)) s e =
      extractBitsFromArr (q.drop (14 + 20 + 8)) s e := by
    intro s e hse he
    rw [extractBitsFromArr_eq hse, extractBitsFromArr_eq hse,
      field_congr fun i hi => hbits (s + i) (by omega)]
  have hfields : parseFields (p.drop (14 + 20 + 8)) = parseFields (q.drop (14 + 20 + 8)) := by
    apply Filter.toHw_injective
    rw [toHw_parseFields, toHw_parseFields]
    exact Hw.Filter.decode_congr fun i hi => hbits i (by omega)
  simp only [parseProbePkt]
  split
  · rfl
  · rename_i hlong
    rw [parseAdminBin, parseAdminBin, if_neg (by omega), if_neg (by omega), hfields,
      hextract 678 741 (by decide) (by decide), hextract 742 805 (by decide) (by decide),
      hextract 806 869 (by decide) (by decide), hextract 870 933 (by decide) (by decide),
      hextract 934 997 (by decide) (by decide)]

/-- A file written by the writer parses to the filter it was written for. -/
theorem parse_of_adminPkt {f : Filter} {bytes : List (BitVec 8)} (h : AdminPkt f bytes) :
    parseFields bytes = f := by
  apply Filter.toHw_injective
  rw [toHw_parseFields]
  refine (Hw.Filter.decode_congr fun n hn => h.payload n (by omega)).trans ?_
  exact Hw.Filter.decode_stream f.toHw_packable

/-- A file written for a parsed filter has the filter's bits of the payload parsed. -/
theorem bits_of_parsed {p bytes : List (BitVec 8)} (h : AdminPkt (parseFields p) bytes) {n : Nat}
    (hn : n < 678) : bitAt bytes n = bitAt p n := by
  refine Hw.Filter.decode_inj ?_ hn
  rw [← toHw_parseFields bytes, parse_of_adminPkt h, toHw_parseFields]

/-- **Encode and decode are inverse.**  Whatever the process has written before, the bytes
written for `f` parse to `f`, and the bytes written for what a payload of at least 85
bytes parses to agree with it on bits 0 to 677. -/
theorem adminFile_round_trip (st : AdminBuf) (hst : st.Reachable) (fCurr : Filter) :
    (∀ f, ∃ st', writeToAdminPkt f st = some st' ∧
      parseAdminBin fCurr st'.adminPkt st'.adminPkt.length = f) ∧
    (∀ p : List (BitVec 8), 85 ≤ p.length →
      ∃ st', writeToAdminPkt (parseAdminBin fCurr p p.length) st = some st' ∧
        ∀ n, n < 678 → bitAt st'.adminPkt n = bitAt p n) := by
  constructor
  · intro f
    obtain ⟨st', hw, _, hpkt⟩ := writeToAdminPkt_spec f hst.fresh
    refine ⟨st', hw, ?_⟩
    rw [parseAdminBin, if_neg (by rw [hpkt.length]; decide), parse_of_adminPkt hpkt]
  · intro p hp
    rw [parseAdminBin, if_neg (by omega)]
    obtain ⟨st', hw, _, hpkt⟩ := writeToAdminPkt_spec (parseFields p) hst.fresh
    exact ⟨st', hw, fun n hn => bits_of_parsed hpkt hn⟩

/-- At the start of the process. -/
theorem adminFile_round_trip_start :
    (∃ st', writeToAdminPkt .empty .init = some st' ∧
      parseAdminBin .empty st'.adminPkt st'.adminPkt.length = .empty) ∧
    (∃ st', writeToAdminPkt (parseAdminBin .empty (List.replicate 85 0xff) 85) .init = some st' ∧
      ∀ n, n < 678 → bitAt st'.adminPkt n = bitAt (List.replicate 85 0xff) n) :=
  ⟨(adminFile_round_trip .init .start .empty).1 .empty,
    (adminFile_round_trip .init .start .empty).2 (List.replicate 85 0xff) (by decide)⟩

end DnsAdtm.Sw
