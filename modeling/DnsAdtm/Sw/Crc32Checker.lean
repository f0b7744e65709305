/-
# `Sw.Crc32Checker` — `crc32-checker.c`

The parametrised CRC model of the checker: the record `cm_t`, `reflect`, `widmask`, and
`cm_ini`, `cm_nxt` and `cm_crc`, with the parameters that `main` sets.  The constants `1L`
are 64 bits wide, and what is made of them is cut to the 32 bits of the variables.

    getLsbD_reflect   `reflect` mirrors the low bits and leaves the others
    cmNxt_reg         a byte comes into the register low bit first
    cmCrc_crc32       the CRC-32 of a message, through the register that shifts down
-/
import DnsAdtm.Lib.Crc

namespace DnsAdtm.Sw

open Crc

/-- `cm_t`. -/
structure Cm where
  cmWidth : BitVec 32
  cmPoly : BitVec 32
  cmInit : BitVec 32
  cmRefin : BitVec 8
  cmRefot : BitVec 8
  cmXorot : BitVec 32
  cmReg : BitVec 32
  deriving DecidableEq, Repr

/-- `BITMASK(X)`. -/
def bitmask (x : BitVec 32) : BitVec 64 := (1 : BitVec 64) <<< x.toNat

/-- One turn of the loop of `reflect`, over `v` and `t`. -/
def reflectBit (b : BitVec 32) (s : BitVec 32 × BitVec 32) (i : Nat) : BitVec 32 × BitVec 32 :=
  let mask := bitmask ((b - 1) - BitVec.ofNat 32 i)
  let v := if s.2 &&& 1 ≠ 0 then (s.1.setWidth 64 ||| mask).setWidth 32
    else (s.1.setWidth 64 &&& ~~~mask).setWidth 32
  (v, s.2 >>> 1)

/-- `reflect`. -/
def reflect (v b : BitVec 32) : BitVec 32 :=
  ((List.range b.toNat).foldl (reflectBit b) (v, v)).1

/-- `widmask`. -/
def widmask (cm : Cm) : BitVec 32 :=
  (((bitmask (cm.cmWidth - 1) - 1) <<< 1) ||| 1).setWidth 32

/-- `cm_ini`. -/
def cmIni (cm : Cm) : Cm := { cm with cmReg := cm.cmInit }

/-- One turn of the loop of `cm_nxt`. -/
def cmNxtBit (topbit : BitVec 32) (cm : Cm) : Cm :=
  let cm := if cm.cmReg &&& topbit ≠ 0 then { cm with cmReg := (cm.cmReg <<< 1) ^^^ cm.cmPoly }
    else { cm with cmReg := cm.cmReg <<< 1 }
  { cm with cmReg := cm.cmReg &&& widmask cm }

/-- `cm_nxt`. -/
def cmNxt (cm : Cm) (ch : BitVec 32) : Cm :=
  let uch := ch
  let topbit := (bitmask (cm.cmWidth - 1)).setWidth 32
  let uch := if cm.cmRefin ≠ 0 then reflect uch 8 else uch
  let cm := { cm with cmReg := cm.cmReg ^^^ (uch <<< (cm.cmWidth - 8).toNat) }
  (cmNxtBit topbit)^[8] cm

/-- `cm_crc`. -/
def cmCrc (cm : Cm) : BitVec 32 :=
  if cm.cmRefot ≠ 0 then cm.cmXorot ^^^ reflect cm.cmReg cm.cmWidth else cm.cmXorot ^^^ cm.cmReg

/-- The parameters `main` sets. -/
def crc32 : Cm where
  cmWidth := 32
  cmPoly := 0x04C11DB7
  cmInit := 0xFFFFFFFF
  cmRefin := 1
  cmRefot := 1
  cmXorot := 0xFFFFFFFF
  cmReg := 0

/-- What `cm_crc` returns after `cm_ini`, and `cm_nxt` over the bytes. -/
def crcBytes (bytes : List (BitVec 8)) : BitVec 32 :=
  cmCrc (bytes.foldl (fun cm ch => cmNxt cm (ch.setWidth 32)) (cmIni crc32))

/-! ## `reflect` -/

theorem getLsbD_bitmask (x : BitVec 32) {i : Nat} (hi : i < 64) :
    (bitmask x).getLsbD i = decide (x.toNat = i) := by
  rw [bitmask, show (1 : BitVec 64) <<< x.toNat = BitVec.twoPow 64 x.toNat from rfl, BitVec.getLsbD_twoPow]
  by_cases hx : x.toNat = i
  · simp [hx, hi]
  · simp [hx]

/-- One turn puts the low bit of `t` at `b - 1 - i`. -/
theorem getLsbD_reflectBit {b : BitVec 32} {s : BitVec 32 × BitVec 32} {i j : Nat} (hi : i < b.toNat)
    (hb : b.toNat ≤ 32) (hj : j < 32) :
    (reflectBit b s i).1.getLsbD j = if b.toNat - 1 - i = j then s.2.getLsbD 0 else s.1.getLsbD j := by
  have hindex : ((b - 1) - BitVec.ofNat 32 i).toNat = b.toNat - 1 - i := by
    rw [BitVec.toNat_sub, BitVec.toNat_sub, BitVec.toNat_ofNat]
    simp
    omega
  have hmask := getLsbD_bitmask ((b - 1) - BitVec.ofNat 32 i) (i := j) (by omega)
  rw [hindex] at hmask
  have hlow : (s.2 &&& 1 ≠ 0) ↔ s.2.getLsbD 0 = true := by
    rw [show s.2 &&& 1 = (BitVec.ofBool (s.2.getLsbD 0)).setWidth 32 from BitVec.and_one_eq_setWidth_ofBool_getLsbD]
    cases s.2.getLsbD 0 <;> decide
  have hj' : j < 64 := by omega
  unfold reflectBit
  simp only [hlow]
  by_cases hset : s.2.getLsbD 0 = true
  · rw [if_pos hset, BitVec.getLsbD_setWidth, BitVec.getLsbD_or, BitVec.getLsbD_setWidth, hmask, hset]
    split_ifs with hpos <;> simp only [hpos, hj, hj', decide_true, decide_false, Bool.true_and, Bool.or_true, Bool.or_false]
  · rw [if_neg hset, BitVec.getLsbD_setWidth, BitVec.getLsbD_and, BitVec.getLsbD_not, BitVec.getLsbD_setWidth, hmask]
    rw [Bool.not_eq_true] at hset
    split_ifs with hpos <;> simp only [hpos, hset, hj, hj', decide_true, decide_false, Bool.true_and, Bool.not_true,
      Bool.not_false, Bool.and_false, Bool.and_true]

/-- The loop of `reflect`, by induction on its turns. -/
theorem reflect_loop {v b : BitVec 32} (hb : b.toNat ≤ 32) {n : Nat} (hn : n ≤ b.toNat) :
    let s := (List.range n).foldl (reflectBit b) (v, v)
    s.2 = v >>> n ∧ ∀ j < 32, s.1.getLsbD j =
      if b.toNat ≤ j + n ∧ j < b.toNat then v.getLsbD (b.toNat - 1 - j) else v.getLsbD j := by
  induction n with
  | zero => 
      refine ⟨by simp, fun j hj => ?_⟩
      rw [if_neg (by omega)]
      rfl
  | succ n ih =>
      obtain ⟨ht, hv⟩ := ih (by omega)
      rw [List.range_succ, List.foldl_append]
      generalize (List.range n).foldl (reflectBit b) (v, v) = s at ht hv ⊢
      refine ⟨?_, fun j hj => ?_⟩
      · show s.2 >>> 1 = v >>> (n + 1)
        rw [ht, BitVec.shiftRight_add]
      · show (reflectBit b s n).1.getLsbD j = _
        rw [getLsbD_reflectBit (by omega) hb hj, ht, hv j hj]
        split_ifs with hnow hdone hdone <;> first | omega | rfl | skip
        rw [BitVec.getLsbD_ushiftRight, show n + 0 = b.toNat - 1 - j by omega]

/-- `reflect` mirrors the low `b` bits and leaves the others. -/
theorem getLsbD_reflect {v b : BitVec 32} (hb : b.toNat ≤ 32) {j : Nat} (hj : j < 32) :
    (reflect v b).getLsbD j = if j < b.toNat then v.getLsbD (b.toNat - 1 - j) else v.getLsbD j := by
  have h := (reflect_loop hb (Nat.le_refl b.toNat) (v := v)).2 j hj
  rw [reflect, h]
  simp

/-- Over all the bits it is the mirror image. -/
theorem reflect_width (v : BitVec 32) : reflect v 32 = v.reverse := by
  apply BitVec.eq_of_getLsbD_eq
  intro i hi
  rw [getLsbD_reflect (by decide) hi, if_pos (show i < (32 : BitVec 32).toNat from hi), BitVec.getLsbD_reverse, BitVec.getMsbD_eq_getLsbD]
  simp [hi]

/-! ## A byte -/

/-- The bits of a byte, low bit first. -/
def bitsOf (ch : BitVec 8) : List Bool := (List.range 8).map ch.getLsbD

/-- The turns of the loop, at 32 bits: the register shifts up. -/
theorem cmNxtBit_eq {cm : Cm} (hwidth : cm.cmWidth = 32) :
    cmNxtBit ((bitmask (cm.cmWidth - 1)).setWidth 32) cm =
      { cm with cmReg := up cm.cmPoly cm.cmReg false } := by
  have htop : (bitmask (cm.cmWidth - 1)).setWidth 32 = BitVec.twoPow 32 31 := by
    rw [hwidth]
    decide
  have hmsb : (cm.cmReg &&& BitVec.twoPow 32 31 ≠ 0) ↔ cm.cmReg.msb = true := by
    rw [BitVec.and_twoPow, BitVec.msb_eq_getLsbD_last]
    cases cm.cmReg.getLsbD 31 <;> decide
  have hmask (cm : Cm) (hwidth : cm.cmWidth = 32) :
      { cm with cmReg := cm.cmReg &&& widmask cm } = cm := by
    have hones : widmask cm = BitVec.allOnes 32 := by
      rw [widmask, hwidth]
      decide
    rw [hones, BitVec.and_allOnes]
  rw [htop, cmNxtBit, up]
  simp only [hmsb, Bool.xor_false]
  by_cases hset : cm.cmReg.msb = true
  · rw [if_pos hset, if_pos hset]
    exact hmask _ hwidth
  · rw [if_neg hset, if_neg hset]
    exact hmask _ hwidth

theorem cmNxtBits_eq (cm : Cm) (hwidth : cm.cmWidth = 32) (n : Nat) :
    (cmNxtBit ((bitmask (cm.cmWidth - 1)).setWidth 32))^[n] cm =
      { cm with cmReg := (fun r => up cm.cmPoly r false)^[n] cm.cmReg } := by
  induction n generalizing cm with
  | zero => rfl
  | succ n ih =>
      rw [Function.iterate_succ_apply, Function.iterate_succ_apply, cmNxtBit_eq hwidth]
      exact ih { cm with cmReg := up cm.cmPoly cm.cmReg false } hwidth

/-- A byte comes into the register low bit first. -/
theorem cmNxt_eq {cm : Cm} (hwidth : cm.cmWidth = 32) (hrefin : cm.cmRefin ≠ 0) (ch : BitVec 8) :
    cmNxt cm (ch.setWidth 32) = { cm with cmReg := ups cm.cmPoly cm.cmReg (bitsOf ch) } := by
  -- the reflected byte, in the eight high bits
  have hbit : ∀ k < 32, (reflect (ch.setWidth 32) 8 <<< 24).getLsbD k =
      (decide (24 ≤ k) && ch.getLsbD (31 - k)) := by
    intro k hk
    rw [BitVec.getLsbD_shiftLeft]
    rcases Nat.lt_or_ge k 24 with hlt | hge
    · simp [hlt, show ¬ 24 ≤ k by omega]
    · have height : (8 : BitVec 32).toNat = 8 := by decide
      rw [getLsbD_reflect (by decide) (by omega), height, if_pos (by omega), BitVec.getLsbD_setWidth,
        show 8 - 1 - (k - 24) = 31 - k by omega]
      simp [hk, hge, show ¬ k < 24 by omega, show 31 - k < 32 by omega]
  have hbits : (List.range 8).map (reflect (ch.setWidth 32) 8 <<< 24).getMsbD = bitsOf ch := by
    refine List.map_congr_left fun k hk => ?_
    have hk' := List.mem_range.mp hk
    rw [BitVec.getMsbD_eq_getLsbD, hbit _ (by omega)]
    simp [show k < 32 by omega, show 24 ≤ 31 - k by omega, show 31 - (31 - k) = k by omega]
  have hload := iterate_up cm.cmPoly cm.cmReg 8 (reflect (ch.setWidth 32) 8 <<< 24) fun k hk => by
    rw [hbit k (by omega)]
    simp [show ¬ 24 ≤ k by omega]
  rw [hbits] at hload
  have hshift : (cm.cmWidth - 8).toNat = 24 := by rw [hwidth]; decide
  rw [← hload, cmNxt]
  simp only [if_pos hrefin, hshift]
  exact cmNxtBits_eq { cm with cmReg := cm.cmReg ^^^ (reflect (ch.setWidth 32) 8 <<< 24) } hwidth 8

theorem cmNxt_bytes {cm : Cm} (hwidth : cm.cmWidth = 32) (hrefin : cm.cmRefin ≠ 0) (bytes : List (BitVec 8)) :
    bytes.foldl (fun cm ch => cmNxt cm (ch.setWidth 32)) cm =
      { cm with cmReg := ups cm.cmPoly cm.cmReg (bytes.flatMap bitsOf) } := by
  induction bytes generalizing cm with
  | nil => rfl
  | cons ch bytes ih =>
      rw [List.foldl_cons, cmNxt_eq hwidth hrefin, ih (by exact hwidth) (by exact hrefin), List.flatMap_cons, ups_append]

/-- The CRC-32 of a message. -/
theorem crcBytes_eq (bytes : List (BitVec 8)) :
    crcBytes bytes = ~~~(downs (0x04C11DB7 : BitVec 32).reverse 0xFFFFFFFF (bytes.flatMap bitsOf)) := by
  rw [crcBytes, cmNxt_bytes rfl (by decide)]
  show 0xFFFFFFFF ^^^ reflect (ups 0x04C11DB7 0xFFFFFFFF (bytes.flatMap bitsOf)) 32 = _
  have hones : (0xFFFFFFFF : BitVec 32) = BitVec.allOnes 32 := by decide
  have hmirror : (0xFFFFFFFF : BitVec 32).reverse = 0xFFFFFFFF := by decide +kernel
  rw [reflect_width, reverse_ups, hmirror]
  nth_rewrite 1 [hones]
  exact BitVec.allOnes_xor

end DnsAdtm.Sw
