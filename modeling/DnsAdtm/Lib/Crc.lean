/-
# `Lib.Crc` — cyclic redundancy checks, bit by bit

A check register of `w` bits divides the message by a polynomial as its bits come in.  The
register of the textbooks shifts towards its high end (`up`), that of the hardware that
takes the low bit of each byte first is its mirror image and shifts the other way (`down`).

    up_xor          the registers are linear: a word added to one is its high bit coming in
    reverse_ups     the two forms are mirror images of each other
    iterate_up      a word added at the high end and shifted out is its bits coming in
-/
import Mathlib

namespace DnsAdtm.Crc

variable {w : Nat}

/-- A message bit comes into a register that shifts up. -/
def up (poly reg : BitVec w) (b : Bool) : BitVec w :=
  if (reg.msb ^^ b) = true then (reg <<< 1) ^^^ poly else reg <<< 1

/-- A message bit comes into a register that shifts down. -/
def down (poly reg : BitVec w) (b : Bool) : BitVec w :=
  if (reg.getLsbD 0 ^^ b) = true then (reg >>> 1) ^^^ poly else reg >>> 1

/-- The bits of a message, the first in front. -/
def ups (poly reg : BitVec w) (bits : List Bool) : BitVec w := bits.foldl (up poly) reg

def downs (poly reg : BitVec w) (bits : List Bool) : BitVec w := bits.foldl (down poly) reg

variable (poly reg : BitVec w)

theorem getLsbD_up (b : Bool) {i : Nat} (hi : i < w) :
    (up poly reg b).getLsbD i =
      ((decide (0 < i) && reg.getLsbD (i - 1)) ^^ ((reg.msb ^^ b) && poly.getLsbD i)) := by
  have hpos : decide (0 < i) = !decide (i < 1) := by
    rw [← decide_not]
    exact decide_eq_decide.2 (by omega)
  unfold up
  split_ifs with h
  · simp only [BitVec.getLsbD_xor, BitVec.getLsbD_shiftLeft, h, hi, hpos, decide_true, Bool.true_and]
  · rw [Bool.not_eq_true] at h
    simp only [BitVec.getLsbD_shiftLeft, h, hi, hpos, decide_true, Bool.true_and, Bool.false_and, Bool.xor_false]

theorem getLsbD_down (b : Bool) (i : Nat) :
    (down poly reg b).getLsbD i =
      (reg.getLsbD (i + 1) ^^ ((reg.getLsbD 0 ^^ b) && poly.getLsbD i)) := by
  unfold down
  split_ifs with h
  · simp [h, Nat.add_comm i 1]
  · rw [Bool.not_eq_true] at h
    simp [h, Nat.add_comm i 1]

/-- A word added to the register is its high bit coming in, and the rest one place up. -/
theorem up_xor (v : BitVec w) : up poly (reg ^^^ v) false = up poly reg v.msb ^^^ (v <<< 1) := by
  apply BitVec.eq_of_getLsbD_eq
  intro i hi
  rw [BitVec.getLsbD_xor, getLsbD_up _ _ _ hi, getLsbD_up _ _ _ hi, BitVec.getLsbD_shiftLeft]
  have hpos : (!decide (i < 1)) = decide (0 < i) := by
    rw [← decide_not]
    exact decide_eq_decide.2 (by omega)
  rw [hpos]
  simp only [hi, decide_true, Bool.true_and, BitVec.getLsbD_xor, BitVec.msb_xor, Bool.xor_false]
  cases decide (0 < i) <;> cases reg.getLsbD (i - 1) <;> cases v.getLsbD (i - 1) <;> simp

/-- The mirror image. -/
theorem reverse_up (b : Bool) : (up poly reg b).reverse = down poly.reverse reg.reverse b := by
  apply BitVec.eq_of_getLsbD_eq
  intro i hi
  have hmsb : reg.msb = reg.reverse.getLsbD 0 := by rw [BitVec.getLsbD_reverse, BitVec.msb]
  rw [getLsbD_down, BitVec.getLsbD_reverse, BitVec.getMsbD_eq_getLsbD, getLsbD_up _ _ _ (by omega), ← hmsb,
    BitVec.getLsbD_reverse, BitVec.getLsbD_reverse, BitVec.getMsbD_eq_getLsbD, BitVec.getMsbD_eq_getLsbD]
  have hlow : decide (0 < w - 1 - i) = decide (i + 1 < w) := decide_eq_decide.2 (by omega)
  rw [hlow, show w - 1 - i - 1 = w - 1 - (i + 1) by omega]
  simp [hi]

theorem reverse_ups (bits : List Bool) :
    (ups poly reg bits).reverse = downs poly.reverse reg.reverse bits := by
  induction bits generalizing reg with
  | nil => rfl
  | cons b bits ih =>
      rw [ups, downs, List.foldl_cons, List.foldl_cons, ← reverse_up]
      exact ih (up poly reg b)

/-- A word in the `n` high bits, added at once and shifted out. -/
theorem iterate_up (n : Nat) (v : BitVec w) (hv : ∀ i, i + n < w → v.getLsbD i = false) :
    (fun r => up poly r false)^[n] (reg ^^^ v) = ups poly reg ((List.range n).map v.getMsbD) := by
  induction n generalizing reg v with
  | zero =>
      have hzero : v = 0 := by
        apply BitVec.eq_of_getLsbD_eq
        intro i hi
        rw [hv i hi]
        simp
      simp [hzero, ups]
  | succ n ih =>
      have hbits : (List.range (n + 1)).map v.getMsbD = v.msb :: (List.range n).map (v <<< 1).getMsbD := by
        rw [List.range_succ_eq_map, List.map_cons, List.map_map]
        refine congrArg (v.getMsbD 0 :: ·) (List.map_congr_left fun i _ => ?_)
        simp [BitVec.getMsbD_shiftLeft]
      rw [Function.iterate_succ_apply, up_xor, hbits]
      refine ih (up poly reg v.msb) (v <<< 1) fun i hi => ?_
      rw [BitVec.getLsbD_shiftLeft]
      rcases Nat.eq_zero_or_pos i with rfl | hpos
      · simp
      · rw [hv (i - 1) (by omega)]
        simp

theorem ups_append (a b : List Bool) : ups poly reg (a ++ b) = ups poly (ups poly reg a) b :=
  List.foldl_append

theorem downs_append (a b : List Bool) : downs poly reg (a ++ b) = downs poly (downs poly reg a) b :=
  List.foldl_append

end DnsAdtm.Crc
