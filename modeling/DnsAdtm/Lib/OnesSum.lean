/-
# `Lib.OnesSum` — the ones' complement sum

The sum of an internet header: its words are added, and the carry out of the top goes in at
the bottom.  Modulo `2 ^ w - 1` it is the plain sum (`onesSum_modEq`), and of the two words
that are zero there it is `0` for a list of zeros only; so a list that holds its own
checksum sums to ones if and only if `2 ^ w - 1` divides the plain sum.

    onesSum_eq_allOnes    the check a receiver makes
-/
import Mathlib.Data.Nat.ModEq
import Mathlib.Tactic.IntervalCases

namespace DnsAdtm

variable {w : Nat}

/-- Addition with end-around carry. -/
def onesAdd (a b : BitVec w) : BitVec w :=
  let s := a.toNat + b.toNat
  BitVec.ofNat w (if s < 2 ^ w then s else s - (2 ^ w - 1))

def onesSum (ws : List (BitVec w)) : BitVec w := ws.foldl onesAdd 0

/-- The sum without the carry. -/
def plainSum (ws : List (BitVec w)) : Nat := (ws.map (·.toNat)).sum

theorem plainSum_cons (x : BitVec w) (ws : List (BitVec w)) :
    plainSum (x :: ws) = x.toNat + plainSum ws := by
  simp [plainSum]

/-- The words of a byte list, high byte first. -/
def wordsBE : List (BitVec 8) → List (BitVec 16)
  | a :: b :: rest => (a ++ b) :: wordsBE rest
  | _ => []

theorem toNat_onesAdd (a b : BitVec w) : (onesAdd a b).toNat =
    if a.toNat + b.toNat < 2 ^ w then a.toNat + b.toNat else a.toNat + b.toNat - (2 ^ w - 1) := by
  have ha := a.isLt
  have hb := b.isLt
  rw [onesAdd, BitVec.toNat_ofNat, Nat.mod_eq_of_lt]
  split <;> omega

theorem onesAdd_modEq (a b : BitVec w) : (onesAdd a b).toNat ≡ a.toNat + b.toNat [MOD 2 ^ w - 1] := by
  rw [toNat_onesAdd]
  split
  · exact Nat.ModEq.refl _
  · refine (Nat.modEq_iff_dvd' (Nat.sub_le _ _)).mpr ?_
    rw [Nat.sub_sub_self (by omega)]

/-- Zero comes from zeros only. -/
theorem onesAdd_eq_zero {a b : BitVec w} (hw : 0 < w) : onesAdd a b = 0 ↔ a = 0 ∧ b = 0 := by
  have hpow : 1 < 2 ^ w := Nat.one_lt_two_pow (by omega)
  rw [← BitVec.toNat_inj, ← BitVec.toNat_inj, ← BitVec.toNat_inj, toNat_onesAdd]
  have hzero : (0 : BitVec w).toNat = 0 := by simp
  rw [hzero]
  split <;> omega

/-- From an accumulator on, by induction on the words. -/
theorem foldl_onesAdd (hw : 0 < w) (ws : List (BitVec w)) (a : BitVec w) :
    (ws.foldl onesAdd a).toNat ≡ a.toNat + plainSum ws [MOD 2 ^ w - 1] ∧
      (ws.foldl onesAdd a = 0 ↔ a = 0 ∧ plainSum ws = 0) := by
  induction ws generalizing a with
  | nil => simp [plainSum, Nat.ModEq.refl]
  | cons x ws ih =>
      obtain ⟨hmod, hzero⟩ := ih (onesAdd a x)
      rw [List.foldl_cons, plainSum_cons]
      constructor
      · refine hmod.trans ?_
        rw [← Nat.add_assoc]
        exact (onesAdd_modEq a x).add_right _
      · rw [hzero, onesAdd_eq_zero hw, and_assoc, Nat.add_eq_zero_iff, ← BitVec.toNat_inj (x := x)]
        simp

theorem onesSum_modEq (hw : 0 < w) (ws : List (BitVec w)) :
    (onesSum ws).toNat ≡ plainSum ws [MOD 2 ^ w - 1] := by
  have h := (foldl_onesAdd hw ws 0).1
  simpa [onesSum] using h

/-- A list sums to ones if and only if `2 ^ w - 1` divides its plain sum, and not all is zero. -/
theorem onesSum_eq_allOnes (hw : 0 < w) (ws : List (BitVec w)) :
    onesSum ws = BitVec.allOnes w ↔ 0 < plainSum ws ∧ 2 ^ w - 1 ∣ plainSum ws := by
  have hpow : 1 < 2 ^ w := Nat.one_lt_two_pow (by omega)
  have hlt := (onesSum ws).isLt
  have hzero : onesSum ws = 0 ↔ plainSum ws = 0 := by
    have h := (foldl_onesAdd hw ws 0).2
    simpa [onesSum] using h
  have hmod := onesSum_modEq hw ws
  have hones : onesSum ws = BitVec.allOnes w ↔ (onesSum ws).toNat = 2 ^ w - 1 := by
    rw [← BitVec.toNat_inj, BitVec.toNat_allOnes]
  have hnat : onesSum ws = 0 ↔ (onesSum ws).toNat = 0 := by
    rw [← BitVec.toNat_inj]
    simp
  rw [hones]
  constructor
  · intro h
    refine ⟨Nat.pos_of_ne_zero fun h0 => ?_, ?_⟩
    · have := hnat.mp (hzero.mpr h0)
      omega
    · refine (Nat.modEq_zero_iff_dvd).mp (hmod.symm.trans ?_)
      rw [h]
      exact (Nat.modEq_zero_iff_dvd).mpr (Nat.dvd_refl _)
  · rintro ⟨hpos, hdvd⟩
    -- a multiple of `2 ^ w - 1` below `2 ^ w`, and not zero
    have hdvd' : 2 ^ w - 1 ∣ (onesSum ws).toNat :=
      (Nat.modEq_zero_iff_dvd).mp (hmod.trans ((Nat.modEq_zero_iff_dvd).mpr hdvd))
    have hne : (onesSum ws).toNat ≠ 0 := by
      rw [Ne, ← hnat, hzero]
      omega
    obtain ⟨k, hk⟩ := hdvd'
    rcases Nat.lt_or_ge k 2 with hlt2 | hge2
    · interval_cases k
      · exact absurd hk hne
      · rw [hk, Nat.mul_one]
    · have : (2 ^ w - 1) * 2 ≤ (2 ^ w - 1) * k := Nat.mul_le_mul_left _ hge2
      omega

end DnsAdtm
