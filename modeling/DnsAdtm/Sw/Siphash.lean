/-
# `Sw.Siphash` — `siphash.c`

The reference implementation, statement by statement: the macros `ROTL`,
`U8TO64_LE`, `U64TO8_LE` and `SIPROUND`, and the function `siphash` with both of
its output lengths and its switch over the trailing bytes.  A buffer is the list
of its bytes.  The two facts at the end are what a caller needs: over a whole
number of words the function is SipHash of the little-endian words of its input.
-/
import DnsAdtm.Lib.SipHash
import DnsAdtm.Lib.Bits

namespace DnsAdtm.Sw

open SipHash (V)

/-- `cROUNDS`. -/
def cROUNDS : Nat := 2

/-- `dROUNDS`. -/
def dROUNDS : Nat := 4

/-- `ROTL(x, b)`. -/
def rotl (x : BitVec 64) (b : Nat) : BitVec 64 := (x <<< b) ||| (x >>> (64 - b))

/-- `U8TO64_LE(p + off)`. -/
def u8to64LE (p : List (BitVec 8)) (off : Nat) : BitVec 64 :=
  (p.getD off 0).setWidth 64 ||| (p.getD (off + 1) 0).setWidth 64 <<< 8 |||
    (p.getD (off + 2) 0).setWidth 64 <<< 16 ||| (p.getD (off + 3) 0).setWidth 64 <<< 24 |||
    (p.getD (off + 4) 0).setWidth 64 <<< 32 ||| (p.getD (off + 5) 0).setWidth 64 <<< 40 |||
    (p.getD (off + 6) 0).setWidth 64 <<< 48 ||| (p.getD (off + 7) 0).setWidth 64 <<< 56

/-- `U32TO8_LE(p, v)`: the four bytes stored. -/
def u32to8LE (v : BitVec 32) : List (BitVec 8) :=
  [v.setWidth 8, (v >>> 8).setWidth 8, (v >>> 16).setWidth 8, (v >>> 24).setWidth 8]

/-- `U64TO8_LE(p, v)`: the eight bytes stored. -/
def u64to8LE (v : BitVec 64) : List (BitVec 8) :=
  u32to8LE (v.setWidth 32) ++ u32to8LE ((v >>> 32).setWidth 32)

/-- `SIPROUND`, in the order of its statements. -/
def sipround (v : V) : V :=
  let v := { v with v0 := v.v0 + v.v1 }
  let v := { v with v1 := rotl v.v1 13 }
  let v := { v with v1 := v.v1 ^^^ v.v0 }
  let v := { v with v0 := rotl v.v0 32 }
  let v := { v with v2 := v.v2 + v.v3 }
  let v := { v with v3 := rotl v.v3 16 }
  let v := { v with v3 := v.v3 ^^^ v.v2 }
  let v := { v with v0 := v.v0 + v.v3 }
  let v := { v with v3 := rotl v.v3 21 }
  let v := { v with v3 := v.v3 ^^^ v.v0 }
  let v := { v with v2 := v.v2 + v.v1 }
  let v := { v with v1 := rotl v.v1 17 }
  let v := { v with v1 := v.v1 ^^^ v.v2 }
  { v with v2 := rotl v.v2 32 }

/-- One turn of the loop over the words of the input. -/
def siphashWord (v : V) (m : BitVec 64) : V :=
  let v := { v with v3 := v.v3 ^^^ m }
  let v := sipround^[cROUNDS] v
  { v with v0 := v.v0 ^^^ m }

/-- The `switch (left)` with its fall-through: the trailing bytes, last one first. -/
def siphashTail (ni : List (BitVec 8)) (left : Nat) (b : BitVec 64) : BitVec 64 :=
  (List.range left).reverse.foldl (fun b j => b ||| (ni.getD j 0).setWidth 64 <<< (8 * j)) b

/-- `siphash(in, inlen, k, out, outlen)`: the bytes written to `out`; `none` where
the assertion on `outlen` fails. -/
def siphash (inp : List (BitVec 8)) (inlen : Nat) (k : List (BitVec 8)) (outlen : Nat) :
    Option (List (BitVec 8)) :=
  if outlen = 8 ∨ outlen = 16 then
    let k0 := u8to64LE k 0
    let k1 := u8to64LE k 8
    let left := inlen % 8
    let b := BitVec.ofNat 64 inlen <<< 56
    let v : V := ⟨0x736f6d6570736575, 0x646f72616e646f6d, 0x6c7967656e657261, 0x7465646279746573⟩
    let v := { v with v3 := v.v3 ^^^ k1 }
    let v := { v with v2 := v.v2 ^^^ k0 }
    let v := { v with v1 := v.v1 ^^^ k1 }
    let v := { v with v0 := v.v0 ^^^ k0 }
    let v := if outlen = 16 then { v with v1 := v.v1 ^^^ 0xee } else v
    let v := (List.range (inlen / 8)).foldl (fun v i => siphashWord v (u8to64LE inp (8 * i))) v
    let b := siphashTail (inp.drop (inlen - left)) left b
    let v := { v with v3 := v.v3 ^^^ b }
    let v := sipround^[cROUNDS] v
    let v := { v with v0 := v.v0 ^^^ b }
    let v := if outlen = 16 then { v with v2 := v.v2 ^^^ 0xee } else { v with v2 := v.v2 ^^^ 0xff }
    let v := sipround^[dROUNDS] v
    let b := v.v0 ^^^ v.v1 ^^^ v.v2 ^^^ v.v3
    let out := u64to8LE b
    if outlen = 8 then some out
    else
      let v := { v with v1 := v.v1 ^^^ 0xdd }
      let v := sipround^[dROUNDS] v
      let b := v.v0 ^^^ v.v1 ^^^ v.v2 ^^^ v.v3
      some (out ++ u64to8LE b)
  else none

/-! ## What the macros compute -/

theorem rotl_eq (x : BitVec 64) {b : Nat} (h : b < 64) : rotl x b = x.rotateLeft b := by
  rw [rotl, BitVec.rotateLeft_def, Nat.mod_eq_of_lt h]

/-- The fourteen statements of `SIPROUND` are one SipRound. -/
theorem sipround_eq : sipround = SipHash.round := by
  funext v
  simp only [sipround, SipHash.round, rotl_eq _ (show 13 < 64 by decide),
    rotl_eq _ (show 32 < 64 by decide), rotl_eq _ (show 16 < 64 by decide),
    rotl_eq _ (show 21 < 64 by decide), rotl_eq _ (show 17 < 64 by decide)]

theorem siphashWord_eq : siphashWord = SipHash.absorb 2 := by
  funext v m
  simp only [siphashWord, SipHash.absorb, sipround_eq, cROUNDS]

/-- `U8TO64_LE` reads eight bytes as one word, bit for bit. -/
theorem u8to64LE_eq (p : List (BitVec 8)) (i : Nat) :
    u8to64LE p (8 * i) = field (bitAt p) (64 * i) 64 := by
  apply BitVec.eq_of_getLsbD_eq
  intro j hj
  obtain ⟨k, r, hr, rfl⟩ : ∃ k r, r < 8 ∧ j = r + 8 * k :=
    ⟨j / 8, j % 8, by omega, by omega⟩
  have hdiv : (64 * i + (r + 8 * k)) / 8 = 8 * i + k := by omega
  have hmod : (64 * i + (r + 8 * k)) % 8 = r := by omega
  have hk : k < 8 := by omega
  rw [getLsbD_field, bitAt, hdiv, hmod]
  simp only [u8to64LE, BitVec.getLsbD_or, BitVec.getLsbD_shiftLeft, BitVec.getLsbD_setWidth, hj,
    decide_true, Bool.true_and]
  -- the byte that holds the bit is the only one whose shift reaches it
  interval_cases k <;>
    simp (disch := omega) only [BitVec.getLsbD_of_ge, decide_eq_true, decide_eq_false,
      Bool.not_true, Bool.not_false, Bool.false_and, Bool.true_and, Bool.and_false, Bool.or_false,
      Bool.false_or, Nat.mul_zero, Nat.add_zero, Nat.add_sub_cancel]

theorem u64to8LE_eq (v : BitVec 64) : u64to8LE v = bytesLE v 8 := by
  have hbyte : ∀ k : Nat, v.extractLsb' k 8 = (v >>> k).setWidth 8 := fun k => by
    apply BitVec.eq_of_getLsbD_eq
    intro i _
    simp only [BitVec.getLsbD_extractLsb', BitVec.getLsbD_setWidth, BitVec.getLsbD_ushiftRight]
  -- a byte of the low half is not touched by cutting the high half off
  have hlow : ∀ (w : BitVec 64) (k : Nat), k ≤ 24 →
      (w.setWidth 32 >>> k).setWidth 8 = (w >>> k).setWidth 8 := fun w k hk => by
    apply BitVec.eq_of_getLsbD_eq
    intro i hi
    simp only [BitVec.getLsbD_setWidth, BitVec.getLsbD_ushiftRight]
    simp [show k + i < 32 by omega]
  simp only [u64to8LE, u32to8LE, bytesLE, List.cons_append, List.nil_append, List.range,
    List.range.loop, List.map, hbyte]
  simp (disch := omega) [hlow, ← BitVec.shiftRight_add]

/-! ## A whole number of words -/

/-- The words of a byte array that is a whole number of them. -/
def wordsLE (inp : List (BitVec 8)) (n : Nat) : List (BitVec 64) :=
  (List.range n).map fun i => field (bitAt inp) (64 * i) 64

theorem siphashTail_zero (ni : List (BitVec 8)) (b : BitVec 64) : siphashTail ni 0 b = b := rfl

/-- With eight output bytes and no trailing ones, `siphash` is SipHash-2-4 of the
words of its input. -/
theorem siphash_words (inp k : List (BitVec 8)) (n : Nat) :
    siphash inp (8 * n) k 8 =
      some (bytesLE (SipHash.sipHash cROUNDS dROUNDS (field (bitAt k) 0 64) (field (bitAt k) 64 64)
        (wordsLE inp n) (BitVec.ofNat 64 (8 * n) <<< 56)) 8) := by
  have hk0 := u8to64LE_eq k 0
  have hk1 := u8to64LE_eq k 1
  have hdiv : 8 * n / 8 = n := by omega
  have hmod : 8 * n % 8 = 0 := by omega
  simp only [Nat.mul_zero, Nat.mul_one] at hk0 hk1
  simp only [siphash, hdiv, hmod, hk0, hk1, siphashTail_zero, siphashWord_eq, sipround_eq,
    u64to8LE_eq, u8to64LE_eq]
  simp [SipHash.sipHash, SipHash.finish, SipHash.absorb, SipHash.init, wordsLE, List.foldl_map,
    cROUNDS]

end DnsAdtm.Sw
