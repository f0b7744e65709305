/-
# `Lib.Bits` — slices of a bit vector, and bit streams

A hardware description reads and writes a vector by slices `v(hi DOWNTO lo)`,
and a bit-packing program reads and writes a byte array by bit positions.
Both are views of one thing, a stream `Nat → Bool` read least significant bit
first, and this module fixes the two views and how they meet:

    v.downto hi lo         the slice `v(hi DOWNTO lo)`
    v.put hi lo x          `v` after the assignment `v(hi DOWNTO lo) <= x`
    field b off w          the `w` bits of the stream `b` from position `off`
    bitAt bytes n          bit `n mod 8` of byte `n / 8`
    tornRead bytes k       `k` bytes that change while they are read
    stream segs            segments of any widths, packed one after another

Nothing here names the repository; the lemmas are the bit-level equations
(`getLsbD_…`) and the two rules that a proof about a packed record lives on:
a slice reads back what was put there, and is untouched by a disjoint put.
-/
import Mathlib

namespace DnsAdtm

/-! ## Slices -/

section Slices
variable {n m k : Nat}

/-- The slice `v(hi DOWNTO lo)`.  The width is read off the expected type and
checked against the bounds; at literal bounds the check is an evaluation. -/
def downto (v : BitVec n) (hi lo : Nat) {m : Nat}
    (_ : decide (m = hi + 1 - lo) := by
      first | exact Eq.refl true | exact decide_eq_true (by omega)) : BitVec m :=
  v.extractLsb' lo m

/-- `v` with the bits from `lo` on replaced by those of `x`. -/
def setSlice (v : BitVec n) (lo : Nat) (x : BitVec m) : BitVec n :=
  (v &&& ~~~((BitVec.allOnes m).setWidth n <<< lo)) ||| (x.setWidth n <<< lo)

/-- The assignment `v(hi DOWNTO lo) <= x`. -/
def put (v : BitVec n) (hi lo : Nat) (x : BitVec m)
    (_ : decide (m = hi + 1 - lo) := by
      first | exact Eq.refl true | exact decide_eq_true (by omega)) : BitVec n :=
  setSlice v lo x

/-- The assignment `v(i) <= b` of a single bit. -/
def putBit (v : BitVec n) (i : Nat) (b : Bool) : BitVec n :=
  setSlice v i (BitVec.ofBool b)

@[simp] theorem getLsbD_downto (v : BitVec n) (hi lo i : Nat) (h : decide (m = hi + 1 - lo)) :
    (downto v hi lo h).getLsbD i = (decide (i < m) && v.getLsbD (lo + i)) := by
  simp [downto]

theorem getLsbD_setSlice (v : BitVec n) (lo : Nat) (x : BitVec m) (i : Nat) :
    (setSlice v lo x).getLsbD i =
      if i < n ∧ lo ≤ i ∧ i < lo + m then x.getLsbD (i - lo) else v.getLsbD i := by
  simp only [setSlice, BitVec.getLsbD_or, BitVec.getLsbD_and, BitVec.getLsbD_not,
    BitVec.getLsbD_shiftLeft, BitVec.getLsbD_setWidth, BitVec.getLsbD_allOnes]
  by_cases hn : i < n
  · by_cases hlo : lo ≤ i
    · by_cases him : i < lo + m
      · simp [hn, hlo, him, show i - lo < m by omega, show i - lo < n by omega,
          show ¬ i < lo by omega]
      · have hx : x.getLsbD (i - lo) = false := BitVec.getLsbD_of_ge _ _ (by omega)
        simp [hn, him, show ¬ i - lo < m by omega, show ¬ i < lo by omega, hx]
    · simp [hn, hlo, show i < lo by omega]
  · have hv : v.getLsbD i = false := BitVec.getLsbD_of_ge _ _ (by omega)
    simp [hn, hv]

/-- Two slices agree when their upper `k` bits and the rest below do. -/
theorem extractLsb'_eq_split {m' : Nat} (v : BitVec n) (u : BitVec m') (a b : Nat) {c : Nat}
    (hk : k ≤ c) :
    v.extractLsb' a c = u.extractLsb' b c ↔
      v.extractLsb' (a + c - k) k = u.extractLsb' (b + c - k) k ∧
        v.extractLsb' a (c - k) = u.extractLsb' b (c - k) := by
  have hbit : ∀ w, v.extractLsb' a w = u.extractLsb' b w ↔
      ∀ i, i < w → v.getLsbD (a + i) = u.getLsbD (b + i) := by
    intro w
    refine ⟨fun h i hi => ?_, fun h => BitVec.eq_of_getLsbD_eq fun i hi => ?_⟩
    · have := congrArg (·.getLsbD i) h
      simpa only [BitVec.getLsbD_extractLsb', hi, decide_true, Bool.true_and] using this
    · rw [BitVec.getLsbD_extractLsb', BitVec.getLsbD_extractLsb', h i hi]
  have htop : v.extractLsb' (a + c - k) k = u.extractLsb' (b + c - k) k ↔
      ∀ i, c - k ≤ i → i < c → v.getLsbD (a + i) = u.getLsbD (b + i) := by
    refine ⟨fun h i hlo hhi => ?_, fun h => BitVec.eq_of_getLsbD_eq fun i hi => ?_⟩
    · have := congrArg (·.getLsbD (i - (c - k))) h
      simp only [BitVec.getLsbD_extractLsb', show i - (c - k) < k by omega, decide_true,
        Bool.true_and] at this
      rwa [show a + c - k + (i - (c - k)) = a + i by omega,
        show b + c - k + (i - (c - k)) = b + i by omega] at this
    · have := h (c - k + i) (by omega) (by omega)
      rw [BitVec.getLsbD_extractLsb', BitVec.getLsbD_extractLsb',
        show a + c - k + i = a + (c - k + i) by omega,
        show b + c - k + i = b + (c - k + i) by omega, this]
  rw [hbit, htop, hbit]
  refine ⟨fun h => ⟨fun i _ hi => h i hi, fun i hi => h i (by omega)⟩, fun h i hi => ?_⟩
  rcases Nat.lt_or_ge i (c - k) with hlt | hge
  · exact h.2 i hlt
  · exact h.1 i hge hi

end Slices

/-! ## Bit streams -/

/-- The `w` bits of the stream `b` from position `off`, least significant first. -/
def field (b : Nat → Bool) (off w : Nat) : BitVec w :=
  BitVec.ofFnLE fun i : Fin w => b (off + i)

theorem getLsbD_field (b : Nat → Bool) (off w i : Nat) :
    (field b off w).getLsbD i = (decide (i < w) && b (off + i)) := by
  by_cases h : i < w
  · simp [field, h]
  · simp [field, BitVec.getLsbD_ofFnLE, h]

/-- A slice of a vector is a field of the stream of its bits. -/
theorem extractLsb'_eq_field {n : Nat} (v : BitVec n) (lo w : Nat) :
    v.extractLsb' lo w = field v.getLsbD lo w := by
  apply BitVec.eq_of_getLsbD_eq
  intro i _
  rw [BitVec.getLsbD_extractLsb', getLsbD_field]

theorem downto_eq_field {n m : Nat} (v : BitVec n) (hi lo : Nat) (h : decide (m = hi + 1 - lo)) :
    downto v hi lo h = field v.getLsbD lo m :=
  extractLsb'_eq_field v lo m

/-- A field depends on its own positions only. -/
theorem field_congr {b b' : Nat → Bool} {off w : Nat}
    (h : ∀ i, i < w → b (off + i) = b' (off + i)) : field b off w = field b' off w := by
  apply BitVec.eq_of_getLsbD_eq
  intro i hi
  rw [getLsbD_field, getLsbD_field, h i hi]

theorem field_inj {b b' : Nat → Bool} {off w : Nat} (h : field b off w = field b' off w)
    {i : Nat} (hlo : off ≤ i) (hhi : i < off + w) : b i = b' i := by
  have hbit : (field b off w).getLsbD (i - off) = (field b' off w).getLsbD (i - off) := by rw [h]
  rw [getLsbD_field, getLsbD_field, show off + (i - off) = i by omega] at hbit
  simpa [show i - off < w by omega] using hbit

/-- A field as a number. -/
theorem toNat_field (b : Nat → Bool) (off w : Nat) :
    (field b off w).toNat = ∑ i ∈ Finset.range w, 2 ^ i * (b (off + i)).toNat := by
  rw [field, BitVec.toNat_ofFnLE]
  induction w generalizing off with
  | zero => rfl
  | succ w ih =>
      have hrest : ∀ i, 2 ^ (i + 1) * (b (off + (i + 1))).toNat = 2 * (2 ^ i * (b (off + 1 + i)).toNat) := by
        intro i
        rw [Nat.pow_succ', Nat.mul_assoc, show off + (i + 1) = off + 1 + i by omega]
      have htail : (fun i : Fin w => b (off + (i.succ : Fin (w + 1)))) = fun i : Fin w => b (off + 1 + i) := by
        funext i
        congr 1
        simp only [Fin.val_succ]
        omega
      rw [Nat.ofBits_succ, Finset.sum_range_succ']
      simp only [hrest, ← Finset.mul_sum, Nat.pow_zero, Nat.one_mul]
      rw [← ih (off + 1), ← htail]
      rfl

/-! ## Byte arrays -/

/-- Bit `n` of a byte array: bit `n mod 8` of byte `n / 8`. -/
def bitAt (bytes : List (BitVec 8)) (n : Nat) : Bool :=
  (bytes.getD (n / 8) 0).getLsbD (n % 8)

/-- The first `k` bytes of the little-endian representation of `v`. -/
def bytesLE {n : Nat} (v : BitVec n) (k : Nat) : List (BitVec 8) :=
  (List.range k).map fun i => v.extractLsb' (8 * i) 8

/-- The vector whose bit `n` is bit `n mod 8` of byte `n / 8`. -/
def ofBytesLE (w : Nat) (bytes : List (BitVec 8)) : BitVec w :=
  field (bitAt bytes) 0 w

@[simp] theorem length_bytesLE {n : Nat} (v : BitVec n) (k : Nat) : (bytesLE v k).length = k := by
  simp [bytesLE]

theorem getLsbD_ofBytesLE (w : Nat) (bytes : List (BitVec 8)) (i : Nat) :
    (ofBytesLE w bytes).getLsbD i = (decide (i < w) && bitAt bytes i) := by
  simp [ofBytesLE, getLsbD_field]

theorem bitAt_bytesLE {n : Nat} (v : BitVec n) {k i : Nat} (h : i < 8 * k) :
    bitAt (bytesLE v k) i = v.getLsbD i := by
  have hdiv : i / 8 < k := by omega
  have hmod : i % 8 < 8 := by omega
  simp [bitAt, bytesLE, hdiv, hmod, Nat.div_add_mod]

/-- The bytes of a vector of a whole number of bytes determine it. -/
theorem ofBytesLE_bytesLE {n : Nat} (v : BitVec n) {k w : Nat} (h : w ≤ 8 * k) :
    ofBytesLE w (bytesLE v k) = v.extractLsb' 0 w := by
  rw [extractLsb'_eq_field]
  refine field_congr fun i hi => ?_
  rw [bitAt_bytesLE v (by omega)]

theorem bitAt_drop (bytes : List (BitVec 8)) (k n : Nat) : bitAt (bytes.drop k) n = bitAt bytes (8 * k + n) := by
  have hdiv : (8 * k + n) / 8 = k + n / 8 := by omega
  have hmod : (8 * k + n) % 8 = n % 8 := by omega
  rw [bitAt, bitAt, hdiv, hmod, List.getD_eq_getElem?_getD, List.getD_eq_getElem?_getD, List.getElem?_drop]

theorem bitAt_set {bytes : List (BitVec 8)} {i : Nat} (hi : i < bytes.length) (b : BitVec 8) (n : Nat) :
    bitAt (bytes.set i b) n = if i = n / 8 then b.getLsbD (n % 8) else bitAt bytes n := by
  rw [bitAt, List.getD_eq_getElem?_getD, List.getElem?_set, if_pos hi]
  split
  · rfl
  · rw [bitAt, List.getD_eq_getElem?_getD]

theorem bitAt_append (a b : List (BitVec 8)) (n : Nat) :
    bitAt (a ++ b) n = if n < 8 * a.length then bitAt a n else bitAt b (n - 8 * a.length) := by
  by_cases h : n < 8 * a.length
  · have hdiv : n / 8 < a.length := by omega
    simp [bitAt, h, hdiv, List.getElem?_append_left hdiv]
  · have hdiv : ¬ n / 8 < a.length := by omega
    have hsub : (n - 8 * a.length) / 8 = n / 8 - a.length := by omega
    have hmod : (n - 8 * a.length) % 8 = n % 8 := by omega
    simp [bitAt, h, hsub, hmod, List.getElem?_append_right (Nat.le_of_not_lt hdiv)]

/-- `k` bytes that are read while they change: bit `n` is that of `bytes n`. -/
def tornRead (bytes : Nat → List (BitVec 8)) (k : Nat) : List (BitVec 8) :=
  (List.range k).map fun i => field (fun n => bitAt (bytes n) n) (8 * i) 8

theorem bitAt_tornRead (bytes : Nat → List (BitVec 8)) {k n : Nat} (h : n < 8 * k) :
    bitAt (tornRead bytes k) n = bitAt (bytes n) n := by
  have hbyte : (tornRead bytes k).getD (n / 8) 0 = field (fun n => bitAt (bytes n) n) (8 * (n / 8)) 8 := by
    rw [tornRead, List.getD_eq_getElem _ _ (by rw [List.length_map, List.length_range]; omega), List.getElem_map,
      List.getElem_range]
  rw [bitAt, hbyte, getLsbD_field, decide_eq_true (Nat.mod_lt n (by decide)), Bool.true_and, Nat.div_add_mod]

/-- Byte `j` of a byte list is the field at bit `8 j`. -/
theorem getD_eq_field (bytes : List (BitVec 8)) (j : Nat) :
    bytes.getD j 0 = field (bitAt bytes) (8 * j) 8 := by
  apply BitVec.eq_of_getLsbD_eq
  intro i hi
  have hdiv : (8 * j + i) / 8 = j := by omega
  have hmod : (8 * j + i) % 8 = i := by omega
  rw [getLsbD_field, bitAt, hdiv, hmod]
  simp only [hi, decide_true, Bool.true_and]

/-- Byte `i` of a vector made of bytes. -/
theorem extractLsb'_ofBytesLE {bytes : List (BitVec 8)} {w i : Nat} (h : 8 * i + 8 ≤ w) :
    (ofBytesLE w bytes).extractLsb' (8 * i) 8 = bytes.getD i 0 := by
  rw [getD_eq_field, extractLsb'_eq_field]
  refine field_congr fun j hj => ?_
  rw [getLsbD_ofBytesLE, decide_eq_true (by omega), Bool.true_and]

/-- A vector made of bytes gives them back, and zeros behind them. -/
theorem bytesLE_ofBytesLE {bytes : List (BitVec 8)} {w k : Nat} (hk : 8 * k ≤ w)
    (h : bytes.length ≤ k) :
    bytesLE (ofBytesLE w bytes) k = bytes ++ List.replicate (k - bytes.length) 0 := by
  apply List.ext_getElem
  · rw [length_bytesLE, List.length_append, List.length_replicate]
    omega
  · intro i hi _
    rw [length_bytesLE] at hi
    simp only [bytesLE, List.getElem_map, List.getElem_range]
    rw [extractLsb'_ofBytesLE (by omega), List.getElem_append]
    split
    · rw [List.getD_eq_getElem _ _ ‹_›]
    · rw [List.getElem_replicate, List.getD_eq_default _ _ (by omega)]

/-! ## Nibbles -/

/-- Bit `n` of a nibble sequence: bit `n mod 4` of nibble `n / 4`. -/
def nibbleAt (ns : List (BitVec 4)) (n : Nat) : Bool := (ns.getD (n / 4) 0).getLsbD (n % 4)

/-- The nibbles of a byte array, the low one of each byte first. -/
def nibbles (bytes : List (BitVec 8)) : List (BitVec 4) :=
  bytes.flatMap fun b => [b.extractLsb' 0 4, b.extractLsb' 4 4]

@[simp] theorem nibbles_nil : nibbles [] = [] := rfl

@[simp] theorem nibbles_cons (b : BitVec 8) (bytes : List (BitVec 8)) :
    nibbles (b :: bytes) = b.extractLsb' 0 4 :: b.extractLsb' 4 4 :: nibbles bytes := rfl

theorem nibbles_append (a b : List (BitVec 8)) : nibbles (a ++ b) = nibbles a ++ nibbles b :=
  List.flatMap_append

@[simp] theorem length_nibbles (bytes : List (BitVec 8)) : (nibbles bytes).length = 2 * bytes.length := by
  induction bytes with
  | nil => rfl
  | cons b bytes ih => simp [ih]; omega

/-- Nibbles and bytes are the same bits. -/
theorem nibbleAt_nibbles (bytes : List (BitVec 8)) (n : Nat) :
    nibbleAt (nibbles bytes) n = bitAt bytes n := by
  induction bytes generalizing n with
  | nil => simp [nibbleAt, bitAt]
  | cons b bytes ih =>
      rw [nibbles_cons, nibbleAt, bitAt]
      rcases Nat.lt_or_ge n 8 with hlt | hge
      · rw [Nat.div_eq_of_lt hlt, Nat.mod_eq_of_lt hlt, List.getD_cons_zero]
        rcases Nat.lt_or_ge n 4 with hlt' | hge'
        · rw [Nat.div_eq_of_lt hlt', Nat.mod_eq_of_lt hlt', List.getD_cons_zero,
            BitVec.getLsbD_extractLsb', decide_eq_true hlt', Bool.true_and, Nat.zero_add]
        · rw [show n / 4 = 1 by omega, List.getD_cons_succ, List.getD_cons_zero,
            BitVec.getLsbD_extractLsb', decide_eq_true (by omega), Bool.true_and,
            show 4 + n % 4 = n by omega]
      · rw [show n / 8 = (n - 8) / 8 + 1 by omega, show n % 8 = (n - 8) % 8 by omega,
          List.getD_cons_succ, show n / 4 = (n - 8) / 4 + 1 + 1 by omega,
          show n % 4 = (n - 8) % 4 by omega, List.getD_cons_succ, List.getD_cons_succ]
        exact ih (n - 8)

/-- The first `k` nibbles of a vector, the low one first. -/
def nibblesLE {n : Nat} (v : BitVec n) (k : Nat) : List (BitVec 4) :=
  (List.range k).map fun i => v.extractLsb' (4 * i) 4

@[simp] theorem length_nibblesLE {n : Nat} (v : BitVec n) (k : Nat) : (nibblesLE v k).length = k := by
  simp [nibblesLE]

theorem nibblesLE_succ {n : Nat} (v : BitVec n) (k : Nat) :
    nibblesLE v (k + 1) = nibblesLE v k ++ [v.extractLsb' (4 * k) 4] := by
  simp [nibblesLE, List.range_succ]

theorem nibbles_bytesLE {n : Nat} (v : BitVec n) (k : Nat) :
    nibbles (bytesLE v k) = nibblesLE v (2 * k) := by
  induction k with
  | zero => rfl
  | succ k ih =>
      have hbytes : bytesLE v (k + 1) = bytesLE v k ++ [v.extractLsb' (8 * k) 8] := by
        simp [bytesLE, List.range_succ]
      rw [hbytes, nibbles_append, ih, show 2 * (k + 1) = 2 * k + 1 + 1 by omega, nibblesLE_succ,
        nibblesLE_succ, List.append_assoc]
      have hlow : (v.extractLsb' (8 * k) 8).extractLsb' 0 4 = v.extractLsb' (4 * (2 * k)) 4 := by
        apply BitVec.eq_of_getLsbD_eq
        intro i hi
        simp [hi, show i < 8 by omega]
        congr 1
        omega
      have hhigh : (v.extractLsb' (8 * k) 8).extractLsb' 4 4 = v.extractLsb' (4 * (2 * k + 1)) 4 := by
        apply BitVec.eq_of_getLsbD_eq
        intro i hi
        simp [hi, show 4 + i < 8 by omega]
        congr 1
        omega
      rw [nibbles_cons, nibbles_nil, hlow, hhigh]
      rfl

/-- `v` after nibble by nibble `ns` has been written over `v₀` from bit 0 on. -/
def Filled {w : Nat} (v₀ : BitVec w) (ns : List (BitVec 4)) (v : BitVec w) : Prop :=
  ∀ i, i < w → v.getLsbD i = if i < 4 * ns.length then nibbleAt ns i else v₀.getLsbD i

theorem Filled.nil {w : Nat} (v : BitVec w) : Filled v [] v := fun _ _ => by simp

/-- One more nibble. -/
theorem Filled.concat {w : Nat} {v₀ v : BitVec w} {ns : List (BitVec 4)} (h : Filled v₀ ns v)
    (x : BitVec 4) : Filled v₀ (ns ++ [x]) (setSlice v (4 * ns.length) x) := by
  intro i hi
  rw [getLsbD_setSlice, List.length_append, List.length_singleton]
  rcases Nat.lt_or_ge i (4 * ns.length) with hlt | hge
  · have hdiv : i / 4 < ns.length := by omega
    rw [if_neg (by omega), h i hi, if_pos hlt, if_pos (by omega), nibbleAt, nibbleAt,
      List.getD_append _ _ _ _ hdiv]
  · rcases Nat.lt_or_ge i (4 * ns.length + 4) with hlt' | hge'
    · have hdiv : i / 4 = ns.length := by omega
      rw [if_pos ⟨hi, hge, hlt'⟩, if_pos (by omega), nibbleAt, hdiv,
        List.getD_append_right _ _ _ _ (Nat.le_refl _), Nat.sub_self, List.getD_cons_zero]
      congr 1
      omega
    · rw [if_neg (by omega), h i hi, if_neg (by omega), if_neg (by omega)]

/-- Over zeros, what is written is the whole vector. -/
theorem Filled.eq_of_zero {w : Nat} {v : BitVec w} {ns : List (BitVec 4)} (h : Filled 0 ns v) :
    v = field (nibbleAt ns) 0 w := by
  apply BitVec.eq_of_getLsbD_eq
  intro i hi
  rw [h i hi, getLsbD_field, decide_eq_true hi, Bool.true_and, Nat.zero_add]
  split
  · rfl
  · have hdiv : ns.length ≤ i / 4 := by omega
    simp [nibbleAt, hdiv]

/-- A vector written over from end to end. -/
theorem Filled.eq {w : Nat} {v₀ v : BitVec w} {ns : List (BitVec 4)} (h : Filled v₀ ns v)
    (hlen : w ≤ 4 * ns.length) : v = field (nibbleAt ns) 0 w := by
  apply BitVec.eq_of_getLsbD_eq
  intro i hi
  rw [h i hi, if_pos (by omega), getLsbD_field, decide_eq_true hi, Bool.true_and, Nat.zero_add]

/-! ## Packed segments -/

/-- A bit vector of some width. -/
abbrev Seg := Σ w, BitVec w

/-- The total width. -/
def widths (segs : List Seg) : Nat := (segs.map (·.1)).sum

/-- The segments one after another, and zeros behind them. -/
def stream : List Seg → Nat → Bool
  | [], _ => false
  | ⟨w, v⟩ :: segs, n => if n < w then v.getLsbD n else stream segs (n - w)

@[simp] theorem widths_nil : widths [] = 0 := rfl

@[simp] theorem widths_cons (seg : Seg) (segs : List Seg) :
    widths (seg :: segs) = seg.1 + widths segs := by
  simp [widths]

@[simp] theorem widths_append (a b : List Seg) : widths (a ++ b) = widths a + widths b := by
  simp [widths]

theorem stream_append (a b : List Seg) (n : Nat) :
    stream (a ++ b) n = if n < widths a then stream a n else stream b (n - widths a) := by
  induction a generalizing n with
  | nil => simp
  | cons seg a ih =>
      obtain ⟨w, v⟩ := seg
      rw [List.cons_append, stream, stream, ih, widths_cons]
      by_cases hw : n < w
      · simp [hw, show n < w + widths a by omega]
      · by_cases ha : n < w + widths a
        · simp [hw, ha, show n - w < widths a by omega]
        · simp [hw, ha, show ¬ n - w < widths a by omega, Nat.sub_sub]

theorem stream_of_ge (segs : List Seg) (n : Nat) (h : widths segs ≤ n) : stream segs n = false := by
  induction segs generalizing n with
  | nil => rfl
  | cons seg segs ih =>
      obtain ⟨w, v⟩ := seg
      have hle : w + widths segs ≤ n := by simpa using h
      rw [stream, if_neg (by omega)]
      exact ih _ (by omega)

/-- A segment is found where the ones before it end. -/
theorem field_stream {segs : List Seg} {w : Nat} {v : BitVec w} (i off : Nat)
    (hget : segs[i]? = some ⟨w, v⟩) (hoff : widths (segs.take i) = off) :
    field (stream segs) off w = v := by
  induction segs generalizing i off with
  | nil => simp at hget
  | cons seg segs ih =>
      obtain ⟨w', v'⟩ := seg
      apply BitVec.eq_of_getLsbD_eq
      intro j hj
      rw [getLsbD_field, decide_eq_true hj, Bool.true_and, stream]
      cases i with
      | zero =>
          simp only [List.getElem?_cons_zero, Option.some.injEq] at hget
          cases hget
          subst hoff
          simp [hj]
      | succ i =>
          rw [List.getElem?_cons_succ] at hget
          rw [List.take_succ_cons, widths_cons] at hoff
          rw [if_neg (by simp only at hoff; omega)]
          have := congrArg (·.getLsbD j) (ih i _ hget rfl)
          simp only [getLsbD_field, decide_eq_true hj, Bool.true_and] at this
          rw [← this]
          congr 1
          simp only at hoff
          omega

/-- Two ways to cut the same bits into segments. -/
structure SamePacking (a b : List Seg) : Prop where
  widths : widths a = widths b
  stream : ∀ n, stream a n = stream b n

theorem SamePacking.refl (a : List Seg) : SamePacking a a := ⟨rfl, fun _ => rfl⟩

theorem SamePacking.trans_eq {a b c : List Seg} (h : SamePacking a b) (hc : b = c) :
    SamePacking a c := hc ▸ h

theorem SamePacking.append {a b c d : List Seg} (h : SamePacking a b) (h' : SamePacking c d) :
    SamePacking (a ++ c) (b ++ d) where
  widths := by rw [widths_append, widths_append, h.widths, h'.widths]
  stream n := by rw [stream_append, stream_append, h.widths, h.stream, h'.stream]

/-- Bytes packed one by one are the vector of the bytes. -/
theorem samePacking_bytes {bytes : List (BitVec 8)} {n : Nat} (hlen : bytes.length = n) :
    SamePacking (bytes.map fun b => ⟨8, b⟩) [⟨8 * n, ofBytesLE (8 * n) bytes⟩] := by
  have hwidths : widths (bytes.map fun b => (⟨8, b⟩ : Seg)) = 8 * bytes.length := by
    induction bytes generalizing n with
    | nil => rfl
    | cons b bytes ih =>
        rw [List.map_cons, widths_cons, ih rfl, List.length_cons, Nat.mul_succ, Nat.add_comm]
  have hstream : ∀ i, stream (bytes.map fun b => ⟨8, b⟩) i = bitAt bytes i := by
    intro i
    induction bytes generalizing n i with
    | nil => simp [stream, bitAt]
    | cons b bytes ih =>
        rw [List.map_cons, stream]
        by_cases hi : i < 8
        · rw [if_pos hi, bitAt, Nat.div_eq_of_lt hi, Nat.mod_eq_of_lt hi, List.getD_cons_zero]
        · have hdiv : i / 8 = (i - 8) / 8 + 1 := by omega
          have hmod : i % 8 = (i - 8) % 8 := by omega
          have hbehind : widths (bytes.map fun b => (⟨8, b⟩ : Seg)) = 8 * bytes.length := by
            rw [List.map_cons, widths_cons, List.length_cons] at hwidths
            simp only at hwidths
            omega
          rw [if_neg hi, ih rfl hbehind, bitAt, bitAt, hdiv, hmod, List.getD_cons_succ]
  refine ⟨by rw [hwidths, hlen]; simp, fun i => ?_⟩
  rw [hstream, stream, getLsbD_ofBytesLE]
  by_cases hi : i < 8 * n
  · rw [if_pos hi, decide_eq_true hi, Bool.true_and]
  · have hdiv : ¬ i / 8 < bytes.length := by omega
    simp [hi, stream, bitAt, hdiv]

/-- Equal fields are equal bits. -/
theorem eq_stream_of_field {b : Nat → Bool} {off w : Nat} {v : BitVec w} (h : field b off w = v)
    {i : Nat} (hi : i < w) : b (off + i) = v.getLsbD i := by
  rw [← h, getLsbD_field, decide_eq_true hi, Bool.true_and]

/-- `v` begins with the first `n` bits of the stream `b`. -/
def Agrees {N : Nat} (b : Nat → Bool) (n : Nat) (v : BitVec N) : Prop :=
  ∀ i < n, v.getLsbD i = b i

theorem Agrees.zero {N : Nat} (b : Nat → Bool) (v : BitVec N) : Agrees b 0 v :=
  fun i hi => absurd hi (Nat.not_lt_zero i)

/-- Writing the next field of the stream. -/
theorem Agrees.setSlice {N n w : Nat} {b : Nat → Bool} {v : BitVec N} {x : BitVec w}
    (h : Agrees b n v) (hx : field b n w = x) (hfit : n + w ≤ N) :
    Agrees b (n + w) (setSlice v n x) := by
  intro i hi
  rw [getLsbD_setSlice]
  by_cases hlt : i < n
  · rw [if_neg (by omega), h i hlt]
  · have hbit := eq_stream_of_field hx (i := i - n) (by omega)
    rw [if_pos (by omega), ← hbit, show n + (i - n) = i by omega]

-- two fields are compared by their positions, never by computing their bits
attribute [irreducible] field stream

end DnsAdtm
