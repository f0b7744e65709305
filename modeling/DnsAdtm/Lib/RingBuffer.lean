/-
# `Lib.RingBuffer` — a ring of `N` slots

Item number `n` goes to slot `n mod N`.  What a slot holds is the last item that went there
(`Holds`), however many items came, so a reader that follows the slots one by one can be
overrun but reads items in order as long as it stays behind the writer (`Holds.read`).

    slot N n          the slot of item `n`
    next i            the slot behind `i`
    Holds items buf   every slot has the last of the items that went there
-/
import Mathlib

namespace DnsAdtm.RingBuffer

variable {α : Type*} {N : Nat} [NeZero N]

/-! ## Slots -/

/-- The slot of item `n`. -/
def slot (N : Nat) [NeZero N] (n : Nat) : Fin N := ⟨n % N, Nat.mod_lt n (NeZero.pos N)⟩

/-- The slot behind `i`. -/
def next (i : Fin N) : Fin N :=
  if h : i.val + 1 < N then ⟨i.val + 1, h⟩ else ⟨0, NeZero.pos N⟩

theorem slot_eq_iff {m n : Nat} : slot N m = slot N n ↔ m % N = n % N := Fin.ext_iff

theorem next_slot (n : Nat) : next (slot N n) = slot N (n + 1) := by
  have hpos := NeZero.pos N
  have hlt : n % N < N := Nat.mod_lt n hpos
  have hsucc : (n % N + 1) % N = (n + 1) % N := Nat.mod_add_mod n N 1
  by_cases hlast : n % N + 1 < N
  · rw [next, dif_pos (show (slot N n).val + 1 < N from hlast)]
    exact Fin.ext ((Nat.mod_eq_of_lt hlast).symm.trans hsucc)
  · rw [next, dif_neg (show ¬ (slot N n).val + 1 < N from hlast)]
    rw [show n % N + 1 = N by omega, Nat.mod_self] at hsucc
    exact Fin.ext hsucc

/-- Two of `N` items in a row are in the same slot only if they are the same. -/
theorem slot_inj_of_lt {m n : Nat} (hle : m ≤ n) (hlt : n < m + N) (h : slot N m = slot N n) : m = n := by
  obtain ⟨k, rfl⟩ := Nat.exists_eq_add_of_le hle
  have hdvd : N ∣ m + k - m := (Nat.modEq_iff_dvd' hle).mp (slot_eq_iff.mp h)
  rw [Nat.add_sub_cancel_left] at hdvd
  have hk := Nat.eq_zero_of_dvd_of_lt hdvd (by omega)
  omega

/-! ## Contents -/

/-- The last `N` items are in their slots. -/
def Holds (items : List α) (buf : Vector α N) : Prop :=
  ∀ n < items.length, items.length ≤ n + N → items[n]? = some buf[slot N n]

theorem Holds.nil (buf : Vector α N) : Holds [] buf := fun _ h => absurd h (Nat.not_lt_zero _)

/-- The next item goes to its slot. -/
theorem Holds.write {items : List α} {buf : Vector α N} (h : Holds items buf) (x : α) {i : Fin N}
    (hi : i = slot N items.length) : Holds (items ++ [x]) (buf.set i x) := by
  subst hi
  intro n hn hlast
  rw [List.length_append, List.length_singleton] at hn hlast
  rcases Nat.eq_or_lt_of_le (Nat.le_of_lt_succ hn) with rfl | hlt
  · simp
  · have hne : (slot N items.length).val ≠ (slot N n).val := by
      intro heq
      have hsame := slot_inj_of_lt (N := N) (Nat.le_of_lt hlt) (by omega) (Fin.ext heq.symm)
      omega
    rw [List.getElem?_append_left hlt, h n hlt (by omega)]
    exact congrArg some (Vector.getElem_set_ne _ _ hne).symm

/-- A slot read at or behind the writer holds an item no older than the one expected. -/
theorem Holds.read {items : List α} {buf : Vector α N} (h : Holds items buf) {e : Nat}
    (he : e < items.length) {i : Fin N} (hi : i = slot N e) :
    ∃ n, e ≤ n ∧ n < items.length ∧ slot N n = slot N e ∧ items[n]? = some buf[i] := by
  subst hi
  have hpos := NeZero.pos N
  -- the last item of the slot
  obtain ⟨q, hq⟩ : ∃ q, q = (items.length - 1 - e) / N := ⟨_, rfl⟩
  have hdiv := Nat.div_add_mod (items.length - 1 - e) N
  have hmod := Nat.mod_lt (items.length - 1 - e) hpos
  rw [← hq] at hdiv
  have hslot : slot N (e + N * q) = slot N e := slot_eq_iff.mpr (Nat.add_mul_mod_self_left e N q)
  refine ⟨e + N * q, Nat.le_add_right _ _, by omega, hslot, ?_⟩
  have hread := h (e + N * q) (by omega) (by omega)
  simp only [hslot] at hread
  exact hread

end DnsAdtm.RingBuffer
