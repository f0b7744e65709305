/-
# `Lib.FieldScan` — numbers with a separator between them

A loop over a text that collects digits in an accumulator, stores it in the next slot at every
separator and at the end of the text, and gives up at any other character.

    Scanner               digits, separator, and what a digit does to the accumulator
    Scanner.stores        the stores of the loop: slot and value
    stores_eq_splitOn     on a text of digits and separators, its fields one by one
    map_fst_stores        the slots are used in their order
    stores_lt_iff         so the loop stays inside `n` slots if it makes at most `n` stores
    storeAll              the array behind the stores
-/
import Mathlib

namespace DnsAdtm.FieldScan

/-- What the loop is made of. -/
structure Scanner (α β : Type*) where
  digit : α → Bool
  sep : α
  step : β → α → β
  zero : β
  sep_not_digit : digit sep = false

variable {α β : Type*}

/-- The loop goes on behind this character. -/
def Scanner.accepts [DecidableEq α] (S : Scanner α β) (c : α) : Bool := S.digit c || decide (c = S.sep)

/-- The stores of the loop, with the accumulator and the slot it starts from. -/
def Scanner.stores [DecidableEq α] (S : Scanner α β) (acc : β) (j : Nat) : List α → List (Nat × β)
  | [] => [(j, acc)]
  | c :: s =>
    if S.digit c then S.stores (S.step acc c) j s
    else if c = S.sep then (j, acc) :: S.stores S.zero (j + 1) s
    else []

/-- The value of a field. -/
def Scanner.value (S : Scanner α β) (g : List α) : β := g.foldl S.step S.zero

/-- The stores that a text makes: one for each separator that is reached, and one at the end. -/
def Scanner.storeCount [DecidableEq α] (S : Scanner α β) (s : List α) : Nat :=
  (s.takeWhile S.accepts).count S.sep + if s.all S.accepts then 1 else 0

variable {S : Scanner α β} {s : List α} {c : α} {acc : β} {j n : Nat}

theorem digit_ne_sep (hd : S.digit c = true) : c ≠ S.sep := by
  rintro rfl
  rw [S.sep_not_digit] at hd
  cases hd

variable [DecidableEq α]

theorem accepts_sep : S.accepts S.sep = true := by simp [Scanner.accepts]

theorem accepts_cases (h : S.accepts c = true) : S.digit c = true ∨ c = S.sep := by
  simpa [Scanner.accepts] using h

/-- The slots of the stores, whatever is stored. -/
theorem map_fst_stores : (S.stores acc j s).map (·.1) = List.range' j (S.storeCount s) := by
  induction s generalizing acc j with
  | nil => rfl
  | cons c s ih =>
      rw [Scanner.stores]
      cases hd : S.digit c with
      | true =>
          have hne := digit_ne_sep hd
          rw [if_pos rfl, ih]
          congr 1
          simp [Scanner.storeCount, Scanner.accepts, hd, hne]
      | false =>
          rw [if_neg (by decide)]
          split
          case isTrue hsep =>
              have hcount : S.storeCount (c :: s) = S.storeCount s + 1 := by
                simp only [Scanner.storeCount, hsep, List.takeWhile_cons, accepts_sep, List.all_cons,
                  Bool.true_and, if_true, List.count_cons_self]
                omega
              rw [List.map_cons, ih, hcount, List.range'_succ]
          case isFalse hsep =>
              simp [Scanner.storeCount, Scanner.accepts, hd, hsep]

/-- Where the loop stays inside. -/
theorem stores_lt_iff : (∀ x ∈ S.stores acc 0 s, x.1 < n) ↔ S.storeCount s ≤ n := by
  have hslots : (∀ x ∈ S.stores acc 0 s, x.1 < n) ↔ ∀ i ∈ (S.stores acc 0 s).map (·.1), i < n := by
    rw [List.forall_mem_map]
  rw [hslots, map_fst_stores]
  constructor
  · intro h
    by_contra hlt
    have hmem : n ∈ List.range' 0 (S.storeCount s) := List.mem_range'_1.mpr ⟨Nat.zero_le n, by omega⟩
    exact absurd (h n hmem) (Nat.lt_irrefl n)
  · intro hle i hi
    have hi' := (List.mem_range'_1.mp hi).2
    omega

/-- Digits and separators only: the loop stores the fields in their order. -/
theorem stores_eq_splitOn (acc : β) (j : Nat) (hs : ∀ c ∈ s, S.accepts c = true) : ∃ g gs, s.splitOn S.sep = g :: gs ∧
    S.stores acc j s = (j, g.foldl S.step acc) :: (gs.zipIdx (j + 1)).map fun x => (x.2, S.value x.1) := by
  induction s generalizing acc j with
  | nil => exact ⟨[], [], List.splitOn_nil _, rfl⟩
  | cons c s ih =>
      have hrest : ∀ d ∈ s, S.accepts d = true := fun d hd => hs d (List.mem_cons_of_mem _ hd)
      rw [Scanner.stores, List.splitOn_cons_eq_if_modifyHead]
      rcases accepts_cases (hs c List.mem_cons_self) with hd | rfl
      · have hne : (c == S.sep) = false := beq_eq_false_iff_ne.mpr (digit_ne_sep hd)
        obtain ⟨g, gs, hsplit, hstores⟩ := ih (S.step acc c) j hrest
        refine ⟨c :: g, gs, ?_, ?_⟩
        · rw [hne, if_neg (by decide), hsplit]
          rfl
        · rw [if_pos hd, hstores, List.foldl_cons]
      · obtain ⟨g, gs, hsplit, hstores⟩ := ih S.zero (j + 1) hrest
        refine ⟨[], g :: gs, ?_, ?_⟩
        · rw [beq_self_eq_true, if_pos rfl, hsplit]
        · rw [S.sep_not_digit, if_neg (by decide), if_pos rfl, hstores]
          rfl

/-- The same from the start of the text. -/
theorem stores_fields (hs : ∀ c ∈ s, S.accepts c = true) :
    S.stores S.zero 0 s = (s.splitOn S.sep).zipIdx.map fun x => (x.2, S.value x.1) := by
  obtain ⟨g, gs, hsplit, hstores⟩ := stores_eq_splitOn S.zero 0 hs
  rw [hstores, hsplit]
  rfl

/-! ## The fields of a text -/

/-- Each character is a digit of a field or a separator. -/
theorem accepts_iff_splitOn :
    (∀ c ∈ s, S.accepts c = true) ↔ ∀ g ∈ s.splitOn S.sep, ∀ c ∈ g, S.digit c = true := by
  induction s with
  | nil => simp
  | cons c s ih =>
      rw [List.splitOn_cons_eq_if_modifyHead, List.forall_mem_cons, ih]
      obtain ⟨g, gs, hsplit⟩ := List.exists_cons_of_ne_nil (List.splitOn_ne_nil S.sep s)
      by_cases hc : c = S.sep
      · subst hc
        rw [beq_self_eq_true, if_pos rfl, hsplit, List.forall_mem_cons (a := [])]
        simp [accepts_sep]
      · have hdigit : S.accepts c = S.digit c := by simp [Scanner.accepts, hc]
        rw [beq_eq_false_iff_ne.mpr hc, if_neg (by decide), hsplit, List.modifyHead_cons, List.forall_mem_cons,
          List.forall_mem_cons, List.forall_mem_cons, hdigit, and_assoc]

/-- The fields and what is between them make up the text. -/
theorem length_splitOn (a : α) (s : List α) :
    ((s.splitOn a).map List.length).sum + (s.splitOn a).length = s.length + 1 := by
  induction s with
  | nil => rfl
  | cons c s ih =>
      rw [List.splitOn_cons_eq_if_modifyHead]
      obtain ⟨g, gs, hsplit⟩ := List.exists_cons_of_ne_nil (List.splitOn_ne_nil a s)
      rw [hsplit] at ih ⊢
      rw [List.map_cons, List.sum_cons, List.length_cons] at ih
      split
      · simp only [List.map_cons, List.sum_cons, List.length_cons, List.length_nil]
        omega
      · simp only [List.modifyHead_cons, List.map_cons, List.sum_cons, List.length_cons]
        omega

/-! ## The array behind the stores -/

/-- Store after store. -/
def storeAll {n : Nat} (v : Vector β n) (stores : List (Nat × β)) : Vector β n :=
  stores.foldl (fun v x => v.setIfInBounds x.1 x.2) v

/-- Stores in the order of the slots. -/
theorem getElem_storeAll {γ : Type*} {m i : Nat} (f : γ → β) (gs : List γ) (v : Vector β m) (j : Nat) (hi : i < m) :
    (storeAll v ((gs.zipIdx j).map fun x => (x.2, f x.1)))[i] =
      if j ≤ i then ((gs[i - j]?).map f).getD v[i] else v[i] := by
  induction gs generalizing v j with
  | nil => simp [storeAll]
  | cons g gs ih =>
      show (storeAll (v.setIfInBounds j (f g)) ((gs.zipIdx (j + 1)).map fun x => (x.2, f x.1)))[i] = _
      rw [ih, Vector.getElem_setIfInBounds]
      rcases Nat.lt_trichotomy j i with hlt | rfl | hgt
      · rw [if_pos (by omega), if_neg (by omega), if_pos hlt.le, show i - j = i - (j + 1) + 1 by omega,
          List.getElem?_cons_succ]
      · rw [if_neg (by omega), if_pos rfl, if_pos (Nat.le_refl j), Nat.sub_self, List.getElem?_cons_zero]
        rfl
      · rw [if_neg (by omega), if_neg (by omega), if_neg (by omega)]

end DnsAdtm.FieldScan
