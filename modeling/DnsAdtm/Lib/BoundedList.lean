/-
# `Lib.BoundedList` — a list in an array of fixed size

The list is the first `len` slots of an array of `cap`.  Every access is checked: one behind
the end of the array has no result.  The slots behind the list hold `zero` (`Listed`), which
an append and a removal keep.

    storeAt, moveLast     a checked store, and the checked removal
    Listed zero len list  a list of `len` items
    Listed.append         an append is inside the array where the list is not full
    Listed.remove         a removal is where its index is one of the list
    items                 the list itself; an append and a removal on it
    swapRemove_perm       the removal takes one item away
-/
import Mathlib

namespace DnsAdtm.BoundedList

variable {α : Type*} {cap : Nat}

/-- A checked store. -/
def storeAt (list : Vector α cap) (i : Nat) (x : α) : Option (Vector α cap) :=
  if h : i < cap then some (list.set i x) else none

/-- The last item, which is in slot `last`, goes to slot `index`, and its own slot is cleared. -/
def moveLast (zero : α) (list : Vector α cap) (index last : Nat) : Option (Vector α cap) := do
  let moved ← list[last]?
  let list ← storeAt list index moved
  storeAt list last zero

/-- The first `len` slots are in use, and the others are cleared. -/
structure Listed (zero : α) (len : Nat) (list : Vector α cap) : Prop where
  le : len ≤ cap
  cleared : ∀ i (hi : i < cap), len ≤ i → list[i] = zero

theorem storeAt_of_lt {list : Vector α cap} {i : Nat} (h : i < cap) (x : α) :
    storeAt list i x = some (list.set i x) := dif_pos h

theorem storeAt_eq_some {list list' : Vector α cap} {i : Nat} {x : α} :
    storeAt list i x = some list' → list.setIfInBounds i x = list' := by
  intro h
  rw [storeAt] at h
  split at h
  case isTrue hi =>
      rw [← Option.some.inj h]
      apply Vector.ext
      intro j hj
      rw [Vector.getElem_setIfInBounds, Vector.getElem_set]
  case isFalse => cases h

/-- What holds of every slot and of the new item holds of every slot after a store. -/
theorem storeAt_all {P : α → Prop} {list list' : Vector α cap} {i : Nat} {x : α}
    (h : storeAt list i x = some list') (hx : P x) (hall : ∀ j (hj : j < cap), P list[j]) :
    ∀ j (hj : j < cap), P list'[j] := by
  intro j hj
  rw [← storeAt_eq_some h, Vector.getElem_setIfInBounds]
  split
  · exact hx
  · exact hall j hj

theorem moveLast_all {P : α → Prop} {zero : α} {list list' : Vector α cap} {index last : Nat}
    (h : moveLast zero list index last = some list') (hzero : P zero)
    (hall : ∀ j (hj : j < cap), P list[j]) : ∀ j (hj : j < cap), P list'[j] := by
  rw [moveLast, Option.bind_eq_bind, Option.bind_eq_some_iff] at h
  obtain ⟨moved, hmoved, h⟩ := h
  rw [Option.bind_eq_bind, Option.bind_eq_some_iff] at h
  obtain ⟨stored, hstored, h⟩ := h
  obtain ⟨hlast, rfl⟩ := Vector.getElem?_eq_some_iff.mp hmoved
  exact storeAt_all h hzero (storeAt_all hstored (hall last hlast) hall)

variable {zero : α} {len : Nat} {list : Vector α cap}

/-- An append where the list is not full. -/
theorem Listed.append (h : Listed zero len list) (hlt : len < cap) (x : α) :
    ∃ list', storeAt list len x = some list' ∧ Listed zero (len + 1) list' := by
  refine ⟨list.set len x, storeAt_of_lt hlt x, hlt, ?_⟩
  intro i hi hle
  rw [Vector.getElem_set_ne _ _ (by omega)]
  exact h.cleared i hi (by omega)

theorem moveLast_of_le {index : Nat} (hindex : index ≤ len) (hlast : len < cap) :
    moveLast zero list index len = some ((list.set index list[len]).set len zero) := by
  rw [moveLast, Vector.getElem?_eq_getElem hlast, Option.bind_eq_bind, Option.bind_some,
    storeAt_of_lt (Nat.lt_of_le_of_lt hindex hlast), Option.bind_eq_bind, Option.bind_some, storeAt_of_lt hlast]

/-- A removal at an index of the list. -/
theorem Listed.remove {index : Nat} (h : Listed zero (len + 1) list) (hindex : index ≤ len) :
    ∃ list', moveLast zero list index len = some list' ∧ Listed zero len list' := by
  have hlast : len < cap := h.le
  refine ⟨_, moveLast_of_le hindex hlast, hlast.le, ?_⟩
  intro i hi hle
  rcases Nat.eq_or_lt_of_le hle with rfl | hlt
  · rw [Vector.getElem_set_self]
  · rw [Vector.getElem_set_ne _ _ (by omega), Vector.getElem_set_ne _ _ (by omega)]
    exact h.cleared i hi hlt

/-- A longer one than the array holds is appended to outside of it. -/
theorem storeAt_of_ge {i : Nat} (h : cap ≤ i) (x : α) : storeAt list i x = none :=
  dif_neg (Nat.not_lt.mpr h)

/-! ## The list in the array -/

/-- The items in use. -/
def items (len : Nat) (list : Vector α cap) : List α := list.toList.take len

/-- The last item takes the place of the removed one. -/
def swapRemove (l : List α) (index : Nat) : List α :=
  match l.getLast? with
  | none => []
  | some last => (l.set index last).dropLast

theorem length_items (h : len ≤ cap) : (items len list).length = len := by
  rw [items, List.length_take, Vector.length_toList, Nat.min_eq_left h]

theorem items_succ (h : len < cap) : items (len + 1) list = items len list ++ [list[len]] := by
  have hlen : len < list.toList.length := by rwa [Vector.length_toList]
  rw [items, items, List.take_add_one, List.getElem?_eq_getElem hlen, Vector.getElem_toList]
  rfl

theorem items_append (h : len < cap) (x : α) : items (len + 1) (list.set len x) = items len list ++ [x] := by
  rw [items_succ h, Vector.getElem_set_self, items, Vector.toList_set, List.take_set_of_le (Nat.le_refl len),
    items]

/-- The checked removal is the one on the list. -/
theorem items_remove {index : Nat} (hindex : index ≤ len) (hlast : len < cap) :
    items len ((list.set index list[len]).set len zero) = swapRemove (items (len + 1) list) index := by
  have hlen : (items len list).length = len := length_items hlast.le
  have hleft : items len ((list.set index list[len]).set len zero) = (items len list).set index list[len] := by
    rw [items, Vector.toList_set, List.take_set_of_le (Nat.le_refl len), Vector.toList_set, List.take_set, items]
  rw [hleft, items_succ hlast, swapRemove, List.getLast?_concat]
  show _ = ((items len list ++ [list[len]]).set index list[len]).dropLast
  rw [List.set_append]
  split
  · rw [List.dropLast_concat]
  · have hend : index = len := by omega
    rw [hend, hlen, Nat.sub_self, List.set_cons_zero, List.dropLast_concat,
      List.set_eq_of_length_le (Nat.le_of_eq hlen)]

/-- The item that is removed, and what is left of the others. -/
theorem swapRemove_perm {l : List α} {index : Nat} (h : index < l.length) :
    List.Perm (l[index] :: swapRemove l index) l := by
  have hne : l ≠ [] := List.ne_nil_of_length_pos (Nat.lt_of_le_of_lt (Nat.zero_le _) h)
  obtain ⟨last, hlast⟩ : ∃ last, l.getLast? = some last := ⟨_, List.getLast?_eq_getLast_of_ne_nil hne⟩
  have hset : (l.set index last).getLast? = some last := by
    rw [List.getLast?_eq_getElem?] at hlast ⊢
    rw [List.length_set, List.getElem?_set]
    split
    · rfl
    · exact hlast
  have hdrop : (l.set index last).dropLast ++ [last] = l.set index last :=
    List.dropLast_append_getLast? last hset
  have hrest : List.Perm (swapRemove l index) (l.eraseIdx index) := by
    refine List.Perm.cons_inv (a := last) ?_
    rw [swapRemove, hlast]
    calc List.Perm (last :: (l.set index last).dropLast) ((l.set index last).dropLast ++ [last]) :=
          (List.perm_append_singleton _ _).symm
      _ = l.set index last := hdrop
      List.Perm _ (last :: l.eraseIdx index) := List.set_perm_cons_eraseIdx h last
  exact (hrest.cons _).trans (List.getElem_cons_eraseIdx_perm h)

/-! ## Two arrays in step -/

variable {β : Type*} {list₁ : Vector α cap} {list₂ : Vector β cap}

theorem zip_set {i : Nat} (hi : i < cap) (x : α) (y : β) :
    (list₁.set i x).zip (list₂.set i y) = (list₁.zip list₂).set i (x, y) := by
  apply Vector.ext
  intro j hj
  rw [Vector.getElem_zip, Vector.getElem_set, Vector.getElem_set, Vector.getElem_set]
  split
  · rfl
  · rw [Vector.getElem_zip]

theorem Listed.map (h : Listed zero len list) (g : α → β) : Listed (g zero) len (list.map g) := by
  refine ⟨h.le, fun i hi hle => ?_⟩
  rw [Vector.getElem_map, h.cleared i hi hle]

theorem Listed.zip {zero₁ : α} {zero₂ : β} (h₁ : Listed zero₁ len list₁) (h₂ : Listed zero₂ len list₂) :
    Listed (zero₁, zero₂) len (list₁.zip list₂) := by
  refine ⟨h₁.le, fun i hi hle => ?_⟩
  rw [Vector.getElem_zip, h₁.cleared i hi hle, h₂.cleared i hi hle]

end DnsAdtm.BoundedList
