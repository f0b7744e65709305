/-
# `Lib.Backlog` — work that comes in and is worked off

A level is what a server still has to do.  It falls by one at every moment of a kind (`drains`)
until it is down at `floor`, and rises by at most `jump` at every moment of another (`arrives`).
Where there are always `jump` moments of the first kind between two of the second, the level
never exceeds `floor + jump`: whatever has come is done before more comes.

    during          how many moments of a kind there are from one time to another
    level_le        the bound, along with an invariant the steps may rest on
    level_settles   when no more comes, the level goes down to the floor
-/
import Mathlib

namespace DnsAdtm.Backlog

/-- How many of the moments from `s` up to `t` are of kind `p`. -/
def during (p : Nat → Prop) [DecidablePred p] (s t : Nat) : Nat := Nat.count p t - Nat.count p s

section During
variable {p : Nat → Prop} [DecidablePred p]

theorem during_self (t : Nat) : during p t t = 0 := Nat.sub_self _

theorem during_succ {s t : Nat} (h : s ≤ t) :
    during p s (t + 1) = during p s t + if p t then 1 else 0 := by
  have hle := Nat.count_monotone p h
  rw [during, during, Nat.count_succ]
  omega

theorem during_trans {r s t : Nat} (hrs : r ≤ s) (hst : s ≤ t) :
    during p r t = during p r s + during p s t := by
  have hle := Nat.count_monotone p hrs
  have hle' := Nat.count_monotone p hst
  rw [during, during, during]
  omega

end During

variable {drains arrives : Nat → Prop} [DecidablePred drains] {level : Nat → Nat} {floor jump : Nat}

/-- The level is down, or what came last is being worked off. -/
def Draining (drains arrives : Nat → Prop) [DecidablePred drains] (level : Nat → Nat)
    (floor jump t : Nat) : Prop :=
  level t ≤ floor ∨ ∃ s < t, arrives s ∧ level t + during drains (s + 1) t ≤ floor + jump

theorem Draining.level_le {t : Nat} (h : Draining drains arrives level floor jump t) :
    level t ≤ floor + jump := by
  rcases h with hdown | ⟨s, -, -, hle⟩
  · omega
  · omega

variable [DecidablePred arrives]

/-- One moment. -/
theorem Draining.next {t : Nat} (h : Draining drains arrives level floor jump t)
    (hspaced : ∀ s < t, arrives s → arrives t → jump ≤ during drains (s + 1) t)
    (hstep : level (t + 1) ≤ max (level t - if drains t then 1 else 0) floor +
      if arrives t then jump else 0) :
    Draining drains arrives level floor jump (t + 1) := by
  by_cases harrives : arrives t
  · -- what came before is done
    have hdown : level t ≤ floor := by
      rcases h with hdown | ⟨s, hlt, hs, hle⟩
      · exact hdown
      · have hdone := hspaced s hlt hs harrives
        omega
    rw [if_pos harrives] at hstep
    refine .inr ⟨t, Nat.lt_succ_self t, harrives, ?_⟩
    rw [during_self]
    omega
  · rw [if_neg harrives] at hstep
    rcases h with hdown | ⟨s, hlt, hs, hle⟩
    · exact .inl (by omega)
    · by_cases hdown : level (t + 1) ≤ floor
      · exact .inl hdown
      · refine .inr ⟨s, Nat.lt_succ_of_lt hlt, hs, ?_⟩
        rw [during_succ (show s + 1 ≤ t from hlt)]
        omega

/-- The level stays within one jump of its floor, and what the steps rest on holds throughout. -/
theorem level_le {I : Nat → Prop} (hinit : I 0) (hlow : level 0 ≤ floor)
    (hspaced : ∀ s t, s < t → arrives s → arrives t → jump ≤ during drains (s + 1) t)
    (hstep : ∀ t, I t → level t ≤ floor + jump → I (t + 1) ∧
      level (t + 1) ≤ max (level t - if drains t then 1 else 0) floor + if arrives t then jump else 0)
    (t : Nat) : I t ∧ level t ≤ floor + jump := by
  have hrun : I t ∧ Draining drains arrives level floor jump t := by
    induction t with
    | zero => exact ⟨hinit, .inl hlow⟩
    | succ t ih =>
        obtain ⟨hI, hdraining⟩ := ih
        obtain ⟨hI', hlevel⟩ := hstep t hI hdraining.level_le
        exact ⟨hI', hdraining.next (fun s hlt hs => hspaced s t hlt hs) hlevel⟩
  exact ⟨hrun.1, hrun.2.level_le⟩

/-! ## When no more comes -/

section Settles
variable {s t : Nat} (h : ∀ t, s ≤ t → level (t + 1) ≤ max (level t - if drains t then 1 else 0) floor)
include h

theorem level_falls (hst : s ≤ t) : level t ≤ max (level s - during drains s t) floor := by
  induction t, hst using Nat.le_induction with
  | base => rw [during_self]; exact Nat.le_max_left ..
  | succ t hst ih =>
      have hnext := h t hst
      rw [during_succ hst]
      omega

/-- Where there are moments enough to work it off. -/
theorem level_settles (hmany : ∃ t, s ≤ t ∧ level s ≤ during drains s t) :
    ∃ t, s ≤ t ∧ ∀ u, t ≤ u → level u ≤ floor := by
  obtain ⟨t, hst, hdone⟩ := hmany
  refine ⟨t, hst, fun u htu => ?_⟩
  have hfalls := level_falls h (Nat.le_trans hst htu)
  have hsplit := during_trans (p := drains) hst htu
  omega

end Settles

end DnsAdtm.Backlog
