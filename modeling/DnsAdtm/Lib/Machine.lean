/-
# `Lib.Machine` — synchronous machines

A machine is a step function `σ → ι → σ`: one clock cycle takes the registers
and the inputs sampled at the edge to the registers after it.  Outputs are
registers.  The library says what holds of its runs:

    trace step s inp n        the registers after `n` cycles of the input stream `inp`
    run step s ins            the registers after the finite input list `ins`
    Along step P s ins        `P` holds of every step of that run
    Until step P Q s          on every input stream from `s` a cycle with `Q` comes,
                              and `P` holds at every cycle before it
    Emits step out s l s'     whatever the inputs, the next `l.length` cycles show
                              the outputs `l` and end in `s'`

`Until` is the strong until of the branching logics, given by its two unfolding
rules: a proof of it is the well-founded tree of all runs up to `Q`, so it
carries termination along with what holds on the way.  Being inductive it is
itself an invariant of the steps before `Q` (`Until.step_of_not`), which is what
couples a waiting machine to the one it waits for (`Until.lift`).
-/
import Mathlib

namespace DnsAdtm.Machine

variable {σ τ ι κ ω : Type*}

/-! ## Runs -/

/-- The registers after `n` cycles of the input stream `inp`. -/
def trace (step : σ → ι → σ) (s : σ) (inp : Nat → ι) : Nat → σ
  | 0 => s
  | n + 1 => step (trace step s inp n) (inp n)

/-- The registers after the inputs `ins`. -/
def run (step : σ → ι → σ) (s : σ) (ins : List ι) : σ := ins.foldl step s

/-- How often the output `out` is raised in the first `n` cycles. -/
def pulses (step : σ → ι → σ) (out : σ → Bool) (s : σ) (inp : Nat → ι) (n : Nat) : Nat :=
  (List.range n).countP fun t => out (trace step s inp (t + 1))

section Runs
variable (step : σ → ι → σ)

@[simp] theorem trace_zero (s : σ) (inp : Nat → ι) : trace step s inp 0 = s := rfl

theorem trace_succ (s : σ) (inp : Nat → ι) (n : Nat) :
    trace step s inp (n + 1) = step (trace step s inp n) (inp n) := rfl

theorem trace_add (s : σ) (inp : Nat → ι) (m n : Nat) :
    trace step s inp (m + n) = trace step (trace step s inp m) (fun t => inp (m + t)) n := by
  induction n with
  | zero => rfl
  | succ n ih => rw [← Nat.add_assoc, trace_succ, trace_succ, ih]

theorem trace_succ' (s : σ) (inp : Nat → ι) (n : Nat) :
    trace step s inp (n + 1) = trace step (step s (inp 0)) (fun t => inp (t + 1)) n := by
  rw [Nat.add_comm n 1, trace_add]
  simp only [trace_succ, trace_zero, Nat.add_comm 1]

@[simp] theorem run_nil (s : σ) : run step s [] = s := rfl

@[simp] theorem run_cons (s : σ) (i : ι) (ins : List ι) :
    run step s (i :: ins) = run step (step s i) ins := rfl

theorem run_append (s : σ) (a b : List ι) : run step s (a ++ b) = run step (run step s a) b :=
  List.foldl_append

/-- What every step preserves holds along every run. -/
theorem trace_invariant {I : σ → Prop} (hstep : ∀ s i, I s → I (step s i)) {s : σ} (h : I s)
    (inp : Nat → ι) (n : Nat) : I (trace step s inp n) := by
  induction n with
  | zero => exact h
  | succ n ih => exact hstep _ _ ih

theorem run_invariant {I : σ → Prop} (hstep : ∀ s i, I s → I (step s i)) {s : σ} (h : I s)
    (ins : List ι) : I (run step s ins) := by
  induction ins generalizing s with
  | nil => exact h
  | cons i ins ih => exact ih (hstep s i h)

/-- `P` holds of every step of the run, state and input. -/
def Along (P : σ → ι → Prop) : σ → List ι → Prop
  | _, [] => True
  | s, i :: ins => P s i ∧ Along P (step s i) ins

theorem along_append {P : σ → ι → Prop} {s : σ} {a b : List ι} :
    Along step P s (a ++ b) ↔ Along step P s a ∧ Along step P (run step s a) b := by
  induction a generalizing s with
  | nil => simp [Along]
  | cons i a ih =>
      rw [List.cons_append, Along, Along, ih, run_cons, and_assoc]

/-- Step by step. -/
theorem along_iff {P : σ → ι → Prop} {s : σ} {ins : List ι} :
    Along step P s ins ↔ ∀ k i, ins[k]? = some i → P (run step s (ins.take k)) i := by
  induction ins generalizing s with
  | nil => exact ⟨fun _ k i h => by simp at h, fun _ => trivial⟩
  | cons i ins ih =>
      rw [Along, ih]
      constructor
      · rintro ⟨hi, hrest⟩ k j hj
        cases k with
        | zero => exact Option.some.inj hj ▸ hi
        | succ k => exact hrest k j hj
      · intro h
        exact ⟨h 0 i rfl, fun k j hj => h (k + 1) j hj⟩

/-- What holds of every state of a run, step by step. -/
theorem forall_prefix_iff {P : σ → Prop} {s : σ} {ins : List ι} :
    (∀ pre, pre <+: ins → P (run step s pre)) ↔
      Along step (fun s _ => P s) s ins ∧ P (run step s ins) := by
  rw [along_iff]
  constructor
  · intro h
    exact ⟨fun k i _ => h _ (List.take_prefix k ins), h ins (List.prefix_refl ins)⟩
  · rintro ⟨hsteps, hlast⟩ pre hpre
    rcases Nat.lt_or_ge pre.length ins.length with hlt | hge
    · rw [List.prefix_iff_eq_take.mp hpre]
      exact hsteps pre.length ins[pre.length] (List.getElem?_eq_getElem hlt)
    · rw [hpre.eq_of_length_le hge]
      exact hlast

instance Along.decidable {P : σ → ι → Prop} [∀ s i, Decidable (P s i)] :
    ∀ (s : σ) (ins : List ι), Decidable (Along step P s ins)
  | _, [] => inferInstanceAs (Decidable True)
  | s, i :: ins =>
      have := Along.decidable (P := P) (step s i) ins
      inferInstanceAs (Decidable (P s i ∧ Along step P (step s i) ins))

/-- A part of a machine runs as its own machine does on the inputs the rest feeds it. -/
theorem trace_proj {stepτ : τ → κ → τ} (proj : τ → σ) (sig : τ → κ → ι)
    (hproj : ∀ x k, proj (stepτ x k) = step (proj x) (sig x k)) (x : τ) (inp : Nat → κ) (n : Nat) :
    proj (trace stepτ x inp n) =
      trace step (proj x) (fun t => sig (trace stepτ x inp t) (inp t)) n := by
  induction n with
  | zero => rfl
  | succ n ih => rw [trace_succ, trace_succ, hproj, ih]

/-- An output silent before the last of `n` cycles is raised as often as that cycle shows. -/
theorem pulses_of_quiet (out : σ → Bool) (s : σ) (inp : Nat → ι) (n : Nat)
    (h : ∀ t, 0 < t → t ≤ n → out (trace step s inp t) = false) :
    pulses step out s inp (n + 1) = if out (trace step s inp (n + 1)) then 1 else 0 := by
  have hz : (List.range n).countP (fun t => out (trace step s inp (t + 1))) = 0 := by
    rw [List.countP_eq_zero]
    intro t ht
    have hlt := List.mem_range.mp ht
    simp [h (t + 1) (by omega) (by omega)]
  rw [pulses, List.range_succ, List.countP_append, hz]
  simp [List.countP_cons]

end Runs

/-! ## Strong until -/

/-- On every input stream from `s`, `Q` comes, and `P` holds until it does. -/
inductive Until (step : σ → ι → σ) (P Q : σ → Prop) : σ → Prop
  | here {s : σ} : Q s → Until step P Q s
  | later {s : σ} : P s → (∀ i, Until step P Q (step s i)) → Until step P Q s

namespace Until
variable {step : σ → ι → σ} {P P' Q Q' R : σ → Prop} {s s' : σ}

theorem mono (hP : ∀ s, P s → P' s) (hQ : ∀ s, Q s → Q' s) (h : Until step P Q s) :
    Until step P' Q' s := by
  induction h with
  | here hq => exact .here (hQ _ hq)
  | later hp _ ih => exact .later (hP _ hp) ih

theorem trans (h : Until step P Q s) (hQ : ∀ s, Q s → Until step P R s) : Until step P R s := by
  induction h with
  | here hq => exact hQ _ hq
  | later hp _ ih => exact .later hp ih

/-- One cycle whose outcome does not depend on the inputs. -/
theorem next (hp : P s) (hstep : ∀ i, step s i = s') (h : Until step P Q s') :
    Until step P Q s :=
  .later hp fun i => (hstep i).symm ▸ h

/-- The wait for `Q` is an invariant of the steps before `Q`. -/
theorem step_of_not (h : Until step P Q s) (hq : ¬ Q s) (i : ι) : Until step P Q (step s i) := by
  cases h with
  | here h => exact absurd h hq
  | later _ h => exact h i

theorem holds_of_not (h : Until step P Q s) (hq : ¬ Q s) : P s := by
  cases h with
  | here h => exact absurd h hq
  | later h _ => exact h

/-- On a given input stream the wait ends after finitely many cycles. -/
theorem exists_trace (h : Until step P Q s) (inp : Nat → ι) :
    ∃ n, Q (trace step s inp n) ∧ ∀ t, t < n → P (trace step s inp t) := by
  induction h generalizing inp with
  | here hq => exact ⟨0, hq, fun t ht => absurd ht (Nat.not_lt_zero t)⟩
  | later hp _ ih =>
      obtain ⟨n, hq, hn⟩ := ih (inp 0) (fun t => inp (t + 1))
      refine ⟨n + 1, by rwa [trace_succ'], ?_⟩
      intro t ht
      cases t with
      | zero => exact hp
      | succ t =>
          rw [trace_succ']
          exact hn t (by omega)

/-- Two waits that do not pass each other's ends end together. -/
theorem meet [Inhabited ι] (h : Until step P Q s) (h' : Until step P' Q' s)
    (hQ : ∀ s, Q s → ¬ P' s) (hQ' : ∀ s, Q' s → ¬ P s) : ∃ s, Q s ∧ Q' s := by
  induction h with
  | @here s hq =>
      cases h' with
      | here hq' => exact ⟨s, hq, hq'⟩
      | later hp' _ => exact absurd hp' (hQ s hq)
  | @later s hp _ ih =>
      cases h' with
      | here hq' => exact absurd hp (hQ' s hq')
      | later _ h' => exact ih default (h' default)

/-- A wait that is over after `n` cycles on every input stream. -/
theorem of_trace [Inhabited ι] {n : Nat} (h : ∀ inp : Nat → ι, Q (trace step s inp n) ∧
    ∀ t < n, P (trace step s inp t)) : Until step P Q s := by
  induction n generalizing s with
  | zero => exact .here (h fun _ => default).1
  | succ n ih =>
      refine .later ((h fun _ => default).2 0 (Nat.succ_pos n)) fun i => ih fun inp => ?_
      obtain ⟨hq, hp⟩ := h (Nat.rec i fun t _ => inp t)
      rw [trace_succ'] at hq
      refine ⟨hq, fun t ht => ?_⟩
      have hlater := hp (t + 1) (Nat.succ_lt_succ ht)
      rwa [trace_succ'] at hlater

/-- The wait is for the first `Q`. -/
theorem first (h : Until step P Q s) : Until step (fun s => P s ∧ ¬ Q s) Q s := by
  classical
  induction h with
  | here hq => exact .here hq
  | @later s hp _ ih =>
      by_cases hq : Q s
      · exact .here hq
      · exact .later ⟨hp, hq⟩ ih

/-- What the steps before `Q` preserve holds until `Q` comes, and then. -/
theorem keep (I : σ → Prop) (hI : ∀ s i, I s → P s → ¬ Q s → I (step s i)) (h : Until step P Q s)
    (hs : I s) : Until step (fun s => I s ∧ P s) (fun s => I s ∧ Q s) s := by
  classical
  induction h with
  | here hq => exact .here ⟨hs, hq⟩
  | @later s hp _ ih =>
      by_cases hq : Q s
      · exact .here ⟨hs, hq⟩
      · exact .later ⟨hs, hp⟩ fun i => ih i (hI s i hs hp hq)

/-- A part that reaches `Q` on its own does so inside the whole, and whatever the
whole preserves while the part is busy still holds there. -/
theorem lift (stepτ : τ → κ → τ) (proj : τ → σ) (sig : τ → κ → ι)
    (hproj : ∀ x k, proj (stepτ x k) = step (proj x) (sig x k)) (I : τ → Prop)
    (hI : ∀ x k, I x → P (proj x) → ¬ Q (proj x) → I (stepτ x k)) (h : Until step P Q s) :
    ∀ x, proj x = s → I x →
      Until stepτ (fun x => I x ∧ P (proj x)) (fun x => I x ∧ Q (proj x)) x := by
  classical
  induction h with
  | here hq =>
      intro x hx hIx
      exact .here ⟨hIx, hx ▸ hq⟩
  | @later s hp _ ih =>
      intro x hx hIx
      by_cases hq : Q (proj x)
      · exact .here ⟨hIx, hq⟩
      · refine .later ⟨hIx, hx ▸ hp⟩ fun k => ?_
        refine ih (sig x k) (stepτ x k) ?_ (hI x k hIx (hx ▸ hp) hq)
        rw [hproj, hx]

end Until

/-! ## Runs that no input changes -/

/-- Whatever the inputs, the next `l.length` cycles show the outputs `l` and end in `s'`. -/
inductive Emits (step : σ → ι → σ) (out : σ → ω) : σ → List ω → σ → Prop
  | nil (s : σ) : Emits step out s [] s
  | cons {s s₁ s₂ : σ} {l : List ω} :
      (∀ i, step s i = s₁) → Emits step out s₁ l s₂ → Emits step out s (out s₁ :: l) s₂

namespace Emits
variable {step : σ → ι → σ} {out : σ → ω} {s s₁ s₂ : σ} {l l' : List ω}

theorem one (h : ∀ i, step s i = s₁) : Emits step out s [out s₁] s₁ := .cons h (.nil s₁)

theorem append (h : Emits step out s l s₁) (h' : Emits step out s₁ l' s₂) :
    Emits step out s (l ++ l') s₂ := by
  induction h with
  | nil => exact h'
  | cons hs _ ih => exact .cons hs (ih h')

theorem trace_eq (h : Emits step out s l s₁) (inp : Nat → ι) :
    trace step s inp l.length = s₁ := by
  induction h generalizing inp with
  | nil => rfl
  | cons hs _ ih => rw [List.length_cons, trace_succ', hs, ih]

/-- The outputs shown along the run are `l`. -/
theorem out_eq (h : Emits step out s l s₁) (inp : Nat → ι) :
    (List.range l.length).map (fun t => out (trace step s inp (t + 1))) = l := by
  induction h generalizing inp with
  | nil => rfl
  | cons hs _ ih =>
      rw [List.length_cons, List.range_succ_eq_map, List.map_cons, List.map_map]
      congr 1
      · rw [trace_succ, trace_zero, hs]
      · rw [← ih (fun t => inp (t + 1))]
        simp only [List.length_map, List.length_range]
        refine List.map_congr_left fun t _ => ?_
        rw [Function.comp_apply, trace_succ', hs]

end Emits

end DnsAdtm.Machine
