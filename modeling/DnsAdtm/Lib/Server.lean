/-
# `Lib.Server` — machines that serve one request at a time

A server takes a request in one of its cycles (`takes`), works on it for some cycles in which it
takes and gives nothing, and is back at rest with the answer, if there is one, on its output
(`gives`).  What it is for is said one level up, by `handle`: the new state of a device, and the
answer.  `Lawful` connects the two, by what the machine does at rest and with one request.

    Simulates     a device that says what another does, with requests and answers of its own
    Serving       the machine is at rest behind its requests, or at work on the last of them
    serving_run   so along every run: the answers given are those of the device, in order,
                  but for the last request while it is worked on

Every request needs only be `Proper`, which the law for it may rest on.
-/
import DnsAdtm.Lib.Machine

namespace DnsAdtm.Machine

variable {σ ι δ α β : Type*}

/-! ## The device -/

section Device
variable (handle : δ → α → δ × Option β)

/-- The state after the requests. -/
def after (d : δ) (as : List α) : δ := as.foldl (fun d a => (handle d a).1) d

/-- The answers to them, in order. -/
def answers : δ → List α → List β
  | _, [] => []
  | d, a :: as => (handle d a).2.toList ++ answers (handle d a).1 as

variable {handle} {d : δ} {a : α} {as bs : List α}

theorem after_append : after handle d (as ++ bs) = after handle (after handle d as) bs := List.foldl_append

theorem after_concat : after handle d (as ++ [a]) = (handle (after handle d as) a).1 := after_append

theorem answers_append :
    answers handle d (as ++ bs) = answers handle d as ++ answers handle (after handle d as) bs := by
  induction as generalizing d with
  | nil => rfl
  | cons a as ih =>
      rw [List.cons_append, answers, ih, answers, List.append_assoc]
      rfl

theorem answers_concat :
    answers handle d (as ++ [a]) = answers handle d as ++ (handle (after handle d as) a).2.toList := by
  rw [answers_append, answers, answers, List.append_nil]

/-- Fewer requests, fewer answers. -/
theorem answers_mono (h : as <+: bs) : answers handle d as <+: answers handle d bs := by
  obtain ⟨cs, rfl⟩ := h
  exact ⟨_, answers_append.symm⟩

/-- A device without a state, which answers every request. -/
theorem answers_eq_map {f : α → β} (h : ∀ d a, handle d a = (d, some (f a))) :
    answers handle d as = as.map f := by
  induction as generalizing d with
  | nil => rfl
  | cons a as ih => rw [answers, ih, h, List.map_cons, Option.toList_some, List.singleton_append]

/-- What every request keeps. -/
theorem after_invariant {I : δ → Prop} (hstep : ∀ d a, a ∈ as → I d → I (handle d a).1) (hd : I d) :
    I (after handle d as) := by
  induction as generalizing d with
  | nil => exact hd
  | cons a as ih =>
      exact ih (fun d b hb => hstep d b (List.mem_cons_of_mem a hb)) (hstep d a List.mem_cons_self hd)

end Device

section Simulation
variable {δ' α' β' : Type*}

/-- The first device says what the second does: from states and with requests that correspond they
come to states and answers that correspond. -/
def Simulates (handle : δ → α → δ × Option β) (handle' : δ' → α' → δ' × Option β') (R : δ → δ' → Prop)
    (A : α → α' → Prop) (B : β → β' → Prop) : Prop :=
  ∀ {d d' a a'}, R d d' → A a a' →
    R (handle d a).1 (handle' d' a').1 ∧ Option.Rel B (handle d a).2 (handle' d' a').2

variable {handle : δ → α → δ × Option β} {handle' : δ' → α' → δ' × Option β'} {R : δ → δ' → Prop}
  {A : α → α' → Prop} {B : β → β' → Prop} {d : δ} {d' : δ'} {as : List α} {as' : List α'}

/-- Any requests. -/
theorem Simulates.answers (h : Simulates handle handle' R A B) (hd : R d d') (has : List.Forall₂ A as as') :
    List.Forall₂ B (answers handle d as) (answers handle' d' as') := by
  induction has generalizing d d' with
  | nil => exact .nil
  | @cons a a' as as' ha _ ih =>
      obtain ⟨hnext, hanswer⟩ := h hd ha
      refine List.rel_append ?_ (ih hnext)
      generalize (handle d a).2 = b, (handle' d' a').2 = b' at hanswer
      cases hanswer with
      | some hb => exact .cons hb .nil
      | none => exact .nil

end Simulation

/-! ## The machine -/

/-- A machine, and the device it is. -/
structure Server (σ ι δ α β : Type*) where
  step : σ → ι → σ
  /-- The request that the cycle takes. -/
  takes : σ → ι → Option α
  /-- The answer that the registers show. -/
  gives : σ → Option β
  /-- Not at work. -/
  Idle : σ → Prop
  /-- At rest, in a state of the device. -/
  Rest : δ → σ → Prop
  handle : δ → α → δ × Option β
  Proper : α → Prop

namespace Server
variable (S : Server σ ι δ α β)

/-- At work. -/
structure Busy (s : σ) : Prop where
  notIdle : ¬ S.Idle s
  takes : ∀ i, S.takes s i = none
  gives : S.gives s = none

/-- At rest again, with the answer to `a`. -/
def Answered (d : δ) (a : α) (s : σ) : Prop := S.Rest (S.handle d a).1 s ∧ S.gives s = (S.handle d a).2

/-- What the machine does at rest: it waits, or it serves the request it takes. -/
structure Lawful : Prop where
  wait : ∀ {d s i}, S.Rest d s → S.takes s i = none → S.Rest d (S.step s i) ∧ S.gives (S.step s i) = none
  serve : ∀ {d s i a}, S.Rest d s → S.takes s i = some a → S.Proper a →
    Until S.step S.Busy (S.Answered d a) (S.step s i)

/-- The machine has taken the requests and given the answers of the two lists. -/
inductive Serving (d : δ) : List α → List β → σ → Prop
  | rest {as : List α} {s : σ} : S.Rest (after S.handle d as) s → Serving d as (answers S.handle d as) s
  | busy {as : List α} {a : α} {s : σ} : Until S.step S.Busy (S.Answered (after S.handle d as) a) s →
      ¬ S.Answered (after S.handle d as) a s → Serving d (as ++ [a]) (answers S.handle d as) s

variable {S} {d : δ} {as : List α} {bs : List β} {s : σ}

/-- The wait for an answer is over, or goes on. -/
theorem Serving.of_until {a : α} (h : Until S.step S.Busy (S.Answered (after S.handle d as) a) s) :
    S.Serving d (as ++ [a]) (answers S.handle d as ++ (S.gives s).toList) s := by
  by_cases hdone : S.Answered (after S.handle d as) a s
  · rw [hdone.2, ← answers_concat]
    refine .rest ?_
    rw [after_concat]
    exact hdone.1
  · rw [(h.holds_of_not hdone).gives, Option.toList_none, List.append_nil]
    exact .busy h hdone

/-- One cycle. -/
theorem Serving.next (hS : S.Lawful) (h : S.Serving d as bs s) (i : ι)
    (hproper : ∀ a, S.takes s i = some a → S.Proper a) :
    S.Serving d (as ++ (S.takes s i).toList) (bs ++ (S.gives (S.step s i)).toList) (S.step s i) := by
  cases h with
  | rest hrest =>
      cases htake : S.takes s i with
      | none =>
          obtain ⟨hrest', hquiet⟩ := hS.wait hrest htake
          rw [hquiet, Option.toList_none, Option.toList_none, List.append_nil, List.append_nil]
          exact .rest hrest'
      | some a => exact .of_until (hS.serve hrest htake (hproper a htake))
  | busy huntil hdone =>
      rw [(huntil.holds_of_not hdone).takes i, Option.toList_none, List.append_nil]
      exact .of_until (huntil.step_of_not hdone i)

/-- All requests are answered, but the last while it is worked on. -/
theorem Serving.answered (h : S.Serving d as bs s) :
    answers S.handle d as.dropLast <+: bs ∧ bs <+: answers S.handle d as := by
  cases h with
  | rest _ => exact ⟨answers_mono (List.dropLast_prefix as), List.prefix_refl _⟩
  | busy _ _ =>
      rw [List.dropLast_concat]
      exact ⟨List.prefix_refl _, answers_mono (List.prefix_append _ _)⟩

/-- A machine that is not at work has answered them all. -/
theorem Serving.of_idle (h : S.Serving d as bs s) (hs : S.Idle s) :
    bs = answers S.handle d as ∧ S.Rest (after S.handle d as) s := by
  cases h with
  | rest hrest => exact ⟨rfl, hrest⟩
  | busy huntil hdone => exact absurd hs (huntil.holds_of_not hdone).notIdle

/-! ### Runs -/

section Run
variable (S) (s₀ : σ) (inp : Nat → ι)

/-- The requests taken in the first `n` cycles. -/
def taken : Nat → List α
  | 0 => []
  | n + 1 => taken n ++ (S.takes (trace S.step s₀ inp n) (inp n)).toList

/-- And the answers given. -/
def given : Nat → List β
  | 0 => []
  | n + 1 => given n ++ (S.gives (trace S.step s₀ inp (n + 1))).toList

variable {S s₀ inp}

theorem taken_mono {m n : Nat} (h : m ≤ n) : S.taken s₀ inp m <+: S.taken s₀ inp n := by
  induction n, h using Nat.le_induction with
  | base => exact List.prefix_refl _
  | succ n _ ih => exact ih.trans (List.prefix_append _ _)

/-- Along a run whose requests are proper. -/
theorem serving_run (hS : S.Lawful) (hrest : S.Rest d s₀) (n : Nat)
    (hproper : ∀ a ∈ S.taken s₀ inp n, S.Proper a) :
    S.Serving d (S.taken s₀ inp n) (S.given s₀ inp n) (trace S.step s₀ inp n) := by
  induction n with
  | zero => exact .rest hrest
  | succ n ih =>
      refine (ih fun a ha => hproper a ((taken_mono (Nat.le_succ n)).subset ha)).next hS (inp n) ?_
      intro a ha
      refine hproper a (List.mem_append_right _ ?_)
      rw [ha]
      exact List.mem_singleton.mpr rfl

end Run

end Server

end DnsAdtm.Machine
