/-
# `Hw.FifoLoad` — what is left to do behind a FIFO

A packet costs a reader a bounded number of periods, from one test in `Idle` to the next
(`Serves`).  The load counts the edges until the reader has taken every packet that the index
shows and is back in `Idle`: every edge of `rclk` is one of them, and a packet written adds its
cost.

    load_read    an edge of `rclk`
    load_write   an edge of `wclk`
-/
import DnsAdtm.Hw.FifoOrder

namespace DnsAdtm.Hw

open RingBuffer

variable {α ρ : Type} {R : Reader α ρ} {x : Watched α ρ} {left : ρ → Nat} {cost : Nat}

/-- The periods to the next test, where a packet not yet taken counts as a whole. -/
def Reader.rank (R : Reader α ρ) (left : ρ → Nat) (st : ρ) : Nat :=
  match R.state st with
  | .idle => 1
  | .read => 0
  | .busy => left st + 1

/-- The edges to the first test that finds nothing. -/
def Watched.load (R : Reader α ρ) (left : ρ → Nat) (cost : Nat) (x : Watched α ρ) : Nat :=
  2 * (cost * (x.writes - x.latched.length) + R.rank left x.reader) + if x.rclk then 1 else 0

/-- The next period of the reader is one of those left, and a packet it takes costs at most `cost`. -/
structure Serves (R : Reader α ρ) (left : ρ → Nat) (cost : Nat) (x : Watched α ρ) : Prop where
  busy : R.state x.reader = .busy →
    left (R.cycle x.reader x.fifo.rData x.fifo.bufNotEmpty) + 1 ≤ left x.reader
  read : R.state x.reader = .read →
    left (R.cycle x.reader x.fifo.rData x.fifo.bufNotEmpty) + 2 ≤ cost

theorem Reader.rank_le (st : ρ) : R.rank left st ≤ left st + 1 := by
  rw [rank]
  cases R.state st with
  | idle => exact Nat.le_add_left 1 _
  | read => exact Nat.zero_le _
  | busy => exact Nat.le_refl _

/-- The write side adds the cost of what the index shows from now on. -/
theorem load_write (hkept : Kept R x) (htracks : Tracks R x) (wEn : Bool) (wData : α) :
    (x.edge R (.write wEn wData)).load R left cost = x.load R left cost +
      if x.wclk = true ∧ x.writes < x.written.length then 2 * cost else 0 := by
  have hle := htracks.writes_le
  have hone := htracks.le_writes
  have htaken := hkept.writes
  cases hw : x.wclk with
  | false =>
      have hno : ¬ (false = true ∧ x.writes < x.written.length) := fun h => nomatch h.1
      rw [edge_wclk_rises hw, if_neg hno]
      rfl
  | true =>
      rw [edge_wclk_falls hw, Watched.load, Watched.load]
      dsimp only
      by_cases hlt : x.writes < x.written.length
      · have hmore : x.written.length - x.latched.length = x.writes - x.latched.length + 1 := by omega
        have hyes : true = true ∧ x.writes < x.written.length := ⟨rfl, hlt⟩
        rw [if_pos hyes, hmore, Nat.mul_succ]
        omega
      · have hsame : x.written.length = x.writes := by omega
        have hno : ¬ (true = true ∧ x.writes < x.written.length) := fun h => hlt h.2
        rw [if_neg hno, hsame]
        rfl

/-- An edge of the reader's clock is one of those left. -/
theorem load_read (hR : R.Lawful) (hkept : Kept R x) (htracks : Tracks R x)
    (hroom : x.writes < x.reads + gDepth) (hserves : x.rclk = false → Serves R left cost x) :
    (x.edge R .read).load R left cost ≤ max (x.load R left cost - 1) 3 := by
  cases hr : x.rclk with
  | true =>
      rw [edge_rclk_falls hr, Watched.load, Watched.load, hr]
      exact Nat.le_max_left ..
  | false =>
      have hbusy := (hserves hr).busy
      have hread := (hserves hr).read
      have hnext := hR.idle x.reader x.fifo.rData x.fifo.bufNotEmpty
      rw [edge_rclk_rises hr, Watched.load, Watched.load, hr]
      dsimp only
      obtain ⟨st', hst'⟩ : ∃ st', st' = R.cycle x.reader x.fifo.rData x.fifo.bufNotEmpty := ⟨_, rfl⟩
      rw [← hst'] at hbusy hread hnext ⊢
      cases hs : R.state x.reader with
      | idle =>
          have hflag := hkept.bufNotEmpty_iff htracks hroom
          have hrank : R.rank left x.reader = 1 := by rw [Reader.rank, hs]
          rw [if_neg (by decide), hrank, if_pos rfl, if_neg (by decide)]
          cases hdv : x.fifo.bufNotEmpty with
          | true =>
              have hrank' : R.rank left st' = 0 := by rw [Reader.rank, hnext hs, hdv]; rfl
              rw [hrank']
              omega
          | false =>
              -- nothing is left
              have hrank' : R.rank left st' = 1 := by rw [Reader.rank, hnext hs, hdv]; rfl
              have hreads := htracks.reads_eq (by rw [hs]; nofun) hr
              have hnone : x.writes - x.latched.length = 0 := by
                rw [hdv, hreads] at hflag
                have := hkept.writes
                simp only [Bool.false_eq_true, false_iff] at hflag
                omega
              rw [hrank', hnone, Nat.mul_zero]
              exact Nat.le_max_right ..
      | read =>
          have hmore : x.writes - x.latched.length = x.writes - (x.latched.length + 1) + 1 := by
            have := hkept.reading hs
            omega
          have hrank : R.rank left x.reader = 0 := by rw [Reader.rank, hs]
          have hrank' : R.rank left st' ≤ left st' + 1 := Reader.rank_le st'
          have hcost := hread hs
          rw [if_pos rfl, List.length_append, List.length_singleton, hrank, hmore, Nat.mul_succ, if_pos rfl,
            if_neg (by decide)]
          omega
      | busy =>
          have hrank : R.rank left x.reader = left x.reader + 1 := by rw [Reader.rank, hs]
          have hrank' : R.rank left st' ≤ left st' + 1 := Reader.rank_le st'
          have hone := hbusy hs
          rw [if_neg (by decide), hrank, if_pos rfl, if_neg (by decide)]
          omega

end DnsAdtm.Hw
