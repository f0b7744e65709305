/-
# `Hw.LineOrder` — the frames of the line, in order

What `mac_rcv` notifies, as a list (`heard`): the fields of the frames on the line, in order and
each once.  What is written to `FIFO_rcv` is that list, as far as the line has been taken.

    heard_line       all of the line
    written_heard    `FIFO_rcv` at any moment
-/
import DnsAdtm.Hw.LineRate

namespace DnsAdtm.Hw

open Machine

/-! ## What is notified -/

/-- The packets notified with the first `k` nibbles, without the last of these. -/
def heard (line : List RxIn) (k : Nat) : List RcvData :=
  ((List.range k).filter fun j => decide (NotifiedAt line j)).map fun j => (rxAfter line j).d

/-- The packets notified in a run over a finite line. -/
def heardFrom (st : MacRcv) (line : List RxIn) : List RcvData :=
  ((List.range (line.length + 1)).filter fun k => (run MacRcv.cycle st (line.take k)).elDv).map
    fun k => (run MacRcv.cycle st (line.take k)).d

section Heard
variable {line : List RxIn} {k : Nat}

theorem heard_succ : heard line (k + 1) =
    heard line k ++ if NotifiedAt line k then [(rxAfter line k).d] else [] := by
  rw [heard, List.range_succ, List.filter_append, List.map_append, ← heard]
  by_cases h : NotifiedAt line k
  · rw [if_pos h, List.filter_singleton, decide_eq_true h]
    rfl
  · rw [if_neg h, List.filter_singleton, decide_eq_false h]
    rfl

theorem heard_mono {j : Nat} (h : j ≤ k) : heard line j <+: heard line k := by
  induction k, h using Nat.le_induction with
  | base => exact List.prefix_refl _
  | succ k _ ih =>
      rw [heard_succ]
      exact ih.trans (List.prefix_append _ _)

/-- Nothing is notified behind the line. -/
theorem heard_behind (hk : line.length < k) : heard line k = heardFrom .init line := by
  induction k, hk using Nat.le_induction with
  | base =>
      rw [heard, heardFrom]
      have hrun {j : Nat} (hj : j ∈ List.range (line.length + 1)) :
          rxAfter line j = run MacRcv.cycle .init (line.take j) :=
        rxAfter_eq_run (Nat.le_of_lt_succ (List.mem_range.mp hj))
      rw [List.filter_congr (q := fun k => (run MacRcv.cycle .init (line.take k)).elDv)]
      · exact List.map_congr_left fun j hj => by rw [hrun (List.mem_filter.mp hj).1]
      · intro j hj
        rw [← hrun hj]
        show decide ((rxAfter line j).elDv = true) = _
        rw [Bool.decide_eq_true]
  | succ k hk ih =>
      have hsilent : ¬ NotifiedAt line k := fun h => absurd h.le (Nat.not_le_of_lt hk)
      rw [heard_succ, if_neg hsilent, List.append_nil, ih]

end Heard

/-! ## The frames -/

/-- A number below the bound, out of the range. -/
theorem filter_range_eq {n m : Nat} (h : m < n) : (List.range n).filter (fun k => decide (k = m)) = [m] := by
  rw [List.filter_eq, List.count_eq_one_of_mem List.nodup_range (List.mem_range.mpr h)]
  rfl

/-- By induction on the blocks: each of them is notified once. -/
theorem heardFrom_line {st : MacRcv} {frames : List (LineFrame × Nat)} (hst : st.Waits)
    (hgap : ∀ p ∈ frames, 0 < p.2) :
    heardFrom st (lineOf frames) = frames.map fun p => p.1.frame.rcvData := by
  induction frames generalizing st with
  | nil =>
      rw [heardFrom, lineOf, List.flatMap_nil]
      simp [hst.2.2]
  | cons p frames ih =>
      have hpos := hgap p List.mem_cons_self
      have hline : lineOf (p :: frames) = p.1.block p.2 ++ lineOf frames := List.flatMap_cons
      have hmark : p.1.mark < (p.1.block p.2).length := by
        rw [LineFrame.length_block, LineFrame.mark]
        omega
      have hrest := ih (@waits_block st p.1 p.2 hpos)
        fun q hq => hgap q (List.mem_cons_of_mem p hq)
      rw [heardFrom, hline, List.length_append, Nat.add_assoc, List.range_add, List.filter_append,
        List.map_append, List.filter_map, List.map_map, List.map_cons, ← List.singleton_append]
      congr 1
      · -- the first block
        rw [List.filter_congr (q := fun k => decide (k = p.1.mark)), filter_range_eq hmark, List.map_singleton,
          List.take_append_of_le_length (Nat.le_of_lt hmark), block_data hst]
        intro k hk
        have hle := Nat.le_of_lt (List.mem_range.mp hk)
        rw [List.take_append_of_le_length hle, Bool.eq_iff_iff, notified_block hst hle, decide_eq_true_iff]
      · rw [← hrest, heardFrom]
        simp only [Function.comp_def, List.take_length_add_append, run_append]

/-- The whole line. -/
theorem heard_line {frames : List (LineFrame × Nat)} (hgap : ∀ p ∈ frames, 0 < p.2) {k : Nat}
    (hk : (lineOf frames).length < k) : heard (lineOf frames) k = frames.map fun p => p.1.frame.rcvData := by
  rw [heard_behind hk, heardFrom_line init_waits hgap]

/-- And a part of it. -/
theorem heard_line_le {frames : List (LineFrame × Nat)} (hgap : ∀ p ∈ frames, 0 < p.2) (k : Nat) :
    heard (lineOf frames) k <+: frames.map fun p => p.1.frame.rcvData := by
  rw [← heard_line hgap (Nat.lt_of_lt_of_le (Nat.lt_succ_self _) (Nat.le_max_right k _))]
  exact heard_mono (Nat.le_max_left ..)

/-! ## `FIFO_rcv` -/

section Run
variable {g : Generics} {gReplyMac : BitVec 48} {f : Filter} {levels : Clock → Bool} {clocks : Clocks}
  {line : List RxIn} {t : Nat} {m : Main}

/-- At the rising edge of `E_RX_CLK` a nibble is taken, -/
theorem OnLine.taken_rises (h : OnLine levels clocks line t m) (hc : clocks t = .rx) (hw : m.rcv.wclk = false) :
    clocks.taken levels (t + 1) = clocks.taken levels t + 1 := by
  have hnow := h.wclk
  rw [hw] at hnow
  rw [Clocks.taken, Clocks.taken, edges_succ, if_pos hc]
  cases hl : levels .rx <;> simp [hl] at hnow ⊢ <;> omega

/-- and at no other edge. -/
theorem OnLine.taken_stays (h : OnLine levels clocks line t m) (hc : clocks t ≠ .rx ∨ m.rcv.wclk = true) :
    clocks.taken levels (t + 1) = clocks.taken levels t := by
  rw [Clocks.taken, Clocks.taken, edges_succ]
  by_cases hrx : clocks t = .rx
  · have hw := hc.resolve_left fun hne => hne hrx
    have hnow := h.wclk
    rw [hw] at hnow
    rw [if_pos hrx]
    cases hl : levels .rx <;> simp [hl] at hnow ⊢ <;> omega
  · rw [if_neg hrx, Nat.add_zero]

/-- What has been written. -/
theorem written_heard (t : Nat) : (Main.at g gReplyMac f levels clocks line t).rcv.written =
    heard line (clocks.taken levels t) := by
  induction t with
  | zero =>
      have htaken : clocks.taken levels 0 = 0 := by
        rw [Clocks.taken, Clocks.edges, Backlog.during_self]
        split <;> rfl
      rw [htaken]
      rfl
  | succ t ih =>
      have hon := @onLine_at g gReplyMac f levels clocks line t
      rw [at_succ]
      generalize Main.at g gReplyMac f levels clocks line t = m at ih hon
      cases hc : clocks t with
      | core =>
          rw [hon.taken_stays (.inl (by rw [hc]; decide)), ← ih, Clocks.edgeOn, hc, Main.edge]
          exact edge_read_write.2.1
      | tx =>
          rw [hon.taken_stays (.inl (by rw [hc]; decide)), ← ih, Clocks.edgeOn, hc, Main.edge]
      | rx =>
          cases hw : m.rcv.wclk with
          | true =>
              rw [hon.taken_stays (.inr hw), ← ih, Clocks.edgeOn, hc, Main.edge, edge_wclk_falls hw]
          | false =>
              rw [hon.taken_rises hc hw, heard_succ, ← ih, Clocks.edgeOn, hc, Main.edge, edge_wclk_rises hw, hon.rx]
              by_cases hn : (rxAfter line (clocks.taken levels t)).elDv = true
              · rw [if_pos (show NotifiedAt line _ from hn)]
                exact if_pos hn
              · rw [if_neg (show ¬ NotifiedAt line _ from hn), List.append_nil]
                exact if_neg hn

end Run

end DnsAdtm.Hw
