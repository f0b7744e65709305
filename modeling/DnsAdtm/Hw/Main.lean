/-
# `Hw.Main` — `main.vhd`

The parts on their three clocks: `mac_rcv` writes `FIFO_rcv` on `E_RX_CLK`, `corein` reads it and
`coreout` writes `FIFO_snd` on `clk50`, and `mac_snd` reads that on `E_TX_CLK`.  A step is one
edge of one clock, with what is then on `E_RX_DV` and `E_RXD`.

The order of the edges is free but for their rates (`InStep`): in any stretch of time there are
twice as many edges of `clk50` as of either of the other clocks, but for the two that the phases
make up.  What is on the line is a list of nibbles, one for each rising edge of `E_RX_CLK`.

    Main.edge    one edge
    Main.at      the registers after a number of edges
    rx_at        where `mac_rcv` is on the line then
-/
import DnsAdtm.Hw.FifoOrder
import DnsAdtm.Hw.Processors
import DnsAdtm.Hw.MacRcv
import DnsAdtm.Lib.Backlog

namespace DnsAdtm.Hw

open Machine Backlog

/-- `E_RX_CLK`, `clk50` and `E_TX_CLK`. -/
inductive Clock where
  | rx | core | tx
  deriving DecidableEq

/-- `mac_receive`, `fifo_receive` with `ci`, `co`, and `fifo_send` with `mac_send`. -/
structure Main where
  rx : MacRcv
  rcv : Watched RcvData Corein
  co : Coreout
  snd : Watched SndData MacSnd

/-- One edge.  The FIFOs take their write ports, and `coreout` its packet, as they are before it. -/
def Main.edge (g : Generics) (gReplyMac : BitVec 48) (m : Main) : Clock × RxIn → Main
  | (.rx, i) =>
    { m with
      rx := if m.rcv.wclk then m.rx else m.rx.cycle i
      rcv := m.rcv.edge (coreinReader g) (.write m.rx.elDv m.rx.d) }
  | (.core, _) =>
    { m with
      rcv := m.rcv.edge (coreinReader g) .read
      co := if m.rcv.rclk then m.co
        else m.co.cycle gReplyMac ⟨m.rcv.reader.core.rd, m.rcv.reader.core.sndEn⟩
      snd := m.snd.edge macSndReader (.write m.co.elSndEn m.co.sd) }
  | (.tx, _) => { m with snd := m.snd.edge macSndReader .read }

/-- The power-on registers, with the filter `f`, and the levels of the clocks. -/
def Main.start (f : Filter) (levels : Clock → Bool) : Main where
  rx := .init
  rcv := { Watched.init .zero { Corein.init with core.f := f } with wclk := levels .rx, rclk := levels .core }
  co := .init
  snd := { Watched.init .zero .init with wclk := levels .core, rclk := levels .tx }

/-! ## Time -/

/-- Which clock has the edge number `t`. -/
abbrev Clocks := Nat → Clock

/-- The number of edges of `c` between two times. -/
def Clocks.edges (clocks : Clocks) (c : Clock) (s t : Nat) : Nat := during (clocks · = c) s t

/-- `clk50` ticks twice for each tick of `E_RX_CLK`, and of `E_TX_CLK`. -/
def Clocks.InStep (clocks : Clocks) : Prop :=
  ∀ c ∈ [Clock.rx, .tx], ∀ s t, s ≤ t →
    clocks.edges .core s t ≤ 2 * clocks.edges c s t + 2 ∧
      2 * clocks.edges c s t ≤ clocks.edges .core s t + 2

/-- Nibble `k` on the line, which is silent in the end. -/
def nibbleOn (line : List RxIn) (k : Nat) : RxIn := line.getD k ⟨false, 0x0⟩

/-- Edge number `t`: the line moves on by a nibble every two edges of `E_RX_CLK`. -/
def Clocks.edgeOn (clocks : Clocks) (line : List RxIn) (t : Nat) : Clock × RxIn :=
  (clocks t, nibbleOn line (clocks.edges .rx 0 t / 2))

section Run
variable (g : Generics) (gReplyMac : BitVec 48) (f : Filter) (levels : Clock → Bool) (clocks : Clocks)
  (line : List RxIn)

/-- The registers after `t` edges. -/
def Main.at (t : Nat) : Main :=
  trace (Main.edge g gReplyMac) (.start f levels) (clocks.edgeOn line) t

/-- The number of nibbles `mac_rcv` has taken. -/
def Clocks.taken (t : Nat) : Nat :=
  if levels .rx then clocks.edges .rx 0 t / 2 else (clocks.edges .rx 0 t + 1) / 2

end Run

/-! ## The line -/

/-- `mac_rcv` after `k` nibbles. -/
def rxAfter (line : List RxIn) (k : Nat) : MacRcv := trace MacRcv.cycle .init (nibbleOn line) k

/-- `el_dv` is up after `k` nibbles. -/
def NotifiedAt (line : List RxIn) (k : Nat) : Prop := (rxAfter line k).elDv = true

instance (line : List RxIn) : DecidablePred (NotifiedAt line) := fun _ => inferInstanceAs (Decidable (_ = _))

/-- Where the write side is on the line after `t` edges. -/
structure OnLine (levels : Clock → Bool) (clocks : Clocks) (line : List RxIn) (t : Nat) (m : Main) :
    Prop where
  rx : m.rx = rxAfter line (clocks.taken levels t)
  wclk : m.rcv.wclk = true ↔ (levels .rx = true ↔ clocks.edges .rx 0 t % 2 = 0)
  written : m.rcv.written.length = Nat.count (NotifiedAt line) (clocks.taken levels t)
  writes : m.rcv.writes = Nat.count (NotifiedAt line)
    (if m.rcv.wclk then clocks.taken levels t - 1 else clocks.taken levels t)
  packets : ∀ p ∈ m.rcv.written, ∃ k, NotifiedAt line k ∧ p = (rxAfter line k).d

section Run
variable {g : Generics} {gReplyMac : BitVec 48} {f : Filter} {levels : Clock → Bool} {clocks : Clocks}
  {line : List RxIn}

theorem at_succ (t : Nat) : Main.at g gReplyMac f levels clocks line (t + 1) =
    (Main.at g gReplyMac f levels clocks line t).edge g gReplyMac (clocks.edgeOn line t) := trace_succ ..

theorem edges_succ (c : Clock) (t : Nat) :
    clocks.edges c 0 (t + 1) = clocks.edges c 0 t + if clocks t = c then 1 else 0 :=
  during_succ (Nat.zero_le t)

theorem edges_split (c : Clock) {s t : Nat} (h : s ≤ t) :
    clocks.edges c 0 t = clocks.edges c 0 s + clocks.edges c s t := during_trans (Nat.zero_le s) h

section Read
variable {α ρ : Type} {R : Reader α ρ} {x : Watched α ρ}

/-- The read side leaves the write side alone. -/
theorem edge_read_write : (x.edge R .read).wclk = x.wclk ∧ (x.edge R .read).written = x.written ∧
    (x.edge R .read).writes = x.writes := by
  cases hr : x.rclk with
  | true =>
      rw [edge_rclk_falls hr]
      exact ⟨rfl, rfl, rfl⟩
  | false =>
      rw [edge_rclk_rises hr]
      exact ⟨rfl, rfl, rfl⟩

/-- And the write side the read side. -/
theorem edge_write_read {wEn : Bool} {wData : α} : (x.edge R (.write wEn wData)).rclk = x.rclk ∧
    (x.edge R (.write wEn wData)).latched = x.latched ∧
    (x.edge R (.write wEn wData)).reader = x.reader := by
  cases hw : x.wclk with
  | true =>
      rw [edge_wclk_falls hw]
      exact ⟨rfl, rfl, rfl⟩
  | false =>
      rw [edge_wclk_rises hw]
      exact ⟨rfl, rfl, rfl⟩

end Read

/-- An edge of another clock. -/
theorem OnLine.other {t : Nat} {m m' : Main} (h : OnLine levels clocks line t m) (hc : clocks t ≠ .rx)
    (hrx : m'.rx = m.rx) (hwclk : m'.rcv.wclk = m.rcv.wclk) (hwritten : m'.rcv.written = m.rcv.written)
    (hwrites : m'.rcv.writes = m.rcv.writes) : OnLine levels clocks line (t + 1) m' := by
  have hedges : clocks.edges .rx 0 (t + 1) = clocks.edges .rx 0 t := by
    rw [edges_succ, if_neg hc, Nat.add_zero]
  have htaken : clocks.taken levels (t + 1) = clocks.taken levels t := by
    rw [Clocks.taken, Clocks.taken, hedges]
  exact
    { rx := by rw [hrx, htaken, h.rx]
      wclk := by rw [hwclk, hedges, h.wclk]
      written := by rw [hwritten, htaken, h.written]
      writes := by rw [hwrites, hwclk, htaken, h.writes]
      packets := by
        rw [hwritten]
        exact h.packets }

/-- The falling edge of `E_RX_CLK`: the index follows. -/
theorem OnLine.falls {t : Nat} {m : Main} (h : OnLine levels clocks line t m) (hc : clocks t = .rx)
    (hw : m.rcv.wclk = true) : OnLine levels clocks line (t + 1) (m.edge g gReplyMac (clocks.edgeOn line t)) := by
  have hnow := h.wclk
  rw [hw] at hnow
  have hedges : clocks.edges .rx 0 (t + 1) = clocks.edges .rx 0 t + 1 := by rw [edges_succ, if_pos hc]
  have htaken : clocks.taken levels (t + 1) = clocks.taken levels t := by
    rw [Clocks.taken, Clocks.taken, hedges]
    cases hl : levels .rx <;> simp [hl] at hnow ⊢ <;> omega
  rw [Clocks.edgeOn, hc, Main.edge, edge_wclk_falls hw, hw, if_pos rfl]
  exact
    { rx := h.rx.trans (by rw [htaken])
      wclk := by
        rw [hedges]
        cases hl : levels .rx <;> simp [hl] at hnow ⊢ <;> omega
      written := h.written.trans (by rw [htaken])
      writes := h.written.trans (by rw [htaken]; rfl)
      packets := h.packets }

/-- The rising edge: `mac_rcv` takes a nibble, and what it notified before is written. -/
theorem OnLine.rises {t : Nat} {m : Main} (h : OnLine levels clocks line t m) (hc : clocks t = .rx)
    (hw : m.rcv.wclk = false) : OnLine levels clocks line (t + 1) (m.edge g gReplyMac (clocks.edgeOn line t)) := by
  obtain ⟨k, hk⟩ : ∃ k, k = clocks.taken levels t := ⟨_, rfl⟩
  have hnow := h.wclk
  have hrx := h.rx
  have hlength := h.written
  have hlow := h.writes
  rw [hw, if_neg (by decide), ← hk] at hlow
  rw [hw] at hnow
  rw [← hk] at hrx hlength
  have hedges : clocks.edges .rx 0 (t + 1) = clocks.edges .rx 0 t + 1 := by rw [edges_succ, if_pos hc]
  have htaken : clocks.taken levels (t + 1) = k + 1 := by
    rw [hk, Clocks.taken, Clocks.taken, hedges]
    cases hl : levels .rx <;> simp [hl] at hnow ⊢ <;> omega
  have hindex : clocks.edges .rx 0 t / 2 = k := by
    rw [hk, Clocks.taken]
    cases hl : levels .rx with
    | false =>
        simp [hl] at hnow ⊢
        omega
    | true => simp [hl] at hnow ⊢
  rw [Clocks.edgeOn, hc, Main.edge, edge_wclk_rises hw, hw, if_neg (by decide), hindex, hrx]
  exact
    { rx := by rw [htaken]; exact (trace_succ MacRcv.cycle _ _ k).symm
      wclk := by
        rw [hedges]
        cases hl : levels .rx <;> simp [hl] at hnow ⊢ <;> omega
      written := by
        rw [htaken, Nat.count_succ, ← hlength]
        by_cases hn : NotifiedAt line k
        · rw [if_pos hn, if_pos (show (rxAfter line k).elDv = true from hn), List.length_append,
            List.length_singleton]
        · rw [if_neg hn, if_neg (show ¬ (rxAfter line k).elDv = true from hn), Nat.add_zero]
      writes := by
        rw [htaken]
        exact hlow
      packets := by
        intro p hp
        by_cases hn : (rxAfter line k).elDv = true
        · rw [if_pos hn, List.mem_append, List.mem_singleton] at hp
          rcases hp with hp | rfl
          · exact h.packets p hp
          · exact ⟨k, hn, rfl⟩
        · rw [if_neg hn] at hp
          exact h.packets p hp }

theorem onLine_at (t : Nat) :
    OnLine levels clocks line t (Main.at g gReplyMac f levels clocks line t) := by
  induction t with
  | zero =>
      have hedges : clocks.edges .rx 0 0 = 0 := during_self 0
      have htaken : clocks.taken levels 0 = 0 := by
        rw [Clocks.taken, hedges]
        split <;> rfl
      rw [Main.at, trace_zero]
      refine ⟨by rw [htaken]; rfl, ?_, ?_, ?_, fun p hp => absurd hp List.not_mem_nil⟩
      · rw [hedges, Nat.zero_mod]
        simp [Main.start]
      · rw [htaken]
        rfl
      · rw [htaken, Nat.zero_sub, ite_self]
        rfl
  | succ t ih =>
      rw [at_succ]
      cases hc : clocks t with
      | core =>
          rw [Clocks.edgeOn, hc, Main.edge]
          exact ih.other (by rw [hc]; decide) rfl edge_read_write.1 edge_read_write.2.1 edge_read_write.2.2
      | tx =>
          rw [Clocks.edgeOn, hc, Main.edge]
          exact ih.other (by rw [hc]; decide) rfl rfl rfl rfl
      | rx =>
          cases hw : (Main.at g gReplyMac f levels clocks line t).rcv.wclk with
          | true => exact ih.falls hc hw
          | false => exact ih.rises hc hw

/-- The falling edge behind a write: the moment `FIFO_rcv` shows one packet more. -/
def Main.Arrives (m : Main) (c : Clock) : Prop :=
  c = .rx ∧ m.rcv.wclk = true ∧ m.rcv.writes < m.rcv.written.length

instance (m : Main) (c : Clock) : Decidable (m.Arrives c) := inferInstanceAs (Decidable (_ ∧ _))

/-- What arrives has been notified one nibble before the last. -/
theorem OnLine.notified {t : Nat} {m : Main} (h : OnLine levels clocks line t m) {c : Clock} (ha : m.Arrives c) :
    ∃ k, clocks.taken levels t = k + 1 ∧ NotifiedAt line k := by
  obtain ⟨-, hw, hlt⟩ := ha
  rw [h.writes, h.written, hw, if_pos rfl] at hlt
  cases hk : clocks.taken levels t with
  | zero =>
      rw [hk] at hlt
      exact absurd hlt (Nat.lt_irrefl _)
  | succ k =>
      rw [hk, Nat.add_sub_cancel] at hlt
      exact ⟨k, rfl, Nat.count_lt_count_succ_iff.mp hlt⟩

/-- Between two arrivals there are two edges of `E_RX_CLK` for each nibble. -/
theorem OnLine.edges_between {s t : Nat} {m m' : Main} (h : OnLine levels clocks line s m)
    (h' : OnLine levels clocks line t m') (hlt : s < t) (ha : m.Arrives (clocks s))
    (ha' : m'.Arrives (clocks t)) :
    clocks.taken levels s < clocks.taken levels t ∧
      clocks.edges .rx s t = 2 * (clocks.taken levels t - clocks.taken levels s) := by
  have hfirst : clocks.edges .rx s (s + 1) = 1 := by
    rw [Clocks.edges, during_succ (Nat.le_refl s), during_self, if_pos ha.1]
  have hsum : clocks.edges .rx 0 t = clocks.edges .rx 0 s + clocks.edges .rx s t :=
    during_trans (Nat.zero_le s) (Nat.le_of_lt hlt)
  have hrest : clocks.edges .rx s t = clocks.edges .rx s (s + 1) + clocks.edges .rx (s + 1) t :=
    during_trans (Nat.le_succ s) hlt
  have hs := h.wclk.mp ha.2.1
  have ht := h'.wclk.mp ha'.2.1
  rw [Clocks.taken, Clocks.taken]
  cases hl : levels .rx <;> simp [hl] at hs ht ⊢ <;> omega

end Run

/-! ## Clocks in step -/

/-- An edge of `E_RX_CLK`, of `clk50`, of `E_TX_CLK` and of `clk50`, in turn. -/
def evenClocks : Clocks := fun t => if t % 4 = 0 then .rx else if t % 4 = 2 then .tx else .core

theorem evenClocks_edges (t : Nat) : evenClocks.edges .rx 0 t = (t + 3) / 4 ∧
    evenClocks.edges .tx 0 t = (t + 1) / 4 ∧ evenClocks.edges .core 0 t = t / 2 := by
  induction t with
  | zero => exact ⟨rfl, rfl, rfl⟩
  | succ t ih =>
      obtain ⟨hrx, htx, hcore⟩ := ih
      rw [edges_succ, edges_succ, edges_succ, hrx, htx, hcore, evenClocks]
      have hfour : t % 4 = 0 ∨ t % 4 = 1 ∨ t % 4 = 2 ∨ t % 4 = 3 := by omega
      rcases hfour with h | h | h | h <;> simp only [h, Nat.reduceEqDiff, reduceCtorEq, if_true, if_false] <;> omega

theorem evenClocks_inStep : evenClocks.InStep := by
  intro c hc s t hle
  obtain ⟨hrx, htx, hcore⟩ := evenClocks_edges s
  obtain ⟨hrx', htx', hcore'⟩ := evenClocks_edges t
  have hcoreSplit := @edges_split evenClocks .core _ _ hle
  have hrxSplit := @edges_split evenClocks .rx _ _ hle
  have htxSplit := @edges_split evenClocks .tx _ _ hle
  rw [List.mem_cons, List.mem_singleton] at hc
  rcases hc with rfl | rfl
  · omega
  · omega

end DnsAdtm.Hw
