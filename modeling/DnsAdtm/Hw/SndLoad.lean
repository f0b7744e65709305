/-
# `Hw.SndLoad` — `FIFO_snd` and `mac_snd` at line rate

A packet may become a frame to send, and none becomes two: it is shown by `FIFO_rcv`, `corein` or
`coreout` has it, or it is on the write port of `FIFO_snd`, and no step makes these `pending`
packets more but an arrival.  With a period of `E_TX_CLK` for each half of its edges, what
`mac_snd` has to do for them and for those that `FIFO_snd` shows falls by one an edge, down to
the four that can be on their way.  So `FIFO_snd` does not fill either (`snd_load`).
-/
import DnsAdtm.Hw.MacSndTime
import DnsAdtm.Hw.RcvLoad

namespace DnsAdtm.Hw

open Machine Backlog

variable {g : Generics} {gReplyMac : BitVec 48} {i : RxIn}

/-! ## Packets on their way -/

/-- The packets `corein` has: at work on one, or handing one over. -/
def Corein.held (g : Generics) (st : Corein) : Nat :=
  (if (coreinReader g).state st = .busy then 1 else 0) + if st.core.sndEn then 1 else 0

/-- The packets `coreout` has: at work on one, or writing one. -/
def Coreout.held (st : Coreout) : Nat := (if st.s = .idle then 0 else 1) + if st.elSndEn then 1 else 0

/-- The packets between the index of `FIFO_rcv` and that of `FIFO_snd`. -/
def Main.pending (g : Generics) (m : Main) : Nat :=
  m.rcv.writes - m.rcv.latched.length + m.rcv.reader.held g + m.co.held +
    (m.snd.written.length - m.snd.writes)

/-- A packet in `corein` was there before, or has just been read. -/
theorem corein_held_next (st : Corein) (x : RcvData) (dv : Bool) :
    ((coreinReader g).cycle st x dv).held g ≤ if (coreinReader g).state st = .idle then 0 else 1 := by
  obtain ⟨st', hst'⟩ : ∃ st', st' = (coreinReader g).cycle st x dv := ⟨_, rfl⟩
  have hcore : st'.core = rcv g st.core (st.rcvIn ⟨x, dv⟩) := by rw [hst']; rfl
  have hsend : st'.core.sndEn = decide (st.core.s.s = .send) := by rw [hcore]; exact rcv_sndEn
  rw [← hst', Corein.held, hsend]
  by_cases hs : st.core.s.s = .send
  · have hidle' : (coreinReader g).state st' = .idle := by
      rw [coreinReader_idle, hcore]
      exact (rcv_send hs).1
    have hidle : (coreinReader g).state st ≠ .idle := by
      rw [ne_eq, coreinReader_idle, hs]
      decide
    rw [hidle', if_neg hidle, decide_eq_true hs]
    decide
  · rw [decide_eq_false hs]
    by_cases hidle : (coreinReader g).state st = .idle
    · have hnext := (coreinReader_lawful g).idle st x dv hidle
      rw [← hst'] at hnext
      rw [if_pos hidle, hnext]
      cases dv <;> decide
    · rw [if_neg hidle]
      split <;> decide

/-- A packet in `coreout` was there before, or has just been handed over. -/
theorem coreout_held_next (st : Coreout) (i : OutIn) : (st.cycle gReplyMac i).held =
    (if st.s = .idle then 0 else 1) + if st.s = .idle ∧ i.rcvDataDv = true then 1 else 0 := by
  obtain ⟨s, chksumbuf, rd, sd, elSndEn, v⟩ := st
  obtain ⟨data, dv⟩ := i
  cases s
  case idle => cases dv <;> rfl
  all_goals rfl

theorem toPktCnt_lt (x : Int) : toPktCnt x < 1024 := by
  rw [toPktCnt]
  omega

/-- The count of a frame made by `coreout` is in its range. -/
theorem coreout_count {st : Coreout} (i : OutIn) (h : st.sd.dnsPktCnt < 1024) :
    (st.cycle gReplyMac i).sd.dnsPktCnt < 1024 := by
  obtain ⟨s, chksumbuf, rd, sd, elSndEn, v⟩ := st
  cases s
  case idle =>
      rw [Coreout.cycle]
      dsimp only
      split <;> exact h
  case checksumCalc =>
      show (if 128 ≤ v.dnsLengthbuf then 1020 else toPktCnt _) < 1024
      split
      · decide
      · exact toPktCnt_lt _
  all_goals exact h

/-! ## The send side -/

/-- A packet that is taken has been written. -/
theorem Kept.rData_mem {α ρ : Type} {R : Reader α ρ} {x : Watched α ρ} (h : Kept R x) (htracks : Tracks R x)
    (hR : R.Lawful) (hroom : x.writes < x.reads + gDepth) (hr : x.rclk = false) (hs : R.state x.reader = .read) :
    x.fifo.rData ∈ x.written := by
  have htaken := (h.read htracks hR hroom).taken
  rw [edge_rclk_rises hr] at htaken
  dsimp only at htaken
  rw [if_pos hs, (hR.read _ _ _ hs).2] at htaken
  exact htaken.subset (List.mem_append_right _ (List.mem_singleton.mpr rfl))

/-- What a run keeps of `coreout`, `FIFO_snd` and `mac_snd`. -/
structure Sends (g : Generics) (m : Main) : Prop where
  tracks : Tracks macSndReader m.snd
  kept : Kept macSndReader m.snd
  inCount : m.snd.reader.InCount
  written : ∀ d ∈ m.snd.written, d.dnsPktCnt < 1024
  count : m.co.sd.dnsPktCnt < 1024
  clk50 : m.snd.wclk = m.rcv.rclk
  core : m.rcv.reader.held g ≤ 1
  out : m.co.held ≤ 1

/-- What `mac_snd` has to do: for what its FIFO shows, and for what is on its way there. -/
def Main.sndLoad (g : Generics) (m : Main) : Nat :=
  m.snd.load macSndReader MacSnd.left MacSnd.serviceTime + 2 * MacSnd.serviceTime * m.pending g

section Steps
variable {m : Main} (h : Sends g m)
include h

theorem Sends.serves (hroom : m.snd.writes < m.snd.reads + gDepth) (hr : m.snd.rclk = false) :
    Serves macSndReader MacSnd.left MacSnd.serviceTime m.snd where
  busy hs := by
    refine (MacSnd.cycle_left h.inCount).2 (fun hi => ?_) fun hi => ?_
    · rw [macSndReader_idle.mpr hi] at hs
      cases hs
    · rw [macSndReader_read.mpr hi] at hs
      cases hs
  read hs := MacSnd.left_read h.inCount (macSndReader_read.mp hs)
    (h.written _ (h.kept.rData_mem h.tracks macSndReader_lawful hroom hr hs))

/-- An edge of `E_TX_CLK`. -/
theorem Sends.tx (hroom : m.snd.writes < m.snd.reads + gDepth) :
    Sends g { m with snd := m.snd.edge macSndReader .read } := by
  obtain ⟨hwclk, hwritten, -⟩ := edge_read_write (R := macSndReader) (x := m.snd)
  have htracks := h.tracks.read macSndReader_lawful
  have hkept := h.kept.read h.tracks macSndReader_lawful hroom
  have hcount : (m.snd.edge macSndReader .read).reader.InCount := by
    cases hr : m.snd.rclk with
    | true =>
        rw [edge_rclk_falls hr]
        exact h.inCount
    | false =>
        rw [edge_rclk_rises hr]
        exact (MacSnd.cycle_left h.inCount).1
  exact
    { h with
      tracks := htracks
      kept := hkept
      inCount := hcount
      written := by
        dsimp only
        rw [hwritten]
        exact h.written
      clk50 := hwclk.trans h.clk50 }

/-- It is one of those left, while anything is shown. -/
theorem Sends.sndLoad_tx (hroom : m.snd.writes < m.snd.reads + gDepth) :
    ({ m with snd := m.snd.edge macSndReader .read } : Main).sndLoad g ≤
      max (m.sndLoad g - 1) (3 + 2 * MacSnd.serviceTime * m.pending g) := by
  obtain ⟨-, hwritten, hwrites⟩ := edge_read_write (R := macSndReader) (x := m.snd)
  have hload := load_read macSndReader_lawful h.kept h.tracks hroom fun hr => h.serves hroom hr
  have hpending : ({ m with snd := m.snd.edge macSndReader .read } : Main).pending g = m.pending g := by
    rw [Main.pending, Main.pending]
    dsimp only
    rw [hwritten, hwrites]
  rw [Main.sndLoad, hpending, Main.sndLoad]
  dsimp only
  omega

/-- An edge of `E_RX_CLK`: what arrives is on its way. -/
theorem Sends.rx (hkept : Kept (coreinReader g) m.rcv) (htracks : Tracks (coreinReader g) m.rcv)
    (rx : MacRcv) (wEn : Bool) (wData : RcvData) :
    let m' : Main := { m with rx := rx, rcv := m.rcv.edge (coreinReader g) (.write wEn wData) }
    Sends g m' ∧ m'.sndLoad g = m.sndLoad g +
      if m.rcv.wclk = true ∧ m.rcv.writes < m.rcv.written.length then 2 * MacSnd.serviceTime else 0 := by
  intro m'
  obtain ⟨hrclk, hlatched, hreader⟩ := @edge_write_read _ _ (coreinReader g) m.rcv wEn wData
  have hpending : m'.pending g = m.pending g +
      if m.rcv.wclk = true ∧ m.rcv.writes < m.rcv.written.length then 1 else 0 := by
    rw [Main.pending, Main.pending]
    show (m.rcv.edge (coreinReader g) (.write wEn wData)).writes -
        (m.rcv.edge (coreinReader g) (.write wEn wData)).latched.length +
        Corein.held g (m.rcv.edge (coreinReader g) (.write wEn wData)).reader + m.co.held +
        (m.snd.written.length - m.snd.writes) = _
    rw [hlatched, hreader]
    have hle := htracks.writes_le
    have hone := htracks.le_writes
    have htaken := hkept.writes
    cases hw : m.rcv.wclk with
    | false =>
        have hno : ¬ (false = true ∧ m.rcv.writes < m.rcv.written.length) := fun h => by cases h.1
        rw [edge_wclk_rises hw, if_neg hno]
        rfl
    | true =>
        rw [edge_wclk_falls hw]
        dsimp only
        by_cases hlt : m.rcv.writes < m.rcv.written.length
        · have hyes : true = true ∧ m.rcv.writes < m.rcv.written.length := ⟨rfl, hlt⟩
          rw [if_pos hyes]
          omega
        · have hno : ¬ (true = true ∧ m.rcv.writes < m.rcv.written.length) := fun h => hlt h.2
          rw [if_neg hno]
          omega
  constructor
  · exact
      { h with
        clk50 := h.clk50.trans hrclk.symm
        core := by
          show Corein.held g (m.rcv.edge (coreinReader g) (.write wEn wData)).reader ≤ 1
          rw [hreader]
          exact h.core }
  · rw [Main.sndLoad, Main.sndLoad, hpending, Nat.mul_add, ← Nat.add_assoc]
    congr 1
    split
    · exact Nat.mul_one _
    · exact Nat.mul_zero _

/-- The rising edge of `clk50`: a packet goes from one to the next. -/
theorem Sends.core_rises (hkept : Kept (coreinReader g) m.rcv) (hr : m.rcv.rclk = false) :
    Sends g (m.edge g gReplyMac (.core, i)) ∧ (m.edge g gReplyMac (.core, i)).sndLoad g ≤ m.sndLoad g := by
  have hw : m.snd.wclk = false := h.clk50.trans hr
  have htracks := h.tracks.write m.co.elSndEn m.co.sd
  have hkept' := h.kept.write h.tracks m.co.elSndEn m.co.sd
  have hci := corein_held_next (g := g) m.rcv.reader m.rcv.fifo.rData m.rcv.fifo.bufNotEmpty
  have hco := @coreout_held_next gReplyMac m.co ⟨m.rcv.reader.core.rd, m.rcv.reader.core.sndEn⟩
  have hload := @load_write _ _ _ _ MacSnd.left MacSnd.serviceTime h.kept h.tracks m.co.elSndEn m.co.sd
  have hedge : m.edge g gReplyMac (.core, i) = { m with
      rcv := m.rcv.edge (coreinReader g) .read
      co := m.co.cycle gReplyMac ⟨m.rcv.reader.core.rd, m.rcv.reader.core.sndEn⟩
      snd := m.snd.edge macSndReader (.write m.co.elSndEn m.co.sd) } := by
    rw [Main.edge, hr]
    rfl
  have hpending : (m.edge g gReplyMac (.core, i)).pending g ≤ m.pending g := by
    have hwrites := h.tracks.writes hw
    have htaken := hkept.reading
    have hnow : m.rcv.reader.held g = (if (coreinReader g).state m.rcv.reader = .busy then 1 else 0) +
        if m.rcv.reader.core.sndEn then 1 else 0 := rfl
    have hout : m.co.held = (if m.co.s = .idle then 0 else 1) + if m.co.elSndEn then 1 else 0 := rfl
    rw [hedge, Main.pending, Main.pending, hco, hnow, hout, edge_rclk_rises hr, edge_wclk_rises hw]
    dsimp only
    have hlength : (if m.co.elSndEn = true then m.snd.written ++ [m.co.sd] else m.snd.written).length =
        m.snd.written.length + if m.co.elSndEn = true then 1 else 0 := by
      split
      · rw [List.length_append, List.length_singleton]
      · rfl
    have hhanded : (if m.co.s = .idle ∧ m.rcv.reader.core.sndEn = true then 1 else 0) ≤
        if m.rcv.reader.core.sndEn = true then 1 else 0 := by
      split
      · rename_i hboth
        rw [if_pos hboth.2]
      · exact Nat.zero_le _
    rw [hlength]
    cases hs : (coreinReader g).state m.rcv.reader with
    | idle =>
        rw [hs, if_pos rfl] at hci
        rw [if_neg (show ¬ ReaderState.idle = .read by decide), if_neg (show ¬ ReaderState.idle = .busy by decide)]
        omega
    | read =>
        have hlt := htaken hs
        rw [hs, if_neg (by decide)] at hci
        rw [if_pos rfl, if_neg (show ¬ ReaderState.read = .busy by decide), List.length_append, List.length_singleton]
        omega
    | busy =>
        rw [hs, if_neg (by decide)] at hci
        rw [if_neg (show ¬ ReaderState.busy = .read by decide), if_pos rfl]
        omega
  have hsame : (m.snd.edge macSndReader (.write m.co.elSndEn m.co.sd)).load macSndReader MacSnd.left
      MacSnd.serviceTime = m.snd.load macSndReader MacSnd.left MacSnd.serviceTime := by
    rw [hload, hw, if_neg fun hboth => by cases hboth.1]
    rfl
  constructor
  · rw [hedge]
    rw [edge_wclk_rises hw] at htracks hkept' ⊢
    rw [edge_rclk_rises hr]
    exact
      { tracks := htracks
        kept := hkept'
        inCount := h.inCount
        written := by
          intro d hd
          dsimp only at hd
          split at hd
          · rcases List.mem_append.mp hd with hd | hd
            · exact h.written d hd
            · rw [List.mem_singleton.mp hd]
              exact h.count
          · exact h.written d hd
        count := coreout_count _ h.count
        clk50 := rfl
        core := Nat.le_trans hci (by split <;> decide)
        out := by
          dsimp only
          rw [hco]
          by_cases hs : m.co.s = .idle
          · rw [if_pos hs]
            split <;> decide
          · rw [if_neg hs, if_neg fun hboth => hs hboth.1] }
  · have hmore := Nat.mul_le_mul_left (2 * MacSnd.serviceTime) hpending
    have hnow : (m.edge g gReplyMac (.core, i)).sndLoad g =
        (m.snd.edge macSndReader (.write m.co.elSndEn m.co.sd)).load macSndReader MacSnd.left MacSnd.serviceTime +
          2 * MacSnd.serviceTime * (m.edge g gReplyMac (.core, i)).pending g := rfl
    rw [hnow, hsame, Main.sndLoad]
    exact Nat.add_le_add_left hmore _

/-- The falling edge: what has been written is shown. -/
theorem Sends.core_falls (hr : m.rcv.rclk = true) :
    Sends g (m.edge g gReplyMac (.core, i)) ∧ (m.edge g gReplyMac (.core, i)).sndLoad g = m.sndLoad g := by
  have hw : m.snd.wclk = true := h.clk50.trans hr
  have htracks := h.tracks.write m.co.elSndEn m.co.sd
  have hkept := h.kept.write h.tracks m.co.elSndEn m.co.sd
  have hload := @load_write _ _ _ _ MacSnd.left MacSnd.serviceTime h.kept h.tracks m.co.elSndEn m.co.sd
  have hle := h.tracks.writes_le
  have hone := h.tracks.le_writes
  have hedge : m.edge g gReplyMac (.core, i) = { m with
      rcv := m.rcv.edge (coreinReader g) .read
      snd := m.snd.edge macSndReader (.write m.co.elSndEn m.co.sd) } := by
    rw [Main.edge, hr]
    rfl
  constructor
  · rw [hedge]
    rw [edge_wclk_falls hw] at htracks hkept ⊢
    rw [edge_rclk_falls hr]
    exact
      { h with
        tracks := htracks
        kept := hkept
        clk50 := rfl }
  · have hnow : (m.edge g gReplyMac (.core, i)).sndLoad g =
        (m.snd.edge macSndReader (.write m.co.elSndEn m.co.sd)).load macSndReader MacSnd.left MacSnd.serviceTime +
          2 * MacSnd.serviceTime * (m.edge g gReplyMac (.core, i)).pending g := rfl
    have hshown : m.pending g = (m.edge g gReplyMac (.core, i)).pending g +
        if m.snd.writes < m.snd.written.length then 1 else 0 := by
      rw [hedge, Main.pending, Main.pending, edge_rclk_falls hr, edge_wclk_falls hw]
      dsimp only
      split <;> omega
    rw [hnow, hload, hw, Main.sndLoad, hshown, Nat.mul_add]
    by_cases hlt : m.snd.writes < m.snd.written.length
    · have hyes : true = true ∧ m.snd.writes < m.snd.written.length := ⟨rfl, hlt⟩
      rw [if_pos hyes, if_pos hlt]
      omega
    · have hno : ¬ (true = true ∧ m.snd.writes < m.snd.written.length) := fun hboth => hlt hboth.2
      rw [if_neg hno, if_neg hlt]
      omega

/-- No more than four packets are on their way, when one is shown. -/
theorem Sends.pending_le (hone : m.rcv.writes ≤ m.rcv.latched.length + 1) : m.pending g ≤ 4 := by
  have hcore := h.core
  have hout := h.out
  have hshown := h.tracks.le_writes
  rw [Main.pending]
  omega

end Steps

/-! ## Runs -/

section Run
variable {f : Filter} {levels : Clock → Bool} {clocks : Clocks} {frames : List (LineFrame × Nat)}

theorem sends_start : Sends g (Main.start f levels) where
  tracks := tracks_start _ rfl _ _
  kept := ⟨List.prefix_refl _, Nat.le_refl _, fun h => by cases h⟩
  inCount := trivial
  written d hd := absurd hd List.not_mem_nil
  count := show 0 < 1024 by decide
  clk50 := rfl
  core := Nat.zero_le 1
  out := Nat.zero_le 1

/-- What `mac_snd` can have to do at most. -/
def sndBound : Nat := 3 + 2 * MacSnd.serviceTime * 4 + 2 * MacSnd.serviceTime

theorem Sends.room {m : Main} (h : Sends g m) (hload : m.sndLoad g ≤ sndBound) :
    m.snd.writes ≤ m.snd.reads + 6 := by
  refine (@roomy_of_load _ _ _ _ MacSnd.left MacSnd.serviceTime _ h.tracks ?_).2
  have hle : m.snd.load macSndReader MacSnd.left MacSnd.serviceTime ≤ m.sndLoad g := Nat.le_add_right ..
  exact Nat.lt_of_le_of_lt (Nat.le_trans hle hload) (by decide)

/-- An edge of the clocks, for the send side. -/
theorem snd_load_step {t : Nat} {m m' : Main} (hm : m = Main.at g gReplyMac f levels clocks (lineOf frames) t)
    (hm' : m' = Main.at g gReplyMac f levels clocks (lineOf frames) (t + 1)) (hrcv : Receives g f m.rcv)
    (hfew : m.rcv.writes ≤ m.rcv.latched.length + 1) (h : Sends g m) (hload : m.sndLoad g ≤ sndBound) :
    Sends g m' ∧ m'.sndLoad g ≤
      max (m.sndLoad g - if clocks t = .tx then 1 else 0) (3 + 2 * MacSnd.serviceTime * 4) +
        if m.Arrives (clocks t) then 2 * MacSnd.serviceTime else 0 := by
  have hroom : m.snd.writes < m.snd.reads + gDepth :=
    Nat.lt_of_le_of_lt (h.room hload) (Nat.add_lt_add_left (by decide) _)
  rw [at_succ, ← hm, Clocks.edgeOn] at hm'
  subst hm'
  cases hc : clocks t with
  | rx =>
      rw [if_neg (show ¬ Clock.rx = .tx by decide), Nat.sub_zero]
      obtain ⟨hsends, hadds⟩ := h.rx hrcv.kept hrcv.tracks
        (if m.rcv.wclk then m.rx else m.rx.cycle (nibbleOn (lineOf frames) (clocks.edges .rx 0 t / 2))) m.rx.elDv m.rx.d
      refine ⟨hsends, Nat.le_trans (Nat.le_of_eq hadds) (Nat.add_le_add (Nat.le_max_left ..) (Nat.le_of_eq ?_))⟩
      by_cases ha : m.rcv.wclk = true ∧ m.rcv.writes < m.rcv.written.length
      · rw [if_pos ha, if_pos ⟨rfl, ha⟩]
      · rw [if_neg ha, if_neg fun harrives => ha harrives.2]
  | core =>
      rw [if_neg (show ¬ Clock.core = .tx by decide), Nat.sub_zero, if_neg fun harrives => absurd harrives.1 (by decide)]
      cases hr : m.rcv.rclk with
      | true =>
          obtain ⟨hsends, hsame⟩ := @Sends.core_falls g gReplyMac
            (nibbleOn (lineOf frames) (clocks.edges .rx 0 t / 2)) _ h hr
          exact ⟨hsends, Nat.le_trans (Nat.le_of_eq hsame) (Nat.le_max_left ..)⟩
      | false =>
          obtain ⟨hsends, hless⟩ := @Sends.core_rises g gReplyMac
            (nibbleOn (lineOf frames) (clocks.edges .rx 0 t / 2)) _ h hrcv.kept hr
          exact ⟨hsends, Nat.le_trans hless (Nat.le_max_left ..)⟩
  | tx =>
      rw [if_pos rfl, if_neg fun harrives => absurd harrives.1 (by decide)]
      have hpending := Nat.mul_le_mul_left (2 * MacSnd.serviceTime) (h.pending_le hfew)
      refine ⟨h.tx hroom, Nat.le_trans (h.sndLoad_tx hroom) ?_⟩
      exact max_le_max_left _ (Nat.add_le_add_left hpending 3)

/-- Between two arrivals there are more edges of `E_TX_CLK` than a frame takes. -/
theorem arrivals_spaced_tx (hclocks : clocks.InStep) (hgap : ∀ p ∈ frames, leastGap ≤ p.2) {s t : Nat}
    (hlt : s < t) (ha : (Main.at g gReplyMac f levels clocks (lineOf frames) s).Arrives (clocks s))
    (ha' : (Main.at g gReplyMac f levels clocks (lineOf frames) t).Arrives (clocks t)) :
    2 * MacSnd.serviceTime ≤ during (clocks · = .tx) (s + 1) t := by
  have hcore := arrivals_spaced hclocks hgap hlt ha ha'
  obtain ⟨hrate, -⟩ := hclocks .tx (by decide) (s + 1) t hlt
  have htx : clocks.edges .tx (s + 1) t = during (clocks · = .tx) (s + 1) t := rfl
  have hedges : clocks.edges .core (s + 1) t = during (clocks · = .core) (s + 1) t := rfl
  have hservice : 2 * serviceTime = 4260 := rfl
  have hsend : 2 * MacSnd.serviceTime = 782 := rfl
  omega

variable (gReplyMac levels) in
/-- The load of `mac_snd` stays within five packets. -/
theorem snd_load (hf : f.InRange) (hps : ∀ p ∈ frames, UpdateInRange g p.1.frame.rcvData)
    (hgap : ∀ p ∈ frames, leastGap ≤ p.2) (hclocks : clocks.InStep) (t : Nat) :
    Sends g (Main.at g gReplyMac f levels clocks (lineOf frames) t) ∧
      (Main.at g gReplyMac f levels clocks (lineOf frames) t).sndLoad g ≤ sndBound := by
  refine @level_le (clocks · = .tx)
    (fun t => (Main.at g gReplyMac f levels clocks (lineOf frames) t).Arrives (clocks t)) _
    (fun t => (Main.at g gReplyMac f levels clocks (lineOf frames) t).sndLoad g)
    (3 + 2 * MacSnd.serviceTime * 4) (2 * MacSnd.serviceTime) _
    (fun t => Sends g (Main.at g gReplyMac f levels clocks (lineOf frames) t)) sends_start ?_
    (fun s t hlt ha ha' => arrivals_spaced_tx hclocks hgap hlt ha ha') (fun t h hload => ?_) t
  · show 2 * (MacSnd.serviceTime * 0 + 1) + (if levels .tx then 1 else 0) + 2 * MacSnd.serviceTime * 0 ≤ _
    split <;> decide
  · obtain ⟨hrcv, hlow⟩ := rcv_load gReplyMac levels hf hps hgap hclocks t
    have hfew := (roomy_of_load (n := 1) hrcv.tracks (Nat.lt_of_le_of_lt hlow (by decide))).1
    exact snd_load_step rfl rfl hrcv hfew h hload

end Run

end DnsAdtm.Hw
