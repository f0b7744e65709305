/-
# `Hw.MainDevice` — what the board is for

`coreout` serves one packet at a time, too, and makes of each what `sndOf` says.  So from
`FIFO_rcv` to `FIFO_snd` the parts of `main.vhd` are one device: what is written to `FIFO_snd` are
the answers to what `corein` has latched, in order and each once, and what is on its way is said by
`Relays`.  With both FIFOs never full (`rcv_load`, `snd_load`) this reaches from the line to
`mac_snd`.

    coreoutServer_lawful    `coreout` as a server
    Relays.core             a period of `clk50`
    main_refines            from the frames of the line to the packets of `mac_snd`
-/
import DnsAdtm.Hw.LineOrder
import DnsAdtm.Hw.SndLoad

namespace DnsAdtm.Hw

open Machine Backlog

variable {g : Generics} {gReplyMac : BitVec 48} {d : Device}

/-! ## `coreout` -/

/-- A packet is taken in `Idle`, and what is made of it is on `sd` while `el_snd_en` is up. -/
def coreoutServer (gReplyMac : BitVec 48) : Server Coreout OutIn Unit RcvData SndData where
  step := Coreout.cycle gReplyMac
  takes st i := if st.s = .idle ∧ i.rcvDataDv = true then some i.rcvData else none
  gives st := if st.elSndEn then some st.sd else none
  Idle st := st.s = .idle
  Rest _ st := st.s = .idle
  handle _ rd := ((), some (sndOf gReplyMac rd))
  Proper _ := True

/-- An input for a wait of `coreout`, which looks at none. -/
instance : Inhabited OutIn := ⟨⟨.zero, false⟩⟩

theorem coreoutServer_lawful (gReplyMac : BitVec 48) : (coreoutServer gReplyMac).Lawful where
  wait := by
    intro _ st i hidle htake
    have hdv : i.rcvDataDv = false := by
      cases hdv : i.rcvDataDv with
      | false => rfl
      | true =>
          rw [show (coreoutServer gReplyMac).takes st i = some i.rcvData from if_pos ⟨hidle, hdv⟩] at htake
          cases htake
    obtain ⟨hs, hquiet⟩ := cycle_idle gReplyMac hidle hdv
    refine ⟨hs, ?_⟩
    show (if (st.cycle gReplyMac i).elSndEn then some (st.cycle gReplyMac i).sd else none) = none
    rw [hquiet]
    rfl
  serve := by
    intro _ st i rd hidle htake _
    have hdv : i.rcvDataDv = true := by
      by_contra hdv
      rw [show (coreoutServer gReplyMac).takes st i = none from if_neg fun h => hdv h.2] at htake
      cases htake
    rw [show (coreoutServer gReplyMac).takes st i = some i.rcvData from if_pos ⟨hidle, hdv⟩,
      Option.some.injEq] at htake
    have hstep := cycle_take gReplyMac hidle hdv
    refine Until.of_trace (n := 7) fun inp => ?_
    obtain ⟨hbusy, hdone, hen, hsd⟩ := @metaInfo_run gReplyMac (st.cycle gReplyMac i) (by rw [hstep]) inp
    refine ⟨⟨hdone, ?_⟩, fun n hn => ?_⟩
    · refine (if_pos hen).trans (congrArg some (hsd.trans ?_))
      rw [hstep, htake]
    · have hquiet : (trace (Coreout.cycle gReplyMac) (st.cycle gReplyMac i) inp n).elSndEn = false := by
        rcases Nat.eq_zero_or_pos n with rfl | hpos
        · rw [trace_zero, hstep]
        · exact (hbusy n hn).2 hpos
      exact ⟨(hbusy n hn).1, fun j => if_neg fun h => (hbusy n hn).1 h.1, 
        if_neg fun hup => Bool.false_ne_true (hquiet.symm.trans hup)⟩

/-- What it makes. -/
theorem coreout_answers (ps : List RcvData) :
    answers (coreoutServer gReplyMac).handle () ps = ps.map (sndOf gReplyMac) :=
  answers_eq_map fun _ _ => rfl

/-! ## Between the FIFOs -/

/-- `corein` has handed over `sent`, what it shows now is behind that, and `coreout` has made of
them what `FIFO_snd` has been given and what is on its write port. -/
structure Relays (g : Generics) (gReplyMac : BitVec 48) (d : Device) (sent : List RcvData) (m : Main) : Prop where
  serving : (coreinServer g).Serving d m.rcv.latched
    (sent ++ ((coreinServer g).gives m.rcv.reader).toList) m.rcv.reader
  making : (coreoutServer gReplyMac).Serving () sent
    (m.snd.written ++ ((coreoutServer gReplyMac).gives m.co).toList) m.co
  paced : Paced ⟨m.rcv.reader, m.co⟩
  clk50 : m.snd.wclk = m.rcv.rclk

section Steps
variable {sent : List RcvData} {m : Main} (h : Relays g gReplyMac d sent m)
include h

/-- All that is on its way is an answer of the device. -/
theorem Relays.written : m.snd.written <+: (answers (Device.handle g) d m.rcv.latched).map (sndOf gReplyMac) := by
  have hmade := h.making.answered.2
  rw [coreout_answers] at hmade
  have hsent : sent <+: answers (Device.handle g) d m.rcv.latched :=
    (List.prefix_append _ _).trans h.serving.answered.2
  exact ((List.prefix_append _ _).trans hmade).trans (hsent.map _)

theorem Relays.rx (rx : MacRcv) (wEn : Bool) (wData : RcvData) :
    Relays g gReplyMac d sent { m with rx := rx, rcv := m.rcv.edge (coreinReader g) (.write wEn wData) } := by
  obtain ⟨hrclk, hlatched, hreader⟩ := @edge_write_read _ _ (coreinReader g) m.rcv wEn wData
  constructor
  · dsimp only
    rw [hlatched, hreader]
    exact h.serving
  · exact h.making
  · dsimp only
    rw [hreader]
    exact h.paced
  · exact h.clk50.trans hrclk.symm

theorem Relays.tx : Relays g gReplyMac d sent { m with snd := m.snd.edge macSndReader .read } := by
  obtain ⟨hwclk, hwritten, -⟩ := edge_read_write (R := macSndReader) (x := m.snd)
  constructor
  · exact h.serving
  · dsimp only
    rw [hwritten]
    exact h.making
  · exact h.paced
  · exact hwclk.trans h.clk50

theorem Relays.core_falls {i : RxIn} (hr : m.rcv.rclk = true) :
    Relays g gReplyMac d sent (m.edge g gReplyMac (.core, i)) := by
  rw [Main.edge, hr, edge_rclk_falls hr, edge_wclk_falls (h.clk50.trans hr)]
  exact { h with clk50 := rfl }

/-- The rising edge of `clk50`: `corein` and `coreout` do a period, and what `coreout` has made is
written. -/
theorem Relays.core_rises {i : RxIn} (hr : m.rcv.rclk = false)
    (hproper : m.rcv.reader.core.s.s = .read → UpdateInRange g m.rcv.fifo.rData) :
    Relays g gReplyMac d (sent ++ ((coreinServer g).gives m.rcv.reader).toList)
      (m.edge g gReplyMac (.core, i)) := by
  have hread := @coreinReader_read g m.rcv.reader
  have hlatched := (coreinReader_lawful g).read m.rcv.reader m.rcv.fifo.rData m.rcv.fifo.bufNotEmpty
  have hserving := h.serving.next (coreinServer_lawful g) ⟨m.rcv.fifo.rData, m.rcv.fifo.bufNotEmpty⟩ (by
    intro rd htake
    by_cases hs : m.rcv.reader.core.s.s = .read
    · rw [show (coreinServer g).takes m.rcv.reader ⟨m.rcv.fifo.rData, m.rcv.fifo.bufNotEmpty⟩ =
        some m.rcv.fifo.rData from if_pos hs, Option.some.injEq] at htake
      rw [← htake]
      exact hproper hs
    · rw [show (coreinServer g).takes m.rcv.reader ⟨m.rcv.fifo.rData, m.rcv.fifo.bufNotEmpty⟩ = none from
        if_neg hs] at htake
      cases htake)
  have hmaking := h.making.next (coreoutServer_lawful gReplyMac)
    ⟨m.rcv.reader.core.rd, m.rcv.reader.core.sndEn⟩ fun _ _ => trivial
  -- what is handed over is taken
  have hhanded : (coreoutServer gReplyMac).takes m.co ⟨m.rcv.reader.core.rd, m.rcv.reader.core.sndEn⟩ =
      (coreinServer g).gives m.rcv.reader := by
    show (if m.co.s = .idle ∧ m.rcv.reader.core.sndEn = true then some m.rcv.reader.core.rd else none) =
      if m.rcv.reader.core.sndEn = true then some m.rcv.reader.core.rd else none
    by_cases hen : m.rcv.reader.core.sndEn = true
    · rw [if_pos hen, if_pos ⟨(h.paced.handed hen).2, hen⟩]
    · rw [if_neg hen, if_neg fun hboth => hen hboth.2]
  rw [hhanded] at hmaking
  rw [Main.edge, hr, edge_rclk_rises hr, edge_wclk_rises (h.clk50.trans hr)]
  constructor
  · have hps : (if (coreinReader g).state m.rcv.reader = .read then m.rcv.latched ++ [(coreinReader g).latched
        ((coreinReader g).cycle m.rcv.reader m.rcv.fifo.rData m.rcv.fifo.bufNotEmpty)] else m.rcv.latched) =
        m.rcv.latched ++ ((coreinServer g).takes m.rcv.reader
          ⟨m.rcv.fifo.rData, m.rcv.fifo.bufNotEmpty⟩).toList := by
      by_cases hs : (coreinReader g).state m.rcv.reader = .read
      · rw [if_pos hs, (hlatched hs).2, show (coreinServer g).takes m.rcv.reader
          ⟨m.rcv.fifo.rData, m.rcv.fifo.bufNotEmpty⟩ = some m.rcv.fifo.rData from if_pos (hread.mp hs)]
        rfl
      · rw [if_neg hs, show (coreinServer g).takes m.rcv.reader ⟨m.rcv.fifo.rData, m.rcv.fifo.bufNotEmpty⟩ = none from
          if_neg fun hs' => hs (hread.mpr hs'), Option.toList_none, List.append_nil]
    dsimp only
    rw [hps]
    exact hserving
  · have hwritten : (if m.co.elSndEn then m.snd.written ++ [m.co.sd] else m.snd.written) =
        m.snd.written ++ ((coreoutServer gReplyMac).gives m.co).toList := by
      show _ = _ ++ Option.toList (if m.co.elSndEn then some m.co.sd else none)
      cases m.co.elSndEn with
      | true => rfl
      | false => exact (List.append_nil _).symm
    dsimp only
    rw [hwritten]
    exact hmaking
  · exact paced_step (i := ⟨m.rcv.fifo.rData, m.rcv.fifo.bufNotEmpty⟩) h.paced
  · rfl

end Steps

/-! ## Runs -/

section Run
variable {f : Filter} {levels : Clock → Bool} {clocks : Clocks} {frames : List (LineFrame × Nat)}

/-- The device at power-on, with the filter `f`. -/
def Device.start (f : Filter) : Device := ⟨f, IState.init.tally⟩

theorem relays_start (hf : f.InRange) : Relays g gReplyMac (.start f) [] (.start f levels) where
  serving := .rest ⟨.inl rfl, ⟨rfl, rfl⟩, rfl, rfl, hf⟩
  making := .rest rfl
  paced := ⟨Nat.zero_le _, nofun⟩
  clk50 := rfl

/-- An edge of the clocks. -/
theorem relays_step {t : Nat} {m m' : Main} {sent : List RcvData}
    (hm : m = Main.at g gReplyMac f levels clocks (lineOf frames) t)
    (hm' : m' = Main.at g gReplyMac f levels clocks (lineOf frames) (t + 1)) (hrcv : Receives g f m.rcv)
    (hroom : m.rcv.writes < m.rcv.reads + gDepth)
    (hwritten : ∀ p ∈ m.rcv.written, UpdateInRange g p) (h : Relays g gReplyMac d sent m) :
    ∃ sent', sent <+: sent' ∧ Relays g gReplyMac d sent' m' := by
  rw [at_succ, ← hm, Clocks.edgeOn] at hm'
  subst hm'
  cases hc : clocks t with
  | rx => exact ⟨sent, List.prefix_refl _, h.rx _ _ _⟩
  | tx => exact ⟨sent, List.prefix_refl _, h.tx⟩
  | core =>
      cases hr : m.rcv.rclk with
      | true => exact ⟨sent, List.prefix_refl _, h.core_falls hr⟩
      | false =>
          refine ⟨_, List.prefix_append _ _, h.core_rises hr fun hs => ?_⟩
          exact hwritten _ (hrcv.kept.rData_mem hrcv.tracks (coreinReader_lawful g) hroom hr (coreinReader_read.mpr hs))

section Slow
variable (hf : f.InRange) (hps : ∀ p ∈ frames, UpdateInRange g p.1.frame.rcvData)
  (hgap : ∀ p ∈ frames, leastGap ≤ p.2) (hclocks : clocks.InStep)
include hf hps hgap hclocks

theorem rcv_room (t : Nat) : (Main.at g gReplyMac f levels clocks (lineOf frames) t).rcv.writes <
    (Main.at g gReplyMac f levels clocks (lineOf frames) t).rcv.reads + gDepth := by
  obtain ⟨hrcv, hload⟩ := rcv_load gReplyMac levels hf hps hgap hclocks t
  have hfew := (roomy_of_load (n := 1) hrcv.tracks (Nat.lt_of_le_of_lt hload (by decide))).2
  exact Nat.lt_of_le_of_lt hfew (Nat.add_lt_add_left (by decide) _)

variable (gReplyMac levels) in
theorem relays_at (t : Nat) : ∃ sent, Relays g gReplyMac (.start f) sent
    (Main.at g gReplyMac f levels clocks (lineOf frames) t) := by
  induction t with
  | zero => exact ⟨[], relays_start hf⟩
  | succ t ih =>
      obtain ⟨sent, hrelays⟩ := ih
      obtain ⟨sent', -, hnext⟩ := relays_step rfl rfl
        (rcv_load gReplyMac levels hf hps hgap hclocks t).1
        (rcv_room hf hps hgap hclocks t) (written_inRange hps hgap t) hrelays
      exact ⟨sent', hnext⟩

variable (gReplyMac levels) in
/-- What `corein` latches are the frames of the line. -/
theorem latched_frames (t : Nat) : (Main.at g gReplyMac f levels clocks (lineOf frames) t).rcv.latched <+:
    frames.map fun p => p.1.frame.rcvData := by
  have hkept := (rcv_load gReplyMac levels hf hps hgap hclocks t).1.kept
  refine hkept.taken.trans ?_
  rw [written_heard]
  exact heard_line_le (fun p hp => Nat.lt_of_lt_of_le (by decide) (hgap p hp)) _

variable (gReplyMac levels) in
theorem main_refines_at (t : Nat) : (Main.at g gReplyMac f levels clocks (lineOf frames) t).snd.written <+:
    (answers (Device.handle g) (.start f) (frames.map fun p => p.1.frame.rcvData)).map (sndOf gReplyMac) := by
  obtain ⟨sent, hrelays⟩ := relays_at gReplyMac levels hf hps hgap hclocks t
  have hlatched := latched_frames gReplyMac levels hf hps hgap hclocks t
  exact hrelays.written.trans ((answers_mono hlatched).map _)

/-- **The board is its device.**  At every moment of every run, for every filter in range and every
line of frames with `leastGap` clocks between them: the packets that `mac_snd` has taken, and those
that `FIFO_snd` holds for it, are made of the answers of the device to the frames of the line, in
order and each once. -/
theorem main_refines (t : Nat) :
    (Main.at g gReplyMac f levels clocks (lineOf frames) t).snd.latched <+:
        (Main.at g gReplyMac f levels clocks (lineOf frames) t).snd.written ∧
      (Main.at g gReplyMac f levels clocks (lineOf frames) t).snd.written <+:
        (answers (Device.handle g) (.start f) (frames.map fun p => p.1.frame.rcvData)).map (sndOf gReplyMac) :=
  ⟨(snd_load gReplyMac levels hf hps hgap hclocks t).1.kept.taken,
    main_refines_at gReplyMac levels hf hps hgap hclocks t⟩

end Slow

theorem main_refines_accepted :
    (Main.at {} replyMac .init (fun _ => false) evenClocks (lineOf acceptedLine) 100000).snd.written <+:
      (answers (Device.handle {}) (.start .init) (acceptedLine.map fun p => p.1.frame.rcvData)).map (sndOf replyMac) :=
  (main_refines Filter.init_inRange acceptedLine_inRange acceptedLine_gap evenClocks_inStep 100000).2

end Run

end DnsAdtm.Hw
