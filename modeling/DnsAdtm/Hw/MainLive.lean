/-
# `Hw.MainLive` — every answer is sent

When the line has fallen silent, what is left is worked off, one part after the other: `corein`
comes to the end of the last packet, `coreout` makes the last answer, the index of `FIFO_snd` shows
it, and `mac_snd` takes it.  For each part there is a level that falls by one with every edge of
its clock (`level_settles`), and as the clocks do not stop, every one of them comes to rest.

    corein_settles, coreout_settles, index_settles, mac_snd_settles
    main_answers    in the end every answer has been taken by `mac_snd`
-/
import DnsAdtm.Hw.MainDevice

namespace DnsAdtm.Hw

open Machine Backlog

variable {g : Generics} {gReplyMac : BitVec 48} {f : Filter} {levels : Clock → Bool} {clocks : Clocks}
  {frames : List (LineFrame × Nat)}

/-! ## The clocks do not stop -/

theorem edges_sum {s t : Nat} (h : s ≤ t) :
    clocks.edges .rx s t + clocks.edges .core s t + clocks.edges .tx s t = t - s := by
  induction t, h using Nat.le_induction with
  | base => rw [Nat.sub_self, Clocks.edges, Clocks.edges, Clocks.edges, during_self, during_self, during_self]
  | succ t h ih =>
      rw [Clocks.edges, Clocks.edges, Clocks.edges, during_succ h, during_succ h, during_succ h]
      rw [Clocks.edges, Clocks.edges, Clocks.edges] at ih
      cases clocks t <;> simp <;> omega

/-- There are as many edges of every clock as one likes. -/
theorem InStep.many (h : clocks.InStep) (c : Clock) (s n : Nat) :
    ∃ t, s ≤ t ∧ n ≤ clocks.edges c s t := by
  refine ⟨s + (4 * n + 8), Nat.le_add_right .., ?_⟩
  have hsum := @edges_sum clocks _ _ (Nat.le_add_right s (4 * n + 8))
  obtain ⟨hrx, hrx'⟩ := h .rx (by decide) s (s + (4 * n + 8)) (Nat.le_add_right ..)
  obtain ⟨htx, htx'⟩ := h .tx (by decide) s (s + (4 * n + 8)) (Nat.le_add_right ..)
  cases c <;> omega

section Live
variable (hf : f.InRange) (hps : ∀ p ∈ frames, UpdateInRange g p.1.frame.rcvData)
  (hgap : ∀ p ∈ frames, leastGap ≤ p.2) (hclocks : clocks.InStep)

/-- All the line has been taken, and all that was notified is shown. -/
structure Silent (levels : Clock → Bool) (clocks : Clocks) (frames : List (LineFrame × Nat)) (t : Nat) (m : Main) :
    Prop where
  written : m.rcv.written = frames.map fun p => p.1.frame.rcvData
  writes : m.rcv.writes = m.rcv.written.length
  later : (lineOf frames).length + 2 ≤ clocks.taken levels t

section
include hf hps hgap hclocks

theorem silent_of_taken {t : Nat} (htaken : (lineOf frames).length + 2 ≤ clocks.taken levels t) :
    Silent levels clocks frames t (Main.at g gReplyMac f levels clocks (lineOf frames) t) := by
  have hon := @onLine_at g gReplyMac f levels clocks (lineOf frames) t
  have htracks := (rcv_load gReplyMac levels hf hps hgap hclocks t).1.tracks
  refine ⟨?_, ?_, htaken⟩
  · rw [written_heard]
    exact heard_line (fun p hp => Nat.lt_of_lt_of_le (by decide) (hgap p hp)) (by omega)
  · by_contra hne
    have hlt := Nat.lt_of_le_of_ne htracks.writes_le hne
    have hwclk : (Main.at g gReplyMac f levels clocks (lineOf frames) t).rcv.wclk = true := by
      by_contra hlow
      exact hne (htracks.writes (Bool.eq_false_of_not_eq_true hlow))
    obtain ⟨k, hk, hnotified⟩ := hon.notified (c := .rx) ⟨rfl, hwclk, hlt⟩
    have hle := hnotified.le
    omega

end

theorem taken_mono {s t : Nat} (h : s ≤ t) : clocks.taken levels s ≤ clocks.taken levels t := by
  have hsplit := @edges_split clocks .rx _ _ h
  rw [Clocks.taken, Clocks.taken]
  split <;> omega

variable (gReplyMac levels) in
include hf hps hgap hclocks in
/-- The line falls silent. -/
theorem line_settles : ∃ s, ∀ t, s ≤ t →
    Silent levels clocks frames t (Main.at g gReplyMac f levels clocks (lineOf frames) t) := by
  obtain ⟨s, -, hs⟩ := InStep.many hclocks .rx 0 (2 * ((lineOf frames).length + 2))
  refine ⟨s, fun t hst => silent_of_taken hf hps hgap hclocks (Nat.le_trans ?_ (taken_mono hst))⟩
  rw [Clocks.taken]
  split <;> omega

/-- Nothing arrives any more. -/
theorem Silent.quiet {t : Nat} {m : Main} (h : Silent levels clocks frames t m) (c : Clock) : ¬ m.Arrives c :=
  fun ha => absurd ha.2.2 (by rw [h.writes]; exact Nat.lt_irrefl _)

/-! ## The parts -/

/-- A reader with nothing left to do. -/
theorem settled_of_load {α ρ : Type} {R : Reader α ρ} {x : Watched α ρ} {left : ρ → Nat} {cost : Nat}
    (hkept : Kept R x) (hbusy : R.state x.reader = .busy → 0 < left x.reader) (hcost : 2 ≤ cost)
    (hload : x.load R left cost ≤ 3) : R.state x.reader = .idle ∧ x.writes ≤ x.latched.length := by
  rw [Watched.load] at hload
  have hnone : x.writes ≤ x.latched.length := by
    by_contra hlt
    have hone : cost * 1 ≤ cost * (x.writes - x.latched.length) := Nat.mul_le_mul_left _ (by omega)
    omega
  refine ⟨?_, hnone⟩
  cases hs : R.state x.reader with
  | idle => rfl
  | read => exact absurd (hkept.reading hs) (Nat.not_lt_of_le hnone)
  | busy =>
      have hleft := hbusy hs
      rw [Reader.rank, hs] at hload
      dsimp only at hload
      omega

/-- `corein` is idle, and has latched all that is there. -/
structure Rests (g : Generics) (m : Main) : Prop where
  idle : m.rcv.reader.core.s.s = .idle
  latched : m.rcv.latched = m.rcv.written

variable (gReplyMac levels) in
include hf hps hgap hclocks in
theorem corein_settles : ∃ s, ∀ t, s ≤ t →
    Silent levels clocks frames t (Main.at g gReplyMac f levels clocks (lineOf frames) t) ∧
      Rests g (Main.at g gReplyMac f levels clocks (lineOf frames) t) := by
  obtain ⟨s, hsilent⟩ := line_settles gReplyMac levels hf hps hgap hclocks
  have hfalls : ∀ t, s ≤ t → (Main.at g gReplyMac f levels clocks (lineOf frames) (t + 1)).rcv.load (coreinReader g)
      Corein.left serviceTime ≤ max ((Main.at g gReplyMac f levels clocks (lineOf frames) t).rcv.load
        (coreinReader g) Corein.left serviceTime - if clocks t = .core then 1 else 0) 3 := by
    intro t hst
    obtain ⟨hrcv, hload⟩ := rcv_load gReplyMac levels hf hps hgap hclocks t
    have hstep := (@rcv_load_step g f gReplyMac levels clocks frames hf hps hgap _ _ _ rfl rfl hrcv hload).2
    rwa [if_neg ((hsilent t hst).quiet _), Nat.add_zero] at hstep
  obtain ⟨s', hs', hlow⟩ := @level_settles (clocks · = .core) _ (fun t => (Main.at g gReplyMac f levels clocks
    (lineOf frames) t).rcv.load (coreinReader g) Corein.left serviceTime) 3 s hfalls (InStep.many hclocks .core s _)
  refine ⟨s', fun t hst => ?_⟩
  have hquiet := hsilent t (Nat.le_trans hs' hst)
  have hload := hlow t hst
  obtain ⟨hrcv, -⟩ := rcv_load gReplyMac levels hf hps hgap hclocks t
  have hserves := hrcv.serves (written_inRange hps hgap t) hf
  obtain ⟨hidle, hnone⟩ := settled_of_load hrcv.kept (fun hs => Nat.lt_of_lt_of_le (Nat.succ_pos _) (hserves.busy hs))
    (by decide) hload
  refine ⟨hquiet, coreinReader_idle.mp hidle, hrcv.kept.taken.eq_of_length_le ?_⟩
  rw [← hquiet.writes]
  exact hnone

/-- What `coreout` has to do, and what is on its way to it and from it. -/
def Main.outLeft (m : Main) : Nat :=
  (if m.rcv.reader.core.sndEn then 9 else 0) + (if m.co.s = .idle then 0 else m.co.s.left + 1) +
    if m.co.elSndEn then 1 else 0

/-- A period of it, with `corein` idle. -/
theorem outLeft_next {st : Processors} {i : CoreinIn} (hidle : st.ci.core.s.s = .idle) :
    (if (st.cycle g gReplyMac i).ci.core.sndEn then 9 else 0) +
        (if (st.cycle g gReplyMac i).co.s = .idle then 0 else (st.cycle g gReplyMac i).co.s.left + 1) +
        (if (st.cycle g gReplyMac i).co.elSndEn then 1 else 0) ≤
      (if st.ci.core.sndEn then 9 else 0) + (if st.co.s = .idle then 0 else st.co.s.left + 1) +
        (if st.co.elSndEn then 1 else 0) - 1 := by
  have hsend : (st.cycle g gReplyMac i).ci.core.sndEn = false := by
    refine (@rcv_sndEn g st.ci.core _).trans ?_
    rw [hidle]
    rfl
  have hup : (st.cycle g gReplyMac i).co.elSndEn = decide (st.co.s = .send) := cycle_elSndEn gReplyMac
  rw [hsend, hup]
  by_cases hs : st.co.s = .idle
  · cases hdv : st.ci.core.sndEn with
    | false =>
        have hstay : (st.cycle g gReplyMac i).co.s = .idle := (cycle_idle gReplyMac (i := st.outIn) hs hdv).1
        rw [hstay, hs]
        exact Nat.zero_le _
    | true =>
        have htake : (st.cycle g gReplyMac i).co.s = .metaInfo := by
          show (st.co.cycle gReplyMac st.outIn).s = _
          rw [cycle_take gReplyMac hs hdv]
        have hseven : OutState.left .metaInfo = 7 := rfl
        simp only [htake, hs, hseven, reduceCtorEq, decide_false, Bool.false_eq_true, if_true, if_false]
        omega
  · -- the countdown
    have hdown : (st.cycle g gReplyMac i).co.s.left + 1 = st.co.s.left :=
      (cycle_left gReplyMac (i := st.outIn) hs).1
    have hlast : (st.cycle g gReplyMac i).co.s = .idle ↔ st.co.s = .send := by
      constructor
      · intro hnext
        rw [hnext] at hdown
        cases hco : st.co.s <;> rw [hco] at hdown <;> first | rfl | cases hdown
      · intro hco
        by_contra hbusy
        have hpos := OutState.left_pos hbusy
        rw [hco] at hdown
        have hone : OutState.left .send = 1 := rfl
        omega
    rw [if_neg hs]
    by_cases hco : st.co.s = .send
    · rw [if_pos (hlast.mpr hco), decide_eq_true hco]
      have hpos := OutState.left_pos hs
      simp only [Bool.false_eq_true, if_true, if_false]
      omega
    · rw [if_neg (mt hlast.mp hco), decide_eq_false hco]
      simp only [Bool.false_eq_true, if_false]
      omega

/-- Two edges for each of them. -/
theorem outLeft_edge {m : Main} {c : Clock} {i : RxIn} (hidle : m.rcv.reader.core.s.s = .idle) :
    2 * (m.edge g gReplyMac (c, i)).outLeft + (if (m.edge g gReplyMac (c, i)).rcv.rclk then 1 else 0) ≤
      max (2 * m.outLeft + (if m.rcv.rclk then 1 else 0) - if c = .core then 1 else 0) 1 := by
  cases c with
  | rx =>
      obtain ⟨hrclk, -, hreader⟩ := @edge_write_read _ _ (coreinReader g) m.rcv m.rx.elDv m.rx.d
      rw [Main.edge, Main.outLeft]
      dsimp only
      rw [hrclk, hreader]
      exact Nat.le_max_left ..
  | tx => exact Nat.le_max_left ..
  | core =>
      cases hr : m.rcv.rclk with
      | true =>
          rw [Main.edge, hr, edge_rclk_falls hr]
          exact Nat.le_max_left ..
      | false =>
          have hnext := @outLeft_next g gReplyMac ⟨m.rcv.reader, m.co⟩
            ⟨m.rcv.fifo.rData, m.rcv.fifo.bufNotEmpty⟩ hidle
          rw [Main.edge, hr, edge_rclk_rises hr, Main.outLeft, Main.outLeft]
          change 2 * (_ + _ + _) + 1 ≤ _
          refine Nat.le_trans (Nat.add_le_add_right (Nat.mul_le_mul_left 2 hnext) 1) ?_
          simp only [Bool.false_eq_true, if_false, if_true]
          omega

/-- All answers have been written, and no more comes. -/
structure Answered (g : Generics) (gReplyMac : BitVec 48) (f : Filter) (frames : List (LineFrame × Nat)) (m : Main) :
    Prop extends Rests g m where
  quiet : m.co.elSndEn = false
  written : m.snd.written =
    (answers (Device.handle g) (.start f) (frames.map fun p => p.1.frame.rcvData)).map (sndOf gReplyMac)
  device : AtRest (after (Device.handle g) (.start f) (frames.map fun p => p.1.frame.rcvData)) m.rcv.reader

section
include hf hps hgap hclocks

variable (gReplyMac levels) in
theorem coreout_settles : ∃ s, ∀ t, s ≤ t →
    Answered g gReplyMac f frames (Main.at g gReplyMac f levels clocks (lineOf frames) t) := by
  obtain ⟨s, hrests⟩ := corein_settles gReplyMac levels hf hps hgap hclocks
  obtain ⟨s', hs', hlow⟩ := @level_settles (clocks · = .core) _
    (fun t => 2 * (Main.at g gReplyMac f levels clocks (lineOf frames) t).outLeft +
      if (Main.at g gReplyMac f levels clocks (lineOf frames) t).rcv.rclk then 1 else 0) 1 s
    (fun t hst => by
      rw [at_succ]
      exact outLeft_edge (hrests t hst).2.idle) (InStep.many hclocks .core s _)
  refine ⟨s', fun t hst => ?_⟩
  obtain ⟨hsilent, hrest⟩ := hrests t (Nat.le_trans hs' hst)
  obtain ⟨sent, hrelays⟩ := relays_at gReplyMac levels hf hps hgap hclocks t
  have hzero := hlow t hst
  generalize Main.at g gReplyMac f levels clocks (lineOf frames) t = m at hsilent hrest hrelays hzero ⊢
  have hout : m.outLeft = 0 := by omega
  rw [Main.outLeft] at hout
  have hsnd : m.rcv.reader.core.sndEn = false := by
    by_contra hen
    rw [Bool.eq_true_of_not_eq_false hen, if_pos rfl] at hout
    omega
  have hquiet : m.co.elSndEn = false := by
    by_contra hen
    rw [Bool.eq_true_of_not_eq_false hen, if_pos rfl] at hout
    omega
  have hco : m.co.s = .idle := by
    by_contra hbusy
    rw [if_neg hbusy] at hout
    omega
  -- neither `corein` nor `coreout` shows anything
  obtain ⟨hsent, hdevice⟩ := hrelays.serving.of_idle (.inl hrest.idle)
  obtain ⟨hmade, -⟩ := hrelays.making.of_idle hco
  have hnone : (coreinServer g).gives m.rcv.reader = none := if_neg (by rw [hsnd]; decide)
  have hnone' : (coreoutServer gReplyMac).gives m.co = none := if_neg (by rw [hquiet]; decide)
  rw [hnone, Option.toList_none, List.append_nil] at hsent
  rw [hnone', Option.toList_none, List.append_nil, coreout_answers, hsent] at hmade
  rw [hrest.latched, hsilent.written] at hmade hdevice
  exact ⟨hrest, hquiet, hmade, hdevice⟩

variable (gReplyMac levels) in
/-- The index follows the last write. -/
theorem index_settles : ∃ s, ∀ t, s ≤ t →
    Answered g gReplyMac f frames (Main.at g gReplyMac f levels clocks (lineOf frames) t) ∧
      (Main.at g gReplyMac f levels clocks (lineOf frames) t).snd.writes =
        (Main.at g gReplyMac f levels clocks (lineOf frames) t).snd.written.length := by
  obtain ⟨s, hanswered⟩ := coreout_settles gReplyMac levels hf hps hgap hclocks
  obtain ⟨s', hs', hlow⟩ := @level_settles (clocks · = .core) _
    (fun t => (Main.at g gReplyMac f levels clocks (lineOf frames) t).snd.written.length -
      (Main.at g gReplyMac f levels clocks (lineOf frames) t).snd.writes) 0 s
    (fun t hst => by
      have hquiet := (hanswered t hst).quiet
      obtain ⟨htracks, -, -, -, -, hclk50, -, -⟩ := (snd_load gReplyMac levels hf hps hgap hclocks t).1
      rw [at_succ, Clocks.edgeOn]
      generalize Main.at g gReplyMac f levels clocks (lineOf frames) t = m at hquiet htracks hclk50 ⊢
      cases hc : clocks t with
      | rx => exact Nat.le_max_left ..
      | tx =>
          obtain ⟨-, hwritten, hwrites⟩ := edge_read_write (R := macSndReader) (x := m.snd)
          show (m.snd.edge macSndReader .read).written.length - (m.snd.edge macSndReader .read).writes ≤ _
          rw [hwritten, hwrites]
          exact Nat.le_max_left ..
      | core =>
          show (m.snd.edge macSndReader (.write m.co.elSndEn m.co.sd)).written.length -
            (m.snd.edge macSndReader (.write m.co.elSndEn m.co.sd)).writes ≤ _
          cases hw : m.snd.wclk with
          | true =>
              rw [edge_wclk_falls hw, Nat.sub_self]
              exact Nat.zero_le _
          | false =>
              rw [edge_wclk_rises hw, hquiet, if_neg (by decide), htracks.writes hw, Nat.sub_self]
              exact Nat.zero_le _) (InStep.many hclocks .core s _)
  refine ⟨s', fun t hst => ⟨hanswered t (Nat.le_trans hs' hst), ?_⟩⟩
  have htracks := (snd_load gReplyMac levels hf hps hgap hclocks t).1.tracks
  have hzero := hlow t hst
  have hle := htracks.writes_le
  omega

variable (gReplyMac levels) in
/-- `mac_snd` has taken them all. -/
theorem mac_snd_settles : ∃ s, ∀ t, s ≤ t →
    Answered g gReplyMac f frames (Main.at g gReplyMac f levels clocks (lineOf frames) t) ∧
      (Main.at g gReplyMac f levels clocks (lineOf frames) t).snd.latched =
        (Main.at g gReplyMac f levels clocks (lineOf frames) t).snd.written ∧
      (Main.at g gReplyMac f levels clocks (lineOf frames) t).snd.reader.s = .idle := by
  obtain ⟨s, hindex⟩ := index_settles gReplyMac levels hf hps hgap hclocks
  have hroom (t : Nat) : (Main.at g gReplyMac f levels clocks (lineOf frames) t).snd.writes <
      (Main.at g gReplyMac f levels clocks (lineOf frames) t).snd.reads + gDepth := by
    obtain ⟨hsends, hload⟩ := snd_load gReplyMac levels hf hps hgap hclocks t
    exact Nat.lt_of_le_of_lt (hsends.room hload) (Nat.add_lt_add_left (by decide) _)
  obtain ⟨s', hs', hlow⟩ := @level_settles (clocks · = .tx) _
    (fun t => (Main.at g gReplyMac f levels clocks (lineOf frames) t).snd.load macSndReader MacSnd.left
      MacSnd.serviceTime) 3 s
    (fun t hst => by
      have hshown := (hindex t hst).2
      have hsends := (snd_load gReplyMac levels hf hps hgap hclocks t).1
      have hfree := hroom t
      rw [at_succ, Clocks.edgeOn]
      generalize Main.at g gReplyMac f levels clocks (lineOf frames) t = m at hshown hsends hfree ⊢
      cases hc : clocks t with
      | rx => exact Nat.le_max_left ..
      | tx => exact load_read macSndReader_lawful hsends.kept hsends.tracks hfree fun hr => hsends.serves hfree hr
      | core =>
          have hload := @load_write _ _ _ _ MacSnd.left MacSnd.serviceTime hsends.kept hsends.tracks
            m.co.elSndEn m.co.sd
          rw [if_neg fun hboth => absurd hboth.2 (by rw [hshown]; exact Nat.lt_irrefl _), Nat.add_zero] at hload
          refine Nat.le_trans (Nat.le_of_eq hload) ?_
          rw [if_neg (by decide), Nat.sub_zero]
          exact Nat.le_max_left ..) (InStep.many hclocks .tx s _)
  refine ⟨s', fun t hst => ?_⟩
  obtain ⟨hanswered, hshown⟩ := hindex t (Nat.le_trans hs' hst)
  have hsends := (snd_load gReplyMac levels hf hps hgap hclocks t).1
  obtain ⟨hidle, hnone⟩ := settled_of_load hsends.kept (fun hs => by
    have hone := (MacSnd.cycle_left (i := ⟨.zero, false⟩) hsends.inCount).2
      (fun hi => by rw [macSndReader_idle.mpr hi] at hs; cases hs)
      (fun hr => by rw [macSndReader_read.mpr hr] at hs; cases hs)
    exact Nat.lt_of_lt_of_le (Nat.succ_pos _) hone) (by decide) (hlow t hst)
  refine ⟨hanswered, hsends.kept.taken.eq_of_length_le ?_, macSndReader_idle.mp hidle⟩
  rw [← hshown]
  exact hnone

/-- **Every answer is sent.**  Whatever the phases of the clocks: some time behind a line of frames
with `leastGap` clocks between them, `mac_snd` has taken the answers to all of them, in order and
each once; and the filter and the counters of `corein` are those of the device behind them. -/
theorem main_answers : ∃ s, ∀ t, s ≤ t →
    (Main.at g gReplyMac f levels clocks (lineOf frames) t).snd.latched =
        (answers (Device.handle g) (.start f) (frames.map fun p => p.1.frame.rcvData)).map (sndOf gReplyMac) ∧
      AtRest (after (Device.handle g) (.start f) (frames.map fun p => p.1.frame.rcvData))
        (Main.at g gReplyMac f levels clocks (lineOf frames) t).rcv.reader := by
  obtain ⟨s, hall⟩ := mac_snd_settles gReplyMac levels hf hps hgap hclocks
  refine ⟨s, fun t hst => ?_⟩
  obtain ⟨hanswered, hlatched, -⟩ := hall t hst
  exact ⟨hlatched.trans hanswered.written, hanswered.device⟩

end

theorem main_answers_accepted : ∃ s, ∀ t, s ≤ t →
    (Main.at {} replyMac .init (fun _ => false) evenClocks (lineOf acceptedLine) t).snd.latched =
        (answers (Device.handle {}) (.start .init) (acceptedLine.map fun p => p.1.frame.rcvData)).map (sndOf replyMac) ∧
      AtRest (after (Device.handle {}) (.start .init) (acceptedLine.map fun p => p.1.frame.rcvData))
        (Main.at {} replyMac .init (fun _ => false) evenClocks (lineOf acceptedLine) t).rcv.reader :=
  main_answers Filter.init_inRange acceptedLine_inRange acceptedLine_gap evenClocks_inStep

end Live

end DnsAdtm.Hw
