/-
# `Hw.Wire` — from line to line

What `mac_snd` drives on `E_TX_EN` and `E_TXD` is silence and frames: one frame for each packet it
has taken, in order, each with its gap behind it (`Transcript`).  Inside a frame the sender takes
no input, so what is left of the frame is on the way whatever comes (`Emits`), and that it takes
none is also why it is neither in `Idle` nor in `Read` there.

    wired_step      one period of `mac_snd`
    wire_at         the line at any moment of a run
    wire_settles    and in the end
    line_to_line    frames in, the frames of the answers out
-/
import DnsAdtm.Hw.MainLive

namespace DnsAdtm.Hw

open Machine Backlog

/-! ## The sender -/

namespace MacSnd

/-- A line with one frame for each of the packets, and silence between them. -/
inductive Transcript : List SndData → List (Bool × BitVec 4) → Prop
  | nil : Transcript [] []
  | silence {ds : List SndData} {l : List (Bool × BitVec 4)} : Transcript ds l → Transcript ds (l ++ [(false, 0x0)])
  | frame {ds : List SndData} {l : List (Bool × BitVec 4)} (d : SndData) :
      Transcript ds l → Transcript (ds ++ [d]) (l ++ frameOut d)

variable {ds : List SndData} {l rest : List (Bool × BitVec 4)} {st st' : MacSnd} {x : Bool × BitVec 4} {i : SndIn}

/-- A sender whose next period is the same for all inputs is at work. -/
theorem emits_busy (h : Emits cycle out st (x :: rest) st') : st.s ≠ .idle ∧ st.s ≠ .read := by
  obtain ⟨s₁, hnext⟩ : ∃ s₁, ∀ i, st.cycle i = s₁ := by
    cases h with
    | cons hnext _ => exact ⟨_, hnext⟩
  constructor
  · intro hs
    have hup := congrArg MacSnd.s (hnext ⟨.zero, true⟩)
    have hdown := congrArg MacSnd.s (hnext ⟨.zero, false⟩)
    rw [← hdown] at hup
    simp [cycle, hs] at hup
  · intro hs
    have hone := congrArg (fun st => st.d.ipTTL) (hnext ⟨{ SndData.zero with ipTTL := 1 }, true⟩)
    have hzero := congrArg (fun st => st.d.ipTTL) (hnext ⟨{ SndData.zero with ipTTL := 0 }, true⟩)
    rw [← hzero] at hone
    simp [cycle, hs] at hone

/-- The sender has taken the packets, and the line shows their frames, the last of them as far as
it has been sent. -/
inductive Wired (ds : List SndData) (l : List (Bool × BitVec 4)) (st : MacSnd) : Prop
  | idle : st.s = .idle → Transcript ds l → Wired ds l st
  | read : st.s = .read → st.c = 0 → Transcript ds l → Wired ds l st
  | busy {ds' : List SndData} {d : SndData} {l' shown rest : List (Bool × BitVec 4)} {x : Bool × BitVec 4}
      {st' : MacSnd} : Transcript ds' l' → ds = ds' ++ [d] → l = l' ++ shown → shown ++ x :: rest = frameOut d →
      Emits cycle out st (x :: rest) st' → st'.s = .idle → Wired ds l st

/-- One period. -/
theorem wired_step (hcnt : st.s = .read → 8 ∣ i.elData.dnsPktCnt + 4) (h : Wired ds l st) :
    Wired (ds ++ if st.s = .read then [i.elData] else []) (l ++ [out (st.cycle i)]) (st.cycle i) := by
  cases h with
  | idle hs hline =>
      rw [hs, if_neg (by decide), List.append_nil]
      have hsilent : out (st.cycle i) = (false, 0x0) := by
        simp only [cycle, hs, out]
        split <;> rfl
      rw [hsilent]
      by_cases hen : i.elSndEn = true
      · refine .read ?_ ?_ hline.silence <;> simp only [cycle, hs, if_pos hen]
      · refine .idle ?_ hline.silence
        simp only [cycle, hs, if_neg hen]
  | read hs hc hline =>
      have hstep : st.cycle i = { st with
          txd := 0x0, txEn := false, d := i.elData, ack := true, s := .preamble } := by
        simp only [cycle, hs]
      obtain ⟨st', hemits, hidle⟩ := @frame_emits (st.cycle i) (by rw [hstep]) (by rw [hstep]; exact hc)
        (by rw [hstep]; exact hcnt hs)
      have hdata : (st.cycle i).d = i.elData := by rw [hstep]
      have hsilent : out (st.cycle i) = (false, 0x0) := by rw [hstep]; rfl
      obtain ⟨x, rest, hframe⟩ : ∃ x rest, frameOut i.elData = x :: rest := ⟨_, _, rfl⟩
      rw [hdata, hframe] at hemits
      rw [if_pos hs, hsilent]
      exact @Wired.busy _ _ _ _ _ _ [] _ _ _ hline.silence rfl (List.append_nil _).symm hframe.symm hemits hidle
  | @busy ds' d l' shown rest x st' hline hds hl hframe hemits hidle =>
      have hnotRead := (emits_busy hemits).2
      rw [if_neg hnotRead, List.append_nil]
      cases hemits with
      | @cons _ s₁ _ _ hnext hrest =>
          rw [hnext i]
          cases rest with
          | nil =>
              cases hrest
              refine .idle hidle ?_
              rw [hds, hl, List.append_assoc, hframe]
              exact hline.frame d
          | cons y rest =>
              refine @Wired.busy _ _ _ _ _ _ (shown ++ [out s₁]) _ _ _ hline hds ?_ ?_ hrest hidle
              · rw [hl, List.append_assoc]
              · rw [List.append_assoc]
                exact hframe

/-- At rest. -/
theorem Wired.atRest (h : Wired ds l st) (hs : st.s = .idle) : Transcript ds l := by
  cases h with
  | idle _ hline => exact hline
  | read hread _ _ => exact absurd (hs.symm.trans hread) (by decide)
  | busy _ _ _ _ hemits _ => exact absurd hs (emits_busy hemits).1

end MacSnd

/-! ## The board -/

section Run
variable (g : Generics) (gReplyMac : BitVec 48) (f : Filter) (levels : Clock → Bool) (clocks : Clocks)
  (line : List RxIn)

/-- What is on `E_TX_EN` and `E_TXD` behind the rising edges of `E_TX_CLK`. -/
def Main.txLine : Nat → List (Bool × BitVec 4)
  | 0 => []
  | t + 1 => txLine t ++
      if clocks t = .tx ∧ (Main.at g gReplyMac f levels clocks line t).snd.rclk = false then
        [MacSnd.out (Main.at g gReplyMac f levels clocks line (t + 1)).snd.reader]
      else []

end Run

section Run
variable {g : Generics} {gReplyMac : BitVec 48} {f : Filter} {levels : Clock → Bool} {clocks : Clocks}
  {frames : List (LineFrame × Nat)}
  (hf : f.InRange) (hps : ∀ p ∈ frames, UpdateInRange g p.1.frame.rcvData)
  (hgap : ∀ p ∈ frames, leastGap ≤ p.2) (hclocks : clocks.InStep)
include hf hps hgap hclocks

variable (gReplyMac levels) in
/-- What `FIFO_snd` holds has a length of whole bytes. -/
theorem written_count (t : Nat) : ∀ d ∈ (Main.at g gReplyMac f levels clocks (lineOf frames) t).snd.written,
    8 ∣ d.dnsPktCnt + 4 := by
  intro d hd
  have hmade := (main_refines_at gReplyMac levels hf hps hgap hclocks t).subset hd
  obtain ⟨rd, -, rfl⟩ := List.mem_map.mp hmade
  exact sndOf_cnt gReplyMac rd

variable (gReplyMac levels) in
theorem wire_at (t : Nat) : MacSnd.Wired (Main.at g gReplyMac f levels clocks (lineOf frames) t).snd.latched
    (Main.txLine g gReplyMac f levels clocks (lineOf frames) t)
    (Main.at g gReplyMac f levels clocks (lineOf frames) t).snd.reader := by
  induction t with
  | zero => exact .idle rfl .nil
  | succ t ih =>
      obtain ⟨hsends, hload⟩ := snd_load gReplyMac levels hf hps hgap hclocks t
      have hroom := Nat.lt_of_le_of_lt (hsends.room hload) (Nat.add_lt_add_left (by decide : 6 < gDepth) _)
      have hcount := written_count gReplyMac levels hf hps hgap hclocks t
      rw [Main.txLine, at_succ, Clocks.edgeOn]
      generalize Main.at g gReplyMac f levels clocks (lineOf frames) t = m at ih hsends hroom hcount ⊢
      cases hc : clocks t with
      | rx =>
          rw [if_neg fun h => absurd h.1 (by decide), List.append_nil]
          exact ih
      | core =>
          obtain ⟨-, hlatched, hreader⟩ := @edge_write_read _ _ macSndReader m.snd m.co.elSndEn m.co.sd
          rw [if_neg fun h => absurd h.1 (by decide), List.append_nil, Main.edge]
          dsimp only
          rw [hlatched, hreader]
          exact ih
      | tx =>
          rw [Main.edge]
          dsimp only
          cases hr : m.snd.rclk with
          | true =>
              rw [if_neg fun h => absurd h.2 (by decide), List.append_nil, edge_rclk_falls hr]
              exact ih
          | false =>
              have hstep := MacSnd.wired_step (i := ⟨m.snd.fifo.rData, m.snd.fifo.bufNotEmpty⟩) (fun hs =>
                hcount _ (hsends.kept.rData_mem hsends.tracks macSndReader_lawful hroom hr (macSndReader_read.mpr hs))) ih
              have htake := macSndReader_lawful.read m.snd.reader m.snd.fifo.rData m.snd.fifo.bufNotEmpty
              rw [if_pos ⟨rfl, rfl⟩, edge_rclk_rises hr]
              dsimp only
              by_cases hs : macSndReader.state m.snd.reader = .read
              · rw [if_pos (macSndReader_read.mp hs)] at hstep
                rw [if_pos hs, (htake hs).2]
                exact hstep
              · rw [if_neg (mt macSndReader_read.mpr hs), List.append_nil] at hstep
                rw [if_neg hs]
                exact hstep

variable (gReplyMac levels) in
/-- In the end the line shows all that was written to `FIFO_snd`. -/
theorem wire_settles : ∃ s, ∀ t, s ≤ t →
    Answered g gReplyMac f frames (Main.at g gReplyMac f levels clocks (lineOf frames) t) ∧
      MacSnd.Transcript (Main.at g gReplyMac f levels clocks (lineOf frames) t).snd.written
        (Main.txLine g gReplyMac f levels clocks (lineOf frames) t) := by
  obtain ⟨s, hall⟩ := mac_snd_settles gReplyMac levels hf hps hgap hclocks
  refine ⟨s, fun t hst => ?_⟩
  obtain ⟨hanswered, hlatched, hidle⟩ := hall t hst
  refine ⟨hanswered, ?_⟩
  rw [← hlatched]
  exact (wire_at gReplyMac levels hf hps hgap hclocks t).atRest hidle

/-- **From line to line.**  Whatever the phases of the clocks: some time behind a line of frames with
`leastGap` clocks between them, what has been sent is silence and the frames of the answers to them,
in order, each once and with its gap behind it. -/
theorem line_to_line : ∃ s, ∀ t, s ≤ t →
    MacSnd.Transcript
      ((answers (Device.handle g) (.start f) (frames.map fun p => p.1.frame.rcvData)).map (sndOf gReplyMac))
      (Main.txLine g gReplyMac f levels clocks (lineOf frames) t) := by
  obtain ⟨s, hall⟩ := wire_settles gReplyMac levels hf hps hgap hclocks
  refine ⟨s, fun t hst => ?_⟩
  obtain ⟨hanswered, hline⟩ := hall t hst
  rw [← hanswered.written]
  exact hline

end Run

theorem line_to_line_accepted : ∃ s, ∀ t, s ≤ t →
    MacSnd.Transcript
      ((answers (Device.handle {}) (.start .init) (acceptedLine.map fun p => p.1.frame.rcvData)).map (sndOf replyMac))
      (Main.txLine {} replyMac .init (fun _ => false) evenClocks (lineOf acceptedLine) t) :=
  line_to_line Filter.init_inRange acceptedLine_inRange acceptedLine_gap evenClocks_inStep

end DnsAdtm.Hw
