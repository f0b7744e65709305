/-
# `Hw.Overflow` — when the FIFOs fill

A FIFO has no full flag: the packets it holds are gone when the eighth comes in.  With `leastGap`
clocks between the frames that does not happen, in either FIFO, for any filter in range and any
traffic: what is still to be worked off is bounded, in periods of the reader's clock (`rcv_load`,
`snd_load`), and as many packets as would fill a FIFO stand for more.

    never_full    both FIFOs, at every moment of every run
-/
import DnsAdtm.Hw.SndLoad

namespace DnsAdtm.Hw

open Machine Backlog

variable {g : Generics} {gReplyMac : BitVec 48} {f : Filter} {levels : Clock → Bool} {clocks : Clocks}
  {frames : List (LineFrame × Nat)}

/-- Fewer than `g_depth` packets are unread in both FIFOs. -/
structure Main.Roomy (m : Main) : Prop where
  rcv : m.rcv.written.length < m.rcv.reads + gDepth
  snd : m.snd.written.length < m.snd.reads + gDepth

/-- **No backlog overflow below the service rate.**  Both FIFOs have room at every moment of every
run, for every filter in range and every line of frames with `leastGap` clocks between them. -/
theorem never_full (hf : f.InRange) (hps : ∀ p ∈ frames, UpdateInRange g p.1.frame.rcvData)
    (hgap : ∀ p ∈ frames, leastGap ≤ p.2) (hclocks : clocks.InStep) (t : Nat) :
    (Main.at g gReplyMac f levels clocks (lineOf frames) t).Roomy := by
  obtain ⟨hrcv, hrcvLoad⟩ := rcv_load gReplyMac levels hf hps hgap hclocks t
  obtain ⟨hsnd, hsndLoad⟩ := snd_load gReplyMac levels hf hps hgap hclocks t
  have hfew := (roomy_of_load (n := 1) hrcv.tracks (Nat.lt_of_le_of_lt hrcvLoad (by decide))).2
  have hfew' := hsnd.room hsndLoad
  have hone := hrcv.tracks.le_writes
  have hone' := hsnd.tracks.le_writes
  constructor
  · show _ < _ + 8
    omega
  · show _ < _ + 8
    omega

theorem never_full_accepted :
    (Main.at {} replyMac .init (fun _ => false) evenClocks (lineOf acceptedLine) 100000).Roomy :=
  never_full Filter.init_inRange acceptedLine_inRange acceptedLine_gap evenClocks_inStep 100000

end DnsAdtm.Hw
