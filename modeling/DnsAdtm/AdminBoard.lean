/-
# `AdminBoard` — the board of the administrator is `main`

In `AdminProtocol` the board takes one packet after another and answers at once.  The board of
`main.vhd` takes nibbles, with three clocks, two FIFOs and a frame on its way while the next one
comes in.  What the administrator can see of the two is the same: with the packets of a run on its
line, what the one has sent is in the end on the line of the other, no more and no less
(`board_is_main`).

The filters must be tidy, or the board could leave its lists; that `f_curr` is tidy is what
`Sw.AdminTidy` is about.
-/
import DnsAdtm.AdminProtocol
import DnsAdtm.FilterMeaning
import DnsAdtm.Hw.Wire

namespace DnsAdtm

open Machine Sw

/-- The frame on the line, padded. -/
def onLine (fr : Hw.UdpFrame) (h : fr.ihl = 5) : Hw.LineFrame × Nat :=
  (⟨fr, h, .replicate _ 0, List.length_replicate⟩, Hw.leastGap)

variable {g : Hw.Generics} {gReplyMac : BitVec 48} {f₀ : Hw.Filter} {launch : Bool} {s : System}
  {levels : Hw.Clock → Bool} {clocks : Hw.Clocks} {frames : List (Hw.LineFrame × Nat)}

/-- The updates of a run with tidy filters. -/
theorem System.Sound.inRange {d₀ : Hw.Device} (h : s.Sound g gReplyMac d₀) (htidy : ∀ f ∈ s.applied, f.Tidy) :
    ∀ rd ∈ s.delivered, Hw.UpdateInRange g rd := by
  intro rd hmem hauth
  obtain ⟨f, hf, hdecode⟩ := h.handled rd hmem hauth
  rw [hdecode]
  exact (htidy f hf).inRange

/-- **The administrator's board is `main`.**  Take any run, and let the frames of the packets that
the board has handled come over the line of `main`, whatever the phases of the clocks.  Some time
behind them, what `main` has sent is silence and the frames that were sent in the run, in order. -/
theorem System.board_is_main (hg : Paired g) (hf : f₀.InRange)
    (h : Reachable g gReplyMac (.start f₀) launch s) (htidy : ∀ f ∈ s.applied, f.Tidy)
    (hline : frames.map (fun p => p.1.frame.rcvData) = s.delivered) (hgap : ∀ p ∈ frames, Hw.leastGap ≤ p.2)
    (hclocks : clocks.InStep) :
    ∃ ds : List Hw.SndData, s.replied = ds.map Hw.SndData.bytes ∧ ∃ t₀, ∀ t, t₀ ≤ t →
      Hw.MacSnd.Transcript ds (Hw.Main.txLine g gReplyMac f₀ levels clocks (Hw.lineOf frames) t) := by
  have hsound := sound_reachable hg hf.packable h
  have hps : ∀ p ∈ frames, Hw.UpdateInRange g p.1.frame.rcvData := by
    intro p hmem
    refine hsound.inRange htidy _ ?_
    rw [← hline]
    exact List.mem_map_of_mem hmem
  refine ⟨(answers (Hw.Device.handle g) (.start f₀) s.delivered).map (Hw.sndOf gReplyMac), ?_, ?_⟩
  · rw [List.map_map]
    exact hsound.replied
  · obtain ⟨t₀, hall⟩ := Hw.wire_settles gReplyMac levels hf hps hgap hclocks
    refine ⟨t₀, fun t ht => ?_⟩
    obtain ⟨hanswered, hsent⟩ := hall t ht
    rw [← hline, ← hanswered.written]
    exact hsent

/-- The first apply of a process, and its probe. -/
theorem System.board_is_main_applied : ∃ (s : System) (frames : List (Hw.LineFrame × Nat)) (ds : List Hw.SndData),
    s.pc.purpose = some (.check initialiseFpgaConfiguration) ∧ s.replied = ds.map Hw.SndData.bytes ∧
      ∃ t₀, ∀ t, t₀ ≤ t → Hw.MacSnd.Transcript ds
        (Hw.Main.txLine {} Hw.replyMac .init (fun _ => false) Hw.evenClocks (Hw.lineOf frames) t) := by
  obtain ⟨s, hreach, ⟨length, buf, hpc⟩, -, -, -, happlied, fr, fr', hdelivered, hihl, hihl'⟩ := reachable_check
  have htidy : ∀ f ∈ s.applied, f.Tidy := by
    rw [happlied]
    intro f hmem
    rw [List.mem_singleton.mp hmem]
    exact initial_tidy
  have hline : [onLine fr hihl, onLine fr' hihl'].map (fun p => p.1.frame.rcvData) = s.delivered := hdelivered.symm
  have hgap : ∀ p ∈ [onLine fr hihl, onLine fr' hihl'], Hw.leastGap ≤ p.2 := by
    intro p hmem
    rcases List.mem_cons.mp hmem with rfl | hmem
    · exact Nat.le_refl _
    · rw [List.mem_singleton.mp hmem]
      exact Nat.le_refl _
  obtain ⟨ds, hreplied, hsent⟩ := board_is_main paired_default Hw.Filter.init_inRange hreach htidy hline hgap
    Hw.evenClocks_inStep
  exact ⟨s, _, ds, by rw [hpc]; rfl, hreplied, hsent⟩

end DnsAdtm
