/-
# `Hw.LineRate` — frames on the line

A frame without IP options, as it is on the line: the packet, padding up to 18 bytes of payload,
the check sequence; and behind each frame a gap.  `mac_rcv` notifies once for each, with the
nibble behind the payload, so two notifications are apart by the gap and the hundred and ten
nibbles and more of a check sequence, a preamble and the headers.

    notified_line   what is notified is a frame of the line
    spaced_line     and how far apart
-/
import DnsAdtm.Hw.Loopback
import DnsAdtm.Hw.Main

namespace DnsAdtm.Hw

open Machine MacRcv

/-- A frame with a payload of `N` bytes. -/
structure LineFrame where
  frame : UdpFrame
  noOptions : frame.ihl = 5
  /-- The padding and the check sequence. -/
  check : List (BitVec 4)
  check_length : check.length = 2 * (18 - frame.payload.length) + 8

namespace LineFrame

/-- The nibbles of the frame. -/
def nibbles (fr : LineFrame) : List (BitVec 4) := DnsAdtm.nibbles fr.frame.bytes ++ fr.check

theorem length_bytes (fr : LineFrame) :
    (DnsAdtm.nibbles fr.frame.bytes).length = 2 * (8 + 42 + fr.frame.payload.length) := by
  have hoptions := fr.noOptions
  simp [UdpFrame.bytes, UdpFrame.ethernetHeader, UdpFrame.ipHeader, UdpFrame.udpHeader]
  omega

/-- `2*(8+42+max(N,18)+4)` receive clocks. -/
theorem length_nibbles (fr : LineFrame) :
    fr.nibbles.length = 2 * (8 + 42 + max fr.frame.payload.length 18 + 4) := by
  rw [nibbles, List.length_append, length_bytes, check_length]
  omega

/-- The frame and a gap. -/
def block (fr : LineFrame) (gap : Nat) : List RxIn := burst fr.nibbles ++ List.replicate gap ⟨false, 0x0⟩

end LineFrame

/-- The frames on the line, each with the gap behind it. -/
def lineOf (frames : List (LineFrame × Nat)) : List RxIn := frames.flatMap fun p => p.1.block p.2

/-- Between two frames. -/
def MacRcv.Waits (st : MacRcv) : Prop := st.s = .preamble ∧ st.c = 0 ∧ st.elDv = false

variable {st : MacRcv} {fr : LineFrame} {gap : Nat}

theorem waits_gap (hpos : 0 < gap) : (run MacRcv.cycle st (List.replicate gap ⟨false, 0x0⟩)).Waits := by
  obtain ⟨n, rfl⟩ : ∃ n, gap = n + 1 := ⟨gap - 1, by omega⟩
  rw [List.replicate_succ', run_append]
  exact ⟨rfl, rfl, rfl⟩

/-- How many nibbles of its block a frame is notified with. -/
def LineFrame.mark (fr : LineFrame) : Nat := 2 * (8 + 42 + fr.frame.payload.length) + 1

theorem LineFrame.length_block (fr : LineFrame) (gap : Nat) : (fr.block gap).length =
    2 * (8 + 42 + max fr.frame.payload.length 18 + 4) + gap := by
  rw [block, List.length_append, List.length_replicate, ← length_nibbles, burst, List.length_map]

/-- A frame is notified once. -/
theorem notified_block (hst : st.Waits) {k : Nat} (hk : k ≤ (fr.block gap).length) :
    (run MacRcv.cycle st ((fr.block gap).take k)).elDv = true ↔ k = fr.mark := by
  have hlen := fr.length_bytes
  have hcheck := fr.check_length
  obtain ⟨x, rest, hrest⟩ : ∃ x rest, fr.check = x :: rest := List.exists_cons_of_length_pos (by omega)
  have hnibbles : fr.nibbles = DnsAdtm.nibbles fr.frame.bytes ++ x :: rest := by rw [← hrest]; rfl
  rw [hrest, List.length_cons] at hcheck
  have hburst : (burst fr.nibbles).length = fr.nibbles.length := List.length_map ..
  rcases (by omega : k ≤ fr.nibbles.length ∨ fr.nibbles.length < k) with hle | hlt
  · -- in the frame
    have htake : (fr.block gap).take k = burst (fr.nibbles.take k) := by
      rw [LineFrame.block, List.take_append_of_le_length (by omega), burst, burst, List.map_take]
    have hne : rest ≠ [] := by
      rintro rfl
      rw [List.length_nil] at hcheck
      omega
    have hmark : fr.mark = (DnsAdtm.nibbles fr.frame.bytes).length + 1 := by rw [hlen]; rfl
    rw [htake, hnibbles, hmark]
    exact notified_once fr.frame x hne (by omega) hst.1 hst.2.1 hst.2.2 k
  · -- in the gap
    obtain ⟨j, rfl⟩ : ∃ j, k = (burst fr.nibbles).length + j := ⟨k - fr.nibbles.length, by omega⟩
    have htake : (fr.block gap).take ((burst fr.nibbles).length + j) =
        burst fr.nibbles ++ List.replicate j ⟨false, 0x0⟩ := by
      rw [LineFrame.length_block, ← LineFrame.length_nibbles] at hk
      rw [LineFrame.block, List.take_length_add_append, List.take_replicate, Nat.min_eq_left (by omega)]
    have hwaits : (run MacRcv.cycle (run MacRcv.cycle st (burst fr.nibbles)) (List.replicate j ⟨false, 0x0⟩)).Waits :=
      waits_gap (by omega)
    rw [htake, run_append, hwaits.2.2]
    have hlong := fr.length_nibbles
    constructor
    · intro hfalse
      cases hfalse
    · intro hmark
      rw [LineFrame.mark] at hmark
      omega

/-- And with its fields. -/
theorem block_data (hst : st.Waits) : (run MacRcv.cycle st ((fr.block gap).take fr.mark)).d = fr.frame.rcvData := by
  have hlen := fr.length_bytes
  have hcheck := fr.check_length
  obtain ⟨x, rest, hrest⟩ : ∃ x rest, fr.check = x :: rest := List.exists_cons_of_length_pos (by omega)
  have hmark : fr.mark = (DnsAdtm.nibbles fr.frame.bytes).length + 1 := by rw [hlen]; rfl
  have hlong := fr.length_nibbles
  have hburst : (burst fr.nibbles).length = fr.nibbles.length := List.length_map ..
  have htake : (fr.block gap).take fr.mark = burst (DnsAdtm.nibbles fr.frame.bytes ++ [x]) := by
    rw [LineFrame.block, List.take_append_of_le_length (by rw [LineFrame.mark]; omega), burst, ← List.map_take,
      LineFrame.nibbles, hrest, hmark, List.take_length_add_append]
    rfl
  rw [htake]
  exact (frame_notified fr.frame x hst.1 hst.2.1).2

/-- Behind a block, the next. -/
theorem waits_block (hgap : 0 < gap) : (run MacRcv.cycle st (fr.block gap)).Waits := by
  rw [LineFrame.block, run_append]
  exact waits_gap hgap

/-! ## Blocks in a row -/

section Line
variable {p : LineFrame × Nat} {frames : List (LineFrame × Nat)} {k : Nat}

/-- A nibble of a line is in the first block or behind it. -/
theorem take_line_cases (hk : k ≤ (lineOf (p :: frames)).length) :
    (k ≤ (p.1.block p.2).length ∧ (lineOf (p :: frames)).take k = (p.1.block p.2).take k) ∨
      ∃ j, 0 < j ∧ j ≤ (lineOf frames).length ∧ k = (p.1.block p.2).length + j ∧
        (lineOf (p :: frames)).take k = p.1.block p.2 ++ (lineOf frames).take j := by
  rw [lineOf, List.flatMap_cons, ← lineOf] at hk ⊢
  rw [List.length_append] at hk
  rcases (by omega : k ≤ (p.1.block p.2).length ∨ (p.1.block p.2).length < k) with hle | hlt
  · exact .inl ⟨hle, List.take_append_of_le_length hle⟩
  · obtain ⟨j, rfl⟩ : ∃ j, k = (p.1.block p.2).length + j := ⟨k - (p.1.block p.2).length, by omega⟩
    exact .inr ⟨j, by omega, by omega, rfl, List.take_length_add_append ..⟩

/-- What is notified is a frame, by induction on the blocks. -/
theorem notified_run (hst : st.Waits) (hgap : ∀ p ∈ frames, 0 < p.2) (hk : k ≤ (lineOf frames).length)
    (hn : (run MacRcv.cycle st ((lineOf frames).take k)).elDv = true) :
    103 ≤ k ∧ ∃ p ∈ frames, (run MacRcv.cycle st ((lineOf frames).take k)).d = p.1.frame.rcvData := by
  induction frames generalizing st k with
  | nil =>
      rw [lineOf, List.flatMap_nil, List.take_nil, run_nil, hst.2.2] at hn
      cases hn
  | cons p frames ih =>
      rcases take_line_cases hk with ⟨hle, htake⟩ | ⟨j, hpos, hj, rfl, htake⟩
      · rw [htake] at hn ⊢
        obtain rfl := (notified_block hst hle).mp hn
        have hpayload := p.1.frame.payload_range
        exact ⟨by rw [LineFrame.mark]; omega, p, List.mem_cons_self, block_data hst⟩
      · rw [htake, run_append] at hn ⊢
        obtain ⟨hge, q, hq, hd⟩ := ih (waits_block (hgap p List.mem_cons_self))
          (fun q hq => hgap q (List.mem_cons_of_mem p hq)) hj hn
        exact ⟨by omega, q, List.mem_cons_of_mem p hq, hd⟩

/-- And the next one is far behind. -/
theorem spaced_run {least : Nat} (hst : st.Waits) (hpos : 0 < least) (hgap : ∀ p ∈ frames, least ≤ p.2)
    {j : Nat} (hjk : j < k) (hk : k ≤ (lineOf frames).length)
    (hj : (run MacRcv.cycle st ((lineOf frames).take j)).elDv = true)
    (hn : (run MacRcv.cycle st ((lineOf frames).take k)).elDv = true) : j + (least + 110) ≤ k := by
  induction frames generalizing st j k with
  | nil =>
      rw [lineOf, List.flatMap_nil, List.take_nil, run_nil, hst.2.2] at hn
      cases hn
  | cons p frames ih =>
      have hwaits : (run MacRcv.cycle st (p.1.block p.2)).Waits :=
        waits_block (Nat.lt_of_lt_of_le hpos (hgap p List.mem_cons_self))
      have hrest : ∀ q ∈ frames, least ≤ q.2 := fun q hq => hgap q (List.mem_cons_of_mem p hq)
      have hjline : j ≤ (lineOf (p :: frames)).length := Nat.le_trans (Nat.le_of_lt hjk) hk
      rcases take_line_cases hk with ⟨hkle, htake⟩ | ⟨k', -, hk', rfl, htake⟩
      · -- both in the first block
        rw [htake, notified_block hst hkle] at hn
        rcases take_line_cases hjline with ⟨hjle, htake'⟩ | ⟨j', -, -, rfl, -⟩
        · rw [htake', notified_block hst hjle] at hj
          omega
        · omega
      · rw [htake, run_append] at hn
        rcases take_line_cases hjline with ⟨hjle, htake'⟩ | ⟨j', -, hj', rfl, htake'⟩
        · rw [htake', notified_block hst hjle, LineFrame.mark] at hj
          obtain ⟨hge, -⟩ := notified_run hwaits (fun q hq => Nat.lt_of_lt_of_le hpos (hrest q hq)) hk' hn
          have hleast := hgap p List.mem_cons_self
          rw [LineFrame.length_block]
          omega
        · rw [htake', run_append] at hj
          have hih := ih hwaits hrest (show j' < k' by omega) hk' hj hn
          omega

end Line

/-! ## On the whole line -/

section Whole
variable {line : List RxIn} {k : Nat}

theorem rxAfter_eq_run (hk : k ≤ line.length) : rxAfter line k = run MacRcv.cycle .init (line.take k) := by
  induction k with
  | zero => rw [List.take_zero]; rfl
  | succ k ih =>
      have hget : nibbleOn line k = line.get ⟨k, hk⟩ := List.getD_eq_getElem line _ hk
      rw [List.take_succ_eq_append_getElem hk, run_append, ← ih (Nat.le_of_succ_le hk)]
      exact congrArg (rxAfter line k).cycle hget

/-- Nothing is notified behind the line. -/
theorem NotifiedAt.le (h : NotifiedAt line k) : k ≤ line.length := by
  by_contra hlt
  obtain ⟨j, rfl⟩ : ∃ j, k = j + 1 := ⟨k - 1, by omega⟩
  have hsilent : nibbleOn line j = ⟨false, 0x0⟩ := List.getD_eq_default _ _ (by omega)
  rw [NotifiedAt, show rxAfter line (j + 1) = (rxAfter line j).cycle (nibbleOn line j) from rfl, hsilent] at h
  cases h

variable {frames : List (LineFrame × Nat)}

theorem init_waits : MacRcv.init.Waits := ⟨rfl, rfl, rfl⟩

/-- What is notified is a frame of the line. -/
theorem notified_line (hgap : ∀ p ∈ frames, 0 < p.2) (h : NotifiedAt (lineOf frames) k) :
    ∃ p ∈ frames, (rxAfter (lineOf frames) k).d = p.1.frame.rcvData := by
  have hk := h.le
  rw [NotifiedAt, rxAfter_eq_run hk] at h
  rw [rxAfter_eq_run hk]
  exact (notified_run init_waits hgap hk h).2

/-- Two notifications are a gap and a hundred and ten nibbles apart. -/
theorem spaced_line {least : Nat} (hpos : 0 < least) (hgap : ∀ p ∈ frames, least ≤ p.2) {j : Nat} (hjk : j < k)
    (hj : NotifiedAt (lineOf frames) j) (hn : NotifiedAt (lineOf frames) k) : j + (least + 110) ≤ k := by
  have hk := hn.le
  rw [NotifiedAt, rxAfter_eq_run (Nat.le_trans (Nat.le_of_lt hjk) hk)] at hj
  rw [NotifiedAt, rxAfter_eq_run hk] at hn
  exact spaced_run init_waits hpos hgap hjk hk hj hn

end Whole

end DnsAdtm.Hw
