/-
# `Hw.Loopback` — what is sent, received

`mac_snd` into `mac_rcv`.  The frame sent for a packet is a `UdpFrame` of at most 128 bytes of
payload (`SndData.frame`), followed by the padding and the check sequence: 8 to 42 nibbles,
too few for another delimiter and header.  So the receiver notifies exactly once, and with the
fields of the packet.

    wire_frame        the nibbles of a frame sent
    notified_once     one notification in a burst
    send_receive      through both machines
-/
import DnsAdtm.Hw.HeaderFields
import DnsAdtm.Hw.MacRcvReject

namespace DnsAdtm.Hw

open Machine

variable {n : Nat} {d : SndData}

/-! ## The frame sent -/

/-- The frame sent for `d`, as a packet of `n` bytes. -/
def SndData.frame (d : SndData) (n : Nat) (h : 1 ≤ n ∧ n ≤ 128) : UdpFrame where
  dstMAC := bytesOf d.dstMAC 6
  srcMAC := bytesOf d.srcMAC 6
  ihl := 5
  ihl_range := ihl_five
  dscpEcn := 0
  ipLength := bytesOf d.ipLength 2
  ipID := .replicate 2 0
  ttl := d.ipTTL
  ipChecksum := bytesOf d.ipChecksum 2
  srcIP := bytesOf d.srcIP 4
  dstIP := bytesOf d.dstIP 4
  options := .replicate _ 0
  srcPort := bytesOf d.srcPort 2
  dstPort := bytesOf d.dstPort 2
  udpChecksum := bytesOf d.udpChecksum 2
  payload := bytesLE d.dnsPkt n
  payload_range := by
    rw [length_bytesLE]
    omega

/-- The first bytes of a longer byte list. -/
theorem bytesLE_split {w : Nat} (v : BitVec w) {n k : Nat} (h : n ≤ k) :
    bytesLE v k = bytesLE v n ++ (bytesLE v k).drop n := by
  have htake : (bytesLE v k).take n = bytesLE v n := by
    rw [bytesLE, ← List.map_take, List.take_range, Nat.min_eq_left h]
    rfl
  rw [← htake, List.take_append_drop]

/-- The nibbles of a frame sent: a packet, and what is behind it. -/
theorem wire_frame (h : 1 ≤ n ∧ n ≤ 128) (hudp : d.udpLength = byteSwap (BitVec.ofNat 16 (8 + n)))
    (hcnt : (max d.dnsPktCnt 140 + 4) / 8 = max n 18) : ∃ pad : List (BitVec 8), pad.length = 18 - n ∧
      MacRcv.delimiter ++ nibbles d.bytes = nibbles (d.frame n h).bytes ++ nibbles pad := by
  obtain ⟨pad, hpad⟩ : ∃ pad, pad = (bytesLE d.dnsPkt (max n 18)).drop n := ⟨_, rfl⟩
  have hsplit := bytesLE_split d.dnsPkt (Nat.le_max_left n 18)
  rw [← hpad] at hsplit
  refine ⟨pad, ?_, ?_⟩
  · rw [hpad, List.length_drop, length_bytesLE]
    omega
  · have hdelimiter : MacRcv.delimiter = nibbles (List.replicate 7 0x55 ++ [0xd5]) := rfl
    have hlength : bytesLE d.udpLength 2 =
        [(BitVec.ofNat 16 (8 + n)).extractLsb' 8 8, (BitVec.ofNat 16 (8 + n)).extractLsb' 0 8] := by
      rw [hudp, bytesLE_byteSwap]
    have httl : bytesLE d.ipTTL 1 = [d.ipTTL] := by
      show [d.ipTTL.extractLsb' (8 * 0) 8] = _
      simp
    have hudpLength : (d.frame n h).udpLength = BitVec.ofNat 16 (8 + n) := by
      rw [UdpFrame.udpLength]
      show BitVec.ofNat 16 (8 + (bytesLE d.dnsPkt n).length) = _
      rw [length_bytesLE]
    have hid : (Vector.replicate 2 (0 : BitVec 8)).toList = [0x00, 0x00] := rfl
    have hoptions : (Vector.replicate (4 * (5 - 5)) (0 : BitVec 8)).toList = [] := rfl
    have hversion : BitVec.ofNat 8 (0x40 + 5) = 0x45 := rfl
    have hbytes : List.replicate 7 0x55 ++ [0xd5] ++ d.bytes =
        (d.frame n h).bytes ++ pad := by
      rw [SndData.bytes, hcnt, hsplit, SndData.header, hlength,
        httl, UdpFrame.bytes, UdpFrame.udpHeader, hudpLength]
      simp only [UdpFrame.ethernetHeader, UdpFrame.ipHeader, SndData.frame, toList_bytesOf, hid, hoptions,
        hversion, List.append_assoc, List.cons_append, List.nil_append]
    rw [hdelimiter, ← nibbles_append, hbytes, nibbles_append]

/-- The nibbles of the total length, in the order of the wire. -/
theorem nibbles_nibbleSwap (v : BitVec 16) : nibbles (bytesLE (nibbleSwap v) 2) =
    [v.extractLsb' 12 4, v.extractLsb' 8 4, v.extractLsb' 4 4, v.extractLsb' 0 4] := by
  have hnibble (i : Nat) (hi : i < 4) :
      (nibbleSwap v).extractLsb' (4 * i) 4 = v.extractLsb' (12 - 4 * i) 4 := by
    apply BitVec.eq_of_getLsbD_eq
    intro j hj
    simp only [BitVec.getLsbD_extractLsb', nibbleSwap, BitVec.getLsbD_append, getLsbD_downto]
    interval_cases i <;> interval_cases j <;> rfl
  rw [nibbles_bytesLE]
  show [(nibbleSwap v).extractLsb' (4 * 0) 4, (nibbleSwap v).extractLsb' (4 * 1) 4,
    (nibbleSwap v).extractLsb' (4 * 2) 4, (nibbleSwap v).extractLsb' (4 * 3) 4] = _
  rw [hnibble 0 (by decide), hnibble 1 (by decide), hnibble 2 (by decide), hnibble 3 (by decide)]

/-- What the receiver makes of the frame. -/
theorem rcvData_frame (h : 1 ≤ n ∧ n ≤ 128) {v : BitVec 16} (hlen : d.ipLength = nibbleSwap v) :
    (d.frame n h).rcvData =
      { srcMAC := d.srcMAC, dstMAC := d.dstMAC, srcIP := d.srcIP, dstIP := d.dstIP,
        ipHeaderLength := 5, ipLength := v.toNat, srcPort := d.srcPort, dstPort := d.dstPort,
        dnsLength := n, dnsPkt := ofBytesLE 1024 (bytesLE d.dnsPkt n) } := by
  have hfield {k : Nat} (u : BitVec (8 * k)) : ofBytesLE (8 * k) (bytesLE u k) = u := by
    rw [ofBytesLE_bytesLE u (Nat.le_refl _), BitVec.extractLsb'_eq_self]
  have hipLength : (nibbles (bytesLE d.ipLength 2)).foldl (fun n x => n * 16 + x.toNat) 0 = v.toNat := by
    have hv := v.isLt
    rw [hlen, nibbles_nibbleSwap]
    simp only [List.foldl_cons, List.foldl_nil, BitVec.extractLsb'_toNat, Nat.shiftRight_eq_div_pow]
    omega
  have hpayload : (bytesLE d.dnsPkt n).take 128 = bytesLE d.dnsPkt n :=
    List.take_of_length_le (by rw [length_bytesLE]; exact h.2)
  simp only [UdpFrame.rcvData, SndData.frame, toList_bytesOf, hpayload, hipLength, length_bytesLE]
  rw [hfield (k := 6) d.srcMAC, hfield (k := 6) d.dstMAC, hfield (k := 4) d.srcIP, hfield (k := 4) d.dstIP,
    hfield (k := 2) d.srcPort, hfield (k := 2) d.dstPort]

/-! ## One notification -/

namespace MacRcv

variable {st : MacRcv}

/-- A delimiter and a header are 64 nibbles. -/
theorem Passed.length {ns : List (BitVec 4)} (h : Passed ns) : 64 ≤ ns.length := by
  obtain ⟨pre, frame, rfl, hlen, -⟩ := h
  rw [List.length_append, List.length_append, show delimiter.length = 16 from rfl]
  omega

/-- `el_dv` comes with the first nibble behind the frame, and with no other when too few follow
for another header. -/
theorem notified_once (fr : UdpFrame) (x : BitVec 4) {rest : List (BitVec 4)} (hne : rest ≠ [])
    (hrest : rest.length ≤ 64) (hs : st.s = .preamble) (hc : st.c = 0) (hlow : st.elDv = false)
    (k : Nat) : (run cycle st (burst ((nibbles fr.bytes ++ x :: rest).take k))).elDv = true ↔
      k = (nibbles fr.bytes).length + 1 := by
  obtain ⟨ipc, udpc, hframe⟩ := frame_reads fr hs hc
  rcases Nat.lt_or_ge (nibbles fr.bytes).length k with hlt | hge
  · -- behind the frame
    obtain ⟨j, rfl⟩ : ∃ j, k = (nibbles fr.bytes).length + (j + 1) := ⟨k - (nibbles fr.bytes).length - 1, by omega⟩
    rw [List.take_length_add_append, List.take_succ_cons, burst_append, run_append, hframe.run_eq]
    show (run cycle { s := .preamble, c := 0, ipc, udpc, d := fr.rcvData, elDv := true }
      (burst (rest.take j))).elDv = true ↔ _
    constructor
    · intro hhigh
      rcases Nat.eq_zero_or_pos j with rfl | hpos
      · rfl
      · have htake : rest.take j ≠ [] := by
          intro hnil
          rcases List.take_eq_nil_iff.mp hnil with h | h
          · omega
          · exact hne h
        obtain ⟨ms, y, hms, hpassed⟩ := burst_passed rfl rfl htake hhigh
        have hlen := congrArg List.length hms
        have hpassed := hpassed.length
        rw [List.length_append, List.length_singleton, List.length_take] at hlen
        omega
    · intro hj
      obtain rfl : j = 0 := by omega
      rfl
  · -- within it
    rw [List.take_append_of_le_length hge]
    rcases Nat.eq_zero_or_pos k with rfl | hpos
    · rw [List.take_zero]
      exact ⟨fun h => absurd (hlow.symm.trans h) nofun, fun h => by omega⟩
    · rw [hframe.low hpos hge]
      exact ⟨nofun, fun h => by omega⟩

end MacRcv

/-! ## Through both machines -/

/-- **Transmit, then receive.**  For every packet `coreout` is given in `Idle` with a payload:
what `mac_snd` sends while `E_TX_EN` is up, behind a gap, makes `mac_rcv` notify exactly once,
with the fields of the packet sent and the total length as `coreout` was given it. -/
theorem send_receive (gReplyMac : BitVec 48) (st : Coreout) (offered : Nat → OutIn)
    (hidle : st.s = .idle) (hdv : (offered 0).rcvDataDv = true)
    (hpos : 1 ≤ (offered 0).rcvData.dnsLength)
    (hipLength : (offered 0).rcvData.ipLength ≤ 65535) :
    let d := (trace (Coreout.cycle gReplyMac) st offered 8).sd
    ∃ ns : List (BitVec 4),
      (∀ (snd : MacSnd) (inp : Nat → SndIn), snd.s = .idle → (inp 0).elSndEn = true →
        (inp 1).elData = d →
        (List.range (2 + ns.length + 24)).map (fun k => MacSnd.out (trace MacSnd.cycle snd inp (k + 1))) =
          List.replicate 2 (false, 0x0) ++ MacSnd.wire ns ++ List.replicate 24 (false, 0x0)) ∧
      ∀ (rcv : MacRcv) (rxd : BitVec 4), ∃ m ≤ ns.length,
        (∀ k, (run MacRcv.cycle (rcv.cycle ⟨false, rxd⟩) (MacRcv.burst (ns.take k))).elDv = true ↔ k = m) ∧
        (run MacRcv.cycle (rcv.cycle ⟨false, rxd⟩) (MacRcv.burst (ns.take m))).d =
          { srcMAC := d.srcMAC, dstMAC := d.dstMAC, srcIP := d.srcIP, dstIP := d.dstIP,
            ipHeaderLength := 5, ipLength := (offered 0).rcvData.ipLength,
            srcPort := d.srcPort, dstPort := d.dstPort,
            dnsLength := (byteSwap d.udpLength).toNat - 8,
            dnsPkt := ofBytesLE 1024 (bytesLE d.dnsPkt ((byteSwap d.udpLength).toNat - 8)) } := by
  intro d
  obtain ⟨rd, hrd⟩ : ∃ rd, rd = (offered 0).rcvData := ⟨_, rfl⟩
  obtain ⟨n, hn⟩ : ∃ n, n = min rd.dnsLength 128 := ⟨_, rfl⟩
  rw [← hrd] at hpos hipLength ⊢
  have hd : d = sndOf gReplyMac rd := by
    rw [hrd]
    exact (coreout_run gReplyMac hidle offered hdv).2.2.2
  clear_value d
  have hrange : 1 ≤ n ∧ n ≤ 128 := by omega
  have hudp : d.udpLength = byteSwap (BitVec.ofNat 16 (8 + n)) := by
    rw [hd, hn, ← sndLength_eq]
    rfl
  have hn' : (byteSwap d.udpLength).toNat - 8 = n := by
    rw [hudp, byteSwap_byteSwap, BitVec.toNat_ofNat]
    omega
  have hcnt : (max d.dnsPktCnt 140 + 4) / 8 = max n 18 := by rw [hd, hn, sndOf_payload hpos]
  have hlen : d.ipLength = nibbleSwap (BitVec.ofNat 16 rd.ipLength) := by
    rw [hd]
    rfl
  have hback : (BitVec.ofNat 16 rd.ipLength).toNat = rd.ipLength := by
    rw [BitVec.toNat_ofNat]
    omega
  obtain ⟨fcs, hfcs, hemitted⟩ := MacSnd.emitted_bytes (d := d) (by rw [hd]; exact sndOf_cnt _ _)
  obtain ⟨pad, hpad, hwire⟩ := wire_frame hrange hudp hcnt
  rw [hwire] at hemitted
  -- behind the packet there are the padding and the check sequence
  obtain ⟨x, rest, hrest⟩ : ∃ x rest, nibbles pad ++ fcs = x :: rest := by
    cases hcons : nibbles pad ++ fcs with
    | nil =>
        have := congrArg List.length hcons
        rw [List.length_append, hfcs, List.length_nil] at this
        omega
    | cons x rest => exact ⟨x, rest, rfl⟩
  have hrestLength : rest.length + 1 = 2 * (18 - n) + 8 := by
    have := congrArg List.length hrest
    rw [List.length_append, length_nibbles, hpad, hfcs, List.length_cons] at this
    omega
  refine ⟨nibbles (d.frame n hrange).bytes ++ x :: rest, ?_, ?_⟩
  · intro snd inp hs hen hdata
    have hbytes : 16 + 2 * d.bytes.length + 8 =
        (nibbles (d.frame n hrange).bytes ++ x :: rest).length := by
      have := congrArg List.length hwire
      rw [List.length_append, length_nibbles, show MacRcv.delimiter.length = 16 from rfl] at this
      rw [← hrest, ← List.append_assoc, List.length_append, hfcs, ← this]
    have h := hemitted snd inp hs hen hdata
    rw [List.append_assoc (nibbles _), hrest] at h
    rw [← hbytes, show 2 + (16 + 2 * d.bytes.length + 8) + 24 = 2 + 16 + 2 * d.bytes.length + 8 + 24 by omega]
    exact h
  · intro rcv rxd
    refine ⟨(nibbles (d.frame n hrange).bytes).length + 1, ?_, ?_, ?_⟩
    · rw [List.length_append, List.length_cons]
      omega
    · refine MacRcv.notified_once _ x ?_ (by omega) rfl rfl rfl
      rintro rfl
      rw [List.length_nil] at hrestLength
      omega
    · rw [List.take_length_add_append, List.take_succ_cons, List.take_zero,
        (MacRcv.frame_notified (d.frame n hrange) x rfl rfl).2, rcvData_frame hrange hlen, hn', hback]

/-- A packet of 256 bytes comes back with 128 of payload. -/
theorem send_receive_long : ∃ (ns : List (BitVec 4)) (m : Nat),
    (run MacRcv.cycle (MacRcv.init.cycle ⟨false, 0x0⟩) (MacRcv.burst (ns.take m))).d.dnsLength =
      (byteSwap (trace (Coreout.cycle replyMac) .init (fun _ => ⟨longPacket, true⟩) 8).sd.udpLength).toNat - 8 := by
  obtain ⟨ns, -, hrcv⟩ := send_receive replyMac .init (fun _ => ⟨longPacket, true⟩) rfl rfl (by decide)
    (by decide)
  obtain ⟨m, -, -, hd⟩ := hrcv .init 0x0
  exact ⟨ns, m, congrArg RcvData.dnsLength hd⟩

end DnsAdtm.Hw
