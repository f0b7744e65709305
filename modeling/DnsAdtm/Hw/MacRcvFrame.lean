/-
# `Hw.MacRcvFrame` — what `mac_rcv` makes of a frame

A frame is given by its header fields and payload (`UdpFrame`), the wire by `UdpFrame.bytes`,
and what the receiver is to keep of it by `UdpFrame.rcvData`: a function of the frame alone,
so nothing of the receiver's state before the frame is in it.

    ethernet_reads, ip_reads, udp_reads    the three headers
    frame_reads                            the whole frame, up to its last payload nibble
    mac_rcv_decodes                        after any history that ends with `E_RX_DV = '0'`
-/
import DnsAdtm.Hw.MacRcvRun

namespace DnsAdtm.Hw

open Machine

/-- A UDP packet in an Ethernet frame that passes the header checks. -/
structure UdpFrame where
  dstMAC : Vector (BitVec 8) 6
  srcMAC : Vector (BitVec 8) 6
  ihl : Nat
  ihl_range : 5 ≤ ihl ∧ ihl ≤ 15
  dscpEcn : BitVec 8
  ipLength : Vector (BitVec 8) 2
  ipID : Vector (BitVec 8) 2
  ttl : BitVec 8
  ipChecksum : Vector (BitVec 8) 2
  srcIP : Vector (BitVec 8) 4
  dstIP : Vector (BitVec 8) 4
  options : Vector (BitVec 8) (4 * (ihl - 5))
  srcPort : Vector (BitVec 8) 2
  dstPort : Vector (BitVec 8) 2
  udpChecksum : Vector (BitVec 8) 2
  payload : List (BitVec 8)
  payload_range : 1 ≤ payload.length ∧ payload.length ≤ 1472

/-- A header without options is in the range. -/
theorem ihl_five : 5 ≤ 5 ∧ 5 ≤ 15 := by decide

/-- Port 53 on the wire. -/
def dnsPort : Vector (BitVec 8) 2 := #v[0x00, 0x35]

namespace UdpFrame

variable (f : UdpFrame)

def ethernetHeader : List (BitVec 8) :=
  f.dstMAC.toList ++ f.srcMAC.toList ++ [0x08, 0x00]

/-- Version 4, zero flags and fragment offset, protocol 17. -/
def ipHeader : List (BitVec 8) :=
  [BitVec.ofNat 8 (0x40 + f.ihl), f.dscpEcn] ++ f.ipLength.toList ++ f.ipID.toList ++ [0x00, 0x00] ++
    [f.ttl, 0x11] ++ f.ipChecksum.toList ++ f.srcIP.toList ++ f.dstIP.toList ++ f.options.toList

/-- The UDP length, high byte first. -/
def udpLength : BitVec 16 := BitVec.ofNat 16 (8 + f.payload.length)

def udpHeader : List (BitVec 8) :=
  f.srcPort.toList ++ f.dstPort.toList ++
    [f.udpLength.extractLsb' 8 8, f.udpLength.extractLsb' 0 8] ++ f.udpChecksum.toList

/-- The frame on the wire: seven bytes of preamble, the delimiter, the headers, the payload. -/
def bytes : List (BitVec 8) :=
  List.replicate 7 0x55 ++ [0xd5] ++ f.ethernetHeader ++ f.ipHeader ++ f.udpHeader ++ f.payload

/-- What is kept of it.  The nibbles of the IP length are taken in arrival order. -/
def rcvData : RcvData where
  srcMAC := ofBytesLE 48 f.srcMAC.toList
  dstMAC := ofBytesLE 48 f.dstMAC.toList
  srcIP := ofBytesLE 32 f.srcIP.toList
  dstIP := ofBytesLE 32 f.dstIP.toList
  ipHeaderLength := f.ihl
  ipLength := (nibbles f.ipLength.toList).foldl (fun n x => n * 16 + x.toNat) 0
  srcPort := ofBytesLE 16 f.srcPort.toList
  dstPort := ofBytesLE 16 f.dstPort.toList
  dnsLength := f.payload.length
  dnsPkt := ofBytesLE 1024 (f.payload.take 128)

end UdpFrame

namespace MacRcv

variable {st : MacRcv}

theorem Store.reads_bytes {w : Nat} (S : Store w) (bytes : List (BitVec 8)) (hs : st.s = S.s)
    (hc : st.c = 0) (hlen : w = 8 * bytes.length) (hw : 0 < w) :
    Reads st (nibbles bytes)
      (S.exit { st with d := S.set (ofBytesLE w bytes) st.d, c := 0, elDv := false }) := by
  have hval : field (nibbleAt (nibbles bytes)) 0 w = ofBytesLE w bytes :=
    field_congr fun i _ => nibbleAt_nibbles bytes (0 + i)
  rw [← hval]
  exact S.reads _ hs hc (by simp; omega) (List.ne_nil_of_length_pos (by simp; omega))

theorem etherType_reads (hs : st.s = .etherType) (hc : st.c = 0) :
    Reads st (nibbles [0x08, 0x00])
      { st with s := .ipIHL, c := 0, d.ipHeaderLength := 0, elDv := false } := by
  simp [nibble, hs, hc]

theorem ethernet_reads (f : UdpFrame) (hs : st.s = .etherMACDST) (hc : st.c = 0) :
    Reads st (nibbles f.ethernetHeader) { st with
      s := .ipIHL
      c := 0
      d.dstMAC := f.rcvData.dstMAC
      d.srcMAC := f.rcvData.srcMAC
      d.ipHeaderLength := 0
      elDv := false } := by
  rw [UdpFrame.ethernetHeader, nibbles_append, nibbles_append, List.append_assoc]
  refine (dstMACStore.reads_bytes _ hs hc (by simp) (by omega)).append ?_
  refine (srcMACStore.reads_bytes _ rfl rfl (by simp) (by omega)).append ?_
  exact (etherType_reads rfl rfl).trans_eq rfl

/-- IHL and version. -/
theorem ipVersion_reads {ihl : Nat} (hlo : 5 ≤ ihl) (hhi : ihl ≤ 15) (hs : st.s = .ipIHL) :
    Reads st (nibbles [BitVec.ofNat 8 (0x40 + ihl)])
      { st with s := .ipDSCPECN, c := 0, d.ipHeaderLength := ihl, elDv := false } := by
  have hlow : (BitVec.ofNat 8 (0x40 + ihl)).extractLsb' 0 4 = BitVec.ofNat 4 ihl := by
    interval_cases ihl <;> rfl
  have hhigh : (BitVec.ofNat 8 (0x40 + ihl)).extractLsb' 4 4 = 0x4 := by
    interval_cases ihl <;> rfl
  have hle : (0x5 : BitVec 4) ≤ BitVec.ofNat 4 ihl := by interval_cases ihl <;> decide
  have hval : (BitVec.ofNat 4 ihl).toNat = ihl := by
    rw [BitVec.toNat_ofNat]
    omega
  rw [nibbles_cons, hlow, hhigh]
  generalize BitVec.ofNat 4 ihl = x at hle hval
  have hstep : st.nibble x =
      { st with s := .ipVersion, c := 0, d.ipHeaderLength := ihl, elDv := false } := by
    simp only [nibble, hs]
    rw [if_pos hle, hval]
  refine .cons (by rw [hstep]) ?_
  rw [hstep]
  simp [nibble]

/-- The IP length; the four nibbles fit the counter. -/
theorem ipLength_reads (bytes : Vector (BitVec 8) 2) (hs : st.s = .ipLength) (hc : st.c = 0)
    (hipc : st.ipc = 0) :
    Reads st (nibbles bytes.toList) { st with
      s := .ipID
      c := 0
      ipc := (nibbles bytes.toList).foldl (fun n x => n * 16 + x.toNat) 0
      elDv := false } := by
  obtain ⟨a, b, hab⟩ : ∃ a b, bytes.toList = [a, b] :=
    List.length_eq_two.mp bytes.length_toList
  rw [hab, nibbles_cons, nibbles_cons, nibbles_nil]
  have hcut (n : Nat) (x : BitVec 4) (hn : n < 4096) :
      toRange ((n : Int) * 16 + (x.toNat : Int)) = n * 16 + x.toNat := by
    have hx := x.isLt
    have := toRange_natCast (n := n * 16 + x.toNat) (by omega)
    simpa using this
  generalize a.extractLsb' 0 4 = n₀
  generalize a.extractLsb' 4 4 = n₁
  generalize b.extractLsb' 0 4 = n₂
  generalize b.extractLsb' 4 4 = n₃
  have h₀ := n₀.isLt
  have h₁ := n₁.isLt
  have h₂ := n₂.isLt
  have c₀ := hcut 0 n₀ (by omega)
  have c₁ := hcut (0 * 16 + n₀.toNat) n₁ (by omega)
  have c₂ := hcut ((0 * 16 + n₀.toNat) * 16 + n₁.toNat) n₂ (by omega)
  have c₃ := hcut (((0 * 16 + n₀.toNat) * 16 + n₁.toNat) * 16 + n₂.toNat) n₃ (by omega)
  simp [nibble, hs, hc, hipc] at c₀ c₁ c₂ c₃ ⊢
  simp [c₀, c₁, c₂, c₃]

theorem ipFlags_reads (hs : st.s = .ipFlagsFragment) (hc : st.c = 0) :
    Reads st (nibbles [0x00, 0x00]) { st with s := .ipTTL, c := 0, elDv := false } := by
  simp [nibble, hs, hc]

theorem ipProtocol_reads (hs : st.s = .ipProtocol) (hc : st.c = 0) :
    Reads st (nibbles [0x11]) { st with s := .ipChecksum, c := 0, elDv := false } := by
  simp [nibble, hs, hc]

/-- The option words, if there are any. -/
theorem options_reads (f : UdpFrame) (hs : st.s = if f.ihl = 5 then .udpPortSRC else .ipOptions)
    (hc : st.c = 0) (hihl : st.d.ipHeaderLength = f.ihl) (hlow : st.elDv = false) :
    Reads st (nibbles f.options.toList) { st with s := .udpPortSRC, c := 0, elDv := false } := by
  have hrange := f.ihl_range
  rcases Nat.lt_or_ge 5 f.ihl with hlt | hge
  · rw [if_neg (by omega)] at hs
    exact optionsSkip.reads _ hs (show 5 < st.d.ipHeaderLength by omega) hc (by
      simp [optionsSkip, hihl]
      omega)
  · have hnil : f.options.toList = [] := List.eq_nil_of_length_eq_zero (by simp; omega)
    rw [if_pos (by omega)] at hs
    rw [hnil]
    exact Reads.nil.trans_eq (by rw [← hs, ← hc, ← hlow])

theorem ip_reads (f : UdpFrame) (hs : st.s = .ipIHL) :
    Reads st (nibbles f.ipHeader) { st with
      s := .udpPortSRC
      c := 0
      ipc := f.rcvData.ipLength
      d.ipHeaderLength := f.ihl
      d.ipLength := f.rcvData.ipLength
      d.srcIP := f.rcvData.srcIP
      d.dstIP := f.rcvData.dstIP
      elDv := false } := by
  rw [UdpFrame.ipHeader, show [BitVec.ofNat 8 (0x40 + f.ihl), f.dscpEcn] =
    [BitVec.ofNat 8 (0x40 + f.ihl)] ++ [f.dscpEcn] from rfl, show [f.ttl, 0x11] = [f.ttl] ++ [0x11] from rfl]
  simp only [nibbles_append, List.append_assoc]
  have hversion := ipVersion_reads f.ihl_range.1 f.ihl_range.2 hs
  refine hversion.append ((dscpSkip.reads _ rfl trivial rfl (by simp [dscpSkip])).append ?_)
  refine (ipLength_reads f.ipLength rfl rfl rfl).append ?_
  refine (idSkip.reads _ rfl trivial rfl (by simp [idSkip])).append ?_
  refine (ipFlags_reads rfl rfl).append ?_
  refine (ttlSkip.reads _ rfl trivial rfl (by simp [ttlSkip])).append ?_
  refine (ipProtocol_reads rfl rfl).append ?_
  refine (checksumSkip.reads _ rfl trivial rfl (by simp [checksumSkip])).append ?_
  refine (srcIPStore.reads_bytes _ rfl rfl (by simp) (by omega)).append ?_
  refine (dstIPStore.reads_bytes _ rfl rfl (by simp) (by omega)).append ?_
  exact (options_reads f rfl rfl rfl rfl).trans_eq rfl

/-- A 16-bit field from its nibbles, low nibble of the high byte first. -/
theorem toNat_of_nibbles (v : BitVec 16) :
    v.toNat = (((v.extractLsb' 8 8).extractLsb' 0 4).toNat +
      ((v.extractLsb' 8 8).extractLsb' 4 4).toNat * 16) * 256 +
      ((v.extractLsb' 0 8).extractLsb' 0 4).toNat +
      ((v.extractLsb' 0 8).extractLsb' 4 4).toNat * 16 := by
  have hlt := v.isLt
  simp only [BitVec.extractLsb'_toNat, Nat.shiftRight_eq_div_pow]
  omega

/-- The first three nibbles of the UDP length. -/
theorem udpLength_reads_three (n₀ n₁ n₂ : BitVec 4) (hs : st.s = .udpLength) (hc : st.c = 0)
    (hudpc : st.udpc = 0) :
    Reads st [n₀, n₁, n₂]
      { st with c := 3, udpc := (n₀.toNat + n₁.toNat * 16) * 256 + n₂.toNat, elDv := false } := by
  have h₀ := n₀.isLt
  have h₁ := n₁.isLt
  have h₂ := n₂.isLt
  have c₀ : toRange n₀.toNat = n₀.toNat := toRange_natCast (by omega)
  have c₁ : toRange (((n₀.toNat : Int) + n₁.toNat * 16) * 256) = (n₀.toNat + n₁.toNat * 16) * 256 := by
    rw [toRange]
    omega
  have c₂ : toRange (((n₀.toNat : Int) + n₁.toNat * 16) * 256 + n₂.toNat) =
      (n₀.toNat + n₁.toNat * 16) * 256 + n₂.toNat := by
    rw [toRange]
    omega
  simp [nibble, hs, hc, hudpc, c₀, c₁, c₂]

/-- The UDP length less the header, cut to the range of the register. -/
theorem udpLength_reads (v : BitVec 16) (hs : st.s = .udpLength) (hc : st.c = 0)
    (hudpc : st.udpc = 0) :
    Reads st (nibbles [v.extractLsb' 8 8, v.extractLsb' 0 8])
      { st with s := .udpChecksum, c := 0, udpc := toRange (v.toNat - 8), elDv := false } := by
  rw [nibbles_cons, nibbles_cons, nibbles_nil]
  have hsum := toNat_of_nibbles v
  generalize (v.extractLsb' 8 8).extractLsb' 0 4 = n₀ at hsum ⊢
  generalize (v.extractLsb' 8 8).extractLsb' 4 4 = n₁ at hsum ⊢
  generalize (v.extractLsb' 0 8).extractLsb' 0 4 = n₂ at hsum ⊢
  generalize (v.extractLsb' 0 8).extractLsb' 4 4 = n₃ at hsum ⊢
  refine (udpLength_reads_three n₀ n₁ n₂ hs hc hudpc).append (Reads.one ?_ rfl)
  rw [hsum]
  simp [nibble, hs]

/-- The two ports. -/
theorem ports_reads (f : UdpFrame) (hs : st.s = .udpPortSRC) (hc : st.c = 0) :
    Reads st (nibbles (f.srcPort.toList ++ f.dstPort.toList)) { st with
      s := .udpLength
      c := 0
      udpc := 0
      d.srcPort := f.rcvData.srcPort
      d.dstPort := f.rcvData.dstPort
      elDv := false } := by
  rw [nibbles_append]
  refine (srcPortStore.reads_bytes _ hs hc (by simp) (by omega)).append ?_
  exact (dstPortStore.reads_bytes _ rfl rfl (by simp) (by omega)).trans_eq rfl

theorem udp_reads (f : UdpFrame) (hs : st.s = .udpPortSRC) (hc : st.c = 0) :
    Reads st (nibbles f.udpHeader) { st with
      s := .dnsMsgRecord
      c := 0
      udpc := f.payload.length * 8 - 4
      d.srcPort := f.rcvData.srcPort
      d.dstPort := f.rcvData.dstPort
      d.dnsLength := f.payload.length
      d.dnsPkt := 0
      elDv := false } := by
  have hrange := f.payload_range
  have hlength : f.udpLength.toNat = 8 + f.payload.length := by
    rw [UdpFrame.udpLength, BitVec.toNat_ofNat, Nat.mod_eq_of_lt (by omega)]
  have hless : toRange (f.udpLength.toNat - 8) = f.payload.length := by
    rw [toRange]
    omega
  have hbits : toRange (f.payload.length * 8 - 4) = f.payload.length * 8 - 4 := by
    rw [toRange]
    omega
  rw [UdpFrame.udpHeader, nibbles_append, nibbles_append, List.append_assoc]
  refine (ports_reads f hs hc).append ?_
  refine (udpLength_reads f.udpLength rfl rfl rfl).append ?_
  refine (udpChecksumSkip.reads _ rfl trivial rfl (by simp [udpChecksumSkip])).trans_eq ?_
  rw [hless, ← hbits]
  rfl

/-- A frame from the first nibble of its preamble to the last of its payload. -/
theorem frame_reads (f : UdpFrame) (hs : st.s = .preamble) (hc : st.c = 0) :
    ∃ ipc udpc, Reads st (nibbles f.bytes)
      { s := .notify, c := 0, ipc, udpc, d := f.rcvData, elDv := false } := by
  have hrange := f.payload_range
  refine ⟨f.rcvData.ipLength, f.payload.length * 8 - 4, ?_⟩
  have hwire : nibbles f.bytes = delimiter ++ (nibbles f.ethernetHeader ++ (nibbles f.ipHeader ++
      (nibbles f.udpHeader ++ nibbles f.payload))) := by
    simp only [UdpFrame.bytes, nibbles_append, List.append_assoc]
    rfl
  have hpkt : field (nibbleAt (nibbles f.payload)) 0 1024 = f.rcvData.dnsPkt := by
    refine field_congr fun i hi => ?_
    rw [nibbleAt_nibbles, bitAt, bitAt, List.getD_eq_getElem?_getD, List.getD_eq_getElem?_getD,
      List.getElem?_take_of_lt (by omega)]
  rw [hwire]
  refine (preamble_reads hs hc).append ((ethernet_reads f rfl rfl).append ?_)
  refine (ip_reads f rfl).append ((udp_reads f rfl rfl).append ?_)
  refine (record_reads _ rfl ?_ rfl rfl ?_ ?_).trans_eq ?_
  · exact List.ne_nil_of_length_pos (by simp; omega)
  · simp; omega
  · simp; omega
  · rw [hpkt]
    rfl

/-- Between two frames. -/
theorem idle_of_gap (hist : List RxIn) (hgap : ∀ i ∈ hist.getLast?, i.dv = false) :
    (run cycle init hist).s = .preamble ∧ (run cycle init hist).c = 0 ∧
      (run cycle init hist).elDv = false := by
  induction hist using List.reverseRecOn with
  | nil => exact ⟨rfl, rfl, rfl⟩
  | append_singleton hist i =>
      have hi : i.dv = false := hgap i (by simp)
      simp [run_append, cycle, hi]

/-- The nibble behind the payload notifies. -/
theorem frame_notified (f : UdpFrame) (x : BitVec 4) (hs : st.s = .preamble) (hc : st.c = 0) :
    (run cycle st (burst (nibbles f.bytes ++ [x]))).elDv = true ∧
      (run cycle st (burst (nibbles f.bytes ++ [x]))).d = f.rcvData := by
  obtain ⟨ipc, udpc, hframe⟩ := frame_reads f hs hc
  rw [burst_append, run_append, hframe.run_eq]
  exact ⟨rfl, rfl⟩

/-- Whatever was received before, a frame behind a gap is decoded, and `el_dv` comes with the
nibble after its payload. -/
theorem mac_rcv_decodes (hist : List RxIn) (rxd : BitVec 4) (f : UdpFrame) (x : BitVec 4) :
    let st := run cycle init (hist ++ [⟨false, rxd⟩])
    (∀ k ≤ (nibbles f.bytes).length,
      (run cycle st (burst ((nibbles f.bytes).take k))).elDv = false) ∧
    (run cycle st (burst (nibbles f.bytes ++ [x]))).elDv = true ∧
    (run cycle st (burst (nibbles f.bytes ++ [x]))).d = f.rcvData := by
  intro st
  obtain ⟨hs, hc, hlow⟩ := idle_of_gap (hist ++ [⟨false, rxd⟩]) (by simp)
  refine ⟨fun k hk => ?_, frame_notified f x hs hc⟩
  obtain ⟨ipc, udpc, hframe⟩ := frame_reads f hs hc
  rcases Nat.eq_zero_or_pos k with rfl | hpos
  · exact hlow
  · exact hframe.low hpos hk

end MacRcv

end DnsAdtm.Hw
