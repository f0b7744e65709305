/-
# `HostFrame` — a frame of the host, as the board reads it

`form_packet` writes the headers field by field into memory, and `trigger_send` gives the bytes to
the interface, which puts preamble and delimiter in front.  Behind them lies one of the frames of
`Hw.UdpFrame`: the fragment field, which is never written, is that of a buffer that began with
zeros.

    hostFrame            the frame
    hostFrame_bytes      its bytes are those that are sent
    frame_update         with a packet of `write_to_admin_pkt` it is an update
    sent_decoded         what `mac_rcv` makes of it
-/
import DnsAdtm.AdminAgree
import DnsAdtm.Hw.MacRcvFrame
import DnsAdtm.Sw.ProbeCheck
import DnsAdtm.Sw.Sender

namespace DnsAdtm

open Machine Sw

/-! ## The addresses -/

/-- Six bytes. -/
def Sw.macOf (bytes : List (BitVec 8)) : MacAddr := .ofFn fun i => bytes.getD i 0

/-- `admin_dst_mac` -/
def Sw.adminDstMac : MacAddr := macOf [0x00, 0x0a, 0x35, 0xff, 0xff, 0xff]

/-- The generics of a board that the command line can administrate. -/
structure Paired (g : Hw.Generics) : Prop where
  key : g.adminKey = adminBufKey
  admin : g.adminMac = ofBytesLE 48 adminDstMac.toList
  query : g.queryMac = ofBytesLE 48 probeDstMac
  normal : bytesLE g.normalMac 6 ≠ probeDstMac

theorem paired_default : Paired {} := ⟨rfl, by decide +kernel, by decide +kernel, by decide +kernel⟩

theorem Paired.macs_ne {g : Hw.Generics} (h : Paired g) : g.queryMac ≠ g.adminMac := by
  rw [h.query, h.admin]
  decide +kernel

/-! ## The frame -/

/-- `trigger_send`, with `send_pkt_length` the length of the payload. -/
def Sw.SendPkt.sent (p : SendPkt) (length : Nat) : List (BitVec 8) := p.bytes.take (length + 8 + 20 + 14)

/-- The two bytes of a `uint16_t`, as they lie in memory. -/
def Sw.pair16 (x : BitVec 16) : Vector (BitVec 8) 2 := .ofFn fun i => (x >>> (8 * i.val)).setWidth 8

variable {c : Packet} {p : SendPkt}

def hostFrame (c : Packet) (p : SendPkt) (hpos : 1 ≤ c.udpPayload.length) : Hw.UdpFrame where
  dstMAC := (formPacket c p).eth.hDest
  srcMAC := (formPacket c p).eth.hSource
  ihl := 5
  ihl_range := Hw.ihl_five
  dscpEcn := (formPacket c p).ip.tos
  ipLength := pair16 (formPacket c p).ip.totLen
  ipID := pair16 (formPacket c p).ip.id
  ttl := (formPacket c p).ip.ttl
  ipChecksum := pair16 (formPacket c p).ip.check
  srcIP := c.srcip
  dstIP := c.dstip
  options := .replicate _ 0
  srcPort := pair16 (formPacket c p).udp.source
  dstPort := pair16 (formPacket c p).udp.dest
  udpChecksum := pair16 (formPacket c p).udp.check
  payload := c.udpPayload
  payload_range := ⟨hpos, c.short⟩

theorem toList_pair16 (x : BitVec 16) : (pair16 x).toList = le16 x := by
  rw [pair16, Vector.toList_ofFn]
  rfl

/-- The high byte first. -/
theorem le16_bswap16 (x : BitVec 16) : le16 (bswap16 x) = [x.extractLsb' 8 8, x.extractLsb' 0 8] := by
  have hlow : (bswap16 x).setWidth 8 = x.extractLsb' 8 8 := by
    apply BitVec.eq_of_getLsbD_eq
    intro i hi
    simp [bswap16, hi, show i < 16 by omega]
  have hhigh : (bswap16 x >>> 8).setWidth 8 = x.extractLsb' 0 8 := by
    apply BitVec.eq_of_getLsbD_eq
    intro i hi
    have hout : x.getLsbD (8 + (8 + i)) = false := BitVec.getLsbD_of_ge _ _ (by omega)
    simp only [bswap16, BitVec.getLsbD_setWidth, BitVec.getLsbD_ushiftRight, BitVec.getLsbD_or, BitVec.getLsbD_shiftLeft,
      BitVec.getLsbD_extractLsb', hout, Nat.zero_add, Nat.add_sub_cancel_left]
    simp [hi, show 8 + i < 16 by omega]
  rw [le16, hlow, hhigh]

theorem le32_append (a b c d : BitVec 8) : le32 (d ++ c ++ b ++ a) = [a, b, c, d] := by
  have hbits : ∀ i < 8, (d ++ c ++ b ++ a).getLsbD i = a.getLsbD i ∧
      (d ++ c ++ b ++ a).getLsbD (8 + i) = b.getLsbD i ∧
      (d ++ c ++ b ++ a).getLsbD (16 + i) = c.getLsbD i ∧
      (d ++ c ++ b ++ a).getLsbD (24 + i) = d.getLsbD i := by
    intro i hi
    simp only [BitVec.getLsbD_append]
    interval_cases i <;> simp
  simp only [le32, List.cons.injEq, and_true]
  refine ⟨?_, ?_, ?_, ?_⟩
  all_goals
    apply BitVec.eq_of_getLsbD_eq
    intro i hi
    simp only [BitVec.getLsbD_setWidth, BitVec.getLsbD_ushiftRight, decide_eq_true hi, Bool.true_and, hbits i hi]

/-- An address in memory. -/
theorem le32_loadAddr (ip : IpAddr) : le32 (loadAddr ip) = ip.toList := by
  rw [loadAddr, le32_append]
  apply List.ext_getElem (by simp)
  intro i hi _
  have hi4 : i < 4 := by simpa using hi
  rcases (by omega : i = 0 ∨ i = 1 ∨ i = 2 ∨ i = 3) with rfl | rfl | rfl | rfl <;> simp

/-- **What the host sends is a frame.** -/
theorem hostFrame_bytes (hpos : 1 ≤ c.udpPayload.length) (hfrag : p.ip.fragOff = 0) :
    (hostFrame c p hpos).bytes =
      List.replicate 7 0x55 ++ [0xd5] ++ (formPacket c p).sent c.udpPayload.length := by
  have heth : (hostFrame c p hpos).ethernetHeader = (formPacket c p).eth.bytes := by
    have hproto : le16 (formPacket c p).eth.hProto = [0x08, 0x00] := le16_bswap16 0x0800
    rw [EthHdr.bytes, hproto]
    rfl
  have hip : (hostFrame c p hpos).ipHeader = (formPacket c p).ip.bytes := by
    have hfrag' : le16 (formPacket c p).ip.fragOff = [0x00, 0x00] := by
      rw [show (formPacket c p).ip.fragOff = 0 from hfrag]
      rfl
    have hfirst : (formPacket c p).ip.version ++ (formPacket c p).ip.ihl = BitVec.ofNat 8 (0x40 + 5) := by
      show (4#4 ++ 5#4 : BitVec 8) = _
      decide
    have hsrc : le32 (formPacket c p).ip.saddr = c.srcip.toList := le32_loadAddr c.srcip
    have hdst : le32 (formPacket c p).ip.daddr = c.dstip.toList := le32_loadAddr c.dstip
    rw [IpHdr.bytes, hfrag', hfirst, hsrc, hdst, Hw.UdpFrame.ipHeader]
    simp only [hostFrame, toList_pair16]
    rw [show (Vector.replicate (4 * (5 - 5)) (0 : BitVec 8)).toList = [] from rfl, List.append_nil]
    rfl
  have hudp : (hostFrame c p hpos).udpHeader = (formPacket c p).udp.bytes := by
    have hlen : le16 (formPacket c p).udp.len =
        [(BitVec.ofNat 16 (c.udpPayload.length + 8)).extractLsb' 8 8,
          (BitVec.ofNat 16 (c.udpPayload.length + 8)).extractLsb' 0 8] := le16_bswap16 _
    rw [UdpHdr.bytes, hlen, Hw.UdpFrame.udpHeader, Hw.UdpFrame.udpLength]
    simp only [hostFrame, toList_pair16]
    rw [Nat.add_comm 8]
  have hheaders : ((formPacket c p).eth.bytes ++ (formPacket c p).ip.bytes ++ (formPacket c p).udp.bytes).length = 42 := by
    simp [EthHdr.bytes, IpHdr.bytes, UdpHdr.bytes, le16, le32]
  have hpayload : (formPacket c p).payload = c.udpPayload ++ p.payload.drop c.udpPayload.length := rfl
  rw [Hw.UdpFrame.bytes, heth, hip, hudp, SendPkt.sent, SendPkt.bytes, hpayload, ← List.append_assoc,
    List.take_left' (by rw [List.length_append, hheaders]; omega)]
  simp only [List.append_assoc]
  rfl

/-! ## At the board -/

/-- With the file of `write_to_admin_pkt` for its payload, a frame is an update. -/
theorem frame_update {g : Hw.Generics} {f : Sw.Filter} {fr : Hw.UdpFrame} (hg : Paired g) (hdst : fr.dstMAC = adminDstMac)
    (h : AdminPkt f fr.payload) :
    Hw.Authentic g fr.rcvData ∧ Hw.Filter.decode fr.rcvData.dnsPkt.getLsbD = f.toHw := by
  have hmac : fr.rcvData.dstMAC = g.adminMac := by
    rw [hg.admin, ← hdst]
    rfl
  have hpkt : fr.rcvData.dnsPkt = ofBytesLE 1024 fr.payload := by
    show ofBytesLE 1024 (fr.payload.take 128) = _
    rw [List.take_of_length_le (Nat.le_of_eq h.length)]
  exact ⟨h.authentic hg.key hmac hpkt, h.decode hpkt⟩

theorem formPackets_fragOff (cs : List Packet) : (formPackets cs).ip.fragOff = 0 := by
  induction cs using List.reverseRecOn with
  | nil => rfl
  | append_singleton cs c ih =>
      rw [formPackets, List.foldl_append]
      exact ih

/-- A number that is read as it lies in memory. -/
theorem ofBytesLE_pair16 (x : BitVec 16) : ofBytesLE 16 (pair16 x).toList = x := by
  rw [toList_pair16]
  apply BitVec.eq_of_getLsbD_eq
  intro i hi
  rw [getLsbD_ofBytesLE, decide_eq_true hi, Bool.true_and, bitAt, le16]
  rcases Nat.lt_or_ge i 8 with hlt | hge
  · rw [Nat.div_eq_of_lt hlt, Nat.mod_eq_of_lt hlt, List.getD_cons_zero, BitVec.getLsbD_setWidth, decide_eq_true hlt,
      Bool.true_and]
  · rw [show i / 8 = 1 by omega, show i % 8 = i - 8 by omega, List.getD_cons_succ, List.getD_cons_zero,
      BitVec.getLsbD_setWidth, BitVec.getLsbD_ushiftRight, decide_eq_true (by omega), Bool.true_and,
      Nat.add_sub_cancel' hge]

/-- `mac_rcv`, on any sequence of packets: behind each of them, whatever was sent before, `d` has
its addresses, its ports and what fits of its payload. -/
theorem sent_decoded (cs : List Packet) (c : Packet) (hpos : 1 ≤ c.udpPayload.length) (hist : List Hw.RxIn)
    (rxd : BitVec 4) (x : BitVec 4) :
    let st := run Hw.MacRcv.cycle .init (hist ++ [⟨false, rxd⟩] ++ Hw.MacRcv.burst (nibbles
      (List.replicate 7 0x55 ++ [0xd5] ++ (formPackets (cs ++ [c])).sent c.udpPayload.length) ++ [x]))
    st.elDv = true ∧ st.d.srcMAC = ofBytesLE 48 c.srcmac.toList ∧ st.d.dstMAC = ofBytesLE 48 c.dstmac.toList ∧
      st.d.srcIP = ofBytesLE 32 c.srcip.toList ∧ st.d.dstIP = ofBytesLE 32 c.dstip.toList ∧
      st.d.srcPort = bswap16 c.srcport ∧ st.d.dstPort = bswap16 c.dstport ∧
      st.d.dnsLength = c.udpPayload.length ∧ st.d.dnsPkt = ofBytesLE 1024 (c.udpPayload.take 128) := by
  intro st
  have hlast : formPackets (cs ++ [c]) = formPacket c (formPackets cs) := List.foldl_append
  obtain ⟨hs, hc, -⟩ := Hw.MacRcv.idle_of_gap (hist ++ [⟨false, rxd⟩]) (by simp)
  obtain ⟨hup, hdata⟩ := Hw.MacRcv.frame_notified (hostFrame c (formPackets cs) hpos) x hs hc
  rw [hostFrame_bytes hpos (formPackets_fragOff cs), ← hlast, ← run_append] at hup hdata
  refine ⟨hup, ?_⟩
  rw [show st.d = _ from hdata]
  exact ⟨rfl, rfl, rfl, rfl, ofBytesLE_pair16 _, ofBytesLE_pair16 _, rfl, rfl⟩

/-- A probe behind a longer packet. -/
theorem sent_decoded_probe : (run Hw.MacRcv.cycle .init ([] ++ [⟨false, 0⟩] ++ Hw.MacRcv.burst (nibbles
    (List.replicate 7 0x55 ++ [0xd5] ++ (formPackets ([⟨.replicate 6 1, .replicate 6 2, .replicate 4 3, .replicate 4 4, 5, 6,
      .replicate 40 7, by decide⟩] ++ [⟨.replicate 6 8, .replicate 6 9, .replicate 4 10, .replicate 4 11, 53, 54,
      .replicate 12 13, by decide⟩])).sent 12) ++ [0]))).d.dnsLength = 12 :=
  (sent_decoded [⟨.replicate 6 1, .replicate 6 2, .replicate 4 3, .replicate 4 4, 5, 6, .replicate 40 7, by decide⟩]
    ⟨.replicate 6 8, .replicate 6 9, .replicate 4 10, .replicate 4 11, 53, 54, .replicate 12 13, by decide⟩
    (by decide) [] 0 0).2.2.2.2.2.2.2.1

end DnsAdtm
