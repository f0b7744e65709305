/-
# `Hw.ReplyContent` — what is in a reply

The frame sent for a request, field by field, in both reply modes (`replyFrame`).  It is a
function of the request and the mode: no register of the receiver, of the processors or of the
sender that an earlier packet wrote goes into it (`reply_content`).

    bytesLE_dnsReply    the 12 bytes `SetDNSReplyHeader` and `SetDNSReplyCount` make
    reply_bytes         the frame `mac_snd` is given
-/
import DnsAdtm.Hw.HeaderFields

namespace DnsAdtm.Hw

open Machine

variable {g : Generics} {p : BitVec 1024}

/-! ## The DNS reply -/

/-- The first two bytes of the request, and ten bytes of the processor's. -/
def dnsReplyBytes (g : Generics) (b₀ b₁ : BitVec 8) : List (BitVec 8) :=
  [b₀, b₁, 0x84, 0x30 + g.dnsRcode.setWidth 8, 0, 0, 0, 0, 0, 0, 0, 0]

/-- `SetDNSReplyCount` clears bits 32 to 95. -/
theorem getLsbD_dnsReplyCount (n : Nat) :
    (dnsReplyCount p).getLsbD n = if 32 ≤ n ∧ n < 96 then false else p.getLsbD n := by
  have hzero : ∀ k, (0 : BitVec 16).getLsbD k = false := fun k => BitVec.getLsbD_zero
  simp only [dnsReplyCount, put, getLsbD_setSlice, hzero]
  split_ifs <;> first | rfl | omega

/-- `SetDNSReplyHeader` sets bytes 2 and 3. -/
theorem getLsbD_dnsReplyHeader {n : Nat} (hlo : 16 ≤ n) (hhi : n < 32) :
    (dnsReplyHeader g p).getLsbD n =
      if n < 24 then (0x84#8).getLsbD (n - 16)
      else (0x30 + g.dnsRcode.setWidth 8 : BitVec 8).getLsbD (n - 24) := by
  simp only [dnsReplyHeader, put, putBit, getLsbD_setSlice]
  generalize g.dnsRcode = r
  interval_cases n
  all_goals
    simp
    try (revert r; decide)

theorem getLsbD_dnsReplyHeader_low {n : Nat} (hn : n < 16) :
    (dnsReplyHeader g p).getLsbD n = p.getLsbD n := by
  simp only [dnsReplyHeader, put, putBit, getLsbD_setSlice]
  repeat rw [if_neg (by omega)]

/-- The twelve bytes of the reply. -/
theorem bytesLE_dnsReply :
    bytesLE (dnsReplyCount (dnsReplyHeader g p)) 12 =
      dnsReplyBytes g (p.extractLsb' 0 8) (p.extractLsb' 8 8) := by
  have hbyte (lo : Nat) (b : BitVec 8)
      (h : ∀ i < 8, (dnsReplyCount (dnsReplyHeader g p)).getLsbD (lo + i) = b.getLsbD i) :
      (dnsReplyCount (dnsReplyHeader g p)).extractLsb' lo 8 = b := by
    apply BitVec.eq_of_getLsbD_eq
    intro i hi
    rw [BitVec.getLsbD_extractLsb', h i hi, decide_eq_true hi, Bool.true_and]
  have hlow (lo : Nat) (hlo : lo + 8 ≤ 16) :
      (dnsReplyCount (dnsReplyHeader g p)).extractLsb' lo 8 = p.extractLsb' lo 8 := by
    refine hbyte lo _ fun i hi => ?_
    rw [getLsbD_dnsReplyCount, if_neg (by omega), getLsbD_dnsReplyHeader_low (by omega),
      BitVec.getLsbD_extractLsb', decide_eq_true hi, Bool.true_and]
  have hclear (k : Nat) (hlo : 4 ≤ k) (hhi : k < 12) :
      (dnsReplyCount (dnsReplyHeader g p)).extractLsb' (8 * k) 8 = 0 := by
    refine hbyte (8 * k) 0 fun i hi => ?_
    rw [getLsbD_dnsReplyCount, if_pos (by omega)]
    exact BitVec.getLsbD_zero.symm
  have hflags : (dnsReplyCount (dnsReplyHeader g p)).extractLsb' (8 * 2) 8 = 0x84#8 := by
    refine hbyte 16 _ fun i hi => ?_
    rw [getLsbD_dnsReplyCount, if_neg (by omega), getLsbD_dnsReplyHeader (by omega) (by omega),
      if_pos (by omega), Nat.add_sub_cancel_left]
  have hrcode : (dnsReplyCount (dnsReplyHeader g p)).extractLsb' (8 * 3) 8 =
      0x30 + g.dnsRcode.setWidth 8 := by
    refine hbyte 24 _ fun i hi => ?_
    rw [getLsbD_dnsReplyCount, if_neg (by omega), getLsbD_dnsReplyHeader (by omega) (by omega),
      if_neg (by omega), Nat.add_sub_cancel_left]
  rw [bytesLE, show List.range 12 = [0, 1, 2, 3, 4, 5, 6, 7, 8, 9, 10, 11] from rfl]
  simp only [List.map_cons, List.map_nil]
  rw [hlow (8 * 0) (by omega), hlow (8 * 1) (by omega), hflags, hrcode, hclear 4 (by omega) (by omega),
    hclear 5 (by omega) (by omega), hclear 6 (by omega) (by omega), hclear 7 (by omega) (by omega),
    hclear 8 (by omega) (by omega), hclear 9 (by omega) (by omega), hclear 10 (by omega) (by omega),
    hclear 11 (by omega) (by omega)]
  rfl

/-! ## The frame -/

/-- The payload sent for a request. -/
def replyPayload (g : Generics) (replyType : Bool) (fr : UdpFrame) : List (BitVec 8) :=
  if replyType then dnsReplyBytes g (fr.payload.getD 0 0) (fr.payload.getD 1 0) else fr.payload

/-- The frame sent for a request, without preamble and frame check sequence: `len` and `chk`
are the total length and the checksum of the IP header, `pad` what is sent behind a payload of
less than 18 bytes. -/
def replyFrame (g : Generics) (gReplyMac : BitVec 48) (fr : UdpFrame)
    (payload len chk pad : List (BitVec 8)) : List (BitVec 8) :=
  bytesLE gReplyMac 6 ++ bytesLE g.normalMac 6 ++ [0x08, 0x00] ++
    [0x45, 0x00] ++ len ++ [0x00, 0x00] ++ [0x00, 0x00] ++ [0x40, 0x11] ++ chk ++
    fr.dstIP.toList ++ fr.srcIP.toList ++ fr.dstPort.toList ++ fr.srcPort.toList ++
    [(BitVec.ofNat 16 (8 + payload.length)).extractLsb' 8 8,
      (BitVec.ofNat 16 (8 + payload.length)).extractLsb' 0 8] ++ [0x00, 0x00] ++ payload ++ pad

/-- The bytes of a field of the request come out as they came in. -/
theorem bytesLE_field {k w : Nat} (bytes : Vector (BitVec 8) k) (h : 8 * k ≤ w) :
    bytesLE (ofBytesLE w bytes.toList) k = bytes.toList := by
  rw [bytesLE_ofBytesLE h (by rw [Vector.length_toList]), Vector.length_toList, Nat.sub_self,
    List.replicate_zero, List.append_nil]

/-- The payload of the packet sent for a frame. -/
theorem sentOf_payload (g : Generics) (gReplyMac : BitVec 48) {fr : UdpFrame}
    (hN : fr.payload.length ≤ 128) (replyType : Bool) :
    (sentOf g replyType fr.rcvData).dnsLength = (replyPayload g replyType fr).length ∧
      ∃ pad : List (BitVec 8), pad.length = 18 - (replyPayload g replyType fr).length ∧
        bytesLE (sndOf gReplyMac (sentOf g replyType fr.rcvData)).dnsPkt
          ((max (sndOf gReplyMac (sentOf g replyType fr.rcvData)).dnsPktCnt 140 + 4) / 8) =
            replyPayload g replyType fr ++ pad := by
  have hpkt (rd : RcvData) : (sndOf gReplyMac rd).dnsPkt = rd.dnsPkt := rfl
  rw [hpkt]
  cases replyType with
  | false =>
      refine ⟨rfl, List.replicate (max fr.payload.length 18 - fr.payload.length) 0, ?_, ?_⟩
      · rw [List.length_replicate]
        show _ = 18 - fr.payload.length
        omega
      · have hlength : (sentOf g false fr.rcvData).dnsLength = fr.payload.length := rfl
        rw [sndOf_payload (by rw [hlength]; exact fr.payload_range.1), hlength, Nat.min_eq_left hN]
        show bytesLE (ofBytesLE 1024 (fr.payload.take 128)) (max fr.payload.length 18) = _
        rw [List.take_of_length_le hN, bytesLE_ofBytesLE (by omega) (by omega)]
        rfl
  | true =>
      refine ⟨rfl, (bytesLE (sentOf g true fr.rcvData).dnsPkt 18).drop 12, ?_, ?_⟩
      · rw [List.length_drop, length_bytesLE]
        rfl
      · have htwelve : (sentOf g true fr.rcvData).dnsLength = 12 := rfl
        have htake : (bytesLE (sentOf g true fr.rcvData).dnsPkt 18).take 12 =
            bytesLE (dnsReplyCount (dnsReplyHeader g fr.rcvData.dnsPkt)) 12 := by
          rw [bytesLE, ← List.map_take, List.take_range]
          rfl
        have hbyte (k : Nat) (hk : k < 2) :
            fr.rcvData.dnsPkt.extractLsb' (8 * k) 8 = fr.payload.getD k 0 := by
          show (ofBytesLE 1024 (fr.payload.take 128)).extractLsb' (8 * k) 8 = _
          rw [List.take_of_length_le hN, extractLsb'_ofBytesLE (by omega)]
        rw [sndOf_payload (by rw [htwelve]; decide), htwelve, show max (min 12 128) 18 = 18 from rfl, ← List.take_append_drop 12 (bytesLE _ 18), htake,
          bytesLE_dnsReply, hbyte 0 (by omega), hbyte 1 (by omega)]
        rfl

/-- The packet sent for a frame, as bytes.  The total length, the checksum and the padding are
functions of the frame and the mode, too. -/
theorem bytes_sentOf (g : Generics) (gReplyMac : BitVec 48) {fr : UdpFrame}
    (hN : fr.payload.length ≤ 128) (replyType : Bool) : ∃ len chk pad : List (BitVec 8),
    len.length = 2 ∧ chk.length = 2 ∧ pad.length = 18 - (replyPayload g replyType fr).length ∧
      (sndOf gReplyMac (sentOf g replyType fr.rcvData)).bytes =
        replyFrame g gReplyMac fr (replyPayload g replyType fr) len chk pad := by
  obtain ⟨hlength, pad, hpad, hbytes⟩ := sentOf_payload g gReplyMac hN replyType
  have hmax : (sentOf g replyType fr.rcvData).dnsLength ≤ 128 := by
    cases replyType with
    | false => exact hN
    | true => show 12 ≤ 128; decide
  have hsrc : (sentOf g replyType fr.rcvData).dstMAC = g.normalMac := rfl
  obtain ⟨hsrcIP, hdstIP, hsrcPort, hdstPort⟩ :
      bytesLE (sentOf g replyType fr.rcvData).dstIP 4 = fr.dstIP.toList ∧
      bytesLE (sentOf g replyType fr.rcvData).srcIP 4 = fr.srcIP.toList ∧
      bytesLE (sentOf g replyType fr.rcvData).dstPort 2 = fr.dstPort.toList ∧
      bytesLE (sentOf g replyType fr.rcvData).srcPort 2 = fr.srcPort.toList := by
    cases replyType with
    | false | true =>
        exact ⟨bytesLE_field fr.dstIP (by decide), bytesLE_field fr.srcIP (by decide),
          bytesLE_field fr.dstPort (by decide), bytesLE_field fr.srcPort (by decide)⟩
  have hudp : bytesLE (byteSwap (sndLength (sentOf g replyType fr.rcvData))) 2 =
      [(BitVec.ofNat 16 (8 + (replyPayload g replyType fr).length)).extractLsb' 8 8,
        (BitVec.ofNat 16 (8 + (replyPayload g replyType fr).length)).extractLsb' 0 8] := by
    rw [bytesLE_byteSwap, sndLength_eq, Nat.min_eq_left hmax, hlength]
  refine ⟨_, _, pad, length_bytesLE (sndOf gReplyMac (sentOf g replyType fr.rcvData)).ipLength 2,
    length_bytesLE (sndOf gReplyMac (sentOf g replyType fr.rcvData)).ipChecksum 2, hpad, ?_⟩
  have httl : bytesLE (sndOf gReplyMac (sentOf g replyType fr.rcvData)).ipTTL 1 = [0x40] := by
    show bytesLE 0x40#8 1 = [0x40]
    decide
  have hudpChecksum :
      bytesLE (sndOf gReplyMac (sentOf g replyType fr.rcvData)).udpChecksum 2 = [0x00, 0x00] := by
    show bytesLE 0x0000#16 2 = [0x00, 0x00]
    decide
  rw [SndData.bytes, hbytes, replyFrame, ← hsrcIP, ← hdstIP, ← hsrcPort, ← hdstPort, ← hudp, ← hsrc,
    SndData.header, httl, hudpChecksum]
  simp only [List.append_assoc, List.cons_append, List.nil_append]
  rfl

/-- **What is in a reply.**  For a request with at most 128 bytes of payload and a mode there
is one frame that goes out in every run in which `corein` sends the request on in that mode,
whatever was received, processed and sent before; and `corein` sends it on wherever its filter
accepts it. -/
theorem reply_content (g : Generics) (gReplyMac : BitVec 48) (fr : UdpFrame)
    (hN : fr.payload.length ≤ 128) (replyType : Bool) : ∃ len chk pad : List (BitVec 8),
    len.length = 2 ∧ chk.length = 2 ∧ pad.length = 18 - (replyPayload g replyType fr).length ∧
      ∀ (f₀ : Filter) (t₀ : Tally) (inp : Nat → CoreinIn) (n : Nat) (hist : List RxIn)
        (rxd x : BitVec 4),
        let tr := trace (Processors.cycle g gReplyMac) (.start f₀ t₀) inp
        let rd := (run MacRcv.cycle .init
          (hist ++ [⟨false, rxd⟩] ++ MacRcv.burst (nibbles fr.bytes ++ [x]))).d
        let Replied (m : Nat) := (tr (n + m + 8)).co.elSndEn = true ∧
          MacSnd.Emitted (tr (n + m + 8)).co.sd
            (replyFrame g gReplyMac fr (replyPayload g replyType fr) len chk pad)
        (tr n).ci.core.f.replyType = replyType →
        (∀ m, SentOn g tr inp rd n m → Replied m) ∧
        ((tr n).ci.core.s.s = .idle → (inp n).elRcvDv = true → (inp (n + 1)).elRcvData = rd →
          rd.dstMAC ≠ g.adminMac → rd.dstMAC ≠ g.queryMac →
          (∀ k, 8 ∣ (tr n).ci.core.f.endPtr k) → (tr n).ci.core.f.accepts rd = true →
          ∃ m, SentOn g tr inp rd n m ∧ Replied m) := by
  obtain ⟨len, chk, pad, hlen, hchk, hpad, hbytes⟩ := bytes_sentOf g gReplyMac hN replyType
  refine ⟨len, chk, pad, hlen, hchk, hpad, ?_⟩
  intro f₀ t₀ inp n hist rxd x tr rd Replied hmode
  have hreplied : ∀ m, SentOn g tr inp rd n m → Replied m := by
    intro m hsent
    rw [show rd = fr.rcvData from received_eq hist rxd x fr] at hsent
    obtain ⟨hup, hsd⟩ := sentOn_handed hsent
    rw [hmode] at hsd
    refine ⟨hup, ?_⟩
    rw [← hbytes, hsd]
    exact MacSnd.emitted_bytes (sndOf_cnt _ _)
  refine ⟨hreplied, fun hidle hdv hread hadmin hquery h8 hacc => ?_⟩
  obtain ⟨m, hsent⟩ := accepted_sentOn rfl hidle hdv h8 hread hadmin hquery hacc
  exact ⟨m, hsent, hreplied m hsent⟩

/-- From power-on, in the first mode: the payload of one byte comes back. -/
theorem reply_content_power_on : ∃ (len chk pad : List (BitVec 8)) (m : Nat), pad.length = 17 ∧
    MacSnd.Emitted (trace (Processors.cycle {} replyMac) (.start .init ⟨0, 0, 0, 0, 0⟩)
      (fun _ => ⟨(acceptedFrame 5 ihl_five).rcvData, true⟩) (0 + m + 8)).co.sd
      (replyFrame {} replyMac (acceptedFrame 5 ihl_five) [0x61] len chk pad) := by
  obtain ⟨len, chk, pad, -, -, hpad, hreply⟩ := reply_content {} replyMac
    (acceptedFrame 5 ihl_five) (by decide) false
  have hreceived := received_eq [] 0x0 0x0 (acceptedFrame 5 ihl_five)
  obtain ⟨m, -, -, hemitted⟩ := (hreply .init ⟨0, 0, 0, 0, 0⟩
    (fun _ => ⟨(acceptedFrame 5 ihl_five).rcvData, true⟩) 0 [] 0x0 0x0 rfl).2 rfl rfl hreceived.symm
    (by rw [hreceived]; decide +kernel) (by rw [hreceived]; decide +kernel)
    Filter.init_inRange.endPtr_dvd (by rw [hreceived]; decide +kernel)
  exact ⟨len, chk, pad, m, hpad, hemitted⟩

end DnsAdtm.Hw
