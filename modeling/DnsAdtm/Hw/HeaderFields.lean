/-
# `Hw.HeaderFields` — lengths and checksum of the frames sent

`coreout` computes three fields of the headers: the total length, copied from the request in
its order of nibbles; the UDP length, from the number of payload bytes, 128 at most; and the
header checksum, of which it adds the low byte of the total length only and drops the carry
of the last fold.

    ip_checksum_iff       when the checksum is that of the header
    forwarded_lengths_iff when the two lengths agree
-/
import DnsAdtm.Hw.MacRcvFrame
import DnsAdtm.Hw.MacSndRun
import DnsAdtm.Hw.Reply
import DnsAdtm.Lib.OnesSum

namespace DnsAdtm.Hw

open Machine

variable {gReplyMac : BitVec 48} {rd : RcvData} {d : SndData}

/-! ## The headers in the frame -/

/-- The 20 bytes of the IP header. -/
def SndData.ipHeader (d : SndData) : List (BitVec 8) :=
  [0x45, 0x00] ++ bytesLE d.ipLength 2 ++ [0x00, 0x00] ++ [0x00, 0x00] ++
    bytesLE d.ipTTL 1 ++ [0x11] ++ bytesLE d.ipChecksum 2 ++ bytesLE d.srcIP 4 ++ bytesLE d.dstIP 4

theorem SndData.ipHeader_of_bytes (d : SndData) : (d.bytes.drop 14).take 20 = d.ipHeader := by
  have hbytes : d.bytes = (bytesLE d.dstMAC 6 ++ bytesLE d.srcMAC 6 ++ [0x08, 0x00]) ++ (d.ipHeader ++
      (bytesLE d.srcPort 2 ++ bytesLE d.dstPort 2 ++ bytesLE d.udpLength 2 ++ bytesLE d.udpChecksum 2 ++
        bytesLE d.dnsPkt ((max d.dnsPktCnt 140 + 4) / 8))) := by
    simp only [bytes, header, ipHeader, List.append_assoc]
  rw [hbytes, List.drop_left' (by simp [length_bytesLE]), List.take_left' (by simp [ipHeader, length_bytesLE])]

/-- A request always ends with a whole byte. -/
theorem sndOf_cnt (gReplyMac : BitVec 48) (rd : RcvData) : 8 ∣ (sndOf gReplyMac rd).dnsPktCnt + 4 := by
  show 8 ∣ (if 128 ≤ rd.dnsLength then 1020 else toPktCnt (rd.dnsLength * 8 - 4)) + 4
  split
  · decide
  · rw [toPktCnt]
    omega

/-- 18 bytes of payload at least, and 128 at most. -/
theorem sndOf_payload {gReplyMac : BitVec 48} (hpos : 1 ≤ rd.dnsLength) :
    (max (sndOf gReplyMac rd).dnsPktCnt 140 + 4) / 8 = max (min rd.dnsLength 128) 18 := by
  show (max (if 128 ≤ rd.dnsLength then 1020 else toPktCnt (rd.dnsLength * 8 - 4)) 140 + 4) / 8 = _
  split
  · omega
  · rw [toPktCnt]
    omega

/-- The UDP length counts no more than 128 bytes of payload. -/
theorem sndLength_eq (rd : RcvData) : sndLength rd = BitVec.ofNat 16 (8 + min rd.dnsLength 128) := by
  rw [sndLength]
  split
  · rw [Nat.min_eq_right ‹_›]
    rfl
  · rw [Nat.min_eq_left (by omega), Nat.add_comm]

/-! ## The checksum -/

theorem toNat_append {m n : Nat} (a : BitVec m) (b : BitVec n) :
    (a ++ b).toNat = a.toNat * 2 ^ n + b.toNat := by
  rw [BitVec.toNat_append, ← Nat.shiftLeft_add_eq_or_of_lt b.isLt, Nat.shiftLeft_eq]

/-- The total length of the packet, as the request and the frame sent have it. -/
def RcvData.totalLength (rd : RcvData) : Nat := (byteSwap (nibbleSwap (BitVec.ofNat 16 rd.ipLength))).toNat

/-- The two words of an address. -/
def addressSum (ip : BitVec 32) : Nat :=
  ((downto ip 7 0 : BitVec 8) ++ (downto ip 15 8 : BitVec 8)).toNat +
    ((downto ip 23 16 : BitVec 8) ++ (downto ip 31 24 : BitVec 8)).toNat

/-- The words of the header sent for `rd`, but for the checksum, added up. -/
def RcvData.wordSum (rd : RcvData) : Nat :=
  0x4500 + rd.totalLength + 0x4011 + addressSum rd.dstIP + addressSum rd.srcIP

theorem word_bytesLE (v : BitVec 16) (rest : List (BitVec 8)) :
    wordsBE (bytesLE v 2 ++ rest) = byteSwap v :: wordsBE rest := rfl

theorem plainSum_address (ip : BitVec 32) (rest : List (BitVec 8)) :
    plainSum (wordsBE (bytesLE ip 4 ++ rest)) = addressSum ip + plainSum (wordsBE rest) := by
  have hwords : wordsBE (bytesLE ip 4 ++ rest) = (downto ip 7 0 (m := 8) ++ downto ip 15 8 (m := 8)) ::
      (downto ip 23 16 (m := 8) ++ downto ip 31 24 (m := 8)) :: wordsBE rest := rfl
  rw [hwords, plainSum_cons, plainSum_cons, ← Nat.add_assoc, addressSum]

theorem bytesLE_byteSwap (v : BitVec 16) :
    bytesLE (byteSwap v) 2 = [v.extractLsb' 8 8, v.extractLsb' 0 8] := by
  show [(byteSwap v).extractLsb' 0 8, (byteSwap v).extractLsb' 8 8] = _
  have hlo : (byteSwap v).extractLsb' 0 8 = v.extractLsb' 8 8 := by
    apply BitVec.eq_of_getLsbD_eq
    intro i hi
    rw [BitVec.getLsbD_extractLsb', byteSwap, BitVec.getLsbD_append]
    simp [hi, downto]
  have hhi : (byteSwap v).extractLsb' 8 8 = v.extractLsb' 0 8 := by
    apply BitVec.eq_of_getLsbD_eq
    intro i hi
    rw [BitVec.getLsbD_extractLsb', byteSwap, BitVec.getLsbD_append]
    simp [hi, downto]
  rw [hlo, hhi]

theorem byteSwap_byteSwap (v : BitVec 16) : byteSwap (byteSwap v) = v := by
  apply BitVec.eq_of_getLsbD_eq
  intro i hi
  simp only [byteSwap, BitVec.getLsbD_append, getLsbD_downto]
  interval_cases i <;> rfl

theorem wordsBE_cons (a b : BitVec 8) (rest : List (BitVec 8)) :
    wordsBE (a :: b :: rest) = (a ++ b) :: wordsBE rest := rfl

theorem plainSum_ipHeader (rd : RcvData) : plainSum (wordsBE (sndOf gReplyMac rd).ipHeader) =
    rd.wordSum + (sndChecksum rd).toNat := by
  have hheader : (sndOf gReplyMac rd).ipHeader = 0x45 :: 0x00 ::
      (bytesLE (nibbleSwap (BitVec.ofNat 16 rd.ipLength)) 2 ++ (0x00 :: 0x00 :: 0x00 :: 0x00 ::
        0x40 :: 0x11 :: (bytesLE (byteSwap (sndChecksum rd)) 2 ++
          (bytesLE rd.dstIP 4 ++ (bytesLE rd.srcIP 4 ++ []))))) := by
    simp [SndData.ipHeader, sndOf]
    rfl
  have hnil : plainSum (wordsBE []) = 0 := rfl
  rw [hheader]
  simp only [wordsBE_cons, word_bytesLE, plainSum_cons, plainSum_address, byteSwap_byteSwap, hnil,
    toNat_append]
  simp only [RcvData.wordSum, RcvData.totalLength]
  simp
  omega

/-- The bytes of the total length, out of the nibbles of the request's. -/
theorem byteSwap_nibbleSwap (v : BitVec 16) : byteSwap (nibbleSwap v) =
    (downto v 11 8 (m := 4) ++ downto v 15 12 (m := 4)) ++ (downto v 3 0 (m := 4) ++ downto v 7 4 (m := 4)) := by
  apply BitVec.eq_of_getLsbD_eq
  intro i hi
  simp only [byteSwap, nibbleSwap, BitVec.getLsbD_append, getLsbD_downto]
  interval_cases i <;> rfl

theorem toNat_ipChecksumbuf (ip : BitVec 32) : (ipChecksumbuf ip).toNat = addressSum ip := by
  have h₁ := (downto ip 7 0 (m := 8)).isLt
  have h₂ := (downto ip 15 8 (m := 8)).isLt
  have h₃ := (downto ip 23 16 (m := 8)).isLt
  have h₄ := (downto ip 31 24 (m := 8)).isLt
  simp only [ipChecksumbuf, addressSum, BitVec.toNat_add, toNat_append]
  rw [BitVec.toNat_ofNat]
  omega

theorem addressSum_lt (ip : BitVec 32) : addressSum ip < 2 ^ 17 := by
  have h₁ := ((downto ip 7 0 : BitVec 8) ++ (downto ip 15 8 : BitVec 8)).isLt
  have h₂ := ((downto ip 23 16 : BitVec 8) ++ (downto ip 31 24 : BitVec 8)).isLt
  rw [addressSum]
  omega

/-- What `coreout` adds up: the total length is taken modulo 256. -/
theorem toNat_headerSum (rd : RcvData) :
    (headerSum (BitVec.ofNat 16 rd.ipLength) 0x40 (ipChecksumbuf rd.dstIP)
      (ipChecksumbuf rd.srcIP)).toNat = rd.wordSum - rd.totalLength / 256 * 256 := by
  have hsrc := addressSum_lt rd.srcIP
  have hdst := addressSum_lt rd.dstIP
  rw [RcvData.wordSum, RcvData.totalLength]
  generalize BitVec.ofNat 16 rd.ipLength = v
  rw [byteSwap_nibbleSwap, headerSum]
  have h₁ := (downto v 3 0 (m := 4)).isLt
  have h₂ := (downto v 7 4 (m := 4)).isLt
  have hfixed : (0x00004500 : BitVec 32).toNat = 0x4500 := rfl
  have httl : (0x40 : BitVec 8).toNat = 0x40 := rfl
  simp only [BitVec.toNat_add, toNat_append, toNat_ipChecksumbuf, BitVec.toNat_ofNat, hfixed, httl]
  omega

/-- The checksum: the sum folded once, without the carry. -/
theorem toNat_sndChecksum (rd : RcvData) :
    let s := rd.wordSum - rd.totalLength / 256 * 256
    (sndChecksum rd).toNat = 65535 - (s / 65536 + s % 65536) % 65536 := by
  intro s
  have hs := toNat_headerSum rd
  have hlt := (headerSum (BitVec.ofNat 16 rd.ipLength) 0x40 (ipChecksumbuf rd.dstIP)
    (ipChecksumbuf rd.srcIP)).isLt
  rw [sndChecksum, foldSum]
  generalize headerSum (BitVec.ofNat 16 rd.ipLength) 0x40 (ipChecksumbuf rd.dstIP)
    (ipChecksumbuf rd.srcIP) = sum at hs hlt
  have hhigh : (downto sum 31 16 (m := 16)).toNat = s / 65536 := by
    simp only [downto, BitVec.extractLsb'_toNat, Nat.shiftRight_eq_div_pow, hs]
    omega
  have hlow : (downto sum 15 0 (m := 16)).toNat = s % 65536 := by
    simp only [downto, BitVec.extractLsb'_toNat, Nat.shiftRight_eq_div_pow, hs]
    omega
  simp only [BitVec.toNat_setWidth, BitVec.toNat_not, BitVec.toNat_add, hhigh, hlow]
  omega

/-- The arithmetic of the fold: `h` is the byte left out, and no carry may be lost. -/
theorem checksum_arith {s h : Nat} (hs : s < 6 * 65536) (hh : h < 256) :
    65535 ∣ s + h * 256 + (65535 - (s / 65536 + s % 65536) % 65536) ↔
      h = 0 ∧ s / 65536 + s % 65536 < 65536 := by
  obtain ⟨q, r, hr, rfl⟩ : ∃ q r, r < 65536 ∧ s = 65536 * q + r :=
    ⟨s / 65536, s % 65536, Nat.mod_lt _ (by decide), (Nat.div_add_mod s 65536).symm⟩
  have hq : (65536 * q + r) / 65536 = q := by omega
  have hr' : (65536 * q + r) % 65536 = r := by omega
  rw [hq, hr']
  rcases Nat.lt_or_ge (q + r) 65536 with hfit | hcarry
  · rw [Nat.mod_eq_of_lt hfit,
      show 65536 * q + r + h * 256 + (65535 - (q + r)) = 65535 * (q + 1) + h * 256 by omega]
    rw [Nat.dvd_add_right (Nat.dvd_mul_right _ _)]
    constructor
    · rintro ⟨k, hk⟩
      exact ⟨by omega, hfit⟩
    · rintro ⟨rfl, -⟩
      exact Nat.dvd_zero _
  · rw [show (q + r) % 65536 = q + r - 65536 by omega,
      show 65536 * q + r + h * 256 + (65535 - (q + r - 65536)) = 65535 * (q + 2) + (h * 256 + 1) by omega]
    rw [Nat.dvd_add_right (Nat.dvd_mul_right _ _)]
    constructor
    · rintro ⟨k, hk⟩
      omega
    · rintro ⟨-, hfit⟩
      omega

theorem ipHeader_sum_iff (gReplyMac : BitVec 48) (rd : RcvData) :
    onesSum (wordsBE (sndOf gReplyMac rd).ipHeader) = 0xffff ↔
      rd.totalLength < 256 ∧ rd.wordSum / 65536 + rd.wordSum % 65536 < 65536 := by
  have hmask : (0xffff : BitVec 16) = BitVec.allOnes 16 := by decide
  rw [hmask, onesSum_eq_allOnes (by decide), plainSum_ipHeader, toNat_sndChecksum,
    show 2 ^ 16 - 1 = 65535 by decide]
  have hsrc := addressSum_lt rd.srcIP
  have hdst := addressSum_lt rd.dstIP
  have htotal : rd.totalLength < 65536 := (byteSwap _).isLt
  have hwords : rd.wordSum = 0x4500 + rd.totalLength + 0x4011 + addressSum rd.dstIP + addressSum rd.srcIP :=
    rfl
  obtain ⟨s, hs⟩ : ∃ s, s = rd.wordSum - rd.totalLength / 256 * 256 := ⟨_, rfl⟩
  have harith := checksum_arith (s := s) (h := rd.totalLength / 256) (by omega) (by omega)
  have hpos : 0 < s := by omega
  rw [← hs, show rd.wordSum = s + rd.totalLength / 256 * 256 by omega]
  constructor
  · rintro ⟨-, hdvd⟩
    obtain ⟨hh, hfit⟩ := harith.mp hdvd
    rw [hh, Nat.zero_mul, Nat.add_zero]
    exact ⟨by omega, hfit⟩
  · rintro ⟨hsmall, hfit⟩
    have hh : rd.totalLength / 256 = 0 := Nat.div_eq_of_lt hsmall
    rw [hh, Nat.zero_mul, Nat.add_zero] at hfit
    exact ⟨Nat.add_pos_left (Nat.add_pos_left hpos _) _, harith.mpr ⟨hh, hfit⟩⟩

/-- **The header checksum.**  For every packet `coreout` is given in `Idle`, the header sent
for it sums to ones if and only if the total length is below 256 and the sum of the other
words of the header does not carry when it is folded. -/
theorem ip_checksum_iff (gReplyMac : BitVec 48) (st : Coreout) (inp : Nat → OutIn)
    (hidle : st.s = .idle) (hdv : (inp 0).rcvDataDv = true) :
    ∃ bytes, MacSnd.Emitted (trace (Coreout.cycle gReplyMac) st inp 8).sd bytes ∧
      (onesSum (wordsBE ((bytes.drop 14).take 20)) = 0xffff ↔
        (inp 0).rcvData.totalLength < 256 ∧
          (inp 0).rcvData.wordSum / 65536 + (inp 0).rcvData.wordSum % 65536 < 65536) := by
  obtain ⟨-, -, -, hsd⟩ := coreout_run gReplyMac hidle inp hdv
  refine ⟨_, MacSnd.emitted_bytes (by rw [hsd]; exact sndOf_cnt _ _), ?_⟩
  rw [hsd, SndData.ipHeader_of_bytes]
  exact ipHeader_sum_iff gReplyMac (inp 0).rcvData

/-- A packet of 256 bytes in all. -/
def longPacket : RcvData := { RcvData.zero with ipLength := 0x1000, dnsLength := 228 }

theorem ip_checksum_iff_long : ∃ bytes,
    MacSnd.Emitted (trace (Coreout.cycle replyMac) .init (fun _ => ⟨longPacket, true⟩) 8).sd bytes ∧
      onesSum (wordsBE ((bytes.drop 14).take 20)) ≠ 0xffff := by
  obtain ⟨bytes, hbytes, hiff⟩ := ip_checksum_iff replyMac .init (fun _ => ⟨longPacket, true⟩) rfl rfl
  exact ⟨bytes, hbytes, fun h => absurd (hiff.mp h).1 (by decide)⟩

/-- Its header does not sum to ones. -/
theorem ip_checksum_long : ¬ ∀ (st : Coreout) (inp : Nat → OutIn), st.s = .idle →
    (inp 0).rcvDataDv = true → 28 ≤ (inp 0).rcvData.totalLength →
    ∀ bytes, MacSnd.Emitted (trace (Coreout.cycle replyMac) st inp 8).sd bytes →
      onesSum (wordsBE ((bytes.drop 14).take 20)) = 0xffff := by
  intro h
  obtain ⟨-, -, -, hsd⟩ := @coreout_run replyMac .init rfl
    (fun _ => ⟨longPacket, true⟩) rfl
  have hall := h .init (fun _ => ⟨longPacket, true⟩) rfl rfl (by decide) _
    (MacSnd.emitted_bytes (by rw [hsd]; exact sndOf_cnt _ _))
  rw [hsd, SndData.ipHeader_of_bytes, ipHeader_sum_iff] at hall
  exact absurd hall.1 (by decide)

/-! ## The lengths -/

/-- Word `k` of a frame: the total length is word 8, the UDP length word 19. -/
def wordAt (bytes : List (BitVec 8)) (k : Nat) : Nat := ((wordsBE bytes).getD k 0).toNat

/-- The words of the headers up to the UDP length. -/
theorem wordsBE_bytes (d : SndData) : ∃ w₀ w₁ w₂ w₃ w₄ w₅ w₁₁ w₁₃ w₁₄ w₁₅ w₁₆ rest, wordsBE d.bytes =
    w₀ :: w₁ :: w₂ :: w₃ :: w₄ :: w₅ :: 0x0800 :: 0x4500 :: byteSwap d.ipLength :: 0x0000 :: 0x0000 ::
      w₁₁ :: byteSwap d.ipChecksum :: w₁₃ :: w₁₄ :: w₁₅ :: w₁₆ ::
      byteSwap d.srcPort :: byteSwap d.dstPort :: byteSwap d.udpLength :: rest := by
  have hmac (v : BitVec 48) (rest : List (BitVec 8)) : ∃ a b c,
      wordsBE (bytesLE v 6 ++ rest) = a :: b :: c :: wordsBE rest := ⟨_, _, _, rfl⟩
  have hip (v : BitVec 32) (rest : List (BitVec 8)) : ∃ a b,
      wordsBE (bytesLE v 4 ++ rest) = a :: b :: wordsBE rest := ⟨_, _, rfl⟩
  have httl (v : BitVec 8) (rest : List (BitVec 8)) : ∃ a,
      wordsBE (bytesLE v 1 ++ 0x11 :: rest) = a :: wordsBE rest := ⟨_, rfl⟩
  simp only [SndData.bytes, SndData.header, List.append_assoc, List.cons_append, List.nil_append]
  obtain ⟨w₀, w₁, w₂, h⟩ := hmac d.dstMAC _
  rw [h]
  obtain ⟨w₃, w₄, w₅, h⟩ := hmac d.srcMAC _
  rw [h, wordsBE_cons, wordsBE_cons, word_bytesLE, wordsBE_cons, wordsBE_cons]
  obtain ⟨w₁₁, h⟩ := httl d.ipTTL _
  rw [h, word_bytesLE]
  obtain ⟨w₁₃, w₁₄, h⟩ := hip d.srcIP _
  rw [h]
  obtain ⟨w₁₅, w₁₆, h⟩ := hip d.dstIP _
  rw [h, word_bytesLE, word_bytesLE, word_bytesLE]
  exact ⟨w₀, w₁, w₂, w₃, w₄, w₅, w₁₁, w₁₃, w₁₄, w₁₅, w₁₆, _, rfl⟩

theorem totalLength_of_bytes (gReplyMac : BitVec 48) (rd : RcvData) :
    wordAt (sndOf gReplyMac rd).bytes 8 = rd.totalLength := by
  obtain ⟨_, _, _, _, _, _, _, _, _, _, _, _, h⟩ := wordsBE_bytes (sndOf gReplyMac rd)
  rw [wordAt, h]
  rfl

theorem udpLength_of_bytes (gReplyMac : BitVec 48) (rd : RcvData) :
    wordAt (sndOf gReplyMac rd).bytes 19 = 8 + min rd.dnsLength 128 := by
  obtain ⟨_, _, _, _, _, _, _, _, _, _, _, _, h⟩ := wordsBE_bytes (sndOf gReplyMac rd)
  rw [wordAt, h]
  show (byteSwap (byteSwap (sndLength rd))).toNat = _
  rw [byteSwap_byteSwap, sndLength_eq, BitVec.toNat_ofNat]
  omega

/-- The total length of a received frame. -/
def UdpFrame.totalLength (f : UdpFrame) : Nat := (f.ipLength[0] ++ f.ipLength[1]).toNat

/-- The nibbles are sent in the order they came in. -/
theorem rcvData_totalLength (f : UdpFrame) : f.rcvData.totalLength = f.totalLength := by
  have hlist : f.ipLength.toList = [f.ipLength[0], f.ipLength[1]] := by
    apply List.ext_getElem (by simp)
    intro i hi _
    obtain rfl | rfl : i = 0 ∨ i = 1 := by
      rw [Vector.length_toList] at hi
      omega
    all_goals simp
  rw [RcvData.totalLength, UdpFrame.totalLength, UdpFrame.rcvData, hlist]
  generalize f.ipLength[0] = a
  generalize f.ipLength[1] = b
  have hbyte (c : BitVec 8) : c.toNat = (c.extractLsb' 4 4).toNat * 16 + (c.extractLsb' 0 4).toNat := by
    have hc := c.isLt
    simp only [BitVec.extractLsb'_toNat, Nat.shiftRight_eq_div_pow]
    omega
  have ha := hbyte a
  have hb := hbyte b
  simp only [nibbles_cons, nibbles_nil, List.foldl_cons, List.foldl_nil]
  generalize a.extractLsb' 0 4 = a₀ at ha ⊢
  generalize a.extractLsb' 4 4 = a₁ at ha ⊢
  generalize b.extractLsb' 0 4 = b₀ at hb ⊢
  generalize b.extractLsb' 4 4 = b₁ at hb ⊢
  have h₀ := a₀.isLt
  have h₁ := a₁.isLt
  have h₂ := b₀.isLt
  have h₃ := b₁.isLt
  have hv : (BitVec.ofNat 16 ((((0 * 16 + a₀.toNat) * 16 + a₁.toNat) * 16 + b₀.toNat) * 16 + b₁.toNat)).toNat =
      a₀.toNat * 4096 + a₁.toNat * 256 + b₀.toNat * 16 + b₁.toNat := by
    rw [BitVec.toNat_ofNat]
    omega
  generalize BitVec.ofNat 16 _ = v at hv ⊢
  -- the nibbles of `v`, from the top
  have hq₀ : v.toNat / 4096 = a₀.toNat := by omega
  have hq₁ : v.toNat / 256 = a₀.toNat * 16 + a₁.toNat := by omega
  have hq₂ : v.toNat / 16 = (a₀.toNat * 16 + a₁.toNat) * 16 + b₀.toNat := by omega
  have hq₃ : v.toNat / 1 = ((a₀.toNat * 16 + a₁.toNat) * 16 + b₀.toNat) * 16 + b₁.toNat := by omega
  rw [byteSwap_nibbleSwap, toNat_append, toNat_append, toNat_append, toNat_append, ha, hb]
  have hlow (q r : Nat) (hr : r < 2 ^ 4) : (q * 16 + r) % 16 = r := by omega
  simp only [downto, BitVec.extractLsb'_toNat, Nat.shiftRight_eq_div_pow, Nat.reducePow, hq₀, hq₁, hq₂,
    hq₃, hlow _ _ h₁, hlow _ _ h₂, hlow _ _ h₃, Nat.mod_eq_of_lt h₀]
  rfl

/-- Whatever was received before, this is on `el_data` behind a gap and the frame. -/
theorem received_eq (hist : List RxIn) (rxd x : BitVec 4) (fr : UdpFrame) :
    (run MacRcv.cycle .init (hist ++ [⟨false, rxd⟩] ++ MacRcv.burst (nibbles fr.bytes ++ [x]))).d =
      fr.rcvData := by
  obtain ⟨hs, hc, -⟩ := MacRcv.idle_of_gap (hist ++ [⟨false, rxd⟩]) (by simp)
  rw [run_append, (MacRcv.frame_notified fr x hs hc).2]

/-- **The lengths of a packet sent on.**  For every frame received whose total length is that
of its headers and payload, and every run in which `corein` sends it on: the total length sent
is 20 more than the UDP length, and that is 8 more than the number of payload bytes of the
packet, if and only if the packet is replaced by a DNS reply or came without options and
with at most 128 bytes of payload. -/
theorem forwarded_lengths_iff (g : Generics) (gReplyMac : BitVec 48) (f₀ : Filter) (t₀ : Tally)
    (inp : Nat → CoreinIn) (n m : Nat) (hist : List RxIn) (rxd x : BitVec 4) (fr : UdpFrame)
    (hwell : fr.totalLength = 4 * fr.ihl + (8 + fr.payload.length))
    (hsent : SentOn g (trace (Processors.cycle g gReplyMac) (.start f₀ t₀) inp) inp
      (run MacRcv.cycle .init (hist ++ [⟨false, rxd⟩] ++ MacRcv.burst (nibbles fr.bytes ++ [x]))).d n m) :
    let tr := trace (Processors.cycle g gReplyMac) (.start f₀ t₀) inp
    let mode := (tr n).ci.core.f.replyType
    (tr (n + m + 8)).co.elSndEn = true ∧
      ∃ bytes, MacSnd.Emitted (tr (n + m + 8)).co.sd bytes ∧
        ((wordAt bytes 8 = 20 + wordAt bytes 19 ∧
            wordAt bytes 19 = 8 + if mode then 12 else min fr.payload.length 128) ↔
          (mode = true ∨ (fr.ihl = 5 ∧ fr.payload.length ≤ 128))) := by
  rw [received_eq] at hsent
  obtain ⟨hup, hsd⟩ := sentOn_handed hsent
  refine ⟨hup, _, MacSnd.emitted_bytes (by rw [hsd]; exact sndOf_cnt _ _), ?_⟩
  rw [hsd, totalLength_of_bytes, udpLength_of_bytes]
  have hrange := fr.ihl_range
  generalize (trace (Processors.cycle g gReplyMac) (.start f₀ t₀) inp n).ci.core.f.replyType = mode
  cases mode with
  | true =>
      have hlengths : (sentOf g true fr.rcvData).ipLength = 130 ∧
          (sentOf g true fr.rcvData).dnsLength = 12 := ⟨rfl, rfl⟩
      rw [RcvData.totalLength, hlengths.1, hlengths.2]
      exact ⟨fun _ => .inl rfl, fun _ => ⟨by decide, rfl⟩⟩
  | false =>
      have hlengths : (sentOf g false fr.rcvData).totalLength = fr.totalLength ∧
          (sentOf g false fr.rcvData).dnsLength = fr.payload.length := ⟨rcvData_totalLength fr, rfl⟩
      rw [hlengths.1, hlengths.2, hwell]
      simp only [Bool.false_eq_true, if_false, false_or, and_true]
      omega

/-- The first `k` bytes of a field. -/
def bytesOf {w : Nat} (v : BitVec w) (k : Nat) : Vector (BitVec 8) k :=
  ⟨(bytesLE v k).toArray, by simp⟩

@[simp] theorem toList_bytesOf {w : Nat} (v : BitVec w) (k : Nat) : (bytesOf v k).toList = bytesLE v k :=
  rfl

/-- A frame the power-on filter accepts: one byte of payload, and `4 * (ihl - 5)` of options. -/
def acceptedFrame (ihl : Nat) (h : 5 ≤ ihl ∧ ihl ≤ 15) : UdpFrame where
  dstMAC := .replicate 6 0
  srcMAC := bytesOf (0xae295f290c00 : BitVec 48) 6
  ihl := ihl
  ihl_range := h
  dscpEcn := 0
  ipLength := #v[0, BitVec.ofNat 8 (4 * ihl + 9)]
  ipID := .replicate 2 0
  ttl := 0x40
  ipChecksum := .replicate 2 0
  srcIP := .replicate 4 0
  dstIP := .replicate 4 0
  options := .replicate _ 0
  srcPort := dnsPort
  dstPort := dnsPort
  udpChecksum := .replicate 2 0
  payload := [0x61]
  payload_range := by decide

/-- It is sent on from power-on. -/
theorem acceptedFrame_sentOn (fr : UdpFrame) (hacc : Filter.init.accepts fr.rcvData = true)
    (hadmin : fr.rcvData.dstMAC ≠ ({} : Generics).adminMac)
    (hquery : fr.rcvData.dstMAC ≠ ({} : Generics).queryMac) :
    ∃ m, SentOn {} (trace (Processors.cycle {} replyMac) (.start .init ⟨0, 0, 0, 0, 0⟩)
      (fun _ => ⟨fr.rcvData, true⟩)) (fun _ => ⟨fr.rcvData, true⟩) fr.rcvData 0 m :=
  accepted_sentOn rfl rfl rfl Filter.init_inRange.endPtr_dvd rfl hadmin hquery hacc

/-- Without options, from power-on. -/
theorem forwarded_lengths_iff_plain : ∃ m bytes,
    MacSnd.Emitted (trace (Processors.cycle {} replyMac) (.start .init ⟨0, 0, 0, 0, 0⟩)
      (fun _ => ⟨(acceptedFrame 5 (by decide)).rcvData, true⟩) (0 + m + 8)).co.sd bytes ∧
      wordAt bytes 8 = 20 + wordAt bytes 19 ∧ wordAt bytes 19 = 8 + 1 := by
  obtain ⟨m, hm⟩ := acceptedFrame_sentOn (acceptedFrame 5 (by decide)) (by decide +kernel)
    (by decide +kernel) (by decide +kernel)
  rw [← received_eq [] 0x0 0x0] at hm
  obtain ⟨-, bytes, hbytes, hiff⟩ := forwarded_lengths_iff {} replyMac .init ⟨0, 0, 0, 0, 0⟩
    _ 0 m [] 0x0 0x0 (acceptedFrame 5 (by decide)) (by decide) hm
  rw [received_eq] at hbytes hiff
  exact ⟨m, bytes, hbytes, hiff.mpr (.inr ⟨rfl, by decide⟩)⟩

/-- With one option word: a total length of 33 over a UDP length of 9. -/
theorem forwarded_lengths_options : ¬ ∀ (inp : Nat → CoreinIn) (n m : Nat) (hist : List RxIn)
    (rxd x : BitVec 4) (fr : UdpFrame), fr.totalLength = 4 * fr.ihl + (8 + fr.payload.length) →
    SentOn {} (trace (Processors.cycle {} replyMac) (.start .init ⟨0, 0, 0, 0, 0⟩) inp) inp
      (run MacRcv.cycle .init (hist ++ [⟨false, rxd⟩] ++ MacRcv.burst (nibbles fr.bytes ++ [x]))).d n m →
    ∀ bytes, MacSnd.Emitted (trace (Processors.cycle {} replyMac) (.start .init ⟨0, 0, 0, 0, 0⟩) inp
      (n + m + 8)).co.sd bytes → wordAt bytes 8 = 20 + wordAt bytes 19 := by
  intro h
  obtain ⟨m, hm⟩ := acceptedFrame_sentOn (acceptedFrame 6 (by decide)) (by decide +kernel)
    (by decide +kernel) (by decide +kernel)
  obtain ⟨-, hsd⟩ := sentOn_handed hm
  have hbytes := h _ 0 m [] 0x0 0x0 (acceptedFrame 6 (by decide)) (by decide)
    (by rw [received_eq]; exact hm) _ (MacSnd.emitted_bytes (by rw [hsd]; exact sndOf_cnt _ _))
  rw [hsd, totalLength_of_bytes, udpLength_of_bytes] at hbytes
  have htotal : (sentOf {} false (acceptedFrame 6 (by decide)).rcvData).totalLength = 33 := by
    decide +kernel
  have hlength : (sentOf {} false (acceptedFrame 6 (by decide)).rcvData).dnsLength = 1 := by
    decide +kernel
  have hbytes' : (sentOf {} false (acceptedFrame 6 (by decide)).rcvData).totalLength =
      20 + (8 + min (sentOf {} false (acceptedFrame 6 (by decide)).rcvData).dnsLength 128) := hbytes
  rw [htotal, hlength] at hbytes'
  exact absurd hbytes' (by decide)

end DnsAdtm.Hw
