/-
# `Hw.Coreout` — `o.vhd`

The output processor takes a packet from `corein` in `Idle` and makes it a `snd_data_t` in
seven periods; `el_snd_data` is `sd`.  As in `corein` the registers `s` follow `sin` at the
falling edge, so one step is one clock period.

    coreout_run    from a packet taken in `Idle`: `el_snd_en` eight periods later, with
                   `sndOf` of the packet on `sd`, and nothing in between
-/
import DnsAdtm.Hw.Common
import DnsAdtm.Lib.Machine

namespace DnsAdtm.Hw

open Machine

/-- `state_t` of `coreout`. -/
inductive OutState where
  | idle | metaInfo | checksumCalc | checksumPopulate | ipHeader | udpHeader | finalise | send
  deriving DecidableEq, Repr

/-- The variables of process `snd`. -/
structure OutVars where
  ipLengthbuf : BitVec 16
  udpLengthbuf : BitVec 16
  srcIPchecksumbuf : BitVec 32
  dstIPchecksumbuf : BitVec 32
  dnsLengthbuf : Nat
  deriving DecidableEq, Repr

/-- The registers `s` (`ostate_t`), `rd` and `sd`, the output `el_snd_en` and the variables. -/
structure Coreout where
  s : OutState
  chksumbuf : BitVec 32
  rd : RcvData
  sd : SndData
  elSndEn : Bool
  v : OutVars
  deriving DecidableEq, Repr

/-- `rcv_data` and `rcv_data_dv`. -/
structure OutIn where
  rcvData : RcvData
  rcvDataDv : Bool

/-- `x"0000" & ip(23 DOWNTO 16) & ip(31 DOWNTO 24)` plus `x"0000" & ip(7 DOWNTO 0) & ip(15 DOWNTO 8)`. -/
def ipChecksumbuf (ip : BitVec 32) : BitVec 32 :=
  (0#16 ++ (downto ip 23 16 : BitVec 8) ++ (downto ip 31 24 : BitVec 8)) +
    (0#16 ++ (downto ip 7 0 : BitVec 8) ++ (downto ip 15 8 : BitVec 8))

/-- The sum of `ChecksumCalc`. -/
def headerSum (ipLengthbuf : BitVec 16) (ipTTL : BitVec 8) (src dst : BitVec 32) : BitVec 32 :=
  0x00004500 + (0#24 ++ (downto ipLengthbuf 3 0 : BitVec 4) ++ (downto ipLengthbuf 7 4 : BitVec 4)) +
    (0#16 ++ ipTTL ++ 0x11#8) + src + dst

/-- The fold and complement of `ChecksumPopulate`; the sum is of 16 bits. -/
def foldSum (sum : BitVec 32) : BitVec 32 :=
  ~~~((downto sum 31 16 + downto sum 15 0 : BitVec 16).setWidth 32)

/-- An assignment to `dnsPktCnt`, of range 0 to 1023. -/
def toPktCnt (x : Int) : Nat := (x % 1024).toNat

/-- One clock period. -/
def Coreout.cycle (gReplyMac : BitVec 48) (st : Coreout) (i : OutIn) : Coreout :=
  let o := { st with elSndEn := false }
  match st.s with
  | .idle =>
      if i.rcvDataDv then { o with s := .metaInfo, rd := i.rcvData } else { o with s := .idle }
  | .metaInfo =>
      { o with
        sd.srcIP := st.rd.dstIP
        sd.dstIP := st.rd.srcIP
        sd.srcPort := st.rd.dstPort
        sd.dstPort := st.rd.srcPort
        sd.ipTTL := 0x40
        v.ipLengthbuf := BitVec.ofNat 16 st.rd.ipLength
        v.dnsLengthbuf := st.rd.dnsLength
        v.srcIPchecksumbuf := ipChecksumbuf st.rd.dstIP
        v.dstIPchecksumbuf := ipChecksumbuf st.rd.srcIP
        s := .checksumCalc }
  | .checksumCalc =>
      { o with
        chksumbuf := headerSum st.v.ipLengthbuf st.sd.ipTTL st.v.srcIPchecksumbuf
          st.v.dstIPchecksumbuf
        -- at most 128 bytes are sent
        sd.dnsPktCnt := if 128 ≤ st.v.dnsLengthbuf then 1020
          else toPktCnt (st.rd.dnsLength * 8 - 4)
        v.udpLengthbuf := if 128 ≤ st.v.dnsLengthbuf then 136
          else BitVec.ofNat 16 (st.rd.dnsLength + 8)
        s := .checksumPopulate }
  | .checksumPopulate =>
      { o with chksumbuf := foldSum st.chksumbuf, sd.udpChecksum := 0x0000, s := .ipHeader }
  | .ipHeader =>
      { o with
        sd.ipLength := put (put (put (put st.sd.ipLength
          3 0 (downto st.v.ipLengthbuf 15 12 : BitVec 4))
          7 4 (downto st.v.ipLengthbuf 11 8 : BitVec 4))
          11 8 (downto st.v.ipLengthbuf 7 4 : BitVec 4))
          15 12 (downto st.v.ipLengthbuf 3 0 : BitVec 4)
        sd.ipChecksum := put (put st.sd.ipChecksum
          15 8 (downto st.chksumbuf 7 0 : BitVec 8))
          7 0 (downto st.chksumbuf 15 8 : BitVec 8)
        s := .udpHeader }
  | .udpHeader =>
      { o with
        sd.udpLength := put (put st.sd.udpLength
          15 8 (downto st.v.udpLengthbuf 7 0 : BitVec 8))
          7 0 (downto st.v.udpLengthbuf 15 8 : BitVec 8)
        s := .finalise }
  | .finalise =>
      { o with
        sd.srcMAC := st.rd.dstMAC
        sd.dstMAC := gReplyMac
        sd.dnsPkt := st.rd.dnsPkt
        s := .send }
  | .send => { o with elSndEn := true, s := .idle }

/-- The power-on registers. -/
def Coreout.init : Coreout where
  s := .idle
  chksumbuf := 0
  rd := .zero
  sd := .zero
  elSndEn := false
  v := ⟨0, 0, 0, 0, 0⟩

/-- The generic `g_reply_mac`. -/
def replyMac : BitVec 48 := 0x06bd5332a6dc

/-! ## What is made of a packet -/

/-- Four nibbles in the opposite order. -/
def nibbleSwap (v : BitVec 16) : BitVec 16 :=
  downto v 3 0 (m := 4) ++ downto v 7 4 (m := 4) ++ downto v 11 8 (m := 4) ++ downto v 15 12 (m := 4)

/-- Two bytes in the opposite order. -/
def byteSwap (v : BitVec 16) : BitVec 16 := downto v 7 0 (m := 8) ++ downto v 15 8 (m := 8)

theorem put_nibbles (u v : BitVec 16) :
    put (put (put (put u 3 0 (downto v 15 12 : BitVec 4)) 7 4 (downto v 11 8 : BitVec 4))
      11 8 (downto v 7 4 : BitVec 4)) 15 12 (downto v 3 0 : BitVec 4) = nibbleSwap v := by
  apply BitVec.eq_of_getLsbD_eq
  intro i hi
  simp only [put, getLsbD_setSlice, nibbleSwap, BitVec.getLsbD_append, getLsbD_downto]
  interval_cases i <;> rfl

theorem put_bytes (u v : BitVec 16) :
    put (put u 15 8 (downto v 7 0 : BitVec 8)) 7 0 (downto v 15 8 : BitVec 8) = byteSwap v := by
  apply BitVec.eq_of_getLsbD_eq
  intro i hi
  simp only [put, getLsbD_setSlice, byteSwap, BitVec.getLsbD_append, getLsbD_downto]
  interval_cases i <;> rfl

/-- The UDP length of the frame: eight bytes of header, and no more than 128 of payload. -/
def sndLength (rd : RcvData) : BitVec 16 :=
  if 128 ≤ rd.dnsLength then 136 else BitVec.ofNat 16 (rd.dnsLength + 8)

/-- The checksum of the frame, high byte first. -/
def sndChecksum (rd : RcvData) : BitVec 16 :=
  (foldSum (headerSum (BitVec.ofNat 16 rd.ipLength) 0x40 (ipChecksumbuf rd.dstIP)
    (ipChecksumbuf rd.srcIP))).setWidth 16

/-- What `coreout` makes of a packet. -/
def sndOf (gReplyMac : BitVec 48) (rd : RcvData) : SndData where
  srcMAC := rd.dstMAC
  dstMAC := gReplyMac
  srcIP := rd.dstIP
  dstIP := rd.srcIP
  ipLength := nibbleSwap (BitVec.ofNat 16 rd.ipLength)
  ipChecksum := byteSwap (sndChecksum rd)
  ipTTL := 0x40
  srcPort := rd.dstPort
  dstPort := rd.srcPort
  udpLength := byteSwap (sndLength rd)
  udpChecksum := 0x0000
  dnsPktCnt := if 128 ≤ rd.dnsLength then 1020 else toPktCnt (rd.dnsLength * 8 - 4)
  dnsPkt := rd.dnsPkt

/-- The low half of a sum, as `IPHeader` stores it. -/
theorem put_checksum (u : BitVec 16) (sum : BitVec 32) :
    put (put u 15 8 (downto sum 7 0 : BitVec 8)) 7 0 (downto sum 15 8 : BitVec 8) =
      byteSwap (sum.setWidth 16) := by
  apply BitVec.eq_of_getLsbD_eq
  intro i hi
  simp only [put, getLsbD_setSlice, byteSwap, BitVec.getLsbD_append, getLsbD_downto,
    BitVec.getLsbD_setWidth]
  interval_cases i <;> simp

variable (gReplyMac : BitVec 48) {st : Coreout}

/-- The seven periods behind `Idle`. -/
theorem metaInfo_run (h : st.s = .metaInfo) (inp : Nat → OutIn) :
    let tr := trace (Coreout.cycle gReplyMac) st inp
    (∀ n < 7, (tr n).s ≠ .idle ∧ (0 < n → (tr n).elSndEn = false)) ∧
      (tr 7).s = .idle ∧ (tr 7).elSndEn = true ∧ (tr 7).sd = sndOf gReplyMac st.rd := by
  obtain ⟨s, chksumbuf, rd, sd, elSndEn, v⟩ := st
  obtain rfl : s = .metaInfo := h
  refine ⟨?_, rfl, rfl, ?_⟩
  · intro n hn
    interval_cases n <;> exact ⟨nofun, fun h => by first | rfl | exact absurd h (by decide)⟩
  · simp only [trace_succ, trace_zero, Coreout.cycle, put_nibbles, put_bytes, put_checksum]
    rfl

/-- A packet is taken in `Idle`. -/
theorem cycle_take {i : OutIn} (h : st.s = .idle) (hdv : i.rcvDataDv = true) :
    st.cycle gReplyMac i = { st with elSndEn := false, s := .metaInfo, rd := i.rcvData } := by
  unfold Coreout.cycle
  rw [h]
  simp only [hdv, if_true]

/-- A packet taken in `Idle` is sent eight periods later, and nothing before it. -/
theorem coreout_run (hidle : st.s = .idle) (inp : Nat → OutIn) (hdv : (inp 0).rcvDataDv = true) :
    let tr := trace (Coreout.cycle gReplyMac) st inp
    (∀ n, 0 < n → n < 8 → (tr n).s ≠ .idle ∧ (tr n).elSndEn = false) ∧
      (tr 8).s = .idle ∧ (tr 8).elSndEn = true ∧ (tr 8).sd = sndOf gReplyMac (inp 0).rcvData := by
  intro tr
  have htake := cycle_take gReplyMac hidle hdv
  obtain ⟨hbusy, hdone, hen, hsd⟩ := @metaInfo_run gReplyMac (st.cycle gReplyMac (inp 0))
    (by rw [htake]) fun t => inp (t + 1)
  simp only [← trace_succ'] at hbusy hdone hen hsd
  refine ⟨fun n h0 hn => ?_, hdone, hen, by rw [hsd, htake]⟩
  obtain ⟨m, rfl⟩ : ∃ m, n = m + 1 := ⟨n - 1, by omega⟩
  refine ⟨(hbusy m (by omega)).1, ?_⟩
  rcases Nat.eq_zero_or_pos m with rfl | hm
  · show (st.cycle gReplyMac (inp 0)).elSndEn = false
    rw [htake]
  · exact (hbusy m (by omega)).2 hm

/-! ## Between two packets -/

/-- How many periods are left until `Idle`. -/
def OutState.left : OutState → Nat
  | .idle => 0
  | .metaInfo => 7
  | .checksumCalc => 6
  | .checksumPopulate => 5
  | .ipHeader => 4
  | .udpHeader => 3
  | .finalise => 2
  | .send => 1

/-- A busy `coreout` counts down and keeps its packet, whatever is offered to it. -/
theorem cycle_left {i : OutIn} (h : st.s ≠ .idle) :
    (st.cycle gReplyMac i).s.left + 1 = st.s.left ∧ (st.cycle gReplyMac i).rd = st.rd := by
  unfold Coreout.cycle
  cases hs : st.s <;> first | exact absurd hs h | exact ⟨rfl, rfl⟩

theorem OutState.left_pos {s : OutState} (h : s ≠ .idle) : 0 < s.left := by
  cases s <;> first | exact absurd rfl h | decide

/-- `el_snd_en` is up in the period behind `Send`, and in no other. -/
theorem cycle_elSndEn {i : OutIn} : (st.cycle gReplyMac i).elSndEn = decide (st.s = .send) := by
  unfold Coreout.cycle
  cases hs : st.s
  case idle =>
    dsimp only
    split <;> rfl
  all_goals rfl

/-- An idle one waits for a packet. -/
theorem cycle_idle {i : OutIn} (h : st.s = .idle) (hdv : i.rcvDataDv = false) :
    (st.cycle gReplyMac i).s = .idle ∧ (st.cycle gReplyMac i).elSndEn = false := by
  unfold Coreout.cycle
  rw [h]
  simp [hdv]

/-- The packet made ready stays as it is in `Idle`. -/
theorem cycle_sd {i : OutIn} (h : st.s = .idle) : (st.cycle gReplyMac i).sd = st.sd := by
  unfold Coreout.cycle
  rw [h]
  dsimp only
  split <;> rfl

end DnsAdtm.Hw
