/-
# `Hw.MacSnd` — `mac_snd.vhd`

The sender: one step is one period of `E_TX_CLK`.  At the rising edge `snd_nsl` assigns
`sin`, `d`, `E_TXD`, `E_TX_EN` and `el_snd_ack`; at the falling edge `s <= sin`.  Most states
send one field of `d` nibble by nibble (`MacSnd.nibble`), and feed each nibble to the CRC.

The vectors of `nextCRC32_D4` count from the left: its bit `i` is the bit `31 - i` (of a
nibble `3 - i`) of the argument.
-/
import DnsAdtm.Hw.Common
import DnsAdtm.Lib.Machine

namespace DnsAdtm.Hw

/-- `nextCRC32_D4`. -/
def nextCRC32_D4 (data : BitVec 4) (crc : BitVec 32) : BitVec 32 :=
  let d := data.getMsbD
  let c := crc.getMsbD
  BitVec.ofBoolListBE [
    d 0 ^^ c 28,
    d 1 ^^ d 0 ^^ c 28 ^^ c 29,
    d 2 ^^ d 1 ^^ d 0 ^^ c 28 ^^ c 29 ^^ c 30,
    d 3 ^^ d 2 ^^ d 1 ^^ c 29 ^^ c 30 ^^ c 31,
    d 3 ^^ d 2 ^^ d 0 ^^ c 0 ^^ c 28 ^^ c 30 ^^ c 31,
    d 3 ^^ d 1 ^^ d 0 ^^ c 1 ^^ c 28 ^^ c 29 ^^ c 31,
    d 2 ^^ d 1 ^^ c 2 ^^ c 29 ^^ c 30,
    d 3 ^^ d 2 ^^ d 0 ^^ c 3 ^^ c 28 ^^ c 30 ^^ c 31,
    d 3 ^^ d 1 ^^ d 0 ^^ c 4 ^^ c 28 ^^ c 29 ^^ c 31,
    d 2 ^^ d 1 ^^ c 5 ^^ c 29 ^^ c 30,
    d 3 ^^ d 2 ^^ d 0 ^^ c 6 ^^ c 28 ^^ c 30 ^^ c 31,
    d 3 ^^ d 1 ^^ d 0 ^^ c 7 ^^ c 28 ^^ c 29 ^^ c 31,
    d 2 ^^ d 1 ^^ d 0 ^^ c 8 ^^ c 28 ^^ c 29 ^^ c 30,
    d 3 ^^ d 2 ^^ d 1 ^^ c 9 ^^ c 29 ^^ c 30 ^^ c 31,
    d 3 ^^ d 2 ^^ c 10 ^^ c 30 ^^ c 31,
    d 3 ^^ c 11 ^^ c 31,
    d 0 ^^ c 12 ^^ c 28,
    d 1 ^^ c 13 ^^ c 29,
    d 2 ^^ c 14 ^^ c 30,
    d 3 ^^ c 15 ^^ c 31,
    c 16,
    c 17,
    d 0 ^^ c 18 ^^ c 28,
    d 1 ^^ d 0 ^^ c 19 ^^ c 28 ^^ c 29,
    d 2 ^^ d 1 ^^ c 20 ^^ c 29 ^^ c 30,
    d 3 ^^ d 2 ^^ c 21 ^^ c 30 ^^ c 31,
    d 3 ^^ d 0 ^^ c 22 ^^ c 28 ^^ c 31,
    d 1 ^^ c 23 ^^ c 29,
    d 2 ^^ c 24 ^^ c 30,
    d 3 ^^ c 25 ^^ c 31,
    c 26,
    c 27]

/-- `state_t` of `mac_snd`. -/
inductive SndState where
  | idle | read | preamble | startOfFrame
  | etherMACDST | etherMACSRC | etherType
  | ipVersion | ipIHL | ipDSCPECN | ipLength | ipID | ipFlagsFragment | ipTTL | ipProtocol
  | ipChecksum | ipAddrSRC | ipAddrDST
  | udpPortSRC | udpPortDST | udpLength | udpChecksum
  | dnsMsg | frameCheck | interframeGap
  deriving DecidableEq, Repr

/-- The registers `s` (`snd_t`) and `d`, and the outputs. -/
structure MacSnd where
  s : SndState
  crc : BitVec 32
  c : Nat
  d : SndData
  txd : BitVec 4
  txEn : Bool
  ack : Bool
  deriving DecidableEq, Repr

/-- `el_data` and `el_snd_en`. -/
structure SndIn where
  elData : SndData
  elSndEn : Bool

namespace MacSnd

/-- Sends the nibble `x`, and on to the next count or, behind the last, to `next`. -/
def nibble (st : MacSnd) (x : BitVec 4) (step : Nat) (last : Bool) (next : SndState) : MacSnd :=
  { st with
    txd := x
    txEn := true
    ack := false
    crc := nextCRC32_D4 x st.crc
    c := if last then 0 else st.c + step
    s := if last then next else st.s }

/-- The nibble of `v` at the count. -/
def slice (st : MacSnd) {w : Nat} (v : BitVec w) : BitVec 4 := v.extractLsb' st.c 4

/-- One period. -/
def cycle (st : MacSnd) (i : SndIn) : MacSnd :=
  let o := { st with txd := 0x0, txEn := false, ack := false }
  match st.s with
  | .idle => if i.elSndEn then { o with c := 0, s := .read } else o
  | .read => { o with d := i.elData, ack := true, s := .preamble }
  | .preamble =>
      let o := { o with txd := 0x5, txEn := true }
      if st.c = 14 then { o with c := 0, s := .startOfFrame } else { o with c := st.c + 1 }
  | .startOfFrame =>
      { o with txd := 0xd, txEn := true, crc := 0xffffffff, c := 0, s := .etherMACDST }
  | .etherMACDST => st.nibble (st.slice st.d.dstMAC) 4 (st.c == 44) .etherMACSRC
  | .etherMACSRC => st.nibble (st.slice st.d.srcMAC) 4 (st.c == 44) .etherType
  | .etherType =>
      if st.c = 0 then st.nibble 0x8 1 false .ipIHL else st.nibble 0x0 1 (st.c == 3) .ipIHL
  | .ipIHL => st.nibble 0x5 1 true .ipVersion
  | .ipVersion => st.nibble 0x4 1 true .ipDSCPECN
  | .ipDSCPECN => st.nibble 0x0 1 (st.c == 1) .ipLength
  | .ipLength => st.nibble (st.slice st.d.ipLength) 4 (st.c == 12) .ipID
  | .ipID => st.nibble 0x0 1 (st.c == 3) .ipFlagsFragment
  | .ipFlagsFragment => st.nibble 0x0 1 (st.c == 3) .ipTTL
  | .ipTTL => st.nibble (st.slice st.d.ipTTL) 4 (st.c == 4) .ipProtocol
  | .ipProtocol => st.nibble 0x1 1 (st.c == 1) .ipChecksum
  | .ipChecksum => st.nibble (st.slice st.d.ipChecksum) 4 (st.c == 12) .ipAddrSRC
  | .ipAddrSRC => st.nibble (st.slice st.d.srcIP) 4 (st.c == 28) .ipAddrDST
  | .ipAddrDST => st.nibble (st.slice st.d.dstIP) 4 (st.c == 28) .udpPortSRC
  | .udpPortSRC => st.nibble (st.slice st.d.srcPort) 4 (st.c == 12) .udpPortDST
  | .udpPortDST => st.nibble (st.slice st.d.dstPort) 4 (st.c == 12) .udpLength
  | .udpLength => st.nibble (st.slice st.d.udpLength) 4 (st.c == 12) .udpChecksum
  | .udpChecksum => st.nibble (st.slice st.d.udpChecksum) 4 (st.c == 12) .dnsMsg
  | .dnsMsg =>
      st.nibble (st.slice st.d.dnsPkt) 4 (decide (st.d.dnsPktCnt ≤ st.c) && decide (140 ≤ st.c)) .frameCheck
  | .frameCheck =>
      let o := { o with txd := ~~~(st.slice st.crc), txEn := true }
      if st.c = 28 then { o with c := 0, s := .interframeGap } else { o with c := st.c + 4 }
  | .interframeGap =>
      if st.c = 23 then { o with c := 0, s := .idle } else { o with c := st.c + 1 }

/-- The power-on registers. -/
def init : MacSnd where
  s := .idle
  crc := 0xffffffff
  c := 0
  d := .zero
  txd := 0
  txEn := false
  ack := false

end MacSnd

end DnsAdtm.Hw
