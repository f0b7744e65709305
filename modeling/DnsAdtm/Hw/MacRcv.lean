/-
# `Hw.MacRcv` — `mac_rcv.vhd`

The receiver: one step is one clock period with `E_RX_DV` and one nibble.  At the rising
edge `rcv_nsl` reads `r` and assigns `rin`, `d` and `el_dv`; at the falling edge
`r <= rin`; `el_data` is `d`.

The counters are range-constrained to 16 bits.  The two expressions that can leave the
range, for a UDP length below 8 or above 8192, are kept as integers up to the assignment,
where they are cut to 16 bits.
-/
import DnsAdtm.Hw.Common
import DnsAdtm.Lib.Machine

namespace DnsAdtm.Hw

/-- `state_t` of `mac_rcv`. -/
inductive RcvState where
  | preamble | startOfFrame
  | etherMACDST | etherMACSRC | etherType
  | ipVersion | ipIHL | ipDSCPECN | ipLength | ipID | ipFlagsFragment | ipTTL | ipProtocol
  | ipChecksum | ipAddrSRC | ipAddrDST | ipOptions
  | udpPortSRC | udpPortDST | udpLength | udpChecksum
  | dnsMsgRecord | dnsMsgDiscard
  | notify
  deriving DecidableEq, Repr

/-- The registers `r` (`rcv_t`), `d` and `el_dv`. -/
structure MacRcv where
  s : RcvState
  c : Nat
  ipc : Nat
  udpc : Nat
  d : RcvData
  elDv : Bool
  deriving DecidableEq, Repr

/-- `E_RX_DV` and `E_RXD`. -/
structure RxIn where
  dv : Bool
  rxd : BitVec 4

/-- An assignment to a register of range 0 to 65535. -/
def toRange (x : Int) : Nat := (x % 65536).toNat

theorem toRange_natCast {n : Nat} (h : n < 65536) : toRange n = n := by
  rw [toRange]
  omega

namespace MacRcv

/-- The case of `rcv_nsl` for `E_RX_DV = '1'`, with `el_dv <= '0'` in front. -/
def nibble (st : MacRcv) (rxd : BitVec 4) : MacRcv :=
  let o := { st with elDv := false }
  match st.s with
  -- Ethernet II - Preamble and Start Of Frame
  | .preamble =>
      if rxd = 0x5 then
        if st.c = 14 then { o with c := 0, s := .startOfFrame } else { o with c := st.c + 1 }
      else { o with c := 0 }
  | .startOfFrame =>
      if rxd = 0xd then { o with s := .etherMACDST } else { o with s := .preamble }
  -- Ethernet II - MAC DST and MAC SRC
  | .etherMACDST =>
      let o := { o with d.dstMAC := setSlice st.d.dstMAC st.c rxd }
      if st.c = 44 then { o with c := 0, s := .etherMACSRC } else { o with c := st.c + 4 }
  | .etherMACSRC =>
      let o := { o with d.srcMAC := setSlice st.d.srcMAC st.c rxd }
      if st.c = 44 then { o with c := 0, s := .etherType } else { o with c := st.c + 4 }
  -- Ethernet II - Ethertype 0x0800
  | .etherType =>
      if rxd = 0x8 then
        if st.c = 0 then { o with c := st.c + 1 } else { o with c := 0, s := .preamble }
      else if rxd = 0x0 then
        if st.c = 3 then { o with c := 0, s := .ipIHL, d.ipHeaderLength := 0 }
        else if st.c = 0 then { o with c := 0, s := .preamble }
        else { o with c := st.c + 1 }
      else { o with c := 0, s := .preamble }
  -- IP - IHL 0x5
  | .ipIHL =>
      if 0x5 ≤ rxd then { o with d.ipHeaderLength := rxd.toNat, c := 0, s := .ipVersion }
      else { o with c := 0, d.ipHeaderLength := 0, s := .preamble }
  -- IP - Version 0x4
  | .ipVersion =>
      if rxd = 0x4 then { o with c := 0, s := .ipDSCPECN } else { o with c := 0, s := .preamble }
  -- IP - DSCP ECN
  | .ipDSCPECN =>
      if st.c = 1 then { o with c := 0, s := .ipLength, ipc := 0 } else { o with c := st.c + 1 }
  -- IP - Length
  | .ipLength =>
      let o := { o with ipc := toRange (st.ipc * 16 + rxd.toNat) }
      if st.c = 3 then { o with c := 0, s := .ipID } else { o with c := st.c + 1 }
  -- IP - ID
  | .ipID =>
      if st.c = 3 then { o with c := 0, s := .ipFlagsFragment, d.ipLength := st.ipc }
      else { o with c := st.c + 1 }
  -- IP Flags Fragment Offset 0x00
  | .ipFlagsFragment =>
      if rxd = 0x0 then
        if st.c = 3 then { o with c := 0, s := .ipTTL } else { o with c := st.c + 1 }
      else { o with c := 0, s := .preamble }
  -- IP TTL
  | .ipTTL =>
      if st.c = 1 then { o with c := 0, s := .ipProtocol } else { o with c := st.c + 1 }
  -- IP Protocol UDP 0x11
  | .ipProtocol =>
      if rxd = 0x1 then
        if st.c = 1 then { o with c := 0, s := .ipChecksum } else { o with c := st.c + 1 }
      else { o with c := 0, s := .preamble }
  -- IP Checksum
  | .ipChecksum =>
      if st.c = 3 then { o with c := 0, s := .ipAddrSRC } else { o with c := st.c + 1 }
  -- IP addr src
  | .ipAddrSRC =>
      let o := { o with d.srcIP := setSlice st.d.srcIP st.c rxd }
      if st.c = 28 then { o with c := 0, s := .ipAddrDST } else { o with c := st.c + 4 }
  -- IP addr dst
  | .ipAddrDST =>
      let o := { o with d.dstIP := setSlice st.d.dstIP st.c rxd }
      if st.c = 28 then
        { o with c := 0, s := if st.d.ipHeaderLength = 5 then .udpPortSRC else .ipOptions }
      else { o with c := st.c + 4 }
  -- IP Options, dependent on IPIHL > 5
  | .ipOptions =>
      if (st.c : Int) = ((st.d.ipHeaderLength : Int) - 5) * 8 - 1 then
        { o with c := 0, s := .udpPortSRC }
      else { o with c := st.c + 1 }
  -- UDP port src
  | .udpPortSRC =>
      let o := { o with d.srcPort := setSlice st.d.srcPort st.c rxd }
      if st.c = 12 then { o with c := 0, s := .udpPortDST } else { o with c := st.c + 4 }
  -- UDP port dst
  | .udpPortDST =>
      let o := { o with d.dstPort := setSlice st.d.dstPort st.c rxd }
      if st.c = 12 then { o with c := 0, s := .udpLength, udpc := 0 } else { o with c := st.c + 4 }
  -- UDP payload length
  | .udpLength =>
      let o :=
        if st.c = 0 ∨ st.c = 2 then { o with udpc := toRange (st.udpc + rxd.toNat) }
        else if st.c = 1 then { o with udpc := toRange ((st.udpc + rxd.toNat * 16) * 256) }
        else { o with udpc := toRange (st.udpc + rxd.toNat * 16 - 8) }
      if st.c = 3 then { o with c := 0, s := .udpChecksum } else { o with c := st.c + 1 }
  -- UDP Checksum
  | .udpChecksum =>
      if st.c = 3 then
        { o with
          c := 0
          d.dnsLength := st.udpc
          udpc := toRange (st.udpc * 8 - 4)
          d.dnsPkt := 0
          s := .dnsMsgRecord }
      else { o with c := st.c + 1 }
  -- DNS Msg
  | .dnsMsgRecord =>
      let o := { o with d.dnsPkt := setSlice st.d.dnsPkt st.c rxd }
      if st.c = st.udpc then { o with c := 0, s := .notify }
      else if st.c = 1020 then { o with c := st.c + 4, s := .dnsMsgDiscard }
      else { o with c := st.c + 4 }
  | .dnsMsgDiscard =>
      if st.c = st.udpc then { o with c := 0, s := .notify }
      else { o with c := toRange (st.c + 4) }
  -- Notification
  | .notify => { o with elDv := true, s := .preamble, c := 0 }

/-- One clock period. -/
def cycle (st : MacRcv) (i : RxIn) : MacRcv :=
  if i.dv then st.nibble i.rxd else { st with elDv := false, s := .preamble, c := 0 }

/-- The power-on registers. -/
def init : MacRcv where
  s := .preamble
  c := 0
  ipc := 0
  udpc := 0
  d := .zero
  elDv := false

end MacRcv

end DnsAdtm.Hw
