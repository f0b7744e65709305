/-
# `Hw.Common` — the records of `common.vhd`

`rcv_data_t`, `snd_data_t` and `filter_t`, field for field.  `STD_LOGIC` is a
`Bool` (`'1'` is `true`; the metavalues are not modelled), a
`STD_LOGIC_VECTOR(n - 1 DOWNTO 0)` is a `BitVec n`, and a range-constrained
`NATURAL` is a `Nat`: the ranges are a predicate (`Filter.InRange`), not a type,
because an administrator's packet can ask for a length of three.
-/
import DnsAdtm.Lib.Bits

namespace DnsAdtm.Hw

/-- `rcv_data_t`: what the receiver keeps of a frame. -/
structure RcvData where
  srcMAC : BitVec 48
  dstMAC : BitVec 48
  srcIP : BitVec 32
  dstIP : BitVec 32
  ipHeaderLength : Nat
  ipLength : Nat
  srcPort : BitVec 16
  dstPort : BitVec 16
  dnsLength : Nat
  dnsPkt : BitVec 1024
  deriving DecidableEq, Repr

/-- `snd_data_t`: what the sender needs of a frame. -/
structure SndData where
  srcMAC : BitVec 48
  dstMAC : BitVec 48
  srcIP : BitVec 32
  dstIP : BitVec 32
  ipLength : BitVec 16
  ipChecksum : BitVec 16
  ipTTL : BitVec 8
  srcPort : BitVec 16
  dstPort : BitVec 16
  udpLength : BitVec 16
  udpChecksum : BitVec 16
  dnsPktCnt : Nat
  dnsPkt : BitVec 1024
  deriving DecidableEq, Repr

/-- `filter_depth`. -/
abbrev filterDepth : Nat := 2

/-- An array `(0 TO filter_depth - 1)` of vectors: `macfilter_list_t` and its like. -/
abbrev FilterList (w : Nat) := Vector (BitVec w) filterDepth

/-- The element at an index counter.  Outside `0 TO 1` the hardware description
has no value; the model reads zero there, and no result rests on it. -/
def FilterList.at {w : Nat} (l : FilterList w) (i : Nat) : BitVec w := (l[i]?).getD 0

/-- `filter_t`.  BW: blacklist `false`, whitelist `true`; replyType: the full
payload `false`, a DNS reply `true`. -/
structure Filter where
  srcMACBW : Bool
  srcMACLength : Nat
  srcMACList : FilterList 48
  dstMACBW : Bool
  dstMACLength : Nat
  dstMACList : FilterList 48
  srcIPBW : Bool
  srcIPLength : Nat
  srcIPList : FilterList 32
  dstIPBW : Bool
  dstIPLength : Nat
  dstIPList : FilterList 32
  srcPortBW : Bool
  srcPortLength : Nat
  srcPortList : FilterList 16
  dstPortBW : Bool
  dstPortLength : Nat
  dstPortList : FilterList 16
  dnsBW : Bool
  dnsLength : Nat
  dnsItemEndPtr : Vector Nat filterDepth
  dnsList : FilterList 128
  replyType : Bool
  deriving DecidableEq, Repr

/-- The end pointer of DNS item `i`, zero outside the array as for `FilterList.at`. -/
def Filter.endPtr (f : Filter) (i : Nat) : Nat := (f.dnsItemEndPtr[i]?).getD 0

/-- The declared ranges of `filter_t`, and end pointers that close whole bytes. -/
structure Filter.InRange (f : Filter) : Prop where
  srcMAC : f.srcMACLength ≤ filterDepth
  dstMAC : f.dstMACLength ≤ filterDepth
  srcIP : f.srcIPLength ≤ filterDepth
  dstIP : f.dstIPLength ≤ filterDepth
  srcPort : f.srcPortLength ≤ filterDepth
  dstPort : f.dstPortLength ≤ filterDepth
  dns : f.dnsLength ≤ filterDepth
  endPtr_le : ∀ i, f.endPtr i ≤ 128
  endPtr_dvd : ∀ i, 8 ∣ f.endPtr i

/-- The power-on value of a signal of type `rcv_data_t`. -/
def RcvData.zero : RcvData where
  srcMAC := 0
  dstMAC := 0
  srcIP := 0
  dstIP := 0
  ipHeaderLength := 0
  ipLength := 0
  srcPort := 0
  dstPort := 0
  dnsLength := 0
  dnsPkt := 0

/-- The power-on value of a signal of type `snd_data_t`. -/
def SndData.zero : SndData where
  srcMAC := 0
  dstMAC := 0
  srcIP := 0
  dstIP := 0
  ipLength := 0
  ipChecksum := 0
  ipTTL := 0
  srcPort := 0
  dstPort := 0
  udpLength := 0
  udpChecksum := 0
  dnsPktCnt := 0
  dnsPkt := 0

/-- Overwriting both entries of a list leaves nothing of the old one. -/
theorem set_set_eq {α : Type} (l : Vector α filterDepth) (a b : α) :
    (l.set 0 a).set 1 b = #v[a, b] := by
  ext i hi
  have hlt : i < 2 := hi
  have hcases : i = 0 ∨ i = 1 := by omega
  rcases hcases with rfl | rfl <;> simp

end DnsAdtm.Hw
