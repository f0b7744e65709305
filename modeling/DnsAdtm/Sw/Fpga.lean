/-
# `Sw.Fpga` — the software's `filter_t` (`fpga.hh`)

A bit-field of width `n` is a `BitVec n`, a byte array a `Vector (BitVec 8)`, and a
port the value of its `uint16_t` in memory order.  `Filter.toHw` is the reading of such
a record by the hardware: byte `j` of an address at bits `8j+7..8j`, and each port in
network byte order.
-/
import DnsAdtm.Hw.FilterCodec

namespace DnsAdtm.Sw

/-- `mac_addr_t` -/
abbrev MacAddr := Vector (BitVec 8) 6

/-- `ip_addr_t` -/
abbrev IpAddr := Vector (BitVec 8) 4

/-- `dns_filter_item_t` -/
abbrev DnsFilterItem := Vector (BitVec 8) 16

/-- `FILTER_DEPTH` -/
abbrev filterDepth : Nat := 2

/-- `filter_t` -/
structure Filter where
  srcMACBW : BitVec 1
  srcMACLength : BitVec 2
  srcMACList : Vector MacAddr filterDepth
  dstMACBW : BitVec 1
  dstMACLength : BitVec 2
  dstMACList : Vector MacAddr filterDepth
  srcIPBW : BitVec 1
  srcIPLength : BitVec 2
  srcIPList : Vector IpAddr filterDepth
  dstIPBW : BitVec 1
  dstIPLength : BitVec 2
  dstIPList : Vector IpAddr filterDepth
  srcPortBW : BitVec 1
  srcPortLength : BitVec 2
  srcPortList : Vector (BitVec 16) filterDepth
  dstPortBW : BitVec 1
  dstPortLength : BitVec 2
  dstPortList : Vector (BitVec 16) filterDepth
  dnsBW : BitVec 1
  dnsLength : BitVec 2
  dnsItemEndPtr : Vector (BitVec 8) filterDepth
  dnsList : Vector DnsFilterItem filterDepth
  replyType : BitVec 1
  deriving DecidableEq

/-- `filter_t f = {}` -/
def Filter.empty : Filter where
  srcMACBW := 0
  srcMACLength := 0
  srcMACList := .replicate 2 (.replicate 6 0)
  dstMACBW := 0
  dstMACLength := 0
  dstMACList := .replicate 2 (.replicate 6 0)
  srcIPBW := 0
  srcIPLength := 0
  srcIPList := .replicate 2 (.replicate 4 0)
  dstIPBW := 0
  dstIPLength := 0
  dstIPList := .replicate 2 (.replicate 4 0)
  srcPortBW := 0
  srcPortLength := 0
  srcPortList := .replicate 2 0
  dstPortBW := 0
  dstPortLength := 0
  dstPortList := .replicate 2 0
  dnsBW := 0
  dnsLength := 0
  dnsItemEndPtr := .replicate 2 0
  dnsList := .replicate 2 (.replicate 16 0)
  replyType := 0

/-- `htons` and `ntohs` of a little-endian host, and `__bswap_16`. -/
def bswap16 (x : BitVec 16) : BitVec 16 := (x <<< 8) ||| (x >>> 8)

theorem bswap16_bswap16 (x : BitVec 16) : bswap16 (bswap16 x) = x := by
  apply BitVec.eq_of_getLsbD_eq
  intro i hi
  simp only [bswap16, BitVec.getLsbD_or, BitVec.getLsbD_shiftLeft, BitVec.getLsbD_ushiftRight]
  rcases Nat.lt_or_ge i 8 with hlt | hge
  · have hzero : x.getLsbD (8 + (8 + i)) = false := BitVec.getLsbD_of_ge _ _ (by omega)
    simp [hlt, hi, show ¬ 8 + i < 8 by omega, show 8 + i < 16 by omega, hzero]
  · have hzero : x.getLsbD (8 + (8 + (i - 8))) = false := BitVec.getLsbD_of_ge _ _ (by omega)
    have hout : x.getLsbD (8 + (8 + i)) = false := BitVec.getLsbD_of_ge _ _ (by omega)
    simp [hi, show ¬ i < 8 by omega, show i - 8 < 8 by omega,
      show 8 + (i - 8) = i by omega, show ¬ 8 + i < 16 by omega, hout, show i - 8 < 16 by omega]

/-- The bytes of an array as the hardware holds them: byte `j` at bits `8j+7..8j`. -/
def hwBytes {n : Nat} (c : Vector (BitVec 8) n) : BitVec (8 * n) := ofBytesLE (8 * n) c.toList

/-- The filter as the hardware holds it. -/
def Filter.toHw (f : Filter) : Hw.Filter where
  srcMACBW := f.srcMACBW.getLsbD 0
  srcMACLength := f.srcMACLength.toNat
  srcMACList := f.srcMACList.map hwBytes
  dstMACBW := f.dstMACBW.getLsbD 0
  dstMACLength := f.dstMACLength.toNat
  dstMACList := f.dstMACList.map hwBytes
  srcIPBW := f.srcIPBW.getLsbD 0
  srcIPLength := f.srcIPLength.toNat
  srcIPList := f.srcIPList.map hwBytes
  dstIPBW := f.dstIPBW.getLsbD 0
  dstIPLength := f.dstIPLength.toNat
  dstIPList := f.dstIPList.map hwBytes
  srcPortBW := f.srcPortBW.getLsbD 0
  srcPortLength := f.srcPortLength.toNat
  srcPortList := f.srcPortList.map bswap16
  dstPortBW := f.dstPortBW.getLsbD 0
  dstPortLength := f.dstPortLength.toNat
  dstPortList := f.dstPortList.map bswap16
  dnsBW := f.dnsBW.getLsbD 0
  dnsLength := f.dnsLength.toNat
  dnsItemEndPtr := f.dnsItemEndPtr.map (·.toNat)
  dnsList := f.dnsList.map hwBytes
  replyType := f.replyType.getLsbD 0

theorem Filter.toHw_packable (f : Filter) : f.toHw.Packable where
  srcMAC := f.srcMACLength.isLt
  dstMAC := f.dstMACLength.isLt
  srcIP := f.srcIPLength.isLt
  dstIP := f.dstIPLength.isLt
  srcPort := f.srcPortLength.isLt
  dstPort := f.dstPortLength.isLt
  dns := f.dnsLength.isLt
  endPtr₀ := by
    rw [toHw, Vector.getElem_map]
    exact BitVec.isLt _
  endPtr₁ := by
    rw [toHw, Vector.getElem_map]
    exact BitVec.isLt _

/-! ## The hardware's reading loses nothing -/

theorem hwBytes_injective {n : Nat} : Function.Injective (hwBytes (n := n)) := by
  intro c c' h
  apply Vector.ext
  intro j hj
  apply BitVec.eq_of_getLsbD_eq
  intro i hi
  have hbit := congrArg (·.getLsbD (8 * j + i)) h
  have hlt : 8 * j + i < 8 * n := by omega
  have hdiv : (8 * j + i) / 8 = j := by omega
  have hmod : (8 * j + i) % 8 = i := by omega
  simp only [hwBytes, getLsbD_ofBytesLE, decide_eq_true hlt, Bool.true_and, bitAt, hdiv, hmod] at hbit
  simpa [hj] using hbit

theorem bswap16_injective : Function.Injective bswap16 :=
  Function.LeftInverse.injective bswap16_bswap16

theorem getLsbD_zero_injective : Function.Injective fun b : BitVec 1 => b.getLsbD 0 := by
  decide

/-- A mapped array determines the array where the map is injective. -/
theorem vector_map_injective {α β : Type} {n : Nat} {g : α → β} (hg : Function.Injective g) :
    Function.Injective fun l : Vector α n => l.map g := by
  intro l l' h
  apply Vector.ext
  intro i hi
  have hget := congrArg (fun v : Vector β n => v[i]) h
  simp only [Vector.getElem_map] at hget
  exact hg hget

theorem Filter.toHw_injective : Function.Injective Filter.toHw := by
  intro f f' h
  have hnat : ∀ w, Function.Injective fun x : BitVec w => x.toNat := fun _ _ _ => BitVec.eq_of_toNat_eq
  obtain ⟨bw₁, len₁, list₁, bw₂, len₂, list₂, bw₃, len₃, list₃, bw₄, len₄, list₄, bw₅, len₅, list₅,
    bw₆, len₆, list₆, bw₇, len₇, ptrs, list₇, reply⟩ := (Hw.Filter.mk.injEq ..).mp h
  exact (Filter.mk.injEq ..).mpr
    ⟨getLsbD_zero_injective bw₁, hnat _ len₁, vector_map_injective hwBytes_injective list₁,
      getLsbD_zero_injective bw₂, hnat _ len₂, vector_map_injective hwBytes_injective list₂,
      getLsbD_zero_injective bw₃, hnat _ len₃, vector_map_injective hwBytes_injective list₃,
      getLsbD_zero_injective bw₄, hnat _ len₄, vector_map_injective hwBytes_injective list₄,
      getLsbD_zero_injective bw₅, hnat _ len₅, vector_map_injective bswap16_injective list₅,
      getLsbD_zero_injective bw₆, hnat _ len₆, vector_map_injective bswap16_injective list₆,
      getLsbD_zero_injective bw₇, hnat _ len₇, vector_map_injective (hnat _) ptrs,
      vector_map_injective hwBytes_injective list₇, getLsbD_zero_injective reply⟩

end DnsAdtm.Sw
