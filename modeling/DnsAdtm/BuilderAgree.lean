/-
# `BuilderAgree` — the builder's packet at the hardware

What `admin-builder` writes for a filter, sent as the payload of an administrator's packet.
The tag of such a packet is zero, since its file ends long before the tag, so that `HashAuth`
accepts it only where the hash of the payload is zero; and what it then installs has the ports
as they are stored, without the swap of `write_to_admin_pkt`.

    builder_decode       the fields of the packet
    builder_authentic    when the tag is right
    builder_installs_iff when the packet installs the filter
-/
import DnsAdtm.AdminAgree
import DnsAdtm.Sw.AdminBuilder

namespace DnsAdtm

open Machine Sw

variable {g : Hw.Generics} {f : BuilderFilter} {rd : Hw.RcvData}

/-- The payload that is hashed. -/
def Sw.BuilderFilter.payload (f : BuilderFilter) : BitVec 960 := field f.content 0 960

/-- The two bytes of every port are equal. -/
def Sw.BuilderFilter.SymmetricPorts (f : BuilderFilter) : Prop :=
  f.srcPortList.map bswap16 = f.srcPortList ∧ f.dstPortList.map bswap16 = f.dstPortList

/-- The fields of the packet, with the ports as they are stored. -/
theorem builder_decode (hpkt : rd.dnsPkt = ofBytesLE 1024 (writeToFile f .init).file) :
    Hw.Filter.decode rd.dnsPkt.getLsbD = f.asWritten.toHw := by
  rw [← Hw.Filter.decode_stream f.asWritten.toHw_packable]
  refine Hw.Filter.decode_congr fun n hn => ?_
  rw [hpkt, getLsbD_ofBytesLE, decide_eq_true (by omega), Bool.true_and, (writeToFile_bits f).2,
    BuilderFilter.content, if_pos (by omega)]
  rfl

/-- The tag is zero. -/
theorem builder_authentic (hmac : rd.dstMAC = g.adminMac)
    (hpkt : rd.dnsPkt = ofBytesLE 1024 (writeToFile f .init).file) :
    Hw.Authentic g rd ↔ Hw.hashOf g.adminKey f.payload = 0 := by
  have hbits : ∀ n, rd.dnsPkt.getLsbD n = (decide (n < 1024) && f.content n) := by
    intro n
    rw [hpkt, getLsbD_ofBytesLE, (writeToFile_bits f).2]
  have hpayload : (downto rd.dnsPkt 959 0 : BitVec 960) = f.payload := by
    rw [downto_eq_field]
    refine field_congr fun n hn => ?_
    rw [hbits, decide_eq_true (by omega), Bool.true_and]
  have htag : (downto rd.dnsPkt 1023 960 : BitVec 64) = 0 := by
    apply BitVec.eq_of_getLsbD_eq
    intro n hn
    have hout : (checksum f.fields 22).getLsbD (960 + n - 704) = false := BitVec.getLsbD_of_ge _ _ (by omega)
    rw [getLsbD_downto, hbits, BuilderFilter.content, if_neg (by omega), hout]
    simp
  rw [Hw.Authentic, hpayload, htag]
  exact ⟨fun h => h.2.symm, fun h => ⟨hmac, h.symm⟩⟩

/-- With the swap of `write_to_admin_pkt` the ports are the same only where it changes none. -/
theorem asWritten_eq_iff : f.asWritten.toHw = f.toFilter.toHw ↔ f.SymmetricPorts := by
  have hswap : ∀ l : Vector (BitVec 16) filterDepth, (l.map bswap16).map bswap16 = l := by
    intro l
    rw [Vector.map_map, show bswap16 ∘ bswap16 = id from funext bswap16_bswap16, Vector.map_id]
  constructor
  · intro h
    have hsrc : (f.srcPortList.map bswap16).map bswap16 = f.srcPortList.map bswap16 := congrArg Hw.Filter.srcPortList h
    have hdst : (f.dstPortList.map bswap16).map bswap16 = f.dstPortList.map bswap16 := congrArg Hw.Filter.dstPortList h
    rw [hswap] at hsrc hdst
    exact ⟨hsrc.symm, hdst.symm⟩
  · rintro ⟨hsrc, hdst⟩
    rw [BuilderFilter.asWritten, hsrc, hdst]
    rfl

/-- The input that offers one packet all the time. -/
def offering (rd : Hw.RcvData) (_ : Nat) : Hw.CoreinIn := ⟨rd, true⟩

theorem packets_offering (g : Hw.Generics) (rd : Hw.RcvData) (n : Nat) :
    ∀ p ∈ Hw.packets g .init (offering rd) n, p = rd := by
  induction n with
  | zero => simp [Hw.packets]
  | succ n ih =>
      intro p hp
      rw [Hw.packets, List.mem_append] at hp
      rcases hp with hp | hp
      · exact ih p hp
      · split_ifs at hp
        · exact List.mem_singleton.1 hp
        · cases hp

/-- An idle `corein` that is offered the bytes from power-on. -/
def offered (g : Hw.Generics) (bytes : List (BitVec 8)) : Hw.RcvData :=
  { Hw.RcvData.zero with dstMAC := g.adminMac, dnsPkt := ofBytesLE 1024 bytes }

/-- What is installed is authentic. -/
theorem Installs.authentic {bytes : List (BitVec 8)} {filter : Hw.Filter} (h : Installs g bytes filter) :
    Hw.Authentic g (offered g bytes) := by
  obtain ⟨k, m, -, -, hupdate, -⟩ := h (offering (offered g bytes)) 0 rfl rfl rfl rfl
  have hinv := Hw.authInv_trace g (offering (offered g bytes)) (0 + k + 1)
  obtain ⟨ps, rd, hps, hauth⟩ := hinv.of_updating (by rw [hupdate]; rfl)
  have hrd := packets_offering g (offered g bytes) (0 + k + 1) rd (by rw [hps]; simp)
  rwa [hrd] at hauth

/-- One filter at most is installed. -/
theorem Installs.unique {bytes : List (BitVec 8)} {a b : Hw.Filter} (ha : Installs g bytes a)
    (hb : Installs g bytes b) : a = b := by
  obtain ⟨k, m, hkm, -, -, hidle, hbusy, hfilter⟩ := ha (offering (offered g bytes)) 0 rfl rfl rfl rfl
  obtain ⟨k', m', hkm', -, -, hidle', hbusy', hfilter'⟩ := hb (offering (offered g bytes)) 0 rfl rfl rfl rfl
  rcases Nat.lt_trichotomy m m' with hlt | rfl | hgt
  · exact absurd hidle (hbusy' m (by omega) hlt)
  · exact hfilter.symm.trans hfilter'
  · exact absurd hidle' (hbusy m' (by omega) hgt)

/-- Where it is accepted, the builder's packet installs the fields as they are written. -/
theorem builder_installs (g : Hw.Generics) (f : BuilderFilter) (filter : Hw.Filter) :
    Installs g (writeToFile f .init).file filter ↔
      Hw.hashOf g.adminKey f.payload = 0 ∧ f.asWritten.toHw = filter := by
  have haccept (hhash : Hw.hashOf g.adminKey f.payload = 0) :
      Installs g (writeToFile f .init).file f.asWritten.toHw :=
    installs_of_authentic fun _ hmac hpkt => ⟨(builder_authentic hmac hpkt).2 hhash, builder_decode hpkt⟩
  constructor
  · intro h
    have hhash := (builder_authentic (f := f) rfl rfl).1 h.authentic
    exact ⟨hhash, (haccept hhash).unique h⟩
  · rintro ⟨hhash, rfl⟩
    exact haccept hhash

/-- **The builder and the hardware.**  The packet installs the filter that `write_to_admin_pkt`
installs where the hash of its payload is zero and the swap of the ports changes nothing; the
filter with the ports as they are stored, where the hash is zero. -/
theorem builder_installs_iff (g : Hw.Generics) (f : BuilderFilter) :
    (Installs g (writeToFile f .init).file f.toFilter.toHw ↔
      Hw.hashOf g.adminKey f.payload = 0 ∧ f.SymmetricPorts) ∧
    (Installs g (writeToFile f .init).file f.asWritten.toHw ↔ Hw.hashOf g.adminKey f.payload = 0) := by
  rw [builder_installs, builder_installs, asWritten_eq_iff]
  exact ⟨Iff.rfl, and_iff_left rfl⟩

/-- A filter with no entries. -/
def Sw.BuilderFilter.empty : BuilderFilter where
  srcMACBW := 0
  srcMACLength := 0
  srcMACList := .replicate 2 (.replicate 6 0)
  dstMACBW := 0
  dstMACLength := 0
  dstMACList := .replicate 2 (.replicate 6 0)
  srcIPBW := 0
  srcIPLength := 0
  srcIPList := .replicate 2 (.replicate 4 0)
  dstIPBW := 0
  dstIPLength := 0
  dstIPList := .replicate 2 (.replicate 4 0)
  srcPortBW := 0
  srcPortLength := 0
  srcPortList := .replicate 2 0
  dstPortBW := 0
  dstPortLength := 0
  dstPortList := .replicate 2 0
  dnsBW := 0
  dnsLength := 0
  dnsItemEndPtr := .replicate 2 0
  dnsList := .replicate 2 (.replicate 16 0)

/-- Its payload is the key behind 704 zeros. -/
theorem payload_empty : BuilderFilter.empty.payload = builderKey.setWidth 960 <<< 704 := by
  have hfields : ∀ n, BuilderFilter.empty.fields n = false := by
    intro n
    rcases Nat.lt_or_ge n 677 with hlt | hge
    · have hzero : ∀ n < 677, BuilderFilter.empty.fields n = false := by decide +kernel
      exact hzero n hlt
    · exact fields_of_ge _ hge
  have hsum : checksum BuilderFilter.empty.fields 22 = builderKey := by
    rw [checksum_congr fun n _ => hfields n]
    decide +kernel
  apply BitVec.eq_of_getLsbD_eq
  intro n hn
  rw [BuilderFilter.payload, getLsbD_field, decide_eq_true hn, Bool.true_and, Nat.zero_add, BuilderFilter.content, hsum,
    hfields, BitVec.getLsbD_shiftLeft, BitVec.getLsbD_setWidth, decide_eq_true hn, Bool.true_and,
    decide_eq_true (show n - 704 < 960 by omega), Bool.true_and]
  rcases Nat.lt_or_ge n 704 with hlt | hge
  · simp [hlt]
  · simp [show ¬ n < 704 by omega]

/-- The hash of the empty filter's payload is not zero: `HashAuth` refuses the packet. -/
theorem builder_empty_refused :
    ¬ ∀ f : BuilderFilter,
      (∀ n ∈ [f.srcMACLength, f.dstMACLength, f.srcIPLength, f.dstIPLength, f.srcPortLength, f.dstPortLength,
        f.dnsLength], n ≤ 2) → (∀ p ∈ f.dnsItemEndPtr.toList, p ≤ 128) →
      Installs {} (writeToFile f .init).file f.toFilter.toHw := by
  intro h
  have hinstalls := h .empty (by decide) (by decide)
  rw [builder_installs, payload_empty] at hinstalls
  exact absurd hinstalls.1 (by decide +kernel)

end DnsAdtm
