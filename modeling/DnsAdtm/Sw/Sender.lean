/-
# `Sw.Sender` — the packets of the command line (`sender.hh`, `fpga.hh`)

`form_packet` writes the headers and the payload into one global buffer.  The checksum it
stores last is that of the header as it lies there, with the checksum of the packet before
still in its field.

    ipChecksum           `IPchecksum`, and what it computes (`toNat_ipChecksum`)
    formPacket           one call
    checksum_step_iff    one header is valid if and only if the field held zero, modulo 65535
    send_checksums_iff   the runs in which every header is

Integers of more than a byte lie in memory with the low byte first, and `htons` swaps them.
-/
import DnsAdtm.Lib.OnesSum
import DnsAdtm.Sw.Fpga

namespace DnsAdtm.Sw

/-! ## The buffer -/

/-- `ethhdr` -/
structure EthHdr where
  hDest : MacAddr
  hSource : MacAddr
  hProto : BitVec 16

/-- `iphdr` -/
structure IpHdr where
  ihl : BitVec 4
  version : BitVec 4
  tos : BitVec 8
  totLen : BitVec 16
  id : BitVec 16
  fragOff : BitVec 16
  ttl : BitVec 8
  protocol : BitVec 8
  check : BitVec 16
  saddr : BitVec 32
  daddr : BitVec 32

/-- `udphdr` -/
structure UdpHdr where
  source : BitVec 16
  dest : BitVec 16
  len : BitVec 16
  check : BitVec 16

/-- `send_pkt_buf`: the three headers and the bytes behind them. -/
structure SendPkt where
  eth : EthHdr
  ip : IpHdr
  udp : UdpHdr
  payload : List (BitVec 8)

/-- A `uint16_t` in memory. -/
def le16 (x : BitVec 16) : List (BitVec 8) := [x.setWidth 8, (x >>> 8).setWidth 8]

/-- A `uint32_t` in memory. -/
def le32 (x : BitVec 32) : List (BitVec 8) :=
  [x.setWidth 8, (x >>> 8).setWidth 8, (x >>> 16).setWidth 8, (x >>> 24).setWidth 8]

def EthHdr.bytes (h : EthHdr) : List (BitVec 8) := h.hDest.toList ++ h.hSource.toList ++ le16 h.hProto

def IpHdr.bytes (h : IpHdr) : List (BitVec 8) :=
  [h.version ++ h.ihl, h.tos] ++ le16 h.totLen ++ le16 h.id ++ le16 h.fragOff ++ [h.ttl, h.protocol] ++
    le16 h.check ++ le32 h.saddr ++ le32 h.daddr

def UdpHdr.bytes (h : UdpHdr) : List (BitVec 8) := le16 h.source ++ le16 h.dest ++ le16 h.len ++ le16 h.check

def SendPkt.bytes (p : SendPkt) : List (BitVec 8) := p.eth.bytes ++ p.ip.bytes ++ p.udp.bytes ++ p.payload

/-- A global array, before the first packet. -/
def SendPkt.init : SendPkt where
  eth := ⟨.replicate 6 0, .replicate 6 0, 0⟩
  ip := ⟨0, 0, 0, 0, 0, 0, 0, 0, 0, 0, 0⟩
  udp := ⟨0, 0, 0, 0⟩
  payload := List.replicate (65536 - 42) 0

/-! ## `form_packet` -/

/-- The `uint16_t`s of a memory. -/
def words16 : List (BitVec 8) → List (BitVec 16)
  | a :: b :: rest => (b ++ a) :: words16 rest
  | _ => []

/-- `IPchecksum` -/
def ipChecksum (buff : List (BitVec 16)) : BitVec 16 :=
  let sum : BitVec 32 := buff.foldl (fun sum w => sum + (bswap16 w).setWidth 32) 0
  let sum : BitVec 32 := (sum >>> 16) + (sum &&& 0xffff)
  let sum : BitVec 32 := sum + (sum >>> 16)
  (~~~sum).setWidth 16

/-- The arguments of a call. -/
structure Packet where
  srcmac : MacAddr
  dstmac : MacAddr
  srcip : IpAddr
  dstip : IpAddr
  srcport : BitVec 16
  dstport : BitVec 16
  udpPayload : List (BitVec 8)
  short : udpPayload.length ≤ 1472

/-- `*reinterpret_cast<const uint32_t*>(&ip)` -/
def loadAddr (ip : IpAddr) : BitVec 32 := ip[3] ++ ip[2] ++ ip[1] ++ ip[0]

def formPacket (c : Packet) (p : SendPkt) : SendPkt :=
  let eth : EthHdr := { hSource := c.srcmac, hDest := c.dstmac, hProto := bswap16 0x0800 }
  let ip := { p.ip with
    ihl := 5
    version := 4
    tos := 16
    id := bswap16 10201
    ttl := 64
    protocol := 17
    saddr := loadAddr c.srcip
    daddr := loadAddr c.dstip }
  let udp := { p.udp with source := bswap16 c.srcport, dest := bswap16 c.dstport, check := 0 }
  let payload := c.udpPayload ++ p.payload.drop c.udpPayload.length
  let udp := { udp with len := bswap16 (BitVec.ofNat 16 (c.udpPayload.length + 8)) }
  let ip := { ip with totLen := bswap16 (BitVec.ofNat 16 (c.udpPayload.length + 8 + 20)) }
  let ip := { ip with check := bswap16 (ipChecksum (words16 ip.bytes)) }
  { eth := eth, ip := ip, udp := udp, payload := payload }

/-- `send_pkt_buf` after these calls. -/
def formPackets (cs : List Packet) : SendPkt := cs.foldl (fun p c => formPacket c p) .init

/-! ## The sum of a header -/

theorem bswap16_append (a b : BitVec 8) : bswap16 (b ++ a) = a ++ b := by
  apply BitVec.eq_of_getLsbD_eq
  intro i hi
  simp only [bswap16, BitVec.getLsbD_or, BitVec.getLsbD_shiftLeft, BitVec.getLsbD_ushiftRight,
    BitVec.getLsbD_append]
  rcases Nat.lt_or_ge i 8 with hlt | hge
  · have hb : ¬ 8 + i < 8 := by omega
    simp [hlt, hi, hb]
  · have ha : a.getLsbD i = false := BitVec.getLsbD_of_ge _ _ hge
    have hlt : i - 8 < 8 := by omega
    have hb : b.getLsbD i = false := BitVec.getLsbD_of_ge _ _ hge
    simp [hi, hlt, hb, show ¬ i < 8 by omega, show ¬ 8 + i < 8 by omega]

/-- A swapped word is the word that a receiver reads. -/
theorem wordsBE_eq (bytes : List (BitVec 8)) : wordsBE bytes = (words16 bytes).map bswap16 := by
  induction bytes using words16.induct with
  | case1 a b rest ih => rw [words16, wordsBE, List.map_cons, bswap16_append, ih]
  | case2 bytes h =>
      match bytes, h with
      | [], _ => rfl
      | [_], _ => rfl
      | a :: b :: rest, h => exact absurd rfl (h a b rest)

/-- A `uint16_t` in memory is read with its bytes swapped. -/
theorem le16_word (x : BitVec 16) : x.setWidth 8 ++ (x >>> 8).setWidth 8 = bswap16 x := by
  apply BitVec.eq_of_getLsbD_eq
  intro i hi
  simp only [bswap16, BitVec.getLsbD_or, BitVec.getLsbD_shiftLeft, BitVec.getLsbD_ushiftRight,
    BitVec.getLsbD_append, BitVec.getLsbD_setWidth]
  rcases Nat.lt_or_ge i 8 with hlt | hge
  · simp [hlt, hi]
  · have hzero : x.getLsbD (8 + i) = false := BitVec.getLsbD_of_ge _ _ (by omega)
    simp [hi, hzero, show ¬ i < 8 by omega, show i - 8 < 8 by omega]

/-- The checksum is one of the words of a header. -/
theorem plainSum_bytes (h : IpHdr) : plainSum (wordsBE h.bytes) =
    plainSum (wordsBE { h with check := 0 }.bytes) + (bswap16 h.check).toNat := by
  have hzero : bswap16 0 = 0 := by decide
  simp only [IpHdr.bytes, le16, le32, List.cons_append, List.nil_append, wordsBE, plainSum, le16_word,
    List.map_cons, List.map_nil, List.sum_cons, List.sum_nil, hzero]
  have h0 : (0 : BitVec 16).toNat = 0 := rfl
  rw [h0]
  omega

/-- The two folds of `IPchecksum`, of any sum: what is left is the sum, modulo 65535. -/
theorem fold_twice {t : Nat} (ht : t < 2 ^ 32) :
    65535 ∣ t + (65535 - ((t / 65536 + t % 65536) + (t / 65536 + t % 65536) / 65536) % 65536) := by
  obtain ⟨q, r, hq, hr, rfl⟩ : ∃ q r, q < 65536 ∧ r < 65536 ∧ t = 65536 * q + r :=
    ⟨t / 65536, t % 65536, by omega, Nat.mod_lt _ (by decide), (Nat.div_add_mod t 65536).symm⟩
  have hdiv : (65536 * q + r) / 65536 = q := by omega
  have hmod : (65536 * q + r) % 65536 = r := by omega
  rw [hdiv, hmod]
  rcases Nat.lt_or_ge (q + r) 65536 with hfit | hcarry
  · exact ⟨q + 1, by omega⟩
  · exact ⟨q + 2, by omega⟩

theorem dvd_ipChecksum {ws : List (BitVec 16)} (h : plainSum (ws.map bswap16) < 2 ^ 32) :
    65535 ∣ plainSum (ws.map bswap16) + (ipChecksum ws).toNat := by
  have hsum : ∀ (ws : List (BitVec 16)) (acc : BitVec 32), acc.toNat + plainSum (ws.map bswap16) < 2 ^ 32 →
      (ws.foldl (fun sum w => sum + (bswap16 w).setWidth 32) acc).toNat =
        acc.toNat + plainSum (ws.map bswap16) := by
    intro ws
    induction ws with
    | nil => exact fun acc _ => rfl
    | cons w ws ih =>
        intro acc hlt
        rw [List.map_cons, plainSum_cons] at hlt ⊢
        have hw := (bswap16 w).isLt
        have hadd : (acc + (bswap16 w).setWidth 32).toNat = acc.toNat + (bswap16 w).toNat := by
          rw [BitVec.toNat_add, BitVec.toNat_setWidth, Nat.mod_eq_of_lt (a := (bswap16 w).toNat) (by omega),
            Nat.mod_eq_of_lt (by omega)]
        rw [List.foldl_cons, ih _ (by omega), hadd, Nat.add_assoc]
  have hfold := hsum ws 0 (by simpa using h)
  rw [show (0 : BitVec 32).toNat = 0 from rfl, Nat.zero_add] at hfold
  have hvalue : ∀ t s : BitVec 32, s = (t >>> 16) + (t &&& (0xffff : BitVec 32)) →
      ((~~~(s + (s >>> 16))).setWidth 16).toNat = 65535 - ((t.toNat / 65536 + t.toNat % 65536) +
        (t.toNat / 65536 + t.toNat % 65536) / 65536) % 65536 := by
    rintro t s rfl
    have ht := t.isLt
    have hlow : (t &&& (0xffff : BitVec 32)).toNat = t.toNat % 65536 := by
      rw [BitVec.toNat_and]
      exact Nat.and_two_pow_sub_one_eq_mod t.toNat 16
    have hhigh : (t >>> 16).toNat = t.toNat / 65536 := by
      rw [BitVec.toNat_ushiftRight, Nat.shiftRight_eq_div_pow]
    have hs : ((t >>> 16) + (t &&& (0xffff : BitVec 32))).toNat = t.toNat / 65536 + t.toNat % 65536 := by
      rw [BitVec.toNat_add, hlow, hhigh, Nat.mod_eq_of_lt (by omega)]
    rw [BitVec.toNat_setWidth, BitVec.toNat_not, BitVec.toNat_add, BitVec.toNat_ushiftRight,
      Nat.shiftRight_eq_div_pow, hs]
    omega
  have hres : (ipChecksum ws).toNat = _ := hvalue (ws.foldl (fun sum w => sum + (bswap16 w).setWidth 32) 0) _ rfl
  rw [hres, hfold]
  exact fold_twice h

theorem plainSum_le (ws : List (BitVec 16)) : plainSum ws ≤ 65535 * ws.length := by
  induction ws with
  | nil => exact Nat.le_refl 0
  | cons w ws ih =>
      have hw := w.isLt
      rw [plainSum_cons, List.length_cons]
      omega

/-! ## One packet -/

/-- The header of a call, without its checksum. -/
def Packet.header (c : Packet) : IpHdr where
  ihl := 5
  version := 4
  tos := 16
  totLen := bswap16 (BitVec.ofNat 16 (c.udpPayload.length + 8 + 20))
  id := bswap16 10201
  fragOff := 0
  ttl := 64
  protocol := 17
  check := 0
  saddr := loadAddr c.srcip
  daddr := loadAddr c.dstip

/-- The sum of its words. -/
def Packet.headerSum (c : Packet) : Nat := plainSum (wordsBE c.header.bytes)

/-- The header in the buffer is one that a receiver accepts. -/
def SendPkt.Valid (p : SendPkt) : Prop := onesSum (wordsBE ((p.bytes.drop 14).take 20)) = 0xffff

/-- The checksum in the buffer counts for nothing in a sum modulo 65535. -/
def SendPkt.CheckZero (p : SendPkt) : Prop := 65535 ∣ (bswap16 p.ip.check).toNat

variable {c : Packet} {cs : List Packet} {p : SendPkt}

theorem ip_of_bytes (p : SendPkt) : (p.bytes.drop 14).take 20 = p.ip.bytes := by
  have heth : p.eth.bytes.length = 14 := by simp [EthHdr.bytes, le16]
  have hip : p.ip.bytes.length = 20 := rfl
  rw [SendPkt.bytes, List.append_assoc, List.append_assoc, ← heth, List.drop_left, ← hip, List.take_left]

theorem headerSum_pos (c : Packet) : 0 < c.headerSum := by
  have hfirst : ((4 : BitVec 4) ++ (5 : BitVec 4) ++ (16 : BitVec 8)).toNat = 0x4510 := by decide
  have hword : plainSum (wordsBE c.header.bytes) = ((4 : BitVec 4) ++ (5 : BitVec 4) ++ (16 : BitVec 8)).toNat +
      plainSum (wordsBE (c.header.bytes.drop 2)) := plainSum_cons _ _
  rw [Packet.headerSum, hword, hfirst]
  omega

/-- `form_packet` writes all of the header but the fragment offset. -/
theorem formPacket_ip (hfrag : p.ip.fragOff = 0) : (formPacket c p).ip =
    { c.header with check := bswap16 (ipChecksum (words16 { c.header with check := p.ip.check }.bytes)) } := by
  simp only [formPacket, Packet.header, hfrag]

/-- Old checksum, new checksum and the rest of the header. -/
theorem dvd_formPacket (hfrag : p.ip.fragOff = 0) :
    65535 ∣ c.headerSum + (bswap16 p.ip.check).toNat + (bswap16 (formPacket c p).ip.check).toNat := by
  have hold : plainSum ((words16 { c.header with check := p.ip.check }.bytes).map bswap16) =
      c.headerSum + (bswap16 p.ip.check).toNat := by
    rw [← wordsBE_eq, plainSum_bytes]
    rfl
  have hbound := plainSum_le ((words16 { c.header with check := p.ip.check }.bytes).map bswap16)
  have hlen : ((words16 { c.header with check := p.ip.check }.bytes).map bswap16).length = 10 := rfl
  rw [hlen] at hbound
  have hdvd := dvd_ipChecksum (Nat.lt_of_le_of_lt hbound (by decide))
  rw [hold] at hdvd
  rw [formPacket_ip hfrag, bswap16_bswap16]
  exact hdvd

/-- One packet is valid if and only if the checksum before it was zero, as it goes into its own. -/
theorem checksum_step_iff (hfrag : p.ip.fragOff = 0) : (formPacket c p).Valid ↔ p.CheckZero := by
  have hsum : plainSum (wordsBE (formPacket c p).ip.bytes) =
      c.headerSum + (bswap16 (formPacket c p).ip.check).toNat := by
    rw [plainSum_bytes, formPacket_ip hfrag]
    rfl
  have hpos := headerSum_pos c
  have hdvd := dvd_formPacket (c := c) hfrag
  have hmask : (0xffff : BitVec 16) = BitVec.allOnes 16 := by decide
  rw [SendPkt.Valid, ip_of_bytes, hmask, onesSum_eq_allOnes (by decide), hsum, SendPkt.CheckZero,
    show 2 ^ 16 - 1 = 65535 by decide]
  omega

/-- A valid packet leaves zero behind if and only if its own checksum is zero. -/
theorem checkZero_formPacket_iff (hfrag : p.ip.fragOff = 0) (hzero : p.CheckZero) :
    (formPacket c p).CheckZero ↔ 65535 ∣ c.headerSum := by
  have hdvd := dvd_formPacket (c := c) hfrag
  rw [SendPkt.CheckZero] at hzero ⊢
  omega

/-! ## Runs -/

/-- From any packet on, by induction on the calls. -/
theorem valid_run_iff (cs : List Packet) (hfrag : p.ip.fragOff = 0) :
    (∀ k < cs.length, ((cs.take (k + 1)).foldl (fun p c => formPacket c p) p).Valid) ↔
      cs = [] ∨ p.CheckZero ∧ ∀ c ∈ cs.dropLast, 65535 ∣ c.headerSum := by
  induction cs generalizing p with
  | nil => simp
  | cons c cs ih =>
      have hfrag' : (formPacket c p).ip.fragOff = 0 := by
        rw [formPacket_ip hfrag]
        rfl
      have hsplit : (∀ k < (c :: cs).length, (((c :: cs).take (k + 1)).foldl (fun p c => formPacket c p) p).Valid) ↔
          (formPacket c p).Valid ∧
            ∀ k < cs.length, ((cs.take (k + 1)).foldl (fun p c => formPacket c p) (formPacket c p)).Valid := by
        constructor
        · intro h
          exact ⟨h 0 (Nat.succ_pos _), fun k hk => h (k + 1) (Nat.succ_lt_succ hk)⟩
        · rintro ⟨hfirst, hrest⟩ k hk
          cases k with
          | zero => exact hfirst
          | succ k => exact hrest k (Nat.lt_of_succ_lt_succ hk)
      rw [hsplit, checksum_step_iff hfrag, ih hfrag']
      cases cs with
      | nil => simp
      | cons d ds =>
          have hne : c :: d :: ds ≠ [] := List.cons_ne_nil _ _
          have hne' : d :: ds ≠ [] := List.cons_ne_nil _ _
          rw [or_iff_right hne, or_iff_right hne', List.dropLast_cons_of_ne_nil hne', List.forall_mem_cons]
          constructor
          · rintro ⟨hzero, hcheck, hall⟩
            exact ⟨hzero, (checkZero_formPacket_iff hfrag hzero).mp hcheck, hall⟩
          · rintro ⟨hzero, hsum, hall⟩
            exact ⟨hzero, (checkZero_formPacket_iff hfrag hzero).mpr hsum, hall⟩

/-- **The IP checksums of the command line.**  In a run of `form_packet` every header is valid
if and only if of each packet but the last the sum of the other words of the header is a
multiple of 65535. -/
theorem send_checksums_iff (cs : List Packet) :
    (∀ k < cs.length, (formPackets (cs.take (k + 1))).Valid) ↔ ∀ c ∈ cs.dropLast, 65535 ∣ c.headerSum := by
  have hrun := valid_run_iff (p := .init) cs rfl
  have hinit : SendPkt.init.CheckZero := by
    rw [SendPkt.CheckZero]
    decide
  refine hrun.trans ⟨?_, fun h => .inr ⟨hinit, h⟩⟩
  rintro (rfl | ⟨-, h⟩)
  · intro c hc
    cases hc
  · exact h

/-- An empty packet between unset addresses. -/
def Packet.unset : Packet :=
  ⟨.replicate 6 0, .replicate 6 0, .replicate 4 0, .replicate 4 0, 0, 0, [], by decide⟩

/-- The second of two packets. -/
theorem second_checksum_invalid :
    ¬ ∀ (cs : List Packet) (k : Nat), k < cs.length → (formPackets (cs.take (k + 1))).Valid := by
  intro h
  have hrun := (valid_run_iff (p := .init) [.unset, .unset] rfl).mp (h _)
  obtain hnil | ⟨-, hsum⟩ := hrun
  · cases hnil
  · have hdvd := hsum .unset List.mem_cons_self
    revert hdvd
    rw [Packet.headerSum]
    decide

end DnsAdtm.Sw
