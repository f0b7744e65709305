/-
# `PortMeaning` — a port from the command line to the filter's comparison

A port passes four byte orders: `parse_port` swaps the number, the writer swaps it again
(`htons`), the hardware takes the two bytes as written, and `mac_rcv` stores the port of a
frame with its high byte low.  Two swaps cancel, so the list entry is the number itself
(`entry_eq`), while the comparison is with the swapped number: an entry matches its port
only if the two bytes of the port are equal (`matches_iff`).
-/
import DnsAdtm.AdminAgree
import DnsAdtm.Hw.MacRcvFrame
import DnsAdtm.Sw.AdminEdit

namespace DnsAdtm

open Machine Sw

/-- `srcport` or `dstport`. -/
inductive PortSide where
  | src | dst

namespace PortSide

/-- The filter type of `admin edit add`. -/
def word : PortSide → Str
  | src => str "srcport"
  | dst => str "dstport"

/-- The length of the side's list in the software's filter. -/
def length : PortSide → Sw.Filter → BitVec 2
  | src, f => f.srcPortLength
  | dst, f => f.dstPortLength

def swList : PortSide → Sw.Filter → Vector (BitVec 16) 2
  | src, f => f.srcPortList
  | dst, f => f.dstPortList

/-- The side's list in the hardware's filter. -/
def entries : PortSide → Hw.Filter → Vector (BitVec 16) 2
  | src, f => f.srcPortList
  | dst, f => f.dstPortList

/-- What the side's list is compared with. -/
def received : PortSide → Hw.RcvData → BitVec 16
  | src, rd => rd.srcPort
  | dst, rd => rd.dstPort

def wire : PortSide → Hw.UdpFrame → Vector (BitVec 8) 2
  | src, frame => frame.srcPort
  | dst, frame => frame.dstPort

/-- The port of a frame: on the wire the high byte comes first. -/
def number (side : PortSide) (frame : Hw.UdpFrame) : Nat :=
  (getElem (side.wire frame) 0 Nat.zero_lt_two).toNat * 256 +
    (getElem (side.wire frame) 1 Nat.one_lt_two).toNat

/-- The entry is equal to the received port exactly for the frames of port `n`, whatever was
received before them. -/
def Matches (side : PortSide) (entry : BitVec 16) (n : Nat) : Prop :=
  ∀ (hist : List Hw.RxIn) (rxd : BitVec 4) (frame : Hw.UdpFrame) (x : BitVec 4),
    entry = side.received (run Hw.MacRcv.cycle .init
      (hist ++ [⟨false, rxd⟩] ++ Hw.MacRcv.burst (nibbles frame.bytes ++ [x]))).d ↔
    side.number frame = n

variable {side : PortSide} {n : Nat}

/-! ## What a frame's port becomes -/

theorem toNat_ofBytesLE_two (a b : BitVec 8) :
    (ofBytesLE 16 [a, b]).toNat = a.toNat + b.toNat * 256 := by
  have happ : ofBytesLE 16 [a, b] = b ++ a := by
    apply BitVec.eq_of_getLsbD_eq
    intro i hi
    rw [getLsbD_ofBytesLE, decide_eq_true hi, Bool.true_and, bitAt, BitVec.getLsbD_append]
    rcases Nat.lt_or_ge i 8 with hlt | hge
    · rw [Nat.div_eq_of_lt hlt, Nat.mod_eq_of_lt hlt, if_pos hlt]
      rfl
    · rw [show i / 8 = 1 by omega, show i % 8 = i - 8 by omega, if_neg (by omega)]
      rfl
  rw [happ, BitVec.toNat_append, Nat.shiftLeft_eq, Nat.or_comm]
  have ha := a.isLt
  have := Nat.shiftLeft_add_eq_or_of_lt ha b.toNat
  rw [Nat.shiftLeft_eq] at this
  rw [Nat.or_comm, ← this]
  omega

theorem received_frame (hist : List Hw.RxIn) (rxd : BitVec 4) (frame : Hw.UdpFrame) (x : BitVec 4) :
    (side.received (run Hw.MacRcv.cycle .init
      (hist ++ [⟨false, rxd⟩] ++ Hw.MacRcv.burst (nibbles frame.bytes ++ [x]))).d).toNat =
    (getElem (side.wire frame) 0 Nat.zero_lt_two).toNat +
      (getElem (side.wire frame) 1 Nat.one_lt_two).toNat * 256 := by
  obtain ⟨hs, hc, _⟩ := Hw.MacRcv.idle_of_gap (hist ++ [⟨false, rxd⟩]) (by simp)
  rw [run_append, (Hw.MacRcv.frame_notified frame x hs hc).2]
  have hbytes : side.received frame.rcvData = ofBytesLE 16 (side.wire frame).toList := by
    cases side <;> rfl
  rw [hbytes, vector_two, toNat_ofBytesLE_two]

/-- A frame with the port bytes `hi` and `lo` on either side. -/
def sample (hi lo : BitVec 8) : Hw.UdpFrame where
  dstMAC := .replicate 6 0
  srcMAC := .replicate 6 0
  ihl := 5
  ihl_range := Hw.ihl_five
  dscpEcn := 0
  ipLength := .replicate 2 0
  ipID := .replicate 2 0
  ttl := 0
  ipChecksum := .replicate 2 0
  srcIP := .replicate 4 0
  dstIP := .replicate 4 0
  options := .replicate _ 0
  srcPort := #v[hi, lo]
  dstPort := #v[hi, lo]
  udpChecksum := .replicate 2 0
  payload := [0]
  payload_range := by decide

/-- An entry that is the port number itself matches when the bytes of the number are equal. -/
theorem matches_iff (side : PortSide) (hn : n < 65536) :
    side.Matches (BitVec.ofNat 16 n) n ↔ n / 256 = n % 256 := by
  have hentry (hist rxd frame x) : BitVec.ofNat 16 n = side.received (run Hw.MacRcv.cycle .init
      (hist ++ [⟨false, rxd⟩] ++ Hw.MacRcv.burst (nibbles frame.bytes ++ [x]))).d ↔
      n = (side.wire frame)[0].toNat + (side.wire frame)[1].toNat * 256 := by
    rw [← BitVec.toNat_inj, received_frame, BitVec.toNat_ofNat, Nat.mod_eq_of_lt hn]
  constructor
  · intro h
    have hlast := h [] 0 (sample (BitVec.ofNat 8 (n / 256)) (BitVec.ofNat 8 (n % 256))) 0
    have hwire : side.wire (sample (BitVec.ofNat 8 (n / 256)) (BitVec.ofNat 8 (n % 256))) =
        #v[BitVec.ofNat 8 (n / 256), BitVec.ofNat 8 (n % 256)] := by
      cases side <;> rfl
    rw [hentry, number, hwire] at hlast
    have h0 : (BitVec.ofNat 8 (n / 256)).toNat = n / 256 := by
      rw [BitVec.toNat_ofNat]
      omega
    have h1 : (BitVec.ofNat 8 (n % 256)).toNat = n % 256 := by
      rw [BitVec.toNat_ofNat]
      omega
    simp only [Vector.getElem_mk, List.getElem_toArray, List.getElem_cons_zero, List.getElem_cons_succ,
      h0, h1] at hlast
    have := hlast.mpr (by omega)
    omega
  · intro heq hist rxd frame x
    rw [hentry, number]
    have h0 := (side.wire frame)[0].isLt
    have h1 := (side.wire frame)[1].isLt
    omega

/-! ## What the command makes of a port -/

/-- The list after the command. -/
theorem comAdminEditAdd_port (side : PortSide) (f : Sw.Filter) (hroom : (side.length f).toNat < 2)
    (s : Str) :
    ∃ f', comAdminEditAdd (side.word ++ ch ' ' :: s) f = (0, f') ∧
      side.swList f' = (side.swList f).setIfInBounds (side.length f).toNat (parsePort s) := by
  have hsplit : splitstr (side.word ++ ch ' ' :: s) = some (side.word, s) :=
    splitstr_word (by cases side <;> decide) s
  have hfull : side.length f ≠ 2 := by
    rintro h
    rw [h] at hroom
    exact absurd hroom (by decide)
  simp only [comAdminEditAdd, hsplit]
  cases side with
  | src =>
      rw [if_neg (by decide), if_neg (by decide), if_neg (by decide), if_neg (by decide),
        if_pos (show src.word = str "srcport" from rfl), if_neg (show f.srcPortLength ≠ 2 from hfull)]
      exact ⟨_, rfl, rfl⟩
  | dst =>
      rw [if_neg (by decide), if_neg (by decide), if_neg (by decide), if_neg (by decide),
        if_neg (by decide), if_pos (show dst.word = str "dstport" from rfl),
        if_neg (show f.dstPortLength ≠ 2 from hfull)]
      exact ⟨_, rfl, rfl⟩

/-- Swapped by `parse_port` and by the writer: the entry in the hardware is the number. -/
theorem entry_eq (side : PortSide) {f f' : Sw.Filter} (hroom : (side.length f).toNat < 2)
    (hn : n < 65536) (h : side.swList f' =
      (side.swList f).setIfInBounds (side.length f).toNat (parsePort (decimal n))) :
    (side.entries f'.toHw)[(side.length f).toNat] = BitVec.ofNat 16 n := by
  have hhw : side.entries f'.toHw = (side.swList f').map bswap16 := by cases side <;> rfl
  simp only [hhw, Vector.getElem_map, h, Vector.getElem_setIfInBounds_self, parsePort_decimal hn,
    bswap16_bswap16]

/-- A port entered, written to the packet and installed: the entry is its number. -/
theorem edit_installs (side : PortSide) (hn : n < 65536) {f : Sw.Filter}
    (hroom : (side.length f).toNat < 2) {st : AdminBuf} (hst : st.Reachable) {g : Hw.Generics}
    (hkey : g.adminKey = adminBufKey) :
    ∃ f' st', comAdminEditAdd (side.word ++ ch ' ' :: decimal n) f = (0, f') ∧
      writeToAdminPkt f' st = some st' ∧
      ∀ (inp : Nat → Hw.CoreinIn) (k : Nat),
        (trace (Hw.Corein.cycle g) .init inp k).core.s.s = .idle → (inp k).elRcvDv = true →
        (inp (k + 1)).elRcvData.dstMAC = g.adminMac →
        (inp (k + 1)).elRcvData.dnsPkt = ofBytesLE 1024 st'.adminPkt →
        ∃ m, 0 < m ∧ (trace (Hw.Corein.cycle g) .init inp (k + m)).core.s.s = .idle ∧
          (∀ t, 0 < t → t < m → (trace (Hw.Corein.cycle g) .init inp (k + t)).core.s.s ≠ .idle) ∧
          (side.entries (trace (Hw.Corein.cycle g) .init inp (k + m)).core.f)[(side.length f).toNat] =
            BitVec.ofNat 16 n := by
  obtain ⟨f', hadd, hlist⟩ := comAdminEditAdd_port side f hroom (decimal n)
  obtain ⟨st', hw, _, hpkt⟩ := writeToAdminPkt_spec f' hst.fresh
  refine ⟨f', st', hadd, hw, fun inp k hidle hdv hmac hdns => ?_⟩
  obtain ⟨_, m, hkm, _, _, hdone, hbusy, hf⟩ := hpkt.installs hkey inp k hidle hdv hmac hdns
  refine ⟨m, by omega, hdone, hbusy, ?_⟩
  simp only [hf]
  exact entry_eq side hroom hn hlist

/-- The filter of a `corein` that has accepted the packet written after `admin edit add`
matches the port entered exactly when the two bytes of the port are equal. -/
theorem com_admin_edit_add_port_matches (side : PortSide) (n : Nat) (hn : n < 65536)
    (f : Sw.Filter) (hroom : (side.length f).toNat < 2) (st : AdminBuf) (hst : st.Reachable)
    (g : Hw.Generics) (hkey : g.adminKey = adminBufKey) :
    ∃ f' st', comAdminEditAdd (side.word ++ ch ' ' :: decimal n) f = (0, f') ∧
      writeToAdminPkt f' st = some st' ∧
      ∀ (inp : Nat → Hw.CoreinIn) (k : Nat),
        (trace (Hw.Corein.cycle g) .init inp k).core.s.s = .idle → (inp k).elRcvDv = true →
        (inp (k + 1)).elRcvData.dstMAC = g.adminMac →
        (inp (k + 1)).elRcvData.dnsPkt = ofBytesLE 1024 st'.adminPkt →
        ∃ m, 0 < m ∧ (trace (Hw.Corein.cycle g) .init inp (k + m)).core.s.s = .idle ∧
          (∀ t, 0 < t → t < m → (trace (Hw.Corein.cycle g) .init inp (k + t)).core.s.s ≠ .idle) ∧
          (side.Matches (side.entries
            (trace (Hw.Corein.cycle g) .init inp (k + m)).core.f)[(side.length f).toNat] n ↔
              n / 256 = n % 256) := by
  obtain ⟨f', st', hadd, hw, hrun⟩ := edit_installs side hn hroom hst hkey
  refine ⟨f', st', hadd, hw, fun inp k hidle hdv hmac hdns => ?_⟩
  obtain ⟨m, hpos, hdone, hbusy, hentry⟩ := hrun inp k hidle hdv hmac hdns
  refine ⟨m, hpos, hdone, hbusy, ?_⟩
  rw [hentry]
  exact matches_iff side hn

/-- An administrator's packet offered to a `corein` at power-on. -/
def offered (bytes : List (BitVec 8)) : Nat → Hw.CoreinIn := fun _ =>
  ⟨{ Hw.RcvData.zero with
    dstMAC := ({} : Hw.Generics).adminMac, dnsPkt := ofBytesLE 1024 bytes }, true⟩

/-- Port 257 is entered as itself. -/
theorem com_admin_edit_add_port_257 : ∃ (inp : Nat → Hw.CoreinIn) (m : Nat),
    (trace (Hw.Corein.cycle {}) .init inp m).core.s.s = .idle ∧
    src.Matches (trace (Hw.Corein.cycle {}) .init inp m).core.f.srcPortList[0] 257 := by
  obtain ⟨_, st', _, _, h⟩ := com_admin_edit_add_port_matches .src 257 (by decide) Sw.Filter.empty
    (by decide) .init .start {} rfl
  obtain ⟨m, _, hidle, _, hiff⟩ := h (offered st'.adminPkt) 0 rfl rfl rfl rfl
  rw [Nat.zero_add] at hidle hiff
  exact ⟨_, m, hidle, hiff.mpr (by decide)⟩

/-- Port 53 is not: the entry of `admin edit add srcport 53` does not match it. -/
theorem com_admin_edit_add_port_53 : ∃ f' st', comAdminEditAdd (str "srcport 53") .empty = (0, f') ∧
    writeToAdminPkt f' .init = some st' ∧
    ∃ m, 0 < m ∧ (trace (Hw.Corein.cycle {}) .init (offered st'.adminPkt) m).core.s.s = .idle ∧
      (∀ t, 0 < t → t < m →
        (trace (Hw.Corein.cycle {}) .init (offered st'.adminPkt) t).core.s.s ≠ .idle) ∧
      ¬ src.Matches
        (trace (Hw.Corein.cycle {}) .init (offered st'.adminPkt) m).core.f.srcPortList[0] 53 := by
  obtain ⟨f', st', hadd, hw, h⟩ := edit_installs .src (n := 53) (by decide) (f := Sw.Filter.empty)
    (by decide) .start (g := {}) rfl
  obtain ⟨m, hpos, hidle, hbusy, hentry⟩ := h (offered st'.adminPkt) 0 rfl rfl rfl rfl
  simp only [Nat.zero_add] at hidle hbusy hentry
  have hport : (trace (Hw.Corein.cycle {}) .init (offered st'.adminPkt) m).core.f.srcPortList[0] =
      BitVec.ofNat 16 53 := hentry
  refine ⟨f', st', hadd, hw, m, hpos, hidle, hbusy, ?_⟩
  rw [hport, matches_iff .src (by decide)]
  decide

end PortSide

end DnsAdtm
