/-
# `Hw.MacRcvLength` — the length arithmetic of `mac_rcv`

The UDP length is assembled in `r.udpc` nibble by nibble, less the eight bytes of the UDP
header, and then turned into the count at which the payload ends.  `Fits` says of one
period that everything assigned to `rin.udpc`, `rin.c` and `d.dnsLength` in it lies in the
range of the registers, before `toRange` cuts it.

    counts_run       `r.c` stops at the stop count of its state: it never leaves its range
    length_fits      the length field and the UDP checksum, by the value of the field
    first_notify     when `el_dv` comes, for every value of the field
    mac_rcv_length   which values of the field keep to the range
-/
import DnsAdtm.Hw.MacRcvReject

namespace DnsAdtm.Hw

open Machine

namespace MacRcv

variable {st st' : MacRcv} {ns ms : List (BitVec 4)}

/-! ## The values assigned -/

/-- What is assigned to `rin.udpc`. -/
def udpcAssigned (st : MacRcv) (rxd : BitVec 4) : Option Int :=
  match st.s with
  | .udpPortDST => if st.c = 12 then some 0 else none
  | .udpLength =>
      if st.c = 0 ∨ st.c = 2 then some (st.udpc + rxd.toNat)
      else if st.c = 1 then some ((st.udpc + rxd.toNat * 16) * 256)
      else some (st.udpc + rxd.toNat * 16 - 8)
  | .udpChecksum => if st.c = 3 then some (st.udpc * 8 - 4) else none
  | _ => none

/-- What is assigned to `rin.c`.  Only the sum of `DNSMsgDiscard` is cut by `nibble`. -/
def cAssigned (st : MacRcv) (rxd : BitVec 4) : Option Int :=
  match st.s with
  | .startOfFrame => none
  | .dnsMsgDiscard => if st.c = st.udpc then some 0 else some (st.c + 4)
  | _ => some (st.nibble rxd).c

/-- What is assigned to `d.dnsLength`. -/
def dnsLengthAssigned (st : MacRcv) : Option Int :=
  match st.s with
  | .udpChecksum => if st.c = 3 then some st.udpc else none
  | _ => none

theorem nibble_udpc (st : MacRcv) (rxd : BitVec 4) :
    (st.nibble rxd).udpc = (st.udpcAssigned rxd).elim st.udpc toRange := by
  obtain ⟨s, c, ipc, udpc, d, elDv⟩ := st
  cases s <;> simp only [nibble, udpcAssigned, Option.elim] <;> split_ifs <;> rfl

/-! ## The counter -/

/-- The count at which a state is left. -/
def stopCount (st : MacRcv) : Nat :=
  match st.s with
  | .preamble => 14
  | .startOfFrame | .ipIHL | .ipVersion | .notify => 0
  | .etherMACDST | .etherMACSRC => 44
  | .etherType | .ipLength | .ipID | .ipFlagsFragment | .ipChecksum | .udpLength | .udpChecksum => 3
  | .ipDSCPECN | .ipTTL | .ipProtocol => 1
  | .ipAddrSRC | .ipAddrDST => 28
  | .ipOptions => (st.d.ipHeaderLength - 5) * 8 - 1
  | .udpPortSRC | .udpPortDST => 12
  | .dnsMsgRecord | .dnsMsgDiscard => st.udpc

/-- The states that count bits count them by fours. -/
def stride : RcvState → Nat
  | .etherMACDST | .etherMACSRC | .ipAddrSRC | .ipAddrDST | .udpPortSRC | .udpPortDST
  | .dnsMsgRecord | .dnsMsgDiscard => 4
  | _ => 1

/-- The counter will meet its stop count exactly. -/
structure Counts (st : MacRcv) : Prop where
  le : st.c ≤ st.stopCount
  dvd : (st.stopCount - st.c) % stride st.s = 0
  udpc : st.udpc < 65536
  ihl : knowsIHL st.s = true → 5 ≤ st.d.ipHeaderLength ∧ st.d.ipHeaderLength ≤ 15
  options : st.s = .ipOptions → st.d.ipHeaderLength ≠ 5

theorem toRange_lt (x : Int) : toRange x < 65536 := by
  rw [toRange]
  omega

theorem Counts.nibble (h : Counts st) (rxd : BitVec 4) : Counts (st.nibble rxd) := by
  have hudpc : (st.nibble rxd).udpc < 65536 := by
    rw [nibble_udpc]
    cases st.udpcAssigned rxd with
    | none => exact h.udpc
    | some v => exact toRange_lt v
  have hx := rxd.isLt
  obtain ⟨s, c, ipc, udpc, d, elDv⟩ := st
  obtain ⟨hle, hdvd, hlt, hihl, hoptions⟩ := h
  replace hlt : udpc < 65536 := hlt
  simp only [stopCount, stride] at hle hdvd
  cases s <;> simp only [MacRcv.nibble] at hudpc ⊢ <;> dsimp only [knowsIHL, RcvState.inBody] at hle hdvd hihl hoptions
  case ipIHL =>
    split_ifs with hlo
    · have hlo' : 5 ≤ rxd.toNat := hlo
      exact ⟨Nat.zero_le _, rfl, hlt, fun _ => ⟨hlo', by dsimp only; omega⟩, nofun⟩
    · exact ⟨Nat.zero_le _, Nat.mod_one _, hlt, nofun, nofun⟩
  case ipOptions =>
    -- the words of options are counted only where there are some
    have hrange := hihl rfl
    have hne := hoptions rfl
    split_ifs with hlast
    · exact ⟨Nat.zero_le _, by simp [stopCount, stride], hlt, fun _ => hrange, nofun⟩
    · refine ⟨?_, Nat.mod_one _, hlt, fun _ => hrange, fun _ => hne⟩
      dsimp only [stopCount]
      omega
  case ipAddrDST =>
    split_ifs with hlast hfive
    · exact ⟨Nat.zero_le _, by simp [stopCount, stride], hlt, fun _ => hihl rfl, nofun⟩
    · exact ⟨Nat.zero_le _, Nat.mod_one _, hlt, fun _ => hihl rfl, fun _ => hfive⟩
    · refine ⟨?_, ?_, hlt, fun _ => hihl rfl, nofun⟩ <;> dsimp only [stopCount, stride] <;> omega
  case udpChecksum =>
    split_ifs with hlast
    · refine ⟨Nat.zero_le _, ?_, toRange_lt _, fun _ => hihl rfl, nofun⟩
      dsimp only [stopCount, stride, toRange]
      omega
    · refine ⟨?_, Nat.mod_one _, hlt, fun _ => hihl rfl, nofun⟩
      dsimp only [stopCount]
      omega
  case dnsMsgDiscard =>
    split_ifs with hlast
    · exact ⟨Nat.zero_le _, rfl, hlt, fun _ => hihl rfl, nofun⟩
    · have hcut : toRange ((c : Int) + 4) = c + 4 := toRange_natCast (n := c + 4) (by omega)
      refine ⟨?_, ?_, hlt, fun _ => hihl rfl, nofun⟩ <;> dsimp only [stopCount, stride] <;> omega
  all_goals
    (try split_ifs at hudpc ⊢) <;>
      refine ⟨?_, ?_, hudpc, ?_, ?_⟩ <;> dsimp only [stopCount, stride, knowsIHL, RcvState.inBody] <;>
        first | omega | exact nofun

theorem Counts.cycle (h : Counts st) (i : RxIn) : Counts (st.cycle i) := by
  rw [MacRcv.cycle]
  split
  · exact h.nibble i.rxd
  · refine ⟨Nat.zero_le _, Nat.mod_one _, h.udpc, ?_, ?_⟩ <;> intro hs <;> cases hs

theorem Counts.run (h : Counts st) (ins : List RxIn) : Counts (Machine.run MacRcv.cycle st ins) :=
  run_invariant MacRcv.cycle (fun _ i h => h.cycle i) h ins

/-- In every run from power-on. -/
theorem counts_run (ins : List RxIn) : Counts (run MacRcv.cycle init ins) := by
  have hinit : Counts init := ⟨Nat.zero_le _, Nat.mod_one _, by decide, nofun, nofun⟩
  exact hinit.run ins

theorem Counts.c_lt (h : Counts st) : st.c < 65536 := by
  have hle := h.le
  have hihl := h.ihl
  have hudpc := h.udpc
  obtain ⟨s, c, ipc, udpc, d, elDv⟩ := st
  cases s
  case ipOptions =>
    have hrange := hihl rfl
    dsimp only [stopCount] at hle hrange ⊢
    omega
  all_goals
    dsimp only [stopCount] at hle hudpc ⊢
    omega

/-! ## The range -/

/-- The range of the registers. -/
def InRange (v : Int) : Prop := 0 ≤ v ∧ v ≤ 65535

theorem toRange_of_inRange {v : Int} (h : InRange v) : (toRange v : Int) = v := by
  rw [toRange, Int.emod_eq_of_lt h.1 (by have := h.2; omega)]
  exact Int.toNat_of_nonneg h.1

/-- The assignments of one period keep to the range. -/
structure Fits (st : MacRcv) (rxd : BitVec 4) : Prop where
  udpc : ∀ v ∈ st.udpcAssigned rxd, InRange v
  c : ∀ v ∈ st.cAssigned rxd, InRange v
  dnsLength : ∀ v ∈ st.dnsLengthAssigned, InRange v

theorem Counts.cAssigned (h : Counts st) (rxd : BitVec 4) : ∀ v ∈ st.cAssigned rxd, InRange v := by
  intro v hv
  have hnext := (h.nibble rxd).c_lt
  have hudpc := h.udpc
  unfold MacRcv.cAssigned at hv
  split at hv
  · cases hv
  · rename_i hs
    -- the sum is at most the stop count
    have hle := h.le
    have hdvd := h.dvd
    simp only [stopCount, stride, hs] at hle hdvd
    split_ifs at hv with hlast <;> cases hv
    · exact ⟨by decide, by decide⟩
    · exact ⟨by omega, by omega⟩
  · cases hv
    exact ⟨by omega, by omega⟩

theorem Counts.dnsLengthAssigned (h : Counts st) : ∀ v ∈ st.dnsLengthAssigned, InRange v := by
  intro v hv
  have hudpc := h.udpc
  unfold MacRcv.dnsLengthAssigned at hv
  split at hv
  · split_ifs at hv <;> cases hv
    exact ⟨by omega, by omega⟩
  · cases hv

theorem nibble_c (h : Counts st) (rxd : BitVec 4) :
    (st.nibble rxd).c = (st.cAssigned rxd).elim st.c toRange := by
  have hnext := (h.nibble rxd).c_lt
  unfold cAssigned
  split
  · rename_i hs
    simp only [nibble, hs]
    split_ifs <;> rfl
  · rename_i hs
    simp only [nibble, hs]
    split_ifs <;> rfl
  · exact (toRange_natCast hnext).symm

theorem nibble_dnsLength (h : Counts st) (rxd : BitVec 4) :
    (st.nibble rxd).d.dnsLength = st.dnsLengthAssigned.elim st.d.dnsLength toRange := by
  have hcut : toRange st.udpc = st.udpc := toRange_natCast h.udpc
  obtain ⟨s, c, ipc, udpc, d, elDv⟩ := st
  cases s <;> simp only [nibble, MacRcv.dnsLengthAssigned, Option.elim] <;> split_ifs <;> first | rfl | exact hcut.symm

/-- What fits is what the registers hold. -/
theorem Counts.registers (h : Counts st) {rxd : BitVec 4} (hfits : Fits st rxd) :
    (((st.nibble rxd).udpc : Int), ((st.nibble rxd).c : Int), ((st.nibble rxd).d.dnsLength : Int)) =
      ((st.udpcAssigned rxd).getD st.udpc, (st.cAssigned rxd).getD st.c,
        st.dnsLengthAssigned.getD st.d.dnsLength) := by
  have hcut {v : Option Int} {n : Nat} (hv : ∀ x ∈ v, InRange x) :
      ((v.elim n toRange : Nat) : Int) = v.getD n := by
    cases v with
    | none => rfl
    | some x => exact toRange_of_inRange (hv x rfl)
  rw [nibble_udpc, nibble_c h, nibble_dnsLength h, hcut hfits.udpc, hcut hfits.c, hcut hfits.dnsLength]

/-- The counter keeps to the range by itself: what is left is `udpc`. -/
theorem Counts.fits_iff (h : Counts st) (rxd : BitVec 4) :
    Fits st rxd ↔ ∀ v ∈ st.udpcAssigned rxd, InRange v :=
  ⟨Fits.udpc, fun hu => ⟨hu, h.cAssigned rxd, h.dnsLengthAssigned⟩⟩

/-! ## Where the length is read -/

/-- The UDP length is behind or under way. -/
def Late (st : MacRcv) : Prop := knowsLength st.s = true ∧ (st.s = .udpLength → st.c ≠ 0)

/-- A receiver that knows the length does not begin to read one before `el_dv`. -/
theorem late_step (h : knowsLength st.s = true) (rxd : BitVec 4) (hlow : (st.nibble rxd).elDv = false) :
    Late (st.nibble rxd) := by
  obtain ⟨s, c, ipc, udpc, d, elDv⟩ := st
  cases s <;> dsimp only [knowsLength] at h <;> (try cases h) <;> simp only [nibble] at hlow ⊢ <;>
    (try split_ifs) <;> first | exact ⟨rfl, nofun⟩ | exact ⟨rfl, fun _ => Nat.succ_ne_zero _⟩ | cases hlow

theorem late_reads (h : knowsLength st.s = true) (hreads : Reads st ns st') (hns : ns ≠ []) :
    Late st' := by
  induction hreads with
  | nil => exact absurd rfl hns
  | @cons st st' x ns hlow hrest ih =>
      have hlate := late_step h x hlow
      rcases List.eq_nil_or_concat ns with rfl | ⟨ms, y, rfl⟩
      · cases hrest
        exact hlate
      · exact ih hlate.1 (by simp)

theorem Reads.drop (h : Reads st (ns ++ ms) st') : Reads (run MacRcv.cycle st (burst ns)) ms st' := by
  induction ns generalizing st with
  | nil => exact h
  | cons x ns ih =>
      cases h with
      | cons _ h => exact ih h

/-- On the way to the length field no other length is read. -/
theorem early_reads (h : Reads st ns st') (hs : st'.s = .udpLength) (hc : st'.c = 0) {k : Nat}
    (hk : k < ns.length) : knowsLength (run MacRcv.cycle st (burst (ns.take k))).s = false := by
  by_contra hknown
  rw [Bool.not_eq_false] at hknown
  rw [← List.take_append_drop k ns] at h
  exact (late_reads hknown h.drop (by simpa using hk)).2 hs hc

/-- Before the length field everything fits. -/
theorem Counts.fits_early (h : Counts st) (hs : knowsLength st.s = false) (rxd : BitVec 4) :
    Fits st rxd := by
  refine (h.fits_iff rxd).2 fun v hv => ?_
  unfold udpcAssigned at hv
  split at hv
  · split_ifs at hv <;> cases hv
    exact ⟨by decide, by decide⟩
  · rename_i hlength
    rw [hlength] at hs
    cases hs
  · rename_i hchecksum
    rw [hchecksum] at hs
    cases hs
  · cases hv

/-- The payload and `Notify`. -/
def RcvState.inPayload : RcvState → Bool
  | .dnsMsgRecord | .dnsMsgDiscard | .notify => true
  | _ => false

/-- And so does everything behind the UDP header. -/
theorem Counts.fits_payload (h : Counts st) (hs : RcvState.inPayload st.s = true) (rxd : BitVec 4) :
    Fits st rxd := by
  refine (h.fits_iff rxd).2 fun v hv => ?_
  obtain ⟨s, c, ipc, udpc, d, elDv⟩ := st
  cases s <;> first | cases hv | cases hs

theorem payload_step (hs : RcvState.inPayload st.s = true) (rxd : BitVec 4)
    (hlow : (st.nibble rxd).elDv = false) : RcvState.inPayload (st.nibble rxd).s = true := by
  obtain ⟨s, c, ipc, udpc, d, elDv⟩ := st
  cases s <;> dsimp only [RcvState.inPayload] at hs <;> (try cases hs) <;> simp only [nibble] at hlow ⊢ <;>
    (try split_ifs) <;> first | rfl | cases hlow

/-! ## The length field -/

theorem Counts.fits_udpLength (h : Counts st) (hs : st.s = .udpLength) (rxd : BitVec 4) :
    Fits st rxd ↔ InRange (if st.c = 0 ∨ st.c = 2 then st.udpc + rxd.toNat
      else if st.c = 1 then (st.udpc + rxd.toNat * 16) * 256 else st.udpc + rxd.toNat * 16 - 8) := by
  rw [h.fits_iff]
  simp only [udpcAssigned, hs]
  split_ifs <;> simp

theorem Counts.fits_udpChecksum (h : Counts st) (hs : st.s = .udpChecksum) (rxd : BitVec 4) :
    Fits st rxd ↔ (st.c = 3 → InRange (st.udpc * 8 - 4)) := by
  rw [h.fits_iff]
  simp only [udpcAssigned, hs]
  split_ifs with hlast <;> simp [hlast]

/-- The length field and the checksum fit for the values 9 to 8200 of the field. -/
theorem length_fits {len : Nat} {n₀ n₁ n₂ n₃ m₀ m₁ m₂ m₃ : BitVec 4} (hcounts : Counts st)
    (hs : st.s = .udpLength) (hc : st.c = 0) (hudpc : st.udpc = 0)
    (hlen : len = (n₀.toNat + n₁.toNat * 16) * 256 + n₂.toNat + n₃.toNat * 16) :
    Along MacRcv.cycle (fun st i => Fits st i.rxd) st (burst [n₀, n₁, n₂, n₃, m₀, m₁, m₂, m₃]) ↔
      9 ≤ len ∧ len ≤ 8200 := by
  have h₀ := n₀.isLt
  have h₁ := n₁.isLt
  have h₂ := n₂.isLt
  have h₃ := n₃.isLt
  -- the registers in each of the eight periods
  have e₁ : st.nibble n₀ = { st with c := 1, udpc := n₀.toNat, elDv := false } := by
    simp [nibble, hs, hc, hudpc, toRange_natCast (n := n₀.toNat) (by omega)]
  have e₂ : ({ st with c := 1, udpc := n₀.toNat, elDv := false } : MacRcv).nibble n₁ =
      { st with c := 2, udpc := (n₀.toNat + n₁.toNat * 16) * 256, elDv := false } := by
    simp [nibble, hs]
    rw [toRange]
    omega
  have e₃ : ({ st with c := 2, udpc := (n₀.toNat + n₁.toNat * 16) * 256, elDv := false } : MacRcv).nibble n₂ =
      { st with c := 3, udpc := (n₀.toNat + n₁.toNat * 16) * 256 + n₂.toNat, elDv := false } := by
    simp [nibble, hs]
    rw [toRange]
    omega
  have e₄ : ({ st with c := 3, udpc := (n₀.toNat + n₁.toNat * 16) * 256 + n₂.toNat, elDv := false } :
      MacRcv).nibble n₃ =
      { st with s := .udpChecksum, c := 0, udpc := toRange (len - 8), elDv := false } := by
    simp [nibble, hs, hlen]
  have e₅ (m : BitVec 4) (c : Nat) (hlast : c ≠ 3) : ({ st with
      s := .udpChecksum, c, udpc := toRange (len - 8), elDv := false } : MacRcv).nibble m =
      { st with s := .udpChecksum, c := c + 1, udpc := toRange (len - 8), elDv := false } := by
    simp [nibble, hlast]
  have k₁ := hcounts.nibble n₀
  rw [e₁] at k₁
  have k₂ := k₁.nibble n₁
  rw [e₂] at k₂
  have k₃ := k₂.nibble n₂
  rw [e₃] at k₃
  have k₄ := k₃.nibble n₃
  rw [e₄] at k₄
  have k₅ := k₄.nibble m₀
  rw [e₅ m₀ 0 (by decide)] at k₅
  have k₆ := k₅.nibble m₁
  rw [e₅ m₁ 1 (by decide)] at k₆
  have k₇ := k₆.nibble m₂
  rw [e₅ m₂ 2 (by decide)] at k₇
  simp only [burst, List.map_cons, List.map_nil, Along, MacRcv.cycle, if_true, e₁, e₂, e₃, e₄,
    e₅ m₀ 0 (by decide), e₅ m₁ 1 (by decide), e₅ m₂ 2 (by decide), and_true]
  rw [hcounts.fits_udpLength hs, k₁.fits_udpLength hs, k₂.fits_udpLength hs, k₃.fits_udpLength hs,
    k₄.fits_udpChecksum rfl, k₅.fits_udpChecksum rfl, k₆.fits_udpChecksum rfl, k₇.fits_udpChecksum rfl]
  have hcut : (toRange (len - 8) : Int) = ((len : Int) - 8) % 65536 := by
    rw [toRange]
    omega
  simp [hc, hudpc, InRange, hcut]
  omega

/-! ## The frame -/

/-- A frame up to the length field of its UDP header. -/
def route (f : UdpFrame) : List (BitVec 8) :=
  List.replicate 7 0x55 ++ [0xd5] ++ f.ethernetHeader ++ f.ipHeader ++ (f.srcPort.toList ++ f.dstPort.toList)

/-- The UDP length, high byte first, and the checksum. -/
def lengthBytes (f : UdpFrame) (len : BitVec 16) : List (BitVec 8) :=
  [len.extractLsb' 8 8, len.extractLsb' 0 8] ++ f.udpChecksum.toList

/-- A frame up to its payload, with `len` for its UDP length. -/
def head (f : UdpFrame) (len : BitVec 16) : List (BitVec 8) := route f ++ lengthBytes f len

/-- Where the count of the payload stops. -/
def lastBit (len : BitVec 16) : Nat := toRange (toRange (len.toNat - 8) * 8 - 4)

theorem route_reads (f : UdpFrame) (hs : st.s = .preamble) (hc : st.c = 0) :
    ∃ st', Reads st (nibbles (route f)) st' ∧ st'.s = .udpLength ∧ st'.c = 0 ∧ st'.udpc = 0 := by
  have hwire : nibbles (route f) = delimiter ++ (nibbles f.ethernetHeader ++ (nibbles f.ipHeader ++
      nibbles (f.srcPort.toList ++ f.dstPort.toList))) := by
    simp only [route, nibbles_append, List.append_assoc]
    rfl
  rw [hwire]
  refine ⟨_, (preamble_reads hs hc).append ((ethernet_reads f rfl rfl).append
    ((ip_reads f rfl).append (ports_reads f rfl rfl))), rfl, rfl, rfl⟩

theorem head_reads (f : UdpFrame) (len : BitVec 16) (hs : st.s = .preamble) (hc : st.c = 0) :
    ∃ st', Reads st (nibbles (head f len)) st' ∧ st'.s = .dnsMsgRecord ∧ st'.c = 0 ∧
      st'.d.dnsPkt = 0 ∧ st'.udpc = lastBit len := by
  obtain ⟨st₁, hroute, hs₁, hc₁, hudpc₁⟩ := route_reads f hs hc
  rw [head, lengthBytes, nibbles_append, nibbles_append]
  refine ⟨_, hroute.append ((udpLength_reads len hs₁ hc₁ hudpc₁).append
    (udpChecksumSkip.reads _ rfl trivial rfl (by simp [udpChecksumSkip]))), rfl, rfl, rfl, rfl⟩

/-- The head fits for the lengths 9 to 8200. -/
theorem head_fits (f : UdpFrame) (len : BitVec 16) (hcounts : Counts st) (hs : st.s = .preamble)
    (hc : st.c = 0) :
    Along MacRcv.cycle (fun st i => Fits st i.rxd) st (burst (nibbles (head f len))) ↔
      9 ≤ len.toNat ∧ len.toNat ≤ 8200 := by
  obtain ⟨st₁, hroute, hs₁, hc₁, hudpc₁⟩ := route_reads f hs hc
  obtain ⟨a, b, hab⟩ : ∃ a b, f.udpChecksum.toList = [a, b] :=
    List.length_eq_two.mp f.udpChecksum.length_toList
  have hearly : Along MacRcv.cycle (fun st i => Fits st i.rxd) st (burst (nibbles (route f))) := by
    refine (along_iff MacRcv.cycle).2 fun k i hi => ?_
    have hk : k < (nibbles (route f)).length := by
      have := (List.getElem?_eq_some_iff.mp hi).1
      simpa [burst] using this
    have htake : (burst (nibbles (route f))).take k = burst ((nibbles (route f)).take k) := by
      rw [burst, burst, List.map_take]
    rw [htake]
    exact (hcounts.run _).fits_early (early_reads hroute hs₁ hc₁ hk) i.rxd
  have hlast : Along MacRcv.cycle (fun st i => Fits st i.rxd) st₁ (burst (nibbles (lengthBytes f len))) ↔
      9 ≤ len.toNat ∧ len.toNat ≤ 8200 := by
    have hcounts₁ := hcounts.run (burst (nibbles (route f)))
    rw [hroute.run_eq] at hcounts₁
    rw [lengthBytes, hab]
    exact length_fits hcounts₁ hs₁ hc₁ hudpc₁ (toNat_of_nibbles len)
  rw [head, nibbles_append, burst_append, along_append, hroute.run_eq, hlast]
  exact and_iff_right hearly

/-! ## The payload and `el_dv` -/

/-- The first `n + 1` nibbles of a payload of that many. -/
theorem payload_low {n k : Nat} (hs : st.s = .dnsMsgRecord) (hc : st.c = 0) (hpkt : st.d.dnsPkt = 0)
    (hudpc : st.udpc = 4 * n) (hn : n < 16384) (hpos : 0 < k) (hk : k ≤ ns.length) (hkn : k ≤ n + 1) :
    (run MacRcv.cycle st (burst (ns.take k))).elDv = false := by
  -- what comes in may stop short of the payload: fill it up
  have hlen : ((ns ++ List.replicate (n + 1) 0).take (n + 1)).length = n + 1 := by simp
  have hreads := record_reads ((ns ++ List.replicate (n + 1) 0).take (n + 1)) hs
    (List.ne_nil_of_length_pos (by omega)) hc hpkt (by omega) (by omega)
  have hlow := hreads.low hpos (by omega)
  rwa [List.take_take, Nat.min_eq_left hkn, List.take_append_of_le_length hk] at hlow

/-- And the nibble behind them. -/
theorem payload_high {n : Nat} (hs : st.s = .dnsMsgRecord) (hc : st.c = 0) (hpkt : st.d.dnsPkt = 0)
    (hudpc : st.udpc = 4 * n) (hn : n < 16384) (hlen : n + 2 ≤ ns.length) :
    (run MacRcv.cycle st (burst (ns.take (n + 2)))).elDv = true := by
  have htake : (ns.take (n + 1)).length = n + 1 := by simp; omega
  have hreads := record_reads (ns.take (n + 1)) hs (List.ne_nil_of_length_pos (by omega)) hc hpkt
    (by omega) (by omega)
  rw [List.take_succ_eq_append_getElem (by omega), burst_append, run_append, hreads.run_eq]
  rfl

theorem lastBit_eq (len : BitVec 16) : ∃ n, lastBit len = 4 * n ∧ n < 16384 := by
  refine ⟨lastBit len / 4, ?_, ?_⟩ <;> rw [lastBit, toRange, toRange] <;> omega

/-- What follows the gap: the head of a frame with the UDP length `len`, and `ns`. -/
def wire (f : UdpFrame) (len : BitVec 16) (ns : List (BitVec 4)) : List (BitVec 4) :=
  nibbles (head f len) ++ ns

/-- `el_dv` comes for the first time with nibble `k`. -/
def FirstNotify (st : MacRcv) (ns : List (BitVec 4)) (k : Nat) : Prop :=
  (run MacRcv.cycle st (burst (ns.take k))).elDv = true ∧
    ∀ j < k, (run MacRcv.cycle st (burst (ns.take j))).elDv = false

/-- For every length `el_dv` comes with the second nibble behind the stop count. -/
theorem first_notify (f : UdpFrame) (len : BitVec 16) (ns : List (BitVec 4)) (hs : st.s = .preamble)
    (hc : st.c = 0) (hlow : st.elDv = false) {k : Nat} (hk : k ≤ (wire f len ns).length) :
    FirstNotify st (wire f len ns) k ↔ k = (nibbles (head f len)).length + lastBit len / 4 + 2 := by
  obtain ⟨st', hhead, hs', hc', hpkt', hudpc'⟩ := head_reads f len hs hc
  obtain ⟨n, hn, hlt⟩ := lastBit_eq len
  rw [hn] at hudpc'
  rw [hn, Nat.mul_div_cancel_left n (by decide)]
  -- low up to the end of the payload
  have hquiet : ∀ j ≤ (wire f len ns).length, j ≤ (nibbles (head f len)).length + n + 1 →
      (run MacRcv.cycle st (burst ((wire f len ns).take j))).elDv = false := by
    intro j hj hjn
    rcases Nat.eq_zero_or_pos j with rfl | hpos
    · exact hlow
    rcases Nat.lt_or_ge (nibbles (head f len)).length j with hgt | hle
    · obtain ⟨m, rfl⟩ := Nat.exists_eq_add_of_le hgt.le
      rw [wire, List.length_append] at hj
      rw [wire, List.take_length_add_append, burst_append, run_append, hhead.run_eq]
      exact payload_low hs' hc' hpkt' hudpc' hlt (by omega) (by omega) (by omega)
    · rw [wire, List.take_append_of_le_length hle]
      exact hhead.low hpos hle
  have hnotify : (nibbles (head f len)).length + n + 2 ≤ (wire f len ns).length →
      (run MacRcv.cycle st (burst ((wire f len ns).take ((nibbles (head f len)).length + n + 2)))).elDv =
        true := by
    intro hlen
    rw [wire, List.length_append] at hlen
    rw [wire, Nat.add_assoc, List.take_length_add_append, burst_append, run_append, hhead.run_eq]
    exact payload_high hs' hc' hpkt' hudpc' hlt (by omega)
  constructor
  · rintro ⟨hhigh, hfirst⟩
    by_contra hne
    rcases Nat.lt_or_ge k ((nibbles (head f len)).length + n + 2) with hlt' | hge
    · rw [hquiet k hk (by omega)] at hhigh
      cases hhigh
    · have hlow' := hfirst ((nibbles (head f len)).length + n + 2) (by omega)
      rw [hnotify (by omega)] at hlow'
      cases hlow'
  · rintro rfl
    exact ⟨hnotify hk, fun j hj => hquiet j (by omega) (by omega)⟩

/-- The length arithmetic of a frame with the UDP length `len`, met in `st`: nothing wraps up to
`el_dv`, and `el_dv` comes only behind `len - 8` bytes of payload. -/
structure LengthExact (st : MacRcv) (f : UdpFrame) (len : BitVec 16) (ns : List (BitVec 4)) : Prop where
  fits : ∀ k x, (wire f len ns)[k]? = some x →
    (∀ j ≤ k, (run MacRcv.cycle st (burst ((wire f len ns).take j))).elDv = false) →
    Fits (run MacRcv.cycle st (burst ((wire f len ns).take k))) x
  notified : ∀ k ≤ (wire f len ns).length, FirstNotify st (wire f len ns) k →
    (k : Int) = (nibbles (head f len)).length + 2 * ((len.toNat : Int) - 8) + 1

/-- Up to `el_dv` the receiver stays in the payload. -/
theorem payload_run (hs : RcvState.inPayload st.s = true) {k : Nat} (hk : k ≤ ns.length)
    (hlow : ∀ j, 0 < j → j ≤ k → (run MacRcv.cycle st (burst (ns.take j))).elDv = false) :
    RcvState.inPayload (run MacRcv.cycle st (burst (ns.take k))).s = true := by
  induction k with
  | zero => exact hs
  | succ k ih =>
      have hnow := hlow (k + 1) (Nat.succ_pos k) (Nat.le_refl _)
      rw [List.take_succ_eq_append_getElem (by omega), burst_append, run_append] at hnow ⊢
      exact payload_step (ih (by omega) fun j hj hle => hlow j hj (by omega)) _ hnow

/-- Nothing wraps up to `el_dv`, and `el_dv` comes only behind `len - 8` bytes of payload: for the
lengths 9 to 8200, and no others. -/
theorem mac_rcv_length (hist : List RxIn) (rxd : BitVec 4) (f : UdpFrame) (len : BitVec 16)
    (ns : List (BitVec 4)) :
    LengthExact (run MacRcv.cycle init (hist ++ [⟨false, rxd⟩])) f len ns ↔
      9 ≤ len.toNat ∧ len.toNat ≤ 8200 := by
  obtain ⟨hs, hc, hlow⟩ := idle_of_gap (hist ++ [⟨false, rxd⟩]) (by simp)
  have hcounts := counts_run (hist ++ [⟨false, rxd⟩])
  generalize run MacRcv.cycle init (hist ++ [⟨false, rxd⟩]) = st at hs hc hlow hcounts ⊢
  obtain ⟨st', hhead, hs', -, -, -⟩ := head_reads f len hs hc
  have hhead_take : ∀ k ≤ (nibbles (head f len)).length,
      (wire f len ns).take k = (nibbles (head f len)).take k := fun k hk =>
    List.take_append_of_le_length hk
  constructor
  · intro h
    refine (head_fits f len hcounts hs hc).1 ((along_iff MacRcv.cycle).2 fun k i hi => ?_)
    obtain ⟨x, hx, rfl⟩ : ∃ x, (nibbles (head f len))[k]? = some x ∧ ⟨true, x⟩ = i := by
      simpa [burst] using hi
    have hk : k < (nibbles (head f len)).length := (List.getElem?_eq_some_iff.mp hx).1
    have hfits := h.fits k x (by rw [wire, List.getElem?_append_left hk, hx]) fun j hj => by
      rw [hhead_take j (by omega)]
      rcases Nat.eq_zero_or_pos j with rfl | hpos
      · exact hlow
      · exact hhead.low hpos (by omega)
    rw [hhead_take k hk.le] at hfits
    rwa [burst, ← List.map_take]
  · intro hrange
    refine ⟨fun k x hx hquiet => ?_, fun k hk hfirst => ?_⟩
    · have hk := (List.getElem?_eq_some_iff.mp hx).1
      rcases Nat.lt_or_ge k (nibbles (head f len)).length with hlt | hge
      · have hall := (along_iff MacRcv.cycle).1 ((head_fits f len hcounts hs hc).2 hrange) k ⟨true, x⟩
        rw [hhead_take k hlt.le]
        rw [wire, List.getElem?_append_left hlt] at hx
        rw [burst, ← List.map_take] at hall
        exact hall (by rw [List.getElem?_map, hx]; rfl)
      · obtain ⟨m, rfl⟩ := Nat.exists_eq_add_of_le hge
        rw [wire, List.length_append] at hk
        refine (hcounts.run _).fits_payload ?_ x
        have hquiet' : ∀ j, 0 < j → j ≤ m → (run MacRcv.cycle st' (burst (ns.take j))).elDv = false := by
          intro j _ hj
          have := hquiet ((nibbles (head f len)).length + j) (by omega)
          rwa [wire, List.take_length_add_append, burst_append, run_append, hhead.run_eq] at this
        rw [wire, List.take_length_add_append, burst_append, run_append, hhead.run_eq]
        exact payload_run (by rw [hs']; rfl) (by omega) hquiet'
    · rw [(first_notify f len ns hs hc hlow hk).1 hfirst, lastBit, toRange, toRange]
      omega

/-- A frame without payload: the count of its bits is -4. -/
theorem mac_rcv_length_empty :
    ¬ ∀ (hist : List RxIn) (rxd : BitVec 4) (f : UdpFrame) (len : BitVec 16) (ns : List (BitVec 4)),
      LengthExact (run MacRcv.cycle init (hist ++ [⟨false, rxd⟩])) f len ns := by
  intro h
  have hfits := (h [] 0 nestedFrame.innerFrame 8 []).fits 99 0 (by decide +kernel) (by decide +kernel)
  have hudpc := hfits.udpc (-4) (by decide +kernel)
  exact absurd hudpc.1 (by decide)

end MacRcv

end DnsAdtm.Hw
