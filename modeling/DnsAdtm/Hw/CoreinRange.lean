/-
# `Hw.CoreinRange` — the declared ranges of `corein`

A range of the hardware description is no part of the step: a register holds what it is
assigned.  So a run is safe where every register of every state is in its range (`Ranged`),
and every index and slice of every period is inside its vector (`Reads`).

What can go wrong comes from the packets (`Takes`): a length of three or an end pointer above
128 that is written to the filter, and an end pointer that is no multiple of 8, under which
the scan moves the area past the end of `dnsPkt`.

    rcv_ranged, rcv_place   one period, register by register and state by state
    corein_ranged_iff       the runs that are safe

`Place` is what carries the step: how far each list stage has come, and for the scan that
the area at the current offset still fits into `dnsPkt` (`Trying`).
-/
import DnsAdtm.Hw.CoreinAdmin
import DnsAdtm.Hw.CoreinQuery

namespace DnsAdtm.Hw

open Machine

variable {g : Generics} {st : Core} {i : RcvIn} {f : Filter} {rd : RcvData}

/-! ## Ranges -/

/-- The ranges of `filter_t`. -/
structure Filter.Ranged (f : Filter) : Prop where
  srcMAC : f.srcMACLength ≤ filterDepth
  dstMAC : f.dstMACLength ≤ filterDepth
  srcIP : f.srcIPLength ≤ filterDepth
  dstIP : f.dstIPLength ≤ filterDepth
  srcPort : f.srcPortLength ≤ filterDepth
  dstPort : f.dstPortLength ≤ filterDepth
  dns : f.dnsLength ≤ filterDepth
  endPtr : ∀ i (hi : i < filterDepth), f.dnsItemEndPtr[i] ≤ 128

/-- The ranges of `istate_t`. -/
structure IState.Ranged (s : IState) : Prop where
  pc : s.pc ≤ 15
  amc : s.amc ≤ 15
  aic : s.aic ≤ 15
  apc : s.apc ≤ 15
  adc : s.adc ≤ 15
  fsmc : s.fsmc ≤ 15
  fdmc : s.fdmc ≤ 15
  fsic : s.fsic ≤ 15
  fdic : s.fdic ≤ 15
  fspc : s.fspc ≤ 15
  fdpc : s.fdpc ≤ 15
  fdnsc : s.fdnsc ≤ 15
  fpktsc : s.fpktsc ≤ 1023
  fpktc : s.fpktc ≤ 128

/-- The ranges of the variables. -/
structure PktVars.Ranged (v : PktVars) : Prop where
  endPtr : v.endPtr ≤ 1024
  areaEndPtr : v.areaEndPtr ≤ 1024
  itemEndPtr : v.itemEndPtr ≤ 128
  itemPtr : v.itemPtr ≤ 2

/-- The ranges of `rcv_data_t`. -/
structure RcvData.Ranged (rd : RcvData) : Prop where
  ipHeaderLength : rd.ipHeaderLength ≤ 15
  ipLength : rd.ipLength ≤ 65535
  dnsLength : rd.dnsLength ≤ 65535

/-- Every register and variable is in its range. -/
structure Core.Ranged (st : Core) : Prop where
  f : st.f.Ranged
  s : st.s.Ranged
  pkt : st.pkt.Ranged
  rd : st.rd.Ranged

/-- The two slices that an area comparison of `n` bits takes, and the bits it takes off. -/
structure Core.Slices (n : Nat) (st : Core) : Prop where
  area : n ≤ st.pkt.areaEndPtr ∧ st.pkt.areaEndPtr ≤ 1024
  item : st.pkt.itemPtr < filterDepth
  itemEnd : n ≤ st.pkt.itemEndPtr ∧ st.pkt.itemEndPtr ≤ 128
  left : n ≤ st.s.fpktc

/-- Every index and slice of the period from `st` is inside its vector. -/
def Core.Reads (st : Core) : Prop :=
  match st.s.s with
  | .cmpSrcMAC => st.s.fsmc < filterDepth
  | .cmpDstMAC => st.s.fdmc < filterDepth
  | .cmpSrcIP => st.s.fsic < filterDepth
  | .cmpDstIP => st.s.fdic < filterDepth
  | .cmpSrcPort => st.s.fspc < filterDepth
  | .cmpDstPort => st.s.fdpc < filterDepth
  | .checkPkt => st.s.fdnsc ≠ st.f.dnsLength → st.s.fdnsc < filterDepth
  | .cmpPktArea32 => st.Slices 32
  | .cmpPktArea24 => st.Slices 24
  | .cmpPktArea16 => st.Slices 16
  | .cmpPktArea8 => st.Slices 8
  | .cmpPktDone => st.s.fpktmf = false → st.s.fdnsc < filterDepth
  | _ => True

/-! ## What is taken from a packet -/

/-- The bits of item `k` that are compared with the packet, all but the lowest
`endPtr mod 8`, are those of the packet from bit `p` on. -/
def BitsMatch (f : Filter) (rd : RcvData) (k p : Nat) : Prop :=
  ∀ j, f.endPtr k % 8 ≤ j → j < f.endPtr k → rd.dnsPkt.getLsbD (p + j) = (f.dnsList.at k).getLsbD j

/-- The scan of item `k`, when it stands at packet bit `p`, does not leave `dnsPkt`: the item
is of whole bytes, or the payload is shorter than `dnsPkt`, or the item is found before. -/
def StaysInside (f : Filter) (rd : RcvData) (k p : Nat) : Prop :=
  8 ∣ f.endPtr k ∨ rd.dnsLength < 128 ∨
    ∃ m, p ≤ 8 * m ∧ 8 * m + f.endPtr k ≤ 1024 ∧ BitsMatch f rd k (8 * m)

/-- What the period from `st` takes from a packet, into the filter or as the payload to scan,
is in range. -/
def Core.Takes (st : Core) : Prop :=
  match st.s.s with
  | .updateFilterSrcMACMeta => (downto st.rd.dnsPkt 2 1 : BitVec 2).toNat ≤ filterDepth
  | .updateFilterDstMACMeta => (downto st.rd.dnsPkt 101 100 : BitVec 2).toNat ≤ filterDepth
  | .updateFilterSrcIPMeta => (downto st.rd.dnsPkt 200 199 : BitVec 2).toNat ≤ filterDepth
  | .updateFilterDstIPMeta => (downto st.rd.dnsPkt 267 266 : BitVec 2).toNat ≤ filterDepth
  | .updateFilterSrcPortMeta => (downto st.rd.dnsPkt 334 333 : BitVec 2).toNat ≤ filterDepth
  | .updateFilterDstPortMeta => (downto st.rd.dnsPkt 369 368 : BitVec 2).toNat ≤ filterDepth
  | .updateFilterDNSMeta => (downto st.rd.dnsPkt 404 403 : BitVec 2).toNat ≤ filterDepth ∧
      (downto st.rd.dnsPkt 412 405 : BitVec 8).toNat ≤ 128 ∧
      (downto st.rd.dnsPkt 420 413 : BitVec 8).toNat ≤ 128
  | .checkPkt => st.s.fdnsc ≠ st.f.dnsLength → StaysInside st.f st.rd st.s.fdnsc 0
  | _ => True

/-! ## How far the filter route has come -/

/-- The scan of item `fdnsc` stands at packet bit `fpktsc`. -/
structure Core.Trying (st : Core) : Prop where
  item : st.s.fdnsc < st.f.dnsLength
  endPtr : st.pkt.endPtr = pktEnd st.rd
  byte : 8 ∣ st.s.fpktsc
  fits : st.s.fpktsc + st.f.endPtr st.s.fdnsc ≤ 1024
  inside : StaysInside st.f st.rd st.s.fdnsc st.s.fpktsc

/-- The lowest `fpktc` bits of the item are left to compare. -/
structure Core.Left (st : Core) : Prop extends st.Trying where
  le : st.s.fpktc ≤ st.f.endPtr st.s.fdnsc
  mod : st.s.fpktc % 8 = st.f.endPtr st.s.fdnsc % 8

/-- And the highest `n` of them are next. -/
structure Core.AtArea (n : Nat) (st : Core) : Prop extends st.Left where
  room : n ≤ st.s.fpktc
  pkt : st.pkt = ⟨st.pkt.endPtr, st.s.fpktsc + st.s.fpktc, st.s.fpktc, st.s.fdnsc⟩

/-- What holds of the counters in a state of the filter route. -/
def Core.Place (st : Core) : Prop :=
  match st.s.s with
  | .checkSrcMAC => st.s.fsmc ≤ st.f.srcMACLength
  | .cmpSrcMAC => st.s.fsmc < st.f.srcMACLength
  | .checkDstMAC => st.s.fdmc ≤ st.f.dstMACLength
  | .cmpDstMAC => st.s.fdmc < st.f.dstMACLength
  | .checkSrcIP => st.s.fsic ≤ st.f.srcIPLength
  | .cmpSrcIP => st.s.fsic < st.f.srcIPLength
  | .checkDstIP => st.s.fdic ≤ st.f.dstIPLength
  | .cmpDstIP => st.s.fdic < st.f.dstIPLength
  | .checkSrcPort => st.s.fspc ≤ st.f.srcPortLength
  | .cmpSrcPort => st.s.fspc < st.f.srcPortLength
  | .checkDstPort => st.s.fdpc ≤ st.f.dstPortLength
  | .cmpDstPort => st.s.fdpc < st.f.dstPortLength
  | .checkPkt => st.s.fdnsc ≤ st.f.dnsLength
  | .cmpPktCheck => st.Left
  | .cmpPktArea32 => st.AtArea 32
  | .cmpPktArea24 => st.AtArea 24
  | .cmpPktArea16 => st.AtArea 16
  | .cmpPktArea8 => st.AtArea 8
  | .cmpPktDone => st.Trying ∧ (st.s.fpktmf = false → ¬ BitsMatch st.f st.rd st.s.fdnsc st.s.fpktsc)
  | _ => True

/-! ## Reads -/

theorem Filter.Ranged.endPtr_le (h : f.Ranged) (k : Nat) : f.endPtr k ≤ 128 := by
  rw [Filter.endPtr]
  by_cases hk : k < filterDepth
  · rw [Vector.getElem?_eq_getElem hk, Option.getD_some]
    exact h.endPtr k hk
  · rw [Vector.getElem?_eq_none (Nat.le_of_not_lt hk), Option.getD_none]
    exact Nat.zero_le _

theorem Core.AtArea.slices {n : Nat} (h : st.AtArea n) (hf : st.f.Ranged) : st.Slices n := by
  have hle := h.le
  have hfits := h.fits
  have hitem := h.item
  have hroom := h.room
  have hend := hf.endPtr_le st.s.fdnsc
  have hdns := hf.dns
  have hpkt := h.pkt
  refine ⟨?_, ?_, ?_, hroom⟩
  · rw [hpkt]
    dsimp only
    omega
  · rw [hpkt]
    exact Nat.lt_of_lt_of_le hitem hdns
  · rw [hpkt]
    dsimp only
    omega

/-- In place and with the filter in range, the period reads inside the vectors. -/
theorem Core.Place.reads (h : st.Place) (hf : st.f.Ranged) : st.Reads := by
  rw [Core.Place] at h
  rw [Core.Reads]
  cases hs : st.s.s <;> rw [hs] at h <;> dsimp only at h ⊢
  case cmpSrcMAC => exact Nat.lt_of_lt_of_le h hf.srcMAC
  case cmpDstMAC => exact Nat.lt_of_lt_of_le h hf.dstMAC
  case cmpSrcIP => exact Nat.lt_of_lt_of_le h hf.srcIP
  case cmpDstIP => exact Nat.lt_of_lt_of_le h hf.dstIP
  case cmpSrcPort => exact Nat.lt_of_lt_of_le h hf.srcPort
  case cmpDstPort => exact Nat.lt_of_lt_of_le h hf.dstPort
  case checkPkt =>
      intro hne
      exact Nat.lt_of_lt_of_le (Nat.lt_of_le_of_ne h hne) hf.dns
  case cmpPktArea32 | cmpPktArea24 | cmpPktArea16 | cmpPktArea8 => exact h.slices hf
  case cmpPktDone =>
      intro _
      exact Nat.lt_of_lt_of_le h.1.item hf.dns

/-! ## One period -/

/-- The filter is assigned in the heads of the seven lists. -/
theorem rcv_f_ranged (h : st.f.Ranged) (htake : st.Takes) : (rcv g st i).f.Ranged := by
  by_cases hphase : st.s.s.phase = .updating
  · rw [Core.Takes] at htake
    unfold rcv
    cases hs : st.s.s <;> rw [hs] at hphase htake <;> first | (cases hphase; done) | skip
    all_goals dsimp only at htake ⊢
    case updateFilterSrcMACMeta => exact { h with srcMAC := htake }
    case updateFilterDstMACMeta => exact { h with dstMAC := htake }
    case updateFilterSrcIPMeta => exact { h with srcIP := htake }
    case updateFilterDstIPMeta => exact { h with dstIP := htake }
    case updateFilterSrcPortMeta => exact { h with srcPort := htake }
    case updateFilterDstPortMeta => exact { h with dstPort := htake }
    case updateFilterDNSMeta =>
        obtain ⟨hlen, h₀, h₁⟩ := htake
        refine { h with dns := hlen, endPtr := fun i hi => ?_ }
        have hlt : i < 2 := hi
        simp only [set_set_eq]
        rcases (by omega : i = 0 ∨ i = 1) with rfl | rfl
        · exact h₀
        · exact h₁
    case updateReplyType => exact { h with }
    all_goals
      refine listState_cases (fun st' => st'.f.Ranged) ?_ ?_ ?_
      all_goals
        intro _
        exact { h with }
  · rw [rcv_filter_eq hphase]
    exact h

theorem putPkt_ranged {m : Nat} {o : Core} {hi lo : Nat} {x : BitVec m} {h : decide (m = hi + 1 - lo)} :
    (o.putPkt hi lo x h).rd.Ranged ↔ o.rd.Ranged := by
  constructor
  · intro h
    exact ⟨h.ipHeaderLength, h.ipLength, h.dnsLength⟩
  · intro h
    exact ⟨h.ipHeaderLength, h.ipLength, h.dnsLength⟩

theorem putPktBit_ranged {o : Core} {n : Nat} {b : Bool} :
    (o.putPktBit n b).rd.Ranged ↔ o.rd.Ranged := by
  constructor
  · intro h
    exact ⟨h.ipHeaderLength, h.ipLength, h.dnsLength⟩
  · intro h
    exact ⟨h.ipHeaderLength, h.ipLength, h.dnsLength⟩

/-- The packet register is assigned from the port, and the constants of the replies. -/
theorem rcv_rd_ranged (h : st.rd.Ranged) (hin : i.elRcvData.Ranged) : (rcv g st i).rd.Ranged := by
  cases hq : st.s.queryPos with
  | some n =>
      rw [(rcv_query hq).data]
      exact ⟨h.ipHeaderLength, h.ipLength, h.dnsLength⟩
  | none =>
      cases hu : st.s.updatePos with
      | some n =>
          rw [(rcv_update hu).data]
          exact h
      | none =>
          unfold rcv
          cases hs : st.s.s <;> simp only [IState.queryPos, IState.updatePos, hs, reduceCtorEq] at hq hu
          case read => exact hin
          case replyQueryHeader =>
              have hip : 201 ≤ 65535 := by decide
              have hdns : 128 ≤ 65535 := by decide
              exact ⟨h.ipHeaderLength, hip, hdns⟩
          case setDNSReplyCount =>
              have hip : 130 ≤ 65535 := by decide
              have hdns : 12 ≤ 65535 := by decide
              exact ⟨h.ipHeaderLength, hip, hdns⟩
          case setDNSReplyHeader =>
              dsimp only
              split
              · exact h
              · simp only [putPkt_ranged, putPktBit_ranged]
                exact h
          case setDefaultMAC => exact ⟨h.ipHeaderLength, h.ipLength, h.dnsLength⟩
          all_goals first
            | exact h
            | (dsimp only
               split_ifs <;> exact h)

/-- The variables are assigned in `CheckPkt` and `CmpPktCheck`. -/
theorem rcv_pkt_ranged (h : st.Ranged) (hplace : st.Place) : (rcv g st i).pkt.Ranged := by
  rw [Core.Place] at hplace
  cases hs : st.s.s
  case checkPkt =>
      rw [rcv_checkPkt hs]
      split_ifs
      · exact h.pkt
      · exact h.pkt
      · exact { h.pkt with endPtr := pktEnd_le st.rd }
  case cmpPktCheck =>
      rw [hs] at hplace
      have hle := hplace.le
      have hfits := hplace.fits
      have hdns : st.f.dnsLength ≤ 2 := h.f.dns
      have hitem := hplace.item
      have hc := h.s.fpktc
      have hpkt : PktVars.Ranged ⟨st.pkt.endPtr, st.s.fpktsc + st.s.fpktc, st.s.fpktc, st.s.fdnsc⟩ :=
        ⟨h.pkt.endPtr, by dsimp only; omega, hc, by dsimp only; omega⟩
      rcases rcv_cmpPktCheck (g := g) (i := i) hs with ⟨_, a, n, _, _, _, _, hstep⟩ | ⟨_, hstep⟩
      · rw [hstep]
        exact hpkt
      · rw [hstep]
        exact hpkt
  all_goals
    unfold rcv
    rw [hs]
    first
    | exact h.pkt
    | (refine listState_cases (fun st' => st'.pkt.Ranged) ?_ ?_ ?_ <;> exact fun _ => h.pkt)
    | (dsimp only
       split_ifs <;> exact h.pkt)

/-- A list state's counter goes up to two. -/
theorem listState_s_ranged {cnt : Nat} {setCnt : Nat → IState → IState} {entry : Nat → Core → Core}
    {next : CoreState} {o : Core} (h : o.s.Ranged) (hset : cnt ≤ 1 → (setCnt (cnt + 1) o.s).Ranged) :
    (listState cnt setCnt entry next o).s.Ranged := by
  refine listState_cases (fun st' => st'.s.Ranged) ?_ ?_ ?_
  · intro hc
    exact hset (by omega)
  · intro hc
    exact hset (by omega)
  · intro _
    exact { h with }

/-- The registers that a list stage assigns stay in their ranges. -/
structure Stage.KeepsRange {w : Nat} (S : Stage w) : Prop where
  set : ∀ {s : IState} {n : Nat} {c : CoreState}, s.Ranged → n ≤ 15 →
    ({ S.set n s with s := c } : IState).Ranged
  get : ∀ {s : IState}, s.Ranged → S.get s ≤ 15
  pass : ∀ {s : IState}, s.Ranged → (S.pass s).Ranged

theorem srcMACStage_keepsRange : srcMACStage.KeepsRange where
  set h hn := { h with fsmc := hn }
  get h := h.fsmc
  pass h := { h with fdmc := Nat.zero_le 15 }

theorem dstMACStage_keepsRange : dstMACStage.KeepsRange where
  set h hn := { h with fdmc := hn }
  get h := h.fdmc
  pass h := { h with fsic := Nat.zero_le 15 }

theorem srcIPStage_keepsRange : srcIPStage.KeepsRange where
  set h hn := { h with fsic := hn }
  get h := h.fsic
  pass h := { h with fdic := Nat.zero_le 15 }

theorem dstIPStage_keepsRange : dstIPStage.KeepsRange where
  set h hn := { h with fdic := hn }
  get h := h.fdic
  pass h := { h with fspc := Nat.zero_le 15 }

theorem srcPortStage_keepsRange : srcPortStage.KeepsRange where
  set h hn := { h with fspc := hn }
  get h := h.fspc
  pass h := { h with fdpc := Nat.zero_le 15 }

theorem dstPortStage_keepsRange : dstPortStage.KeepsRange where
  set h hn := { h with fdpc := hn }
  get h := h.fdpc
  pass h := { h with fdnsc := Nat.zero_le 15 }

section Stages
variable {w : Nat} {S : Stage w} (hS : S.KeepsRange) {s : IState} (h : s.Ranged)
include hS h

theorem Stage.doCheck_ranged : (S.doCheck f s).Ranged := by
  rw [Stage.doCheck]
  split_ifs
  · exact hS.pass h
  · exact hS.set h (Nat.zero_le 15)
  · exact hS.set h (hS.get h)

theorem Stage.doCmp_ranged (hlt : S.get s < filterDepth) : (S.doCmp rd f s).Ranged := by
  rw [Stage.doCmp]
  split_ifs
  · exact hS.set h (hS.get h)
  · exact hS.set h (Nat.le_trans hlt (by decide))

theorem Stage.doMatch_ranged : (S.doMatch f s).Ranged := by
  rw [Stage.doMatch]
  split_ifs
  · exact hS.set h (Nat.zero_le 15)
  · exact hS.pass h

end Stages

/-- The next offset is inside `dnsPkt`, too, where the item does not match at this one. -/
theorem Core.Trying.next (h : st.Trying) (hno : ¬ BitsMatch st.f st.rd st.s.fdnsc st.s.fpktsc)
    (hlt : st.s.fpktsc + st.f.endPtr st.s.fdnsc < st.pkt.endPtr) :
    st.s.fpktsc + 8 ≤ 1016 ∧ st.s.fpktsc + 8 + st.f.endPtr st.s.fdnsc ≤ 1024 ∧
      StaysInside st.f st.rd st.s.fdnsc (st.s.fpktsc + 8) := by
  obtain ⟨q, hq⟩ := h.byte
  -- fewer than 8 bits match anywhere
  have h8 : 8 ≤ st.f.endPtr st.s.fdnsc := by
    by_contra hshort
    refine hno fun j hge hlt => ?_
    rw [Nat.mod_eq_of_lt (by omega)] at hge
    omega
  have hend := pktEnd_le st.rd
  have hdvd := pktEnd_dvd st.rd
  rw [h.endPtr] at hlt
  have hfits : st.s.fpktsc + 8 + st.f.endPtr st.s.fdnsc ≤ 1024 ∧
      StaysInside st.f st.rd st.s.fdnsc (st.s.fpktsc + 8) := by
    rcases h.inside with hbytes | hpay | ⟨m, hle, hfit, hmatch⟩
    · exact ⟨by omega, .inl hbytes⟩
    · have hpkt : pktEnd st.rd = st.rd.dnsLength * 8 := if_neg (by omega)
      exact ⟨by omega, .inr (.inl hpay)⟩
    · have hne : st.s.fpktsc ≠ 8 * m := fun heq => hno (heq ▸ hmatch)
      exact ⟨by omega, .inr (.inr ⟨m, by omega, hfit, hmatch⟩)⟩
  exact ⟨by omega, hfits⟩

/-- A stage's counter is inside its list, so the next value is in its range, too. -/
theorem rcv_s_ranged (h : st.Ranged) (hplace : st.Place) : (rcv g st i).s.Ranged := by
  have hs' := h.s
  have hf := h.f
  rw [Core.Place] at hplace
  unfold rcv
  cases hs : st.s.s <;> rw [hs] at hplace <;> dsimp only at hplace ⊢
  case checkAdmin =>
      split_ifs
      · exact { hs' with pc := Nat.zero_le 15 }
      · exact { hs' with }
  case checkQuery =>
      split_ifs
      · exact { hs' with }
      · exact { hs' with fsmc := Nat.zero_le 15 }
  case send =>
      refine { hs' with pc := ?_ }
      have hpc := hs'.pc
      dsimp only
      split_ifs
      · exact Nat.zero_le 15
      · omega
  -- the heads of the lists
  case replyQuerySrcMACMeta | replyQueryDstMACMeta | updateFilterSrcMACMeta | updateFilterDstMACMeta =>
      exact { hs' with amc := Nat.zero_le 15 }
  case replyQuerySrcIPMeta | replyQueryDstIPMeta | updateFilterSrcIPMeta | updateFilterDstIPMeta =>
      exact { hs' with aic := Nat.zero_le 15 }
  case replyQuerySrcPortMeta | replyQueryDstPortMeta | updateFilterSrcPortMeta | updateFilterDstPortMeta =>
      exact { hs' with apc := Nat.zero_le 15 }
  case replyQueryDNSMeta | updateFilterDNSMeta => exact { hs' with adc := Nat.zero_le 15 }
  -- the lists
  case replyQuerySrcMACList | replyQueryDstMACList | updateFilterSrcMACList | updateFilterDstMACList =>
      exact listState_s_ranged hs' fun hc => { hs' with amc := Nat.le_trans (Nat.succ_le_succ hc) (by decide) }
  case replyQuerySrcIPList | replyQueryDstIPList | updateFilterSrcIPList | updateFilterDstIPList =>
      exact listState_s_ranged hs' fun hc => { hs' with aic := Nat.le_trans (Nat.succ_le_succ hc) (by decide) }
  case replyQuerySrcPortList | replyQueryDstPortList | updateFilterSrcPortList | updateFilterDstPortList =>
      exact listState_s_ranged hs' fun hc => { hs' with apc := Nat.le_trans (Nat.succ_le_succ hc) (by decide) }
  case replyQueryDNSList | updateFilterDNSList =>
      exact listState_s_ranged hs' fun hc => { hs' with adc := Nat.le_trans (Nat.succ_le_succ hc) (by decide) }
  -- the list stages
  case checkSrcMAC => exact Stage.doCheck_ranged srcMACStage_keepsRange hs'
  case cmpSrcMAC => exact Stage.doCmp_ranged srcMACStage_keepsRange hs' (Nat.lt_of_lt_of_le hplace hf.srcMAC)
  case filterSrcMACMatch => exact Stage.doMatch_ranged srcMACStage_keepsRange hs'
  case checkDstMAC => exact Stage.doCheck_ranged dstMACStage_keepsRange hs'
  case cmpDstMAC => exact Stage.doCmp_ranged dstMACStage_keepsRange hs' (Nat.lt_of_lt_of_le hplace hf.dstMAC)
  case filterDstMACMatch => exact Stage.doMatch_ranged dstMACStage_keepsRange hs'
  case checkSrcIP => exact Stage.doCheck_ranged srcIPStage_keepsRange hs'
  case cmpSrcIP => exact Stage.doCmp_ranged srcIPStage_keepsRange hs' (Nat.lt_of_lt_of_le hplace hf.srcIP)
  case filterSrcIPMatch => exact Stage.doMatch_ranged srcIPStage_keepsRange hs'
  case checkDstIP => exact Stage.doCheck_ranged dstIPStage_keepsRange hs'
  case cmpDstIP => exact Stage.doCmp_ranged dstIPStage_keepsRange hs' (Nat.lt_of_lt_of_le hplace hf.dstIP)
  case filterDstIPMatch => exact Stage.doMatch_ranged dstIPStage_keepsRange hs'
  case checkSrcPort => exact Stage.doCheck_ranged srcPortStage_keepsRange hs'
  case cmpSrcPort => exact Stage.doCmp_ranged srcPortStage_keepsRange hs' (Nat.lt_of_lt_of_le hplace hf.srcPort)
  case filterSrcPortMatch => exact Stage.doMatch_ranged srcPortStage_keepsRange hs'
  case checkDstPort => exact Stage.doCheck_ranged dstPortStage_keepsRange hs'
  case cmpDstPort => exact Stage.doCmp_ranged dstPortStage_keepsRange hs' (Nat.lt_of_lt_of_le hplace hf.dstPort)
  case filterDstPortMatch => exact Stage.doMatch_ranged dstPortStage_keepsRange hs'
  -- the scan
  case checkPkt =>
      have hend := hf.endPtr_le st.s.fdnsc
      split_ifs
      · exact { hs' with }
      · exact { hs' with fpktsc := Nat.zero_le 1023 }
      · exact { hs' with fpktsc := Nat.zero_le 1023, fpktc := hend }
      · exact { hs' with fpktsc := Nat.zero_le 1023, fpktc := hend }
  case cmpPktArea32 | cmpPktArea24 | cmpPktArea16 | cmpPktArea8 =>
      dsimp only [cmpPktArea]
      split_ifs
      · exact { hs' with fpktc := Nat.le_trans (Nat.sub_le _ _) hs'.fpktc }
      · exact { hs' with }
  case cmpPktDone =>
      split_ifs with hmf hend
      · exact { hs' with }
      · exact { hs' with fdnsc := Nat.le_trans (Nat.lt_of_lt_of_le hplace.1.item hf.dns) (by decide) }
      · have hno := hplace.2 (Bool.eq_false_iff.mpr hmf)
        obtain ⟨hle, -, -⟩ := hplace.1.next hno (Nat.lt_of_not_le hend)
        have hle' : st.s.fpktsc + 8 ≤ 1023 := by omega
        exact { hs' with fpktsc := hle', fpktc := hf.endPtr_le st.s.fdnsc }
  case filterPkt =>
      split_ifs
      · exact { hs' with fdnsc := Nat.zero_le 15 }
      · exact { hs' with }
  all_goals first
    | exact { hs' with }
    | (split_ifs <;> exact { hs' with })

/-! ## The scan keeps its place -/

theorem IState.queryPos_phase {s : IState} {n : Nat} (h : s.queryPos = some n) :
    s.s.phase = .querying := by
  unfold IState.queryPos at h
  cases hs : s.s <;> rw [hs] at h <;> first | rfl | cases h

/-- Off the filter route there is nothing to keep. -/
theorem Core.place_of_phase (h : st.s.s.phase ≠ .filtering) : st.Place := by
  rw [Core.Place]
  cases hs : st.s.s <;> rw [hs] at h <;> trivial

theorem Core.place_of_area {n : Nat} (ha : IsArea st.s.s n) (h : st.AtArea n) : st.Place := by
  rw [Core.Place]
  generalize st.s.s = c at ha
  cases ha <;> exact h

/-- The two slices of an area comparison are those of matching bits. -/
theorem BitsMatch.slices {k p c n : Nat} (h : BitsMatch f rd k p) (hle : c ≤ f.endPtr k)
    (hmod : c % 8 = f.endPtr k % 8) (hn : n ≤ c) (h8 : 8 ∣ n) :
    rd.dnsPkt.extractLsb' (p + c - n) n = (f.dnsList.at k).extractLsb' (c - n) n := by
  apply BitVec.eq_of_getLsbD_eq
  intro j hj
  simp only [BitVec.getLsbD_extractLsb', decide_eq_true hj, Bool.true_and]
  rw [show p + c - n + j = p + (c - n + j) by omega]
  exact h _ (by omega) (by omega)

/-- `CheckPkt` starts the scan of an item. -/
theorem rcv_checkPkt_place (hs : st.s.s = .checkPkt) (hf : st.f.Ranged) (hle : st.s.fdnsc ≤ st.f.dnsLength)
    (htake : st.s.fdnsc ≠ st.f.dnsLength → StaysInside st.f st.rd st.s.fdnsc 0) : (rcv g st i).Place := by
  have hend := hf.endPtr_le st.s.fdnsc
  rw [rcv_checkPkt hs]
  split_ifs with hlen hbw
  · trivial
  · trivial
  · have hitem := Nat.lt_of_le_of_ne hle hlen
    have hfits : 0 + st.f.endPtr st.s.fdnsc ≤ 1024 := by omega
    exact ⟨⟨hitem, rfl, Nat.dvd_zero 8, hfits, htake hlen⟩, Nat.le_refl _, rfl⟩

/-- `CmpPktCheck` sets an area up, or is done with the item. -/
theorem rcv_cmpPktCheck_place (hs : st.s.s = .cmpPktCheck) (h : st.Left) : (rcv g st i).Place := by
  rcases rcv_cmpPktCheck (g := g) (i := i) hs with ⟨_, a, n, ha, hn, _, _, hstep⟩ | ⟨_, hstep⟩
  · rw [hstep]
    have harea : IsArea a n := ha
    exact Core.place_of_area (n := n) harea
      ⟨⟨⟨h.item, h.endPtr, h.byte, h.fits, h.inside⟩, h.le, h.mod⟩, hn, rfl⟩
  · rw [hstep]
    exact ⟨⟨h.item, h.endPtr, h.byte, h.fits, h.inside⟩, nofun⟩

/-- An area comparison takes its bits off, or is done with the item. -/
theorem rcv_area_place {n : Nat} (ha : IsArea st.s.s n) (h : st.AtArea n) : (rcv g st i).Place := by
  have h8 : 8 ∣ n := by
    generalize st.s.s = c at ha
    cases ha <;> decide
  have hroom := h.room
  have hmod := h.mod
  have hle := h.le
  rw [rcv_area ha, cmpPktArea, h.pkt]
  split_ifs with heq
  · refine ⟨⟨h.item, h.endPtr, h.byte, h.fits, h.inside⟩, ?_, ?_⟩
    · exact Nat.le_trans (Nat.sub_le _ _) h.le
    · dsimp only [Core.tick]
      omega
  · refine ⟨⟨h.item, h.endPtr, h.byte, h.fits, h.inside⟩, fun _ hmatch => heq ?_⟩
    exact BitsMatch.slices hmatch h.le h.mod h.room h8

/-- `CmpPktDone` goes on to the next offset, to the next item, or to the verdict. -/
theorem rcv_cmpPktDone_place (hs : st.s.s = .cmpPktDone) (h : st.Trying)
    (hno : st.s.fpktmf = false → ¬ BitsMatch st.f st.rd st.s.fdnsc st.s.fpktsc) : (rcv g st i).Place := by
  rw [rcv_cmpPktDone hs]
  split_ifs with hmf hend
  · trivial
  · exact h.item
  · obtain ⟨-, hfits, hinside⟩ := h.next (hno (Bool.eq_false_iff.mpr hmf)) (Nat.lt_of_not_le hend)
    have hbyte : 8 ∣ st.s.fpktsc + 8 := Nat.dvd_add h.byte (Nat.dvd_refl 8)
    exact ⟨⟨h.item, h.endPtr, hbyte, hfits, hinside⟩, Nat.le_refl _, rfl⟩

/-- One period keeps the place. -/
theorem rcv_place (hf : st.f.Ranged) (hplace : st.Place) (htake : st.Takes) : (rcv g st i).Place := by
  cases hq : st.s.queryPos with
  | some n =>
      refine Core.place_of_phase ?_
      rcases (rcv_query (g := g) (i := i) hq).pos with ⟨-, hpos⟩ | ⟨-, hs⟩
      · rw [IState.queryPos_phase hpos]
        decide
      · rw [hs]
        decide
  | none =>
      cases hu : st.s.updatePos with
      | some n =>
          refine Core.place_of_phase ?_
          rcases (rcv_update (g := g) (i := i) hu).pos with ⟨-, hpos⟩ | ⟨-, hs⟩
          · rw [IState.updatePos_phase hpos]
            decide
          · rw [hs]
            decide
      | none =>
          rw [Core.Place] at hplace
          rw [Core.Takes] at htake
          cases hs : st.s.s <;> simp only [IState.queryPos, IState.updatePos, hs, reduceCtorEq] at hq hu hplace htake
          case checkPkt => exact rcv_checkPkt_place hs hf hplace htake
          case cmpPktCheck => exact rcv_cmpPktCheck_place hs hplace
          case cmpPktDone => exact rcv_cmpPktDone_place hs hplace.1 hplace.2
          case cmpPktArea32 => exact rcv_area_place (hs ▸ .area32) hplace
          case cmpPktArea24 => exact rcv_area_place (hs ▸ .area24) hplace
          case cmpPktArea16 => exact rcv_area_place (hs ▸ .area16) hplace
          case cmpPktArea8 => exact rcv_area_place (hs ▸ .area8) hplace
          all_goals
            unfold rcv
            rw [hs]
          case checkSrcMAC | checkDstMAC | checkSrcIP | checkDstIP | checkSrcPort | checkDstPort =>
              dsimp only [Stage.doCheck]
              split_ifs with hlen hbw
              · exact Nat.zero_le _
              · trivial
              · exact Nat.lt_of_le_of_ne hplace hlen
          case cmpSrcMAC | cmpDstMAC | cmpSrcIP | cmpDstIP | cmpSrcPort | cmpDstPort =>
              dsimp only [Stage.doCmp]
              split_ifs
              · trivial
              · exact hplace
          all_goals first
            | trivial
            | (dsimp only [Stage.doMatch]
               split_ifs <;> first | trivial | exact Nat.zero_le _)

/-! ## A scan that does not stay inside -/

section Walk
variable {t : Tally} {k p c : Nat}

/-- An item that does not match at `p` is found not to, by strong induction on the number of
bits left: those above them have matched. -/
theorem area_fails (hno : ¬ BitsMatch f rd k p) (hle : c ≤ f.endPtr k) (hmod : c % 8 = f.endPtr k % 8)
    (hdone : ∀ j, c ≤ j → j < f.endPtr k → rd.dnsPkt.getLsbD (p + j) = (f.dnsList.at k).getLsbD j)
    (hst : Comparing f rd t k p c st) :
    Until (rcv g) (Scanning f rd t) (Compared f rd t k p false) st := by
  induction c using Nat.strong_induction_on generalizing st with
  | _ c ih =>
    obtain ⟨⟨hf, hrd, ht, hq⟩, hs, hk, hp, hc, he⟩ := hst
    refine .later ⟨⟨hf, hrd, ht, hq⟩, by rw [hs]; decide⟩ fun i => ?_
    rcases rcv_cmpPktCheck (g := g) (i := i) hs with ⟨_, a, n, ha, hn, hn8, hpos, hstep⟩ | ⟨hlt, hstep⟩
    · rw [hstep]
      refine .later ⟨⟨hf, hrd, ht, rfl⟩, ha.mem⟩ fun i' => ?_
      rw [rcv_area (n := n) ha]
      simp only [cmpPktArea, hf, hrd, hk, hp, hc, Core.tick_f, Core.tick_rd]
      rw [hc] at hn
      split
      · -- equal: on with the rest of the item
        rename_i heq
        refine ih (c - n) (by omega) (by omega) (by omega) (fun j hge hlt => ?_)
          ⟨⟨rfl, rfl, ht, rfl⟩, rfl, hk, hp, congrArg (· - n) hc, he⟩
        rcases Nat.lt_or_ge j c with hjc | hjc
        · have hbit := congrArg (fun v : BitVec n => v.getLsbD (j - (c - n))) heq
          simp only [BitVec.getLsbD_extractLsb', decide_eq_true (show j - (c - n) < n by omega),
            Bool.true_and] at hbit
          rwa [show p + c - n + (j - (c - n)) = p + j by omega,
            show c - n + (j - (c - n)) = j by omega] at hbit
        · exact hdone j hjc hlt
      · exact .here ⟨⟨rfl, rfl, ht, rfl⟩, rfl, hk, hp, rfl, he⟩
    · rw [hc] at hlt
      refine absurd (fun j hge hj => hdone j ?_ hj) hno
      rw [← hmod, Nat.mod_eq_of_lt hlt] at hge
      exact hge

/-- Behind the last offset the area ends outside of `dnsPkt`, by induction on the room left. -/
theorem area_leaves {m : Nat} (hpay : pktEnd rd = 1024) (hbytes : ¬ 8 ∣ f.endPtr k)
    (hno : ∀ m', m ≤ m' → 8 * m' + f.endPtr k ≤ 1024 → ¬ BitsMatch f rd k (8 * m'))
    (hst : Comparing f rd t k (8 * m) (f.endPtr k) st) :
    Until (rcv g) (fun _ => True) (fun st => 1024 < st.pkt.areaEndPtr) st := by
  obtain ⟨room, hroom⟩ : ∃ room, room = 1024 - 8 * m := ⟨_, rfl⟩
  induction room using Nat.strong_induction_on generalizing m st with
  | _ room ih =>
    rcases Nat.lt_or_ge 1024 (8 * m + f.endPtr k) with hout | hfits
    · refine .later trivial fun i => .here ?_
      rcases rcv_cmpPktCheck (g := g) (i := i) hst.s with ⟨_, a, n, _, _, _, _, hstep⟩ | ⟨_, hstep⟩
      · rw [hstep, hst.fpktsc, hst.fpktc]
        exact hout
      · rw [hstep, hst.fpktsc, hst.fpktc]
        exact hout
    · have hfails := area_fails (g := g) (hno m (Nat.le_refl m) hfits) (Nat.le_refl _) rfl
        (fun j hge hlt => absurd hlt (Nat.not_lt.mpr hge)) hst
      refine (hfails.mono (fun _ _ => trivial) fun _ h => h).trans ?_
      rintro st ⟨⟨hf, hrd, ht, hq⟩, hs, hk, hp, hmf, he⟩
      refine .later trivial fun i => ?_
      have hmore : ¬ 8 * m + f.endPtr k ≥ pktEnd rd := by omega
      rw [rcv_cmpPktDone hs, hmf, hp, hk, hf, he, if_neg (by decide), if_neg hmore]
      refine ih (1024 - 8 * (m + 1)) (by omega) (fun m' (hle : m + 1 ≤ m') => hno m' (Nat.le_of_succ_le hle))
        ⟨⟨hf, hrd, ht, rfl⟩, rfl, hk, ?_, rfl, he⟩ rfl
      show 8 * m + 8 = 8 * (m + 1)
      omega

/-- From `CheckPkt`, a scan that does not stay inside leaves `dnsPkt`. -/
theorem scan_leaves (hs : st.s.s = .checkPkt) (hitem : st.s.fdnsc ≠ st.f.dnsLength)
    (hout : ¬ StaysInside st.f st.rd st.s.fdnsc 0) :
    Until (rcv g) (fun _ => True) (fun st => 1024 < st.pkt.areaEndPtr) st := by
  rw [StaysInside, not_or, not_or] at hout
  obtain ⟨hbytes, hpay, hno⟩ := hout
  have hend : pktEnd st.rd = 1024 := by
    rw [pktEnd]
    split <;> omega
  refine .later trivial fun i => area_leaves (t := st.s.tally) (m := 0) hend hbytes ?_ ?_
  · intro m' _ hfits hmatch
    exact hno ⟨m', Nat.zero_le _, hfits, hmatch⟩
  · rw [rcv_checkPkt hs, if_neg hitem]
    exact ⟨⟨rfl, rfl, rfl, rfl⟩, rfl, rfl, rfl, rfl, rfl⟩

end Walk

/-! ## Runs -/

/-- A safe state, and how it stays safe. -/
structure Core.Safe (st : Core) : Prop where
  ranged : st.Ranged
  place : st.Place

theorem rcv_safe (h : st.Safe) (hin : i.elRcvData.Ranged) (htake : st.Takes) : (rcv g st i).Safe where
  ranged := ⟨rcv_f_ranged h.ranged.f htake, rcv_s_ranged h.ranged h.place,
    rcv_pkt_ranged h.ranged h.place, rcv_rd_ranged h.ranged.rd hin⟩
  place := rcv_place h.ranged.f h.place htake

theorem init_safe : Corein.init.core.Safe where
  ranged :=
    { f := ⟨by decide, by decide, by decide, by decide, by decide, by decide, by decide, by decide⟩
      s := ⟨by decide, by decide, by decide, by decide, by decide, by decide, by decide, by decide,
        by decide, by decide, by decide, by decide, by decide, by decide⟩
      pkt := ⟨by decide, by decide, by decide, by decide⟩
      rd := ⟨by decide, by decide, by decide⟩ }
  place := trivial

/-- A run is safe as far as what it takes from its packets is in range. -/
theorem safe_trace {inp : Nat → CoreinIn} (hin : ∀ n, (inp n).elRcvData.Ranged) {n : Nat}
    (htake : ∀ k < n, (trace (Corein.cycle g) .init inp k).core.Takes) :
    (trace (Corein.cycle g) .init inp n).core.Safe := by
  induction n with
  | zero => exact init_safe
  | succ n ih =>
      have hsafe := ih fun k hk => htake k (Nat.lt_succ_of_lt hk)
      exact rcv_safe hsafe (hin n) (htake n (Nat.lt_succ_self n))

/-- What an update in range writes is in range, and so is what the scan starts with. -/
theorem AuthInv.takes {ps : List RcvData} {st : Corein} (h : AuthInv g f ps st) (hf : f.InRange)
    (hps : ∀ p ∈ ps, UpdateInRange g p) : st.core.Takes := by
  by_cases hphase : st.core.s.s.phase = .updating
  · cases h with
    | updating _ hrd hauth _ _ =>
        subst hrd
        have hdecode := hps _ (List.mem_append_right _ (List.mem_singleton.mpr rfl)) hauth
        rw [Core.Takes]
        cases hs : st.core.s.s <;> rw [hs] at hphase <;> first | (cases hphase; done) | trivial | skip
        all_goals simp only [downto_eq_field]
        case updateFilterSrcMACMeta => exact hdecode.srcMAC
        case updateFilterDstMACMeta => exact hdecode.dstMAC
        case updateFilterSrcIPMeta => exact hdecode.srcIP
        case updateFilterDstIPMeta => exact hdecode.dstIP
        case updateFilterSrcPortMeta => exact hdecode.srcPort
        case updateFilterDstPortMeta => exact hdecode.dstPort
        case updateFilterDNSMeta => exact ⟨hdecode.dns, hdecode.endPtr_le 0, hdecode.endPtr_le 1⟩
    | quiet hmem _ _ => simp [hphase] at hmem
    | filtering hs _ _ _ _ => cases hphase.symm.trans hs
    | _ hs => simp [hs, CoreState.phase] at hphase
  · have hrange := h.filter_inRange hf hps hphase
    rw [Core.Takes]
    cases hs : st.core.s.s <;> first | trivial | (rw [hs] at hphase; exact absurd rfl hphase) | skip
    exact fun _ => .inl (hrange.endPtr_dvd _)

/-- What is written to the filter is in range where the filter is then. -/
theorem takes_of_ranged (h : (rcv g st i).f.Ranged) (hs : st.s.s ≠ .checkPkt) : st.Takes := by
  rw [Core.Takes]
  cases hs' : st.s.s <;> try trivial
  all_goals
    have hf := h
    unfold rcv at hf
    rw [hs'] at hf
  case updateFilterSrcMACMeta => exact hf.srcMAC
  case updateFilterDstMACMeta => exact hf.dstMAC
  case updateFilterSrcIPMeta => exact hf.srcIP
  case updateFilterDstIPMeta => exact hf.dstIP
  case updateFilterSrcPortMeta => exact hf.srcPort
  case updateFilterDstPortMeta => exact hf.dstPort
  case updateFilterDNSMeta =>
      have hptr := hf.endPtr
      simp only [set_set_eq] at hptr
      exact ⟨hf.dns, hptr 0 (by decide), hptr 1 (by decide)⟩

/-- **Ranges and indices.**  A run of `corein` keeps every register and variable in its range
and every index and slice inside its vector, exactly where all it takes from its packets is in
range: the lengths and end pointers written to the filter, and the end pointers of the items
that a payload is scanned for. -/
theorem corein_ranged_iff (g : Generics) (inp : Nat → CoreinIn) (hin : ∀ n, (inp n).elRcvData.Ranged) :
    let tr := trace (Corein.cycle g) .init inp
    (∀ n, (tr n).core.Ranged ∧ (tr n).core.Reads) ↔ ∀ n, (tr n).core.Takes := by
  intro tr
  constructor
  · intro h n
    by_cases hs : (tr n).core.s.s = .checkPkt
    · -- an item whose scan leaves `dnsPkt` shows in a later period
      have hstays : (tr n).core.s.fdnsc ≠ (tr n).core.f.dnsLength →
          StaysInside (tr n).core.f (tr n).core.rd (tr n).core.s.fdnsc 0 := by
        intro hitem
        by_contra hout
        obtain ⟨m, hm, -⟩ := (scan_leaves (g := g) hs hitem hout).exists_trace
          fun j => (trace (Corein.cycle g) (tr n) (fun j => inp (n + j)) j).rcvIn (inp (n + j))
        rw [← core_trace g (tr n) (fun j => inp (n + j)) m, ← trace_add] at hm
        exact absurd (h (n + m)).1.pkt.areaEndPtr (Nat.not_le.mpr hm)
      rw [Core.Takes, hs]
      exact hstays
    · exact takes_of_ranged (h (n + 1)).1.f hs
  · intro h n
    have hsafe := safe_trace hin fun k (_ : k < n) => h k
    exact ⟨hsafe.ranged, hsafe.place.reads hsafe.ranged.f⟩

/-- An administrator's packet with this content and its tag. -/
def sealed (g : Generics) (body : BitVec 960) : RcvData :=
  { RcvData.zero with dstMAC := g.adminMac, dnsPkt := hashOf g.adminKey body ++ body }

theorem downto_sealed {body : BitVec 960} {hi lo m : Nat} {h : decide (m = hi + 1 - lo)}
    (hhi : hi < 960) :
    downto (sealed g body).dnsPkt hi lo h = downto body hi lo h := by
  apply BitVec.eq_of_getLsbD_eq
  intro j hj
  have hm : m = hi + 1 - lo := of_decide_eq_true h
  have hlt : lo + j < 960 := by omega
  rw [getLsbD_downto, getLsbD_downto, sealed, BitVec.getLsbD_append, if_pos hlt]

theorem sealed_authentic (g : Generics) (body : BitVec 960) : Authentic g (sealed g body) := by
  refine ⟨rfl, ?_⟩
  have hbody : downto (sealed g body).dnsPkt 959 0 = body := by
    rw [downto_sealed (by decide)]
    apply BitVec.eq_of_getLsbD_eq
    intro j hj
    rw [getLsbD_downto, Nat.zero_add, decide_eq_true hj, Bool.true_and]
  rw [hbody]
  apply BitVec.eq_of_getLsbD_eq
  intro j hj
  have hge : ¬ 960 + j < 960 := by omega
  rw [getLsbD_downto, decide_eq_true hj, Bool.true_and, sealed, BitVec.getLsbD_append, if_neg hge,
    Nat.add_sub_cancel_left]

/-- One name of nine bytes is blocked, and nothing else. -/
def oneName : Filter :=
  { Filter.init with
    srcMACBW := false
    srcMACLength := 0
    dstMACLength := 0
    srcIPBW := false
    srcIPLength := 0
    dstIPLength := 0
    srcPortBW := false
    srcPortLength := 0
    dstPortBW := false
    dstPortLength := 0
    dnsLength := 1
    replyType := true }

theorem oneName_inRange : oneName.InRange :=
  { Filter.init_inRange with
    srcMAC := Nat.zero_le _
    dstMAC := Nat.zero_le _
    srcIP := Nat.zero_le _
    dstIP := Nat.zero_le _
    srcPort := Nat.zero_le _
    dstPort := Nat.zero_le _
    dns := Nat.le_succ 1 }

theorem oneName_packable : oneName.Packable where
  srcMAC := by decide
  dstMAC := by decide
  srcIP := by decide
  dstIP := by decide
  srcPort := by decide
  dstPort := by decide
  dns := by decide
  endPtr₀ := by decide
  endPtr₁ := by decide

/-- The update to `oneName`, a packet with the name behind five bytes, and then packets of 130
bytes without it. -/
def updateThenScans (n : Nat) : CoreinIn where
  elRcvData :=
    if n < 100 then sealed {} (field (stream oneName.segments) 0 960)
    else if n < 230 then { RcvData.zero with dnsLength := 60, dnsPkt := 0x6d6f632e656c7070610000000000 }
    else { RcvData.zero with dnsLength := 130 }
  elRcvDv := true

theorem updateThenScans_inRange (n : Nat) : UpdateInRange {} (updateThenScans n).elRcvData := by
  intro hauth
  rw [updateThenScans] at hauth ⊢
  split_ifs at hauth ⊢
  · have hdecode : Filter.decode (sealed {} (field (stream oneName.segments) 0 960)).dnsPkt.getLsbD = oneName := by
      refine Eq.trans (Filter.decode_congr fun n hn => ?_) (Filter.decode_stream oneName_packable)
      have hlt : n < 960 := by omega
      rw [sealed, BitVec.getLsbD_append, if_pos hlt, getLsbD_field, decide_eq_true hlt, Bool.true_and,
        Nat.zero_add]
    rw [hdecode]
    exact oneName_inRange
  · exact absurd hauth.1 (by decide)
  · exact absurd hauth.1 (by decide)

/-- An authentic update, and then packets that are scanned for its name. -/
theorem corein_ranged_update :
    let tr := trace (Corein.cycle {}) .init updateThenScans
    (∀ n, (tr n).core.Ranged ∧ (tr n).core.Reads) ∧
      (tr 218).core.f = oneName ∧ (tr 228).core.s.s = .checkPkt ∧ (tr 263).core.s.s = .checkPkt := by
  intro tr
  have hranged : ∀ n, (updateThenScans n).elRcvData.Ranged := by
    intro n
    rw [updateThenScans]
    split_ifs <;> exact ⟨by decide, by decide, by decide⟩
  refine ⟨(corein_ranged_iff {} updateThenScans hranged).mpr fun n => ?_, ?_, ?_, ?_⟩
  · refine (authInv_trace {} updateThenScans n).takes Filter.init_inRange fun p hp => ?_
    obtain ⟨k, rfl⟩ := mem_packets hp
    exact updateThenScans_inRange k
  all_goals decide +kernel

/-- The content of a packet that asks for three source MAC addresses. -/
def threeMACs : BitVec 960 := (0 : BitVec 957) ++ (0b110 : BitVec 3)

theorem downto_threeMACs : (downto threeMACs 2 1 : BitVec 2) = 3 := by
  apply BitVec.eq_of_getLsbD_eq
  intro j hj
  have hlt : 1 + j < 3 := by omega
  rw [getLsbD_downto, threeMACs, BitVec.getLsbD_append, if_pos hlt]
  rcases (by omega : j = 0 ∨ j = 1) with rfl | rfl
  · rfl
  · rfl

/-- The length goes to its register. -/
theorem corein_unranged : ¬ ∀ (g : Generics) (inp : Nat → CoreinIn), (∀ n, (inp n).elRcvData.Ranged) →
    ∀ n, (trace (Corein.cycle g) .init inp n).core.Ranged ∧
      (trace (Corein.cycle g) .init inp n).core.Reads := by
  intro h
  have hall := h {} (fun _ => ⟨sealed {} threeMACs, true⟩) fun _ =>
    ⟨Nat.zero_le 15, Nat.zero_le 65535, Nat.zero_le 65535⟩
  obtain ⟨k, -, -, hmeta, hrd, -⟩ := update_reached {} .init (fun _ => ⟨sealed {} threeMACs, true⟩)
    rfl ⟨rfl, rfl⟩ rfl (sealed_authentic {} threeMACs)
  have hf := (hall (k + 2)).1.f
  have htake := takes_of_ranged hf (by rw [hmeta]; decide)
  rw [Core.Takes, hmeta, hrd] at htake
  dsimp only at htake
  rw [downto_sealed (by decide), downto_threeMACs] at htake
  exact absurd htake (by decide)

end DnsAdtm.Hw
