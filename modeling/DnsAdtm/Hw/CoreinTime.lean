/-
# `Hw.CoreinTime` — how long a packet takes `corein`

`Corein.left` says how many periods there are at most until `Idle`: it falls by one a period at
least, in every state but `Idle` and `Read`.  The routes are of very different lengths:

    a query             33 periods
    a hash, an update   184 and 29
    a list              two periods for each entry, and one
    a DNS item          at each offset two periods for each area compared, and one

So it is the scan that counts: a payload of 128 bytes that agrees with the whole of an item but
its first byte, at every offset, is compared over a thousand times.  With both items it comes to
`serviceTime`.
-/
import DnsAdtm.Hw.CoreinRange

namespace DnsAdtm.Hw

open Machine

variable {g : Generics} {f : Filter}

/-! ## The hash unit -/

/-- The periods until `out_ready`. -/
def Siphasher.left (st : Siphasher) : Nat :=
  -- the turns of the data loop behind this one, and the rounds behind this one
  let words := 10 * ((960 - st.s.dpc) / 64 - 1)
  let rounds := 4 * (gCompressionRounds - st.s.crc)
  let lastRounds := 4 * (gFinaliseRounds - st.s.crc)
  match st.s.s with
  | .idle => 0
  | .initV => 182
  | .initKey => 181
  | .compressionBefore => 30 + 10 * ((960 - st.s.dpc) / 64)
  | .compressionSIPRound1 => 35 + words + rounds
  | .compressionSIPRound2 => 34 + words + rounds
  | .compressionSIPRound3 => 33 + words + rounds
  | .compressionSIPRound4 => 32 + words + rounds
  | .compressionAfter => 31 + words
  | .compressionLengthBefore => 29
  | .compressionLengthSIPRound1 => 24 + rounds
  | .compressionLengthSIPRound2 => 23 + rounds
  | .compressionLengthSIPRound3 => 22 + rounds
  | .compressionLengthSIPRound4 => 21 + rounds
  | .compressionLengthAfter => 20
  | .finaliseBefore => 19
  | .finaliseSIPRound1 => 6 + lastRounds
  | .finaliseSIPRound2 => 5 + lastRounds
  | .finaliseSIPRound3 => 4 + lastRounds
  | .finaliseSIPRound4 => 3 + lastRounds
  | .finaliseAfter => 2
  | .output => 1

/-- Where the counters stand in the loops. -/
def Siphasher.InLoop (st : Siphasher) : Prop :=
  match st.s.s with
  | .compressionBefore => 64 ∣ st.s.dpc ∧ st.s.dpc ≤ 960
  | .compressionSIPRound1 | .compressionSIPRound2 | .compressionSIPRound3 | .compressionSIPRound4 =>
      64 ∣ st.s.dpc ∧ st.s.dpc < 960 ∧ st.s.crc ≤ gCompressionRounds
  | .compressionAfter => 64 ∣ st.s.dpc ∧ st.s.dpc < 960
  | .compressionLengthSIPRound1 | .compressionLengthSIPRound2
  | .compressionLengthSIPRound3 | .compressionLengthSIPRound4 => st.s.crc ≤ gCompressionRounds
  | .finaliseSIPRound1 | .finaliseSIPRound2 | .finaliseSIPRound3 | .finaliseSIPRound4 =>
      st.s.crc ≤ gFinaliseRounds
  | _ => True

/-- What holds behind the last state of a round. -/
theorem roundEnd_cases (P : Siphasher → Prop) {st o : Siphasher} {rounds : Nat} {again after : HashState}
    (hlast : st.s.crc = rounds → P { o with s.v := siphashRound4 st.s.v, s.s := after })
    (hmore : st.s.crc ≠ rounds →
      P { o with s.v := siphashRound4 st.s.v, s.crc := st.s.crc + 1, s.s := again }) :
    P (roundEnd st o rounds again after) := by
  unfold roundEnd
  split
  · exact hlast ‹_›
  · exact hmore ‹_›

/-- A period of the unit keeps the counters in place, and at work it is one of those left. -/
theorem Siphasher.cycle_left {st : Siphasher} {i : SiphasherIn} (h : st.InLoop) :
    (st.cycle i).InLoop ∧ (st.s.s ≠ .idle → (st.cycle i).left + 1 = st.left) := by
  obtain ⟨⟨s, crc, frc, dpc, v⟩, d, k, ready⟩ := st
  rw [InLoop] at h
  cases s <;> dsimp only at h
  case idle =>
      dsimp only [Siphasher.cycle]
      split_ifs <;> exact ⟨trivial, fun hne => absurd rfl hne⟩
  case compressionBefore =>
      by_cases hlast : dpc = 960
      · exact ⟨by simp [Siphasher.cycle, InLoop, hlast], fun _ => by simp [left, Siphasher.cycle, hlast]⟩
      · refine ⟨?_, fun _ => ?_⟩
        · simp only [Siphasher.cycle, InLoop, hlast, if_false]
          omega
        · simp only [left, Siphasher.cycle, gCompressionRounds, hlast, if_false]
          omega
  case compressionAfter =>
      refine ⟨?_, fun _ => ?_⟩
      · simp only [Siphasher.cycle, InLoop]
        omega
      · simp only [left, Siphasher.cycle]
        omega
  case compressionSIPRound4 | compressionLengthSIPRound4 | finaliseSIPRound4 =>
      simp only [gCompressionRounds, gFinaliseRounds] at h
      refine roundEnd_cases (fun st' => st'.InLoop ∧ (_ → st'.left + 1 = _)) (fun hlast => ?_) fun hmore => ?_
      · simp only [gCompressionRounds, gFinaliseRounds] at hlast
        refine ⟨?_, fun _ => ?_⟩
        · simp only [InLoop]
          try omega
        · simp only [left, gCompressionRounds, gFinaliseRounds]
          omega
      · simp only [gCompressionRounds, gFinaliseRounds] at hmore
        refine ⟨?_, fun _ => ?_⟩
        · simp only [InLoop, gCompressionRounds, gFinaliseRounds]
          omega
        · simp only [left, gCompressionRounds, gFinaliseRounds]
          omega
  all_goals
    refine ⟨?_, fun _ => ?_⟩
    · first | trivial | exact h | simp [Siphasher.cycle, InLoop]
    · simp [left, Siphasher.cycle, gCompressionRounds, gFinaliseRounds]
      try omega

/-! ## The routes -/

/-- How many areas are compared for `c` bits of an item. -/
def areas (c : Nat) : Nat := (c / 8 + 3) / 4

/-- The offsets behind bit `p` at which item `k` still fits. -/
def offsetsLeft (f : Filter) (k p : Nat) : Nat := (1024 - f.endPtr k - p) / 8

/-- The periods of one offset. -/
def offsetTime (f : Filter) (k : Nat) : Nat := 2 * areas (f.endPtr k) + 1

/-- The periods of item `k`, with `CheckPkt`. -/
def itemTime (f : Filter) (k : Nat) : Nat := (offsetsLeft f k 0 + 1) * offsetTime f k + 1

/-- From `CheckPkt` of item `k` on, with the six periods of a match and the reply. -/
def itemsTime (f : Filter) (k : Nat) : Nat := ∑ j ∈ Finset.Ico k f.dnsLength, itemTime f j + 6

/-- The periods of a list of which `n` entries are left. -/
def listTime (n : Nat) : Nat := 2 * n + 1

def dstPortTime (f : Filter) : Nat := listTime f.dstPortLength + itemsTime f 0
def srcPortTime (f : Filter) : Nat := listTime f.srcPortLength + dstPortTime f
def dstIPTime (f : Filter) : Nat := listTime f.dstIPLength + srcPortTime f
def srcIPTime (f : Filter) : Nat := listTime f.srcIPLength + dstIPTime f
def dstMACTime (f : Filter) : Nat := listTime f.dstMACLength + srcIPTime f
def filterTime (f : Filter) : Nat := listTime f.srcMACLength + dstMACTime f

/-- In a comparison of `n` bits. -/
def IState.areaLeft (f : Filter) (s : IState) (n : Nat) : Nat :=
  offsetsLeft f s.fdnsc s.fpktsc * offsetTime f s.fdnsc + 2 * (areas (s.fpktc - n) + 1) +
    itemsTime f (s.fdnsc + 1)

/-- The periods until `Idle`, on the routes that do not wait for the hash. -/
def IState.left (f : Filter) (s : IState) : Nat :=
  match s.s with
  | .checkSrcMAC => listTime (f.srcMACLength - s.fsmc) + dstMACTime f
  | .cmpSrcMAC => 2 * (f.srcMACLength - s.fsmc) + dstMACTime f
  | .filterSrcMACMatch => 1 + dstMACTime f
  | .checkDstMAC => listTime (f.dstMACLength - s.fdmc) + srcIPTime f
  | .cmpDstMAC => 2 * (f.dstMACLength - s.fdmc) + srcIPTime f
  | .filterDstMACMatch => 1 + srcIPTime f
  | .checkSrcIP => listTime (f.srcIPLength - s.fsic) + dstIPTime f
  | .cmpSrcIP => 2 * (f.srcIPLength - s.fsic) + dstIPTime f
  | .filterSrcIPMatch => 1 + dstIPTime f
  | .checkDstIP => listTime (f.dstIPLength - s.fdic) + srcPortTime f
  | .cmpDstIP => 2 * (f.dstIPLength - s.fdic) + srcPortTime f
  | .filterDstIPMatch => 1 + srcPortTime f
  | .checkSrcPort => listTime (f.srcPortLength - s.fspc) + dstPortTime f
  | .cmpSrcPort => 2 * (f.srcPortLength - s.fspc) + dstPortTime f
  | .filterSrcPortMatch => 1 + dstPortTime f
  | .checkDstPort => listTime (f.dstPortLength - s.fdpc) + itemsTime f 0
  | .cmpDstPort => 2 * (f.dstPortLength - s.fdpc) + itemsTime f 0
  | .filterDstPortMatch => 1 + itemsTime f 0
  | .checkPkt => itemsTime f s.fdnsc
  | .cmpPktCheck => offsetsLeft f s.fdnsc s.fpktsc * offsetTime f s.fdnsc +
      (2 * areas s.fpktc + 1) + itemsTime f (s.fdnsc + 1)
  | .cmpPktArea32 => s.areaLeft f 32
  | .cmpPktArea24 => s.areaLeft f 24
  | .cmpPktArea16 => s.areaLeft f 16
  | .cmpPktArea8 => s.areaLeft f 8
  | .cmpPktDone =>
      if s.fpktmf then 6
      else offsetsLeft f s.fdnsc s.fpktsc * offsetTime f s.fdnsc + 1 + itemsTime f (s.fdnsc + 1)
  | .filterPkt => 5
  | .setDNSReplyHeader => 4
  | .setDNSReplyCount => 3
  | .setDefaultMAC => 2
  | .send => 1
  | .replyQueryHeader => 33
  | _ =>
      match s.queryPos, s.updatePos with
      | some n, _ => 32 - n
      | none, some n => 29 - n
      | none, none => 0

/-! ### The scan -/

theorem itemsTime_of_lt {k : Nat} (h : k < f.dnsLength) :
    itemsTime f k = itemTime f k + itemsTime f (k + 1) := by
  rw [itemsTime, itemsTime, Finset.sum_eq_sum_Ico_succ_bot h, Nat.add_assoc]

theorem six_le_itemsTime (k : Nat) : 6 ≤ itemsTime f k := Nat.le_add_left _ _

theorem offsetsLeft_next {k p : Nat} (hfits : p + 8 + f.endPtr k ≤ 1024) :
    offsetsLeft f k p = offsetsLeft f k (p + 8) + 1 := by
  rw [offsetsLeft, offsetsLeft]
  omega

variable {st : Core} {i : RcvIn}

theorem rcv_checkPkt_left (hs : st.s.s = .checkPkt) (hlen : st.s.fdnsc ≤ st.f.dnsLength) :
    (rcv g st i).s.left st.f + 1 ≤ st.s.left st.f := by
  have hleft : st.s.left st.f = itemsTime st.f st.s.fdnsc := by rw [IState.left, hs]
  have hsix := six_le_itemsTime (f := st.f) st.s.fdnsc
  rw [rcv_checkPkt hs, hleft]
  split_ifs with hlast hbw
  · exact Nat.le_of_succ_le hsix
  · exact Nat.le_trans (Nat.le_add_left 1 5) hsix
  · rw [itemsTime_of_lt (Nat.lt_of_le_of_ne hlen hlast), itemTime, Nat.succ_mul]
    simp only [IState.left, offsetTime]
    omega

theorem rcv_cmpPktCheck_left (hs : st.s.s = .cmpPktCheck) (h8 : 8 ∣ st.s.fpktc) :
    (rcv g st i).s.left st.f + 1 ≤ st.s.left st.f := by
  have hleft : st.s.left st.f = offsetsLeft st.f st.s.fdnsc st.s.fpktsc * offsetTime st.f st.s.fdnsc +
      (2 * areas st.s.fpktc + 1) + itemsTime st.f (st.s.fdnsc + 1) := by rw [IState.left, hs]
  have hsix := six_le_itemsTime (f := st.f) (st.s.fdnsc + 1)
  rw [hleft]
  unfold rcv
  rw [hs]
  dsimp only
  split_ifs
  all_goals
    simp only [IState.left, IState.areaLeft, areas, if_true]
    omega

theorem rcv_area_left (n : Nat) (ha : IsArea st.s.s n) :
    (rcv g st i).s.left st.f + 1 ≤ st.s.left st.f := by
  have hleft : st.s.left st.f = st.s.areaLeft st.f n := by
    generalize hs : st.s.s = c at ha
    cases ha <;> rw [IState.left, hs]
  rw [rcv_area ha, hleft, IState.areaLeft]
  dsimp only [cmpPktArea]
  split_ifs
  · simp only [IState.left]
    omega
  · simp only [IState.left, Bool.false_eq_true, if_false]
    omega

theorem rcv_cmpPktDone_left (hs : st.s.s = .cmpPktDone) (hplace : st.Trying) (h8 : 8 ∣ st.f.endPtr st.s.fdnsc) :
    (rcv g st i).s.left st.f + 1 ≤ st.s.left st.f := by
  have hleft : st.s.left st.f = if st.s.fpktmf then 6
      else offsetsLeft st.f st.s.fdnsc st.s.fpktsc * offsetTime st.f st.s.fdnsc + 1 +
        itemsTime st.f (st.s.fdnsc + 1) := by rw [IState.left, hs]
  rw [rcv_cmpPktDone hs, hleft]
  split_ifs with hmf hend
  · simp only [IState.left]
    omega
  · simp only [IState.left]
    omega
  · -- the next offset
    have hpay := pktEnd_le st.rd
    have hbyte := hplace.byte
    rw [hplace.endPtr] at hend
    rw [offsetsLeft_next (show st.s.fpktsc + 8 + st.f.endPtr st.s.fdnsc ≤ 1024 by omega), Nat.succ_mul]
    simp only [IState.left, offsetTime]
    omega

/-! ### One period -/

theorem IState.left_of_query {s : IState} {n : Nat} (h : s.queryPos = some n) : s.left f = 32 - n := by
  have hpos := h
  unfold IState.queryPos at h
  rw [IState.left]
  cases hs : s.s <;> rw [hs] at h <;> first | (cases h; done) | (dsimp only; rw [hpos])

theorem IState.left_of_update {s : IState} {n : Nat} (h : s.updatePos = some n) : s.left f = 29 - n := by
  have hpos := h
  have hquery : s.queryPos = none := by
    unfold IState.updatePos at h
    unfold IState.queryPos
    cases hs : s.s <;> rw [hs] at h <;> first | rfl | cases h
  unfold IState.updatePos at h
  rw [IState.left]
  cases hs : s.s <;> rw [hs] at h <;> first | (cases h; done) | (dsimp only; rw [hquery, hpos])

theorem IState.left_of_idle {s : IState} (h : s.s = .idle) : s.left f = 0 := by
  rw [IState.left, h]
  dsimp only
  rw [IState.queryPos, h, IState.updatePos, h]

/-- A period of the update. -/
theorem rcv_update_left {n : Nat} (h : st.s.updatePos = some n) :
    (rcv g st i).s.left (rcv g st i).f + 1 ≤ st.s.left st.f := by
  rw [IState.left_of_update h]
  rcases (rcv_update (g := g) (i := i) h).pos with ⟨hlt, hnext⟩ | ⟨rfl, hidle⟩
  · rw [IState.left_of_update hnext]
    omega
  · rw [IState.left_of_idle hidle]

/-- A period of the query route. -/
theorem rcv_query_left {n : Nat} (h : st.s.queryPos = some n) :
    (rcv g st i).s.left st.f + 1 ≤ st.s.left st.f := by
  rw [IState.left_of_query h]
  rcases (rcv_query (g := g) (i := i) h).pos with ⟨hlt, hnext⟩ | ⟨rfl, hsend⟩
  · rw [IState.left_of_query hnext]
    omega
  · rw [IState.left, hsend]

/-- A period of the filter route. -/
theorem rcv_filter_left (hf : st.f.InRange) (hplace : st.Place) (h : st.s.s.phase = .filtering) :
    (rcv g st i).s.left st.f + 1 ≤ st.s.left st.f := by
  rw [Core.Place] at hplace
  cases hs : st.s.s <;> rw [hs] at h hplace <;> cases h
  case checkPkt => exact rcv_checkPkt_left hs hplace
  case cmpPktCheck =>
      refine rcv_cmpPktCheck_left hs (Nat.dvd_of_mod_eq_zero ?_)
      rw [hplace.mod]
      exact Nat.mod_eq_zero_of_dvd (hf.endPtr_dvd _)
  case cmpPktDone => exact rcv_cmpPktDone_left hs hplace.1 (hf.endPtr_dvd _)
  case cmpPktArea32 => exact rcv_area_left 32 (hs ▸ .area32)
  case cmpPktArea24 => exact rcv_area_left 24 (hs ▸ .area24)
  case cmpPktArea16 => exact rcv_area_left 16 (hs ▸ .area16)
  case cmpPktArea8 => exact rcv_area_left 8 (hs ▸ .area8)
  case setDNSReplyHeader =>
      have hleft : st.s.left st.f = 4 := by rw [IState.left, hs]
      rw [hleft]
      obtain ⟨hnext | hnext, -⟩ := rcv_setDNSReplyHeader (g := g) (i := i) hs
      · rw [IState.left, hnext]
        exact Nat.le_succ 3
      · rw [IState.left, hnext]
  all_goals
    unfold rcv
    rw [hs]
    dsimp only [Stage.doCheck, Stage.doCmp, Stage.doMatch, srcMACStage, dstMACStage, srcIPStage,
      dstIPStage, srcPortStage, dstPortStage]
    try split_ifs
  all_goals
    simp only [IState.left, hs, IState.queryPos, IState.updatePos, dstMACTime, srcIPTime, dstIPTime,
      srcPortTime, dstPortTime, listTime]
    omega

/-! ## A packet -/

/-- The periods until the hash is there, in `WaitHash`. -/
def Corein.hashLeft (st : Corein) : Nat := if st.core.siphashStart then 183 else st.hash.left

/-- The periods until `Idle`. -/
def Corein.left (st : Corein) : Nat :=
  match st.core.s.s with
  | .checkAdmin => 1 + max 215 (1 + max 33 (filterTime st.core.f))
  | .checkQuery => 1 + max 33 (filterTime st.core.f)
  | .startHash => 215
  | .waitHash => st.hashLeft + 31
  | .hashAuth => 30
  | _ => st.core.s.left st.core.f

/-- The periods from a test in `Idle` to the next, at most. -/
def serviceTime : Nat := 2130

section Packet
variable {f₀ : Filter} {ps : List RcvData} {st : Corein} {i : CoreinIn}

theorem Corein.left_eq (h : st.core.s.s.phase ∉ [Phase.addressed, .asked, .starting, .waiting, .checking]) :
    st.left = st.core.s.left st.core.f := by
  rw [Corein.left]
  cases hs : st.core.s.s <;> first | rfl | (rw [hs] at h; exact absurd (by decide) h)

/-- On a route that does not touch the filter, the periods are those of the route. -/
theorem corein_left_route (h : st.core.s.s.phase = .querying ∨ st.core.s.s.phase = .filtering ∨
      st.core.s.s.phase = .sending)
    (hstep : (rcv g st.core (st.rcvIn i)).s.left st.core.f + 1 ≤ st.core.s.left st.core.f) :
    (st.cycle g i).left + 1 ≤ st.left := by
  have hcore : (st.cycle g i).core = rcv g st.core (st.rcvIn i) := rfl
  have hroute := rcv_route (g := g) (i := st.rcvIn i) h
  have hnow : st.core.s.s.phase ∉ [Phase.addressed, .asked, .starting, .waiting, .checking] := by
    rcases h with h | h | h <;> rw [h] <;> decide
  rw [Corein.left_eq hnow, Corein.left_eq, hcore, hroute.filter]
  · exact hstep
  · rw [hcore]
    rcases hroute.phase with hnext | hnext | hnext
    · rw [hnext]
      exact hnow
    · rw [hnext]
      decide
    · rw [hnext]
      decide

/-- The query route begins with the header, and has a position from then on. -/
theorem CoreState.querying_cases {s : IState} (h : s.s.phase = .querying) :
    s.s = .replyQueryHeader ∨ ∃ n, s.queryPos = some n := by
  unfold IState.queryPos
  cases hs : s.s <;> rw [hs] at h <;> cases h
  case replyQueryHeader => exact .inl rfl
  all_goals exact .inr ⟨_, rfl⟩

/-- Waiting for the hash, where the unit is still told to start or at work. -/
theorem corein_left_waiting {h : BitVec 64} (hs : st.core.s.s = .waitHash) (hhash : Hashing h st)
    (hloop : st.hash.InLoop) : (st.cycle g i).left + 1 ≤ st.left := by
  have hcore : (st.cycle g i).core = rcv g st.core (st.rcvIn i) := rfl
  have hready : (st.rcvIn i).siphashReady = st.hash.outReady := rfl
  have hleft : st.left = st.hashLeft + 31 := by rw [Corein.left, hs]
  have hstay : st.hash.outReady = false → (st.cycle g i).left = (st.hash.cycle (st.hashIn g)).left + 31 := by
    intro hlow
    have hnext : (st.cycle g i).core = { st.core.tick (st.rcvIn i) with s.s := .waitHash } := by
      rw [hcore, rcv_waitHash hs, hready, hlow]
      rfl
    rw [Corein.left, hnext]
    show (st.cycle g i).hashLeft + 31 = _
    rw [Corein.hashLeft, hnext]
    rfl
  rcases hhash with ⟨hstart, hidle, hlow⟩ | ⟨hstart, hunt⟩
  · -- the unit takes the start
    have hbefore : st.hashLeft = 183 := if_pos hstart
    have hafter : (st.hash.cycle (st.hashIn g)).left = 182 := by
      have htake : (st.hashIn g).inStart = true := hstart
      simp [Siphasher.left, Siphasher.cycle, hidle, htake]
    rw [hstay hlow, hleft, hbefore, hafter]
  · have hbefore : st.hashLeft = st.hash.left := if_neg (by rw [hstart]; decide)
    rw [hleft, hbefore]
    by_cases hdone : Siphasher.Done h st.hash
    · have hnext : (st.cycle g i).core = { st.core.tick (st.rcvIn i) with s.s := .hashAuth } := by
        rw [hcore, rcv_waitHash hs, hready, hdone.1]
        rfl
      rw [Corein.left, hnext]
      show 30 + 1 ≤ _
      omega
    · -- one of its periods
      obtain ⟨hlow, hbusy⟩ := hunt.holds_of_not hdone
      have hone := (Siphasher.cycle_left (i := st.hashIn g) hloop).2 hbusy
      rw [hstay hlow]
      omega

/-- Every period of a packet is one of those left. -/
theorem corein_left (hauth : AuthInv g f₀ ps st) (hloop : st.hash.InLoop) (hplace : st.core.Place)
    (hf : st.core.s.s.phase = .filtering → st.core.f.InRange)
    (hidle : st.core.s.s ≠ .idle) (hread : st.core.s.s ≠ .read) : (st.cycle g i).left + 1 ≤ st.left := by
  have hcore : (st.cycle g i).core = rcv g st.core (st.rcvIn i) := rfl
  cases hauth with
  | quiet hphase _ _ =>
      simp only [List.mem_cons, List.not_mem_nil, or_false] at hphase
      rcases hphase with h | h | h | h
      · exact absurd (CoreState.eq_of_phase.1 h) hidle
      · exact absurd (CoreState.eq_of_phase.2 h) hread
      · refine corein_left_route (.inl h) ?_
        rcases CoreState.querying_cases h with hs | ⟨n, hpos⟩
        · have hleft : st.core.s.left st.core.f = 33 := by rw [IState.left, hs]
          have hpos : (rcv g st.core (st.rcvIn i)).s.queryPos = some 0 := by
            rw [rcv_replyQueryHeader hs]
            rfl
          rw [hleft, IState.left_of_query hpos]
        · exact rcv_query_left hpos
      · have hs := CoreState.eq_send h
        have hleft : st.core.s.left st.core.f = 1 := by rw [IState.left, hs]
        refine corein_left_route (.inr (.inr h)) ?_
        rw [hleft, IState.left_of_idle (rcv_send hs).1]
  | filtering hphase _ _ _ _ =>
      exact corein_left_route (.inr (.inl hphase)) (rcv_filter_left (hf hphase) hplace hphase)
  | addressed hs _ _ _ =>
      have hleft : st.left = 1 + max 215 (1 + max 33 (filterTime st.core.f)) := by rw [Corein.left, hs]
      rw [hleft, Corein.left, hcore, rcv_checkAdmin hs]
      split_ifs
      · show 215 + 1 ≤ _
        omega
      · show 1 + max 33 (filterTime st.core.f) + 1 ≤ _
        omega
  | asked hs _ _ _ _ =>
      have hleft : st.left = 1 + max 33 (filterTime st.core.f) := by rw [Corein.left, hs]
      rw [hleft, Corein.left, hcore, rcv_checkQuery hs]
      split_ifs
      · show 33 + 1 ≤ _
        omega
      · show filterTime st.core.f + 1 ≤ _
        omega
  | starting hs _ _ _ _ =>
      rw [Corein.left, Corein.left, hs, hcore, rcv_startHash hs]
      show Corein.hashLeft _ + 31 + 1 ≤ 215
      rw [Corein.hashLeft, hcore, rcv_startHash hs]
      exact Nat.le_refl _
  | waiting hs _ _ _ hhash => exact corein_left_waiting hs hhash hloop
  | checking hs _ _ _ _ _ =>
      rw [Corein.left, Corein.left, hs, hcore, rcv_hashAuth hs]
      split_ifs
      · exact Nat.le_refl _
      · exact Nat.le_of_ble_eq_true rfl
  | updating hpos _ _ _ _ =>
      have hnow : st.core.s.s.phase ∉ [Phase.addressed, .asked, .starting, .waiting, .checking] := by
        rw [IState.updatePos_phase hpos]
        decide
      rw [Corein.left_eq hnow, Corein.left_eq]
      · exact rcv_update_left hpos
      · rcases (rcv_update (g := g) (i := st.rcvIn i) hpos).pos with ⟨-, hnext⟩ | ⟨-, hnext⟩
        · rw [hcore, IState.updatePos_phase hnext]
          decide
        · rw [hcore, hnext]
          decide

theorem itemTime_le (hf : f.InRange) (k : Nat) : itemTime f k ≤ 1045 := by
  obtain ⟨b, hb⟩ := hf.endPtr_dvd k
  have hle := hf.endPtr_le k
  rw [itemTime, offsetsLeft, offsetTime, areas, hb]
  have hb16 : b ≤ 16 := by omega
  interval_cases b <;> decide

theorem filterTime_le (hf : f.InRange) : filterTime f ≤ 2126 := by
  have hsrcMAC : f.srcMACLength ≤ 2 := hf.srcMAC
  have hdstMAC : f.dstMACLength ≤ 2 := hf.dstMAC
  have hsrcIP : f.srcIPLength ≤ 2 := hf.srcIP
  have hdstIP : f.dstIPLength ≤ 2 := hf.dstIP
  have hsrcPort : f.srcPortLength ≤ 2 := hf.srcPort
  have hdstPort : f.dstPortLength ≤ 2 := hf.dstPort
  have hitems : itemsTime f 0 ≤ 2 * 1045 + 6 := by
    have hsum := Finset.sum_le_card_nsmul (Finset.Ico 0 f.dnsLength) (itemTime f) 1045
      fun j _ => itemTime_le hf j
    rw [Nat.card_Ico, Nat.sub_zero, smul_eq_mul] at hsum
    have hdns : f.dnsLength * 1045 ≤ 2 * 1045 := Nat.mul_le_mul_right 1045 hf.dns
    exact Nat.add_le_add_right (Nat.le_trans hsum hdns) 6
  simp only [filterTime, dstMACTime, srcIPTime, dstIPTime, srcPortTime, dstPortTime, listTime]
  omega

/-- A packet just latched. -/
theorem corein_left_read (hf : st.core.f.InRange) (hs : st.core.s.s = .read) :
    (st.cycle g i).left + 2 ≤ serviceTime := by
  have hcore : (st.cycle g i).core = { st.core.tick (st.rcvIn i) with
      rd := i.elRcvData, elRcvAck := true, s.s := .checkAdmin } := rcv_read hs
  have hle := filterTime_le hf
  rw [Corein.left, hcore]
  show 1 + max 215 (1 + max 33 (filterTime st.core.f)) + 2 ≤ 2130
  omega

end Packet

end DnsAdtm.Hw
