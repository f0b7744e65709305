/-
# `Hw.CoreinScan` — what the `CmpPkt*` states compute

From `CheckPkt` with an item left to try, the process compares the item with the
packet at byte offsets 0, 1, 2, … and stops at the first offset that matches or at
the last one at which the item still fits into the payload.  One comparison walks
the item from its end pointer down, 32, 24, 16 or 8 bits at a time.

    area_until      one offset: `CmpPktCheck` to `CmpPktDone`, the verdict in `fpktmf`
    offsets_until   all offsets from one on, to `FilterPkt` or `CheckPkt`
    scan_until      the scan of one item
    scanMatches_iff the scan ends in `FilterPkt` iff the item occurs (`ItemMatches`)

Offset 0 is compared in any case, so an item longer than the payload can match there.
-/
import DnsAdtm.Hw.Corein
import DnsAdtm.Lib.Machine

namespace DnsAdtm.Hw

open Machine

variable {g : Generics} {st : Core} {i : RcvIn} {f : Filter} {rd : RcvData}

/-! ## The process's equations in the scan states -/

/-- What every period assigns first: the pulses are taken back, `ahv` is sampled. -/
def Core.tick (st : Core) (i : RcvIn) : Core :=
  { st with sndEn := false, elRcvAck := false, siphashStart := false, ahv := i.outData }

@[simp] theorem Core.tick_s : (st.tick i).s = st.s := rfl
@[simp] theorem Core.tick_f : (st.tick i).f = st.f := rfl
@[simp] theorem Core.tick_rd : (st.tick i).rd = st.rd := rfl
@[simp] theorem Core.tick_pkt : (st.tick i).pkt = st.pkt := rfl
@[simp] theorem Core.tick_sndEn : (st.tick i).sndEn = false := rfl

/-- `filterPktEndPtr`: the number of payload bits in `dnsPkt`. -/
def pktEnd (rd : RcvData) : Nat := if rd.dnsLength > 128 then 1024 else rd.dnsLength * 8

theorem rcv_checkPkt (h : st.s.s = .checkPkt) : rcv g st i =
    if st.s.fdnsc = st.f.dnsLength then
      if st.f.dnsBW = false then
        { st.tick i with s.s := .setDNSReplyHeader, s.sfc := st.s.sfc + 1 }
      else { st.tick i with s.s := .idle, s.fpktsc := 0 }
    else
      { st.tick i with
        s := { st.s with
          s := .cmpPktCheck
          fpktsc := 0
          fpktc := st.f.endPtr st.s.fdnsc
          fpktmf := false }
        pkt.endPtr := pktEnd st.rd } := by
  unfold rcv
  rw [h]
  rfl

theorem rcv_cmpPktDone (h : st.s.s = .cmpPktDone) : rcv g st i =
    if st.s.fpktmf then { st.tick i with s.s := .filterPkt }
    else if st.s.fpktsc + st.f.endPtr st.s.fdnsc ≥ st.pkt.endPtr then
      { st.tick i with s.s := .checkPkt, s.fdnsc := st.s.fdnsc + 1 }
    else
      { st.tick i with
        s := { st.s with
          s := .cmpPktCheck
          fpktsc := st.s.fpktsc + 8
          fpktc := st.f.endPtr st.s.fdnsc
          fpktmf := false } } := by
  unfold rcv
  rw [h]
  rfl

/-- The area comparison states, with the number of bits each compares. -/
inductive IsArea : CoreState → Nat → Prop
  | area32 : IsArea .cmpPktArea32 32
  | area24 : IsArea .cmpPktArea24 24
  | area16 : IsArea .cmpPktArea16 16
  | area8 : IsArea .cmpPktArea8 8

theorem rcv_area {n : Nat} (hn : IsArea st.s.s n) :
    rcv g st i = { st.tick i with s := cmpPktArea n st st.s } := by
  generalize h : st.s.s = c at hn
  unfold rcv
  cases hn <;> rw [h] <;> rfl

/-- `CmpPktCheck` sets the area up, and picks the widest comparison that still fits. -/
theorem rcv_cmpPktCheck (h : st.s.s = .cmpPktCheck) :
    (8 ≤ st.s.fpktc ∧ ∃ c n, IsArea c n ∧ n ≤ st.s.fpktc ∧ 8 ∣ n ∧ 0 < n ∧
      rcv g st i = { st.tick i with
        s.s := c
        pkt := ⟨st.pkt.endPtr, st.s.fpktsc + st.s.fpktc, st.s.fpktc, st.s.fdnsc⟩ }) ∨
    (st.s.fpktc < 8 ∧
      rcv g st i = { st.tick i with
        s := { st.s with s := .cmpPktDone, fpktmf := true }
        pkt := ⟨st.pkt.endPtr, st.s.fpktsc + st.s.fpktc, st.s.fpktc, st.s.fdnsc⟩ }) := by
  unfold rcv
  rw [h]
  by_cases h32 : st.s.fpktc ≥ 32
  · exact .inl ⟨by omega, .cmpPktArea32, 32, .area32, h32, by decide, by decide, by simp [h32, Core.tick]⟩
  by_cases h24 : st.s.fpktc ≥ 24
  · exact .inl ⟨by omega, .cmpPktArea24, 24, .area24, h24, by decide, by decide, by simp [h32, h24, Core.tick]⟩
  by_cases h16 : st.s.fpktc ≥ 16
  · exact .inl ⟨by omega, .cmpPktArea16, 16, .area16, h16, by decide, by decide, by simp [h32, h24, h16, Core.tick]⟩
  by_cases h8 : st.s.fpktc ≥ 8
  · exact .inl ⟨by omega, .cmpPktArea8, 8, .area8, h8, by decide, by decide, by simp [h32, h24, h16, h8, Core.tick]⟩
  · exact .inr ⟨by omega, by simp [h32, h24, h16, h8, Core.tick]⟩

/-! ## The scan -/

/-- The five statistics counters. -/
structure Tally where
  stc : BitVec 64
  sfc : BitVec 64
  smc : BitVec 64
  sic : BitVec 64
  spc : BitVec 64
  deriving DecidableEq

def IState.tally (s : IState) : Tally := ⟨s.stc, s.sfc, s.smc, s.sic, s.spc⟩

/-- The filter route works on `rd` under `f`, the counters stand at `t`, and nothing
is sent. -/
structure On (f : Filter) (rd : RcvData) (t : Tally) (st : Core) : Prop where
  filter : st.f = f
  data : st.rd = rd
  tally : st.s.tally = t
  quiet : st.sndEn = false

/-- The states of the scan proper. -/
def scanStates : List CoreState :=
  [.cmpPktCheck, .cmpPktArea32, .cmpPktArea24, .cmpPktArea16, .cmpPktArea8, .cmpPktDone]

theorem IsArea.mem {a : CoreState} {n : Nat} (h : IsArea a n) : a ∈ scanStates := by
  cases h <;> decide

/-- The scan is under way. -/
def Scanning (f : Filter) (rd : RcvData) (t : Tally) (st : Core) : Prop :=
  On f rd t st ∧ st.s.s ∈ scanStates

/-- Item `k` stands at packet bit `p`, and its lowest `c` bits are still to compare. -/
structure Comparing (f : Filter) (rd : RcvData) (t : Tally) (k p c : Nat) (st : Core) : Prop
    extends On f rd t st where
  s : st.s.s = .cmpPktCheck
  fdnsc : st.s.fdnsc = k
  fpktsc : st.s.fpktsc = p
  fpktc : st.s.fpktc = c
  endPtr : st.pkt.endPtr = pktEnd rd

/-- Item `k` has been compared at packet bit `p`, with outcome `b`. -/
structure Compared (f : Filter) (rd : RcvData) (t : Tally) (k p : Nat) (b : Bool) (st : Core) :
    Prop extends On f rd t st where
  s : st.s.s = .cmpPktDone
  fdnsc : st.s.fdnsc = k
  fpktsc : st.s.fpktsc = p
  fpktmf : st.s.fpktmf = b
  endPtr : st.pkt.endPtr = pktEnd rd

variable {t : Tally} {k p c : Nat}

/-- The lowest `c` bits of item `k` are the packet's bits from `p` on. -/
def AreaMatches (f : Filter) (rd : RcvData) (k p c : Nat) : Prop :=
  rd.dnsPkt.extractLsb' p c = (f.dnsList.at k).extractLsb' 0 c

instance : Decidable (AreaMatches f rd k p c) := inferInstanceAs (Decidable (_ = _))

/-- One offset: the comparison ends, and `fpktmf` is its outcome.  By strong induction
on the number of bits left. -/
theorem area_until (h8 : 8 ∣ c) (hst : Comparing f rd t k p c st) :
    Until (rcv g) (Scanning f rd t) (Compared f rd t k p (decide (AreaMatches f rd k p c))) st := by
  induction c using Nat.strong_induction_on generalizing st with
  | _ c ih =>
    obtain ⟨⟨hf, hrd, ht, hq⟩, hs, hk, hp, hc, he⟩ := hst
    refine .later ⟨⟨hf, hrd, ht, hq⟩, by rw [hs]; decide⟩ fun i => ?_
    rcases rcv_cmpPktCheck (g := g) (i := i) hs with ⟨_, a, n, ha, hn, hn8, hpos, hstep⟩ | ⟨hlt, hstep⟩
    · -- an area of `n` bits
      rw [hstep]
      refine .later ⟨⟨hf, hrd, ht, rfl⟩, ha.mem⟩ fun i' => ?_
      rw [rcv_area (n := n) ha]
      have hsplit := extractLsb'_eq_split rd.dnsPkt (f.dnsList.at k) p 0 (hc ▸ hn)
      rw [Nat.zero_add] at hsplit
      simp only [cmpPktArea, hf, hrd, hk, hp, hc, Core.tick_f, Core.tick_rd]
      split
      · -- equal: on with the rest of the item
        rename_i heq
        have hiff : AreaMatches f rd k p c ↔ AreaMatches f rd k p (c - n) := by
          rw [AreaMatches, hsplit, and_iff_right heq]
          rfl
        rw [decide_eq_decide.mpr hiff]
        refine ih (c - n) (by omega) (by omega) ?_
        exact ⟨⟨rfl, rfl, ht, rfl⟩, rfl, hk, hp, congrArg (· - n) hc, he⟩
      · rename_i hne
        have hno : ¬ AreaMatches f rd k p c := fun h => hne (hsplit.mp h).1
        rw [decide_eq_false hno]
        exact .here ⟨⟨rfl, rfl, ht, rfl⟩, rfl, hk, hp, rfl, he⟩
    · -- nothing left: the item matches
      have hzero : c = 0 := by omega
      have hyes : AreaMatches f rd k p c := by
        subst hzero
        exact BitVec.eq_of_zero_length rfl
      rw [hstep, decide_eq_true hyes]
      exact .here ⟨⟨hf, hrd, ht, rfl⟩, rfl, hk, hp, rfl, he⟩

/-- The scan of item `k` is over: at `FilterPkt` if it was found, and otherwise back at
`CheckPkt` for the next item. -/
def Scanned (f : Filter) (rd : RcvData) (t : Tally) (k : Nat) (found : Prop) (st : Core) : Prop :=
  On f rd t st ∧
    ((found ∧ st.s.s = .filterPkt) ∨ (¬ found ∧ st.s.s = .checkPkt ∧ st.s.fdnsc = k + 1))

/-- Item `k` occurs at byte offset `m`, at which it is tried. -/
def OccursAt (f : Filter) (rd : RcvData) (k m : Nat) : Prop :=
  (m = 0 ∨ 8 * m + f.endPtr k ≤ pktEnd rd) ∧ AreaMatches f rd k (8 * m) (f.endPtr k)

instance {m : Nat} : Decidable (OccursAt f rd k m) := inferInstanceAs (Decidable (_ ∧ _))

theorem pktEnd_dvd (rd : RcvData) : 8 ∣ pktEnd rd := by
  unfold pktEnd
  split <;> omega

theorem pktEnd_le (rd : RcvData) : pktEnd rd ≤ 1024 := by
  unfold pktEnd
  split <;> omega

/-- The offsets from `m` on, by induction on the room left behind `m`. -/
theorem offsets_until {m : Nat} (h8 : 8 ∣ f.endPtr k)
    (hm : m = 0 ∨ 8 * m + f.endPtr k ≤ pktEnd rd)
    (hst : Comparing f rd t k (8 * m) (f.endPtr k) st) :
    Until (rcv g) (Scanning f rd t) (Scanned f rd t k (∃ m', m ≤ m' ∧ OccursAt f rd k m')) st := by
  obtain ⟨room, hroom⟩ : ∃ room, room = pktEnd rd - 8 * m := ⟨_, rfl⟩
  induction room using Nat.strong_induction_on generalizing m st with
  | _ room ih =>
    refine (area_until h8 hst).trans ?_
    rintro st ⟨⟨hf, hrd, ht, hq⟩, hs, hk, hp, hmf, he⟩
    refine .later ⟨⟨hf, hrd, ht, hq⟩, by rw [hs]; decide⟩ fun i => ?_
    rw [rcv_cmpPktDone hs, hmf, hp, hk, hf, he]
    have hdvd := pktEnd_dvd rd
    by_cases hmatch : AreaMatches f rd k (8 * m) (f.endPtr k)
    · -- found here
      simp only [hmatch, decide_true, if_true]
      exact .here ⟨⟨hf, hrd, ht, rfl⟩, .inl ⟨⟨m, Nat.le_refl m, hm, hmatch⟩, rfl⟩⟩
    · simp only [hmatch, decide_false, Bool.false_eq_true, if_false]
      split
      · -- the item fits no later
        rename_i hge
        refine .here ⟨⟨hf, hrd, ht, rfl⟩, .inr ⟨?_, rfl, by simp⟩⟩
        rintro ⟨m', hle, hfit, hocc⟩
        rcases Nat.eq_or_lt_of_le hle with rfl | hlt
        · exact hmatch hocc
        · omega
      · -- eight bits further
        rename_i hlt
        have hnext : (∃ m', m ≤ m' ∧ OccursAt f rd k m') ↔ ∃ m', m + 1 ≤ m' ∧ OccursAt f rd k m' := by
          refine ⟨?_, fun ⟨m', hle, ho⟩ => ⟨m', by omega, ho⟩⟩
          rintro ⟨m', hle, hfit, hocc⟩
          rcases Nat.eq_or_lt_of_le hle with rfl | hlt'
          · exact absurd hocc hmatch
          · exact ⟨m', hlt', hfit, hocc⟩
        rw [show (∃ m', m ≤ m' ∧ OccursAt f rd k m') = ∃ m', m + 1 ≤ m' ∧ OccursAt f rd k m' from
          propext hnext]
        refine ih _ ?_ (.inr (by omega)) ⟨⟨hf, hrd, ht, rfl⟩, rfl, hk, ?_, rfl, he⟩ rfl
        · omega
        · show 8 * m + 8 = 8 * (m + 1)
          omega

/-- Item `k` occurs in the payload. -/
def ItemMatches (f : Filter) (rd : RcvData) (k : Nat) : Prop := ∃ m < 128, OccursAt f rd k m

instance : Decidable (ItemMatches f rd k) := inferInstanceAs (Decidable (∃ m < 128, _))

theorem itemMatches_iff : ItemMatches f rd k ↔ ∃ m, 0 ≤ m ∧ OccursAt f rd k m := by
  refine ⟨fun ⟨m, _, ho⟩ => ⟨m, Nat.zero_le m, ho⟩, fun ⟨m, _, ho⟩ => ?_⟩
  by_cases hm : m < 128
  · exact ⟨m, hm, ho⟩
  · -- only an empty item is tried behind the last byte, and it occurs at offset 0
    have hend := pktEnd_le rd
    have hzero : f.endPtr k = 0 := by
      have := ho.1
      omega
    refine ⟨0, by decide, .inl rfl, ?_⟩
    rw [hzero]
    exact BitVec.eq_of_zero_length rfl

/-- The scan of one item, from `CheckPkt` on. -/
theorem scan_until (h8 : 8 ∣ f.endPtr k) (hon : On f rd t st) (hs : st.s.s = .checkPkt)
    (hk : st.s.fdnsc = k) (hlen : k ≠ f.dnsLength) (i : RcvIn) :
    Until (rcv g) (Scanning f rd t) (Scanned f rd t k (ItemMatches f rd k)) (rcv g st i) := by
  obtain ⟨hf, hrd, ht, _⟩ := hon
  rw [show ItemMatches f rd k = ∃ m, 0 ≤ m ∧ OccursAt f rd k m from propext itemMatches_iff]
  rw [rcv_checkPkt hs, hk, hf, hrd, if_neg hlen]
  exact offsets_until h8 (.inl rfl) ⟨⟨hf, hrd, ht, rfl⟩, rfl, hk, rfl, rfl, rfl⟩

/-- The outcome of the scan itself: every run of it from `CheckPkt` ends in `FilterPkt`. -/
def ScanMatches (g : Generics) (f : Filter) (rd : RcvData) (k : Nat) : Prop :=
  ∀ st t i, On f rd t st → st.s.s = .checkPkt → st.s.fdnsc = k →
    Until (rcv g) (fun st => st.s.s ∈ scanStates) (fun st => st.s.s = .filterPkt) (rcv g st i)

/-- The process about to try item `k`. -/
def Core.atItem (f : Filter) (rd : RcvData) (k : Nat) : Core where
  s := { IState.init with s := .checkPkt, fdnsc := k }
  ahv := 0
  rd := rd
  f := f
  siphashStart := false
  elRcvAck := false
  sndEn := false
  pkt := ⟨0, 0, 0, 0⟩

theorem scanMatches_iff (h8 : 8 ∣ f.endPtr k) (hlen : k ≠ f.dnsLength) :
    ScanMatches g f rd k ↔ ItemMatches f rd k := by
  constructor
  · intro h
    have : Inhabited RcvIn := ⟨⟨.zero, false, false, 0⟩⟩
    have hon : On f rd IState.init.tally (Core.atItem f rd k) := ⟨rfl, rfl, rfl, rfl⟩
    obtain ⟨st, hend, _, hscan⟩ := (h _ _ default hon rfl rfl).meet
      (scan_until h8 hon rfl rfl hlen default)
      (fun st hend hon => by
        have := hon.2
        rw [hend] at this
        exact absurd this (by decide))
      (fun st hscan hmem => by
        obtain ⟨_, ⟨_, hs⟩ | ⟨_, hs, _⟩⟩ := hscan <;> rw [hs] at hmem <;> exact absurd hmem (by decide))
    rcases hscan with ⟨hm, _⟩ | ⟨_, hs, _⟩
    · exact hm
    · rw [hend] at hs
      cases hs
  · intro hm st t i hon hs hk
    refine (scan_until h8 hon hs hk hlen i).mono (fun _ h => h.2) ?_
    rintro st ⟨_, ⟨_, hs⟩ | ⟨hno, _⟩⟩
    · exact hs
    · exact absurd hm hno

end DnsAdtm.Hw
