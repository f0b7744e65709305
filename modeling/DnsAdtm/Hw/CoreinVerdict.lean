/-
# `Hw.CoreinVerdict` — the filter route judges a packet

A packet that is neither an administrator's nor a query runs through seven stages and
ends in `Idle`, sent if all of them accept it.  The six list stages are one state
machine over different names (`Stage`), so one lemma covers them; the stages are then
chained from the back, each rule taking what is known of the route behind a stage to
the route that starts with it:

    Stage.route     behind `S.pass`          ⟹   from `S.check`
    dns_route       behind SetDNSReplyHeader ⟹   from `CheckPkt`
    filter_route    from `CheckSrcMAC` to the verdict
    route_until     from `CheckAdmin` to the verdict

The verdict (`Verdict`) says what is sent and where the five counters end, and the
filter register is the same throughout (`Working`).
-/
import DnsAdtm.Hw.CoreinScan

namespace DnsAdtm.Hw

open Machine

variable {w : Nat} {g : Generics} {st : Core} {f : Filter} {rd : RcvData} {t : Tally} {k : Nat}

/-! ## When a stage accepts -/

/-- A blacklist accepts what it does not hit, a whitelist what it hits. -/
def StageAccepts (bw : Bool) (hit : Prop) : Prop := (bw = false ∧ ¬ hit) ∨ (bw = true ∧ hit)

/-- `v` is one of the first `len` entries. -/
def OnList (len : Nat) (l : FilterList w) (v : BitVec w) : Prop := ∃ k < len, l.at k = v

instance {bw : Bool} {hit : Prop} [Decidable hit] : Decidable (StageAccepts bw hit) :=
  inferInstanceAs (Decidable (_ ∨ _))

instance {len : Nat} {l : FilterList w} {v : BitVec w} : Decidable (OnList len l v) :=
  inferInstanceAs (Decidable (∃ k < len, _))

/-- All seven stages accept the packet; an item of the DNS stage is hit when the scan
for it says so. -/
structure Accepts (g : Generics) (f : Filter) (rd : RcvData) : Prop where
  srcMAC : StageAccepts f.srcMACBW (OnList f.srcMACLength f.srcMACList rd.srcMAC)
  dstMAC : StageAccepts f.dstMACBW (OnList f.dstMACLength f.dstMACList rd.dstMAC)
  srcIP : StageAccepts f.srcIPBW (OnList f.srcIPLength f.srcIPList rd.srcIP)
  dstIP : StageAccepts f.dstIPBW (OnList f.dstIPLength f.dstIPList rd.dstIP)
  srcPort : StageAccepts f.srcPortBW (OnList f.srcPortLength f.srcPortList rd.srcPort)
  dstPort : StageAccepts f.dstPortBW (OnList f.dstPortLength f.dstPortList rd.dstPort)
  dns : StageAccepts f.dnsBW (∃ k < f.dnsLength, ScanMatches g f rd k)

/-- A list stage accepts the packet. -/
def Stage.passes (S : Stage w) (f : Filter) (rd : RcvData) : Bool :=
  decide (StageAccepts (S.bw f) (OnList (S.length f) (S.list f) (S.value rd)))

/-- The DNS stage accepts the packet. -/
def dnsPasses (f : Filter) (rd : RcvData) : Bool :=
  decide (StageAccepts f.dnsBW (∃ k < f.dnsLength, ItemMatches f rd k))

/-! ## Routes -/

/-- The route is under way, nothing is sent, and the filter is `f`. -/
def Working (f : Filter) (st : Core) : Prop :=
  st.s.s ≠ .idle ∧ st.sndEn = false ∧ st.f = f

/-- Back in `Idle`: sent or not, with the counters at `t`. -/
structure Verdict (f : Filter) (sent : Bool) (t : Tally) (st : Core) : Prop where
  idle : st.s.s = .idle
  filter : st.f = f
  sndEn : st.sndEn = sent
  tally : st.s.tally = t

/-- Started in state `chk` with the stage counter `get` at zero, the process ends with
the verdict `sent` and takes the counters from `t` to `count t`. -/
def RouteFrom (g : Generics) (f : Filter) (rd : RcvData) (chk : CoreState) (get : IState → Nat)
    (sent : Bool) (count : Tally → Tally) : Prop :=
  ∀ t st, On f rd t st → st.s.s = chk → get st.s = 0 →
    Until (rcv g) (Working f) (Verdict f sent (count t)) st

/-- What the process does in the three states of a list stage, and that the stage's
counter is a register of its own. -/
structure Stage.Lawful (S : Stage w) : Prop where
  rcv_check : ∀ g st i, st.s.s = S.check → rcv g st i = { st.tick i with s := S.doCheck st.f st.s }
  rcv_cmp : ∀ g st i, st.s.s = S.cmp → rcv g st i = { st.tick i with s := S.doCmp st.rd st.f st.s }
  rcv_hit : ∀ g st i, st.s.s = S.hit → rcv g st i = { st.tick i with s := S.doMatch st.f st.s }
  get_set : ∀ n c s, S.get { S.set n s with s := c } = n
  tally_set : ∀ n c s, ({ S.set n s with s := c } : IState).tally = s.tally
  busy : S.check ≠ .idle ∧ S.cmp ≠ .idle ∧ S.hit ≠ .idle

/-- In state `c` of the stage, with its counter at `k`. -/
structure Stage.At (S : Stage w) (c : CoreState) (k : Nat) (f : Filter) (rd : RcvData) (t : Tally)
    (st : Core) : Prop extends On f rd t st where
  s : st.s.s = c
  counter : S.get st.s = k

/-- At the accepting exit of the stage. -/
def Stage.Passed (S : Stage w) (f : Filter) (rd : RcvData) (t : Tally) (st : Core) : Prop :=
  ∃ s, s.tally = t ∧ st.s = S.pass s ∧ st.f = f ∧ st.rd = rd ∧ st.sndEn = false

/-- Where a list stage ends. -/
def Stage.Left (S : Stage w) (f : Filter) (rd : RcvData) (t : Tally) (st : Core) : Prop :=
  (S.passes f rd = true ∧ S.Passed f rd t st) ∨ (S.passes f rd = false ∧ Verdict f false t st)

section Steps
variable {S : Stage w} (hS : S.Lawful) {i : RcvIn}
include hS

theorem Stage.check_more (h : S.At S.check k f rd t st) (hk : k ≠ S.length f) :
    S.At S.cmp k f rd t (rcv g st i) := by
  obtain ⟨⟨hf, hrd, ht, hq⟩, hs, hget⟩ := h
  rw [hS.rcv_check g st i hs, Stage.doCheck, hf, hget, if_neg hk]
  exact ⟨⟨hf, hrd, (hS.tally_set _ _ _).trans ht, rfl⟩, rfl, hS.get_set _ _ _⟩

theorem Stage.check_pass (h : S.At S.check (S.length f) f rd t st) (hbw : S.bw f = false) :
    S.Passed f rd t (rcv g st i) := by
  obtain ⟨⟨hf, hrd, ht, hq⟩, hs, hget⟩ := h
  rw [hS.rcv_check g st i hs, Stage.doCheck, hf, if_pos hget, if_pos hbw]
  exact ⟨st.s, ht, rfl, hf, hrd, rfl⟩

theorem Stage.check_ban (h : S.At S.check (S.length f) f rd t st) (hbw : S.bw f = true) :
    Verdict f false t (rcv g st i) := by
  obtain ⟨⟨hf, hrd, ht, hq⟩, hs, hget⟩ := h
  rw [hS.rcv_check g st i hs, Stage.doCheck, hf, if_pos hget, if_neg (by simp [hbw])]
  exact ⟨rfl, hf, rfl, (hS.tally_set _ _ _).trans ht⟩

theorem Stage.cmp_hit (h : S.At S.cmp k f rd t st) (heq : S.value rd = (S.list f).at k) :
    S.At S.hit k f rd t (rcv g st i) := by
  obtain ⟨⟨hf, hrd, ht, hq⟩, hs, hget⟩ := h
  rw [hS.rcv_cmp g st i hs, Stage.doCmp, hf, hrd, hget, if_pos heq]
  exact ⟨⟨hf, hrd, (hS.tally_set _ _ _).trans ht, rfl⟩, rfl, hS.get_set _ _ _⟩

theorem Stage.cmp_miss (h : S.At S.cmp k f rd t st) (hne : S.value rd ≠ (S.list f).at k) :
    S.At S.check (k + 1) f rd t (rcv g st i) := by
  obtain ⟨⟨hf, hrd, ht, hq⟩, hs, hget⟩ := h
  rw [hS.rcv_cmp g st i hs, Stage.doCmp, hf, hrd, hget, if_neg hne]
  exact ⟨⟨hf, hrd, (hS.tally_set _ _ _).trans ht, rfl⟩, rfl, hS.get_set _ _ _⟩

theorem Stage.hit_pass (h : S.At S.hit k f rd t st) (hbw : S.bw f = true) :
    S.Passed f rd t (rcv g st i) := by
  obtain ⟨⟨hf, hrd, ht, hq⟩, hs, hget⟩ := h
  rw [hS.rcv_hit g st i hs, Stage.doMatch, hf, if_neg (by simp [hbw])]
  exact ⟨st.s, ht, rfl, hf, hrd, rfl⟩

theorem Stage.hit_ban (h : S.At S.hit k f rd t st) (hbw : S.bw f = false) :
    Verdict f false t (rcv g st i) := by
  obtain ⟨⟨hf, hrd, ht, hq⟩, hs, hget⟩ := h
  rw [hS.rcv_hit g st i hs, Stage.doMatch, hf, if_pos hbw]
  exact ⟨rfl, hf, rfl, (hS.tally_set _ _ _).trans ht⟩

/-- One list stage, by induction on the entries left: none of the first `k` is the
packet's value. -/
theorem Stage.until_left (h : S.At S.check k f rd t st) (hle : k ≤ S.length f)
    (hno : ∀ j < k, (S.list f).at j ≠ S.value rd) :
    Until (rcv g) (Working f) (S.Left f rd t) st := by
  obtain ⟨left, hleft⟩ : ∃ left, S.length f = k + left := ⟨_, (Nat.add_sub_cancel' hle).symm⟩
  have hwork : ∀ {c k st}, c ≠ .idle → S.At c k f rd t st → Working f st :=
    fun hc h => ⟨by rwa [h.s], h.quiet, h.filter⟩
  induction left generalizing k st with
  | zero =>
      -- the list is exhausted
      obtain rfl : S.length f = k := hleft
      have hmiss : ¬ OnList (S.length f) (S.list f) (S.value rd) := fun ⟨j, hj, heq⟩ => hno j hj heq
      refine .later (hwork hS.busy.1 h) fun i => .here ?_
      cases hbw : S.bw f with
      | false => exact .inl ⟨by simp [Stage.passes, StageAccepts, hbw, hmiss], check_pass hS h hbw⟩
      | true => exact .inr ⟨by simp [Stage.passes, StageAccepts, hbw, hmiss], check_ban hS h hbw⟩
  | succ left ih =>
      refine .later (hwork hS.busy.1 h) fun i => ?_
      have hcmp := check_more (g := g) (i := i) hS h (by omega)
      refine .later (hwork hS.busy.2.1 hcmp) fun i' => ?_
      by_cases heq : S.value rd = (S.list f).at k
      · -- the entry is the packet's value
        have hhas : OnList (S.length f) (S.list f) (S.value rd) := ⟨k, by omega, heq.symm⟩
        have hhit := cmp_hit (g := g) (i := i') hS hcmp heq
        refine .later (hwork hS.busy.2.2 hhit) fun i'' => .here ?_
        cases hbw : S.bw f with
        | false => exact .inr ⟨by simp [Stage.passes, StageAccepts, hbw, hhas], hit_ban hS hhit hbw⟩
        | true => exact .inl ⟨by simp [Stage.passes, StageAccepts, hbw, hhas], hit_pass hS hhit hbw⟩
      · refine ih (cmp_miss hS hcmp heq) (by omega) ?_ (by omega)
        intro j hj
        rcases Nat.eq_or_lt_of_le (Nat.le_of_lt_succ hj) with rfl | hlt
        · exact fun hat => heq hat.symm
        · exact hno j hlt

/-- The rule for a list stage. -/
theorem Stage.route {chk : CoreState} {get : IState → Nat}
    {sent : Bool} {count : Tally → Tally} (bump : Tally → Tally)
    (hpass : ∀ s, (S.pass s).s = chk ∧ get (S.pass s) = 0 ∧ (S.pass s).tally = bump s.tally)
    (hbehind : RouteFrom g f rd chk get sent count) :
    RouteFrom g f rd S.check S.get (S.passes f rd && sent)
      (fun t => if S.passes f rd then count (bump t) else t) := by
  intro t st hon hs hk
  refine (Stage.until_left hS ⟨hon, hs, hk⟩ (Nat.zero_le _) (by simp)).trans fun st' hleft => ?_
  rcases hleft with ⟨hp, s, ht, hs', hf, hrd, hq⟩ | ⟨hp, hv⟩
  · obtain ⟨hchk, hget, hbump⟩ := hpass s
    simp only [hp, Bool.true_and, if_true]
    exact hbehind (bump t) st' ⟨hf, hrd, by rw [hs', hbump, ht], hq⟩ (by rw [hs', hchk])
      (by rw [hs', hget])
  · simp only [hp, Bool.false_and, Bool.false_eq_true, if_false]
    exact .here hv

end Steps

/-! ## The stages of the route -/

theorem srcMACStage_lawful : srcMACStage.Lawful where
  rcv_check _ _ _ h := by unfold rcv; rw [h]; rfl
  rcv_cmp _ _ _ h := by unfold rcv; rw [h]; rfl
  rcv_hit _ _ _ h := by unfold rcv; rw [h]; rfl
  get_set _ _ _ := rfl
  tally_set _ _ _ := rfl
  busy := by decide

theorem dstMACStage_lawful : dstMACStage.Lawful where
  rcv_check _ _ _ h := by unfold rcv; rw [h]; rfl
  rcv_cmp _ _ _ h := by unfold rcv; rw [h]; rfl
  rcv_hit _ _ _ h := by unfold rcv; rw [h]; rfl
  get_set _ _ _ := rfl
  tally_set _ _ _ := rfl
  busy := by decide

theorem srcIPStage_lawful : srcIPStage.Lawful where
  rcv_check _ _ _ h := by unfold rcv; rw [h]; rfl
  rcv_cmp _ _ _ h := by unfold rcv; rw [h]; rfl
  rcv_hit _ _ _ h := by unfold rcv; rw [h]; rfl
  get_set _ _ _ := rfl
  tally_set _ _ _ := rfl
  busy := by decide

theorem dstIPStage_lawful : dstIPStage.Lawful where
  rcv_check _ _ _ h := by unfold rcv; rw [h]; rfl
  rcv_cmp _ _ _ h := by unfold rcv; rw [h]; rfl
  rcv_hit _ _ _ h := by unfold rcv; rw [h]; rfl
  get_set _ _ _ := rfl
  tally_set _ _ _ := rfl
  busy := by decide

theorem srcPortStage_lawful : srcPortStage.Lawful where
  rcv_check _ _ _ h := by unfold rcv; rw [h]; rfl
  rcv_cmp _ _ _ h := by unfold rcv; rw [h]; rfl
  rcv_hit _ _ _ h := by unfold rcv; rw [h]; rfl
  get_set _ _ _ := rfl
  tally_set _ _ _ := rfl
  busy := by decide

theorem dstPortStage_lawful : dstPortStage.Lawful where
  rcv_check _ _ _ h := by unfold rcv; rw [h]; rfl
  rcv_cmp _ _ _ h := by unfold rcv; rw [h]; rfl
  rcv_hit _ _ _ h := by unfold rcv; rw [h]; rfl
  get_set _ _ _ := rfl
  tally_set _ _ _ := rfl
  busy := by decide

/-! ## The DNS stage and the reply -/

theorem rcv_setDefaultMAC {i : RcvIn} (h : st.s.s = .setDefaultMAC) :
    rcv g st i = { st.tick i with rd.dstMAC := g.normalMac, s.s := .send } := by
  unfold rcv
  rw [h]
  rfl

theorem rcv_send {i : RcvIn} (h : st.s.s = .send) :
    (rcv g st i).s.s = .idle ∧ (rcv g st i).f = st.f ∧ (rcv g st i).sndEn = true ∧
      (rcv g st i).s.tally = st.s.tally := by
  unfold rcv
  rw [h]
  exact ⟨rfl, rfl, rfl, rfl⟩

theorem rcv_setDNSReplyCount {i : RcvIn} (h : st.s.s = .setDNSReplyCount) :
    (rcv g st i).s.s = .setDefaultMAC ∧ (rcv g st i).f = st.f ∧ (rcv g st i).sndEn = false ∧
      (rcv g st i).s.tally = st.s.tally := by
  unfold rcv
  rw [h]
  exact ⟨rfl, rfl, rfl, rfl⟩

theorem rcv_setDNSReplyHeader {i : RcvIn} (h : st.s.s = .setDNSReplyHeader) :
    ((rcv g st i).s.s = .setDefaultMAC ∨ (rcv g st i).s.s = .setDNSReplyCount) ∧
      (rcv g st i).f = st.f ∧ (rcv g st i).sndEn = false ∧
      (rcv g st i).s.tally = st.s.tally := by
  unfold rcv
  rw [h]
  dsimp only
  split
  · exact ⟨.inl rfl, rfl, rfl, rfl⟩
  · exact ⟨.inr rfl, rfl, rfl, rfl⟩

/-- From the last state before `Send` on, the packet is sent. -/
theorem send_until (hs : st.s.s = .setDefaultMAC) (hf : st.f = f) (hq : st.sndEn = false)
    (ht : st.s.tally = t) : Until (rcv g) (Working f) (Verdict f true t) st := by
  refine .later ⟨by simp [hs], hq, hf⟩ fun i => ?_
  rw [rcv_setDefaultMAC hs]
  refine .later ⟨nofun, rfl, hf⟩ fun i' => ?_
  have hs' : ({ st.tick i with rd.dstMAC := g.normalMac, s.s := .send } : Core).s.s = .send := rfl
  obtain ⟨hidle, hf', hsnd, ht'⟩ := rcv_send (g := g) (i := i') hs'
  exact .here ⟨hidle, hf'.trans hf, hsnd, ht'.trans ht⟩

/-- A packet accepted by the last stage is sent, in either reply mode. -/
theorem reply_until (hs : st.s.s = .setDNSReplyHeader) (hf : st.f = f) (hq : st.sndEn = false)
    (ht : st.s.tally = t) : Until (rcv g) (Working f) (Verdict f true t) st := by
  refine .later ⟨by simp [hs], hq, hf⟩ fun i => ?_
  obtain ⟨hnext | hnext, hf', hq', ht'⟩ := rcv_setDNSReplyHeader (g := g) (i := i) hs
  · exact send_until hnext (hf'.trans hf) hq' (ht'.trans ht)
  · refine .later ⟨by simp [hnext], hq', hf'.trans hf⟩ fun i' => ?_
    obtain ⟨hnext', hf'', hq'', ht''⟩ := rcv_setDNSReplyCount (g := g) (i := i') hnext
    exact send_until hnext' (hf''.trans (hf'.trans hf)) hq'' (ht''.trans (ht'.trans ht))

/-- `sin.sfc <= s.sfc + 1`, and its like for the other counters. -/
def Tally.addSfc (t : Tally) : Tally := { t with sfc := t.sfc + 1 }
def Tally.addStc (t : Tally) : Tally := { t with stc := t.stc + 1 }
def Tally.addSmc (t : Tally) : Tally := { t with smc := t.smc + 1 }
def Tally.addSic (t : Tally) : Tally := { t with sic := t.sic + 1 }
def Tally.addSpc (t : Tally) : Tally := { t with spc := t.spc + 1 }

theorem rcv_filterPkt {i : RcvIn} (h : st.s.s = .filterPkt) : rcv g st i =
    if st.f.dnsBW = false then { st.tick i with s.s := .idle, s.fdnsc := 0 }
    else { st.tick i with s.s := .setDNSReplyHeader, s.sfc := st.s.sfc + 1 } := by
  unfold rcv
  rw [h]
  rfl

/-- Where the DNS stage ends: the packet on its way out, or in `Idle`. -/
def DnsLeft (f : Filter) (rd : RcvData) (t : Tally) (st : Core) : Prop :=
  (dnsPasses f rd = true ∧ st.s.s = .setDNSReplyHeader ∧ st.f = f ∧ st.sndEn = false ∧
    st.s.tally = t.addSfc) ∨ (dnsPasses f rd = false ∧ Verdict f false t st)

theorem scanning_working (h : Scanning f rd t st) : Working f st := by
  refine ⟨fun hidle => ?_, h.1.quiet, h.1.filter⟩
  have hmem := h.2
  rw [hidle] at hmem
  exact absurd hmem (by decide)

/-- The DNS stage, by induction on the items left: none of the first `k` matches. -/
theorem dns_until_left (h8 : ∀ i, 8 ∣ f.endPtr i) (hon : On f rd t st) (hs : st.s.s = .checkPkt)
    (hk : st.s.fdnsc = k) (hle : k ≤ f.dnsLength) (hno : ∀ j < k, ¬ ItemMatches f rd j) :
    Until (rcv g) (Working f) (DnsLeft f rd t) st := by
  obtain ⟨left, hleft⟩ : ∃ left, f.dnsLength = k + left := ⟨_, (Nat.add_sub_cancel' hle).symm⟩
  induction left generalizing k st with
  | zero =>
      -- the list is exhausted
      obtain rfl : f.dnsLength = k := hleft
      have hmiss : ¬ ∃ j < f.dnsLength, ItemMatches f rd j := fun ⟨j, hj, hm⟩ => hno j hj hm
      obtain ⟨hf, hrd, ht, hq⟩ := hon
      refine .later ⟨by simp [hs], hq, hf⟩ fun i => .here ?_
      rw [rcv_checkPkt hs, hf, if_pos hk]
      cases hbw : f.dnsBW with
      | false =>
          rw [if_pos rfl]
          exact .inl ⟨by simp [dnsPasses, StageAccepts, hbw, hmiss], rfl, hf, rfl, by rw [← ht]; rfl⟩
      | true =>
          rw [if_neg (by decide)]
          exact .inr ⟨by simp [dnsPasses, StageAccepts, hbw, hmiss], rfl, hf, rfl, ht⟩
  | succ left ih =>
      refine .later ⟨by simp [hs], hon.quiet, hon.filter⟩ fun i => ?_
      have hscan := scan_until (g := g) (h8 k) hon hs hk (by omega) i
      refine (hscan.mono (fun _ => scanning_working) fun _ h => h).trans ?_
      rintro st' ⟨hon', ⟨hm, hs'⟩ | ⟨hm, hs', hk'⟩⟩
      · -- item `k` matches
        have hhas : ∃ j < f.dnsLength, ItemMatches f rd j := ⟨k, by omega, hm⟩
        obtain ⟨hf, hrd, ht, hq⟩ := hon'
        refine .later ⟨by simp [hs'], hq, hf⟩ fun i' => .here ?_
        rw [rcv_filterPkt hs', hf]
        cases hbw : f.dnsBW with
        | false =>
            rw [if_pos rfl]
            exact .inr ⟨by simp [dnsPasses, StageAccepts, hbw, hhas], rfl, hf, rfl, ht⟩
        | true =>
            rw [if_neg (by decide)]
            exact .inl ⟨by simp [dnsPasses, StageAccepts, hbw, hhas], rfl, hf, rfl, by rw [← ht]; rfl⟩
      · refine ih hon' hs' hk' (by omega) ?_ (by omega)
        intro j hj
        rcases Nat.eq_or_lt_of_le (Nat.le_of_lt_succ hj) with rfl | hlt
        · exact hm
        · exact hno j hlt

theorem dns_route (h8 : ∀ i, 8 ∣ f.endPtr i) :
    RouteFrom g f rd .checkPkt (·.fdnsc) (dnsPasses f rd)
      (fun t => if dnsPasses f rd then t.addSfc else t) := by
  intro t st hon hs hk
  refine (dns_until_left h8 hon hs hk (Nat.zero_le _) (by simp)).trans fun st' hleft => ?_
  rcases hleft with ⟨hp, hs', hf, hq, ht⟩ | ⟨hp, hv⟩
  · simp only [hp, if_true]
    exact reply_until hs' hf hq ht
  · simp only [hp, Bool.false_eq_true, if_false]
    exact .here hv

/-! ## The whole route -/

/-- The verdict on a packet, computed. -/
def Filter.accepts (f : Filter) (rd : RcvData) : Bool :=
  srcMACStage.passes f rd && (dstMACStage.passes f rd && (srcIPStage.passes f rd &&
    (dstIPStage.passes f rd && (srcPortStage.passes f rd && (dstPortStage.passes f rd &&
      dnsPasses f rd)))))

/-- Where the route from `CheckSrcMAC` takes the counters. -/
def Filter.count (f : Filter) (rd : RcvData) (t : Tally) : Tally :=
  if srcMACStage.passes f rd then
    if dstMACStage.passes f rd then
      if srcIPStage.passes f rd then
        if dstIPStage.passes f rd then
          if srcPortStage.passes f rd then
            if dstPortStage.passes f rd then
              if dnsPasses f rd then t.addSmc.addSic.addSpc.addSfc else t.addSmc.addSic.addSpc
            else t.addSmc.addSic
          else t.addSmc.addSic
        else t.addSmc
      else t.addSmc
    else t
  else t

theorem filter_route (h8 : ∀ i, 8 ∣ f.endPtr i) :
    RouteFrom g f rd .checkSrcMAC (·.fsmc) (f.accepts rd) (f.count rd) :=
  Stage.route srcMACStage_lawful id (fun _ => ⟨rfl, rfl, rfl⟩)
    (Stage.route dstMACStage_lawful Tally.addSmc (fun _ => ⟨rfl, rfl, rfl⟩)
      (Stage.route srcIPStage_lawful id (fun _ => ⟨rfl, rfl, rfl⟩)
        (Stage.route dstIPStage_lawful Tally.addSic (fun _ => ⟨rfl, rfl, rfl⟩)
          (Stage.route srcPortStage_lawful id (fun _ => ⟨rfl, rfl, rfl⟩)
            (Stage.route dstPortStage_lawful Tally.addSpc (fun _ => ⟨rfl, rfl, rfl⟩)
              (dns_route h8))))))

theorem rcv_checkAdmin {i : RcvIn} (h : st.s.s = .checkAdmin) : rcv g st i =
    if st.rd.dstMAC = g.adminMac then
      { st.tick i with s.led := 0xf, s.s := .startHash, s.pc := 0 }
    else { st.tick i with s.s := .checkQuery } := by
  unfold rcv
  rw [h]
  rfl

theorem rcv_checkQuery {i : RcvIn} (h : st.s.s = .checkQuery) : rcv g st i =
    if st.rd.dstMAC = g.queryMac then { st.tick i with s.s := .replyQueryHeader }
    else { st.tick i with s.s := .checkSrcMAC, s.stc := st.s.stc + 1, s.fsmc := 0 } := by
  unfold rcv
  rw [h]
  rfl

/-- From `CheckAdmin` to the verdict, for a packet of the filter route. -/
theorem route_until (h8 : ∀ i, 8 ∣ f.endPtr i) (hadmin : rd.dstMAC ≠ g.adminMac)
    (hquery : rd.dstMAC ≠ g.queryMac) (hon : On f rd t st) (hs : st.s.s = .checkAdmin) :
    Until (rcv g) (Working f) (Verdict f (f.accepts rd) (f.count rd t.addStc)) st := by
  obtain ⟨hf, hrd, ht, hq⟩ := hon
  refine .later ⟨by simp [hs], hq, hf⟩ fun i => ?_
  rw [rcv_checkAdmin hs, hrd, if_neg hadmin]
  refine .later ⟨nofun, rfl, hf⟩ fun i' => ?_
  rw [rcv_checkQuery rfl, Core.tick_rd, hrd, if_neg hquery]
  exact filter_route h8 t.addStc _ ⟨hf, hrd, by rw [← ht]; rfl, rfl⟩ rfl rfl

theorem accepts_iff (h8 : ∀ i, 8 ∣ f.endPtr i) : f.accepts rd = true ↔ Accepts g f rd := by
  have hdns : (∃ k < f.dnsLength, ItemMatches f rd k) ↔ ∃ k < f.dnsLength, ScanMatches g f rd k := by
    refine exists_congr fun k => and_congr_right fun hk => ?_
    exact (scanMatches_iff (h8 k) (Nat.ne_of_lt hk)).symm
  constructor
  · intro h
    simp only [Filter.accepts, Stage.passes, dnsPasses, Bool.and_eq_true, decide_eq_true_eq] at h
    obtain ⟨h₁, h₂, h₃, h₄, h₅, h₆, h₇⟩ := h
    exact ⟨h₁, h₂, h₃, h₄, h₅, h₆, by rwa [StageAccepts, ← hdns]⟩
  · rintro ⟨h₁, h₂, h₃, h₄, h₅, h₆, h₇⟩
    simp only [Filter.accepts, Stage.passes, dnsPasses, Bool.and_eq_true, decide_eq_true_eq]
    exact ⟨h₁, h₂, h₃, h₄, h₅, h₆, by rwa [StageAccepts, hdns]⟩

/-! ## In the entity -/

theorem rcv_idle {i : RcvIn} (h : st.s.s = .idle) (hdv : i.elRcvDv = true) :
    rcv g st i = { st.tick i with s.s := .read } := by
  unfold rcv
  rw [h]
  simp only [hdv, if_true]
  rfl

theorem rcv_read {i : RcvIn} (h : st.s.s = .read) :
    rcv g st i = { st.tick i with rd := i.elRcvData, elRcvAck := true, s.s := .checkAdmin } := by
  unfold rcv
  rw [h]
  rfl

/-- The two periods up to `CheckAdmin`. -/
theorem read_on (hidle : st.s.s = .idle) (wires : Nat → RcvIn) (hdv : (wires 0).elRcvDv = true) :
    let tr := trace (rcv g) st wires
    (Working st.f (tr 1) ∧ (tr 1).s.s = .read) ∧
      On st.f (wires 1).elRcvData st.s.tally (tr 2) ∧ (tr 2).s.s = .checkAdmin := by
  intro tr
  have hone : tr 1 = { st.tick (wires 0) with s.s := .read } := by
    show trace (rcv g) st wires 1 = _
    rw [trace_succ, trace_zero, rcv_idle hidle hdv]
  have htwo : tr 2 = { Core.tick (tr 1) (wires 1) with
      rd := (wires 1).elRcvData, elRcvAck := true, s.s := .checkAdmin } := by
    show rcv g (tr 1) (wires 1) = _
    rw [rcv_read (by rw [hone])]
  rw [htwo, hone]
  exact ⟨⟨⟨nofun, rfl, rfl⟩, rfl⟩, ⟨rfl, rfl, rfl, rfl⟩, rfl⟩

/-- The process runs inside the entity as it does on its own. -/
theorem core_trace (g : Generics) (st : Corein) (inp : Nat → CoreinIn) (n : Nat) :
    (trace (Corein.cycle g) st inp n).core =
      trace (rcv g) st.core (fun t => (trace (Corein.cycle g) st inp t).rcvIn (inp t)) n :=
  trace_proj (rcv g) Corein.core Corein.rcvIn (fun _ _ => rfl) st inp n

/-- **The filter verdict.**  Whatever an idle `corein` was left with by earlier packets,
a packet that is neither an administrator's nor a query takes it back to `Idle` with
exactly one `snd_en` pulse if all seven stages accept it and none otherwise, and `f`
is the same throughout. -/
theorem corein_verdict (g : Generics) (st : Corein) (inp : Nat → CoreinIn)
    (hidle : st.core.s.s = .idle) (hf : st.core.f.InRange) (hdv : (inp 0).elRcvDv = true)
    (hadmin : (inp 1).elRcvData.dstMAC ≠ g.adminMac)
    (hquery : (inp 1).elRcvData.dstMAC ≠ g.queryMac) :
    ∃ n, 1 < n ∧ (trace (Corein.cycle g) st inp n).core.s.s = .idle ∧
      (trace (Corein.cycle g) st inp 1).core.s.s = .read ∧
      (∀ t, 0 < t → t < n → (trace (Corein.cycle g) st inp t).core.s.s ≠ .idle) ∧
      (∀ t, t ≤ n → (trace (Corein.cycle g) st inp t).core.f = st.core.f) ∧
      (Accepts g st.core.f (inp 1).elRcvData →
        pulses (Corein.cycle g) (·.core.sndEn) st inp n = 1) ∧
      (¬ Accepts g st.core.f (inp 1).elRcvData →
        pulses (Corein.cycle g) (·.core.sndEn) st inp n = 0) := by
  obtain ⟨wires, hwires⟩ : ∃ wires : Nat → RcvIn,
      wires = fun t => (trace (Corein.cycle g) st inp t).rcvIn (inp t) := ⟨_, rfl⟩
  have hcore : ∀ n, (trace (Corein.cycle g) st inp n).core = trace (rcv g) st.core wires n := by
    intro n
    rw [hwires]
    exact core_trace g st inp n
  have hdv' : (wires 0).elRcvDv = true := by rw [hwires]; exact hdv
  have hdata : (wires 1).elRcvData = (inp 1).elRcvData := by rw [hwires]; rfl
  obtain ⟨⟨hwork₁, hread⟩, hon, hcheck⟩ := read_on (g := g) hidle wires hdv'
  rw [hdata] at hon
  -- and the route from there
  obtain ⟨m, hv, hwork⟩ := (route_until hf.endPtr_dvd hadmin hquery hon hcheck).exists_trace
    (fun t => wires (2 + t))
  simp only [← trace_add] at hv hwork
  have hbusy : ∀ t, 0 < t → t < 2 + m → Working st.core.f (trace (rcv g) st.core wires t) := by
    intro t h0 ht
    rcases Nat.lt_or_ge t 2 with hlt | hge
    · obtain rfl : t = 1 := by omega
      exact hwork₁
    · have := hwork (t - 2) (by omega)
      rwa [show 2 + (t - 2) = t by omega] at this
  have hpulses : pulses (Corein.cycle g) (·.core.sndEn) st inp (2 + m) =
      if st.core.f.accepts (inp 1).elRcvData then 1 else 0 := by
    rw [show 2 + m = 1 + m + 1 by omega, pulses_of_quiet]
    · rw [hcore, show 1 + m + 1 = 2 + m by omega, hv.sndEn]
    · intro t h0 ht
      rw [hcore]
      exact (hbusy t h0 (by omega)).2.1
  have hacc : st.core.f.accepts (inp 1).elRcvData = true ↔ Accepts g st.core.f (inp 1).elRcvData :=
    accepts_iff hf.endPtr_dvd
  refine ⟨2 + m, by omega, ?_, ?_, ?_, ?_, ?_, ?_⟩
  · rw [hcore, hv.idle]
  · rw [hcore, hread]
  · intro t h0 ht
    rw [hcore]
    exact (hbusy t h0 ht).1
  · intro t ht
    rw [hcore]
    rcases Nat.eq_zero_or_pos t with rfl | h0
    · rfl
    · rcases Nat.eq_or_lt_of_le ht with rfl | hlt
      · exact hv.filter
      · exact (hbusy t h0 hlt).2.2
  · intro ha
    rw [hpulses, hacc.mpr ha, if_pos rfl]
  · intro ha
    rw [hpulses, if_neg fun h => ha (hacc.mp h)]

/-- A packet the power-on filter accepts. -/
def acceptedAtPowerOn : RcvData :=
  { RcvData.zero with srcMAC := 0xae295f290c00, srcPort := 0x3500, dstPort := 0x3500 }

theorem corein_verdict_power_on : ∃ n, 1 < n ∧
    pulses (Corein.cycle {}) (·.core.sndEn) Corein.init (fun _ => ⟨acceptedAtPowerOn, true⟩) n = 1 := by
  have hacc : Accepts {} Corein.init.core.f acceptedAtPowerOn :=
    (accepts_iff Filter.init_inRange.endPtr_dvd).mp (by decide +kernel)
  obtain ⟨n, hn, _, _, _, _, h, _⟩ := corein_verdict {} Corein.init
    (fun _ => ⟨acceptedAtPowerOn, true⟩) rfl Filter.init_inRange rfl (by decide) (by decide)
  exact ⟨n, hn, h hacc⟩

end DnsAdtm.Hw
