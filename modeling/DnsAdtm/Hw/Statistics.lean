/-
# `Hw.Statistics` — the five counters

`stc`, `smc`, `sic`, `spc` and `sfc` count packets.  The log of a run (`Corein.log`) says what
they count: one entry for each packet read, with the filter it was read under and whether
`snd_en` came up for it.  Nothing is assumed of the filters, so the route need not end: the
invariant (`Counting`) follows it state by state, and what has been counted of the packet on
the route is what its entry will stand for once the packet has left it.

    Stage.running_step   one period of a list stage
    counting_step        one period of the process
    statistics           the counters of a run
-/
import DnsAdtm.Hw.CoreinAuth
import DnsAdtm.Hw.Processors

namespace DnsAdtm.Hw

open Machine

variable {w : Nat} {g : Generics} {f : Filter} {rd : RcvData} {t : Tally} {st : Core} {i : RcvIn}

/-! ## The log -/

/-- Both MAC stages accept the packet, -/
def Filter.passesMAC (f : Filter) (rd : RcvData) : Bool :=
  srcMACStage.passes f rd && dstMACStage.passes f rd

/-- both IP stages, too, -/
def Filter.passesIP (f : Filter) (rd : RcvData) : Bool :=
  f.passesMAC rd && (srcIPStage.passes f rd && dstIPStage.passes f rd)

/-- and both port stages. -/
def Filter.passesPort (f : Filter) (rd : RcvData) : Bool :=
  f.passesIP rd && (srcPortStage.passes f rd && dstPortStage.passes f rd)

/-- A packet read, the filter in force, and whether `snd_en` came up for it. -/
structure Entry where
  filter : Filter
  packet : RcvData
  sent : Bool

/-- `snd_en` comes up for the packet read last. -/
def markSent : List Entry → List Entry
  | [] => []
  | e :: log => { e with sent := true } :: log

/-- What a period from `st` to `st'` adds: the packet read, and `snd_en`. -/
def logged (st : Core) (i : RcvIn) (st' : Core) (log : List Entry) : List Entry :=
  let log := if st.s.s = .read then ⟨st.f, i.elRcvData, false⟩ :: log else log
  if st'.sndEn then markSent log else log

/-- The log of the first `n` periods, the last packet first. -/
def Corein.log (g : Generics) (inp : Nat → CoreinIn) : Nat → List Entry
  | 0 => []
  | n + 1 =>
    let st := trace (Corein.cycle g) .init inp n
    logged st.core (st.rcvIn (inp n)) (st.cycle g (inp n)).core (Corein.log g inp n)

namespace Entry

variable (g : Generics) (e : Entry)

/-- Neither the administrator's nor a query. -/
def normal : Bool := decide (e.packet.dstMAC ≠ g.adminMac ∧ e.packet.dstMAC ≠ g.queryMac)

/-- Past both MAC stages, -/
def passedMAC : Bool := e.normal g && e.filter.passesMAC e.packet

/-- both IP stages, -/
def passedIP : Bool := e.normal g && e.filter.passesIP e.packet

/-- and both port stages. -/
def passedPort : Bool := e.normal g && e.filter.passesPort e.packet

/-- Sent, and not a probe reply. -/
def sentOn : Bool := e.sent && decide (e.packet.dstMAC ≠ g.queryMac)

end Entry

/-- The counters the log stands for. -/
def tallyOf (g : Generics) (log : List Entry) : Tally where
  stc := BitVec.ofNat 64 (log.countP (Entry.normal g))
  sfc := BitVec.ofNat 64 (log.countP (Entry.sentOn g))
  smc := BitVec.ofNat 64 (log.countP (Entry.passedMAC g))
  sic := BitVec.ofNat 64 (log.countP (Entry.passedIP g))
  spc := BitVec.ofNat 64 (log.countP (Entry.passedPort g))

/-- What one packet adds to the counters. -/
def Tally.bump (t : Tally) (total sent mac ip port : Bool) : Tally where
  stc := t.stc + BitVec.ofNat 64 total.toNat
  sfc := t.sfc + BitVec.ofNat 64 sent.toNat
  smc := t.smc + BitVec.ofNat 64 mac.toNat
  sic := t.sic + BitVec.ofNat 64 ip.toNat
  spc := t.spc + BitVec.ofNat 64 port.toNat

theorem tallyOf_cons (e : Entry) (log : List Entry) : tallyOf g (e :: log) =
    (tallyOf g log).bump (e.normal g) (e.sentOn g) (e.passedMAC g) (e.passedIP g) (e.passedPort g) := by
  have hcount (p : Entry → Bool) : BitVec.ofNat 64 ((e :: log).countP p) =
      BitVec.ofNat 64 (log.countP p) + BitVec.ofNat 64 (p e).toNat := by
    rw [List.countP_cons, ← BitVec.ofNat_add]
    cases p e <;> rfl
  simp only [tallyOf, Tally.bump, hcount]

/-! ## A list stage -/

/-- In one of the three states of a list stage, none of the entries compared so far being the
packet's value. -/
inductive Stage.Running (S : Stage w) (f : Filter) (rd : RcvData) (t : Tally) (st : Core) : Prop
  | check {k : Nat} : S.At S.check k f rd t st → k ≤ S.length f →
      (∀ j < k, (S.list f).at j ≠ S.value rd) → S.Running f rd t st
  | cmp {k : Nat} : S.At S.cmp k f rd t st → k < S.length f →
      (∀ j < k, (S.list f).at j ≠ S.value rd) → S.Running f rd t st
  | hit {k : Nat} : S.At S.hit k f rd t st → k < S.length f → S.value rd = (S.list f).at k →
      S.Running f rd t st

/-- One period of a list stage: it goes on, or is left with its decision. -/
theorem Stage.running_step {S : Stage w} (hS : S.Lawful) (h : S.Running f rd t st) :
    S.Running f rd t (rcv g st i) ∨ S.Left f rd t (rcv g st i) := by
  cases h with
  | @check k hat hle hno =>
      by_cases hk : k = S.length f
      · subst hk
        right
        have hmiss : ¬ OnList (S.length f) (S.list f) (S.value rd) := fun ⟨j, hj, heq⟩ => hno j hj heq
        cases hbw : S.bw f with
        | false => exact .inl ⟨by simp [Stage.passes, StageAccepts, hbw, hmiss], check_pass hS hat hbw⟩
        | true => exact .inr ⟨by simp [Stage.passes, StageAccepts, hbw, hmiss], check_ban hS hat hbw⟩
      · exact .inl (.cmp (check_more hS hat hk) (by omega) hno)
  | @cmp k hat hlt hno =>
      left
      by_cases heq : S.value rd = (S.list f).at k
      · exact .hit (cmp_hit hS hat heq) hlt heq
      · refine .check (cmp_miss hS hat heq) hlt fun j hj => ?_
        rcases Nat.eq_or_lt_of_le (Nat.le_of_lt_succ hj) with rfl | hlt'
        · exact fun hat => heq hat.symm
        · exact hno j hlt'
  | @hit k hat hlt heq =>
      right
      have hhas : OnList (S.length f) (S.list f) (S.value rd) := ⟨k, hlt, heq.symm⟩
      cases hbw : S.bw f with
      | false => exact .inr ⟨by simp [Stage.passes, StageAccepts, hbw, hhas], hit_ban hS hat hbw⟩
      | true => exact .inl ⟨by simp [Stage.passes, StageAccepts, hbw, hhas], hit_pass hS hat hbw⟩

theorem Stage.Running.quiet {S : Stage w} (h : S.Running f rd t st) : st.sndEn = false := by
  cases h with
  | check hat _ _ | cmp hat _ _ | hit hat _ _ => exact hat.quiet

theorem Stage.Running.s {S : Stage w} (h : S.Running f rd t st) :
    st.s.s = S.check ∨ st.s.s = S.cmp ∨ st.s.s = S.hit := by
  cases h with
  | check hat _ _ => exact .inl hat.s
  | cmp hat _ _ => exact .inr (.inl hat.s)
  | hit hat _ _ => exact .inr (.inr hat.s)

/-- The next stage starts where the one before it is passed. -/
theorem Stage.Passed.next {w' : Nat} {S : Stage w} {S' : Stage w'} {bump : Tally → Tally}
    (h : S.Passed f rd t st)
    (hpass : ∀ s, (S.pass s).s = S'.check ∧ S'.get (S.pass s) = 0 ∧ (S.pass s).tally = bump s.tally) :
    S'.Running f rd (bump t) st := by
  obtain ⟨s, ht, hs, hf, hrd, hq⟩ := h
  obtain ⟨hchk, hget, hbump⟩ := hpass s
  exact .check ⟨⟨hf, hrd, by rw [hs, hbump, ht], hq⟩, by rw [hs, hchk], by rw [hs, hget]⟩ (Nat.zero_le _)
    (by simp)

/-! ## The DNS stage and the reply -/

/-- The states of the DNS stage. -/
def dnsStates : List CoreState := .checkPkt :: .filterPkt :: scanStates

/-- The states behind it, up to `Send`. -/
def replyStates : List CoreState := [.setDNSReplyHeader, .setDNSReplyCount, .setDefaultMAC, .send]

theorem rcv_dns (h : st.s.s ∈ dnsStates) (hon : On f rd t st) :
    (On f rd t (rcv g st i) ∧ (rcv g st i).s.s ∈ dnsStates) ∨
      ((rcv g st i).s.s = .setDNSReplyHeader ∧ (rcv g st i).f = f ∧ (rcv g st i).sndEn = false ∧
        (rcv g st i).s.tally = t.addSfc) ∨
      Verdict f false t (rcv g st i) := by
  obtain ⟨rfl, rfl, rfl, hq⟩ := hon
  unfold rcv
  cases hs : st.s.s <;> rw [hs] at h <;> first | exact absurd h (by decide) | skip
  all_goals
    dsimp only [cmpPktArea]
    split_ifs <;> first
      | exact .inl ⟨⟨rfl, rfl, rfl, rfl⟩, of_decide_eq_true rfl⟩
      | exact .inr (.inl ⟨rfl, rfl, rfl, rfl⟩)
      | exact .inr (.inr ⟨rfl, rfl, rfl, rfl⟩)

theorem rcv_reply (h : st.s.s ∈ replyStates) :
    (rcv g st i).s.tally = st.s.tally ∧ (rcv g st i).f = st.f ∧
      (((rcv g st i).s.s ∈ replyStates ∧ (rcv g st i).sndEn = false) ∨
        ((rcv g st i).s.s = .idle ∧ (rcv g st i).sndEn = true)) := by
  unfold rcv
  cases hs : st.s.s <;> rw [hs] at h <;> first | exact absurd h (by decide) | skip
  all_goals
    dsimp only
    try split
    all_goals first
      | exact ⟨rfl, rfl, .inl ⟨of_decide_eq_true rfl, rfl⟩⟩
      | exact ⟨rfl, rfl, .inr ⟨rfl, rfl⟩⟩

/-! ## A packet on the route -/

/-- What has been counted of a packet on the filter route, from the counters `t`. -/
inductive Judging (f : Filter) (rd : RcvData) (t : Tally) (st : Core) : Prop
  | srcMAC : srcMACStage.Running f rd (t.bump true false false false false) st → Judging f rd t st
  | dstMAC : srcMACStage.passes f rd = true →
      dstMACStage.Running f rd (t.bump true false false false false) st → Judging f rd t st
  | srcIP : f.passesMAC rd = true →
      srcIPStage.Running f rd (t.bump true false true false false) st → Judging f rd t st
  | dstIP : f.passesMAC rd = true → srcIPStage.passes f rd = true →
      dstIPStage.Running f rd (t.bump true false true false false) st → Judging f rd t st
  | srcPort : f.passesIP rd = true →
      srcPortStage.Running f rd (t.bump true false true true false) st → Judging f rd t st
  | dstPort : f.passesIP rd = true → srcPortStage.passes f rd = true →
      dstPortStage.Running f rd (t.bump true false true true false) st → Judging f rd t st
  | dns : f.passesPort rd = true → On f rd (t.bump true false true true true) st →
      st.s.s ∈ dnsStates → Judging f rd t st
  | reply : f.passesPort rd = true → st.s.tally = t.bump true true true true true →
      st.sndEn = false → st.s.s ∈ replyStates → Judging f rd t st

theorem Judging.quiet (h : Judging f rd t st) : st.sndEn = false := by
  cases h with
  | srcMAC h => exact h.quiet
  | dstMAC _ h | srcIP _ h | srcPort _ h => exact h.quiet
  | dstIP _ _ h | dstPort _ _ h => exact h.quiet
  | dns _ hon _ => exact hon.quiet
  | reply _ _ hq _ => exact hq

theorem Judging.phase (h : Judging f rd t st) :
    st.s.s.phase = .filtering ∨ st.s.s.phase = .sending := by
  cases h with
  | srcMAC h | dstMAC _ h | srcIP _ h | srcPort _ h | dstIP _ _ h | dstPort _ _ h =>
      rcases h.s with hs | hs | hs <;> exact .inl (congrArg CoreState.phase hs)
  | dns _ _ hs | reply _ _ _ hs =>
      cases hs' : st.s.s <;> rw [hs'] at hs <;> first | exact absurd hs (by decide) | decide

/-- The counters so far. -/
theorem Judging.counted (h : Judging f rd t st) : ∃ sent mac ip port : Bool,
    st.s.tally = t.bump true sent mac ip port ∧ (sent → port) ∧ (port → ip) ∧ (ip → mac) := by
  have hrun {w : Nat} {S : Stage w} {t' : Tally} (h : S.Running f rd t' st) : st.s.tally = t' := by
    cases h with
    | check hat _ _ | cmp hat _ _ | hit hat _ _ => exact hat.tally
  cases h with
  | srcMAC h | dstMAC _ h => exact ⟨_, _, _, _, hrun h, nofun, nofun, nofun⟩
  | srcIP _ h | dstIP _ _ h => exact ⟨_, _, _, _, hrun h, nofun, nofun, fun _ => rfl⟩
  | srcPort _ h | dstPort _ _ h => exact ⟨_, _, _, _, hrun h, nofun, fun _ => rfl, fun _ => rfl⟩
  | dns _ hon _ => exact ⟨_, _, _, _, hon.tally, nofun, fun _ => rfl, fun _ => rfl⟩
  | reply _ ht _ _ => exact ⟨_, _, _, _, ht, fun _ => rfl, fun _ => rfl, fun _ => rfl⟩

/-- What has been counted of it in the end. -/
structure Judged (f : Filter) (rd : RcvData) (t : Tally) (st : Core) : Prop where
  idle : st.s.s = .idle
  tally : st.s.tally = t.bump true st.sndEn (f.passesMAC rd) (f.passesIP rd) (f.passesPort rd)
  sent : st.sndEn = true → f.passesPort rd = true

theorem Filter.passesIP_mac (h : f.passesIP rd = true) : f.passesMAC rd = true :=
  (Bool.and_eq_true _ _ ▸ h).1

theorem Filter.passesPort_ip (h : f.passesPort rd = true) : f.passesIP rd = true :=
  (Bool.and_eq_true _ _ ▸ h).1

theorem Filter.passesIP_of_mac (h : f.passesMAC rd = false) : f.passesIP rd = false := by
  rw [Filter.passesIP, h, Bool.false_and]

theorem Filter.passesPort_of_ip (h : f.passesIP rd = false) : f.passesPort rd = false := by
  rw [Filter.passesPort, h, Bool.false_and]

/-- A packet a stage rejects is judged. -/
theorem judged_of_verdict {mac ip port : Bool}
    (h : Verdict f false (t.bump true false mac ip port) st) (hmac : f.passesMAC rd = mac)
    (hip : f.passesIP rd = ip) (hport : f.passesPort rd = port) : Judged f rd t st := by
  refine ⟨h.idle, ?_, fun hsent => ?_⟩
  · rw [h.tally, h.sndEn, hmac, hip, hport]
  · rw [h.sndEn] at hsent
    cases hsent

theorem Tally.addSmc_bump : (t.bump true false false false false).addSmc = t.bump true false true false false := by
  simp [Tally.addSmc, Tally.bump]

theorem Tally.addSic_bump : (t.bump true false true false false).addSic = t.bump true false true true false := by
  simp [Tally.addSic, Tally.bump]

theorem Tally.addSpc_bump : (t.bump true false true true false).addSpc = t.bump true false true true true := by
  simp [Tally.addSpc, Tally.bump]

theorem Tally.addSfc_bump : (t.bump true false true true true).addSfc = t.bump true true true true true := by
  simp [Tally.addSfc, Tally.bump]

/-- One period of the route. -/
theorem judging_step (h : Judging f rd t st) :
    Judging f rd t (rcv g st i) ∨ Judged f rd t (rcv g st i) := by
  cases h with
  | srcMAC hrun =>
      rcases Stage.running_step (g := g) (i := i) srcMACStage_lawful hrun with
        hrun | ⟨hp, hpassed⟩ | ⟨hp, hv⟩
      · exact .inl (.srcMAC hrun)
      · exact .inl (.dstMAC hp (hpassed.next fun s => ⟨rfl, rfl, (rfl : _ = id s.tally)⟩))
      · have hmac : f.passesMAC rd = false := by rw [Filter.passesMAC, hp, Bool.false_and]
        exact .inr (judged_of_verdict hv hmac (Filter.passesIP_of_mac hmac)
          (Filter.passesPort_of_ip (Filter.passesIP_of_mac hmac)))
  | dstMAC hp₁ hrun =>
      rcases Stage.running_step (g := g) (i := i) dstMACStage_lawful hrun with
        hrun | ⟨hp, hpassed⟩ | ⟨hp, hv⟩
      · exact .inl (.dstMAC hp₁ hrun)
      · refine .inl (.srcIP (by rw [Filter.passesMAC, hp₁, hp]; rfl) ?_)
        rw [← Tally.addSmc_bump]
        exact hpassed.next fun _ => ⟨rfl, rfl, rfl⟩
      · have hmac : f.passesMAC rd = false := by rw [Filter.passesMAC, hp, Bool.and_false]
        exact .inr (judged_of_verdict hv hmac (Filter.passesIP_of_mac hmac)
          (Filter.passesPort_of_ip (Filter.passesIP_of_mac hmac)))
  | srcIP hmac hrun =>
      rcases Stage.running_step (g := g) (i := i) srcIPStage_lawful hrun with
        hrun | ⟨hp, hpassed⟩ | ⟨hp, hv⟩
      · exact .inl (.srcIP hmac hrun)
      · exact .inl (.dstIP hmac hp (hpassed.next fun s => ⟨rfl, rfl, (rfl : _ = id s.tally)⟩))
      · have hip : f.passesIP rd = false := by rw [Filter.passesIP, hp, Bool.false_and, Bool.and_false]
        exact .inr (judged_of_verdict hv hmac hip (Filter.passesPort_of_ip hip))
  | dstIP hmac hp₁ hrun =>
      rcases Stage.running_step (g := g) (i := i) dstIPStage_lawful hrun with
        hrun | ⟨hp, hpassed⟩ | ⟨hp, hv⟩
      · exact .inl (.dstIP hmac hp₁ hrun)
      · refine .inl (.srcPort (by rw [Filter.passesIP, hmac, hp₁, hp]; rfl) ?_)
        rw [← Tally.addSic_bump]
        exact hpassed.next fun _ => ⟨rfl, rfl, rfl⟩
      · have hip : f.passesIP rd = false := by rw [Filter.passesIP, hp, Bool.and_false, Bool.and_false]
        exact .inr (judged_of_verdict hv hmac hip (Filter.passesPort_of_ip hip))
  | srcPort hip hrun =>
      rcases Stage.running_step (g := g) (i := i) srcPortStage_lawful hrun with
        hrun | ⟨hp, hpassed⟩ | ⟨hp, hv⟩
      · exact .inl (.srcPort hip hrun)
      · exact .inl (.dstPort hip hp (hpassed.next fun s => ⟨rfl, rfl, (rfl : _ = id s.tally)⟩))
      · refine .inr (judged_of_verdict hv (Filter.passesIP_mac hip) hip ?_)
        rw [Filter.passesPort, hp, Bool.false_and, Bool.and_false]
  | dstPort hip hp₁ hrun =>
      rcases Stage.running_step (g := g) (i := i) dstPortStage_lawful hrun with
        hrun | ⟨hp, hpassed⟩ | ⟨hp, hv⟩
      · exact .inl (.dstPort hip hp₁ hrun)
      · obtain ⟨s, ht, hs, hf, hrd, hq⟩ := hpassed
        refine .inl (.dns (by rw [Filter.passesPort, hip, hp₁, hp]; rfl) ⟨hf, hrd, ?_, hq⟩ ?_)
        · rw [← Tally.addSpc_bump, ← ht, hs]
          rfl
        · rw [hs]
          exact List.mem_cons_self ..
      · refine .inr (judged_of_verdict hv (Filter.passesIP_mac hip) hip ?_)
        rw [Filter.passesPort, hp, Bool.and_false, Bool.and_false]
  | dns hport hon hs =>
      rcases rcv_dns (g := g) (i := i) hs hon with ⟨hon, hs⟩ | ⟨hs, -, hq, ht⟩ | hv
      · exact .inl (.dns hport hon hs)
      · refine .inl (.reply hport (ht.trans Tally.addSfc_bump) hq ?_)
        rw [hs]
        exact List.mem_cons_self ..
      · have hip := Filter.passesPort_ip hport
        exact .inr (judged_of_verdict hv (Filter.passesIP_mac hip) hip hport)
  | reply hport ht hq hs =>
      obtain ⟨ht', -, ⟨hs, hq⟩ | ⟨hidle, hsent⟩⟩ := rcv_reply (g := g) (i := i) hs
      · exact .inl (.reply hport (ht'.trans ht) hq hs)
      · have hip := Filter.passesPort_ip hport
        refine .inr ⟨hidle, ?_, fun _ => hport⟩
        rw [ht', ht, hsent, Filter.passesIP_mac hip, hip, hport]

/-! ## The invariant -/

/-- Off the filter route the counters stand still. -/
theorem rcv_tally (h : st.s.s.phase ≠ .filtering) (hasked : st.s.s.phase ≠ .asked) :
    (rcv g st i).s.tally = st.s.tally := by
  unfold rcv
  cases hs : st.s.s <;> rw [hs] at h hasked <;>
    first | exact absurd rfl h | exact absurd rfl hasked | skip
  all_goals first
    | rfl
    | (refine listState_cases (fun st' => st'.s.tally = st.s.tally) ?_ ?_ ?_ <;> exact fun _ => rfl)
    | (dsimp only; split <;> rfl)

/-- The phases of the administrator's route. -/
def adminPhases : List Phase := [.starting, .waiting, .checking, .updating]

theorem rcv_adminRoute (h : st.s.s.phase ∈ adminPhases) :
    (rcv g st i).s.s.phase ∈ adminPhases ∨ (rcv g st i).s.s = .idle := by
  unfold rcv
  cases hs : st.s.s <;> rw [hs] at h <;> first | exact absurd h (by decide) | skip
  all_goals first
    | exact .inl (of_decide_eq_true rfl)
    | exact .inr rfl
    | (refine listState_cases (fun st' => st'.s.s.phase ∈ adminPhases ∨ st'.s.s = .idle) ?_ ?_ ?_ <;>
       intro _ <;> left <;>
        first | exact of_decide_eq_true rfl | (show st.s.s.phase ∈ _; rw [hs]; decide))
    | (dsimp only; split <;> first | exact .inl (of_decide_eq_true rfl) | exact .inr rfl)

/-- What the counters stand at, after the packets of the log have been read. -/
inductive Counting (g : Generics) : List Entry → Core → Prop
  | resting {log : List Entry} {st : Core} : st.s.s = .idle ∨ st.s.s = .read →
      st.s.tally = tallyOf g log → Counting g log st
  | addressed {e : Entry} {log : List Entry} {st : Core} : st.s.s = .checkAdmin → st.rd = e.packet →
      st.f = e.filter → e.sent = false → st.s.tally = tallyOf g log → Counting g (e :: log) st
  | asked {e : Entry} {log : List Entry} {st : Core} : st.s.s = .checkQuery → st.rd = e.packet →
      st.f = e.filter → e.sent = false → e.packet.dstMAC ≠ g.adminMac →
      st.s.tally = tallyOf g log → Counting g (e :: log) st
  | querying {e : Entry} {log : List Entry} {st : Core} :
      st.s.s.phase = .querying ∨ st.s.s.phase = .sending → e.packet.dstMAC = g.queryMac →
      st.s.tally = tallyOf g (e :: log) → Counting g (e :: log) st
  | updating {e : Entry} {log : List Entry} {st : Core} : st.s.s.phase ∈ adminPhases →
      st.s.tally = tallyOf g (e :: log) → Counting g (e :: log) st
  | judging {e : Entry} {log : List Entry} {st : Core} : e.normal g = true → e.sent = false →
      Judging e.filter e.packet (tallyOf g log) st → Counting g (e :: log) st

/-- No packet is sent on but past the port stages. -/
def Fair (g : Generics) (log : List Entry) : Prop := ∀ e ∈ log, e.sentOn g = true → e.passedPort g = true

theorem logged_quiet {log : List Entry} (hread : st.s.s ≠ .read) (hsend : st.s.s ≠ .send) :
    logged st i (rcv g st i) log = log := by
  rw [logged, rcv_sndEn, if_neg hread, decide_eq_false hsend, if_neg (by decide)]

/-- A packet that is not normal counts for nothing, unless it is sent on. -/
theorem tallyOf_cons_other {e : Entry} {log : List Entry} (h : e.normal g = false)
    (hsent : e.sentOn g = false) : tallyOf g (e :: log) = tallyOf g log := by
  rw [tallyOf_cons, hsent, Entry.passedMAC, Entry.passedIP, Entry.passedPort, h]
  simp [Tally.bump]

/-- One period of the process. -/
theorem counting_step {log : List Entry} (h : Counting g log st) (hfair : Fair g log) :
    Counting g (logged st i (rcv g st i) log) (rcv g st i) ∧
      Fair g (logged st i (rcv g st i) log) := by
  cases h with
  | resting hs ht =>
      rcases hs with hs | hs
      · rw [logged_quiet (by rw [hs]; nofun) (by rw [hs]; nofun)]
        refine ⟨.resting ?_ ((rcv_tally (by rw [hs]; nofun) (by rw [hs]; nofun)).trans ht), hfair⟩
        unfold rcv
        rw [hs]
        dsimp only
        split
        · exact .inr rfl
        · exact .inl rfl
      · have hlog : logged st i (rcv g st i) log = ⟨st.f, i.elRcvData, false⟩ :: log := by
          rw [logged, rcv_sndEn, if_pos hs, hs]
          rfl
        rw [hlog, rcv_read hs]
        refine ⟨.addressed rfl rfl rfl rfl ht, fun e he hsent => ?_⟩
        rcases List.mem_cons.mp he with rfl | he
        · cases hsent
        · exact hfair e he hsent
  | @addressed e log st hs hrd hf hsent ht =>
      rw [logged_quiet (by rw [hs]; nofun) (by rw [hs]; nofun)]
      refine ⟨?_, hfair⟩
      rw [rcv_checkAdmin hs, hrd]
      by_cases hadmin : e.packet.dstMAC = g.adminMac
      · have hother : e.normal g = false := decide_eq_false fun h => h.1 hadmin
        rw [if_pos hadmin]
        refine .updating (of_decide_eq_true rfl) ?_
        rw [tallyOf_cons_other hother (by rw [Entry.sentOn, hsent, Bool.false_and])]
        exact ht
      · rw [if_neg hadmin]
        exact .asked rfl hrd hf hsent hadmin ht
  | @asked e log st hs hrd hf hsent hadmin ht =>
      rw [logged_quiet (by rw [hs]; nofun) (by rw [hs]; nofun)]
      refine ⟨?_, hfair⟩
      rw [rcv_checkQuery hs, hrd]
      by_cases hquery : e.packet.dstMAC = g.queryMac
      · have hother : e.normal g = false := decide_eq_false fun h => h.2 hquery
        rw [if_pos hquery]
        refine .querying (.inl rfl) hquery ?_
        rw [tallyOf_cons_other hother (by rw [Entry.sentOn, hsent, Bool.false_and])]
        exact ht
      · rw [if_neg hquery]
        refine .judging (decide_eq_true ⟨hadmin, hquery⟩) hsent
          (.srcMAC (.check (k := 0) ⟨⟨hf, hrd, ?_, rfl⟩, rfl, rfl⟩ (Nat.zero_le _) nofun))
        rw [← ht]
        simp [Tally.bump, IState.tally]
  | @querying e log st hs hquery ht =>
      have hread : st.s.s ≠ .read := by
        intro hread
        rw [hread] at hs
        rcases hs with hs | hs <;> cases hs
      have ht' : (rcv g st i).s.tally = tallyOf g (e :: log) := by
        refine (rcv_tally ?_ ?_).trans ht <;> intro hp <;> rw [hp] at hs <;>
          rcases hs with hs | hs <;> cases hs
      have hsentOn (b : Bool) : Entry.sentOn g { e with sent := b } = false := by
        rw [Entry.sentOn, decide_eq_false (fun h => h hquery), Bool.and_false]
      rcases hs with hs | hs
      · have hsend : st.s.s ≠ .send := by
          intro hsend
          rw [hsend] at hs
          cases hs
        rw [logged_quiet hread hsend]
        refine ⟨?_, hfair⟩
        rcases (rcv_route (g := g) (i := i) (.inl hs)).phase with hp | hp | hp
        · exact .querying (.inl (hp.trans hs)) hquery ht'
        · exact .querying (.inr hp) hquery ht'
        · exact .resting (.inl (CoreState.eq_of_phase.1 hp)) ht'
      · have hsend := CoreState.eq_send hs
        have hlog : logged st i (rcv g st i) (e :: log) = { e with sent := true } :: log := by
          rw [logged, rcv_sndEn, if_neg hread, decide_eq_true hsend]
          rfl
        rw [hlog]
        constructor
        · refine .resting (.inl (rcv_send hsend).1) (ht'.trans ?_)
          rw [tallyOf_cons, tallyOf_cons, hsentOn true, show e.sentOn g = false from hsentOn e.sent]
          rfl
        · intro e' he hsent
          rcases List.mem_cons.mp he with rfl | he
          · rw [hsentOn] at hsent
            cases hsent
          · exact hfair e' (List.mem_cons_of_mem _ he) hsent
  | @updating e log st hs ht =>
      have hquiet : st.s.s ≠ .read ∧ st.s.s ≠ .send ∧ st.s.s.phase ≠ .filtering ∧ st.s.s.phase ≠ .asked := by
        refine ⟨fun h => ?_, fun h => ?_, fun h => ?_, fun h => ?_⟩ <;> rw [h] at hs <;>
          exact absurd hs (by decide)
      rw [logged_quiet hquiet.1 hquiet.2.1]
      refine ⟨?_, hfair⟩
      have ht' := (rcv_tally (g := g) (i := i) hquiet.2.2.1 hquiet.2.2.2).trans ht
      rcases rcv_adminRoute (g := g) (i := i) hs with hs | hs
      · exact .updating hs ht'
      · exact .resting (.inl hs) ht'
  | @judging e log st hnormal hsent hjudging =>
      have hlog : logged st i (rcv g st i) (e :: log) = { e with sent := (rcv g st i).sndEn } :: log := by
        have hread : st.s.s ≠ .read := by
          intro hread
          have hphase := hjudging.phase
          rw [hread] at hphase
          rcases hphase with h | h <;> cases h
        rw [logged, if_neg hread]
        cases hsnd : (rcv g st i).sndEn with
        | false => rw [if_neg (by decide), ← hsent]
        | true => rfl
      have hquery : e.packet.dstMAC ≠ g.queryMac := (of_decide_eq_true hnormal).2
      rw [hlog]
      rcases judging_step (g := g) (i := i) hjudging with hjudging' | hjudged
      · have hquiet : (⟨e.filter, e.packet, (rcv g st i).sndEn⟩ : Entry) = e := by
          rw [hjudging'.quiet, ← hsent]
        rw [hquiet]
        exact ⟨.judging hnormal hsent hjudging', hfair⟩
      · -- the entry is complete
        obtain ⟨e', he'⟩ : ∃ e' : Entry, e' = { e with sent := (rcv g st i).sndEn } := ⟨_, rfl⟩
        have hnormal' : e'.normal g = true := by
          rw [he']
          exact hnormal
        have hsentOn : e'.sentOn g = (rcv g st i).sndEn := by
          rw [he', Entry.sentOn, decide_eq_true hquery, Bool.and_true]
        have hpassed : e'.passedMAC g = e.filter.passesMAC e.packet ∧
            e'.passedIP g = e.filter.passesIP e.packet ∧
            e'.passedPort g = e.filter.passesPort e.packet := by
          rw [Entry.passedMAC, Entry.passedIP, Entry.passedPort, hnormal', he']
          exact ⟨Bool.true_and _, Bool.true_and _, Bool.true_and _⟩
        rw [← he']
        constructor
        · refine .resting (.inl hjudged.idle) ?_
          rw [tallyOf_cons, hnormal', hsentOn, hpassed.1, hpassed.2.1, hpassed.2.2]
          exact hjudged.tally
        · intro e'' he hsent'
          rcases List.mem_cons.mp he with rfl | he
          · rw [hpassed.2.2]
            exact hjudged.sent (hsentOn ▸ hsent')
          · exact hfair e'' (List.mem_cons_of_mem _ he) hsent'

/-- The invariant holds in every run from power-on. -/
theorem counting_trace (g : Generics) (inp : Nat → CoreinIn) (n : Nat) :
    Counting g (Corein.log g inp n) (trace (Corein.cycle g) .init inp n).core ∧
      Fair g (Corein.log g inp n) := by
  induction n with
  | zero =>
      have hfair : Fair g [] := fun _ he => absurd he List.not_mem_nil
      exact ⟨.resting (.inl rfl) rfl, hfair⟩
  | succ n ih => exact counting_step ih.1 ih.2

/-! ## The counters -/

/-- `sfc <= spc <= sic <= smc <= stc`. -/
def Tally.Ordered (t : Tally) : Prop := t.sfc ≤ t.spc ∧ t.spc ≤ t.sic ∧ t.sic ≤ t.smc ∧ t.smc ≤ t.stc

namespace Entry

variable {e : Entry}

theorem passedIP_of_port (h : e.passedPort g = true) : e.passedIP g = true := by
  rw [passedPort, Bool.and_eq_true] at h
  rw [passedIP, h.1, Filter.passesPort_ip h.2]
  rfl

theorem passedMAC_of_ip (h : e.passedIP g = true) : e.passedMAC g = true := by
  rw [passedIP, Bool.and_eq_true] at h
  rw [passedMAC, h.1, Filter.passesIP_mac h.2]
  rfl

theorem normal_of_mac (h : e.passedMAC g = true) : e.normal g = true := (Bool.and_eq_true _ _ ▸ h).1

end Entry

/-- The log counts in this order, and a packet that is counted in this order keeps it. -/
theorem ordered_bump {log : List Entry} (hfair : Fair g log) (hfew : log.length + 1 < 2 ^ 64)
    {total sent mac ip port : Bool} (hsent : sent → port) (hport : port → ip) (hip : ip → mac)
    (hmac : mac → total) : ((tallyOf g log).bump total sent mac ip port).Ordered := by
  have hle {p q : Entry → Bool} {a b : Bool} (hpq : ∀ e ∈ log, p e = true → q e = true) (hab : a → b) :
      BitVec.ofNat 64 (log.countP p) + BitVec.ofNat 64 a.toNat ≤
        BitVec.ofNat 64 (log.countP q) + BitVec.ofNat 64 b.toNat := by
    have hbit : a.toNat ≤ b.toNat := by
      cases a with
      | false => exact Nat.zero_le _
      | true => rw [hab rfl]
    have hcount : log.countP p + a.toNat ≤ log.countP q + b.toNat :=
      Nat.add_le_add (List.countP_mono_left hpq) hbit
    have hlt : log.countP q + b.toNat < 2 ^ 64 :=
      Nat.lt_of_le_of_lt (Nat.add_le_add List.countP_le_length b.toNat_le) hfew
    rw [← BitVec.ofNat_add, ← BitVec.ofNat_add, BitVec.le_def, BitVec.toNat_ofNat, BitVec.toNat_ofNat,
      Nat.mod_eq_of_lt (Nat.lt_of_le_of_lt hcount hlt), Nat.mod_eq_of_lt hlt]
    exact hcount
  exact ⟨hle hfair hsent, hle (fun _ _ => Entry.passedIP_of_port) hport,
    hle (fun _ _ => Entry.passedMAC_of_ip) hip, hle (fun _ _ => Entry.normal_of_mac) hmac⟩

theorem ordered_tallyOf {log : List Entry} (hfair : Fair g log) (hfew : log.length < 2 ^ 64) :
    (tallyOf g log).Ordered := by
  cases log with
  | nil => exact ⟨Nat.le_refl _, Nat.le_refl _, Nat.le_refl _, Nat.le_refl _⟩
  | cons e log =>
      rw [tallyOf_cons]
      exact ordered_bump (fun e' he => hfair e' (List.mem_cons_of_mem _ he)) hfew
        (hfair e (List.mem_cons_self ..)) Entry.passedIP_of_port Entry.passedMAC_of_ip Entry.normal_of_mac

theorem Counting.ordered {log : List Entry} (h : Counting g log st) (hfair : Fair g log)
    (hfew : log.length < 2 ^ 64) : st.s.tally.Ordered := by
  have htail {e : Entry} {log : List Entry} (hfair : Fair g (e :: log)) : Fair g log :=
    fun e' he => hfair e' (List.mem_cons_of_mem _ he)
  cases h with
  | resting _ ht | querying _ _ ht | updating _ ht =>
      rw [ht]
      exact ordered_tallyOf hfair hfew
  | addressed _ _ _ _ ht | asked _ _ _ _ _ ht =>
      rw [ht]
      exact ordered_tallyOf (htail hfair) (Nat.lt_of_succ_lt hfew)
  | judging _ _ hjudging =>
      obtain ⟨sent, mac, ip, port, ht, hsent, hport, hip⟩ := hjudging.counted
      rw [ht]
      exact ordered_bump (htail hfair) hfew hsent hport hip fun _ => rfl

/-- In `Idle` the packet read last has been counted. -/
theorem Counting.of_idle {log : List Entry} (h : Counting g log st) (hidle : st.s.s = .idle) :
    st.s.tally = tallyOf g log := by
  cases h with
  | resting _ ht => exact ht
  | addressed hs | asked hs => exact absurd (hs.symm.trans hidle) nofun
  | querying hs =>
      rw [hidle] at hs
      rcases hs with hs | hs <;> cases hs
  | updating hs =>
      rw [hidle] at hs
      exact absurd hs (by decide)
  | judging _ _ hjudging =>
      have hphase := hjudging.phase
      rw [hidle] at hphase
      rcases hphase with h | h <;> cases h

/-- **The statistics.**  In every run from power-on, while fewer than `2 ^ 64` packets have been
read: the counters are in order in every period, and in `Idle` they are the numbers of packets
that were normal, passed both MAC stages, both IP stages and both port stages of the filter they
were read under, and were sent on. -/
theorem statistics (g : Generics) (inp : Nat → CoreinIn) (n : Nat)
    (hfew : (Corein.log g inp n).length < 2 ^ 64) :
    let s := (trace (Corein.cycle g) .init inp n).core.s
    let log := Corein.log g inp n
    (s.sfc ≤ s.spc ∧ s.spc ≤ s.sic ∧ s.sic ≤ s.smc ∧ s.smc ≤ s.stc) ∧
      (s.s = .idle →
        s.stc.toNat = log.countP (Entry.normal g) ∧ s.smc.toNat = log.countP (Entry.passedMAC g) ∧
        s.sic.toNat = log.countP (Entry.passedIP g) ∧ s.spc.toNat = log.countP (Entry.passedPort g) ∧
        s.sfc.toNat = log.countP (Entry.sentOn g)) := by
  intro s log
  obtain ⟨hcounting, hfair⟩ := counting_trace g inp n
  refine ⟨hcounting.ordered hfair hfew, fun hidle => ?_⟩
  have ht : s.tally = tallyOf g log := hcounting.of_idle hidle
  have hcount (p : Entry → Bool) : (BitVec.ofNat 64 (log.countP p)).toNat = log.countP p := by
    rw [BitVec.toNat_ofNat, Nat.mod_eq_of_lt (Nat.lt_of_le_of_lt List.countP_le_length hfew)]
  refine ⟨?_, ?_, ?_, ?_, ?_⟩
  · exact (congrArg (fun t : Tally => t.stc.toNat) ht).trans (hcount _)
  · exact (congrArg (fun t : Tally => t.smc.toNat) ht).trans (hcount _)
  · exact (congrArg (fun t : Tally => t.sic.toNat) ht).trans (hcount _)
  · exact (congrArg (fun t : Tally => t.spc.toNat) ht).trans (hcount _)
  · exact (congrArg (fun t : Tally => t.sfc.toNat) ht).trans (hcount _)

/-- Packets from power-on: in the twentieth period some are counted. -/
theorem statistics_power_on :
    (trace (Corein.cycle {}) .init (fun _ => ⟨acceptedAtPowerOn, true⟩) 20).core.s.smc ≤
      (trace (Corein.cycle {}) .init (fun _ => ⟨acceptedAtPowerOn, true⟩) 20).core.s.stc :=
  (statistics {} (fun _ => ⟨acceptedAtPowerOn, true⟩) 20 (by decide +kernel)).1.2.2.2

end DnsAdtm.Hw
