/-
# `Hw.CoreinQuery` — the reply to a query

A query's own packet is made the reply: in 31 periods spread over 17 states `corein` writes
the filter and the five counters over the first 998 bits of `rd.dnsPkt`, piece by piece from
bit 0 on.  `replyStep` lists what the periods write; by `replyStep_agrees` each of them
continues the stream of `replySegments`, so nothing of the query's payload is left.

    rcv_query    one period of the route
    query_run    a query read in `Idle`: the reply with `snd_en`, 37 periods later
-/
import DnsAdtm.Hw.CoreinAuth

namespace DnsAdtm.Hw

open Machine

variable {g : Generics} {st : Core} {i : RcvIn}

/-! ## What is written -/

/-- The filter and behind it the counters. -/
def replySegments (f : Filter) (t : Tally) : List Seg :=
  f.segments ++ [⟨64, t.stc⟩, ⟨64, t.sfc⟩, ⟨64, t.smc⟩, ⟨64, t.sic⟩, ⟨64, t.spc⟩]

/-- What period `n` of the 31 writes into `rd.dnsPkt`. -/
def replyStep (f : Filter) (t : Tally) : Nat → BitVec 1024 → BitVec 1024
  | 0, p => put (putBit p 0 f.srcMACBW) 2 1 (BitVec.ofNat 2 f.srcMACLength)
  | 1, p => put p 50 3 (f.srcMACList.at 0)
  | 2, p => put p 98 51 (f.srcMACList.at 1)
  | 4, p => put (putBit p 99 f.dstMACBW) 101 100 (BitVec.ofNat 2 f.dstMACLength)
  | 5, p => put p 149 102 (f.dstMACList.at 0)
  | 6, p => put p 197 150 (f.dstMACList.at 1)
  | 8, p => put (putBit p 198 f.srcIPBW) 200 199 (BitVec.ofNat 2 f.srcIPLength)
  | 9, p => put p 232 201 (f.srcIPList.at 0)
  | 10, p => put p 264 233 (f.srcIPList.at 1)
  | 12, p => put (putBit p 265 f.dstIPBW) 267 266 (BitVec.ofNat 2 f.dstIPLength)
  | 13, p => put p 299 268 (f.dstIPList.at 0)
  | 14, p => put p 331 300 (f.dstIPList.at 1)
  | 16, p => put (putBit p 332 f.srcPortBW) 334 333 (BitVec.ofNat 2 f.srcPortLength)
  | 17, p => put p 350 335 (f.srcPortList.at 0)
  | 18, p => put p 366 351 (f.srcPortList.at 1)
  | 20, p => put (putBit p 367 f.dstPortBW) 369 368 (BitVec.ofNat 2 f.dstPortLength)
  | 21, p => put p 385 370 (f.dstPortList.at 0)
  | 22, p => put p 401 386 (f.dstPortList.at 1)
  | 24, p => put (put (put (putBit p 402 f.dnsBW) 404 403 (BitVec.ofNat 2 f.dnsLength))
      412 405 (BitVec.ofNat 8 (f.endPtr 0))) 420 413 (BitVec.ofNat 8 (f.endPtr 1))
  | 25, p => put p 548 421 (f.dnsList.at 0)
  | 26, p => put p 676 549 (f.dnsList.at 1)
  | 28, p => putBit p 677 f.replyType
  | 29, p => put (put p 741 678 t.stc) 805 742 t.sfc
  | 30, p => put (put (put p 869 806 t.smc) 933 870 t.sic) 997 934 t.spc
  | _, p => p

/-- How many bits are written before period `n`. -/
def replyOffset (n : Nat) : Nat :=
  [0, 3, 51, 99, 99, 102, 150, 198, 198, 201, 233, 265, 265, 268, 300, 332, 332, 335, 351, 367,
    367, 370, 386, 402, 402, 421, 549, 677, 677, 678, 806, 998].getD n 998

/-- Every period goes on where the last one stopped. -/
theorem replyStep_agrees (f : Filter) (t : Tally) {n : Nat} (hn : n < 31) {p : BitVec 1024}
    (h : Agrees (stream (replySegments f t)) (replyOffset n) p) :
    Agrees (stream (replySegments f t)) (replyOffset (n + 1)) (replyStep f t n p) := by
  have hput (k : Nat) {off w : Nat} {p : BitVec 1024} (x : BitVec w)
      (h : Agrees (stream (replySegments f t)) off p) (hget : (replySegments f t)[k]? = some ⟨w, x⟩)
      (hoff : ((Filter.layout ++ [64, 64, 64, 64, 64]).take k).sum = off) (hw : off + w ≤ 1024) :
      Agrees (stream (replySegments f t)) (off + w) (setSlice p off x) := by
    refine h.setSlice (field_stream k off hget ?_) hw
    rw [widths, List.map_take]
    exact hoff
  interval_cases n
  -- the heads of the lists
  case «0» => exact hput 1 _ (hput 0 _ h rfl rfl (by decide)) rfl rfl (by decide)
  case «4» => exact hput 5 _ (hput 4 _ h rfl rfl (by decide)) rfl rfl (by decide)
  case «8» => exact hput 9 _ (hput 8 _ h rfl rfl (by decide)) rfl rfl (by decide)
  case «12» => exact hput 13 _ (hput 12 _ h rfl rfl (by decide)) rfl rfl (by decide)
  case «16» => exact hput 17 _ (hput 16 _ h rfl rfl (by decide)) rfl rfl (by decide)
  case «20» => exact hput 21 _ (hput 20 _ h rfl rfl (by decide)) rfl rfl (by decide)
  case «24» =>
    exact hput 27 _ (hput 26 _ (hput 25 _ (hput 24 _ h rfl rfl (by decide)) rfl rfl (by decide))
      rfl rfl (by decide)) rfl rfl (by decide)
  -- their entries
  case «1» => exact hput 2 _ h rfl rfl (by decide)
  case «2» => exact hput 3 _ h rfl rfl (by decide)
  case «5» => exact hput 6 _ h rfl rfl (by decide)
  case «6» => exact hput 7 _ h rfl rfl (by decide)
  case «9» => exact hput 10 _ h rfl rfl (by decide)
  case «10» => exact hput 11 _ h rfl rfl (by decide)
  case «13» => exact hput 14 _ h rfl rfl (by decide)
  case «14» => exact hput 15 _ h rfl rfl (by decide)
  case «17» => exact hput 18 _ h rfl rfl (by decide)
  case «18» => exact hput 19 _ h rfl rfl (by decide)
  case «21» => exact hput 22 _ h rfl rfl (by decide)
  case «22» => exact hput 23 _ h rfl rfl (by decide)
  case «25» => exact hput 28 _ h rfl rfl (by decide)
  case «26» => exact hput 29 _ h rfl rfl (by decide)
  -- the reply type and the counters
  case «28» => exact hput 30 _ h rfl rfl (by decide)
  case «29» => exact hput 32 _ (hput 31 _ h rfl rfl (by decide)) rfl rfl (by decide)
  case «30» =>
    exact hput 35 _ (hput 34 _ (hput 33 _ h rfl rfl (by decide)) rfl rfl (by decide)) rfl rfl
      (by decide)
  -- the periods that only move on
  all_goals exact h

/-! ## The route -/

/-- How many of the 31 periods are over. -/
def IState.queryPos (s : IState) : Option Nat :=
  match s.s with
  | .replyQuerySrcMACMeta => some 0
  | .replyQuerySrcMACList => some (1 + min s.amc 2)
  | .replyQueryDstMACMeta => some 4
  | .replyQueryDstMACList => some (5 + min s.amc 2)
  | .replyQuerySrcIPMeta => some 8
  | .replyQuerySrcIPList => some (9 + min s.aic 2)
  | .replyQueryDstIPMeta => some 12
  | .replyQueryDstIPList => some (13 + min s.aic 2)
  | .replyQuerySrcPortMeta => some 16
  | .replyQuerySrcPortList => some (17 + min s.apc 2)
  | .replyQueryDstPortMeta => some 20
  | .replyQueryDstPortList => some (21 + min s.apc 2)
  | .replyQueryDNSMeta => some 24
  | .replyQueryDNSList => some (25 + min s.adc 2)
  | .replyQueryReplyType => some 28
  | .replyQueryCountersTot => some 29
  | .replyQueryCountersSeg => some 30
  | _ => none

/-- Period `n`: the packet gets its piece, and the process goes on to the next period, or to
`Send` after the last. -/
structure Replies (g : Generics) (n : Nat) (st st' : Core) : Prop where
  filter : st'.f = st.f
  data : st'.rd = { st.rd with
    dnsPkt := replyStep st.f st.s.tally n st.rd.dnsPkt
    dstMAC := if n = 29 then g.queryMac else st.rd.dstMAC }
  tally : st'.s.tally = st.s.tally
  quiet : st'.sndEn = false
  pos : (n < 30 ∧ st'.s.queryPos = some (n + 1)) ∨ (n = 30 ∧ st'.s.s = .send)

/-- One case for each state: seven heads of lists, seven list states, the reply type and the
two periods of the counters. -/
theorem rcv_query {n : Nat} (h : st.s.queryPos = some n) : Replies g n st (rcv g st i) := by
  unfold IState.queryPos at h
  unfold rcv
  cases hs : st.s.s <;> rw [hs] at h <;> first | (cases h; done) | skip
  case replyQueryCountersSeg =>
    cases h
    exact ⟨rfl, rfl, rfl, rfl, .inr ⟨rfl, rfl⟩⟩
  all_goals first
    | (cases h; exact ⟨rfl, rfl, rfl, rfl, .inl ⟨by decide, rfl⟩⟩)
    | (refine listState_cases _ ?_ ?_ ?_ <;> intro hc <;> rw [Option.some.injEq] at h
       · rw [hc] at h
         subst h
         exact ⟨rfl, rfl, rfl, rfl, .inl ⟨by decide, by simp [IState.queryPos, hs, hc, setAmc, setAic, setApc, setAdc]⟩⟩
       · rw [hc] at h
         subst h
         exact ⟨rfl, rfl, rfl, rfl, .inl ⟨by decide, by simp [IState.queryPos, hs, hc, setAmc, setAic, setApc, setAdc]⟩⟩
       · rw [Nat.min_eq_right hc] at h
         subst h
         exact ⟨rfl, rfl, rfl, rfl, .inl ⟨by decide, rfl⟩⟩)

/-! ## A whole query -/

variable {f : Filter} {t : Tally} {rd : RcvData} {n : Nat}

/-- `rd'` is the packet `rd` made the reply for the filter `f` and the counters `t`. -/
structure ReplyTo (f : Filter) (t : Tally) (n : Nat) (rd rd' : RcvData) : Prop where
  head : rd' = { rd with ipLength := 201, dnsLength := 128, dnsPkt := rd'.dnsPkt }
  pkt : Agrees (stream (replySegments f t)) n rd'.dnsPkt

/-- On the way between two periods of the process: not in `Idle`, nothing sent. -/
structure Asking (f : Filter) (t : Tally) (st : Core) : Prop where
  busy : st.s.s ≠ .idle
  quiet : st.sndEn = false
  filter : st.f = f
  tally : st.s.tally = t

/-- Before period `n` of the reply to `rd`. -/
structure Replying (g : Generics) (f : Filter) (t : Tally) (rd : RcvData) (n : Nat) (st : Core) :
    Prop extends Asking f t st where
  pos : st.s.queryPos = some n
  reply : ReplyTo f t (replyOffset n) rd st.rd

theorem IState.queryPos_ne_idle {s : IState} (h : s.queryPos = some n) : s.s ≠ .idle := by
  rintro hs
  rw [IState.queryPos, hs] at h
  cases h

/-- One period. -/
theorem replying_step (hmac : rd.dstMAC = g.queryMac) (hn : n < 30) (h : Replying g f t rd n st) :
    Replying g f t rd (n + 1) (rcv g st i) := by
  have hstep := rcv_query (g := g) (i := i) h.pos
  obtain ⟨-, hpos⟩ | ⟨rfl, -⟩ := hstep.pos
  swap
  · omega
  have hdst : st.rd.dstMAC = g.queryMac := by rw [h.reply.head, ← hmac]
  have hkeep : (if n = 29 then g.queryMac else st.rd.dstMAC) = st.rd.dstMAC := by
    split
    · exact hdst.symm
    · rfl
  refine ⟨⟨IState.queryPos_ne_idle hpos, hstep.quiet, hstep.filter.trans h.filter,
    hstep.tally.trans h.tally⟩, hpos, ?_, ?_⟩
  · rw [hstep.data, hkeep, h.reply.head]
  · rw [hstep.data, h.filter, h.tally]
    exact replyStep_agrees f t (by omega) h.reply.pkt

/-- The last period, and `Send`. -/
theorem replying_last (h : Replying g f t rd 30 st) :
    Asking f t (rcv g st i) ∧ (rcv g st i).s.s = .send ∧ ReplyTo f t 998 rd (rcv g st i).rd := by
  have hstep := rcv_query (g := g) (i := i) h.pos
  obtain ⟨hlt, -⟩ | ⟨-, hs⟩ := hstep.pos
  · omega
  refine ⟨⟨by rw [hs]; decide, hstep.quiet, hstep.filter.trans h.filter,
    hstep.tally.trans h.tally⟩, hs, ?_, ?_⟩
  · rw [hstep.data, h.reply.head]
    rfl
  · rw [hstep.data, h.filter, h.tally]
    exact replyStep_agrees f t (by omega) h.reply.pkt

theorem rcv_replyQueryHeader (h : st.s.s = .replyQueryHeader) : rcv g st i =
    { st.tick i with rd.ipLength := 201, rd.dnsLength := 128, s.s := .replyQuerySrcMACMeta } := by
  unfold rcv
  rw [h]
  rfl

/-- `Send` keeps the packet. -/
theorem rcv_send_rd (h : st.s.s = .send) : (rcv g st i).rd = st.rd := by
  unfold rcv
  rw [h]

/-- A query read in `Idle`: 37 periods later the reply is on `rd`, and has been sent. -/
theorem query_run (g : Generics) (st : Core) (wires : Nat → RcvIn) (hmacs : g.queryMac ≠ g.adminMac)
    (hidle : st.s.s = .idle) (hdv : (wires 0).elRcvDv = true)
    (hrd : (wires 1).elRcvData = rd) (hquery : rd.dstMAC = g.queryMac) :
    let tr := trace (rcv g) st wires
    (∀ n, 0 < n → n < 37 → Asking st.f st.s.tally (tr n)) ∧
      (tr 37).s.s = .idle ∧ (tr 37).sndEn = true ∧ (tr 37).f = st.f ∧
      (tr 37).s.tally = st.s.tally ∧ ReplyTo st.f st.s.tally 998 rd (tr 37).rd := by
  obtain ⟨tr, htr⟩ : ∃ tr, tr = trace (rcv g) st wires := ⟨_, rfl⟩
  have hstep : ∀ n, tr (n + 1) = rcv g (tr n) (wires n) := fun n => by rw [htr, trace_succ]
  have hzero : tr 0 = st := by rw [htr, trace_zero]
  rw [← htr]
  clear htr
  -- up to the first period of the reply
  have h₁ : Asking st.f st.s.tally (tr 1) ∧ (tr 1).s.s = .read := by
    rw [hstep, hzero, rcv_idle hidle hdv]
    exact ⟨⟨nofun, rfl, rfl, rfl⟩, rfl⟩
  have h₂ : Asking st.f st.s.tally (tr 2) ∧ (tr 2).s.s = .checkAdmin ∧ (tr 2).rd = rd := by
    rw [hstep, rcv_read h₁.2]
    exact ⟨⟨nofun, rfl, h₁.1.filter, h₁.1.tally⟩, rfl, hrd⟩
  have h₃ : Asking st.f st.s.tally (tr 3) ∧ (tr 3).s.s = .checkQuery ∧ (tr 3).rd = rd := by
    rw [hstep, rcv_checkAdmin h₂.2.1, h₂.2.2, if_neg fun h => hmacs (hquery.symm.trans h)]
    exact ⟨⟨nofun, rfl, h₂.1.filter, h₂.1.tally⟩, rfl, h₂.2.2⟩
  have h₄ : Asking st.f st.s.tally (tr 4) ∧ (tr 4).s.s = .replyQueryHeader ∧ (tr 4).rd = rd := by
    rw [hstep, rcv_checkQuery h₃.2.1, h₃.2.2, if_pos hquery]
    exact ⟨⟨nofun, rfl, h₃.1.filter, h₃.1.tally⟩, rfl, h₃.2.2⟩
  have h₅ : Replying g st.f st.s.tally rd 0 (tr 5) := by
    rw [hstep, rcv_replyQueryHeader h₄.2.1]
    refine ⟨⟨nofun, rfl, h₄.1.filter, h₄.1.tally⟩, rfl, ?_, .zero _ _⟩
    rw [← h₄.2.2]
    rfl
  -- the 31 periods of the reply
  have hreply : ∀ n, n ≤ 30 → Replying g st.f st.s.tally rd n (tr (5 + n)) := by
    intro n
    induction n with
    | zero => exact fun _ => h₅
    | succ n ih =>
        intro hn
        rw [← Nat.add_assoc, hstep]
        exact replying_step hquery (by omega) (ih (by omega))
  obtain ⟨hasking, hsend, hlast⟩ := replying_last (i := wires 35) (hreply 30 (Nat.le_refl _))
  rw [← hstep] at hasking hsend hlast
  obtain ⟨hdone, hf, hen, htally⟩ := rcv_send (g := g) (i := wires 36) hsend
  have hrd' := rcv_send_rd (g := g) (i := wires 36) hsend
  rw [← hstep] at hdone hf hen htally hrd'
  refine ⟨fun n h0 hn => ?_, hdone, hen, hf.trans hasking.filter, htally.trans hasking.tally, ?_⟩
  · rcases Nat.lt_or_ge n 5 with hlt | hge
    · obtain rfl | rfl | rfl | rfl : n = 1 ∨ n = 2 ∨ n = 3 ∨ n = 4 := by omega
      · exact h₁.1
      · exact h₂.1
      · exact h₃.1
      · exact h₄.1
    · rcases Nat.lt_or_ge n 36 with hlt' | hge'
      · have := (hreply (n - 5) (by omega)).toAsking
        rwa [show 5 + (n - 5) = n by omega] at this
      · obtain rfl : n = 36 := by omega
        exact hasking
  · rw [hrd']
    exact hlast

end DnsAdtm.Hw
