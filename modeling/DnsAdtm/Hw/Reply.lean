/-
# `Hw.Reply` — the packet that is sent on

A packet accepted by the filter goes out as `sentOf`: its destination address replaced, and
in the second reply mode its payload and the lengths.  `Carries` follows it through the
states of the route, up to `rd` in the period `snd_en` is up.

    carries_step     one period of the route
    accepted_sentOn  an accepted packet is sent on
    sentOn_handed    through both processors: `el_snd_en` with `sndOf` of the packet
-/
import DnsAdtm.Hw.Processors

namespace DnsAdtm.Hw

open Machine

variable {g : Generics} {f : Filter} {rd : RcvData} {st : Core} {i : RcvIn}

/-! ## The packet -/

/-- `SetDNSReplyHeader` in the second mode: bytes 2 and 3. -/
def dnsReplyHeader (g : Generics) (p : BitVec 1024) : BitVec 1024 :=
  putBit (put (putBit (putBit (putBit (putBit (putBit (putBit (putBit (put p 27 24 g.dnsRcode)
    28 true) 29 true) 30 false) 31 false) 16 false) 17 false) 18 true) 22 19 (0 : BitVec 4)) 23 true

/-- `SetDNSReplyCount`: bytes 4 to 11. -/
def dnsReplyCount (p : BitVec 1024) : BitVec 1024 :=
  put (put (put (put p 47 32 (0 : BitVec 16)) 63 48 (0 : BitVec 16)) 79 64 (0 : BitVec 16))
    95 80 (0 : BitVec 16)

/-- An accepted packet, as `SetDefaultMAC` finds it. -/
def replied (g : Generics) (replyType : Bool) (rd : RcvData) : RcvData :=
  if replyType then
    { rd with ipLength := 130, dnsLength := 12, dnsPkt := dnsReplyCount (dnsReplyHeader g rd.dnsPkt) }
  else rd

/-- An accepted packet, as it is sent. -/
def sentOf (g : Generics) (replyType : Bool) (rd : RcvData) : RcvData :=
  { replied g replyType rd with dstMAC := g.normalMac }

/-! ## Through the route -/

/-- `o` with another packet. -/
def Core.withPkt (o : Core) (p : BitVec 1024) : Core := { o with rd.dnsPkt := p }

@[simp] theorem Core.withPkt_dnsPkt (o : Core) (p : BitVec 1024) : (o.withPkt p).rd.dnsPkt = p := rfl

@[simp] theorem Core.withPkt_withPkt (o : Core) (p q : BitVec 1024) :
    (o.withPkt p).withPkt q = o.withPkt q := rfl

theorem Core.putPkt_eq {m : Nat} (o : Core) (hi lo : Nat) (x : BitVec m) (h : decide (m = hi + 1 - lo)) :
    o.putPkt hi lo x h = o.withPkt (put o.rd.dnsPkt hi lo x h) := rfl

theorem Core.putPktBit_eq (o : Core) (n : Nat) (b : Bool) :
    o.putPktBit n b = o.withPkt (putBit o.rd.dnsPkt n b) := rfl

theorem rcv_replyHeader (h : st.s.s = .setDNSReplyHeader) : rcv g st i =
    if st.f.replyType = false then { st.tick i with s.s := .setDefaultMAC }
    else { (st.tick i).withPkt (dnsReplyHeader g st.rd.dnsPkt) with s.s := .setDNSReplyCount } := by
  unfold rcv
  rw [h]
  simp only [Core.putPkt_eq, Core.putPktBit_eq, Core.withPkt_dnsPkt, Core.withPkt_withPkt]
  rfl

theorem rcv_replyCount (h : st.s.s = .setDNSReplyCount) : rcv g st i =
    { (st.tick i).withPkt (dnsReplyCount st.rd.dnsPkt) with
      rd.ipLength := 130, rd.dnsLength := 12, s.s := .setDefaultMAC } := by
  unfold rcv
  rw [h]
  simp only [Core.putPkt_eq, Core.withPkt_dnsPkt, Core.withPkt_withPkt]
  rfl

/-- The other states of the route keep the packet, and end it in `Idle` only unsent. -/
theorem rcv_filtering (h : st.s.s.phase = .filtering) (hheader : st.s.s ≠ .setDNSReplyHeader)
    (hcount : st.s.s ≠ .setDNSReplyCount) (hmac : st.s.s ≠ .setDefaultMAC) :
    (rcv g st i).rd = st.rd ∧ (rcv g st i).s.s ≠ .setDNSReplyCount ∧
      (rcv g st i).s.s ≠ .setDefaultMAC ∧
      ((rcv g st i).s.s.phase = .filtering ∨ (rcv g st i).s.s = .idle ∧ (rcv g st i).sndEn = false) := by
  unfold rcv
  cases hs : st.s.s <;> rw [hs] at h <;> first | exact absurd h (by decide) | skip
  case setDNSReplyHeader => exact absurd hs hheader
  case setDNSReplyCount => exact absurd hs hcount
  case setDefaultMAC => exact absurd hs hmac
  all_goals first
    | exact ⟨rfl, nofun, nofun, .inl rfl⟩
    | (dsimp only [Stage.doCheck, Stage.doCmp, Stage.doMatch, cmpPktArea]
       split_ifs <;>
         first | exact ⟨rfl, nofun, nofun, .inl rfl⟩ | exact ⟨rfl, nofun, nofun, .inr ⟨rfl, rfl⟩⟩)

/-- What `rd` is in the states of the filter route, for the packet `rd`. -/
inductive Carries (g : Generics) (f : Filter) (rd : RcvData) (st : Core) : Prop
  | addressed : st.s.s = .checkAdmin → rd.dstMAC ≠ g.adminMac → rd.dstMAC ≠ g.queryMac → st.rd = rd →
      Carries g f rd st
  | asked : st.s.s = .checkQuery → rd.dstMAC ≠ g.queryMac → st.rd = rd → Carries g f rd st
  | filtering : st.s.s.phase = .filtering → st.s.s ≠ .setDNSReplyCount → st.s.s ≠ .setDefaultMAC →
      st.rd = rd → Carries g f rd st
  | counting : st.s.s = .setDNSReplyCount → f.replyType = true →
      st.rd = { rd with dnsPkt := dnsReplyHeader g rd.dnsPkt } → Carries g f rd st
  | ready : st.s.s = .setDefaultMAC → st.rd = replied g f.replyType rd → Carries g f rd st
  | sending : st.s.s = .send → st.rd = sentOf g f.replyType rd → Carries g f rd st
  | done : st.s.s = .idle → (st.sndEn = true → st.rd = sentOf g f.replyType rd) → Carries g f rd st

/-- One period of the route. -/
theorem carries_step (hf : st.f = f) (hbusy : st.s.s ≠ .idle) (h : Carries g f rd st) :
    Carries g f rd (rcv g st i) := by
  cases h with
  | addressed hs hadmin hquery hrd =>
      rw [rcv_checkAdmin hs, hrd, if_neg hadmin]
      exact .asked rfl hquery hrd
  | asked hs hquery hrd =>
      rw [rcv_checkQuery hs, hrd, if_neg hquery]
      exact .filtering rfl nofun nofun hrd
  | filtering hphase hcount hmac hrd =>
      by_cases hs : st.s.s = .setDNSReplyHeader
      · rw [rcv_replyHeader hs, hf]
        cases hmode : f.replyType with
        | false =>
            rw [if_pos rfl]
            refine .ready rfl ?_
            rw [replied, hmode]
            exact hrd
        | true =>
            rw [if_neg (by decide)]
            refine .counting rfl hmode ?_
            show { st.rd with dnsPkt := dnsReplyHeader g st.rd.dnsPkt } = _
            rw [hrd]
      · obtain ⟨hrd', hcount', hmac', hphase' | ⟨hidle, hen⟩⟩ :=
          rcv_filtering (g := g) (i := i) hphase hs hcount hmac
        · exact .filtering hphase' hcount' hmac' (hrd'.trans hrd)
        · refine .done hidle fun h => ?_
          rw [hen] at h
          cases h
  | counting hs hmode hrd =>
      rw [rcv_replyCount hs]
      refine .ready rfl ?_
      show { st.rd with dnsPkt := dnsReplyCount st.rd.dnsPkt, ipLength := 130, dnsLength := 12 } = _
      rw [hrd, replied, if_pos hmode]
  | ready hs hrd =>
      rw [rcv_setDefaultMAC hs]
      refine .sending rfl ?_
      show { st.rd with dstMAC := g.normalMac } = _
      rw [hrd, sentOf]
  | sending hs hrd => exact .done (rcv_send hs).1 fun _ => (rcv_send_rd hs).trans hrd
  | done hs _ => exact absurd hs hbusy

/-- The filter is the same throughout. -/
theorem carries_filter (h : Carries g f rd st) : (rcv g st i).f = st.f := by
  refine rcv_filter_eq fun hup => ?_
  cases h with
  | addressed hs _ _ _ | asked hs _ _ | counting hs _ _ | ready hs _ | sending hs _ | done hs _ =>
      rw [hs] at hup
      cases hup
  | filtering hphase _ _ _ =>
      rw [hphase] at hup
      cases hup

/-- A packet on its way through `corein`: read in `Idle` at period `n`, neither the
administrator's nor a query, and sent at period `n + m`. -/
structure SentOn (g : Generics) (tr : Nat → Processors) (inp : Nat → CoreinIn) (rd : RcvData)
    (n m : Nat) : Prop where
  idle : (tr n).ci.core.s.s = .idle
  dv : (inp n).elRcvDv = true
  read : (inp (n + 1)).elRcvData = rd
  notAdmin : rd.dstMAC ≠ g.adminMac
  notQuery : rd.dstMAC ≠ g.queryMac
  pos : 0 < m
  busy : ∀ k, 0 < k → k < m → (tr (n + k)).ci.core.s.s ≠ .idle
  sent : (tr (n + m)).ci.core.sndEn = true

/-- An accepted packet is sent on. -/
theorem accepted_sentOn {gReplyMac : BitVec 48} {f₀ : Filter} {t₀ : Tally} {inp : Nat → CoreinIn}
    {n : Nat} {tr : Nat → Processors}
    (htr : tr = trace (Processors.cycle g gReplyMac) (.start f₀ t₀) inp)
    (hidle : (tr n).ci.core.s.s = .idle) (hdv : (inp n).elRcvDv = true)
    (h8 : ∀ k, 8 ∣ (tr n).ci.core.f.endPtr k) (hrd : (inp (n + 1)).elRcvData = rd)
    (hadmin : rd.dstMAC ≠ g.adminMac) (hquery : rd.dstMAC ≠ g.queryMac)
    (hacc : (tr n).ci.core.f.accepts rd = true) : ∃ m, SentOn g tr inp rd n m := by
  obtain ⟨wires, hwires⟩ : ∃ wires : Nat → RcvIn,
      wires = fun j => (tr (n + j)).ci.rcvIn (inp (n + j)) := ⟨_, rfl⟩
  have hcore : ∀ k, (tr (n + k)).ci.core = trace (rcv g) (tr n).ci.core wires k := by
    intro k
    rw [hwires, htr]
    exact core_trace_add _ inp n k
  have hdv' : (wires 0).elRcvDv = true := by rw [hwires]; exact hdv
  have hdata : (wires 1).elRcvData = rd := by rw [hwires]; exact hrd
  obtain ⟨⟨hwork₁, -⟩, hon, hcheck⟩ := read_on (g := g) hidle wires hdv'
  rw [hdata] at hon
  obtain ⟨m, hverdict, hwork⟩ := (route_until h8 hadmin hquery hon hcheck).exists_trace
    (fun t => wires (2 + t))
  simp only [← trace_add] at hverdict hwork
  simp only [← hcore] at hwork₁ hverdict hwork
  refine ⟨2 + m, hidle, hdv, hrd, hadmin, hquery, by omega, fun k h0 hk => ?_, hverdict.sndEn.trans hacc⟩
  rcases Nat.lt_or_ge k 2 with hlt | hge
  · obtain rfl : k = 1 := by omega
    exact hwork₁.1
  · have hlate := (hwork (k - 2) (by omega)).1
    rwa [show 2 + (k - 2) = k by omega] at hlate

/-- Through both processors: a packet sent on is `sentOf` when it is handed over, and eight
periods later `el_snd_en` is up with `sndOf` of that on `sd`. -/
theorem sentOn_handed {gReplyMac : BitVec 48} {f₀ : Filter} {t₀ : Tally} {inp : Nat → CoreinIn}
    {n m : Nat}
    (h : SentOn g (trace (Processors.cycle g gReplyMac) (.start f₀ t₀) inp) inp rd n m) :
    let tr := trace (Processors.cycle g gReplyMac) (.start f₀ t₀) inp
    (tr (n + m + 8)).co.elSndEn = true ∧
      (tr (n + m + 8)).co.sd = sndOf gReplyMac (sentOf g (tr n).ci.core.f.replyType rd) := by
  intro tr
  obtain ⟨wires, hwires⟩ : ∃ wires : Nat → RcvIn,
      wires = fun j => (tr (n + j)).ci.rcvIn (inp (n + j)) := ⟨_, rfl⟩
  have hcore : ∀ k, (tr (n + k)).ci.core = trace (rcv g) (tr n).ci.core wires k := by
    intro k
    rw [hwires]
    exact core_trace_add _ inp n k
  have hdv : (wires 0).elRcvDv = true := by rw [hwires]; exact h.dv
  have hdata : (wires 1).elRcvData = rd := by rw [hwires]; exact h.read
  have hidle : (tr n).ci.core.s.s = .idle := h.idle
  obtain ⟨⟨hwork, -⟩, hon, hcheck⟩ := read_on (g := g) hidle wires hdv
  rw [hdata] at hon
  simp only [← hcore] at hwork hon hcheck
  -- the packet is followed from `CheckAdmin` on
  have hcarries : ∀ k, 2 + k ≤ m → (tr (n + (2 + k))).ci.core.f = (tr n).ci.core.f ∧
      Carries g (tr n).ci.core.f rd (tr (n + (2 + k))).ci.core := by
    intro k
    induction k with
    | zero => exact fun _ => ⟨hon.filter, .addressed hcheck h.notAdmin h.notQuery hon.data⟩
    | succ k ih =>
        intro hk
        obtain ⟨hf, hc⟩ := ih (by omega)
        have hstep : (tr (n + (2 + (k + 1)))).ci.core =
            rcv g (tr (n + (2 + k))).ci.core (wires (2 + k)) := by
          rw [hcore, hcore, ← Nat.add_assoc, trace_succ]
        rw [hstep]
        exact ⟨(carries_filter hc).trans hf, carries_step hf (h.busy (2 + k) (by omega) (by omega)) hc⟩
  have htwo : 2 ≤ m := by
    have hsent := h.sent
    have hpos := h.pos
    by_contra hlt
    obtain rfl : m = 1 := by omega
    rw [hwork.2.1] at hsent
    cases hsent
  have hpaced := (@paced_trace g gReplyMac f₀ t₀ inp (n + m)).handed h.sent
  have hrd : (tr (n + m)).ci.core.rd = sentOf g (tr n).ci.core.f.replyType rd := by
    have hlast := (hcarries (m - 2) (by omega)).2
    rw [show 2 + (m - 2) = m by omega] at hlast
    cases hlast with
    | done _ hsent => exact hsent h.sent
    | addressed hs _ _ _ | asked hs _ _ | counting hs _ _ | ready hs _ | sending hs _ =>
        rw [hpaced.1] at hs
        cases hs
    | filtering hphase _ _ _ =>
        rw [hpaced.1] at hphase
        cases hphase
  obtain ⟨-, -, hup, hsd⟩ := coreout_run gReplyMac hpaced.2
    (fun j => (tr (n + m + j)).outIn) h.sent
  have hco := @co_trace_add g gReplyMac (.start f₀ t₀) inp (n + m) 8
  rw [← hco] at hup hsd
  refine ⟨hup, ?_⟩
  rw [← hrd]
  exact hsd

end DnsAdtm.Hw
