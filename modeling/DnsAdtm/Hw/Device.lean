/-
# `Hw.Device` — what `corein` is for

Seen from outside, `corein` is a filter and five counters (`Device`) and what a packet does to
them (`Device.handle`): an administrator's packet with the right tag replaces the filter, a query
is answered with the filter and the counters, and any other packet is counted and, if the filter
accepts it, sent on.  Of the seventy states, the hash unit and the period it all takes nothing is
left.

    filter_serves, query_serves, admin_serves    one packet, by its route
    coreinServer_lawful                          `corein` serves one packet at a time
    corein_refines                               so every run of it is one of the device
-/
import DnsAdtm.Hw.CoreinReturn
import DnsAdtm.Hw.Reply
import DnsAdtm.Lib.Server

namespace DnsAdtm.Hw

open Machine

variable {g : Generics} {d : Device} {rd : RcvData}

/-! ## The device -/

/-- What of `corein` lasts from one packet to the next. -/
structure Device where
  f : Filter
  t : Tally
  deriving DecidableEq

/-- The filter and the counters, over the first 998 bits of the request. -/
def probeReply (d : Device) (rd : RcvData) : RcvData :=
  { rd with
    ipLength := 201
    dnsLength := 128
    dnsPkt := setSlice rd.dnsPkt 0 (field (stream (replySegments d.f d.t)) 0 998) }

/-- A packet. -/
def Device.handle (g : Generics) (d : Device) (rd : RcvData) : Device × Option RcvData :=
  if rd.dstMAC = g.adminMac then
    (if Authentic g rd then { d with f := Filter.decode rd.dnsPkt.getLsbD } else d, none)
  else if rd.dstMAC = g.queryMac then (d, some (probeReply d rd))
  else ({ d with t := d.f.count rd d.t.addStc },
    if d.f.accepts rd then some (sentOf g d.f.replyType rd) else none)

theorem handle_inRange (hd : d.f.InRange) (hrd : UpdateInRange g rd) : (d.handle g rd).1.f.InRange := by
  rw [Device.handle]
  split_ifs with hadmin hauth hquery
  · exact hrd hauth
  · exact hd
  · exact hd
  · exact hd
  · exact hd

/-! ## `corein` as a server -/

/-- Between two packets, with the registers of the device. -/
structure AtRest (d : Device) (st : Corein) : Prop where
  state : st.core.s.s = .idle ∨ st.core.s.s = .read
  resting : Resting st
  filter : st.core.f = d.f
  tally : st.core.s.tally = d.t
  inRange : d.f.InRange

/-- A packet is taken in `Read`, and is on `rd` while `snd_en` is up. -/
def coreinServer (g : Generics) : Server Corein CoreinIn Device RcvData RcvData where
  step := Corein.cycle g
  takes st i := if st.core.s.s = .read then some i.elRcvData else none
  gives st := if st.core.sndEn then some st.core.rd else none
  Idle st := st.core.s.s = .idle ∨ st.core.s.s = .read
  Rest := AtRest
  handle := Device.handle g
  Proper := UpdateInRange g

/-- A state of a route on which the hash unit is left alone. -/
structure Core.Plain (st : Core) : Prop where
  notIdle : st.s.s ≠ .idle
  notRead : st.s.s ≠ .read
  notHash : st.s.s ≠ .startHash
  quiet : st.sndEn = false

theorem coreinServer_busy {st : Corein} (hidle : st.core.s.s ≠ .idle) (hread : st.core.s.s ≠ .read)
    (hq : st.core.sndEn = false) : (coreinServer g).Busy st := by
  refine ⟨fun h => h.elim hidle hread, fun i => if_neg hread, ?_⟩
  show (if st.core.sndEn then some st.core.rd else none) = none
  rw [hq]
  rfl

/-- `siphash_start` is up in the period behind `StartHash`, and in no other. -/
theorem rcv_siphashStart {st : Core} {i : RcvIn} :
    (rcv g st i).siphashStart = decide (st.s.s = .startHash) := by
  unfold rcv
  cases hs : st.s.s
  case startHash => rfl
  all_goals first
    | rfl
    | (refine listState_cases (fun st' => st'.siphashStart = false) ?_ ?_ ?_ <;> intro _ <;> rfl)
    | (dsimp only; split_ifs <;> rfl)

/-- A route of the process on its own is one of the entity. -/
theorem plain_until {Q : Core → Prop} {st : Corein} (h : Until (rcv g) Core.Plain Q st.core) (hrest : Resting st) :
    Until (Corein.cycle g) (coreinServer g).Busy (fun st => Resting st ∧ Q st.core) st := by
  have hlift := h.lift (Corein.cycle g) Corein.core Corein.rcvIn (fun _ _ => rfl) Resting ?_ st rfl hrest
  · exact hlift.mono (fun st hst => coreinServer_busy hst.2.notIdle hst.2.notRead hst.2.quiet) fun _ hst => hst
  · intro st i hrest hplain _
    refine hrest.next (rcv_siphashStart.trans ?_)
    exact decide_eq_false hplain.notHash

/-! ## The filter route -/

/-- Where a packet of the filter route can be. -/
theorem carries_states {f : Filter} {st : Core} (h : Carries g f rd st) :
    st.s.s ≠ .read ∧ st.s.s ≠ .startHash := by
  cases h with
  | addressed hs _ _ _ | asked hs _ _ | counting hs _ _ | ready hs _ | sending hs _ | done hs _ =>
      rw [hs]
      decide
  | filtering hphase _ _ _ =>
      refine ⟨fun hs => ?_, fun hs => ?_⟩
      · rw [hs] at hphase
        cases hphase
      · rw [hs] at hphase
        cases hphase

/-- A packet that is neither the administrator's nor a query. -/
theorem filter_serves {st : Corein} (hd : d.f.InRange) (hadmin : rd.dstMAC ≠ g.adminMac)
    (hquery : rd.dstMAC ≠ g.queryMac) (hon : On d.f rd d.t st.core) (hs : st.core.s.s = .checkAdmin)
    (hrest : Resting st) : Until (Corein.cycle g) (coreinServer g).Busy ((coreinServer g).Answered d rd) st := by
  -- the verdict, with the packet followed on the way to it
  have hroute := (route_until (g := g) hd.endPtr_dvd hadmin hquery hon hs).keep (Carries g d.f rd)
    (fun st i hcarries hwork _ => carries_step hwork.2.2 hwork.1 hcarries)
    (.addressed hs hadmin hquery hon.data)
  have hplain := hroute.mono (fun st hst => show Core.Plain st from
    ⟨hst.2.1, (carries_states hst.1).1, (carries_states hst.1).2, hst.2.2.1⟩) fun _ hst => hst
  refine (plain_until hplain hrest).mono (fun _ hst => hst) ?_
  rintro st ⟨hrest, hcarries, hverdict⟩
  have hhandle : d.handle g rd = ({ d with t := d.f.count rd d.t.addStc },
      if d.f.accepts rd then some (sentOf g d.f.replyType rd) else none) := by
    rw [Device.handle, if_neg hadmin, if_neg hquery]
  have hrd : st.core.sndEn = true → st.core.rd = sentOf g d.f.replyType rd := by
    have hidle := hverdict.idle
    cases hcarries with
    | done _ hsent => exact hsent
    | addressed hs _ _ _ | asked hs _ _ | counting hs _ _ | ready hs _ | sending hs _ =>
        cases hidle.symm.trans hs
    | filtering hphase _ _ _ =>
        rw [hidle] at hphase
        cases hphase
  constructor
  · show AtRest (d.handle g rd).1 st
    rw [hhandle]
    exact ⟨.inl hverdict.idle, hrest, hverdict.filter, hverdict.tally, hd⟩
  · show (if st.core.sndEn then some st.core.rd else none) = (d.handle g rd).2
    rw [hhandle]
    have hsent := hverdict.sndEn
    cases hacc : d.f.accepts rd with
    | false =>
        rw [hacc] at hsent
        rw [hsent]
        rfl
    | true =>
        rw [hacc] at hsent
        rw [if_pos hsent, hrd hsent, if_pos rfl]

/-! ## The query route -/

/-- The payload after `n` of the 31 periods. -/
def replyTo (f : Filter) (t : Tally) (n : Nat) (p : BitVec 1024) : BitVec 1024 :=
  (List.range n).foldl (fun p k => replyStep f t k p) p

section Query
variable {f : Filter} {t : Tally} {p : BitVec 1024}

theorem replyTo_succ (n : Nat) : replyTo f t (n + 1) p = replyStep f t n (replyTo f t n p) := by
  rw [replyTo, List.range_succ, List.foldl_append]
  rfl

/-- Nothing is written behind bit 997. -/
theorem replyStep_high (n : Nat) {i : Nat} (hi : 998 ≤ i) :
    (replyStep f t n p).getLsbD i = p.getLsbD i := by
  have hput {w lo : Nat} {x : BitVec w} {q : BitVec 1024} (hlo : lo + w ≤ 998) :
      (setSlice q lo x).getLsbD i = q.getLsbD i := by
    rw [getLsbD_setSlice, if_neg (by omega)]
  rw [replyStep.eq_def]
  split <;> simp (disch := decide) only [put, putBit, hput]

/-- In the end the filter and the counters are in front, and the rest is the request's. -/
theorem replyTo_eq : replyTo f t 31 p = setSlice p 0 (field (stream (replySegments f t)) 0 998) := by
  have hlow : ∀ n, n ≤ 31 → Agrees (stream (replySegments f t)) (replyOffset n) (replyTo f t n p) := by
    intro n
    induction n with
    | zero => exact fun _ => .zero _ _
    | succ n ih =>
        intro hn
        rw [replyTo_succ]
        exact replyStep_agrees f t hn (ih (Nat.le_of_succ_le hn))
  have hhigh : ∀ n i, 998 ≤ i → (replyTo f t n p).getLsbD i = p.getLsbD i := by
    intro n i hi
    induction n with
    | zero => rfl
    | succ n ih => rw [replyTo_succ, replyStep_high n hi, ih]
  apply BitVec.eq_of_getLsbD_eq
  intro i hi
  rw [getLsbD_setSlice]
  by_cases hlt : i < 998
  · rw [if_pos ⟨hi, Nat.zero_le i, by omega⟩, getLsbD_field, Nat.sub_zero, decide_eq_true hlt, Bool.true_and,
      Nat.zero_add]
    exact hlow 31 (Nat.le_refl _) i hlt
  · rw [if_neg (by omega), hhigh 31 i (by omega)]

end Query

/-- Before period `n` of the reply. -/
structure Answering (d : Device) (rd : RcvData) (n : Nat) (st : Core) : Prop where
  pos : st.s.queryPos = some n
  filter : st.f = d.f
  tally : st.s.tally = d.t
  quiet : st.sndEn = false
  data : st.rd = { rd with ipLength := 201, dnsLength := 128, dnsPkt := replyTo d.f d.t n rd.dnsPkt }

/-- The reply is made, and waits to be sent or is. -/
structure Probed (d : Device) (rd : RcvData) (s : CoreState) (sent : Bool) (st : Core) : Prop where
  state : st.s.s = s
  filter : st.f = d.f
  tally : st.s.tally = d.t
  sndEn : st.sndEn = sent
  data : st.rd = probeReply d rd

theorem queryPos_plain {s : IState} {n : Nat} (h : s.queryPos = some n) : s.s ≠ .read ∧ s.s ≠ .startHash := by
  refine ⟨fun hs => ?_, fun hs => ?_⟩
  · rw [IState.queryPos, hs] at h
    cases h
  · rw [IState.queryPos, hs] at h
    cases h

section Query
variable {st : Core} {i : RcvIn} {n : Nat}

/-- One period. -/
theorem answering_step (hmac : rd.dstMAC = g.queryMac) (h : Answering d rd n st) :
    (n < 30 ∧ Answering d rd (n + 1) (rcv g st i)) ∨ (n = 30 ∧ Probed d rd .send false (rcv g st i)) := by
  have hstep := rcv_query (g := g) (i := i) h.pos
  have hdata : (rcv g st i).rd = { rd with
      ipLength := 201, dnsLength := 128, dnsPkt := replyTo d.f d.t (n + 1) rd.dnsPkt } := by
    rw [hstep.data, h.data, h.filter, h.tally, replyTo_succ, ← hmac, ite_self]
  rcases hstep.pos with ⟨hlt, hpos⟩ | ⟨rfl, hsend⟩
  · exact .inl ⟨hlt, hpos, hstep.filter.trans h.filter, hstep.tally.trans h.tally, hstep.quiet, hdata⟩
  · refine .inr ⟨rfl, hsend, hstep.filter.trans h.filter, hstep.tally.trans h.tally, hstep.quiet, ?_⟩
    rw [hdata, replyTo_eq]
    rfl

/-- The reply, by induction on the periods left. -/
theorem answering_until (hmac : rd.dstMAC = g.queryMac) (h : Answering d rd n st) (hn : n ≤ 30) :
    Until (rcv g) Core.Plain (Probed d rd .idle true) st := by
  obtain ⟨left, hleft⟩ : ∃ left, 30 = n + left := ⟨_, (Nat.add_sub_cancel' hn).symm⟩
  have hplain {n : Nat} {st : Core} (h : Answering d rd n st) : st.Plain :=
    ⟨IState.queryPos_ne_idle h.pos, (queryPos_plain h.pos).1, (queryPos_plain h.pos).2, h.quiet⟩
  induction left generalizing n st with
  | zero =>
      refine .later (hplain h) fun i => ?_
      rcases answering_step (i := i) hmac h with ⟨hlt, -⟩ | ⟨-, hmade⟩
      · omega
      · have hsend : (rcv g st i).Plain := by
          refine ⟨?_, ?_, ?_, hmade.sndEn⟩ <;> rw [hmade.state] <;> decide
        refine .later hsend fun i' => .here ?_
        obtain ⟨hidle, hf, hen, ht⟩ := rcv_send (g := g) (i := i') hmade.state
        exact ⟨hidle, hf.trans hmade.filter, ht.trans hmade.tally, hen, (rcv_send_rd hmade.state).trans hmade.data⟩
  | succ left ih =>
      refine .later (hplain h) fun i => ?_
      rcases answering_step (i := i) hmac h with ⟨hlt, hnext⟩ | ⟨hlast, -⟩
      · exact ih hnext hlt (by omega)
      · omega

end Query

/-- A query. -/
theorem query_serves {st : Corein} (hd : d.f.InRange) (hadmin : rd.dstMAC ≠ g.adminMac)
    (hquery : rd.dstMAC = g.queryMac) (hon : On d.f rd d.t st.core) (hs : st.core.s.s = .checkAdmin)
    (hrest : Resting st) : Until (Corein.cycle g) (coreinServer g).Busy ((coreinServer g).Answered d rd) st := by
  obtain ⟨hf, hrd, ht, hq⟩ := hon
  have hhandle : d.handle g rd = (d, some (probeReply d rd)) := by
    rw [Device.handle, if_neg hadmin, if_pos hquery]
  have hroute : Until (rcv g) Core.Plain (Probed d rd .idle true) st.core := by
    refine .later ⟨by simp [hs], by simp [hs], by simp [hs], hq⟩ fun i => ?_
    rw [rcv_checkAdmin hs, hrd, if_neg hadmin]
    refine .later ⟨nofun, nofun, nofun, rfl⟩ fun i' => ?_
    rw [rcv_checkQuery rfl, Core.tick_rd, hrd, if_pos hquery]
    refine .later ⟨nofun, nofun, nofun, rfl⟩ fun i'' => ?_
    rw [rcv_replyQueryHeader rfl]
    refine answering_until hquery ⟨rfl, hf, ht, rfl, ?_⟩ (Nat.zero_le _)
    rw [← hrd]
    rfl
  refine (plain_until hroute hrest).mono (fun _ hst => hst) ?_
  rintro st ⟨hrest, hprobed⟩
  constructor
  · show AtRest (d.handle g rd).1 st
    rw [hhandle]
    exact ⟨.inl hprobed.state, hrest, hprobed.filter, hprobed.tally, hd⟩
  · show (if st.core.sndEn then some st.core.rd else none) = (d.handle g rd).2
    rw [hhandle, if_pos hprobed.sndEn, hprobed.data]

/-! ## The administrator's route -/

def adminRoute : List Phase := [.addressed, .starting, .waiting, .checking, .updating, .idle]

/-- On the way of an administrator's packet. -/
structure OnAdmin (g : Generics) (t : Tally) (st : Core) : Prop where
  phase : st.s.s.phase ∈ adminRoute
  addressed : st.s.s = .checkAdmin → st.rd.dstMAC = g.adminMac
  quiet : st.sndEn = false
  tally : st.s.tally = t

/-- The update leaves the counters alone. -/
theorem rcv_update_tally {st : Core} {i : RcvIn} {n : Nat} (h : st.s.updatePos = some n) :
    (rcv g st i).s.tally = st.s.tally := by
  unfold IState.updatePos at h
  unfold rcv
  cases hs : st.s.s <;> rw [hs] at h <;> first | (cases h; done) | skip
  all_goals first
    | rfl
    | (refine listState_cases (fun st' => st'.s.tally = st.s.tally) ?_ ?_ ?_ <;> intro _ <;> rfl)

theorem IState.updatePos_of_phase {s : IState} (h : s.s.phase = .updating) : ∃ n, s.updatePos = some n := by
  unfold IState.updatePos
  cases hs : s.s <;> rw [hs] at h <;> first | (cases h; done) | exact ⟨_, rfl⟩

theorem CoreState.eq_of_admin {c : CoreState} : (c.phase = .addressed → c = .checkAdmin) ∧
    (c.phase = .starting → c = .startHash) ∧ (c.phase = .waiting → c = .waitHash) ∧
    (c.phase = .checking → c = .hashAuth) := by
  cases c <;> decide

/-- One period of it. -/
theorem onAdmin_step {st : Core} {i : RcvIn} {t : Tally} (h : OnAdmin g t st) (hbusy : st.s.s ≠ .idle) :
    OnAdmin g t (rcv g st i) := by
  have hquiet : (rcv g st i).sndEn = false := by
    rw [rcv_sndEn]
    refine decide_eq_false fun hs => ?_
    have hphase := h.phase
    rw [hs] at hphase
    exact absurd hphase (by decide)
  have hto (c : CoreState) {st' : Core} (hc : c.phase ∈ adminRoute ∧ c ≠ .checkAdmin) (hs : st'.s.s = c)
      (hq : st'.sndEn = false) (ht : st'.s.tally = st.s.tally) : OnAdmin g t st' :=
    ⟨by rw [hs]; exact hc.1, fun h => absurd (hs.symm.trans h) hc.2, hq, ht.trans h.tally⟩
  have hphase := h.phase
  simp only [adminRoute, List.mem_cons, List.not_mem_nil, or_false] at hphase
  rcases hphase with hp | hp | hp | hp | hp | hp
  · have hs := CoreState.eq_of_admin.1 hp
    have hstep := rcv_checkAdmin (g := g) (i := i) hs
    rw [if_pos (h.addressed hs)] at hstep
    rw [hstep]
    exact hto .startHash (by decide) rfl rfl rfl
  · have hs := CoreState.eq_of_admin.2.1 hp
    rw [rcv_startHash hs]
    exact hto .waitHash (by decide) rfl rfl rfl
  · have hs := CoreState.eq_of_admin.2.2.1 hp
    rw [rcv_waitHash hs]
    split_ifs
    · exact hto .hashAuth (by decide) rfl rfl rfl
    · exact hto .waitHash (by decide) rfl rfl rfl
  · have hs := CoreState.eq_of_admin.2.2.2 hp
    rw [rcv_hashAuth hs]
    split_ifs
    · exact hto .updateFilterSrcMACMeta (by decide) rfl rfl rfl
    · exact hto .idle (by decide) rfl rfl rfl
  · obtain ⟨n, hpos⟩ := IState.updatePos_of_phase hp
    have htally := rcv_update_tally (g := g) (i := i) hpos
    rcases (rcv_update (g := g) (i := i) hpos).pos with ⟨-, hnext⟩ | ⟨-, hidle⟩
    · have hnextPhase := IState.updatePos_phase hnext
      refine ⟨by rw [hnextPhase]; decide, fun hs => ?_, hquiet, htally.trans h.tally⟩
      rw [hs] at hnextPhase
      cases hnextPhase
    · exact hto .idle (by decide) hidle hquiet htally
  · exact absurd (CoreState.eq_of_phase.1 hp) hbusy

/-- A packet of the administrator's, with either answer of the hash. -/
theorem admin_serves {st : Corein} (hd : d.f.InRange) (hrange : UpdateInRange g rd)
    (hadmin : rd.dstMAC = g.adminMac) (hon : On d.f rd d.t st.core) (hs : st.core.s.s = .checkAdmin)
    (hrest : Resting st) : Until (Corein.cycle g) (coreinServer g).Busy ((coreinServer g).Answered d rd) st := by
  have hdst : st.core.rd.dstMAC = g.adminMac := by rw [hon.data, hadmin]
  have hroute := (admin_returns hs hrest hdst).first.keep
    (fun st => AuthInv g d.f [rd] st ∧ OnAdmin g d.t st.core) ?_
    ⟨@AuthInv.addressed _ _ [] _ _ hs hon.data hon.filter hrest, by rw [hs]; decide, fun _ => hdst, hon.quiet, hon.tally⟩
  · have hnotRead {st : Corein} (h : OnAdmin g d.t st.core) : st.core.s.s ≠ .read := by
      intro hread
      have hphase := h.phase
      rw [hread] at hphase
      exact absurd hphase (by decide)
    refine hroute.mono (fun st hst => coreinServer_busy hst.2.2 (hnotRead hst.1.2) hst.1.2.quiet) ?_
    rintro st ⟨⟨hauth, hroute⟩, hidle⟩
    have hfilter := hauth.of_idle hidle
    have hresting := hauth.resting (by rw [show st.core.s.s = .idle from hidle]; decide)
    have hhandle : d.handle g rd =
        (if Authentic g rd then { d with f := Filter.decode rd.dnsPkt.getLsbD } else d, none) := by
      rw [Device.handle, if_pos hadmin]
    constructor
    · show AtRest (d.handle g rd).1 st
      have hkeeps := handle_inRange hd hrange
      rw [hhandle] at hkeeps ⊢
      by_cases htag : Authentic g rd
      · rw [if_pos htag] at hkeeps ⊢
        exact ⟨.inl hidle, hresting, hfilter.trans (@filterAfter_authentic _ _ [] _ htag), hroute.tally, hkeeps⟩
      · rw [if_neg htag] at hkeeps ⊢
        exact ⟨.inl hidle, hresting, hfilter.trans (@filterAfter_other _ _ [] _ htag), hroute.tally, hkeeps⟩
    · show (if st.core.sndEn then some st.core.rd else none) = (d.handle g rd).2
      rw [hhandle, hroute.quiet]
      rfl
  · rintro st i ⟨hauth, hroute⟩ ⟨-, hidle⟩ -
    have hread : st.core.s.s ≠ .read := by
      intro hread
      have hphase := hroute.phase
      rw [hread] at hphase
      exact absurd hphase (by decide)
    have hnext := authInv_step (i := i) hauth
    rw [if_neg hread, List.append_nil] at hnext
    exact ⟨hnext, onAdmin_step hroute hidle⟩

/-! ## Runs -/

/-- `corein` serves one packet at a time. -/
theorem coreinServer_lawful (g : Generics) : (coreinServer g).Lawful where
  wait := by
    intro d st i hrest htake
    have hread : st.core.s.s ≠ .read := by
      intro hread
      rw [show (coreinServer g).takes st i = some i.elRcvData from if_pos hread] at htake
      cases htake
    have hidle : st.core.s.s = .idle := hrest.state.resolve_right hread
    have hcore : (st.cycle g i).core = rcv g st.core (st.rcvIn i) := rfl
    have hresting : Resting (st.cycle g i) :=
      hrest.resting.next (rcv_siphashStart.trans (by rw [hidle]; rfl))
    have hstep : rcv g st.core (st.rcvIn i) = { st.core.tick (st.rcvIn i) with
        s.s := if (st.rcvIn i).elRcvDv then .read else .idle } := by
      cases hdv : (st.rcvIn i).elRcvDv with
      | true => exact rcv_idle hidle hdv
      | false =>
          unfold rcv
          rw [hidle]
          simp only [hdv, Bool.false_eq_true, if_false]
          rfl
    refine ⟨⟨?_, hresting, ?_, ?_, hrest.inRange⟩, ?_⟩
    · show (rcv g st.core (st.rcvIn i)).s.s = .idle ∨ (rcv g st.core (st.rcvIn i)).s.s = .read
      rw [hstep]
      dsimp only
      split
      · exact .inr rfl
      · exact .inl rfl
    · show (rcv g st.core (st.rcvIn i)).f = d.f
      rw [hstep]
      exact hrest.filter
    · show (rcv g st.core (st.rcvIn i)).s.tally = d.t
      rw [hstep]
      exact hrest.tally
    · show (if (rcv g st.core (st.rcvIn i)).sndEn then some (rcv g st.core (st.rcvIn i)).rd else none) = none
      rw [hstep]
      rfl
  serve := by
    intro d st i rd hrest htake hproper
    have hread : st.core.s.s = .read := by
      by_contra hread
      rw [show (coreinServer g).takes st i = none from if_neg hread] at htake
      cases htake
    rw [show (coreinServer g).takes st i = some i.elRcvData from if_pos hread, Option.some.injEq] at htake
    have hcore : (st.cycle g i).core = { st.core.tick (st.rcvIn i) with
        rd := i.elRcvData, elRcvAck := true, s.s := .checkAdmin } := rcv_read hread
    have hresting : Resting (st.cycle g i) :=
      hrest.resting.next (rcv_siphashStart.trans (by rw [hread]; rfl))
    have hon : On d.f rd d.t (st.cycle g i).core := by
      rw [hcore]
      exact ⟨hrest.filter, htake, hrest.tally, rfl⟩
    have hs : (st.cycle g i).core.s.s = .checkAdmin := by rw [hcore]
    show Until (Corein.cycle g) _ _ (st.cycle g i)
    by_cases hadmin : rd.dstMAC = g.adminMac
    · exact admin_serves hrest.inRange hproper hadmin hon hs hresting
    · by_cases hquery : rd.dstMAC = g.queryMac
      · exact query_serves hrest.inRange hadmin hquery hon hs hresting
      · exact filter_serves hrest.inRange hadmin hquery hon hs hresting

theorem taken_eq_packets (st : Corein) (inp : Nat → CoreinIn) (n : Nat) :
    (coreinServer g).taken st inp n = packets g st inp n := by
  induction n with
  | zero => rfl
  | succ n ih =>
      rw [Server.taken, packets, ih]
      refine congrArg (packets g st inp n ++ ·) ?_
      show Option.toList (if (trace (Corein.cycle g) st inp n).core.s.s = .read then _ else none) = _
      split <;> rfl

/-- **`corein` is its device.**  From rest, whatever comes in: the packets sent are the answers of
the device to the packets read, in order and each once, but for the last packet while `corein` is
still at work on it; and in `Idle` the filter and the counters are those of the device. -/
theorem corein_refines (g : Generics) (d : Device) (st : Corein) (inp : Nat → CoreinIn) (n : Nat)
    (hst : AtRest d st) (hps : ∀ rd ∈ packets g st inp n, UpdateInRange g rd) :
    let ps := packets g st inp n
    let sent := (coreinServer g).given st inp n
    (answers (Device.handle g) d ps.dropLast <+: sent ∧ sent <+: answers (Device.handle g) d ps) ∧
      ((trace (Corein.cycle g) st inp n).core.s.s = .idle → sent = answers (Device.handle g) d ps ∧
        (trace (Corein.cycle g) st inp n).core.f = (after (Device.handle g) d ps).f ∧
        (trace (Corein.cycle g) st inp n).core.s.tally = (after (Device.handle g) d ps).t) := by
  intro ps sent
  have hserving := @Server.serving_run _ _ _ _ _ (coreinServer g) _ st inp (coreinServer_lawful g) hst n
    (by rw [taken_eq_packets]; exact hps)
  rw [taken_eq_packets] at hserving
  refine ⟨hserving.answered, fun hidle => ?_⟩
  obtain ⟨hsent, hrest⟩ := hserving.of_idle (.inl hidle)
  exact ⟨hsent, hrest.filter, hrest.tally⟩

theorem corein_refines_power_on : (coreinServer {}).given .init (fun _ => ⟨acceptedAtPowerOn, true⟩) 3000 <+:
    answers (Device.handle {}) ⟨.init, IState.init.tally⟩
      (packets {} .init (fun _ => ⟨acceptedAtPowerOn, true⟩) 3000) := by
  have hps : ∀ rd ∈ packets {} .init (fun _ => ⟨acceptedAtPowerOn, true⟩) 3000, UpdateInRange {} rd := by
    intro rd hmem hauth
    obtain ⟨k, rfl⟩ := mem_packets hmem
    exact absurd hauth.1 (by decide)
  exact (corein_refines {} ⟨.init, IState.init.tally⟩ .init _ 3000
    ⟨.inl rfl, ⟨rfl, rfl⟩, rfl, rfl, Filter.init_inRange⟩ hps).1.2

end DnsAdtm.Hw
