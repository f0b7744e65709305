/-
# `Hw.CoreinAuth` — only authenticated updates change the filter

`corein` reads one packet after another; which of them may write `f` is decided by the
hash unit, which the process starts and waits for.  The invariant (`Inv`) ties the
registers of the two machines to the packets read so far:

    Idle, Read, query route    f = filterAfter ps
    filter route               f = filterAfter ps, and the last packet is a normal one
    CheckAdmin .. HashAuth     f = filterAfter ps', the last packet is still pending
    WaitHash                   the hash unit is on its way to the hash of that packet
    UpdateFilter…              the last packet is authentic, and the first `n` of the 29
                               periods of the update are over

`filterAfter` says what the filter should be: the one carried by the last authentic
packet, or the initial one.  Freshness of the hash is the third and fourth line: the
wait is the `Until` of `hash_until`, started from this packet's bits.
-/
import DnsAdtm.Hw.CoreinVerdict
import DnsAdtm.Hw.FilterCodec
import DnsAdtm.Hw.SiphasherRun

namespace DnsAdtm.Hw

open Machine

variable {g : Generics} {st : Core} {i : RcvIn}

/-! ## What the filter should be -/

/-- An administrator's packet with the right tag. -/
def Authentic (g : Generics) (rd : RcvData) : Prop :=
  rd.dstMAC = g.adminMac ∧
    (downto rd.dnsPkt 1023 960 : BitVec 64) = hashOf g.adminKey (downto rd.dnsPkt 959 0)

instance {rd : RcvData} : Decidable (Authentic g rd) := inferInstanceAs (Decidable (_ ∧ _))

/-- The most recent authentic packet. -/
def lastAuthentic (g : Generics) (ps : List RcvData) : Option RcvData :=
  ps.reverse.find? fun rd => decide (Authentic g rd)

/-- The filter in force after the packets `ps`. -/
def filterAfter (g : Generics) (f₀ : Filter) (ps : List RcvData) : Filter :=
  match lastAuthentic g ps with
  | none => f₀
  | some rd => Filter.decode (downto rd.dnsPkt 677 0 : BitVec 678).getLsbD

variable {f₀ : Filter} {ps : List RcvData} {rd : RcvData}

theorem filterAfter_authentic (h : Authentic g rd) :
    filterAfter g f₀ (ps ++ [rd]) = Filter.decode rd.dnsPkt.getLsbD := by
  have hlast : lastAuthentic g (ps ++ [rd]) = some rd := by
    simp [lastAuthentic, h]
  rw [filterAfter, hlast]
  refine Filter.decode_congr fun n hn => ?_
  rw [getLsbD_downto, Nat.zero_add, decide_eq_true hn, Bool.true_and]

theorem filterAfter_other (h : ¬ Authentic g rd) :
    filterAfter g f₀ (ps ++ [rd]) = filterAfter g f₀ ps := by
  have hlast : lastAuthentic g (ps ++ [rd]) = lastAuthentic g ps := by
    simp [lastAuthentic, h]
  rw [filterAfter, hlast, filterAfter]

/-- The packets read in the first `n` periods, in order. -/
def packets (g : Generics) (st : Corein) (inp : Nat → CoreinIn) : Nat → List RcvData
  | 0 => []
  | n + 1 => packets g st inp n ++
      if (trace (Corein.cycle g) st inp n).core.s.s = .read then [(inp n).elRcvData] else []

/-- What is read was on the input. -/
theorem mem_packets {st : Corein} {inp : Nat → CoreinIn} {n : Nat} (h : rd ∈ packets g st inp n) :
    ∃ k, rd = (inp k).elRcvData := by
  induction n with
  | zero => exact absurd h List.not_mem_nil
  | succ n ih =>
      rcases List.mem_append.mp h with h | h
      · exact ih h
      · split at h
        · exact ⟨n, List.mem_singleton.mp h⟩
        · exact absurd h List.not_mem_nil

/-- An update that comes with a valid tag is in range. -/
def UpdateInRange (g : Generics) (rd : RcvData) : Prop :=
  Authentic g rd → (Filter.decode rd.dnsPkt.getLsbD).InRange

theorem filterAfter_inRange (hf : f₀.InRange) (hps : ∀ p ∈ ps, UpdateInRange g p) : (filterAfter g f₀ ps).InRange := by
  induction ps using List.reverseRecOn with
  | nil => exact hf
  | append_singleton ps rd ih =>
      have hrest := ih fun p hp => hps p (List.mem_append_left _ hp)
      by_cases hauth : Authentic g rd
      · rw [filterAfter_authentic hauth]
        exact hps rd (List.mem_append_right _ (List.mem_singleton.mpr rfl)) hauth
      · rw [filterAfter_other hauth]
        exact hrest

/-! ## The routes -/

/-- What the process is doing. -/
inductive Phase where
  | idle | reading | addressed | asked | querying | filtering | sending
  | starting | waiting | checking | updating
  deriving DecidableEq

def CoreState.phase : CoreState → Phase
  | .idle => .idle
  | .read => .reading
  | .checkAdmin => .addressed
  | .checkQuery => .asked
  | .replyQueryHeader
  | .replyQuerySrcMACMeta | .replyQuerySrcMACList
  | .replyQueryDstMACMeta | .replyQueryDstMACList
  | .replyQuerySrcIPMeta | .replyQuerySrcIPList
  | .replyQueryDstIPMeta | .replyQueryDstIPList
  | .replyQuerySrcPortMeta | .replyQuerySrcPortList
  | .replyQueryDstPortMeta | .replyQueryDstPortList
  | .replyQueryDNSMeta | .replyQueryDNSList
  | .replyQueryReplyType | .replyQueryCountersTot | .replyQueryCountersSeg => .querying
  | .startHash => .starting
  | .waitHash => .waiting
  | .hashAuth => .checking
  | .updateFilterSrcMACMeta | .updateFilterSrcMACList
  | .updateFilterDstMACMeta | .updateFilterDstMACList
  | .updateFilterSrcIPMeta | .updateFilterSrcIPList
  | .updateFilterDstIPMeta | .updateFilterDstIPList
  | .updateFilterSrcPortMeta | .updateFilterSrcPortList
  | .updateFilterDstPortMeta | .updateFilterDstPortList
  | .updateFilterDNSMeta | .updateFilterDNSList
  | .updateReplyType => .updating
  | .send => .sending
  | _ => .filtering

/-- What holds in the three cases of a list state. -/
theorem listState_cases (P : Core → Prop) {cnt : Nat} {setCnt : Nat → IState → IState}
    {entry : Nat → Core → Core} {next : CoreState} {o : Core}
    (h0 : cnt = 0 → P { entry 0 o with s := setCnt (cnt + 1) o.s })
    (h1 : cnt = 1 → P { entry 1 o with s := setCnt (cnt + 1) o.s })
    (h2 : 2 ≤ cnt → P { o with s.s := next }) :
    P (listState cnt setCnt entry next o) := by
  unfold listState
  split
  · exact h0 ‹_›
  split
  · exact h1 ‹_›
  · exact h2 (by omega)

/-- A period of the query or the filter route: nothing happens to the filter, and the
process stays on its route or leaves it for `Send` or `Idle`. -/
structure OnRoute (p : Phase) (st st' : Core) : Prop where
  filter : st'.f = st.f
  start : st'.siphashStart = false
  phase : st'.s.s.phase = p ∨ st'.s.s.phase = .sending ∨ st'.s.s.phase = .idle

/-- One case for each state of the two routes; the branches differ in what they assign
to registers other than these three. -/
theorem rcv_route (h : st.s.s.phase = .querying ∨ st.s.s.phase = .filtering ∨
    st.s.s.phase = .sending) : OnRoute st.s.s.phase st (rcv g st i) := by
  unfold rcv
  cases hs : st.s.s <;> rw [hs] at h <;> first | exact absurd h (by decide) | skip
  all_goals first
    | exact ⟨rfl, rfl, .inl rfl⟩
    | exact ⟨rfl, rfl, .inr (.inl rfl)⟩
    | exact ⟨rfl, rfl, .inr (.inr rfl)⟩
    | (refine listState_cases _ ?_ ?_ ?_ <;> intro _ <;> refine ⟨rfl, rfl, .inl ?_⟩ <;>
        first | rfl | exact congrArg CoreState.phase hs)
    | (dsimp only [Stage.doCheck, Stage.doCmp, Stage.doMatch, cmpPktArea]
       split_ifs <;> first | exact ⟨rfl, rfl, .inl rfl⟩ | exact ⟨rfl, rfl, .inr (.inr rfl)⟩)

/-- How many of the 29 periods of the update are over. -/
def IState.updatePos (s : IState) : Option Nat :=
  match s.s with
  | .updateFilterSrcMACMeta => some 0
  | .updateFilterSrcMACList => some (1 + min s.amc 2)
  | .updateFilterDstMACMeta => some 4
  | .updateFilterDstMACList => some (5 + min s.amc 2)
  | .updateFilterSrcIPMeta => some 8
  | .updateFilterSrcIPList => some (9 + min s.aic 2)
  | .updateFilterDstIPMeta => some 12
  | .updateFilterDstIPList => some (13 + min s.aic 2)
  | .updateFilterSrcPortMeta => some 16
  | .updateFilterSrcPortList => some (17 + min s.apc 2)
  | .updateFilterDstPortMeta => some 20
  | .updateFilterDstPortList => some (21 + min s.apc 2)
  | .updateFilterDNSMeta => some 24
  | .updateFilterDNSList => some (25 + min s.adc 2)
  | .updateReplyType => some 28
  | _ => none

/-- Period `n` of the update: `f` gets its part of the packet, and the process goes on to
the next period, or to `Idle` after the last. -/
structure Updates (n : Nat) (st st' : Core) : Prop where
  filter : st'.f = Filter.updateStep st.rd.dnsPkt n st.f
  data : st'.rd = st.rd
  start : st'.siphashStart = false
  quiet : st'.sndEn = false
  pos : (n < 28 ∧ st'.s.updatePos = some (n + 1)) ∨ (n = 28 ∧ st'.s.s = .idle)

/-- One case for each state: seven heads of lists, seven list states, the reply type. -/
theorem rcv_update {n : Nat} (h : st.s.updatePos = some n) : Updates n st (rcv g st i) := by
  unfold IState.updatePos at h
  unfold rcv
  cases hs : st.s.s <;> rw [hs] at h <;> first | (cases h; done) | skip
  case updateReplyType =>
    cases h
    exact ⟨rfl, rfl, rfl, rfl, .inr ⟨rfl, rfl⟩⟩
  all_goals first
    | (cases h; exact ⟨rfl, rfl, rfl, rfl, .inl ⟨by decide, rfl⟩⟩)
    | (refine listState_cases _ ?_ ?_ ?_ <;> intro hc <;> rw [Option.some.injEq] at h
       · rw [hc] at h
         subst h
         exact ⟨rfl, rfl, rfl, rfl, .inl ⟨by decide, by simp [IState.updatePos, hs, hc, setAmc, setAic, setApc, setAdc]⟩⟩
       · rw [hc] at h
         subst h
         exact ⟨rfl, rfl, rfl, rfl, .inl ⟨by decide, by simp [IState.updatePos, hs, hc, setAmc, setAic, setApc, setAdc]⟩⟩
       · rw [Nat.min_eq_right hc] at h
         subst h
         exact ⟨rfl, rfl, rfl, rfl, .inl ⟨by decide, rfl⟩⟩)

/-! ## The invariant -/

/-- The hash unit is at rest, and not about to be started. -/
structure Resting (st : Corein) : Prop where
  hash : st.hash.s.s = .idle
  start : st.core.siphashStart = false

/-- The hash unit is on its way to `h`: told to start, or started. -/
def Hashing (h : BitVec 64) (st : Corein) : Prop :=
  (st.core.siphashStart = true ∧ st.hash.s.s = .idle ∧ st.hash.outReady = false) ∨
    (st.core.siphashStart = false ∧
      Until Siphasher.cycle Siphasher.Busy (Siphasher.Done h) st.hash)

/-- The hash of a packet. -/
def tagOf (g : Generics) (rd : RcvData) : BitVec 64 :=
  hashOf g.adminKey (downto rd.dnsPkt 959 0)

/-- The registers, after the packets `ps` have been read. -/
inductive AuthInv (g : Generics) (f₀ : Filter) : List RcvData → Corein → Prop
  | quiet {ps : List RcvData} {st : Corein} :
      st.core.s.s.phase ∈ [Phase.idle, .reading, .querying, .sending] →
      st.core.f = filterAfter g f₀ ps → Resting st → AuthInv g f₀ ps st
  | addressed {ps : List RcvData} {rd : RcvData} {st : Corein} :
      st.core.s.s = .checkAdmin → st.core.rd = rd →
      st.core.f = filterAfter g f₀ ps → Resting st → AuthInv g f₀ (ps ++ [rd]) st
  | asked {ps : List RcvData} {rd : RcvData} {st : Corein} :
      st.core.s.s = .checkQuery → st.core.rd = rd → rd.dstMAC ≠ g.adminMac →
      st.core.f = filterAfter g f₀ ps → Resting st → AuthInv g f₀ (ps ++ [rd]) st
  | filtering {ps : List RcvData} {rd : RcvData} {st : Corein} :
      st.core.s.s.phase = .filtering → rd.dstMAC ≠ g.adminMac → rd.dstMAC ≠ g.queryMac →
      st.core.f = filterAfter g f₀ ps → Resting st → AuthInv g f₀ (ps ++ [rd]) st
  | starting {ps : List RcvData} {rd : RcvData} {st : Corein} :
      st.core.s.s = .startHash → st.core.rd = rd → rd.dstMAC = g.adminMac →
      st.core.f = filterAfter g f₀ ps → Resting st → AuthInv g f₀ (ps ++ [rd]) st
  | waiting {ps : List RcvData} {rd : RcvData} {st : Corein} :
      st.core.s.s = .waitHash → st.core.rd = rd → rd.dstMAC = g.adminMac →
      st.core.f = filterAfter g f₀ ps → Hashing (tagOf g rd) st → AuthInv g f₀ (ps ++ [rd]) st
  | checking {ps : List RcvData} {rd : RcvData} {st : Corein} :
      st.core.s.s = .hashAuth → st.core.rd = rd → rd.dstMAC = g.adminMac →
      st.core.f = filterAfter g f₀ ps → st.core.ahv = tagOf g rd → Resting st →
      AuthInv g f₀ (ps ++ [rd]) st
  | updating {ps : List RcvData} {rd : RcvData} {n : Nat} {st : Corein} :
      st.core.s.updatePos = some n → st.core.rd = rd → Authentic g rd →
      st.core.f = Filter.updated rd.dnsPkt (filterAfter g f₀ ps) n → Resting st →
      AuthInv g f₀ (ps ++ [rd]) st

/-- A hash unit at rest stays so while it is not started. -/
theorem Resting.next {st : Corein} {i : CoreinIn} (h : Resting st)
    (hstart : (rcv g st.core (st.rcvIn i)).siphashStart = false) : Resting (st.cycle g i) :=
  ⟨(idle_stays h.hash h.start).1, hstart⟩

theorem rcv_startHash (h : st.s.s = .startHash) :
    rcv g st i = { st.tick i with siphashStart := true, s.s := .waitHash } := by
  unfold rcv
  rw [h]
  rfl

theorem rcv_waitHash (h : st.s.s = .waitHash) : rcv g st i =
    if i.siphashReady then { st.tick i with s.s := .hashAuth }
    else { st.tick i with s.s := .waitHash } := by
  unfold rcv
  rw [h]
  rfl

theorem rcv_hashAuth (h : st.s.s = .hashAuth) : rcv g st i =
    if st.ahv = downto st.rd.dnsPkt 1023 960 then { st.tick i with s.s := .updateFilterSrcMACMeta }
    else { st.tick i with s.led := 0x8, s.s := .idle } := by
  unfold rcv
  rw [h]
  rfl

/-- Waiting: the unit takes the start, works on, or hands its result over. -/
theorem waiting_step {st : Corein} {i : CoreinIn} (hs : st.core.s.s = .waitHash)
    (h : Hashing (tagOf g st.core.rd) st) :
    (st.cycle g i).core.rd = st.core.rd ∧ (st.cycle g i).core.f = st.core.f ∧
      (((st.cycle g i).core.s.s = .waitHash ∧ Hashing (tagOf g st.core.rd) (st.cycle g i)) ∨
        ((st.cycle g i).core.s.s = .hashAuth ∧ (st.cycle g i).core.ahv = tagOf g st.core.rd ∧
          Resting (st.cycle g i))) := by
  have hcore : (st.cycle g i).core = rcv g st.core (st.rcvIn i) := rfl
  have hhash : (st.cycle g i).hash = st.hash.cycle (st.hashIn g) := rfl
  have hready : (st.rcvIn i).siphashReady = st.hash.outReady := rfl
  rw [hcore, rcv_waitHash hs, hready]
  rcases h with ⟨hstart, hidle, hlow⟩ | ⟨hstart, hunt⟩
  · -- the start pulse is sampled in this period
    rw [hlow, if_neg (by decide)]
    refine ⟨rfl, rfl, .inl ⟨rfl, .inr ⟨?_, ?_⟩⟩⟩
    · rw [hcore, rcv_waitHash hs, hready, hlow, if_neg (by decide)]
      rfl
    · rw [hhash]
      exact hash_until st.hash hidle (st.hashIn g) hstart
  · by_cases hdone : Siphasher.Done (tagOf g st.core.rd) st.hash
    · -- the hash is there
      obtain ⟨hhigh, hidle, hout⟩ := hdone
      rw [hhigh, if_pos rfl]
      refine ⟨rfl, rfl, .inr ⟨rfl, hout, ?_, ?_⟩⟩
      · rw [hhash]
        exact (idle_stays hidle hstart).1
      · rw [hcore, rcv_waitHash hs, hready, hhigh, if_pos rfl]
        rfl
    · have hlow := (hunt.holds_of_not hdone).1
      rw [hlow, if_neg (by decide)]
      refine ⟨rfl, rfl, .inl ⟨rfl, .inr ⟨?_, ?_⟩⟩⟩
      · rw [hcore, rcv_waitHash hs, hready, hlow, if_neg (by decide)]
        rfl
      · rw [hhash]
        exact hunt.step_of_not hdone _

theorem CoreState.eq_of_phase {c : CoreState} :
    (c.phase = .idle → c = .idle) ∧ (c.phase = .reading → c = .read) := by
  cases c <;> decide

theorem CoreState.eq_send {c : CoreState} (h : c.phase = .sending) : c = .send := by
  cases c <;> first | rfl | cases h

/-- A state of the update is none of the others. -/
theorem IState.updatePos_phase {s : IState} {n : Nat} (h : s.updatePos = some n) :
    s.s.phase = .updating := by
  unfold IState.updatePos at h
  cases hs : s.s <;> rw [hs] at h <;> first | rfl | cases h

/-- The invariant is kept by every period. -/
theorem authInv_step {st : Corein} {i : CoreinIn} (h : AuthInv g f₀ ps st) :
    AuthInv g f₀ (ps ++ if st.core.s.s = .read then [i.elRcvData] else []) (st.cycle g i) := by
  have hcore : (st.cycle g i).core = rcv g st.core (st.rcvIn i) := rfl
  by_cases hread : st.core.s.s = .read
  · -- the next packet comes in
    rw [if_pos hread]
    cases h with
    | quiet hphase hf hrest =>
        refine .addressed ?_ ?_ ?_ (hrest.next ?_) <;> simp only [hcore, rcv_read hread]
        · rfl
        · exact hf
        · rfl
    | filtering hphase _ _ _ _ => simp [hread, CoreState.phase] at hphase
    | updating hw _ _ _ _ => simp [IState.updatePos, hread] at hw
    | _ hs => simp [hread] at hs
  rw [if_neg hread, List.append_nil]
  cases h with
  | quiet hphase hf hrest =>
      by_cases hidle : st.core.s.s = .idle
      · cases hdv : (st.rcvIn i).elRcvDv with
        | true =>
            refine .quiet ?_ ?_ (hrest.next ?_) <;> simp only [hcore, rcv_idle hidle hdv]
            · decide
            · exact hf
            · rfl
        | false =>
            have hstep : rcv g st.core (st.rcvIn i) = { st.core.tick (st.rcvIn i) with s.s := .idle } := by
              unfold rcv
              rw [hidle]
              simp only [hdv, Bool.false_eq_true, if_false]
              rfl
            refine .quiet ?_ ?_ (hrest.next ?_) <;> simp only [hcore, hstep]
            · decide
            · exact hf
            · rfl
      · have hp : st.core.s.s.phase = .querying ∨ st.core.s.s.phase = .sending := by
          simp only [List.mem_cons, List.not_mem_nil, or_false] at hphase
          rcases hphase with h | h | h | h
          · exact absurd (CoreState.eq_of_phase.1 h) hidle
          · exact absurd (CoreState.eq_of_phase.2 h) hread
          · exact .inl h
          · exact .inr h
        have hroute := rcv_route (g := g) (i := st.rcvIn i) (show st.core.s.s.phase = .querying ∨
          st.core.s.s.phase = .filtering ∨ st.core.s.s.phase = .sending by tauto)
        refine .quiet ?_ ?_ (hrest.next hroute.start)
        · rw [hcore]
          rcases hroute.phase with h | h | h <;> rw [h]
          · rcases hp with h | h <;> rw [h] <;> decide
          · decide
          · decide
        · rw [hcore, hroute.filter, hf]
  | addressed hs hrd hf hrest =>
      subst hrd
      by_cases hadmin : st.core.rd.dstMAC = g.adminMac
      · refine .starting ?_ ?_ hadmin ?_ (hrest.next ?_) <;>
          simp only [hcore, rcv_checkAdmin hs, if_pos hadmin]
        · rfl
        · exact hf
        · rfl
      · refine .asked ?_ ?_ hadmin ?_ (hrest.next ?_) <;>
          simp only [hcore, rcv_checkAdmin hs, if_neg hadmin]
        · rfl
        · exact hf
        · rfl
  | @asked ps rd _ hs hrd hadmin hf hrest =>
      subst hrd
      by_cases hquery : st.core.rd.dstMAC = g.queryMac
      · have hother : ¬ Authentic g st.core.rd := fun ha => hadmin ha.1
        refine .quiet ?_ ?_ (hrest.next ?_) <;>
          simp only [hcore, rcv_checkQuery hs, if_pos hquery, filterAfter_other hother]
        · decide
        · exact hf
        · rfl
      · refine .filtering ?_ hadmin hquery ?_ (hrest.next ?_) <;>
          simp only [hcore, rcv_checkQuery hs, if_neg hquery]
        · rfl
        · exact hf
        · rfl
  | filtering hphase hadmin hquery hf hrest =>
      have hroute := rcv_route (g := g) (i := st.rcvIn i) (.inr (.inl hphase))
      have hother : ¬ Authentic g _ := fun ha => hadmin ha.1
      rcases hroute.phase with h | h
      · refine .filtering ?_ hadmin hquery ?_ (hrest.next hroute.start)
        · rw [hcore, h, hphase]
        · rw [hcore, hroute.filter, hf]
      · refine .quiet ?_ ?_ (hrest.next hroute.start)
        · rw [hcore]
          rcases h with h | h <;> rw [h] <;> decide
        · rw [hcore, hroute.filter, hf, filterAfter_other hother]
  | starting hs hrd hadmin hf hrest =>
      have hstart : (rcv g st.core (st.rcvIn i)).siphashStart = true := by rw [rcv_startHash hs]
      obtain ⟨hidle, hlow, _⟩ := idle_stays hrest.hash (i := st.hashIn g) hrest.start
      refine .waiting ?_ ?_ hadmin ?_ (.inl ⟨hstart, hidle, hlow⟩) <;>
        simp only [hcore, rcv_startHash hs]
      · exact hrd
      · exact hf
  | waiting hs hrd hadmin hf hhash =>
      subst hrd
      obtain ⟨hrd', hf', ⟨hs', hhash'⟩ | ⟨hs', hahv, hrest⟩⟩ := waiting_step (i := i) hs hhash
      · exact .waiting hs' hrd' hadmin (hf'.trans hf) hhash'
      · exact .checking hs' hrd' hadmin (hf'.trans hf) hahv hrest
  | checking hs hrd hadmin hf hahv hrest =>
      subst hrd
      by_cases htag : st.core.ahv = downto st.core.rd.dnsPkt 1023 960
      · have hauth : Authentic g st.core.rd := ⟨hadmin, by rw [← htag, hahv]; rfl⟩
        have hw : (rcv g st.core (st.rcvIn i)).s.updatePos = some 0 := by
          rw [rcv_hashAuth hs, if_pos htag]
          rfl
        refine .updating hw ?_ hauth ?_ (hrest.next ?_) <;>
          simp only [hcore, rcv_hashAuth hs, if_pos htag]
        · rfl
        · exact hf
        · rfl
      · have hother : ¬ Authentic g st.core.rd := fun ha => htag (by rw [hahv, ha.2]; rfl)
        refine .quiet ?_ ?_ (hrest.next ?_) <;>
          simp only [hcore, rcv_hashAuth hs, if_neg htag, filterAfter_other hother]
        · decide
        · exact hf
        · rfl
  | updating hw hrd hauth hf hrest =>
      subst hrd
      have hupd := rcv_update (g := g) (i := st.rcvIn i) hw
      rcases hupd.pos with ⟨_, hw'⟩ | ⟨rfl, hs'⟩
      · refine .updating hw' hupd.data hauth ?_ (hrest.next hupd.start)
        rw [hcore, hupd.filter, hf]
        rfl
      · refine .quiet ?_ ?_ (hrest.next hupd.start)
        · rw [hcore, hs']
          exact List.mem_cons_self ..
        · rw [hcore, hupd.filter, hf, filterAfter_authentic hauth, ← Filter.updated_eq_decode _
            (filterAfter g f₀ _)]
          rfl

/-- The invariant holds in every run from power-on. -/
theorem authInv_trace (g : Generics) (inp : Nat → CoreinIn) (n : Nat) :
    AuthInv g Filter.init (packets g .init inp n) (trace (Corein.cycle g) .init inp n) := by
  induction n with
  | zero => exact .quiet (List.mem_cons_self ..) rfl ⟨rfl, rfl⟩
  | succ n ih => exact authInv_step ih

/-- Between updates the filter is that of the packets before. -/
theorem AuthInv.filter {st : Corein} (h : AuthInv g f₀ ps st) (hs : st.core.s.s.phase ≠ .updating) :
    ∃ ps', ps' <+: ps ∧ st.core.f = filterAfter g f₀ ps' := by
  cases h with
  | quiet _ hf _ => exact ⟨_, List.prefix_refl _, hf⟩
  | addressed _ _ hf _ => exact ⟨_, List.prefix_append _ _, hf⟩
  | asked _ _ _ hf _ => exact ⟨_, List.prefix_append _ _, hf⟩
  | filtering _ _ _ hf _ => exact ⟨_, List.prefix_append _ _, hf⟩
  | starting _ _ _ hf _ => exact ⟨_, List.prefix_append _ _, hf⟩
  | waiting _ _ _ hf _ => exact ⟨_, List.prefix_append _ _, hf⟩
  | checking _ _ _ hf _ _ => exact ⟨_, List.prefix_append _ _, hf⟩
  | updating hpos _ _ _ _ => exact absurd (IState.updatePos_phase hpos) hs

theorem AuthInv.filter_inRange {st : Corein} (h : AuthInv g f₀ ps st) (hf : f₀.InRange)
    (hps : ∀ p ∈ ps, UpdateInRange g p) (hs : st.core.s.s.phase ≠ .updating) : st.core.f.InRange := by
  obtain ⟨ps', hbefore, hfilter⟩ := h.filter hs
  rw [hfilter]
  exact filterAfter_inRange hf fun p hp => hps p (hbefore.subset hp)

/-! ## What follows of a run -/

/-- Only the states of the update assign to `f`. -/
theorem rcv_filter_eq (h : st.s.s.phase ≠ .updating) : (rcv g st i).f = st.f := by
  by_cases hroute : st.s.s.phase = .querying ∨ st.s.s.phase = .filtering ∨ st.s.s.phase = .sending
  · exact (rcv_route hroute).filter
  unfold rcv
  cases hs : st.s.s <;> rw [hs] at h hroute <;>
    first | exact absurd rfl h | exact absurd (by decide) hroute | skip
  all_goals first | rfl | (dsimp only; split <;> rfl)

section Run
variable {st : Corein} (h : AuthInv g f₀ ps st)
include h

theorem AuthInv.of_idle (hs : st.core.s.s = .idle) : st.core.f = filterAfter g f₀ ps := by
  cases h with
  | quiet _ hf _ => exact hf
  | filtering hphase _ _ _ _ => simp [hs, CoreState.phase] at hphase
  | updating hw _ _ _ _ => simp [IState.updatePos, hs] at hw
  | _ hs' => simp [hs] at hs'

/-- The hash unit is only busy while the process waits for it. -/
theorem AuthInv.resting (hs : st.core.s.s ≠ .waitHash) : Resting st := by
  cases h with
  | waiting hs' => exact absurd hs' hs
  | quiet _ _ hrest => exact hrest
  | addressed _ _ _ hrest => exact hrest
  | asked _ _ _ _ hrest => exact hrest
  | filtering _ _ _ _ hrest => exact hrest
  | starting _ _ _ _ hrest => exact hrest
  | checking _ _ _ _ _ hrest => exact hrest
  | updating _ _ _ _ hrest => exact hrest

/-- A packet on the filter route is a normal one, and the filter is whole. -/
theorem AuthInv.of_filtering (hs : st.core.s.s.phase = .filtering) :
    ∃ ps' rd, ps = ps' ++ [rd] ∧ rd.dstMAC ≠ g.adminMac ∧ rd.dstMAC ≠ g.queryMac ∧
      st.core.f = filterAfter g f₀ ps' := by
  cases h with
  | quiet hphase _ _ => simp [hs] at hphase
  | filtering _ hadmin hquery hf _ => exact ⟨_, _, rfl, hadmin, hquery, hf⟩
  | updating hw _ _ _ _ =>
      have hphase := IState.updatePos_phase hw
      rw [hs] at hphase
      cases hphase
  | _ hs' => simp [hs', CoreState.phase] at hs

theorem AuthInv.of_updating (hs : st.core.s.s.phase = .updating) :
    ∃ ps' rd, ps = ps' ++ [rd] ∧ Authentic g rd := by
  cases h with
  | quiet hphase _ _ => simp [hs] at hphase
  | filtering hphase _ _ _ _ => simp [hs] at hphase
  | updating _ _ hauth _ _ => exact ⟨_, _, rfl, hauth⟩
  | _ hs' => simp [hs', CoreState.phase] at hs

theorem AuthInv.of_hashAuth (hs : st.core.s.s = .hashAuth) :
    ∃ ps' rd, ps = ps' ++ [rd] ∧ st.core.rd = rd ∧
      st.core.ahv = hashOf g.adminKey (downto rd.dnsPkt 959 0) := by
  cases h with
  | quiet hphase _ _ => simp [hs, CoreState.phase] at hphase
  | filtering hphase _ _ _ _ => simp [hs, CoreState.phase] at hphase
  | updating hw _ _ _ _ => simp [IState.updatePos, hs] at hw
  | checking _ hrd _ _ hahv _ => exact ⟨_, _, rfl, hrd, hahv⟩
  | _ hs' => simp [hs] at hs'

end Run

/-- **Only authenticated updates change the filter.**  In every run from power-on, with
`ps` the packets read so far: in `Idle` the filter is that of the last authentic packet,
or the initial one; in the states of the filter route, too, and the packet being judged
is a normal one; a period changes `f` only while an authentic packet is processed; and
what `HashAuth` compares is the hash of the packet being processed. -/
theorem corein_only_authentic (g : Generics) (inp : Nat → CoreinIn) (n : Nat) :
    let st := trace (Corein.cycle g) .init inp n
    let ps := packets g .init inp n
    (st.core.s.s = .idle → st.core.f = filterAfter g Filter.init ps) ∧
    (st.core.s.s.phase = .filtering → st.core.f = filterAfter g Filter.init ps ∧
      ∃ ps' rd, ps = ps' ++ [rd] ∧ rd.dstMAC ≠ g.adminMac ∧ rd.dstMAC ≠ g.queryMac ∧
        st.core.f = filterAfter g Filter.init ps') ∧
    ((trace (Corein.cycle g) .init inp (n + 1)).core.f ≠ st.core.f →
      ∃ ps' rd, ps = ps' ++ [rd] ∧ Authentic g rd) ∧
    (st.core.s.s = .hashAuth →
      ∃ ps' rd, ps = ps' ++ [rd] ∧ st.core.rd = rd ∧
        st.core.ahv = hashOf g.adminKey (downto rd.dnsPkt 959 0)) := by
  intro st ps
  have hinv : AuthInv g Filter.init ps st := authInv_trace g inp n
  refine ⟨hinv.of_idle, ?_, ?_, hinv.of_hashAuth⟩
  · intro hs
    obtain ⟨ps', rd, hps, hadmin, hquery, hf⟩ := hinv.of_filtering hs
    refine ⟨?_, ps', rd, hps, hadmin, hquery, hf⟩
    rw [hps, filterAfter_other fun ha => hadmin ha.1, hf]
  · intro hchange
    refine hinv.of_updating ?_
    by_contra hs
    exact hchange (rcv_filter_eq hs)

end DnsAdtm.Hw
