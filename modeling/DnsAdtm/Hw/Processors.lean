/-
# `Hw.Processors` — the two core processors of `main.vhd`

`corein` hands a packet to `coreout` by `snd_en` alone: there is no acknowledge, and
`coreout` looks at the flag in `Idle` only.  Nothing is lost because `corein` is slower.
`CoreState.lead` says how many periods it needs at least until its next `snd_en`, and
`OutState.left` how many `coreout` needs until `Idle`; in every reachable state the second
is at most the first (`Paced`).

    send_handed   every packet sent is made a `snd_data_t`, nine periods later, and
                  there is no other
-/
import DnsAdtm.Hw.CoreinQuery
import DnsAdtm.Hw.Coreout

namespace DnsAdtm.Hw

open Machine

variable {g : Generics} {gReplyMac : BitVec 48}

/-- `ci : corein` and `co : coreout`. -/
structure Processors where
  ci : Corein
  co : Coreout
  deriving DecidableEq, Repr

/-- What `coreout` samples: `core_io_data` and `core_io_dv`. -/
def Processors.outIn (st : Processors) : OutIn where
  rcvData := st.ci.core.rd
  rcvDataDv := st.ci.core.sndEn

/-- One period of `clk50`. -/
def Processors.cycle (g : Generics) (gReplyMac : BitVec 48) (st : Processors) (i : CoreinIn) :
    Processors where
  ci := st.ci.cycle g i
  co := st.co.cycle gReplyMac st.outIn

/-- The power-on registers, but for the filter and the counters. -/
def Processors.start (f : Filter) (t : Tally) : Processors where
  ci := { Corein.init with
    core.f := f
    core.s := { IState.init with stc := t.stc, sfc := t.sfc, smc := t.smc, sic := t.sic, spc := t.spc } }
  co := .init

/-- In a run of the two, process `rcv` runs on from period `n` as it does on its own. -/
theorem core_trace_add (st : Processors) (inp : Nat → CoreinIn) (n k : Nat) :
    let tr := trace (Processors.cycle g gReplyMac) st inp
    (tr (n + k)).ci.core = trace (rcv g) (tr n).ci.core
      (fun j => (tr (n + j)).ci.rcvIn (inp (n + j))) k := by
  intro tr
  show (trace (Processors.cycle g gReplyMac) st inp (n + k)).ci.core = _
  rw [trace_add]
  refine (trace_proj (rcv g) (fun st : Processors => st.ci.core) (fun st i => st.ci.rcvIn i)
    (fun _ _ => rfl) _ _ k).trans ?_
  simp only [← trace_add]
  rfl

/-- And so does `coreout`. -/
theorem co_trace_add (st : Processors) (inp : Nat → CoreinIn) (n k : Nat) :
    let tr := trace (Processors.cycle g gReplyMac) st inp
    (tr (n + k)).co = trace (Coreout.cycle gReplyMac) (tr n).co (fun j => (tr (n + j)).outIn) k := by
  intro tr
  show (trace (Processors.cycle g gReplyMac) st inp (n + k)).co = _
  rw [trace_add]
  refine (trace_proj (Coreout.cycle gReplyMac) Processors.co (fun st _ => st.outIn)
    (fun _ _ => rfl) _ _ k).trans ?_
  simp only [← trace_add]
  rfl

/-! ## The pace of `corein` -/

/-- A lower bound on the number of periods until the next `snd_en`. -/
def CoreState.lead : CoreState → Nat
  | .read => 7
  | .checkAdmin => 6
  | .checkQuery => 5
  | .replyQueryHeader | .checkSrcMAC | .cmpSrcMAC | .filterSrcMACMatch => 4
  | .replyQuerySrcMACMeta | .checkDstMAC | .cmpDstMAC | .filterDstMACMatch => 3
  | .send => 1
  | s => if s.phase = .querying ∨ s.phase = .filtering then 2 else 8

variable {st : Core} {i : RcvIn}

/-- `snd_en` is up in the period behind `Send`, and in no other. -/
theorem rcv_sndEn : (rcv g st i).sndEn = decide (st.s.s = .send) := by
  unfold rcv
  cases hs : st.s.s
  case send => rfl
  all_goals first
    | rfl
    | (refine listState_cases (fun st' => st'.sndEn = false) ?_ ?_ ?_ <;> intro _ <;> rfl)
    | (dsimp only; split_ifs <;> rfl)

/-- Every period brings `corein` one closer to `Send` at most. -/
theorem rcv_lead : st.s.s.lead ≤ (rcv g st i).s.s.lead + 1 := by
  unfold rcv
  cases hs : st.s.s
  all_goals first
    | exact Nat.le_of_ble_eq_true rfl
    | (refine listState_cases (fun st' => _ ≤ st'.s.s.lead + 1) ?_ ?_ ?_ <;> intro _ <;>
        first
          | exact Nat.le_of_ble_eq_true rfl
          | exact show _ ≤ st.s.s.lead + 1 by rw [hs]; decide)
    | (dsimp only [Stage.doCheck, Stage.doCmp, Stage.doMatch, cmpPktArea]
       split_ifs <;> exact Nat.le_of_ble_eq_true rfl)

/-! ## The hand-over -/

/-- `coreout` is done before `corein` can send again. -/
structure Paced (st : Processors) : Prop where
  slow : st.co.s.left ≤ st.ci.core.s.s.lead
  handed : st.ci.core.sndEn = true → st.ci.core.s.s = .idle ∧ st.co.s = .idle

theorem paced_start (f : Filter) (t : Tally) : Paced (.start f t) :=
  ⟨Nat.zero_le _, nofun⟩

/-- The step: `coreout` counts down where it is busy, and is given a packet in `Idle` only. -/
theorem paced_step {st : Processors} {i : CoreinIn} (h : Paced st) :
    Paced (st.cycle g gReplyMac i) := by
  have hlead : st.ci.core.s.s.lead ≤ (st.cycle g gReplyMac i).ci.core.s.s.lead + 1 := rcv_lead
  have hsend : (st.cycle g gReplyMac i).ci.core.sndEn = decide (st.ci.core.s.s = .send) := rcv_sndEn
  have hslow := h.slow
  by_cases hidle : st.co.s = .idle
  · cases hdv : st.ci.core.sndEn with
    | false =>
        -- nothing is handed over
        obtain ⟨hs, -⟩ := cycle_idle gReplyMac (i := st.outIn) hidle hdv
        have hs' : (st.cycle g gReplyMac i).co.s = .idle := hs
        refine ⟨by rw [hs']; exact Nat.zero_le _, fun hen => ⟨?_, hs'⟩⟩
        rw [hsend, decide_eq_true_eq] at hen
        exact (rcv_send hen).1
    | true =>
        have htake := cycle_take gReplyMac (i := st.outIn) hidle hdv
        have hs : (st.cycle g gReplyMac i).co.s = .metaInfo := by
          show (st.co.cycle gReplyMac st.outIn).s = _
          rw [htake]
        rw [(h.handed hdv).1] at hlead hsend
        refine ⟨?_, fun hen => ?_⟩
        · rw [hs]
          exact Nat.le_of_succ_le_succ hlead
        · rw [hsend] at hen
          cases hen
  · -- the countdown
    have hnot : st.ci.core.sndEn = false := Bool.eq_false_iff.mpr fun hen => hidle (h.handed hen).2
    obtain ⟨hleft, -⟩ := cycle_left gReplyMac (i := st.outIn) hidle
    have hleft' : (st.cycle g gReplyMac i).co.s.left + 1 = st.co.s.left := hleft
    refine ⟨by omega, fun hen => ?_⟩
    rw [hsend, decide_eq_true_eq] at hen
    have hone : st.ci.core.s.s.lead = 1 := by rw [hen]; rfl
    refine ⟨(rcv_send hen).1, Decidable.byContradiction fun hbusy => ?_⟩
    have hpos := OutState.left_pos hbusy
    omega

theorem paced_trace (f : Filter) (t : Tally) (inp : Nat → CoreinIn) (n : Nat) :
    Paced (trace (Processors.cycle g gReplyMac) (.start f t) inp n) :=
  trace_invariant _ (fun _ _ => paced_step) (paced_start f t) inp n

/-- **No packet is lost.**  In every run of the two processors from power-on, with any filter
and any counters: `coreout` is in `Idle` whenever it sees `rcv_data_dv`; a packet held in
`Send` is held through the hand-over and is the one `coreout` works on until, nine periods
behind, `el_snd_en` is up with what is made of this packet on `sd`, and it stays there over
the edge; and `el_snd_en` is up in no other period. -/
theorem send_handed (g : Generics) (gReplyMac : BitVec 48) (f : Filter) (t : Tally)
    (inp : Nat → CoreinIn) :
    let tr := trace (Processors.cycle g gReplyMac) (.start f t) inp
    (∀ n, (tr n).ci.core.sndEn = true → (tr n).co.s = .idle) ∧
      (∀ n, (tr n).ci.core.s.s = .send →
        (tr (n + 1)).ci.core.sndEn = true ∧ (tr (n + 1)).ci.core.rd = (tr n).ci.core.rd ∧
        (∀ k, 2 ≤ k → k ≤ 9 → (tr (n + k)).co.rd = (tr n).ci.core.rd) ∧
        (tr (n + 9)).co.elSndEn = true ∧
        (tr (n + 9)).co.sd = sndOf gReplyMac (tr n).ci.core.rd ∧
        (tr (n + 10)).co.sd = (tr (n + 9)).co.sd) ∧
      (∀ n, (tr n).co.elSndEn = true → ∃ m, n = m + 9 ∧ (tr m).ci.core.s.s = .send) := by
  obtain ⟨tr, htr⟩ : ∃ tr, tr = trace (Processors.cycle g gReplyMac) (.start f t) inp := ⟨_, rfl⟩
  have hstep : ∀ n, tr (n + 1) = (tr n).cycle g gReplyMac (inp n) := fun n => by rw [htr, trace_succ]
  have hpaced : ∀ n, Paced (tr n) := fun n => by rw [htr]; exact paced_trace f t inp n
  have hzero : tr 0 = .start f t := by rw [htr, trace_zero]
  have hco : ∀ n k, (tr (n + k)).co =
      trace (Coreout.cycle gReplyMac) (tr n).co (fun j => (tr (n + j)).outIn) k := by
    intro n k
    rw [htr]
    exact co_trace_add _ inp n k
  rw [← htr]
  clear htr
  have hci : ∀ n, (tr (n + 1)).ci.core.sndEn = decide ((tr n).ci.core.s.s = .send) := by
    intro n
    rw [hstep]
    exact rcv_sndEn
  refine ⟨fun n hen => ((hpaced n).handed hen).2, fun n hsend => ?_, fun n hen => ?_⟩
  · have hen : (tr (n + 1)).ci.core.sndEn = true := by rw [hci, hsend]; rfl
    have hrd : (tr (n + 1)).ci.core.rd = (tr n).ci.core.rd := by
      rw [hstep]
      exact rcv_send_rd hsend
    obtain ⟨hbusy, hidle, hup, hsd⟩ := coreout_run gReplyMac
      ((hpaced (n + 1)).handed hen).2 (fun j => (tr (n + 1 + j)).outIn) hen
    simp only [← hco] at hbusy hidle hup hsd
    have hkeep : ∀ k, k ≤ 7 → (tr (n + 2 + k)).co.rd = (tr n).ci.core.rd := by
      intro k
      induction k with
      | zero =>
          intro _
          have htake := cycle_take gReplyMac (i := (tr (n + 1)).outIn)
            ((hpaced (n + 1)).handed hen).2 hen
          rw [Nat.add_zero, hstep (n + 1)]
          show ((tr (n + 1)).co.cycle gReplyMac (tr (n + 1)).outIn).rd = _
          rw [htake]
          exact hrd
      | succ k ih =>
          intro hk
          have hb := (hbusy (k + 1) (Nat.succ_pos k) (by omega)).1
          rw [show n + 1 + (k + 1) = n + 2 + k by omega] at hb
          rw [show n + 2 + (k + 1) = (n + 2 + k) + 1 by omega, hstep (n + 2 + k)]
          exact (cycle_left gReplyMac hb).2.trans (ih (by omega))
    refine ⟨hen, hrd, fun k h2 h9 => ?_, hup, ?_, ?_⟩
    · have := hkeep (k - 2) (by omega)
      rwa [show n + 2 + (k - 2) = n + k by omega] at this
    · refine hsd.trans ?_
      show sndOf gReplyMac (tr (n + 1)).ci.core.rd = _
      rw [hrd]
    · rw [hstep (n + 9)]
      exact cycle_sd gReplyMac hidle
  · -- a busy `coreout` tells when it was given its packet
    have horigin : ∀ n, (tr n).co.s ≠ .idle →
        ∃ m, (tr m).ci.core.s.s = .send ∧ n + (tr n).co.s.left = m + 9 := by
      intro n
      induction n with
      | zero =>
          intro hbusy
          rw [hzero] at hbusy
          exact absurd rfl hbusy
      | succ n ih =>
          intro hbusy
          have hco' : (tr (n + 1)).co = (tr n).co.cycle gReplyMac (tr n).outIn := by rw [hstep]; rfl
          by_cases hidle : (tr n).co.s = .idle
          · have hdv : (tr n).outIn.rcvDataDv = true := by
              refine Bool.not_eq_false _ |>.mp fun hdv => hbusy ?_
              rw [hco']
              exact (cycle_idle gReplyMac hidle hdv).1
            have htake := cycle_take gReplyMac hidle hdv
            cases n with
            | zero =>
                rw [hzero] at hdv
                cases hdv
            | succ n =>
                have hsend : (tr (n + 1)).ci.core.sndEn = true := hdv
                rw [hci, decide_eq_true_eq] at hsend
                refine ⟨n, hsend, ?_⟩
                rw [hco', htake]
                rfl
          · obtain ⟨m, hm, hleft⟩ := ih hidle
            have hdown := (cycle_left gReplyMac (i := (tr n).outIn) hidle).1
            rw [← hco'] at hdown
            exact ⟨m, hm, by omega⟩
    cases n with
    | zero =>
        rw [hzero] at hen
        cases hen
    | succ n =>
        rw [hstep] at hen
        have hs : (tr n).co.s = .send := of_decide_eq_true ((cycle_elSndEn gReplyMac).symm.trans hen)
        obtain ⟨m, hm, hleft⟩ := horigin n (by rw [hs]; decide)
        rw [hs] at hleft
        exact ⟨m, hleft, hm⟩

end DnsAdtm.Hw
