/-
# `Hw.CoreinReturn` — `corein` comes back to `Idle`

Each of the three routes from `CheckAdmin` has been shown to end: the filter route in
`Hw.CoreinVerdict`, the wait for the hash and the update in `Hw.CoreinAdmin`; the reply to a
query is 31 periods and `Send`.  Together they say that no packet stops the process.

    query_until      the query route ends
    admin_returns    and so does the administrator's, with either answer of the hash
    corein_returns   so `corein` is idle again after every packet
-/
import DnsAdtm.Hw.CoreinAdmin
import DnsAdtm.Hw.CoreinQuery

namespace DnsAdtm.Hw

open Machine

variable {g : Generics}

/-- The process is back in `Idle`. -/
def Core.Idle (st : Core) : Prop := st.s.s = .idle

/-- The query route, by induction on the periods left of the reply. -/
theorem query_until {n : Nat} {st : Core} (hpos : st.s.queryPos = some n) :
    Until (rcv g) (fun _ => True) Core.Idle st := by
  have hle : n ≤ 30 := by
    have hstep := (rcv_query (g := g) (i := ⟨.zero, false, false, 0⟩) hpos).pos
    omega
  obtain ⟨left, hleft⟩ : ∃ left, 30 = n + left := ⟨_, (Nat.add_sub_cancel' hle).symm⟩
  induction left generalizing n st with
  | zero =>
      refine .later trivial fun i => ?_
      rcases (rcv_query (g := g) (i := i) hpos).pos with ⟨hlt, -⟩ | ⟨-, hsend⟩
      · omega
      · exact .later trivial fun i' => .here (rcv_send (g := g) (i := i') hsend).1
  | succ left ih =>
      refine .later trivial fun i => ?_
      rcases (rcv_query (g := g) (i := i) hpos).pos with ⟨hlt, hpos'⟩ | ⟨hlast, -⟩
      · exact ih hpos' hlt (by omega)
      · omega

/-- A packet that is not an administrator's. -/
theorem other_until {st : Core} (hf : st.f.InRange) (hs : st.s.s = .checkAdmin)
    (hq : st.sndEn = false) (hadmin : st.rd.dstMAC ≠ g.adminMac) :
    Until (rcv g) (fun _ => True) Core.Idle st := by
  by_cases hquery : st.rd.dstMAC = g.queryMac
  · refine .later trivial fun i => ?_
    rw [rcv_checkAdmin hs, if_neg hadmin]
    refine .later trivial fun i' => ?_
    rw [rcv_checkQuery rfl, Core.tick_rd, if_pos hquery]
    refine .later trivial fun i'' => ?_
    rw [rcv_replyQueryHeader rfl]
    exact query_until rfl
  · have hon : On st.f st.rd st.s.tally st := ⟨rfl, rfl, rfl, hq⟩
    exact (route_until hf.endPtr_dvd hadmin hquery hon hs).mono (fun _ _ => trivial) fun _ h => h.idle

/-- A packet that is. -/
theorem admin_returns {st : Corein} (hs : st.core.s.s = .checkAdmin) (hrest : Resting st)
    (hadmin : st.core.rd.dstMAC = g.adminMac) :
    Until (Corein.cycle g) (fun _ => True) (fun st => st.core.Idle) st := by
  refine ((auth_until hadmin hs rfl rfl hrest).mono (fun _ _ => trivial) fun _ h => h).trans ?_
  intro st' hauth
  refine .later trivial fun i => ?_
  have hstep := rcv_hashAuth (g := g) (i := st'.rcvIn i) hauth.s
  by_cases htag : st'.core.ahv = downto st'.core.rd.dnsPkt 1023 960
  · -- authentic: the update
    rw [if_pos htag] at hstep
    have hmeta : (st'.cycle g i).core.s.s = .updateFilterSrcMACMeta := congrArg (fun c => c.s.s) hstep
    have hpos : (st'.cycle g i).core.s.updatePos = some 0 := by
      rw [IState.updatePos, hmeta]
    exact (update_until (g := g) hpos (Nat.zero_le _) rfl rfl).mono (fun _ _ => trivial) fun _ h => h.idle
  · rw [if_neg htag] at hstep
    have hidle : (st'.cycle g i).core.s.s = .idle := congrArg (fun c => c.s.s) hstep
    exact .here hidle

/-- **`corein` always comes back to `Idle`.**  From `Read`, with the filter in its ranges and the
hash unit at rest, whatever the other registers hold and whatever comes in; and the hash
unit is at rest in `Read` in every run from power-on. -/
theorem corein_returns (g : Generics) :
    (∀ (st : Corein) (inp : Nat → CoreinIn), st.core.s.s = .read → st.core.f.InRange → Resting st →
      ∃ n, 0 < n ∧ (trace (Corein.cycle g) st inp n).core.s.s = .idle) ∧
    (∀ (inp : Nat → CoreinIn) (m : Nat), (trace (Corein.cycle g) .init inp m).core.s.s = .read →
      Resting (trace (Corein.cycle g) .init inp m)) := by
  refine ⟨fun st inp hs hf hrest => ?_, fun inp m hs =>
    (authInv_trace g inp m).resting (by rw [hs]; nofun)⟩
  have hcore : (st.cycle g (inp 0)).core = { st.core.tick (st.rcvIn (inp 0)) with
      rd := (inp 0).elRcvData, elRcvAck := true, s.s := .checkAdmin } := rcv_read hs
  have hs' : (st.cycle g (inp 0)).core.s.s = .checkAdmin := congrArg (fun c => c.s.s) hcore
  by_cases hadmin : (st.cycle g (inp 0)).core.rd.dstMAC = g.adminMac
  · have hrest' : Resting (st.cycle g (inp 0)) := hrest.next (congrArg (fun c => c.siphashStart) hcore)
    obtain ⟨n, hidle, -⟩ := (admin_returns hs' hrest' hadmin).exists_trace fun t => inp (t + 1)
    exact ⟨n + 1, Nat.succ_pos n, by rwa [trace_succ']⟩
  · have hf' : (st.cycle g (inp 0)).core.f.InRange := by
      rw [show (st.cycle g (inp 0)).core.f = st.core.f from congrArg (fun c => c.f) hcore]
      exact hf
    have hq : (st.cycle g (inp 0)).core.sndEn = false := congrArg (fun c => c.sndEn) hcore
    obtain ⟨n, hidle, -⟩ := (other_until hf' hs' hq hadmin).exists_trace fun t =>
      (trace (Corein.cycle g) (st.cycle g (inp 0)) (fun t => inp (t + 1)) t).rcvIn (inp (t + 1))
    refine ⟨n + 1, Nat.succ_pos n, ?_⟩
    rw [trace_succ', core_trace]
    exact hidle

/-- The power-on registers, in `Read`. -/
def Corein.reading : Corein := { Corein.init with core.s.s := .read }

/-- A packet the lists at power-on accept, so that its payload is scanned for both names. -/
def scannedAtPowerOn : RcvData :=
  { acceptedAtPowerOn with dstIP := 0x0200000a, dnsLength := 128, dnsPkt := 0x6d6f632e656c70700000000000000000 }

theorem corein_returns_scanned :
    let tr := trace (Corein.cycle {}) .reading fun _ => ⟨scannedAtPowerOn, true⟩
    (∃ n, 0 < n ∧ (tr n).core.s.s = .idle) ∧
      ((tr 23).core.s.s = .checkPkt ∧ (tr 23).core.s.fdnsc = 0) ∧
      (tr 388).core.s.s = .checkPkt ∧ (tr 388).core.s.fdnsc = 1 := by
  intro tr
  refine ⟨(corein_returns {}).1 .reading _ rfl Filter.init_inRange ⟨rfl, rfl⟩, ?_, ?_⟩
  all_goals decide +kernel

end DnsAdtm.Hw
