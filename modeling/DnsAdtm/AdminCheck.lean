/-
# `AdminCheck` — a check that begins in quiet

What `com_admin_apply` prints is of a filter that was in force at some moment (`AdminProtocol`), and
that can have been replaced since: a reply to an earlier probe may still be on its way when the flag
is reset, and another host may send an old update again.  If no probe and no reply was on its way
then, and no update is sent again, the replies that come are of the time behind the update
(`Current`).  Whatever is torn out of several of them has the filter in force, and what is printed
is about this filter.

    Current        what holds from the reset to the end of the call
    Checks.step    and is kept
    check_exact    what the message says
-/
import DnsAdtm.AdminProtocol

namespace DnsAdtm

open Machine Sw

namespace System

variable {g : Hw.Generics} {gReplyMac : BitVec 48} {d₀ : Hw.Device} {s s' : System}

/-! ## In a check -/

/-- What holds from the reset to the end of the call, if it was quiet then and no update is sent
again. -/
structure Current (g : Hw.Generics) (s : System) : Prop where
  /-- no probe is in front of an update -/
  order : ∃ xs ys, s.toBoard = xs ++ ys ∧ (∀ fr ∈ xs, fr.rcvData.dstMAC ≠ g.queryMac) ∧
    ∀ fr ∈ ys, ¬ Hw.Authentic g fr.rcvData
  /-- so where there is a reply there is no update any more -/
  settled : ((∃ pkt ∈ s.toHost, FromProbe pkt) ∨ s.prober.receiver.Busy) →
    ∀ fr ∈ s.toBoard, ¬ Hw.Authentic g fr.rcvData
  /-- and what is read has the filter in force -/
  replies : ∀ pkt ∈ s.toHost, FromProbe pkt → ∃ d ∈ {d : Hw.Device | d.f = s.board.f}, Reports d pkt
  heard : Heard {d | d.f = s.board.f} s.prober.receiver s.pc

/-- The filter that the board has when it has handled what is on its way. -/
def coming (g : Hw.Generics) (s : System) : Hw.Filter :=
  (after (Hw.Device.handle g) s.board (s.toBoard.map (·.rcvData))).f

/-- What a check can rely on. -/
structure Checks (g : Hw.Generics) (s : System) : Prop where
  current : s.fresh = true → s.replayed = false → s.pc.Asking → s.Current g
  comes : ∀ fNew, s.pc.purpose = some (.check fNew) → s.lost = false → s.replayed = false → s.coming g = fNew.toHw

theorem coming_concat {fr : Hw.UdpFrame} (hto : s'.toBoard = s.toBoard ++ [fr]) (hboard : s'.board = s.board) :
    s'.coming g = if Hw.Authentic g fr.rcvData then Hw.Filter.decode fr.rcvData.dnsPkt.getLsbD else s.coming g := by
  rw [coming, hto, hboard, List.map_append, List.map_cons, List.map_nil, after_concat]
  split
  · rename_i hauth
    exact handle_authentic hauth
  · rename_i hforged
    exact handle_forged hforged

/-- The main thread goes on. -/
theorem Current.proceed (h : s.Current g) {pc : Pc} (hpc : pc.Holds {d | d.f = s.board.f} s.prober.receiver) :
    ({ s with pc := pc } : System).Current g := { h with heard := ⟨h.heard.thread, hpc⟩ }

/-- A frame that is no update joins the others. -/
theorem Current.request (h : s.Current g) {fr : Hw.UdpFrame} (hforged : ¬ Hw.Authentic g fr.rcvData) :
    ({ s with toBoard := s.toBoard ++ [fr] } : System).Current g := by
  obtain ⟨xs, ys, hto, hxs, hys⟩ := h.order
  have hlast : ∀ zs : List Hw.UdpFrame, (∀ fr ∈ zs, ¬ Hw.Authentic g fr.rcvData) →
      ∀ fr' ∈ zs ++ [fr], ¬ Hw.Authentic g fr'.rcvData := by
    intro zs hzs fr' hmem
    rcases List.mem_append.mp hmem with hmem | hmem
    · exact hzs fr' hmem
    · rwa [List.mem_singleton.mp hmem]
  exact
    { h with
      order := ⟨xs, ys ++ [fr], by dsimp only; rw [hto, List.append_assoc], hxs, hlast ys hys⟩
      settled := fun hreply => hlast _ (h.settled hreply) }

/-- The board handles a packet: if it answers a probe, no update is left. -/
theorem Current.serve (h : s.Current g) (hg : Paired g) (hd : s.board.f.Packable) {frame : Hw.UdpFrame}
    {rest : List Hw.UdpFrame} (hto : s.toBoard = frame :: rest) : (s.serve g gReplyMac frame rest).Current g := by
  obtain ⟨xs, ys, hsplit, hxs, hys⟩ := h.order
  have hrest : ∀ fr ∈ rest, fr ∈ s.toBoard := fun fr hmem => by
    rw [hto]
    exact List.mem_cons_of_mem _ hmem
  have hframe : frame ∈ s.toBoard := by
    rw [hto]
    exact List.mem_cons_self
  -- an old reply: there is no update, so the filter stays
  have hkept : ((∃ pkt ∈ s.toHost, FromProbe pkt) ∨ s.prober.receiver.Busy) →
      (s.board.handle g frame.rcvData).1.f = s.board.f :=
    fun hreply => handle_forged (h.settled hreply frame hframe)
  -- a new one: the packet was a probe, and behind it there is no update
  have hnew : ∀ pkt ∈ answer g gReplyMac s.board frame.rcvData, FromProbe pkt →
      (∀ fr ∈ rest, ¬ Hw.Authentic g fr.rcvData) ∧ (s.board.handle g frame.rcvData).1 = s.board ∧ Reports s.board pkt := by
    intro pkt hmem hfrom
    obtain ⟨hquery, hsame, hreports⟩ := answer_reports hg hd hmem hfrom
    refine ⟨fun fr hmem => ?_, hsame, hreports⟩
    cases xs with
    | nil => exact hys fr (by rw [← List.nil_append ys, ← hsplit]; exact hrest fr hmem)
    | cons x xs =>
        rw [hsplit, List.cons_append, List.cons.injEq] at hto
        exact absurd hquery (by rw [← hto.1]; exact hxs x List.mem_cons_self)
  constructor
  · cases xs with
    | nil =>
        refine ⟨[], rest, rfl, fun _ hmem => absurd hmem List.not_mem_nil, fun fr hmem => hys fr ?_⟩
        rw [← List.nil_append ys, ← hsplit]
        exact hrest fr hmem
    | cons x xs =>
        rw [hsplit, List.cons_append, List.cons.injEq] at hto
        exact ⟨xs, ys, hto.2.symm, fun fr hmem => hxs fr (List.mem_cons_of_mem _ hmem), hys⟩
  · rintro (⟨pkt, hmem, hfrom⟩ | hup) fr hfr
    · rcases List.mem_append.mp hmem with hmem | hmem
      · exact h.settled (.inl ⟨pkt, hmem, hfrom⟩) fr (hrest fr hfr)
      · exact (hnew pkt hmem hfrom).1 fr hfr
    · exact h.settled (.inr hup) fr (hrest fr hfr)
  · intro pkt hmem hfrom
    rw [System.serve]
    rcases List.mem_append.mp hmem with hmem | hmem
    · rw [hkept (.inl ⟨pkt, hmem, hfrom⟩)]
      exact h.replies pkt hmem hfrom
    · obtain ⟨-, hsame, hreports⟩ := hnew pkt hmem hfrom
      exact ⟨s.board, congrArg Hw.Device.f hsame.symm, hreports⟩
  · rw [System.serve]
    dsimp only
    by_cases hbusy : s.prober.receiver.Busy
    · rw [hkept (.inr hbusy)]
      exact h.heard
    · exact h.heard.of_idle hbusy

/-- The thread goes on. -/
theorem Current.thread (h : s.Current g) (x : Action) (hx : ∀ a, x = .recv a → a.pkt ∈ s.toHost) :
    (s.thread x).Current g where
  order := h.order
  settled hreply := by
    rcases hreply with hto | hbusy
    · exact h.settled (.inl hto)
    · rcases (does _ x).busy hbusy with hbusy | ⟨a, ha⟩
      · exact h.settled (.inr hbusy)
      · obtain ⟨hrecv, hfrom⟩ := takes_some ha
        exact h.settled (.inl ⟨a.pkt, hx a hrecv, of_decide_eq_true hfrom⟩)
  replies := h.replies
  heard := h.heard.step x fun a ha =>
    have htakes := takes_some ha
    h.replies a.pkt (hx a htakes.1) (of_decide_eq_true htakes.2)

/-- A loss takes nothing from it. -/
theorem Current.lose (h : s.Current g) {toBoard : List Hw.UdpFrame} {toHost : List (List (BitVec 8))} {lost : Bool}
    (hb : toBoard.Sublist s.toBoard) (hh : toHost.Sublist s.toHost) :
    ({ s with toBoard := toBoard, toHost := toHost, lost := lost } : System).Current g := by
  obtain ⟨xs, ys, hto, hxs, hys⟩ := h.order
  rw [hto, List.sublist_append_iff] at hb
  obtain ⟨xs', ys', rfl, hxs', hys'⟩ := hb
  have hsub : ∀ fr ∈ xs' ++ ys', fr ∈ s.toBoard := by
    intro fr hmem
    rw [hto]
    exact (hxs'.append hys').subset hmem
  exact
    { order := ⟨xs', ys', rfl, fun fr hmem => hxs fr (hxs'.subset hmem), fun fr hmem => hys fr (hys'.subset hmem)⟩
      settled := fun hreply fr hmem =>
        h.settled (hreply.imp (Exists.imp fun pkt hpkt => ⟨hh.subset hpkt.1, hpkt.2⟩) id) fr (hsub fr hmem)
      replies := fun pkt hmem => h.replies pkt (hh.subset hmem)
      heard := h.heard }

theorem checks_start (d₀ : Hw.Device) (launch : Bool) : (start d₀ launch).Checks g where
  current h := by cases h
  comes fNew h := by cases launch <;> cases h

theorem conclude_pc (p : Purpose) (pr : ProbeResponse) (torn : Bool) : (s.conclude p pr torn).pc = .prompt := by
  cases p <;> rfl

/-- Behind a call nothing is relied on. -/
theorem Checks.of_prompt (h : s.pc = .prompt) : s.Checks g where
  current _ _ hasking := by
    rw [h] at hasking
    exact hasking.elim
  comes fNew hcheck := by
    rw [h] at hcheck
    cases hcheck

/-- A step of the main thread alone. -/
theorem Checks.proceed (h : s.Checks g) {pc : Pc} (hasking : s.pc.Asking) (hpurpose : pc.purpose = s.pc.purpose)
    (hpc : s.Current g → pc.Holds {d | d.f = s.board.f} s.prober.receiver) :
    ({ s with pc := pc } : System).Checks g where
  current hfresh hreplayed _ :=
    have hcurrent := h.current hfresh hreplayed hasking
    hcurrent.proceed (hpc hcurrent)
  comes fNew hcheck := h.comes fNew (hpurpose.symm.trans hcheck)

/-- And one of the other. -/
theorem Checks.thread (h : s.Checks g) (x : Action) (hx : ∀ a, x = .recv a → a.pkt ∈ s.toHost) :
    (s.thread x).Checks g where
  current hfresh hreplayed hasking := (h.current hfresh hreplayed ((watch_asking _ _ _).mp hasking)).thread x hx
  comes fNew hcheck := h.comes fNew ((watch_purpose _ _ _).symm.trans hcheck)

/-- A frame that is no update comes behind the others. -/
theorem Checks.request (h : s.Checks g) {fr : Hw.UdpFrame} (hforged : ¬ Hw.Authentic g fr.rcvData) :
    ({ s with toBoard := s.toBoard ++ [fr] } : System).Checks g where
  current hfresh hreplayed hasking := (h.current hfresh hreplayed hasking).request hforged
  comes fNew hcheck hlost hreplayed := by
    refine Eq.trans (@coming_concat g s _ fr ?_ ?_) ((if_neg hforged).trans (h.comes fNew hcheck hlost hreplayed))
    · rfl
    · rfl

theorem Checks.step (h : s.Checks g) (hs : s.Sound g gReplyMac d₀) (hg : Paired g) (hd : d₀.f.Packable)
    (hstep : Step g gReplyMac s s') : s'.Checks g := by
  cases hstep with
  | edit hpc _ => exact .of_prompt hpc
  | apply _ hwrite hsend =>
      have hupdate := applied_update hg hs.admin hwrite hsend
      refine ⟨fun _ _ hasking => hasking.elim, fun fNew hcheck _ _ => ?_⟩
      cases hcheck
      refine Eq.trans (@coming_concat g s _ _ ?_ ?_) ((if_pos hupdate.1).trans hupdate.2)
      · rfl
      · rfl
  | probe _ => exact ⟨fun _ _ hasking => hasking.elim, nofun⟩
  | reset hpc _ =>
      refine ⟨fun hfresh _ _ => ?_, fun fNew hcheck => h.comes fNew (by rw [hpc]; exact hcheck)⟩
      obtain ⟨hboard, hhost, hframe⟩ := of_decide_eq_true hfresh
      refine ⟨⟨s.toBoard, [], (List.append_nil _).symm, hboard, fun _ hmem => absurd hmem List.not_mem_nil⟩, ?_, ?_,
        ⟨holds_nothing rfl hframe, trivial⟩⟩
      · rintro (⟨pkt, hmem, hfrom⟩ | hup | hbusy)
        · exact absurd hfrom (hhost pkt hmem)
        · cases hup
        · exact absurd hframe hbusy
      · exact fun pkt hmem hfrom => absurd hfrom (hhost pkt hmem)
  | @send p frame hpc =>
      have hforged : ¬ Hw.Authentic g frame.rcvData := fun hauth =>
        hg.macs_ne ((hs.asking _ _ hpc).symm.trans hauth.1)
      have hwait : ({ s with pc := .wait p 0 } : System).Checks g :=
        h.proceed (by rw [hpc]; trivial) (by rw [hpc]; rfl) fun _ => trivial
      exact hwait.request hforged
  | turn hpc _ _ => exact h.proceed (by rw [hpc]; trivial) (by rw [hpc]; rfl) fun _ => trivial
  | leave hpc _ => exact h.proceed (by rw [hpc]; trivial) (by rw [hpc]; rfl) fun _ => trivial
  | received hpc hup => exact h.proceed (by rw [hpc]; trivial) (by rw [hpc]; rfl) fun _ => hup
  | timeout _ _ => exact .of_prompt (conclude_pc _ _ _)
  | call hpc =>
      refine h.proceed (by rw [hpc]; trivial) (by rw [hpc]; rfl) fun hcurrent => ?_
      have hheard := hcurrent.heard
      rw [hpc] at hheard
      exact hheard.call.main
  | parse _ _ => exact .of_prompt (conclude_pc _ _ _)
  | @receive a rest hto _ =>
      have hthread := h.thread (.recv a) fun a ha => by
        cases ha
        rw [hto]
        exact List.mem_cons_self
      have hrest : rest.Sublist s.toHost := by
        rw [hto]
        exact List.sublist_cons_self _ _
      refine ⟨fun hfresh hreplayed hasking => ?_, hthread.comes⟩
      exact (hthread.current hfresh hreplayed hasking).lose (List.Sublist.refl _) hrest
  | store i => exact h.thread (.store i) nofun
  | next => exact h.thread .next nofun
  | board hto =>
      have hpackable : s.board.f.Packable := by
        rw [hs.board]
        exact after_packable hd _
      refine ⟨fun hfresh hreplayed hasking => (h.current hfresh hreplayed hasking).serve hg hpackable hto,
        fun fNew hcheck hlost hreplayed => ?_⟩
      refine Eq.trans ?_ (h.comes fNew hcheck hlost hreplayed)
      rw [coming, coming, hto]
      rfl
  | foreign frame _ =>
      -- an update that is sent again is nothing to rely on
      refine ⟨fun hfresh hreplayed hasking => ?_, fun fNew hcheck hlost hreplayed => ?_⟩
      · obtain ⟨hreplayed, hforged⟩ := Bool.or_eq_false_iff.mp hreplayed
        exact { (h.request (of_decide_eq_false hforged)).current hfresh hreplayed hasking with }
      · obtain ⟨hreplayed, hforged⟩ := Bool.or_eq_false_iff.mp hreplayed
        exact (h.request (of_decide_eq_false hforged)).comes fNew hcheck hlost hreplayed
  | noise pkt hnoise =>
      refine ⟨fun hfresh hreplayed hasking => ?_, h.comes⟩
      have hcurrent := h.current hfresh hreplayed hasking
      have hold : ∀ pkt' ∈ s.toHost ++ [pkt], FromProbe pkt' → pkt' ∈ s.toHost := by
        intro pkt' hmem hfrom
        rcases List.mem_append.mp hmem with hmem | hmem
        · exact hmem
        · rw [List.mem_singleton.mp hmem] at hfrom
          exact absurd hfrom hnoise
      exact
        { hcurrent with
          settled := fun hreply => hcurrent.settled
            (hreply.imp (Exists.imp fun pkt' hpkt => ⟨hold pkt' hpkt.1 hpkt.2, hpkt.2⟩) id)
          replies := fun pkt' hmem hfrom => hcurrent.replies pkt' (hold pkt' hmem hfrom) hfrom }
  | loseRequest i =>
      refine ⟨fun hfresh hreplayed hasking => ?_, fun _ _ hlost => by cases hlost⟩
      exact (h.current hfresh hreplayed hasking).lose (List.eraseIdx_sublist _ _) (List.Sublist.refl _)
  | loseReply i =>
      refine ⟨fun hfresh hreplayed hasking => ?_, h.comes⟩
      exact (h.current hfresh hreplayed hasking).lose (List.Sublist.refl _) (List.eraseIdx_sublist _ _)

/-! ## Runs -/

theorem checks_reachable (hg : Paired g) (hd : d₀.f.Packable) {launch : Bool}
    (h : Reachable g gReplyMac d₀ launch s) : s.Checks g := by
  induction h with
  | refl => exact checks_start d₀ launch
  | tail hrun hstep ih => exact ih.step (sound_reachable hg hd hrun) hg hd hstep

/-- **What a check that began in quiet says.**  If no probe and no reply was on its way when the
flag was reset, there is a reply, and no other host has sent an update again: then no update is on its
way any more, the check prints whether the board's filter is the one applied, and if no frame to the
board was lost since it was sent, it is. -/
theorem check_exact (hg : Paired g) (hd : d₀.f.Packable) {launch : Bool} (h : Reachable g gReplyMac d₀ launch s)
    {fNew : Sw.Filter} {length : Nat} {bufs : List PktBuf} {torn : Bool}
    (hpc : s.pc = .parse (.check fNew) length bufs torn) (hfresh : s.fresh = true) (hreplayed : s.replayed = false) :
    (∀ fr ∈ s.toBoard, ¬ Hw.Authentic g fr.rcvData) ∧
    (∀ s', Step g gReplyMac s s' → s'.pc = .prompt →
      s'.printed = s.printed ++ [⟨fNew, decide (s.board.f = fNew.toHw), torn⟩]) ∧
    (s.lost = false → s.board.f = fNew.toHw) := by
  have hsound := sound_reachable hg hd h
  have hchecks := checks_reachable hg hd h
  have hcurrent := hchecks.current hfresh hreplayed (by rw [hpc]; trivial)
  have hheard := hcurrent.heard
  rw [hpc] at hheard
  have hsettled := hcurrent.settled (.inr (.inl hheard.main.1))
  have hpackable : s.board.f.Packable := by
    rw [hsound.board]
    exact after_packable hd _
  refine ⟨hsettled, ?_, fun hlost => ?_⟩
  · intro s' hstep hprompt
    cases hstep with
    | @parse p length' bufs' torn' view hp hview =>
        cases hpc.symm.trans hp
        have hfilter := (@Heard.blends _ _ _ _ _ _ _ s.prober.fCurr hheard hview).filter hpackable
        have hiff : (parseProbePkt s.prober.fCurr (readPktBuf view) length).f = fNew ↔ s.board.f = fNew.toHw := by
          rw [← hfilter]
          exact ⟨congrArg Filter.toHw, fun heq => Filter.toHw_injective heq⟩
        exact congrArg (fun b => s.printed ++ [⟨fNew, b, torn⟩]) (decide_eq_decide.mpr hiff)
    | timeout hp _ => cases hpc.symm.trans hp
    | edit hp _ => cases hpc.symm.trans hp
    | apply | probe | reset | send | turn | leave | received | call => cases hprompt
    | receive | store | next =>
        have hwatched : ∀ x, (s.thread x).pc ≠ .prompt := by
          intro x hx
          rw [show (s.thread x).pc = _ from congrArg (Pc.watch _ _) hpc] at hx
          cases hx
        exact absurd hprompt (hwatched _)
    | board | foreign | noise | loseRequest | loseReply => cases hpc.symm.trans hprompt
  · have hcoming := hchecks.comes fNew (by rw [hpc]; rfl) hlost hreplayed
    rw [← hcoming, coming, after_forged]
    intro rd hmem
    obtain ⟨fr, hfr, rfl⟩ := List.mem_map.mp hmem
    exact hsettled fr hfr

theorem check_exact_applied : ∃ s : System, s.pc.purpose = some (.check initialiseFpgaConfiguration) ∧
    s.board.f = initialiseFpgaConfiguration.toHw := by
  obtain ⟨s, hreach, ⟨length, buf, hpc⟩, hfresh, hlost, hreplayed, -⟩ := reachable_check
  refine ⟨s, by rw [hpc]; rfl, ?_⟩
  exact (check_exact paired_default Hw.Filter.init_inRange.packable hreach hpc hfresh hreplayed).2.2 hlost

end System

end DnsAdtm
