/-
# `AdminHost` — the two threads of the command line

The main thread sends a probe and waits for its reply, and `probe_receiver_daemon` takes one frame
after another (`Sw.ProbeCheck`).  They share a buffer, a length and a flag, and have no lock: a
frame can be copied into the buffer while the packet in it is parsed.

If every frame from the probe's address is a report of the board, then what is parsed is one of
these, or was torn, and each of its bits is one of theirs; whatever states `D` of the board they
report.

    Heard           what is in the buffer, and what of it the main thread has read
    Heard.step      the thread goes on
    Heard.blends    what is read has bits of reports
    Heard.knows     and where no frame was copied meanwhile, is one report
    Told            what is known from it
-/
import DnsAdtm.HostFrame
import DnsAdtm.Hw.Device
import DnsAdtm.ProbeAgree
import DnsAdtm.Sw.AdminCommands
import DnsAdtm.Sw.ProbeCheck

namespace DnsAdtm

open Machine Sw

/-! ## The command line -/

namespace Sw

/-- What `probe_fpga_update_local` is called for: by `main`, by `com_admin_probe` and
`com_stats_probe`, or to compare with a filter that was applied. -/
inductive Purpose where
  | launch
  | update
  | check (fNew : Filter)

/-- Where the main thread is. -/
inductive Pc where
  | prompt
  /-- in `probe_fpga` -/
  | probe (p : Purpose)
  /-- the packet is formed and the flag is reset -/
  | send (p : Purpose) (frame : Hw.UdpFrame)
  /-- in the loop of `probe_reply_recv` -/
  | wait (p : Purpose) (t : Nat)
  /-- the flag is tested -/
  | test (p : Purpose)
  /-- it is raised, and the length is read -/
  | call (p : Purpose)
  /-- the packet is parsed: the buffer has been each of `bufs`, and `torn` is whether the thread was
  in its `memcpy` -/
  | parse (p : Purpose) (length : Nat) (bufs : List PktBuf) (torn : Bool)

/-- The purpose of the call the main thread is in. -/
def Pc.purpose : Pc → Option Purpose
  | .prompt => none
  | .probe p => some p
  | .send p _ => some p
  | .wait p _ => some p
  | .test p => some p
  | .call p => some p
  | .parse p _ _ _ => some p

/-- The flag has been reset in this call. -/
def Pc.Asking : Pc → Prop
  | .prompt => False
  | .probe _ => False
  | _ => True

/-- The thread has gone on, from within its `memcpy` or not. -/
def Pc.watch (copying : Bool) (buf : PktBuf) : Pc → Pc
  | .parse p length bufs torn => .parse p length (bufs ++ [buf]) (torn || copying)
  | pc => pc

theorem watch_purpose (copying : Bool) (buf : PktBuf) (pc : Pc) : (pc.watch copying buf).purpose = pc.purpose := by
  cases pc <;> rfl

theorem watch_asking (copying : Bool) (buf : PktBuf) (pc : Pc) : (pc.watch copying buf).Asking ↔ pc.Asking := by
  cases pc <;> exact Iff.rfl

theorem watch_send {copying : Bool} {buf : PktBuf} {pc : Pc} {p : Purpose} {fr : Hw.UdpFrame}
    (h : pc.watch copying buf = .send p fr) : pc = .send p fr := by
  cases pc with
  | parse => cases h
  | prompt | probe | send | wait | test | call => exact h

/-- The random addresses of a packet. -/
structure Addresses where
  srcmac : MacAddr
  srcip : IpAddr
  dstip : IpAddr
  srcport : BitVec 16
  dstport : BitVec 16

/-- `probe_dst_mac` -/
def probeMac : MacAddr := macOf probeDstMac

/-- `form_packet`, and the frame that `trigger_send` then sends. -/
def transmit (a : Addresses) (dstmac : MacAddr) (payload : List (BitVec 8)) (p : SendPkt) :
    Option (SendPkt × Hw.UdpFrame) :=
  if h : 1 ≤ payload.length ∧ payload.length ≤ 1472 then
    let c : Packet :=
      { srcmac := a.srcmac, dstmac := dstmac, srcip := a.srcip, dstip := a.dstip, srcport := a.srcport,
        dstport := a.dstport, udpPayload := payload, short := h.2 }
    some (formPacket c p, hostFrame c p h.1)
  else none

/-- The payload of a probe. -/
def probePayload : List (BitVec 8) := str "probe packet"

/-- A frame from the probe's address. -/
def FromProbe (pkt : List (BitVec 8)) : Prop := ((pkt.take bufferSize).drop 6).take 6 = probeDstMac

instance (pkt : List (BitVec 8)) : Decidable (FromProbe pkt) := inferInstanceAs (Decidable (_ = _))

end Sw

/-! ## Reports -/

/-- A frame with the filter and the counters of `d`. -/
structure Reports (d : Hw.Device) (pkt : List (BitVec 8)) : Prop where
  packable : d.f.Packable
  length : pkt.length = 170
  bits : ∀ n < 998, bitAt (pkt.drop (14 + 20 + 8)) n = stream (Hw.replySegments d.f d.t) n

/-- Whatever lies behind it in a buffer. -/
theorem Reports.parse {d : Hw.Device} {pkt : List (BitVec 8)} (h : Reports d pkt) (fCurr : Sw.Filter) (rest : List (BitVec 8)) :
    (parseProbePkt fCurr (pkt ++ rest) 170).f.toHw = d.f ∧ (parseProbePkt fCurr (pkt ++ rest) 170).s.toHw = d.t := by
  rw [parseProbePkt_append fCurr (Nat.le_of_eq h.length.symm)]
  exact parse_replySegments h.packable h.bits

/-! ## What the two threads have -/

/-- Every bit of the buffer that is parsed is that of a state in `D`. -/
def Mixed (D : Set Hw.Device) (buf : PktBuf) : Prop :=
  ∀ n < 998, ∃ d ∈ D, bitAt buf.toList (8 * (14 + 20 + 8) + n) = stream (Hw.replySegments d.f d.t) n

/-- A report of a state in `D` lies at the front of the buffers. -/
def Whole (D : Set Hw.Device) (bufs : List PktBuf) : Prop :=
  ∃ d ∈ D, ∃ pkt, Reports d pkt ∧ ∀ buf ∈ bufs, pkt <+: buf.toList

/-- A frame is in the buffer, or one was and another is being copied over it. -/
def Sw.Receiver.Copied (r : Receiver) : Prop :=
  r.probeReplyReceived = true ∨ (∃ a, r.pc = .length a) ∨ ∃ a, r.pc = .flag a

/-- All that the thread has are reports of states in `D`. -/
structure Sw.Receiver.Holds (D : Set Hw.Device) (r : Receiver) : Prop where
  frame : ∀ a, r.pc.frame = some a → ∃ d ∈ D, Reports d a.pkt
  length : (r.probeReplyReceived = true ∨ ∃ a, r.pc = .flag a) → r.probePktLength = 170
  mixed : r.Copied → Mixed D r.probePktBuf
  whole : r.Copied → r.pc.copying = false → Whole D [r.probePktBuf]

section Thread
variable {D D' : Set Hw.Device} {r : Receiver} {a : Arrival} {buf : PktBuf} {bufs : List PktBuf} {pkt : List (BitVec 8)}

theorem Mixed.mono (h : Mixed D buf) (hD : D ⊆ D') : Mixed D' buf := by
  intro n hn
  obtain ⟨d, hd, hbit⟩ := h n hn
  exact ⟨d, hD hd, hbit⟩

theorem Whole.mono (h : Whole D bufs) (hD : D ⊆ D') : Whole D' bufs := by
  obtain ⟨d, hd, hwhole⟩ := h
  exact ⟨d, hD hd, hwhole⟩

theorem Sw.Receiver.Holds.mono (h : r.Holds D) (hD : D ⊆ D') : r.Holds D' where
  frame a ha := by
    obtain ⟨d, hd, hreports⟩ := h.frame a ha
    exact ⟨d, hD hd, hreports⟩
  length := h.length
  mixed hcopied := (h.mixed hcopied).mono hD
  whole hcopied hpc := (h.whole hcopied hpc).mono hD

/-- There is nothing. -/
theorem holds_nothing (hflag : r.probeReplyReceived = false) (hframe : r.pc.frame = none) : r.Holds D := by
  have hpc : r.pc = .recv := by
    cases hpc : r.pc <;> first | rfl | (rw [hpc] at hframe; cases hframe)
  have hno : ¬ r.Copied := by
    rintro (h | ⟨a, h⟩ | ⟨a, h⟩)
    · rw [hflag] at h
      cases h
    · rw [hpc] at h
      cases h
    · rw [hpc] at h
      cases h
  refine ⟨fun a ha => ?_, fun h => ?_, fun h => absurd h hno, fun h => absurd h hno⟩
  · rw [hframe] at ha
    cases ha
  · exact absurd (h.imp_right .inr) hno

/-- A whole report is one of a single state. -/
theorem Whole.mixed (h : Whole D [buf]) : Mixed D buf := by
  obtain ⟨d, hd, pkt, hreports, hbufs⟩ := h
  obtain ⟨rest, hrest⟩ := hbufs buf List.mem_cons_self
  intro n hn
  refine ⟨d, hd, ?_⟩
  rw [← hrest, bitAt_append, if_pos (by rw [hreports.length]; omega), ← hreports.bits n hn, bitAt_drop]

theorem Reports.recvPktBuf {d : Hw.Device} (h : Reports d a.pkt) : a.recvPktBuf = a.pkt :=
  List.take_of_length_le (by rw [h.length]; decide)

/-- A byte of a report is stored. -/
theorem Mixed.store (h : Mixed D buf) {d : Hw.Device} (hd : d ∈ D) (hreports : Reports d pkt) (i : Nat) :
    Mixed D (buf.store pkt i) := by
  intro n hn
  rw [PktBuf.store]
  cases hb : pkt[i]? with
  | none => exact h n hn
  | some b =>
      have hi : i < buf.toList.length := by
        obtain ⟨hlt, -⟩ := List.getElem?_eq_some_iff.mp hb
        rw [Vector.length_toList]
        exact Nat.lt_trans hlt (by rw [hreports.length]; decide)
      rw [Vector.toList_setIfInBounds, bitAt_set hi]
      split
      · rename_i hi
        refine ⟨d, hd, ?_⟩
        rw [← hreports.bits n hn, bitAt_drop, bitAt, ← hi, List.getD_eq_getElem?_getD, hb, Option.getD_some]
      · exact h n hn

/-- What an action leaves. -/
theorem Sw.Receiver.Does.holds {r' : Receiver} {t u : Option Arrival} (hdoes : r.Does t u r') (h : r.Holds D)
    (ht : ∀ a, t = some a → ∃ d ∈ D, Reports d a.pkt) : r'.Holds D := by
  cases hdoes with
  | stay => exact h
  | @recv buf len flag b _ =>
      have hcopied : Receiver.Copied ⟨buf, len, flag, .copy b⟩ → Receiver.Copied ⟨buf, len, flag, .recv⟩ := by
        rintro (hup | ⟨a, ha⟩ | ⟨a, ha⟩)
        · exact .inl hup
        · cases ha
        · cases ha
      refine ⟨fun a ha => ?_, fun hup => h.length (hup.imp_right fun ⟨a, ha⟩ => by cases ha),
        fun hup => h.mixed (hcopied hup), nofun⟩
      cases ha
      exact ht b rfl
  | @store buf len flag b i =>
      obtain ⟨d, hd, hreports⟩ := h.frame b rfl
      refine ⟨h.frame, h.length, fun hup => ?_, nofun⟩
      show Mixed D (buf.store b.recvPktBuf i)
      rw [hreports.recvPktBuf]
      exact (h.mixed hup).store hd hreports i
  | @copied buf len flag b =>
      obtain ⟨d, hd, hreports⟩ := h.frame b rfl
      have hwhole : Whole D [buf.memcpy b.recvPktBuf] := by
        refine ⟨d, hd, b.pkt, hreports, fun buf' hmem => ?_⟩
        rw [List.mem_singleton.mp hmem, ← hreports.recvPktBuf]
        exact memcpy_toList buf (length_recvPktBuf b)
      exact ⟨h.frame, fun hup => h.length (hup.imp_right fun ⟨a, ha⟩ => by cases ha), fun _ => hwhole.mixed,
        fun _ _ => hwhole⟩
  | @measured buf len flag b =>
      have hcopied : Receiver.Copied ⟨buf, len, flag, .length b⟩ := .inr (.inl ⟨b, rfl⟩)
      obtain ⟨d, hd, hreports⟩ := h.frame b rfl
      refine ⟨h.frame, fun _ => ?_, fun _ => h.mixed hcopied, fun _ _ => h.whole hcopied rfl⟩
      show b.recvPktBuf.length = 170
      rw [hreports.recvPktBuf, hreports.length]
  | @raised buf len flag b =>
      have hcopied : Receiver.Copied ⟨buf, len, flag, .flag b⟩ := .inr (.inr ⟨b, rfl⟩)
      exact ⟨nofun, fun _ => h.length (.inr ⟨b, rfl⟩), fun _ => h.mixed hcopied, fun _ _ => h.whole hcopied rfl⟩

/-- The flag is reset. -/
theorem Sw.Receiver.Holds.reset (h : r.Holds D) : ({ r with probeReplyReceived := false } : Receiver).Holds D := by
  have hcopied : Receiver.Copied { r with probeReplyReceived := false } → r.Copied := by
    rintro (hup | hpc)
    · cases hup
    · exact .inr hpc
  refine ⟨h.frame, ?_, fun hup => h.mixed (hcopied hup), fun hup => h.whole (hcopied hup)⟩
  rintro (hup | hpc)
  · cases hup
  · exact h.length (.inr hpc)

end Thread

/-- The thread has a reply. -/
def Sw.Receiver.Busy (r : Receiver) : Prop := r.probeReplyReceived = true ∨ r.pc.frame ≠ none

/-- And what the main thread reads is the thread's. -/
def Sw.Pc.Holds (D : Set Hw.Device) (r : Receiver) : Pc → Prop
  | .call _ => r.probeReplyReceived = true
  | .parse _ length bufs torn => r.probeReplyReceived = true ∧ length = 170 ∧ r.probePktBuf ∈ bufs ∧
    (∀ buf ∈ bufs, Mixed D buf) ∧ (torn = false → Whole D bufs)
  | _ => True

/-- `f` and `s` say what `d` is. -/
def Knows (f : Sw.Filter) (s : Stats) (d : Hw.Device) : Prop := f.toHw = d.f ∧ s.toHw = d.t

/-- Every bit of them is that of a state in `D`. -/
def Blends (D : Set Hw.Device) (f : Sw.Filter) (s : Stats) : Prop :=
  ∀ n < 998, ∃ d ∈ D, stream (Hw.replySegments f.toHw s.toHw) n = stream (Hw.replySegments d.f d.t) n

/-- What a probe has told. -/
def Told (D : Set Hw.Device) (torn : Bool) (f : Sw.Filter) (s : Stats) : Prop :=
  (f = .empty ∧ s = ⟨0, 0, 0, 0, 0⟩) ∨ (∃ d ∈ D, Knows f s d) ∨ torn = true ∧ Blends D f s

/-- A confirmed filter was in force, or torn out of some that were. -/
def Confirmed (D : Set Hw.Device) (fNew : Sw.Filter) (torn : Bool) : Prop :=
  fNew = .empty ∨ (∃ d ∈ D, d.f = fNew.toHw) ∨
    torn = true ∧ ∀ n < 678, ∃ d ∈ D, stream fNew.toHw.segments n = stream d.f.segments n

/-- What both threads have are reports of states in `D`. -/
structure Heard (D : Set Hw.Device) (r : Receiver) (pc : Pc) : Prop where
  thread : r.Holds D
  main : pc.Holds D r

section Heard
variable {D D' : Set Hw.Device} {r : Receiver} {pc : Pc} {p : Purpose} {length : Nat} {bufs : List PktBuf} {torn : Bool}
  {view : Nat → PktBuf} {fCurr : Sw.Filter}

theorem Heard.mono (h : Heard D r pc) (hD : D ⊆ D') : Heard D' r pc := by
  refine ⟨h.thread.mono hD, ?_⟩
  have hmain := h.main
  cases pc with
  | parse p length bufs torn =>
      obtain ⟨hup, hlen, hbuf, hmixed, hwhole⟩ := hmain
      exact ⟨hup, hlen, hbuf, fun buf hmem => (hmixed buf hmem).mono hD, fun htorn => (hwhole htorn).mono hD⟩
  | call p => exact hmain
  | prompt | probe | send | wait | test => trivial

/-- A reading is of a reply. -/
theorem Heard.of_idle (h : Heard D r pc) (hidle : ¬ r.Busy) : Heard D' r pc := by
  obtain ⟨hflag, hframe⟩ := not_or.mp hidle
  refine ⟨holds_nothing (Bool.eq_false_iff.mpr hflag) (not_not.mp hframe), ?_⟩
  have hmain := h.main
  cases pc with
  | parse p length bufs torn => exact absurd hmain.1 hflag
  | call p => exact absurd hmain hflag
  | prompt | probe | send | wait | test => trivial

/-- A reply that the thread has is one that it had, or takes. -/
theorem Sw.Receiver.Does.busy {r' : Receiver} {t u : Option Arrival} (hdoes : r.Does t u r') (h : r'.Busy) :
    r.Busy ∨ ∃ a, t = some a := by
  cases hdoes with
  | stay => exact .inl h
  | @recv buf len flag a _ => exact .inr ⟨a, rfl⟩
  | store | copied | measured | raised => exact .inl (.inr nofun)

/-- The thread goes on. -/
theorem Heard.step (h : Heard D r pc) (x : Action)
    (hx : ∀ a, r.takes x = some a → ∃ d ∈ D, Reports d a.pkt) :
    Heard D (probeReceiverDaemon r x) (pc.watch r.pc.copying (probeReceiverDaemon r x).probePktBuf) := by
  have hthread := (does r x).holds h.thread hx
  refine ⟨hthread, ?_⟩
  have hmain := h.main
  cases pc with
  | parse p length bufs torn =>
      obtain ⟨hup, hlen, hbuf, hmixed, hwhole⟩ := hmain
      have hup' := (does r x).flag hup
      refine ⟨hup', hlen, List.mem_append_right _ List.mem_cons_self, fun buf hmem => ?_, fun htorn => ?_⟩
      · rcases List.mem_append.mp hmem with hmem | hmem
        · exact hmixed buf hmem
        · rw [List.mem_singleton.mp hmem]
          exact hthread.mixed (.inl hup')
      · obtain ⟨htorn, hcopying⟩ := Bool.or_eq_false_iff.mp htorn
        obtain ⟨d, hd, pkt, hreports, hbufs⟩ := hwhole htorn
        refine ⟨d, hd, pkt, hreports, fun buf hmem => ?_⟩
        rcases List.mem_append.mp hmem with hmem | hmem
        · exact hbufs buf hmem
        · rw [List.mem_singleton.mp hmem, (does r x).buf hcopying]
          exact hbufs _ hbuf
  | call p => exact (does r x).flag hmain
  | prompt | probe | send | wait | test => trivial

/-- The length is read. -/
theorem Heard.call (h : Heard D r (.call p)) : Heard D r (.parse p r.probePktLength [r.probePktBuf] r.pc.copying) := by
  have hup : r.probeReplyReceived = true := h.main
  refine ⟨h.thread, hup, h.thread.length (.inl hup), List.mem_cons_self, fun buf hmem => ?_, h.thread.whole (.inl hup)⟩
  rw [List.mem_singleton.mp hmem]
  exact h.thread.mixed (.inl hup)

/-- What is read has bits of reports, -/
theorem Heard.blends (h : Heard D r (.parse p length bufs torn)) (hview : ∀ n, view n ∈ bufs) :
    Blends D (parseProbePkt fCurr (readPktBuf view) length).f (parseProbePkt fCurr (readPktBuf view) length).s := by
  obtain ⟨-, hlen, -, hmixed, -⟩ := h.main
  intro n hn
  obtain ⟨d, hd, hbit⟩ := hmixed _ (hview (8 * (14 + 20 + 8) + n)) n hn
  refine ⟨d, hd, ?_⟩
  have hsize : 8 * (14 + 20 + 8) + 998 ≤ 8 * bufferSize := by decide
  rw [hlen, stream_parsed _ _ hn, bitAt_drop, readPktBuf, bitAt_tornRead _ (by omega)]
  exact hbit

/-- and where no other is copied meanwhile, is one. -/
theorem Heard.knows (h : Heard D r (.parse p length bufs false)) (hview : ∀ n, view n ∈ bufs) :
    ∃ d ∈ D, Knows (parseProbePkt fCurr (readPktBuf view) length).f (parseProbePkt fCurr (readPktBuf view) length).s d := by
  obtain ⟨-, hlen, -, -, hwhole⟩ := h.main
  obtain ⟨d, hd, pkt, hreports, hbufs⟩ := hwhole rfl
  have hparse := hreports.parse fCurr []
  rw [List.append_nil] at hparse
  refine ⟨d, hd, ?_⟩
  rw [hlen, parse_whole fCurr (Nat.le_of_eq hreports.length.symm) (fun n => hbufs _ (hview n))]
  exact hparse

/-- Bits of one filter make this filter. -/
theorem Blends.filter {f : Sw.Filter} {s : Stats} {f' : Hw.Filter} (h : Blends {d | d.f = f'} f s) (hf : f'.Packable) :
    f.toHw = f' := by
  rw [← Hw.Filter.decode_stream hf, ← Hw.Filter.decode_stream (Filter.toHw_packable f)]
  refine Hw.Filter.decode_congr fun n hn => ?_
  obtain ⟨d, hd, hbit⟩ := h n (by omega)
  rw [stream_replySegments hn, stream_replySegments hn] at hbit
  rw [hbit, show d.f = f' from hd]

theorem Heard.told (fCurr : Sw.Filter) (h : Heard D r (.parse p length bufs torn)) (hview : ∀ n, view n ∈ bufs) :
    Told D torn (parseProbePkt fCurr (readPktBuf view) length).f (parseProbePkt fCurr (readPktBuf view) length).s := by
  cases torn with
  | false => exact .inr (.inl (h.knows hview))
  | true => exact .inr (.inr ⟨rfl, h.blends hview⟩)

end Heard

section Told
variable {D D' : Set Hw.Device} {torn : Bool} {f fNew : Sw.Filter} {s : Stats}

theorem Told.mono (h : Told D torn f s) (hD : D ⊆ D') :
    Told D' torn f s := by
  rcases h with hempty | ⟨d, hd, hknows⟩ | ⟨htorn, hblends⟩
  · exact .inl hempty
  · exact .inr (.inl ⟨d, hD hd, hknows⟩)
  · refine .inr (.inr ⟨htorn, fun n hn => ?_⟩)
    obtain ⟨d, hd, hbit⟩ := hblends n hn
    exact ⟨d, hD hd, hbit⟩

theorem Confirmed.mono (h : Confirmed D fNew torn) (hD : D ⊆ D') :
    Confirmed D' fNew torn := by
  rcases h with hempty | ⟨d, hd, hfilter⟩ | ⟨htorn, hbits⟩
  · exact .inl hempty
  · exact .inr (.inl ⟨d, hD hd, hfilter⟩)
  · refine .inr (.inr ⟨htorn, fun n hn => ?_⟩)
    obtain ⟨d, hd, hbit⟩ := hbits n hn
    exact ⟨d, hD hd, hbit⟩

theorem Told.confirmed (h : Told D torn f s) :
    Confirmed D f torn := by
  rcases h with ⟨hempty, -⟩ | ⟨d, hd, hknows⟩ | ⟨htorn, hblends⟩
  · exact .inl hempty
  · exact .inr (.inl ⟨d, hd, hknows.1.symm⟩)
  · refine .inr (.inr ⟨htorn, fun n hn => ?_⟩)
    obtain ⟨d, hd, hbit⟩ := hblends n (by omega)
    rw [stream_replySegments hn, stream_replySegments hn] at hbit
    exact ⟨d, hd, hbit⟩

end Told

end DnsAdtm
