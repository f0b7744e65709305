/-
# `AdminProtocol` — the administrator and the board

The command line and the board as two parties, with what is on the wires between them.  The
command line is two threads: the main one, which writes and applies a filter, sends a probe and
waits for its reply, and `probe_receiver_daemon`, which takes one frame after another.  The board
is its device (`Hw.Device`).  A step is one action of one of the four, and between any two of them
other hosts may send, and frames may be lost.  The two threads have no lock: a frame can be copied
into the buffer while the packet in it is parsed.

Of the other hosts no more is assumed than that they send no update of their own, though they may
send one again, and nothing from the probe's address.  Then in every reachable state (`Sound`)

    the board's filter is the first one, or one that was applied
    what the command line has from a probe is a state that the board was in, its filter and its
    counters of one moment, or is `{}`, or was torn, and has the bits of several such states
    no filter but `{}` is confirmed that was not in force, or torn out of some that were

    System            both parties, and `Step` what they do
    Sound             what every step keeps
    apply_round       a run to the end of a check
    admin_protocol    every run
-/
import DnsAdtm.AdminHost

namespace DnsAdtm

open Machine Sw

/-! ## The two parties -/

/-- A message of `com_admin_apply`: whether the filter of the probe was `fNew`, and whether it was
torn. -/
structure Printed where
  fNew : Sw.Filter
  ok : Bool
  torn : Bool

/-- Both parties, the frames on their way, the messages printed by `com_admin_apply`, and what
the states before are remembered for. -/
structure System where
  prober : Prober
  pc : Pc
  admin : AdminBuf
  sendPkt : SendPkt
  printed : List Printed
  board : Hw.Device
  toBoard : List Hw.UdpFrame
  toHost : List (List (BitVec 8))
  /-- the packets the board has handled -/
  delivered : List Hw.RcvData
  /-- the frames it has sent -/
  replied : List (List (BitVec 8))
  /-- the filters that were sent in an update -/
  applied : List Sw.Filter
  /-- `f` and `s` were read while the thread was in its `memcpy` -/
  torn : Bool
  /-- no probe and no reply was on its way when the flag was reset -/
  fresh : Bool
  /-- a frame to the board was lost since the last update was sent -/
  lost : Bool
  /-- another host has sent an update since then -/
  replayed : Bool

namespace System

/-- `probe_fpga_update_local` has a result. -/
def conclude (s : System) (p : Purpose) (pr : ProbeResponse) (torn : Bool) : System :=
  let s := { s with prober.f := pr.f, prober.s := pr.s, pc := .prompt, torn := torn }
  match p with
  | .launch => { s with prober.fCurr := pr.f }
  | .update => s
  | .check fNew => { s with printed := s.printed ++ [⟨fNew, decide (pr.f = fNew), torn⟩] }

/-- An action of the receiver thread. -/
def thread (s : System) (x : Action) : System :=
  let r := probeReceiverDaemon s.prober.receiver x
  { s with prober.receiver := r, pc := s.pc.watch s.prober.receiver.pc.copying r.probePktBuf }

/-- The frame that the board sends for a packet, if it sends one. -/
def answer (g : Hw.Generics) (gReplyMac : BitVec 48) (d : Hw.Device) (rd : Hw.RcvData) : List (List (BitVec 8)) :=
  ((d.handle g rd).2.map fun rd => (Hw.sndOf gReplyMac rd).bytes).toList

/-- The board handles the first packet. -/
def serve (g : Hw.Generics) (gReplyMac : BitVec 48) (s : System) (frame : Hw.UdpFrame) (rest : List Hw.UdpFrame) :
    System :=
  { s with
    toBoard := rest
    board := (s.board.handle g frame.rcvData).1
    toHost := s.toHost ++ answer g gReplyMac s.board frame.rcvData
    delivered := s.delivered ++ [frame.rcvData]
    replied := s.replied ++ answer g gReplyMac s.board frame.rcvData }

/-- No probe is on its way to the board, and no reply to the buffer. -/
def Quiet (g : Hw.Generics) (s : System) : Prop :=
  (∀ fr ∈ s.toBoard, fr.rcvData.dstMAC ≠ g.queryMac) ∧ (∀ pkt ∈ s.toHost, ¬ FromProbe pkt) ∧
    s.prober.receiver.pc.frame = none

instance (g : Hw.Generics) (s : System) : Decidable (s.Quiet g) := inferInstanceAs (Decidable (_ ∧ _))

/-- One action. -/
inductive Step (g : Hw.Generics) (gReplyMac : BitVec 48) : System → System → Prop
  /-- a command that changes `f_curr` -/
  | edit {s : System} {c : Command} {r : Int} {f : Sw.Filter} : s.pc = .prompt →
      c.run s.prober.fCurr = some (r, f) → Step g gReplyMac s { s with prober.fCurr := f }
  /-- `com_admin_apply`, up to its check -/
  | apply {s : System} {a : Addresses} {admin : AdminBuf} {buf : SendPkt} {frame : Hw.UdpFrame} : s.pc = .prompt →
      writeToAdminPkt s.prober.fCurr s.admin = some admin →
      transmit a adminDstMac (admin.adminPkt.take bufferSize) s.sendPkt = some (buf, frame) →
      Step g gReplyMac s { s with
        admin := admin
        sendPkt := buf
        toBoard := s.toBoard ++ [frame]
        pc := .probe (.check s.prober.fCurr)
        applied := s.applied ++ [s.prober.fCurr]
        lost := false
        replayed := false }
  /-- `com_admin_probe` and `com_stats_probe` -/
  | probe {s : System} : s.pc = .prompt → Step g gReplyMac s { s with pc := .probe .update }
  | reset {s : System} {p : Purpose} {a : Addresses} {buf : SendPkt} {frame : Hw.UdpFrame} : s.pc = .probe p →
      transmit a probeMac probePayload s.sendPkt = some (buf, frame) →
      Step g gReplyMac s { s with
        sendPkt := buf
        prober.receiver.probeReplyReceived := false
        pc := .send p frame
        fresh := decide (s.Quiet g) }
  | send {s : System} {p : Purpose} {frame : Hw.UdpFrame} : s.pc = .send p frame →
      Step g gReplyMac s { s with toBoard := s.toBoard ++ [frame], pc := .wait p 0 }
  | turn {s : System} {p : Purpose} {t : Nat} : s.pc = .wait p t →
      s.prober.receiver.probeReplyReceived = false → t ≤ probeTimeout →
      Step g gReplyMac s { s with pc := .wait p (t + 10) }
  | leave {s : System} {p : Purpose} {t : Nat} : s.pc = .wait p t →
      s.prober.receiver.probeReplyReceived = true ∨ probeTimeout < t →
      Step g gReplyMac s { s with pc := .test p }
  | received {s : System} {p : Purpose} : s.pc = .test p → s.prober.receiver.probeReplyReceived = true →
      Step g gReplyMac s { s with pc := .call p }
  | timeout {s : System} {p : Purpose} : s.pc = .test p → s.prober.receiver.probeReplyReceived = false →
      Step g gReplyMac s (s.conclude p .empty false)
  | call {s : System} {p : Purpose} : s.pc = .call p →
      Step g gReplyMac s { s with
        pc := .parse p s.prober.receiver.probePktLength [s.prober.receiver.probePktBuf] s.prober.receiver.pc.copying }
  /-- every bit is read from the buffer as it is at some moment of the call -/
  | parse {s : System} {p : Purpose} {length : Nat} {bufs : List PktBuf} {torn : Bool} {view : Nat → PktBuf} :
      s.pc = .parse p length bufs torn → (∀ n, view n ∈ bufs) →
      Step g gReplyMac s (s.conclude p (parseProbePkt s.prober.fCurr (readPktBuf view) length) torn)
  /-- `trigger_recv` -/
  | receive {s : System} {a : Arrival} {rest : List (List (BitVec 8))} : s.toHost = a.pkt :: rest →
      s.prober.receiver.pc = .recv → Step g gReplyMac s { s.thread (.recv a) with toHost := rest }
  /-- the `memcpy` stores a byte -/
  | store {s : System} (i : Nat) : Step g gReplyMac s (s.thread (.store i))
  /-- the thread is done with a statement -/
  | next {s : System} : Step g gReplyMac s (s.thread .next)
  /-- a packet in the board -/
  | board {s : System} {frame : Hw.UdpFrame} {rest : List Hw.UdpFrame} : s.toBoard = frame :: rest →
      Step g gReplyMac s (s.serve g gReplyMac frame rest)
  /-- another host's frame to the board, which can be an update that it has seen -/
  | foreign {s : System} (frame : Hw.UdpFrame) :
      (Hw.Authentic g frame.rcvData → ∃ f ∈ s.applied, Hw.Filter.decode frame.rcvData.dnsPkt.getLsbD = f.toHw) →
      Step g gReplyMac s { s with
        toBoard := s.toBoard ++ [frame]
        replayed := s.replayed || decide (Hw.Authentic g frame.rcvData) }
  /-- another host's frame to this one -/
  | noise {s : System} (pkt : List (BitVec 8)) : ¬ FromProbe pkt →
      Step g gReplyMac s { s with toHost := s.toHost ++ [pkt] }
  /-- a frame is lost -/
  | loseRequest {s : System} (i : Nat) :
      Step g gReplyMac s { s with toBoard := s.toBoard.eraseIdx i, lost := true }
  | loseReply {s : System} (i : Nat) : Step g gReplyMac s { s with toHost := s.toHost.eraseIdx i }

/-- In `main`, behind `initialise_fpga_configuration`, with `probe_board_on_launch` or without. -/
def start (d₀ : Hw.Device) (launch : Bool) : System where
  prober := ⟨initialiseFpgaConfiguration, ⟨0, 0, 0, 0, 0⟩, initialiseFpgaConfiguration, .init⟩
  pc := if launch then .probe .launch else .prompt
  admin := .init
  sendPkt := .init
  printed := []
  board := d₀
  toBoard := []
  toHost := []
  delivered := []
  replied := []
  applied := []
  torn := false
  fresh := false
  lost := false
  replayed := false

/-- The states of all runs. -/
def Reachable (g : Hw.Generics) (gReplyMac : BitVec 48) (d₀ : Hw.Device) (launch : Bool) (s : System) : Prop :=
  Relation.ReflTransGen (Step g gReplyMac) (start d₀ launch) s

end System

/-! ## The board's frames -/

variable {g : Hw.Generics} {gReplyMac : BitVec 48} {d d₀ : Hw.Device} {rd : Hw.RcvData} {ps : List Hw.RcvData}

/-- The source address of a frame of `mac_snd`. -/
theorem fromProbe_bytes (sd : Hw.SndData) : FromProbe sd.bytes ↔ bytesLE sd.srcMAC 6 = probeDstMac := by
  have hsrc : ((sd.bytes.take bufferSize).drop 6).take 6 = bytesLE sd.srcMAC 6 := by
    rw [List.drop_take, List.take_take, show min 6 (bufferSize - 6) = 6 from rfl, Hw.SndData.bytes, Hw.SndData.header]
    simp only [List.append_assoc]
    rw [List.drop_left' (length_bytesLE _ _), List.take_left' (length_bytesLE _ _)]
  rw [FromProbe, hsrc]

theorem fromProbe_reply (hg : Paired g) (hquery : rd.dstMAC = g.queryMac) :
    FromProbe (Hw.sndOf gReplyMac (Hw.probeReply d rd)).bytes := by
  rw [fromProbe_bytes]
  show bytesLE rd.dstMAC 6 = _
  rw [hquery, hg.query, bytesLE_ofBytesLE (by decide) (by decide)]
  rfl

/-- What is sent on has another source. -/
theorem fromProbe_sent (hg : Paired g) {replyType : Bool} :
    ¬ FromProbe (Hw.sndOf gReplyMac (Hw.sentOf g replyType rd)).bytes := by
  rw [fromProbe_bytes]
  exact hg.normal

theorem reply_reports (hd : d.f.Packable) : Reports d (Hw.sndOf gReplyMac (Hw.probeReply d rd)).bytes := by
  have hcnt : (Hw.sndOf gReplyMac (Hw.probeReply d rd)).dnsPktCnt = 1020 := rfl
  have hpkt : Agrees (stream (Hw.replySegments d.f d.t)) 998 (Hw.sndOf gReplyMac (Hw.probeReply d rd)).dnsPkt := by
    intro n hn
    show (setSlice rd.dnsPkt 0 (field (stream (Hw.replySegments d.f d.t)) 0 998)).getLsbD n = _
    rw [getLsbD_setSlice, if_pos ⟨by omega, Nat.zero_le n, by omega⟩, getLsbD_field, Nat.sub_zero, decide_eq_true hn,
      Bool.true_and, Nat.zero_add]
  obtain ⟨hlen, hbits⟩ := reply_bits hcnt hpkt
  exact ⟨hd, hlen, hbits⟩

/-- The filter in an update has lengths of two bits. -/
theorem decode_packable (pkt : BitVec 1024) : (Hw.Filter.decode pkt.getLsbD).Packable := by
  have hparse : Hw.Filter.decode pkt.getLsbD = (parseFields (bytesLE pkt 128)).toHw := by
    rw [toHw_parseFields]
    exact Hw.Filter.decode_congr fun n hn => (bitAt_bytesLE _ (by omega)).symm
  rw [hparse]
  exact Filter.toHw_packable _

theorem after_packable (hd : d₀.f.Packable) (ps : List Hw.RcvData) :
    (after (Hw.Device.handle g) d₀ ps).f.Packable := by
  refine @after_invariant _ _ _ (Hw.Device.handle g) d₀ ps (fun d => d.f.Packable) (fun d rd _ hd => ?_) hd
  rw [Hw.Device.handle]
  split_ifs
  · exact decode_packable rd.dnsPkt
  · exact hd
  · exact hd
  · exact hd
  · exact hd

/-! ## The board's filter -/

/-- Packets without a valid tag leave the filter alone. -/
theorem after_forged (h : ∀ rd ∈ ps, ¬ Hw.Authentic g rd) : (after (Hw.Device.handle g) d ps).f = d.f := by
  refine @after_invariant _ _ _ (Hw.Device.handle g) d ps (fun d' => d'.f = d.f) (fun d' rd hmem hd' => ?_) rfl
  rw [Hw.Device.handle]
  split_ifs with hadmin hauth
  · exact absurd hauth (h rd hmem)
  all_goals exact hd'

theorem handle_forged (h : ¬ Hw.Authentic g rd) : (d.handle g rd).1.f = d.f := by
  have hone := @after_forged g d [rd] fun rd' hmem => by rwa [List.mem_singleton.mp hmem]
  exact hone

theorem handle_authentic (h : Hw.Authentic g rd) : (d.handle g rd).1.f = Hw.Filter.decode rd.dnsPkt.getLsbD := by
  rw [Hw.Device.handle, if_pos h.1, if_pos h]

/-- It is the first one, or that of an update. -/
theorem after_filter (d : Hw.Device) (ps : List Hw.RcvData) : (after (Hw.Device.handle g) d ps).f = d.f ∨
    ∃ rd ∈ ps, Hw.Authentic g rd ∧ (after (Hw.Device.handle g) d ps).f = Hw.Filter.decode rd.dnsPkt.getLsbD := by
  induction ps using List.reverseRecOn with
  | nil => exact .inl rfl
  | append_singleton ps rd ih =>
      rw [after_concat]
      by_cases hauth : Hw.Authentic g rd
      · exact .inr ⟨rd, List.mem_append_right _ List.mem_cons_self, hauth, handle_authentic hauth⟩
      · rw [handle_forged hauth]
        exact ih.imp id fun ⟨rd', hmem, h⟩ => ⟨rd', List.mem_append_left _ hmem, h⟩

/-! ## What holds in every run -/

/-- The states that the board has been in. -/
def Past (g : Hw.Generics) (d₀ : Hw.Device) (ps : List Hw.RcvData) : Set Hw.Device :=
  {d | ∃ qs, qs <+: ps ∧ after (Hw.Device.handle g) d₀ qs = d}

/-- One of them has `P`. -/
def Was (g : Hw.Generics) (d₀ : Hw.Device) (ps : List Hw.RcvData) (P : Hw.Device → Prop) : Prop :=
  ∃ d ∈ Past g d₀ ps, P d

theorem past_more (rd : Hw.RcvData) : Past g d₀ ps ⊆ Past g d₀ (ps ++ [rd]) := by
  rintro d ⟨qs, hqs, hd⟩
  exact ⟨qs, hqs.trans (List.prefix_append _ _), hd⟩

theorem Was.more {P : Hw.Device → Prop} (h : Was g d₀ ps P) (rd : Hw.RcvData) : Was g d₀ (ps ++ [rd]) P := by
  obtain ⟨d, hd, hP⟩ := h
  exact ⟨d, past_more rd hd, hP⟩

theorem Was.now {P : Hw.Device → Prop} (h : P (after (Hw.Device.handle g) d₀ ps)) : Was g d₀ ps P :=
  ⟨_, ⟨ps, List.prefix_refl _, rfl⟩, h⟩

namespace System

variable {s s' : System}

/-- What every step keeps. -/
structure Sound (g : Hw.Generics) (gReplyMac : BitVec 48) (d₀ : Hw.Device) (s : System) : Prop where
  admin : s.admin.Reachable
  board : s.board = after (Hw.Device.handle g) d₀ s.delivered
  replied : s.replied = (answers (Hw.Device.handle g) d₀ s.delivered).map fun rd => (Hw.sndOf gReplyMac rd).bytes
  /-- every update, handled or on its way, carries a filter that was applied -/
  handled : ∀ rd ∈ s.delivered, Hw.Authentic g rd →
    ∃ f ∈ s.applied, Hw.Filter.decode rd.dnsPkt.getLsbD = f.toHw
  updates : ∀ fr ∈ s.toBoard, Hw.Authentic g fr.rcvData →
    ∃ f ∈ s.applied, Hw.Filter.decode fr.rcvData.dnsPkt.getLsbD = f.toHw
  asking : ∀ p fr, s.pc = .send p fr → fr.rcvData.dstMAC = g.queryMac
  replies : ∀ pkt ∈ s.toHost, FromProbe pkt → Was g d₀ s.delivered fun d => Reports d pkt
  heard : Heard (Past g d₀ s.delivered) s.prober.receiver s.pc
  known : (s.prober.f = initialiseFpgaConfiguration ∧ s.prober.s = ⟨0, 0, 0, 0, 0⟩) ∨
    Told (Past g d₀ s.delivered) s.torn s.prober.f s.prober.s
  printed : ∀ m ∈ s.printed, m.ok = true → Confirmed (Past g d₀ s.delivered) m.fNew m.torn

theorem sound_start (d₀ : Hw.Device) (launch : Bool) : (start d₀ launch).Sound g gReplyMac d₀ where
  admin := .start
  board := rfl
  replied := rfl
  handled _ h := absurd h List.not_mem_nil
  updates _ h := absurd h List.not_mem_nil
  asking p fr h := by cases launch <;> cases h
  replies _ h := absurd h List.not_mem_nil
  heard := ⟨holds_nothing rfl rfl, by cases launch <;> trivial⟩
  known := .inl ⟨rfl, rfl⟩
  printed _ h := absurd h List.not_mem_nil

/-- A payload of the right length is transmitted as it is. -/
theorem transmit_eq {a : Addresses} {dstmac : MacAddr} {payload : List (BitVec 8)} {p buf : SendPkt}
    {frame : Hw.UdpFrame} (h : transmit a dstmac payload p = some (buf, frame)) :
    ∃ (c : Packet) (hpos : 1 ≤ c.udpPayload.length), c.dstmac = dstmac ∧ c.udpPayload = payload ∧
      buf = formPacket c p ∧ frame = hostFrame c p hpos := by
  rw [transmit] at h
  split at h
  · rename_i hlen
    cases h
    exact ⟨_, hlen.1, rfl, rfl, rfl, rfl⟩
  · cases h

/-- The frame of `com_admin_apply`. -/
theorem applied_update (hg : Paired g) {f : Sw.Filter} {a : Addresses} {admin admin' : AdminBuf} {p buf : SendPkt}
    {frame : Hw.UdpFrame} (hadmin : admin.Reachable) (hwrite : writeToAdminPkt f admin = some admin')
    (hsend : transmit a adminDstMac (admin'.adminPkt.take bufferSize) p = some (buf, frame)) :
    Hw.Authentic g frame.rcvData ∧ Hw.Filter.decode frame.rcvData.dnsPkt.getLsbD = f.toHw := by
  obtain ⟨c, hpos, hdst, hpayload, -, rfl⟩ := transmit_eq hsend
  obtain ⟨admin'', hwrite', -, hpkt⟩ := writeToAdminPkt_spec f hadmin.fresh
  rw [hwrite, Option.some.injEq] at hwrite'
  subst hwrite'
  rw [List.take_of_length_le (by rw [hpkt.length]; decide)] at hpayload
  have hcarried : AdminPkt f c.udpPayload := by
    rw [hpayload]
    exact hpkt
  exact frame_update hg hdst hcarried

/-- The frame of a probe. -/
theorem probe_query (hg : Paired g) {a : Addresses} {p buf : SendPkt} {frame : Hw.UdpFrame}
    (hsend : transmit a probeMac probePayload p = some (buf, frame)) : frame.rcvData.dstMAC = g.queryMac := by
  obtain ⟨c, hpos, hdst, -, -, rfl⟩ := transmit_eq hsend
  rw [hg.query]
  show ofBytesLE 48 c.dstmac.toList = _
  rw [hdst]
  decide +kernel

/-- A probe has a result: what it has told is known from now on. -/
theorem Sound.conclude (h : s.Sound g gReplyMac d₀) (p : Purpose) {pr : ProbeResponse} {torn : Bool}
    (htold : Told (Past g d₀ s.delivered) torn pr.f pr.s) : (s.conclude p pr torn).Sound g gReplyMac d₀ := by
  have hbase : ({ s with prober.f := pr.f, prober.s := pr.s, pc := .prompt, torn := torn } : System).Sound g gReplyMac d₀ :=
    { h with asking := nofun, heard := ⟨h.heard.thread, trivial⟩, known := .inr htold }
  cases p with
  | launch => exact { hbase with }
  | update => exact hbase
  | check fNew =>
      refine { hbase with printed := ?_ }
      intro m hmem hok
      rcases List.mem_append.mp hmem with hmem | hmem
      · exact h.printed m hmem hok
      · obtain rfl := List.mem_singleton.mp hmem
        rw [← show pr.f = fNew from of_decide_eq_true hok]
        exact htold.confirmed

/-- The thread goes on. -/
theorem Sound.thread (h : s.Sound g gReplyMac d₀) (x : Action)
    (hx : ∀ a, x = .recv a → a.pkt ∈ s.toHost) : (s.thread x).Sound g gReplyMac d₀ :=
  { h with
    asking := fun p fr hpc => h.asking p fr (watch_send hpc)
    heard := h.heard.step x fun a ha =>
      have htakes := takes_some ha
      h.replies a.pkt (hx a htakes.1) (of_decide_eq_true htakes.2) }

/-- What the board sends for a packet is a report of its state, if it is from the probe's address. -/
theorem answer_reports (hg : Paired g) (hd : d.f.Packable) {pkt : List (BitVec 8)}
    (hmem : pkt ∈ answer g gReplyMac d rd) (hfrom : FromProbe pkt) :
    rd.dstMAC = g.queryMac ∧ (d.handle g rd).1 = d ∧ Reports d pkt := by
  rw [answer, Hw.Device.handle] at hmem
  rw [Hw.Device.handle]
  split_ifs at hmem ⊢ with hadmin hauth hquery
  · exact absurd hmem List.not_mem_nil
  · exact absurd hmem List.not_mem_nil
  · obtain rfl := List.mem_singleton.mp hmem
    exact ⟨hquery, rfl, reply_reports hd⟩
  · obtain rfl := List.mem_singleton.mp hmem
    exact absurd hfrom (fromProbe_sent hg)
  · exact absurd hmem List.not_mem_nil

theorem Sound.serve (h : s.Sound g gReplyMac d₀) (hg : Paired g) (hd : d₀.f.Packable) {frame : Hw.UdpFrame}
    {rest : List Hw.UdpFrame} (hto : s.toBoard = frame :: rest) : (s.serve g gReplyMac frame rest).Sound g gReplyMac d₀ := by
  refine
    { admin := h.admin
      board := ?_
      replied := ?_
      handled := ?_
      updates := fun fr hmem => h.updates fr (by rw [hto]; exact List.mem_cons_of_mem _ hmem)
      asking := h.asking
      replies := ?_
      heard := h.heard.mono (past_more _)
      known := h.known.imp_right fun htold => htold.mono (past_more _)
      printed := fun m hmem hok => (h.printed m hmem hok).mono (past_more _) }
  · show (s.board.handle g frame.rcvData).1 = after (Hw.Device.handle g) d₀ (s.delivered ++ [frame.rcvData])
    rw [after_concat, ← h.board]
  · show s.replied ++ answer g gReplyMac s.board frame.rcvData = List.map _ (answers _ d₀ (s.delivered ++ [frame.rcvData]))
    rw [answers_concat, List.map_append, ← h.board, ← h.replied, answer]
    cases (s.board.handle g frame.rcvData).2 <;> rfl
  · intro rd hmem hauth
    rcases List.mem_append.mp hmem with hmem | hmem
    · exact h.handled rd hmem hauth
    · rw [List.mem_singleton.mp hmem] at hauth ⊢
      exact h.updates frame (by rw [hto]; exact List.mem_cons_self) hauth
  · intro pkt hmem hfrom
    rcases List.mem_append.mp hmem with hmem | hmem
    · exact (h.replies pkt hmem hfrom).more _
    · have hpackable : s.board.f.Packable := by
        rw [h.board]
        exact after_packable hd _
      obtain ⟨-, -, hreports⟩ := answer_reports hg hpackable hmem hfrom
      refine ⟨s.board, ⟨s.delivered, List.prefix_append _ _, h.board.symm⟩, hreports⟩

theorem Sound.step (h : s.Sound g gReplyMac d₀) (hg : Paired g) (hd : d₀.f.Packable) (hstep : Step g gReplyMac s s') :
    s'.Sound g gReplyMac d₀ := by
  cases hstep with
  | edit hpc _ => exact { h with }
  | apply hpc hwrite hsend =>
      have hupdate := applied_update hg h.admin hwrite hsend
      exact
        { h with
          admin := .write _ h.admin hwrite
          handled := fun rd hmem hauth => by
            obtain ⟨f, hf, heq⟩ := h.handled rd hmem hauth
            exact ⟨f, List.mem_append_left _ hf, heq⟩
          updates := by
            intro fr hmem hauth
            rcases List.mem_append.mp hmem with hmem | hmem
            · obtain ⟨f, hf, heq⟩ := h.updates fr hmem hauth
              exact ⟨f, List.mem_append_left _ hf, heq⟩
            · obtain rfl := List.mem_singleton.mp hmem
              exact ⟨_, List.mem_append_right _ List.mem_cons_self, hupdate.2⟩
          asking := nofun
          heard := ⟨h.heard.thread, trivial⟩ }
  | probe _ => exact { h with asking := nofun, heard := ⟨h.heard.thread, trivial⟩ }
  | reset _ hsend =>
      refine { h with asking := ?_, heard := ⟨h.heard.thread.reset, trivial⟩ }
      intro p fr heq
      cases heq
      exact probe_query hg hsend
  | send hpc =>
      have hquery := h.asking _ _ hpc
      refine { h with updates := ?_, asking := nofun, heard := ⟨h.heard.thread, trivial⟩ }
      intro fr hmem hauth
      rcases List.mem_append.mp hmem with hmem | hmem
      · exact h.updates fr hmem hauth
      · obtain rfl := List.mem_singleton.mp hmem
        exact absurd (hquery.symm.trans hauth.1) hg.macs_ne
  | turn _ _ _ => exact { h with asking := nofun, heard := ⟨h.heard.thread, trivial⟩ }
  | leave _ _ => exact { h with asking := nofun, heard := ⟨h.heard.thread, trivial⟩ }
  | received _ hup => exact { h with asking := nofun, heard := ⟨h.heard.thread, hup⟩ }
  | timeout _ _ => exact h.conclude _ (.inl ⟨rfl, rfl⟩)
  | call hpc =>
      have hheard := h.heard
      rw [hpc] at hheard
      exact { h with asking := nofun, heard := hheard.call }
  | parse hpc hview =>
      have hheard := h.heard
      rw [hpc] at hheard
      exact h.conclude _ (hheard.told _ hview)
  | receive hto _ =>
      have hthread := h.thread (.recv _) fun a ha => by
        cases ha
        rw [hto]
        exact List.mem_cons_self
      refine { hthread with replies := fun pkt hmem => h.replies pkt ?_ }
      rw [hto]
      exact List.mem_cons_of_mem _ hmem
  | store i => exact h.thread (.store i) nofun
  | next => exact h.thread .next nofun
  | board hto => exact h.serve hg hd hto
  | foreign frame hseen =>
      refine { h with updates := ?_ }
      intro fr hmem hauth
      rcases List.mem_append.mp hmem with hmem | hmem
      · exact h.updates fr hmem hauth
      · obtain rfl := List.mem_singleton.mp hmem
        exact hseen hauth
  | noise pkt hnoise =>
      refine { h with replies := ?_ }
      intro pkt' hmem hfrom
      rcases List.mem_append.mp hmem with hmem | hmem
      · exact h.replies pkt' hmem hfrom
      · obtain rfl := List.mem_singleton.mp hmem
        exact absurd hfrom hnoise
  | loseRequest i => exact { h with updates := fun fr hmem => h.updates fr ((List.eraseIdx_sublist _ _).subset hmem) }
  | loseReply i => exact { h with replies := fun pkt hmem => h.replies pkt ((List.eraseIdx_sublist _ _).subset hmem) }

/-! ## Runs -/

theorem transmit_some {dstmac : MacAddr} {payload : List (BitVec 8)} (a : Addresses) (p : SendPkt)
    (h : 1 ≤ payload.length ∧ payload.length ≤ 1472) : ∃ buf frame, transmit a dstmac payload p = some (buf, frame) := by
  rw [transmit, dif_pos h]
  exact ⟨_, _, rfl⟩

/-- A run, part by part, -/
theorem run_first {P : System → Prop} (hrun : Relation.ReflTransGen (Step g gReplyMac) s s')
    (h : ∃ t, Relation.ReflTransGen (Step g gReplyMac) s' t ∧ P t) :
    ∃ t, Relation.ReflTransGen (Step g gReplyMac) s t ∧ P t := by
  obtain ⟨t, hrest, hP⟩ := h
  exact ⟨t, hrun.trans hrest, hP⟩

/-- and step by step. -/
theorem first {P : System → Prop} (hstep : Step g gReplyMac s s')
    (h : ∃ t, Relation.ReflTransGen (Step g gReplyMac) s' t ∧ P t) :
    ∃ t, Relation.ReflTransGen (Step g gReplyMac) s t ∧ P t := run_first (.single hstep) h

/-- The thread takes a frame, and comes to the end of its turn. -/
theorem whole_turn {a : Arrival} {rest : List (List (BitVec 8))} (hto : s.toHost = a.pkt :: rest)
    (hthread : s.prober.receiver.pc = .recv) (hpc : ∀ copying buf, s.pc.watch copying buf = s.pc) :
    Relation.ReflTransGen (Step g gReplyMac) s
      { s with toHost := rest, prober.receiver := run probeReceiverDaemon s.prober.receiver (wholeTurn a) } := by
  have hthread' : ∀ (r : Receiver) (x : Action) (toHost : List (List (BitVec 8))),
      ({ s with toHost := toHost, prober.receiver := r } : System).thread x =
        { s with toHost := toHost, prober.receiver := probeReceiverDaemon r x } := by
    intro r x toHost
    rw [System.thread, hpc]
  have hnext : ∀ (r : Receiver), Step g gReplyMac { s with toHost := rest, prober.receiver := r }
      { s with toHost := rest, prober.receiver := probeReceiverDaemon r .next } := by
    intro r
    rw [← hthread']
    exact .next
  have hrecv : Step g gReplyMac s
      { s with toHost := rest, prober.receiver := probeReceiverDaemon s.prober.receiver (.recv a) } := by
    have hstep := @Step.receive g gReplyMac s a rest hto hthread
    rwa [show s.thread (.recv a) = _ from hthread' s.prober.receiver (.recv a) s.toHost] at hstep
  exact .head hrecv (.head (hnext _) (.head (hnext _) (.single (hnext _))))

/-- Nothing stands in the way of a confirmation: from every prompt with idle wires and a thread that
waits a run leads to the end of a check that began in quiet, with nothing lost or sent again and two
frames, the update and the probe. -/
theorem apply_round (hg : Paired g) (hs : s.Sound g gReplyMac d₀) (hd : d₀.f.Packable) (hpc : s.pc = .prompt)
    (hthread : s.prober.receiver.pc = .recv) (hboard : s.toBoard = []) (hhost : s.toHost = []) (a : Addresses) :
    ∃ t, Relation.ReflTransGen (Step g gReplyMac) s t ∧
      (∃ length buf, t.pc = .parse (.check s.prober.fCurr) length [buf] false) ∧
      t.fresh = true ∧ t.lost = false ∧ t.replayed = false ∧ t.applied = s.applied ++ [s.prober.fCurr] ∧
      ∃ fr fr' : Hw.UdpFrame, t.delivered = s.delivered ++ [fr.rcvData] ++ [fr'.rcvData] ∧ fr.ihl = 5 ∧ fr'.ihl = 5 := by
  obtain ⟨admin, hwrite, -, hpkt⟩ := writeToAdminPkt_spec s.prober.fCurr hs.admin.fresh
  have hlen : (admin.adminPkt.take bufferSize).length = 128 := by
    rw [List.take_of_length_le (by rw [hpkt.length]; decide), hpkt.length]
  obtain ⟨buf, update, hupdate⟩ := @transmit_some adminDstMac _ a s.sendPkt (by rw [hlen]; decide)
  obtain ⟨buf', query, hquery⟩ := @transmit_some probeMac probePayload a buf (by decide)
  have hadmin : update.rcvData.dstMAC = g.adminMac := (applied_update hg hs.admin hwrite hupdate).1.1
  have hask : query.rcvData.dstMAC = g.queryMac := probe_query hg hquery
  have hupdate5 : update.ihl = 5 := by
    obtain ⟨c, hpos, -, -, -, rfl⟩ := transmit_eq hupdate
    rfl
  have hquery5 : query.ihl = 5 := by
    obtain ⟨c, hpos, -, -, -, rfl⟩ := transmit_eq hquery
    rfl
  have hsilent : (s.board.handle g update.rcvData).2 = none := by rw [Hw.Device.handle, if_pos hadmin]
  obtain ⟨d, hd'⟩ : ∃ d, d = (s.board.handle g update.rcvData).1 := ⟨_, rfl⟩
  have hanswer : d.handle g query.rcvData = (d, some (Hw.probeReply d query.rcvData)) := by
    rw [Hw.Device.handle, if_neg (by rw [hask]; exact hg.macs_ne), if_pos hask]
  have hpackable : d.f.Packable := by
    have hnext := @after_packable g d₀ hd (s.delivered ++ [update.rcvData])
    rwa [after_concat, ← hs.board, ← hd'] at hnext
  have hreports := @reply_reports gReplyMac d query.rcvData hpackable
  have hfrom := @fromProbe_reply g gReplyMac d query.rcvData hg hask
  obtain ⟨a', hpkt'⟩ : ∃ a' : Arrival, a'.pkt = (Hw.sndOf gReplyMac (Hw.probeReply d query.rcvData)).bytes :=
    ⟨⟨_, false, Nat.le_trans (by decide) (Nat.le_of_eq hreports.length.symm)⟩, rfl⟩
  have ha' : a'.fromProbe = true := by
    rw [← hpkt'] at hfrom
    exact decide_eq_true hfrom
  -- the frames are sent, and the board takes the one and answers the other
  refine first (.apply hpc hwrite hupdate) (first (.reset rfl hquery) (first (.send rfl) ?_))
  refine first (@Step.board g gReplyMac _ update [query] (by dsimp only; rw [hboard]; rfl)) ?_
  refine first (@Step.board g gReplyMac _ query [] rfl) ?_
  dsimp only [serve, answer]
  rw [hsilent, ← hd', hanswer, hhost]
  -- the thread takes the reply, and the main thread sees the flag
  refine run_first (@whole_turn g gReplyMac _ a' [] (by rw [hpkt']; rfl) hthread fun _ _ => rfl) ?_
  dsimp only
  rw [@run_wholeTurn { s.prober.receiver with probeReplyReceived := false } hthread a', if_pos ha']
  refine first (.leave rfl (.inl rfl)) (first (.received rfl rfl) (first (.call rfl)
    ⟨_, .refl, ⟨_, _, rfl⟩, ?_, rfl, rfl, rfl, update, query, rfl, hupdate5, hquery5⟩))
  refine decide_eq_true ⟨?_, ?_, ?_⟩
  · intro fr hmem
    dsimp only at hmem
    rw [hboard, List.nil_append, List.mem_singleton] at hmem
    rw [hmem, hadmin]
    exact hg.macs_ne.symm
  · intro pkt hmem
    exact absurd hmem List.not_mem_nil
  · dsimp only
    rw [hthread]
    rfl

theorem sound_reachable (hg : Paired g) (hd : d₀.f.Packable) {launch : Bool}
    (h : Reachable g gReplyMac d₀ launch s) : s.Sound g gReplyMac d₀ := by
  induction h with
  | refl => exact sound_start d₀ launch
  | tail _ hstep ih => exact ih.step hg hd hstep

/-- The first apply of a process, with the board at power-on. -/
theorem reachable_check : ∃ s, Reachable {} Hw.replyMac ⟨.init, Hw.IState.init.tally⟩ false s ∧
    (∃ length buf, s.pc = .parse (.check initialiseFpgaConfiguration) length [buf] false) ∧
      s.fresh = true ∧ s.lost = false ∧ s.replayed = false ∧ s.applied = [initialiseFpgaConfiguration] ∧
      ∃ fr fr' : Hw.UdpFrame, s.delivered = [fr.rcvData, fr'.rcvData] ∧ fr.ihl = 5 ∧ fr'.ihl = 5 :=
  apply_round paired_default (sound_start _ false) Hw.Filter.init_inRange.packable rfl rfl rfl rfl
    ⟨.replicate 6 0, .replicate 4 0, .replicate 4 0, 0, 0⟩

/-- **No filter that was not applied, no report of a state that was not, no confirmation of a filter
that was not in force.**  In every state of every run, whatever other hosts send and send again, whatever
is lost, and however the threads take turns: the board has had no filter but its first one and those
applied; `f` and `s` are those of the start, or `{}`, or the filter and the counters that the board had
at one moment, or, if a reply was copied while the last was parsed, every bit of them is one that the
board had; and so is every filter whose update was confirmed. -/
theorem admin_protocol (hg : Paired g) (hd : d₀.f.Packable) {launch : Bool} (h : Reachable g gReplyMac d₀ launch s) :
    (Was g d₀ s.delivered (· = s.board) ∧
      ∀ f, Was g d₀ s.delivered (·.f = f) → f = d₀.f ∨ ∃ fNew ∈ s.applied, f = fNew.toHw) ∧
    ((s.prober.f = initialiseFpgaConfiguration ∧ s.prober.s = ⟨0, 0, 0, 0, 0⟩) ∨
      Told (Past g d₀ s.delivered) s.torn s.prober.f s.prober.s) ∧
    ∀ m ∈ s.printed, m.ok = true → Confirmed (Past g d₀ s.delivered) m.fNew m.torn := by
  have hsound := sound_reachable hg hd h
  refine ⟨⟨.now hsound.board.symm, ?_⟩, hsound.known, hsound.printed⟩
  rintro f ⟨d, ⟨qs, hqs, rfl⟩, rfl⟩
  refine (after_filter d₀ qs).imp id fun ⟨rd, hmem, hauth, hfilter⟩ => ?_
  obtain ⟨fNew, happlied, hdecode⟩ := hsound.handled rd (hqs.subset hmem) hauth
  exact ⟨fNew, happlied, hfilter.trans hdecode⟩

theorem admin_protocol_applied : ∃ (s : System) (length : Nat) (buf : PktBuf),
    s.pc = .parse (.check initialiseFpgaConfiguration) length [buf] false ∧
      Was {} ⟨.init, Hw.IState.init.tally⟩ s.delivered (· = s.board) := by
  obtain ⟨s, hreach, ⟨length, buf, hpc⟩, -⟩ := reachable_check
  exact ⟨s, length, buf, hpc, (admin_protocol paired_default Hw.Filter.init_inRange.packable hreach).1.1⟩

end System

end DnsAdtm
