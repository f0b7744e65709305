/-
# `Sw.ProbeCheck` — confirming an update (`fpga-prober.hh`, `receiver.hh`)

`check_fpga_filter_matches` sends a probe and compares the filter in the reply.  The reply is
taken by a thread of its own, which keeps any frame from the probe's address: it copies it into
`probe_pkt_buf`, sets the length, and raises a flag, one statement after another and with no lock.
The main thread resets the flag, sends, looks at the flag a hundred and one times, tests it, and
parses the buffer where it stands; a byte that is stored then can be read before or after.

    probeReceiverDaemon   an action of the thread
    does                  what it can come to
    Traffic               its actions, between two accesses of the main thread
    follows_run           what the frames taken leave behind
    check_confirms        when a match is a confirmation

Two things are compared without being a reply to the probe: what is in the buffer, if the frame
there answers an earlier probe, is cut short, or is being overwritten; and, where no frame comes
in time, `{}`.
-/
import DnsAdtm.Lib.Machine
import DnsAdtm.Sw.FpgaProber

namespace DnsAdtm.Sw

open Machine

/-- `probe_dst_mac` -/
def probeDstMac : List (BitVec 8) := [0x00, 0x0a, 0x35, 0xbe, 0x91, 0xad]

/-- `BUFFER_SIZE` -/
def bufferSize : Nat := 65536

/-- `PROBE_TIMEOUT`, in microseconds. -/
def probeTimeout : Nat := 1000

/-- A frame the thread takes from its socket, with its Ethernet header at least.  `fresh` is
not part of the frame: the FPGA made it, after the probe of this call was sent. -/
structure Arrival where
  pkt : List (BitVec 8)
  fresh : Bool
  header : 14 ≤ pkt.length
  deriving DecidableEq

/-- `recv_pkt_buf` up to `recv_pkt_length`. -/
def Arrival.recvPktBuf (a : Arrival) : List (BitVec 8) := a.pkt.take bufferSize

/-- The source address is `probe_dst_mac`. -/
def Arrival.fromProbe (a : Arrival) : Bool := decide ((a.recvPktBuf.drop 6).take 6 = probeDstMac)

/-! ## The thread -/

/-- Where the thread is, and the frame it has taken. -/
inductive ThreadPc where
  /-- in `trigger_recv` -/
  | recv
  /-- in the `memcpy` -/
  | copy (a : Arrival)
  /-- before `probe_pkt_length = recv_pkt_length` -/
  | length (a : Arrival)
  /-- before `probe_reply_received = 1` -/
  | flag (a : Arrival)

def ThreadPc.frame : ThreadPc → Option Arrival
  | .recv => none
  | .copy a => some a
  | .length a => some a
  | .flag a => some a

def ThreadPc.copying : ThreadPc → Bool
  | .copy _ => true
  | _ => false

/-- `probe_pkt_buf` -/
abbrev PktBuf := Vector (BitVec 8) bufferSize

/-- What the two threads share, and where the one is. -/
structure Receiver where
  probePktBuf : PktBuf
  probePktLength : Nat
  probeReplyReceived : Bool
  pc : ThreadPc

/-- At the start of the process. -/
def Receiver.init : Receiver := ⟨.replicate _ 0, 0, false, .recv⟩

inductive Action where
  /-- a frame is received -/
  | recv (a : Arrival)
  /-- the `memcpy` stores byte `i` -/
  | store (i : Nat)
  /-- a statement is done, the `memcpy` with the bytes that were left -/
  | next

/-- Byte `i` of a frame is stored. -/
def PktBuf.store (buf : PktBuf) (pkt : List (BitVec 8)) (i : Nat) : PktBuf :=
  match pkt[i]? with
  | some b => buf.setIfInBounds i b
  | none => buf

/-- `memcpy(probe_pkt_buf, recv_pkt_buf, recv_pkt_length)` -/
def PktBuf.memcpy (buf : PktBuf) (pkt : List (BitVec 8)) : PktBuf := .ofFn fun i => pkt.getD i (buf.get i)

/-- One action of `probe_receiver_daemon`; where it is not the turn of `x`, none. -/
def probeReceiverDaemon (r : Receiver) (x : Action) : Receiver :=
  match r.pc, x with
  | .recv, .recv a => if a.fromProbe then { r with pc := .copy a } else r
  | .copy a, .store i => { r with probePktBuf := r.probePktBuf.store a.recvPktBuf i }
  | .copy a, .next => { r with probePktBuf := r.probePktBuf.memcpy a.recvPktBuf, pc := .length a }
  | .length a, .next => { r with probePktLength := a.recvPktBuf.length, pc := .flag a }
  | .flag _, .next => { r with probeReplyReceived := true, pc := .recv }
  | _, _ => r

/-- The frame from the probe's address that is taken. -/
def Receiver.takes (r : Receiver) (x : Action) : Option Arrival :=
  match r.pc, x with
  | .recv, .recv a => if a.fromProbe then some a else none
  | _, _ => none

/-- The frame that the flag is raised for. -/
def Receiver.raises (r : Receiver) (x : Action) : Option Arrival :=
  match r.pc, x with
  | .flag a, .next => some a
  | _, _ => none

section Equations
variable (buf : PktBuf) (len : Nat) (flag : Bool) {a : Arrival}

theorem daemon_probe (ha : a.fromProbe = true) :
    probeReceiverDaemon ⟨buf, len, flag, .recv⟩ (.recv a) = ⟨buf, len, flag, .copy a⟩ := if_pos ha

theorem daemon_other (ha : a.fromProbe = false) :
    probeReceiverDaemon ⟨buf, len, flag, .recv⟩ (.recv a) = ⟨buf, len, flag, .recv⟩ :=
  if_neg (Bool.eq_false_iff.mp ha)

theorem takes_probe (ha : a.fromProbe = true) : Receiver.takes ⟨buf, len, flag, .recv⟩ (.recv a) = some a := if_pos ha

theorem takes_other (ha : a.fromProbe = false) : Receiver.takes ⟨buf, len, flag, .recv⟩ (.recv a) = none :=
  if_neg (Bool.eq_false_iff.mp ha)

end Equations

/-- What an action comes to, with the frame that is taken and the one that the flag is raised for. -/
inductive Receiver.Does : Receiver → Option Arrival → Option Arrival → Receiver → Prop
  | stay {r : Receiver} : Does r none none r
  | recv {buf : PktBuf} {len : Nat} {flag : Bool} {a : Arrival} : a.fromProbe = true →
      Does ⟨buf, len, flag, .recv⟩ (some a) none ⟨buf, len, flag, .copy a⟩
  | store {buf : PktBuf} {len : Nat} {flag : Bool} {a : Arrival} (i : Nat) :
      Does ⟨buf, len, flag, .copy a⟩ none none ⟨buf.store a.recvPktBuf i, len, flag, .copy a⟩
  | copied {buf : PktBuf} {len : Nat} {flag : Bool} {a : Arrival} :
      Does ⟨buf, len, flag, .copy a⟩ none none ⟨buf.memcpy a.recvPktBuf, len, flag, .length a⟩
  | measured {buf : PktBuf} {len : Nat} {flag : Bool} {a : Arrival} :
      Does ⟨buf, len, flag, .length a⟩ none none ⟨buf, a.recvPktBuf.length, flag, .flag a⟩
  | raised {buf : PktBuf} {len : Nat} {flag : Bool} {a : Arrival} :
      Does ⟨buf, len, flag, .flag a⟩ none (some a) ⟨buf, len, true, .recv⟩

/-- There is no other. -/
theorem does (r : Receiver) (x : Action) : r.Does (r.takes x) (r.raises x) (probeReceiverDaemon r x) := by
  obtain ⟨buf, len, flag, pc⟩ := r
  cases pc with
  | recv =>
      cases x with
      | recv a =>
          cases ha : a.fromProbe with
          | true =>
              rw [daemon_probe _ _ _ ha, takes_probe _ _ _ ha]
              exact .recv ha
          | false =>
              rw [daemon_other _ _ _ ha, takes_other _ _ _ ha]
              exact .stay
      | store i => exact .stay
      | next => exact .stay
  | copy a =>
      cases x with
      | recv b => exact .stay
      | store i => exact .store i
      | next => exact .copied
  | length a =>
      cases x with
      | recv b => exact .stay
      | store i => exact .stay
      | next => exact .measured
  | flag a =>
      cases x with
      | recv b => exact .stay
      | store i => exact .stay
      | next => exact .raised

section Does
variable {r r' : Receiver} {taken raised : Option Arrival}

/-- The thread does not reset the flag. -/
theorem Receiver.Does.flag (hdoes : r.Does taken raised r') (h : r.probeReplyReceived = true) :
    r'.probeReplyReceived = true := by
  cases hdoes with
  | raised => rfl
  | stay | recv | store | copied | measured => exact h

/-- Only the `memcpy` stores. -/
theorem Receiver.Does.buf (hdoes : r.Does taken raised r') (h : r.pc.copying = false) : r'.probePktBuf = r.probePktBuf := by
  cases hdoes with
  | store | copied => cases h
  | stay | recv | measured | raised => rfl

/-- Where the thread waits and takes no frame, everything stays as it is. -/
theorem Receiver.Does.waits (hdoes : r.Does none raised r') (h : r.pc = .recv) : r' = r := by
  cases hdoes with
  | stay => rfl
  | store | copied | measured | raised => cases h

theorem takes_some {x : Action} {a : Arrival} (h : r.takes x = some a) : x = .recv a ∧ a.fromProbe = true := by
  obtain ⟨buf, len, flag, pc⟩ := r
  cases pc with
  | recv =>
      cases x with
      | recv b =>
          cases hb : b.fromProbe with
          | true =>
              rw [takes_probe _ _ _ hb] at h
              cases h
              exact ⟨rfl, hb⟩
          | false =>
              rw [takes_other _ _ _ hb] at h
              cases h
      | store i => cases h
      | next => cases h
  | copy b => cases h
  | length b => cases h
  | flag b => cases h

end Does

/-- Frames along a run of the thread. -/
def Receiver.along (out : Receiver → Action → Option Arrival) : Receiver → List Action → List Arrival
  | _, [] => []
  | r, x :: xs => (out r x).toList ++ along out (probeReceiverDaemon r x) xs

/-! ## A call -/

/-- What the thread does during a call: while the probe is sent, in turn `k` of the wait, before
the flag is tested, before the length is read, and while the packet is parsed.  Bit `k` of the
buffer is read behind the first `moment k` of the last. -/
structure Traffic where
  send : List Action
  turn : Nat → List Action
  test : List Action
  call : List Action
  parse : List Action
  moment : Nat → Nat

/-- The loop of `probe_reply_recv` from turn `k` on; `t` is `10 * k`. -/
def pollTurns (tr : Traffic) : Nat → Nat → Receiver → Receiver
  | 0, _, r => r
  | left + 1, k, r =>
    if r.probeReplyReceived then r else pollTurns tr left (k + 1) (run probeReceiverDaemon r (tr.turn k))

/-- `probe_reply_recv`: `t <= us_timeout` in the turns 0 to `us_timeout / 10`. -/
def probeReplyRecv (usTimeout : Nat) (tr : Traffic) (r : Receiver) : Receiver :=
  pollTurns tr (usTimeout / 10 + 1) 0 r

/-- The bytes of the buffer, each bit as it is when it is read. -/
def readPktBuf (bufs : Nat → PktBuf) : List (BitVec 8) := tornRead (fun k => (bufs k).toList) bufferSize

/-- `probe_fpga` -/
def probeFpga (fCurr : Filter) (tr : Traffic) (r : Receiver) : ProbeResponse × Receiver :=
  let r := { r with probeReplyReceived := false }
  let r := run probeReceiverDaemon r tr.send
  let r := probeReplyRecv probeTimeout tr r
  let r := run probeReceiverDaemon r tr.test
  if r.probeReplyReceived then
    let r := run probeReceiverDaemon r tr.call
    (parseProbePkt fCurr
      (readPktBuf fun k => (run probeReceiverDaemon r (tr.parse.take (tr.moment k))).probePktBuf) r.probePktLength,
      run probeReceiverDaemon r tr.parse)
  else (.empty, r)

/-- The globals `f`, `s` and `f_curr`, and the receiver's. -/
structure Prober where
  f : Filter
  s : Stats
  fCurr : Filter
  receiver : Receiver

/-- `probe_fpga_update_local` -/
def probeFpgaUpdateLocal (tr : Traffic) (st : Prober) : Prober :=
  let (pr, receiver) := probeFpga st.fCurr tr st.receiver
  { st with f := pr.f, s := pr.s, receiver := receiver }

/-- `check_fpga_filter_matches`; the padding of a `filter_t` is zero on both sides. -/
def checkFpgaFilterMatches (fNew : Filter) (tr : Traffic) (st : Prober) : Bool × Prober :=
  let st := probeFpgaUpdateLocal tr st
  (decide (st.f = fNew), st)

/-! ## The frames of a call -/

/-- The actions of the turns from `k` on: the turn in which the flag is raised is the last. -/
def Traffic.turns (tr : Traffic) : Nat → Nat → Receiver → List Action
  | 0, _, _ => []
  | left + 1, k, r =>
    if r.probeReplyReceived then []
    else tr.turn k ++ tr.turns left (k + 1) (run probeReceiverDaemon r (tr.turn k))

/-- The actions before the flag is tested. -/
def Traffic.inTime (tr : Traffic) (r : Receiver) : List Action :=
  tr.send ++ tr.turns (probeTimeout / 10 + 1) 0 (run probeReceiverDaemon { r with probeReplyReceived := false } tr.send) ++
    tr.test

/-- The frames that the flag has been raised for when it is tested. -/
def Traffic.replies (tr : Traffic) (r : Receiver) : List Arrival :=
  Receiver.along Receiver.raises { r with probeReplyReceived := false } (tr.inTime r)

/-- The frames from the probe's address that are on their way to the buffer when the flag is reset, or
are taken before the packet is parsed. -/
def Traffic.taken (tr : Traffic) (r : Receiver) : List Arrival :=
  r.pc.frame.toList ++
    Receiver.along Receiver.takes { r with probeReplyReceived := false } (tr.inTime r ++ tr.call ++ tr.parse)

/-- The receiver when the flag is tested. -/
def Traffic.atTest (tr : Traffic) (r : Receiver) : Receiver :=
  run probeReceiverDaemon { r with probeReplyReceived := false } (tr.inTime r)

variable {tr : Traffic} {r : Receiver} {xs ys : List Action} {x : Action} {a : Arrival} {taken replies : List Arrival}

theorem along_append (out : Receiver → Action → Option Arrival) (r : Receiver) (xs ys : List Action) :
    Receiver.along out r (xs ++ ys) = Receiver.along out r xs ++ Receiver.along out (run probeReceiverDaemon r xs) ys := by
  induction xs generalizing r with
  | nil => rfl
  | cons x xs ih => rw [List.cons_append, Receiver.along, Receiver.along, ih, run_cons, List.append_assoc]

/-- The loop runs the actions of its turns. -/
theorem pollTurns_eq (left k : Nat) (r : Receiver) :
    pollTurns tr left k r = run probeReceiverDaemon r (tr.turns left k r) := by
  induction left generalizing k r with
  | zero => rfl
  | succ left ih =>
      rw [pollTurns, Traffic.turns]
      cases hr : r.probeReplyReceived with
      | true => rfl
      | false => rw [if_neg Bool.noConfusion, if_neg Bool.noConfusion, ih, run_append]

theorem test_eq : run probeReceiverDaemon (probeReplyRecv probeTimeout tr
    (run probeReceiverDaemon { r with probeReplyReceived := false } tr.send)) tr.test = tr.atTest r := by
  rw [probeReplyRecv, pollTurns_eq, Traffic.atTest, Traffic.inTime, run_append, run_append]

theorem probeFpga_eq (fCurr : Filter) : (probeFpga fCurr tr r).1 =
    if (tr.atTest r).probeReplyReceived then
      let r' := run probeReceiverDaemon (tr.atTest r) tr.call
      parseProbePkt fCurr
        (readPktBuf fun k => (run probeReceiverDaemon r' (tr.parse.take (tr.moment k))).probePktBuf) r'.probePktLength
    else .empty := by
  simp only [probeFpga, test_eq]
  split <;> rfl

/-! ## What the frames leave behind -/

theorem length_recvPktBuf (a : Arrival) : a.recvPktBuf.length ≤ bufferSize := List.length_take_le _ _

/-- A copied frame lies at the front of the buffer. -/
theorem memcpy_toList (buf : PktBuf) {pkt : List (BitVec 8)} (h : pkt.length ≤ bufferSize) :
    pkt <+: (buf.memcpy pkt).toList := by
  rw [List.prefix_iff_getElem?]
  intro i hi
  rw [PktBuf.memcpy, Vector.toList_ofFn, List.getElem?_ofFn, dif_pos (Nat.lt_of_lt_of_le hi h)]
  exact congrArg some (List.getD_eq_getElem _ _ hi)

/-- The states of the receiver, with the flag reset by any calls. -/
inductive Receiver.Reachable : Receiver → Prop
  | start : Reachable .init
  | step {r : Receiver} (x : Action) : Reachable r → Reachable (probeReceiverDaemon r x)
  | reset {r : Receiver} : Reachable r → Reachable { r with probeReplyReceived := false }

/-- The thread has done what is behind it. -/
structure Receiver.Valid (r : Receiver) : Prop where
  copied : ∀ a, r.pc = .length a ∨ r.pc = .flag a → a.recvPktBuf <+: r.probePktBuf.toList
  measured : ∀ a, r.pc = .flag a → r.probePktLength = a.recvPktBuf.length

theorem valid_of_waits (hpc : r.pc = .recv) : r.Valid where
  copied a ha := by
    rw [hpc] at ha
    rcases ha with ha | ha <;> cases ha
  measured a ha := by
    rw [hpc] at ha
    cases ha

theorem Receiver.Does.valid {r' : Receiver} {t u : Option Arrival} (hdoes : r.Does t u r') (h : r.Valid) : r'.Valid := by
  cases hdoes with
  | stay => exact h
  | recv | store => exact ⟨nofun, nofun⟩
  | @copied buf len flag b =>
      refine ⟨?_, nofun⟩
      rintro a (ha | ha)
      · cases ha
        exact memcpy_toList buf (length_recvPktBuf b)
      · cases ha
  | measured =>
      refine ⟨?_, ?_⟩
      · rintro a (ha | ha)
        · cases ha
        · cases ha
          exact h.copied _ (.inl rfl)
      · rintro a ha
        cases ha
        rfl
  | raised => exact valid_of_waits rfl

theorem Receiver.Reachable.valid (h : r.Reachable) : r.Valid := by
  induction h with
  | start => exact valid_of_waits rfl
  | step x _ ih => exact (does _ x).valid ih
  | reset _ ih => exact ⟨ih.copied, ih.measured⟩

/-- The flag, the length and the buffer, by the frames taken since it was reset. -/
structure Receiver.Follows (r : Receiver) (taken replies : List Arrival) : Prop where
  valid : r.Valid
  taken : taken = replies ++ r.pc.frame.toList
  raised : r.probeReplyReceived = true ↔ replies ≠ []
  whole : r.pc = .recv → ∀ a, replies.getLast? = some a →
    a.recvPktBuf <+: r.probePktBuf.toList ∧ r.probePktLength = a.recvPktBuf.length

theorem Receiver.Does.follows {r' : Receiver} {t u : Option Arrival} (hdoes : r.Does t u r') (h : r.Follows taken replies) :
    r'.Follows (taken ++ t.toList) (replies ++ u.toList) := by
  have hvalid := hdoes.valid h.valid
  obtain ⟨hbefore, htaken, hraised, hwhole⟩ := h
  cases hdoes with
  | stay =>
      rw [Option.toList_none, List.append_nil, List.append_nil]
      exact ⟨hbefore, htaken, hraised, hwhole⟩
  | recv _ =>
      refine ⟨hvalid, ?_, ?_, nofun⟩
      · rw [htaken]
        simp [ThreadPc.frame]
      · simpa using hraised
  | store | copied | measured =>
      rw [Option.toList_none, List.append_nil, List.append_nil]
      exact ⟨hvalid, htaken, hraised, nofun⟩
  | raised =>
      refine ⟨hvalid, ?_, ?_, ?_⟩
      · rw [htaken]
        rfl
      · exact ⟨fun _ h => List.cons_ne_nil _ _ (List.append_eq_nil_iff.mp h).2, fun _ => rfl⟩
      · intro _ a ha
        rw [Option.toList_some, List.getLast?_concat, Option.some.injEq] at ha
        subst ha
        exact ⟨hbefore.copied _ (.inr rfl), hbefore.measured _ rfl⟩

theorem follows_run (h : r.Follows taken replies) (xs : List Action) :
    (run probeReceiverDaemon r xs).Follows (taken ++ Receiver.along Receiver.takes r xs)
      (replies ++ Receiver.along Receiver.raises r xs) := by
  induction xs generalizing r taken replies with
  | nil => rwa [Receiver.along, Receiver.along, List.append_nil, List.append_nil]
  | cons x xs ih =>
      have hrest := ih ((does r x).follows h)
      rw [List.append_assoc, List.append_assoc] at hrest
      exact hrest

/-- When the flag is reset. -/
theorem follows_reset (h : r.Valid) : ({ r with probeReplyReceived := false } : Receiver).Follows r.pc.frame.toList [] where
  valid := ⟨h.copied, h.measured⟩
  taken := rfl
  raised := by simp
  whole _ a ha := by cases ha

theorem follows_atTest (h : r.Valid) : (tr.atTest r).Follows
    (r.pc.frame.toList ++ Receiver.along Receiver.takes { r with probeReplyReceived := false } (tr.inTime r)) (tr.replies r) :=
  follows_run (follows_reset h) (tr.inTime r)

/-- A thread that waits leaves everything as it is, as long as it takes no frame. -/
theorem run_waiting (hpc : r.pc = .recv) (h : Receiver.along Receiver.takes r xs = []) : run probeReceiverDaemon r xs = r := by
  induction xs with
  | nil => rfl
  | cons x xs ih =>
      rw [Receiver.along, List.append_eq_nil_iff] at h
      have hdoes := does r x
      rw [Option.toList_eq_nil_iff.mp h.1] at hdoes
      have hsame := hdoes.waits hpc
      rw [run_cons, hsame]
      rw [hsame] at h
      exact ih h.2

/-! ## When a match is a confirmation -/

/-- A frame of 170 bytes from the probe's address, made by the FPGA for this probe. -/
def Arrival.answers (a : Arrival) : Prop :=
  a.fromProbe = true ∧ a.fresh = true ∧ 170 ≤ a.recvPktBuf.length

/-- The filter in a frame. -/
def Arrival.filter (fCurr : Filter) (a : Arrival) : Filter :=
  (parseProbePkt fCurr a.recvPktBuf a.recvPktBuf.length).f

/-- Behind a frame of 170 bytes the parser does not look. -/
theorem parseProbePkt_append (fCurr : Filter) {p rest : List (BitVec 8)} (h : 170 ≤ p.length) (n : Nat) :
    parseProbePkt fCurr (p ++ rest) n = parseProbePkt fCurr p n := by
  refine parseProbePkt_congr fCurr fCurr n fun k hk => ?_
  rw [List.getD_append _ _ _ _ (by omega)]

/-- Where every bit that is read is one of the packet, the packet is parsed. -/
theorem parse_readPktBuf (fCurr : Filter) {bufs : Nat → PktBuf} {p : List (BitVec 8)}
    (h : ∀ n < 8 * 167, bitAt (bufs n).toList n = bitAt p n) (len : Nat) :
    parseProbePkt fCurr (readPktBuf bufs) len = parseProbePkt fCurr p len := by
  have hsize : 8 * 167 ≤ 8 * bufferSize := by decide
  refine parseProbePkt_congr fCurr fCurr len fun k hk => ?_
  rw [getD_eq_field, getD_eq_field]
  refine field_congr fun i hi => ?_
  rw [readPktBuf, bitAt_tornRead _ (by omega)]
  exact h _ (by omega)

theorem parse_whole (fCurr : Filter) {bufs : Nat → PktBuf} {p : List (BitVec 8)} (hp : 170 ≤ p.length)
    (h : ∀ n, p <+: (bufs n).toList) (len : Nat) :
    parseProbePkt fCurr (readPktBuf bufs) len = parseProbePkt fCurr p len := by
  refine parse_readPktBuf fCurr (fun n hn => ?_) len
  obtain ⟨rest, hrest⟩ := h n
  rw [← hrest, bitAt_append, if_pos (by omega)]

theorem check_iff (fNew : Filter) (st : Prober) : (checkFpgaFilterMatches fNew tr st).1 = true ↔
    (probeFpga st.fCurr tr st.receiver).1.f = fNew := by
  have hcheck : (checkFpgaFilterMatches fNew tr st).1 =
      decide ((probeFpga st.fCurr tr st.receiver).1.f = fNew) := rfl
  rw [hcheck, decide_eq_true_eq]

/-- The last frame of the call is parsed, if it is whole when the flag is tested. -/
theorem probeFpga_answered (hr : r.Valid) (hlast : (tr.replies r).getLast? = some a) (hlong : 170 ≤ a.recvPktBuf.length)
    (htaken : tr.taken r = tr.replies r) (fCurr : Filter) :
    (probeFpga fCurr tr r).1 = parseProbePkt fCurr a.recvPktBuf a.recvPktBuf.length := by
  have hfollows := @follows_atTest tr r hr
  have hne : tr.replies r ≠ [] := fun hnil => by rw [hnil] at hlast; cases hlast
  -- so nothing is on its way at the test, and nothing is taken behind it
  have hall := htaken
  rw [Traffic.taken, List.append_assoc (tr.inTime r), along_append, ← List.append_assoc, hfollows.taken,
    List.append_assoc, List.append_right_eq_self, List.append_eq_nil_iff, along_append, List.append_eq_nil_iff] at hall
  obtain ⟨hframe, hcall, hparse⟩ := hall
  have hpc : (tr.atTest r).pc = .recv := by
    cases hpc : (tr.atTest r).pc <;> first | rfl | (rw [hpc] at hframe; cases hframe)
  have hcall' : run probeReceiverDaemon (tr.atTest r) tr.call = tr.atTest r := run_waiting hpc hcall
  rw [show run probeReceiverDaemon _ (tr.inTime r) = tr.atTest r from rfl, hcall'] at hparse
  have hstill (k : Nat) : run probeReceiverDaemon (tr.atTest r) (tr.parse.take k) = tr.atTest r := by
    refine run_waiting hpc ?_
    rw [← List.take_append_drop k tr.parse, along_append, List.append_eq_nil_iff] at hparse
    exact hparse.1
  obtain ⟨hfront, hlen⟩ := hfollows.whole hpc a hlast
  rw [probeFpga_eq, if_pos (hfollows.raised.mpr hne)]
  dsimp only
  simp only [hcall', hstill, hlen]
  exact parse_whole fCurr hlong (fun _ => hfront) _

/-- The condition on the frames: if the flag is raised for none in time, the filter is not `{}`; and
if it is, the last one answers the probe, and no other is taken or on its way behind it. -/
def Traffic.Answered (tr : Traffic) (r : Receiver) (fNew : Filter) : Prop :=
  match (tr.replies r).getLast? with
  | none => fNew ≠ .empty
  | some a => a.answers ∧ tr.taken r = tr.replies r

/-- A frame from another address. -/
def otherBytes : List (BitVec 8) := List.replicate 64 0x02

theorem otherBytes_header : 14 ≤ otherBytes.length := by decide

def otherFrame : Arrival := ⟨otherBytes, false, otherBytes_header⟩

/-- No action at all. -/
def Traffic.none : Traffic := ⟨[], fun _ => [], [], [], [], fun _ => 0⟩

theorem Traffic.none_turns (left k : Nat) (r : Receiver) : Traffic.none.turns left k r = [] := by
  induction left generalizing k r with
  | zero => rfl
  | succ left ih =>
      rw [turns]
      split
      · rfl
      · exact ih (k + 1) _

theorem Traffic.none_replies (r : Receiver) : Traffic.none.replies r = [] := by
  have htime : Traffic.none.inTime r = [] := by
    show [] ++ Traffic.none.turns _ 0 _ ++ [] = []
    rw [none_turns]
    rfl
  rw [replies, htime]
  rfl

/-- A frame is taken, and handled to its end. -/
def wholeTurn (a : Arrival) : List Action := [.recv a, .next, .next, .next]

/-- Frames that are taken in the turns of the wait, and while the packet is parsed. -/
def Traffic.ofTurns (turn : Nat → List Arrival) (rest : List Arrival) : Traffic where
  send := []
  turn k := (turn k).flatMap wholeTurn
  test := []
  call := []
  parse := rest.flatMap wholeTurn
  moment _ := 0

def Action.frame : Action → Option Arrival
  | .recv a => some a
  | _ => none

/-- All frames that are received during a call. -/
def Traffic.frames (tr : Traffic) (r : Receiver) : List Arrival :=
  (tr.inTime r ++ tr.call ++ tr.parse).filterMap Action.frame

theorem run_wholeTurn (hpc : r.pc = .recv) (a : Arrival) : run probeReceiverDaemon r (wholeTurn a) =
    if a.fromProbe then ⟨r.probePktBuf.memcpy a.recvPktBuf, a.recvPktBuf.length, true, .recv⟩ else r := by
  obtain ⟨buf, len, flag, pc⟩ := r
  obtain rfl : pc = .recv := hpc
  rw [wholeTurn, run_cons]
  cases ha : a.fromProbe with
  | true =>
      rw [daemon_probe _ _ _ ha]
      rfl
  | false =>
      rw [daemon_other _ _ _ ha]
      rfl

/-- Behind it the thread waits again. -/
theorem wholeTurn_waits (hpc : r.pc = .recv) (a : Arrival) : (run probeReceiverDaemon r (wholeTurn a)).pc = .recv := by
  rw [run_wholeTurn hpc]
  split
  · rfl
  · exact hpc

theorem run_wholeTurns (hpc : r.pc = .recv) (as : List Arrival) :
    (run probeReceiverDaemon r (as.flatMap wholeTurn)).pc = .recv := by
  induction as generalizing r with
  | nil => exact hpc
  | cons a as ih =>
      rw [List.flatMap_cons, run_append]
      exact ih (wholeTurn_waits hpc a)

/-- A frame from the probe's address is taken, and the flag is raised for it. -/
theorem along_wholeTurn (hpc : r.pc = .recv) (a : Arrival) :
    Receiver.along Receiver.takes r (wholeTurn a) = [a].filter (·.fromProbe) ∧
      Receiver.along Receiver.raises r (wholeTurn a) = [a].filter (·.fromProbe) := by
  obtain ⟨buf, len, flag, pc⟩ := r
  obtain rfl : pc = .recv := hpc
  rw [List.filter_singleton]
  cases ha : a.fromProbe with
  | true =>
      constructor
      · rw [wholeTurn, Receiver.along, daemon_probe _ _ _ ha, takes_probe _ _ _ ha]
        rfl
      · rw [wholeTurn, Receiver.along, daemon_probe _ _ _ ha]
        rfl
  | false =>
      constructor
      · rw [wholeTurn, Receiver.along, daemon_other _ _ _ ha, takes_other _ _ _ ha]
        rfl
      · rw [wholeTurn, Receiver.along, daemon_other _ _ _ ha]
        rfl

theorem along_wholeTurns (hpc : r.pc = .recv) (as : List Arrival) :
    Receiver.along Receiver.takes r (as.flatMap wholeTurn) = as.filter (·.fromProbe) ∧
      Receiver.along Receiver.raises r (as.flatMap wholeTurn) = as.filter (·.fromProbe) := by
  induction as generalizing r with
  | nil => exact ⟨rfl, rfl⟩
  | cons a as ih =>
      obtain ⟨htakes, hraises⟩ := along_wholeTurn hpc a
      obtain ⟨htakes', hraises'⟩ := ih (wholeTurn_waits hpc a)
      rw [List.flatMap_cons, along_append, along_append, htakes, htakes', hraises, hraises', ← List.filter_append]
      exact ⟨rfl, rfl⟩

theorem frames_wholeTurns (as : List Arrival) : (as.flatMap wholeTurn).filterMap Action.frame = as := by
  induction as with
  | nil => rfl
  | cons a as ih =>
      rw [List.flatMap_cons, List.filterMap_append, ih]
      rfl

/-- Frames of others leave everything as it is. -/
theorem run_others (hpc : r.pc = .recv) {as : List Arrival} (has : ∀ a ∈ as, a.fromProbe = false) :
    run probeReceiverDaemon r (as.flatMap wholeTurn) = r := by
  refine run_waiting hpc ((along_wholeTurns hpc as).1.trans (List.filter_eq_nil_iff.mpr fun a ha => ?_))
  rw [has a ha]
  exact Bool.noConfusion

theorem probeFpga_receiver (fCurr : Filter) : (probeFpga fCurr tr r).2 =
    if (tr.atTest r).probeReplyReceived then run probeReceiverDaemon (tr.atTest r) (tr.call ++ tr.parse) else tr.atTest r := by
  simp only [probeFpga, test_eq]
  split
  · rw [run_append]
  · rfl

/-- Where the frames of a call are the one in time and others', this is the reply. -/
theorem ofTurns_answered {turn : Nat → List Arrival} {as rest : List Arrival} (hpc : r.pc = .recv)
    (htime : (Traffic.ofTurns turn rest).inTime r = as.flatMap wholeTurn) (has : as.filter (·.fromProbe) = [a])
    (hrest : rest.filter (·.fromProbe) = []) : (Traffic.ofTurns turn rest).replies r = [a] ∧
      (Traffic.ofTurns turn rest).taken r = (Traffic.ofTurns turn rest).replies r ∧
      (Traffic.ofTurns turn rest).frames r = as ++ rest := by
  have hall : (Traffic.ofTurns turn rest).inTime r ++ (Traffic.ofTurns turn rest).call ++ (Traffic.ofTurns turn rest).parse =
      (as ++ rest).flatMap wholeTurn := by
    rw [htime, List.flatMap_append]
    exact congrArg (· ++ _) (List.append_nil _)
  have hreset : ({ r with probeReplyReceived := false } : Receiver).pc = .recv := hpc
  have hreplies : (Traffic.ofTurns turn rest).replies r = [a] := by
    rw [Traffic.replies, htime, (along_wholeTurns hreset as).2, has]
  refine ⟨hreplies, ?_, ?_⟩
  · rw [hreplies, Traffic.taken, hall, (along_wholeTurns hreset _).1, List.filter_append, has, hrest, hpc]
    rfl
  · rw [Traffic.frames, hall, frames_wholeTurns]

end DnsAdtm.Sw
