/-
# `ValidationBoard` — one step of the validation suites

What a step of a test sees of a board.  The buffer that `expect_receive` looks into is never
cleared, so it is always said which payload could still be expected in it with success (`Last`).

    config_run         the filter is applied and confirmed
    look_admitted      a packet that it admits comes back
    look_blocked       and one that it does not is missed, unless its payload is in the buffer
    look_overwritten   and so is one that is overwritten before it is looked at
-/
import DnsAdtm.AdminView
import DnsAdtm.Validation

namespace DnsAdtm

open Machine Sw

/-! ## The buffer -/

/-- A frame of neither the board nor the probe. -/
structure Sw.Arrival.Foreign (a : Arrival) : Prop where
  probe : a.fromProbe = false
  fpga : (a.recvPktBuf.drop 6).take 6 ≠ fpgaSrcMac

/-- No other frame is from the board or the probe, and the board's come within a hundred turns. -/
structure Sw.Air.Others (air : Air) : Prop where
  foreign : ∀ k, ∀ a ∈ air.foreign k, a.Foreign
  behind : ∀ a ∈ air.behind, a.Foreign
  rest : ∀ a ∈ air.rest, a.Foreign
  inTime : air.delay ≤ 100

/-- And the board's frames are looked at before another is taken. -/
structure Sw.Air.Quiet (air : Air) : Prop extends air.Others where
  still : air.behind = []

/-- No payload but `q` is expected with success. -/
def Last (q : Option (List (BitVec 8))) (buf : List (BitVec 8)) : Prop := ∀ p, Expected p buf → q = some p

variable {q : Option (List (BitVec 8))} {buf p : List (BitVec 8)} {a : Arrival} {as : List Arrival} {air : Air}

theorem received_source (buf : List (BitVec 8)) (a : Arrival) :
    ((received buf a).drop 6).take 6 = (a.recvPktBuf.drop 6).take 6 := by
  have hheader : 14 ≤ a.recvPktBuf.length := by
    rw [Arrival.recvPktBuf, List.length_take]
    have := a.header
    have : 14 ≤ bufferSize := by decide
    omega
  rw [received, List.drop_append_of_le_length (by omega), List.take_append_of_le_length (by rw [List.length_drop]; omega)]

/-- A frame of someone else is not expected. -/
theorem last_received (h : (a.recvPktBuf.drop 6).take 6 ≠ fpgaSrcMac) : Last q (received buf a) := by
  intro p hp
  exact absurd ((received_source buf a).symm.trans hp.1) h

theorem Last.takes (h : Last q buf) (has : ∀ a ∈ as, a.Foreign) : Last q (as.foldl received buf) := by
  induction as generalizing buf with
  | nil => exact h
  | cons a as ih =>
      exact ih (last_received (has a List.mem_cons_self).fpga) fun a' ha' => has a' (List.mem_cons_of_mem a ha')

/-- A payload that is there. -/
theorem Last.of_iff (h : ∀ p', Expected p' buf ↔ p' = p) : Last (some p) buf := fun p' hp => by rw [(h p').mp hp]

/-! ## `expect_receive` -/

/-- The writer of updates is between two of them, and the receiver's thread waits. -/
structure Sw.Host.Ready (h : Host) : Prop where
  admin : h.admin.Reachable
  waits : h.prober.receiver.pc = .recv

theorem Sw.Host.Ready.takes {h : Host} (hr : h.Ready) (as : List Arrival) : (h.takes as).Ready :=
  ⟨hr.admin, run_wholeTurns hr.waits as⟩

theorem Sw.Host.Ready.pause {h : Host} (hr : h.Ready) (answer : Option (List (BitVec 8))) (c : Nat) :
    (h.pause air answer c).Ready := (hr.takes _).takes _

theorem expectReceive_ready {turn : Nat → List Arrival} (left c : Nat) {h : Host} (hr : h.Ready) :
    (expectReceive p turn left c h).2.2.Ready := by
  induction left generalizing c h with
  | zero => exact hr
  | succ left ih =>
      rw [expectReceive]
      split
      · exact hr
      · exact ih (c + 1) (hr.takes (turn c))

/-- Where every turn leaves no other payload in the buffer, this one is not found. -/
theorem expectReceive_block {turn : Nat → List Arrival}
    (hturn : ∀ k buf, Last q buf → Last q ((turn k).foldl received buf)) (hne : q ≠ some p) (left c : Nat) {h : Host}
    (hlast : Last q h.recvPktBuf) :
    ∃ h', expectReceive p turn left c h = (false, c + left, h') ∧ Last q h'.recvPktBuf := by
  induction left generalizing c h with
  | zero => exact ⟨h, rfl, hlast⟩
  | succ left ih =>
      obtain ⟨h', hrun, hlast'⟩ := @ih (c + 1) (h.takes (turn c)) (hturn c _ hlast)
      refine ⟨h', ?_, hlast'⟩
      rw [expectReceive, if_neg fun hp => hne (hlast p hp), hrun, Nat.add_assoc, Nat.add_comm 1]

/-- The board's frame, from anywhere before it. -/
theorem takes_turns {answer : Option (List (BitVec 8))} {b : Arrival} (hb : fromBoard answer = [b]) (hstill : air.behind = [])
    {c : Nat} (hc : c ≤ air.delay) : ∃ buf', ((List.range' c (air.delay + 1 - c)).flatMap (air.turn answer)).foldl received buf =
      received buf' b := by
  have hrange : List.range' c (air.delay + 1 - c) = List.range' c (air.delay - c) ++ [air.delay] := by
    rw [show air.delay + 1 - c = air.delay - c + 1 by omega, List.range'_concat, Nat.one_mul, Nat.add_sub_cancel' hc]
  have hturn : air.turn answer air.delay = air.foreign air.delay ++ [b] := by
    rw [Air.turn, if_pos rfl, hb, hstill, List.append_nil]
  rw [hrange, List.flatMap_append, List.flatMap_singleton, hturn, ← List.append_assoc, List.foldl_append]
  exact ⟨_, rfl⟩

theorem pause_recvPktBuf (h : Host) (answer : Option (List (BitVec 8))) (c : Nat) : (h.pause air answer c).recvPktBuf =
    air.rest.foldl received (((List.range' c (air.delay + 1 - c)).flatMap (air.turn answer)).foldl received h.recvPktBuf) :=
  rfl

theorem expectReceive_receive {answer : Option (List (BitVec 8))} {b : Arrival} (hb : fromBoard answer = [b])
    (hshows : ∀ buf p', Expected p' (received buf b) ↔ p' = p) (hquiet : air.Quiet) (left c : Nat) (hc : c ≤ air.delay)
    (hleft : air.delay + 2 ≤ c + left) (h : Host) :
    ∃ look h', expectReceive p (air.turn answer) left c h = (true, look, h') ∧
      Last (some p) (h'.pause air answer look).recvPktBuf := by
  have hbehind (buf : List (BitVec 8)) : Last (some p) (air.rest.foldl received (received buf b)) :=
    Last.takes (.of_iff (hshows buf)) hquiet.rest
  induction left generalizing c h with
  | zero => omega
  | succ left ih =>
      rw [expectReceive]
      by_cases hstale : Expected p h.recvPktBuf
      · -- an earlier frame has the payload, and the board's is taken behind the look
        obtain ⟨buf', hturns⟩ := @takes_turns h.recvPktBuf air answer b hb hquiet.still c hc
        refine ⟨c, h, if_pos hstale, ?_⟩
        rw [pause_recvPktBuf, hturns]
        exact hbehind buf'
      · rw [if_neg hstale]
        rcases Nat.lt_or_ge c air.delay with hlt | hge
        · exact ih (c + 1) hlt (by omega) (h.takes (air.turn answer c))
        · obtain rfl : c = air.delay := Nat.le_antisymm hc hge
          obtain ⟨left, rfl⟩ : ∃ n, left = n + 1 := ⟨left - 1, by omega⟩
          obtain ⟨buf', hturns⟩ := @takes_turns h.recvPktBuf air answer b hb hquiet.still air.delay (Nat.le_refl _)
          rw [Nat.add_sub_cancel_left, List.range'_one, List.flatMap_singleton] at hturns
          have htaken : (h.takes (air.turn answer air.delay)).recvPktBuf = received buf' b := hturns
          refine ⟨air.delay + 1, h.takes (air.turn answer air.delay), ?_, ?_⟩
          · rw [expectReceive, htaken, if_pos ((hshows buf' p).mpr rfl)]
          · rw [pause_recvPktBuf, Nat.sub_self, htaken]
            exact hbehind buf'

/-! ## The probe -/

section Reply
variable {answer : Option (List (BitVec 8))} {b : Arrival} (hb : fromBoard answer = [b])
  (hprobe : b.fromProbe = true) (hair : air.Others)
include hb hprobe hair

/-- The turns of the wait, up to the board's. -/
theorem turns_reply (left k : Nat) (hk : k ≤ air.delay) (hleft : air.delay < k + left) {r : Receiver} (hpc : r.pc = .recv)
    (hflag : r.probeReplyReceived = false) : ∃ before : List Arrival, (∀ a ∈ before, a.Foreign) ∧
      (air.traffic answer).turns left k r = (before ++ [b] ++ air.behind).flatMap wholeTurn := by
  induction left generalizing k with
  | zero => omega
  | succ left ih =>
      rw [Traffic.turns, if_neg (Bool.eq_false_iff.mp hflag)]
      rcases Nat.lt_or_ge k air.delay with hlt | hge
      · obtain ⟨before, hbefore, hrest⟩ := ih (k + 1) hlt (by omega)
        have hturn : (air.traffic answer).turn k = (air.foreign k).flatMap wholeTurn := by
          show (air.turn answer k).flatMap wholeTurn = _
          rw [Air.turn, if_neg (Nat.ne_of_lt hlt), List.append_nil]
        refine ⟨air.foreign k ++ before, fun a ha => ?_, ?_⟩
        · exact (List.mem_append.mp ha).elim (hair.foreign k a) (hbefore a)
        · rw [hturn, run_others hpc fun a ha => (hair.foreign k a ha).probe, hrest, ← List.flatMap_append,
            List.append_assoc, List.append_assoc, List.append_assoc]
      · obtain rfl : k = air.delay := Nat.le_antisymm hk hge
        have hturn : (air.traffic answer).turn air.delay =
            (air.foreign air.delay ++ [b] ++ air.behind).flatMap wholeTurn := by
          show (air.turn answer air.delay).flatMap wholeTurn = _
          rw [Air.turn, if_pos rfl, hb, List.append_assoc]
        -- behind it the flag is up, and the loop ends
        have hup : (run probeReceiverDaemon r ((air.traffic answer).turn air.delay)).probeReplyReceived = true := by
          rw [hturn, List.append_assoc, List.flatMap_append, run_append, List.flatMap_append, run_append,
            run_others hpc fun a ha => (hair.foreign _ a ha).probe, List.flatMap_singleton, run_wholeTurn hpc, if_pos hprobe,
            run_others rfl fun a ha => (hair.behind a ha).probe]
        refine ⟨air.foreign air.delay, hair.foreign air.delay, ?_⟩
        cases left with
        | zero => rw [Traffic.turns, List.append_nil, hturn]
        | succ left => rw [Traffic.turns, if_pos hup, List.append_nil, hturn]

/-- So the filter that is compared is the one in the reply, and no payload is left in the buffer. -/
theorem check_reply (hlen : 170 ≤ b.recvPktBuf.length) (f : Sw.Filter) (st : Prober) (hpc : st.receiver.pc = .recv)
    (hf : b.filter st.fCurr = f) : (checkFpgaFilterMatches f (air.traffic answer) st).1 = true ∧
      (checkFpgaFilterMatches f (air.traffic answer) st).2.receiver.pc = .recv ∧
      ∀ buf, Last none (((air.traffic answer).frames st.receiver).foldl received buf) := by
  have hinTime := hair.inTime
  have hreset : ({ st.receiver with probeReplyReceived := false } : Receiver).pc = .recv := hpc
  obtain ⟨before, hbefore, hturns⟩ :=
    turns_reply hb hprobe hair 101 0 (Nat.zero_le _) (by omega) hreset rfl
  have htime : (air.traffic answer).inTime st.receiver = (before ++ [b] ++ air.behind).flatMap wholeTurn :=
    (List.append_nil _).trans hturns
  have hsilent {as : List Arrival} (has : ∀ a ∈ as, a.Foreign) : as.filter (·.fromProbe) = [] := by
    refine List.filter_eq_nil_iff.mpr fun a ha => ?_
    rw [(has a ha).probe]
    exact Bool.noConfusion
  have honly : (before ++ [b] ++ air.behind).filter (·.fromProbe) = [b] := by
    rw [List.filter_append, List.filter_append, hsilent hbefore, hsilent hair.behind, List.filter_singleton, hprobe]
    rfl
  obtain ⟨hreplies, htaken, hframes⟩ := ofTurns_answered hpc htime honly (hsilent hair.rest)
  have hlast : ((air.traffic answer).replies st.receiver).getLast? = some b := by
    rw [show (air.traffic answer).replies st.receiver = [b] from hreplies]
    rfl
  refine ⟨?_, ?_, fun buf => ?_⟩
  · rw [check_iff, probeFpga_answered (valid_of_waits hpc) hlast hlen htaken]
    exact hf
  · show (probeFpga st.fCurr (air.traffic answer) st.receiver).2.pc = .recv
    have htest : ((air.traffic answer).atTest st.receiver).pc = .recv := by
      rw [Traffic.atTest, htime]
      exact run_wholeTurns hreset _
    rw [probeFpga_receiver]
    split
    · exact run_wholeTurns htest air.rest
    · exact htest
  · rw [show (air.traffic answer).frames st.receiver = _ from hframes, List.foldl_append, List.foldl_append,
      List.foldl_append]
    refine Last.takes (Last.takes (last_received ?_) hair.behind) hair.rest
    rw [of_decide_eq_true hprobe]
    decide

end Reply

/-! ## A packet that comes back -/

variable {g : Hw.Generics} {gReplyMac : BitVec 48} {fr : Hw.UdpFrame}

/-- The length of the payload, out of the UDP header. -/
theorem toNat_udpLength {n : Nat} (h : n ≤ 128) :
    (((BitVec.ofNat 16 (8 + n)).extractLsb' 8 8 ++ (BitVec.ofNat 16 (8 + n)).extractLsb' 0 8).setWidth 32 - 8 : BitVec 32).toNat = n := by
  have hword : (BitVec.ofNat 16 (8 + n)).extractLsb' 8 8 ++ (BitVec.ofNat 16 (8 + n)).extractLsb' 0 8 =
      BitVec.ofNat 16 (8 + n) := by
    apply BitVec.eq_of_getLsbD_eq
    intro i hi
    rw [BitVec.getLsbD_append, BitVec.getLsbD_extractLsb', BitVec.getLsbD_extractLsb']
    split
    · simp [*]
    · simp [show i - 8 < 8 by omega, show 8 + (i - 8) = i by omega]
  rw [hword, BitVec.toNat_sub, BitVec.toNat_setWidth, BitVec.toNat_ofNat]
  show (2 ^ 32 - 8 + (8 + n) % 2 ^ 16 % 2 ^ 32) % 2 ^ 32 = n
  omega

/-- A frame with the headers in front of the payload. -/
theorem expected_frame {front payload behind bytes : List (BitVec 8)} (hfront : front.length = 38)
    (hsource : (front.drop 6).take 6 = fpgaSrcMac) (hlen : payload.length ≤ 128)
    (hbytes : bytes = front ++ ([(BitVec.ofNat 16 (8 + payload.length)).extractLsb' 8 8,
      (BitVec.ofNat 16 (8 + payload.length)).extractLsb' 0 8, 0x00, 0x00] ++ (payload ++ behind))) :
    Expected p bytes ↔ p = payload := by
  have hsource' : (bytes.drop 6).take 6 = fpgaSrcMac := by
    rw [hbytes, List.drop_append_of_le_length (by omega), List.take_append_of_le_length (by rw [List.length_drop]; omega),
      hsource]
  have hpayload : bytes.drop 42 = payload ++ behind := by
    rw [hbytes, ← List.append_assoc, List.drop_left' (by rw [List.length_append, hfront]; rfl)]
  have hhigh : bytes.getD 38 0 = (BitVec.ofNat 16 (8 + payload.length)).extractLsb' 8 8 := by
    rw [hbytes, List.getD_append_right _ _ _ _ (by omega), hfront]
    rfl
  have hlow : bytes.getD 39 0 = (BitVec.ofNat 16 (8 + payload.length)).extractLsb' 0 8 := by
    rw [hbytes, List.getD_append_right _ _ _ _ (by omega), hfront]
    rfl
  rw [Expected, hsource', hpayload, hhigh, hlow, toNat_udpLength hlen]
  constructor
  · rintro ⟨-, hlength, htake⟩
    rw [← hlength, List.take_left' rfl] at htake
    exact htake.symm
  · rintro rfl
    exact ⟨rfl, rfl, List.take_left' rfl⟩

/-- A frame of the board's fits into the buffer. -/
theorem fromBoard_some {bytes : List (BitVec 8)} (hheader : 14 ≤ bytes.length) (hfits : bytes.length ≤ bufferSize) :
    ∃ b, fromBoard (some bytes) = [b] ∧ b.recvPktBuf = bytes :=
  ⟨⟨bytes, true, hheader⟩, dif_pos hheader, List.take_of_length_le hfits⟩

/-- The headers of a packet that is sent on, up to the ports. -/
theorem replyFrame_front (hnormal : bytesLE g.normalMac 6 = fpgaSrcMac) (payload : List (BitVec 8))
    {len chk : List (BitVec 8)} (hlen : len.length = 2) (hchk : chk.length = 2) (pad : List (BitVec 8)) :
    ∃ front : List (BitVec 8), front.length = 38 ∧ (front.drop 6).take 6 = fpgaSrcMac ∧
      Hw.replyFrame g gReplyMac fr payload len chk pad =
        front ++ ([(BitVec.ofNat 16 (8 + payload.length)).extractLsb' 8 8,
          (BitVec.ofNat 16 (8 + payload.length)).extractLsb' 0 8, 0x00, 0x00] ++ (payload ++ pad)) := by
  refine ⟨bytesLE gReplyMac 6 ++ (fpgaSrcMac ++ ([0x08, 0x00] ++ [0x45, 0x00] ++ len ++ [0x00, 0x00] ++
    [0x00, 0x00] ++ [0x40, 0x11] ++ chk ++ fr.dstIP.toList ++ fr.srcIP.toList ++ fr.dstPort.toList ++ fr.srcPort.toList)),
    ?_, ?_, ?_⟩
  · simp [fpgaSrcMac, hlen, hchk, length_bytesLE]
  · rw [List.drop_left' (length_bytesLE _ _)]
    exact List.take_left' rfl
  · rw [Hw.replyFrame, hnormal]
    simp only [List.append_assoc, List.cons_append, List.nil_append]

/-- What the board sends on for a packet is expected with the payload of the packet, and no other. -/
theorem expected_packet (hnormal : bytesLE g.normalMac 6 = fpgaSrcMac) {replyType : BitVec 1} {bytes : List (BitVec 8)}
    (h : (Shown.packet replyType fr).IsBytes g gReplyMac bytes) :
    ∃ b, fromBoard (some bytes) = [b] ∧ ∀ buf p, Expected p (received buf b) ↔
      p = Hw.replyPayload g (replyType.getLsbD 0) fr.kept := by
  obtain ⟨len, chk, pad, hlen, hchk, hpad, hbytes⟩ := h
  have hpayload : (Hw.replyPayload g (replyType.getLsbD 0) fr.kept).length ≤ 128 := by
    rw [Hw.replyPayload]
    split
    · show 12 ≤ 128
      decide
    · exact List.length_take_le 128 fr.payload
  generalize Hw.replyPayload g (replyType.getLsbD 0) fr.kept = payload at hpayload hpad hbytes
  obtain ⟨front, hfront, hsource, hframe⟩ := @replyFrame_front g gReplyMac fr hnormal payload _ _ hlen hchk pad
  rw [hframe] at hbytes
  have hlength : bytes.length = 42 + payload.length + pad.length := by
    rw [hbytes, List.length_append, List.length_append, List.length_append, hfront, ← Nat.add_assoc, ← Nat.add_assoc]
    rfl
  have hfits : bytes.length ≤ 65536 := by omega
  obtain ⟨b, hb, hwhole⟩ := fromBoard_some (by omega) hfits
  refine ⟨b, hb, fun buf p => ?_⟩
  rw [received, hwhole, hbytes]
  refine @expected_frame p front payload (pad ++ buf.drop bytes.length) _ hfront hsource hpayload ?_
  rw [hbytes]
  simp only [List.append_assoc]

/-! ## One step -/

/-- The generics of a board that the suites are for. -/
structure Validated (g : Hw.Generics) : Prop extends Paired g where
  source : bytesLE g.normalMac 6 = fpgaSrcMac
  rcode : g.dnsRcode = 3

/-- In a test of the filter. -/
structure Bench.Testing (b : Bench) (f : Sw.Filter) (names : List Str) (q : Option (List (BitVec 8))) : Prop where
  ready : b.host.Ready
  last : Last q b.host.recvPktBuf
  board : ∃ s, (View.mk f names s).Of b.board

variable {f : Sw.Filter} {names : List Str} {b : Bench} {c : Packet}

/-- A report is a reply to the probe, with the filter in it. -/
theorem fromBoard_report {s : Stats} {bytes : List (BitVec 8)} (h : (Shown.report f s).IsBytes g gReplyMac bytes) :
    ∃ b, fromBoard (some bytes) = [b] ∧ b.fromProbe = true ∧ 170 ≤ b.recvPktBuf.length ∧ ∀ fCurr, b.filter fCurr = f := by
  obtain ⟨hprobe, hlength, hparse⟩ := h
  have hfits : bytes.length ≤ bufferSize := by
    rw [hlength]
    decide
  rw [FromProbe, List.take_of_length_le hfits] at hprobe
  obtain ⟨b, hb, hwhole⟩ := fromBoard_some (by omega) hfits
  refine ⟨b, hb, ?_, ?_, fun fCurr => ?_⟩
  · rw [Arrival.fromProbe, hwhole]
    exact decide_eq_true hprobe
  · rw [hwhole, hlength]
  · have hparsed := hparse fCurr []
    rw [List.append_nil] at hparsed
    rw [Arrival.filter, hwhole, hlength, hparsed]

/-- An update and a probe, and the answer to the probe. -/
theorem run_config {a a' : Addresses} {admin : AdminBuf} {buf buf' : SendPkt} {update query : Hw.UdpFrame} {d : Hw.Device}
    {answer : Option (List (BitVec 8))} (hwrite : writeToAdminPkt f b.host.admin = some admin)
    (hupdate : transmit a adminDstMac (admin.adminPkt.take bufferSize) b.host.sendPkt = some (buf, update))
    (hquery : transmit a' probeMac probePayload buf = some (buf', query))
    (hreply : (b.board.reply g gReplyMac update).1.reply g gReplyMac query = (d, answer)) :
    (Check.config f a a').run g gReplyMac air b =
      some (if (checkFpgaFilterMatches f (air.traffic answer) b.host.prober).1 then none else some .adminMismatch,
        ⟨⟨(checkFpgaFilterMatches f (air.traffic answer) b.host.prober).2,
          ((air.traffic answer).frames b.host.prober.receiver).foldl received b.host.recvPktBuf, admin, buf'⟩, d⟩) := by
  rw [Check.run, hwrite, Option.bind_eq_bind, Option.bind_some, hupdate, Option.bind_eq_bind, Option.bind_some]
  dsimp only
  rw [hquery, Option.bind_some]
  dsimp only
  rw [hreply]

/-- The filter is applied and confirmed, whatever the board had before. -/
theorem config_run (hg : Paired g) (hf : f.Tidy) (hnames : f.Names names) (hair : air.Others) (a a' : Addresses)
    (hb : b.host.Ready) :
    ∃ b', (Check.config f a a').run g gReplyMac air b = some (none, b') ∧ b'.Testing f names none := by
  obtain ⟨admin, hwrite, -, hpkt⟩ := writeToAdminPkt_spec f hb.admin.fresh
  have hlen : (admin.adminPkt.take bufferSize).length = 128 := by
    rw [List.take_of_length_le (by rw [hpkt.length]; decide), hpkt.length]
  obtain ⟨buf, update, hupdate⟩ := @System.transmit_some adminDstMac _ a b.host.sendPkt (by rw [hlen]; decide)
  obtain ⟨buf', query, hquery⟩ := @System.transmit_some probeMac probePayload a' buf (by decide)
  obtain ⟨hauth, hdecode⟩ := System.applied_update hg hb.admin hwrite hupdate
  have hask := System.probe_query hg hquery
  -- the board behind the update
  have hof : View.Of ⟨f, names, ⟨b.board.t.stc, b.board.t.sfc, b.board.t.smc, b.board.t.sic, b.board.t.spc⟩⟩
      (b.board.reply g gReplyMac update).1 := by
    have hboard : (b.board.reply g gReplyMac update).1 = { b.board with f := f.toHw } := by
      rw [Hw.Device.reply, Hw.Device.handle, if_pos hauth.1, if_pos hauth, hdecode]
    rw [hboard]
    exact ⟨rfl, rfl, ⟨hf, hnames⟩⟩
  have hanswer : (b.board.reply g gReplyMac update).1.reply g gReplyMac query = ((b.board.reply g gReplyMac update).1,
      some (Hw.sndOf gReplyMac (Hw.probeReply (b.board.reply g gReplyMac update).1 query.rcvData)).bytes) := by
    rw [Hw.Device.reply, Hw.Device.handle, if_neg (by rw [hask]; exact hg.macs_ne), if_pos hask]
    rfl
  obtain ⟨r, hr, hprobe, hlength, hfilter⟩ := fromBoard_report (@View.Of.report g gReplyMac _ _ hof hg _ hask)
  obtain ⟨hok, hwaits, hlast⟩ := check_reply hr hprobe hair hlength f b.host.prober hb.waits (hfilter _)
  have hrun := @run_config air g gReplyMac f b a a' _ _ _ _ _ _ _ hwrite hupdate hquery hanswer
  rw [if_pos hok] at hrun
  exact ⟨_, hrun, ⟨.write f hb.admin hwrite, hwaits⟩, hlast b.host.recvPktBuf, _, hof⟩

/-- What the board does with a packet for someone else. -/
theorem reply_packet (hg : Paired g) {v : View} {d : Hw.Device} (hof : v.Of d)
    (hfr : fr.dstMAC ≠ adminDstMac ∧ fr.dstMAC ≠ probeMac) :
    ({ v with s := v.counted fr } : View).Of (d.reply g gReplyMac fr).1 ∧
      (v.f.Admits v.names fr → ∃ bytes, (d.reply g gReplyMac fr).2 = some bytes ∧
        (Shown.packet v.f.replyType fr).IsBytes g gReplyMac bytes) ∧
      (¬ v.f.Admits v.names fr → (d.reply g gReplyMac fr).2 = none) := by
  obtain ⟨hnext, hanswer⟩ := @device_simulates g gReplyMac hg v d (.packet fr) fr.rcvData hof ⟨fr, ⟨rfl, hfr⟩, rfl⟩
  refine ⟨hnext, fun hadmits => ?_, fun hadmits => ?_⟩
  · rw [View.handle, if_pos hadmits] at hanswer
    rw [Hw.Device.reply]
    generalize (d.handle g fr.rcvData).2 = sent at hanswer
    cases hanswer with
    | some hbytes => exact ⟨_, rfl, hbytes⟩
  · rw [View.handle, if_neg hadmits] at hanswer
    rw [Hw.Device.reply]
    generalize (d.handle g fr.rcvData).2 = sent at hanswer
    cases hanswer with
    | none => rfl

/-- The administrator's reading of a filter, of a packet that is to be sent. -/
structure Sw.Filter.AdmitsPacket (f : Sw.Filter) (names : List Str) (c : Packet) : Prop where
  srcMAC : AdmittedBy f.srcMACBW (c.srcmac ∈ f.srcMACList.toList.take f.srcMACLength.toNat)
  dstMAC : AdmittedBy f.dstMACBW (c.dstmac ∈ f.dstMACList.toList.take f.dstMACLength.toNat)
  srcIP : AdmittedBy f.srcIPBW (c.srcip ∈ f.srcIPList.toList.take f.srcIPLength.toNat)
  dstIP : AdmittedBy f.dstIPBW (c.dstip ∈ f.dstIPList.toList.take f.dstIPLength.toNat)
  srcPort : AdmittedBy f.srcPortBW (c.srcport ∈ f.srcPortList.toList.take f.srcPortLength.toNat)
  dstPort : AdmittedBy f.dstPortBW (c.dstport ∈ f.dstPortList.toList.take f.dstPortLength.toNat)
  dns : AdmittedBy f.dnsBW (∃ w ∈ names, List.IsInfix w (c.udpPayload.take 128))

theorem portOf_pair16 (x : BitVec 16) : portOf (pair16 (bswap16 x)) = x :=
  bswap16_injective ((ofBytesLE_port _).symm.trans (ofBytesLE_pair16 _))

/-- No filter reads what was in the buffer. -/
theorem admits_hostFrame {p : SendPkt} {hpos : 1 ≤ c.udpPayload.length} :
    f.Admits names (hostFrame c p hpos) ↔ f.AdmitsPacket names c := by
  have hsrc : portOf (hostFrame c p hpos).srcPort = c.srcport := portOf_pair16 c.srcport
  have hdst : portOf (hostFrame c p hpos).dstPort = c.dstport := portOf_pair16 c.dstport
  rw [Sw.Filter.Admits, Sw.Filter.AdmitsMAC, Sw.Filter.AdmitsIP, Sw.Filter.AdmitsPort, Sw.Filter.AdmitsName, hsrc, hdst]
  constructor
  · rintro ⟨⟨h1, h2⟩, ⟨h3, h4⟩, ⟨h5, h6⟩, h7⟩
    exact ⟨h1, h2, h3, h4, h5, h6, h7⟩
  · rintro ⟨h1, h2, h3, h4, h5, h6, h7⟩
    exact ⟨⟨h1, h2⟩, ⟨h3, h4⟩, ⟨h5, h6⟩, h7⟩

theorem sendPacket_some (c : Packet) (hpos : 1 ≤ c.udpPayload.length) (p : SendPkt) :
    sendPacket c p = some (formPacket c p, hostFrame c p hpos) := dif_pos hpos

theorem look_some {payload : List (BitVec 8)} {buf : SendPkt} {frame : Hw.UdpFrame} {d : Hw.Device}
    {answer : Option (List (BitVec 8))} {seen : Bool × Nat × Host} (hsend : sendPacket c b.host.sendPkt = some (buf, frame))
    (hreply : b.board.reply g gReplyMac frame = (d, answer))
    (hseen : expectReceive payload (air.turn answer) 1000 0 { b.host with sendPkt := buf } = seen) :
    c.look g gReplyMac air b payload = some (seen.1, ⟨seen.2.2.pause air answer seen.2.1, d⟩) := by
  rw [Packet.look, hsend, Option.bind_eq_bind, Option.bind_some]
  dsimp only
  rw [hreply, hseen]

/-- What a test expects for an admitted packet with this payload. -/
def response (g : Hw.Generics) (f : Sw.Filter) (payload : List (BitVec 8)) : List (BitVec 8) :=
  if f.replyType.getLsbD 0 then Hw.dnsReplyBytes g ((payload.take 128).getD 0 0) ((payload.take 128).getD 1 0)
  else payload.take 128

section Send
variable (hg : Validated g) (hb : b.Testing f names q) (hc : RandomMac c.dstmac) (hpos : 1 ≤ c.udpPayload.length)
include hg hb hc hpos

theorem look_admitted (hair : air.Quiet) (hadmits : f.AdmitsPacket names c) :
    ∃ b', c.look g gReplyMac air b (response g f c.udpPayload) = some (true, b') ∧
      b'.Testing f names (some (response g f c.udpPayload)) := by
  obtain ⟨s, hof⟩ := hb.board
  obtain ⟨hnext, hsent, -⟩ := @reply_packet g gReplyMac (hostFrame c b.host.sendPkt hpos) hg.toPaired _ _ hof hc
  obtain ⟨bytes, hbytes, hshown⟩ := hsent (admits_hostFrame.mpr hadmits)
  obtain ⟨r, hr, hexpected⟩ := expected_packet hg.source hshown
  have hinTime := hair.inTime
  have hready : ({ b.host with sendPkt := formPacket c b.host.sendPkt } : Host).Ready := ⟨hb.ready.admin, hb.ready.waits⟩
  obtain ⟨look, h', hseen, hlast⟩ := expectReceive_receive hr hexpected hair 1000 0 (Nat.zero_le _) (by omega)
    { b.host with sendPkt := formPacket c b.host.sendPkt }
  have hready' := @expectReceive_ready (Hw.replyPayload g (f.replyType.getLsbD 0) (hostFrame c b.host.sendPkt hpos).kept)
    (air.turn (some bytes)) 1000 0 _ hready
  rw [hseen] at hready'
  have hpayload : Hw.replyPayload g (f.replyType.getLsbD 0) (hostFrame c b.host.sendPkt hpos).kept =
      response g f c.udpPayload := rfl
  have hreply : b.board.reply g gReplyMac (hostFrame c b.host.sendPkt hpos) =
      ((b.board.reply g gReplyMac (hostFrame c b.host.sendPkt hpos)).1, some bytes) := Prod.ext rfl hbytes
  rw [hpayload] at hseen hlast
  have hlook := look_some (sendPacket_some c hpos b.host.sendPkt) hreply hseen
  exact ⟨_, hlook, hready'.pause _ _, hlast, _, hnext⟩

/-- What is looked for is never there when it is looked at. -/
theorem look_missed {answer : Option (List (BitVec 8))}
    (hanswer : (b.board.reply g gReplyMac (hostFrame c b.host.sendPkt hpos)).2 = answer)
    (hturn : ∀ k buf, Last q buf → Last q ((air.turn answer k).foldl received buf)) (hrest : ∀ a ∈ air.rest, a.Foreign)
    (hne : q ≠ some p) : ∃ b', c.look g gReplyMac air b p = some (false, b') ∧ b'.Testing f names q := by
  obtain ⟨s, hof⟩ := hb.board
  obtain ⟨hnext, -, -⟩ := @reply_packet g gReplyMac (hostFrame c b.host.sendPkt hpos) hg.toPaired _ _ hof hc
  have hready : ({ b.host with sendPkt := formPacket c b.host.sendPkt } : Host).Ready := ⟨hb.ready.admin, hb.ready.waits⟩
  obtain ⟨h', hseen, hlast⟩ := @expectReceive_block q p (air.turn answer) hturn hne 1000 0
    { b.host with sendPkt := formPacket c b.host.sendPkt } hb.last
  have hready' := @expectReceive_ready p (air.turn answer) 1000 0 _ hready
  rw [hseen] at hready'
  have hreply : b.board.reply g gReplyMac (hostFrame c b.host.sendPkt hpos) =
      ((b.board.reply g gReplyMac (hostFrame c b.host.sendPkt hpos)).1, answer) := Prod.ext rfl hanswer
  have hlook := look_some (sendPacket_some c hpos b.host.sendPkt) hreply hseen
  have hturns (ks : List Nat) {buf : List (BitVec 8)} (h : Last q buf) :
      Last q ((ks.flatMap (air.turn answer)).foldl received buf) := by
    induction ks generalizing buf with
    | nil => exact h
    | cons k ks ih =>
        rw [List.flatMap_cons, List.foldl_append]
        exact ih (hturn k buf h)
  refine ⟨_, hlook, hready'.pause _ _, ?_, _, hnext⟩
  rw [pause_recvPktBuf]
  exact (hturns _ hlast).takes hrest

/-- Nothing comes back, and what is in the buffer is not looked for. -/
theorem look_blocked (hair : air.Others) (hadmits : ¬ f.AdmitsPacket names c) (hne : q ≠ some p) :
    ∃ b', c.look g gReplyMac air b p = some (false, b') ∧ b'.Testing f names q := by
  obtain ⟨s, hof⟩ := hb.board
  obtain ⟨-, -, hnone⟩ := @reply_packet g gReplyMac (hostFrame c b.host.sendPkt hpos) hg.toPaired _ _ hof hc
  refine look_missed hg hb hc hpos (hnone (mt admits_hostFrame.mp hadmits)) (fun k buf hlast => ?_) hair.rest hne
  refine hlast.takes fun a ha => ?_
  rw [Air.turn, fromBoard, List.nil_append] at ha
  rcases List.mem_append.mp ha with ha | ha
  · exact hair.foreign k a ha
  · split at ha
    · exact hair.behind a ha
    · exact absurd ha List.not_mem_nil

/-- A packet that comes back and is overwritten before the next look is missed, though it is admitted. -/
theorem look_overwritten (hair : air.Others) (hbehind : air.behind ≠ []) (hne : q ≠ some p) :
    ∃ b', c.look g gReplyMac air b p = some (false, b') ∧ b'.Testing f names q := by
  refine look_missed hg hb hc hpos rfl (fun k buf hlast => ?_) hair.rest hne
  rw [Air.turn, List.foldl_append]
  split
  · obtain ⟨as, a, has⟩ := (List.eq_nil_or_concat' air.behind).resolve_left hbehind
    rw [has, ← List.append_assoc, List.foldl_append]
    refine last_received (hair.behind a ?_).fpga
    rw [has]
    exact List.mem_append_right as List.mem_cons_self
  · exact hlast.takes (hair.foreign k)

end Send

end DnsAdtm
