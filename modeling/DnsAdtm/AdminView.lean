/-
# `AdminView` — the board, as its administrator has it

For its administrator the board is a filter with names in it, five counters, and what a frame does
to them (`View.handle`): an update replaces the filter, a probe is answered with the filter and the
counters, and any other packet is counted as far as it comes and is sent on if the filter admits
it.  Of bit vectors, byte orders and tags nothing is left, nor of the nibbles and the clocks.

    device_simulates    what a packet does to the board
    main_serves         and what any line of frames does to `main`
-/
import DnsAdtm.AdminBoard
import DnsAdtm.Hw.ReplyContent

namespace DnsAdtm

open Machine Sw

/-! ## The view -/

/-- What is sent to the board, or through it. -/
inductive Sent where
  | update (f : Sw.Filter) (names : List Str)
  /-- for the board, without a valid tag -/
  | forged
  | probe
  /-- for someone else -/
  | packet (fr : Hw.UdpFrame)

/-- What comes from it. -/
inductive Shown where
  | report (f : Sw.Filter) (s : Stats)
  /-- sent on, in a reply mode -/
  | packet (replyType : BitVec 1) (fr : Hw.UdpFrame)

structure View where
  f : Sw.Filter
  names : List Str
  s : Stats

namespace View

/-- At power-on. -/
def start (f : Sw.Filter) (names : List Str) : View := ⟨f, names, ⟨0, 0, 0, 0, 0⟩⟩

/-- A packet counts as far as it comes. -/
def counted (v : View) (fr : Hw.UdpFrame) : Stats where
  stc := v.s.stc + 1
  sfc := if v.f.Admits v.names fr then v.s.sfc + 1 else v.s.sfc
  smc := if v.f.AdmitsMAC fr then v.s.smc + 1 else v.s.smc
  sic := if v.f.AdmitsMAC fr ∧ v.f.AdmitsIP fr then v.s.sic + 1 else v.s.sic
  spc := if (v.f.AdmitsMAC fr ∧ v.f.AdmitsIP fr) ∧ v.f.AdmitsPort fr then v.s.spc + 1 else v.s.spc

def handle (v : View) : Sent → View × Option Shown
  | .update f names => ({ v with f := f, names := names }, none)
  | .forged => (v, none)
  | .probe => (v, some (.report v.f v.s))
  | .packet fr =>
    ({ v with s := v.counted fr }, if v.f.Admits v.names fr then some (.packet v.f.replyType fr) else none)

/-- The filter is one that the commands make. -/
structure Proper (v : View) : Prop where
  tidy : v.f.Tidy
  names : v.f.Names v.names

end View

/-! ## On the line -/

section Line
variable (g : Hw.Generics) (gReplyMac : BitVec 48)

/-- The frames that are such a request. -/
def Sent.Carries : Sent → Hw.UdpFrame → Prop
  | .update f names, fr => f.Tidy ∧ f.Names names ∧ fr.dstMAC = adminDstMac ∧ AdminPkt f fr.payload
  | .forged, fr => fr.dstMAC = adminDstMac ∧ ¬ Hw.Authentic g fr.rcvData
  | .probe, fr => fr.dstMAC = probeMac
  | .packet fr', fr => fr = fr' ∧ fr.dstMAC ≠ adminDstMac ∧ fr.dstMAC ≠ probeMac

theorem Hw.UdpFrame.take_range (fr : Hw.UdpFrame) :
    1 ≤ (fr.payload.take 128).length ∧ (fr.payload.take 128).length ≤ 1472 := by
  have hrange := fr.payload_range
  rw [List.length_take]
  omega

/-- The frame with what the board keeps of its payload. -/
def Hw.UdpFrame.kept (fr : Hw.UdpFrame) : Hw.UdpFrame :=
  { fr with payload := fr.payload.take 128, payload_range := fr.take_range }

/-- The frames that show this: a report is what the prober takes for its reply and reads as such,
and a packet is addressed to its receiver and has the payload, or a DNS error. -/
def Shown.IsBytes : Shown → List (BitVec 8) → Prop
  | .report f s, bytes => FromProbe bytes ∧ bytes.length = 170 ∧
      ∀ fCurr rest, parseProbePkt fCurr (bytes ++ rest) 170 = ⟨f, s⟩
  | .packet replyType fr, bytes => ∃ len chk pad : List (BitVec 8), len.length = 2 ∧ chk.length = 2 ∧
      pad.length = 18 - (Hw.replyPayload g (replyType.getLsbD 0) fr.kept).length ∧
      bytes = Hw.replyFrame g gReplyMac fr (Hw.replyPayload g (replyType.getLsbD 0) fr.kept) len chk pad

end Line

variable {g : Hw.Generics} {gReplyMac : BitVec 48} {v : View} {d : Hw.Device} {sent : Sent} {fr : Hw.UdpFrame}

/-! ## What is sent on -/

/-- `coreout` sends no more than 128 bytes. -/
theorem sndOf_min (rd : Hw.RcvData) :
    Hw.sndOf gReplyMac { rd with dnsLength := min rd.dnsLength 128 } = Hw.sndOf gReplyMac rd := by
  have hudp : Hw.sndLength { rd with dnsLength := min rd.dnsLength 128 } = Hw.sndLength rd := by
    rw [Hw.sndLength_eq, Hw.sndLength_eq]
    show BitVec.ofNat 16 (8 + min (min rd.dnsLength 128) 128) = _
    rw [Nat.min_assoc, Nat.min_self]
  have hcnt : (if 128 ≤ min rd.dnsLength 128 then 1020 else Hw.toPktCnt (min rd.dnsLength 128 * 8 - 4)) =
      if 128 ≤ rd.dnsLength then 1020 else Hw.toPktCnt (rd.dnsLength * 8 - 4) := by
    rcases Nat.lt_or_ge rd.dnsLength 128 with hlt | hge
    · rw [Nat.min_eq_left (Nat.le_of_lt hlt)]
    · rw [Nat.min_eq_right hge, if_pos hge, if_pos (Nat.le_refl _)]
  simp only [Hw.sndOf, hudp, hcnt]
  rfl

/-- So the frame that is sent on is that of the bytes that are kept. -/
theorem sndOf_kept (fr : Hw.UdpFrame) (replyType : Bool) :
    Hw.sndOf gReplyMac (Hw.sentOf g replyType fr.rcvData) = Hw.sndOf gReplyMac (Hw.sentOf g replyType fr.kept.rcvData) := by
  have hkept : fr.kept.rcvData = { fr.rcvData with dnsLength := min fr.rcvData.dnsLength 128 } := by
    have hlen : fr.kept.payload.length = min fr.payload.length 128 := by
      rw [Nat.min_comm]
      exact List.length_take
    have hpkt : (fr.payload.take 128).take 128 = fr.payload.take 128 := by rw [List.take_take, Nat.min_self]
    rw [Hw.UdpFrame.rcvData, hlen, show fr.kept.payload = fr.payload.take 128 from rfl, hpkt]
    rfl
  rw [hkept]
  cases replyType with
  | false => exact (sndOf_min (Hw.sentOf g false fr.rcvData)).symm
  | true => rfl

theorem sentOn_bytes (fr : Hw.UdpFrame) (replyType : BitVec 1) : (Shown.packet replyType fr).IsBytes g gReplyMac
    (Hw.sndOf gReplyMac (Hw.sentOf g (replyType.getLsbD 0) fr.rcvData)).bytes := by
  obtain ⟨len, chk, pad, hlen, hchk, hpad, hbytes⟩ := @Hw.bytes_sentOf g gReplyMac fr.kept
    (List.length_take_le 128 fr.payload) (replyType.getLsbD 0)
  rw [sndOf_kept]
  exact ⟨len, chk, pad, hlen, hchk, hpad, hbytes⟩

theorem Sw.Stats.toHw_injective : Function.Injective Stats.toHw := by
  rintro ⟨⟩ ⟨⟩ h
  cases h
  rfl

/-! ## The board is the view -/

/-- The registers of the board say what the view does. -/
structure View.Of (v : View) (d : Hw.Device) : Prop where
  filter : d.f = v.f.toHw
  tally : d.t = v.s.toHw
  proper : v.Proper

theorem View.Of.report (h : v.Of d) (hg : Paired g) {rd : Hw.RcvData} (hquery : rd.dstMAC = g.queryMac) :
    (Shown.report v.f v.s).IsBytes g gReplyMac (Hw.sndOf gReplyMac (Hw.probeReply d rd)).bytes := by
  have hpackable : d.f.Packable := by
    rw [h.filter]
    exact Filter.toHw_packable v.f
  have hreports := @reply_reports gReplyMac d rd hpackable
  refine ⟨fromProbe_reply hg hquery, hreports.length, fun fCurr rest => ?_⟩
  obtain ⟨hf, hs⟩ := hreports.parse fCurr rest
  rw [h.filter] at hf
  rw [h.tally] at hs
  exact (ProbeResponse.mk.injEq ..).mpr ⟨Filter.toHw_injective hf, Stats.toHw_injective hs⟩

/-- What is counted. -/
theorem View.Of.counted (h : v.Of d) (fr : Hw.UdpFrame) : d.f.count fr.rcvData d.t.addStc = (v.counted fr).toHw := by
  have hmac := passesMAC_iff fr h.proper.tidy
  have hip := passesIP_iff fr h.proper.tidy
  have hport := passesPort_iff fr h.proper.tidy
  have hall := accepts_iff_admits fr h.proper.tidy h.proper.names
  rw [Hw.Filter.count_eq, h.filter, h.tally]
  simp only [hmac, hip, hport, hall]
  rfl

theorem carries_packet (hg : Paired g) {fr' : Hw.UdpFrame} (h : (Sent.packet fr').Carries g fr) :
    fr = fr' ∧ fr.rcvData.dstMAC ≠ g.adminMac ∧ fr.rcvData.dstMAC ≠ g.queryMac := by
  obtain ⟨hfr, hadmin, hquery⟩ := h
  rw [hg.admin, hg.query]
  exact ⟨hfr, fun heq => hadmin (hwBytes_injective heq), fun heq => hquery (hwBytes_injective heq)⟩

theorem carries_probe (hg : Paired g) (h : Sent.probe.Carries g fr) : fr.rcvData.dstMAC = g.queryMac := by
  rw [hg.query]
  show ofBytesLE 48 fr.dstMAC.toList = _
  rw [show fr.dstMAC = probeMac from h]
  decide +kernel

theorem carries_forged (hg : Paired g) (h : Sent.forged.Carries g fr) :
    fr.rcvData.dstMAC = g.adminMac ∧ ¬ Hw.Authentic g fr.rcvData := by
  obtain ⟨hdst, hauth⟩ := h
  refine ⟨?_, hauth⟩
  rw [hg.admin, ← hdst]
  rfl

/-- **What a packet does to the board.** -/
theorem device_simulates (hg : Paired g) : Simulates View.handle (Hw.Device.handle g) View.Of
    (fun sent rd => ∃ fr, sent.Carries g fr ∧ rd = fr.rcvData)
    (fun shown rd => shown.IsBytes g gReplyMac (Hw.sndOf gReplyMac rd).bytes) := by
  rintro v d sent - hof ⟨fr, hcarries, rfl⟩
  cases sent with
  | update f names =>
      obtain ⟨htidy, hnames, hdst, hpkt⟩ := hcarries
      obtain ⟨hauth, hdecode⟩ := frame_update hg hdst hpkt
      rw [Hw.Device.handle, if_pos hauth.1, if_pos hauth]
      exact ⟨⟨hdecode, hof.tally, ⟨htidy, hnames⟩⟩, .none⟩
  | forged =>
      obtain ⟨hadmin, hforged⟩ := carries_forged hg hcarries
      rw [Hw.Device.handle, if_pos hadmin, if_neg hforged]
      exact ⟨hof, .none⟩
  | probe =>
      have hquery := carries_probe hg hcarries
      have hadmin : fr.rcvData.dstMAC ≠ g.adminMac := by
        rw [hquery]
        exact hg.macs_ne
      rw [Hw.Device.handle, if_neg hadmin, if_pos hquery]
      exact ⟨hof, .some (hof.report hg hquery)⟩
  | packet fr' =>
      obtain ⟨rfl, hadmin, hquery⟩ := carries_packet hg hcarries
      have haccepts := accepts_iff_admits fr hof.proper.tidy hof.proper.names
      rw [← hof.filter] at haccepts
      rw [Hw.Device.handle, if_neg hadmin, if_neg hquery]
      refine ⟨⟨hof.filter, hof.counted fr, ⟨hof.proper.tidy, hof.proper.names⟩⟩, ?_⟩
      show Option.Rel _ (if v.f.Admits v.names fr then some (Shown.packet v.f.replyType fr) else none)
        (if d.f.accepts fr.rcvData = true then some (Hw.sentOf g d.f.replyType fr.rcvData) else none)
      by_cases hadmits : v.f.Admits v.names fr
      · rw [if_pos hadmits, if_pos (haccepts.mpr hadmits), hof.filter]
        exact .some (sentOn_bytes fr v.f.replyType)
      · rw [if_neg hadmits, if_neg (mt haccepts.mp hadmits)]
        exact .none

/-! ## And `main` is the board -/

variable {levels : Hw.Clock → Bool} {clocks : Hw.Clocks} {frames : List (Hw.LineFrame × Nat)} {sents : List Sent}
  {f : Sw.Filter} {names : List Str}

theorem carries_inRange (hg : Paired g) (h : sent.Carries g fr) : Hw.UpdateInRange g fr.rcvData := by
  intro hauth
  cases sent with
  | update f names =>
      obtain ⟨htidy, -, hdst, hpkt⟩ := h
      rw [(frame_update hg hdst hpkt).2]
      exact htidy.inRange
  | forged => exact absurd hauth (carries_forged hg h).2
  | probe => exact absurd ((carries_probe hg h).symm.trans hauth.1) hg.macs_ne
  | packet fr' => exact absurd hauth.1 (carries_packet hg h).2.1

theorem line_inRange (hg : Paired g) (hsents : List.Forall₂ (fun sent fr => sent.Carries g fr.1.frame) sents frames) :
    ∀ p ∈ frames, Hw.UpdateInRange g p.1.frame.rcvData := by
  induction hsents with
  | nil => exact fun _ hmem => absurd hmem List.not_mem_nil
  | cons hcarries _ ih =>
      intro p hmem
      rcases List.mem_cons.mp hmem with rfl | hmem
      · exact carries_inRange hg hcarries
      · exact ih p hmem

/-- **The administrator's reading of `main`.**  Take any line of frames, each an update, a forged one, a
probe or a packet for someone else, with `leastGap` clocks between them, and `main` with a filter in
force.  Some time behind the line, whatever the phases of the clocks, what has been sent is silence
and one frame for each of the answers of the view, in order, and each frame shows its answer. -/
theorem main_serves (hg : Paired g) (hf : f.Tidy) (hnames : f.Names names)
    (hsents : List.Forall₂ (fun sent fr => sent.Carries g fr.1.frame) sents frames)
    (hgap : ∀ p ∈ frames, Hw.leastGap ≤ p.2) (hclocks : clocks.InStep) :
    ∃ ds : List Hw.SndData, List.Forall₂ (fun shown sd => shown.IsBytes g gReplyMac sd.bytes)
        (answers View.handle (.start f names) sents) ds ∧
      ∃ t₀, ∀ t, t₀ ≤ t →
        Hw.MacSnd.Transcript ds (Hw.Main.txLine g gReplyMac f.toHw levels clocks (Hw.lineOf frames) t) := by
  have hrequests : List.Forall₂ (fun sent rd => ∃ fr, Sent.Carries g sent fr ∧ rd = fr.rcvData) sents
      (frames.map fun p => p.1.frame.rcvData) := by
    rw [List.forall₂_map_right_iff]
    exact hsents.imp fun sent fr hcarries => ⟨fr.1.frame, hcarries, rfl⟩
  have hstart : (View.start f names).Of (.start f.toHw) := ⟨rfl, rfl, ⟨hf, hnames⟩⟩
  refine ⟨(answers (Hw.Device.handle g) (.start f.toHw) (frames.map fun p => p.1.frame.rcvData)).map
    (Hw.sndOf gReplyMac), ?_, ?_⟩
  · rw [List.forall₂_map_right_iff]
    exact Simulates.answers (device_simulates hg) hstart hrequests
  · exact Hw.line_to_line hf.inRange (line_inRange hg hsents) hgap hclocks

/-- From the server of the configuration at the start. -/
def fromServer (dstmac : MacAddr) (text : Str) : Packet where
  srcmac := initialiseFpgaConfiguration.srcMACList.head
  dstmac := dstmac
  srcip := .replicate 4 0
  dstip := .replicate 4 1
  srcport := 53
  dstport := 53
  udpPayload := text.take 1472
  short := List.length_take_le 1472 text

theorem initial_names : initialiseFpgaConfiguration.Names [str "apple.com", str "google.com"] where
  length := by decide
  text := by decide
  item := by decide +kernel

/-- Two packets between two probes, the first with a name that is on the list. -/
theorem main_serves_start : ∃ (fr : Hw.UdpFrame) (frames : List (Hw.LineFrame × Nat)) (ds : List Hw.SndData),
    List.Forall₂ (fun (shown : Shown) sd => shown.IsBytes {} Hw.replyMac sd.bytes)
        [.report initialiseFpgaConfiguration ⟨0, 0, 0, 0, 0⟩, .packet 0 fr,
          .report initialiseFpgaConfiguration ⟨2, 1, 2, 2, 2⟩] ds ∧
      ∃ t₀, ∀ t, t₀ ≤ t → Hw.MacSnd.Transcript ds
        (Hw.Main.txLine {} Hw.replyMac initialiseFpgaConfiguration.toHw (fun _ => false) Hw.evenClocks
          (Hw.lineOf frames) t) := by
  let probe := hostFrame (fromServer probeMac probePayload) .init (by decide)
  let blocked := hostFrame (fromServer (.replicate 6 1) (str "an apple.com")) .init (by decide)
  let passed := hostFrame (fromServer (.replicate 6 1) (str "orange")) .init (by decide)
  have hsents : List.Forall₂ (fun (sent : Sent) fr => sent.Carries {} fr.1.frame)
      [.probe, .packet blocked, .packet passed, .probe]
      [onLine probe rfl, onLine blocked rfl, onLine passed rfl, onLine probe rfl] :=
    .cons rfl (.cons ⟨rfl, by decide, by decide⟩ (.cons ⟨rfl, by decide, by decide⟩ (.cons rfl .nil)))
  obtain ⟨ds, hshown, hsent⟩ := @main_serves _ Hw.replyMac (fun _ => false) _ _ _ _ _ paired_default
    initial_tidy initial_names hsents (by simp [onLine]) Hw.evenClocks_inStep
  refine ⟨passed, _, ds, ?_, hsent⟩
  let v : Stats → View := fun s => ⟨initialiseFpgaConfiguration, [str "apple.com", str "google.com"], s⟩
  have hblocked : (v ⟨0, 0, 0, 0, 0⟩).handle (.packet blocked) = (v ⟨1, 0, 1, 1, 1⟩, none) := by
    have hcounted : (v ⟨0, 0, 0, 0, 0⟩).counted blocked = ⟨1, 0, 1, 1, 1⟩ := by decide +kernel
    rw [View.handle, hcounted, if_neg (by decide +kernel)]
  have hpassed : (v ⟨1, 0, 1, 1, 1⟩).handle (.packet passed) = (v ⟨2, 1, 2, 2, 2⟩, some (.packet 0 passed)) := by
    have hcounted : (v ⟨1, 0, 1, 1, 1⟩).counted passed = ⟨2, 1, 2, 2, 2⟩ := by decide +kernel
    rw [View.handle, hcounted, if_pos (by decide +kernel)]
    rfl
  rw [show View.start initialiseFpgaConfiguration [str "apple.com", str "google.com"] = v ⟨0, 0, 0, 0, 0⟩ from rfl,
    answers, View.handle, answers, hblocked, answers, hpassed, answers, View.handle, answers] at hshown
  exact hshown

end DnsAdtm
