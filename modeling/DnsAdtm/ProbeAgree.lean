/-
# `ProbeAgree` — the probe reply, from the hardware to the software

What the two processors make of a query, and `mac_snd` of that, is read back by
`parse_probe_pkt` (`probe_reply_parses`).  The payload of the reply is a stream of fields
(`Hw.replySegments`), and the parser takes the same fields out of it.

    reply_parses    any packet that carries the fields is parsed to them
-/
import DnsAdtm.Hw.Processors
import DnsAdtm.Hw.MacSndRun
import DnsAdtm.Sw.FpgaProber

namespace DnsAdtm

open Machine Sw

/-- The counters as the hardware holds them. -/
def Sw.Stats.toHw (s : Sw.Stats) : Hw.Tally := ⟨s.stc, s.sfc, s.smc, s.sic, s.spc⟩

theorem Hw.Filter.InRange.packable {f : Hw.Filter} (h : f.InRange) : f.Packable where
  srcMAC := Nat.lt_of_le_of_lt h.srcMAC (by decide)
  dstMAC := Nat.lt_of_le_of_lt h.dstMAC (by decide)
  srcIP := Nat.lt_of_le_of_lt h.srcIP (by decide)
  dstIP := Nat.lt_of_le_of_lt h.dstIP (by decide)
  srcPort := Nat.lt_of_le_of_lt h.srcPort (by decide)
  dstPort := Nat.lt_of_le_of_lt h.dstPort (by decide)
  dns := Nat.lt_of_le_of_lt h.dns (by decide)
  endPtr₀ := Nat.lt_of_le_of_lt (h.endPtr_le 0) (by decide)
  endPtr₁ := Nat.lt_of_le_of_lt (h.endPtr_le 1) (by decide)

variable {f : Hw.Filter} {t : Hw.Tally} {payload : List (BitVec 8)}

/-- A reply begins with the filter. -/
theorem stream_replySegments {n : Nat} (hn : n < 678) : stream (Hw.replySegments f t) n = stream f.segments n := by
  rw [Hw.replySegments, stream_append, Hw.Filter.widths_segments, if_pos hn]

/-- The fields of a filter, read by the parser. -/
theorem parse_segments (hf : f.Packable) (h : ∀ n < 678, bitAt payload n = stream f.segments n) :
    (parseFields payload).toHw = f := by
  rw [toHw_parseFields]
  exact (Hw.Filter.decode_congr h).trans (Hw.Filter.decode_stream hf)

/-- The fields of a reply. -/
theorem parse_replySegments (hf : f.Packable)
    (h : ∀ n < 998, bitAt payload n = stream (Hw.replySegments f t) n) :
    (parseFields payload).toHw = f ∧
      (⟨extractBitsFromArr payload 678 741, extractBitsFromArr payload 742 805,
        extractBitsFromArr payload 806 869, extractBitsFromArr payload 870 933,
        extractBitsFromArr payload 934 997⟩ : Sw.Stats).toHw = t := by
  constructor
  · exact parse_segments hf fun n hn => (h n (by omega)).trans (stream_replySegments hn)
  · have hcounter : ∀ (k s e : Nat) (x : BitVec 64), (Hw.replySegments f t)[k]? = some ⟨64, x⟩ →
        ((Hw.Filter.layout ++ [64, 64, 64, 64, 64]).take k).sum = s → e + 1 = s + 64 → s + 64 ≤ 998 →
        extractBitsFromArr payload s e = x := by
      intro k s e x hget hoff he hle
      rw [← BitVec.setWidth_eq (extractBitsFromArr payload s e),
        extract_setWidth payload s e 64 he (by decide) (by decide)]
      refine (field_congr fun i hi => h (s + i) (by omega)).trans (field_stream k s hget ?_)
      rw [widths, List.map_take]
      exact hoff
    refine (Hw.Tally.mk.injEq ..).mpr ⟨?_, ?_, ?_, ?_, ?_⟩
    · exact hcounter 31 678 741 t.stc rfl (by decide) rfl (by decide)
    · exact hcounter 32 742 805 t.sfc rfl (by decide) rfl (by decide)
    · exact hcounter 33 806 869 t.smc rfl (by decide) rfl (by decide)
    · exact hcounter 34 870 933 t.sic rfl (by decide) rfl (by decide)
    · exact hcounter 35 934 997 t.spc rfl (by decide) rfl (by decide)

/-- What is parsed has the bits of the packet. -/
theorem stream_parsed (fCurr : Sw.Filter) (pkt : List (BitVec 8)) {n : Nat} (hn : n < 998) :
    stream (Hw.replySegments (parseProbePkt fCurr pkt 170).f.toHw (parseProbePkt fCurr pkt 170).s.toHw) n =
      bitAt (pkt.drop (14 + 20 + 8)) n := by
  obtain ⟨pr, hpr⟩ : ∃ pr, pr = parseProbePkt fCurr pkt 170 := ⟨_, rfl⟩
  have hf : pr.f = parseFields (pkt.drop (14 + 20 + 8)) := by rw [hpr]; rfl
  have hs : pr.s = ⟨extractBitsFromArr (pkt.drop (14 + 20 + 8)) 678 741, extractBitsFromArr (pkt.drop (14 + 20 + 8)) 742 805,
      extractBitsFromArr (pkt.drop (14 + 20 + 8)) 806 869, extractBitsFromArr (pkt.drop (14 + 20 + 8)) 870 933,
      extractBitsFromArr (pkt.drop (14 + 20 + 8)) 934 997⟩ := by rw [hpr]; rfl
  rw [← hpr, hf, hs]
  clear hpr hf hs
  obtain ⟨payload, hpayload⟩ : ∃ payload, payload = pkt.drop (14 + 20 + 8) := ⟨_, rfl⟩
  rw [← hpayload]
  have hcounter : ∀ {f : Hw.Filter} {t : Hw.Tally} (k s e : Nat) (x : BitVec 64), x = extractBitsFromArr payload s e →
      (Hw.replySegments f t)[k]? = some ⟨64, x⟩ → ((Hw.Filter.layout ++ [64, 64, 64, 64, 64]).take k).sum = s →
      e + 1 = s + 64 → s ≤ n → n < s + 64 → stream (Hw.replySegments f t) n = bitAt payload n := by
    intro f t k s e x hx hget hoff he hlo hhi
    refine @field_inj _ _ s 64 ?_ n hlo hhi
    rw [field_stream k s hget (by rw [widths, List.map_take]; exact hoff), hx,
      ← BitVec.setWidth_eq (extractBitsFromArr payload s e), extract_setWidth payload s e 64 he (by decide) (by decide)]
  rcases Nat.lt_or_ge n 678 with hlt | hge
  · rw [stream_replySegments hlt]
    refine Hw.Filter.decode_inj ?_ hlt
    rw [Hw.Filter.decode_stream (Filter.toHw_packable _), toHw_parseFields]
  · rcases Nat.lt_or_ge n 742 with h | h₁
    · exact hcounter 31 678 741 _ rfl rfl (by decide) rfl hge h
    rcases Nat.lt_or_ge n 806 with h | h₂
    · exact hcounter 32 742 805 _ rfl rfl (by decide) rfl h₁ h
    rcases Nat.lt_or_ge n 870 with h | h₃
    · exact hcounter 33 806 869 _ rfl rfl (by decide) rfl h₂ h
    rcases Nat.lt_or_ge n 934 with h | h₄
    · exact hcounter 34 870 933 _ rfl rfl (by decide) rfl h₃ h
    · exact hcounter 35 934 997 _ rfl rfl (by decide) rfl h₄ hn

theorem Hw.SndData.length_header (d : Hw.SndData) : d.header.length = 42 := by
  simp [SndData.header, length_bytesLE]

/-- A frame that carries a reply has 170 bytes, and the fields behind its headers. -/
theorem reply_bits {d : Hw.SndData} (hcnt : d.dnsPktCnt = 1020)
    (hpkt : Agrees (stream (Hw.replySegments f t)) 998 d.dnsPkt) : d.bytes.length = 170 ∧
      ∀ n < 998, bitAt (d.bytes.drop (14 + 20 + 8)) n = stream (Hw.replySegments f t) n := by
  have hbytes : d.bytes = d.header ++ bytesLE d.dnsPkt 128 := by
    rw [Hw.SndData.bytes, hcnt]
    rfl
  have hpayload : d.bytes.drop (14 + 20 + 8) = bytesLE d.dnsPkt 128 := by
    rw [hbytes]
    exact List.drop_left' d.length_header
  refine ⟨by rw [hbytes, List.length_append, d.length_header, length_bytesLE], fun n hn => ?_⟩
  rw [hpayload, bitAt_bytesLE _ (by omega)]
  exact hpkt n hn

/-- And is parsed to what the reply says. -/
theorem reply_parses {d : Hw.SndData} (hf : f.Packable) (hcnt : d.dnsPktCnt = 1020)
    (hpkt : Agrees (stream (Hw.replySegments f t)) 998 d.dnsPkt) (fCurr : Sw.Filter) :
    (parseProbePkt fCurr d.bytes d.bytes.length).f.toHw = f ∧
      (parseProbePkt fCurr d.bytes d.bytes.length).s.toHw = t := by
  obtain ⟨hlen, hbits⟩ := reply_bits hcnt hpkt
  obtain ⟨hparsed, hstats⟩ := parse_replySegments hf hbits
  rw [hlen, parseProbePkt]
  exact ⟨hparsed, hstats⟩

/-- **Probe reply and probe parser agree.**  In every run of the two processors from
power-on, with any filter and any counters, a query read in `Idle` changes neither; 45
periods later `el_snd_en` is up with a `snd_data_t` for which `mac_snd` sends the frame
`bytes`, and this frame is parsed to the filter and the counters. -/
theorem probe_reply_parses (g : Hw.Generics) (hmacs : g.queryMac ≠ g.adminMac)
    (gReplyMac : BitVec 48) (f : Hw.Filter) (t : Hw.Tally) (inp : Nat → Hw.CoreinIn) (n : Nat)
    (hf : (trace (Hw.Processors.cycle g gReplyMac) (.start f t) inp n).ci.core.f.Packable)
    (hidle : (trace (Hw.Processors.cycle g gReplyMac) (.start f t) inp n).ci.core.s.s = .idle)
    (hdv : (inp n).elRcvDv = true) (hquery : (inp (n + 1)).elRcvData.dstMAC = g.queryMac) :
    let tr := trace (Hw.Processors.cycle g gReplyMac) (.start f t) inp
    (∀ k, k ≤ 37 → (tr (n + k)).ci.core.f = (tr n).ci.core.f ∧
      (tr (n + k)).ci.core.s.tally = (tr n).ci.core.s.tally) ∧
    (tr (n + 45)).co.elSndEn = true ∧
    ∃ bytes, Hw.MacSnd.Emitted (tr (n + 45)).co.sd bytes ∧
      ∀ fCurr, (parseProbePkt fCurr bytes bytes.length).f.toHw = (tr n).ci.core.f ∧
        (parseProbePkt fCurr bytes bytes.length).s.toHw = (tr n).ci.core.s.tally := by
  obtain ⟨tr, htr⟩ : ∃ tr, tr = trace (Hw.Processors.cycle g gReplyMac) (.start f t) inp := ⟨_, rfl⟩
  have hcore : ∀ k, (tr (n + k)).ci.core = trace (Hw.rcv g) (tr n).ci.core
      (fun j => (tr (n + j)).ci.rcvIn (inp (n + j))) k := by
    rw [htr]
    exact Hw.core_trace_add _ inp n
  have hco : ∀ k, (tr (n + 37 + k)).co = trace (Hw.Coreout.cycle gReplyMac) (tr (n + 37)).co
      (fun j => (tr (n + 37 + j)).outIn) k := by
    rw [htr]
    exact Hw.co_trace_add _ inp (n + 37)
  have hpaced : Hw.Paced (tr (n + 37)) := by
    rw [htr]
    exact Hw.paced_trace f t inp (n + 37)
  rw [← htr] at hf hidle ⊢
  clear htr
  obtain ⟨hasking, hdone, hen, hf', ht', hreply⟩ := Hw.query_run g (tr n).ci.core
    (fun j => (tr (n + j)).ci.rcvIn (inp (n + j))) hmacs hidle hdv rfl hquery
  simp only [← hcore] at hasking hdone hen hf' ht' hreply
  obtain ⟨-, -, hup, hsd⟩ := Hw.coreout_run gReplyMac (hpaced.handed hen).2
    (fun j => (tr (n + 37 + j)).outIn) hen
  simp only [← hco] at hup hsd
  have hlength : (tr (n + 37)).ci.core.rd.dnsLength = 128 := by rw [hreply.head]
  have hcnt : (tr (n + 45)).co.sd.dnsPktCnt = 1020 := by
    rw [show n + 45 = n + 37 + 8 by omega, hsd]
    show (if 128 ≤ (tr (n + 37)).ci.core.rd.dnsLength then _ else _) = 1020
    rw [hlength]
    rfl
  have hpkt : Agrees (stream (Hw.replySegments (tr n).ci.core.f (tr n).ci.core.s.tally)) 998
      (tr (n + 45)).co.sd.dnsPkt := by
    rw [show n + 45 = n + 37 + 8 by omega, hsd]
    exact hreply.pkt
  refine ⟨fun k hk => ?_, hup, (tr (n + 45)).co.sd.bytes,
    Hw.MacSnd.emitted_bytes (by rw [hcnt]; decide), reply_parses hf hcnt hpkt⟩
  rcases Nat.eq_zero_or_pos k with rfl | hpos
  · exact ⟨rfl, rfl⟩
  · rcases Nat.eq_or_lt_of_le hk with rfl | hlt
    · exact ⟨hf', ht'⟩
    · exact ⟨(hasking k hpos hlt).filter, (hasking k hpos hlt).tally⟩

/-- A query for the filter at power-on and these counters. -/
theorem probe_reply_parses_five : ∃ bytes, ∀ fCurr,
    (parseProbePkt fCurr bytes bytes.length).f.toHw = Hw.Filter.init ∧
      (parseProbePkt fCurr bytes bytes.length).s.toHw = ⟨5, 4, 3, 2, 1⟩ := by
  obtain ⟨_, _, bytes, _, hparse⟩ := probe_reply_parses {} (by decide) Hw.replyMac
    Hw.Filter.init ⟨5, 4, 3, 2, 1⟩
    (fun _ => ⟨{ Hw.RcvData.zero with dstMAC := ({} : Hw.Generics).queryMac }, true⟩) 0
    Hw.Filter.init_inRange.packable rfl rfl rfl
  exact ⟨bytes, hparse⟩

end DnsAdtm
