/-
# `Sw.ProbeFailure` — a probe without a whole reply (`fpga-prober.hh`, `main.cc`)

`parse_probe_pkt` rejects a frame whose payload is shorter than 128 bytes, and returns `{}`.
It computes the length of the payload with the sizes of three pointers, 24, where the headers
are 42 bytes: what it rejects are the lengths from 24 to 151, and what it reads of the others
are 167 bytes.

    ProbeRejected            the lengths it rejects
    parse_local_iff          the lengths at which it reads no byte that was not received
    failed_probe             what a failed probe makes of `f` and `s`
    failed_probe_keeps_iff   and when that is what they were
-/
import DnsAdtm.Sw.AdminCommands
import DnsAdtm.Sw.ProbeCheck

namespace DnsAdtm.Sw

open Machine

/-! ## The length of a reply -/

/-- `parse_probe_pkt` finds the payload too short. -/
def ProbeRejected (length : Nat) : Prop := (2 ^ 64 - (8 + 8 + 8) + length) % 2 ^ 64 < 128

/-- The result at this length is one of the bytes before it. -/
def ParsesReceived (length : Nat) : Prop := ∀ (fCurr : Filter) (p q : List (BitVec 8)),
  (∀ n < length, p.getD n 0 = q.getD n 0) → parseProbePkt fCurr p length = parseProbePkt fCurr q length

variable {length : Nat} {fCurr : Filter} {p q : List (BitVec 8)}

theorem probeRejected_iff (h : length < 2 ^ 64) : ProbeRejected length ↔ 24 ≤ length ∧ length < 152 := by
  rw [ProbeRejected]
  omega

theorem parse_rejected (h : ProbeRejected length) : parseProbePkt fCurr p length = .empty := by
  rw [ProbeRejected] at h
  simp only [parseProbePkt]
  rw [if_pos h]

/-- The last byte read: the highest bits of `spc` are in it. -/
theorem spc_of_parsed (h : ¬ ProbeRejected length) :
    (parseProbePkt fCurr p length).s.spc.getLsbD 58 = (p.getD 166 0).getLsbD 0 := by
  have hspc : (parseProbePkt fCurr p length).s.spc = extractBitsFromArr (p.drop (14 + 20 + 8)) 934 997 := by
    rw [ProbeRejected] at h
    simp only [parseProbePkt]
    rw [if_neg h]
  rw [hspc, extractBitsFromArr_eq (by decide), BitVec.getLsbD_setWidth, getLsbD_field, bitAt,
    List.getD_eq_getElem?_getD, List.getD_eq_getElem?_getD, List.getElem?_drop]
  rfl

/-- Two buffers that differ in the last byte read, where it was not received. -/
theorem parses_stale (hparsed : ¬ ProbeRejected length) (hshort : length < 167) : ¬ ParsesReceived length := by
  intro h
  have hagree : ∀ n < length,
      (List.replicate 166 (0 : BitVec 8) ++ [1]).getD n 0 = ([] : List (BitVec 8)).getD n 0 := by
    intro n hn
    have hn' : n < 166 := by omega
    rw [List.getD_append _ _ _ _ (by rw [List.length_replicate]; exact hn'), List.getD_replicate _ hn']
    rfl
  have hspc := congrArg (fun pr => pr.s.spc.getLsbD 58) (h .empty _ _ hagree)
  simp only [spc_of_parsed hparsed] at hspc
  exact Bool.noConfusion hspc

/-- **What the parser has received.**  For every length that a `size_t` can have, the parsed
reply is one of the bytes received if and only if the frame is rejected, or has all of the
167 bytes that are read. -/
theorem parse_local_iff (length : BitVec 64) : ParsesReceived length.toNat ↔
    (24 ≤ length.toNat ∧ length.toNat < 152) ∨ 167 ≤ length.toNat := by
  rw [← probeRejected_iff length.isLt]
  constructor
  · intro h
    by_contra hno
    obtain ⟨hparsed, hshort⟩ := not_or.mp hno
    exact parses_stale hparsed (Nat.lt_of_not_le hshort) h
  · rintro (hreject | hlong) fCurr p q hagree
    · rw [parse_rejected hreject, parse_rejected hreject]
    · exact parseProbePkt_congr _ _ _ fun n hn => hagree n (by omega)

/-- A frame of 160 bytes. -/
theorem parse_reads_stale : ¬ ∀ length : BitVec 64, ParsesReceived length.toNat := by
  intro h
  have hparsed : ¬ ProbeRejected 160 := by
    rw [probeRejected_iff (by decide)]
    decide
  exact parses_stale hparsed (by decide) (h 160)

/-! ## A failed probe -/

/-- The length that the packet is parsed with. -/
def Traffic.lengthRead (tr : Traffic) (r : Receiver) : Nat := (run probeReceiverDaemon (tr.atTest r) tr.call).probePktLength

/-- The flag is not raised in time, or the length is rejected. -/
def Traffic.Fails (tr : Traffic) (r : Receiver) : Prop :=
  (tr.atTest r).probeReplyReceived = true → ProbeRejected (tr.lengthRead r)

/-- `main`, with `probe_board_on_launch`. -/
def probeOnLaunch (tr : Traffic) (st : Prober) : Prober :=
  let st := probeFpgaUpdateLocal tr st
  { st with fCurr := st.f }

variable {tr : Traffic} {st : Prober}

/-- A failed probe returns `{}`. -/
theorem probeFpga_failed {r : Receiver} (h : tr.Fails r) (fCurr : Filter) : (probeFpga fCurr tr r).1 = .empty := by
  rw [probeFpga_eq]
  split
  · rename_i hup
    exact parse_rejected (h hup)
  · rfl

/-- And that is assigned. -/
theorem failed_probe (h : tr.Fails st.receiver) : (probeFpgaUpdateLocal tr st).f = .empty ∧
    (probeFpgaUpdateLocal tr st).s = ⟨0, 0, 0, 0, 0⟩ ∧ (probeFpgaUpdateLocal tr st).fCurr = st.fCurr := by
  have hpr := probeFpga_failed h st.fCurr
  refine ⟨?_, ?_, rfl⟩
  · exact congrArg ProbeResponse.f hpr
  · exact congrArg ProbeResponse.s hpr

/-- At launch it reaches `f_curr`. -/
theorem failed_launch (h : tr.Fails st.receiver) : (probeOnLaunch tr st).fCurr = .empty := (failed_probe h).1

/-- **What a failed probe leaves.**  `f` and `s` are unchanged if and only if they were zero
before. -/
theorem failed_probe_keeps_iff (tr : Traffic) (st : Prober) (h : tr.Fails st.receiver) :
    ((probeFpgaUpdateLocal tr st).f = st.f ∧ (probeFpgaUpdateLocal tr st).s = st.s) ↔
      st.f = .empty ∧ st.s = ⟨0, 0, 0, 0, 0⟩ := by
  obtain ⟨hf, hs, -⟩ : (probeFpgaUpdateLocal tr st).f = .empty ∧
      (probeFpgaUpdateLocal tr st).s = ⟨0, 0, 0, 0, 0⟩ ∧ _ := failed_probe h
  rw [hf, hs]
  exact and_congr eq_comm eq_comm

/-- After the configuration of the launch and five counted packets. -/
def Prober.counted : Prober :=
  ⟨initialiseFpgaConfiguration, ⟨5, 5, 0, 0, 0⟩, initialiseFpgaConfiguration, .init⟩

theorem Traffic.none_fails : Traffic.none.Fails Prober.counted.receiver := by
  intro hup
  have hne := (follows_atTest (valid_of_waits rfl)).raised.mp hup
  exact absurd (none_replies _) hne

theorem failed_probe_counted :
    ((probeFpgaUpdateLocal .none .counted).f = Prober.counted.f ∧
      (probeFpgaUpdateLocal .none .counted).s = Prober.counted.s) ↔
      Prober.counted.f = .empty ∧ Prober.counted.s = ⟨0, 0, 0, 0, 0⟩ :=
  failed_probe_keeps_iff .none .counted Traffic.none_fails

/-- Silence overwrites them. -/
theorem failed_probe_overwrites : ¬ ∀ (tr : Traffic) (st : Prober), tr.Fails st.receiver →
    (probeFpgaUpdateLocal tr st).f = st.f ∧ (probeFpgaUpdateLocal tr st).s = st.s := by
  intro h
  have hs : (⟨0, 0, 0, 0, 0⟩ : Stats) = Prober.counted.s :=
    (failed_probe Traffic.none_fails).2.1.symm.trans (h .none .counted Traffic.none_fails).2
  exact absurd (congrArg Stats.stc hs) (by decide)

end DnsAdtm.Sw
