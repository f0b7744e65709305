/-
# `CrcAgree` — the frame check sequence is the CRC of the checker

`mac_snd` advances its CRC by a nibble at a time, the checker by a byte.  Both are compared
through the register that shifts down by a bit (`Crc.downs`): one call of `nextCRC32_D4` is
four of its steps (`nextCRC32_D4_eq`), and the checker's register is its mirror image
(`crcBytes_eq`).

    crcOf_nibbles    the CRC of the sender over the nibbles of a message
    mac_snd_frame    the frame on the wire
-/
import DnsAdtm.Hw.MacSndRun
import DnsAdtm.Sw.Crc32Checker

namespace DnsAdtm

open Hw Sw Crc Machine

/-- The polynomial, for the register that shifts down. -/
def mirrored : BitVec 32 := (0x04C11DB7 : BitVec 32).reverse

/-- Four steps at once: the low bits of the polynomial are clear, so that none of the four bits
coming in changes what the others do. -/
theorem getLsbD_downs_four (c : BitVec 32) (b₀ b₁ b₂ b₃ : Bool) (j : Nat) :
    (downs mirrored c [b₀, b₁, b₂, b₃]).getLsbD j =
      (c.getLsbD (j + 4) ^^ ((c.getLsbD 0 ^^ b₀) && mirrored.getLsbD (j + 3)) ^^
        ((c.getLsbD 1 ^^ b₁) && mirrored.getLsbD (j + 2)) ^^
        ((c.getLsbD 2 ^^ b₂) && mirrored.getLsbD (j + 1)) ^^
        ((c.getLsbD 3 ^^ b₃) && mirrored.getLsbD j)) := by
  have hlow : ∀ i < 4, mirrored.getLsbD i = false := by decide +kernel
  simp only [downs, List.foldl_cons, List.foldl_nil, getLsbD_down, hlow 0 (by decide), hlow 1 (by decide),
    hlow 2 (by decide), Bool.and_false, Bool.xor_false, Nat.zero_add, Nat.add_assoc, Nat.reduceAdd]

/-- A word given by its bits, the high bit in front. -/
theorem getLsbD_of_bits {bits : List Bool} {v : BitVec 32} (hlen : bits.length = 32)
    (h : bits = (List.range 32).map fun k => v.getLsbD (31 - k)) {j : Nat} (hj : j < 32) :
    (BitVec.ofBoolListBE bits).getLsbD j = v.getLsbD j := by
  rw [BitVec.getLsbD_ofBoolListBE, hlen, h]
  simp [hj, show 31 - j < 32 by omega, show 31 - (31 - j) = j by omega]

/-- One call advances the register by the four bits of the nibble, low bit first. -/
theorem nextCRC32_D4_eq (x : BitVec 4) (c : BitVec 32) :
    nextCRC32_D4 x c = downs mirrored c ((List.range 4).map x.getLsbD) := by
  apply BitVec.eq_of_getLsbD_eq
  intro j hj
  unfold nextCRC32_D4
  refine getLsbD_of_bits rfl ?_ hj
  have hpoly : mirrored = 0xEDB88320 := by decide +kernel
  have hx : ∀ k < 4, x.getMsbD k = x.getLsbD (3 - k) := fun k hk => by
    rw [BitVec.getMsbD_eq_getLsbD]
    simp [hk]
  have hc : ∀ k < 32, c.getMsbD k = c.getLsbD (31 - k) := fun k hk => by
    rw [BitVec.getMsbD_eq_getLsbD]
    simp [hk]
  have hend : ∀ k, 32 ≤ k → c.getLsbD k = false := fun k hk => BitVec.getLsbD_of_ge c k hk
  rw [show (List.range 4).map x.getLsbD = [x.getLsbD 0, x.getLsbD 1, x.getLsbD 2, x.getLsbD 3] from rfl]
  -- the 32 sums of the source against those of the four steps
  simp only [getLsbD_downs_four, List.range, List.range.loop, List.map_cons, List.map_nil,
    List.cons.injEq, and_true]
  simp only [hpoly, hend, hx, hc, Nat.reduceSub, Nat.reduceAdd, Nat.reduceLT, Nat.reduceLeDiff,
    BitVec.reduceGetLsb, Bool.and_true, Bool.and_false, Bool.xor_false, Bool.false_xor, true_and]
  and_intros <;> simp only [Bool.xor_assoc, Bool.xor_comm, Bool.xor_left_comm]

/-- The CRC of the sender over the nibbles of a message. -/
theorem crcOf_nibbles (c : BitVec 32) (bytes : List (BitVec 8)) :
    crcOf c (nibbles bytes) = downs mirrored c (bytes.flatMap bitsOf) := by
  induction bytes generalizing c with
  | nil => rfl
  | cons ch bytes ih =>
      have hbits : bitsOf ch = (List.range 4).map (ch.extractLsb' 0 4).getLsbD ++
          (List.range 4).map (ch.extractLsb' 4 4).getLsbD := by
        simp [bitsOf, List.range, List.range.loop]
      have hstep : crcOf c (nibbles (ch :: bytes)) =
          crcOf (nextCRC32_D4 (ch.extractLsb' 4 4) (nextCRC32_D4 (ch.extractLsb' 0 4) c)) (nibbles bytes) := by
        rw [nibbles_cons, crcOf, crcOf, List.foldl_cons, List.foldl_cons]
      rw [hstep, ih, nextCRC32_D4_eq, nextCRC32_D4_eq, List.flatMap_cons, hbits, downs_append, downs_append]

/-- The frame check sequence is what the checker computes, low byte first. -/
theorem fcs_eq_crcBytes (d : SndData) : d.fcs = nibbles (bytesLE (crcBytes d.bytes) 4) := by
  rw [nibbles_bytesLE, SndData.fcs, crcOf_nibbles, crcBytes_eq]
  rfl

namespace Hw.MacSnd

/-- A request in `Idle`, for a packet of `N` bytes: the sender raises `E_TX_EN` for one run of
nibbles, made up of the preamble, the headers, the payload of 18 bytes at least and the CRC
of the checker, and keeps it low for 24 periods before it is idle again. -/
theorem mac_snd_frame {N : Nat} (hN : 1 ≤ N ∧ N ≤ 128) {d : SndData} (hcnt : d.dnsPktCnt = 8 * N - 4)
    {st : MacSnd} (hs : st.s = .idle) {inp : Nat → SndIn} (hen : (inp 0).elSndEn = true)
    (hd : (inp 1).elData = d) :
    let body := d.header ++ bytesLE d.dnsPkt (max N 18)
    let frame := List.replicate 15 0x5 ++ [0xd] ++ nibbles body ++ nibbles (bytesLE (crcBytes body) 4)
    d.header.length = 42 ∧ 60 ≤ body.length ∧
      (List.range (2 + frame.length + 24)).map (fun t => out (trace cycle st inp (t + 1))) =
        List.replicate 2 (false, 0x0) ++ wire frame ++ List.replicate 24 (false, 0x0) ∧
      (trace cycle st inp (2 + frame.length + 24)).s = .idle := by
  intro body frame
  have hbody : d.bytes = body := by
    show d.header ++ _ = d.header ++ _
    rw [show (max d.dnsPktCnt 140 + 4) / 8 = max N 18 by omega]
  have hout : frameOut d = wire frame ++ List.replicate 24 (false, 0x0) := by
    rw [frameOut, fcs_eq_crcBytes, hbody]
    rfl
  have hheader : d.header.length = 42 := by simp [SndData.header]
  have hlen : (frameOut d).length + 2 = 2 + frame.length + 24 := by
    rw [hout]
    simp [wire]
    omega
  have hrun := snd_run hs inp hen (by rw [hd]; exact ⟨N, by omega⟩)
  rw [hd] at hrun
  refine ⟨hheader, ?_, ?_, ?_⟩
  · have hpad : 18 ≤ max N 18 := Nat.le_max_right N 18
    simp [body, hheader]
    omega
  · rw [← hlen, hrun.1, hout, List.append_assoc]
    rfl
  · rw [← hlen]
    exact hrun.2

/-- A packet of 20 bytes. -/
def twentyBytes : SndData where
  srcMAC := 0x8967f0debc9a
  dstMAC := 0x45230189ab67
  srcIP := 0x0100000a
  dstIP := 0x0200000a
  ipLength := 0x3000
  ipChecksum := 0xbad6
  ipTTL := 0x40
  srcPort := 0x3500
  dstPort := 0x3930
  udpLength := 0x1c00
  udpChecksum := 0x7b2a
  dnsPktCnt := 156
  dnsPkt := 0x6d6f63056c707061056d6f6303776e0140302010

theorem mac_snd_frame_twenty :
    let body := twentyBytes.header ++ bytesLE twentyBytes.dnsPkt (max 20 18)
    let frame := List.replicate 15 0x5 ++ [0xd] ++ nibbles body ++ nibbles (bytesLE (crcBytes body) 4)
    twentyBytes.header.length = 42 ∧ 60 ≤ body.length ∧
      (List.range (2 + frame.length + 24)).map
          (fun t => out (trace cycle init (fun _ => ⟨twentyBytes, true⟩) (t + 1))) =
        List.replicate 2 (false, 0x0) ++ wire frame ++ List.replicate 24 (false, 0x0) ∧
      (trace cycle init (fun _ => ⟨twentyBytes, true⟩) (2 + frame.length + 24)).s = .idle :=
  @mac_snd_frame 20 (by decide) twentyBytes rfl init rfl (fun _ => ⟨twentyBytes, true⟩) rfl rfl

end Hw.MacSnd

end DnsAdtm
