/-
# `Hw.MacSndTime` — how long a packet takes `mac_snd`

`MacSnd.left` says how many periods there are at most until `Idle`; it falls by one a period at
least, in every state but `Idle` and `Read`.  A frame is sixteen nibbles of preamble, 84 of
headers, at most 256 of payload, eight of check sequence and the gap of 24, since `dnsPktCnt` is
less than 1024.
-/
import DnsAdtm.Hw.MacSnd

namespace DnsAdtm.Hw.MacSnd

variable {st : MacSnd} {i : SndIn}

/-- The periods of a state that counts from `c` to `last` by `step`. -/
def countLeft (step last c : Nat) : Nat := (last - c) / step + 1

/-- The periods of the payload, the check sequence and the gap. -/
def payloadLeft (d : SndData) (c : Nat) : Nat := countLeft 4 (max d.dnsPktCnt 140 + 3) c + 32

/-- The periods until `Idle`. -/
def left (st : MacSnd) : Nat :=
  match st.s with
  | .idle | .read => 0
  | .preamble => countLeft 1 14 st.c + (85 + payloadLeft st.d 0)
  | .startOfFrame => 85 + payloadLeft st.d 0
  | .etherMACDST => countLeft 4 44 st.c + (72 + payloadLeft st.d 0)
  | .etherMACSRC => countLeft 4 44 st.c + (60 + payloadLeft st.d 0)
  | .etherType => countLeft 1 3 st.c + (56 + payloadLeft st.d 0)
  | .ipIHL => 56 + payloadLeft st.d 0
  | .ipVersion => 55 + payloadLeft st.d 0
  | .ipDSCPECN => countLeft 1 1 st.c + (52 + payloadLeft st.d 0)
  | .ipLength => countLeft 4 12 st.c + (48 + payloadLeft st.d 0)
  | .ipID => countLeft 1 3 st.c + (44 + payloadLeft st.d 0)
  | .ipFlagsFragment => countLeft 1 3 st.c + (40 + payloadLeft st.d 0)
  | .ipTTL => countLeft 4 4 st.c + (38 + payloadLeft st.d 0)
  | .ipProtocol => countLeft 1 1 st.c + (36 + payloadLeft st.d 0)
  | .ipChecksum => countLeft 4 12 st.c + (32 + payloadLeft st.d 0)
  | .ipAddrSRC => countLeft 4 28 st.c + (24 + payloadLeft st.d 0)
  | .ipAddrDST => countLeft 4 28 st.c + (16 + payloadLeft st.d 0)
  | .udpPortSRC => countLeft 4 12 st.c + (12 + payloadLeft st.d 0)
  | .udpPortDST => countLeft 4 12 st.c + (8 + payloadLeft st.d 0)
  | .udpLength => countLeft 4 12 st.c + (4 + payloadLeft st.d 0)
  | .udpChecksum => countLeft 4 12 st.c + payloadLeft st.d 0
  | .dnsMsg => payloadLeft st.d st.c
  | .frameCheck => countLeft 4 28 st.c + 24
  | .interframeGap => countLeft 1 23 st.c

/-- Where the counter stands in a state. -/
def InCount (st : MacSnd) : Prop :=
  match st.s with
  | .read => st.c = 0
  | .preamble => st.c ≤ 14
  | .etherMACDST | .etherMACSRC => 4 ∣ st.c ∧ st.c ≤ 44
  | .ipDSCPECN | .ipProtocol => st.c ≤ 1
  | .etherType | .ipID | .ipFlagsFragment => st.c ≤ 3
  | .ipTTL => 4 ∣ st.c ∧ st.c ≤ 4
  | .ipLength | .ipChecksum | .udpPortSRC | .udpPortDST | .udpLength | .udpChecksum => 4 ∣ st.c ∧ st.c ≤ 12
  | .ipAddrSRC | .ipAddrDST | .frameCheck => 4 ∣ st.c ∧ st.c ≤ 28
  | .interframeGap => st.c ≤ 23
  | _ => True

/-- What holds behind a nibble. -/
theorem nibble_cases (P : MacSnd → Prop) {x : BitVec 4} {step : Nat} {last : Bool} {next : SndState}
    (hlast : last = true → P { st with
      txd := x, txEn := true, ack := false, crc := nextCRC32_D4 x st.crc, c := 0, s := next })
    (hmore : last = false → P { st with
      txd := x, txEn := true, ack := false, crc := nextCRC32_D4 x st.crc, c := st.c + step }) :
    P (st.nibble x step last next) := by
  cases last with
  | true => exact hlast rfl
  | false => exact hmore rfl

/-- A period keeps the counter in place, and at work it is one of those left. -/
theorem cycle_left (h : st.InCount) :
    (st.cycle i).InCount ∧ (st.s ≠ .idle → st.s ≠ .read → (st.cycle i).left + 1 ≤ st.left) := by
  obtain ⟨s, crc, c, d, txd, txEn, ack⟩ := st
  rw [InCount] at h
  cases s <;> dsimp only at h
  case idle =>
      refine ⟨?_, fun hne => absurd rfl hne⟩
      dsimp only [cycle]
      split <;> trivial
  case read => exact ⟨by subst h; exact Nat.zero_le 14, fun _ hne => absurd rfl hne⟩
  case startOfFrame =>
      exact ⟨⟨Nat.dvd_zero 4, Nat.zero_le 44⟩, fun _ _ => by simp only [left, cycle, countLeft]; omega⟩
  case etherType =>
      dsimp only [cycle]
      split
      · refine ⟨?_, fun _ _ => ?_⟩
        · simp only [nibble, InCount, Bool.false_eq_true, if_false]
          omega
        · simp only [nibble, left, countLeft, Bool.false_eq_true, if_false]
          omega
      · refine nibble_cases (fun st' => st'.InCount ∧ (_ → _ → st'.left + 1 ≤ _)) (fun _ => ?_) fun hmore => ?_
        · exact ⟨trivial, fun _ _ => by simp only [left, countLeft]; omega⟩
        · have hne := ne_of_beq_false hmore
          refine ⟨?_, fun _ _ => ?_⟩
          · simp only [InCount]
            omega
          · simp only [left, countLeft]
            omega
  case preamble | frameCheck | interframeGap =>
      dsimp only [cycle]
      split
      · exact ⟨by simp [InCount], fun _ _ => by simp only [left, countLeft]; omega⟩
      · refine ⟨?_, fun _ _ => ?_⟩
        · simp only [InCount]
          omega
        · simp only [left, countLeft]
          omega
  case ipIHL | ipVersion =>
      exact ⟨by simp [cycle, nibble, InCount], fun _ _ => by simp only [left, cycle, nibble, countLeft, if_true]; omega⟩
  case dnsMsg =>
      refine nibble_cases (fun st' => st'.InCount ∧ (_ → _ → st'.left + 1 ≤ _)) (fun _ => ?_) fun hmore => ?_
      · exact ⟨by simp [InCount], fun _ _ => by simp only [left, countLeft, payloadLeft]; omega⟩
      · have hlt : c < max d.dnsPktCnt 140 := by
          simp only [Bool.and_eq_false_iff, decide_eq_false_iff_not] at hmore
          omega
        refine ⟨trivial, fun _ _ => ?_⟩
        simp only [left, countLeft, payloadLeft]
        omega
  all_goals
    refine nibble_cases (fun st' => st'.InCount ∧ (_ → _ → st'.left + 1 ≤ _)) (fun _ => ?_) fun hmore => ?_
    · refine ⟨by simp [InCount], fun _ _ => ?_⟩
      simp only [left, countLeft, payloadLeft]
      omega
    · have hne := ne_of_beq_false hmore
      dsimp only at hne
      refine ⟨?_, fun _ _ => ?_⟩
      · simp only [InCount]
        omega
      · simp only [left, countLeft, payloadLeft]
        omega

/-- The periods from a test in `Idle` to the next, at most. -/
def serviceTime : Nat := 391

/-- A packet just latched. -/
theorem left_read (h : st.InCount) (hs : st.s = .read) (hcnt : i.elData.dnsPktCnt < 1024) :
    (st.cycle i).left + 2 ≤ serviceTime := by
  rw [InCount, hs] at h
  dsimp only at h
  rw [cycle, hs, left, serviceTime]
  simp only [countLeft, payloadLeft, h]
  omega

end DnsAdtm.Hw.MacSnd
