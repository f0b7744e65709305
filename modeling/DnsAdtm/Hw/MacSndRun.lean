/-
# `Hw.MacSndRun` — the frame `mac_snd` sends

A request taken in `Idle` fixes the next periods: `el_data` is read in the period behind it,
and from then on no input is looked at until the sender is idle again.

    Sends st ns st'    the nibbles `ns` are sent, and the CRC has run over them
    field_sends        the states that send a field
    frame_emits        the whole frame: delimiter, `SndData.bytes`, padding, CRC, gap
    snd_run            a request in `Idle`
-/
import DnsAdtm.Hw.MacSnd
import DnsAdtm.Hw.MacRcvRun

namespace DnsAdtm.Hw

open Machine

/-- The 42 bytes of the three headers. -/
def SndData.header (d : SndData) : List (BitVec 8) :=
  bytesLE d.dstMAC 6 ++ bytesLE d.srcMAC 6 ++ [0x08, 0x00] ++
    [0x45, 0x00] ++ bytesLE d.ipLength 2 ++ [0x00, 0x00] ++ [0x00, 0x00] ++
    bytesLE d.ipTTL 1 ++ [0x11] ++ bytesLE d.ipChecksum 2 ++ bytesLE d.srcIP 4 ++ bytesLE d.dstIP 4 ++
    bytesLE d.srcPort 2 ++ bytesLE d.dstPort 2 ++ bytesLE d.udpLength 2 ++ bytesLE d.udpChecksum 2

/-- The frame without preamble and frame check sequence: the headers, and the payload up to
the nibble at `dnsPktCnt`, but 18 bytes at least. -/
def SndData.bytes (d : SndData) : List (BitVec 8) :=
  d.header ++ bytesLE d.dnsPkt ((max d.dnsPktCnt 140 + 4) / 8)

/-- The CRC over the nibbles `ns`. -/
def crcOf (crc : BitVec 32) (ns : List (BitVec 4)) : BitVec 32 :=
  ns.foldl (fun crc x => nextCRC32_D4 x crc) crc

theorem crcOf_append (crc : BitVec 32) (a b : List (BitVec 4)) :
    crcOf crc (a ++ b) = crcOf (crcOf crc a) b :=
  List.foldl_append

/-- The frame check sequence, as nibbles. -/
def SndData.fcs (d : SndData) : List (BitVec 4) :=
  nibblesLE (~~~(crcOf 0xffffffff (nibbles d.bytes))) 8

namespace MacSnd

variable {st st' st'' : MacSnd} {ns ms : List (BitVec 4)}

/-- What is on the wire. -/
def out (st : MacSnd) : Bool × BitVec 4 := (st.txEn, st.txd)

/-- The nibbles as they are seen on the wire. -/
def wire (ns : List (BitVec 4)) : List (Bool × BitVec 4) := ns.map (true, ·)

theorem wire_append (a b : List (BitVec 4)) : wire (a ++ b) = wire a ++ wire b := List.map_append

/-- Whatever the inputs, the nibbles `ns` are sent, and the CRC runs over them. -/
structure Sends (st : MacSnd) (ns : List (BitVec 4)) (st' : MacSnd) : Prop where
  emits : Emits cycle out st (wire ns) st'
  crc : st'.crc = crcOf st.crc ns
  d : st'.d = st.d

theorem Sends.append (h : Sends st ns st') (h' : Sends st' ms st'') : Sends st (ns ++ ms) st'' where
  emits := by
    rw [wire_append]
    exact h.emits.append h'.emits
  crc := by rw [h'.crc, h.crc, crcOf_append]
  d := h'.d.trans h.d

/-- One nibble. -/
theorem Sends.one {x : BitVec 4} {step : Nat} {last : Bool} {next : SndState}
    (h : ∀ i, st.cycle i = st.nibble x step last next) : Sends st [x] (st.nibble x step last next) :=
  ⟨.one h, rfl, rfl⟩

/-- The nibbles `ns` are sent from count 0 on, and then state `next` is at count 0. -/
def SendsTo (st : MacSnd) (ns : List (BitVec 4)) (next : SndState) : Prop :=
  ∃ st', Sends st ns st' ∧ st'.s = next ∧ st'.c = 0

theorem SendsTo.append {s s' : SndState} (h : SendsTo st ns s)
    (h' : ∀ st', st'.s = s → st'.c = 0 → st'.d = st.d → SendsTo st' ms s') :
    SendsTo st (ns ++ ms) s' := by
  obtain ⟨st', hsends, hs, hc⟩ := h
  obtain ⟨st'', hsends', hs', hc'⟩ := h' st' hs hc hsends.d
  exact ⟨st'', hsends.append hsends', hs', hc'⟩

/-! ## The states -/

/-- A state that sends the vector `v` up to the nibble at count `last`. -/
theorem field_sends {s next : SndState} {w : Nat} {v : BitVec w} {last k : Nat}
    (hcycle : ∀ st' : MacSnd, st'.s = s → st'.d = st.d → st'.c ≤ last → 4 ∣ st'.c →
      ∀ i, st'.cycle i = st'.nibble (st'.slice v) 4 (st'.c == last) next)
    (hs : st.s = s) (hc : st.c = 0) (hlast : last + 4 = 4 * k) :
    SendsTo st (nibblesLE v k) next := by
  -- the first `m` nibbles lead to count `4 * m`
  have hmore : ∀ m, m < k → ∃ st', Sends st (nibblesLE v m) st' ∧ st'.s = s ∧ st'.c = 4 * m := by
    intro m
    induction m with
    | zero => exact fun _ => ⟨st, ⟨.nil st, rfl, rfl⟩, hs, by omega⟩
    | succ m ih =>
        intro hm
        obtain ⟨st', hsends, hs', hc'⟩ := ih (by omega)
        have hone := Sends.one (hcycle st' hs' hsends.d (by omega) ⟨m, hc'⟩)
        have hlt : (st'.c == last) = false := by simp; omega
        rw [hlt] at hone
        refine ⟨st'.nibble (st'.slice v) 4 false next, ?_, hs', show st'.c + 4 = 4 * (m + 1) by omega⟩
        rw [nibblesLE_succ, ← hc']
        exact hsends.append hone
  obtain ⟨m, rfl⟩ : ∃ m, k = m + 1 := ⟨k - 1, by omega⟩
  obtain ⟨st', hsends, hs', hc'⟩ := hmore m (by omega)
  have hone := Sends.one (hcycle st' hs' hsends.d (by omega) ⟨m, hc'⟩)
  have heq : (st'.c == last) = true := by simp; omega
  rw [heq] at hone
  refine ⟨st'.nibble (st'.slice v) 4 true next, ?_, rfl, rfl⟩
  rw [nibblesLE_succ, ← hc']
  exact hsends.append hone

/-- A state that sends the nibble `x` up to count `last`. -/
theorem constant_sends {s next : SndState} (x : BitVec 4) (last : Nat)
    (hcycle : ∀ st' : MacSnd, st'.s = s → ∀ i, st'.cycle i = st'.nibble x 1 (st'.c == last) next)
    (st : MacSnd) (hs : st.s = s) (hc : st.c = 0) :
    SendsTo st (List.replicate (last + 1) x) next := by
  have hmore : ∀ m, m ≤ last → ∃ st', Sends st (List.replicate m x) st' ∧ st'.s = s ∧ st'.c = m := by
    intro m
    induction m with
    | zero => exact fun _ => ⟨st, ⟨.nil st, rfl, rfl⟩, hs, hc⟩
    | succ m ih =>
        intro hm
        obtain ⟨st', hsends, hs', hc'⟩ := ih (by omega)
        have hone := Sends.one (hcycle st' hs')
        have hlt : (st'.c == last) = false := by simp; omega
        rw [hlt] at hone
        refine ⟨st'.nibble x 1 false next, ?_, hs', show st'.c + 1 = m + 1 by omega⟩
        rw [List.replicate_succ']
        exact hsends.append hone
  obtain ⟨st', hsends, hs', hc'⟩ := hmore last (Nat.le_refl _)
  have hone := Sends.one (hcycle st' hs')
  have heq : (st'.c == last) = true := by simp; omega
  rw [heq] at hone
  refine ⟨st'.nibble x 1 true next, ?_, rfl, rfl⟩
  rw [List.replicate_succ']
  exact hsends.append hone

/-- A state that sends a field of `d`. -/
theorem register_sends {s next : SndState} {w : Nat} {d : SndData} (get : SndData → BitVec w)
    (last k : Nat) (hcycle : ∀ st' : MacSnd, st'.s = s →
      ∀ i, st'.cycle i = st'.nibble (st'.slice (get st'.d)) 4 (st'.c == last) next)
    (hlast : last + 4 = 4 * k) (st : MacSnd) (hs : st.s = s) (hc : st.c = 0) (hd : st.d = d) :
    SendsTo st (nibblesLE (get d) k) next :=
  field_sends (fun st' hs' hd' _ _ i => by rw [hcycle st' hs' i, hd', hd]) hs hc hlast

theorem etherType_sends (st : MacSnd) (hs : st.s = .etherType) (hc : st.c = 0) :
    SendsTo st (nibbles [0x08, 0x00]) .ipIHL := by
  have hone (st' : MacSnd) (x : BitVec 4) (last : Bool)
      (h : ∀ i, st'.cycle i = st'.nibble x 1 last .ipIHL) := Sends.one h
  obtain ⟨s, crc, c, d, txd, txEn, ack⟩ := st
  obtain rfl : s = .etherType := hs
  obtain rfl : c = 0 := hc
  refine ⟨_, (hone _ 0x8 false fun _ => rfl).append ((hone _ 0x0 false fun _ => rfl).append
    ((hone _ 0x0 false fun _ => rfl).append (hone _ 0x0 true fun _ => rfl))), rfl, rfl⟩

theorem ipIHL_sends (st : MacSnd) (hs : st.s = .ipIHL) : SendsTo st [0x5] .ipVersion :=
  ⟨st.nibble 0x5 1 true .ipVersion, .one fun i => by simp only [cycle, hs], rfl, rfl⟩

theorem ipVersion_sends (st : MacSnd) (hs : st.s = .ipVersion) : SendsTo st [0x4] .ipDSCPECN :=
  ⟨st.nibble 0x4 1 true .ipDSCPECN, .one fun i => by simp only [cycle, hs], rfl, rfl⟩

/-- The three headers. -/
theorem header_sends (hs : st.s = .etherMACDST) (hc : st.c = 0) :
    SendsTo st (nibbles st.d.header) .dnsMsg := by
  have hconst : nibbles [0x45, 0x00] = [0x5] ++ [0x4] ++ List.replicate 2 0x0 := by decide
  have hzero : nibbles [0x00, 0x00] = List.replicate 4 0x0 := by decide
  have hproto : nibbles [0x11] = List.replicate 2 0x1 := by decide
  simp only [SndData.header, nibbles_append, nibbles_bytesLE, hconst, hzero, hproto,
    ← List.append_assoc]
  have hfield {s next : SndState} {w : Nat} (get : SndData → BitVec w) (last k : Nat)
      (hcycle : ∀ st' : MacSnd, st'.s = s →
        ∀ i, st'.cycle i = st'.nibble (st'.slice (get st'.d)) 4 (st'.c == last) next)
      (hlast : last + 4 = 4 * k) := register_sends (d := st.d) get last k hcycle hlast
  -- Ethernet
  have h : SendsTo st _ .etherMACSRC :=
    hfield (·.dstMAC) 44 12 (fun _ hs _ => by simp only [cycle, hs]) rfl st hs hc rfl
  replace h : SendsTo st _ .etherType :=
    h.append (hfield (·.srcMAC) 44 12 (fun _ hs _ => by simp only [cycle, hs]) rfl)
  replace h : SendsTo st _ .ipIHL := h.append fun st' hs hc _ => etherType_sends st' hs hc
  -- IP
  replace h : SendsTo st _ .ipVersion := h.append fun st' hs _ _ => ipIHL_sends st' hs
  replace h : SendsTo st _ .ipDSCPECN := h.append fun st' hs _ _ => ipVersion_sends st' hs
  replace h : SendsTo st _ .ipLength :=
    h.append fun st' hs hc _ => constant_sends 0x0 1 (fun _ hs _ => by simp only [cycle, hs]) st' hs hc
  replace h : SendsTo st _ .ipID :=
    h.append (hfield (·.ipLength) 12 4 (fun _ hs _ => by simp only [cycle, hs]) rfl)
  replace h : SendsTo st _ .ipFlagsFragment :=
    h.append fun st' hs hc _ => constant_sends 0x0 3 (fun _ hs _ => by simp only [cycle, hs]) st' hs hc
  replace h : SendsTo st _ .ipTTL :=
    h.append fun st' hs hc _ => constant_sends 0x0 3 (fun _ hs _ => by simp only [cycle, hs]) st' hs hc
  replace h : SendsTo st _ .ipProtocol :=
    h.append (hfield (·.ipTTL) 4 2 (fun _ hs _ => by simp only [cycle, hs]) rfl)
  replace h : SendsTo st _ .ipChecksum :=
    h.append fun st' hs hc _ => constant_sends 0x1 1 (fun _ hs _ => by simp only [cycle, hs]) st' hs hc
  replace h : SendsTo st _ .ipAddrSRC :=
    h.append (hfield (·.ipChecksum) 12 4 (fun _ hs _ => by simp only [cycle, hs]) rfl)
  replace h : SendsTo st _ .ipAddrDST :=
    h.append (hfield (·.srcIP) 28 8 (fun _ hs _ => by simp only [cycle, hs]) rfl)
  replace h : SendsTo st _ .udpPortSRC :=
    h.append (hfield (·.dstIP) 28 8 (fun _ hs _ => by simp only [cycle, hs]) rfl)
  -- UDP
  replace h : SendsTo st _ .udpPortDST :=
    h.append (hfield (·.srcPort) 12 4 (fun _ hs _ => by simp only [cycle, hs]) rfl)
  replace h : SendsTo st _ .udpLength :=
    h.append (hfield (·.dstPort) 12 4 (fun _ hs _ => by simp only [cycle, hs]) rfl)
  replace h : SendsTo st _ .udpChecksum :=
    h.append (hfield (·.udpLength) 12 4 (fun _ hs _ => by simp only [cycle, hs]) rfl)
  exact h.append (hfield (·.udpChecksum) 12 4 (fun _ hs _ => by simp only [cycle, hs]) rfl)

/-- The payload: up to the last nibble of the packet and to 18 bytes. -/
theorem dnsMsg_sends (hs : st.s = .dnsMsg) (hc : st.c = 0) {k : Nat}
    (hk : max st.d.dnsPktCnt 140 + 4 = 4 * k) : SendsTo st (nibblesLE st.d.dnsPkt k) .frameCheck := by
  refine field_sends (fun st' hs' hd hle _ i => ?_) hs hc hk
  have hlast : (decide (st.d.dnsPktCnt ≤ st'.c) && decide (140 ≤ st'.c)) =
      (st'.c == max st.d.dnsPktCnt 140) := by
    rw [Bool.eq_iff_iff]
    simp
    omega
  simp only [cycle, hs', hd, hlast]

/-- The rest of the preamble, and the delimiter. -/
theorem preamble_emits (k : Nat) (hs : st.s = .preamble) (hc : st.c + k = 14) :
    ∃ st', Emits cycle out st (wire (List.replicate (k + 1) 0x5 ++ [0xd])) st' ∧
      st'.s = .etherMACDST ∧ st'.c = 0 ∧ st'.d = st.d ∧ st'.crc = 0xffffffff := by
  induction k generalizing st with
  | zero =>
      have hstep : ∀ i, st.cycle i =
          { st with txd := 0x5, txEn := true, ack := false, c := 0, s := .startOfFrame } := by
        intro i
        simp only [cycle, hs, if_pos (show st.c = 14 by omega)]
      have hlast : ∀ i,
          cycle { st with txd := 0x5, txEn := true, ack := false, c := 0, s := .startOfFrame } i =
            { st with
              txd := 0xd, txEn := true, ack := false, crc := 0xffffffff, c := 0
              s := .etherMACDST } := fun _ => rfl
      exact ⟨_, (Emits.one hstep).append (.one hlast), rfl, rfl, rfl, rfl⟩
  | succ k ih =>
      have hstep : ∀ i, st.cycle i =
          { st with txd := 0x5, txEn := true, ack := false, c := st.c + 1 } := by
        intro i
        simp only [cycle, hs, if_neg (show st.c ≠ 14 by omega)]
      have hs' : ({ st with txd := 0x5, txEn := true, ack := false, c := st.c + 1 } : MacSnd).s =
          .preamble := hs
      obtain ⟨st', hemits, hst'⟩ := ih hs' (by simp; omega)
      exact ⟨st', .cons hstep hemits, hst'⟩

/-- The frame check sequence. -/
theorem frameCheck_emits (hs : st.s = .frameCheck) (hc : st.c = 0) :
    ∃ st', Emits cycle out st (wire (nibblesLE (~~~st.crc) 8)) st' ∧
      st'.s = .interframeGap ∧ st'.c = 0 := by
  have hnot (i : Nat) (hi : 4 * i + 4 ≤ 32) :
      ~~~(st.crc.extractLsb' (4 * i) 4) = (~~~st.crc).extractLsb' (4 * i) 4 := by
    apply BitVec.eq_of_getLsbD_eq
    intro j hj
    simp [hj, show 4 * i + j < 32 by omega]
  -- the first `m` nibbles lead to count `4 * m`
  have hmore : ∀ m, m < 8 → ∃ st', Emits cycle out st (wire (nibblesLE (~~~st.crc) m)) st' ∧
      st'.s = .frameCheck ∧ st'.c = 4 * m ∧ st'.crc = st.crc := by
    intro m
    induction m with
    | zero => exact fun _ => ⟨st, .nil st, hs, by omega, rfl⟩
    | succ m ih =>
        intro hm
        obtain ⟨st', hemits, hs', hc', hcrc⟩ := ih (by omega)
        have hx : ~~~(st'.slice st'.crc) = (~~~st.crc).extractLsb' (4 * m) 4 := by
          rw [slice, hc', hcrc, hnot m (by omega)]
        have hstep : ∀ i, st'.cycle i = { st' with
            txd := ~~~(st'.slice st'.crc), txEn := true, ack := false, c := st'.c + 4 } := by
          intro i
          simp only [cycle, hs', if_neg (show st'.c ≠ 28 by omega)]
        refine ⟨{ st' with
          txd := ~~~(st'.slice st'.crc), txEn := true, ack := false, c := st'.c + 4 },
          ?_, hs', show st'.c + 4 = 4 * (m + 1) by omega, hcrc⟩
        rw [nibblesLE_succ, wire_append, ← hx]
        exact hemits.append (.one hstep)
  obtain ⟨st', hemits, hs', hc', hcrc⟩ := hmore 7 (by omega)
  have hx : ~~~(st'.slice st'.crc) = (~~~st.crc).extractLsb' (4 * 7) 4 := by
    rw [slice, hc', hcrc, hnot 7 (by omega)]
  have hstep : ∀ i, st'.cycle i = { st' with
      txd := ~~~(st'.slice st'.crc), txEn := true, ack := false, c := 0, s := .interframeGap } := by
    intro i
    simp only [cycle, hs', if_pos (show st'.c = 28 by omega)]
  refine ⟨{ st' with
    txd := ~~~(st'.slice st'.crc), txEn := true, ack := false, c := 0, s := .interframeGap },
    ?_, rfl, rfl⟩
  rw [nibblesLE_succ, wire_append, ← hx]
  exact hemits.append (.one hstep)

/-- The gap between two frames. -/
theorem gap_emits (k : Nat) (hs : st.s = .interframeGap) (hc : st.c + k = 23) :
    ∃ st', Emits cycle out st (List.replicate (k + 1) (false, 0x0)) st' ∧ st'.s = .idle := by
  induction k generalizing st with
  | zero =>
      have hstep : ∀ i, st.cycle i =
          { st with txd := 0x0, txEn := false, ack := false, c := 0, s := .idle } := by
        intro i
        simp only [cycle, hs, if_pos (show st.c = 23 by omega)]
      exact ⟨_, .one hstep, rfl⟩
  | succ k ih =>
      have hstep : ∀ i, st.cycle i =
          { st with txd := 0x0, txEn := false, ack := false, c := st.c + 1 } := by
        intro i
        simp only [cycle, hs, if_neg (show st.c ≠ 23 by omega)]
      have hs' : ({ st with txd := 0x0, txEn := false, ack := false, c := st.c + 1 } : MacSnd).s =
          .interframeGap := hs
      obtain ⟨st', hemits, hst'⟩ := ih hs' (by simp; omega)
      exact ⟨st', .cons hstep hemits, hst'⟩

/-! ## The frame -/

/-- What is on the wire for `d`: the frame, and the gap behind it. -/
def frameOut (d : SndData) : List (Bool × BitVec 4) :=
  wire (MacRcv.delimiter ++ nibbles d.bytes ++ d.fcs) ++ List.replicate 24 (false, 0x0)

/-- The whole frame. -/
theorem frame_emits (hs : st.s = .preamble) (hc : st.c = 0) (hcnt : 8 ∣ st.d.dnsPktCnt + 4) :
    ∃ st', Emits cycle out st (frameOut st.d) st' ∧ st'.s = .idle := by
  obtain ⟨st₁, hpre, hs₁, hc₁, hd₁, hcrc₁⟩ := preamble_emits 14 hs (by omega)
  obtain ⟨k, hk⟩ := hcnt
  obtain ⟨m, hm⟩ : ∃ m, max st.d.dnsPktCnt 140 + 4 = 8 * m := by
    rcases Nat.le_total st.d.dnsPktCnt 140 with hle | hge
    · exact ⟨18, by omega⟩
    · exact ⟨k, by omega⟩
  have hbody : SendsTo st₁ (nibbles st.d.header ++ nibblesLE st.d.dnsPkt (2 * m)) .frameCheck := by
    rw [← hd₁]
    refine (header_sends hs₁ hc₁).append fun st' hs' hc' hd' => ?_
    rw [← hd']
    exact dnsMsg_sends hs' hc' (by rw [hd', hd₁]; omega)
  have hbytes : nibbles st.d.bytes = nibbles st.d.header ++ nibblesLE st.d.dnsPkt (2 * m) := by
    rw [SndData.bytes, nibbles_append, nibbles_bytesLE, show (max st.d.dnsPktCnt 140 + 4) / 8 = m by omega]
  rw [← hbytes] at hbody
  obtain ⟨st₂, hsends, hs₂, hc₂⟩ := hbody
  obtain ⟨st₃, hcheck, hs₃, hc₃⟩ := frameCheck_emits hs₂ hc₂
  obtain ⟨st₄, hgap, hs₄⟩ := gap_emits 23 hs₃ (by omega)
  have hfcs : nibblesLE (~~~st₂.crc) 8 = st.d.fcs := by
    rw [hsends.crc, hcrc₁, SndData.fcs]
  rw [hfcs] at hcheck
  refine ⟨st₄, ?_, hs₄⟩
  rw [frameOut, wire_append, wire_append]
  exact ((hpre.append hsends.emits).append hcheck).append hgap

/-- A request in `Idle`: two periods later the frame begins, and behind the gap the sender is
idle again, whatever the later inputs. -/
theorem snd_run (hs : st.s = .idle) (inp : Nat → SndIn) (hen : (inp 0).elSndEn = true)
    (hcnt : 8 ∣ (inp 1).elData.dnsPktCnt + 4) :
    let tr := trace cycle st inp
    let l := frameOut (inp 1).elData
    (List.range (l.length + 2)).map (fun t => out (tr (t + 1))) =
      (false, 0x0) :: (false, 0x0) :: l ∧ (tr (l.length + 2)).s = .idle := by
  intro tr l
  have h₁ : tr 1 = { st with txd := 0x0, txEn := false, ack := false, c := 0, s := .read } := by
    show st.cycle (inp 0) = _
    simp only [cycle, hs, hen, if_true]
  have h₂ : tr 2 = { tr 1 with
      txd := 0x0, txEn := false, d := (inp 1).elData, ack := true, s := .preamble } := by
    show (tr 1).cycle (inp 1) = _
    rw [h₁]
    rfl
  have htr : ∀ n, tr (n + 2) = trace cycle (tr 2) (fun t => inp (t + 2)) n := by
    intro n
    show trace cycle st inp (n + 2) = _
    rw [Nat.add_comm n 2, trace_add]
    simp only [Nat.add_comm 2]
    rfl
  have hs₂ : (tr 2).s = .preamble ∧ (tr 2).c = 0 ∧ (tr 2).d = (inp 1).elData := by
    rw [h₂, h₁]
    exact ⟨rfl, rfl, rfl⟩
  have hframe := @frame_emits (tr 2) hs₂.1 hs₂.2.1 (by rw [hs₂.2.2]; exact hcnt)
  rw [hs₂.2.2] at hframe
  obtain ⟨st', hemits, hidle⟩ := hframe
  constructor
  · rw [List.range_succ_eq_map, List.map_cons, List.map_map, List.range_succ_eq_map, List.map_cons,
      List.map_map]
    refine congrArg₂ _ (by rw [h₁]; rfl) (congrArg₂ _ (by show out (tr 2) = _; rw [h₂]; rfl) ?_)
    refine Eq.trans (List.map_congr_left fun t _ => ?_) (hemits.out_eq fun t => inp (t + 2))
    show out (tr (t + 1 + 2)) = _
    rw [htr]
  · rw [htr, hemits.trace_eq]
    exact hidle

/-- What a request for `d` puts on the wire, whatever the sender sent before and is asked for
later: two periods of silence, the delimiter, the frame `bytes`, eight nibbles of check
sequence, and a gap of 24 periods. -/
def Emitted (d : SndData) (bytes : List (BitVec 8)) : Prop :=
  ∃ fcs : List (BitVec 4), fcs.length = 8 ∧
    ∀ (st : MacSnd) (inp : Nat → SndIn), st.s = .idle → (inp 0).elSndEn = true → (inp 1).elData = d →
      (List.range (2 + 16 + 2 * bytes.length + 8 + 24)).map (fun k => out (trace cycle st inp (k + 1))) =
        List.replicate 2 (false, 0x0) ++ wire (MacRcv.delimiter ++ nibbles bytes ++ fcs) ++
          List.replicate 24 (false, 0x0)

theorem length_frameOut (d : SndData) :
    (frameOut d).length + 2 = 2 + 16 + 2 * d.bytes.length + 8 + 24 := by
  simp [frameOut, wire, MacRcv.delimiter, SndData.fcs]
  omega

theorem emitted_bytes {d : SndData} (h : 8 ∣ d.dnsPktCnt + 4) : Emitted d d.bytes := by
  refine ⟨d.fcs, length_nibblesLE _ _, fun st inp hs hen hd => ?_⟩
  have hrun := (snd_run hs inp hen (by rw [hd]; exact h)).1
  rw [hd, length_frameOut] at hrun
  exact hrun

end MacSnd

end DnsAdtm.Hw
