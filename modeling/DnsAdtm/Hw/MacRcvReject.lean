/-
# `Hw.MacRcvReject` — what `mac_rcv` makes of a frame it rejects

A header check that fails sends the receiver back to `Preamble` in the middle of the burst,
and it listens for the next delimiter at once.  `passes` is the table of the checks by the
nibble's position in the frame, `afterDelimiter` the rule by which the receiver takes a
delimiter.

    header_step         one header nibble, by the table
    Heard, heard_step   what was received before, as read from the state: when `el_dv` comes,
                        a delimiter and a whole header that passes lie behind
    Alike, alike_step   two receivers that differ only in registers still to be written

Behind the rejecting nibble the rest of the burst is received as a burst of its own.
-/
import DnsAdtm.Hw.MacRcvFrame

namespace DnsAdtm.Hw

open Machine

/-- Behind the header checks. -/
def RcvState.inBody : RcvState → Bool
  | .ipChecksum | .ipAddrSRC | .ipAddrDST | .ipOptions
  | .udpPortSRC | .udpPortDST | .udpLength | .udpChecksum
  | .dnsMsgRecord | .dnsMsgDiscard | .notify => true
  | _ => false

namespace MacRcv

variable {st st' : MacRcv} {ns ms : List (BitVec 4)}

/-! ## The header checks -/

/-- The check on nibble `n` of a frame, counted from behind the delimiter. -/
def passes (n : Nat) (x : BitVec 4) : Bool :=
  if n < 24 then true               -- the two MACs
  else if n = 24 then x == 0x8      -- EtherType 0x0800
  else if n < 28 then x == 0x0
  else if n = 28 then decide (0x5 ≤ x)  -- IHL
  else if n = 29 then x == 0x4      -- version
  else if n < 40 then true          -- DSCP and ECN, length, ID
  else if n < 44 then x == 0x0      -- flags and fragment offset
  else if n < 46 then true          -- TTL
  else if n < 48 then x == 0x1      -- protocol 17
  else true

/-- Every nibble of the frame received so far passes. -/
def HeaderOk (frame : List (BitVec 4)) : Prop :=
  ∀ n, ∀ h : n < frame.length, passes n frame[n] = true

instance (frame : List (BitVec 4)) : Decidable (HeaderOk frame) :=
  inferInstanceAs (Decidable (∀ n, ∀ h : n < frame.length, passes n frame[n] = true))

/-- What follows the first delimiter, after `n` fives: fifteen fives, counted from the start or
from the last nibble that broke a count, and a d. -/
def afterDelimiter : Nat → List (BitVec 4) → Option (List (BitVec 4))
  | _, [] => none
  | n, x :: ns =>
    if n = 15 then if x = 0xd then some ns else afterDelimiter 0 ns
    else if x = 0x5 then afterDelimiter (n + 1) ns
    else afterDelimiter 0 ns

theorem HeaderOk.concat (h : HeaderOk ns) {x : BitVec 4} (hx : passes ns.length x = true) :
    HeaderOk (ns ++ [x]) := by
  intro n hn
  rcases Nat.lt_or_ge n ns.length with hlt | hge
  · rw [List.getElem_append_left hlt]
    exact h n hlt
  · have heq : n = ns.length := by simp at hn; omega
    subst heq
    simpa using hx

/-- A frame that fails, at its first nibble that does. -/
theorem exists_reject {frame : List (BitVec 4)} (h : ¬ HeaderOk frame) :
    ∃ header x rest, frame = header ++ x :: rest ∧ HeaderOk header ∧
      passes header.length x = false := by
  induction frame using List.reverseRecOn with
  | nil => exact absurd (fun n hn => absurd hn (Nat.not_lt_zero n)) h
  | append_singleton frame x ih =>
      by_cases hframe : HeaderOk frame
      · exact ⟨frame, x, [], rfl, hframe, by simpa using fun hx => h (hframe.concat hx)⟩
      · obtain ⟨header, y, rest, rfl, hheader, hy⟩ := ih hframe
        exact ⟨header, y, rest ++ [x], by simp, hheader, hy⟩

/-- State and count in which nibble `n` of a frame is met. -/
def headerState (n : Nat) : RcvState × Nat :=
  if n < 12 then (.etherMACDST, 4 * n)
  else if n < 24 then (.etherMACSRC, 4 * (n - 12))
  else if n < 28 then (.etherType, n - 24)
  else if n = 28 then (.ipIHL, 0)
  else if n = 29 then (.ipVersion, 0)
  else if n < 32 then (.ipDSCPECN, n - 30)
  else if n < 36 then (.ipLength, n - 32)
  else if n < 40 then (.ipID, n - 36)
  else if n < 44 then (.ipFlagsFragment, n - 40)
  else if n < 46 then (.ipTTL, n - 44)
  else if n < 48 then (.ipProtocol, n - 46)
  else (.ipChecksum, 0)

/-- One header nibble: on to the next, or back to the preamble. -/
theorem header_step {n : Nat} (hn : n < 48) (h : (st.s, st.c) = headerState n) (x : BitVec 4) :
    ((st.nibble x).s, (st.nibble x).c) =
      (if passes n x then headerState (n + 1) else (.preamble, 0)) ∧ (st.nibble x).elDv = false := by
  obtain ⟨s, c, ipc, udpc, d, elDv⟩ := st
  interval_cases n <;> simp [headerState] at h <;> obtain ⟨rfl, rfl⟩ := h <;>
    simp [nibble, passes, headerState] <;> split_ifs <;> simp_all

/-- One nibble behind the header: only `Notify` raises `el_dv`, and leaves the frame. -/
theorem body_step (h : st.s.inBody = true) (x : BitVec 4) :
    if st.s = .notify then (st.nibble x).elDv = true ∧ (st.nibble x).s = .preamble ∧ (st.nibble x).c = 0
    else (st.nibble x).elDv = false ∧ (st.nibble x).s.inBody = true := by
  obtain ⟨s, c, ipc, udpc, d, elDv⟩ := st
  cases s <;> simp [RcvState.inBody] at h <;> simp [nibble] <;> split_ifs <;> simp [RcvState.inBody]

/-! ## What lies behind -/

/-- A delimiter and a header that passes are behind the receiver. -/
def Passed (ns : List (BitVec 4)) : Prop :=
  ∃ pre frame, ns = pre ++ delimiter ++ frame ∧ 48 ≤ frame.length ∧ HeaderOk frame

/-- What the nibbles `ns` of a burst were, as the state remembers them. -/
inductive Heard (ns : List (BitVec 4)) (st : MacRcv) : Prop
  | preamble (pre : List (BitVec 4)) : st.s = .preamble → st.c ≤ 14 →
      ns = pre ++ List.replicate st.c 0x5 → Heard ns st
  | startOfFrame (pre : List (BitVec 4)) : st.s = .startOfFrame → st.c = 0 →
      ns = pre ++ List.replicate 15 0x5 → Heard ns st
  | header (pre frame : List (BitVec 4)) : (st.s, st.c) = headerState frame.length →
      frame.length < 48 → ns = pre ++ delimiter ++ frame → HeaderOk frame → Heard ns st
  | body : st.s.inBody = true → Passed ns → Heard ns st

/-- Nothing is remembered. -/
theorem Heard.restart (hs : st.s = .preamble) (hc : st.c = 0) : Heard ns st :=
  .preamble ns hs (by omega) (by rw [hc]; simp)

theorem heard_step (h : Heard ns st) (x : BitVec 4) :
    Heard (ns ++ [x]) (st.nibble x) ∧ ((st.nibble x).elDv = true → Passed ns) := by
  cases h with
  | preamble pre hs hc hns =>
      by_cases hx : x = 0x5
      · subst hx
        rcases Nat.lt_or_ge st.c 14 with hlt | hge
        · have hstep : st.nibble 0x5 = { st with c := st.c + 1, elDv := false } := by
            simp [nibble, hs, show st.c ≠ 14 by omega]
          rw [hstep]
          refine ⟨.preamble pre hs hlt ?_, nofun⟩
          rw [hns, List.replicate_succ', List.append_assoc]
        · have hstep : st.nibble 0x5 = { st with c := 0, s := .startOfFrame, elDv := false } := by
            simp [nibble, hs, show st.c = 14 by omega]
          rw [hstep]
          refine ⟨.startOfFrame pre rfl rfl ?_, nofun⟩
          rw [hns, show st.c = 14 by omega, List.append_assoc]
          rfl
      · have hstep : st.nibble x = { st with c := 0, elDv := false } := by
          simp only [nibble, hs, if_neg hx]
        rw [hstep]
        exact ⟨.restart hs rfl, nofun⟩
  | startOfFrame pre hs hc hns =>
      by_cases hx : x = 0xd
      · have hstep : st.nibble x = { st with s := .etherMACDST, elDv := false } := by
          simp only [nibble, hs, if_pos hx]
        rw [hstep]
        refine ⟨.header pre [] (by simp [headerState, hc]) (by decide) ?_ nofun, nofun⟩
        rw [hns, hx, List.append_nil, List.append_assoc]
        rfl
      · have hstep : st.nibble x = { st with s := .preamble, elDv := false } := by
          simp only [nibble, hs, if_neg hx]
        rw [hstep]
        exact ⟨.restart rfl hc, nofun⟩
  | header pre frame hstate hlen hns hok =>
      obtain ⟨hnext, hlow⟩ := header_step hlen hstate x
      refine ⟨?_, fun hhigh => by rw [hlow] at hhigh; exact absurd hhigh nofun⟩
      have happ : ns ++ [x] = pre ++ delimiter ++ (frame ++ [x]) := by
        rw [hns, List.append_assoc _ frame]
      by_cases hx : passes frame.length x = true
      · rw [if_pos hx] at hnext
        have hok' := hok.concat hx
        rcases Nat.lt_or_ge (frame.length + 1) 48 with hlt | hge
        · exact .header pre (frame ++ [x]) (by simpa using hnext) (by simpa using hlt) happ hok'
        · refine .body ?_ ⟨pre, frame ++ [x], happ, by simpa using hge, hok'⟩
          rw [show frame.length + 1 = 48 by omega] at hnext
          rw [show (st.nibble x).s = .ipChecksum from congrArg Prod.fst hnext]
          rfl
      · rw [if_neg hx] at hnext
        exact .restart (congrArg Prod.fst hnext) (congrArg Prod.snd hnext)
  | body hs hpassed =>
      refine ⟨?_, fun _ => hpassed⟩
      have hstep := body_step hs x
      split at hstep
      · exact .restart hstep.2.1 hstep.2.2
      · obtain ⟨pre, frame, hns, hlen, hok⟩ := hpassed
        refine .body hstep.2 ⟨pre, frame ++ [x], by rw [hns, List.append_assoc _ frame],
          by simp; omega, hok.concat ?_⟩
        simp only [passes]
        split_ifs <;> first | rfl | omega

/-- Along a burst: what was heard is remembered. -/
theorem burst_heard (hs : st.s = .preamble) (hc : st.c = 0) (ns : List (BitVec 4)) :
    Heard ns (run cycle st (burst ns)) := by
  induction ns using List.reverseRecOn with
  | nil => exact .restart hs hc
  | append_singleton ns x ih =>
      rw [burst_append, run_append]
      exact (heard_step ih x).1

/-- Behind the first nibble, `el_dv` comes only behind a header that passes. -/
theorem burst_passed (hs : st.s = .preamble) (hc : st.c = 0) {ns : List (BitVec 4)} (hns : ns ≠ [])
    (hhigh : (run cycle st (burst ns)).elDv = true) : ∃ ms x, ns = ms ++ [x] ∧ Passed ms := by
  rcases List.eq_nil_or_concat ns with rfl | ⟨ms, x, rfl⟩
  · exact absurd rfl hns
  · rw [List.concat_eq_append, burst_append, run_append] at hhigh
    exact ⟨ms, x, List.concat_eq_append, (heard_step (burst_heard hs hc ms) x).2 hhigh⟩

/-! ## Behind the rejecting nibble -/

/-- The IHL of the frame has been read. -/
def knowsIHL : RcvState → Bool
  | .ipVersion | .ipDSCPECN | .ipLength | .ipID | .ipFlagsFragment | .ipTTL | .ipProtocol => true
  | s => s.inBody

/-- The UDP length is being read or has been. -/
def knowsLength : RcvState → Bool
  | .udpLength | .udpChecksum | .dnsMsgRecord | .dnsMsgDiscard | .notify => true
  | _ => false

/-- The receivers differ only in what they will write before they read it. -/
structure Alike (st st' : MacRcv) : Prop where
  s : st.s = st'.s
  c : st.c = st'.c
  elDv : st.elDv = st'.elDv
  ihl : knowsIHL st.s = true → st.d.ipHeaderLength = st'.d.ipHeaderLength
  udpc : knowsLength st.s = true → st.udpc = st'.udpc

theorem alike_step (h : Alike st st') (x : BitVec 4) : Alike (st.nibble x) (st'.nibble x) := by
  obtain ⟨s, c, ipc, udpc, d, elDv⟩ := st
  obtain ⟨s', c', ipc', udpc', d', elDv'⟩ := st'
  obtain ⟨rfl, rfl, rfl, hihl, hudpc⟩ := h
  cases s
  -- the states whose branch reads one of the two registers
  case ipAddrDST =>
    have hihl' : d.ipHeaderLength = d'.ipHeaderLength := hihl rfl
    simp only [nibble, hihl']
    split_ifs <;> exact ⟨rfl, rfl, rfl, fun _ => rfl, nofun⟩
  case ipOptions =>
    have hihl' : d.ipHeaderLength = d'.ipHeaderLength := hihl rfl
    simp only [nibble, hihl']
    split_ifs <;> exact ⟨rfl, rfl, rfl, fun _ => hihl', nofun⟩
  case udpLength | udpChecksum | dnsMsgRecord | dnsMsgDiscard =>
    have hihl' : d.ipHeaderLength = d'.ipHeaderLength := hihl rfl
    have hudpc' : udpc = udpc' := hudpc rfl
    simp only [nibble, hudpc']
    split_ifs <;> exact ⟨rfl, rfl, rfl, fun _ => hihl', fun _ => rfl⟩
  all_goals
    simp only [nibble]
    (try split_ifs) <;> refine ⟨rfl, rfl, rfl, ?_, ?_⟩ <;>
      first | exact fun _ => rfl | exact fun _ => hihl rfl | exact nofun

theorem alike_run (h : Alike st st') (ns : List (BitVec 4)) :
    Alike (run cycle st (burst ns)) (run cycle st' (burst ns)) := by
  induction ns generalizing st st' with
  | nil => exact h
  | cons x ns ih => exact ih (alike_step h x)

/-- The receiver waits for a delimiter and has counted `n` fives. -/
inductive Listening : Nat → MacRcv → Prop
  | preamble {n : Nat} {st : MacRcv} : n ≤ 14 → st.s = .preamble → st.c = n → Listening n st
  | startOfFrame {st : MacRcv} : st.s = .startOfFrame → st.c = 0 → Listening 15 st

/-- One nibble of the search: it ends in the frame, or goes on. -/
theorem listening_step {n : Nat} {frame : List (BitVec 4)} {x : BitVec 4} (hst : Listening n st)
    (h : afterDelimiter n (x :: ns) = some frame) :
    (st.nibble x).elDv = false ∧
      ((st.nibble x).s = .etherMACDST ∧ (st.nibble x).c = 0 ∧ ns = frame ∨
        ∃ m, Listening m (st.nibble x) ∧ afterDelimiter m ns = some frame) := by
  rw [afterDelimiter] at h
  cases hst with
  | preamble hn hs hc =>
      rw [if_neg (by omega)] at h
      by_cases hx : x = 0x5
      · rw [if_pos hx] at h
        rcases Nat.lt_or_ge n 14 with hlt | hge
        · have hstep : st.nibble x = { st with c := st.c + 1, elDv := false } := by
            simp [nibble, hs, hx, show st.c ≠ 14 by omega]
          rw [hstep]
          exact ⟨rfl, .inr ⟨n + 1, .preamble hlt hs (by simp [hc]), h⟩⟩
        · have hstep : st.nibble x = { st with c := 0, s := .startOfFrame, elDv := false } := by
            simp [nibble, hs, hx, show st.c = 14 by omega]
          rw [show n + 1 = 15 by omega] at h
          rw [hstep]
          exact ⟨rfl, .inr ⟨15, .startOfFrame rfl rfl, h⟩⟩
      · rw [if_neg hx] at h
        have hstep : st.nibble x = { st with c := 0, elDv := false } := by
          simp only [nibble, hs, if_neg hx]
        rw [hstep]
        exact ⟨rfl, .inr ⟨0, .preamble (Nat.zero_le _) hs rfl, h⟩⟩
  | startOfFrame hs hc =>
      rw [if_pos rfl] at h
      by_cases hx : x = 0xd
      · rw [if_pos hx] at h
        have hstep : st.nibble x = { st with s := .etherMACDST, elDv := false } := by
          simp only [nibble, hs, if_pos hx]
        rw [hstep]
        exact ⟨rfl, .inl ⟨rfl, hc, Option.some.inj h⟩⟩
      · rw [if_neg hx] at h
        have hstep : st.nibble x = { st with s := .preamble, elDv := false } := by
          simp only [nibble, hs, if_neg hx]
        rw [hstep]
        exact ⟨rfl, .inr ⟨0, .preamble (Nat.zero_le _) rfl hc, h⟩⟩

/-- Up to the first delimiter. -/
theorem delimiter_reads {n : Nat} {frame : List (BitVec 4)} (hst : Listening n st)
    (h : afterDelimiter n ns = some frame) :
    ∃ pre st', ns = pre ++ frame ∧ Reads st pre st' ∧ (st'.s, st'.c) = headerState 0 := by
  induction ns generalizing n st with
  | nil => exact absurd h nofun
  | cons x ns ih =>
      obtain ⟨hlow, ⟨hs, hc, hns⟩ | ⟨m, hm, hrest⟩⟩ := listening_step hst h
      · exact ⟨[x], st.nibble x, by rw [hns]; rfl, Reads.one rfl hlow, by rw [hs, hc]; rfl⟩
      · obtain ⟨pre, st', hns, hreads, hst'⟩ := ih hm hrest
        exact ⟨x :: pre, st', by rw [hns, List.cons_append], .cons hlow hreads, hst'⟩

/-- A header up to its first nibble that fails. -/
theorem header_reads {header : List (BitVec 4)} (hst : (st.s, st.c) = headerState 0)
    (hok : HeaderOk header) (hlen : header.length ≤ 48) :
    ∃ st', Reads st header st' ∧ (st'.s, st'.c) = headerState header.length := by
  induction header using List.reverseRecOn with
  | nil => exact ⟨st, .nil, hst⟩
  | append_singleton header x ih =>
      rw [List.length_append, List.length_singleton] at hlen ⊢
      have hinit : HeaderOk header := fun n hn => by
        have := hok n (by simp; omega)
        rwa [List.getElem_append_left hn] at this
      have hx : passes header.length x = true := by simpa using hok header.length (by simp)
      obtain ⟨st', hreads, hst'⟩ := ih hinit (by omega)
      obtain ⟨hnext, hlow⟩ := header_step (by omega) hst' x
      rw [if_pos hx] at hnext
      exact ⟨st'.nibble x, hreads.append (Reads.one rfl hlow), hnext⟩

/-- Only the first 48 nibbles are checked. -/
theorem length_lt_of_passes_eq_false {n : Nat} {x : BitVec 4} (h : passes n x = false) : n < 48 := by
  by_contra hn
  simp only [passes] at h
  split_ifs at h <;> omega

/-- A frame that fails a header check is not notified, and the nibbles behind the failing one
are received as a burst of their own: `el_dv` comes there exactly as after a gap, so only
behind a delimiter of their own with a header that passes. -/
theorem mac_rcv_rejects (hist : List RxIn) (hgap : ∀ i ∈ hist.getLast?, i.dv = false)
    (ns frame : List (BitVec 4)) (hfirst : afterDelimiter 0 ns = some frame)
    (hbad : ¬ HeaderOk frame) :
    ∃ pre header x rest, ns = pre ++ header ++ x :: rest ∧ frame = header ++ x :: rest ∧
      HeaderOk header ∧ passes header.length x = false ∧
      (∀ k ≤ (pre ++ header).length + 1,
        (run cycle (run cycle init hist) (burst (ns.take k))).elDv = false) ∧
      ∀ k, (run cycle (run cycle init hist)
            (burst (ns.take ((pre ++ header).length + 1 + k)))).elDv =
          (run cycle init (burst (rest.take k))).elDv ∧
        ((run cycle init (burst (rest.take k))).elDv = true →
          ∃ ms y, rest.take k = ms ++ [y] ∧ Passed ms) := by
  obtain ⟨header, x, rest, rfl, hok, hx⟩ := exists_reject hbad
  have hlen := length_lt_of_passes_eq_false hx
  obtain ⟨hs, hc, hlow⟩ := idle_of_gap hist hgap
  generalize run cycle init hist = st at hs hc hlow ⊢
  obtain ⟨pre, st₁, rfl, hpre, hst₁⟩ := delimiter_reads (.preamble (Nat.zero_le _) hs hc) hfirst
  obtain ⟨st₂, hheader, hst₂⟩ := header_reads hst₁ hok (by omega)
  obtain ⟨hnext, hquiet⟩ := header_step hlen hst₂ x
  rw [hx] at hnext
  have hreads : Reads st (pre ++ header ++ [x]) (st₂.nibble x) :=
    (hpre.append hheader).append (Reads.one rfl hquiet)
  have hcut : pre ++ (header ++ x :: rest) = pre ++ header ++ [x] ++ rest := by simp
  have hlength : (pre ++ header ++ [x]).length = (pre ++ header).length + 1 := List.length_append
  refine ⟨pre, header, x, rest, by simp, rfl, hok, hx, fun k hk => ?_, fun k => ⟨?_, ?_⟩⟩
  · rcases Nat.eq_zero_or_pos k with rfl | hpos
    · exact hlow
    · rw [hcut, List.take_append_of_le_length (by omega)]
      exact hreads.low hpos (by omega)
  · have halike : Alike (st₂.nibble x) init := by
      have hs₃ : (st₂.nibble x).s = .preamble := congrArg Prod.fst hnext
      refine ⟨hs₃, congrArg Prod.snd hnext, hquiet, ?_, ?_⟩ <;> rw [hs₃] <;> exact nofun
    rw [hcut, ← hlength, List.take_length_add_append, burst_append, run_append, hreads.run_eq]
    exact (alike_run halike _).elDv
  · intro hhigh
    refine burst_passed rfl rfl (fun hnil => ?_) hhigh
    rw [hnil] at hhigh
    cases hhigh

/-- A frame of EtherType 0x0806 with a UDP frame for its payload. -/
def nestedFrame : List (BitVec 4) :=
  nibbles (List.replicate 12 0x00 ++ [0x08, 0x06]) ++ nibbles innerFrame.bytes ++ [0x0]
where
  innerFrame : UdpFrame := {
    dstMAC := Vector.replicate 6 0x02
    srcMAC := Vector.replicate 6 0x04
    ihl := 5
    ihl_range := ihl_five
    dscpEcn := 0x00
    ipLength := #v[0x00, 0x1d]
    ipID := #v[0x00, 0x00]
    ttl := 0x40
    ipChecksum := #v[0x00, 0x00]
    srcIP := #v[0x0a, 0x00, 0x00, 0x01]
    dstIP := #v[0x0a, 0x00, 0x00, 0x02]
    options := Vector.replicate _ 0x00
    srcPort := dnsPort
    dstPort := dnsPort
    udpChecksum := #v[0x00, 0x00]
    payload := [0xff]
    payload_range := by decide }

/-- The frame inside a rejected frame is notified. -/
theorem mac_rcv_notifies_nested :
    ¬ ∀ (hist : List RxIn) (ns frame : List (BitVec 4)), (∀ i ∈ hist.getLast?, i.dv = false) →
      afterDelimiter 0 ns = some frame → ¬ HeaderOk frame →
      ∀ k, (run cycle (run cycle init hist) (burst (ns.take k))).elDv = false := by
  intro h
  have hlow := h [] (delimiter ++ nestedFrame) nestedFrame nofun (by decide +kernel) (by decide +kernel)
    (delimiter ++ nestedFrame).length
  exact absurd hlow (by decide +kernel)

/-- The nested frame is received as if it had come alone. -/
theorem mac_rcv_rejects_nested :
    ∃ pre header x rest, delimiter ++ nestedFrame = pre ++ header ++ x :: rest ∧
      nestedFrame = header ++ x :: rest ∧ HeaderOk header ∧ passes header.length x = false ∧
      (∀ k ≤ (pre ++ header).length + 1,
        (run cycle init (burst ((delimiter ++ nestedFrame).take k))).elDv = false) ∧
      ∀ k, (run cycle init
            (burst ((delimiter ++ nestedFrame).take ((pre ++ header).length + 1 + k)))).elDv =
          (run cycle init (burst (rest.take k))).elDv ∧
        ((run cycle init (burst (rest.take k))).elDv = true →
          ∃ ms y, rest.take k = ms ++ [y] ∧ Passed ms) :=
  mac_rcv_rejects [] nofun (delimiter ++ nestedFrame) nestedFrame (by decide +kernel)
    (by decide +kernel)

end MacRcv

end DnsAdtm.Hw
