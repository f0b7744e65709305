/-
# `Hw.MacRcvRun` — what the states of `mac_rcv` do to a run of nibbles

Each state of the receiver eats a run of nibbles and hands the rest to the next.
`Reads st ns st'` says that the nibbles `ns` take `st` to `st'` without `el_dv`; the runs
of the single states are put together by `Reads.append`:

    preamble_reads   the preamble and the start-of-frame delimiter
    Store.reads      an address or a port, nibble by nibble into its field
    Skip.reads       nibbles that are only counted
    record_reads     the payload: kept up to bit 1023, then only counted
-/
import DnsAdtm.Hw.MacRcv

namespace DnsAdtm.Hw

open Machine

namespace MacRcv

variable {st st' st'' : MacRcv} {ns ms : List (BitVec 4)}

/-- The nibbles `ns` as inputs with `E_RX_DV = '1'`. -/
def burst (ns : List (BitVec 4)) : List RxIn := ns.map (⟨true, ·⟩)

theorem burst_append (ns ms : List (BitVec 4)) : burst (ns ++ ms) = burst ns ++ burst ms :=
  List.map_append

/-- The nibbles `ns` take `st` to `st'`, and `el_dv` stays low. -/
inductive Reads : MacRcv → List (BitVec 4) → MacRcv → Prop
  | nil {st : MacRcv} : Reads st [] st
  | cons {st st' : MacRcv} {x : BitVec 4} {ns : List (BitVec 4)} :
      (st.nibble x).elDv = false → Reads (st.nibble x) ns st' → Reads st (x :: ns) st'

namespace Reads

theorem append (h : Reads st ns st') (h' : Reads st' ms st'') : Reads st (ns ++ ms) st'' := by
  induction h with
  | nil => exact h'
  | cons hlow _ ih => exact .cons hlow (ih h')

/-- One nibble. -/
theorem one {x : BitVec 4} (h : st.nibble x = st') (hlow : st'.elDv = false) : Reads st [x] st' := by
  subst h
  exact .cons hlow .nil

theorem trans_eq (h : Reads st ns st') (hst : st' = st'') : Reads st ns st'' := hst ▸ h

@[simp] theorem nil_iff : Reads st [] st' ↔ st = st' :=
  ⟨fun h => by cases h; rfl, fun h => h ▸ .nil⟩

@[simp] theorem cons_iff {x : BitVec 4} :
    Reads st (x :: ns) st' ↔ (st.nibble x).elDv = false ∧ Reads (st.nibble x) ns st' :=
  ⟨fun h => by cases h with | cons hlow h => exact ⟨hlow, h⟩, fun h => .cons h.1 h.2⟩

/-- The nibbles as inputs of the machine. -/
theorem run_eq (h : Reads st ns st') : run cycle st (burst ns) = st' := by
  induction h with
  | nil => rfl
  | cons _ _ ih => exact ih

/-- `el_dv` is low after each of the nibbles. -/
theorem low (h : Reads st ns st') {k : Nat} (hpos : 0 < k) (hk : k ≤ ns.length) :
    (run cycle st (burst (ns.take k))).elDv = false := by
  induction h generalizing k with
  | nil => simp at hk; omega
  | @cons st st' x ns hlow _ ih =>
      cases k with
      | zero => omega
      | succ k =>
          rw [List.take_succ_cons, burst, List.map_cons, run_cons]
          cases k with
          | zero => exact hlow
          | succ k => exact ih (Nat.succ_pos k) (by simpa using hk)

end Reads

/-! ## Preamble -/

/-- The start-of-frame delimiter with its preamble, as nibbles. -/
def delimiter : List (BitVec 4) := List.replicate 15 0x5 ++ [0xd]

theorem fives_reads (n : Nat) (hs : st.s = .preamble) (hc : st.c + n ≤ 14) :
    Reads st (List.replicate n 0x5) { st with c := st.c + n, elDv := st.elDv && n == 0 } := by
  induction n generalizing st with
  | zero => exact Reads.nil.trans_eq (by simp)
  | succ n ih =>
      have hstep : st.nibble 0x5 = { st with c := st.c + 1, elDv := false } := by
        simp [nibble, hs, show st.c ≠ 14 by omega]
      refine .cons (by rw [hstep]) ?_
      rw [hstep]
      have hs' : ({ st with c := st.c + 1, elDv := false } : MacRcv).s = .preamble := hs
      exact (ih hs' (by simp; omega)).trans_eq (by simp; omega)

theorem preamble_reads (hs : st.s = .preamble) (hc : st.c = 0) :
    Reads st delimiter { st with s := .etherMACDST, c := 0, elDv := false } := by
  have hfives := fives_reads 14 hs (by omega)
  have hlast : Reads { st with c := st.c + 14, elDv := st.elDv && 14 == 0 } [0x5, 0xd]
      { st with s := .etherMACDST, c := 0, elDv := false } := by
    simp [nibble, hs, hc]
  exact hfives.append hlast

/-! ## Fields -/

/-- A state that stores a field of `w` bits, and what it does behind the last nibble. -/
structure Store (w : Nat) where
  s : RcvState
  get : RcvData → BitVec w
  set : BitVec w → RcvData → RcvData
  exit : MacRcv → MacRcv
  more : ∀ (st : MacRcv) x, st.s = s → st.c + 4 < w → st.nibble x =
    { st with d := set (setSlice (get st.d) st.c x) st.d, c := st.c + 4, elDv := false }
  last : ∀ (st : MacRcv) x, st.s = s → st.c + 4 = w → st.nibble x =
    exit { st with d := set (setSlice (get st.d) st.c x) st.d, c := 0, elDv := false }
  get_set : ∀ v d, get (set v d) = v
  set_set : ∀ v v' d, set v (set v' d) = set v d
  set_get : ∀ d, set (get d) d = d
  quiet : ∀ st : MacRcv, (exit st).elDv = st.elDv

/-- The rest of a field, by induction on its nibbles; `ms` are those stored already. -/
theorem Store.reads_from {w : Nat} (S : Store w) (d₀ : RcvData) (ns ms : List (BitVec 4))
    (v : BitVec w) (hs : st.s = S.s) (hc : st.c = 4 * ms.length) (hd : st.d = S.set v d₀)
    (hv : Filled (S.get d₀) ms v) (hlen : w = 4 * (ms.length + ns.length)) (hns : ns ≠ []) :
    Reads st ns (S.exit { st with
      d := S.set (field (nibbleAt (ms ++ ns)) 0 w) d₀, c := 0, elDv := false }) := by
  induction ns generalizing st ms v with
  | nil => exact absurd rfl hns
  | cons x ns ih =>
      rw [List.length_cons] at hlen
      have hfill := hv.concat x
      have hput : S.set (setSlice (S.get st.d) st.c x) st.d =
          S.set (setSlice v (4 * ms.length) x) d₀ := by
        rw [hd, S.get_set, S.set_set, hc]
      cases ns with
      | nil =>
          refine Reads.one ?_ (by rw [S.quiet])
          rw [S.last st x hs (by simp at hlen; omega), hput, hfill.eq (by simp at hlen ⊢; omega)]
      | cons y ns =>
          rw [List.length_cons] at hlen
          have hstep := S.more st x hs (by omega)
          refine .cons (by rw [hstep]) ?_
          rw [hstep, hput, List.append_cons]
          have hs' : ({ st with
              d := S.set (setSlice v (4 * ms.length) x) d₀, c := st.c + 4, elDv := false } :
              MacRcv).s = S.s := hs
          exact (ih (ms ++ [x]) (setSlice v (4 * ms.length) x) hs' (by simp [hc]; omega) rfl hfill
            (by simp; omega) (by simp)).trans_eq rfl

/-- A field, from its first nibble to its last. -/
theorem Store.reads {w : Nat} (S : Store w) (ns : List (BitVec 4)) (hs : st.s = S.s) (hc : st.c = 0)
    (hlen : w = 4 * ns.length) (hns : ns ≠ []) :
    Reads st ns (S.exit { st with d := S.set (field (nibbleAt ns) 0 w) st.d, c := 0, elDv := false }) :=
  S.reads_from st.d ns [] (S.get st.d) hs hc (S.set_get st.d).symm (.nil _) (by simpa using hlen) hns

def dstMACStore : Store 48 where
  s := .etherMACDST
  get := (·.dstMAC)
  set v d := { d with dstMAC := v }
  exit st := { st with s := .etherMACSRC }
  more st x hs hc := by simp [nibble, hs, show st.c ≠ 44 by omega]
  last st x hs hc := by simp [nibble, hs, show st.c = 44 by omega]
  get_set _ _ := rfl
  set_set _ _ _ := rfl
  set_get _ := rfl
  quiet _ := rfl

def srcMACStore : Store 48 where
  s := .etherMACSRC
  get := (·.srcMAC)
  set v d := { d with srcMAC := v }
  exit st := { st with s := .etherType }
  more st x hs hc := by simp [nibble, hs, show st.c ≠ 44 by omega]
  last st x hs hc := by simp [nibble, hs, show st.c = 44 by omega]
  get_set _ _ := rfl
  set_set _ _ _ := rfl
  set_get _ := rfl
  quiet _ := rfl

def srcIPStore : Store 32 where
  s := .ipAddrSRC
  get := (·.srcIP)
  set v d := { d with srcIP := v }
  exit st := { st with s := .ipAddrDST }
  more st x hs hc := by simp [nibble, hs, show st.c ≠ 28 by omega]
  last st x hs hc := by simp [nibble, hs, show st.c = 28 by omega]
  get_set _ _ := rfl
  set_set _ _ _ := rfl
  set_get _ := rfl
  quiet _ := rfl

def dstIPStore : Store 32 where
  s := .ipAddrDST
  get := (·.dstIP)
  set v d := { d with dstIP := v }
  exit st := { st with s := if st.d.ipHeaderLength = 5 then .udpPortSRC else .ipOptions }
  more st x hs hc := by simp [nibble, hs, show st.c ≠ 28 by omega]
  last st x hs hc := by simp [nibble, hs, show st.c = 28 by omega]
  get_set _ _ := rfl
  set_set _ _ _ := rfl
  set_get _ := rfl
  quiet _ := rfl

def srcPortStore : Store 16 where
  s := .udpPortSRC
  get := (·.srcPort)
  set v d := { d with srcPort := v }
  exit st := { st with s := .udpPortDST }
  more st x hs hc := by simp [nibble, hs, show st.c ≠ 12 by omega]
  last st x hs hc := by simp [nibble, hs, show st.c = 12 by omega]
  get_set _ _ := rfl
  set_set _ _ _ := rfl
  set_get _ := rfl
  quiet _ := rfl

def dstPortStore : Store 16 where
  s := .udpPortDST
  get := (·.dstPort)
  set v d := { d with dstPort := v }
  exit st := { st with s := .udpLength, udpc := 0 }
  more st x hs hc := by simp [nibble, hs, show st.c ≠ 12 by omega]
  last st x hs hc := by simp [nibble, hs, show st.c = 12 by omega]
  get_set _ _ := rfl
  set_set _ _ _ := rfl
  set_get _ := rfl
  quiet _ := rfl

/-! ## Counted nibbles -/

/-- A state that only counts its nibbles, and what it does behind the last. -/
structure Skip where
  s : RcvState
  ok : MacRcv → Prop
  last : RcvData → Nat
  exit : MacRcv → MacRcv
  more : ∀ (st : MacRcv) x, st.s = s → st.c < last st.d →
    st.nibble x = { st with c := st.c + 1, elDv := false }
  done : ∀ (st : MacRcv) x, st.s = s → ok st → st.c = last st.d →
    st.nibble x = exit { st with c := 0, elDv := false }
  ok_next : ∀ (st : MacRcv), ok st → ok { st with c := st.c + 1, elDv := false }
  quiet : ∀ st : MacRcv, (exit st).elDv = st.elDv

/-- The nibbles of such a state, by induction. -/
theorem Skip.reads_from (S : Skip) (ns : List (BitVec 4)) (hs : st.s = S.s) (hok : S.ok st)
    (hlen : st.c + ns.length = S.last st.d + 1) (hns : ns ≠ []) :
    Reads st ns (S.exit { st with c := 0, elDv := false }) := by
  induction ns generalizing st with
  | nil => exact absurd rfl hns
  | cons x ns ih =>
      cases ns with
      | nil =>
          simp at hlen
          exact Reads.one (S.done st x hs hok hlen) (by rw [S.quiet])
      | cons y ns =>
          simp only [List.length_cons] at hlen
          have hstep := S.more st x hs (by omega)
          refine .cons (by rw [hstep]) ?_
          rw [hstep]
          have hs' : ({ st with c := st.c + 1, elDv := false } : MacRcv).s = S.s := hs
          exact ih hs' (S.ok_next st hok) (by simp; omega) (by simp)

theorem Skip.reads (S : Skip) (ns : List (BitVec 4)) (hs : st.s = S.s) (hok : S.ok st)
    (hc : st.c = 0) (hlen : ns.length = S.last st.d + 1) :
    Reads st ns (S.exit { st with c := 0, elDv := false }) :=
  S.reads_from ns hs hok (by omega) (by rintro rfl; simp at hlen)

def dscpSkip : Skip where
  s := .ipDSCPECN
  ok _ := True
  last _ := 1
  exit st := { st with s := .ipLength, ipc := 0 }
  more st x hs hc := by simp [nibble, hs, show st.c ≠ 1 by omega]
  done st x hs _ hc := by simp [nibble, hs, hc]
  ok_next _ _ := trivial
  quiet _ := rfl

def idSkip : Skip where
  s := .ipID
  ok _ := True
  last _ := 3
  exit st := { st with s := .ipFlagsFragment, d.ipLength := st.ipc }
  more st x hs hc := by simp [nibble, hs, show st.c ≠ 3 by omega]
  done st x hs _ hc := by simp [nibble, hs, hc]
  ok_next _ _ := trivial
  quiet _ := rfl

def ttlSkip : Skip where
  s := .ipTTL
  ok _ := True
  last _ := 1
  exit st := { st with s := .ipProtocol }
  more st x hs hc := by simp [nibble, hs, show st.c ≠ 1 by omega]
  done st x hs _ hc := by simp [nibble, hs, hc]
  ok_next _ _ := trivial
  quiet _ := rfl

def checksumSkip : Skip where
  s := .ipChecksum
  ok _ := True
  last _ := 3
  exit st := { st with s := .ipAddrSRC }
  more st x hs hc := by simp [nibble, hs, show st.c ≠ 3 by omega]
  done st x hs _ hc := by simp [nibble, hs, hc]
  ok_next _ _ := trivial
  quiet _ := rfl

/-- Eight nibbles for each word of options. -/
def optionsSkip : Skip where
  s := .ipOptions
  ok st := 5 < st.d.ipHeaderLength
  last d := (d.ipHeaderLength - 5) * 8 - 1
  exit st := { st with s := .udpPortSRC }
  more st x hs hc := by
    have hne : ¬ (st.c : Int) = ((st.d.ipHeaderLength : Int) - 5) * 8 - 1 := by omega
    simp [nibble, hs, hne]
  done st x hs hok hc := by
    have heq : (st.c : Int) = ((st.d.ipHeaderLength : Int) - 5) * 8 - 1 := by omega
    simp [nibble, hs, heq]
  ok_next _ hok := hok
  quiet _ := rfl

def udpChecksumSkip : Skip where
  s := .udpChecksum
  ok _ := True
  last _ := 3
  exit st := { st with
    d.dnsLength := st.udpc
    udpc := toRange (st.udpc * 8 - 4)
    d.dnsPkt := 0
    s := .dnsMsgRecord }
  more st x hs hc := by simp [nibble, hs, show st.c ≠ 3 by omega]
  done st x hs _ hc := by simp [nibble, hs, hc]
  ok_next _ _ := trivial
  quiet _ := rfl

/-! ## The payload -/

/-- The payload from bit 1024 on, only counted. -/
theorem discard_reads (ns : List (BitVec 4)) (hs : st.s = .dnsMsgDiscard) (hns : ns ≠ [])
    (hlen : st.c + 4 * ns.length = st.udpc + 4) (hudpc : st.udpc < 65536) :
    Reads st ns { st with c := 0, s := .notify, elDv := false } := by
  induction ns generalizing st with
  | nil => exact absurd rfl hns
  | cons x ns ih =>
      simp only [List.length_cons] at hlen
      cases ns with
      | nil => exact Reads.one (by simp at hlen; simp [nibble, hs, hlen]) rfl
      | cons y ns =>
          simp only [List.length_cons] at hlen
          have hstep : st.nibble x = { st with c := st.c + 4, elDv := false } := by
            have hcut : toRange (st.c + 4) = st.c + 4 := toRange_natCast (n := st.c + 4) (by omega)
            simp [nibble, hs, show st.c ≠ st.udpc by omega, hcut]
          refine .cons (by rw [hstep]) ?_
          rw [hstep]
          have hs' : ({ st with c := st.c + 4, elDv := false } : MacRcv).s = .dnsMsgDiscard := hs
          exact ih hs' (by simp) (by simp; omega) hudpc

/-- The payload, by induction on its nibbles; `ms` are those recorded already. -/
theorem record_reads_from (ns ms : List (BitVec 4)) (hs : st.s = .dnsMsgRecord) (hns : ns ≠ [])
    (hc : st.c = 4 * ms.length) (hms : ms.length < 256) (hpkt : Filled 0 ms st.d.dnsPkt)
    (hlen : st.c + 4 * ns.length = st.udpc + 4) (hudpc : st.udpc < 65536) :
    Reads st ns { st with
      d.dnsPkt := field (nibbleAt (ms ++ ns)) 0 1024, c := 0, s := .notify, elDv := false } := by
  induction ns generalizing st ms with
  | nil => exact absurd rfl hns
  | cons x ns ih =>
      have hfill := hpkt.concat x
      rw [← hc] at hfill
      simp only [List.length_cons] at hlen
      cases ns with
      | nil =>
          refine Reads.one ?_ rfl
          simp at hlen
          simp [nibble, hs, hlen, ← hfill.eq_of_zero]
      | cons y ns =>
          simp only [List.length_cons] at hlen
          by_cases hfull : ms.length = 255
          · -- bit 1023 is written, the rest is discarded
            have hstep : st.nibble x = { st with
                d.dnsPkt := setSlice st.d.dnsPkt st.c x, c := st.c + 4, s := .dnsMsgDiscard
                elDv := false } := by
              have hc' : st.c = 1020 := by omega
              simp [nibble, hs, hc', show 1020 ≠ st.udpc by omega]
            have hrest : field (nibbleAt (ms ++ x :: y :: ns)) 0 1024 =
                setSlice st.d.dnsPkt st.c x := by
              rw [hfill.eq (by simp; omega), List.append_cons]
              refine field_congr fun i hi => ?_
              rw [nibbleAt, nibbleAt, List.getD_append _ _ _ _ (by simp; omega)]
            refine .cons (by rw [hstep]) ?_
            rw [hstep, hrest]
            have hs' : ({ st with
                d.dnsPkt := setSlice st.d.dnsPkt st.c x, c := st.c + 4, s := .dnsMsgDiscard
                elDv := false } : MacRcv).s = .dnsMsgDiscard := rfl
            exact (discard_reads (y :: ns) hs' (by simp) (by simp; omega) hudpc).trans_eq rfl
          · have hstep : st.nibble x = { st with
                d.dnsPkt := setSlice st.d.dnsPkt st.c x, c := st.c + 4, elDv := false } := by
              simp [nibble, hs, show st.c ≠ st.udpc by omega, show st.c ≠ 1020 by omega]
            refine .cons (by rw [hstep]) ?_
            rw [hstep, List.append_cons]
            have hs' : ({ st with d.dnsPkt := setSlice st.d.dnsPkt st.c x, c := st.c + 4, elDv := false } :
                MacRcv).s = .dnsMsgRecord := hs
            exact (ih (ms ++ [x]) hs' (by simp) (by simp [hc]; omega) (by simp; omega) hfill
              (by simp; omega) hudpc).trans_eq rfl

/-- The payload from its first nibble on. -/
theorem record_reads (ns : List (BitVec 4)) (hs : st.s = .dnsMsgRecord) (hns : ns ≠ []) (hc : st.c = 0)
    (hpkt : st.d.dnsPkt = 0) (hlen : 4 * ns.length = st.udpc + 4) (hudpc : st.udpc < 65536) :
    Reads st ns { st with
      d.dnsPkt := field (nibbleAt ns) 0 1024, c := 0, s := .notify, elDv := false } :=
  record_reads_from ns [] hs hns hc (by decide) (by rw [hpkt]; exact .nil _) (by omega) hudpc

end MacRcv

end DnsAdtm.Hw
