/-
# `FilterMeaning` — what a filter says, in the administrator's words

The administrator writes lists of addresses, ports and names; the board compares bit vectors and
scans bytes.  On a frame the two are the same: addresses byte for byte, ports in the byte order of
the network on both sides, and a name where it occurs in the payload, of which the board reads 128
bytes.

    Filter.Admits        the administrator's reading of a filter
    accepts_iff_admits   the board's is no other
    count_eq             and what it counts are the steps on the way there
-/
import DnsAdtm.DnsSearch
import DnsAdtm.HostFrame
import DnsAdtm.Hw.Statistics

namespace DnsAdtm

open Machine Sw

/-! ## The administrator's reading -/

/-- The names in the filter: texts of up to sixteen characters, each with its end pointer. -/
structure Sw.Filter.Names (f : Filter) (names : List Str) : Prop where
  length : names.length = f.dnsLength.toNat
  text : ∀ w ∈ names, 1 ≤ w.length ∧ w.length ≤ 16 ∧ ∀ c ∈ w, c ≠ 0
  item : ∀ k (hk : k < names.length) (hk2 : k < filterDepth),
    f.dnsList[k] = copyBytes (.replicate 16 0) names[k] ∧ f.dnsItemEndPtr[k].toNat = 8 * names[k].length

/-- A blacklist admits what it does not hit, a whitelist what it hits. -/
def AdmittedBy (bw : BitVec 1) (hit : Prop) : Prop := bw = 1 ↔ hit

instance {bw : BitVec 1} {hit : Prop} [Decidable hit] : Decidable (AdmittedBy bw hit) :=
  inferInstanceAs (Decidable (_ ↔ _))

/-- A port of a frame, as a host has it. -/
def portOf (b : Vector (BitVec 8) 2) : BitVec 16 := getElem b 0 Nat.zero_lt_two ++ getElem b 1 Nat.one_lt_two

namespace Sw.Filter

variable (f : Filter) (names : List Str) (fr : Hw.UdpFrame)

def AdmitsMAC : Prop :=
  AdmittedBy f.srcMACBW (fr.srcMAC ∈ f.srcMACList.toList.take f.srcMACLength.toNat) ∧
    AdmittedBy f.dstMACBW (fr.dstMAC ∈ f.dstMACList.toList.take f.dstMACLength.toNat)

def AdmitsIP : Prop :=
  AdmittedBy f.srcIPBW (fr.srcIP ∈ f.srcIPList.toList.take f.srcIPLength.toNat) ∧
    AdmittedBy f.dstIPBW (fr.dstIP ∈ f.dstIPList.toList.take f.dstIPLength.toNat)

def AdmitsPort : Prop :=
  AdmittedBy f.srcPortBW (portOf fr.srcPort ∈ f.srcPortList.toList.take f.srcPortLength.toNat) ∧
    AdmittedBy f.dstPortBW (portOf fr.dstPort ∈ f.dstPortList.toList.take f.dstPortLength.toNat)

def AdmitsName : Prop := AdmittedBy f.dnsBW (∃ w ∈ names, List.IsInfix w (fr.payload.take 128))

/-- All seven lists admit the frame. -/
def Admits : Prop := f.AdmitsMAC fr ∧ f.AdmitsIP fr ∧ f.AdmitsPort fr ∧ f.AdmitsName names fr

instance : Decidable (f.AdmitsMAC fr) := inferInstanceAs (Decidable (_ ∧ _))

instance : Decidable (f.AdmitsIP fr) := inferInstanceAs (Decidable (_ ∧ _))

instance : Decidable (f.AdmitsPort fr) := inferInstanceAs (Decidable (_ ∧ _))

instance : Decidable (f.AdmitsName names fr) := inferInstanceAs (Decidable (AdmittedBy _ _))

instance : Decidable (f.Admits names fr) := inferInstanceAs (Decidable (_ ∧ _))

end Sw.Filter

/-! ## The board's -/

/-- The end pointers are those of the items, and 0 behind them. -/
theorem Sw.Filter.Tidy.wholeBytes {f : Sw.Filter} (h : f.Tidy) (i : Nat) : 8 ∣ f.toHw.endPtr i ∧ f.toHw.endPtr i ≤ 128 := by
  rw [Hw.Filter.endPtr]
  show 8 ∣ ((f.dnsItemEndPtr.map (·.toNat))[i]?).getD 0 ∧ ((f.dnsItemEndPtr.map (·.toNat))[i]?).getD 0 ≤ 128
  rcases Nat.lt_or_ge i filterDepth with hlt | hge
  · rw [Vector.getElem?_eq_getElem hlt, Vector.getElem_map, Option.getD_some]
    exact h.bytes i hlt
  · rw [Vector.getElem?_eq_none hge]
    decide

/-- What the board reads of a tidy filter is inside its lists. -/
theorem Sw.Filter.Tidy.inRange {f : Sw.Filter} (h : f.Tidy) : f.toHw.InRange where
  srcMAC := h.srcMAC.le
  dstMAC := h.dstMAC.le
  srcIP := h.srcIP.le
  dstIP := h.dstIP.le
  srcPort := h.srcPort.le
  dstPort := h.dstPort.le
  dns := h.dns.le
  endPtr_le i := (h.wholeBytes i).2
  endPtr_dvd i := (h.wholeBytes i).1

variable {f : Sw.Filter} {names : List Str} (fr : Hw.UdpFrame)

theorem stageAccepts_iff {bw : BitVec 1} {hit hit' : Prop} (h : hit ↔ hit') :
    Hw.StageAccepts (bw.getLsbD 0) hit ↔ AdmittedBy bw hit' := by
  rw [Hw.StageAccepts, AdmittedBy, h]
  rcases (by decide : ∀ b : BitVec 1, b = 0 ∨ b = 1) bw with rfl | rfl <;> simp

/-- An entry is on the board's list where what it was made of is on the host's. -/
theorem onList_map {α : Type} {w : Nat} {e : α → BitVec w} (he : Function.Injective e) (list : Vector α filterDepth)
    {len : Nat} (hlen : len ≤ filterDepth) (x : α) :
    Hw.OnList len (list.map e) (e x) ↔ x ∈ list.toList.take len := by
  have hat (k : Nat) (hk : k < filterDepth) : Hw.FilterList.at (list.map e) k = e list[k] := by
    rw [Hw.FilterList.at, Vector.getElem?_eq_getElem hk, Vector.getElem_map, Option.getD_some]
  rw [Hw.OnList, List.mem_take_iff_getElem]
  constructor
  · rintro ⟨k, hk, heq⟩
    have hk2 : k < filterDepth := Nat.lt_of_lt_of_le hk hlen
    rw [hat k hk2] at heq
    exact ⟨k, by rw [Vector.length_toList]; omega, he heq⟩
  · rintro ⟨k, hk, heq⟩
    rw [Vector.length_toList] at hk
    have hk2 : k < filterDepth := by omega
    refine ⟨k, by omega, ?_⟩
    rw [hat k hk2, ← heq]
    rfl

/-- The board has a port as it comes over the line, and so the filter has it. -/
theorem ofBytesLE_port (b : Vector (BitVec 8) 2) : ofBytesLE 16 b.toList = bswap16 (portOf b) := by
  rw [vector_two, portOf, bswap16_append]
  apply BitVec.eq_of_getLsbD_eq
  intro i hi
  rw [getLsbD_ofBytesLE, decide_eq_true hi, Bool.true_and, bitAt, BitVec.getLsbD_append]
  rcases Nat.lt_or_ge i 8 with hlt | hge
  · rw [Nat.div_eq_of_lt hlt, Nat.mod_eq_of_lt hlt, List.getD_cons_zero, if_pos hlt]
  · rw [show i / 8 = 1 by omega, show i % 8 = i - 8 by omega, List.getD_cons_succ, List.getD_cons_zero, if_neg (by omega)]

/-! ### The lists -/

theorem passesMAC_iff (hf : f.Tidy) : f.toHw.passesMAC fr.rcvData = true ↔ f.AdmitsMAC fr := by
  have hsrc := onList_map hwBytes_injective f.srcMACList hf.srcMAC.le fr.srcMAC
  have hdst := onList_map hwBytes_injective f.dstMACList hf.dstMAC.le fr.dstMAC
  rw [Hw.Filter.passesMAC, Bool.and_eq_true, Hw.Stage.passes, Hw.Stage.passes, decide_eq_true_eq, decide_eq_true_eq]
  exact and_congr (stageAccepts_iff hsrc) (stageAccepts_iff hdst)

theorem passesIP_iff (hf : f.Tidy) :
    f.toHw.passesIP fr.rcvData = true ↔ f.AdmitsMAC fr ∧ f.AdmitsIP fr := by
  have hsrc := onList_map hwBytes_injective f.srcIPList hf.srcIP.le fr.srcIP
  have hdst := onList_map hwBytes_injective f.dstIPList hf.dstIP.le fr.dstIP
  rw [Hw.Filter.passesIP, Bool.and_eq_true, Bool.and_eq_true, passesMAC_iff fr hf, Hw.Stage.passes, Hw.Stage.passes,
    decide_eq_true_eq, decide_eq_true_eq]
  exact and_congr_right' (and_congr (stageAccepts_iff hsrc) (stageAccepts_iff hdst))

theorem passesPort_iff (hf : f.Tidy) :
    f.toHw.passesPort fr.rcvData = true ↔ (f.AdmitsMAC fr ∧ f.AdmitsIP fr) ∧ f.AdmitsPort fr := by
  have hsrc := onList_map bswap16_injective f.srcPortList hf.srcPort.le (portOf fr.srcPort)
  have hdst := onList_map bswap16_injective f.dstPortList hf.dstPort.le (portOf fr.dstPort)
  rw [← ofBytesLE_port] at hsrc hdst
  rw [Hw.Filter.passesPort, Bool.and_eq_true, Bool.and_eq_true, passesIP_iff fr hf, Hw.Stage.passes, Hw.Stage.passes,
    decide_eq_true_eq, decide_eq_true_eq]
  exact and_congr_right' (and_congr (stageAccepts_iff hsrc) (stageAccepts_iff hdst))

/-! ### The names -/

/-- The item as `DnsSearch` has it. -/
theorem Sw.Filter.Names.itemIs (h : f.Names names) {k : Nat} (hk : k < names.length) (hk2 : k < filterDepth) :
    ItemIs f.toHw k names[k] := by
  obtain ⟨hbytes, hptr⟩ := h.item k hk hk2
  constructor
  · rw [Hw.Filter.endPtr, Filter.toHw, Vector.getElem?_eq_getElem hk2, Option.getD_some, Vector.getElem_map]
    exact hptr
  · rw [Hw.FilterList.at, Filter.toHw, Vector.getElem?_eq_getElem hk2, Option.getD_some, Vector.getElem_map, hbytes]

/-- What the board scans is the payload. -/
theorem payload_rcvData : payload fr.rcvData = fr.payload.take 128 := by
  show bytesLE (ofBytesLE 1024 (fr.payload.take 128)) (min fr.payload.length 128) = _
  have hlen : (fr.payload.take 128).length = min fr.payload.length 128 := by
    rw [List.length_take, Nat.min_comm]
  rw [bytesLE_ofBytesLE (by omega) (Nat.le_of_eq hlen), hlen, Nat.sub_self, List.replicate_zero, List.append_nil]

/-- Behind the payload the board has zeros. -/
theorem dnsPkt_behind :
    ∀ n, 8 * fr.rcvData.dnsLength ≤ n → fr.rcvData.dnsPkt.getLsbD n = false := by
  intro n hn
  have hlen : 8 * fr.payload.length ≤ n := hn
  show (ofBytesLE 1024 (fr.payload.take 128)).getLsbD n = false
  have hout : (fr.payload.take 128).length ≤ n / 8 := by
    rw [List.length_take]
    omega
  rw [getLsbD_ofBytesLE, bitAt, List.getD_eq_default _ _ hout]
  simp

theorem dnsPasses_iff (hf : f.Tidy) (h : f.Names names) :
    Hw.dnsPasses f.toHw fr.rcvData = true ↔ f.AdmitsName names fr := by
  have hlength : f.toHw.dnsLength = names.length := h.length.symm
  have hdepth : f.dnsLength.toNat ≤ filterDepth := hf.dns.le
  have hscan (k : Nat) (hk : k < names.length) : Hw.ItemMatches f.toHw fr.rcvData k ↔
      List.IsInfix names[k] (fr.payload.take 128) := by
    have hitem := h.itemIs hk (by have := h.length; omega)
    obtain ⟨hone, hsixteen, hnz⟩ := h.text _ (List.getElem_mem hk)
    rw [itemMatches_iff_isInfix hitem hone hsixteen hnz (dnsPkt_behind fr), payload_rcvData]
  have hany : (∃ k < f.toHw.dnsLength, Hw.ItemMatches f.toHw fr.rcvData k) ↔
      ∃ w ∈ names, List.IsInfix w (fr.payload.take 128) := by
    rw [hlength]
    constructor
    · rintro ⟨k, hk, hmatch⟩
      exact ⟨names[k], List.getElem_mem hk, (hscan k hk).mp hmatch⟩
    · rintro ⟨w, hw, hinfix⟩
      obtain ⟨k, hk, rfl⟩ := List.getElem_of_mem hw
      exact ⟨k, hk, (hscan k hk).mpr hinfix⟩
  rw [Hw.dnsPasses, decide_eq_true_eq]
  exact stageAccepts_iff hany

/-! ### The verdict -/

/-- The verdict, by the steps that are counted. -/
theorem Hw.Filter.accepts_eq (f : Hw.Filter) (rd : Hw.RcvData) :
    f.accepts rd = (f.passesPort rd && Hw.dnsPasses f rd) := by
  simp only [Hw.Filter.accepts, Hw.Filter.passesPort, Hw.Filter.passesIP, Hw.Filter.passesMAC, Bool.and_assoc]

/-- Each counter on its own. -/
theorem Hw.Filter.count_eq (f : Hw.Filter) (rd : Hw.RcvData) (t : Hw.Tally) : f.count rd t =
    { stc := t.stc
      sfc := if f.accepts rd then t.sfc + 1 else t.sfc
      smc := if f.passesMAC rd then t.smc + 1 else t.smc
      sic := if f.passesIP rd then t.sic + 1 else t.sic
      spc := if f.passesPort rd then t.spc + 1 else t.spc } := by
  rw [Hw.Filter.accepts_eq]
  simp only [Hw.Filter.count, Hw.Filter.passesPort, Hw.Filter.passesIP, Hw.Filter.passesMAC, Bool.and_eq_true]
  cases Hw.srcMACStage.passes f rd
  case false => simp
  cases Hw.dstMACStage.passes f rd
  case false => simp
  cases Hw.srcIPStage.passes f rd
  case false => simp [Hw.Tally.addSmc]
  cases Hw.dstIPStage.passes f rd
  case false => simp [Hw.Tally.addSmc]
  cases Hw.srcPortStage.passes f rd
  case false => simp [Hw.Tally.addSmc, Hw.Tally.addSic]
  cases Hw.dstPortStage.passes f rd
  case false => simp [Hw.Tally.addSmc, Hw.Tally.addSic]
  cases Hw.dnsPasses f rd <;> simp [Hw.Tally.addSmc, Hw.Tally.addSic, Hw.Tally.addSpc, Hw.Tally.addSfc]

/-- **The board reads a filter as the administrator does.** -/
theorem accepts_iff_admits (hf : f.Tidy) (hnames : f.Names names) :
    f.toHw.accepts fr.rcvData = true ↔ f.Admits names fr := by
  rw [Hw.Filter.accepts_eq, Bool.and_eq_true, passesPort_iff fr hf, dnsPasses_iff fr hf hnames, and_assoc, and_assoc]
  rfl

end DnsAdtm
