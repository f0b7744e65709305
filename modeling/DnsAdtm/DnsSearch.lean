/-
# `DnsSearch` — the DNS scan is substring search

The scan compares an item with the payload at every byte offset, and at offset 0 even where
the item is longer than the payload.  Of an item that the command line has made, without a
zero byte in it, this finds no more than is there: behind the payload `dnsPkt` is zero.

    ItemIs                   the item `k` of a filter is what `add dns` makes of a name
    comAdminEditAdd_itemIs   and `add dns` makes it
    itemMatches_iff_isInfix    what the scan looks for
    dns_scan_is_search       what it finds
-/
import DnsAdtm.Hw.CoreinScan
import DnsAdtm.Sw.AdminTidy

namespace DnsAdtm

open Machine Sw

/-- DNS item `k` of the filter is the name `w`. -/
structure ItemIs (f : Hw.Filter) (k : Nat) (w : Str) : Prop where
  endPtr : f.endPtr k = 8 * w.length
  bytes : f.dnsList.at k = hwBytes (copyBytes (.replicate 16 0) w)

/-- The payload: at most the first 128 bytes of it are in `dnsPkt`. -/
def payload (rd : Hw.RcvData) : List (BitVec 8) := bytesLE rd.dnsPkt (min rd.dnsLength 128)

/-! ## What the command line makes -/

theorem toList_copyBytes {w : Str} (h : w.length ≤ 16) :
    (copyBytes (.replicate 16 0) w).toList = w ++ List.replicate (16 - w.length) 0 := by
  apply List.ext_getElem
  · rw [Vector.length_toList, List.length_append, List.length_replicate]
    omega
  · intro j hj _
    rw [Vector.length_toList] at hj
    have hget : (copyBytes (.replicate 16 0) w)[j] = w.getD j 0 := by
      unfold copyBytes
      rw [Vector.getElem_ofFn]
      exact congrArg (w.getD j) (Vector.getElem_replicate _)
    rw [Vector.getElem_toList, hget, List.getElem_append]
    split
    · rw [List.getD_eq_getElem _ _ ‹_›]
    · rw [List.getElem_replicate, List.getD_eq_default _ _ (by omega)]

/-- A name that is added to a tidy filter is the item behind its list. -/
theorem comAdminEditAdd_itemIs {f : Sw.Filter} {w : Str} (hf : f.Tidy) (hroom : f.dnsLength ≠ 2)
    (hle : w.length ≤ 16) :
    (comAdminEditAdd (str "dns" ++ ch ' ' :: w) f).1 = 0 ∧
      ItemIs (comAdminEditAdd (str "dns" ++ ch ' ' :: w) f).2.toHw f.dnsLength.toNat w := by
  have hword : splitstr (str "dns" ++ ch ' ' :: w) = some (str "dns", w) :=
    splitstr_word (by decide) w
  have hshort : ¬ 16 < (w.take 17).length := by
    rw [List.length_take]
    omega
  obtain ⟨hlt, -⟩ := length_succ hf.dns.le hroom
  have hslot : f.dnsList.getD f.dnsLength.toNat (.replicate 16 0) = .replicate 16 0 := by
    rw [Vector.getD, Array.getD_eq_getD_getElem?, Array.getElem?_eq_getElem (by simpa using hlt)]
    exact hf.dns.cleared _ hlt (Nat.le_refl _)
  have hadd : comAdminEditAdd (str "dns" ++ ch ' ' :: w) f = (0, { f with
      dnsList := f.dnsList.setIfInBounds f.dnsLength.toNat (copyBytes (.replicate 16 0) w)
      dnsItemEndPtr := f.dnsItemEndPtr.setIfInBounds f.dnsLength.toNat (BitVec.ofNat 8 (w.length * 8))
      dnsLength := f.dnsLength + 1 }) := by
    rw [comAdminEditAdd, hword]
    dsimp only
    rw [if_neg (by decide), if_neg (by decide), if_neg (by decide), if_neg (by decide), if_neg (by decide),
      if_neg (by decide), if_pos rfl, if_neg hroom, if_neg hshort, hslot]
  rw [hadd]
  refine ⟨rfl, ?_, ?_⟩
  · rw [Hw.Filter.endPtr, Filter.toHw, Vector.getElem?_eq_getElem hlt, Option.getD_some, Vector.getElem_map,
      Vector.getElem_setIfInBounds, if_pos rfl, BitVec.toNat_ofNat, Nat.mod_eq_of_lt (by omega), Nat.mul_comm]
  · rw [Hw.FilterList.at, Filter.toHw, Vector.getElem?_eq_getElem hlt, Option.getD_some, Vector.getElem_map,
      Vector.getElem_setIfInBounds, if_pos rfl]

/-! ## What the scan looks for -/

/-- An infix, by its offset. -/
theorem infix_iff_offset {α : Type} {w l : List α} :
    List.IsInfix w l ↔ ∃ m, m + w.length ≤ l.length ∧ (l.drop m).take w.length = w := by
  constructor
  · rintro ⟨s, t, rfl⟩
    refine ⟨s.length, by simp only [List.length_append]; omega, ?_⟩
    rw [List.append_assoc, List.drop_left, List.take_left]
  · rintro ⟨m, -, h⟩
    refine ⟨l.take m, (l.drop m).drop w.length, ?_⟩
    rw [List.append_assoc]
    nth_rewrite 1 [← h]
    rw [List.take_append_drop, List.take_append_drop]

/-- The bytes of a slice. -/
theorem bytesLE_slice {n : Nat} (v : BitVec n) {m k len : Nat} (h : m + k ≤ len) :
    bytesLE (v.extractLsb' (8 * m) (8 * k)) k = ((bytesLE v len).drop m).take k := by
  apply List.ext_getElem
  · rw [length_bytesLE, List.length_take, List.length_drop, length_bytesLE]
    omega
  · intro j hj _
    rw [length_bytesLE] at hj
    simp only [bytesLE, List.getElem_map, List.getElem_range, List.getElem_take, List.getElem_drop]
    apply BitVec.eq_of_getLsbD_eq
    intro i hi
    simp only [BitVec.getLsbD_extractLsb', decide_eq_true hi, Bool.true_and,
      decide_eq_true (show 8 * j + i < 8 * k by omega)]
    rw [show 8 * m + (8 * j + i) = 8 * (m + j) + i by omega]

variable {f : Hw.Filter} {rd : Hw.RcvData} {k : Nat} {w : Str}

/-- The item as a vector. -/
theorem ItemIs.slice (h : ItemIs f k w) (hle : w.length ≤ 16) :
    (f.dnsList.at k).extractLsb' 0 (8 * w.length) = ofBytesLE (8 * w.length) w := by
  rw [h.bytes, hwBytes, toList_copyBytes hle]
  apply BitVec.eq_of_getLsbD_eq
  intro i hi
  rw [BitVec.getLsbD_extractLsb', Nat.zero_add, getLsbD_ofBytesLE, getLsbD_ofBytesLE, bitAt_append,
    if_pos hi, decide_eq_true (show i < 8 * 16 by omega), decide_eq_true hi, Bool.true_and, Bool.true_and]

/-- The item matches at an offset where its bytes are the packet's. -/
theorem areaMatches_iff (h : ItemIs f k w) (hle : w.length ≤ 16) {m len : Nat} (hm : m + w.length ≤ len) :
    Hw.AreaMatches f rd k (8 * m) (f.endPtr k) ↔ ((bytesLE rd.dnsPkt len).drop m).take w.length = w := by
  have hbytes : bytesLE (ofBytesLE (8 * w.length) w) w.length = w := by
    rw [bytesLE_ofBytesLE (Nat.le_refl _) (Nat.le_refl _), Nat.sub_self, List.replicate_zero, List.append_nil]
  rw [Hw.AreaMatches, h.endPtr, h.slice hle, ← bytesLE_slice rd.dnsPkt hm]
  constructor
  · intro heq
    rw [heq, hbytes]
  · intro heq
    have hback := congrArg (ofBytesLE (8 * w.length)) heq
    rw [ofBytesLE_bytesLE _ (Nat.le_refl _)] at hback
    rw [← hback]
    apply BitVec.eq_of_getLsbD_eq
    intro i hi
    simp only [BitVec.getLsbD_extractLsb', decide_eq_true hi, Bool.true_and, Nat.zero_add]

/-- Behind the payload the packet is zero, and the name is not: it occurs at offset 0 only if it
fits. -/
theorem fits_of_areaMatches (h : ItemIs f k w) (hle : w.length ≤ 16) (hnz : ∀ c ∈ w, c ≠ 0)
    (hzero : ∀ n, 8 * rd.dnsLength ≤ n → rd.dnsPkt.getLsbD n = false)
    (hmatch : Hw.AreaMatches f rd k 0 (f.endPtr k)) : w.length ≤ rd.dnsLength := by
  by_contra hlong
  have hin : rd.dnsLength < w.length := Nat.lt_of_not_le hlong
  have hbytes := (areaMatches_iff (m := 0) h hle (Nat.le_of_eq (Nat.zero_add _))).mp hmatch
  rw [List.drop_zero, List.take_of_length_le (by rw [length_bytesLE])] at hbytes
  refine hnz w[rd.dnsLength] (List.getElem_mem hin) ?_
  have hbyte : w[rd.dnsLength] = rd.dnsPkt.extractLsb' (8 * rd.dnsLength) 8 := by
    rw [← Option.some_inj, ← List.getElem?_eq_getElem hin, ← hbytes, bytesLE, List.getElem?_map,
      List.getElem?_range hin]
    rfl
  rw [hbyte]
  apply BitVec.eq_of_getLsbD_eq
  intro i hi
  rw [BitVec.getLsbD_extractLsb', hzero _ (by omega), Bool.and_false]
  exact BitVec.getLsbD_zero.symm

/-- The scan looks for the name in the payload. -/
theorem itemMatches_iff_isInfix (h : ItemIs f k w) (hpos : 1 ≤ w.length) (hle : w.length ≤ 16)
    (hnz : ∀ c ∈ w, c ≠ 0) (hzero : ∀ n, 8 * rd.dnsLength ≤ n → rd.dnsPkt.getLsbD n = false) :
    Hw.ItemMatches f rd k ↔ List.IsInfix w (payload rd) := by
  have hend : Hw.pktEnd rd = 8 * min rd.dnsLength 128 := by
    rw [Hw.pktEnd]
    split <;> omega
  rw [infix_iff_offset, payload, length_bytesLE]
  constructor
  · rintro ⟨m, -, hfit, hmatch⟩
    have hm : m + w.length ≤ min rd.dnsLength 128 := by
      rcases hfit with rfl | hfit
      · have hshort := fits_of_areaMatches h hle hnz hzero hmatch
        omega
      · rw [h.endPtr, hend] at hfit
        omega
    exact ⟨m, hm, (areaMatches_iff h hle hm).mp hmatch⟩
  · rintro ⟨m, hm, heq⟩
    refine ⟨m, by omega, .inr ?_, (areaMatches_iff h hle hm).mpr heq⟩
    rw [h.endPtr, hend]
    omega

/-- **The DNS scan is substring search.**  From `CheckPkt` with the item of a name to try, the
scan states end in `FilterPkt` if the name occurs in the payload, and otherwise in `CheckPkt`
for the next item. -/
theorem dns_scan_is_search (g : Hw.Generics) (st : Hw.Core) (inp : Nat → Hw.RcvIn) (w : Str)
    (hs : st.s.s = .checkPkt) (hmore : st.s.fdnsc ≠ st.f.dnsLength) (hitem : ItemIs st.f st.s.fdnsc w)
    (hpos : 1 ≤ w.length) (hle : w.length ≤ 16) (hnz : ∀ c ∈ w, c ≠ 0)
    (hzero : ∀ n, 8 * st.rd.dnsLength ≤ n → st.rd.dnsPkt.getLsbD n = false) :
    let tr := trace (Hw.rcv g) st inp
    ∃ n, 0 < n ∧ (∀ t, 0 < t → t < n → (tr t).s.s ∈ Hw.scanStates) ∧
      ((List.IsInfix w (payload st.rd) ∧ (tr n).s.s = .filterPkt) ∨
        (¬ List.IsInfix w (payload st.rd) ∧ (tr n).s.s = .checkPkt ∧
          (tr n).s.fdnsc = st.s.fdnsc + 1)) := by
  intro tr
  have h8 : 8 ∣ st.f.endPtr st.s.fdnsc := by
    rw [hitem.endPtr]
    exact Nat.dvd_mul_right 8 _
  have hstart : Hw.Comparing st.f st.rd st.s.tally st.s.fdnsc (8 * 0) (st.f.endPtr st.s.fdnsc) (tr 1) := by
    show Hw.Comparing _ _ _ _ _ _ (Hw.rcv g st (inp 0))
    rw [Hw.rcv_checkPkt hs, if_neg hmore]
    exact ⟨⟨rfl, rfl, rfl, rfl⟩, rfl, rfl, rfl, rfl, rfl⟩
  obtain ⟨n, ⟨-, hend⟩, hscan⟩ := (Hw.offsets_until (g := g) h8 (.inl rfl) hstart).exists_trace
    fun t => inp (1 + t)
  simp only [tr, ← trace_add] at hend hscan
  have hiff : (∃ m, 0 ≤ m ∧ Hw.OccursAt st.f st.rd st.s.fdnsc m) ↔ List.IsInfix w (payload st.rd) :=
    Hw.itemMatches_iff.symm.trans (itemMatches_iff_isInfix hitem hpos hle hnz hzero)
  rw [hiff] at hend
  refine ⟨1 + n, by omega, fun t h0 ht => ?_, hend⟩
  have hmem := (hscan (t - 1) (by omega)).2
  rwa [show 1 + (t - 1) = t by omega] at hmem

theorem initial_itemIs : ItemIs initialiseFpgaConfiguration.toHw 0 (str "apple.com") where
  endPtr := by
    rw [Hw.Filter.endPtr, Filter.toHw, Vector.getElem?_eq_getElem (by decide), Option.getD_some,
      Vector.getElem_map]
    rfl
  bytes := by
    rw [Hw.FilterList.at, Filter.toHw, Vector.getElem?_eq_getElem (by decide), Option.getD_some,
      Vector.getElem_map]
    rfl

/-- The configured `apple.com`, before a payload that is this name. -/
theorem dns_scan_apple :
    let st := Hw.Core.atItem initialiseFpgaConfiguration.toHw
      { Hw.RcvData.zero with dnsLength := 9, dnsPkt := ofBytesLE 1024 (str "apple.com") } 0
    let tr := trace (Hw.rcv {}) st fun _ => ⟨.zero, false, false, 0⟩
    ∃ n, 0 < n ∧ (∀ t, 0 < t → t < n → (tr t).s.s ∈ Hw.scanStates) ∧
      ((List.IsInfix (str "apple.com") (payload st.rd) ∧ (tr n).s.s = .filterPkt) ∨
        (¬ List.IsInfix (str "apple.com") (payload st.rd) ∧ (tr n).s.s = .checkPkt ∧
          (tr n).s.fdnsc = st.s.fdnsc + 1)) := by
  refine dns_scan_is_search {} _ _ (str "apple.com") rfl (of_decide_eq_true rfl) initial_itemIs
    (of_decide_eq_true rfl) (of_decide_eq_true rfl) (of_decide_eq_true rfl) fun n hn => ?_
  show (ofBytesLE 1024 (str "apple.com")).getLsbD n = false
  have hlen : (str "apple.com").length ≤ n / 8 := (Nat.le_div_iff_mul_le (by decide)).mpr hn
  have hz : BitVec.getLsbD (0 : BitVec 8) (n % 8) = false := BitVec.getLsbD_zero
  rw [getLsbD_ofBytesLE, bitAt, List.getD_eq_default _ _ hlen, hz, Bool.and_false]

end DnsAdtm
