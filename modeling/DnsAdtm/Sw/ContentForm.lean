/-
# `Sw.ContentForm` — what `admin edit add` makes of its content (`admin-edit.hh`)

The parsers do not say whether a text is an address or a port: what they cannot read is zero, or
as much of an address as they have read.  `add` appends it all the same.

    MacForm, IpForm, PortForm   the texts that are meant
    writtenMac, writtenIp       the address that such a text writes
    parseMac_written            `parse_mac` reads it
    parseIp_written             `parse_ip` reads it, up to the sixteenth character
    add_content_iff             the contents that `add` treats as they are meant
-/
import DnsAdtm.Sw.AddressParse
import DnsAdtm.Sw.EditLists

namespace DnsAdtm.Sw

open BoundedList FieldScan

/-! ## The texts that are meant -/

/-- The value of a hexadecimal digit. -/
def hexDigit (c : BitVec 8) : Nat :=
  if isdigit c then c.toNat - 48 else if ch 'a' ≤ c then c.toNat - 87 else c.toNat - 55

def hexNumber (g : Str) : Nat := g.foldl (fun n c => 16 * n + hexDigit c) 0

def decimalNumber (g : Str) : Nat := g.foldl (fun n c => 10 * n + (c.toNat - 48)) 0

/-- Six groups of two hexadecimal digits, joined by ':'. -/
def MacForm (s : Str) : Prop :=
  (s.splitOn (ch ':')).length = 6 ∧ ∀ g ∈ s.splitOn (ch ':'), g.length = 2 ∧ ∀ c ∈ g, isHex c = true

/-- Four decimal numbers up to 255, joined by '.'. -/
def IpForm (s : Str) : Prop :=
  (s.splitOn (ch '.')).length = 4 ∧
    ∀ g ∈ s.splitOn (ch '.'), g ≠ [] ∧ (∀ c ∈ g, isdigit c = true) ∧ decimalNumber g ≤ 255

/-- One decimal number up to 65535. -/
def PortForm (s : Str) : Prop := s ≠ [] ∧ (∀ c ∈ s, isdigit c = true) ∧ decimalNumber s ≤ 65535

/-- The bytes of a text of groups. -/
def writtenMac (s : Str) : MacAddr :=
  .ofFn fun i => BitVec.ofNat 8 (((s.splitOn (ch ':')).map hexNumber).getD i 0)

/-- The bytes of a text of numbers; a number that is not there is zero. -/
def writtenIp (s : Str) : IpAddr :=
  .ofFn fun i => BitVec.ofNat 8 (((s.splitOn (ch '.')).map decimalNumber).getD i 0)

/-! ## The parsers read them -/

theorem parseHex_eq {c : BitVec 8} (h : isHex c = true) : parseHex c = BitVec.ofNat 8 (hexDigit c) := by
  revert c
  decide +kernel

theorem digit_eq {c : BitVec 8} (h : isdigit c = true) : c - 48 = BitVec.ofNat 8 (c.toNat - 48) := by
  revert c
  decide +kernel

/-- The accumulator of `parse_mac` is the number, modulo its width. -/
theorem mac_value (g : Str) (hg : ∀ c ∈ g, isHex c = true) : macScan.value g = BitVec.ofNat 8 (hexNumber g) := by
  have hfold : ∀ n, g.foldl macScan.step (BitVec.ofNat 8 n) =
      BitVec.ofNat 8 (g.foldl (fun n c => 16 * n + hexDigit c) n) := by
    induction g with
    | nil => exact fun _ => rfl
    | cons c g ih =>
        intro n
        have hstep : macScan.step (BitVec.ofNat 8 n) c = BitVec.ofNat 8 (16 * n + hexDigit c) := by
          show (BitVec.ofNat 8 n <<< 4) + parseHex c = _
          rw [parseHex_eq (hg c List.mem_cons_self), BitVec.ofNat_add, BitVec.ofNat_mul, BitVec.mul_comm,
            BitVec.shiftLeft_eq_mul_twoPow]
          rfl
        rw [List.foldl_cons, hstep, ih fun d hd => hg d (List.mem_cons_of_mem _ hd), List.foldl_cons]
  exact hfold 0

/-- The accumulator of `parse_ip` is the number, modulo its width. -/
theorem ip_value (g : Str) (hg : ∀ c ∈ g, isdigit c = true) : ipScan.value g = BitVec.ofNat 8 (decimalNumber g) := by
  have hfold : ∀ n, g.foldl ipScan.step (BitVec.ofNat 8 n) =
      BitVec.ofNat 8 (g.foldl (fun n c => 10 * n + (c.toNat - 48)) n) := by
    induction g with
    | nil => exact fun _ => rfl
    | cons c g ih =>
        intro n
        have hstep : ipScan.step (BitVec.ofNat 8 n) c = BitVec.ofNat 8 (10 * n + (c.toNat - 48)) := by
          show BitVec.ofNat 8 n * 10 + (c - 48) = _
          rw [digit_eq (hg c List.mem_cons_self), BitVec.ofNat_add, BitVec.ofNat_mul, BitVec.mul_comm]
          rfl
        rw [List.foldl_cons, hstep, ih fun d hd => hg d (List.mem_cons_of_mem _ hd), List.foldl_cons]
  exact hfold 0

/-- A loop over digits and separators fills the array with the values of the fields. -/
theorem storeAll_fields {S : Scanner (BitVec 8) (BitVec 8)} {n : Nat} {s : Str} {number : Str → Nat}
    (hs : ∀ c ∈ s, S.accepts c = true)
    (hvalue : ∀ g ∈ s.splitOn S.sep, S.value g = BitVec.ofNat 8 (number g)) :
    storeAll (.replicate n 0) (S.stores S.zero 0 s) =
      .ofFn fun i : Fin n => BitVec.ofNat 8 (((s.splitOn S.sep).map number).getD i 0) := by
  apply Vector.ext
  intro i hi
  rw [stores_fields hs, getElem_storeAll, if_pos (Nat.zero_le i), Nat.sub_zero, Vector.getElem_replicate,
    Vector.getElem_ofFn, List.getD_eq_getElem?_getD, List.getElem?_map]
  cases hg : (s.splitOn S.sep)[i]? with
  | none => rfl
  | some g => exact hvalue g (List.mem_of_getElem? hg)

theorem MacForm.length {s : Str} (h : MacForm s) : s.length = 17 := by
  have hlen := length_splitOn (ch ':') s
  have hsum : ((s.splitOn (ch ':')).map List.length).sum = 6 * 2 := by
    rw [← h.1, ← smul_eq_mul, ← List.length_map (f := List.length)]
    refine List.sum_eq_card_nsmul _ 2 fun n hn => ?_
    obtain ⟨g, hg, rfl⟩ := List.mem_map.mp hn
    exact (h.2 g hg).1
  rw [h.1, hsum] at hlen
  omega

theorem IpForm.length {s : Str} (h : IpForm s) : 7 ≤ s.length := by
  have hlen := length_splitOn (ch '.') s
  have hsum : 4 * 1 ≤ ((s.splitOn (ch '.')).map List.length).sum := by
    rw [← h.1, ← smul_eq_mul, ← List.length_map (f := List.length)]
    refine List.card_nsmul_le_sum _ 1 fun n hn => ?_
    obtain ⟨g, hg, rfl⟩ := List.mem_map.mp hn
    exact List.length_pos_of_ne_nil (h.2 g hg).1
  rw [h.1] at hlen
  omega

theorem parseMac_written {s : Str} (h : MacForm s) : parseMac s = writtenMac s := by
  have htake : s.take 18 = s := List.take_of_length_le (by rw [h.length]; decide)
  have haccepts : ∀ c ∈ s, macScan.accepts c = true :=
    accepts_iff_splitOn.mpr fun g hg => (h.2 g hg).2
  rw [parseMac_eq_stores, macStores, htake, if_neg (by rw [h.length]; decide)]
  exact storeAll_fields haccepts fun g hg => mac_value g (h.2 g hg).2

theorem parseIp_written {s : Str} (h : IpForm s) : parseIp s = writtenIp (s.take 16) := by
  have haccepts : ∀ c ∈ s.take 16, ipScan.accepts c = true := fun c hc =>
    accepts_iff_splitOn.mpr (fun g hg => (h.2 g hg).2.1) c (List.mem_of_mem_take hc)
  have hlong : ¬ (s.take 16).length < 7 := by
    have := h.length
    rw [List.length_take]
    omega
  rw [parseIp_eq_stores, ipStores, if_neg hlong]
  exact storeAll_fields haccepts fun g hg => ip_value g (accepts_iff_splitOn.mp haccepts g hg)

/-! ## What `add` does with them -/

/-- The content is of the form of its type. -/
def FilterType.WellFormed (s : Str) : FilterType → Prop
  | .srcmac | .dstmac => MacForm s
  | .srcip | .dstip => IpForm s
  | .srcport | .dstport => PortForm s
  | .dns => True

/-- The address that the content writes. -/
def FilterType.written (s : Str) : FilterType → Option Item
  | .srcmac | .dstmac => some (.mac (writtenMac s))
  | .srcip | .dstip => some (.ip (writtenIp s))
  | _ => none

/-- `add` of this type does nothing without a well-formed content, and appends a well-formed
address as it is written. -/
structure TreatsContent (t : FilterType) (arg : Str) (f : Filter) : Prop where
  rejects : (∀ s, splitstr arg = some (t.word, s) → ¬ t.WellFormed s) →
    comAdminEditAddChecked arg f = some (-1, f)
  appends : ∀ s x, splitstr arg = some (t.word, s) → t.WellFormed s → t.written s = some x →
    (t.length f).toNat < filterDepth → ∃ f', comAdminEditAddChecked arg f = some (0, f') ∧ Appended f t x f'

variable {t : FilterType} {arg s : Str} {f : Filter} {x y : Item}

theorem word_injective : Function.Injective FilterType.word := by
  intro t u h
  revert h
  cases t <;> cases u <;> decide

theorem parse_ne_none (ht : t ≠ .dns) : ∃ y, t.parse s = some y := by
  cases t <;> first | exact ⟨_, rfl⟩ | exact absurd rfl ht

/-- The parsed item is the written one, except of a cut IP address. -/
theorem parse_written_iff (hw : t.WellFormed s) (hx : t.written s = some x) :
    t.parse s = some x ↔ (t = .srcip ∨ t = .dstip → writtenIp (s.take 16) = writtenIp s) := by
  have hmac : MacForm s → (some (Item.mac (parseMac s)) = some (.mac (writtenMac s))) :=
    fun h => by rw [parseMac_written h]
  have hip : IpForm s → (some (Item.ip (parseIp s)) = some (.ip (writtenIp s)) ↔
      writtenIp (s.take 16) = writtenIp s) := fun h => by
    rw [parseIp_written h, Option.some_inj, Item.ip.injEq]
  cases t with
  | srcmac =>
      rw [← hx]
      exact iff_of_true (hmac hw) fun h => h.elim FilterType.noConfusion FilterType.noConfusion
  | dstmac =>
      rw [← hx]
      exact iff_of_true (hmac hw) fun h => h.elim FilterType.noConfusion FilterType.noConfusion
  | srcip =>
      rw [← hx]
      exact (hip hw).trans ⟨fun h _ => h, fun h => h (.inl rfl)⟩
  | dstip =>
      rw [← hx]
      exact (hip hw).trans ⟨fun h _ => h, fun h => h (.inr rfl)⟩
  | srcport => cases hx
  | dstport => cases hx
  | dns => cases hx

/-- A list that is not full gets the parsed item, whatever was written. -/
theorem add_appends_iff (ht : t ≠ .dns) (hs : splitstr arg = some (t.word, s)) (hy : t.parse s = some y)
    (hlt : (t.length f).toNat < filterDepth) :
    (∃ f', comAdminEditAddChecked arg f = some (0, f') ∧ Appended f t x f') ↔ x = y := by
  obtain ⟨z, rfl, hcode⟩ := add_parsed (f := f) ht hs hy
  obtain ⟨f', hadd, happ, -⟩ := addItem_appended z hlt
  rw [hcode, hadd]
  constructor
  · rintro ⟨f'', heq, happ'⟩
    obtain rfl : f' = f'' := congrArg Prod.snd (Option.some.inj heq)
    have hlist := happ'.list.symm.trans happ.list
    exact List.singleton_inj.mp (List.append_cancel_left hlist)
  · rintro rfl
    exact ⟨f', rfl, happ⟩

/-- It is not refused, then. -/
theorem add_not_refused (ht : t ≠ .dns) (hs : splitstr arg = some (t.word, s)) (hroom : t.length f ≠ 2) :
    comAdminEditAddChecked arg f ≠ some (-1, f) := by
  obtain ⟨y, hy⟩ := parse_ne_none (s := s) ht
  obtain ⟨z, -, hcode⟩ := add_parsed (f := f) ht hs hy
  rw [hcode, addItem, if_neg hroom]
  intro h
  obtain ⟨list, -, heq⟩ := Option.map_eq_some_iff.mp h
  exact absurd (show (0 : Int) = -1 from congrArg Prod.fst heq) (by decide)

/-- **The contents that are treated as they are meant.**  There is none, or the list is full, or
the content is well formed; and an IP address that is appended loses nothing but zeros
where it is cut behind its sixteenth character. -/
theorem add_content_iff (t : FilterType) (ht : t ≠ .dns) (arg : Str)
    (hword : arg.takeWhile (!isspace ·) = t.word) (f : Filter) :
    TreatsContent t arg f ↔ splitstr arg = none ∨ t.length f = 2 ∨
      ∃ s, splitstr arg = some (t.word, s) ∧ t.WellFormed s ∧
        (t = .srcip ∨ t = .dstip → (t.length f).toNat < filterDepth → writtenIp (s.take 16) = writtenIp s) := by
  have hsplit : splitstr arg = none ∨ ∃ s, splitstr arg = some (t.word, s) := by
    rw [splitstr, hword]
    split
    · exact .inl rfl
    · exact .inr ⟨_, rfl⟩
  rcases hsplit with hnone | ⟨s, hs⟩
  · refine iff_of_true ⟨fun _ => add_refused fun u sarg h => ?_, fun s x h => ?_⟩ (.inl hnone) <;>
      · rw [hnone] at h
        cases h
  · have hsome : ∀ s', splitstr arg = some (t.word, s') → s' = s := by
      intro s' h
      exact (congrArg Prod.snd (Option.some.inj (hs.symm.trans h))).symm
    by_cases hfull : t.length f = 2
    · refine iff_of_true ⟨fun _ => add_refused fun u sarg h => .inr ?_, fun s' x _ _ _ hlt => ?_⟩
        (.inr (.inl hfull))
      · have heq := word_injective (congrArg Prod.fst (Option.some.inj (h.symm.trans hs)))
        rw [heq, hfull]
      · rw [hfull] at hlt
        exact absurd hlt (by decide)
    · by_cases hw : t.WellFormed s
      · constructor
        · intro h
          refine .inr (.inr ⟨s, hs, hw, fun hip hlt => ?_⟩)
          obtain ⟨x, hx⟩ : ∃ x, t.written s = some x := by
            rcases hip with rfl | rfl <;> exact ⟨_, rfl⟩
          obtain ⟨y, hy⟩ := parse_ne_none (s := s) ht
          obtain rfl := (add_appends_iff ht hs hy hlt).mp (h.appends s x hs hw hx hlt)
          exact (parse_written_iff hw hx).mp hy hip
        · rintro (hnone | hfull' | ⟨s', hs', -, hip⟩)
          · rw [hs] at hnone
            cases hnone
          · exact absurd hfull' hfull
          · obtain rfl := hsome s' hs'
            refine ⟨fun hno => absurd hw (hno _ hs), fun s'' x hs'' _ hx hlt => ?_⟩
            obtain rfl := hsome s'' hs''
            exact (add_appends_iff ht hs ((parse_written_iff hw hx).mpr fun h => hip h hlt) hlt).mpr rfl
      · refine iff_of_false (fun h => add_not_refused ht hs hfull (h.rejects fun s' hs' => ?_)) ?_
        · rw [hsome s' hs']
          exact hw
        · rintro (hnone | hfull' | ⟨s', hs', hw', -⟩)
          · rw [hs] at hnone
            cases hnone
          · exact hfull hfull'
          · rw [hsome s' hs'] at hw'
            exact hw hw'

theorem add_content_mac : TreatsContent .srcmac (str "srcmac 00:0a:35:ff:ff:ff") .empty ↔
    splitstr (str "srcmac 00:0a:35:ff:ff:ff") = none ∨ FilterType.length .empty .srcmac = 2 ∨
      ∃ s, splitstr (str "srcmac 00:0a:35:ff:ff:ff") = some (FilterType.word .srcmac, s) ∧
        FilterType.WellFormed s .srcmac ∧
        (FilterType.srcmac = .srcip ∨ FilterType.srcmac = .dstip →
          (FilterType.length .empty .srcmac).toNat < filterDepth → writtenIp (s.take 16) = writtenIp s) :=
  add_content_iff .srcmac (by decide) (str "srcmac 00:0a:35:ff:ff:ff") (by decide) .empty

/-- `1.2.3` is appended, as `0.0.0.0`. -/
theorem add_short_ip : ¬ ∀ t : FilterType, t ≠ .dns → ∀ arg f, arg.takeWhile (!isspace ·) = t.word →
    TreatsContent t arg f := by
  intro h
  have hreject := (h .srcip (by decide) (str "srcip 1.2.3") .empty (by decide)).rejects
  have hform : ∀ s, splitstr (str "srcip 1.2.3") = some (FilterType.srcip.word, s) → ¬ IpForm s := by
    intro s hs hform
    obtain rfl : str "1.2.3" = s := congrArg Prod.snd (Option.some.inj hs)
    exact absurd hform.1 (by decide)
  have hcode : (comAdminEditAddChecked (str "srcip 1.2.3") .empty).map (·.1) = some 0 := by decide
  rw [hreject hform] at hcode
  exact absurd hcode (by decide)

end DnsAdtm.Sw
