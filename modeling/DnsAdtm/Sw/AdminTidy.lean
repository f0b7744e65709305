/-
# `Sw.AdminTidy` — the invariant of `f_curr`

Every list of a tidy configuration has at most `FILTER_DEPTH` items, the slots behind it are
zero, and the end pointers are those of items of whole bytes.  `add` and `remove` rely on it
(their tests for a full list and for an index are against the length alone) and keep it;
`load` takes the lengths, the end pointers and the slots from the file as they are.

    Filter.Tidy           the invariant
    Command.run_tidy      one command keeps it, inside the lists
    parseFields_tidy_iff  when the configuration in a file has it
    edited_tidy_iff       the runs in which it holds throughout
-/
import DnsAdtm.Sw.AdminCommands

namespace DnsAdtm.Sw

open BoundedList

/-- The end pointer of an item of at most 16 bytes. -/
abbrev WholeBytes (endPtr : BitVec 8) : Prop := 8 ∣ endPtr.toNat ∧ endPtr.toNat ≤ 128

/-- The representation invariant. -/
structure Filter.Tidy (f : Filter) : Prop where
  srcMAC : Listed (.replicate 6 0) f.srcMACLength.toNat f.srcMACList
  dstMAC : Listed (.replicate 6 0) f.dstMACLength.toNat f.dstMACList
  srcIP : Listed (.replicate 4 0) f.srcIPLength.toNat f.srcIPList
  dstIP : Listed (.replicate 4 0) f.dstIPLength.toNat f.dstIPList
  srcPort : Listed 0 f.srcPortLength.toNat f.srcPortList
  dstPort : Listed 0 f.dstPortLength.toNat f.dstPortList
  dns : Listed (.replicate 16 0) f.dnsLength.toNat f.dnsList
  endPtr : Listed 0 f.dnsLength.toNat f.dnsItemEndPtr
  bytes : ∀ i (hi : i < filterDepth), WholeBytes f.dnsItemEndPtr[i]

/-- The command has a result, and it is tidy. -/
def Keeps (o : Option (Int × Filter)) : Prop := ∃ r, o = some r ∧ r.2.Tidy

theorem initial_tidy : initialiseFpgaConfiguration.Tidy where
  srcMAC := ⟨by decide, by decide⟩
  dstMAC := ⟨by decide, by decide⟩
  srcIP := ⟨by decide, by decide⟩
  dstIP := ⟨by decide, by decide⟩
  srcPort := ⟨by decide, by decide⟩
  dstPort := ⟨by decide, by decide⟩
  dns := ⟨by decide, by decide⟩
  endPtr := ⟨by decide, by decide⟩
  bytes := by decide

theorem Keeps.refused {f : Filter} (h : f.Tidy) (n : Int) : Keeps (some (n, f)) := ⟨_, rfl, h⟩

theorem Keeps.ite {c : Prop} [Decidable c] {a b : Option (Int × Filter)} (ha : Keeps a) (hb : Keeps b) :
    Keeps (if c then a else b) := by
  split
  · exact ha
  · exact hb

/-! ## `add` and `remove` -/

/-- A list that is not full has room for one more. -/
theorem length_succ {length : BitVec 2} (hle : length.toNat ≤ 2) (hroom : length ≠ 2) :
    length.toNat < 2 ∧ (length + 1).toNat = length.toNat + 1 := by
  have hne : length.toNat ≠ 2 := fun h => hroom (BitVec.eq_of_toNat_eq h)
  refine ⟨by omega, ?_⟩
  rw [BitVec.toNat_add]
  show (length.toNat + 1) % 4 = length.toNat + 1
  omega

/-- A list with an item is one longer than without it. -/
theorem length_pred {length : BitVec 2} {index : Nat} (h : index < length.toNat) :
    length.toNat = (length - 1).toNat + 1 ∧ index ≤ (length - 1).toNat := by
  have hlt := length.isLt
  have hsub : (length - 1).toNat = length.toNat - 1 := by
    rw [BitVec.toNat_sub]
    show (2 ^ 2 - 1 + length.toNat) % 2 ^ 2 = length.toNat - 1
    omega
  omega

variable {α : Type} {zero : α} {length : BitVec 2} {list : Vector α filterDepth} {f : Filter}
  {put : BitVec 2 → Vector α filterDepth → Filter}

theorem addItem_keeps (hf : f.Tidy) (h : Listed zero length.toNat list) (item : α)
    (hput : ∀ length list, Listed zero length.toNat list → (put length list).Tidy) :
    Keeps (addItem length list item f put) := by
  rw [addItem]
  split
  case isTrue => exact .refused hf _
  case isFalse hroom =>
      obtain ⟨hlt, hsucc⟩ := length_succ h.le hroom
      obtain ⟨list', hstore, hlisted⟩ := h.append hlt item
      rw [hstore]
      exact ⟨_, rfl, hput _ _ (hsucc ▸ hlisted)⟩

theorem removeItem_keeps (hf : f.Tidy) (h : Listed zero length.toNat list) (index : Nat)
    (hput : ∀ length list, Listed zero length.toNat list → (put length list).Tidy) :
    Keeps (removeItem length zero list index f put) := by
  rw [removeItem]
  split
  case isTrue => exact .refused hf _
  case isFalse hindex =>
      obtain ⟨hpred, hle⟩ := length_pred (Nat.lt_of_not_le hindex)
      rw [hpred] at h
      obtain ⟨list', hmove, hlisted⟩ := h.remove hle
      rw [hmove]
      exact ⟨_, rfl, hput _ _ hlisted⟩

/-- An item of at most 16 bytes ends at a whole byte. -/
theorem endPtr_bytes {n : Nat} (h : n ≤ 16) : WholeBytes (BitVec.ofNat 8 (n * 8)) := by
  rw [WholeBytes, BitVec.toNat_ofNat, Nat.mod_eq_of_lt (by omega)]
  exact ⟨Nat.dvd_mul_left 8 n, by omega⟩

/-- `add` stays inside the lists and keeps the invariant. -/
theorem add_keeps (h : f.Tidy) (arg : Str) : Keeps (comAdminEditAddChecked arg f) := by
  rw [comAdminEditAddChecked]
  cases splitstr arg with
  | none => exact .refused h _
  | some p =>
      obtain ⟨word, sarg⟩ := p
      refine .ite (addItem_keeps h h.srcMAC _ fun _ _ hl => { h with srcMAC := hl }) ?_
      refine .ite (addItem_keeps h h.dstMAC _ fun _ _ hl => { h with dstMAC := hl }) ?_
      refine .ite (addItem_keeps h h.srcIP _ fun _ _ hl => { h with srcIP := hl }) ?_
      refine .ite (addItem_keeps h h.dstIP _ fun _ _ hl => { h with dstIP := hl }) ?_
      refine .ite (addItem_keeps h h.srcPort _ fun _ _ hl => { h with srcPort := hl }) ?_
      refine .ite (addItem_keeps h h.dstPort _ fun _ _ hl => { h with dstPort := hl }) ?_
      refine .ite ?_ (.refused h _)
      -- `dns`: the item and its end pointer
      split
      case isTrue => exact .refused h _
      case isFalse hroom =>
          split
          case isTrue => exact .refused h _
          case isFalse hlen =>
              have hshort : sarg.length ≤ 16 := by
                rw [List.length_take] at hlen
                omega
              obtain ⟨hlt, hsucc⟩ := length_succ h.dns.le hroom
              obtain ⟨list, hlist, hlisted⟩ := h.dns.append hlt (copyBytes f.dnsList[f.dnsLength.toNat] sarg)
              obtain ⟨endPtr, hendPtr, hptrs⟩ :=
                h.endPtr.append hlt (BitVec.ofNat 8 (sarg.length * 8))
              refine ⟨(0, { f with dnsList := list, dnsItemEndPtr := endPtr, dnsLength := f.dnsLength + 1 }),
                ?_, { h with
                dns := hsucc.symm ▸ hlisted
                endPtr := hsucc.symm ▸ hptrs
                bytes := storeAt_all (P := WholeBytes) hendPtr (endPtr_bytes hshort) h.bytes }⟩
              rw [Vector.getElem?_eq_getElem hlt]
              dsimp only [bind, Option.bind]
              rw [hlist]
              dsimp only
              rw [hendPtr]

/-- `remove` stays inside the lists and keeps the invariant. -/
theorem remove_keeps (h : f.Tidy) (arg : Str) : Keeps (comAdminEditRemove arg f) := by
  rw [comAdminEditRemove]
  cases splitstr arg with
  | none => exact .refused h _
  | some p =>
      obtain ⟨word, sarg⟩ := p
      refine .ite (.refused h _) (.ite (.refused h _) ?_)
      refine .ite (removeItem_keeps h h.srcMAC _ fun _ _ hl => { h with srcMAC := hl }) ?_
      refine .ite (removeItem_keeps h h.dstMAC _ fun _ _ hl => { h with dstMAC := hl }) ?_
      refine .ite (removeItem_keeps h h.srcIP _ fun _ _ hl => { h with srcIP := hl }) ?_
      refine .ite (removeItem_keeps h h.dstIP _ fun _ _ hl => { h with dstIP := hl }) ?_
      refine .ite (removeItem_keeps h h.srcPort _ fun _ _ hl => { h with srcPort := hl }) ?_
      refine .ite (removeItem_keeps h h.dstPort _ fun _ _ hl => { h with dstPort := hl }) ?_
      refine .ite ?_ (.refused h _)
      -- `dns`: the item and its end pointer
      split
      case isTrue => exact .refused h _
      case isFalse hindex =>
          obtain ⟨hpred, hle⟩ := length_pred (Nat.lt_of_not_le hindex)
          obtain ⟨list, hlist, hlisted⟩ := (hpred ▸ h.dns).remove hle
          obtain ⟨endPtr, hendPtr, hptrs⟩ := (hpred ▸ h.endPtr).remove hle
          refine ⟨(0, { f with dnsLength := f.dnsLength - 1, dnsList := list, dnsItemEndPtr := endPtr }),
            ?_, { h with
            dns := hlisted
            endPtr := hptrs
            bytes := moveLast_all (P := WholeBytes) hendPtr (by decide) h.bytes }⟩
          dsimp only [bind, Option.bind]
          rw [hlist]
          dsimp only
          rw [hendPtr]

/-! ## `load` -/

/-- The bits of one list: the length at `off`, and the two slots of `w` bits at `slots`. -/
structure ListBits (b : Nat → Bool) (off slots w : Nat) : Prop where
  le : (field b off 2).toNat ≤ filterDepth
  cleared : ∀ i < filterDepth, (field b off 2).toNat ≤ i → field b (slots + w * i) w = 0

/-- The bits of a tidy configuration. -/
structure TidyBits (b : Nat → Bool) : Prop where
  srcMAC : ListBits b 1 3 48
  dstMAC : ListBits b 100 102 48
  srcIP : ListBits b 199 201 32
  dstIP : ListBits b 266 268 32
  srcPort : ListBits b 333 335 16
  dstPort : ListBits b 368 370 16
  dns : ListBits b 403 421 128
  endPtr : ListBits b 403 405 8
  bytes : ∀ i < filterDepth, WholeBytes (field b (405 + 8 * i) 8)

theorem listed_iff {α : Type} {zero : α} {len : Nat} {list : Vector α filterDepth} {b : Nat → Bool}
    {off slots w : Nat} (hlen : len = (field b off 2).toNat)
    (hslot : ∀ i (hi : i < filterDepth), list[i] = zero ↔ field b (slots + w * i) w = 0) :
    Listed zero len list ↔ ListBits b off slots w := by
  subst hlen
  constructor
  · intro h
    exact ⟨h.le, fun i hi hge => (hslot i hi).mp (h.cleared i hi hge)⟩
  · intro h
    exact ⟨h.le, fun i hi hge => (hslot i hi).mpr (h.cleared i hi hge)⟩

theorem hwBytes_eq_zero {n : Nat} {c : Vector (BitVec 8) n} : c = .replicate n 0 ↔ hwBytes c = 0 := by
  have hzero : hwBytes (.replicate n 0) = 0 := by
    apply BitVec.eq_of_getLsbD_eq
    intro i hi
    rw [hwBytes, getLsbD_ofBytesLE, bitAt, Vector.toList_replicate, List.getD_replicate _ (by omega)]
    exact (congrArg _ BitVec.getLsbD_zero).trans ((Bool.and_false _).trans BitVec.getLsbD_zero.symm)
  rw [← hzero, hwBytes_injective.eq_iff]

/-- The configuration in a payload is tidy where its bits are. -/
theorem parseFields_tidy_iff (p : List (BitVec 8)) : (parseFields p).Tidy ↔ TidyBits (bitAt p) := by
  have hlen : ∀ s e, e + 1 = s + 2 →
      ((extractBitsFromArr p s e).setWidth 2).toNat = (field (bitAt p) s 2).toNat :=
    fun s e he => by rw [extract_setWidth p s e 2 he (by decide) (by decide)]
  -- a slot of bytes, a port and an end pointer are zero where their bits are
  have hbytes : ∀ (n off : Nat) (lo hi : Fin 2 → Fin n → Nat),
      (∀ i j, lo i j = off + 8 * n * i + 8 * j) → (∀ i j, hi i j = off + 8 * n * i + 8 * j + 7) →
      ∀ i (h : i < filterDepth),
        (Vector.ofFn fun i => Vector.ofFn fun j => (extractBitsFromArr p (lo i j) (hi i j)).setWidth 8)[i] =
          Vector.replicate n 0 ↔ field (bitAt p) (off + 8 * n * i) (8 * n) = 0 := by
    intro n off lo hi hlo hhi i h
    rw [Vector.getElem_ofFn, hwBytes_eq_zero,
      hwBytes_extract p n (off + 8 * n * i) _ _ (fun j => hlo ⟨i, h⟩ j) (fun j => hhi ⟨i, h⟩ j)]
  have hport : ∀ (off : Nat) (lo hi : Fin 2 → Nat), (∀ i, lo i = off + 16 * i) →
      (∀ i, hi i = off + 16 * i + 15) → ∀ i (h : i < filterDepth),
        (Vector.ofFn fun i => bswap16 ((extractBitsFromArr p (lo i) (hi i)).setWidth 16))[i] = 0 ↔
          field (bitAt p) (off + 16 * i) 16 = 0 := by
    intro off lo hi hlo hhi i h
    rw [Vector.getElem_ofFn, hlo, hhi, extract_setWidth p _ _ 16 (by simp) (by decide) (by decide),
      show (0 : BitVec 16) = bswap16 0 from rfl, bswap16_injective.eq_iff]
    rfl
  have hptr : ∀ i (h : i < filterDepth),
      (parseFields p).dnsItemEndPtr[i] = field (bitAt p) (405 + 8 * i) 8 := by
    intro i h
    rw [parseFields, Vector.getElem_ofFn,
      extract_setWidth p _ _ 8 (show 412 + i * 8 + 1 = 405 + i * 8 + 8 by omega) (by decide) (by decide),
      Nat.mul_comm i 8]
  have hsrcMAC : Listed (.replicate 6 0) (parseFields p).srcMACLength.toNat (parseFields p).srcMACList ↔
      ListBits (bitAt p) 1 3 48 := by
    refine listed_iff (hlen 1 2 rfl) (hbytes 6 3 _ _ ?_ ?_)
    all_goals
      intros
      omega
  have hdstMAC : Listed (.replicate 6 0) (parseFields p).dstMACLength.toNat (parseFields p).dstMACList ↔
      ListBits (bitAt p) 100 102 48 := by
    refine listed_iff (hlen 100 101 rfl) (hbytes 6 102 _ _ ?_ ?_)
    all_goals
      intros
      omega
  have hsrcIP : Listed (.replicate 4 0) (parseFields p).srcIPLength.toNat (parseFields p).srcIPList ↔
      ListBits (bitAt p) 199 201 32 := by
    refine listed_iff (hlen 199 200 rfl) (hbytes 4 201 _ _ ?_ ?_)
    all_goals
      intros
      omega
  have hdstIP : Listed (.replicate 4 0) (parseFields p).dstIPLength.toNat (parseFields p).dstIPList ↔
      ListBits (bitAt p) 266 268 32 := by
    refine listed_iff (hlen 266 267 rfl) (hbytes 4 268 _ _ ?_ ?_)
    all_goals
      intros
      omega
  have hsrcPort : Listed 0 (parseFields p).srcPortLength.toNat (parseFields p).srcPortList ↔
      ListBits (bitAt p) 333 335 16 := by
    refine listed_iff (hlen 333 334 rfl) (hport 335 _ _ ?_ ?_)
    all_goals
      intros
      omega
  have hdstPort : Listed 0 (parseFields p).dstPortLength.toNat (parseFields p).dstPortList ↔
      ListBits (bitAt p) 368 370 16 := by
    refine listed_iff (hlen 368 369 rfl) (hport 370 _ _ ?_ ?_)
    all_goals
      intros
      omega
  have hdns : Listed (.replicate 16 0) (parseFields p).dnsLength.toNat (parseFields p).dnsList ↔
      ListBits (bitAt p) 403 421 128 := by
    refine listed_iff (hlen 403 404 rfl) (hbytes 16 421 _ _ ?_ ?_)
    all_goals
      intros
      omega
  have hendPtr : Listed 0 (parseFields p).dnsLength.toNat (parseFields p).dnsItemEndPtr ↔
      ListBits (bitAt p) 403 405 8 :=
    listed_iff (hlen 403 404 rfl) fun i hi => by rw [hptr i hi]
  constructor
  · intro h
    exact ⟨hsrcMAC.mp h.srcMAC, hdstMAC.mp h.dstMAC, hsrcIP.mp h.srcIP, hdstIP.mp h.dstIP,
      hsrcPort.mp h.srcPort, hdstPort.mp h.dstPort, hdns.mp h.dns, hendPtr.mp h.endPtr,
      fun i hi => hptr i hi ▸ h.bytes i hi⟩
  · intro h
    exact ⟨hsrcMAC.mpr h.srcMAC, hdstMAC.mpr h.dstMAC, hsrcIP.mpr h.srcIP, hdstIP.mpr h.dstIP,
      hsrcPort.mpr h.srcPort, hdstPort.mpr h.dstPort, hdns.mpr h.dns, hendPtr.mpr h.endPtr,
      fun i hi => (hptr i hi).symm ▸ h.bytes i hi⟩

/-- No more of a file is read than its first 85 bytes. -/
theorem parseFields_take (p : List (BitVec 8)) : parseFields (p.take bufferSize) = parseFields p := by
  apply Filter.toHw_injective
  rw [toHw_parseFields, toHw_parseFields]
  refine Hw.Filter.decode_congr fun n hn => ?_
  rw [bitAt, bitAt, List.getD_eq_getElem?_getD, List.getD_eq_getElem?_getD,
    List.getElem?_take_of_lt (show n / 8 < bufferSize by rw [bufferSize]; omega)]

/-! ## Runs -/

/-- A file to load is too short to be read, or it has a tidy configuration. -/
def Command.TidyInput : Command → Prop
  | .load (some bytes) => bytes.length < 85 ∨ TidyBits (bitAt bytes)
  | _ => True

/-- Branches of `set`. -/
theorem ite_tidy {c : Prop} [Decidable c] {a b : Int × Filter} (ha : a.2.Tidy) (hb : b.2.Tidy) :
    (if c then a else b).2.Tidy := by
  split
  · exact ha
  · exact hb

theorem set_tidy (h : f.Tidy) (arg : Str) : (comAdminEditSet arg f).2.Tidy := by
  rw [comAdminEditSet]
  cases splitstr arg with
  | none => exact h
  | some p =>
      obtain ⟨word, sarg⟩ := p
      refine ite_tidy ?_ (ite_tidy ?_ h)
      all_goals
        exact ite_tidy { h with } <| ite_tidy { h with } <| ite_tidy { h with } <|
          ite_tidy { h with } <| ite_tidy { h with } <| ite_tidy { h with } <|
          ite_tidy { h with } <| ite_tidy { h with } h

/-- A load keeps the invariant where it finds it in the file. -/
theorem load_tidy_iff (h : f.Tidy) (bytes : List (BitVec 8)) :
    (comAdminLoad (some bytes) f).2.Tidy ↔ bytes.length < 85 ∨ TidyBits (bitAt bytes) := by
  have hlen : (bytes.take bufferSize).length < 85 ↔ bytes.length < 85 := by
    rw [List.length_take, bufferSize]
    omega
  show (parseAdminBin f _ _).Tidy ↔ _
  rw [parseAdminBin, parseFields_take]
  split
  case isTrue hshort => exact ⟨fun _ => .inl (hlen.mp hshort), fun _ => h⟩
  case isFalse hlong =>
      rw [parseFields_tidy_iff]
      exact ⟨.inr, fun h => h.resolve_left fun hshort => hlong (hlen.mpr hshort)⟩

/-- One command. -/
theorem Command.run_keeps_iff (h : f.Tidy) (c : Command) : Keeps (c.run f) ↔ c.TidyInput := by
  have hsome : ∀ r : Int × Filter, Keeps (some r) ↔ r.2.Tidy := fun r =>
    ⟨fun ⟨_, hr, ht⟩ => Option.some.inj hr ▸ ht, fun ht => ⟨r, rfl, ht⟩⟩
  cases c with
  | add arg => exact iff_of_true (add_keeps h arg) trivial
  | remove arg => exact iff_of_true (remove_keeps h arg) trivial
  | set arg => exact iff_of_true ((hsome _).mpr (set_tidy h arg)) trivial
  | load file =>
      cases file with
      | none => exact iff_of_true ((hsome _).mpr h) trivial
      | some bytes => exact (hsome _).trans (load_tidy_iff h bytes)

theorem runs_nil (f : Filter) : runs f [] = some f := rfl

theorem runs_cons (f : Filter) (c : Command) (cs : List Command) :
    runs f (c :: cs) = (c.run f).bind fun r => runs r.2 cs := by
  rw [runs, List.foldlM_cons]
  cases c.run f <;> rfl

/-- A run from a tidy configuration, by induction on its commands. -/
theorem runs_tidy_iff (h : f.Tidy) (cs : List Command) :
    (∀ k, ∃ f', runs f (cs.take k) = some f' ∧ f'.Tidy) ↔ ∀ c ∈ cs, c.TidyInput := by
  induction cs generalizing f with
  | nil =>
      refine iff_of_true (fun k => ⟨f, ?_, h⟩) fun _ hc => absurd hc List.not_mem_nil
      rw [List.take_nil, runs_nil]
  | cons c cs ih =>
      constructor
      · intro hall
        obtain ⟨f', hrun, ht⟩ := hall 1
        rw [List.take_succ_cons, List.take_zero, runs_cons] at hrun
        obtain ⟨r, hr, hrest⟩ := Option.bind_eq_some_iff.mp hrun
        obtain rfl : r.2 = f' := Option.some.inj hrest
        have hc : c.TidyInput := (c.run_keeps_iff h).mp ⟨r, hr, ht⟩
        have hcs : ∀ d ∈ cs, d.TidyInput := (ih ht).mp fun k => by
          obtain ⟨f', hrun, ht'⟩ := hall (k + 1)
          rw [List.take_succ_cons, runs_cons, hr, Option.bind_some] at hrun
          exact ⟨f', hrun, ht'⟩
        intro d hd
        rcases List.mem_cons.mp hd with rfl | hd
        · exact hc
        · exact hcs d hd
      · intro hall k
        obtain ⟨r, hr, ht⟩ := (c.run_keeps_iff h).mpr (hall c List.mem_cons_self)
        cases k with
        | zero => exact ⟨f, by rw [List.take_zero, runs_nil], h⟩
        | succ k =>
            obtain ⟨f', hrun, ht'⟩ := (ih ht).mpr (fun d hd => hall d (List.mem_cons_of_mem c hd)) k
            exact ⟨f', by rw [List.take_succ_cons, runs_cons, hr, Option.bind_some, hrun], ht'⟩

/-- **The invariant of the edited configuration.**  In a run of commands from start, every
configuration reached is tidy and no command leaves its lists, exactly where every file
that is loaded is too short to be read or has a tidy configuration. -/
theorem edited_tidy_iff (cs : List Command) :
    (∀ k, ∃ f, runs initialiseFpgaConfiguration (cs.take k) = some f ∧ f.Tidy) ↔
      ∀ c ∈ cs, c.TidyInput :=
  runs_tidy_iff initial_tidy cs

/-- An append to a list of three goes behind the end of its array. -/
theorem addItem_outside {item : α} (h : length = 3) : addItem length list item f put = none := by
  subst h
  rw [addItem, if_neg (by decide), storeAt_of_ge (by decide), Option.map_none]

/-- A file with three source MAC addresses. -/
def threeMACs : List (BitVec 8) := 0x06 :: List.replicate 84 0

/-- It is loaded, and the next address goes behind the end of the list. -/
theorem threeMACs_outside :
    ¬ ∀ cs : List Command, ∃ f, runs initialiseFpgaConfiguration cs = some f ∧ f.Tidy := by
  intro h
  obtain ⟨f, hrun, -⟩ := h [.load (some threeMACs), .add (str "srcmac 00:00:00:00:00:00")]
  have hload : Command.run initialiseFpgaConfiguration (.load (some threeMACs)) =
      some (0, parseFields threeMACs) := rfl
  have hword : splitstr (str "srcmac 00:00:00:00:00:00") = some (str "srcmac", str "00:00:00:00:00:00") := by
    decide
  have hadd : Command.run (parseFields threeMACs) (.add (str "srcmac 00:00:00:00:00:00")) = none := by
    rw [Command.run, comAdminEditAddChecked, hword]
    exact (if_pos rfl).trans (addItem_outside (by decide))
  rw [runs_cons, hload, Option.bind_some, runs_cons, hadd] at hrun
  cases hrun

end DnsAdtm.Sw
