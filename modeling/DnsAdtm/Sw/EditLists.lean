/-
# `Sw.EditLists` — the edit commands as operations on lists

To `admin edit add` and `admin edit remove` a filter is seven lists of items, each with a flag,
and the reply type.  The fourteen branches of the commands are one append and one removal,
with the items, the list and the assignment of their own filter type.

    FilterType, Item, Filter.list   the seven lists
    FilterType.branch               what the branches of a type work with
    Appended, Removed               what an append and a removal do to the filter
    edit_list_operations            and the two commands do that, or nothing
-/
import DnsAdtm.Sw.AdminTidy

namespace DnsAdtm.Sw

open BoundedList

/-! ## The seven lists -/

/-- `[filter-type]` -/
inductive FilterType where
  | srcmac
  | dstmac
  | srcip
  | dstip
  | srcport
  | dstport
  | dns
  deriving DecidableEq

/-- An item of one of the lists; that of a DNS list comes with its end pointer. -/
inductive Item where
  | mac (mac : MacAddr)
  | ip (ip : IpAddr)
  | port (port : BitVec 16)
  | dns (item : DnsFilterItem × BitVec 8)

namespace FilterType

def word : FilterType → Str
  | srcmac => str "srcmac"
  | dstmac => str "dstmac"
  | srcip => str "srcip"
  | dstip => str "dstip"
  | srcport => str "srcport"
  | dstport => str "dstport"
  | dns => str "dns"

def length (f : Filter) : FilterType → BitVec 2
  | srcmac => f.srcMACLength
  | dstmac => f.dstMACLength
  | srcip => f.srcIPLength
  | dstip => f.dstIPLength
  | srcport => f.srcPortLength
  | dstport => f.dstPortLength
  | dns => f.dnsLength

/-- The flag that says whether the list is black or white. -/
def bw (f : Filter) : FilterType → BitVec 1
  | srcmac => f.srcMACBW
  | dstmac => f.dstMACBW
  | srcip => f.srcIPBW
  | dstip => f.dstIPBW
  | srcport => f.srcPortBW
  | dstport => f.dstPortBW
  | dns => f.dnsBW

/-- All slots, used or not. -/
def slots (f : Filter) : FilterType → Vector Item filterDepth
  | srcmac => f.srcMACList.map .mac
  | dstmac => f.dstMACList.map .mac
  | srcip => f.srcIPList.map .ip
  | dstip => f.dstIPList.map .ip
  | srcport => f.srcPortList.map .port
  | dstport => f.dstPortList.map .port
  | dns => (f.dnsList.zip f.dnsItemEndPtr).map .dns

/-- What an unused slot holds. -/
def zero : FilterType → Item
  | srcmac | dstmac => .mac (.replicate 6 0)
  | srcip | dstip => .ip (.replicate 4 0)
  | srcport | dstport => .port 0
  | dns => .dns (.replicate 16 0, 0)

/-- The item that is made of the content of an `add`; a DNS name has at most 16 bytes. -/
def parse (content : Str) : FilterType → Option Item
  | srcmac | dstmac => some (.mac (parseMac content))
  | srcip | dstip => some (.ip (parseIp content))
  | srcport | dstport => some (.port (parsePort content))
  | dns =>
    if content.length ≤ 16 then
      some (.dns (copyBytes (.replicate 16 0) content, BitVec.ofNat 8 (content.length * 8)))
    else none

end FilterType

/-- The list of a type. -/
def Filter.list (f : Filter) (t : FilterType) : List Item := items (t.length f).toNat (t.slots f)

/-- No list is longer than `FILTER_DEPTH`, and the unused slots are zero. -/
def Filter.Clean (f : Filter) : Prop := ∀ t : FilterType, Listed t.zero (t.length f).toNat (t.slots f)

/-- Nothing but the list of this type differs. -/
structure Only (f f' : Filter) (t : FilterType) : Prop where
  slots : ∀ u, u ≠ t → u.slots f' = u.slots f
  length : ∀ u, u ≠ t → u.length f' = u.length f
  bw : ∀ u : FilterType, u.bw f' = u.bw f
  replyType : f'.replyType = f.replyType

/-- `f'` is `f` with an item more. -/
structure Appended (f : Filter) (t : FilterType) (x : Item) (f' : Filter) : Prop extends Only f f' t where
  list : f'.list t = f.list t ++ [x]

/-- `f'` is `f` with an item less: the last one has taken its place. -/
structure Removed (f : Filter) (t : FilterType) (index : Nat) (f' : Filter) : Prop extends Only f f' t where
  list : f'.list t = swapRemove (f.list t) index
  rest : ∃ x, (f.list t)[index]? = some x ∧ List.Perm (x :: f'.list t) (f.list t)

variable {f f' : Filter} {t : FilterType} {arg sarg : Str}

/-- The other lists stay clean, and this one has to. -/
theorem Filter.Clean.of_only (hf : f.Clean) (h : Only f f' t)
    (ht : Listed t.zero (t.length f').toNat (t.slots f')) : f'.Clean := by
  intro u
  by_cases hu : u = t
  · rw [hu]
    exact ht
  · rw [h.slots u hu, h.length u hu]
    exact hf u

/-! ## The branches of a type -/

/-- The items of the source, the list they are in, and the assignment of a new one. -/
structure Branch (f : Filter) (t : FilterType) where
  α : Type
  item : α → Item
  zero : α
  list : Vector α filterDepth
  put : BitVec 2 → Vector α filterDepth → Filter
  item_zero : item zero = t.zero
  slots : t.slots f = list.map item
  length_put : ∀ length list, t.length (put length list) = length
  slots_put : ∀ length list, t.slots (put length list) = list.map item

theorem map_zip {α β : Type} {n : Nat} (l : Vector (α × β) n) : (l.map (·.1)).zip (l.map (·.2)) = l := by
  apply Vector.ext
  intro i hi
  rw [Vector.getElem_zip, Vector.getElem_map, Vector.getElem_map]

def FilterType.branch (f : Filter) : (t : FilterType) → Branch f t
  | .srcmac =>
    { α := MacAddr, item := .mac, zero := .replicate 6 0, list := f.srcMACList
      put length list := { f with srcMACList := list, srcMACLength := length }
      item_zero := rfl, slots := rfl, length_put _ _ := rfl, slots_put _ _ := rfl }
  | .dstmac =>
    { α := MacAddr, item := .mac, zero := .replicate 6 0, list := f.dstMACList
      put length list := { f with dstMACList := list, dstMACLength := length }
      item_zero := rfl, slots := rfl, length_put _ _ := rfl, slots_put _ _ := rfl }
  | .srcip =>
    { α := IpAddr, item := .ip, zero := .replicate 4 0, list := f.srcIPList
      put length list := { f with srcIPList := list, srcIPLength := length }
      item_zero := rfl, slots := rfl, length_put _ _ := rfl, slots_put _ _ := rfl }
  | .dstip =>
    { α := IpAddr, item := .ip, zero := .replicate 4 0, list := f.dstIPList
      put length list := { f with dstIPList := list, dstIPLength := length }
      item_zero := rfl, slots := rfl, length_put _ _ := rfl, slots_put _ _ := rfl }
  | .srcport =>
    { α := BitVec 16, item := .port, zero := 0, list := f.srcPortList
      put length list := { f with srcPortList := list, srcPortLength := length }
      item_zero := rfl, slots := rfl, length_put _ _ := rfl, slots_put _ _ := rfl }
  | .dstport =>
    { α := BitVec 16, item := .port, zero := 0, list := f.dstPortList
      put length list := { f with dstPortList := list, dstPortLength := length }
      item_zero := rfl, slots := rfl, length_put _ _ := rfl, slots_put _ _ := rfl }
  -- the two arrays are one list of pairs
  | .dns =>
    { α := DnsFilterItem × BitVec 8, item := .dns, zero := (.replicate 16 0, 0), list := f.dnsList.zip f.dnsItemEndPtr
      put length list :=
        { f with dnsList := list.map (·.1), dnsItemEndPtr := list.map (·.2), dnsLength := length }
      item_zero := rfl, slots := rfl, length_put _ _ := rfl
      slots_put _ list := congrArg (Vector.map Item.dns) (map_zip list) }

/-- The assignment is one to the list of its type. -/
theorem branch_only (length : BitVec 2) (list : Vector (t.branch f).α filterDepth) :
    Only f ((t.branch f).put length list) t := by
  cases t <;> exact
    { slots := by rintro (_ | _) hne <;> first | rfl | exact absurd rfl hne
      length := by rintro (_ | _) hne <;> first | rfl | exact absurd rfl hne
      bw := by rintro (_ | _) <;> rfl
      replyType := rfl }

/-- `add` to a list that is not full. -/
theorem addItem_appended (x : (t.branch f).α) (hlt : (t.length f).toNat < filterDepth) :
    ∃ f', addItem (t.length f) (t.branch f).list x f (t.branch f).put = some (0, f') ∧
      Appended f t ((t.branch f).item x) f' ∧ (f.Clean → f'.Clean) := by
  obtain ⟨hroom, hsucc⟩ : t.length f ≠ 2 ∧ (t.length f + 1).toNat = (t.length f).toNat + 1 := by
    refine ⟨fun h => ?_, (length_succ hlt.le fun h => ?_).2⟩ <;>
      · rw [h] at hlt
        exact absurd hlt (by decide)
  have hslots : t.slots ((t.branch f).put (t.length f + 1) ((t.branch f).list.set (t.length f).toNat x)) =
      (t.slots f).set (t.length f).toNat ((t.branch f).item x) := by
    rw [(t.branch f).slots_put, (t.branch f).slots, Vector.map_set]
  have honly := branch_only (t.length f + 1) ((t.branch f).list.set (t.length f).toNat x)
  refine ⟨_, ?_, ⟨honly, ?_⟩, fun hf => hf.of_only honly ?_⟩
  · rw [addItem, if_neg hroom, storeAt_of_lt hlt]
    rfl
  · rw [Filter.list, Filter.list, (t.branch f).length_put, hsucc, hslots, items_append hlt]
  · obtain ⟨list', hstore, hlisted⟩ := (hf t).append hlt ((t.branch f).item x)
    rw [storeAt_of_lt hlt] at hstore
    rw [(t.branch f).length_put, hsucc, hslots, Option.some.inj hstore]
    exact hlisted

theorem removeItem_of_lt {α : Type} {zero : α} {length : BitVec 2} {list : Vector α filterDepth} {index : Nat}
    {put : BitVec 2 → Vector α filterDepth → Filter} (hle : index ≤ (length - 1).toNat)
    (hlast : (length - 1).toNat < filterDepth) (hlt : index < length.toNat) :
    removeItem length zero list index f put = some (0, put (length - 1)
      ((list.set index list[(length - 1).toNat]).set (length - 1).toNat zero)) := by
  rw [removeItem, if_neg (Nat.not_le.mpr hlt), moveLast_of_le hle hlast]
  rfl

/-- `remove` of an item of the list. -/
theorem removeItem_removed {index : Nat} (hf : f.Clean) (hlt : index < (t.length f).toNat) :
    ∃ f', removeItem (t.length f) (t.branch f).zero (t.branch f).list index f (t.branch f).put = some (0, f') ∧
      Removed f t index f' ∧ f'.Clean := by
  obtain ⟨hpred, hle⟩ := length_pred hlt
  have hlisted := hf t
  rw [hpred] at hlisted
  have hlast : (t.length f - 1).toNat < filterDepth := hlisted.le
  -- what is assigned, as items
  obtain ⟨list', hcode, hitems⟩ : ∃ list',
      removeItem (t.length f) (t.branch f).zero (t.branch f).list index f (t.branch f).put =
        some (0, (t.branch f).put (t.length f - 1) list') ∧
      list'.map (t.branch f).item =
        ((t.slots f).set index (t.slots f)[(t.length f - 1).toNat]).set (t.length f - 1).toNat t.zero := by
    refine ⟨_, removeItem_of_lt hle hlast hlt, ?_⟩
    simp only [(t.branch f).slots, Vector.map_set, (t.branch f).item_zero, Vector.getElem_map]
  rw [← (t.branch f).slots_put (t.length f - 1)] at hitems
  have hlist : ((t.branch f).put (t.length f - 1) list').list t = swapRemove (f.list t) index := by
    rw [Filter.list, Filter.list, (t.branch f).length_put, hitems, items_remove hle hlast, ← hpred]
  have hin : index < (f.list t).length := by
    rw [Filter.list, length_items (hf t).le]
    exact hlt
  have honly := branch_only (t.length f - 1) list'
  refine ⟨_, hcode, ⟨honly, hlist, _, List.getElem?_eq_getElem hin, ?_⟩, hf.of_only honly ?_⟩
  · rw [hlist]
    exact swapRemove_perm hin
  · obtain ⟨list'', hmove, hkept⟩ := hlisted.remove hle
    rw [moveLast_of_le hle hlast] at hmove
    rw [(t.branch f).length_put, hitems, Option.some.inj hmove]
    exact hkept

/-! ## `add` -/

/-- A branch is taken at its own word. -/
theorem add_parsed {x : Item} (hdns : t ≠ .dns) (hs : splitstr arg = some (t.word, sarg))
    (hx : t.parse sarg = some x) : ∃ y, (t.branch f).item y = x ∧
      comAdminEditAddChecked arg f = addItem (t.length f) (t.branch f).list y f (t.branch f).put := by
  rw [comAdminEditAddChecked, hs]
  cases t with
  | dns => exact absurd rfl hdns
  | srcmac => exact ⟨parseMac sarg, Option.some.inj hx, rfl⟩
  | dstmac => exact ⟨parseMac sarg, Option.some.inj hx, rfl⟩
  | srcip => exact ⟨parseIp sarg, Option.some.inj hx, rfl⟩
  | dstip => exact ⟨parseIp sarg, Option.some.inj hx, rfl⟩
  | srcport => exact ⟨parsePort sarg, Option.some.inj hx, rfl⟩
  | dstport => exact ⟨parsePort sarg, Option.some.inj hx, rfl⟩

theorem parse_dns {x : Item} (hx : FilterType.parse sarg .dns = some x) : sarg.length ≤ 16 ∧
    x = .dns (copyBytes (.replicate 16 0) sarg, BitVec.ofNat 8 (sarg.length * 8)) := by
  rw [FilterType.parse] at hx
  split at hx
  case isTrue hle => exact ⟨hle, (Option.some.inj hx).symm⟩
  case isFalse => cases hx

theorem map_fst_zip {α β : Type} {n : Nat} (a : Vector α n) (b : Vector β n) :
    (a.zip b).map (·.1) = a ∧ (a.zip b).map (·.2) = b := by
  constructor <;>
    · apply Vector.ext
      intro i hi
      rw [Vector.getElem_map, Vector.getElem_zip]

/-- A name shorter than the slot leaves its rest as it was, which is zero. -/
theorem add_dns {x : Item} (hf : f.Clean) (hs : splitstr arg = some (FilterType.dns.word, sarg))
    (hx : FilterType.parse sarg .dns = some x) (hroom : f.dnsLength.toNat < filterDepth) :
    ∃ y, (FilterType.dns.branch f).item y = x ∧ comAdminEditAddChecked arg f =
      addItem f.dnsLength (FilterType.dns.branch f).list y f (FilterType.dns.branch f).put := by
  obtain ⟨hle, rfl⟩ := parse_dns hx
  refine ⟨_, rfl, ?_⟩
  have hne : f.dnsLength ≠ 2 := fun h => by rw [h] at hroom; exact absurd hroom (by decide)
  have hshort : ¬ 16 < (sarg.take 17).length := by
    rw [List.length_take]
    omega
  have hslot : f.dnsList[f.dnsLength.toNat] = .replicate 16 0 := by
    have hclear := (hf .dns).cleared _ hroom (Nat.le_refl _)
    have hpair : Item.dns (f.dnsList[f.dnsLength.toNat], f.dnsItemEndPtr[f.dnsLength.toNat]) =
        .dns (.replicate 16 0, 0) := by
      rw [← Vector.getElem_zip, ← Vector.getElem_map Item.dns]
      exact hclear
    injection hpair with hpair
    exact congrArg Prod.fst hpair
  have hcode : comAdminEditAddChecked arg f = if f.dnsLength = 2 then some (-1, f)
      else if 16 < (sarg.take 17).length then some (-1, f)
      else (do
        let item ← f.dnsList[f.dnsLength.toNat]?
        let list ← storeAt f.dnsList f.dnsLength.toNat (copyBytes item sarg)
        let endPtr ← storeAt f.dnsItemEndPtr f.dnsLength.toNat (BitVec.ofNat 8 (sarg.length * 8))
        some (0, { f with dnsList := list, dnsItemEndPtr := endPtr, dnsLength := f.dnsLength + 1 })) := by
    rw [comAdminEditAddChecked, hs]
    rfl
  rw [hcode, if_neg hne, if_neg hshort, Vector.getElem?_eq_getElem hroom, hslot]
  simp only [addItem, if_neg hne, FilterType.branch, storeAt_of_lt hroom, ← zip_set, map_fst_zip,
    Option.map_some, Option.bind_eq_bind, Option.bind_some]

theorem ite_eq {α : Type} {c : Prop} [Decidable c] {a b r : α} (ha : c → a = r) (hb : ¬ c → b = r) :
    (if c then a else b) = r := by
  by_cases hc : c
  · exact (if_pos hc).trans (ha hc)
  · exact (if_neg hc).trans (hb hc)

/-- What `add` does not take leaves the filter unchanged. -/
theorem add_refused (h : ∀ (t : FilterType) sarg, splitstr arg = some (t.word, sarg) →
    t.parse sarg = none ∨ t.length f = 2) : comAdminEditAddChecked arg f = some (-1, f) := by
  rw [comAdminEditAddChecked]
  cases hs : splitstr arg with
  | none => rfl
  | some p =>
      obtain ⟨word, sarg⟩ := p
      have hcase : ∀ t : FilterType, word = t.word → t.parse sarg = none ∨ t.length f = 2 :=
        fun t hword => h t sarg (by rw [hs, hword])
      have hfull : ∀ t : FilterType, t ≠ .dns → word = t.word → t.length f = 2 := by
        intro t hdns hword
        refine (hcase t hword).resolve_left ?_
        cases t <;> first | exact Option.some_ne_none _ | exact absurd rfl hdns
      refine ite_eq (fun hword => if_pos (hfull .srcmac (by decide) hword)) fun _ =>
        ite_eq (fun hword => if_pos (hfull .dstmac (by decide) hword)) fun _ =>
        ite_eq (fun hword => if_pos (hfull .srcip (by decide) hword)) fun _ =>
        ite_eq (fun hword => if_pos (hfull .dstip (by decide) hword)) fun _ =>
        ite_eq (fun hword => if_pos (hfull .srcport (by decide) hword)) fun _ =>
        ite_eq (fun hword => if_pos (hfull .dstport (by decide) hword)) fun _ =>
        ite_eq (fun hword => ite_eq (fun _ => rfl) fun hroom => ?_) fun _ => rfl
      -- a name, and the list is not full
      have hlong := (hcase .dns hword).resolve_right hroom
      rw [FilterType.parse] at hlong
      split at hlong
      case isTrue => cases hlong
      case isFalse hle =>
          refine if_pos ?_
          rw [List.length_take]
          omega

/-- **`add` appends to one list.**  It takes the content of a known type whose list is not full;
and everything else it refuses, and changes nothing. -/
theorem add_lists (hf : f.Clean) (arg : Str) :
    (∃ (t : FilterType) (sarg : Str) (x : Item) (f' : Filter), splitstr arg = some (t.word, sarg) ∧ t.parse sarg = some x ∧
      comAdminEditAddChecked arg f = some (0, f') ∧ Appended f t x f' ∧ f'.Clean) ∨
    ((∀ (t : FilterType) sarg, splitstr arg = some (t.word, sarg) → t.parse sarg = none ∨ t.length f = 2) ∧
      comAdminEditAddChecked arg f = some (-1, f)) := by
  by_cases h : ∀ (t : FilterType) sarg, splitstr arg = some (t.word, sarg) → t.parse sarg = none ∨ t.length f = 2
  · exact .inr ⟨h, add_refused h⟩
  · refine .inl ?_
    push Not at h
    obtain ⟨t, sarg, hs, hparse, hroom⟩ := h
    obtain ⟨x, hx⟩ := Option.ne_none_iff_exists'.mp hparse
    have hlt := (length_succ (hf t).le hroom).1
    obtain ⟨y, rfl, hcode⟩ : ∃ y, (t.branch f).item y = x ∧
        comAdminEditAddChecked arg f = addItem (t.length f) (t.branch f).list y f (t.branch f).put := by
      by_cases hdns : t = .dns
      · subst hdns
        exact add_dns hf hs hx hlt
      · exact add_parsed hdns hs hx
    obtain ⟨f', hadd, happ, hclean⟩ := addItem_appended y hlt
    exact ⟨t, sarg, _, f', hs, hx, hcode.trans hadd, happ, hclean hf⟩

/-! ## `remove` -/

/-- A branch is taken at its own word, with a digit behind it. -/
theorem remove_word {c : BitVec 8} (hf : f.Clean) (hs : splitstr arg = some (t.word, [c]))
    (hdigit : isdigit c = true) (hlt : (c - ch '0').toNat < (t.length f).toNat) :
    comAdminEditRemove arg f = removeItem (t.length f) (t.branch f).zero (t.branch f).list
      (c - ch '0').toNat f (t.branch f).put := by
  have hindex : ¬ filterDepth ≤ ([c].headD 0 - ch '0').toNat := Nat.not_le.mpr (Nat.lt_of_lt_of_le hlt (hf t).le)
  have hone : ¬ (([c].take 2).length ≠ 1 ∨ isdigit ([c].headD 0) = false) := by
    rintro (hlen | hno)
    · exact hlen rfl
    · rw [List.headD_cons, hdigit] at hno
      cases hno
  rw [comAdminEditRemove, hs]
  dsimp only
  rw [if_neg hone, if_neg hindex]
  cases t with
  | srcmac => rfl
  | dstmac => rfl
  | srcip => rfl
  | dstip => rfl
  | srcport => rfl
  | dstport => rfl
  | dns =>
      obtain ⟨hpred, hle⟩ := length_pred hlt
      have hlast : (FilterType.dns.length f - 1).toNat < filterDepth :=
        Nat.lt_of_lt_of_le (hpred ▸ Nat.lt_succ_self _) (hf .dns).le
      refine Eq.trans ?_ (removeItem_of_lt hle hlast hlt).symm
      have hle : (c - ch '0').toNat ≤ (f.dnsLength - 1).toNat := hle
      have hlast : (f.dnsLength - 1).toNat < filterDepth := hlast
      -- both arrays, and what is assigned of their pairs
      have hmove : (do
            let list ← moveLast (.replicate 16 0) f.dnsList (c - ch '0').toNat (f.dnsLength - 1).toNat
            let endPtr ← moveLast 0 f.dnsItemEndPtr (c - ch '0').toNat (f.dnsLength - 1).toNat
            some ((0 : Int), { f with dnsLength := f.dnsLength - 1, dnsList := list, dnsItemEndPtr := endPtr })) =
          some (0, (FilterType.dns.branch f).put (f.dnsLength - 1) ((((f.dnsList.zip f.dnsItemEndPtr).set
            (c - ch '0').toNat (f.dnsList.zip f.dnsItemEndPtr)[(f.dnsLength - 1).toNat]).set
              (f.dnsLength - 1).toNat (.replicate 16 0, 0)))) := by
        simp only [FilterType.branch, moveLast_of_le hle hlast, Vector.getElem_zip, ← zip_set, map_fst_zip,
          Option.bind_eq_bind, Option.bind_some]
      exact (if_neg (Nat.not_le.mpr hlt)).trans hmove

/-- What `remove` does not take leaves the filter unchanged. -/
theorem remove_refused (h : ∀ (t : FilterType) c, splitstr arg = some (t.word, [c]) → isdigit c = true →
    (t.length f).toNat ≤ (c - ch '0').toNat) : comAdminEditRemove arg f = some (-1, f) := by
  rw [comAdminEditRemove]
  cases hs : splitstr arg with
  | none => rfl
  | some p =>
      obtain ⟨word, sarg⟩ := p
      refine ite_eq (fun _ => rfl) fun hone => ite_eq (fun _ => rfl) fun _ => ?_
      obtain ⟨hlen, hdigit⟩ := not_or.mp hone
      obtain ⟨c, rfl⟩ : ∃ c, sarg = [c] := by
        rcases sarg with _ | ⟨c, _ | ⟨_, _⟩⟩
        · exact absurd (fun hzero => Nat.noConfusion hzero) hlen
        · exact ⟨c, rfl⟩
        · exact absurd (fun htwo => Nat.noConfusion (Nat.succ.inj htwo)) hlen
      rw [List.headD_cons, Bool.not_eq_false] at hdigit
      have hshort : ∀ t : FilterType, word = t.word → (t.length f).toNat ≤ (c - ch '0').toNat :=
        fun t hword => h t c (by rw [hs, hword]) hdigit
      exact ite_eq (fun hword => if_pos (hshort .srcmac hword)) fun _ =>
        ite_eq (fun hword => if_pos (hshort .dstmac hword)) fun _ =>
        ite_eq (fun hword => if_pos (hshort .srcip hword)) fun _ =>
        ite_eq (fun hword => if_pos (hshort .dstip hword)) fun _ =>
        ite_eq (fun hword => if_pos (hshort .srcport hword)) fun _ =>
        ite_eq (fun hword => if_pos (hshort .dstport hword)) fun _ =>
        ite_eq (fun hword => if_pos (hshort .dns hword)) fun _ => rfl

/-- **`remove` takes one item of one list.**  It takes an index of the list of a known type; and
everything else it refuses, and changes nothing. -/
theorem remove_lists (hf : f.Clean) (arg : Str) :
    (∃ (t : FilterType) (c : BitVec 8) (f' : Filter), splitstr arg = some (t.word, [c]) ∧ isdigit c = true ∧
      comAdminEditRemove arg f = some (0, f') ∧ Removed f t (c - ch '0').toNat f' ∧ f'.Clean) ∨
    ((∀ (t : FilterType) c, splitstr arg = some (t.word, [c]) → isdigit c = true →
        (t.length f).toNat ≤ (c - ch '0').toNat) ∧
      comAdminEditRemove arg f = some (-1, f)) := by
  by_cases h : ∀ (t : FilterType) c, splitstr arg = some (t.word, [c]) → isdigit c = true →
      (t.length f).toNat ≤ (c - ch '0').toNat
  · exact .inr ⟨h, remove_refused h⟩
  · refine .inl ?_
    push Not at h
    obtain ⟨t, c, hs, hdigit, hlt⟩ := h
    obtain ⟨f', hremove, hremoved, hclean⟩ := removeItem_removed hf hlt
    exact ⟨t, c, f', hs, hdigit, (remove_word hf hs hdigit hlt).trans hremove, hremoved, hclean⟩

/-! ## The edit commands -/

theorem Filter.Tidy.clean (hf : f.Tidy) : f.Clean := by
  intro t
  cases t with
  | srcmac => exact hf.srcMAC.map Item.mac
  | dstmac => exact hf.dstMAC.map Item.mac
  | srcip => exact hf.srcIP.map Item.ip
  | dstip => exact hf.dstIP.map Item.ip
  | srcport => exact hf.srcPort.map Item.port
  | dstport => exact hf.dstPort.map Item.port
  | dns => exact (hf.dns.zip hf.endPtr).map Item.dns

/-- Branches of `set`. -/
theorem ite_refused {c : Prop} [Decidable c] {a b : Int × Filter} (ha : a.1 = -1 → a.2 = f)
    (hb : b.1 = -1 → b.2 = f) : (if c then a else b).1 = -1 → (if c then a else b).2 = f := by
  split
  · exact ha
  · exact hb

theorem set_refused (arg : Str) (f : Filter) : (comAdminEditSet arg f).1 = -1 → (comAdminEditSet arg f).2 = f := by
  have hset : ∀ {f' : Filter}, ((0 : Int), f').1 = -1 → ((0 : Int), f').2 = f := by
    intro f' h
    exact absurd (show (0 : Int) = -1 from h) (by decide)
  rw [comAdminEditSet]
  cases splitstr arg with
  | none => exact fun _ => rfl
  | some p =>
      obtain ⟨word, sarg⟩ := p
      refine ite_refused ?_ (ite_refused ?_ fun _ => rfl)
      all_goals
        exact ite_refused hset <| ite_refused hset <| ite_refused hset <| ite_refused hset <|
          ite_refused hset <| ite_refused hset <| ite_refused hset <| ite_refused hset fun _ => rfl

/-- **The edit commands are operations on one list.**  On a clean filter `add` appends what it
has parsed to the list of its type, and `remove` takes the item of its index away, by the
last one; nothing else is changed, and a refused command changes nothing. -/
theorem edit_list_operations (f : Filter) (hf : f.Clean) (arg : Str) :
    ((∃ (t : FilterType) (sarg : Str) (x : Item) (f' : Filter), splitstr arg = some (t.word, sarg) ∧
        t.parse sarg = some x ∧ comAdminEditAddChecked arg f = some (0, f') ∧ Appended f t x f' ∧ f'.Clean) ∨
      ((∀ (t : FilterType) sarg, splitstr arg = some (t.word, sarg) → t.parse sarg = none ∨ t.length f = 2) ∧
        comAdminEditAddChecked arg f = some (-1, f))) ∧
    ((∃ (t : FilterType) (c : BitVec 8) (f' : Filter), splitstr arg = some (t.word, [c]) ∧ isdigit c = true ∧
        comAdminEditRemove arg f = some (0, f') ∧ Removed f t (c - ch '0').toNat f' ∧ f'.Clean) ∨
      ((∀ (t : FilterType) c, splitstr arg = some (t.word, [c]) → isdigit c = true →
          (t.length f).toNat ≤ (c - ch '0').toNat) ∧
        comAdminEditRemove arg f = some (-1, f))) ∧
    ((comAdminEditSet arg f).1 = -1 → (comAdminEditSet arg f).2 = f) :=
  ⟨add_lists hf arg, remove_lists hf arg, set_refused arg f⟩

/-- The first address of the configuration at start is removed. -/
theorem edit_list_operations_start :
    ((∃ (t : FilterType) (sarg : Str) (x : Item) (f' : Filter), splitstr (str "srcmac 0") = some (t.word, sarg) ∧
        t.parse sarg = some x ∧ comAdminEditAddChecked (str "srcmac 0") initialiseFpgaConfiguration = some (0, f') ∧
        Appended initialiseFpgaConfiguration t x f' ∧ f'.Clean) ∨
      ((∀ (t : FilterType) sarg, splitstr (str "srcmac 0") = some (t.word, sarg) →
          t.parse sarg = none ∨ t.length initialiseFpgaConfiguration = 2) ∧
        comAdminEditAddChecked (str "srcmac 0") initialiseFpgaConfiguration =
          some (-1, initialiseFpgaConfiguration))) ∧
    ((∃ (t : FilterType) (c : BitVec 8) (f' : Filter), splitstr (str "srcmac 0") = some (t.word, [c]) ∧
        isdigit c = true ∧ comAdminEditRemove (str "srcmac 0") initialiseFpgaConfiguration = some (0, f') ∧
        Removed initialiseFpgaConfiguration t (c - ch '0').toNat f' ∧ f'.Clean) ∨
      ((∀ (t : FilterType) c, splitstr (str "srcmac 0") = some (t.word, [c]) → isdigit c = true →
          (t.length initialiseFpgaConfiguration).toNat ≤ (c - ch '0').toNat) ∧
        comAdminEditRemove (str "srcmac 0") initialiseFpgaConfiguration =
          some (-1, initialiseFpgaConfiguration))) ∧
    ((comAdminEditSet (str "srcmac 0") initialiseFpgaConfiguration).1 = -1 →
      (comAdminEditSet (str "srcmac 0") initialiseFpgaConfiguration).2 = initialiseFpgaConfiguration) :=
  edit_list_operations initialiseFpgaConfiguration initial_tidy.clean (str "srcmac 0")

end DnsAdtm.Sw
