/-
# `Sw.AdminCommands` — runs of the commands that edit `f_curr`

`admin-edit-remove.hh`, `admin-edit-set.hh`, `admin-load.hh`, and `admin-edit-add.hh` once more
with its array accesses checked.  A command has no result (`none`) where it reads or writes a
slot that its list does not have.

    addItem, removeItem              what every branch of `add` and `remove` does to its list
    comAdminEditAddChecked           `admin edit add`, and `comAdminEditAdd` is what it computes
    comAdminEditRemove, -Set, -Load  the other three
    initialiseFpgaConfiguration      `f_curr` at start
    runs                             a run of commands
-/
import DnsAdtm.Lib.BoundedList
import DnsAdtm.Sw.AdminEdit
import DnsAdtm.Sw.ProbeCheck

namespace DnsAdtm.Sw

open BoundedList

/-! ## `admin edit add` -/

/-- `list[length++] = item`, unless the list is full. -/
def addItem {α : Type} (length : BitVec 2) (list : Vector α filterDepth) (item : α) (f : Filter)
    (put : BitVec 2 → Vector α filterDepth → Filter) : Option (Int × Filter) :=
  if length = 2 then some (-1, f)
  else (storeAt list length.toNat item).map fun list => (0, put (length + 1) list)

def comAdminEditAddChecked (arg : Str) (f : Filter) : Option (Int × Filter) :=
  match splitstr arg with
  | none => some (-1, f)
  | some (word, sarg) =>
    if word = str "srcmac" then
      addItem f.srcMACLength f.srcMACList (parseMac sarg) f fun length list =>
        { f with srcMACList := list, srcMACLength := length }
    else if word = str "dstmac" then
      addItem f.dstMACLength f.dstMACList (parseMac sarg) f fun length list =>
        { f with dstMACList := list, dstMACLength := length }
    else if word = str "srcip" then
      addItem f.srcIPLength f.srcIPList (parseIp sarg) f fun length list =>
        { f with srcIPList := list, srcIPLength := length }
    else if word = str "dstip" then
      addItem f.dstIPLength f.dstIPList (parseIp sarg) f fun length list =>
        { f with dstIPList := list, dstIPLength := length }
    else if word = str "srcport" then
      addItem f.srcPortLength f.srcPortList (parsePort sarg) f fun length list =>
        { f with srcPortList := list, srcPortLength := length }
    else if word = str "dstport" then
      addItem f.dstPortLength f.dstPortList (parsePort sarg) f fun length list =>
        { f with dstPortList := list, dstPortLength := length }
    else if word = str "dns" then
      if f.dnsLength = 2 then some (-1, f)
      else if 16 < (sarg.take 17).length then some (-1, f)
      else do
        let item ← f.dnsList[f.dnsLength.toNat]?
        let list ← storeAt f.dnsList f.dnsLength.toNat (copyBytes item sarg)
        let endPtr ← storeAt f.dnsItemEndPtr f.dnsLength.toNat (BitVec.ofNat 8 (sarg.length * 8))
        some (0, { f with dnsList := list, dnsItemEndPtr := endPtr, dnsLength := f.dnsLength + 1 })
    else some (-1, f)

/-! ## `admin edit remove` -/

/-- `length--; list[index] = list[length]; list[length] = {}`, unless the index is not one of
the list. -/
def removeItem {α : Type} (length : BitVec 2) (zero : α) (list : Vector α filterDepth) (index : Nat)
    (f : Filter) (put : BitVec 2 → Vector α filterDepth → Filter) : Option (Int × Filter) :=
  if length.toNat ≤ index then some (-1, f)
  else (moveLast zero list index (length - 1).toNat).map fun list => (0, put (length - 1) list)

def comAdminEditRemove (arg : Str) (f : Filter) : Option (Int × Filter) :=
  match splitstr arg with
  | none => some (-1, f)
  | some (word, sarg) =>
    if (sarg.take 2).length ≠ 1 ∨ isdigit (sarg.headD 0) = false then some (-1, f)
    else
      let index := (sarg.headD 0 - ch '0').toNat
      if filterDepth ≤ index then some (-1, f)
      else if word = str "srcmac" then
        removeItem f.srcMACLength (.replicate 6 0) f.srcMACList index f fun length list =>
          { f with srcMACLength := length, srcMACList := list }
      else if word = str "dstmac" then
        removeItem f.dstMACLength (.replicate 6 0) f.dstMACList index f fun length list =>
          { f with dstMACLength := length, dstMACList := list }
      else if word = str "srcip" then
        removeItem f.srcIPLength (.replicate 4 0) f.srcIPList index f fun length list =>
          { f with srcIPLength := length, srcIPList := list }
      else if word = str "dstip" then
        removeItem f.dstIPLength (.replicate 4 0) f.dstIPList index f fun length list =>
          { f with dstIPLength := length, dstIPList := list }
      else if word = str "srcport" then
        removeItem f.srcPortLength 0 f.srcPortList index f fun length list =>
          { f with srcPortLength := length, srcPortList := list }
      else if word = str "dstport" then
        removeItem f.dstPortLength 0 f.dstPortList index f fun length list =>
          { f with dstPortLength := length, dstPortList := list }
      else if word = str "dns" then
        if f.dnsLength.toNat ≤ index then some (-1, f)
        else do
          let length := f.dnsLength - 1
          let list ← moveLast (.replicate 16 0) f.dnsList index length.toNat
          let endPtr ← moveLast 0 f.dnsItemEndPtr index length.toNat
          some (0, { f with dnsLength := length, dnsList := list, dnsItemEndPtr := endPtr })
      else some (-1, f)

/-! ## `admin edit set` and `admin load` -/

def comAdminEditSet (arg : Str) (f : Filter) : Int × Filter :=
  match splitstr arg with
  | none => (-1, f)
  | some (word, sarg) =>
    let set (bw : BitVec 1) : Int × Filter :=
      if word = str "srcmac" then (0, { f with srcMACBW := bw })
      else if word = str "dstmac" then (0, { f with dstMACBW := bw })
      else if word = str "srcip" then (0, { f with srcIPBW := bw })
      else if word = str "dstip" then (0, { f with dstIPBW := bw })
      else if word = str "srcport" then (0, { f with srcPortBW := bw })
      else if word = str "dstport" then (0, { f with dstPortBW := bw })
      else if word = str "dns" then (0, { f with dnsBW := bw })
      else if word = str "reply" then (0, { f with replyType := bw })
      else (-1, f)
    if sarg = str "black" ∨ sarg = str "payload" then set 0
    else if sarg = str "white" ∨ sarg = str "dns" then set 1
    else (-1, f)

/-- `com_admin_load` of a file with these bytes; `none` is a file that is not found. -/
def comAdminLoad (file : Option (List (BitVec 8))) (f : Filter) : Int × Filter :=
  match file with
  | none => (-1, f)
  | some bytes =>
    let filePayload := bytes.take bufferSize
    (0, parseAdminBin f filePayload filePayload.length)

/-! ## Runs -/

/-- A command that changes `f_curr`. -/
inductive Command where
  | add (arg : Str)
  | remove (arg : Str)
  | set (arg : Str)
  | load (file : Option (List (BitVec 8)))

def Command.run (f : Filter) : Command → Option (Int × Filter)
  | .add arg => comAdminEditAddChecked arg f
  | .remove arg => comAdminEditRemove arg f
  | .set arg => some (comAdminEditSet arg f)
  | .load file => some (comAdminLoad file f)

/-- `f_curr` behind a run of commands. -/
def runs (f : Filter) (cs : List Command) : Option Filter :=
  cs.foldlM (fun f c => (c.run f).map (·.2)) f

/-- `initialise_fpga_configuration` -/
def initialiseFpgaConfiguration : Filter where
  srcMACBW := 1
  srcMACLength := 1
  srcMACList := #v[#v[0x00, 0x0c, 0x29, 0x5f, 0x29, 0xae], .replicate 6 0]
  dstMACBW := 0
  dstMACLength := 1
  dstMACList := #v[#v[0x00, 0x0a, 0x35, 0xff, 0xff, 0xff], .replicate 6 0]
  srcIPBW := 1
  srcIPLength := 2
  srcIPList := #v[#v[0, 0, 0, 0], #v[192, 168, 255, 255]]
  dstIPBW := 0
  dstIPLength := 2
  dstIPList := #v[#v[1, 2, 3, 4], #v[255, 255, 255, 255]]
  srcPortBW := 1
  srcPortLength := 2
  srcPortList := #v[53, 12345]
  dstPortBW := 1
  dstPortLength := 2
  dstPortList := #v[53, 23456]
  dnsBW := 0
  dnsLength := 2
  dnsItemEndPtr := #v[9 * 8, 10 * 8]
  dnsList := #v[copyBytes (.replicate 16 0) (str "apple.com"), copyBytes (.replicate 16 0) (str "google.com")]
  replyType := 0

/-! ## The checked `add` computes the unchecked one -/

theorem addItem_eq {α : Type} {length : BitVec 2} {list : Vector α filterDepth} {item : α} {f : Filter}
    {put : BitVec 2 → Vector α filterDepth → Filter} {r : Int × Filter}
    (h : addItem length list item f put = some r) :
    (if length = 2 then (-1, f) else (0, put (length + 1) (list.setIfInBounds length.toNat item))) = r := by
  rw [addItem] at h
  split at h
  case isTrue hfull => rw [if_pos hfull, Option.some.inj h]
  case isFalse hroom =>
      obtain ⟨list', hstore, rfl⟩ := Option.map_eq_some_iff.mp h
      rw [if_neg hroom, storeAt_eq_some hstore]

/-- One branch of `add` at a time. -/
theorem branch_eq {c : Prop} [Decidable c] {a b : Option (Int × Filter)} {a' b' r : Int × Filter}
    (ha : a = some r → a' = r) (hb : b = some r → b' = r) :
    (if c then a else b) = some r → (if c then a' else b') = r := by
  intro h
  split at h
  case isTrue hc => exact (if_pos hc).trans (ha h)
  case isFalse hc => exact (if_neg hc).trans (hb h)

/-- Where `add` has a result, it is the one of `comAdminEditAdd`. -/
theorem comAdminEditAddChecked_eq {arg : Str} {f : Filter} {r : Int × Filter}
    (h : comAdminEditAddChecked arg f = some r) : comAdminEditAdd arg f = r := by
  rw [comAdminEditAddChecked] at h
  rw [comAdminEditAdd]
  cases hs : splitstr arg with
  | none => exact Option.some.inj (by rwa [hs] at h)
  | some p =>
      obtain ⟨word, sarg⟩ := p
      rw [hs] at h
      refine branch_eq addItem_eq (branch_eq addItem_eq (branch_eq addItem_eq (branch_eq addItem_eq
        (branch_eq addItem_eq (branch_eq addItem_eq (branch_eq ?_ Option.some.inj)))))) h
      refine branch_eq Option.some.inj (branch_eq Option.some.inj ?_)
      intro h
      obtain ⟨item, hitem, h⟩ := Option.bind_eq_some_iff.mp h
      obtain ⟨list, hlist, h⟩ := Option.bind_eq_some_iff.mp h
      obtain ⟨endPtr, hendPtr, h⟩ := Option.bind_eq_some_iff.mp h
      rw [← Option.some.inj h, ← storeAt_eq_some hlist, ← storeAt_eq_some hendPtr]
      obtain ⟨hlt, rfl⟩ := Vector.getElem?_eq_some_iff.mp hitem
      have hread : f.dnsList.getD f.dnsLength.toNat (.replicate 16 0) = f.dnsList[f.dnsLength.toNat] := by
        rw [Vector.getD, Array.getD_eq_getD_getElem?, Array.getElem?_eq_getElem (by simpa using hlt)]
        rfl
      rw [hread]

end DnsAdtm.Sw
