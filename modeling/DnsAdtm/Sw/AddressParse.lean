/-
# `Sw.AddressParse` — the stores of `parse_mac` and `parse_ip` (`admin-edit.hh`)

Both loops fill an array on the stack, of 6 and of 4 bytes, and move on to its next byte at
every ':' or '.' of the text.  Nothing but the length of the text bounds them.

    macScan, ipScan         the loops
    macStores, ipStores     the stores, slot and value
    parseMac_eq_stores      which make the address
    parse_in_bounds_iff     the texts on which they stay inside
-/
import DnsAdtm.Lib.FieldScan
import DnsAdtm.Sw.AdminEdit

namespace DnsAdtm.Sw

open FieldScan

/-- A hexadecimal digit, to `parse_mac`. -/
def isHex (c : BitVec 8) : Bool :=
  decide (isdigit c ∨ ch 'a' ≤ c ∧ c ≤ ch 'f' ∨ ch 'A' ≤ c ∧ c ≤ ch 'F')

/-- The loop of `parse_mac`. -/
def macScan : Scanner (BitVec 8) (BitVec 8) where
  digit := isHex
  sep := ch ':'
  step curByte c := (curByte <<< 4) + parseHex c
  zero := 0
  sep_not_digit := by decide

/-- The loop of `parse_ip`. -/
def ipScan : Scanner (BitVec 8) (BitVec 8) where
  digit := isdigit
  sep := ch '.'
  step curNumber c := curNumber * 10 + (c - 48)
  zero := 0
  sep_not_digit := by decide

/-- The stores of `parse_mac` into `mac.byte`. -/
def macStores (s : Str) : List (Nat × BitVec 8) :=
  if (s.take 18).length < 17 then [] else macScan.stores 0 0 (s.take 18)

/-- The stores of `parse_ip` into `ip.num`. -/
def ipStores (s : Str) : List (Nat × BitVec 8) :=
  if (s.take 16).length < 7 then [] else ipScan.stores 0 0 (s.take 16)

/-! ## The parsers make these stores -/

theorem parseMacFrom_eq (s : Str) (mac : MacAddr) (curByte : BitVec 8) (j : Nat) :
    parseMacFrom mac curByte j s = storeAll mac (macScan.stores curByte j s) := by
  induction s generalizing mac curByte j with
  | nil => rfl
  | cons c s ih =>
      rw [parseMacFrom, Scanner.stores]
      have hdigit : macScan.digit c = true ↔
          isdigit c ∨ ch 'a' ≤ c ∧ c ≤ ch 'f' ∨ ch 'A' ≤ c ∧ c ≤ ch 'F' := decide_eq_true_iff
      simp only [hdigit]
      split
      · exact ih ..
      · show (if c = ch ':' then _ else _) = storeAll mac (if c = ch ':' then _ else _)
        split
        · exact ih ..
        · rfl

theorem parseIpFrom_eq (s : Str) (ip : IpAddr) (curNumber : BitVec 8) (j : Nat) :
    parseIpFrom ip curNumber j s = storeAll ip (ipScan.stores curNumber j s) := by
  induction s generalizing ip curNumber j with
  | nil => rfl
  | cons c s ih =>
      rw [parseIpFrom, Scanner.stores]
      show (if isdigit c then _ else if c = ch '.' then _ else _) =
        storeAll ip (if isdigit c then _ else if c = ch '.' then _ else _)
      split
      · exact ih ..
      · split
        · exact ih ..
        · rfl

theorem parseMac_eq_stores (s : Str) : parseMac s = storeAll (.replicate 6 0) (macStores s) := by
  rw [parseMac, macStores]
  split
  · rfl
  · exact parseMacFrom_eq ..

theorem parseIp_eq_stores (s : Str) : parseIp s = storeAll (.replicate 4 0) (ipStores s) := by
  rw [parseIp, ipStores]
  split
  · rfl
  · exact parseIpFrom_eq ..

/-! ## Where they stay inside -/

/-- A guarded loop makes no store, or as many as its text asks for. -/
theorem guarded_lt_iff {S : Scanner (BitVec 8) (BitVec 8)} {c : Prop} [Decidable c] {acc : BitVec 8} {s : Str}
    {n : Nat} : (∀ x ∈ if c then [] else S.stores acc 0 s, x.1 < n) ↔ c ∨ S.storeCount s ≤ n := by
  by_cases hc : c
  · simp [hc]
  · rw [if_neg hc, stores_lt_iff]
    simp [hc]

/-- **The address parsers stay inside their arrays** on exactly the texts that are too short
for them, or of whose first 18 (16) characters at most 6 (4) end a byte: each ':' ('.') before
any other character does, and, where there is no other character, the end of the text. -/
theorem parse_in_bounds_iff (s : Str) :
    ((∀ x ∈ macStores s, x.1 < 6) ∧ (∀ x ∈ ipStores s, x.1 < 4)) ↔
      (s.length < 17 ∨ macScan.storeCount (s.take 18) ≤ 6) ∧
        (s.length < 7 ∨ ipScan.storeCount (s.take 16) ≤ 4) := by
  have hmac : (s.take 18).length < 17 ↔ s.length < 17 := by
    rw [List.length_take]
    omega
  have hip : (s.take 16).length < 7 ↔ s.length < 7 := by
    rw [List.length_take]
    omega
  rw [macStores, ipStores, guarded_lt_iff, guarded_lt_iff, hmac, hip]

/-- Seventeen colons. -/
theorem parse_mac_outside :
    ¬ ∀ s : Str, (∀ x ∈ macStores s, x.1 < 6) ∧ (∀ x ∈ ipStores s, x.1 < 4) := by
  intro h
  have hmem : ((6, 0) : Nat × BitVec 8) ∈ macStores (str ":::::::::::::::::") := by decide
  exact absurd ((h _).1 _ hmem) (by decide)

end DnsAdtm.Sw
