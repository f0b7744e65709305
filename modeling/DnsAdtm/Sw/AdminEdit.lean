/-
# `Sw.AdminEdit` — the edit commands (`string-ops.hh`, `admin-edit.hh`, `admin-edit-add.hh`)

A C string is the list of its bytes before the NUL.  The commands work on `f_curr`, here an
argument and a result next to the `int` they return; what they print is left out.  A store
behind the end of an array is dropped.

    splitstr                       the first word and the text behind its blank
    parseMac, parseIp, parsePort   the three kinds of filter content that are parsed
    comAdminEditAdd                `admin edit add [filter-type] [filter-content]`
    parsePort_decimal              a port in decimal is stored with its bytes swapped
-/
import DnsAdtm.Sw.Fpga

namespace DnsAdtm.Sw

/-- The bytes of a C string. -/
abbrev Str := List (BitVec 8)

def ch (c : Char) : BitVec 8 := BitVec.ofNat 8 c.toNat

/-- A string literal. -/
def str (s : String) : Str := s.toList.map ch

/-! ## `string-ops.hh` -/

def isspace (c : BitVec 8) : Bool := c == 0x20 || (0x09 ≤ c && c ≤ 0x0d)

/-- `splitstr`; `none` is `nullptr`. -/
def splitstr (s : Str) : Option (Str × Str) :=
  match s.dropWhile (!isspace ·) with
  | [] => none
  | _ :: rest => some (s.takeWhile (!isspace ·), rest)

theorem splitstr_word {w : Str} (hw : ∀ c ∈ w, isspace c = false) (s : Str) :
    splitstr (w ++ ch ' ' :: s) = some (w, s) := by
  have hkeep : ∀ c ∈ w, (!isspace c) = true := fun c hc => by rw [hw c hc]; rfl
  have hblank : (!isspace (ch ' ')) = false := by decide
  rw [splitstr, List.dropWhile_append_of_pos hkeep, List.takeWhile_append_of_pos hkeep,
    List.dropWhile_cons, List.takeWhile_cons, hblank]
  simp

/-! ## `admin-edit.hh` -/

def isdigit (c : BitVec 8) : Bool := ch '0' ≤ c && c ≤ ch '9'

def parseHex (c : BitVec 8) : BitVec 8 :=
  if ch '0' ≤ c ∧ c ≤ ch '9' then c - 48
  else if ch 'a' ≤ c ∧ c ≤ ch 'f' then c - 87
  else if ch 'A' ≤ c ∧ c ≤ ch 'F' then c - 55
  else 0

/-- The loop of `parse_mac`. -/
def parseMacFrom (mac : MacAddr) (curByte : BitVec 8) (j : Nat) : Str → MacAddr
  | [] => mac.setIfInBounds j curByte
  | c :: s =>
    if isdigit c ∨ ch 'a' ≤ c ∧ c ≤ ch 'f' ∨ ch 'A' ≤ c ∧ c ≤ ch 'F' then
      parseMacFrom mac ((curByte <<< 4) + parseHex c) j s
    else if c = ch ':' then parseMacFrom (mac.setIfInBounds j curByte) 0 (j + 1) s
    else mac

def parseMac (s : Str) : MacAddr :=
  if (s.take 18).length < 17 then .replicate 6 0 else parseMacFrom (.replicate 6 0) 0 0 (s.take 18)

/-- The loop of `parse_ip`. -/
def parseIpFrom (ip : IpAddr) (curNumber : BitVec 8) (j : Nat) : Str → IpAddr
  | [] => ip.setIfInBounds j curNumber
  | c :: s =>
    if isdigit c then parseIpFrom ip (curNumber * 10 + (c - 48)) j s
    else if c = ch '.' then parseIpFrom (ip.setIfInBounds j curNumber) 0 (j + 1) s
    else ip

def parseIp (s : Str) : IpAddr :=
  if (s.take 16).length < 7 then .replicate 4 0 else parseIpFrom (.replicate 4 0) 0 0 (s.take 16)

/-- The loop of `parse_port`. -/
def parsePortFrom (curNumber : BitVec 16) : Str → BitVec 16
  | [] => bswap16 curNumber
  | c :: s => if isdigit c then parsePortFrom (curNumber * 10 + (c - 48).setWidth 16) s else 0

def parsePort (s : Str) : BitVec 16 := parsePortFrom 0 (s.take 6)

/-! ## `admin-edit-add.hh` -/

/-- `memcpy(&item, s, len)` -/
def copyBytes (item : DnsFilterItem) (s : Str) : DnsFilterItem :=
  .ofFn fun j => s.getD j item[j]

def comAdminEditAdd (arg : Str) (f : Filter) : Int × Filter :=
  match splitstr arg with
  | none => (-1, f)
  | some (word, sarg) =>
    if word = str "srcmac" then
      if f.srcMACLength = 2 then (-1, f)
      else (0, { f with
        srcMACList := f.srcMACList.setIfInBounds f.srcMACLength.toNat (parseMac sarg)
        srcMACLength := f.srcMACLength + 1 })
    else if word = str "dstmac" then
      if f.dstMACLength = 2 then (-1, f)
      else (0, { f with
        dstMACList := f.dstMACList.setIfInBounds f.dstMACLength.toNat (parseMac sarg)
        dstMACLength := f.dstMACLength + 1 })
    else if word = str "srcip" then
      if f.srcIPLength = 2 then (-1, f)
      else (0, { f with
        srcIPList := f.srcIPList.setIfInBounds f.srcIPLength.toNat (parseIp sarg)
        srcIPLength := f.srcIPLength + 1 })
    else if word = str "dstip" then
      if f.dstIPLength = 2 then (-1, f)
      else (0, { f with
        dstIPList := f.dstIPList.setIfInBounds f.dstIPLength.toNat (parseIp sarg)
        dstIPLength := f.dstIPLength + 1 })
    else if word = str "srcport" then
      if f.srcPortLength = 2 then (-1, f)
      else (0, { f with
        srcPortList := f.srcPortList.setIfInBounds f.srcPortLength.toNat (parsePort sarg)
        srcPortLength := f.srcPortLength + 1 })
    else if word = str "dstport" then
      if f.dstPortLength = 2 then (-1, f)
      else (0, { f with
        dstPortList := f.dstPortList.setIfInBounds f.dstPortLength.toNat (parsePort sarg)
        dstPortLength := f.dstPortLength + 1 })
    else if word = str "dns" then
      if f.dnsLength = 2 then (-1, f)
      -- more than 16 bytes: no item, and no change
      else if 16 < (sarg.take 17).length then (-1, f)
      else (0, { f with
        dnsList := f.dnsList.setIfInBounds f.dnsLength.toNat
          (copyBytes (f.dnsList.getD f.dnsLength.toNat (.replicate 16 0)) sarg)
        dnsItemEndPtr := f.dnsItemEndPtr.setIfInBounds f.dnsLength.toNat
          (BitVec.ofNat 8 (sarg.length * 8))
        dnsLength := f.dnsLength + 1 })
    else (-1, f)

/-! ## Ports in decimal -/

/-- The decimal digits of a number. -/
def decimal (n : Nat) : Str := (Nat.toDigits 10 n).map ch

theorem toNat_ch_digit {c : Char} (h : c.isDigit = true) :
    48 ≤ c.toNat ∧ c.toNat ≤ 57 ∧ (ch c).toNat = c.toNat := by
  obtain ⟨hlo, hhi⟩ := Char.isDigit_iff_toNat.mp h
  have hlo' : 48 ≤ c.toNat := hlo
  have hhi' : c.toNat ≤ 57 := hhi
  refine ⟨hlo', hhi', ?_⟩
  rw [ch, BitVec.toNat_ofNat]
  omega

theorem isdigit_ch {c : Char} (h : c.isDigit = true) : isdigit (ch c) = true := by
  obtain ⟨hlo, hhi, hval⟩ := toNat_ch_digit h
  have h0 : ch '0' ≤ ch c := by
    rw [BitVec.le_def, hval]
    exact hlo
  have h9 : ch c ≤ ch '9' := by
    rw [BitVec.le_def, hval]
    exact hhi
  simp [isdigit, h0, h9]

/-- The loop adds up the digits, modulo the width of its number. -/
theorem parsePortFrom_digits (cs : List Char) (hcs : ∀ c ∈ cs, c.isDigit = true) (n : Nat) :
    parsePortFrom (BitVec.ofNat 16 n) (cs.map ch) =
      bswap16 (BitVec.ofNat 16 (Nat.ofDigitChars 10 cs n)) := by
  induction cs generalizing n with
  | nil => rfl
  | cons c cs ih =>
      have hc := hcs c List.mem_cons_self
      obtain ⟨hlo, hhi, hval⟩ := toNat_ch_digit hc
      have hdigit : BitVec.ofNat 16 n * 10 + (ch c - 48).setWidth 16 =
          BitVec.ofNat 16 (10 * n + (c.toNat - '0'.toNat)) := by
        apply BitVec.eq_of_toNat_eq
        have hsub : (ch c - 48).toNat = c.toNat - '0'.toNat := by
          rw [BitVec.toNat_sub, hval]
          show (2 ^ 8 - 48 + c.toNat) % 2 ^ 8 = c.toNat - 48
          omega
        rw [BitVec.toNat_add, BitVec.toNat_mul, BitVec.toNat_setWidth, hsub, BitVec.toNat_ofNat,
          BitVec.toNat_ofNat]
        show (n % 2 ^ 16 * 10 % 2 ^ 16 + (c.toNat - 48) % 2 ^ 16) % 2 ^ 16 =
          (10 * n + (c.toNat - 48)) % 2 ^ 16
        omega
      rw [List.map_cons, parsePortFrom, if_pos (isdigit_ch hc), hdigit,
        ih (fun d hd => hcs d (List.mem_cons_of_mem _ hd)), Nat.ofDigitChars_cons]

theorem parsePort_decimal {n : Nat} (hn : n < 65536) :
    parsePort (decimal n) = bswap16 (BitVec.ofNat 16 n) := by
  have hlen : (Nat.toDigits 10 n).length ≤ 6 := by
    rw [Nat.length_toDigits_le_iff (by decide) (by decide)]
    omega
  have hdigits : ∀ c ∈ Nat.toDigits 10 n, c.isDigit = true := fun c hc =>
    Nat.isDigit_of_mem_toDigits (by decide) (by decide) hc
  have htake : (decimal n).take 6 = (Nat.toDigits 10 n).map ch :=
    List.take_of_length_le (by rw [decimal, List.length_map]; exact hlen)
  rw [parsePort, htake]
  exact (parsePortFrom_digits _ hdigits 0).trans (by rw [Nat.ofDigitChars_toDigits (by decide) (by decide)])

end DnsAdtm.Sw
