/-
# `Sw.CheckerMain` — the main routine of `crc32-checker.c`

For each argument the file is read into a buffer by `fscanf(fp, "%" SCNx8, …)`, the bytes before
the last four go through `cm_nxt`, and the result is compared with the last four.  The counter
`j` has eight bits and the limit `max` sixteen; the flag and the frame size are `static`, and
nothing sets them back between two files.

    feedLoop_eq           a limit of 255 at most is reached
    feedLoop_diverges     a limit from 256 on never is
    crcChecker_terminates_iff   a frame alone is checked where it has 259 bytes at most
    crcChecker_independent_iff  a later file gets the verdict of a frame of zeros
-/
import DnsAdtm.Sw.Crc32Checker
import DnsAdtm.Sw.AdminEdit

namespace DnsAdtm.Sw

open Crc

/-! ## `fscanf(fp, "%" SCNx8, …)` -/

def isxdigit (c : BitVec 8) : Bool :=
  isdigit c || (ch 'a' ≤ c && c ≤ ch 'f') || (ch 'A' ≤ c && c ≤ ch 'F')

/-- The value of hexadecimal digits. -/
def hexValue (digits : Str) : Nat :=
  digits.foldl (fun v c => 16 * v + (parseHex c).toNat) 0

/-- What a call finds: the end of the file, no number, or a byte and the rest of the file. -/
inductive Scanned where
  | eof
  | failed
  | byte (b : BitVec 8) (rest : Str)
  deriving DecidableEq, Repr

/-- The sign, and what follows it. -/
def skipSign : Str → Bool × Str
  | [] => (false, [])
  | c :: s => if c = ch '-' then (true, s) else if c = ch '+' then (false, s) else (false, c :: s)

/-- What follows `0x`. -/
def skipRadix : Str → Str
  | z :: x :: s => if z = ch '0' ∧ (x = ch 'x' ∨ x = ch 'X') then s else z :: x :: s
  | s => s

/-- The conversion `hhx`: a number as `strtoul` takes it, of which the low byte is stored. -/
def scanHex8 (text : Str) : Scanned :=
  match text.dropWhile isspace with
  | [] => .eof
  | c :: s =>
    let signed := skipSign (c :: s)
    let s := skipRadix signed.2
    let digits := s.takeWhile isxdigit
    if digits = [] then .failed
    else
      let v := BitVec.ofNat 8 (hexValue digits)
      -- a number too large is `ULONG_MAX`, whatever its sign
      let v := if 2 ^ 64 ≤ hexValue digits then 0xff else if signed.1 then -v else v
      .byte v (s.dropWhile isxdigit)

/-! ## Reading a file -/

/-- `MAX_FRAME_SIZE` -/
def maxFrameSize : Nat := 10000

/-- `EOF`, in the 32 bits of `file_ret`. -/
def eof : BitVec 32 := 0xffffffff

/-- What the reading loop works on, with the bytes it prints. -/
structure Reading where
  fileRet : BitVec 32
  frameSz : BitVec 16
  crcBuffer : List (BitVec 8)
  text : Str
  printed : List (BitVec 8)

/-- The reading loop; `none` is `exit(-1)`. -/
def readTurns : Nat → Reading → Option Reading
  | 0, r => some r
  | n + 1, r =>
    if r.fileRet ≠ eof ∧ r.frameSz.toNat < maxFrameSize then
      match scanHex8 r.text with
      | .eof => some { r with fileRet := eof }
      | .failed => none
      | .byte b text => readTurns n {
          fileRet := 1
          frameSz := r.frameSz + 1
          crcBuffer := r.crcBuffer.set r.frameSz.toNat b
          text
          printed := r.printed ++ [b] }
    else some r

/-- Every turn but the last reads a byte, so that there are at most `MAX_FRAME_SIZE` of them. -/
def readLoop (r : Reading) : Option Reading := readTurns maxFrameSize r

/-! ## Feeding the bytes -/

/-- The counter and the CRC context, with the bytes that `cm_nxt` has had. -/
structure Feeding where
  j : BitVec 8
  cm : Cm
  fed : List (BitVec 8)

/-- The loop over the bytes, for `fuel` turns: `none`, it has not ended. -/
def feedLoop (crcBuffer : List (BitVec 8)) (max : BitVec 16) : Nat → Feeding → Option Feeding
  | 0, _ => none
  | fuel + 1, f =>
    if (f.j.toNat : Int) < max.toInt then
      let b := crcBuffer.getD f.j.toNat 0
      feedLoop crcBuffer max fuel ⟨f.j + 1, cmNxt f.cm (b.setWidth 32), f.fed ++ [b]⟩
    else some f

/-- `frame_fcs`; `none`, a byte in front of the buffer is read. -/
def frameFcs (crcBuffer : List (BitVec 8)) (frameSz : BitVec 16) : Option (BitVec 32) :=
  if frameSz.toNat < 4 then none
  else
    let byte k := (crcBuffer.getD (frameSz.toNat - k) 0).setWidth 32
    some ((byte 1 <<< 24) ||| (byte 2 <<< 16) ||| (byte 3 <<< 8) ||| byte 4)

/-! ## `main` -/

/-- What is printed for a file, with the bytes that `cm_nxt` has had. -/
structure Report where
  name : Str
  printed : List (BitVec 8)
  frameSz : BitVec 16
  fed : List (BitVec 8)
  crc : BitVec 32
  frameFcs : BitVec 32
  matched : Bool
  deriving DecidableEq, Repr

inductive Line where
  | cantOpen (name : Str)
  | frame (r : Report)
  deriving DecidableEq, Repr

/-- What `main` has printed, and the status it exits with. -/
structure Exit where
  lines : List Line
  status : Int
  deriving DecidableEq, Repr

/-- What `main` keeps from one file to the next. -/
structure Kept where
  fileRet : BitVec 32
  frameSz : BitVec 16
  cm : Cm

/-- One file: no report is `exit(-1)`. -/
def checkFile (fuel : Nat) (name text : Str) (k : Kept) : Option (Option Report × Kept) :=
  match readLoop ⟨k.fileRet, k.frameSz, List.replicate maxFrameSize 0, text, []⟩ with
  | none => some (none, k)
  | some r => do
    let max := r.frameSz - 4
    let f ← feedLoop r.crcBuffer max fuel ⟨0, cmIni k.cm, []⟩
    let crc := cmCrc f.cm &&& 0xffffffff
    let frameFcs ← frameFcs r.crcBuffer r.frameSz
    some (some ⟨name, r.printed, r.frameSz, f.fed, crc, frameFcs, crc == frameFcs⟩, ⟨r.fileRet, r.frameSz, f.cm⟩)

/-- The loop over the arguments. -/
def checkFiles (fuel : Nat) (fopen : Str → Option Str) : Kept → List Line → List Str → Option Exit
  | _, lines, [] => some ⟨lines, 0⟩
  | k, lines, name :: names =>
    match fopen name with
    | none => checkFiles fuel fopen k (lines ++ [.cantOpen name]) names
    | some text =>
      match checkFile fuel name text k with
      | none => none
      | some (none, _) => some ⟨lines, -1⟩
      | some (some r, k) => checkFiles fuel fopen k (lines ++ [.frame r]) names

/-- `main`, over files with the texts that `fopen` gives; `none`, a loop has not ended within
`fuel` turns, or what is read is no memory of the program (the file of no argument at all). -/
def crcChecker (fuel : Nat) (fopen : Str → Option Str) : List Str → Option Exit
  | [] => none
  | names => checkFiles fuel fopen ⟨0, 0, crc32⟩ [] names

/-! ## Frame files -/

/-- A byte in hexadecimal, with or without `0x`. -/
structure HexToken (b : BitVec 8) (token : Str) : Prop where
  shape : ∃ radix ∈ [[], str "0x", str "0X"], ∃ digits : Str,
    token = radix ++ digits ∧ digits ≠ [] ∧ (∀ c ∈ digits, isxdigit c = true) ∧ hexValue digits = b.toNat

/-- The text of a frame: its bytes in hexadecimal, with blanks between them. -/
inductive FrameFile : List (BitVec 8) → Str → Prop
  | done {blanks : Str} : (∀ c ∈ blanks, isspace c = true) → FrameFile [] blanks
  | byte {b : BitVec 8} {bytes : List (BitVec 8)} {blanks token text : Str} :
      (∀ c ∈ blanks, isspace c = true) → HexToken b token → (∀ c ∈ text.head?, isspace c = true) →
      FrameFile bytes text → FrameFile (b :: bytes) (blanks ++ token ++ text)

/-- The CRC-32 of a message: the register takes the bits of each byte low bit first. -/
def crc32Of (bytes : List (BitVec 8)) : BitVec 32 :=
  ~~~(downs (0x04C11DB7 : BitVec 32).reverse 0xFFFFFFFF (bytes.flatMap bitsOf))

/-! ### The scanner on them -/

theorem isspace_not_isxdigit : ∀ c : BitVec 8, isspace c = true → isxdigit c = false := by decide +kernel

theorem isxdigit_not_sign : ∀ c : BitVec 8, isxdigit c = true →
    isspace c = false ∧ c ≠ ch '-' ∧ c ≠ ch '+' ∧ c ≠ ch 'x' ∧ c ≠ ch 'X' := by decide +kernel

theorem isspace_not_radix : ∀ c : BitVec 8, isspace c = true → c ≠ ch 'x' ∧ c ≠ ch 'X' := by decide +kernel

/-- Digits up to a blank or the end. -/
theorem takeWhile_digits {digits text : Str} (hdigits : ∀ c ∈ digits, isxdigit c = true)
    (htext : ∀ c ∈ text.head?, isspace c = true) :
    (digits ++ text).takeWhile isxdigit = digits ∧ (digits ++ text).dropWhile isxdigit = text := by
  rw [List.takeWhile_append_of_pos hdigits, List.dropWhile_append_of_pos hdigits]
  cases text with
  | nil => simp
  | cons c text =>
      have hc : isxdigit c = false := isspace_not_isxdigit c (htext c rfl)
      simp [hc]

/-- No `0x` stands in front of digits that have none. -/
theorem skipRadix_digits {digits text : Str} (hne : digits ≠ []) (hdigits : ∀ c ∈ digits, isxdigit c = true)
    (htext : ∀ c ∈ text.head?, isspace c = true) : skipRadix (digits ++ text) = digits ++ text := by
  have hsecond : ∀ z x s, digits ++ text = z :: x :: s → x ≠ ch 'x' ∧ x ≠ ch 'X' := by
    intro z x s hs
    match digits, hne with
    | [d], _ =>
        simp only [List.cons_append, List.nil_append, List.cons.injEq] at hs
        exact isspace_not_radix x (htext x (by rw [hs.2]; rfl))
    | d :: d' :: ds, _ =>
        simp only [List.cons_append, List.cons.injEq] at hs
        rw [← hs.2.1]
        exact (isxdigit_not_sign d' (hdigits d' (by simp))).2.2.2
  generalize digits ++ text = whole at hsecond ⊢
  match whole with
  | [] => rfl
  | [z] => rfl
  | z :: x :: s =>
      obtain ⟨hlower, hupper⟩ := hsecond z x s rfl
      simp [skipRadix, hlower, hupper]

theorem scanHex8_blanks {blanks : Str} (hblanks : ∀ c ∈ blanks, isspace c = true) : scanHex8 blanks = .eof := by
  rw [scanHex8, List.dropWhile_eq_nil_iff.2 hblanks]

/-- A token is read as its byte. -/
theorem scanHex8_token {b : BitVec 8} {blanks token text : Str} (hblanks : ∀ c ∈ blanks, isspace c = true)
    (htoken : HexToken b token) (htext : ∀ c ∈ text.head?, isspace c = true) :
    scanHex8 (blanks ++ token ++ text) = .byte b text := by
  obtain ⟨radix, hradix, digits, rfl, hne, hdigits, hvalue⟩ := htoken
  have hread := takeWhile_digits hdigits htext
  -- the first character is the first digit or the `0` of the radix, and no blank or sign
  have hskip : ∃ c s, radix ++ digits ++ text = c :: s ∧ isspace c = false ∧
      skipSign (c :: s) = (false, c :: s) ∧ skipRadix (c :: s) = digits ++ text := by
    have hfirst : ∃ c s, radix ++ digits ++ text = c :: s ∧ isxdigit c = true := by
      simp only [List.mem_cons, List.not_mem_nil, or_false] at hradix
      rcases hradix with rfl | rfl | rfl
      · obtain ⟨d, ds, rfl⟩ := List.exists_cons_of_ne_nil hne
        exact ⟨d, ds ++ text, rfl, hdigits d List.mem_cons_self⟩
      · exact ⟨ch '0', ch 'x' :: (digits ++ text), rfl, by decide⟩
      · exact ⟨ch '0', ch 'X' :: (digits ++ text), rfl, by decide⟩
    obtain ⟨c, s, hcs, hc⟩ := hfirst
    obtain ⟨hspace, hminus, hplus, -⟩ := isxdigit_not_sign c hc
    refine ⟨c, s, hcs, hspace, by simp [skipSign, hminus, hplus], ?_⟩
    rw [← hcs]
    simp only [List.mem_cons, List.not_mem_nil, or_false] at hradix
    rcases hradix with rfl | rfl | rfl
    · exact skipRadix_digits hne hdigits htext
    · rfl
    · rfl
  obtain ⟨c, s, hcs, hspace, hsign, hradix'⟩ := hskip
  have hsmall : ¬ 2 ^ 64 ≤ b.toNat := by have := b.isLt; omega
  have hdrop : (blanks ++ (radix ++ digits) ++ text).dropWhile isspace = c :: s := by
    rw [List.append_assoc, List.dropWhile_append_of_pos hblanks, hcs, List.dropWhile_cons, hspace]
    simp
  rw [scanHex8, hdrop]
  simp only [hsign, hradix', hread, hvalue, if_neg hne, if_neg hsmall, BitVec.ofNat_toNat, BitVec.setWidth_eq]
  rfl

/-! ### The reading loop on them -/

/-- A frame is read to its end, or until the buffer is full. -/
theorem readTurns_file {bytes : List (BitVec 8)} {text : Str} (hfile : FrameFile bytes text) {r : Reading}
    (hret : r.fileRet ≠ eof) (htext : r.text = text) (seen : List (BitVec 8)) (hsz : r.frameSz.toNat = seen.length)
    (hfits : seen.length + bytes.length ≤ maxFrameSize)
    (hbuf : r.crcBuffer = seen ++ List.replicate (maxFrameSize - seen.length) 0) :
    ∃ r', readTurns (maxFrameSize - seen.length) r = some r' ∧
      (seen.length + bytes.length < maxFrameSize → r'.fileRet = eof) ∧
      r'.frameSz.toNat = seen.length + bytes.length ∧
      r'.crcBuffer = seen ++ bytes ++ List.replicate (maxFrameSize - (seen.length + bytes.length)) 0 ∧
      r'.printed = r.printed ++ bytes := by
  induction hfile generalizing r seen with
  | @done blanks hblanks =>
      rcases Nat.eq_or_lt_of_le hfits with hfull | hroom
      · -- the buffer is full, and the loop does not look at the file again
        have hzero : maxFrameSize - seen.length = 0 := by
          rw [List.length_nil] at hfull
          omega
        refine ⟨r, by rw [hzero]; rfl, fun h => absurd h (by omega), hsz, by simpa using hbuf, by simp⟩
      · obtain ⟨n, hn⟩ : ∃ n, maxFrameSize - seen.length = n + 1 :=
          ⟨maxFrameSize - seen.length - 1, by rw [List.length_nil] at hroom; omega⟩
        refine ⟨{ r with fileRet := eof }, ?_, fun _ => rfl, hsz, by simpa using hbuf, by simp⟩
        rw [hn, readTurns, if_pos ⟨hret, by rw [hsz]; omega⟩, htext, scanHex8_blanks hblanks]
  | @byte b bytes blanks token text hblanks htoken hnext hfile ih =>
      rw [List.length_cons] at hfits
      obtain ⟨n, hn⟩ : ∃ n, maxFrameSize - seen.length = n + 1 := ⟨maxFrameSize - seen.length - 1, by omega⟩
      have hmax : maxFrameSize = 10000 := rfl
      have hsz' : (r.frameSz + 1).toNat = (seen ++ [b]).length := by
        rw [BitVec.toNat_add, hsz, List.length_append, List.length_singleton, show (1 : BitVec 16).toNat = 1 from rfl]
        omega
      have hset : r.crcBuffer.set r.frameSz.toNat b =
          (seen ++ [b]) ++ List.replicate (maxFrameSize - (seen ++ [b]).length) 0 := by
        rw [hbuf, hsz, List.set_append_right _ _ (Nat.le_refl _), hn, Nat.sub_self, List.replicate_succ,
          List.set_cons_zero, List.length_append, List.length_singleton,
          show maxFrameSize - (seen.length + 1) = n by omega, List.append_assoc, List.singleton_append]
      have hlen : (seen ++ [b]).length + bytes.length = seen.length + (b :: bytes).length := by
        simp only [List.length_append, List.length_cons, List.length_nil]
        omega
      obtain ⟨r', hrun, hend, hsize, hbuffer, hprinted⟩ := ih
        (r := ⟨1, r.frameSz + 1, r.crcBuffer.set r.frameSz.toNat b, text, r.printed ++ [b]⟩)
        (show (1 : BitVec 32) ≠ eof by decide) rfl (seen ++ [b]) hsz' (by rw [hlen, List.length_cons]; omega) hset
      rw [hlen] at hend hsize hbuffer
      refine ⟨r', ?_, hend, hsize, by rw [hbuffer]; simp, by rw [hprinted]; simp⟩
      rw [hn, readTurns, if_pos ⟨hret, by rw [hsz]; omega⟩, htext, scanHex8_token hblanks htoken hnext]
      rw [List.length_append, List.length_singleton, show maxFrameSize - (seen.length + 1) = n by omega] at hrun
      exact hrun

/-- After the end of a file nothing is read. -/
theorem readLoop_stale {r : Reading} (hret : r.fileRet = eof) : readLoop r = some r := by
  rw [readLoop, show maxFrameSize = 9999 + 1 from rfl, readTurns, if_neg fun h => h.1 hret]

/-! ## The loop over the bytes -/

/-- A limit of 255 at most is reached, after one turn for each byte. -/
theorem feedLoop_eq (crcBuffer : List (BitVec 8)) {max : BitVec 16} (hmax : max.toNat ≤ 255)
    (hlen : max.toNat ≤ crcBuffer.length) (fuel d : Nat) (f : Feeding) (hd : f.j.toNat + d = max.toNat) :
    feedLoop crcBuffer max fuel f =
      if d < fuel then
        some ⟨BitVec.ofNat 8 max.toNat,
          ((crcBuffer.drop f.j.toNat).take d).foldl (fun cm ch => cmNxt cm (ch.setWidth 32)) f.cm,
          f.fed ++ (crcBuffer.drop f.j.toNat).take d⟩
      else none := by
  have hint : max.toInt = max.toNat := by
    rw [BitVec.toInt_eq_toNat_of_lt (by omega)]
  induction d generalizing fuel f with
  | zero =>
      cases fuel with
      | zero => rfl
      | succ fuel =>
          have hj : f.j = BitVec.ofNat 8 max.toNat := by rw [← hd]; simp
          rw [feedLoop, if_neg (by rw [hint]; omega), if_pos (Nat.succ_pos fuel), ← hj]
          simp
  | succ d ih =>
      cases fuel with
      | zero => rfl
      | succ fuel =>
          have hj : (f.j + 1).toNat = f.j.toNat + 1 := by
            rw [BitVec.toNat_add, show (1 : BitVec 8).toNat = 1 from rfl]
            omega
          have hget : crcBuffer.drop f.j.toNat = crcBuffer.getD f.j.toNat 0 :: crcBuffer.drop (f.j.toNat + 1) := by
            rw [List.drop_eq_getElem_cons (by omega), List.getD_eq_getElem _ _ (by omega)]
          rw [feedLoop, if_pos (by rw [hint]; omega), ih fuel _ (by rw [hj]; omega), hj, hget]
          simp only [List.take_succ_cons, List.foldl_cons, List.append_assoc, List.singleton_append,
            Nat.succ_lt_succ_iff]

/-- A limit from 256 on never is: the counter has eight bits. -/
theorem feedLoop_diverges {crcBuffer : List (BitVec 8)} {max : BitVec 16} (hmax : 256 ≤ max.toInt) (fuel : Nat)
    (f : Feeding) : feedLoop crcBuffer max fuel f = none := by
  induction fuel generalizing f with
  | zero => rfl
  | succ fuel ih =>
      have hj := f.j.isLt
      rw [feedLoop, if_pos (by omega)]
      exact ih _

/-- A byte shifted to a place in a word. -/
theorem getLsbD_placed (b : BitVec 8) {k m n : Nat} (hk : k < 4) (hm : m < 4) (hn : n < 8) :
    (b.setWidth 32 <<< (8 * k)).getLsbD (8 * m + n) = (decide (m = k) && b.getLsbD n) := by
  rw [BitVec.getLsbD_shiftLeft, BitVec.getLsbD_setWidth]
  rcases Nat.lt_trichotomy m k with hlt | rfl | hgt
  · simp [show 8 * m + n < 8 * k by omega, show m ≠ k by omega]
  · simp [show 8 * m + n < 32 by omega, show n < 32 by omega]
  · have hout : b.getLsbD (8 * m + n - 8 * k) = false := BitVec.getLsbD_of_ge b _ (by omega)
    simp [hout, show m ≠ k by omega]

/-- The last four bytes, least significant first. -/
theorem frameFcs_eq {frame : List (BitVec 8)} (rest : List (BitVec 8)) {frameSz : BitVec 16}
    (hsz : frameSz.toNat = frame.length) (hlen : 4 ≤ frame.length) :
    frameFcs (frame ++ rest) frameSz = some (ofBytesLE 32 (frame.drop (frame.length - 4))) := by
  have hget (k : Nat) (hk : 1 ≤ k ∧ k ≤ 4) : (frame ++ rest).getD (frameSz.toNat - k) 0 =
      (frame.drop (frame.length - 4)).getD (4 - k) 0 := by
    rw [hsz, List.getD_append _ _ _ _ (by omega), List.getD_eq_getElem _ _ (by omega),
      List.getD_eq_getElem _ _ (by rw [List.length_drop]; omega), List.getElem_drop]
    congr 1
    omega
  rw [frameFcs, if_neg (by omega)]
  simp only [hget 1 (by decide), hget 2 (by decide), hget 3 (by decide), hget 4 (by decide)]
  generalize frame.drop (frame.length - 4) = last
  congr 1
  apply BitVec.eq_of_getLsbD_eq
  intro i hi
  obtain ⟨m, n, hm, hn, rfl⟩ : ∃ m n, m < 4 ∧ n < 8 ∧ i = 8 * m + n :=
    ⟨i / 8, i % 8, by omega, by omega, by omega⟩
  have hlow : ((last.getD (4 - 4) 0).setWidth 32).getLsbD (8 * m + n) =
      (decide (m = 0) && (last.getD 0 0).getLsbD n) := by
    rw [← getLsbD_placed _ (by decide) hm hn, Nat.mul_zero, BitVec.shiftLeft_zero]
  rw [getLsbD_ofBytesLE, bitAt, show (8 * m + n) / 8 = m by omega, show (8 * m + n) % 8 = n by omega]
  rw [BitVec.getLsbD_or, BitVec.getLsbD_or, BitVec.getLsbD_or, hlow, show 24 = 8 * 3 from rfl, show 16 = 8 * 2 from rfl,
    show (last.getD (4 - 3) 0).setWidth 32 <<< 8 = (last.getD 1 0).setWidth 32 <<< (8 * 1) from rfl,
    getLsbD_placed _ (by decide) hm hn, getLsbD_placed _ (by decide) hm hn, getLsbD_placed _ (by decide) hm hn]
  interval_cases m <;> simp [show n < 32 by omega, hi]

/-! ## One file -/

/-- What is printed for a buffer that holds a frame. -/
def reportOf (name : Str) (printed frame : List (BitVec 8)) : Report where
  name
  printed
  frameSz := BitVec.ofNat 16 frame.length
  fed := frame.take (frame.length - 4)
  crc := crc32Of (frame.take (frame.length - 4))
  frameFcs := ofBytesLE 32 (frame.drop (frame.length - 4))
  matched := crc32Of (frame.take (frame.length - 4)) == ofBytesLE 32 (frame.drop (frame.length - 4))

section Files
variable (fuel : Nat) (name : Str) {text : Str} {k : Kept} {r : Reading} {frame rest : List (BitVec 8)}

theorem toNat_max (hsz : r.frameSz.toNat = frame.length) (hlen : 4 ≤ frame.length ∧ frame.length ≤ 10000) :
    (r.frameSz - 4).toNat = frame.length - 4 := by
  rw [BitVec.toNat_sub, hsz, show (4 : BitVec 16).toNat = 4 from rfl]
  omega

/-- A buffer with a frame of 259 bytes at most. -/
theorem checkFile_short (hread : readLoop ⟨k.fileRet, k.frameSz, List.replicate maxFrameSize 0, text, []⟩ = some r)
    (hbuf : r.crcBuffer = frame ++ rest) (hsz : r.frameSz.toNat = frame.length)
    (hlen : 4 ≤ frame.length ∧ frame.length ≤ 259) (hcm : cmIni k.cm = cmIni crc32) :
    ∃ cm, cmIni cm = cmIni crc32 ∧ checkFile fuel name text k =
      if frame.length - 4 < fuel then some (some (reportOf name r.printed frame), ⟨r.fileRet, r.frameSz, cm⟩)
      else none := by
  have hmax := toNat_max hsz ⟨hlen.1, by omega⟩
  have hfeed := feedLoop_eq r.crcBuffer (show (r.frameSz - 4).toNat ≤ 255 by omega)
    (by rw [hmax, hbuf, List.length_append]; omega) fuel (frame.length - 4) ⟨0, cmIni k.cm, []⟩
    (by rw [hmax]; exact Nat.zero_add _)
  have htake : (r.crcBuffer.drop (0 : BitVec 8).toNat).take (frame.length - 4) = frame.take (frame.length - 4) := by
    rw [show (0 : BitVec 8).toNat = 0 from rfl, List.drop_zero, hbuf, List.take_append_of_le_length (by omega)]
  have hcrc := crcBytes_eq (frame.take (frame.length - 4))
  have hlast := frameFcs_eq rest hsz hlen.1
  rw [htake, hcm, List.nil_append] at hfeed
  rw [crcBytes] at hcrc
  rw [← hbuf] at hlast
  dsimp only at hfeed
  generalize hfold : (frame.take (frame.length - 4)).foldl (fun cm ch => cmNxt cm (ch.setWidth 32)) (cmIni crc32) = cm
    at hfeed hcrc
  refine ⟨cm, by rw [← hfold, cmNxt_bytes rfl (by decide)]; rfl, ?_⟩
  have hmask : cmCrc cm &&& 0xffffffff = crc32Of (frame.take (frame.length - 4)) := by
    rw [show (0xffffffff : BitVec 32) = BitVec.allOnes 32 by decide, BitVec.and_allOnes, hcrc, crc32Of]
  have hsz' : r.frameSz = BitVec.ofNat 16 frame.length := by rw [← hsz, BitVec.ofNat_toNat, BitVec.setWidth_eq]
  rw [checkFile, hread, hcm]
  simp only [hfeed, hlast]
  split_ifs
  · simp only [Option.bind_eq_bind, Option.bind_some, hmask, reportOf, hsz']
  · rfl

/-- A longer one, with a limit beyond the counter. -/
theorem checkFile_long (hread : readLoop ⟨k.fileRet, k.frameSz, List.replicate maxFrameSize 0, text, []⟩ = some r)
    (hsz : r.frameSz.toNat = frame.length) (hlen : 260 ≤ frame.length ∧ frame.length ≤ 10000) :
    checkFile fuel name text k = none := by
  have hmax := toNat_max hsz ⟨by omega, hlen.2⟩
  have hint : (r.frameSz - 4).toInt = (r.frameSz - 4).toNat := BitVec.toInt_eq_toNat_of_lt (by omega)
  rw [checkFile, hread]
  simp only [feedLoop_diverges (show 256 ≤ (r.frameSz - 4).toInt by omega)]
  rfl

end Files

/-- The first file. -/
theorem readLoop_file {bytes : List (BitVec 8)} {text : Str} (hfile : FrameFile bytes text)
    (hlen : bytes.length ≤ 10000) :
    ∃ r, readLoop ⟨0, 0, List.replicate maxFrameSize 0, text, []⟩ = some r ∧
      (bytes.length < 10000 → r.fileRet = eof) ∧ r.frameSz.toNat = bytes.length ∧
      r.crcBuffer = bytes ++ List.replicate (10000 - bytes.length) 0 ∧ r.printed = bytes := by
  obtain ⟨r, hrun, hend, hsize, hbuffer, hprinted⟩ := readTurns_file hfile
    (r := ⟨0, 0, List.replicate maxFrameSize 0, text, []⟩) (show (0 : BitVec 32) ≠ eof by decide) rfl [] rfl
    (by rw [List.length_nil, Nat.zero_add]; exact hlen)
    (by rw [List.length_nil, List.nil_append, Nat.sub_zero])
  rw [List.length_nil, Nat.zero_add] at hend hsize hbuffer
  rw [List.length_nil, Nat.sub_zero] at hrun
  exact ⟨r, hrun, hend, hsize, hbuffer, hprinted⟩

/-! ## One frame alone -/

section Alone
variable (fuel : Nat) {fopen : Str → Option Str} {name text : Str} {bytes : List (BitVec 8)}

theorem crcChecker_alone (hfile : FrameFile bytes text) (hlen : 4 ≤ bytes.length ∧ bytes.length ≤ 259)
    (hopen : fopen name = some text) :
    crcChecker fuel fopen [name] =
      if bytes.length - 4 < fuel then some ⟨[.frame (reportOf name bytes bytes)], 0⟩ else none := by
  obtain ⟨r, hread, -, hsize, hbuffer, hprinted⟩ := readLoop_file hfile (by omega)
  obtain ⟨cm, -, hcheck⟩ := checkFile_short fuel name (k := ⟨0, 0, crc32⟩) hread hbuffer hsize hlen rfl
  rw [crcChecker, checkFiles, hopen]
  simp only [hcheck, hprinted]
  split_ifs <;> rfl
  simp

theorem crcChecker_alone_long (hfile : FrameFile bytes text) (hlen : 260 ≤ bytes.length ∧ bytes.length ≤ 10000)
    (hopen : fopen name = some text) : crcChecker fuel fopen [name] = none := by
  obtain ⟨r, hread, -, hsize, -⟩ := readLoop_file hfile hlen.2
  have hcheck := checkFile_long fuel name (k := ⟨0, 0, crc32⟩) hread hsize hlen
  rw [crcChecker, checkFiles, hopen]
  simp only [hcheck]
  simp

/-- The check ends, each byte before the last four has been fed once and in order, and the
verdict is right. -/
def ChecksFrame (fopen : Str → Option Str) (name : Str) (bytes : List (BitVec 8)) : Prop :=
  ∃ fuel r, crcChecker fuel fopen [name] = some ⟨[.frame r], 0⟩ ∧ r.fed = bytes.take (bytes.length - 4) ∧
    (r.matched = true ↔ ofBytesLE 32 (bytes.drop (bytes.length - 4)) = crc32Of (bytes.take (bytes.length - 4)))

/-- **One frame.**  It is checked where the counter of the loop can hold the number of the bytes
before the last four. -/
theorem crcChecker_terminates_iff (hfile : FrameFile bytes text) (hlen : 4 ≤ bytes.length ∧ bytes.length ≤ 10000)
    (hopen : fopen name = some text) : ChecksFrame fopen name bytes ↔ bytes.length ≤ 259 := by
  constructor
  · rintro ⟨fuel, r, hrun, -⟩
    by_contra hlong
    rw [crcChecker_alone_long fuel hfile ⟨by omega, hlen.2⟩ hopen] at hrun
    cases hrun
  · intro hshort
    refine ⟨bytes.length, reportOf name bytes bytes, ?_, rfl, ?_⟩
    · rw [crcChecker_alone bytes.length hfile ⟨hlen.1, hshort⟩ hopen, if_pos (by omega)]
    · rw [reportOf, beq_iff_eq]
      exact eq_comm

end Alone

def hexNibble (n : Nat) : BitVec 8 := BitVec.ofNat 8 (if n < 10 then 48 + n else 87 + n)

/-- A byte as two digits. -/
def hexDigits (b : BitVec 8) : Str := [hexNibble (b.toNat / 16), hexNibble (b.toNat % 16)]

/-- A frame with a blank in front of each byte. -/
def hexText (bytes : List (BitVec 8)) : Str := bytes.flatMap fun b => ch ' ' :: hexDigits b

theorem hexNibble_digit : ∀ n < 16, isxdigit (hexNibble n) = true ∧ (parseHex (hexNibble n)).toNat = n := by decide +kernel

theorem hexToken_hexDigits (b : BitVec 8) : HexToken b (hexDigits b) := by
  have hb := b.isLt
  obtain ⟨hhigh, hhigh'⟩ := hexNibble_digit (b.toNat / 16) (by omega)
  obtain ⟨hlow, hlow'⟩ := hexNibble_digit (b.toNat % 16) (by omega)
  refine ⟨[], List.mem_cons_self, hexDigits b, rfl, by simp [hexDigits], by simp [hexDigits, hhigh, hlow], ?_⟩
  simp only [hexValue, hexDigits, List.foldl_cons, List.foldl_nil, hhigh', hlow']
  omega

theorem frameFile_hexText (bytes : List (BitVec 8)) : FrameFile bytes (hexText bytes) := by
  have hblank : ∀ c ∈ [ch ' '], isspace c = true := by decide
  induction bytes with
  | nil => exact .done (by simp [hexText])
  | cons b bytes ih =>
      refine .byte hblank (hexToken_hexDigits b) (fun c hc => hblank c ?_) ih
      cases bytes with
      | nil => cases hc
      | cons b' bytes => exact List.mem_singleton.2 (Option.some.inj hc).symm

/-- Files with the texts of the frames. -/
def hexFiles (frames : Str → List (BitVec 8)) (name : Str) : Option Str := some (hexText (frames name))

/-- A frame of 64 bytes. -/
def shortFrame : List (BitVec 8) := (List.range 64).map (BitVec.ofNat 8)

theorem crcChecker_terminates_iff_short : ChecksFrame (hexFiles fun _ => shortFrame) (str "a") shortFrame :=
  (@crcChecker_terminates_iff (hexFiles fun _ => shortFrame) (str "a") _ _ (frameFile_hexText shortFrame)
    (by decide) rfl).mpr (by decide)

/-- With 256 bytes before the last four the counter never reaches the limit. -/
theorem crcChecker_zeros_runs_on :
    ¬ ∀ (fopen : Str → Option Str) (name text : Str) (bytes : List (BitVec 8)), FrameFile bytes text →
      4 ≤ bytes.length ∧ bytes.length ≤ 10000 → fopen name = some text → ChecksFrame fopen name bytes := by
  intro h
  have hlen : (List.replicate 260 (0 : BitVec 8)).length = 260 := List.length_replicate
  obtain ⟨fuel, r, hrun, -⟩ := h (hexFiles fun _ => List.replicate 260 0) (str "a")
    (hexText (List.replicate 260 0)) (List.replicate 260 0) (frameFile_hexText _) (by rw [hlen]; decide) rfl
  have hnone : crcChecker fuel (hexFiles fun _ => List.replicate 260 0) [str "a"] = none :=
    crcChecker_alone_long fuel (frameFile_hexText (List.replicate 260 0)) (by rw [hlen]; decide) rfl
  rw [hnone] at hrun
  cases hrun

/-! ## A list of files -/

/-- What is printed for the files behind the first one of `m` bytes: nothing is read, and the
buffer is new. -/
def staleLine (m : Nat) (name : Str) : Line := .frame (reportOf name [] (List.replicate m 0))

theorem checkFiles_stale {fuel m : Nat} {fopen : Str → Option Str} (hm : 4 ≤ m ∧ m ≤ 259) (hfuel : m - 4 < fuel)
    {names : List Str} (hopen : ∀ name ∈ names, (fopen name).isSome = true) {k : Kept} (hret : k.fileRet = eof)
    (hsz : k.frameSz.toNat = m) (hcm : cmIni k.cm = cmIni crc32) (lines : List Line) :
    checkFiles fuel fopen k lines names = some ⟨lines ++ names.map (staleLine m), 0⟩ := by
  induction names generalizing k lines with
  | nil => simp [checkFiles]
  | cons name names ih =>
      obtain ⟨text, htext⟩ := Option.isSome_iff_exists.1 (hopen name List.mem_cons_self)
      have hzeros : List.replicate maxFrameSize (0 : BitVec 8) =
          List.replicate m 0 ++ List.replicate (10000 - m) 0 := by
        rw [List.replicate_append_replicate, show m + (10000 - m) = 10000 by omega]
        rfl
      have hread : readLoop ⟨k.fileRet, k.frameSz, List.replicate maxFrameSize 0, text, []⟩ = some _ :=
        readLoop_stale hret
      obtain ⟨cm, hcm', hcheck⟩ := checkFile_short fuel name hread hzeros (by rw [hsz, List.length_replicate])
        (by rwa [List.length_replicate]) hcm
      rw [List.length_replicate, if_pos hfuel] at hcheck
      rw [checkFiles, htext]
      simp only [hcheck]
      rw [ih (fun n hn => hopen n (List.mem_cons_of_mem name hn)) (by exact hret) (by exact hsz) (by exact hcm'),
        List.map_cons, List.append_assoc]
      rfl

theorem crcChecker_list (fuel : Nat) {fopen : Str → Option Str} {first text : Str} {frame : List (BitVec 8)}
    (hfile : FrameFile frame text) (hlen : 4 ≤ frame.length ∧ frame.length ≤ 259) (hfirst : fopen first = some text)
    {names : List Str} (hopen : ∀ name ∈ names, (fopen name).isSome = true) :
    crcChecker fuel fopen (first :: names) =
      if frame.length - 4 < fuel then
        some ⟨.frame (reportOf first frame frame) :: names.map (staleLine frame.length), 0⟩
      else none := by
  obtain ⟨r, hread, hend, hsize, hbuffer, hprinted⟩ := readLoop_file hfile (by omega)
  obtain ⟨cm, hcm, hcheck⟩ := checkFile_short fuel first (k := ⟨0, 0, crc32⟩) hread hbuffer hsize hlen rfl
  rw [crcChecker, checkFiles, hfirst]
  · simp only [hcheck, hprinted]
    split_ifs with hfuel
    · exact checkFiles_stale hlen hfuel hopen (hend (by omega)) hsize hcm _
    · rfl
  · simp

/-- The arguments are files of frames of 4 to 255 bytes. -/
def Readable (fopen : Str → Option Str) (frames : Str → List (BitVec 8)) (names : List Str) : Prop :=
  ∀ name ∈ names, ∃ text, fopen name = some text ∧ FrameFile (frames name) text ∧
    4 ≤ (frames name).length ∧ (frames name).length ≤ 255

/-- The line of each file has the CRC, the FCS and the verdict of the file alone. -/
def Independent (fopen : Str → Option Str) (names : List Str) : Prop :=
  ∃ fuel lines, crcChecker fuel fopen names = some ⟨lines, 0⟩ ∧
    List.Forall₂ (fun name line => ∃ r r', line = .frame r ∧
      crcChecker fuel fopen [name] = some ⟨[.frame r'], 0⟩ ∧
      r.crc = r'.crc ∧ r.frameFcs = r'.frameFcs ∧ r.matched = r'.matched) names lines

theorem staleLine_agrees {m : Nat} (hm : 4 ≤ m) (name : Str) (frame : List (BitVec 8)) :
    (let r := reportOf name [] (List.replicate m 0)
     let r' := reportOf name frame frame
     r.crc = r'.crc ∧ r.frameFcs = r'.frameFcs ∧ r.matched = r'.matched) ↔
      ofBytesLE 32 (frame.drop (frame.length - 4)) = 0 ∧
        crc32Of (frame.take (frame.length - 4)) = crc32Of (List.replicate (m - 4) 0) := by
  have hfed : (List.replicate m (0 : BitVec 8)).take (m - 4) = List.replicate (m - 4) 0 := by
    rw [List.take_replicate, Nat.min_eq_left (Nat.sub_le m 4)]
  have hlast : ofBytesLE 32 ((List.replicate m (0 : BitVec 8)).drop (m - 4)) = 0 := by
    rw [List.drop_replicate, show m - (m - 4) = 4 by omega]
    decide +kernel
  simp only [reportOf, List.length_replicate, hfed, hlast]
  constructor
  · rintro ⟨hcrc, hfcs, -⟩
    exact ⟨hfcs.symm, hcrc.symm⟩
  · rintro ⟨hfcs, hcrc⟩
    rw [hfcs, hcrc]
    exact ⟨rfl, rfl, rfl⟩

/-- **A list of files.**  The first is judged as it is; each later one as a frame of zeros of the
length of the first. -/
theorem crcChecker_independent_iff {fopen : Str → Option Str} {frames : Str → List (BitVec 8)} {first : Str}
    {names : List Str} (hfiles : Readable fopen frames (first :: names)) :
    Independent fopen (first :: names) ↔ ∀ name ∈ names,
      ofBytesLE 32 ((frames name).drop ((frames name).length - 4)) = 0 ∧
      crc32Of ((frames name).take ((frames name).length - 4)) =
        crc32Of (List.replicate ((frames first).length - 4) 0) := by
  obtain ⟨text, hfirst, hfile, hlow, hhigh⟩ := hfiles first List.mem_cons_self
  have hopen : ∀ name ∈ names, (fopen name).isSome = true := by
    intro name hname
    obtain ⟨text, htext, -⟩ := hfiles name (List.mem_cons_of_mem first hname)
    rw [htext]
    rfl
  have hlist (fuel : Nat) := crcChecker_list fuel hfile ⟨hlow, by omega⟩ hfirst hopen
  have halone (fuel : Nat) (name : Str) (hname : name ∈ first :: names) :
      crcChecker fuel fopen [name] = if (frames name).length - 4 < fuel then
        some ⟨[.frame (reportOf name (frames name) (frames name))], 0⟩ else none := by
    obtain ⟨text, htext, hfile, hlow, hhigh⟩ := hfiles name hname
    exact crcChecker_alone fuel hfile ⟨hlow, by omega⟩ htext
  constructor
  · rintro ⟨fuel, lines, hrun, hlines⟩ name hname
    rw [hlist] at hrun
    split_ifs at hrun with hfuel
    obtain ⟨rfl⟩ := hrun
    rw [List.forall₂_cons, List.forall₂_map_right_iff, List.forall₂_same] at hlines
    obtain ⟨r, r', hline, hone, hagree⟩ := hlines.2 name hname
    rw [halone fuel name (List.mem_cons_of_mem first hname)] at hone
    split_ifs at hone
    cases hone
    cases hline
    exact (staleLine_agrees hlow name (frames name)).1 hagree
  · intro hcond
    have hrun (name : Str) (hname : name ∈ first :: names) :
        crcChecker 256 fopen [name] = some ⟨[.frame (reportOf name (frames name) (frames name))], 0⟩ := by
      obtain ⟨-, -, -, -, hhigh⟩ := hfiles name hname
      rw [halone 256 name hname, if_pos (by omega)]
    refine ⟨256, _, (hlist 256).trans (if_pos (by omega)), .cons ?_ ?_⟩
    · exact ⟨_, _, rfl, hrun first List.mem_cons_self, rfl, rfl, rfl⟩
    · rw [List.forall₂_map_right_iff, List.forall₂_same]
      intro name hname
      exact ⟨_, _, rfl, hrun name (List.mem_cons_of_mem first hname),
        (staleLine_agrees hlow name (frames name)).2 (hcond name hname)⟩

/-- A file of four zeros and one that ends with other bytes. -/
def twoFrames (name : Str) : List (BitVec 8) := if name = str "a" then [0, 0, 0, 0] else [1, 0, 0, 0]

theorem twoFrames_readable : Readable (hexFiles twoFrames) twoFrames [str "a", str "b"] := by
  intro name _
  refine ⟨hexText (twoFrames name), rfl, frameFile_hexText _, ?_⟩
  rw [twoFrames]
  split_ifs <;> decide

theorem crcChecker_independent_iff_two :
    Independent (hexFiles twoFrames) [str "a", str "b"] ↔ ∀ name ∈ [str "b"],
      ofBytesLE 32 ((twoFrames name).drop ((twoFrames name).length - 4)) = 0 ∧
      crc32Of ((twoFrames name).take ((twoFrames name).length - 4)) =
        crc32Of (List.replicate ((twoFrames (str "a")).length - 4) 0) :=
  crcChecker_independent_iff twoFrames_readable

/-- The second file is judged by the zeros of a new buffer: its FCS is printed as 0. -/
theorem crcChecker_second_file_stale :
    ¬ ∀ (fopen : Str → Option Str) (frames : Str → List (BitVec 8)) (names : List Str),
      names ≠ [] → Readable fopen frames names → Independent fopen names := by
  intro h
  obtain ⟨fuel, lines, hrun, hlines⟩ := h (hexFiles twoFrames) twoFrames [str "a", str "b"] (by simp) twoFrames_readable
  have hlist := crcChecker_list fuel (frameFile_hexText (twoFrames (str "a"))) (by decide)
    (show hexFiles twoFrames (str "a") = _ from rfl)
    (show ∀ name ∈ [str "b"], (hexFiles twoFrames name).isSome = true from fun _ _ => rfl)
  rw [hlist] at hrun
  split_ifs at hrun
  obtain ⟨rfl⟩ := hrun
  rw [List.forall₂_cons, List.forall₂_map_right_iff, List.forall₂_same] at hlines
  obtain ⟨r, r', hline, hone, -, hfcs, -⟩ := hlines.2 (str "b") List.mem_cons_self
  have halone := crcChecker_alone fuel (frameFile_hexText (twoFrames (str "b"))) (by decide)
    (show hexFiles twoFrames (str "b") = _ from rfl)
  rw [halone] at hone
  split_ifs at hone
  cases hone
  cases hline
  exact absurd hfcs (by decide +kernel)

end DnsAdtm.Sw
