/-
# `Sw.Dispatch` — the command line (`commands.hh`, `string-ops.hh`)

A line is dispatched over a table of commands, and some commands dispatch the text behind
their name over a table of their own.  Each level cuts the line at the first blank, by a NUL
written there, and goes on behind it.  The model keeps the memory behind the line, whatever it
holds, and logs the addresses that `execute` reads and writes.

    stripwhite           the line without the blanks around it
    execute              one level of dispatch
    Executed.Law         what a level should do
    dispatch_lawful_iff  every level does it where no selected command is the whole line
-/
import DnsAdtm.Sw.AdminEdit

namespace DnsAdtm.Sw.Dispatch

/-- Memory, by address; the byte behind its end is read as 0. -/
abbrev Mem := List (BitVec 8)

def load (mem : Mem) (a : Nat) : BitVec 8 := mem.getD a 0

/-- The string at an address. -/
def cstr (mem : Mem) (a : Nat) : Str := (mem.drop a).takeWhile (· ≠ 0)

/-- The loop `while (p(s[i])) i++`, over the bytes from address `a` on. -/
def scanFrom (p : BitVec 8 → Bool) (a : Nat) : List (BitVec 8) → Nat
  | [] => a
  | c :: s => if p c then scanFrom p (a + 1) s else a

/-- Where the loop stops. -/
def scan (p : BitVec 8 → Bool) (mem : Mem) (a : Nat) : Nat := scanFrom p a (mem.drop a)

/-- The addresses from `a` up to `b`. -/
def upTo (a b : Nat) : List Nat := List.range' a (b + 1 - a)

/-! ## `stripwhite` -/

/-- The loop `while (t > s && isspace (*t)) t--`. -/
def backOver (mem : Mem) (s : Nat) : Nat → Nat
  | 0 => 0
  | t + 1 => if s < t + 1 ∧ isspace (load mem (t + 1)) = true then backOver mem s t else t + 1

/-- `stripwhite`: the address of the line, and the memory. -/
def stripwhite (mem : Mem) (string : Nat) : Nat × Mem :=
  let s := scan isspace mem string
  if load mem s = 0 then (s, mem)
  else
    let t := backOver mem s (s + (cstr mem s).length - 1)
    (s, mem.set (t + 1) 0)

/-! ## `execute` -/

/-- What `execute` has done with a line: the names in the table, the memory and the line it was
given, the addresses it has read or written, and the command it has called with its argument. -/
structure Executed where
  names : List Str
  mem : Mem
  line : Nat
  accesses : List Nat
  selected : Option (Str × Str)

/-- The levels of dispatch, and the functions at the end with their arguments. -/
structure Run (F : Type) where
  executed : List Executed
  ran : List (F × Str)

/-- `COMMAND` -/
structure Command (F : Type) where
  name : Str
  func : Mem → Nat → Run F

variable {F : Type}

/-- The addresses of the first string that `strcmp` reads. -/
def strcmpReads (a : Nat) : Str → Str → List Nat
  | c :: s, d :: t => a :: if c = d then strcmpReads (a + 1) s t else []
  | _, _ => [a]

/-- `find_command`, and the addresses of `name` that it reads. -/
def findCommand (mem : Mem) (name : Nat) : List (Command F) → Option (Command F) × List Nat
  | [] => (none, [])
  | c :: commands =>
    let reads := strcmpReads name (cstr mem name) c.name
    if cstr mem name = c.name then (some c, reads)
    else
      let rest := findCommand mem name commands
      (rest.1, reads ++ rest.2)

/-- `execute` -/
def execute (mem : Mem) (line : Nat) (commands : List (Command F)) : Run F :=
  let i := scan (fun c => c ≠ 0 && !isspace c) mem line
  let cut := mem.set i 0
  let command := findCommand cut line commands
  let accesses := upTo line i ++ [i] ++ command.2
  match command.1 with
  | none =>
    -- the word is printed in the error message
    ⟨[⟨commands.map (·.name), mem, line, accesses ++ upTo line i, none⟩], []⟩
  | some c =>
    let arg := scan (fun c => c ≠ 0 && isspace c) cut (i + 1)
    let run := c.func cut arg
    ⟨⟨commands.map (·.name), mem, line, accesses ++ upTo (i + 1) arg, some (c.name, cstr cut arg)⟩ :: run.executed,
      run.ran⟩

/-! ## Tables -/

/-- A function that does not dispatch. -/
def leaf (f : F) (mem : Mem) (arg : Nat) : Run F := ⟨[], [(f, cstr mem arg)]⟩

/-- `com_admin`, `com_stats`, `com_test` and `com_admin_edit`: the help of a table, or a command of it. -/
def comTable (help : F) (commands : List (Command F)) (mem : Mem) (arg : Nat) : Run F :=
  if load mem arg = 0 then leaf help mem arg else execute mem arg commands

/-- A table of commands, with the tables of those that dispatch. -/
inductive Table (F : Type) where
  | nil
  | run (name : Str) (func : F) (rest : Table F)
  | sub (name : Str) (help : F) (inner rest : Table F)

def Table.commands : Table F → List (Command F)
  | .nil => []
  | .run name func rest => ⟨name, leaf func⟩ :: rest.commands
  | .sub name help inner rest => ⟨name, comTable help inner.commands⟩ :: rest.commands

/-- The functions that do not dispatch. -/
inductive Func where
  | comHistory | comClear | comQuit | comHelp
  | comAdminShow | comAdminApply | comAdminProbe | comAdminLoad | comAdminSave | comAdminHelp
  | comAdminEditAdd | comAdminEditSet | comAdminEditRemove | comAdminEditHelp
  | comStatsShow | comStatsProbe | comStatsHelp
  | comTestAll | comTestFirstFail | comTestMac | comTestIp | comTestUdp | comTestDns | comTestReply | comTestHelp
  deriving DecidableEq, Repr

def adminEditCommands : Table Func :=
  .run (str "add") .comAdminEditAdd <| .run (str "set") .comAdminEditSet <|
  .run (str "remove") .comAdminEditRemove <| .run (str "help") .comAdminEditHelp <|
  .run (str "?") .comAdminEditHelp .nil

def adminCommands : Table Func :=
  .run (str "show") .comAdminShow <| .sub (str "edit") .comAdminEditHelp adminEditCommands <|
  .run (str "apply") .comAdminApply <| .run (str "probe") .comAdminProbe <|
  .run (str "load") .comAdminLoad <| .run (str "save") .comAdminSave <|
  .run (str "help") .comAdminHelp <| .run (str "?") .comAdminHelp .nil

def statsCommands : Table Func :=
  .run (str "show") .comStatsShow <| .run (str "probe") .comStatsProbe <|
  .run (str "help") .comStatsHelp <| .run (str "?") .comStatsHelp .nil

def testCommands : Table Func :=
  .run (str "all") .comTestAll <| .run (str "f-fail") .comTestFirstFail <|
  .run (str "mac") .comTestMac <| .run (str "ip") .comTestIp <| .run (str "udp") .comTestUdp <|
  .run (str "dns") .comTestDns <| .run (str "reply") .comTestReply <|
  .run (str "help") .comTestHelp <| .run (str "?") .comTestHelp .nil

/-- `commands` -/
def cliCommands : Table Func :=
  .sub (str "admin") .comAdminHelp adminCommands <| .sub (str "stats") .comStatsHelp statsCommands <|
  .sub (str "test") .comTestHelp testCommands <| .run (str "history") .comHistory <|
  .run (str "clear") .comClear <| .run (str "quit") .comQuit <|
  .run (str "help") .comHelp <| .run (str "?") .comHelp .nil

/-- What the main loop does with a line that `readline` returns: an empty one is not executed. -/
def mainLine (mem : Mem) (buf : Nat) (commands : List (Command F)) : Run F :=
  let line := stripwhite mem buf
  if 0 < (cstr line.2 line.1).length then execute line.2 line.1 commands else ⟨[], []⟩

/-! ## What dispatch should do -/

/-- The first word of a line. -/
def firstWord (text : Str) : Str := text.takeWhile (!isspace ·)

/-- What follows the first word and its trailing blanks. -/
def argument (text : Str) : Str := (text.dropWhile (!isspace ·)).dropWhile isspace

/-- A level of dispatch stays between the start of its line and the NUL at its end, and calls the
command of the first word with what follows. -/
structure Executed.Law (e : Executed) : Prop where
  inside : ∀ a ∈ e.accesses, e.line ≤ a ∧ a ≤ e.line + (cstr e.mem e.line).length
  selected : e.selected =
    if firstWord (cstr e.mem e.line) ∈ e.names then
      some (firstWord (cstr e.mem e.line), argument (cstr e.mem e.line))
    else none

/-- The functions at the end, for a line with this first word and this argument. -/
def Table.expected : Table F → Str → Str → List (F × Str)
  | .nil, _, _ => []
  | .run name func rest, word, arg => if word = name then [(func, arg)] else rest.expected word arg
  | .sub name help inner rest, word, arg =>
    if word = name then
      if arg = [] then [(help, [])] else inner.expected (firstWord arg) (argument arg)
    else rest.expected word arg

/-- At every level the first word is no command of the table, or is followed by an argument. -/
def Table.Separated : Table F → Str → Str → Prop
  | .nil, _, _ => True
  | .run name _ rest, word, arg => if word = name then arg ≠ [] else rest.Separated word arg
  | .sub name _ inner rest, word, arg =>
    if word = name then arg ≠ [] ∧ inner.Separated (firstWord arg) (argument arg)
    else rest.Separated word arg

/-- A run does what dispatch should do with a line. -/
structure Run.Lawful (run : Run F) (table : Table F) (text : Str) : Prop where
  law : ∀ e ∈ run.executed, e.Law
  ran : run.ran = table.expected (firstWord text) (argument text)

/-! ## Strings in memory -/

/-- The memory holds a string at an address. -/
structure TextAt (mem : Mem) (a : Nat) (text : Str) : Prop where
  split : ∃ before behind, mem = before ++ (text ++ 0 :: behind) ∧ before.length = a
  nonzero : ∀ c ∈ text, c ≠ 0

section Memory
variable {mem : Mem} {a : Nat} {text u v : Str}

theorem TextAt.drop (h : TextAt mem a text) : ∃ behind, mem.drop a = text ++ 0 :: behind := by
  obtain ⟨before, behind, rfl, rfl⟩ := h.split
  exact ⟨behind, List.drop_left⟩

theorem TextAt.cstr (h : TextAt mem a text) : cstr mem a = text := by
  obtain ⟨behind, hdrop⟩ := h.drop
  rw [Dispatch.cstr, hdrop, List.takeWhile_append_of_pos fun c hc => decide_eq_true (h.nonzero c hc)]
  simp

/-- The end of a string is a string. -/
theorem TextAt.suffix (h : TextAt mem a (u ++ v)) : TextAt mem (a + u.length) v := by
  obtain ⟨before, behind, hmem, hlen⟩ := h.split
  refine ⟨⟨before ++ u, behind, ?_, ?_⟩, fun c hc => h.nonzero c (List.mem_append_right u hc)⟩
  · rw [hmem, List.append_assoc, List.append_assoc]
  · rw [List.length_append, hlen]

/-- A NUL behind the beginning of a string: the beginning is left. -/
theorem TextAt.cut (h : TextAt mem a (u ++ v)) : TextAt (mem.set (a + u.length) 0) a u := by
  obtain ⟨before, behind, hmem, hlen⟩ := h.split
  obtain ⟨c, rest, hrest⟩ : ∃ c rest, v ++ 0 :: behind = c :: rest := List.exists_cons_of_ne_nil (by simp)
  refine ⟨⟨before, rest, ?_, hlen⟩, fun c hc => h.nonzero c (List.mem_append_left v hc)⟩
  rw [hmem, List.append_assoc, hrest, List.set_append_right _ _ (by omega), List.set_append_right _ _ (by omega),
    show a + u.length - before.length - u.length = 0 by omega, List.set_cons_zero]

/-- And what was behind it. -/
theorem TextAt.behind_cut {c : BitVec 8} (h : TextAt mem a (u ++ c :: v)) :
    TextAt (mem.set (a + u.length) 0) (a + u.length + 1) v := by
  obtain ⟨before, behind, hmem, hlen⟩ := h.split
  refine ⟨⟨before ++ (u ++ [0]), behind, ?_, ?_⟩, fun d hd => h.nonzero d (by simp [hd])⟩
  · rw [hmem, List.append_assoc, List.set_append_right _ _ (by omega), List.set_append_right _ _ (by omega),
      show a + u.length - before.length - u.length = 0 by omega, List.cons_append, List.set_cons_zero]
    simp
  · rw [List.length_append, List.length_append, List.length_singleton, hlen]
    omega

theorem load_text (h : TextAt mem a text) : load mem a = text.headD 0 := by
  obtain ⟨behind, hdrop⟩ := h.drop
  rw [load, List.getD_eq_getElem?_getD, ← List.head?_drop, hdrop]
  cases text <;> rfl

theorem le_scanFrom (p : BitVec 8 → Bool) (a : Nat) (s : List (BitVec 8)) : a ≤ scanFrom p a s := by
  induction s generalizing a with
  | nil => exact Nat.le_refl a
  | cons c s ih =>
      rw [scanFrom]
      split_ifs
      · exact Nat.le_of_succ_le (ih (a + 1))
      · exact Nat.le_refl a

theorem scanFrom_append {p : BitVec 8 → Bool} (hu : ∀ c ∈ u, p c = true) (hv : ∀ c ∈ v.head?, p c = false) :
    scanFrom p a (u ++ v) = a + u.length := by
  induction u generalizing a with
  | nil =>
      cases v with
      | nil => rfl
      | cons c v => simp [scanFrom, hv c rfl]
  | cons c u ih =>
      rw [List.cons_append, scanFrom, if_pos (hu c List.mem_cons_self),
        ih fun d hd => hu d (List.mem_cons_of_mem c hd), List.length_cons]
      omega

/-- A loop that stops at a NUL stops in the string or at its end. -/
theorem TextAt.scan (h : TextAt mem a text) {p : BitVec 8 → Bool} (hp : p 0 = false) :
    scan p mem a = a + (text.takeWhile p).length := by
  obtain ⟨behind, hdrop⟩ := h.drop
  have hsplit : text ++ 0 :: behind = text.takeWhile p ++ (text.dropWhile p ++ 0 :: behind) := by
    rw [← List.append_assoc, List.takeWhile_append_dropWhile]
  rw [Dispatch.scan, hdrop, hsplit]
  refine scanFrom_append (fun c hc => List.mem_takeWhile_imp hc) fun c hc => ?_
  cases hrest : text.dropWhile p with
  | nil =>
      rw [hrest] at hc
      cases hc
      exact hp
  | cons d rest =>
      rw [hrest] at hc
      cases hc
      have hstop := List.head_dropWhile_not p (by rw [hrest]; simp : text.dropWhile p ≠ [])
      simpa [hrest] using hstop

end Memory

/-! ## One level -/

theorem strcmpReads_le {a : Nat} {s t : Str} {r : Nat} (hr : r ∈ strcmpReads a s t) : a ≤ r ∧ r ≤ a + s.length := by
  induction s generalizing a t with
  | nil =>
      rw [strcmpReads, List.mem_singleton] at hr
      · omega
      · simp
  | cons c s ih =>
      cases t with
      | nil =>
          rw [strcmpReads, List.mem_singleton] at hr
          · omega
          · simp
      | cons d t =>
          rw [strcmpReads, List.mem_cons] at hr
          rw [List.length_cons]
          split_ifs at hr with heq
          · rcases hr with rfl | hr
            · omega
            · have := ih hr
              omega
          · rcases hr with rfl | hr
            · omega
            · cases hr

/-- `find_command` takes the first entry of that name, and reads the word and its NUL at most. -/
theorem findCommand_eq (mem : Mem) (name : Nat) (commands : List (Command F)) :
    (findCommand mem name commands).1 = commands.find? (fun c => decide (cstr mem name = c.name)) ∧
      ∀ r ∈ (findCommand mem name commands).2, name ≤ r ∧ r ≤ name + (cstr mem name).length := by
  induction commands with
  | nil => exact ⟨rfl, by simp [findCommand]⟩
  | cons c commands ih =>
      rw [findCommand, List.find?_cons]
      by_cases heq : cstr mem name = c.name
      · rw [if_pos heq, decide_eq_true heq]
        exact ⟨rfl, fun r hr => strcmpReads_le hr⟩
      · rw [if_neg heq, decide_eq_false heq]
        refine ⟨ih.1, fun r hr => ?_⟩
        rcases List.mem_append.1 hr with hr | hr
        · exact strcmpReads_le hr
        · exact ih.2 r hr

/-- A line has no blank at its end. -/
def Trimmed (text : Str) : Prop := ∀ c ∈ text.getLast?, isspace c = false

theorem mem_upTo {a b r : Nat} : r ∈ upTo a b ↔ a ≤ r ∧ r ≤ b := by
  rw [upTo, List.mem_range'_1]
  omega

/-- What is behind the first word starts with a blank. -/
theorem line_split (text : Str) : (∃ d tail, text = firstWord text ++ d :: tail ∧ isspace d = true ∧
      argument text = tail.dropWhile isspace) ∨
    (text = firstWord text ∧ argument text = []) := by
  have hsplit : firstWord text ++ text.dropWhile (!isspace ·) = text := List.takeWhile_append_dropWhile
  cases hrest : text.dropWhile (!isspace ·) with
  | nil =>
      refine .inr ⟨?_, by rw [argument, hrest]; rfl⟩
      rw [hrest, List.append_nil] at hsplit
      exact hsplit.symm
  | cons d tail =>
      have hd := List.head_dropWhile_not (!isspace ·) (by rw [hrest]; simp : text.dropWhile (!isspace ·) ≠ [])
      simp only [hrest, List.head_cons, Bool.not_eq_eq_eq_not, Bool.not_false] at hd
      rw [hrest] at hsplit
      exact .inl ⟨d, tail, hsplit.symm, hd, by rw [argument, hrest, List.dropWhile_cons, if_pos hd]⟩

/-- In a string the test for the NUL of the two loops of `execute` is always passed. -/
theorem TextAt.scan_nonzero {mem : Mem} {a : Nat} {text : Str} (h : TextAt mem a text) (p : BitVec 8 → Bool) :
    Dispatch.scan (fun c => c ≠ 0 && p c) mem a = a + (text.takeWhile p).length := by
  have hsame : ∀ s : Str, (∀ c ∈ s, c ≠ 0) → s.takeWhile (fun c => c ≠ 0 && p c) = s.takeWhile p := by
    intro s hs
    induction s with
    | nil => rfl
    | cons c s ih =>
        have hc : decide (c ≠ 0) = true := decide_eq_true (hs c List.mem_cons_self)
        rw [List.takeWhile_cons, List.takeWhile_cons, ih fun d hd => hs d (List.mem_cons_of_mem c hd), hc,
          Bool.true_and]
  rw [h.scan (by simp), hsame text h.nonzero]

theorem length_firstWord_le (text : Str) : (firstWord text).length ≤ text.length := (List.takeWhile_prefix _).length_le

section Level
variable {mem : Mem} {a : Nat} {text : Str} (h : TextAt mem a text) {commands : List (Command F)}
include h

/-- The word is cut off, and looked up. -/
theorem word_cut : scan (fun c => c ≠ 0 && !isspace c) mem a = a + (firstWord text).length ∧
    cstr (mem.set (a + (firstWord text).length) 0) a = firstWord text := by
  refine ⟨h.scan_nonzero _, ?_⟩
  have hsplit : firstWord text ++ text.dropWhile (!isspace ·) = text := List.takeWhile_append_dropWhile
  rw [← hsplit] at h
  exact h.cut.cstr

/-- No command of that name. -/
theorem execute_unknown (hfind : commands.find? (fun c => decide (firstWord text = c.name)) = none) :
    ∃ e : Executed, execute mem a commands = ⟨[e], []⟩ ∧ e.Law := by
  obtain ⟨hscan, hword⟩ := word_cut h
  obtain ⟨hfound, hreads⟩ := findCommand_eq (mem.set (a + (firstWord text).length) 0) a commands
  rw [hword] at hfound hreads
  rw [hfind] at hfound
  have hle := length_firstWord_le text
  have hnames : firstWord text ∉ commands.map (·.name) := by
    intro hmem
    obtain ⟨c, hc, hname⟩ := List.mem_map.1 hmem
    exact absurd (List.find?_eq_none.1 hfind c hc) (by simp [hname])
  have hrun : execute mem a commands = ⟨[⟨commands.map (·.name), mem, a,
      upTo a (a + (firstWord text).length) ++ [a + (firstWord text).length] ++
        (findCommand (mem.set (a + (firstWord text).length) 0) a commands).2 ++
        upTo a (a + (firstWord text).length), none⟩], []⟩ := by
    rw [execute, hscan]
    simp only [hfound]
  refine ⟨_, hrun, fun r hr => ?_, ?_⟩
  · simp only [h.cstr, List.mem_append, mem_upTo, List.mem_singleton] at hr ⊢
    rcases hr with ((hr | rfl) | hr) | hr
    · omega
    · omega
    · have := hreads r hr
      omega
    · omega
  · simp only [h.cstr, if_neg hnames]

/-- A command of that name, with an argument. -/
theorem execute_argument {c : Command F} (hfind : commands.find? (fun c => decide (firstWord text = c.name)) = some c)
    (harg : argument text ≠ []) :
    ∃ e cut b, execute mem a commands = ⟨e :: (c.func cut b).executed, (c.func cut b).ran⟩ ∧ e.Law ∧
      TextAt cut b (argument text) := by
  obtain ⟨hscan, hword⟩ := word_cut h
  obtain ⟨hfound, hreads⟩ := findCommand_eq (mem.set (a + (firstWord text).length) 0) a commands
  rw [hword] at hfound hreads
  rw [hfind] at hfound
  have hname : c.name = firstWord text := by
    have := List.find?_some hfind
    exact (of_decide_eq_true this).symm
  have hnames : firstWord text ∈ commands.map (·.name) := List.mem_map.2 ⟨c, List.mem_of_find?_eq_some hfind, hname⟩
  obtain ⟨d, tail, htext, hd, hargument⟩ | ⟨-, hnone⟩ := line_split text
  · have hbehind := (htext ▸ h : TextAt mem a (firstWord text ++ d :: tail)).behind_cut
    have hblanks := hbehind.scan_nonzero isspace
    have hsplit : tail.takeWhile isspace ++ argument text = tail := by
      rw [hargument, List.takeWhile_append_dropWhile]
    have harg' : TextAt (mem.set (a + (firstWord text).length) 0)
        (a + (firstWord text).length + 1 + (tail.takeWhile isspace).length) (argument text) :=
      TextAt.suffix (by rw [hsplit]; exact hbehind)
    have hlen : text.length =
        (firstWord text).length + 1 + (tail.takeWhile isspace).length + (argument text).length := by
      have hlength := congrArg List.length htext
      have hlength' := congrArg List.length hsplit
      simp only [List.length_append, List.length_cons] at hlength hlength'
      omega
    generalize hcut : mem.set (a + (firstWord text).length) 0 = cut at *
    generalize hb : a + (firstWord text).length + 1 + (tail.takeWhile isspace).length = b at *
    have hrun : execute mem a commands = ⟨⟨commands.map (·.name), mem, a,
        upTo a (a + (firstWord text).length) ++ [a + (firstWord text).length] ++ (findCommand cut a commands).2 ++
          upTo (a + (firstWord text).length + 1) b,
        some (firstWord text, argument text)⟩ :: (c.func cut b).executed, (c.func cut b).ran⟩ := by
      rw [execute, hscan]
      simp only [hcut, hfound, hblanks, harg'.cstr, hname]
    refine ⟨_, _, _, hrun, ⟨fun r hr => ?_, ?_⟩, harg'⟩
    · simp only [h.cstr, List.mem_append, mem_upTo, List.mem_singleton] at hr ⊢
      have hpos := List.length_pos_of_ne_nil harg
      rcases hr with ((hr | rfl) | hr) | hr
      · omega
      · omega
      · have := hreads r hr
        omega
      · omega
    · simp only [h.cstr, if_pos hnames]
  · exact absurd hnone harg

/-- A command of that name that is the whole line: what is behind the NUL is read. -/
theorem execute_whole {c : Command F} (hfind : commands.find? (fun c => decide (firstWord text = c.name)) = some c)
    (hwhole : text = firstWord text) : ∃ e ∈ (execute mem a commands).executed, ¬ e.Law := by
  obtain ⟨hscan, hword⟩ := word_cut h
  obtain ⟨hfound, -⟩ := findCommand_eq (mem.set (a + (firstWord text).length) 0) a commands
  rw [hword, hfind] at hfound
  rw [execute, hscan]
  simp only [hfound]
  refine ⟨_, List.mem_cons_self, fun hlaw => ?_⟩
  have hread : _ ∧ a + (firstWord text).length + 1 ≤ a + (cstr mem a).length :=
    hlaw.inside (a + (firstWord text).length + 1)
      (List.mem_append_right _ (mem_upTo.2 ⟨Nat.le_refl _, le_scanFrom ..⟩))
  rw [h.cstr, ← hwhole] at hread
  omega

end Level

/-! ## All levels -/

/-- What a table has under a word, and what dispatch should do with it there. -/
inductive Found (table : Table F) (word : Str) : Option (Command F) → Prop
  | none : (∀ arg, table.Separated word arg) → (∀ arg, table.expected word arg = []) → Found table word none
  | run {f : F} : (∀ arg, table.Separated word arg ↔ arg ≠ []) → (∀ arg, table.expected word arg = [(f, arg)]) →
      Found table word (some ⟨word, leaf f⟩)
  | sub {help : F} {inner : Table F} : sizeOf inner < sizeOf table →
      (∀ arg, table.Separated word arg ↔ arg ≠ [] ∧ inner.Separated (firstWord arg) (argument arg)) →
      (∀ arg, arg ≠ [] → table.expected word arg = inner.expected (firstWord arg) (argument arg)) →
      Found table word (some ⟨word, comTable help inner.commands⟩)

/-- An entry with another name is passed over. -/
theorem Found.skip {table rest : Table F} {word : Str} {o : Option (Command F)} (h : Found rest word o)
    (hsize : sizeOf rest < sizeOf table) (hsep : ∀ arg, table.Separated word arg = rest.Separated word arg)
    (hexp : ∀ arg, table.expected word arg = rest.expected word arg) : Found table word o := by
  cases h with
  | none hs he => exact .none (fun arg => by rw [hsep]; exact hs arg) fun arg => by rw [hexp, he]
  | run hs he => exact .run (fun arg => by rw [hsep]; exact hs arg) fun arg => by rw [hexp, he]
  | sub hlt hs he =>
      refine .sub (Nat.lt_trans hlt hsize) (fun arg => by rw [hsep]; exact hs arg) fun arg harg => ?_
      rw [hexp, he arg harg]

theorem found (table : Table F) (word : Str) :
    Found table word (table.commands.find? fun c => decide (word = c.name)) := by
  induction table with
  | nil => exact .none (fun _ => trivial) fun _ => rfl
  | run name func rest ih =>
      rw [Table.commands, List.find?_cons]
      by_cases heq : word = name
      · subst heq
        rw [decide_eq_true rfl]
        exact .run (fun arg => by rw [Table.Separated, if_pos rfl]) fun arg => by rw [Table.expected, if_pos rfl]
      · rw [decide_eq_false heq]
        exact ih.skip (by simp) (fun arg => if_neg heq) fun arg => if_neg heq
  | sub name help inner rest _ ih =>
      rw [Table.commands, List.find?_cons]
      by_cases heq : word = name
      · subst heq
        rw [decide_eq_true rfl]
        refine .sub (by simp; omega) (fun arg => by rw [Table.Separated, if_pos rfl]) fun arg harg => ?_
        rw [Table.expected, if_pos rfl, if_neg harg]
      · rw [decide_eq_false heq]
        exact ih.skip (by simp) (fun arg => if_neg heq) fun arg => if_neg heq

/-- In a line without a blank at its end, the first word is the whole line or has an argument. -/
theorem Trimmed.argument {text : Str} (h : Trimmed text) :
    (argument text ≠ [] ∧ Trimmed (argument text)) ∨ (argument text = [] ∧ text = firstWord text) := by
  obtain ⟨d, tail, htext, hd, hargument⟩ | ⟨hwhole, hnone⟩ := line_split text
  · have hsplit : tail.takeWhile isspace ++ Dispatch.argument text = tail := by
      rw [hargument, List.takeWhile_append_dropWhile]
    have hlast : text = firstWord text ++ (d :: tail.takeWhile isspace) ++ Dispatch.argument text := by
      rw [List.append_assoc, List.cons_append, hsplit]
      exact htext
    have hblank : ∀ c ∈ d :: tail.takeWhile isspace, isspace c = true := by
      intro c hc
      rcases List.mem_cons.1 hc with rfl | hc
      · exact hd
      · exact List.mem_takeWhile_imp hc
    by_cases harg : Dispatch.argument text = []
    · -- the line would end with a blank
      have hend := List.getLast_mem (List.cons_ne_nil d (tail.takeWhile isspace))
      have hno := h ((d :: tail.takeWhile isspace).getLast (List.cons_ne_nil _ _)) (by
        rw [hlast, harg, List.append_nil, List.getLast?_append_of_ne_nil _ (List.cons_ne_nil _ _)]
        exact List.getLast?_eq_some_getLast _)
      rw [hblank _ hend] at hno
      cases hno
    · refine .inl ⟨harg, fun c hc => h c ?_⟩
      rw [hlast, List.getLast?_append_of_ne_nil _ harg]
      exact hc
  · exact .inr ⟨hnone, hwhole⟩

/-- By induction on the table: each level does what it should where its word has an argument. -/
theorem execute_lawful_iff (table : Table F) {mem : Mem} {a : Nat} {text : Str} (h : TextAt mem a text)
    (htrim : Trimmed text) :
    (execute mem a table.commands).Lawful table text ↔ table.Separated (firstWord text) (argument text) := by
  induction hsize : sizeOf table using Nat.strong_induction_on generalizing table mem a text with
  | _ size ih =>
  generalize hfind : table.commands.find? (fun c => decide (firstWord text = c.name)) = o
  have hfound := found table (firstWord text)
  rw [hfind] at hfound
  cases hfound with
  | none hsep hexp =>
      obtain ⟨e, hrun, hlaw⟩ := execute_unknown h hfind
      refine iff_of_true ⟨?_, ?_⟩ (hsep _)
      · rw [hrun]
        simpa using hlaw
      · rw [hrun, hexp]
  | run hsep hexp =>
      rw [hsep]
      rcases htrim.argument with ⟨harg, -⟩ | ⟨hnone, hwhole⟩
      · obtain ⟨e, cut, b, hrun, hlaw, htext⟩ := execute_argument h hfind harg
        refine iff_of_true ⟨?_, ?_⟩ harg
        · rw [hrun]
          simpa [leaf] using hlaw
        · rw [hrun, hexp]
          simp only [leaf, htext.cstr]
      · obtain ⟨e, he, hlaw⟩ := execute_whole h hfind hwhole
        exact iff_of_false (fun hall => hlaw (hall.law e he)) (by simp [hnone])
  | @sub help inner hlt hsep hexp =>
      rw [hsep]
      rcases htrim.argument with ⟨harg, htrim'⟩ | ⟨hnone, hwhole⟩
      · obtain ⟨e, cut, b, hrun, hlaw, htext⟩ := execute_argument h hfind harg
        -- the handler of the entry finds its argument not empty
        have hcom : comTable help inner.commands cut b = execute cut b inner.commands := by
          have hne : load cut b ≠ 0 := by
            rw [load_text htext]
            obtain ⟨c, s, hcs⟩ := List.exists_cons_of_ne_nil harg
            rw [hcs]
            exact htext.nonzero c (by simp [hcs])
          rw [comTable, if_neg hne]
        have hinner := ih (sizeOf inner) (hsize ▸ hlt) inner htext htrim' rfl
        simp only [hcom] at hrun
        rw [and_iff_right harg, ← hinner]
        constructor
        · rintro ⟨hl, hr⟩
          rw [hrun] at hl hr
          exact ⟨fun e' he => hl e' (List.mem_cons_of_mem e he), hr.trans (hexp _ harg)⟩
        · rintro ⟨hl, hr⟩
          refine ⟨fun e' he => ?_, ?_⟩
          · rw [hrun] at he
            rcases List.mem_cons.1 he with rfl | he
            · exact hlaw
            · exact hl e' he
          · rw [hrun]
            exact hr.trans (hexp _ harg).symm
      · obtain ⟨e, he, hlaw⟩ := execute_whole h hfind hwhole
        exact iff_of_false (fun hall => hlaw (hall.law e he)) (by simp [hnone])

/-! ## The lines of the main loop -/

theorem load_at (before behind : Mem) (c : BitVec 8) : load (before ++ c :: behind) before.length = c := by
  simp [load]

/-- The loop from the end goes over the blanks there, by induction on them from the last one. -/
theorem backOver_eq (before : Str) {u : Str} (hu : u ≠ []) (hlast : ∀ c ∈ u.getLast?, isspace c = false) {blanks : Str}
    (hblanks : ∀ c ∈ blanks, isspace c = true) (behind : Mem) :
    backOver (before ++ (u ++ blanks) ++ behind) before.length (before.length + (u ++ blanks).length - 1) =
      before.length + u.length - 1 := by
  have hpos := List.length_pos_of_ne_nil hu
  induction blanks using List.reverseRecOn generalizing behind with
  | nil =>
      obtain ⟨u, l, rfl⟩ : ∃ u' l, u = u' ++ [l] := ⟨u.dropLast, u.getLast hu, (List.dropLast_append_getLast hu).symm⟩
      have hload := load_at (before ++ u) behind l
      have hl : isspace l = false := hlast l (by simp)
      rw [List.length_append] at hload
      have hmem : before ++ (u ++ [l] ++ []) ++ behind = before ++ u ++ l :: behind := by simp
      rw [hmem, List.append_nil, List.length_append, List.length_singleton,
        show before.length + (u.length + 1) - 1 = before.length + u.length by omega]
      cases hend : before.length + u.length with
      | zero => rfl
      | succ t =>
          rw [hend] at hload
          rw [backOver, hload, hl, if_neg (by simp)]
  | append_singleton blanks c ih =>
      have hload : load (before ++ (u ++ blanks) ++ c :: behind) (before.length + (u.length + blanks.length)) = c := by
        rw [← List.length_append, ← List.length_append]
        exact load_at ..
      have hc : isspace c = true := hblanks c (by simp)
      have hmem : before ++ (u ++ (blanks ++ [c])) ++ behind = before ++ (u ++ blanks) ++ c :: behind := by simp
      have hlen : before.length + (u ++ (blanks ++ [c])).length - 1 =
          (before.length + (u ++ blanks).length - 1) + 1 := by
        simp only [List.length_append, List.length_singleton]
        omega
      rw [hmem, hlen, backOver, if_pos, ih (fun d hd => hblanks d (by simp [hd]))]
      rw [List.length_append, show before.length + (u.length + blanks.length) - 1 + 1 =
        before.length + (u.length + blanks.length) by omega, hload]
      exact ⟨by omega, hc⟩

/-- The line that `stripwhite` produces. -/
theorem stripwhite_line {buffer : Str} (hbuffer : ∀ c ∈ buffer, c ≠ 0) (behind : Mem) :
    let line := stripwhite (buffer ++ 0 :: behind) 0
    ∃ text, TextAt line.2 line.1 text ∧ Trimmed text := by
  have hbuf : TextAt (buffer ++ 0 :: behind) 0 buffer := ⟨⟨[], behind, rfl, rfl⟩, hbuffer⟩
  have hscan := hbuf.scan (show isspace 0 = false by decide)
  have hsplit : buffer.takeWhile isspace ++ buffer.dropWhile isspace = buffer := List.takeWhile_append_dropWhile
  have hcore : TextAt (buffer ++ 0 :: behind) (0 + (buffer.takeWhile isspace).length) (buffer.dropWhile isspace) :=
    TextAt.suffix (by rw [hsplit]; exact hbuf)
  rw [Nat.zero_add] at hscan hcore
  generalize hblanks : buffer.takeWhile isspace = blanks at *
  rw [stripwhite, hscan]
  by_cases hempty : buffer.dropWhile isspace = []
  · -- only blanks: the line is empty
    rw [hempty] at hcore
    rw [if_pos (show load _ _ = 0 from load_text hcore)]
    exact ⟨[], hcore, by simp [Trimmed]⟩
  · have hload : load (buffer ++ 0 :: behind) blanks.length ≠ 0 := by
      rw [load_text hcore]
      obtain ⟨c, s, hcs⟩ := List.exists_cons_of_ne_nil hempty
      rw [hcs]
      exact hcore.nonzero c (by simp [hcs])
    have hcstr := hcore.cstr
    -- the line proper, and the blanks behind it
    obtain ⟨u, trail, hends, hu, hlast, htrail⟩ : ∃ u trail, u ++ trail = buffer.dropWhile isspace ∧ u ≠ [] ∧
        (∀ c ∈ u.getLast?, isspace c = false) ∧ ∀ c ∈ trail, isspace c = true := by
      have hu : (buffer.dropWhile isspace).rdropWhile isspace ≠ [] := by
        intro hall
        have hhead := List.rdropWhile_eq_nil_iff.1 hall _ (List.head_mem hempty)
        rw [List.head_dropWhile_not isspace hempty] at hhead
        cases hhead
      refine ⟨_, _, List.rdropWhile_append_rtakeWhile .., hu, fun c hc => ?_, fun c hc => List.mem_rtakeWhile_imp hc⟩
      have hno := List.rdropWhile_last_not isspace (buffer.dropWhile isspace) hu
      rw [List.getLast?_eq_some_getLast hu] at hc
      cases hc
      simpa using hno
    rw [← hends] at hcore hcstr hsplit
    have hmem : buffer ++ 0 :: behind = blanks ++ (u ++ trail) ++ 0 :: behind := by rw [hsplit]
    have hback := backOver_eq blanks hu hlast htrail (0 :: behind)
    rw [← hmem] at hback
    have hpos := List.length_pos_of_ne_nil hu
    have hend : blanks.length + u.length - 1 + 1 = blanks.length + u.length := by omega
    rw [if_neg hload, hcstr, hback]
    refine ⟨u, ?_, hlast⟩
    show TextAt (List.set _ (blanks.length + u.length - 1 + 1) 0) _ u
    rw [hend]
    exact hcore.cut

/-- **The command line.**  For any line and any bytes behind it, every level of dispatch stays in
the line and hands on the rest of it exactly where no command that is reached is all of its line. -/
theorem dispatch_lawful_iff (table : Table F) {buffer : Str} (hbuffer : ∀ c ∈ buffer, c ≠ 0) (behind : Mem) :
    let line := stripwhite (buffer ++ 0 :: behind) 0
    let text := cstr line.2 line.1
    text ≠ [] → ((mainLine (buffer ++ 0 :: behind) 0 table.commands).Lawful table text ↔
      table.Separated (firstWord text) (argument text)) := by
  intro line text hne
  obtain ⟨text', htext, htrim⟩ := stripwhite_line hbuffer behind
  have heq : text = text' := htext.cstr
  rw [mainLine, if_pos (List.length_pos_of_ne_nil hne), heq]
  exact execute_lawful_iff table htext htrim

theorem dispatch_lawful_iff_show :
    let line := stripwhite (str " admin  show fpga " ++ 0 :: []) 0
    let text := cstr line.2 line.1
    text = str "admin  show fpga" ∧ ((mainLine (str " admin  show fpga " ++ 0 :: []) 0 cliCommands.commands).Lawful
      cliCommands text ↔ cliCommands.Separated (firstWord text) (argument text)) :=
  ⟨by decide, dispatch_lawful_iff cliCommands (by decide) [] (by decide)⟩

/-- `quit` alone: `execute` reads the byte behind the NUL. -/
theorem dispatch_quit_outside :
    ¬ ∀ (table : Table Func) (buffer : Str) (behind : Mem), (∀ c ∈ buffer, c ≠ 0) →
      let line := stripwhite (buffer ++ 0 :: behind) 0
      let text := cstr line.2 line.1
      text ≠ [] → (mainLine (buffer ++ 0 :: behind) 0 table.commands).Lawful table text := by
  intro h
  have hlaw := (h cliCommands (str "quit") [] (by decide) (by decide)).law
  have hinside : ∀ e ∈ (mainLine (str "quit" ++ 0 :: []) 0 cliCommands.commands).executed, ∀ a ∈ e.accesses,
      a ≤ e.line + (cstr e.mem e.line).length := fun e he a ha => ((hlaw e he).inside a ha).2
  exact absurd hinside (by decide)

end DnsAdtm.Sw.Dispatch
