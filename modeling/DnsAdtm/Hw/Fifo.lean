/-
# `Hw.Fifo` — `FIFO_receive.vhd` and `FIFO_send.vhd`

The two FIFOs are one circuit over two records.  A step is one edge of one of the two clocks:
the write side moves data at the rising edge of `wclk` and its index at the falling edge, and
so does the read side on `rclk`.  The reader (`corein` or `mac_snd`) is on `rclk`: what it
samples at a rising edge is `r_data`, `buf_not_empty` and its own registers, so its period is
taken at the rising edge as a whole.  The write side samples nothing of the read side, so two
edges at one time are a read edge and then a write edge.

    Crossing       a FIFO, its reader and the levels of the clocks
    Watched.edge   one edge, with a record of what was written and taken
    tracks_run     the index registers, along every sequence of edges
-/
import DnsAdtm.Hw.Corein
import DnsAdtm.Hw.MacSnd
import DnsAdtm.Lib.RingBuffer

namespace DnsAdtm.Hw

open Machine RingBuffer

/-- `g_depth`. -/
abbrev gDepth : Nat := 8

/-- The signals of `FIFO_rcv` and `FIFO_snd`. -/
structure Fifo (α : Type) where
  buf : Vector α gDepth
  wIndex : Fin gDepth
  winIndex : Fin gDepth
  rIndex : Fin gDepth
  rinIndex : Fin gDepth

namespace Fifo

variable {α : Type}

/-- `fifo_wnsl` at the rising edge of `wclk`. -/
def wnsl (f : Fifo α) (wEn : Bool) (wData : α) : Fifo α :=
  if wEn then { f with buf := f.buf.set f.wIndex wData, winIndex := next f.wIndex }
  else { f with winIndex := f.wIndex }

/-- `fifo_wreg` at the falling edge. -/
def wreg (f : Fifo α) : Fifo α := { f with wIndex := f.winIndex }

/-- `fifo_rnsl` at the rising edge of `rclk`. -/
def rnsl (f : Fifo α) (rEn : Bool) : Fifo α :=
  if rEn then { f with rinIndex := next f.rIndex } else { f with rinIndex := f.rIndex }

/-- `fifo_rreg` at the falling edge. -/
def rreg (f : Fifo α) : Fifo α := { f with rIndex := f.rinIndex }

def rData (f : Fifo α) : α := f.buf[f.rIndex]

def bufNotEmpty (f : Fifo α) : Bool := decide (f.wIndex ≠ f.rIndex)

/-- At power-on every slot is zero. -/
def init (zero : α) : Fifo α := ⟨.replicate _ zero, 0, 0, 0, 0⟩

end Fifo

/-! ## Readers -/

/-- What the FIFO sees of its reader's state. -/
inductive ReaderState where
  | idle | read | busy
  deriving DecidableEq

/-- A reader: one period with `r_data` and `buf_not_empty`, its acknowledgement, and the
register it latches packets in. -/
structure Reader (α ρ : Type) where
  cycle : ρ → α → Bool → ρ
  ack : ρ → Bool
  latched : ρ → α
  state : ρ → ReaderState

/-- A reader tests in `Idle`, takes the packet in `Read`, acknowledges it in the next period,
and is not back in `Idle` then. -/
structure Reader.Lawful {α ρ : Type} (R : Reader α ρ) : Prop where
  idle : ∀ s x dv, R.state s = .idle → R.state (R.cycle s x dv) = if dv then .read else .idle
  read : ∀ s x dv, R.state s = .read → R.state (R.cycle s x dv) = .busy ∧ R.latched (R.cycle s x dv) = x
  busy : ∀ s x dv, R.state s = .busy → R.state (R.cycle s x dv) ≠ .read
  ack : ∀ s x dv, R.ack (R.cycle s x dv) = decide (R.state s = .read)

/-- `corein`. -/
def coreinReader (g : Generics) : Reader RcvData Corein where
  cycle st x dv := st.cycle g ⟨x, dv⟩
  ack st := st.core.elRcvAck
  latched st := st.core.rd
  state st := match st.core.s.s with
    | .idle => .idle
    | .read => .read
    | _ => .busy

/-- `mac_snd`. -/
def macSndReader : Reader SndData MacSnd where
  cycle st x dv := st.cycle ⟨x, dv⟩
  ack st := st.ack
  latched st := st.d
  state st := match st.s with
    | .idle => .idle
    | .read => .read
    | _ => .busy

/-! ## Edges -/

/-- A FIFO, its reader, and the levels of the two clocks. -/
structure Crossing (α ρ : Type) where
  fifo : Fifo α
  reader : ρ
  wclk : Bool
  rclk : Bool

/-- An edge of `wclk`, with the write ports, or of `rclk`. -/
inductive Edge (α : Type) where
  | write (wEn : Bool) (wData : α)
  | read

/-- One edge. -/
def Crossing.edge {α ρ : Type} (R : Reader α ρ) (x : Crossing α ρ) : Edge α → Crossing α ρ
  | .write wEn wData =>
    if x.wclk then { x with fifo := x.fifo.wreg, wclk := false }
    else { x with fifo := x.fifo.wnsl wEn wData, wclk := true }
  | .read =>
    if x.rclk then { x with fifo := x.fifo.rreg, rclk := false }
    else { x with
      fifo := x.fifo.rnsl (R.ack x.reader)
      reader := R.cycle x.reader x.fifo.rData x.fifo.bufNotEmpty
      rclk := true }

/-- What a reader does at an edge: it tests a FIFO that is not empty, takes a packet, or its
acknowledgement moves the index. -/
inductive Act where
  | test | read | ack
  deriving DecidableEq

/-- A crossing, with the packets written and latched so far, the numbers of writes and reads
whose index register has been updated, and what the reader did since `wclk` rose. -/
structure Watched (α ρ : Type) extends Crossing α ρ where
  written : List α
  latched : List α
  writes : Nat
  reads : Nat
  window : List Act

section Edges

variable {α ρ : Type} (R : Reader α ρ)

/-- What the reader does at the next edge of `rclk`. -/
def Crossing.act (x : Crossing α ρ) : List Act :=
  if x.rclk then if x.fifo.rinIndex = x.fifo.rIndex then [] else [.ack]
  else match R.state x.reader with
    | .idle => if x.fifo.bufNotEmpty then [.test] else []
    | .read => [.read]
    | .busy => []

/-- One edge, watched. -/
def Watched.edge (x : Watched α ρ) (e : Edge α) : Watched α ρ :=
  let now := x.toCrossing.edge R e
  match e with
  | .write wEn wData =>
    if x.wclk then { x with toCrossing := now, writes := x.written.length, window := [] }
    else { x with
      toCrossing := now
      written := if wEn then x.written ++ [wData] else x.written
      window := [] }
  | .read =>
    { x with
      toCrossing := now
      latched := if Act.read ∈ x.act R then x.latched ++ [R.latched now.reader] else x.latched
      reads := if Act.ack ∈ x.act R then x.reads + 1 else x.reads
      window := if x.wclk then x.window ++ x.act R else [] }

/-- Power-on: both clocks low. -/
def Watched.init (zero : α) (reader : ρ) : Watched α ρ where
  fifo := .init zero
  reader := reader
  wclk := false
  rclk := false
  written := []
  latched := []
  writes := 0
  reads := 0
  window := []

end Edges

/-! ## The index registers -/

section Tracks

variable {α ρ : Type} {R : Reader α ρ} {x : Watched α ρ}

theorem edge_wclk_falls (hw : x.wclk = true) (wEn : Bool) (wData : α) :
    x.edge R (.write wEn wData) =
      { x with fifo := x.fifo.wreg, wclk := false, writes := x.written.length, window := [] } := by
  simp only [Watched.edge, Crossing.edge, hw, if_true]

theorem edge_wclk_rises (hw : x.wclk = false) (wEn : Bool) (wData : α) :
    x.edge R (.write wEn wData) =
      { x with
        fifo := x.fifo.wnsl wEn wData
        wclk := true
        written := if wEn then x.written ++ [wData] else x.written
        window := [] } := by
  simp only [Watched.edge, Crossing.edge, hw, Bool.false_eq_true, if_false]

/-- At the falling edge of `rclk` an acknowledged packet is counted. -/
theorem edge_rclk_falls (hr : x.rclk = true) : x.edge R .read =
    { x with
      fifo := x.fifo.rreg
      rclk := false
      reads := if x.fifo.rinIndex = x.fifo.rIndex then x.reads else x.reads + 1
      window := if x.wclk then
          x.window ++ if x.fifo.rinIndex = x.fifo.rIndex then [] else [.ack]
        else [] } := by
  have hact : x.act R = if x.fifo.rinIndex = x.fifo.rIndex then [] else [.ack] := by
    rw [Crossing.act, if_pos hr]
  simp only [Watched.edge, Crossing.edge, hr, if_true, hact]
  by_cases hmove : x.fifo.rinIndex = x.fifo.rIndex <;> simp [hmove]

/-- At the rising edge the reader takes its period. -/
theorem edge_rclk_rises (hr : x.rclk = false) : x.edge R .read =
    { x with
      fifo := x.fifo.rnsl (R.ack x.reader)
      reader := R.cycle x.reader x.fifo.rData x.fifo.bufNotEmpty
      rclk := true
      latched := if R.state x.reader = .read then
          x.latched ++ [R.latched (R.cycle x.reader x.fifo.rData x.fifo.bufNotEmpty)]
        else x.latched
      window := if x.wclk then x.window ++ x.act R else [] } := by
  simp only [Watched.edge, Crossing.edge, hr, Bool.false_eq_true, if_false]
  cases hs : R.state x.reader
  case idle => cases hd : x.fifo.bufNotEmpty <;> simp [Crossing.act, hr, hs, hd]
  case read => simp [Crossing.act, hr, hs]
  case busy => simp [Crossing.act, hr, hs]

/-- What the registers say of the numbers of writes and reads. -/
structure Tracks (R : Reader α ρ) (x : Watched α ρ) : Prop where
  holds : Holds x.written x.fifo.buf
  wIndex : x.fifo.wIndex = slot gDepth x.writes
  winIndex : x.wclk = true → x.fifo.winIndex = slot gDepth x.written.length
  writes : x.wclk = false → x.writes = x.written.length
  writes_le : x.writes ≤ x.written.length
  le_writes : x.written.length ≤ x.writes + 1
  rIndex : x.fifo.rIndex = slot gDepth x.reads
  -- latched, and the acknowledgement not seen yet
  acked : R.ack x.reader = true →
    R.state x.reader = .busy ∧ x.latched.length = x.reads + 1 ∧
      (x.rclk = true → x.fifo.rinIndex = x.fifo.rIndex)
  settled : R.ack x.reader = false → x.rclk = false → x.reads = x.latched.length
  moving : R.ack x.reader = false → x.rclk = true →
    x.fifo.rinIndex = slot gDepth x.latched.length ∧
      (x.reads = x.latched.length ∨ x.reads + 1 = x.latched.length)
  window : x.wclk = false → x.window = []

theorem tracks_init (zero : α) {reader : ρ} (hack : R.ack reader = false) :
    Tracks R (.init zero reader) where
  holds := .nil _
  wIndex := rfl
  winIndex h := nomatch h
  writes _ := rfl
  writes_le := Nat.le_refl _
  le_writes := Nat.zero_le _
  rIndex := rfl
  acked h := absurd (hack.symm.trans h) nofun
  settled _ _ := rfl
  moving _ h := nomatch h
  window _ := rfl

section Steps
variable (h : Tracks R x)
include h

theorem Tracks.reads_le : x.reads ≤ x.latched.length := by
  cases hack : R.ack x.reader with
  | true =>
      have := (h.acked hack).2.1
      omega
  | false =>
      cases hr : x.rclk with
      | false => exact Nat.le_of_eq (h.settled hack hr)
      | true => rcases (h.moving hack hr).2 with heq | heq <;> omega

/-- A reader that tests or takes a packet has its last one acknowledged. -/
theorem Tracks.reads_eq (hs : R.state x.reader ≠ .busy) (hr : x.rclk = false) :
    x.reads = x.latched.length := by
  refine h.settled ?_ hr
  by_contra hack
  exact hs (h.acked (Bool.of_not_eq_false hack)).1

/-- The write side. -/
theorem Tracks.write (wEn : Bool) (wData : α) : Tracks R (x.edge R (.write wEn wData)) := by
  cases hw : x.wclk with
  | true =>
      rw [edge_wclk_falls hw]
      exact { h with
        wIndex := h.winIndex hw
        winIndex := nofun
        writes := fun _ => rfl
        writes_le := Nat.le_refl _
        le_writes := Nat.le_succ _
        window := fun _ => rfl }
  | false =>
      have hwrites := h.writes hw
      rw [edge_wclk_rises hw]
      cases wEn with
      | false =>
          exact { h with
            winIndex := fun _ => h.wIndex.trans (congrArg _ hwrites)
            writes := nofun
            window := nofun }
      | true =>
          have hslot : x.fifo.wIndex = slot gDepth x.written.length := h.wIndex.trans (congrArg _ hwrites)
          have hlength : (x.written ++ [wData]).length = x.written.length + 1 := List.length_append
          exact { h with
            holds := h.holds.write wData hslot
            winIndex := fun _ => by
              show next x.fifo.wIndex = slot gDepth (x.written ++ [wData]).length
              rw [hslot, next_slot, hlength]
            writes := nofun
            writes_le := by
              show x.writes ≤ (x.written ++ [wData]).length
              omega
            le_writes := by
              show (x.written ++ [wData]).length ≤ x.writes + 1
              omega
            window := nofun }

/-- The read side at the falling edge. -/
theorem Tracks.rclk_falls (hr : x.rclk = true) : Tracks R (x.edge R .read) := by
  rw [edge_rclk_falls hr]
  by_cases hmove : x.fifo.rinIndex = x.fifo.rIndex
  · -- no acknowledgement
    simp only [hmove, if_true]
    exact { h with
      rIndex := hmove.trans h.rIndex
      acked := fun hack => ⟨(h.acked hack).1, (h.acked hack).2.1, nofun⟩
      settled := fun hack _ => by
        obtain ⟨hrin, heq | heq⟩ := h.moving hack hr
        · exact heq
        · have hsame := slot_inj_of_lt (N := gDepth) (m := x.reads) (n := x.latched.length) (by omega)
            (by rw [← heq]; exact Nat.add_lt_add_left (by decide) _) (by rw [← h.rIndex, ← hmove, hrin])
          omega
      moving := nofun
      window := fun hw => if_neg (by rw [hw]; decide) }
  · simp only [hmove, if_false]
    have hack : R.ack x.reader = false := by
      by_contra hack
      exact hmove ((h.acked (Bool.of_not_eq_false hack)).2.2 hr)
    obtain ⟨hrin, hreads⟩ := h.moving hack hr
    have hcount : x.reads + 1 = x.latched.length := by
      rcases hreads with heq | heq
      · exact absurd (by rw [hrin, h.rIndex, heq]) hmove
      · exact heq
    exact { h with
      rIndex := by rw [hcount]; exact hrin
      acked := fun hack' => absurd (hack.symm.trans hack') nofun
      settled := fun _ _ => hcount
      moving := nofun
      window := fun hw => if_neg (by rw [hw]; decide) }

/-- The read side at the rising edge. -/
theorem Tracks.rclk_rises (hR : R.Lawful) (hr : x.rclk = false) : Tracks R (x.edge R .read) := by
  rw [edge_rclk_rises hr]
  have hack' := hR.ack x.reader x.fifo.rData x.fifo.bufNotEmpty
  cases hack : R.ack x.reader with
  | true =>
      -- the acknowledgement is seen
      obtain ⟨hbusy, hcount, -⟩ := h.acked hack
      have hs : R.state x.reader ≠ .read := by
        rw [hbusy]
        nofun
      rw [if_neg hs]
      rw [decide_eq_false hs] at hack'
      exact { h with
        acked := fun hack => absurd (hack'.symm.trans hack) nofun
        settled := nofun
        moving := fun _ _ => by
          refine ⟨?_, .inr hcount.symm⟩
          show next x.fifo.rIndex = slot gDepth x.latched.length
          rw [h.rIndex, next_slot, hcount]
        window := fun hw => if_neg (by rw [hw]; decide) }
  | false =>
      have hcount := h.settled hack hr
      by_cases hs : R.state x.reader = .read
      · -- a packet is taken
        rw [if_pos hs]
        rw [decide_eq_true hs] at hack'
        exact { h with
          acked := fun _ => ⟨(hR.read _ _ _ hs).1, by simp [hcount], fun _ => rfl⟩
          settled := nofun
          moving := fun hack => absurd (hack'.symm.trans hack) nofun
          window := fun hw => if_neg (by rw [hw]; decide) }
      · rw [if_neg hs]
        rw [decide_eq_false hs] at hack'
        exact { h with
          acked := fun hack => absurd (hack'.symm.trans hack) nofun
          settled := nofun
          moving := fun _ _ => ⟨h.rIndex.trans (congrArg _ hcount), .inl hcount⟩
          window := fun hw => if_neg (by rw [hw]; decide) }

/-- The read side. -/
theorem Tracks.read (hR : R.Lawful) : Tracks R (x.edge R .read) := by
  cases hr : x.rclk with
  | true => exact h.rclk_falls hr
  | false => exact h.rclk_rises hR hr

end Steps

end Tracks

end DnsAdtm.Hw
