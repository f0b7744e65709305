/-
# `Hw.FifoOrder` — the FIFOs keep the order of the packets

A reader takes the packet in its slot, whatever it is, and goes on to the next slot; there is
no full flag, so it can be overrun.  It still takes packets in the order they were written
(`InOrder`): the one expected next is never behind the last written, and a test only fails to
say so between the two edges of the write that was just taken.  As long as the writer is less
than `g_depth` ahead nothing is skipped (`Kept`).

    inOrder_run    in order, along every sequence of edges
    kept_run       nothing skipped, while the FIFO has never been full
    fifos_in_order both FIFOs with their readers
-/
import DnsAdtm.Hw.CoreinAuth
import DnsAdtm.Hw.Fifo

namespace DnsAdtm.Hw

open Machine RingBuffer

variable {α ρ : Type} {R : Reader α ρ} {x : Watched α ρ}

/-! ## In order -/

/-- The packets latched are the written ones numbered `idx`, and the one expected next is
number `e` or one that overwrote it. -/
structure InOrder (R : Reader α ρ) (x : Watched α ρ) (idx : List Nat) (e : Nat) : Prop where
  values : idx.map (x.written[·]?) = x.latched.map some
  sorted : idx.Pairwise (· < ·)
  before : ∀ n ∈ idx, n < e
  expected : slot gDepth e = slot gDepth x.latched.length
  written : e ≤ x.written.length
  behind : e ≤ x.writes ∨ Act.read ∈ x.window
  reading : R.state x.reader = .read → e < x.written.length

section InOrder
variable {idx : List Nat} {e : Nat} (h : InOrder R x idx e) (htracks : Tracks R x)
include h htracks

theorem InOrder.write (wEn : Bool) (wData : α) : InOrder R (x.edge R (.write wEn wData)) idx e := by
  cases hw : x.wclk with
  | true =>
      rw [edge_wclk_falls hw]
      exact { h with behind := .inl h.written }
  | false =>
      have hbehind : e ≤ x.writes := by
        rw [htracks.writes hw]
        exact h.written
      rw [edge_wclk_rises hw]
      cases wEn with
      | false => exact { h with behind := .inl hbehind }
      | true =>
          have hlength : (x.written ++ [wData]).length = x.written.length + 1 := List.length_append
          exact { h with
            values := by
              refine Eq.trans (List.map_congr_left fun n hn => ?_) h.values
              exact List.getElem?_append_left (Nat.lt_of_lt_of_le (h.before n hn) h.written)
            written := by
              show e ≤ (x.written ++ [wData]).length
              exact hlength ▸ Nat.le_succ_of_le h.written
            behind := .inl hbehind
            reading := fun hs => by
              show e < (x.written ++ [wData]).length
              exact hlength ▸ Nat.lt_succ_of_lt (h.reading hs) }

theorem InOrder.rclk_falls (hr : x.rclk = true) : InOrder R (x.edge R .read) idx e := by
  rw [edge_rclk_falls hr]
  refine { h with behind := ?_ }
  rcases h.behind with hle | hread
  · exact .inl hle
  · right
    cases hw : x.wclk with
    | true => simp [hread]
    | false =>
        rw [htracks.window hw] at hread
        cases hread

/-- The reader's period, in its three states. -/
theorem InOrder.rclk_rises (hR : R.Lawful) (hr : x.rclk = false)
    (hround : ¬ List.Sublist [Act.read, .test] (x.edge R .read).window) :
    ∃ idx' e', InOrder R (x.edge R .read) idx' e' := by
  rw [edge_rclk_rises hr] at hround ⊢
  have hquiet : x.wclk = false → x.window = [] := htracks.window
  have hmem : Act.read ∈ x.window → x.wclk = true := by
    intro hread
    by_contra hw
    rw [hquiet (Bool.eq_false_of_not_eq_true hw)] at hread
    cases hread
  have hbehind : e ≤ x.writes ∨ Act.read ∈ if x.wclk then x.window ++ x.act R else [] := by
    rcases h.behind with hle | hread
    · exact .inl hle
    · exact .inr (by simp [hmem hread, hread])
  cases hs : R.state x.reader with
  | busy =>
      rw [if_neg (by decide)]
      exact ⟨idx, e, { h with
        behind := hbehind
        reading := fun hread => absurd hread (hR.busy _ _ _ hs) }⟩
  | idle =>
      rw [if_neg (by decide)]
      refine ⟨idx, e, { h with behind := hbehind, reading := fun hread => ?_ }⟩
      have hdv : x.fifo.bufNotEmpty = true := by
        by_contra hdv
        have hnext := hR.idle x.reader x.fifo.rData x.fifo.bufNotEmpty hs
        rw [if_neg hdv] at hnext
        exact absurd (hnext.symm.trans hread) (by decide)
      -- the test comes behind the edges of the last write taken
      have hle : e ≤ x.writes := by
        rcases h.behind with hle | hread
        · exact hle
        · have hact : x.act R = [.test] := by simp [Crossing.act, hr, hs, hdv]
          refine absurd ?_ hround
          rw [hact]
          show List.Sublist [Act.read, .test] (if x.wclk then x.window ++ [.test] else [])
          rw [if_pos (hmem hread)]
          exact (List.singleton_sublist.mpr hread).append (List.Sublist.refl [Act.test])
      have hne : x.fifo.wIndex ≠ x.fifo.rIndex := of_decide_eq_true hdv
      have hlt : e ≠ x.writes := by
        rintro rfl
        refine hne ?_
        rw [htracks.wIndex, h.expected, htracks.rIndex, htracks.reads_eq (by rw [hs]; decide) hr]
      have hwrites := htracks.writes_le
      show e < x.written.length
      omega
  | read =>
      have hreads := htracks.reads_eq (by rw [hs]; decide) hr
      have hslot : x.fifo.rIndex = slot gDepth e := by rw [htracks.rIndex, hreads, h.expected]
      obtain ⟨n, hge, hlt, hn, hvalue⟩ := htracks.holds.read (h.reading hs) hslot
      obtain ⟨hbusy, hlatched⟩ := hR.read x.reader x.fifo.rData x.fifo.bufNotEmpty hs
      refine ⟨idx ++ [n], n + 1, ?_⟩
      simp only [if_true]
      rw [hlatched]
      exact
        { values := by
            show (idx ++ [n]).map (x.written[·]?) = (x.latched ++ [x.fifo.rData]).map some
            rw [List.map_append, List.map_append, h.values]
            show x.latched.map some ++ [x.written[n]?] = x.latched.map some ++ [some x.fifo.rData]
            rw [hvalue]
            rfl
          sorted := List.pairwise_append.mpr ⟨h.sorted, List.pairwise_singleton _ _, fun m hm k hk => by
            rw [List.mem_singleton.mp hk]
            exact Nat.lt_of_lt_of_le (h.before m hm) hge⟩
          before := by
            intro m hm
            rcases List.mem_append.mp hm with hm | hm
            · have := h.before m hm
              omega
            · rw [List.mem_singleton.mp hm]
              exact Nat.lt_succ_self n
          expected := by
            show slot gDepth (n + 1) = slot gDepth (x.latched ++ [x.fifo.rData]).length
            rw [← next_slot, hn, h.expected, next_slot, List.length_append, List.length_singleton]
          written := hlt
          behind := by
            cases hw : x.wclk with
            | false =>
                left
                show n + 1 ≤ x.writes
                rw [htracks.writes hw]
                exact hlt
            | true =>
                right
                have hact : x.act R = [.read] := by simp [Crossing.act, hr, hs]
                simp [hact]
          reading := fun hread => absurd (hbusy.symm.trans hread) (by decide) }

end InOrder

/-! ## Nothing skipped -/

/-- While the FIFO has never been full. -/
structure Kept (R : Reader α ρ) (x : Watched α ρ) : Prop where
  taken : x.latched <+: x.written
  writes : x.latched.length ≤ x.writes
  reading : R.state x.reader = .read → x.latched.length < x.writes

section Kept
variable (h : Kept R x) (htracks : Tracks R x)
include h htracks

theorem Kept.write (wEn : Bool) (wData : α) : Kept R (x.edge R (.write wEn wData)) := by
  cases hw : x.wclk with
  | true =>
      rw [edge_wclk_falls hw]
      have hle := htracks.writes_le
      exact { h with
        writes := Nat.le_trans h.writes hle
        reading := fun hs => Nat.lt_of_lt_of_le (h.reading hs) hle }
  | false =>
      rw [edge_wclk_rises hw]
      cases wEn with
      | false => exact { h with }
      | true => exact { h with taken := h.taken.trans (List.prefix_append _ _) }

theorem Kept.read (hR : R.Lawful) (hroom : x.writes < x.reads + gDepth) :
    Kept R (x.edge R .read) := by
  cases hr : x.rclk with
  | true =>
      rw [edge_rclk_falls hr]
      exact { h with }
  | false =>
      rw [edge_rclk_rises hr]
      cases hs : R.state x.reader with
      | busy =>
          rw [if_neg (by decide)]
          exact { h with reading := fun hread => absurd hread (hR.busy _ _ _ hs) }
      | idle =>
          rw [if_neg (by decide)]
          refine { h with reading := fun hread => ?_ }
          have hdv : x.fifo.bufNotEmpty = true := by
            by_contra hdv
            have hnext := hR.idle x.reader x.fifo.rData x.fifo.bufNotEmpty hs
            rw [if_neg hdv] at hnext
            exact absurd (hnext.symm.trans hread) nofun
          have hne : x.fifo.wIndex ≠ x.fifo.rIndex := of_decide_eq_true hdv
          refine Nat.lt_of_le_of_ne h.writes fun heq => hne ?_
          rw [htracks.wIndex, htracks.rIndex, htracks.reads_eq (by rw [hs]; nofun) hr]
          exact congrArg _ heq.symm
      | read =>
          have hreads := htracks.reads_eq (by rw [hs]; nofun) hr
          have hlt := h.reading hs
          have hwrites := htracks.writes_le
          have hone := htracks.le_writes
          obtain ⟨hbusy, hlatched⟩ := hR.read x.reader x.fifo.rData x.fifo.bufNotEmpty hs
          have hvalue := htracks.holds x.latched.length (by omega) (by omega)
          simp only [if_true]
          rw [hlatched]
          exact
            { taken := by
                have hslot : x.fifo.rIndex = slot gDepth x.latched.length := by rw [htracks.rIndex, hreads]
                have hdata : x.written[x.latched.length]? = some x.fifo.rData := by
                  rw [hvalue, Fifo.rData]
                  simp only [hslot]
                obtain ⟨rest, hrest⟩ := h.taken
                rw [← hrest, List.getElem?_append_right (Nat.le_refl _), Nat.sub_self] at hdata
                obtain ⟨rest, rfl⟩ := List.head?_eq_some_iff.mp (List.head?_eq_getElem? ▸ hdata)
                exact ⟨rest, by rw [← hrest, List.append_assoc]; rfl⟩
              writes := by
                show (x.latched ++ [x.fifo.rData]).length ≤ x.writes
                rw [List.length_append]
                exact hlt
              reading := fun hread => absurd (hbusy.symm.trans hread) nofun }

/-- The flag says whether there is something to read. -/
theorem Kept.bufNotEmpty_iff (hroom : x.writes < x.reads + gDepth) :
    x.fifo.bufNotEmpty = true ↔ x.reads < x.writes := by
  have hle : x.reads ≤ x.writes := Nat.le_trans htracks.reads_le h.writes
  have hiff : x.fifo.wIndex = x.fifo.rIndex ↔ x.writes = x.reads := by
    rw [htracks.wIndex, htracks.rIndex]
    exact ⟨fun heq => (slot_inj_of_lt hle hroom heq.symm).symm, fun heq => congrArg _ heq⟩
  rw [Fifo.bufNotEmpty, decide_eq_true_iff, ne_eq, hiff]
  omega

end Kept

/-! ## Runs -/

/-- What holds at every moment of a run. -/
def Throughout (P : Watched α ρ → Prop) (R : Reader α ρ) (x : Watched α ρ) (edges : List (Edge α)) :
    Prop :=
  ∀ pre, pre <+: edges → P (run (Watched.edge R) x pre)

theorem tracks_run (hR : R.Lawful) (zero : α) {reader : ρ} (hack : R.ack reader = false)
    (edges : List (Edge α)) : Tracks R (run (Watched.edge R) (.init zero reader) edges) := by
  refine run_invariant _ (fun x e h => ?_) (tracks_init zero hack) edges
  cases e with
  | write wEn wData => exact h.write wEn wData
  | read => exact h.read hR

theorem Throughout.init {P : Watched α ρ → Prop} {e : Edge α} {edges : List (Edge α)}
    (h : Throughout P R x (edges ++ [e])) : Throughout P R x edges :=
  fun pre hpre => h pre (hpre.trans (List.prefix_append _ _))

theorem Throughout.last {P : Watched α ρ → Prop} {edges : List (Edge α)}
    (h : Throughout P R x edges) : P (run (Watched.edge R) x edges) := h edges (List.prefix_refl _)

/-- In order, whatever the backlog. -/
theorem inOrder_run (hR : R.Lawful) (zero : α) {reader : ρ} (hack : R.ack reader = false)
    (hidle : R.state reader ≠ .read) (edges : List (Edge α))
    (hround : Throughout (fun x => ¬ List.Sublist [Act.read, .test] x.window) R (.init zero reader) edges) :
    ∃ idx e, InOrder R (run (Watched.edge R) (.init zero reader) edges) idx e := by
  induction edges using List.reverseRecOn with
  | nil =>
      exact ⟨[], 0, rfl, .nil, nofun, rfl, Nat.le_refl _, .inl (Nat.le_refl _), fun h => absurd h hidle⟩
  | append_singleton edges e ih =>
      obtain ⟨idx, n, h⟩ := ih hround.init
      have htracks := tracks_run hR zero hack edges
      have hlast := hround.last
      rw [run_append] at hlast ⊢
      cases e with
      | write wEn wData => exact ⟨idx, n, h.write htracks wEn wData⟩
      | read =>
          cases hr : (run (Watched.edge R) (.init zero reader) edges).rclk with
          | true => exact ⟨idx, n, h.rclk_falls htracks hr⟩
          | false => exact h.rclk_rises htracks hR hr hlast

/-- Nothing skipped, while the FIFO has never been full. -/
theorem kept_run (hR : R.Lawful) (zero : α) {reader : ρ} (hack : R.ack reader = false)
    (hidle : R.state reader ≠ .read) (edges : List (Edge α))
    (hroom : Throughout (fun x => x.writes < x.reads + gDepth) R (.init zero reader) edges) :
    Kept R (run (Watched.edge R) (.init zero reader) edges) := by
  induction edges using List.reverseRecOn with
  | nil => exact ⟨List.prefix_refl _, Nat.le_refl _, fun h => absurd h hidle⟩
  | append_singleton edges e ih =>
      have h := ih hroom.init
      have htracks := tracks_run hR zero hack edges
      rw [run_append]
      cases e with
      | write wEn wData => exact h.write htracks wEn wData
      | read => exact h.read htracks hR hroom.init.last

/-! ## The two readers -/

section Corein
variable {g : Generics} {st : Core} {i : RcvIn}

theorem rcv_idle_or (h : st.s.s = .idle) : (rcv g st i).s.s = if i.elRcvDv then .read else .idle := by
  unfold rcv
  rw [h]
  dsimp only
  split <;> rfl

/-- `el_rcv_ack` is up in the period behind `Read`, and in no other. -/
theorem rcv_elRcvAck : (rcv g st i).elRcvAck = decide (st.s.s = .read) := by
  unfold rcv
  cases hs : st.s.s
  case read => rfl
  all_goals first
    | rfl
    | (refine listState_cases (fun st' => st'.elRcvAck = false) ?_ ?_ ?_ <;> intro _ <;> rfl)
    | (dsimp only; split_ifs <;> rfl)

/-- `Read` only follows `Idle`. -/
theorem rcv_ne_read (h : st.s.s ≠ .idle) : (rcv g st i).s.s ≠ .read := by
  unfold rcv
  cases hs : st.s.s
  case idle => exact absurd hs h
  all_goals first
    | exact of_decide_eq_true rfl
    | (refine listState_cases (fun st' => st'.s.s ≠ .read) ?_ ?_ ?_ <;> intro _ <;>
        first | exact of_decide_eq_true rfl | exact show st.s.s ≠ .read by rw [hs]; decide)
    | (dsimp only [Stage.doCheck, Stage.doCmp, Stage.doMatch, cmpPktArea]
       split_ifs <;> exact of_decide_eq_true rfl)

end Corein

theorem coreinReader_idle {g : Generics} {st : Corein} :
    (coreinReader g).state st = .idle ↔ st.core.s.s = .idle := by
  dsimp only [coreinReader]
  generalize st.core.s.s = c
  cases c <;> decide

theorem coreinReader_read {g : Generics} {st : Corein} :
    (coreinReader g).state st = .read ↔ st.core.s.s = .read := by
  dsimp only [coreinReader]
  generalize st.core.s.s = c
  cases c <;> decide

theorem coreinReader_lawful (g : Generics) : (coreinReader g).Lawful where
  idle st x dv h := by
    have hnext := rcv_idle_or (g := g) (i := st.rcvIn ⟨x, dv⟩) (coreinReader_idle.mp h)
    cases dv with
    | true => exact coreinReader_read.mpr hnext
    | false => exact coreinReader_idle.mpr hnext
  read st x dv h := by
    have hnext := rcv_read (g := g) (i := st.rcvIn ⟨x, dv⟩) (coreinReader_read.mp h)
    refine ⟨?_, congrArg Core.rd hnext⟩
    have hs : ((coreinReader g).cycle st x dv).core.s.s = .checkAdmin := congrArg (·.s.s) hnext
    dsimp only [coreinReader] at hs ⊢
    rw [hs]
  busy st x dv h := by
    have hidle : st.core.s.s ≠ .idle := fun hs => by
      rw [coreinReader_idle.mpr hs] at h
      cases h
    exact fun hread => rcv_ne_read hidle (coreinReader_read.mp hread)
  ack st x dv := by
    have hread : decide ((coreinReader g).state st = .read) = decide (st.core.s.s = .read) :=
      decide_eq_decide.mpr coreinReader_read
    rw [hread]
    exact rcv_elRcvAck

theorem macSndReader_idle {st : MacSnd} : macSndReader.state st = .idle ↔ st.s = .idle := by
  dsimp only [macSndReader]
  generalize st.s = c
  cases c <;> decide

theorem macSndReader_read {st : MacSnd} : macSndReader.state st = .read ↔ st.s = .read := by
  dsimp only [macSndReader]
  generalize st.s = c
  cases c <;> decide

/-- `mac_snd` is in `Read` behind `Idle` only, and acknowledges then. -/
theorem macSnd_cycle (st : MacSnd) (i : SndIn) :
    (st.s ≠ .idle → (st.cycle i).s ≠ .read) ∧ (st.cycle i).ack = decide (st.s = .read) := by
  obtain ⟨s, crc, c, d, txd, txEn, ack⟩ := st
  cases s
  case idle =>
    refine ⟨fun h => absurd rfl h, ?_⟩
    dsimp only [MacSnd.cycle]
    split <;> rfl
  case read => exact ⟨fun _ => of_decide_eq_true rfl, rfl⟩
  all_goals
    dsimp only [MacSnd.cycle, MacSnd.nibble]
    try split_ifs
    all_goals exact ⟨fun _ => of_decide_eq_true rfl, rfl⟩

theorem macSndReader_lawful : macSndReader.Lawful where
  idle st x dv h := by
    obtain ⟨s, crc, c, d, txd, txEn, ack⟩ := st
    obtain rfl : s = .idle := macSndReader_idle.mp h
    cases dv <;> rfl
  read st x dv h := by
    have hs : st.s = .read := macSndReader_read.mp h
    have hnext : st.cycle ⟨x, dv⟩ = { st with txd := 0x0, txEn := false, d := x, ack := true, s := .preamble } := by
      rw [MacSnd.cycle, hs]
    exact ⟨congrArg macSndReader.state hnext, congrArg MacSnd.d hnext⟩
  busy st x dv h := by
    have hidle : st.s ≠ .idle := fun hs => by
      rw [macSndReader_idle.mpr hs] at h
      cases h
    exact fun hread => (macSnd_cycle st ⟨x, dv⟩).1 hidle (macSndReader_read.mp hread)
  ack st x dv := by
    rw [show decide (macSndReader.state st = .read) = decide (st.s = .read) from
      decide_eq_decide.mpr macSndReader_read]
    exact (macSnd_cycle st ⟨x, dv⟩).2

/-! ## The two FIFOs -/

/-- The packets `latched` are some of those `written`, in the order of writing and each once. -/
def TakenInOrder (written latched : List α) : Prop :=
  ∃ idx : List Nat, idx.Pairwise (· < ·) ∧ idx.map (written[·]?) = latched.map some

/-- `FIFO_rcv` and `corein` after a sequence of edges from power-on. -/
def receiveSide (g : Generics) (edges : List (Edge RcvData)) : Watched RcvData Corein :=
  run (Watched.edge (coreinReader g)) (.init .zero .init) edges

/-- `FIFO_snd` and `mac_snd`. -/
def sendSide (edges : List (Edge SndData)) : Watched SndData MacSnd :=
  run (Watched.edge macSndReader) (.init .zero .init) edges

/-- **The FIFOs keep the order.**  For every sequence of edges of the two clocks and every
pattern of writes: if the reader never tests the FIFO behind a packet it took between the same
two edges of the write clock, the packets latched are packets written, in order and each once;
and as long as the FIFO has never been full, nothing is skipped and the flag is right. -/
theorem fifos_in_order :
    (∀ (g : Generics) (edges : List (Edge RcvData)),
      ((∀ pre, pre <+: edges → ¬ List.Sublist [Act.read, .test] (receiveSide g pre).window) →
        TakenInOrder (receiveSide g edges).written (receiveSide g edges).latched) ∧
      ((∀ pre, pre <+: edges → (receiveSide g pre).writes < (receiveSide g pre).reads + gDepth) →
        (receiveSide g edges).latched <+: (receiveSide g edges).written ∧
          ((receiveSide g edges).fifo.bufNotEmpty = true ↔
            (receiveSide g edges).reads < (receiveSide g edges).writes))) ∧
    (∀ edges : List (Edge SndData),
      ((∀ pre, pre <+: edges → ¬ List.Sublist [Act.read, .test] (sendSide pre).window) →
        TakenInOrder (sendSide edges).written (sendSide edges).latched) ∧
      ((∀ pre, pre <+: edges → (sendSide pre).writes < (sendSide pre).reads + gDepth) →
        (sendSide edges).latched <+: (sendSide edges).written ∧
          ((sendSide edges).fifo.bufNotEmpty = true ↔ (sendSide edges).reads < (sendSide edges).writes))) := by
  have hboth {α ρ : Type} {R : Reader α ρ} (hR : R.Lawful) (zero : α) {reader : ρ}
      (hack : R.ack reader = false) (hidle : R.state reader ≠ .read) (edges : List (Edge α)) :
      let after := run (Watched.edge R) (.init zero reader)
      ((∀ pre, pre <+: edges → ¬ List.Sublist [Act.read, .test] (after pre).window) →
        TakenInOrder (after edges).written (after edges).latched) ∧
      ((∀ pre, pre <+: edges → (after pre).writes < (after pre).reads + gDepth) →
        (after edges).latched <+: (after edges).written ∧
          ((after edges).fifo.bufNotEmpty = true ↔ (after edges).reads < (after edges).writes)) := by
    intro after
    have htracks := tracks_run hR zero hack edges
    constructor
    · intro hround
      obtain ⟨idx, e, h⟩ := inOrder_run hR zero hack hidle edges hround
      exact ⟨idx, h.sorted, h.values⟩
    · intro hroom
      have h := kept_run hR zero hack hidle edges hroom
      exact ⟨h.taken, h.bufNotEmpty_iff htracks (hroom edges (List.prefix_refl _))⟩
  exact ⟨fun g edges => hboth (coreinReader_lawful g) _ rfl (of_decide_eq_true rfl) edges,
    fun edges => hboth macSndReader_lawful _ rfl (by decide) edges⟩

/-- Periods of the 25 MHz write clock of `FIFO_rcv`, with its write ports: a period of the
50 MHz read clock follows each of the two edges. -/
def rcvClocks (ports : List (Bool × RcvData)) : List (Edge RcvData) :=
  ports.flatMap fun port => [.write port.1 port.2, .read, .read, .write false .zero, .read, .read]

/-- Periods of the 50 MHz write clock of `FIFO_snd`: one edge of the 25 MHz read clock lies
between the two edges of each. -/
def sndClocks (ports : List (Bool × SndData)) : List (Edge SndData) :=
  ports.flatMap fun port => [.write port.1 port.2, .read, .write false .zero]

/-- `k` pairs of packets: two in consecutive periods, then `idle` periods without a write. -/
def inPairs {α : Type} (zero : α) (packet : Nat → α) (k idle : Nat) : List (Bool × α) :=
  (List.range k).flatMap fun n =>
    [(true, packet (2 * n)), (true, packet (2 * n + 1))] ++ List.replicate idle (false, zero)

/-- Packet `n` from the receiver. -/
def rcvPacket (n : Nat) : RcvData where
  srcMAC := 0x001122334400 + BitVec.ofNat 48 n
  dstMAC := 0x5566778899aa
  srcIP := 0x0100000a
  dstIP := 0x0200000a
  ipHeaderLength := 20
  ipLength := 29 + n
  srcPort := 0x3500 + BitVec.ofNat 16 n
  dstPort := 0x3500
  dnsLength := 1 + n
  dnsPkt := 0x0706050403020100 + BitVec.ofNat 1024 n

/-- Packet `n` for the sender. -/
def sndPacket (n : Nat) : SndData where
  srcMAC := 0x001122334400 + BitVec.ofNat 48 n
  dstMAC := 0x5566778899aa
  srcIP := 0x0100000a
  dstIP := 0x0200000a
  ipLength := 0x1d00
  ipChecksum := 0xbdbf
  ipTTL := 0x40
  srcPort := 0x3500 + BitVec.ofNat 16 n
  dstPort := 0x3500
  udpLength := 0x0900
  udpChecksum := 0x0000
  dnsPktCnt := 8
  dnsPkt := 0x0706050403020100 + BitVec.ofNat 1024 n

/-- No test behind a read between the two edges of the last write, and never full. -/
abbrev InTime (x : Watched α ρ) : Prop :=
  ¬ List.Sublist [Act.read, .test] x.window ∧ x.writes < x.reads + gDepth

-- A FIFO has eight slots, so the last two of ten packets go where the first two were.
set_option maxRecDepth 100000 in
/-- Ten packets through `FIFO_rcv` and four through `FIFO_snd` at the clocks of `main`: all are
latched, in order and each once, some of them between the two edges of a write. -/
theorem fifos_in_order_clocks :
    let rx := rcvClocks (inPairs .zero rcvPacket 5 10)
    let tx := sndClocks (inPairs .zero sndPacket 2 750)
    (TakenInOrder (receiveSide {} rx).written (receiveSide {} rx).latched ∧
      (receiveSide {} rx).latched <+: (receiveSide {} rx).written ∧
      ((receiveSide {} rx).fifo.bufNotEmpty = true ↔ (receiveSide {} rx).reads < (receiveSide {} rx).writes) ∧
      (receiveSide {} rx).latched = (List.range 10).map rcvPacket ∧
      Act.read ∈ (receiveSide {} (rx.take 8)).window) ∧
    (TakenInOrder (sendSide tx).written (sendSide tx).latched ∧
      (sendSide tx).latched <+: (sendSide tx).written ∧
      ((sendSide tx).fifo.bufNotEmpty = true ↔ (sendSide tx).reads < (sendSide tx).writes) ∧
      (sendSide tx).latched = (List.range 4).map sndPacket ∧
      Act.read ∈ (sendSide (tx.take 14)).window) := by
  intro rx tx
  have hrx := (@forall_prefix_iff _ _ (Watched.edge (coreinReader {})) InTime (.init .zero .init) rx).mpr
    (by decide +kernel)
  have htx := (@forall_prefix_iff _ _ (Watched.edge macSndReader) InTime (.init .zero .init) tx).mpr
    (by decide +kernel)
  obtain ⟨horder, hkept⟩ := fifos_in_order.1 {} rx
  obtain ⟨horder', hkept'⟩ := fifos_in_order.2 tx
  obtain ⟨htaken, hflag⟩ := hkept fun pre hpre => (hrx pre hpre).2
  obtain ⟨htaken', hflag'⟩ := hkept' fun pre hpre => (htx pre hpre).2
  refine ⟨⟨horder fun pre hpre => (hrx pre hpre).1, htaken, hflag, ?_, ?_⟩,
    horder' fun pre hpre => (htx pre hpre).1, htaken', hflag', ?_, ?_⟩
  all_goals decide +kernel

/-- Packet `n`, which the power-on filter rejects. -/
def numbered (n : Nat) : RcvData := { RcvData.zero with dnsLength := n }

/-- Seven packets are waiting and the test has been passed when two more are written; the reader
takes the last of them before its index is updated, and tests again before it is. -/
def overrun : List (Edge RcvData) :=
  let writes (n : Nat) : List (Edge RcvData) :=
    [Edge.write true (numbered n), Edge.write false RcvData.zero]
  (List.range 7).flatMap writes ++ [Edge.read, Edge.read] ++ writes 7 ++
    [Edge.write true (numbered 8)] ++ List.replicate 13 Edge.read ++
    [Edge.write false RcvData.zero, Edge.read, Edge.read]

/-- No whole round of test, read and acknowledgement comes between two edges of the write clock,
and yet the second packet is latched behind the ninth. -/
theorem receiveSide_overrun : ¬ ∀ edges : List (Edge RcvData),
    (∀ pre, pre <+: edges → ¬ List.Sublist [Act.test, .read, .ack] (receiveSide {} pre).window) →
      TakenInOrder (receiveSide {} edges).written (receiveSide {} edges).latched := by
  intro h
  have hwindow : ∀ pre ∈ overrun.inits,
      ¬ List.Sublist [Act.test, .read, .ack] (receiveSide {} pre).window := by decide +kernel
  have hwritten : (receiveSide {} overrun).written.map (·.dnsLength) = List.range 9 := by decide +kernel
  have hlatched : (receiveSide {} overrun).latched.map (·.dnsLength) = [8, 1] := by decide +kernel
  obtain ⟨idx, hsorted, hvalues⟩ := h overrun fun pre hpre => hwindow pre ((List.mem_inits _ _).mpr hpre)
  have hnumbers : idx.map ((List.range 9)[·]?) = [some 8, some 1] := by
    have hmap := congrArg (List.map (Option.map (·.dnsLength))) hvalues
    rw [List.map_map, List.map_map] at hmap
    rw [← hwritten]
    simp only [List.getElem?_map]
    refine hmap.trans ?_
    show (receiveSide {} overrun).latched.map (some ∘ (·.dnsLength)) = _
    rw [← List.map_map, hlatched]
    rfl
  have hrange {k n : Nat} (hk : (List.range 9)[k]? = some n) : k = n := by
    obtain ⟨hlt, heq⟩ := List.getElem?_eq_some_iff.mp hk
    rw [List.getElem_range] at heq
    exact heq
  obtain ⟨a, b, rfl⟩ := List.length_eq_two.mp ((List.length_map _).symm.trans (congrArg List.length hnumbers))
  rw [List.map_cons, List.map_cons, List.cons.injEq, List.cons.injEq] at hnumbers
  have hlt := List.pairwise_pair.mp hsorted
  rw [hrange hnumbers.1, hrange hnumbers.2.1] at hlt
  exact absurd hlt (by decide)

end DnsAdtm.Hw
