/-
# `Hw.SiphasherRun` — what one run of `siphasher` computes

From `Idle` with `in_start` raised the state machine works through its 182 other
periods whatever its inputs do, and comes back to `Idle` with `out_ready` raised
and the hash in `v0`.  The run is put together from

    RoundLoop.until     the four `SIPRound` states of a loop, `rounds + 1` times over
    until_words         the data loop, one word a turn
    hash_until          the whole, from `Idle` to `Idle`

The three loops of the source are copies of one another, so each is an instance
of `RoundLoop`: five states, a bound, and the proof that the step function treats
those states as a round loop.
-/
import DnsAdtm.Hw.Siphasher
import DnsAdtm.Lib.Machine

namespace DnsAdtm.Hw

open SipHash (V)
open Machine

/-- The machine works, and its result is not there yet. -/
def Siphasher.Busy (st : Siphasher) : Prop := st.outReady = false ∧ st.s.s ≠ .idle

/-- The hash is there, for this one period. -/
def Siphasher.Done (h : BitVec 64) (st : Siphasher) : Prop :=
  st.outReady = true ∧ st.s.s = .idle ∧ st.outData = h

/-! ## The round loops -/

/-- A loop over the four `SIPRound` states. -/
structure RoundLoop where
  r₁ : HashState
  r₂ : HashState
  r₃ : HashState
  r₄ : HashState
  after : HashState
  rounds : Nat
  working : r₁ ≠ .idle ∧ r₂ ≠ .idle ∧ r₃ ≠ .idle ∧ r₄ ≠ .idle
  cycle₁ : ∀ crc frc dpc v d k r i, Siphasher.cycle ⟨⟨r₁, crc, frc, dpc, v⟩, d, k, r⟩ i =
    ⟨⟨r₂, crc, frc, dpc, siphashRound1 v⟩, d, k, false⟩
  cycle₂ : ∀ crc frc dpc v d k r i, Siphasher.cycle ⟨⟨r₂, crc, frc, dpc, v⟩, d, k, r⟩ i =
    ⟨⟨r₃, crc, frc, dpc, siphashRound2 v⟩, d, k, false⟩
  cycle₃ : ∀ crc frc dpc v d k r i, Siphasher.cycle ⟨⟨r₃, crc, frc, dpc, v⟩, d, k, r⟩ i =
    ⟨⟨r₄, crc, frc, dpc, siphashRound3 v⟩, d, k, false⟩
  cycle₄ : ∀ crc frc dpc v d k r i, Siphasher.cycle ⟨⟨r₄, crc, frc, dpc, v⟩, d, k, r⟩ i =
    roundEnd ⟨⟨r₄, crc, frc, dpc, v⟩, d, k, r⟩ ⟨⟨r₄, crc, frc, dpc, v⟩, d, k, false⟩ rounds r₁ after

def compressionLoop : RoundLoop where
  r₁ := .compressionSIPRound1
  r₂ := .compressionSIPRound2
  r₃ := .compressionSIPRound3
  r₄ := .compressionSIPRound4
  after := .compressionAfter
  rounds := gCompressionRounds
  working := by decide
  cycle₁ _ _ _ _ _ _ _ _ := rfl
  cycle₂ _ _ _ _ _ _ _ _ := rfl
  cycle₃ _ _ _ _ _ _ _ _ := rfl
  cycle₄ _ _ _ _ _ _ _ _ := rfl

def compressionLengthLoop : RoundLoop where
  r₁ := .compressionLengthSIPRound1
  r₂ := .compressionLengthSIPRound2
  r₃ := .compressionLengthSIPRound3
  r₄ := .compressionLengthSIPRound4
  after := .compressionLengthAfter
  rounds := gCompressionRounds
  working := by decide
  cycle₁ _ _ _ _ _ _ _ _ := rfl
  cycle₂ _ _ _ _ _ _ _ _ := rfl
  cycle₃ _ _ _ _ _ _ _ _ := rfl
  cycle₄ _ _ _ _ _ _ _ _ := rfl

def finaliseLoop : RoundLoop where
  r₁ := .finaliseSIPRound1
  r₂ := .finaliseSIPRound2
  r₃ := .finaliseSIPRound3
  r₄ := .finaliseSIPRound4
  after := .finaliseAfter
  rounds := gFinaliseRounds
  working := by decide
  cycle₁ _ _ _ _ _ _ _ _ := rfl
  cycle₂ _ _ _ _ _ _ _ _ := rfl
  cycle₃ _ _ _ _ _ _ _ _ := rfl
  cycle₄ _ _ _ _ _ _ _ _ := rfl

section Run
variable (frc : Nat) (d : BitVec 960) (k : BitVec 128)

/-- A loop entered with `n` rounds to go after this one runs `n + 1` SipRounds. -/
theorem RoundLoop.until (L : RoundLoop) {R : Siphasher → Prop} (n : Nat) (crc dpc : Nat) (v : V)
    (hn : crc + n = L.rounds)
    (h : Until Siphasher.cycle Siphasher.Busy R
      ⟨⟨L.after, L.rounds, frc, dpc, SipHash.round^[n + 1] v⟩, d, k, false⟩) :
    Until Siphasher.cycle Siphasher.Busy R ⟨⟨L.r₁, crc, frc, dpc, v⟩, d, k, false⟩ := by
  induction n generalizing crc v with
  | zero =>
      obtain ⟨h₁, h₂, h₃, h₄⟩ := L.working
      refine .next ⟨rfl, h₁⟩ (L.cycle₁ _ _ _ _ _ _ _) ?_
      refine .next ⟨rfl, h₂⟩ (L.cycle₂ _ _ _ _ _ _ _) ?_
      refine .next ⟨rfl, h₃⟩ (L.cycle₃ _ _ _ _ _ _ _) ?_
      refine .next ⟨rfl, h₄⟩ (L.cycle₄ _ _ _ _ _ _ _) ?_
      have hc : crc = L.rounds := hn
      simpa [roundEnd, hc, siphashRound_eq] using h
  | succ n ih =>
      obtain ⟨h₁, h₂, h₃, h₄⟩ := L.working
      refine .next ⟨rfl, h₁⟩ (L.cycle₁ _ _ _ _ _ _ _) ?_
      refine .next ⟨rfl, h₂⟩ (L.cycle₂ _ _ _ _ _ _ _) ?_
      refine .next ⟨rfl, h₃⟩ (L.cycle₃ _ _ _ _ _ _ _) ?_
      refine .next ⟨rfl, h₄⟩ (L.cycle₄ _ _ _ _ _ _ _) ?_
      have hc : crc ≠ L.rounds := by omega
      simp only [roundEnd, hc, if_false, siphashRound_eq]
      exact ih (crc + 1) (SipHash.round v) (by omega) h

/-! ## The data loop -/

/-- The words of the latched message from word `j` on. -/
def dataWords (d : BitVec 960) (j n : Nat) : List (BitVec 64) :=
  (List.range' j n).map fun i => d.extractLsb' (64 * i) 64

/-- One turn of the data loop absorbs one word. -/
theorem until_word {R : Siphasher → Prop} (crc j : Nat) (v : V) (hj : j < 15)
    (h : Until Siphasher.cycle Siphasher.Busy R
      ⟨⟨.compressionBefore, gCompressionRounds, frc, 64 * (j + 1),
        SipHash.absorb 2 v (d.extractLsb' (64 * j) 64)⟩, d, k, false⟩) :
    Until Siphasher.cycle Siphasher.Busy R
      ⟨⟨.compressionBefore, crc, frc, 64 * j, v⟩, d, k, false⟩ := by
  have hbefore : ∀ i, Siphasher.cycle ⟨⟨.compressionBefore, crc, frc, 64 * j, v⟩, d, k, false⟩ i =
      ⟨⟨.compressionSIPRound1, 0, frc, 64 * j,
        { v with v3 := v.v3 ^^^ d.extractLsb' (64 * j) 64 }⟩, d, k, false⟩ := fun i => by
    simp [Siphasher.cycle, downto, show 64 * j ≠ 960 by omega]
  refine .next ⟨rfl, of_decide_eq_true rfl⟩ hbefore ?_
  refine compressionLoop.until frc d k 1 0 (64 * j) _ rfl ?_
  refine .next ⟨rfl, of_decide_eq_true rfl⟩ ?_ h
  intro i
  simp [Siphasher.cycle, downto, compressionLoop, SipHash.absorb, Nat.mul_add]

/-- The data loop absorbs the fifteen words of the message. -/
theorem until_words {R : Siphasher → Prop} (n j crc : Nat) (v : V) (hn : j + n = 15)
    (hc : n = 0 → crc = gCompressionRounds)
    (h : Until Siphasher.cycle Siphasher.Busy R
      ⟨⟨.compressionBefore, gCompressionRounds, frc, 960,
        (dataWords d j n).foldl (SipHash.absorb 2) v⟩, d, k, false⟩) :
    Until Siphasher.cycle Siphasher.Busy R
      ⟨⟨.compressionBefore, crc, frc, 64 * j, v⟩, d, k, false⟩ := by
  induction n generalizing j crc v with
  | zero =>
      have hj : 64 * j = 960 := by omega
      rw [hj, hc rfl]
      exact h
  | succ n ih =>
      refine until_word frc d k crc j v (by omega) ?_
      refine ih (j + 1) gCompressionRounds _ (by omega) (fun _ => rfl) ?_
      simpa [dataWords, List.range'_succ] using h

end Run

/-! ## The whole run -/

/-- The hash `siphasher` computes of a key and a message, on words. -/
def hashOf (key : BitVec 128) (msg : BitVec 960) : BitVec 64 :=
  SipHash.sipHash 2 4 (key.extractLsb' 64 64) (key.extractLsb' 0 64) (dataWords msg 0 15)
    gSiphashLength

/-- From `Idle`, with the message and key of this period, to the hash. -/
theorem hash_until (st : Siphasher) (hs : st.s.s = .idle) (i : SiphasherIn)
    (hi : i.inStart = true) :
    Until Siphasher.cycle Siphasher.Busy (Siphasher.Done (hashOf i.inKey i.inData))
      (st.cycle i) := by
  obtain ⟨⟨s, crc, frc, dpc, v⟩, d₀, k₀, r⟩ := st
  subst hs
  obtain ⟨k, d, start⟩ := i
  subst hi
  show Until Siphasher.cycle Siphasher.Busy _ ⟨⟨.initV, crc, frc, dpc, v⟩, d, k, false⟩
  refine .next ⟨rfl, nofun⟩ (fun _ => rfl) ?_
  refine .next ⟨rfl, nofun⟩ (fun _ => rfl) ?_
  refine until_words frc d k 15 0 crc _ rfl (by omega) ?_
  refine .next ⟨rfl, nofun⟩ (fun _ => rfl) ?_
  refine .next ⟨rfl, nofun⟩ (fun _ => rfl) ?_
  refine compressionLengthLoop.until frc d k 1 0 960 _ rfl ?_
  refine .next ⟨rfl, nofun⟩ (fun _ => rfl) ?_
  refine .next ⟨rfl, nofun⟩ (fun _ => rfl) ?_
  refine finaliseLoop.until frc d k 3 0 960 _ rfl ?_
  refine .next ⟨rfl, nofun⟩ (fun _ => rfl) ?_
  refine .next ⟨rfl, nofun⟩ (fun _ => rfl) ?_
  exact .here ⟨rfl, rfl, rfl⟩

/-- Once the hash is out, it stays in `v0` and `out_ready` falls until the next start. -/
theorem idle_stays {st : Siphasher} (hs : st.s.s = .idle) {i : SiphasherIn}
    (hi : i.inStart = false) :
    (st.cycle i).s.s = .idle ∧ (st.cycle i).outReady = false ∧
      (st.cycle i).outData = st.outData := by
  simp [Siphasher.cycle, hs, hi, Siphasher.outData]

end DnsAdtm.Hw
