/-
# `SiphashAgree` — the hardware hash is the software hash

`siphasher.vhd` and `siphash.c` are compared through SipHash on words: the state
machine computes it of the words of its input vector (`hash_until`), the C
function of the little-endian words of its input buffer (`siphash_words`), and
the two sets of words are the same when byte `i` of the message is
`in_data(8 i + 7 DOWNTO 8 i)`.
-/
import DnsAdtm.Hw.SiphasherRun
import DnsAdtm.Sw.Siphash

namespace DnsAdtm

open Hw Machine

/-- The key bytes a C caller passes: `k0` then `k1`, each little-endian. -/
def keyBytes (key : BitVec 128) : List (BitVec 8) :=
  bytesLE (key.extractLsb' 64 64) 8 ++ bytesLE (key.extractLsb' 0 64) 8

theorem field_keyBytes_k0 (key : BitVec 128) :
    field (bitAt (keyBytes key)) 0 64 = key.extractLsb' 64 64 := by
  apply BitVec.eq_of_getLsbD_eq
  intro i hi
  rw [getLsbD_field, keyBytes, bitAt_append, length_bytesLE, if_pos (by omega),
    bitAt_bytesLE _ (by omega)]
  simp only [hi, decide_true, Bool.true_and, Nat.zero_add]

theorem field_keyBytes_k1 (key : BitVec 128) :
    field (bitAt (keyBytes key)) 64 64 = key.extractLsb' 0 64 := by
  apply BitVec.eq_of_getLsbD_eq
  intro i hi
  rw [getLsbD_field, keyBytes, bitAt_append, length_bytesLE, if_neg (by omega),
    bitAt_bytesLE _ (by omega), Nat.add_sub_cancel_left]
  simp only [hi, decide_true, Bool.true_and]

/-- The message words the hardware absorbs are those of any byte array that holds
the vector, bit for bit. -/
theorem wordsLE_eq_dataWords {bytes : List (BitVec 8)} {msg : BitVec 960}
    (h : ∀ i, i < 960 → bitAt bytes i = msg.getLsbD i) :
    Sw.wordsLE bytes 15 = dataWords msg 0 15 := by
  rw [Sw.wordsLE, dataWords, List.range_eq_range']
  refine List.map_congr_left fun j hj => ?_
  have hlt : j < 15 := by simpa using hj
  rw [extractLsb'_eq_field]
  exact field_congr fun i hi => h _ (by omega)

/-- `siphash` over 120 bytes, by the words the hardware sees. -/
theorem siphash_eq_hashOf (key : BitVec 128) (msg : BitVec 960) {bytes : List (BitVec 8)}
    (h : ∀ i, i < 960 → bitAt bytes i = msg.getLsbD i) :
    Sw.siphash bytes 120 (keyBytes key) 8 = some (bytesLE (hashOf key msg) 8) := by
  have hwords := Sw.siphash_words bytes (keyBytes key) 15
  rw [field_keyBytes_k0, field_keyBytes_k1, wordsLE_eq_dataWords h] at hwords
  exact hwords

/-- **The hardware hash is the software hash.**  From any `Idle` state, whatever the
leftover words and counters and whatever the inputs do once the machine is
started, `out_ready` rises after finitely many periods, with the value `siphash`
writes for the latched message and key on `out_data`; it does not rise before,
and not again until the next start. -/
theorem siphasher_computes_siphash (st : Siphasher) (hs : st.s.s = .idle)
    (inp : Nat → SiphasherIn) (hstart : (inp 0).inStart = true) :
    ∃ n, 0 < n ∧
      (∀ t, 0 < t → t < n → (trace Siphasher.cycle st inp t).outReady = false) ∧
      (trace Siphasher.cycle st inp n).outReady = true ∧
      (trace Siphasher.cycle st inp n).s.s = .idle ∧
      (∃ out, Sw.siphash (bytesLE (inp 0).inData 120) 120
          (bytesLE (downto (inp 0).inKey 127 64 : BitVec 64) 8 ++
            bytesLE (downto (inp 0).inKey 63 0 : BitVec 64) 8) 8 = some out ∧
        (trace Siphasher.cycle st inp n).outData = ofBytesLE 64 out) ∧
      (∀ m, (∀ t, n ≤ t → t < n + m → (inp t).inStart = false) →
        ∀ t, n < t → t ≤ n + m → (trace Siphasher.cycle st inp t).outReady = false) := by
  have huntil := hash_until st hs (inp 0) hstart
  obtain ⟨n, ⟨hready, hidle, hout⟩, hbusy⟩ := huntil.exists_trace fun t => inp (t + 1)
  rw [← trace_succ'] at hready hidle hout
  refine ⟨n + 1, by omega, ?_, hready, hidle, ⟨_, siphash_eq_hashOf (inp 0).inKey (inp 0).inData ?_, ?_⟩, ?_⟩
  · intro t h0 ht
    obtain ⟨t, rfl⟩ : ∃ t', t = t' + 1 := ⟨t - 1, by omega⟩
    rw [trace_succ']
    exact (hbusy t (by omega)).1
  · intro i hi
    exact bitAt_bytesLE _ (by omega)
  · rw [hout, ofBytesLE_bytesLE _ (by omega)]
    simp
  · -- after the run the machine sits in `Idle`, where only a start is seen
    intro m hquiet
    have hstay : ∀ k, k ≤ m → (trace Siphasher.cycle st inp (n + 1 + k)).s.s = .idle := by
      intro k
      induction k with
      | zero => exact fun _ => hidle
      | succ k ih =>
          intro hk
          exact (idle_stays (ih (by omega)) (hquiet (n + 1 + k) (by omega) (by omega))).1
    intro t h1 h2
    obtain ⟨k, rfl⟩ : ∃ k, t = n + 1 + k + 1 := ⟨t - (n + 1) - 1, by omega⟩
    exact (idle_stays (hstay k (by omega)) (hquiet (n + 1 + k) (by omega) (by omega))).2.1

/-- The test bench's stimulus: the repository's key and the zero message, started once. -/
def benchStimulus (t : Nat) : SiphasherIn where
  inKey := 0xdecaface1eadf1a91713440219990927
  inData := 0
  inStart := t == 0

theorem siphasher_computes_siphash_bench :
    ∃ n, 0 < n ∧
      (∀ t, 0 < t → t < n → (trace Siphasher.cycle .init benchStimulus t).outReady = false) ∧
      (trace Siphasher.cycle .init benchStimulus n).outReady = true ∧
      (trace Siphasher.cycle .init benchStimulus n).s.s = .idle ∧
      (∃ out, Sw.siphash (bytesLE (0 : BitVec 960) 120) 120
          (bytesLE (0xdecaface1eadf1a9 : BitVec 64) 8 ++
            bytesLE (0x1713440219990927 : BitVec 64) 8) 8 = some out ∧
        (trace Siphasher.cycle .init benchStimulus n).outData = ofBytesLE 64 out) ∧
      (∀ m, (∀ t, n ≤ t → t < n + m → (benchStimulus t).inStart = false) →
        ∀ t, n < t → t ≤ n + m →
          (trace Siphasher.cycle .init benchStimulus t).outReady = false) :=
  siphasher_computes_siphash .init rfl benchStimulus rfl

end DnsAdtm
