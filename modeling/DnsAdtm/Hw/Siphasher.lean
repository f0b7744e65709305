/-
# `Hw.Siphasher` — `siphasher.vhd`

The state machine, one clock period a step.  At the rising edge the process
`hash` computes `sin` from `s`; at the falling edge `s <= sin`.  So a period
takes the registers `s`, `d`, `k` and `out_ready` to their next values, and
`sin` equals `s` whenever the process reads: it is not kept apart.

`out_data` is `s.v0`, wired.
-/
import DnsAdtm.Lib.SipHash
import DnsAdtm.Lib.Bits

namespace DnsAdtm.Hw

open SipHash (V)

/-- `state_t` of `siphasher`. -/
inductive HashState where
  | idle | initV | initKey
  | compressionBefore
  | compressionSIPRound1 | compressionSIPRound2 | compressionSIPRound3 | compressionSIPRound4
  | compressionAfter
  | compressionLengthBefore
  | compressionLengthSIPRound1 | compressionLengthSIPRound2
  | compressionLengthSIPRound3 | compressionLengthSIPRound4
  | compressionLengthAfter
  | finaliseBefore
  | finaliseSIPRound1 | finaliseSIPRound2 | finaliseSIPRound3 | finaliseSIPRound4
  | finaliseAfter
  | output
  deriving DecidableEq, Repr

/-- `hstate_t`; the words `v0 .. v3` are the record `v`. -/
structure HState where
  s : HashState
  crc : Nat
  frc : Nat
  dpc : Nat
  v : V
  deriving DecidableEq, Repr

/-- The registers of `siphasher`. -/
structure Siphasher where
  s : HState
  d : BitVec 960
  k : BitVec 128
  outReady : Bool
  deriving DecidableEq, Repr

/-- The input ports of `siphasher`. -/
structure SiphasherIn where
  inKey : BitVec 128
  inData : BitVec 960
  inStart : Bool

/-- The generics, at the defaults every instance uses. -/
def gCompressionRounds : Nat := 1
def gFinaliseRounds : Nat := 3
def gSiphashLength : BitVec 64 := 0x7800000000000000
def gSiphashFinaliseConstant : BitVec 64 := 0xff

/-! ## The four quarter rounds -/

def siphashRound1 (v : V) : V where
  v0 := v.v0 + v.v1
  v2 := v.v2 + v.v3
  v1 := v.v1.rotateLeft 13
  v3 := v.v3.rotateLeft 16

def siphashRound2 (v : V) : V where
  v1 := v.v1 ^^^ v.v0
  v3 := v.v3 ^^^ v.v2
  v0 := v.v0.rotateLeft 32
  v2 := v.v2

def siphashRound3 (v : V) : V where
  v0 := v.v0 + v.v3
  v2 := v.v2 + v.v1
  v1 := v.v1.rotateLeft 17
  v3 := v.v3.rotateLeft 21

def siphashRound4 (v : V) : V where
  v1 := v.v1 ^^^ v.v2
  v3 := v.v3 ^^^ v.v0
  v2 := v.v2.rotateLeft 32
  v0 := v.v0

/-! ## One clock period -/

/-- The `SIPRound4` state of a loop: close the round, then leave the loop or go
round again. -/
def roundEnd (st o : Siphasher) (rounds : Nat) (again after : HashState) : Siphasher :=
  if st.s.crc = rounds then
    { o with s.v := siphashRound4 st.s.v, s.s := after }
  else
    { o with s.v := siphashRound4 st.s.v, s.crc := st.s.crc + 1, s.s := again }

/-- Process `hash`, then the register process. -/
def Siphasher.cycle (st : Siphasher) (i : SiphasherIn) : Siphasher :=
  let o := { st with outReady := false }
  match st.s.s with
  | .idle =>
      if i.inStart then { o with s.s := .initV, d := i.inData, k := i.inKey }
      else { o with s.s := .idle }
  | .initV =>
      { o with
        s.v := ⟨0x736f6d6570736575, 0x646f72616e646f6d, 0x6c7967656e657261, 0x7465646279746573⟩
        s.s := .initKey }
  | .initKey =>
      { o with
        s.v := { v3 := st.s.v.v3 ^^^ downto st.k 63 0
                 v2 := st.s.v.v2 ^^^ downto st.k 127 64
                 v1 := st.s.v.v1 ^^^ downto st.k 63 0
                 v0 := st.s.v.v0 ^^^ downto st.k 127 64 }
        s.dpc := 0
        s.s := .compressionBefore }
  | .compressionBefore =>
      if st.s.dpc = 960 then { o with s.s := .compressionLengthBefore }
      else
        { o with
          s.v.v3 := st.s.v.v3 ^^^ downto st.d (st.s.dpc + 63) st.s.dpc
          s.crc := 0
          s.s := .compressionSIPRound1 }
  | .compressionSIPRound1 =>
      { o with s.v := siphashRound1 st.s.v, s.s := .compressionSIPRound2 }
  | .compressionSIPRound2 =>
      { o with s.v := siphashRound2 st.s.v, s.s := .compressionSIPRound3 }
  | .compressionSIPRound3 =>
      { o with s.v := siphashRound3 st.s.v, s.s := .compressionSIPRound4 }
  | .compressionSIPRound4 =>
      roundEnd st o gCompressionRounds .compressionSIPRound1 .compressionAfter
  | .compressionAfter =>
      { o with
        s.v.v0 := st.s.v.v0 ^^^ downto st.d (st.s.dpc + 63) st.s.dpc
        s.dpc := st.s.dpc + 64
        s.s := .compressionBefore }
  | .compressionLengthBefore =>
      { o with
        s.v.v3 := st.s.v.v3 ^^^ gSiphashLength
        s.crc := 0
        s.s := .compressionLengthSIPRound1 }
  | .compressionLengthSIPRound1 =>
      { o with s.v := siphashRound1 st.s.v, s.s := .compressionLengthSIPRound2 }
  | .compressionLengthSIPRound2 =>
      { o with s.v := siphashRound2 st.s.v, s.s := .compressionLengthSIPRound3 }
  | .compressionLengthSIPRound3 =>
      { o with s.v := siphashRound3 st.s.v, s.s := .compressionLengthSIPRound4 }
  | .compressionLengthSIPRound4 =>
      roundEnd st o gCompressionRounds .compressionLengthSIPRound1 .compressionLengthAfter
  | .compressionLengthAfter =>
      { o with s.v.v0 := st.s.v.v0 ^^^ gSiphashLength, s.s := .finaliseBefore }
  | .finaliseBefore =>
      { o with
        s.v.v2 := st.s.v.v2 ^^^ gSiphashFinaliseConstant
        s.crc := 0
        s.s := .finaliseSIPRound1 }
  | .finaliseSIPRound1 =>
      { o with s.v := siphashRound1 st.s.v, s.s := .finaliseSIPRound2 }
  | .finaliseSIPRound2 =>
      { o with s.v := siphashRound2 st.s.v, s.s := .finaliseSIPRound3 }
  | .finaliseSIPRound3 =>
      { o with s.v := siphashRound3 st.s.v, s.s := .finaliseSIPRound4 }
  | .finaliseSIPRound4 =>
      roundEnd st o gFinaliseRounds .finaliseSIPRound1 .finaliseAfter
  | .finaliseAfter =>
      { o with
        s.v.v0 := st.s.v.v0 ^^^ st.s.v.v1 ^^^ st.s.v.v2 ^^^ st.s.v.v3
        s.s := .output }
  | .output =>
      { o with outReady := true, s.s := .idle }

/-- `out_data`. -/
def Siphasher.outData (st : Siphasher) : BitVec 64 := st.s.v.v0

/-- The power-on registers. -/
def Siphasher.init : Siphasher where
  s := { s := .idle, crc := 0, frc := 0, dpc := 0, v := ⟨0, 0, 0, 0⟩ }
  d := 0
  k := 0
  outReady := false

/-! ## A SipRound is four periods -/

/-- The regrouped statements compute one SipRound. -/
theorem siphashRound_eq (v : V) :
    siphashRound4 (siphashRound3 (siphashRound2 (siphashRound1 v))) = SipHash.round v := rfl

end DnsAdtm.Hw
