/-
# `Lib.SipHash` — SipHash-c-d on words

The keyed hash as a function of its key words and message words, with no bytes
and no clock: what an implementation that reads bytes and one that runs a state
machine are both compared with.

    round v                one SipRound
    absorb c v m           one message word: `v3 ^= m`, `c` rounds, `v0 ^= m`
    sipHash c d k0 k1 ms b the hash of the words `ms` and the length word `b`

A round is given as its two parallel halves, each an addition and rotation step
followed by an exclusive-or and rotation step on independent pairs of words.
-/
import Mathlib

namespace DnsAdtm.SipHash

/-- The internal state: the words `v0 .. v3`. -/
@[ext] structure V where
  v0 : BitVec 64
  v1 : BitVec 64
  v2 : BitVec 64
  v3 : BitVec 64
  deriving DecidableEq, Repr

/-- One SipRound. -/
def round (v : V) : V :=
  let a0 := v.v0 + v.v1
  let a2 := v.v2 + v.v3
  let a1 := v.v1.rotateLeft 13 ^^^ a0
  let a3 := v.v3.rotateLeft 16 ^^^ a2
  let b0 := a0.rotateLeft 32 + a3
  let b2 := a2 + a1
  { v0 := b0
    v1 := a1.rotateLeft 17 ^^^ b2
    v2 := b2.rotateLeft 32
    v3 := a3.rotateLeft 21 ^^^ b0 }

/-- The state a key starts from. -/
def init (k0 k1 : BitVec 64) : V where
  v0 := 0x736f6d6570736575 ^^^ k0
  v1 := 0x646f72616e646f6d ^^^ k1
  v2 := 0x6c7967656e657261 ^^^ k0
  v3 := 0x7465646279746573 ^^^ k1

/-- One message word, with `c` compression rounds. -/
def absorb (c : Nat) (v : V) (m : BitVec 64) : V :=
  let w := round^[c] { v with v3 := v.v3 ^^^ m }
  { w with v0 := w.v0 ^^^ m }

/-- The closing rounds. -/
def finish (d : Nat) (v : V) : BitVec 64 :=
  let w := round^[d] { v with v2 := v.v2 ^^^ 0xff }
  w.v0 ^^^ w.v1 ^^^ w.v2 ^^^ w.v3

/-- SipHash-c-d of the words `ms`, closed by the length word `b`. -/
def sipHash (c d : Nat) (k0 k1 : BitVec 64) (ms : List (BitVec 64)) (b : BitVec 64) : BitVec 64 :=
  finish d (absorb c (ms.foldl (absorb c) (init k0 k1)) b)

end DnsAdtm.SipHash
