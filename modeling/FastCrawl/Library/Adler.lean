import Mathlib.Algebra.Ring.Nat
import Mathlib.Data.List.Basic

namespace Adler

/-! The Adler-32 checksum: two sums modulo the largest prime below 2^16. -/

def base : Nat := 65521

instance : NeZero base := ⟨Nat.succ_ne_zero 65520⟩

structure Sums where
  low : Fin base
  high : Fin base
deriving DecidableEq

namespace Sums

def start : Sums := { low := ⟨1, by decide⟩, high := ⟨0, by decide⟩ }

def add (sums : Sums) (byte : UInt8) : Sums :=
  let low := sums.low + Fin.ofNat base byte.toNat
  { low, high := sums.high + low }

def read (sums : Sums) (content : List UInt8) : Sums := content.foldl add sums

/-- The two sums as one number of 32 bits. -/
def word (sums : Sums) : Nat := sums.high * 65536 + sums.low

def ofWord (word : Nat) : Sums :=
  { low := Fin.ofNat base (word % 65536), high := Fin.ofNat base (word / 65536) }

variable (sums : Sums)

theorem read_append (first second : List UInt8) :
    sums.read (first ++ second) = (sums.read first).read second := List.foldl_append

theorem word_lt : sums.word < 2 ^ 32 := by
  have lowBound := sums.low.isLt
  have highBound := sums.high.isLt
  unfold word
  unfold base at lowBound highBound
  omega

theorem ofWord_word : ofWord sums.word = sums := by
  have lowBound := sums.low.isLt
  have highBound := sums.high.isLt
  have low : sums.word % 65536 = sums.low := by
    unfold word
    unfold base at lowBound
    omega
  have high : sums.word / 65536 = sums.high := by
    unfold word
    unfold base at lowBound
    omega
  rw [ofWord, low, high, Fin.ofNat_val_eq_self, Fin.ofNat_val_eq_self]

end Sums

def checksum (content : List UInt8) : UInt32 := .ofNat (Sums.start.read content).word

end Adler
