import Mathlib.Data.Nat.Digits.Lemmas
import FastCrawl.Library.Decimal

namespace Hexadecimal

/-! Hexadecimal numerals as ASCII bytes, in lower case. -/

def digit (value : Nat) : UInt8 :=
  if value < 10 then .ofNat ('0'.toNat + value) else .ofNat ('a'.toNat + (value - 10))

def value (ch : UInt8) : Nat :=
  if ch.toNat < 'a'.toNat then ch.toNat - '0'.toNat else ch.toNat - 'a'.toNat + 10

def print (number : Nat) : List UInt8 :=
  if number = 0 then [digit 0] else (Nat.digits 16 number).reverse.map digit

def read (digits : List UInt8) : Nat := digits.foldl (fun number ch => 16 * number + value ch) 0

theorem value_digit {number : Nat} (small : number < 16) : value (digit number) = number := by
  have shown : ∀ number < 16, value (digit number) = number := by decide
  exact shown number small

theorem read_append (first second : List UInt8) :
    read (first ++ second) = second.foldl (fun number ch => 16 * number + value ch) (read first) :=
  List.foldl_append ..

theorem read_reverse_map_digit {digits : List Nat} (small : ∀ value ∈ digits, value < 16) :
    read (digits.reverse.map digit) = Nat.ofDigits 16 digits := by
  induction digits with
  | nil => rfl
  | cons number rest ih =>
      have shown := value_digit (small number List.mem_cons_self)
      rw [List.reverse_cons, List.map_append, read_append,
        ih (fun value member => small value (List.mem_cons_of_mem number member)),
        Nat.ofDigits_cons]
      simp only [List.map_cons, List.map_nil, List.foldl_cons, List.foldl_nil, shown]
      omega

theorem read_print (number : Nat) : read (print number) = number := by
  unfold print
  split
  · rename_i zero
    rw [zero]
    rfl
  · rw [read_reverse_map_digit fun value member => Nat.digits_lt_base (by omega) member]
    exact Nat.ofDigits_digits 16 number

theorem read_replicate_zero (count : Nat) : read (List.replicate count '0'.toUInt8) = 0 := by
  induction count with
  | zero => rfl
  | succ count ih => rw [List.replicate_succ', read_append, ih]; rfl

theorem read_pad_print (width number : Nat) :
    read (Decimal.pad width '0'.toUInt8 (print number)) = number := by
  rw [Decimal.pad, read_append, read_replicate_zero]
  exact read_print number

theorem length_print_le {number width : Nat} (positive : 0 < width)
    (bounded : number < 16 ^ width) : (print number).length ≤ width := by
  unfold print
  split
  · exact positive
  · rw [List.length_map, List.length_reverse]
    exact (Nat.digits_length_le_iff (by omega) number).mpr bounded

/-- A numeral that fits is padded to the width. -/
theorem length_pad_print {number width : Nat} (positive : 0 < width)
    (bounded : number < 16 ^ width) :
    (Decimal.pad width '0'.toUInt8 (print number)).length = width := by
  have fits := length_print_le positive bounded
  rw [Decimal.pad, List.length_append, List.length_replicate]
  omega

end Hexadecimal
