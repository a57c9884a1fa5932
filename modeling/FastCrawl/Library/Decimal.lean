import Mathlib.Data.Nat.Digits.Defs

namespace Decimal

/-! Decimal numerals as ASCII bytes: printing, padding with zeros and reading
back. -/

def digit (value : Nat) : UInt8 := .ofNat ('0'.toNat + value)

def isDigit (ch : UInt8) : Bool := '0'.toUInt8 ≤ ch && ch ≤ '9'.toUInt8

def print (number : Nat) : List UInt8 :=
  if number = 0 then [digit 0] else (Nat.digits 10 number).reverse.map digit

def pad (width : Nat) (fill : UInt8) (text : List UInt8) : List UInt8 :=
  List.replicate (width - text.length) fill ++ text

def read (digits : List UInt8) : Nat :=
  digits.foldl (fun value ch => 10 * value + (ch.toNat - '0'.toNat)) 0

theorem digit_toNat {value : Nat} (small : value < 10) : (digit value).toNat = 48 + value := by
  rw [digit, UInt8.toNat_ofNat']
  change (48 + value) % 2 ^ 8 = 48 + value
  omega

theorem isDigit_digit {value : Nat} (small : value < 10) : isDigit (digit value) = true := by
  have shown := digit_toNat small
  simp only [isDigit, Bool.and_eq_true, decide_eq_true_eq, UInt8.le_iff_toNat_le, shown]
  have zero : '0'.toUInt8.toNat = 48 := rfl
  have nine : '9'.toUInt8.toNat = 57 := rfl
  omega

theorem isDigit_of_mem_print {number : Nat} {ch : UInt8} (member : ch ∈ print number) :
    isDigit ch = true := by
  unfold print at member
  split at member
  · rw [List.mem_singleton.mp member]
    exact isDigit_digit (by omega)
  · obtain ⟨value, valueMember, rfl⟩ := List.mem_map.mp member
    exact isDigit_digit (Nat.digits_lt_base (by omega) (List.mem_reverse.mp valueMember))

theorem read_append (first second : List UInt8) :
    read (first ++ second) =
      second.foldl (fun value ch => 10 * value + (ch.toNat - '0'.toNat)) (read first) :=
  List.foldl_append ..

theorem read_replicate_zero (count : Nat) : read (List.replicate count '0'.toUInt8) = 0 := by
  induction count with
  | zero => rfl
  | succ count ih => rw [List.replicate_succ', read_append, ih]; rfl

theorem read_pad (width : Nat) (text : List UInt8) :
    read (pad width '0'.toUInt8 text) = read text := by
  rw [pad, read_append, read_replicate_zero]
  rfl

theorem read_reverse_map_digit {digits : List Nat} (small : ∀ value ∈ digits, value < 10) :
    read (digits.reverse.map digit) = Nat.ofDigits 10 digits := by
  induction digits with
  | nil => rfl
  | cons value rest ih =>
      have shown := digit_toNat (small value (by simp))
      have zero : '0'.toNat = 48 := rfl
      rw [List.reverse_cons, List.map_append, read_append,
        ih (fun value member => small value (by simp [member])), Nat.ofDigits_cons]
      simp only [List.map_cons, List.map_nil, List.foldl_cons, List.foldl_nil, shown, zero]
      omega

theorem read_print (number : Nat) : read (print number) = number := by
  unfold print
  split
  · rename_i zero
    rw [zero]
    rfl
  · rw [read_reverse_map_digit fun value member => Nat.digits_lt_base (by omega) member]
    exact Nat.ofDigits_digits 10 number

theorem isDigit_of_mem_pad_print {width number : Nat} {ch : UInt8}
    (member : ch ∈ pad width '0'.toUInt8 (print number)) : isDigit ch = true := by
  rcases List.mem_append.mp member with fill | text
  · rw [List.eq_of_mem_replicate fill]
    decide
  · exact isDigit_of_mem_print text

/-- Two numbers joined by a byte that is no digit can be read back. -/
theorem pad_print_joined_inj {width : Nat} {separator : UInt8}
    (noDigit : isDigit separator = false) {first second first' second' : Nat}
    (same : pad width '0'.toUInt8 (print first) ++ separator ::
        pad width '0'.toUInt8 (print second) =
      pad width '0'.toUInt8 (print first') ++ separator ::
        pad width '0'.toUInt8 (print second')) :
    first = first' ∧ second = second' := by
  have absent (number : Nat) : separator ∉ pad width '0'.toUInt8 (print number) := by
    intro member
    rw [isDigit_of_mem_pad_print member] at noDigit
    contradiction
  have readBack {number number' : Nat} (samePadded : pad width '0'.toUInt8 (print number) =
      pad width '0'.toUInt8 (print number')) : number = number' := by
    have sameValue := congrArg read samePadded
    rwa [read_pad, read_pad, read_print, read_print] at sameValue
  obtain ⟨sameFirst, sameSecond⟩ : pad width '0'.toUInt8 (print first) =
      pad width '0'.toUInt8 (print first') ∧ pad width '0'.toUInt8 (print second) =
      pad width '0'.toUInt8 (print second') := by
    rcases List.append_eq_append_iff.mp same with ⟨extra, left, right⟩ | ⟨extra, left, right⟩
    all_goals
      cases extra with
      | nil => simp_all
      | cons head tail =>
          simp only [List.cons_append, List.cons.injEq] at right
          exact absurd (left ▸ List.mem_append_right _ (by simp [right.1])) (absent _)
  exact ⟨readBack sameFirst, readBack sameSecond⟩

end Decimal
