import Mathlib.Data.Seq.Basic

/-! Sequences that may go on without end, by what has been taken off them. -/

universe u

namespace Stream'.Seq

variable {α : Type u} {items : Seq α} {item : α} {count : Nat}

theorem take_add_one_of_get? (next : items.get? count = some item) :
    items.take (count + 1) = items.take count ++ [item] := by
  have taken : (items.take count).length = count := by
    apply length_take_of_le_length
    intro terminates
    exact (lt_length_iff.mpr ⟨item, next⟩).le
  apply List.ext_getElem?
  intro place
  rw [getElem?_take, List.getElem?_append, taken, getElem?_take]
  rcases Nat.lt_trichotomy place count with before | rfl | behind
  · rw [if_pos before, if_pos (by omega), if_pos before]
  · rw [if_pos (Nat.lt_succ_self _), if_neg (Nat.lt_irrefl _), Nat.sub_self, next]
    rfl
  · rw [if_neg (by omega), if_neg (by omega), List.getElem?_eq_none]
    simp only [List.length_singleton]
    omega

theorem take_ofList (list : List α) (count : Nat) : (ofList list).take count = list.take count := by
  apply List.ext_getElem?
  intro place
  rw [getElem?_take, List.getElem?_take, ofList_get?]

theorem take_of_ended {list : List α} (ended : (ofList list).TerminatedAt count) :
    (ofList list).take count = list := by
  rw [take_ofList, List.take_of_length_le (List.getElem?_eq_none_iff.mp ended)]

theorem not_terminatedAt_ofStream (stream : Stream' α) : ¬(stream : Seq α).TerminatedAt count :=
  Option.some_ne_none (stream.get count)

/-- An item of a list that goes on with a stream. -/
theorem mem_or_of_get?_append {list : List α} {stream : Stream' α}
    (found : (ofStream (list ++ₛ stream)).get? count = some item) :
    item ∈ list ∨ ∃ place, item = stream.get place := by
  have isItem : (list ++ₛ stream).get count = item := Option.some.inj found
  rcases Nat.lt_or_ge count list.length with early | late
  · rw [get_append_left count list stream early] at isItem
    exact .inl (isItem ▸ List.getElem_mem early)
  · obtain ⟨place, rfl⟩ := Nat.exists_eq_add_of_le late
    rw [get_append_right] at isItem
    exact .inr ⟨place, isItem.symm⟩

end Stream'.Seq
