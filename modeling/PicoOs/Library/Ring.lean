import Mathlib

/-! Rings of slots that hold a list from some slot on, wrapping around at the end. -/

namespace PicoOs.Library.Ring
variable {α : Type u} {capacity head : Nat} {data : Nat → Option α} {list : List α} {value : α}

def slot (capacity head index : Nat) : Nat := (head + index) % capacity

theorem slot_lt (inside : head < capacity) (index : Nat) : slot capacity head index < capacity :=
  Nat.mod_lt _ (Nat.lt_of_le_of_lt (Nat.zero_le head) inside)

theorem slot_zero (inside : head < capacity) : slot capacity head 0 = head :=
  Nat.mod_eq_of_lt inside

theorem slot_succ (index : Nat) :
    slot capacity (slot capacity head 1) index = slot capacity head (index + 1) := by
  unfold slot
  rw [Nat.mod_add_mod, Nat.add_assoc, Nat.add_comm 1 index]

theorem slot_injective {first second : Nat} (below : first < capacity) (small : second < capacity)
    (same : slot capacity head first = slot capacity head second) : first = second := by
  have congruent : first ≡ second [MOD capacity] := Nat.ModEq.add_left_cancel' head same
  exact Nat.ModEq.eq_of_lt_of_lt congruent below small

/-- The slots from `head` on hold the list; what the other slots hold is left open. -/
structure Holds (capacity head : Nat) (data : Nat → Option α) (list : List α) : Prop where
  inside : head < capacity
  fits : list.length ≤ capacity
  filled : ∀ index, index < list.length → data (slot capacity head index) = list[index]?

namespace Holds

theorem empty (inside : head < capacity) : Holds capacity head data [] :=
  ⟨inside, Nat.zero_le _, fun _ below => absurd below (Nat.not_lt_zero _)⟩

theorem first (holds : Holds capacity head data (value :: list)) : data head = some value := by
  have front := holds.filled 0 (Nat.succ_pos _)
  rwa [slot_zero holds.inside] at front

theorem push (holds : Holds capacity head data list) (room : list.length < capacity) (value : α) :
    Holds capacity head (Function.update data (slot capacity head list.length) (some value))
      (list ++ [value]) := by
  have longer : (list ++ [value]).length = list.length + 1 := by simp
  refine ⟨holds.inside, longer ▸ room, fun index below => ?_⟩
  rw [longer] at below
  by_cases last : index = list.length
  · subst last
    rw [Function.update_self, List.getElem?_concat_length]
  · have earlier : index < list.length := by omega
    have apart : slot capacity head index ≠ slot capacity head list.length := fun same =>
      last (slot_injective (earlier.trans room) room same)
    rw [Function.update_of_ne apart, List.getElem?_append_left earlier]
    exact holds.filled index earlier

theorem slot_back (inside : head < capacity) (index : Nat) :
    slot capacity (slot capacity head (capacity - 1)) (index + 1) = slot capacity head index := by
  have around : head + (capacity - 1) + (index + 1) = head + index + capacity := by omega
  unfold slot
  rw [Nat.mod_add_mod, around, Nat.add_mod_right]

theorem pushFront (holds : Holds capacity head data list) (room : list.length < capacity)
    (value : α) :
    Holds capacity (slot capacity head (capacity - 1)) (Function.update data (slot capacity head (capacity - 1)) (some value))
      (value :: list) := by
  refine ⟨slot_lt holds.inside _, room, fun index below => ?_⟩
  rw [List.length_cons] at below
  cases index with
  | zero => rw [slot_zero (slot_lt holds.inside _), Function.update_self, List.getElem?_cons_zero]
  | succ index =>
    have apart : slot capacity head index ≠ slot capacity head (capacity - 1) := by
      intro same
      have last := slot_injective (by omega) (by omega) same
      omega
    rw [slot_back holds.inside, Function.update_of_ne apart, List.getElem?_cons_succ]
    exact holds.filled index (by omega)

theorem pop (holds : Holds capacity head data (value :: list)) (vacated : Option α) :
    Holds capacity (slot capacity head 1) (Function.update data head vacated) list := by
  have fits : list.length + 1 ≤ capacity := holds.fits
  refine ⟨slot_lt holds.inside 1, by omega, fun index below => ?_⟩
  have apart : slot capacity head (index + 1) ≠ head := by
    intro same
    have front : slot capacity head (index + 1) = slot capacity head 0 :=
      same.trans (slot_zero holds.inside).symm
    have zero := slot_injective (by omega) (by omega) front
    omega
  rw [slot_succ, Function.update_of_ne apart, holds.filled (index + 1) (Nat.succ_lt_succ below)]
  rfl

end Holds
end PicoOs.Library.Ring
