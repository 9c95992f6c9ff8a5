import PicoOs.Std.Vector

/-! The objects in containers, and what they are worth. Containers that are out of scope
have no contents. -/

namespace PicoOs.Std.Element
variable {T : Type u}

abbrev Contents (T : Type u) := Nat → Option (List T)

def numbers (elements : Contents (Element T)) (id : Nat) : List Nat :=
  ((elements id).getD []).map number

def values (elements : Contents (Element T)) : Contents T :=
  fun id => (elements id).map (List.map value)

variable (elements : Contents (Element T)) (id : Nat) (list : Option (List (Element T)))

theorem numbers_update :
    numbers (Function.update elements id list) =
      Function.update (numbers elements) id ((list.getD []).map number) := by
  funext other
  simp only [numbers, Function.update_apply]
  split <;> rfl

theorem values_update :
    values (Function.update elements id list) =
      Function.update (values elements) id (list.map (List.map value)) := by
  funext other
  simp only [values, Function.update_apply]
  split <;> rfl

theorem length_of_values {now list : List (Element T)} (same : now.map value = list.map value) :
    now.length = list.length := by
  have lengths := congrArg List.length same
  rwa [List.length_map, List.length_map] at lengths

end PicoOs.Std.Element
