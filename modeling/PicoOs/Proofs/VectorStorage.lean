import PicoOs.Library.Outcome
import PicoOs.Proofs.Elements

/-! The loops of `Std/Vector` over the slots of a buffer. -/

namespace PicoOs.Std
open Library Element

theorem lt_roundToPowerOfTwo {value : Nat} (positive : 0 < value) (small : value < 2 ^ 31) :
    roundToPowerOfTwo value = .ok (2 ^ (32 - clz value)) ∧ value < 2 ^ (32 - clz value) := by
  have nonzero : value ≠ 0 := Nat.pos_iff_ne_zero.mp positive
  have below : Nat.log2 value < 31 := (Nat.log2_lt nonzero).mpr small
  have shift : 32 - clz value = Nat.log2 value + 1 := by
    unfold clz
    omega
  rw [shift]
  refine ⟨?_, Nat.lt_log2_self⟩
  unfold roundToPowerOfTwo
  rw [shift, if_neg (by omega)]

namespace Storage
variable {T : Type} {storage old new : Storage T} {index : Nat} {list rest done : List (Element T)}
  {element : Element T}

def Holds (storage : Storage T) : Nat → List (Element T) → Prop
  | _, [] => True
  | index, element :: rest =>
      index < storage.room ∧ storage.slots index = some element ∧ Holds storage (index + 1) rest

private theorem Holds.congr {after : Storage T} (holds : storage.Holds index list)
    (room : storage.room ≤ after.room)
    (same : ∀ slot, index ≤ slot → slot < index + list.length →
      after.slots slot = storage.slots slot) :
    after.Holds index list := by
  induction list generalizing index with
  | nil => trivial
  | cons element rest ih =>
    obtain ⟨inside, here, later⟩ := holds
    refine ⟨Nat.lt_of_lt_of_le inside room, ?_,
      ih later fun slot above below => same slot (by omega) ?_⟩
    · rw [same index (Nat.le_refl _) (by simp), here]
    · rw [List.length_cons]
      omega

private theorem holds_append :
    storage.Holds index (list ++ rest) ↔
    storage.Holds index list ∧ storage.Holds (index + list.length) rest := by
  induction list generalizing index with
  | nil => simp [Holds]
  | cons element list ih =>
    simp only [List.cons_append, Holds, ih, List.length_cons, and_assoc, Nat.add_assoc,
      Nat.add_comm 1]

theorem Holds.load (holds : storage.Holds index (element :: rest)) :
    storage.load index = .ok element := by
  simp only [Storage.load, if_pos holds.1, holds.2.1]

theorem put_spec (storage : Storage T) (inside : index < storage.room)
    (contents : Option (Element T)) :
    storage.put index contents = .ok { storage with slots := Function.update storage.slots index contents } :=
  if_pos inside

theorem Holds.put_other (holds : storage.Holds index list) {slot : Nat}
    (contents : Option (Element T))
    (other : slot < index ∨ index + list.length ≤ slot) :
    Holds { storage with slots := Function.update storage.slots slot contents } index list :=
  holds.congr (Nat.le_refl _) fun slot above below => Function.update_of_ne (by omega) ..

theorem Holds.put_last (holds : storage.Holds 0 done) (inside : done.length < storage.room)
    (element : Element T) :
    Holds { storage with slots := Function.update storage.slots done.length (some element) } 0
      (done ++ [element]) := by
  refine holds_append.mpr ⟨holds.put_other _ (.inr (Nat.le_of_eq (Nat.zero_add _))), ?_⟩
  rw [Nat.zero_add]
  exact ⟨inside, Function.update_self .., trivial⟩

theorem Holds.push (holds : storage.Holds 0 done) (inside : done.length < storage.room)
    (element : Element T) :
    ∃ after, storage.put done.length (some element) = .ok after ∧ after.room = storage.room ∧
    after.Holds 0 (done ++ [element]) :=
  ⟨_, put_spec storage inside _, rfl, holds.put_last inside element⟩

theorem Holds.read (holds : storage.Holds index list) :
    storage.read list.length index = .ok (list.map value) := by
  induction list generalizing index with
  | nil => rfl
  | cons element rest ih =>
    simp only [List.length_cons, Storage.read, holds.load, ih holds.2.2, bind,
      Except.bind, List.map_cons]

theorem Holds.destroy (holds : storage.Holds index list) (destroyed : List Nat) :
    ∃ after, Vectors.destroyElements list.length index (storage, destroyed) =
      .ok (after, (list.map number).reverse ++ destroyed) ∧ after.room = storage.room := by
  induction list generalizing storage index destroyed with
  | nil => exact ⟨storage, rfl, rfl⟩
  | cons element rest ih =>
    obtain ⟨after, ran, room⟩ :=
      ih (holds.2.2.put_other none (.inl (Nat.lt_succ_self index))) (element.number :: destroyed)
    refine ⟨after, ?_, room⟩
    simp only [List.length_cons, Vectors.destroyElements, holds.load, put_spec storage holds.1,
      bind, Except.bind, ran,
      List.map_cons, List.reverse_cons, List.append_assoc, List.singleton_append]

structure Moves (old new : Storage T) (first : Nat) (before : List Nat)
    (done list : List (Element T)) (after : Vectors.Moved T)
    (now : List (Element T)) (made : Nat) (released : List Nat) : Prop where
  oldRoom : after.1.room = old.room
  newRoom : after.2.1.room = new.room
  holds : after.2.1.Holds 0 (done ++ now)
  values : now.map value = list.map value
  next : after.2.2.1 = first + made
  destroyed : after.2.2.2 = released ++ before
  balanced : (now.map number ++ released).Perm (list.map number ++ List.range' first made)

theorem Holds.copy (holds : old.Holds done.length list) (filled : new.Holds 0 done)
    (room : done.length + list.length ≤ new.room)
    (next : Nat) (destroyed : List Nat) :
    ∃ after, Vectors.copyElements list.length done.length (old, new, next, destroyed) = .ok after ∧
      Moves old new next destroyed done list after list 0 [] := by
  induction list generalizing old new done with
  | nil => exact ⟨_, rfl, rfl, rfl, by rwa [List.append_nil], rfl, rfl, rfl, .refl _⟩
  | cons element rest ih =>
    rw [List.length_cons] at room
    have inside : done.length < new.room := by omega
    have length : (done ++ [element]).length = done.length + 1 := by simp
    have later := holds.2.2
    rw [← length] at later
    obtain ⟨after, ran, moves⟩ :=
      ih later (filled.put_last inside element) (by dsimp only; rw [length]; omega)
    rw [length] at ran
    refine ⟨after, ?_, moves.oldRoom, moves.newRoom, ?_, rfl, moves.next, moves.destroyed, ?_⟩
    · simp only [List.length_cons, Vectors.copyElements, holds.load, put_spec new inside,
        bind, Except.bind,
        ran]
    · have kept := moves.holds
      rwa [List.append_assoc] at kept
    · exact .refl _

theorem Holds.move (holds : old.Holds done.length list) (filled : new.Holds 0 done)
    (room : done.length + list.length ≤ new.room)
    (next : Nat) (destroyed : List Nat) :
    ∃ after now, Vectors.moveElements list.length done.length (old, new, next,
      destroyed) = .ok after ∧
      Moves old new next destroyed done list after now list.length (list.map number).reverse := by
  induction list generalizing old new done next destroyed with
  | nil => exact ⟨_, [], rfl, rfl, rfl, by rwa [List.append_nil], rfl, rfl, rfl, .refl _⟩
  | cons element rest ih =>
    rw [List.length_cons] at room
    have inside : done.length < new.room := by omega
    have length : (done ++ [Element.mk next element.value]).length = done.length + 1 := by simp
    have later := holds.2.2.put_other none (.inl (Nat.lt_succ_self done.length))
    rw [← length] at later
    obtain ⟨after, now, ran, moves⟩ :=
      ih later (filled.put_last inside ⟨next, element.value⟩) (by dsimp only; rw [length]; omega)
      (next + 1) (element.number :: destroyed)
    rw [length] at ran
    refine ⟨after, ⟨next, element.value⟩ :: now, ?_, moves.oldRoom, moves.newRoom, ?_,
      ?_, ?_, ?_, ?_⟩
    · simp only [List.length_cons, Vectors.moveElements, holds.load, put_spec new inside,
        put_spec old holds.1, bind, Except.bind,
        ran]
    · have kept := moves.holds
      rwa [List.append_assoc] at kept
    · rw [List.map_cons, List.map_cons, moves.values]
    · rw [moves.next, List.length_cons]
      omega
    · rw [moves.destroyed, List.map_cons, List.reverse_cons, List.append_assoc]
      rfl
    · rw [List.map_cons, List.map_cons, List.reverse_cons, List.length_cons,
        List.range'_succ, ← List.append_assoc]
      exact (List.perm_append_singleton _ _).trans
        (((moves.balanced.cons next).trans List.perm_middle.symm).cons _)

private theorem copyElements_left {count : Nat} {moved after : Vectors.Moved T}
    (ran : Vectors.copyElements count index moved = .ok after) :
    after.1 = moved.1 := by
  induction count generalizing index moved with
  | zero =>
    cases ran
    rfl
  | succ count ih =>
    obtain ⟨old, new, next, destroyed⟩ := moved
    obtain ⟨element, _, ran⟩ := bind_ok.mp ran
    obtain ⟨filled, _, ran⟩ := bind_ok.mp ran
    have same := ih ran
    exact same

private theorem moveElements_left {count : Nat} {moved after : Vectors.Moved T}
    (ran : Vectors.moveElements count index moved = .ok after)
    (slot : Nat) : after.1.slots slot = if index ≤ slot ∧ slot < index + count then none else moved.1.slots slot := by
  induction count generalizing index moved with
  | zero =>
    cases ran
    rw [if_neg (by omega)]
  | succ count ih =>
    obtain ⟨old, new, next, destroyed⟩ := moved
    obtain ⟨element, loaded, ran⟩ := bind_ok.mp ran
    obtain ⟨filled, _, ran⟩ := bind_ok.mp ran
    obtain ⟨left, put, ran⟩ := bind_ok.mp ran
    have inside : index < old.room := by
      by_contra beyond
      rw [Storage.put, if_neg beyond] at put
      cases put
    rw [put_spec old inside] at put
    cases put
    rw [ih ran]
    by_cases here : slot = index
    · rw [if_neg (by omega), if_pos (by omega), here]
      exact Function.update_self ..
    · have other : Function.update old.slots index none slot = old.slots slot :=
        Function.update_of_ne here ..
      simp only [other]
      congr 1
      exact propext (by omega)

/-- What `ensure_capacity` leaves in the old slots. -/
theorem relocate_left {type : ElementType} {count : Nat} {moved after : Vectors.Moved T}
    (ran : Vectors.relocate type count moved = .ok after) :
    (type.primitive = true → after.1 = moved.1) ∧
    (type.primitive = false → ∀ slot < count, after.1.slots slot = none) := by
  unfold Vectors.relocate at ran
  split at ran
  next primitive =>
    refine ⟨fun _ => copyElements_left ran, fun notPrimitive => ?_⟩
    cases notPrimitive.symm.trans primitive
  next notPrimitive =>
    refine ⟨fun primitive => absurd primitive notPrimitive, fun _ slot below => ?_⟩
    split at ran
    next => cases ran
    next => rw [moveElements_left ran, if_pos (by omega)]

end Storage
end PicoOs.Std
