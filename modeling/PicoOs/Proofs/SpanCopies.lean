import PicoOs.Std.Span

/-! The two ways to copy a span. The loop copies all bytes of the elements, and `memcpy` as
many bytes as there are elements. -/

namespace PicoOs.Std
open Library

namespace Span
variable {type : ElementType} {before after memory : Memory} {span other : Span} {count : Nat}

structure Copies (type : ElementType) (span other : Span) (count : Nat)
    (before after : Memory) : Prop where
  elements : ∀ index < count, after.window (other.element type index) type.sizeOf =
    before.window (span.element type index) type.sizeOf
  elsewhere : ∀ address, address ∉ Set.Ico (other.element type 0) (other.element type count) →
    after address = before address

theorem copies_iff : Copies type span other count before after ↔
    after = before.copy other.data span.data (type.sizeOf * count) := by
  constructor
  · rintro ⟨elements, elsewhere⟩
    funext address
    by_cases inside : other.data ≤ address ∧ address < other.data + type.sizeOf * count
    · obtain ⟨offset, rfl⟩ := Nat.exists_eq_add_of_le inside.1
      have below : offset / type.sizeOf < count :=
        (Nat.div_lt_iff_lt_mul type.positive).mpr (by rw [Nat.mul_comm]; omega)
      have same := Memory.window_eq_iff.mp (elements _ below) _ (Nat.mod_lt offset type.positive)
      rw [element, element, Nat.add_assoc, Nat.add_assoc, Nat.div_add_mod] at same
      rw [Memory.copy, if_pos inside, Nat.add_sub_cancel_left, same]
    · rw [Memory.copy, if_neg inside]
      exact elsewhere address inside
  · rintro rfl
    refine ⟨fun index below => Memory.window_eq_iff.mpr fun offset small => ?_,
      fun address outside => if_neg outside⟩
    have within : type.sizeOf * index + offset < type.sizeOf * count := by
      have next := Nat.mul_le_mul_left type.sizeOf (Nat.succ_le_of_lt below)
      rw [Nat.mul_succ] at next
      omega
    rw [element, element, Nat.add_assoc, Nat.add_assoc, Memory.copy,
      if_pos (by omega), Nat.add_sub_cancel_left]

private theorem assignElements_eq (apart : Disjoint (span.cells type) (other.cells type))
    {index : Nat} (fits : index + count ≤ span.size)
    (room : index + count ≤ other.size) (memory : Memory) :
    assignElements type span other count index memory =
      memory.copy (other.element type index) (span.element type index) (type.sizeOf * count) := by
  induction count generalizing index memory with
  | zero =>
    funext address
    rw [Nat.mul_zero, Memory.copy, if_neg (by omega)]
    rfl
  | succ count ih =>
    have next : ∀ span : Span, span.element type (index + 1) = span.element type index +
      type.sizeOf := fun span => by
      rw [element, element, Nat.mul_succ, Nat.add_assoc]
    rw [assignElements, ih (by omega) (by omega), next, next, Memory.copy_copy, Nat.mul_succ, Nat.add_comm (type.sizeOf * count)]
    intro offset below overwritten
    have within : ∀ span : Span, index + (count + 1) ≤ span.size →
        span.data ≤ span.element type index ∧
          span.element type index + type.sizeOf + type.sizeOf * count ≤ span.data + type.sizeOf *
            span.size := by
      intro span enough
      have product := Nat.mul_le_mul_left type.sizeOf enough
      rw [Nat.mul_add, Nat.mul_succ] at product
      rw [element]
      omega
    have read := within span fits
    have written := within other room
    refine Set.disjoint_left.mp apart ⟨?_, ?_⟩ ⟨Nat.le_trans written.1 overwritten.1, ?_⟩ <;> omega

/-- `copy_to` copies the elements, and says how many there is room for. -/
theorem copyTo_eq (apart : Disjoint (span.cells type) (other.cells type))
    (fits : span.size ≤ other.size) (memory : Memory) :
    copyTo type memory span other = .ok (memory.copy other.data span.data (type.sizeOf * span.size),
      other.size) := by
  have copied := assignElements_eq apart (Nat.le_of_eq (Nat.zero_add span.size)) (by omega) memory
  rw [element, element, Nat.mul_zero, Nat.add_zero, Nat.add_zero] at copied
  rw [copyTo, if_pos fits, copied]

/-- `copy_trimmed_to` copies the elements when their bytes behind the first ones are there
already. -/
theorem copyTrimmedTo_iff : Copies type span other (min span.size other.size) memory
    (copyTrimmedTo memory span other).1 ↔
    memory.window (other.data + min span.size other.size) (type.sizeOf *
      min span.size other.size - min span.size other.size) =
      memory.window (span.data + min span.size other.size) (type.sizeOf *
        min span.size other.size - min span.size other.size) := by
  have larger : min span.size other.size ≤ type.sizeOf * min span.size other.size :=
    Nat.le_mul_of_pos_left _ type.positive
  obtain ⟨more, whole⟩ := Nat.exists_eq_add_of_le larger
  rw [copies_iff, copyTrimmedTo, whole, Memory.copy_eq_copy_iff, Nat.add_sub_cancel_left]

structure Agrees (type : ElementType) (memory : Memory) (span other : Span) : Prop where
  exact : span.size ≤ other.size → ∃ after, copyTo type memory span other = .ok (after, span.size) ∧
    Copies type span other span.size memory after ∧
      copyTrimmedTo memory span other = (after, span.size)
  trimmed : other.size < span.size → (copyTrimmedTo memory span other).2 = other.size ∧
    Copies type span other other.size memory (copyTrimmedTo memory span other).1

/-- The two copies agree when there is no room for more elements than there are, and when what
`memcpy` leaves out is there already. -/
theorem copies_agree_iff (apart : Disjoint (span.cells type) (other.cells type)) :
    Agrees type memory span other ↔
    other.size ≤ span.size ∧ memory.window (other.data + other.size) (type.sizeOf *
      other.size - other.size) =
      memory.window (span.data + other.size) (type.sizeOf * other.size - other.size) := by
  have trimmed := @copyTrimmedTo_iff type memory span other
  constructor
  · intro agrees
    have small : other.size ≤ span.size := by
      by_contra larger
      obtain ⟨after, copied, -, -⟩ := agrees.exact (Nat.le_of_not_le larger)
      rw [copyTo_eq apart (Nat.le_of_not_le larger)] at copied
      have sizes : other.size = span.size := congrArg Prod.snd (Except.ok.inj copied)
      omega
    rw [Nat.min_eq_right small] at trimmed
    refine ⟨small, trimmed.mp ?_⟩
    obtain less | same := Nat.lt_or_eq_of_le small
    · exact (agrees.trimmed less).2
    · obtain ⟨after, -, copies, copied⟩ := agrees.exact (Nat.le_of_eq same.symm)
      rw [copied, same]
      exact copies
  · rintro ⟨small, there⟩
    rw [Nat.min_eq_right small] at trimmed
    have copies := trimmed.mpr there
    refine ⟨fun fits => ?_, fun _ => ⟨Nat.min_eq_right small, copies⟩⟩
    have same : other.size = span.size := Nat.le_antisymm small fits
    have after := copies_iff.mp copies
    refine ⟨(copyTrimmedTo memory span other).1, ?_, same ▸ copies, ?_⟩
    · rw [copyTo_eq apart fits, after, same]
    · exact Prod.ext rfl ((Nat.min_eq_right small).trans same)

theorem copies_agree_iff_bytes :
    Disjoint (cells ⟨true, 1, by decide⟩ ⟨0x100, 3⟩) (cells ⟨true, 1, by decide⟩ ⟨0x200, 2⟩) ∧
    ∀ memory, Agrees ⟨true, 1, by decide⟩ memory ⟨0x100, 3⟩ ⟨0x200, 2⟩ := by
  have apart : Disjoint (cells ⟨true, 1,
    by decide⟩ ⟨0x100, 3⟩) (cells ⟨true, 1, by decide⟩ ⟨0x200, 2⟩) :=
    Set.Ico_disjoint_Ico.mpr (by decide)
  exact ⟨apart, fun memory => (copies_agree_iff apart).mpr ⟨by decide, rfl⟩⟩

/-- Two elements of four bytes are not copied, and with room for three bytes `copy_to` does not
return that it has copied two. -/
theorem copies_disagree :
    Disjoint (cells ⟨true, 4, by decide⟩ ⟨0x100, 2⟩) (cells ⟨true, 4, by decide⟩ ⟨0x200, 2⟩) ∧
      ¬Agrees ⟨true, 4, by decide⟩ (fun address => if address < 0x200 then 1 else 0) ⟨0x100, 2⟩ ⟨0x200, 2⟩ ∧
      Disjoint (cells ⟨true, 1, by decide⟩ ⟨0x100, 2⟩) (cells ⟨true, 1, by decide⟩ ⟨0x200, 3⟩) ∧
      ∀ memory, ¬Agrees ⟨true, 1, by decide⟩ memory ⟨0x100, 2⟩ ⟨0x200, 3⟩ := by
  refine ⟨Set.Ico_disjoint_Ico.mpr (by decide), fun agrees => ?_, Set.Ico_disjoint_Ico.mpr (by decide), fun memory agrees => ?_⟩
  · obtain ⟨after, -, copies, copied⟩ := agrees.exact (by decide)
    have moved : (copyTrimmedTo _ _ _).1 = after := congrArg Prod.fst copied
    rw [← moved] at copies
    have there := copyTrimmedTo_iff.mp copies
    revert there
    decide
  · obtain ⟨after, copied, -, -⟩ := agrees.exact (by decide)
    cases congrArg (Except.map Prod.snd) copied

end Span
end PicoOs.Std
