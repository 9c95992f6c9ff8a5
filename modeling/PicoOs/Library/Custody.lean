import Mathlib

/-! Things that get a number of their own when they are made: each of them is in one place,
or it has been given up exactly once. -/

namespace PicoOs.Library

/-- `held` are the numbers in each place, `next` is the number of the next thing, and `gone`
are the numbers that have been given up. -/
structure Custody {ι : Type u} (held : ι → List Nat) (next : Nat) (gone : List Nat) : Prop where
  unique : ∀ place, (held place).Nodup
  apart : ∀ {place other number}, number ∈ held place → number ∈ held other → place = other
  once : gone.Nodup
  lost : ∀ {number}, number ∈ gone → ∀ place, number ∉ held place
  known : ∀ number, number < next ↔ number ∈ gone ∨ ∃ place, number ∈ held place

namespace Custody
variable {ι : Type u} {held : ι → List Nat} {next : Nat} {gone : List Nat} {place : ι}

theorem initial : Custody (fun _ : ι => []) 0 [] where
  unique _ := .nil
  apart := nofun
  once := .nil
  lost := nofun
  known number := by simp

theorem old (custody : Custody held next gone) {number : Nat} (member : number ∈ held place) :
    number < next :=
  (custody.known number).mpr (.inr ⟨place, member⟩)

/-- An operation on one place: what was there and what is made is there afterwards, or it is
given up. -/
theorem change [DecidableEq ι] (custody : Custody held next gone) {made : Nat}
    {now released : List Nat}
    (balanced : (now ++ released).Perm (held place ++ List.range' next made)) :
    Custody (Function.update held place now) (next + made) (released ++ gone) := by
  have made_iff : ∀ number, number ∈ List.range' next made ↔ next ≤ number ∧ number < next + made :=
    fun number =>
    List.mem_range'_1
  have fresh : (held place).Disjoint (List.range' next made) := fun number member new =>
    Nat.not_lt.mpr ((made_iff number).mp new).1 (custody.old member)
  have together : (now ++ released).Nodup :=
    balanced.nodup_iff.mpr (List.nodup_append'.mpr ⟨custody.unique place, List.nodup_range', fresh⟩)
  have ⟨uniqueNow, uniqueReleased, split⟩ := List.nodup_append'.mp together
  have members : ∀ number, number ∈ now ∨ number ∈ released ↔
    number ∈ held place ∨ next ≤ number ∧ number < next + made :=
    fun number => by rw [← made_iff, ← List.mem_append, ← List.mem_append, balanced.mem_iff]
  have elsewhere : ∀ {other number}, other ≠ place → number ∈ held other →
    ¬(number ∈ now ∨ number ∈ released) := by
    intro other number different member again
    obtain here | ⟨new, _⟩ := (members number).mp again
    · exact different (custody.apart member here)
    · exact Nat.not_lt.mpr new (custody.old member)
  have never : ∀ {number}, number ∈ gone → ¬(number ∈ now ∨ number ∈ released) := by
    intro number lost again
    obtain here | ⟨new, _⟩ := (members number).mp again
    · exact custody.lost lost place here
    · exact Nat.not_lt.mpr new ((custody.known number).mpr (.inl lost))
  refine ⟨fun other => ?_, fun {first second number} inFirst inSecond => ?_, ?_,
    fun {number} lost other => ?_, fun number => ?_⟩
  · rw [Function.update_apply]
    split
    next => exact uniqueNow
    next => exact custody.unique other
  · rw [Function.update_apply] at inFirst inSecond
    split at inFirst <;> split at inSecond
    next here there => exact here.trans there.symm
    next here there => exact absurd (.inl inFirst) (elsewhere there inSecond)
    next here there => exact absurd (.inl inSecond) (elsewhere here inFirst)
    next => exact custody.apart inFirst inSecond
  · exact List.nodup_append'.mpr ⟨uniqueReleased, custody.once,
      fun number member lost => never lost (.inr member)⟩
  · rw [Function.update_apply]
    obtain member | lost := List.mem_append.mp lost
    · split
      next => exact fun kept => split kept member
      next different => exact fun kept => elsewhere different kept (.inr member)
    · split
      next => exact fun kept => never lost (.inl kept)
      next => exact custody.lost lost other
  · have somewhere : (∃ other, number ∈ Function.update held place now other) ↔
        number ∈ now ∨ ∃ other, other ≠ place ∧ number ∈ held other := by
      simp only [Function.update_apply]
      constructor
      · rintro ⟨other, member⟩
        split at member
        next => exact .inl member
        next different => exact .inr ⟨other, different, member⟩
      · rintro (member | ⟨other, different, member⟩)
        · exact ⟨place, by rwa [if_pos rfl]⟩
        · exact ⟨other, by rwa [if_neg different]⟩
    rw [List.mem_append, somewhere]
    constructor
    · intro small
      by_cases made : number < next
      · obtain lost | ⟨other, member⟩ := (custody.known number).mp made
        · exact .inl (.inr lost)
        · by_cases here : other = place
          · obtain kept | given := (members number).mpr (.inl (here ▸ member))
            · exact .inr (.inl kept)
            · exact .inl (.inl given)
          · exact .inr (.inr ⟨other, here, member⟩)
      · obtain kept | given := (members number).mpr (.inr ⟨Nat.not_lt.mp made, small⟩)
        · exact .inr (.inl kept)
        · exact .inl (.inl given)
    · have within : number ∈ now ∨ number ∈ released → number < next + made := fun again =>
        ((members number).mp again).elim (fun member => Nat.lt_add_right made (custody.old member)) And.right
      rintro ((given | lost) | kept | ⟨other, _, member⟩)
      · exact within (.inr given)
      · exact Nat.lt_add_right made ((custody.known number).mpr (.inl lost))
      · exact within (.inl kept)
      · exact Nat.lt_add_right made (custody.old member)

/-- What is in one place goes to another one, where nothing is. -/
theorem transfer [DecidableEq ι] (custody : Custody held next gone) {target : ι} (source : ι)
    (empty : held target = []) :
    Custody (Function.update (Function.update held source []) target (held source)) next gone := by
  have members : ∀ place number, number ∈ Function.update (Function.update held source []) target
    (held source) place ↔
      place = target ∧ number ∈ held source ∨ place ≠ target ∧ place ≠ source ∧
        number ∈ held place := by
    intro place number
    simp only [Function.update_apply]
    split
    next here => simp [here]
    next elsewhere =>
      split
      next there => simp [there, there ▸ elsewhere]
      next different => simp [elsewhere, different]
  refine ⟨fun place => ?_, fun {first second number} inFirst inSecond => ?_, custody.once,
    fun {number} lost place => ?_, fun number => ?_⟩
  · simp only [Function.update_apply]
    split
    next => exact custody.unique source
    next =>
      split
      next => exact .nil
      next => exact custody.unique place
  · rw [members] at inFirst inSecond
    obtain ⟨here, kept⟩ | ⟨_, notSource, kept⟩ :=
      inFirst <;> obtain ⟨there, again⟩ | ⟨_, notSource', again⟩ := inSecond
    · exact here.trans there.symm
    · exact absurd (custody.apart again kept) notSource'
    · exact absurd (custody.apart kept again) notSource
    · exact custody.apart kept again
  · rw [members]
    rintro (⟨_, kept⟩ | ⟨_, _, kept⟩)
    · exact custody.lost lost source kept
    · exact custody.lost lost place kept
  · rw [custody.known, exists_congr fun place => members place number]
    refine or_congr_right ⟨?_, ?_⟩
    · rintro ⟨place, kept⟩
      by_cases here : place = source
      · exact ⟨target, .inl ⟨rfl, here ▸ kept⟩⟩
      · refine ⟨place, .inr ⟨?_, here, kept⟩⟩
        rintro rfl
        rw [empty] at kept
        cases kept
    · rintro ⟨place, ⟨_, kept⟩ | ⟨_, _, kept⟩⟩
      · exact ⟨source, kept⟩
      · exact ⟨place, kept⟩

end Custody
end PicoOs.Library
