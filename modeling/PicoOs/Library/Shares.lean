import Mathlib

/-! Items that are given to owners: each of them has one owner at most, who holds it once.
Reserved items are in use as well, but no owner has them. -/

namespace PicoOs.Library
variable {ι : Type u} {α : Type v}

structure Shares (holdings : ι → List α) (reserved live : List α) : Prop where
  held : ∀ owner, ∀ item ∈ holdings owner, item ∈ live
  once : ∀ owner, (holdings owner).Nodup
  apart : ∀ first second, first ≠ second → ∀ item ∈ holdings first, item ∉ holdings second
  kept : ∀ item ∈ reserved, item ∈ live ∧ ∀ owner, item ∉ holdings owner

namespace Shares

/-- Distinct items are dealt out, one to each of the first owners. -/
theorem deal {items reserved live : List α} (distinct : (items ++ reserved).Nodup)
    (inside : ∀ item ∈ items ++ reserved, item ∈ live) (last : α) :
    Shares (fun owner => if owner < items.length then [items.getD owner last] else []) reserved live := by
  have given {owner : Nat} {item : α} (member : item ∈ if owner < items.length then [items.getD owner last] else []) :
      ∃ small : owner < items.length, item = items[owner] := by
    split at member
    next small =>
      exact ⟨small, (List.mem_singleton.mp member).trans (List.getD_eq_getElem _ _ small)⟩
    next => cases member
  obtain ⟨nodup, _, disjoint⟩ := List.nodup_append.mp distinct
  refine ⟨fun owner item member => ?_, fun owner => ?_, fun first second differs item one two => ?_,
    fun item member => ?_⟩
  · obtain ⟨small, rfl⟩ := given member
    exact inside _ (List.mem_append_left _ (List.getElem_mem small))
  · split
    · exact List.nodup_singleton _
    · exact List.nodup_nil
  · obtain ⟨small, rfl⟩ := given one
    obtain ⟨other, same⟩ := given two
    exact differs (nodup.getElem_inj_iff.mp same)
  · refine ⟨inside item (List.mem_append_right _ member), fun owner mine => ?_⟩
    obtain ⟨small, rfl⟩ := given mine
    exact disjoint _ (List.getElem_mem small) _ member rfl

variable [DecidableEq ι] {holdings : ι → List α} {reserved live : List α}

/-- A new item is given to an owner. -/
theorem give (shares : Shares holdings reserved live) (owner : ι) {item : α} (fresh : item ∉ live) :
    Shares (Function.update holdings owner (holdings owner ++ [item])) reserved (item :: live) := by
  have absent (other : ι) : item ∉ holdings other :=
    fun member => fresh (shares.held other item member)
  refine ⟨fun other value member => ?_, fun other => ?_,
    fun first second differs value one two => ?_, fun value member => ?_⟩
  · by_cases same : other = owner
    · rw [same, Function.update_self, List.mem_append, List.mem_singleton] at member
      rcases member with before | rfl
      · exact List.mem_cons_of_mem _ (shares.held owner value before)
      · exact List.mem_cons_self
    · rw [Function.update_of_ne same] at member
      exact List.mem_cons_of_mem _ (shares.held other value member)
  · by_cases same : other = owner
    · rw [same, Function.update_self]
      refine (shares.once owner).append (List.nodup_singleton item) fun value before last => ?_
      exact absent owner (List.mem_singleton.mp last ▸ before)
    · rw [Function.update_of_ne same]
      exact shares.once other
  · by_cases left : first = owner
    · have right : second ≠ owner := fun same => differs (left.trans same.symm)
      rw [left, Function.update_self, List.mem_append, List.mem_singleton] at one
      rw [Function.update_of_ne right] at two
      rcases one with before | rfl
      · exact shares.apart owner second (Ne.symm right) value before two
      · exact absent second two
    · rw [Function.update_of_ne left] at one
      by_cases right : second = owner
      · rw [right, Function.update_self, List.mem_append, List.mem_singleton] at two
        rcases two with before | rfl
        · exact shares.apart first owner left value one before
        · exact absent first one
      · rw [Function.update_of_ne right] at two
        exact shares.apart first second differs value one two
  · obtain ⟨inside, outside⟩ := shares.kept value member
    refine ⟨List.mem_cons_of_mem _ inside, fun other given => ?_⟩
    by_cases same : other = owner
    · rw [same, Function.update_self, List.mem_append, List.mem_singleton] at given
      rcases given with before | rfl
      · exact outside owner before
      · exact fresh inside
    · rw [Function.update_of_ne same] at given
      exact outside other given

/-- An owner passes everything on to another one. -/
theorem pass (shares : Shares holdings reserved live) {giver taker : ι} (differs : giver ≠ taker) :
    Shares (Function.update (Function.update holdings giver []) taker (holdings taker ++
      holdings giver)) reserved live := by
  have value (other : ι) : Function.update (Function.update holdings giver []) taker
    (holdings taker ++ holdings giver) other =
      if other = taker then holdings taker ++ holdings giver else if other = giver then []
      else holdings other := by
    rw [Function.update_apply, Function.update_apply]
  have source {other : ι} {item : α} (member : item ∈ Function.update (Function.update holdings giver []) taker
      (holdings taker ++ holdings giver) other) :
      item ∈ holdings other ∧ other ≠ giver ∨ item ∈ holdings giver ∧ other = taker := by
    rw [value] at member
    split at member
    · rename_i same
      rcases List.mem_append.mp member with own | passed
      · exact .inl ⟨same ▸ own, same ▸ differs.symm⟩
      · exact .inr ⟨passed, same⟩
    · split at member
      · cases member
      · exact .inl ⟨member, ‹_›⟩
  refine ⟨fun other item member => ?_, fun other => ?_, fun first second apart item one two => ?_,
    fun item member => ?_⟩
  · rcases source member with ⟨own, -⟩ | ⟨passed, -⟩
    · exact shares.held other item own
    · exact shares.held giver item passed
  · rw [value]
    split
    · exact (shares.once taker).append (shares.once giver) (shares.apart taker giver differs.symm)
    · split
      · exact List.nodup_nil
      · exact shares.once other
  · rcases source one with ⟨left, leftApart⟩ | ⟨left, leftSame⟩ <;>
      rcases source two with ⟨right, rightApart⟩ | ⟨right, rightSame⟩
    · exact shares.apart first second apart item left right
    · exact shares.apart first giver leftApart item left right
    · exact shares.apart giver second (Ne.symm rightApart) item left right
    · exact apart (leftSame.trans rightSame.symm)
  · obtain ⟨inside, outside⟩ := shares.kept item member
    refine ⟨inside, fun other given => ?_⟩
    rcases source given with ⟨own, -⟩ | ⟨passed, -⟩
    · exact outside other own
    · exact outside giver passed

/-- An item is taken out of circulation. -/
theorem release [DecidableEq α] (shares : Shares holdings reserved live) {owner : ι}
    {before rest : List α} {item : α} (whole : holdings owner = before ++ item :: rest) :
    Shares (Function.update holdings owner (before ++ rest)) reserved (live.erase item) := by
  have split : (before ++ item :: rest).Nodup := whole ▸ shares.once owner
  have here : item ∈ holdings owner := whole ▸ List.mem_append_right _ List.mem_cons_self
  have absent : item ∉ before ++ rest := (List.nodup_middle.mp split).notMem
  have inside {value : α} (member : value ∈ before ++ rest) : value ∈ holdings owner := by
    rw [whole, List.mem_append, List.mem_cons]
    exact (List.mem_append.mp member).imp id .inr
  refine ⟨fun other value member => ?_, fun other => ?_,
    fun first second differs value one two => ?_, fun value member => ?_⟩
  · by_cases same : other = owner
    · rw [same, Function.update_self] at member
      have differs : value ≠ item := fun equal => absent (equal ▸ member)
      exact (List.mem_erase_of_ne differs).mpr (shares.held owner value (inside member))
    · rw [Function.update_of_ne same] at member
      have differs : value ≠ item :=
        fun equal => shares.apart other owner same value member (equal ▸ here)
      exact (List.mem_erase_of_ne differs).mpr (shares.held other value member)
  · by_cases same : other = owner
    · rw [same, Function.update_self]
      exact (List.nodup_middle.mp split).of_cons
    · rw [Function.update_of_ne same]
      exact shares.once other
  · by_cases left : first = owner
    · have right : second ≠ owner := fun same => differs (left.trans same.symm)
      rw [left, Function.update_self] at one
      rw [Function.update_of_ne right] at two
      exact shares.apart owner second (Ne.symm right) value (inside one) two
    · rw [Function.update_of_ne left] at one
      by_cases right : second = owner
      · rw [right, Function.update_self] at two
        exact shares.apart first owner left value one (inside two)
      · rw [Function.update_of_ne right] at two
        exact shares.apart first second differs value one two
  · obtain ⟨present, outside⟩ := shares.kept value member
    have differs : value ≠ item := fun equal => outside owner (equal ▸ here)
    refine ⟨(List.mem_erase_of_ne differs).mpr present, fun other given => ?_⟩
    by_cases same : other = owner
    · rw [same, Function.update_self] at given
      exact outside owner (inside given)
    · rw [Function.update_of_ne same] at given
      exact outside other given

end Shares

end PicoOs.Library
