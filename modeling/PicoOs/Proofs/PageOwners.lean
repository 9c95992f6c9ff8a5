import PicoOs.Kernel.OwnedPageRanges
import PicoOs.Library.Custody
import PicoOs.Library.Outcome
import PicoOs.Proofs.PageRuns

/-! Page ranges and the objects that hold them. Each range that has been allocated is held by
one object, or it has been given back once, as long as no object that holds a range is
assigned to. -/

namespace PicoOs.Kernel
open Library

theorem mapError_ok {φ : Type u} {ψ : Type v} {α : Type w} {f : φ → ψ} {result : Except φ α}
    {value : α} :
    result.mapError f = .ok value ↔ result = .ok value := by
  cases result <;> simp [Except.mapError]

namespace PageOwners
variable {good : PageRange → Prop} {space : Set Nat} {owners middle after : PageOwners}
  {target source place : Place} {grant : Grant}

def held (owners : PageOwners) (place : Place) : List Nat :=
  ((owners.grant place).map Grant.number).toList

theorem mem_held {number : Nat} :
    number ∈ owners.held place ↔
    ∃ grant, owners.grant place = some grant ∧ grant.number = number := by
  simp [held]

/-- The free blocks and the ranges that are held pack the space. -/
structure Accounts (good : PageRange → Prop) (space : Set Nat) (owners : PageOwners) : Prop where
  custody : Custody owners.held owners.next owners.given
  blocks : ∃ (free : List PageRange) (live : List Grant),
    owners.allocator.Holds good space free (live.map Grant.range) ∧ (live.map Grant.number).Nodup ∧
    ∀ grant, grant ∈ live ↔ ∃ place, owners.grant place = some grant

namespace Accounts

private theorem apart (accounts : owners.Accounts good space) {first second : Place}
    (here : owners.grant first = some grant)
    {other : Grant} (there : owners.grant second = some other)
    (same : grant.number = other.number) : first = second :=
  accounts.custody.apart (mem_held.mpr ⟨grant, here, rfl⟩) (mem_held.mpr ⟨other, there, same.symm⟩)

private theorem transfer (accounts : owners.Accounts good space) (source : Place)
    (empty : owners.grant target = none)
    (grants : after.grant = Function.update (Function.update owners.grant source none) target (owners.grant source))
    (allocator : after.allocator = owners.allocator) (next : after.next = owners.next)
    (given : after.given = owners.given) :
    after.Accounts good space := by
  have numbers : after.held = Function.update (Function.update owners.held source []) target
    (owners.held source) := by
    funext place
    simp only [held, grants, Function.update_apply]
    split
    next => rfl
    next => split <;> rfl
  obtain ⟨free, live, holds, distinct, members⟩ := accounts.blocks
  refine ⟨?_, free, live, allocator ▸ holds, distinct, fun grant => (members grant).trans ⟨?_, ?_⟩⟩
  · rw [numbers, next, given]
    exact accounts.custody.transfer source (by rw [held, empty]; rfl)
  · rintro ⟨place, here⟩
    by_cases moved : place = source
    · exact ⟨target, by rw [grants, Function.update_self, ← moved, here]⟩
    · have other : place ≠ target := by
        rintro rfl
        cases empty.symm.trans here
      exact ⟨place, by rw [grants, Function.update_of_ne other, Function.update_of_ne moved, here]⟩
  · rintro ⟨place, here⟩
    rw [grants, Function.update_apply] at here
    split at here
    next => exact ⟨source, here⟩
    next =>
      rw [Function.update_apply] at here
      split at here
      next => cases here
      next => exact ⟨place, here⟩

private theorem give (accounts : owners.Accounts good space)
    (here : owners.grant place = some grant) :
    ∃ allocator, owners.allocator.deallocateLocked grant.range = .ok allocator ∧
      ∀ after : PageOwners, after.grant = Function.update owners.grant place none →
      after.allocator = allocator →
        after.next = owners.next → after.given = grant.number :: owners.given →
        after.Accounts good space := by
  obtain ⟨free, live, holds, distinct, members⟩ := accounts.blocks
  have member := (members grant).mpr ⟨place, here⟩
  have front := List.perm_cons_erase member
  obtain ⟨pushed, kept, _⟩ := (holds.perm (front.map Grant.range)).push
  refine ⟨_, pushed, fun after grants allocator next given => ?_⟩
  have numbers : after.held = Function.update owners.held place [] := by
    funext other
    simp only [held, grants, Function.update_apply]
    split <;> rfl
  have unique : (grant.number :: (live.erase grant).map Grant.number).Nodup :=
    (front.map Grant.number).nodup_iff.mp distinct
  refine ⟨?_, _, live.erase grant, allocator ▸ kept, (List.nodup_cons.mp unique).2, fun other => ?_⟩
  · have balanced : (([] : List Nat) ++ [grant.number]).Perm
      (owners.held place ++ List.range' owners.next 0) := by
      rw [held, here]
      exact .refl _
    rw [numbers, next, given]
    exact accounts.custody.change balanced
  · have distinct' : live.Nodup := .of_map _ distinct
    rw [distinct'.mem_erase_iff, members]
    constructor
    · rintro ⟨different, elsewhere, there⟩
      have away : elsewhere ≠ place := by
        rintro rfl
        exact different (Option.some.inj (there.symm.trans here))
      exact ⟨elsewhere, by rw [grants, Function.update_of_ne away, there]⟩
    · rintro ⟨elsewhere, there⟩
      rw [grants, Function.update_apply] at there
      split at there
      next => cases there
      next away =>
        refine ⟨?_, elsewhere, there⟩
        rintro rfl
        exact away (accounts.apart there here rfl)

/-- A range is allocated to an object that holds nothing. -/
theorem take (accounts : owners.Accounts good space) (halving : PageRange.Halving good)
    (empty : owners.grant place = none)
    {power : Nat} {result : Option PageRange} {allocator : PageAllocator}
    (allocated : owners.allocator.allocateLocked power = .ok (result, allocator)) :
    ∃ range, result = some range ∧ ∀ after : PageOwners,
      after.grant = Function.update owners.grant place (some ⟨owners.next, range⟩) →
      after.allocator = allocator →
        after.next = owners.next + 1 → after.given = owners.given → after.Accounts good space := by
  obtain ⟨free, live, holds, distinct, members⟩ := accounts.blocks
  obtain ⟨range, rest, same, _, kept, _⟩ := holds.allocateUp halving allocated
  refine ⟨range, same, fun after grants sameAllocator next given => ?_⟩
  have numbers : after.held = Function.update owners.held place [owners.next] := by
    funext other
    simp only [held, grants, Function.update_apply]
    split <;> rfl
  have old : ∀ grant ∈ live, grant.number < owners.next := by
    intro grant member
    obtain ⟨place, here⟩ := (members grant).mp member
    exact accounts.custody.old (mem_held.mpr ⟨grant, here, rfl⟩)
  refine ⟨?_, rest, ⟨owners.next, range⟩ :: live, sameAllocator ▸ kept, ?_, fun grant => ?_⟩
  · have balanced : ([owners.next] ++ []).Perm (owners.held place ++ List.range' owners.next 1) := by
      rw [held, empty]
      exact .refl _
    rw [numbers, next, given]
    exact accounts.custody.change balanced
  · rw [List.map_cons, List.nodup_cons]
    refine ⟨fun member => ?_, distinct⟩
    obtain ⟨grant, inside, number⟩ := List.mem_map.mp member
    exact Nat.lt_irrefl _ (number ▸ old grant inside)
  · rw [List.mem_cons, members, grants]
    constructor
    · rintro (rfl | ⟨elsewhere, there⟩)
      · exact ⟨place, Function.update_self ..⟩
      · have away : elsewhere ≠ place := by
          rintro rfl
          cases empty.symm.trans there
        exact ⟨elsewhere, (Function.update_of_ne away ..).trans there⟩
    · rintro ⟨elsewhere, there⟩
      rw [Function.update_apply] at there
      split at there
      next => exact .inl (Option.some.inj there).symm
      next => exact .inr ⟨elsewhere, there⟩

theorem congr (accounts : owners.Accounts good space) (grants : after.grant = owners.grant)
    (allocator : after.allocator = owners.allocator) (next : after.next = owners.next)
    (given : after.given = owners.given) :
    after.Accounts good space := by
  have numbers : after.held = owners.held := by
    funext place
    rw [held, grants, held]
  obtain ⟨free, live, holds, distinct, members⟩ := accounts.blocks
  refine ⟨?_, free, live, allocator ▸ holds, distinct, fun grant => grants ▸ members grant⟩
  rw [numbers, next, given]
  exact accounts.custody

theorem write (accounts : owners.Accounts good space) (here : owners.grant place = some grant)
    {address : Nat} {value : UInt8}
    (above : grant.range.base ≤ address) (below : address < grant.range.stop) :
    Accounts good space { owners with allocator.memory := owners.allocator.memory.write address value } := by
  obtain ⟨free, live, holds, distinct, members⟩ := accounts.blocks
  have member : grant.range ∈ live.map Grant.range :=
    List.mem_map_of_mem ((members grant).mpr ⟨place, here⟩)
  exact ⟨accounts.custody, free, live, holds.write member above below, distinct, members⟩

end Accounts

theorem grant_put (owners : PageOwners) (place : Place) (object : Option OwnedPageRange) :
    (owners.put place object).grant = Function.update owners.grant place
      (object.bind OwnedPageRange.range) := by
  funext other
  simp only [grant, put, Function.update_apply]
  split <;> rfl

theorem grant_vacant (vacant : owners.objects place = none) : owners.grant place = none := by
  rw [grant, vacant, Option.bind_none]

theorem object_ok {object : OwnedPageRange} :
    owners.object place = .ok object ↔ owners.objects place = some object := by
  unfold PageOwners.object
  cases owners.objects place <;> simp

structure Adds (owners after : PageOwners) (added : Set Place) : Prop where
  vectors : after.vectors = owners.vectors
  nextBuffer : after.nextBuffer = owners.nextBuffer
  vacant : ∀ place, place ∉ added → owners.objects place = none → after.objects place = none

namespace Adds
variable {added more : Set Place}

theorem refl (owners : PageOwners) (added : Set Place) : Adds owners owners added :=
  ⟨rfl, rfl, fun _ _ vacant => vacant⟩

theorem trans (first : Adds owners middle added) (second : Adds middle after more) :
    Adds owners after (added ∪ more) where
  vectors := second.vectors.trans first.vectors
  nextBuffer := second.nextBuffer.trans first.nextBuffer
  vacant place outside vacant := second.vacant place (fun inside => outside (.inr inside))
    (first.vacant place (fun inside => outside (.inl inside)) vacant)

theorem mono (adds : Adds owners after added) (within : added ⊆ more) : Adds owners after more where
  vectors := adds.vectors
  nextBuffer := adds.nextBuffer
  vacant place outside := adds.vacant place fun inside => outside (within inside)

/-- There is nothing at a place afterwards. -/
theorem drop (adds : Adds owners after added) (vacant : after.objects place = none)
    (within : ∀ other ∈ added, other ≠ place → other ∈ more) :
    Adds owners after more where
  vectors := adds.vectors
  nextBuffer := adds.nextBuffer
  vacant other outside before := by
    by_cases here : other = place
    · rw [here, vacant]
    · exact adds.vacant other (fun inside => outside (within other inside here)) before

theorem put (owners : PageOwners) (place : Place) (object : Option OwnedPageRange) :
    Adds owners (owners.put place object) {place} where
  vectors := rfl
  nextBuffer := rfl
  vacant _ outside vacant := (Function.update_of_ne outside ..).trans vacant

end Adds

theorem takeRange_spec (accounts : owners.Accounts good space) (empty : owners.grant target = none)
    (ran : owners.takeRange target source = .ok after) :
    after.Accounts good space ∧ Adds owners after ∅ := by
  obtain ⟨object, here, ran⟩ := bind_ok.mp ran
  obtain ⟨other, there, ran⟩ := bind_ok.mp ran
  rw [object_ok] at here there
  have still : Function.update owners.grant target none = owners.grant := by
    rw [← empty, Function.update_eq_self]
  split at ran
  next =>
    cases ran
    refine ⟨accounts.congr ?_ rfl rfl rfl, rfl, rfl, fun place _ vacant => ?_⟩
    · rw [grant_put]
      exact still
    · refine (Function.update_of_ne ?_ ..).trans vacant
      rintro rfl
      cases here.symm.trans vacant
  next grant holds =>
    cases ran
    have apart : source ≠ target := by
      rintro rfl
      cases (Function.update_self ..).symm.trans there
      cases holds
    have present : owners.objects source = some other :=
      (Function.update_of_ne apart ..).symm.trans there
    have moved : owners.grant source = some grant := by
      rw [PageOwners.grant, present, Option.bind_some, holds]
    refine ⟨accounts.transfer source empty ?_ rfl rfl rfl, rfl, rfl, fun place _ vacant => ?_⟩
    · rw [grant_put, grant_put, grant_put, moved, Function.update_idem, Function.update_comm apart]
      rfl
    · have notTarget : place ≠ target := by
        rintro rfl
        cases here.symm.trans vacant
      have notSource : place ≠ source := by
        rintro rfl
        cases present.symm.trans vacant
      simp only [PageOwners.put, Function.update_of_ne notTarget,
        Function.update_of_ne notSource, vacant]

theorem moveConstruct_spec (accounts : owners.Accounts good space)
    (vacant : owners.objects target = none)
    (ran : owners.moveConstruct target source = .ok after) :
    after.Accounts good space ∧ Adds owners after {target} := by
  have made : (owners.put target (some ⟨none⟩)).grant = owners.grant := by
    rw [grant_put]
    exact Function.update_eq_self_iff.mpr (grant_vacant vacant).symm
  have empty : (owners.put target (some ⟨none⟩)).grant target = none := by
    rw [made, grant_vacant vacant]
  obtain ⟨kept, adds⟩ := takeRange_spec (accounts.congr made rfl rfl rfl) empty ran
  exact ⟨kept, ((Adds.put ..).trans adds).mono (by simp)⟩

theorem deallocate_spec (accounts : owners.Accounts good space)
    (ran : owners.deallocate place = .ok after) :
    after.Accounts good space ∧ Adds owners after ∅ ∧ after.grant place = none := by
  obtain ⟨object, here, ran⟩ := bind_ok.mp ran
  rw [object_ok] at here
  split at ran
  next => cases ran
  next grant holds =>
    obtain ⟨allocator, pushed, ran⟩ := bind_ok.mp ran
    rw [mapError_ok] at pushed
    cases ran
    have held : owners.grant place = some grant := by
      rw [PageOwners.grant, here, Option.bind_some, holds]
    obtain ⟨_, same, kept⟩ := accounts.give held
    cases pushed.symm.trans same
    have grants : (owners.put place (some ⟨none⟩)).grant =
      Function.update owners.grant place none := grant_put ..
    refine ⟨kept _ grants rfl rfl rfl, ⟨rfl, rfl, fun other _ vacant => ?_⟩,
      (congrFun grants place).trans (Function.update_self ..)⟩
    refine (Function.update_of_ne ?_ ..).trans vacant
    rintro rfl
    cases here.symm.trans vacant

theorem destroy_spec (accounts : owners.Accounts good space)
    (ran : owners.destroy place = .ok after) :
    after.Accounts good space ∧ Adds owners after ∅ ∧ after.objects place = none := by
  obtain ⟨object, here, ran⟩ := bind_ok.mp ran
  obtain ⟨middle, given, ran⟩ := bind_ok.mp ran
  cases ran
  rw [object_ok] at here
  have cleared : middle.Accounts good space ∧ Adds owners middle ∅ ∧ middle.grant place = none := by
    split at given
    next => exact deallocate_spec accounts given
    next absent =>
      cases given
      refine ⟨accounts, .refl .., ?_⟩
      rw [grant, here, Option.bind_some, Option.not_isSome_iff_eq_none.mp absent]
  obtain ⟨kept, adds, empty⟩ := cleared
  have vacant : (middle.put place none).objects place = none := Function.update_self ..
  refine ⟨kept.congr ?_ rfl rfl rfl, (adds.trans (.put ..)).drop vacant (by simp), vacant⟩
  rw [grant_put]
  exact Function.update_eq_self_iff.mpr empty.symm

end PageOwners
end PicoOs.Kernel
