import PicoOs.Proofs.PageOwners

/-! Runs of the objects that hold page ranges. `Optional` and `Vector` make their objects
where there are none, so that a range can only be lost when an object that holds one is
assigned to. -/

namespace PicoOs.Kernel
open Library

/-- A variable or an `Optional`. -/
def Place.Plain : Place → Prop
  | .object _ | .optional _ => True
  | .slot _ _ | .temporary => False

namespace PageOwners
variable {good : PageRange → Prop} {space : Set Nat} {owners middle after : PageOwners}
  {target source place : Place} {id : Nat}

/-- There are objects in the slots of a vector up to its size, and in no other slots of its
buffer. -/
structure Located (owners : PageOwners) : Prop where
  fresh : ∀ buffer index, owners.nextBuffer ≤ buffer →
    owners.objects (.slot (some buffer) index) = none
  null : ∀ index, owners.objects (.slot none index) = none
  beyond : ∀ id index, (owners.vectors id).size ≤ index →
    owners.objects (.slot (owners.vectors id).data index) = none
  apart : ∀ id other buffer, (owners.vectors id).data = some buffer →
    (owners.vectors other).data = some buffer → id = other
  old : ∀ id buffer, (owners.vectors id).data = some buffer → buffer < owners.nextBuffer
  unbacked : ∀ id, (owners.vectors id).data = none → (owners.vectors id).capacity = 0
  temporary : owners.objects .temporary = none

structure Sound (good : PageRange → Prop) (space : Set Nat) (owners : PageOwners) : Prop where
  accounts : owners.Accounts good space
  located : owners.Located

def Used (owners : PageOwners) (place : Place) : Prop :=
  ∃ id buffer index, (owners.vectors id).data = some buffer ∧ index < (owners.vectors id).size ∧
    place = .slot (some buffer) index

theorem Located.adds {added : Set Place} (located : owners.Located) (adds : Adds owners after added)
    (allowed : ∀ place ∈ added, place.Plain ∨ owners.Used place) : after.Located where
  fresh buffer index above := by
    rw [adds.nextBuffer] at above
    refine adds.vacant _ (fun inside => ?_) (located.fresh buffer index above)
    obtain ⟨⟨⟩⟩ | ⟨id, other, slot, data, _, same⟩ := allowed _ inside
    cases same
    exact Nat.not_le.mpr (located.old id _ data) above
  null index := by
    refine adds.vacant _ (fun inside => ?_) (located.null index)
    obtain ⟨⟨⟩⟩ | ⟨id, other, slot, _, _, same⟩ := allowed _ inside
    cases same
  beyond id index above := by
    rw [adds.vectors] at above ⊢
    refine adds.vacant _ (fun inside => ?_) (located.beyond id index above)
    obtain ⟨⟨⟩⟩ | ⟨other, buffer, slot, data, below, same⟩ := allowed _ inside
    obtain ⟨here, rfl⟩ := Place.slot.inj same
    obtain rfl := located.apart id other buffer here data
    exact Nat.not_le.mpr below above
  apart := adds.vectors ▸ located.apart
  old := adds.vectors ▸ adds.nextBuffer ▸ located.old
  unbacked := adds.vectors ▸ located.unbacked
  temporary := by
    refine adds.vacant _ (fun inside => ?_) located.temporary
    obtain ⟨⟨⟩⟩ | ⟨id, buffer, slot, _, _, same⟩ := allowed _ inside
    cases same

theorem clear_spec (accounts : owners.Accounts good space) (ran : owners.clear id = .ok after) :
    after.Accounts good space ∧ Adds owners after ∅ ∧ after.objects (.optional id) = none := by
  unfold clear at ran
  split at ran
  next => exact destroy_spec accounts ran
  next absent =>
    cases ran
    exact ⟨accounts, .refl .., Option.not_isSome_iff_eq_none.mp absent⟩

/-- The result of `allocate` and of `must` goes through a temporary object. -/
theorem hand_spec (accounts : owners.Accounts good space) (vacant : owners.objects target = none)
    (constructed : owners.moveConstruct target .temporary = .ok middle)
    (destroyed : middle.destroy .temporary = .ok after) :
    after.Accounts good space ∧ Adds owners after {target} ∧ after.objects .temporary = none := by
  obtain ⟨kept, adds⟩ := moveConstruct_spec accounts vacant constructed
  obtain ⟨finished, without, gone⟩ := destroy_spec kept destroyed
  exact ⟨finished, (adds.trans without).mono (by simp), gone⟩

def supplied (owners : PageOwners) (allocator : PageAllocator) (range : PageRange) : PageOwners :=
  { put { owners with allocator } .temporary (some ⟨some ⟨owners.next, range⟩⟩) with next := owners.next + 1 }

private theorem supplied_adds (owners : PageOwners) (allocator : PageAllocator)
    (range : PageRange) :
    Adds owners (owners.supplied allocator range) {.temporary} where
  vectors := rfl
  nextBuffer := rfl
  vacant _ outside vacant := (Function.update_of_ne outside ..).trans vacant

private theorem allocate_spec (sound : owners.Sound good space) (halving : PageRange.Halving good)
    {target power : Nat}
    (vacant : owners.objects (.optional target) = none)
    (ran : owners.allocate target power = .ok after) :
    after.Accounts good space ∧ Adds owners after {.optional target} := by
  have empty := grant_vacant sound.located.temporary
  obtain ⟨⟨result, allocator⟩, allocated, ran⟩ := bind_ok.mp ran
  rw [mapError_ok] at allocated
  obtain ⟨range, rfl, taken⟩ := sound.accounts.take halving empty allocated
  obtain ⟨moved, constructed, destroyed⟩ := bind_ok.mp ran
  have supplies := owners.supplied_adds allocator range
  have accounts : (owners.supplied allocator range).Accounts good space := by
    exact taken _ (grant_put { owners with allocator } _ _) rfl rfl rfl
  obtain ⟨kept, adds, gone⟩ :=
    hand_spec accounts (supplies.vacant _ (by simp) vacant) constructed destroyed
  exact ⟨kept, (supplies.trans adds).drop gone (by simp)⟩

private theorem setValue_spec (accounts : owners.Accounts good space) {target : Nat}
    (ran : owners.setValue target source = .ok after) :
    after.Accounts good space ∧ Adds owners after {.optional target} := by
  obtain ⟨cleared, emptied, ran⟩ := bind_ok.mp ran
  obtain ⟨kept, adds, vacant⟩ := clear_spec accounts emptied
  obtain ⟨finished, more⟩ := moveConstruct_spec kept vacant ran
  exact ⟨finished, (adds.trans more).mono (by simp)⟩

private theorem setOptional_spec (accounts : owners.Accounts good space) {target source : Nat}
    (ran : owners.setOptional target source = .ok after) :
    after.Accounts good space ∧ Adds owners after {.optional target} := by
  obtain ⟨cleared, emptied, ran⟩ := bind_ok.mp ran
  obtain ⟨kept, adds, vacant⟩ := clear_spec accounts emptied
  split at ran
  next =>
    obtain ⟨moved, constructed, ran⟩ := bind_ok.mp ran
    obtain ⟨given, more⟩ := moveConstruct_spec kept vacant constructed
    obtain ⟨finished, last, _⟩ := clear_spec given ran
    exact ⟨finished, ((adds.trans more).trans last).mono (by simp)⟩
  next =>
    cases ran
    exact ⟨kept, adds.mono (by simp)⟩

private theorem must_spec (sound : owners.Sound good space) {target source : Nat}
    (vacant : owners.objects (.object target) = none)
    (ran : owners.must target source = .ok after) :
    after.Accounts good space ∧ Adds owners after {.object target} := by
  unfold must at ran
  split at ran
  next =>
    obtain ⟨moved, constructed, ran⟩ := bind_ok.mp ran
    obtain ⟨taken, first⟩ := moveConstruct_spec sound.accounts sound.located.temporary constructed
    obtain ⟨cleared, emptied, ran⟩ := bind_ok.mp ran
    obtain ⟨kept, second, _⟩ := clear_spec taken emptied
    obtain ⟨made, handed, destroyed⟩ := bind_ok.mp ran
    have both := first.trans second
    obtain ⟨finished, third, gone⟩ :=
      hand_spec kept (both.vacant _ (by simp) vacant) handed destroyed
    exact ⟨finished, (both.trans third).drop gone (by simp)⟩
  next => cases ran

def slots (buffer index count : Nat) : Set Place :=
  { place | ∃ slot, index ≤ slot ∧ slot < index + count ∧ place = .slot (some buffer) slot }

private theorem moveElements_spec {old : Option Nat} {new count index : Nat}
    (accounts : owners.Accounts good space)
    (room : ∀ later, index ≤ later → owners.objects (.slot (some new) later) = none)
    (ran : moveElements old new count index owners = .ok after) :
    after.Accounts good space ∧ Adds owners after (slots new index count) := by
  induction count generalizing index owners with
  | zero =>
    cases ran
    exact ⟨accounts, .refl ..⟩
  | succ count ih =>
    obtain ⟨moved, constructed, ran⟩ := bind_ok.mp ran
    obtain ⟨destroyed, gone, ran⟩ := bind_ok.mp ran
    obtain ⟨taken, first⟩ := moveConstruct_spec accounts (room index (Nat.le_refl _)) constructed
    obtain ⟨kept, second, _⟩ := destroy_spec taken gone
    have both := first.trans second
    obtain ⟨finished, third⟩ :=
      ih kept (fun later above => both.vacant _ (by simp; omega) (room later (Nat.le_of_succ_le above))) ran
    refine ⟨finished, (both.trans third).mono ?_⟩
    rintro place ((rfl | ⟨⟨⟩⟩) | ⟨slot, above, below, rfl⟩)
    · exact ⟨index, Nat.le_refl _, by omega, rfl⟩
    · exact ⟨slot, by omega, by omega, rfl⟩

private theorem destroyElements_spec {data : Option Nat} {count index : Nat}
    (accounts : owners.Accounts good space)
    (ran : destroyElements data count index owners = .ok after) :
    after.Accounts good space ∧ Adds owners after ∅ ∧
      ∀ slot, index ≤ slot → slot < index + count → after.objects (.slot data slot) = none := by
  induction count generalizing index owners with
  | zero =>
    cases ran
    exact ⟨accounts, .refl .., fun slot above below => absurd above (Nat.not_le.mpr below)⟩
  | succ count ih =>
    obtain ⟨destroyed, gone, ran⟩ := bind_ok.mp ran
    obtain ⟨kept, first, vacant⟩ := destroy_spec accounts gone
    obtain ⟨finished, second, rest⟩ := ih kept ran
    refine ⟨finished, (first.trans second).mono (by simp), fun slot above below => ?_⟩
    by_cases here : slot = index
    · rw [here]
      exact second.vacant _ (by simp) vacant
    · exact rest slot (by omega) (by omega)

theorem Accounts.setVector (accounts : owners.Accounts good space) (id : Nat)
    (vector : RangeVector) :
    (owners.setVector id vector).Accounts good space := accounts.congr rfl rfl rfl rfl

theorem Located.setVector (located : owners.Located) {vector : RangeVector}
    (beyond : ∀ index, vector.size ≤ index → owners.objects (.slot vector.data index) = none)
    (alone : ∀ buffer, vector.data = some buffer → buffer < owners.nextBuffer ∧
      ∀ other, other ≠ id → (owners.vectors other).data ≠ some buffer)
    (unbacked : vector.data = none → vector.capacity = 0) :
    (owners.setVector id vector).Located where
  fresh := located.fresh
  null := located.null
  beyond other index above := by
    simp only [PageOwners.setVector] at above ⊢
    by_cases here : other = id
    · rw [here, Function.update_self] at above ⊢
      exact beyond index above
    · rw [Function.update_of_ne here] at above ⊢
      exact located.beyond other index above
  apart first second buffer := by
    simp only [PageOwners.setVector, Function.update_apply]
    split <;> split
    next here there => exact fun _ _ => here.trans there.symm
    next other => exact fun here there => absurd there ((alone buffer here).2 second other)
    next other _ => exact fun there here => absurd there ((alone buffer here).2 first other)
    next => exact located.apart first second buffer
  old other buffer := by
    simp only [PageOwners.setVector, Function.update_apply]
    split
    next => exact fun here => (alone buffer here).1
    next => exact located.old other buffer
  unbacked other := by
    simp only [PageOwners.setVector, Function.update_apply]
    split
    next => exact unbacked
    next => exact located.unbacked other
  temporary := located.temporary

theorem Located.alone (located : owners.Located) (id : Nat) :
    ∀ buffer, (owners.vectors id).data = some buffer →
    buffer < owners.nextBuffer ∧ ∀ other, other ≠ id → (owners.vectors other).data ≠ some buffer :=
  fun buffer here => ⟨located.old id buffer here,
    fun other different there => different (located.apart other id buffer there here)⟩

theorem ensureCapacity_spec (sound : owners.Sound good space) {newCapacity : Nat}
    (ran : owners.ensureCapacity id newCapacity = .ok after) :
    after.Sound good space ∧ (after.vectors id).size = (owners.vectors id).size ∧
      (0 < newCapacity → (after.vectors id).data.isSome) ∧
      ∀ place, place.Plain → owners.objects place = none → after.objects place = none := by
  have located := sound.located
  unfold ensureCapacity at ran
  split at ran
  next enough =>
    cases ran
    refine ⟨sound, rfl, fun positive => ?_, fun _ _ vacant => vacant⟩
    by_contra absent
    have none := located.unbacked id (Option.not_isSome_iff_eq_none.mp absent)
    omega
  next =>
    obtain ⟨rounded, _, ran⟩ := bind_ok.mp ran
    split at ran
    next => cases ran
    next =>
      obtain ⟨moved, moves, ran⟩ := bind_ok.mp ran
      cases ran
      have more : Accounts good space { owners with nextBuffer := owners.nextBuffer + 1 } :=
        sound.accounts.congr rfl rfl rfl rfl
      obtain ⟨accounts, adds⟩ :=
        moveElements_spec more (fun later _ => located.fresh _ later (Nat.le_refl _)) moves
      have vectors : moved.vectors = owners.vectors := adds.vectors
      have nextBuffer : moved.nextBuffer = owners.nextBuffer + 1 := adds.nextBuffer
      have vacant : ∀ place, (∀ index, index < (owners.vectors id).size →
        place ≠ .slot (some owners.nextBuffer) index) →
          owners.objects place = none → moved.objects place = none := by
        refine fun place other => adds.vacant place ?_
        rintro ⟨index, _, below, rfl⟩
        exact other index (by omega) rfl
      have kept : moved.Located := by
        refine ⟨fun buffer index above => ?_, fun index => ?_, fun other index above => ?_,
          vectors ▸ located.apart,
          fun other buffer there =>
            ?_, vectors ▸ located.unbacked, vacant _ (by simp) located.temporary⟩
        · rw [nextBuffer] at above
          refine vacant _ (fun slot _ same => ?_) (located.fresh buffer index (by omega))
          cases same
          omega
        · exact vacant _ (by simp) (located.null index)
        · rw [vectors] at above ⊢
          refine vacant _ (fun slot _ same => ?_) (located.beyond other index above)
          cases data : (owners.vectors other).data with
          | none => rw [data] at same; cases same
          | some buffer =>
            rw [data] at same
            cases same
            exact Nat.lt_irrefl _ (located.old other _ data)
        · rw [vectors] at there
          rw [nextBuffer]
          exact Nat.lt_succ_of_lt (located.old other buffer there)
      refine ⟨⟨accounts.setVector ..,
        kept.setVector (fun index above => ?_) (fun buffer here => ?_) nofun⟩, ?_, fun _ => ?_,
        fun place plain => vacant place ?_⟩
      · rw [vectors] at above
        refine vacant _ (fun slot below same => ?_) (located.fresh _ index (Nat.le_refl _))
        cases same
        exact Nat.not_le.mpr below above
      · cases here
        rw [nextBuffer, vectors]
        exact ⟨Nat.lt_succ_self _, fun other _ there => Nat.lt_irrefl _ (located.old other _ there)⟩
      · simp only [PageOwners.setVector, Function.update_self, vectors]
      · simp only [PageOwners.setVector, Function.update_self, Option.isSome_some]
      · rintro index _ rfl
        exact plain

private theorem append_spec (sound : owners.Sound good space)
    (ran : owners.append id source = .ok after) : after.Sound good space := by
  obtain ⟨grown, ensured, ran⟩ := bind_ok.mp ran
  obtain ⟨longer, constructed, ran⟩ := bind_ok.mp ran
  cases ran
  obtain ⟨⟨accounts, located⟩, _, backed, _⟩ := ensureCapacity_spec sound ensured
  obtain ⟨buffer, data⟩ := Option.isSome_iff_exists.mp (backed (Nat.succ_pos _))
  obtain ⟨kept, adds⟩ := moveConstruct_spec accounts
    (located.beyond id _ (Nat.le_refl _)) constructed
  rw [adds.vectors]
  have larger : (grown.setVector id { grown.vectors id with size := (grown.vectors id).size + 1 }).Located :=
    located.setVector (fun index above => located.beyond id index (Nat.le_of_succ_le above))
      (located.alone id) (located.unbacked id)
  have more : Adds (grown.setVector id { grown.vectors id with size := (grown.vectors id).size + 1 })
      (longer.setVector id { grown.vectors id with size := (grown.vectors id).size + 1 })
      {.slot (grown.vectors id).data (grown.vectors id).size} :=
    ⟨congrArg (Function.update · id _) adds.vectors, adds.nextBuffer, adds.vacant⟩
  refine ⟨kept.setVector .., larger.adds more fun place inside => .inr ⟨id, buffer, _, ?_, ?_,
    inside.trans (by rw [data])⟩⟩
  · simp only [PageOwners.setVector, Function.update_self, data]
  · simp only [PageOwners.setVector, Function.update_self, Nat.lt_succ_self]

theorem clearVector_spec (sound : owners.Sound good space)
    (ran : owners.clearVector id = .ok after) :
    after.Sound good space ∧ (after.vectors id).size = 0 := by
  obtain ⟨cleared, destroyed, ran⟩ := bind_ok.mp ran
  cases ran
  obtain ⟨accounts, adds, gone⟩ := destroyElements_spec sound.accounts destroyed
  have located := sound.located.adds adds (fun _ inside => absurd inside (Set.notMem_empty _))
  refine ⟨⟨accounts.setVector ..,
    located.setVector (fun index _ => ?_) (located.alone id) (located.unbacked id)⟩, ?_⟩
  · rw [adds.vectors]
    by_cases below : index < (owners.vectors id).size
    · exact gone index (Nat.zero_le _) (by omega)
    · exact adds.vacant _ (Set.notMem_empty _) (sound.located.beyond id index (Nat.not_lt.mp below))
  · simp only [PageOwners.setVector, Function.update_self]

private theorem leaveVector_spec (sound : owners.Sound good space)
    (ran : owners.leaveVector id = .ok after) : after.Sound good space := by
  obtain ⟨cleared, emptied, ran⟩ := bind_ok.mp ran
  cases ran
  obtain ⟨⟨accounts, located⟩, _⟩ := clearVector_spec sound emptied
  exact ⟨accounts.setVector ..,
    located.setVector (fun index _ => located.null index) nofun (fun _ => rfl)⟩

/-- Whatever is done, apart from assignments to objects that hold a range. -/
theorem Sound.execute (sound : owners.Sound good space) (halving : PageRange.Halving good)
    {event : OwnerEvent}
    (permitted : machine.permitted owners event) (keeps : ¬owners.Overwrites event)
    (executed : machine.execute owners event = .ok after) : after.Sound good space := by
  have plain : ∀ {added : Set Place}, (∀ place ∈ added, place.Plain) →
    after.Accounts good space ∧ Adds owners after added →
      after.Sound good space :=
    fun plain result => ⟨result.1,
      sound.located.adds result.2 fun place inside => .inl (plain place inside)⟩
  cases event with
  | allocate target power =>
    exact plain (by simp [Place.Plain]) (allocate_spec sound halving (Option.isNone_iff_eq_none.mp permitted) executed)
  | moveConstruct target source =>
    exact plain (by simp [Place.Plain]) (moveConstruct_spec sound.accounts (Option.isNone_iff_eq_none.mp permitted) executed)
  | moveAssign target source =>
    exact plain (by simp) (takeRange_spec sound.accounts (Option.not_isSome_iff_eq_none.mp keeps) executed)
  | deallocate place =>
    obtain ⟨accounts, adds, _⟩ := deallocate_spec sound.accounts executed
    exact plain (by simp) ⟨accounts, adds⟩
  | destroy id =>
    obtain ⟨accounts, adds, _⟩ := destroy_spec sound.accounts executed
    exact plain (by simp) ⟨accounts, adds⟩
  | setValue target source =>
      exact plain (by simp [Place.Plain]) (setValue_spec sound.accounts executed)
  | setOptional target source =>
      exact plain (by simp [Place.Plain]) (setOptional_spec sound.accounts executed)
  | must target source =>
    exact plain (by simp [Place.Plain]) (must_spec sound (Option.isNone_iff_eq_none.mp permitted) executed)
  | clear id =>
    obtain ⟨accounts, adds, _⟩ := clear_spec sound.accounts executed
    exact plain (by simp) ⟨accounts, adds⟩
  | append id source => exact append_spec sound executed
  | ensureCapacity id newCapacity => exact (ensureCapacity_spec sound executed).1
  | clearVector id => exact (clearVector_spec sound executed).1
  | leaveVector id => exact leaveVector_spec sound executed
  | write place address value =>
    cases executed
    obtain ⟨grant, held, above, below⟩ : ∃ grant, owners.grant place = some grant ∧
      grant.range.base ≤ address ∧
        address < grant.range.stop := by
      simpa [machine, PageOwners.permitted, Option.any_eq_true] using permitted
    exact @plain ∅ (by simp) ⟨sound.accounts.write held above below, rfl, rfl, fun _ _ vacant => vacant⟩

/-- The range of an object that is assigned to is held by no object afterwards, and it has not
been given back. -/
theorem overwritten (custody : Custody owners.held owners.next owners.given) {grant : Grant}
    (held : owners.grant target = some grant)
    (ran : owners.moveAssign target source = .ok after) :
    grant.number < after.next ∧ grant.number ∉ after.given ∧
    ∀ place, grant.number ∉ after.held place := by
  have mine : grant.number ∈ owners.held target := mem_held.mpr ⟨grant, held, rfl⟩
  have elsewhere : ∀ place, place ≠ target → grant.number ∉ owners.held place :=
    fun place other there => other (custody.apart there mine)
  have notGiven : grant.number ∉ owners.given := fun gone => custody.lost gone target mine
  obtain ⟨_, _, ran⟩ := bind_ok.mp ran
  obtain ⟨other, there, ran⟩ := bind_ok.mp ran
  rw [object_ok] at there
  have cleared : ∀ place, grant.number ∉ (owners.put target (some ⟨none⟩)).held place := by
    intro place inside
    obtain ⟨found, here, number⟩ := mem_held.mp inside
    rw [grant_put, Function.update_apply] at here
    split at here
    next => cases here
    next away => exact elsewhere place away (mem_held.mpr ⟨found, here, number⟩)
  split at ran
  next =>
    cases ran
    exact ⟨custody.old mine, notGiven, cleared⟩
  next taken holds =>
    cases ran
    refine ⟨custody.old mine, notGiven, fun place inside => ?_⟩
    have different : taken.number ≠ grant.number := fun same =>
      cleared source (mem_held.mpr ⟨taken,
        by rw [PageOwners.grant, there, Option.bind_some, holds], same⟩)
    obtain ⟨found, here, number⟩ := mem_held.mp inside
    rw [grant_put, Function.update_apply] at here
    split at here
    next => cases here
    next =>
      rw [grant_put, Function.update_apply] at here
      split at here
      next =>
        cases here
        exact different number
      next => exact cleared place (mem_held.mpr ⟨found, here, number⟩)

private theorem Overwrites.lost {event : OwnerEvent} (overwrites : owners.Overwrites event)
    (custody : Custody owners.held owners.next owners.given)
    (executed : owners.execute event = .ok after) :
    ¬Custody after.held after.next after.given := by
  cases event with
  | moveAssign target source =>
    obtain ⟨grant, held⟩ := Option.isSome_iff_exists.mp overwrites
    obtain ⟨small, notGiven, nowhere⟩ := overwritten custody held executed
    intro afterwards
    obtain gone | ⟨place, inside⟩ := (afterwards.known grant.number).mp small
    · exact notGiven gone
    · exact nowhere place inside
  | _ => exact overwrites.elim

/-- Each range that has been allocated is held by one object, or it has been given back once.
The ranges that are held and the blocks on the free lists are what the allocator has found,
all of it on the free lists when there are no objects. -/
structure Owned (found : List PageRange) (owners : PageOwners) : Prop where
  custody : Custody owners.held owners.next owners.given
  packs : ∃ (free : List PageRange) (live : List Grant), owners.allocator.Lists free ∧
    (∀ grant, grant ∈ live ↔ ∃ place, owners.grant place = some grant) ∧
    Packs PageRange.cells (free ++ live.map Grant.range) (covered PageRange.cells found)
  returned : (∀ place, owners.objects place = none) →
    (∀ number < owners.next, number ∈ owners.given) ∧
    ∃ free, owners.allocator.Lists free ∧ Packs PageRange.cells free (covered PageRange.cells found)

private theorem Accounts.owned {found : List PageRange} (accounts : owners.Accounts good space)
    (covers : covered PageRange.cells found = space) : owners.Owned found := by
  obtain ⟨free, live, holds, _, members⟩ := accounts.blocks
  refine ⟨accounts.custody, ⟨free, live, holds.lists, members, covers ▸ holds.packs⟩,
    fun gone => ⟨fun number small => ?_, free,
    holds.lists, ?_⟩⟩
  · obtain given | ⟨place, inside⟩ := (accounts.custody.known number).mp small
    · exact given
    · rw [held, grant_vacant (gone place)] at inside
      cases inside
  · have none : live = [] := by
      refine List.eq_nil_iff_forall_not_mem.mpr fun grant member => ?_
      obtain ⟨place, here⟩ := (members grant).mp member
      cases (grant_vacant (gone place)).symm.trans here
    have packs := holds.packs
    rw [none, List.map_nil, List.append_nil] at packs
    exact covers ▸ packs

theorem initial_sound {allocator : PageAllocator} {free : List PageRange}
    (holds : allocator.Holds good space free []) :
    (initial allocator).Sound good space where
  accounts := ⟨.initial, free, [], holds, .nil, by simp [grant, initial]⟩
  located := ⟨fun _ _ _ => rfl, fun _ => rfl, fun _ _ _ => rfl, nofun, nofun, fun _ _ => rfl, rfl⟩

end PageOwners

open PageOwners

/-- In a run each range stays owned until an object that holds a range is assigned to, and not
any longer. -/
theorem page_ranges_owned {memory : Memory} {areaStart areaEnd : Nat}
    (area : PageArea areaStart areaEnd) :
    ∃ allocator found, PageAllocator.construct memory areaStart areaEnd = .ok allocator ∧
    allocator.Lists found ∧
      ∀ history owners, PageOwners.machine.Run (.initial allocator) history owners →
        ((∀ entry ∈ history, entry.1.Owned found) ∧ owners.Owned found ↔ ∀ entry ∈ history,
          ¬entry.1.Overwrites entry.2) := by
  obtain ⟨allocator, found, space, built, holds, _⟩ := area.constructed memory
  have covers : covered PageRange.cells found = space := by simpa using holds.packs.covers
  refine ⟨allocator, found, built, holds.lists, fun history owners run => ?_⟩
  have start := initial_sound holds
  have both : ((∀ entry ∈ history, ¬entry.1.Overwrites entry.2) →
    owners.Sound (fun _ => True) space) ∧
      ((∀ entry ∈ history, entry.1.Owned found) ∧ owners.Owned found ↔ ∀ entry ∈ history,
        ¬entry.1.Overwrites entry.2) := by
    refine run.induct (fun history owners => ((∀ entry ∈ history, ¬entry.1.Overwrites entry.2) →
      owners.Sound (fun _ => True) space) ∧
      ((∀ entry ∈ history, entry.1.Owned found) ∧ owners.Owned found ↔ ∀ entry ∈ history,
        ¬entry.1.Overwrites entry.2)) ?_ ?_
    · exact ⟨fun _ => start, by simp [start.accounts.owned covers]⟩
    · rintro history owners event next _ ⟨sound, iff⟩ permitted executed
      have kept : (∀ entry ∈ history ++ [(owners, event)], ¬entry.1.Overwrites entry.2) →
        next.Sound (fun _ => True) space := by
        intro keeps
        have earlier := sound fun entry member => keeps entry (List.mem_append_left _ member)
        exact earlier.execute PageState.halving_true permitted
          (keeps (owners, event) (by simp)) executed
      refine ⟨kept, ?_, fun keeps => ?_⟩
      · rintro ⟨owned, afterwards⟩ entry member
        have before := owned (owners, event) (by simp)
        obtain earlier | last := List.mem_append.mp member
        · exact iff.mp ⟨fun entry earlier => owned entry (List.mem_append_left _ earlier),
            before⟩ entry earlier
        · obtain rfl := List.mem_singleton.mp last
          exact fun overwrites =>
            Overwrites.lost overwrites before.custody executed afterwards.custody
      · obtain ⟨earlier, before⟩ :=
          iff.mpr fun entry member => keeps entry (List.mem_append_left _ member)
        refine ⟨fun entry member => ?_, (kept keeps).accounts.owned covers⟩
        obtain passed | last := List.mem_append.mp member
        · exact earlier entry passed
        · obtain rfl := List.mem_singleton.mp last
          exact before
  exact both.2

/-- Two ranges in a vector, of which one is given back, and one in an `Optional`. -/
theorem page_ranges_owned_small :
    ∃ allocator found owners, ∃ history : List (PageOwners × OwnerEvent),
      PageAllocator.construct (fun _ => 0) 0x20000101 0x20003000 = .ok allocator ∧
      PageOwners.machine.Run (.initial allocator) history owners ∧
      history.map Prod.snd = [.allocate 0 10, .must 0 0,
        .append 0 (.object 0), .destroy 0, .allocate 1 9, .must 1 1, .append 0 (.object 1),
        .ensureCapacity 0 3,
        .deallocate (.slot (some 1) 0), .allocate 2 8, .setOptional 3 2] ∧
      ((∀ entry ∈ history, entry.1.Owned found) ∧ owners.Owned found ↔ ∀ entry ∈ history,
        ¬entry.1.Overwrites entry.2) ∧
      owners.held (.slot (some 1) 1) = [1] ∧ owners.held (.optional 3) = [2] ∧
      owners.given = [0] := by
  have area : PageArea 0x20000101 0x20003000 := .of_margin (by decide) (by decide) (by decide)
  obtain ⟨allocator, found, built, _, runs⟩ := @page_ranges_owned (fun _ => 0) _ _ area
  have played : (PageAllocator.construct (fun _ => 0) 0x20000101 0x20003000).toOption.bind
    (fun allocator =>
      (PageOwners.machine.after (.initial allocator) [.allocate 0 10, .must 0 0,
        .append 0 (.object 0), .destroy 0, .allocate 1 9,
        .must 1 1, .append 0 (.object 1), .ensureCapacity 0 3, .deallocate (.slot (some 1) 0),
          .allocate 2 8, .setOptional 3 2]).map fun owners =>
          (owners.held (.slot (some 1) 1), owners.held (.optional 3), owners.given)) = some ([1],
            [2], [0]) := by
    decide +kernel
  rw [built] at played
  obtain ⟨owners, executed, results⟩ := Option.map_eq_some_iff.mp played
  simp only [Prod.mk.injEq] at results
  obtain ⟨history, run, events⟩ := Machine.run_after executed
  exact ⟨allocator, found, owners, history, built, run, events, runs history owners run, results⟩

/-- The first of two ranges is lost when the second one is moved to its object. -/
theorem page_range_lost :
    ∃ allocator owners after, PageAllocator.construct (fun _ => 0) 0x20000101 0x20003000 =
      .ok allocator ∧
      PageOwners.machine.after (.initial allocator) [.allocate 0 10, .must 0 0, .allocate 1 9,
        .must 1 1] = some owners ∧
      owners.execute (.moveAssign (.object 0) (.object 1)) = .ok after ∧
      0 < after.next ∧ 0 ∉ after.given ∧ ∀ place, 0 ∉ after.held place := by
  have area : PageArea 0x20000101 0x20003000 := .of_margin (by decide) (by decide) (by decide)
  obtain ⟨allocator, found, space, built, holds, _⟩ := area.constructed fun _ => 0
  have played : ((PageAllocator.construct (fun _ => 0) 0x20000101 0x20003000).toOption.bind fun allocator =>
      (PageOwners.machine.after (.initial allocator) [.allocate 0 10, .must 0 0, .allocate 1 9,
        .must 1 1]).map fun owners =>
        (owners.grant (.object 0),
          (owners.execute (.moveAssign (.object 0) (.object 1))).toOption.isSome)) =
      some (some ⟨0, ⟨10, 0x20002a00⟩⟩, true) := by
    decide +kernel
  rw [built] at played
  obtain ⟨owners, executed, results⟩ := Option.map_eq_some_iff.mp played
  simp only [Prod.mk.injEq] at results
  obtain ⟨after, moved⟩ := Option.isSome_iff_exists.mp results.2
  rw [toOption_some] at moved
  obtain ⟨first, allowed, ran, rest⟩ := Machine.after_cons executed
  have sound := (initial_sound holds).execute PageState.halving_true allowed id ran
  obtain ⟨second, allowed, ran, rest⟩ := Machine.after_cons rest
  have sound := sound.execute PageState.halving_true allowed id ran
  obtain ⟨third, allowed, ran, rest⟩ := Machine.after_cons rest
  have sound := sound.execute PageState.halving_true allowed id ran
  obtain ⟨fourth, allowed, ran, rest⟩ := Machine.after_cons rest
  have sound := sound.execute PageState.halving_true allowed id ran
  cases rest
  exact ⟨allocator, owners, after, built, executed, moved,
    overwritten sound.accounts.custody results.1 moved⟩

end PicoOs.Kernel
