import PicoOs.Library.Memory

/-! The memory of a process, and what of it was accessed. `memmove` and `memcpy` work as
the user library implements them, and leave behind what they have read and written. -/

namespace PicoOs.Userland
open Library

/-- Memory with the areas that were accessed. -/
structure Store where
  memory : Memory
  reads : List Area
  writes : List Area

namespace Store

def read (store : Store) (area : Area) : Store := { store with reads := area :: store.reads }

def memmove (store : Store) (destination source count : Nat) : Store where
  memory := store.memory.copy destination source count
  reads := ⟨source, count⟩ :: store.reads
  writes := ⟨destination, count⟩ :: store.writes

def memcpy (store : Store) (destination source count : Nat) : Store where
  memory := store.memory.copy destination source count
  reads := ⟨source, count⟩ :: store.reads
  writes := ⟨destination, count⟩ :: store.writes

end Store

namespace Store
variable {before middle after : Store} {readable writable : Nat → Prop}

def load (store : Store) (address : Nat) : UInt8 × Store :=
  (store.memory address, store.read ⟨address, 1⟩)

def put (store : Store) (address : Nat) (value : UInt8) : Store :=
  { store with memory := store.memory.write address value, writes := ⟨address, 1⟩ :: store.writes }

def putWord (store : Store) (address value : Nat) : Store :=
  { store with memory := store.memory.store address value, writes := ⟨address, 4⟩ :: store.writes }

/-- What was accessed since may be accessed. -/
structure Within (before after : Store) (readable writable : Nat → Prop) : Prop where
  reads : ∃ reads, after.reads = reads ++ before.reads ∧
    ∀ area ∈ reads, ∀ address, area.address ≤ address → address < area.address + area.count →
      readable address
  writes : ∃ writes, after.writes = writes ++ before.writes ∧
    ∀ area ∈ writes, ∀ address, area.address ≤ address → address < area.address + area.count →
      writable address

namespace Within

theorem refl (store : Store) (readable writable : Nat → Prop) :
    store.Within store readable writable :=
  ⟨⟨[], rfl, nofun⟩, ⟨[], rfl, nofun⟩⟩

theorem trans (first : before.Within middle readable writable)
    (last : middle.Within after readable writable) :
    before.Within after readable writable where
  reads := by
    obtain ⟨earlier, same, allowed⟩ := first.reads
    obtain ⟨later, whole, more⟩ := last.reads
    refine ⟨later ++ earlier, by rw [whole, same, List.append_assoc], ?_⟩
    intro area member
    rcases List.mem_append.mp member with new | old
    · exact more area new
    · exact allowed area old
  writes := by
    obtain ⟨earlier, same, allowed⟩ := first.writes
    obtain ⟨later, whole, more⟩ := last.writes
    refine ⟨later ++ earlier, by rw [whole, same, List.append_assoc], ?_⟩
    intro area member
    rcases List.mem_append.mp member with new | old
    · exact more area new
    · exact allowed area old

theorem mono {moreReadable moreWritable : Nat → Prop}
    (within : before.Within after readable writable)
    (reads : ∀ address, readable address → moreReadable address)
    (writes : ∀ address, writable address → moreWritable address) :
    before.Within after moreReadable moreWritable where
  reads := by
    obtain ⟨areas, same, allowed⟩ := within.reads
    exact ⟨areas, same, fun area member address above below => reads address (allowed area member address above below)⟩
  writes := by
    obtain ⟨areas, same, allowed⟩ := within.writes
    exact ⟨areas, same, fun area member address above below => writes address (allowed area member address above below)⟩

theorem load (store : Store) {address : Nat} (allowed : readable address) (writable : Nat → Prop) :
    store.Within (store.load address).2 readable writable where
  reads := by
    refine ⟨[⟨address, 1⟩], rfl, ?_⟩
    intro area member other above below
    obtain rfl := List.mem_singleton.mp member
    rwa [Nat.le_antisymm (Nat.lt_succ_iff.mp below) above]
  writes := ⟨[], rfl, nofun⟩

theorem put (store : Store) {address : Nat} (value : UInt8) (allowed : writable address)
    (readable : Nat → Prop) :
    store.Within (store.put address value) readable writable where
  reads := ⟨[], rfl, nofun⟩
  writes := by
    refine ⟨[⟨address, 1⟩], rfl, ?_⟩
    intro area member other above below
    obtain rfl := List.mem_singleton.mp member
    rwa [Nat.le_antisymm (Nat.lt_succ_iff.mp below) above]

end Within
end Store
end PicoOs.Userland
