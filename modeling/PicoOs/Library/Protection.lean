import Mathlib

/-! The memory protection unit of an ARMv6-M processor: eight regions, of which the one with the
highest number decides. -/

namespace PicoOs.Library.Protection

inductive Access where
  | read
  | write
  | execute
  deriving DecidableEq

/-- The fields of the attribute register that decide about an access. -/
structure Attributes where
  enable : Bool
  size : Nat
  srd : Nat
  attrsAp : Nat
  attrsXn : Bool
  deriving DecidableEq

/-- `addr` has the bits of the base address from bit 5 on. -/
structure Region where
  addr : Nat
  attributes : Attributes
  deriving DecidableEq

namespace Region

def bytes (region : Region) : Nat := 2 ^ (region.attributes.size + 1)

/-- The bits of the base below the size of the region are ignored. -/
def start (region : Region) : Nat := region.addr * 2 ^ 5 / region.bytes * region.bytes

/-- Each bit of `srd` takes an eighth out of the region. -/
def covers (region : Region) (address : Nat) : Bool :=
  region.attributes.enable && decide (region.start ≤ address ∧
    address < region.start + region.bytes) &&
    !region.attributes.srd.testBit ((address - region.start) * 8 / region.bytes)

/-- The encodings of `attrsAp`. -/
def allows (region : Region) (privileged : Bool) : Access → Bool
  | .read =>
      decide (region.attributes.attrsAp ∈ [2, 3, 6, 7]) || privileged && decide
        (region.attributes.attrsAp ∈ [1, 5])
  | .write =>
      decide (region.attributes.attrsAp = 3) || privileged && decide
        (region.attributes.attrsAp ∈ [1, 2])
  | .execute => !region.attributes.attrsXn &&
    (decide (region.attributes.attrsAp ∈ [2, 3, 6, 7]) || privileged && decide (region.attributes.attrsAp ∈ [1, 5]))

end Region

/-- `number` is the region whose registers can be accessed. -/
structure ProtectionUnit where
  enable : Bool
  privdefena : Bool
  number : Nat
  regions : Nat → Region

namespace ProtectionUnit

def select (unit : ProtectionUnit) (number : Nat) : ProtectionUnit := { unit with number }

/-- A write of the base register selects the region as well if `valid` is set. -/
def writeBase (unit : ProtectionUnit) (region : Nat) (valid : Bool) (addr : Nat) : ProtectionUnit :=
  let number := if valid then region else unit.number
  { unit with number, regions := Function.update unit.regions number { unit.regions number with addr } }

def writeAttributes (unit : ProtectionUnit) (attributes : Attributes) : ProtectionUnit :=
  { unit with regions := Function.update unit.regions unit.number { unit.regions unit.number with attributes } }

def deciding (unit : ProtectionUnit) (address : Nat) : Option Region :=
  ((List.range 8).map unit.regions).reverse.find? fun region => region.covers address

def permits (unit : ProtectionUnit) (privileged : Bool) (access : Access) (address : Nat) : Bool :=
  if unit.enable then
    match unit.deciding address with
    | some region => region.allows privileged access
    | none => privileged && unit.privdefena
  else true

/-- The last region that covers an address decides, and the default memory map where none does. -/
def decides (regions : List Region) (privileged : Bool) (access : Access) (address : Nat) : Bool :=
  match regions.reverse.find? fun region => region.covers address with
  | some region => region.allows privileged access
  | none => privileged

structure Has (unit : ProtectionUnit) (regions : List Region) : Prop where
  enabled : unit.enable = true
  background : unit.privdefena = true
  few : regions.length ≤ 8
  first : ∀ index (inside : index < regions.length), unit.regions index = regions[index]
  rest : ∀ index, regions.length ≤ index → index < 8 →
    (unit.regions index).attributes.enable = false

theorem Has.deciding {unit : ProtectionUnit} {regions : List Region} (has : unit.Has regions)
    (address : Nat) :
    unit.deciding address = regions.reverse.find? fun region => region.covers address := by
  obtain ⟨more, eight⟩ := Nat.exists_eq_add_of_le has.few
  have first : (List.range regions.length).map unit.regions = regions := by
    refine List.ext_getElem (by rw [List.length_map, List.length_range]) fun index inside _ => ?_
    rw [List.length_map, List.length_range] at inside
    rw [List.getElem_map, List.getElem_range, has.first index inside]
  have rest : (((List.range more).map (regions.length + ·)).map unit.regions).reverse.find?
    (fun region => region.covers address) = none := by
    refine List.find?_eq_none.mpr fun region member => ?_
    obtain ⟨index, inside, rfl⟩ := List.mem_map.mp (List.mem_reverse.mp member)
    obtain ⟨offset, below, rfl⟩ := List.mem_map.mp inside
    have small := List.mem_range.mp below
    rw [Region.covers, has.rest _ (Nat.le_add_right _ _) (by omega)]
    exact Bool.false_ne_true
  rw [ProtectionUnit.deciding, eight, List.range_add, List.map_append, first, List.reverse_append,
    List.find?_append, rest, Option.none_or]

theorem Has.permits {unit : ProtectionUnit} {regions : List Region} (has : unit.Has regions)
    (privileged : Bool) (access : Access) (address : Nat) :
    unit.permits privileged access address = decides regions privileged access address := by
  rw [ProtectionUnit.permits, if_pos has.enabled, has.deciding, has.background, Bool.and_true]
  rfl

end ProtectionUnit

end PicoOs.Library.Protection
