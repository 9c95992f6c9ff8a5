import Mathlib

/-! Byte-addressed memory of a 32-bit little-endian machine. Addresses and words
are natural numbers; `wrap` and `minus` are the machine's unsigned arithmetic. -/

namespace PicoOs.Library

def wrap (value : Nat) : Nat := value % 2 ^ 32

def minus (left right : Nat) : Nat := (left + 2 ^ 32 - right) % 2 ^ 32

theorem wrap_of_lt {value : Nat} (small : value < 2 ^ 32) : wrap value = value :=
  Nat.mod_eq_of_lt small

theorem minus_of_le {left right : Nat} (small : left < 2 ^ 32) (le : right ≤ left) :
    minus left right = left - right := by
  unfold minus
  omega

structure Area where
  address : Nat
  count : Nat
  deriving DecidableEq

namespace Area

def Inside (area : Area) (start stop : Nat) : Prop :=
  ∀ address, area.address ≤ address → address < area.address + area.count →
    start ≤ address ∧ address < stop

theorem inside_iff {area : Area} {start stop : Nat} (some : 0 < area.count) :
    area.Inside start stop ↔ start ≤ area.address ∧ area.address + area.count ≤ stop := by
  constructor
  · intro inside
    have first := inside area.address (Nat.le_refl _) (by omega)
    have last := inside (area.address + area.count - 1) (by omega) (by omega)
    omega
  · intro bounds address above below
    omega

theorem inside_of_le {area : Area} {start stop : Nat} (above : start ≤ area.address)
    (below : area.address + area.count ≤ stop) : area.Inside start stop := by
  intro address first last
  omega

def Separate (first second : Area) : Prop :=
  first.address + first.count ≤ second.address ∨ second.address + second.count ≤ first.address

/-- Areas that were taken one below the other between two addresses, each on a boundary. -/
def Descends (boundary start : Nat) : List Area → Nat → Prop
  | [], stop => stop ≤ start
  | area :: areas, stop => area.address % boundary = 0 ∧ area.address + area.count ≤ start ∧
      Descends boundary area.address areas stop

namespace Descends
variable {boundary start middle stop : Nat} {areas others : List Area}

theorem le (descends : Descends boundary start areas stop) : stop ≤ start := by
  induction areas generalizing start with
  | nil => exact descends
  | cons area areas ih =>
    have below := ih descends.2.2
    have above := descends.2.1
    omega

theorem append (descends : Descends boundary start areas middle)
    (further : Descends boundary middle others stop) :
    Descends boundary start (areas ++ others) stop := by
  induction areas generalizing start with
  | nil =>
    cases others with
    | nil => exact Nat.le_trans further descends
    | cons area others => exact ⟨further.1, further.2.1.trans descends, further.2.2⟩
  | cons area areas ih => exact ⟨descends.1, descends.2.1, ih descends.2.2⟩

theorem inside (descends : Descends boundary start areas stop) :
    ∀ area ∈ areas, area.address % boundary = 0 ∧ stop ≤ area.address ∧
    area.address + area.count ≤ start := by
  induction areas generalizing start with
  | nil => exact nofun
  | cons area areas ih =>
    obtain ⟨aligned, above, rest⟩ := descends
    intro other member
    rcases List.mem_cons.mp member with rfl | later
    · exact ⟨aligned, le rest, above⟩
    · obtain ⟨even, below, ends⟩ := ih rest other later
      exact ⟨even, below, by omega⟩

theorem separate (descends : Descends boundary start areas stop) : areas.Pairwise Separate := by
  induction areas generalizing start with
  | nil => exact .nil
  | cons area areas ih =>
    obtain ⟨-, -, rest⟩ := descends
    exact .cons (fun other member => Or.inr (inside rest other member).2.2) (ih rest)

end Descends
end Area

abbrev Memory := Nat → UInt8

namespace Memory

def load (memory : Memory) (address : Nat) : Nat :=
  (memory address).toNat + 2 ^ 8 * (memory (address + 1)).toNat +
    2 ^ 16 * (memory (address + 2)).toNat + 2 ^ 24 * (memory (address + 3)).toNat

def store (memory : Memory) (address value : Nat) : Memory := fun other =>
  if other = address then .ofNat value
  else if other = address + 1 then .ofNat (value / 2 ^ 8)
  else if other = address + 2 then .ofNat (value / 2 ^ 16)
  else if other = address + 3 then .ofNat (value / 2 ^ 24)
  else memory other

def write (memory : Memory) (address : Nat) (value : UInt8) : Memory := fun other =>
  if other = address then value else memory other

def copy (memory : Memory) (destination source count : Nat) : Memory := fun other =>
  if destination ≤ other ∧ other < destination + count then memory (source + (other - destination))
  else memory other

def fill (memory : Memory) (destination : Nat) (value : UInt8) (count : Nat) : Memory :=
  fun other =>
  if destination ≤ other ∧ other < destination + count then value else memory other

def window (memory : Memory) (address count : Nat) : List UInt8 :=
  (List.range count).map fun index => memory (address + index)

def Agree (before after : Memory) (start stop : Nat) : Prop :=
  ∀ address, start ≤ address → address < stop → after address = before address

theorem Agree.mono {before after : Memory} {start stop first last : Nat}
    (agree : Agree before after start stop)
    (le : start ≤ first) (ge : last ≤ stop) : Agree before after first last :=
  fun address above below => agree address (Nat.le_trans le above) (Nat.lt_of_lt_of_le below ge)

theorem Agree.trans {before middle after : Memory} {start stop : Nat}
    (first : Agree before middle start stop) (last : Agree middle after start stop) :
    Agree before after start stop :=
  fun address above below => (last address above below).trans (first address above below)

theorem load_lt (memory : Memory) (address : Nat) : memory.load address < 2 ^ 32 := by
  have b0 := (memory address).toNat_lt
  have b1 := (memory (address + 1)).toNat_lt
  have b2 := (memory (address + 2)).toNat_lt
  have b3 := (memory (address + 3)).toNat_lt
  unfold load
  omega

theorem Agree.load {before after : Memory} {start stop address : Nat}
    (agree : Agree before after start stop)
    (above : start ≤ address) (below : address + 4 ≤ stop) :
    after.load address = before.load address := by
  simp only [Memory.load, agree address above (by omega), agree (address + 1) (by omega) (by omega),
    agree (address + 2) (by omega) (by omega), agree (address + 3) (by omega) (by omega)]

theorem load_store_same (memory : Memory) (address value : Nat) :
    (memory.store address value).load address = value % 2 ^ 32 := by
  simp [load, store]
  omega

/-- A store changes no byte outside the word it writes. -/
theorem store_agree (memory : Memory) {address value start stop : Nat}
    (apart : stop ≤ address ∨ address + 4 ≤ start) :
    Agree memory (memory.store address value) start stop := by
  intro other above below
  unfold store
  rw [if_neg (by omega), if_neg (by omega), if_neg (by omega), if_neg (by omega)]

theorem load_store_other (memory : Memory) {address value other : Nat}
    (apart : other + 4 ≤ address ∨ address + 4 ≤ other) :
    (memory.store address value).load other = memory.load other := by
  have agree : Agree memory (memory.store address value) other (other + 4) :=
    memory.store_agree apart
  exact agree.load (Nat.le_refl _) (Nat.le_refl _)

theorem write_agree (memory : Memory) {address start stop : Nat} {value : UInt8}
    (apart : stop ≤ address ∨ address < start) :
    Agree memory (memory.write address value) start stop := by
  intro other above below
  unfold write
  rw [if_neg (by omega)]

theorem copy_agree (memory : Memory) {destination source count start stop : Nat}
    (apart : stop ≤ destination ∨ destination + count ≤ start) :
    Agree memory (memory.copy destination source count) start stop := by
  intro other above below
  unfold copy
  rw [if_neg (by omega)]

theorem fill_agree (memory : Memory) {destination count start stop : Nat} {value : UInt8}
    (apart : stop ≤ destination ∨ destination + count ≤ start) :
    Agree memory (memory.fill destination value count) start stop := by
  intro other above below
  unfold fill
  rw [if_neg (by omega)]

theorem window_length (memory : Memory) (address count : Nat) :
    (memory.window address count).length = count := by
  rw [window, List.length_map, List.length_range]

theorem window_append (memory : Memory) (address first second : Nat) :
    memory.window address (first + second) = memory.window address first ++
      memory.window (address + first) second := by
  rw [window, List.range_add, List.map_append, List.map_map]
  congr 1
  apply List.map_congr_left
  intro index _
  rw [Function.comp, Nat.add_assoc]

theorem Agree.window {before after : Memory} {address count : Nat}
    (agree : Agree before after address (address + count)) :
    after.window address count = before.window address count := by
  apply List.map_congr_left
  intro index member
  exact agree (address + index) (Nat.le_add_right _ _)
    (Nat.add_lt_add_left (List.mem_range.mp member) _)

/-- What was copied is where it was copied to. -/
theorem window_copy (memory : Memory) {destination source count part : Nat}
    (inside : part ≤ count) :
    (memory.copy destination source count).window destination part = memory.window source part := by
  apply List.map_congr_left
  intro index member
  have below := List.mem_range.mp member
  rw [copy, if_pos ⟨Nat.le_add_right _ _, by omega⟩, Nat.add_sub_cancel_left]

theorem window_take (memory : Memory) (address : Nat) {part count : Nat} (inside : part ≤ count) :
    (memory.window address count).take part = memory.window address part := by
  obtain ⟨rest, rfl⟩ := Nat.exists_eq_add_of_le inside
  rw [window_append, List.take_left' (window_length _ _ _)]

theorem window_drop (memory : Memory) (address : Nat) {part count : Nat} (inside : part ≤ count) :
    (memory.window address count).drop part = memory.window (address + part) (count - part) := by
  obtain ⟨rest, rfl⟩ := Nat.exists_eq_add_of_le inside
  rw [window_append, List.drop_left' (window_length _ _ _), Nat.add_sub_cancel_left]

section
variable {memory : Memory} {destination source count : Nat}

theorem window_eq_iff {first second : Memory} {left right : Nat} :
    first.window left count = second.window right count ↔ ∀ index < count, first (left + index) = second (right + index) := by
  rw [window, window, List.map_inj_left]
  exact forall_congr' fun index => by rw [List.mem_range]

/-- Two pieces that are copied one after the other are copied as one, when the first one does
not overwrite the second one. -/
theorem copy_copy {more : Nat}
    (apart : ∀ index < more, ¬(destination ≤ source + count + index ∧
      source + count + index < destination + count)) :
    (memory.copy destination source count).copy (destination + count) (source + count) more =
      memory.copy destination source (count + more) := by
  funext address
  by_cases later : destination + count ≤ address ∧ address < destination + count + more
  · obtain ⟨index, rfl⟩ := Nat.exists_eq_add_of_le later.1
    have kept : memory.copy destination source count (source + count + index) =
      memory (source + count + index) :=
      if_neg (apart index (by omega))
    have whole : source + (destination + count + index - destination) = source + count + index := by
      omega
    rw [copy, if_pos later, Nat.add_sub_cancel_left, kept, copy, if_pos (by omega), whole]
  · rw [copy, if_neg later]
    by_cases earlier : destination ≤ address ∧ address < destination + count
    · rw [copy, if_pos earlier, copy, if_pos (by omega)]
    · rw [copy, if_neg earlier, copy, if_neg (by omega)]

/-- A shorter copy does as much as a longer one when the rest is there already. -/
theorem copy_eq_copy_iff {more : Nat} :
    memory.copy destination source count = memory.copy destination source (count + more) ↔
      memory.window (destination + count) more = memory.window (source + count) more := by
  rw [window_eq_iff]
  constructor
  · intro same index below
    have here := congrFun same (destination + count + index)
    simp only [copy] at here
    rw [if_neg (by omega), if_pos (by omega)] at here
    rw [here]
    congr 1
    omega
  · intro there
    funext address
    unfold copy
    by_cases rest : destination + count ≤ address ∧ address < destination + (count + more)
    · obtain ⟨index, rfl⟩ := Nat.exists_eq_add_of_le rest.1
      rw [if_neg (by omega), if_pos (by omega), there index (by omega)]
      congr 1
      omega
    · by_cases earlier : destination ≤ address ∧ address < destination + count
      · rw [if_pos earlier, if_pos (by omega)]
      · rw [if_neg earlier, if_neg (by omega)]

end

end Memory
end PicoOs.Library
