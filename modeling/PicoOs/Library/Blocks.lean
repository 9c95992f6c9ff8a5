import Mathlib

/-! Files that are made of blocks, one behind the other, and strings in them that end with a
zero byte. Whoever knows where a block starts reads it back. -/

namespace PicoOs.Library

def excerpt {α : Type u} (file : List α) (offset size : Nat) : List α :=
  (file.drop offset).take size

def blockStart {α : Type u} (blocks : List (List α)) (index : Nat) : Nat :=
  ((blocks.take index).map List.length).sum

section
variable {α : Type u} {first last file block : List α} {blocks more : List (List α)}
  {index other offset size : Nat}

theorem excerpt_append_left (first last : List α) (inside : offset + size ≤ first.length) :
    excerpt (first ++ last) offset size = excerpt first offset size := by
  have here : size ≤ (first.drop offset).length := by rw [List.length_drop]; omega
  rw [excerpt, excerpt, List.drop_append_of_le_length (by omega), List.take_append_of_le_length here]

theorem excerpt_append_right (first last : List α) :
    excerpt (first ++ last) (first.length + offset) size = excerpt last offset size := by
  rw [excerpt, excerpt, ← List.drop_drop, List.drop_left]

/-- A part of a part. -/
theorem excerpt_excerpt {start length : Nat} (inside : offset + size ≤ length) :
    excerpt (excerpt file start length) offset size = excerpt file (start + offset) size := by
  rw [excerpt, excerpt, excerpt, List.drop_take, List.take_take, List.drop_drop,
    Nat.min_eq_left (by omega)]

theorem blockStart_zero (blocks : List (List α)) : blockStart blocks 0 = 0 := rfl

theorem blockStart_append (inside : index ≤ blocks.length) (more : List (List α)) :
    blockStart (blocks ++ more) index = blockStart blocks index := by
  rw [blockStart, blockStart, List.take_append_of_le_length inside]

theorem blockStart_length (blocks : List (List α)) :
    blockStart blocks blocks.length = blocks.flatten.length := by
  rw [blockStart, List.take_length, List.length_flatten]

theorem blockStart_end (blocks more : List (List α)) :
    blockStart (blocks ++ more) blocks.length = blocks.flatten.length := by
  rw [blockStart_append (Nat.le_refl _), blockStart_length]

theorem blockStart_succ (there : blocks[index]? = some block) :
    blockStart blocks (index + 1) = blockStart blocks index + block.length := by
  rw [blockStart, List.take_add_one, there]
  simp [blockStart]

theorem blockStart_mono (le : index ≤ other) :
    blockStart blocks index ≤ blockStart blocks other := by
  obtain ⟨further, rfl⟩ := Nat.exists_eq_add_of_le le
  rw [blockStart, blockStart, List.take_add, List.map_append, List.sum_append]
  exact Nat.le_add_right _ _

/-- A block ends where the next one starts, or before a later one. -/
theorem block_before (there : blocks[index]? = some block) (less : index < other) :
    blockStart blocks index + block.length ≤ blockStart blocks other :=
  blockStart_succ there ▸ blockStart_mono less

theorem blockStart_uniform (uniform : ∀ block ∈ blocks, block.length = size)
    (inside : index ≤ blocks.length) :
    blockStart blocks index = index * size := by
  induction index with
  | zero => simp [blockStart]
  | succ index ih =>
    have there : blocks[index]? = some blocks[index] := List.getElem?_eq_getElem inside
    rw [blockStart_succ there, ih (Nat.le_of_succ_le inside),
      uniform _ (List.getElem_mem inside), Nat.succ_mul]

theorem drop_blockStart (blocks : List (List α)) (index : Nat) :
    blocks.flatten.drop (blockStart blocks index) = (blocks.drop index).flatten := by
  induction index generalizing blocks with
  | zero => rfl
  | succ index ih =>
    cases blocks with
    | nil => rfl
    | cons block blocks =>
      have start : blockStart (block :: blocks) (index + 1) = block.length +
        blockStart blocks index := by
        simp [blockStart]
      rw [start, List.flatten_cons, ← List.drop_drop, List.drop_left, ih]
      rfl

/-- The block that starts at an offset is what is read there. -/
theorem excerpt_block (there : blocks[index]? = some block) :
    excerpt blocks.flatten (blockStart blocks index) block.length = block := by
  obtain ⟨inside, same⟩ := List.getElem?_eq_some_iff.mp there
  rw [excerpt, drop_blockStart, List.drop_eq_getElem_cons inside, same, List.flatten_cons,
    List.take_left]

end

/-- What is written when blocks that have keys are written. -/
def contents {κ : Type v} {α : Type u} (blocks : List (κ × List α)) : List α :=
  (blocks.map Prod.snd).flatten

section
variable {κ : Type v} {α : Type u}

@[simp] theorem contents_cons (first : κ × List α) (blocks : List (κ × List α)) :
    contents (first :: blocks) = first.2 ++ contents blocks := rfl

theorem contents_append (blocks more : List (κ × List α)) :
    contents (blocks ++ more) = contents blocks ++ contents more := by
  rw [contents, List.map_append, List.flatten_append]
  rfl

end

/-- Where the block of a key is, when blocks are written from an offset on, and how long it is. -/
def placement {κ : Type v} {α : Type u} [DecidableEq κ] :
    Nat → List (κ × List α) → κ → Option (Nat × Nat)
  | _, [], _ => none
  | offset, (key, block) :: blocks, wanted =>
    if key = wanted then some (offset, block.length)
    else placement (offset + block.length) blocks wanted

section
variable {κ : Type v} {α : Type u} [DecidableEq κ] {offset start size : Nat}
  {blocks : List (κ × List α)} {key other : κ} {block : List α}

theorem placement_missing (missing : key ∉ blocks.map Prod.fst) (offset : Nat) :
    placement offset blocks key = none := by
  induction blocks generalizing offset with
  | nil => rfl
  | cons first blocks ih =>
    obtain ⟨same, later⟩ := not_or.mp (fun member => missing (List.mem_cons.mpr member))
    rw [placement, if_neg fun equal => same equal.symm]
    exact ih later _

/-- A block that is written behind the others does not move them. -/
theorem placement_concat (different : other ≠ key) (offset : Nat) (block : List α) :
    placement offset (blocks ++ [(key, block)]) other = placement offset blocks other := by
  induction blocks generalizing offset with
  | nil => simp only [List.nil_append, placement, if_neg different.symm]
  | cons first blocks ih =>
    rw [List.cons_append, placement, placement]
    split
    next => rfl
    next => exact ih _

theorem placement_last (missing : key ∉ blocks.map Prod.fst) (offset : Nat) (block : List α) :
    placement offset (blocks ++ [(key, block)]) key =
      some (offset + (contents blocks).length, block.length) := by
  induction blocks generalizing offset with
  | nil => rw [List.nil_append, placement, if_pos rfl]; rfl
  | cons first blocks ih =>
    obtain ⟨same, later⟩ := not_or.mp (fun member => missing (List.mem_cons.mpr member))
    rw [List.cons_append, placement, if_neg fun equal => same equal.symm, ih later, contents_cons,
      List.length_append, Nat.add_assoc]

/-- What is read from the place of a block. -/
theorem placement_read (distinct : (blocks.map Prod.fst).Nodup) (member : (key, block) ∈ blocks)
    (offset : Nat) :
    ∃ start, placement offset blocks key = some (offset + start, block.length) ∧
    start + block.length ≤ (contents blocks).length ∧
      excerpt (contents blocks) start block.length = block := by
  induction blocks generalizing offset with
  | nil => cases member
  | cons first blocks ih =>
    obtain ⟨head, rest⟩ := List.nodup_cons.mp distinct
    obtain rfl | later := List.mem_cons.mp member
    · refine ⟨0, by rw [placement, if_pos rfl, Nat.add_zero], ?_, ?_⟩
      · rw [contents_cons, List.length_append, Nat.zero_add]
        exact Nat.le_add_right _ _
      · rw [contents_cons, excerpt_append_left _ _ (Nat.zero_add _).le, excerpt, List.drop_zero,
          List.take_length]
    · have different : first.1 ≠ key := fun same => head (same ▸ List.mem_map_of_mem later)
      obtain ⟨start, placed, inside, read⟩ := ih rest later (offset + first.2.length)
      refine ⟨first.2.length + start,
        by rw [placement, if_neg different, placed, Nat.add_assoc], ?_, ?_⟩
      · rw [contents_cons, List.length_append]
        omega
      · rw [contents_cons, excerpt_append_right, read]

/-- No place is outside of what is written. -/
theorem placement_inside (placed : placement offset blocks key = some (start, size)) :
    offset ≤ start ∧ start + size ≤ offset + (contents blocks).length := by
  induction blocks generalizing offset with
  | nil => cases placed
  | cons first blocks ih =>
    rw [placement] at placed
    rw [contents_cons, List.length_append]
    split at placed
    next =>
      cases Option.some.inj placed
      omega
    next =>
      obtain ⟨above, below⟩ := ih placed
      omega

/-- The places of two keys have no position in common. -/
theorem placement_apart {first last : Nat × Nat} (placed : placement offset blocks key = some first)
    (placedOther : placement offset blocks other = some last) {position : Nat}
    (here : first.1 ≤ position ∧ position < first.1 + first.2)
    (there : last.1 ≤ position ∧ position < last.1 + last.2) : key = other := by
  induction blocks generalizing offset with
  | nil => cases placed
  | cons block blocks ih =>
    rw [placement] at placed placedOther
    split at placed
    next same =>
      cases Option.some.inj placed
      split at placedOther
      next sameOther => exact same.symm.trans sameOther
      next =>
        have inside := (placement_inside placedOther).1
        omega
    next =>
      split at placedOther
      next =>
        cases Option.some.inj placedOther
        have inside := (placement_inside placed).1
        omega
      next => exact ih placed placedOther

end

def terminated (name : List UInt8) : List UInt8 := name ++ [0]

/-- The string at an offset, if it comes to its end. -/
def readString (file : List UInt8) (offset : Nat) : Option (List UInt8) :=
  if 0 ∈ file.drop offset then some ((file.drop offset).takeWhile (· ≠ 0)) else none

variable {file rest name : List UInt8} {names : List (List UInt8)} {index offset : Nat}

theorem takeWhile_terminated (free : 0 ∉ name) (rest : List UInt8) :
    (name ++ 0 :: rest).takeWhile (· ≠ 0) = name := by
  have all : ∀ byte ∈ name, decide (byte ≠ 0) = true :=
    fun byte member => decide_eq_true fun zero => free (zero ▸ member)
  rw [List.takeWhile_append_of_pos all, List.takeWhile_cons_of_neg (by simp), List.append_nil]

/-- What is read never contains the byte that ends it. -/
theorem readString_free (read : readString file offset = some name) : 0 ∉ name := by
  unfold readString at read
  split at read
  next =>
    cases Option.some.inj read
    intro zero
    have nonzero := List.mem_takeWhile_imp zero
    exact absurd nonzero (by decide)
  next => cases read

theorem readString_of_drop (behind : file.drop offset = name ++ 0 :: rest) (free : 0 ∉ name) :
    readString file offset = some name := by
  rw [readString, behind, if_pos (by simp), takeWhile_terminated free]

theorem readString_block (there : names[index]? = some name) (free : 0 ∉ name) :
    readString (names.map terminated).flatten (blockStart (names.map terminated) index) =
      some name := by
  obtain ⟨inside, same⟩ := List.getElem?_eq_some_iff.mp there
  have behind : (names.map terminated).flatten.drop (blockStart (names.map terminated) index) =
      name ++ 0 :: ((names.drop (index + 1)).map terminated).flatten := by
    rw [drop_blockStart, ← List.map_drop, List.drop_eq_getElem_cons inside, same, List.map_cons,
      List.flatten_cons, terminated,
      List.append_assoc]
    rfl
  exact readString_of_drop behind free

end PicoOs.Library
