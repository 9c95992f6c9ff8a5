import PicoOs.Library.Blocks

/-! Texts as lines that end with a terminator, and the rest behind the last one. A
line starts where the lines before it end. -/

namespace PicoOs.Library

variable {α : Type u} [DecidableEq α] {stop : α} {text : List α}

def lines (stop : α) : List α → List (List α)
  | [] => []
  | symbol :: rest =>
    if symbol = stop then [symbol] :: lines stop rest
    else
      match lines stop rest with
      | [] => []
      | line :: more => (symbol :: line) :: more

/-- What follows the last terminator. -/
def unfinished (stop : α) (text : List α) : List α := text.drop (lines stop text).flatten.length

/-- The offset behind a number of terminators. -/
def behind (stop : α) : List α → Nat → Option Nat
  | _, 0 => some 0
  | [], _ + 1 => none
  | symbol :: rest, count + 1 =>
      (behind stop rest (if symbol = stop then count else count + 1)).map (· + 1)

theorem lines_isPrefix (stop : α) (text : List α) : (lines stop text).flatten <+: text := by
  induction text with
  | nil => exact List.prefix_refl []
  | cons symbol rest ih =>
    rw [lines]
    split
    · exact (List.prefix_cons_inj symbol).mpr ih
    · split
      next => exact List.nil_prefix
      next line more shape =>
        rw [shape] at ih
        exact (List.prefix_cons_inj symbol).mpr ih

theorem lines_unfinished (stop : α) (text : List α) :
    (lines stop text).flatten ++ unfinished stop text = text :=
  List.prefix_iff_eq_append.mp (lines_isPrefix stop text)

/-- What stands before a line, and from there on. -/
theorem lines_split (stop : α) (text : List α) (count : Nat) :
    text.take (blockStart (lines stop text) count) = ((lines stop text).take count).flatten ∧
      text.drop (blockStart (lines stop text) count) = ((lines stop text).drop count).flatten ++
        unfinished stop text := by
  have whole : text = ((lines stop text).take count).flatten ++
    (((lines stop text).drop count).flatten ++ unfinished stop text) := by
    rw [← List.append_assoc, ← List.flatten_append, List.take_append_drop, lines_unfinished]
  have start : blockStart (lines stop text) count = ((lines stop text).take count).flatten.length :=
    List.length_flatten.symm
  generalize ((lines stop text).take count).flatten = first at whole start
  generalize ((lines stop text).drop count).flatten ++ unfinished stop text = last at whole
  rw [start, whole]
  exact ⟨List.take_left, List.drop_left⟩

/-- Every line has its terminator and no other one. -/
theorem line_count {line : List α} (member : line ∈ lines stop text) : line.count stop = 1 := by
  induction text generalizing line with
  | nil => cases member
  | cons symbol rest ih =>
    rw [lines] at member
    split at member
    next same =>
      rcases List.mem_cons.mp member with rfl | later
      · rw [same, List.count_singleton_self]
      · exact ih later
    next other =>
      split at member
      next => cases member
      next first more shape =>
        rcases List.mem_cons.mp member with rfl | later
        · rw [List.count_cons_of_ne other]
          exact ih (shape ▸ List.mem_cons_self)
        · exact ih (shape ▸ List.mem_cons_of_mem _ later)

theorem lines_length (stop : α) (text : List α) : (lines stop text).length = text.count stop := by
  induction text with
  | nil => rfl
  | cons symbol rest ih =>
    rw [lines]
    split
    next same => rw [same, List.count_cons_self, List.length_cons, ih]
    next other =>
      rw [List.count_cons_of_ne other, ← ih]
      split
      next shape => rw [shape]
      next line more shape =>
        rw [shape]
        rfl

theorem count_flatten {parts : List (List α)} (single : ∀ line ∈ parts, line.count stop = 1) :
    parts.flatten.count stop = parts.length := by
  induction parts with
  | nil => rfl
  | cons line more ih =>
    rw [List.flatten_cons, List.count_append, single line List.mem_cons_self, List.length_cons,
      ih fun other member => single other (List.mem_cons_of_mem _ member)]
    omega

/-- The offset behind some terminators is where the next line starts. -/
theorem behind_eq (stop : α) (text : List α) (count : Nat) :
    behind stop text count =
      if count ≤ (lines stop text).length then some (blockStart (lines stop text) count) else none := by
  have start (line : List α) (more : List (List α)) (count : Nat) :
      blockStart (line :: more) (count + 1) = line.length + blockStart more count := by
    simp [blockStart]
  induction text generalizing count with
  | nil => cases count <;> rfl
  | cons symbol rest ih =>
    cases count with
    | zero => simp [behind, blockStart_zero]
    | succ count =>
      rw [behind, lines]
      split
      next same =>
        rw [ih, List.length_cons]
        by_cases enough : count ≤ (lines stop rest).length
        · rw [if_pos enough, if_pos (Nat.succ_le_succ enough), start, Option.map_some,
            List.length_singleton, Nat.add_comm]
        · rw [if_neg enough, if_neg (fun more => enough (Nat.le_of_succ_le_succ more))]
          rfl
      next other =>
        rw [ih]
        cases shape : lines stop rest with
        | nil => rfl
        | cons line more =>
          simp only [List.length_cons]
          by_cases enough : count + 1 ≤ more.length + 1
          · rw [if_pos enough, if_pos enough, start, start, Option.map_some, List.length_cons]
            congr 1
            omega
          · rw [if_neg enough, if_neg enough]
            rfl

end PicoOs.Library
