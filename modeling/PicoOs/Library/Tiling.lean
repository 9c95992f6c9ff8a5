import Mathlib

/-! Pieces that fill an interval of addresses in order, without gap or overlap. -/

namespace PicoOs.Library

variable {α : Type u} (start length : α → Nat)

def Tiles : Nat → List α → Nat → Prop
  | first, [], last => first = last
  | first, piece :: rest, last => start piece = first ∧ Tiles (first + length piece) rest last

/-- The pieces, put in the right order, tile the interval. -/
def Partitions (pieces : List α) (first last : Nat) : Prop :=
  ∃ ordered, ordered.Perm pieces ∧ Tiles start length first ordered last

/-- No two gaps lie side by side. -/
def Maximal (solid : α → Bool) (pieces : List α) : Prop :=
  pieces.IsChain fun left right => solid left = true ∨ solid right = true

namespace Maximal
variable {solid : α → Bool} {left right : List α} {piece : α}

/-- A gap only has solid pieces beside it. -/
theorem beside (maximal : Maximal solid (left ++ piece :: right)) (gap : solid piece = false) :
    Maximal solid left ∧ Maximal solid right ∧ (∀ other ∈ left.getLast?, solid other = true) ∧
      ∀ other ∈ right.head?, solid other = true := by
  obtain ⟨before, behind, joint⟩ := List.isChain_append.mp maximal
  refine ⟨before, behind.tail, fun other last => ?_, fun other first => ?_⟩
  · exact (joint other last piece rfl).resolve_right (by rw [gap]; nofun)
  · obtain ⟨rest, rfl⟩ := List.head?_eq_some_iff.mp first
    exact (List.isChain_cons_cons.mp behind).1.resolve_left (by rw [gap]; nofun)

theorem around (before : Maximal solid left) (behind : Maximal solid right)
    (below : ∀ other ∈ left.getLast?, solid other = true)
    (above : ∀ other ∈ right.head?, solid other = true) :
    Maximal solid (left ++ [piece] ++ right) := by
  have front : Maximal solid (left ++ [piece]) := by
    refine List.IsChain.append before (.singleton piece) fun other last first single => ?_
    exact Or.inl (below other last)
  refine List.IsChain.append front behind fun other last first starts => ?_
  exact Or.inr (above first starts)

end Maximal

namespace Tiles
variable {start length}

theorem append {left right : List α} {first last : Nat} :
    Tiles start length first (left ++ right) last ↔
      ∃ middle, Tiles start length first left middle ∧ Tiles start length middle right last := by
  induction left generalizing first with
  | nil => simp [Tiles]
  | cons piece rest ih =>
    simp only [List.cons_append, Tiles, ih]
    constructor
    · rintro ⟨same, middle, before, after⟩
      exact ⟨middle, ⟨same, before⟩, after⟩
    · rintro ⟨middle, ⟨same, before⟩, after⟩
      exact ⟨same, middle, before, after⟩

theorem le {pieces : List α} {first last : Nat} (tiles : Tiles start length first pieces last) :
    first ≤ last := by
  induction pieces generalizing first with
  | nil => exact Nat.le_of_eq tiles
  | cons piece rest ih => exact Nat.le_trans (Nat.le_add_right _ _) (ih tiles.2)

theorem bounds {pieces : List α} {first last : Nat} (tiles : Tiles start length first pieces last) :
    ∀ piece ∈ pieces, first ≤ start piece ∧ start piece + length piece ≤ last := by
  induction pieces generalizing first with
  | nil => simp
  | cons piece rest ih =>
    intro other member
    obtain ⟨same, remaining⟩ := tiles
    rcases List.mem_cons.mp member with rfl | member
    · exact ⟨Nat.le_of_eq same.symm, same ▸ remaining.le⟩
    · exact ⟨Nat.le_trans (Nat.le_add_right _ _) (ih remaining other member).1,
        (ih remaining other member).2⟩

/-- Earlier pieces end before later pieces start. -/
theorem ordered {pieces : List α} {first last : Nat}
    (tiles : Tiles start length first pieces last) :
    pieces.Pairwise (fun left right => start left + length left ≤ start right) := by
  induction pieces generalizing first with
  | nil => exact .nil
  | cons piece rest ih =>
    refine .cons ?_ (ih tiles.2)
    intro other member
    rw [tiles.1]
    exact (tiles.2.bounds other member).1

/-- The pieces cover the interval and nothing else. -/
theorem covers {pieces : List α} {first last address : Nat}
    (tiles : Tiles start length first pieces last) :
    (∃ piece ∈ pieces, start piece ≤ address ∧ address < start piece + length piece) ↔
    first ≤ address ∧ address < last := by
  constructor
  · rintro ⟨piece, member, above, below⟩
    have bounds := tiles.bounds piece member
    omega
  · rintro ⟨above, below⟩
    induction pieces generalizing first with
    | nil =>
      have same : first = last := tiles
      omega
    | cons piece rest ih =>
      by_cases inside : address < first + length piece
      · exact ⟨piece, List.mem_cons_self, by rw [tiles.1]; exact ⟨above, inside⟩⟩
      · obtain ⟨other, member, within⟩ := ih tiles.2 (Nat.le_of_not_lt inside)
        exact ⟨other, List.mem_cons_of_mem _ member, within⟩

/-- A tiling by pieces that are only named by other pieces of the same start and length. -/
theorem map {β : Type v} {name : α → β} {otherStart otherLength : β → Nat} {pieces : List α}
    {first last : Nat}
    (starts : ∀ piece ∈ pieces, otherStart (name piece) = start piece)
    (lengths : ∀ piece ∈ pieces, otherLength (name piece) = length piece)
    (tiles : Tiles start length first pieces last) :
    Tiles otherStart otherLength first (pieces.map name) last := by
  induction pieces generalizing first with
  | nil => exact tiles
  | cons piece rest ih =>
    refine ⟨(starts piece (by simp)).trans tiles.1, ?_⟩
    rw [lengths piece (by simp)]
    exact ih (fun other member => starts other (by simp [member])) (fun other member => lengths other (by simp [member]))
      tiles.2

variable {solid : α → Bool} {first last : Nat} {left right : α} {rest others : List α}

/-- A gap at the start of a tiling reaches as far as a gap there in any other tiling with the same
solid pieces. -/
theorem gap_le (tiles : Tiles start length first (left :: rest) last)
    (also : Tiles start length first (right :: others) last)
    (maximal : Maximal solid (left :: rest)) (gap : solid left = false)
    (also_gap : solid right = false)
    (shared : ∀ piece ∈ rest, solid piece = true → piece ∈ right :: others) :
    length right ≤ length left := by
  obtain ⟨-, remaining⟩ := tiles
  obtain ⟨-, beyond⟩ := also
  cases rest with
  | nil =>
    have stops : first + length left = last := remaining
    have fits := beyond.le
    omega
  | cons next rest =>
    have follows : solid left = true ∨ solid next = true := (List.isChain_cons_cons.mp maximal).1
    have filled : solid next = true := follows.resolve_left (by rw [gap]; nofun)
    have begins : start next = first + length left := remaining.1
    obtain same | member := List.mem_cons.mp (shared next List.mem_cons_self filled)
    · rw [same, also_gap] at filled
      cases filled
    · have above := (beyond.bounds next member).1
      omega

/-- The solid pieces determine where the gaps are. -/
theorem maximal_unique (positive : ∀ piece, 0 < length piece)
    (gaps : ∀ left right, solid left = false → solid right = false → start left = start right →
      length left = length right →
      left = right)
    {pieces others : List α} (tiles : Tiles start length first pieces last)
    (also : Tiles start length first others last)
    (maximal : Maximal solid pieces) (also_maximal : Maximal solid others)
    (same : ∀ piece, solid piece = true → (piece ∈ pieces ↔ piece ∈ others)) : pieces = others := by
  induction pieces generalizing first others with
  | nil =>
    cases others with
    | nil => rfl
    | cons right others =>
      have stops : first = last := tiles
      have fits := also.2.le
      have filled := positive right
      omega
  | cons left rest ih =>
    cases others with
    | nil =>
      have stops : first = last := also
      have fits := tiles.2.le
      have filled := positive left
      omega
    | cons right others =>
      have start_left : start left = first := tiles.1
      have start_right : start right = first := also.1
      have later {piece : α} (member : piece ∈ others) : first < start piece := by
        have above := (also.2.bounds piece member).1
        have filled := positive right
        omega
      have behind {piece : α} (member : piece ∈ rest) : first < start piece := by
        have above := (tiles.2.bounds piece member).1
        have filled := positive left
        omega
      have equal : left = right := by
        cases solid_left : solid left with
        | true =>
          have member := (same left solid_left).mp List.mem_cons_self
          exact (List.mem_cons.mp member).resolve_right fun inside => by have := later inside; omega
        | false =>
          cases solid_right : solid right with
          | true =>
            have member := (same right solid_right).mpr List.mem_cons_self
            exact ((List.mem_cons.mp member).resolve_right fun inside => by have := behind inside; omega).symm
          | false =>
            have shorter := gap_le tiles also maximal solid_left solid_right fun piece
              member filled =>
              (same piece filled).mp (List.mem_cons_of_mem _ member)
            have longer := gap_le also tiles also_maximal solid_right solid_left fun piece
              member filled =>
              (same piece filled).mpr (List.mem_cons_of_mem _ member)
            exact gaps left right solid_left solid_right (start_left.trans start_right.symm)
              (Nat.le_antisymm longer shorter)
      subst equal
      congr 1
      refine ih tiles.2 also.2 maximal.tail also_maximal.tail fun piece filled =>
        ⟨fun member => ?_, fun member => ?_⟩
      · have shared := (same piece filled).mp (List.mem_cons_of_mem _ member)
        refine (List.mem_cons.mp shared).resolve_left fun equal => ?_
        have above := behind member
        rw [equal, start_left] at above
        exact Nat.lt_irrefl _ above
      · have shared := (same piece filled).mpr (List.mem_cons_of_mem _ member)
        refine (List.mem_cons.mp shared).resolve_left fun equal => ?_
        have above := later member
        rw [equal, start_left] at above
        exact Nat.lt_irrefl _ above

end Tiles
end PicoOs.Library
