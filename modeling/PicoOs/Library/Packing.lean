import Mathlib

/-! Pieces that occupy pairwise disjoint sets of cells and together fill a space. -/

namespace PicoOs.Library

variable {α : Type u} {β : Type v} (cells : α → Set β)

def covered (pieces : List α) : Set β := { cell | ∃ piece ∈ pieces, cell ∈ cells piece }

structure Packs (pieces : List α) (space : Set β) : Prop where
  disjoint : pieces.Pairwise (fun left right => Disjoint (cells left) (cells right))
  covers : covered cells pieces = space

variable {cells} {piece : α} {pieces rest parts : List α} {space : Set β}

theorem covered_append (first last : List α) :
    covered cells (first ++ last) = covered cells first ∪ covered cells last := by
  ext cell
  simp only [covered, List.mem_append, Set.mem_ofPred_eq, Set.mem_union]
  constructor
  · rintro ⟨piece, left | right, inside⟩
    · exact .inl ⟨piece, left, inside⟩
    · exact .inr ⟨piece, right, inside⟩
  · rintro (⟨piece, left, inside⟩ | ⟨piece, right, inside⟩)
    · exact ⟨piece, .inl left, inside⟩
    · exact ⟨piece, .inr right, inside⟩

theorem covered_singleton (piece : α) : covered cells [piece] = cells piece := by
  ext cell
  simp [covered]

theorem subset_covered (member : piece ∈ pieces) : cells piece ⊆ covered cells pieces :=
  fun _ inside => ⟨piece, member, inside⟩

namespace Packs

theorem perm (packs : Packs cells pieces space) (same : pieces.Perm rest) :
    Packs cells rest space where
  disjoint := packs.disjoint.perm same (fun apart => apart.symm)
  covers := by
    rw [← packs.covers]
    ext cell
    simp only [covered, same.mem_iff]

theorem subset (packs : Packs cells pieces space) (member : piece ∈ pieces) : cells piece ⊆ space :=
  packs.covers ▸ subset_covered member

/-- A new piece outside of the space. -/
theorem extend (packs : Packs cells rest space) (apart : Disjoint (cells piece) space) :
    Packs cells (piece :: rest) (cells piece ∪ space) where
  disjoint := .cons (fun _ member => apart.mono_right (packs.subset member)) packs.disjoint
  covers := by rw [← List.singleton_append, covered_append, covered_singleton, packs.covers]

/-- A piece can be replaced by parts that pack it. -/
theorem split (packs : Packs cells (piece :: rest) space)
    (divided : Packs cells parts (cells piece)) :
    Packs cells (parts ++ rest) space where
  disjoint := by
    obtain ⟨apart, remaining⟩ := List.pairwise_cons.mp packs.disjoint
    refine List.pairwise_append.mpr ⟨divided.disjoint, remaining, ?_⟩
    exact fun part inside other member => (apart other member).mono_left (divided.subset inside)
  covers := by
    have whole := packs.covers
    rw [← List.singleton_append, covered_append, covered_singleton] at whole
    rw [covered_append, divided.covers, whole]

theorem apart (packs : Packs cells (piece :: rest) space) {other : α} (member : other ∈ rest) :
    Disjoint (cells piece) (cells other) := (List.pairwise_cons.mp packs.disjoint).1 other member

end Packs
end PicoOs.Library
