import Mathlib

/-! Singly linked lists given by a successor function. A segment is a stretch of
such a list from its head up to, but not including, a stopping node. -/

namespace PicoOs.Library

variable {α : Type u}

/-- Following `next` from `head` visits `nodes` and then arrives at `stop`. -/
def Segment (next : α → α) : α → List α → α → Prop
  | head, [], stop => head = stop
  | head, node :: rest, stop => head = node ∧ Segment next (next node) rest stop

namespace Segment
variable {next after : α → α} {head stop : α}

theorem append {first last : List α} :
    Segment next head (first ++ last) stop ↔
      ∃ middle, Segment next head first middle ∧ Segment next middle last stop := by
  induction first generalizing head with
  | nil => simp [Segment]
  | cons node rest ih =>
    simp only [List.cons_append, Segment, ih]
    constructor
    · rintro ⟨same, middle, left, right⟩
      exact ⟨middle, ⟨same, left⟩, right⟩
    · rintro ⟨middle, ⟨same, left⟩, right⟩
      exact ⟨same, middle, left, right⟩

/-- Only the links of the visited nodes matter. -/
theorem congr {nodes : List α} (same : ∀ node ∈ nodes, after node = next node)
    (linked : Segment next head nodes stop) : Segment after head nodes stop := by
  induction nodes generalizing head with
  | nil => exact linked
  | cons node rest ih =>
    refine ⟨linked.1, ?_⟩
    rw [same node (by simp)]
    exact ih (fun other member => same other (by simp [member])) linked.2

/-- Rewriting the link of the last node moves the end of the segment. -/
theorem redirect {nodes : List α} {last target : α}
    (linked : Segment next head (nodes ++ [last]) stop)
    (same : ∀ node ∈ nodes, after node = next node) (moved : after last = target) :
    Segment after head (nodes ++ [last]) target := by
  obtain ⟨middle, before, rfl, _⟩ := append.mp linked
  exact append.mpr ⟨middle, before.congr same, rfl, moved⟩

end Segment
end PicoOs.Library
