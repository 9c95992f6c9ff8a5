import Mathlib

/-! The tokens of a list: its longest parts without delimiters. A token is known by where it
starts, and a scan from the left meets the starts in order. -/

namespace PicoOs.Library
variable {α : Type u} (delimiter : α → Bool) (list : List α)

/-- A place that is no delimiter, at the start of the list or behind a delimiter. -/
def startsToken (place : Nat) : Bool :=
  (list[place]?.any fun item => !delimiter item) && (place == 0 || list[place - 1]?.any delimiter)

/-- The starts from a place on. -/
def tokenStarts (place : Nat) : List Nat :=
  (List.range' place (list.length - place)).filter (startsToken delimiter list)

/-- The token that starts at a place. -/
def tokenAt (place : Nat) : List α := (list.drop place).takeWhile fun item => !delimiter item

/-- A place where a scan may go on: no token lies around it. -/
def Between (place : Nat) : Prop :=
  place = 0 ∨ list.length ≤ place ∨ (list[place - 1]?.any delimiter) = true

variable {delimiter list} {place stop : Nat} {item before : α}

theorem tokenStarts_end (beyond : list.length ≤ place) : tokenStarts delimiter list place = [] := by
  rw [tokenStarts, Nat.sub_eq_zero_of_le beyond]
  rfl

theorem tokenStarts_cons (there : list[place]? = some item) :
    tokenStarts delimiter list place =
      if startsToken delimiter list place then place :: tokenStarts delimiter list (place + 1) else tokenStarts delimiter list (place + 1) := by
  obtain ⟨inside, _⟩ := List.getElem?_eq_some_iff.mp there
  obtain ⟨rest, length⟩ := Nat.exists_eq_add_of_lt inside
  have more : list.length - place = (list.length - (place + 1)) + 1 := by omega
  rw [tokenStarts, more, List.range'_succ, List.filter_cons]
  rfl

theorem tokenStarts_delimiter (there : list[place]? = some item)
    (delimits : delimiter item = true) :
    tokenStarts delimiter list place = tokenStarts delimiter list (place + 1) := by
  rw [tokenStarts_cons there, if_neg]
  simp [startsToken, there, delimits]

theorem tokenStarts_inside (there : list[place + 1]? = some item)
    (left : list[place]? = some before)
    (free : delimiter before = false) :
    tokenStarts delimiter list (place + 1) = tokenStarts delimiter list (place + 2) := by
  rw [tokenStarts_cons there, if_neg]
  simp [startsToken, left, free]

theorem tokenStarts_start (there : list[place]? = some item) (free : delimiter item = false)
    (between : Between delimiter list place) :
    tokenStarts delimiter list place = place :: tokenStarts delimiter list (place + 1) := by
  rw [tokenStarts_cons there, if_pos]
  obtain ⟨inside, _⟩ := List.getElem?_eq_some_iff.mp there
  rcases between with rfl | beyond | behind
  · simp [startsToken, there, free]
  · exact absurd inside (Nat.not_lt_of_le beyond)
  · simp [startsToken, there, free, behind]

theorem between_behind (there : list[place]? = some item) (delimits : delimiter item = true) :
    Between delimiter list (place + 1) := by
  refine .inr (.inr ?_)
  rw [Nat.add_sub_cancel, there]
  exact delimits

theorem mem_tokenStarts {start : Nat} :
    start ∈ tokenStarts delimiter list place ↔
    place ≤ start ∧ startsToken delimiter list start = true := by
  rw [tokenStarts, List.mem_filter, List.mem_range'_1]
  constructor
  · exact fun ⟨⟨above, _⟩, starts⟩ => ⟨above, starts⟩
  · intro ⟨above, starts⟩
    refine ⟨⟨above, ?_⟩, starts⟩
    have inside : start < list.length := by
      by_contra beyond
      rw [startsToken, List.getElem?_eq_none (Nat.le_of_not_lt beyond)] at starts
      cases starts
    omega

/-- No token starts inside of another one. -/
theorem tokenStarts_free {count : Nat}
    (free : ∀ index < count + 1, ∃ item, list[place + index]? = some item ∧
      delimiter item = false) :
    tokenStarts delimiter list (place + 1) = tokenStarts delimiter list (place + count + 1) := by
  induction count with
  | zero => rfl
  | succ count ih =>
    obtain ⟨before, left, unmarked⟩ := free count (Nat.lt_succ_of_lt (Nat.lt_succ_self _))
    obtain ⟨item, there, _⟩ := free (count + 1) (Nat.lt_succ_self _)
    rw [ih fun index below => free index (Nat.lt_succ_of_lt below)]
    exact tokenStarts_inside there left unmarked

/-- What is left of a list has the tokens that are left. -/
theorem tokenStarts_drop (between : Between delimiter list place) :
    (tokenStarts delimiter (list.drop place) 0).map (place + ·) =
      tokenStarts delimiter list place := by
  have shift : List.range' place (list.length - place) =
    (List.range' 0 (list.length - place)).map (place + ·) := by
    rw [List.map_add_range', Nat.add_zero]
  rw [tokenStarts, tokenStarts, List.length_drop, Nat.sub_zero, shift, List.filter_map]
  congr 1
  apply List.filter_congr
  intro index _
  rw [Function.comp, startsToken, startsToken, List.getElem?_drop, List.getElem?_drop]
  cases index with
  | zero =>
    rcases between with rfl | beyond | behind
    · rfl
    · rw [List.getElem?_eq_none (show list.length ≤ place + 0 from beyond)]
      rfl
    · simp [behind]
  | succ index => simp [← Nat.add_assoc]

theorem tokenAt_length_pos (starts : startsToken delimiter list place = true) :
    0 < (tokenAt delimiter list place).length := by
  rw [startsToken, Bool.and_eq_true] at starts
  obtain ⟨item, there, free⟩ := (Option.any_eq_true _ _).mp starts.1
  obtain ⟨inside, rfl⟩ := List.getElem?_eq_some_iff.mp there
  rw [tokenAt, List.drop_eq_getElem_cons inside,
    @List.takeWhile_cons_of_pos _ (fun item => !delimiter item) _ _ free]
  exact Nat.succ_pos _

/-- A token reaches up to the first delimiter behind its start, or to the end. -/
theorem tokenAt_eq {count : Nat}
    (free : ∀ index < count, ∃ item, list[place + index]? = some item ∧ delimiter item = false)
    (ends : list.length ≤ place + count ∨ ∃ item, list[place + count]? = some item ∧
      delimiter item = true) :
    tokenAt delimiter list place = (list.drop place).take count := by
  induction count generalizing place with
  | zero =>
    rw [List.take_zero, tokenAt]
    rw [Nat.add_zero] at ends
    rcases ends with beyond | ⟨item, there, delimits⟩
    · rw [List.drop_eq_nil_of_le beyond]
      rfl
    · obtain ⟨inside, same⟩ := List.getElem?_eq_some_iff.mp there
      rw [List.drop_eq_getElem_cons inside, List.takeWhile_cons_of_neg]
      rw [same, delimits]
      decide
  | succ count ih =>
    obtain ⟨item, there, holds⟩ := free 0 (Nat.succ_pos _)
    rw [Nat.add_zero] at there
    obtain ⟨inside, same⟩ := List.getElem?_eq_some_iff.mp there
    have rest : tokenAt delimiter list (place + 1) = (list.drop (place + 1)).take count := by
      apply ih
      · intro index below
        obtain ⟨other, further, unmarked⟩ := free (index + 1) (Nat.succ_lt_succ below)
        exact ⟨other, by rw [← further, Nat.add_assoc, Nat.add_comm 1], unmarked⟩
      · rwa [Nat.add_assoc, Nat.add_comm 1]
    rw [tokenAt] at rest ⊢
    rw [List.drop_eq_getElem_cons inside, List.take_succ_cons, List.takeWhile_cons_of_pos, rest]
    rw [same, holds]
    rfl

end PicoOs.Library
