import PicoOs.Library.Tokens
import PicoOs.Userland.Strings

/-! What `strtok_r` returns. Each call takes the next start of a token, ends the token in
memory and leaves what is behind it as it was. -/

namespace PicoOs.Userland
open Library

def delimits (delims : CString) (item : UInt8) : Bool := decide (item ∈ delims.bytes)

def Spans (address : Nat) (string : CString) (other : Nat) : Prop :=
  address ≤ other ∧ other < address + string.length + 1

section
variable {store : Store} {str delim place begin : Nat} {string delims : CString} {ch : UInt8}

private theorem strchrFrom_spec {bytes : List UInt8} {rounds : Nat} (clean : 0 ∉ bytes)
    (holds : store.memory.HoldsBytes str (bytes ++ [0]))
    (enough : bytes.length < rounds) :
    ∃ found after, strchrFrom ch rounds store str = .ok (found, after) ∧
    (found.isSome = true ↔ ch ∈ bytes) ∧
      after.memory = store.memory ∧
        store.Within after (fun other => str ≤ other ∧
          other < str + bytes.length + 1) (fun _ => False) := by
  induction bytes generalizing str store rounds with
  | nil =>
    obtain ⟨rounds, rfl⟩ := Nat.exists_eq_succ_of_ne_zero (Nat.ne_of_gt enough)
    have terminator : store.memory str = 0 := Option.some.inj (holds 0 (Nat.succ_pos _))
    refine ⟨none, (store.load str).2, ?_,
      by simp, rfl, .load store ⟨Nat.le_refl _, Nat.lt_succ_self _⟩ _⟩
    simp only [strchrFrom, Store.load, terminator, if_true]
  | cons byte bytes ih =>
    obtain ⟨rounds, rfl⟩ := Nat.exists_eq_succ_of_ne_zero
      (Nat.ne_of_gt (Nat.lt_of_le_of_lt (Nat.zero_le _) enough))
    have first : store.memory str = byte := Option.some.inj (holds 0 (Nat.succ_pos _))
    have nonzero : byte ≠ 0 := fun zero => clean (zero ▸ List.mem_cons_self)
    have behind : store.memory.HoldsBytes (str + 1) (bytes ++ [0]) := by
      intro index inside
      have next := holds (index + 1) (Nat.succ_lt_succ inside)
      rwa [← Nat.add_assoc, Nat.add_right_comm] at next
    have twice : store.Within ((store.load str).2.load str).2
      (fun other => str ≤ other ∧ other < str + (bytes.length + 1) + 1)
        (fun _ => False) :=
      (Store.Within.load store ⟨Nat.le_refl _,
        by omega⟩ _).trans (.load _ ⟨Nat.le_refl _, by omega⟩ _)
    by_cases same : byte = ch
    · refine ⟨some str, ((store.load str).2.load str).2, ?_, by simp [same], rfl, twice⟩
      simp only [strchrFrom, Store.load, Store.read, first, if_neg nonzero, if_pos same]
    · obtain ⟨found, after, done, iff, kept, within⟩ :=
        @ih ((store.load str).2.load str).2 (str + 1) rounds
        (fun member => clean (List.mem_cons_of_mem _ member)) behind (Nat.lt_of_succ_lt_succ enough)
      refine ⟨found, after, ?_, ?_, kept, twice.trans (within.mono ?_ fun _ => id)⟩
      · simp only [strchrFrom, Store.load, Store.read, first, if_neg nonzero, if_neg same]
        exact done
      · rw [iff, List.mem_cons, or_iff_right (Ne.symm same)]
      · rintro other ⟨above, below⟩
        omega

private theorem skipDelimiters_succ (rounds saveptr : Nat) :
    skipDelimiters delim (rounds + 1) store saveptr =
    strchr (store.load saveptr).2 delim (store.memory saveptr) >>= fun (found, store) =>
      if found.isSome then skipDelimiters delim rounds store (saveptr + 1)
      else .ok (saveptr, store) := rfl

private theorem findDelimiter_succ (rounds saveptr : Nat) :
    findDelimiter delim begin (rounds + 1) store saveptr =
    if store.memory saveptr = 0 then .ok (if begin = saveptr then none else some begin, saveptr, (store.load saveptr).2)
    else strchr ((store.load saveptr).2.load saveptr).2 delim (store.memory saveptr) >>= fun (found, store) =>
      if found.isSome then .ok (some begin, saveptr + 1, store.put saveptr 0)
      else findDelimiter delim begin rounds store (saveptr + 1) := rfl

private theorem strchr_spec (store : Store) (ch : UInt8)
    (holds : store.memory.HoldsString delim delims) (enough : delims.length < memorySize) :
    ∃ found after, strchr store delim ch = .ok (found, after) ∧ found.isSome = delimits delims ch ∧
    after.memory = store.memory ∧
      store.Within after (Spans delim delims) (fun _ => False) := by
  obtain ⟨found, after, done, iff, kept, within⟩ :=
    @strchrFrom_spec store delim ch delims.bytes memorySize delims.property holds enough
  refine ⟨found, after, done, ?_, kept, within⟩
  rw [delimits, Bool.eq_iff_iff, iff, decide_eq_true_iff]

/-- The string from a place on, with its terminator, and all of the delimiters. -/
structure Scanning (store : Store) (str delim : Nat) (string delims : CString)
    (place : Nat) : Prop where
  bytes : ∀ index, place ≤ index → index < string.length →
    string.bytes[index]? = some (store.memory (str + index))
  terminator : store.memory (str + string.length) = 0
  given : store.memory.HoldsString delim delims
  short : string.length < memorySize ∧ delims.length < memorySize

def Readable (str delim : Nat) (string delims : CString) (other : Nat) : Prop :=
  Spans str string other ∨ Spans delim delims other

/-- What the second loop leaves behind when it stops at a place: at the end nothing has changed, and
a delimiter is overwritten. -/
inductive Found (store : Store) (str begin : Nat) (string delims : CString) (stop : Nat) :
    Option Nat → Nat → Store → Prop where
  | ended {after : Store} (last : stop = string.length) (memory : after.memory = store.memory) :
      Found store str begin string delims stop (if begin = stop then none else some (str + begin))
        (str + stop) after
  | cut {after : Store} {item : UInt8} (inside : stop < string.length)
      (there : string.bytes[stop]? = some item)
      (delimiter : delimits delims item = true) (memory : after.memory = store.memory.write (str + stop) 0) :
      Found store str begin string delims stop (some (str + begin)) (str + (stop + 1)) after

def Free (string delims : CString) (begin stop : Nat) : Prop :=
  ∀ index, begin ≤ index → index < stop → ∃ item, string.bytes[index]? = some item ∧
    delimits delims item = false

namespace Scanning

theorem same {after : Store} (scanning : Scanning store str delim string delims place)
    (memory : after.memory = store.memory) :
    Scanning after str delim string delims place := by
  obtain ⟨bytes, terminator, given, short⟩ := scanning
  exact ⟨by rwa [memory], by rwa [memory], by rwa [memory], short⟩

theorem later {further : Nat} (scanning : Scanning store str delim string delims place)
    (le : place ≤ further) :
    Scanning store str delim string delims further :=
  ⟨fun index above => scanning.bytes index (Nat.le_trans le above), scanning.terminator,
    scanning.given, scanning.short⟩

theorem strchr (scanning : Scanning store str delim string delims place) (ch : UInt8) :
    ∃ found after, Userland.strchr store delim ch = .ok (found, after) ∧
    found.isSome = delimits delims ch ∧
      after.memory = store.memory ∧
      store.Within after (Readable str delim string delims) (Spans str string) := by
  obtain ⟨found, after, done, found_iff, kept, within⟩ :=
    strchr_spec store ch scanning.given scanning.short.2
  exact ⟨found, after, done, found_iff, kept, within.mono (fun _ => .inr) fun _ => False.elim⟩

theorem byte (scanning : Scanning store str delim string delims place)
    (inside : place ≤ string.length) :
    place < string.length ∧ string.bytes[place]? = some (store.memory (str + place)) ∧
    store.memory (str + place) ≠ 0 ∨
      place = string.length ∧ store.memory (str + place) = 0 := by
  rcases Nat.lt_or_eq_of_le inside with before | rfl
  · have there := scanning.bytes place (Nat.le_refl _) before
    refine .inl ⟨before, there, ?_⟩
    intro zero
    rw [zero] at there
    exact string.property (List.mem_of_getElem? there)
  · exact .inr ⟨rfl, scanning.terminator⟩

private theorem terminator_free (delims : CString) : delimits delims 0 = false :=
  decide_eq_false delims.property

/-- The first loop stops at a byte that is no delimiter, and passes no token. -/
theorem skip {rounds : Nat} (scanning : Scanning store str delim string delims place)
    (inside : place ≤ string.length)
    (between : Between (delimits delims) string.bytes place)
    (enough : string.length - place < rounds) :
    ∃ stop after, skipDelimiters delim rounds store (str + place) = .ok (str + stop, after) ∧
    place ≤ stop ∧ stop ≤ string.length ∧
      tokenStarts (delimits delims) string.bytes place =
        tokenStarts (delimits delims) string.bytes stop ∧
        Between (delimits delims) string.bytes stop ∧
        delimits delims (after.memory (str + stop)) = false ∧
          after.memory = store.memory ∧
          store.Within after (Readable str delim string delims) (Spans str string) := by
  induction rounds generalizing place store with
  | zero => exact absurd enough (Nat.not_lt_zero _)
  | succ rounds ih =>
    have loaded : store.Within (store.load (str + place)).2 (Readable str delim string delims)
      (Spans str string) :=
      .load store (.inl ⟨Nat.le_add_right _ _, by omega⟩) _
    have step := scanning.same (show (store.load (str + place)).2.memory = store.memory from rfl)
    obtain ⟨found, middle, searched, found_iff, kept, within⟩ :=
      step.strchr (store.memory (str + place))
    have unfolded : skipDelimiters delim (rounds + 1) store (str + place) =
        if found.isSome then skipDelimiters delim rounds middle (str + place + 1)
        else .ok (str + place, middle) := by
      rw [skipDelimiters_succ, searched]
      rfl
    by_cases delimiter : delimits delims (store.memory (str + place)) = true
    · rcases scanning.byte inside with ⟨before, there, _⟩ | ⟨_, zero⟩
      · obtain ⟨stop, after, done, further, bounded, starts, next, free, unchanged, more⟩ :=
          ih ((step.same kept).later (Nat.le_succ place)) before
            (between_behind there delimiter) (by omega)
        refine ⟨stop, after, ?_, Nat.le_of_succ_le further, bounded, ?_, next, free,
          unchanged.trans kept, (loaded.trans within).trans more⟩
        · rw [unfolded, found_iff, if_pos delimiter]
          exact done
        · rw [tokenStarts_delimiter there delimiter, starts]
      · rw [zero, terminator_free] at delimiter
        cases delimiter
    · refine ⟨place, middle, ?_, Nat.le_refl _, inside, rfl, between, ?_, kept, loaded.trans within⟩
      · rw [unfolded, found_iff, if_neg delimiter]
      · rw [kept]
        exact Bool.eq_false_iff.mpr delimiter

private theorem find {rounds : Nat} (scanning : Scanning store str delim string delims place)
    (inside : place ≤ string.length)
    (enough : string.length - place < rounds) (order : begin ≤ place)
    (free : Free string delims begin place)
    (first : place = begin → delimits delims (store.memory (str + place)) = false) :
    ∃ result next stop after, findDelimiter delim (str + begin) rounds store (str + place) =
      .ok (result, next, after) ∧
      place ≤ stop ∧ stop ≤ string.length ∧ Free string delims begin stop ∧
      (stop = begin → stop = string.length) ∧
        Found store str begin string delims stop result next after ∧
          store.Within after (Readable str delim string delims) (Spans str string) := by
  induction rounds generalizing place store with
  | zero => exact absurd enough (Nat.not_lt_zero _)
  | succ rounds ih =>
    have readable : Readable str delim string delims (str + place) :=
      .inl ⟨Nat.le_add_right _ _, by omega⟩
    have once : store.Within (store.load (str + place)).2 (Readable str delim string delims)
      (Spans str string) := .load store readable _
    rcases scanning.byte inside with ⟨before, there, nonzero⟩ | ⟨last, zero⟩
    · have twice := once.trans (.load (store.load (str + place)).2 readable _)
      have step := scanning.same (show ((store.load (str + place)).2.load (str + place)).2.memory = store.memory from rfl)
      obtain ⟨found, middle, searched, found_iff, kept, within⟩ :=
        step.strchr (store.memory (str + place))
      have unfolded : findDelimiter delim (str + begin) (rounds + 1) store (str + place) =
          if found.isSome then .ok (some (str + begin), str + place + 1, middle.put (str + place) 0)
          else findDelimiter delim (str + begin) rounds middle (str + place + 1) := by
        rw [findDelimiter_succ, if_neg nonzero, searched]
        rfl
      by_cases delimiter : delimits delims (store.memory (str + place)) = true
      · refine ⟨_, _, place, middle.put (str + place) 0, ?_, Nat.le_refl _, inside, free, ?_,
          .cut before there delimiter ?_, ?_⟩
        · rw [unfolded, found_iff, if_pos delimiter]
          rfl
        · intro same
          rw [first same] at delimiter
          cases delimiter
        · exact congrArg (fun memory => Memory.write memory (str + place) 0) kept
        · exact (twice.trans within).trans (.put middle 0 ⟨Nat.le_add_right _ _, by omega⟩ _)
      · have free : Free string delims begin (place + 1) := by
          intro index above below
          rcases Nat.lt_or_eq_of_le (Nat.lt_succ_iff.mp below) with earlier | rfl
          · exact free index above earlier
          · exact ⟨_, there, Bool.eq_false_iff.mpr delimiter⟩
        obtain ⟨result, next, stop, after, done, further, bounded, passed, some, outcome, more⟩ :=
          ih ((step.same kept).later (Nat.le_succ place)) before
            (by omega) (by omega) free (by omega)
        refine ⟨result, next, stop, after, ?_, Nat.le_of_succ_le further, bounded, passed, some, ?_,
          (twice.trans within).trans more⟩
        · rw [unfolded, found_iff, if_neg delimiter]
          exact done
        · have same : middle.memory = store.memory := kept
          cases outcome with
          | ended last memory => exact .ended last (memory.trans same)
          | cut inside there delimiter memory =>
              exact .cut inside there delimiter (by rw [memory, same])
    · refine ⟨_, _, place, (store.load (str + place)).2, ?_, Nat.le_refl _, inside, free,
        fun _ => last, .ended last rfl, once⟩
      simp only [findDelimiter_succ, if_pos zero, Nat.add_left_cancel_iff]

end Scanning
/-- The place in memory of a token that was returned, which is ended by a zero byte. -/
structure Delivered (store : Store) (str : Nat) (string delims : CString)
    (start next : Nat) : Prop where
  holds : store.memory.HoldsBytes (str + start) (tokenAt (delimits delims) string.bytes start ++ [0])
  behind : ∀ index ≤ (tokenAt (delimits delims) string.bytes start).length, start + index < next ∨
    start + index = string.length

structure Step (store after : Store) (str delim : Nat) (string delims : CString) (place next : Nat)
    (result : Option Nat) : Prop where
  inside : next ≤ string.length
  order : place ≤ next
  between : Between (delimits delims) string.bytes next
  scanning : Scanning after str delim string delims next
  within : store.Within after (Readable str delim string delims) (Spans str string)
  frame : ∀ other, other < str + place ∨ str + string.length ≤ other →
    after.memory other = store.memory other
  result : tokenStarts (delimits delims) string.bytes place = [] ∧
    tokenStarts (delimits delims) string.bytes next = [] ∧ result = none ∨
    ∃ start, tokenStarts (delimits delims) string.bytes place =
      start :: tokenStarts (delimits delims) string.bytes next ∧
      result = some (str + start) ∧ Delivered after str string delims start next

private theorem delivered {stop next : Nat}
    (bytes : ∀ index, begin ≤ index → index < stop →
      string.bytes[index]? = some (store.memory (str + index)))
    (terminator : store.memory (str + stop) = 0) (order : begin ≤ stop)
    (free : Free string delims begin stop)
    (ends : stop = string.length ∨ ∃ item, string.bytes[stop]? = some item ∧
      delimits delims item = true)
    (behind : stop < next ∨ stop = string.length) (inside : stop ≤ string.length)
    (reached : stop ≤ next) :
    Delivered store str string delims begin next := by
  obtain ⟨count, rfl⟩ := Nat.exists_eq_add_of_le order
  have token : tokenAt (delimits delims) string.bytes begin =
    (string.bytes.drop begin).take count := by
    apply tokenAt_eq
    · intro index below
      exact free (begin + index) (Nat.le_add_right _ _) (Nat.add_lt_add_left below _)
    · exact ends.imp_left fun last => Nat.le_of_eq last.symm
  have length : (tokenAt (delimits delims) string.bytes begin).length = count := by
    rw [token, List.length_take, List.length_drop]
    have total : string.bytes.length = string.length := rfl
    omega
  refine ⟨?_, ?_⟩
  · intro index below
    rw [List.length_append, length, List.length_singleton] at below
    rcases Nat.lt_or_eq_of_le (Nat.lt_succ_iff.mp below) with earlier | rfl
    · have there := bytes (begin + index) (Nat.le_add_right _ _) (Nat.add_lt_add_left earlier _)
      rw [List.getElem?_append_left (by rwa [length]), token, List.getElem?_take_of_lt earlier, List.getElem?_drop, there, Nat.add_assoc]
    · rw [List.getElem?_append_right (Nat.le_of_eq length), length, Nat.sub_self,
        Nat.add_assoc, terminator]
      rfl
  · intro index below
    rw [length] at below
    omega

/-- A byte inside of the string that is overwritten is not read any more. -/
theorem Scanning.cut {after : Store} {stop : Nat}
    (scanning : Scanning store str delim string delims place)
    (memory : after.memory = store.memory.write (str + stop) 0) (before : stop < string.length)
    (order : place ≤ stop)
    (apart : str + string.length < delim ∨ delim + delims.length < str) :
    Scanning after str delim string delims (stop + 1) := by
  have outside {other : Nat} (different : other ≠ str + stop) : after.memory other =
    store.memory other := by
    rw [memory, Memory.write, if_neg different]
  refine ⟨?_, ?_, ?_, scanning.short⟩
  · intro index above below
    rw [outside (by omega)]
    exact scanning.bytes index (by omega) below
  · rw [outside (by omega)]
    exact scanning.terminator
  · intro index below
    have length : (delims.bytes ++ [0]).length = delims.length + 1 := List.length_append
    rw [outside (by omega)]
    exact scanning.given index below

theorem strtokR_step (scanning : Scanning store str delim string delims place)
    (inside : place ≤ string.length)
    (between : Between (delimits delims) string.bytes place)
    (apart : str + string.length < delim ∨ delim + delims.length < str) :
    ∃ result next after, strtokR store none delim (str + place) = .ok (result, str + next, after) ∧
      Step store after str delim string delims place next result := by
  have enough : string.length - place < memorySize :=
    Nat.lt_of_le_of_lt (Nat.sub_le _ _) scanning.short.1
  obtain ⟨begin, middle, skipped, order, bounded, starts, resumes, unmarked, kept, within⟩ :=
    scanning.skip inside between enough
  have second := (scanning.same kept).later order
  have none : Free string delims begin begin :=
    fun index above below => absurd below (Nat.not_lt_of_le above)
  obtain ⟨result, last, stop, after, found, further, limit, free, some, outcome, more⟩ :=
    @Scanning.find middle str delim begin begin
    string delims memorySize second bounded (Nat.lt_of_le_of_lt (Nat.sub_le _ _) scanning.short.1)
      (Nat.le_refl _) none fun _ => unmarked
  have call : strtokR store Option.none delim (str + place) = .ok (result, last, after) := by
    rw [strtokR, Option.getD_none, skipped]
    exact found
  have starts_stop : begin < stop → tokenStarts (delimits delims) string.bytes begin =
      begin :: tokenStarts (delimits delims) string.bytes stop := by
    intro longer
    obtain ⟨item, there, plain⟩ := free begin (Nat.le_refl _) longer
    obtain ⟨count, rfl⟩ := Nat.exists_eq_add_of_lt longer
    rw [tokenStarts_start there plain resumes, tokenStarts_free]
    intro index below
    exact free (begin + index) (Nat.le_add_right _ _) (by omega)
  cases outcome with
  | ended ends memory =>
    have same : after.memory = store.memory := memory.trans kept
    have nothing : tokenStarts (delimits delims) string.bytes stop = [] :=
      tokenStarts_end (Nat.le_of_eq ends.symm)
    refine ⟨_, stop, after, call, limit, Nat.le_trans order further,
      .inr (.inl (Nat.le_of_eq ends.symm)),
      (second.same memory).later further, within.trans more, fun other _ => congrFun same other, ?_⟩
    rcases Nat.lt_or_eq_of_le further with longer | rfl
    · refine .inr ⟨begin, starts.trans (starts_stop longer), if_neg (Nat.ne_of_lt longer), ?_⟩
      refine delivered ?_ ?_ further free (.inl ends) (.inr ends) limit (Nat.le_refl _)
      · intro index above below
        rw [same]
        exact scanning.bytes index (Nat.le_trans order above) (Nat.lt_of_lt_of_le below limit)
      · rw [same, ends]
        exact scanning.terminator
    · exact .inl ⟨starts.trans nothing, nothing, if_pos rfl⟩
  | cut before there delimiter memory =>
    rw [kept] at memory
    have longer : begin < stop := by
      refine Nat.lt_of_le_of_ne further fun same => ?_
      exact absurd (some same.symm) (Nat.ne_of_lt before)
    refine ⟨_, stop + 1, after, call, before, by omega, between_behind there delimiter,
      scanning.cut memory before (Nat.le_trans order further) apart, within.trans more, ?_, ?_⟩
    · intro other outside
      rw [memory, Memory.write, if_neg (by omega)]
    · refine .inr ⟨begin, ?_, rfl, ?_⟩
      · rw [starts, starts_stop longer, tokenStarts_delimiter there delimiter]
      · refine delivered ?_ ?_ further free (.inr ⟨_, there, delimiter⟩) (.inl (Nat.lt_succ_self _))
          limit (Nat.le_succ _)
        · intro index above below
          rw [memory, Memory.write, if_neg (by omega)]
          exact scanning.bytes index (Nat.le_trans order above) (Nat.lt_of_lt_of_le below limit)
        · rw [memory, Memory.write, if_pos rfl]

private theorem Delivered.keep {after : Store} {start next : Nat}
    (delivered : Delivered store str string delims start next)
    (frame : ∀ other, other < str + next ∨ str + string.length ≤ other →
      after.memory other = store.memory other) :
    after.memory.HoldsBytes (str + start) (tokenAt (delimits delims) string.bytes start ++ [0]) := by
  intro index below
  have held := delivered.holds index below
  rw [List.length_append, List.length_singleton] at below
  have place := delivered.behind index (Nat.lt_succ_iff.mp below)
  rw [frame _ (by omega)]
  exact held

/-- What calls return one after the other, once the starts of the tokens are used up nothing. -/
def answers (str : Nat) (starts : List Nat) (calls : Nat) : List (Option Nat) :=
  (starts.map (fun start => some (str + start)) ++ List.replicate calls none).take calls

private theorem answers_succ (str start : Nat) (starts : List Nat) (calls : Nat) :
    answers str (start :: starts) (calls + 1) = some (str + start) :: answers str starts calls := by
  unfold answers
  rw [List.map_cons, List.cons_append, List.take_succ_cons,
    List.replicate_succ', ← List.append_assoc]
  congr 1
  refine List.take_append_of_le_length ?_
  simp

private theorem answers_nil (str calls : Nat) :
    answers str [] calls = List.replicate calls none := by
  unfold answers
  rw [List.map_nil, List.nil_append, List.take_replicate, Nat.min_self]

theorem strtokCalls_spec (calls : Nat) (scanning : Scanning store str delim string delims place)
    (inside : place ≤ string.length)
    (between : Between (delimits delims) string.bytes place)
    (apart : str + string.length < delim ∨ delim + delims.length < str) :
    ∃ next after, strtokCalls delim calls store (str + place) =
        .ok (answers str (tokenStarts (delimits delims) string.bytes place) calls,
          str + next, after) ∧
      store.Within after (Readable str delim string delims) (Spans str string) ∧
        (∀ other, other < str + place ∨ str + string.length ≤ other →
          after.memory other = store.memory other) ∧
          ∀ start ∈ (tokenStarts (delimits delims) string.bytes place).take calls,
            after.memory.HoldsBytes (str + start) (tokenAt (delimits delims) string.bytes start ++ [0]) := by
  induction calls generalizing place store with
  | zero =>
    refine ⟨place, store, ?_, .refl _ _ _, fun _ _ => rfl, ?_⟩
    · rw [answers, List.take_zero]
      rfl
    · rw [List.take_zero]
      nofun
  | succ calls ih =>
    obtain ⟨result, next, middle, first, step⟩ := strtokR_step scanning inside between apart
    obtain ⟨last, after, rest, within, frame, holds⟩ := ih step.scanning step.inside step.between
    refine ⟨last, after, ?_, step.within.trans within, ?_, ?_⟩
    · rw [strtokCalls, first]
      simp only [bind, Except.bind]
      rw [rest]
      rcases step.result with ⟨nothing, none, rfl⟩ | ⟨start, starts, rfl, _⟩
      · rw [nothing, none, answers_nil, answers_nil, List.replicate_succ]
      · rw [starts, answers_succ]
    · intro other outside
      have order := step.order
      rw [frame other (by omega)]
      exact step.frame other outside
    · rcases step.result with ⟨nothing, _, _⟩ | ⟨start, starts, _, delivered⟩
      · rw [nothing]
        nofun
      · rw [starts, List.take_succ_cons, List.forall_mem_cons]
        exact ⟨delivered.keep frame, holds⟩

end
end PicoOs.Userland
