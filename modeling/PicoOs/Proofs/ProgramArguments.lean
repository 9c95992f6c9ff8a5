import PicoOs.Kernel.StackWrapper

/-! The arguments of a program on its stack. Each push leaves what lies above it alone, so
the strings and the array of pointers to them stay as they were written. -/

namespace PicoOs.Kernel
open Library PicoOs.Std

namespace StackWrapper
variable {stack after : StackWrapper} {words : List Nat}

/-- A stack that grew down, with everything above its old top unchanged. -/
structure Extends (before after : StackWrapper) : Prop where
  bytes : after.bytes = before.bytes
  descends : after.top ≤ before.top
  above : before.memory.AgreeFrom after.memory before.top

theorem Extends.refl (stack : StackWrapper) : stack.Extends stack := ⟨rfl, Nat.le_refl _, .refl _ _⟩

theorem Extends.trans {middle : StackWrapper} (earlier : stack.Extends middle)
    (later : middle.Extends after) :
    stack.Extends after :=
  ⟨later.bytes.trans earlier.bytes, later.descends.trans earlier.descends,
    earlier.above.trans later.above earlier.descends⟩

def footprint (string : CString) : Nat := (string.length + 4) / 4 * 4

def withValue (stack : StackWrapper) (value : Nat) : StackWrapper :=
  { stack with top := stack.top - 4, memory := stack.memory.store (stack.top - 4) value }

def withString (stack : StackWrapper) (string : CString) : StackWrapper :=
  { stack with
    top := stack.top - footprint string, memory := stack.memory.strcpy
      (stack.top - footprint string) string }

theorem pushValue_eq (value : Nat) (room : stack.bytes.data + 4 ≤ stack.top) :
    stack.pushValue value = .ok (stack.withValue value) := by
  unfold pushValue reserve
  rw [if_pos room]
  rfl

theorem withValue_extends (value : Nat) (room : 4 ≤ stack.top) :
    stack.Extends (stack.withValue value) :=
  ⟨rfl, Nat.sub_le _ _, stack.memory.store_agreeFrom (by omega)⟩

theorem pushCString_eq (string : CString) (aligned : stack.top % 4 = 0)
    (bottom : stack.bytes.data % 4 = 0)
    (room : stack.bytes.data + footprint string ≤ stack.top) :
    stack.pushCString string = .ok (stack.withString string) := by
  unfold withString
  unfold footprint at *
  unfold pushCString reserve
  rw [if_pos (by omega)]
  simp only [bind, Except.bind, align]
  by_cases even : (stack.top - (string.length + 1)) % 4 = 0
  · rw [if_neg (not_not.mpr even)]
    have same : stack.top - (string.length + 1) = stack.top - (string.length + 4) / 4 * 4 := by
      omega
    simp only [same]
  · have same : stack.top - (string.length + 1) - (stack.top - (string.length + 1)) % 4 =
        stack.top - (string.length + 4) / 4 * 4 := by omega
    rw [if_pos even]
    unfold reserve
    rw [if_pos (by simp only; omega)]
    simp only [same]

private theorem withString_extends (string : CString) (room : footprint string ≤ stack.top) :
    stack.Extends (stack.withString string) := by
  refine ⟨rfl, Nat.sub_le _ _, stack.memory.writeBytes_agree _ _ ?_⟩
  rw [List.length_append, List.length_singleton]
  have length : string.bytes.length = string.length := rfl
  unfold footprint at *
  omega

theorem withValue_holds {value : Nat} (room : 4 ≤ stack.top) (small : value < 2 ^ 32)
    (holds : stack.memory.HoldsWords stack.top words) :
    (stack.withValue value).memory.HoldsWords (stack.withValue value).top (value :: words) := by
  refine ⟨(Memory.load_store_same ..).trans (Nat.mod_eq_of_lt small), ?_⟩
  have behind : (stack.withValue value).top + 4 = stack.top := Nat.sub_add_cancel room
  rw [behind]
  exact (withValue_extends value room).above.holdsWords (Nat.le_refl _) holds

def stringsSize (strings : List CString) : Nat := (strings.map footprint).sum

theorem pushCStrings_spec (strings : List CString) (aligned : stack.top % 4 = 0)
    (bottom : stack.bytes.data % 4 = 0)
    (room : stack.bytes.data + stringsSize strings ≤ stack.top) :
    ∃ pointers after, stack.pushCStrings strings = .ok (pointers, after) ∧ stack.Extends after ∧
      after.top = stack.top - stringsSize strings ∧
        List.Forall₂ (fun pointer string => (after.top ≤ pointer ∧ pointer < stack.top) ∧
          after.memory.HoldsString pointer string) pointers strings ∧
        Area.Descends 4 stack.top (List.zipWith (fun pointer string => ⟨pointer, string.length + 1⟩) pointers strings) after.top := by
  induction strings generalizing stack with
  | nil => exact ⟨[], stack, rfl, .refl stack, rfl, .nil, Nat.le_refl _⟩
  | cons string strings ih =>
    have split : stringsSize (string :: strings) = footprint string + stringsSize strings :=
      List.sum_cons
    have whole : footprint string % 4 = 0 := Nat.mul_mod_left _ _
    have positive : 4 ≤ footprint string := by
      unfold footprint
      omega
    have lower : (stack.withString string).top = stack.top - footprint string := rfl
    have same : (stack.withString string).bytes = stack.bytes := rfl
    obtain ⟨pointers, after, done, extends', top, each, descends⟩ :=
      @ih (stack.withString string) (by omega) bottom
      (by rw [same]; omega)
    have large : string.length + 1 ≤ footprint string := by
      unfold footprint
      omega
    have copied : after.memory.HoldsString (stack.withString string).top string :=
      extends'.above.holdsBytes (Nat.le_refl _) (stack.memory.writeBytes_holds _ _)
    refine ⟨(stack.withString string).top :: pointers, after, ?_,
      (withString_extends string (by omega)).trans extends', by omega, ?_, ?_⟩
    · simp only [pushCStrings,
        pushCString_eq string aligned bottom (by omega), bind, Except.bind, done]
    · refine .cons ⟨⟨extends'.descends, by omega⟩, copied⟩ ?_
      exact each.imp fun pointer string facts => ⟨⟨facts.1.1, by omega⟩, facts.2⟩
    · have even : (stack.top - footprint string) % 4 = 0 := by omega
      have below : stack.top - footprint string + (string.length + 1) ≤ stack.top := by omega
      exact ⟨even, below, descends⟩

private theorem pushPointers_spec (pointers : List Nat)
    (small : ∀ pointer ∈ pointers, pointer < 2 ^ 32)
    (room : stack.bytes.data + 4 * pointers.length ≤ stack.top)
    (holds : stack.memory.HoldsWords stack.top words) :
    ∃ after, pointers.foldlM pushValue stack = .ok after ∧ stack.Extends after ∧
      after.top = stack.top - 4 * pointers.length ∧
        after.memory.HoldsWords after.top (pointers.reverse ++ words) := by
  induction pointers generalizing stack words with
  | nil => exact ⟨stack, rfl, .refl stack, rfl, holds⟩
  | cons pointer pointers ih =>
    rw [List.length_cons] at room
    have lower : (stack.withValue pointer).top = stack.top - 4 := rfl
    have same : (stack.withValue pointer).bytes = stack.bytes := rfl
    obtain ⟨after, done, extends', top, final⟩ := @ih (stack.withValue pointer) (pointer :: words)
      (fun other member => small other (List.mem_cons_of_mem _ member)) (by rw [same]; omega)
      (withValue_holds (by omega) (small pointer List.mem_cons_self) holds)
    refine ⟨after, ?_, (withValue_extends pointer (by omega)).trans extends', ?_, ?_⟩
    · rw [List.foldlM_cons, pushValue_eq pointer (by omega)]
      exact done
    · rw [List.length_cons]
      omega
    · rw [List.reverse_cons, List.append_assoc]
      exact final

def arraySize (strings : List CString) : Nat := stringsSize strings + 4 * (strings.length + 1)

theorem stringsSize_words (strings : List CString) : stringsSize strings % 4 = 0 := by
  induction strings with
  | nil => rfl
  | cons string strings ih =>
    have split : stringsSize (string :: strings) = footprint string + stringsSize strings :=
      List.sum_cons
    have whole : footprint string % 4 = 0 := Nat.mul_mod_left _ _
    omega

/-- The slots of an array and the strings behind it, in the order in which they were taken. -/
def areas (memory : Memory) (array : Nat) (strings : List CString) : List Area :=
  memory.stringAreas array strings ++ (Memory.wordAreas array (strings.length + 1)).reverse

/-- Whatever happens below the array leaves it alone. -/
theorem pushCStringArray_spec (strings : List CString) (aligned : stack.top % 4 = 0)
    (bottom : stack.bytes.data % 4 = 0)
    (high : stack.top ≤ 2 ^ 32) (room : stack.bytes.data + arraySize strings ≤ stack.top) :
    ∃ after, stack.pushCStringArray strings = .ok after ∧ stack.Extends after ∧
      after.top = stack.top - arraySize strings ∧
        ∀ memory, after.memory.AgreeFrom memory after.top → memory.HoldsStrings after.top strings ∧
          Area.Descends 4 stack.top (areas memory after.top strings) after.top := by
  unfold arraySize at room ⊢
  obtain ⟨pointers, copied, collected, extended, top, each, strung⟩ :=
    pushCStrings_spec strings aligned bottom (by omega)
  have count : pointers.length = strings.length := each.length_eq
  have same := extended.bytes
  have terminated : (copied.withValue 0).memory.HoldsWords (copied.withValue 0).top [0] :=
    withValue_holds (by omega) (by decide) trivial
  have lower : (copied.withValue 0).top = copied.top - 4 := rfl
  have still : (copied.withValue 0).bytes = stack.bytes := same
  have within := ((List.forall₂_and_left _ _).mp each).1
  obtain ⟨after, done, extends', bottom, holds⟩ :=
    @pushPointers_spec (copied.withValue 0) [0] pointers.reverse
    (fun pointer member => by have inside := (within pointer (List.mem_reverse.mp member)).2; omega)
    (by rw [List.length_reverse, still]; omega) terminated
  rw [List.reverse_reverse] at holds
  rw [List.length_reverse] at bottom
  have grows := (withValue_extends 0 (by omega)).trans extends'
  refine ⟨after, ?_, extended.trans grows, by omega, fun memory agree => ⟨?_, ?_⟩⟩
  · simp only [pushCStringArray, collected, bind, Except.bind, pushValue_eq 0 (by rw [same]; omega)]
    exact done
  · refine (agree.holdsWords (Nat.le_refl _) holds).strings
      (each.imp fun pointer string facts => ⟨by omega, ?_⟩)
    have descends := grows.descends
    exact agree.holdsBytes (descends.trans facts.1.1) (grows.above.holdsBytes facts.1.1 facts.2)
  · rw [areas, (agree.holdsWords (Nat.le_refl _) holds).stringAreas count]
    have whole := stringsSize_words strings
    have slots := @Memory.wordAreas_descend after.top 4 rfl (by omega) (strings.length + 1)
    rw [show after.top + 4 * (strings.length + 1) = copied.top by omega] at slots
    exact strung.append slots

end StackWrapper

/-- A range that can be the stack of a program. -/
structure StackRange (bytes : Bytes) : Prop where
  nonnull : bytes.data ≠ 0
  bottom : bytes.data % 4 = 0
  words : bytes.size % 4 = 0
  high : bytes.data + bytes.size ≤ 2 ^ 32

/-- The program gets the strings that `Process::create` is given. -/
theorem enterProgram_spec {memory : Memory} {bytes : Bytes} {arguments environment : List CString}
    (range : StackRange bytes)
    (fits : StackWrapper.arraySize arguments + StackWrapper.arraySize environment ≤ bytes.size) :
    ∃ entry, enterProgram memory bytes arguments environment = .ok entry ∧
    entry.argc = arguments.length ∧
      entry.memory.HoldsStrings entry.argv arguments ∧
      entry.memory.HoldsStrings entry.envp environment := by
  obtain ⟨-, bottom, words, high⟩ := range
  have start : (StackWrapper.construct memory bytes).top = bytes.data + bytes.size := rfl
  have whole := StackWrapper.stringsSize_words arguments
  have size : StackWrapper.arraySize arguments = StackWrapper.stringsSize arguments + 4 *
    (arguments.length + 1) := rfl
  obtain ⟨first, pushed, extended, top, argv⟩ :=
    @StackWrapper.pushCStringArray_spec (.construct memory bytes) arguments
    (by omega) bottom high (by change bytes.data + _ ≤ bytes.data + bytes.size; omega)
  have same : first.bytes = bytes := extended.bytes
  obtain ⟨second, also, extends', _, envp⟩ := @StackWrapper.pushCStringArray_spec first environment
    (by omega) (by rw [same]; exact bottom) (by omega) (by rw [same]; omega)
  refine ⟨⟨wrap arguments.length, first.top, second.top, second.memory⟩, ?_, ?_,
    (argv second.memory extends'.above).1,
    (envp second.memory (.refl _ _)).1⟩
  · simp only [enterProgram, pushed, also, bind, Except.bind]
  · exact Nat.mod_eq_of_lt (by omega)

/-- The program is entered with exactly these arguments. -/
structure ProgramEntry.Receives (entry : ProgramEntry) (argv envp : List CString) : Prop where
  argc : entry.argc = argv.length
  argv : entry.memory.HoldsStrings entry.argv argv
  envp : entry.memory.HoldsStrings entry.envp envp

private theorem append_each (start values : List CString) :
    values.foldl (fun arguments value => arguments ++ [value]) start = start ++ values := by
  induction values generalizing start with
  | nil => exact (List.append_nil _).symm
  | cons value values ih => rw [List.foldl_cons, ih, List.append_assoc, List.singleton_append]

private theorem gatherArguments_eq (argv envp : List CString) :
    gatherArguments argv envp = (argv ++ envp, []) := by
  simp only [gatherArguments, append_each, List.nil_append]

private theorem arraySize_append (argv envp : List CString) :
    StackWrapper.arraySize (argv ++ envp) + StackWrapper.arraySize [] =
    StackWrapper.arraySize argv + StackWrapper.arraySize envp := by
  unfold StackWrapper.arraySize StackWrapper.stringsSize
  rw [List.map_append, List.sum_append, List.length_append, List.map_nil, List.sum_nil,
    List.length_nil]
  omega

/-- The program gets what it was given exactly if it was given no environment. -/
theorem program_arguments {memory : Memory} {bytes : Bytes} {argv envp : List CString}
    (range : StackRange bytes)
    (fits : StackWrapper.arraySize argv + StackWrapper.arraySize envp ≤ bytes.size) :
    ∃ entry, spawnProgram memory bytes argv envp = .ok entry ∧
    (entry.Receives argv envp ↔ envp = []) := by
  rw [← arraySize_append] at fits
  obtain ⟨entry, entered, argc, arguments, environment⟩ := enterProgram_spec range fits
  refine ⟨entry, ?_, fun receives => ?_, ?_⟩
  · simp only [spawnProgram, gatherArguments_eq]
    exact entered
  · have count := argc.symm.trans receives.argc
    rw [List.length_append] at count
    exact List.eq_nil_of_length_eq_zero (by omega)
  · rintro rfl
    rw [List.append_nil] at argc arguments
    exact ⟨argc, arguments, environment⟩

def listing : CString := ⟨[108, 115], by decide⟩

def assignment : CString := ⟨[65, 61, 66], by decide⟩

def programStack : Bytes := ⟨2 ^ 29, 0x1100⟩

theorem programStack_range : StackRange programStack := ⟨by decide, by decide, by decide, by decide⟩

theorem program_arguments_some :
    ∃ entry, spawnProgram (fun _ => 0) programStack [listing] [] = .ok entry ∧
    entry.Receives [listing] [] := by
  have fits : StackWrapper.arraySize [listing] + StackWrapper.arraySize [] ≤ programStack.size := by
    decide
  obtain ⟨entry, spawned, receives⟩ := program_arguments programStack_range fits
  exact ⟨entry, spawned, receives.mpr rfl⟩

/-- With a variable in its environment the program finds one argument too many, and no variable. -/
theorem environment_lost : ∃ entry, spawnProgram (fun _ => 0) programStack [listing]
    [assignment] = .ok entry ∧
    entry.argc = 2 ∧ entry.memory.load entry.envp = 0 ∧ ¬entry.Receives [listing] [assignment] := by
  have fits : StackWrapper.arraySize [listing, assignment] + StackWrapper.arraySize [] ≤
    programStack.size := by decide
  obtain ⟨entry, entered, argc, -, environment⟩ := enterProgram_spec programStack_range fits
  refine ⟨entry, entered, argc, environment, fun receives => ?_⟩
  cases argc.symm.trans receives.argc

end PicoOs.Kernel
