import PicoOs.Userland.Stdio
import PicoOs.Proofs.Formatting

/-! What `printf` writes for a format that is put together from literal text and directives,
and what it returns. -/

namespace PicoOs.Userland.Stdio
open Library PicoOs.Std

structure Literal where
  ch : UInt8
  nonzero : ch ≠ 0
  unmarked : ch ≠ percentSign

/-- A literal character, or a directive with the argument that is passed for it. -/
inductive Piece where
  | text (literal : Literal)
  | percent
  | string (str : CString)
  | unsigned (value : BitVec 32)
  | size (value : BitVec 32)
  | small (value : BitVec 16)
  | int (value : BitVec 32)
  | ssize (value : BitVec 32)
  | pointer (value : BitVec 32)

namespace Piece

def format : Piece → List UInt8
  | text literal => [literal.ch]
  | percent => [percentSign, percentSign]
  | string _ => [percentSign, letterS]
  | unsigned _ => [percentSign, letterU]
  | size _ => [percentSign, letterZ, letterU]
  | small _ => [percentSign, letterH, letterU]
  | int _ => [percentSign, letterI]
  | ssize _ => [percentSign, letterZ, letterI]
  | pointer _ => [percentSign, letterP]

def arguments : Piece → List Argument
  | text _ | percent => []
  | string str => [.string str]
  | small value => [.word (value.setWidth 32)]
  | unsigned value | size value | int value | ssize value | pointer value => [.word value]

def Renders : Piece → List UInt8 → Prop
  | text literal, output => output = [literal.ch]
  | percent, output => output = [percentSign]
  | string str, output => output = str.bytes
  | unsigned value, output | size value, output
  | pointer value, output => Std.Renders ⟨32, false⟩ value.toNat output
  | small value, output => Std.Renders ⟨16, false⟩ value.toNat output
  | int value, output | ssize value, output => Std.Renders ⟨32, true⟩ value.toInt output

def output : Piece → List UInt8
  | text literal => [literal.ch]
  | percent => [percentSign]
  | string str => str.bytes
  | unsigned value | size value | pointer value => formatInteger false value.toNat 32
  | small value => formatInteger false value.toNat 16
  | int value | ssize value => formatSigned value

def counted : Piece → Nat
  | text _ => 1
  | string str => str.length
  | _ => 0

def Counts : Piece → Prop
  | text _ | string _ => True
  | _ => False

end Piece

def format (pieces : List Piece) : List UInt8 := pieces.flatMap Piece.format

def arguments (pieces : List Piece) : List Argument := pieces.flatMap Piece.arguments

def counted (pieces : List Piece) : Nat := (pieces.map Piece.counted).sum

/-- Everything is written as the pieces say, an argument is used for each directive that has one,
and the number of characters is returned. -/
structure Conforms (pieces : List Piece) (more : List Argument) : Prop where
  returns : ∃ outputs final, List.Forall₂ Piece.Renders pieces outputs ∧
    printf (format pieces) (arguments pieces ++ more) = .ok final ∧
    final.written = outputs.flatten ∧ final.args = more ∧ final.nwritten = final.written.length

section Digits

private theorem formatDigits_eq (ndigits value : Nat) (buffer : List UInt8) :
    formatDigits ndigits value buffer = (fillBuffer ndigits value).reverse ++ buffer := by
  induction ndigits generalizing value buffer with
  | zero => rfl
  | succ ndigits ih =>
      rw [formatDigits, ih, fillBuffer, List.reverse_cons, List.append_assoc, List.singleton_append]

theorem formatInteger_renders {type : IntegralType} (bytes : type.Bytes) {value : Int}
    (inside : type.holds value) :
    Std.Renders type value (formatInteger (decide (value < 0)) value.natAbs type.bits) := by
  have digits : type.bits / 4 = type.size * 2 := by
    have whole := bytes.2
    rw [IntegralType.size]
    omega
  have renders := renders_digits bytes inside
  rw [formatInteger, formatDigits_eq, List.append_nil, digits]
  simpa only [decide_eq_true_eq] using renders

private theorem unsigned_renders (bits : Nat) (bytes : IntegralType.Bytes ⟨bits, false⟩)
    (value : BitVec bits) :
    Std.Renders ⟨bits, false⟩ value.toNat (formatInteger false value.toNat bits) := by
  have inside : IntegralType.holds ⟨bits, false⟩ (value.toNat : Int) := by
    refine ⟨Int.natCast_nonneg _, ?_⟩
    exact_mod_cast value.isLt
  have renders := formatInteger_renders bytes inside
  rwa [decide_eq_false (Int.not_lt.mpr (Int.natCast_nonneg _)), Int.natAbs_natCast] at renders

theorem formatSigned_eq (value : BitVec 32) :
    formatSigned value = formatInteger (decide (value.toInt < 0)) value.toInt.natAbs 32 := by
  have range := value.isLt
  have int := BitVec.toInt_eq_toNat_cond value
  rw [formatSigned]
  by_cases negative : value.toInt < 0
  · have magnitude : (-value).toNat = value.toInt.natAbs := by
      rw [BitVec.toNat_neg]
      split at int <;> omega
    rw [if_pos negative, decide_eq_true negative, magnitude]
  · have magnitude : value.toNat = value.toInt.natAbs := by
      split at int <;> omega
    rw [if_neg negative, decide_eq_false negative, magnitude]

private theorem signed_renders (value : BitVec 32) :
    Std.Renders ⟨32, true⟩ value.toInt (formatSigned value) := by
  have inside : IntegralType.holds ⟨32, true⟩ value.toInt := ⟨value.le_toInt, value.toInt_lt⟩
  rw [formatSigned_eq]
  exact formatInteger_renders (by decide) inside

end Digits

private theorem Piece.output_renders (piece : Piece) : piece.Renders piece.output := by
  cases piece with
  | text | percent | string => rfl
  | unsigned value | size value | pointer value => exact unsigned_renders 32 (by decide) value
  | small value => exact unsigned_renders 16 (by decide) value
  | int value | ssize value => exact signed_renders value

/-- What is left of the format behind a directive: a `z` behind `%p` is taken for a flag. -/
def Piece.left (rest : List UInt8) : Piece → List UInt8
  | pointer _ => (tryFlag letterZ rest).2
  | _ => rest

section Steps
variable {rest : List UInt8} {args : List Argument} {written : List UInt8} {total : Int}

private theorem toInt_add (value other : Int) :
    toInt (toInt value + other) = toInt (value + other) := Int.bmod_add_bmod

private theorem printStep_piece (piece : Piece) :
    printStep ⟨piece.format ++ rest, piece.arguments ++ args, written, toInt total⟩ =
      .ok ⟨piece.left rest, args, written ++ piece.output, toInt (total + piece.counted)⟩ := by
  cases piece with
  | text literal =>
    have unmarked : head (literal.ch :: rest) ≠ percentSign := literal.unmarked
    have counts := toInt_add total 1
    simp only [printStep, Piece.format, List.singleton_append, if_neg unmarked, counts]
    rfl
  | string str =>
    have counts := toInt_add total str.length
    simp [printStep, printDirective, Piece.format, head, Piece.arguments, Printing.string,
      percentSign, letterS, bind, Except.bind, counts,
      Piece.left, Piece.output, Piece.counted]
  | percent =>
      simp [printStep, printDirective, Piece.format, head, Piece.arguments, Piece.left,
        Piece.output, Piece.counted]
  | unsigned value | size value | small value | int value | ssize value | pointer value =>
    simp [printStep, printDirective, Piece.format, head, Piece.arguments, Printing.word,
      percentSign, letterS, letterH, letterP, letterZ,
      letterU, letterI, flagSmall, tryFlag, bind, Except.bind, Piece.left,
        Piece.output, Piece.counted]

inductive Shows : List Piece → List Piece → Prop where
  | nil : Shows [] []
  | keep {piece : Piece} {pieces shown : List Piece} (later : Shows pieces shown) :
      Shows (piece :: pieces) (piece :: shown)
  | swallow {value : BitVec 32} {literal : Literal} {pieces shown : List Piece}
      (flag : literal.ch = letterZ)
      (later : Shows pieces shown) : Shows (.pointer value :: .text literal :: pieces)
        (.pointer value :: shown)

private theorem format_cons (piece : Piece) (pieces : List Piece) :
    format (piece :: pieces) = piece.format ++ format pieces := List.flatMap_cons ..

private theorem arguments_cons (piece : Piece) (pieces : List Piece) :
    arguments (piece :: pieces) = piece.arguments ++ arguments pieces := List.flatMap_cons ..

private theorem Piece.format_pos (piece : Piece) : 0 < piece.format.length := by
  cases piece <;> exact Nat.succ_pos _

private theorem Piece.format_head (piece : Piece) (rest : List UInt8) :
    head (piece.format ++ rest) ≠ 0 := by
  cases piece with
  | text literal => exact literal.nonzero
  | percent | string | unsigned | size | small | int | ssize
  | pointer => exact (by decide : percentSign ≠ 0)

private theorem tryFlag_format (pieces : List Piece) :
    (tryFlag letterZ (format pieces)).2 = format pieces ∨
    ∃ literal later, pieces = .text literal :: later ∧ literal.ch = letterZ ∧
    (tryFlag letterZ (format pieces)).2 = format later := by
  by_cases flag : head (format pieces) = letterZ
  · right
    cases pieces with
    | nil =>
      have differ : (0 : UInt8) ≠ letterZ := by decide
      exact absurd flag differ
    | cons piece later =>
      cases piece with
      | text literal => exact ⟨literal, later, rfl, flag, congrArg Prod.snd (if_pos flag)⟩
      | percent | string | unsigned | size | small | int | ssize | pointer =>
        have differ : percentSign ≠ letterZ := by decide
        exact absurd flag differ
  · left
    rw [tryFlag, if_neg flag]

private theorem left_format (piece : Piece) (pieces : List Piece) :
    piece.left (format pieces) = format pieces ∨
    ∃ value literal later, piece = .pointer value ∧ pieces = .text literal :: later ∧
    literal.ch = letterZ ∧
      piece.left (format pieces) = format later := by
  cases piece with
  | pointer value =>
    rcases tryFlag_format pieces with unchanged | ⟨literal, later, same, flag, taken⟩
    · exact .inl unchanged
    · exact .inr ⟨value, literal, later, rfl, same, flag, taken⟩
  | text | percent | string | unsigned | size | small | int | ssize => exact .inl rfl

private theorem printfFrom_step {rounds : Nat} {state next : Printing}
    (unfinished : head state.format ≠ 0) (step : printStep state = .ok next) :
    printfFrom (rounds + 1) state = printfFrom rounds next := by
  rw [printfFrom, if_neg unfinished, step]
  rfl

private theorem printfFrom_pieces (pieces : List Piece) {rounds : Nat}
    (enough : (format pieces).length < rounds) :
    ∃ shown, Shows pieces shown ∧
    printfFrom rounds ⟨format pieces, arguments pieces ++ args, written, toInt total⟩ =
      .ok ⟨[], args, written ++ shown.flatMap Piece.output, toInt (total + counted shown)⟩ := by
  induction length : pieces.length using Nat.strong_induction_on generalizing pieces rounds
    written total with
  | _ size ih =>
    obtain ⟨rounds, rfl⟩ := Nat.exists_eq_succ_of_ne_zero
      (Nat.ne_of_gt (Nat.lt_of_le_of_lt (Nat.zero_le _) enough))
    cases pieces with
    | nil => exact ⟨[], .nil, by simp [printfFrom, format, head, arguments, counted]⟩
    | cons piece pieces =>
      rw [format_cons, List.length_append] at enough
      have positive := piece.format_pos
      have step := @printStep_piece (format pieces) (arguments pieces ++ args) written total piece
      rw [format_cons, arguments_cons, List.append_assoc,
        printfFrom_step (piece.format_head _) step]
      rcases left_format piece pieces with unchanged | ⟨value, literal, later, rfl,
        rfl, flag, taken⟩
      · obtain ⟨shown, shows, done⟩ :=
          @ih pieces.length (by rw [← length]; exact Nat.lt_succ_self _) (written ++ piece.output)
          (total + piece.counted) pieces rounds (by omega) rfl
        refine ⟨piece :: shown, .keep shows, ?_⟩
        rw [unchanged, done, List.flatMap_cons, List.append_assoc, counted, counted,
          List.map_cons, List.sum_cons]
        push_cast
        rw [Int.add_assoc]
      · rw [format_cons, List.length_append] at enough
        obtain ⟨shown, shows, done⟩ :=
          @ih later.length (by rw [← length, List.length_cons, List.length_cons]; omega)
          (written ++ (Piece.pointer value).output) (total + (Piece.pointer value).counted) later
            rounds (by omega) rfl
        refine ⟨.pointer value :: shown, .swallow flag shows, ?_⟩
        rw [taken, arguments_cons, List.append_assoc]
        refine done.trans ?_
        rw [List.flatMap_cons, List.append_assoc, counted, counted, List.map_cons, List.sum_cons]
        push_cast
        rw [Int.add_assoc]

end Steps

section Counting
variable {pieces shown : List Piece}

theorem Piece.counted_eq {piece : Piece} (counts : piece.Counts) :
    piece.counted = piece.output.length := by
  cases piece with
  | text | string => rfl
  | percent | unsigned | size | small | int | ssize | pointer => cases counts

private theorem formatInteger_pos (isNegative : Bool) (value bits : Nat) :
    0 < (formatInteger isNegative value bits).length := by
  rw [formatInteger, List.length_append, List.length_append]
  exact Nat.lt_of_lt_of_le (by decide : 0 < 2) (Nat.le_trans (Nat.le_add_left _ _) (Nat.le_add_right _ _))

theorem Piece.counted_lt {piece : Piece} (uncounted : ¬ piece.Counts) :
    piece.counted < piece.output.length := by
  cases piece with
  | text | string => exact absurd trivial uncounted
  | percent => exact Nat.one_pos
  | unsigned | size | small | pointer => exact formatInteger_pos ..
  | int value | ssize value =>
    rw [Piece.output, formatSigned_eq]
    exact formatInteger_pos ..

private theorem counted_le (pieces : List Piece) :
    counted pieces ≤ (pieces.flatMap Piece.output).length := by
  rw [List.length_flatMap]
  apply List.sum_le_sum
  intro piece _
  by_cases counts : piece.Counts
  · exact (Piece.counted_eq counts).le
  · exact (Piece.counted_lt counts).le

private theorem counted_eq_iff (pieces : List Piece) :
    counted pieces = (pieces.flatMap Piece.output).length ↔ ∀ piece ∈ pieces, piece.Counts := by
  constructor
  · intro same piece member
    by_contra uncounted
    rw [List.length_flatMap] at same
    refine absurd same (Nat.ne_of_lt (List.sum_lt_sum _ _ ?_ ⟨piece, member, Piece.counted_lt uncounted⟩))
    intro other _
    by_cases counts : other.Counts
    · exact (Piece.counted_eq counts).le
    · exact (Piece.counted_lt counts).le
  · intro all
    rw [List.length_flatMap, counted]
    congr 1
    exact List.map_congr_left fun piece member => Piece.counted_eq (all piece member)

private theorem Shows.counts (shows : Shows pieces shown) (all : ∀ piece ∈ shown, piece.Counts) :
    ∀ piece ∈ pieces, piece.Counts := by
  induction shows with
  | nil => nofun
  | keep _ ih =>
    rw [List.forall_mem_cons] at all ⊢
    exact ⟨all.1, ih all.2⟩
  | swallow _ _ ih =>
    rw [List.forall_mem_cons] at all
    cases all.1

private theorem Shows.unchanged (shows : Shows pieces shown)
    (all : ∀ piece ∈ pieces, piece.Counts) : shown = pieces := by
  induction shows with
  | nil => rfl
  | keep _ ih =>
    rw [List.forall_mem_cons] at all
    rw [ih all.2]
  | swallow _ _ ih =>
    rw [List.forall_mem_cons] at all
    cases all.1

/-- A number of characters is returned as it is if it fits into an `int`, else as something less. -/
theorem toInt_natCast (count : Nat) :
    toInt count ≤ count ∧ (toInt count = count ↔ count < 2 ^ 31) := by
  rw [toInt, Int.bmod_def]
  split <;> omega

/-- The number that is returned is the number of characters exactly if all were counted and an `int`
can hold it. -/
theorem returned_iff (shown : List Piece) :
    toInt (counted shown) = (shown.flatMap Piece.output).length ↔
    (∀ piece ∈ shown, piece.Counts) ∧ counted shown < 2 ^ 31 := by
  have total := counted_le shown
  have wrapped := toInt_natCast (counted shown)
  rw [← counted_eq_iff, ← wrapped.2]
  constructor
  · intro returned
    have exactly : counted shown = (shown.flatMap Piece.output).length := by omega
    exact ⟨exactly, by rw [returned, exactly]⟩
  · intro ⟨exactly, same⟩
    rw [same, exactly]

end Counting

private theorem outputs_rendered (pieces : List Piece) :
    List.Forall₂ Piece.Renders pieces (pieces.map Piece.output) := by
  rw [List.forall₂_map_right_iff]
  exact List.forall₂_same.mpr fun piece _ => piece.output_renders

/-- A format works exactly if it has no other directive than `%s`, and an `int` can hold the number
of characters. -/
theorem conforms_iff (pieces : List Piece) (more : List Argument) :
    Conforms pieces more ↔ (∀ piece ∈ pieces, piece.Counts) ∧ counted pieces < 2 ^ 31 := by
  obtain ⟨shown, shows, run⟩ := @printfFrom_pieces more [] 0 pieces _ (Nat.lt_succ_self _)
  rw [List.nil_append, Int.zero_add] at run
  constructor
  · intro ⟨_, final, _, done, _, _, returned⟩
    have same := run.symm.trans done
    rw [Except.ok.injEq] at same
    subst same
    dsimp only at returned
    rw [returned_iff] at returned
    have unchanged := shows.unchanged (shows.counts returned.1)
    rwa [unchanged] at returned
  · intro works
    rw [shows.unchanged works.1] at run
    refine ⟨_, _, outputs_rendered pieces, run, List.flatMap_def, rfl, ?_⟩
    dsimp only
    exact (returned_iff pieces).mpr works

/-- One character is written for `%%`, and 0 is returned. -/
theorem percent_uncounted : ¬ Conforms [.percent] [] := by
  intro ⟨_, final, _, done, _, _, returned⟩
  have run : printf (format [.percent]) (arguments [.percent] ++ []) =
    .ok ⟨[], [], [percentSign], 0⟩ := by decide
  have same := run.symm.trans done
  cases same
  cases returned

end PicoOs.Userland.Stdio
