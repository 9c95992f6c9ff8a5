import PicoOs.Std.Format

/-! `vformat` undoes the doubling of braces, and what `Formatter` writes for an integer is its
sign and its digits. -/

namespace PicoOs.Std
open Library

def escape (text : List UInt8) : List UInt8 := text.flatMap fun ch => if ch = openBrace ∨ ch = closeBrace then [ch, ch] else [ch]

def placeholder : List UInt8 := [openBrace, closeBrace]

section Vformat
variable {params : List FormatParameter} {builder : StringBuilder} {index : Nat}
  {more rest : List UInt8} {ch : UInt8}

theorem tryConsumeString_pair (first second ch : UInt8) (rest : List UInt8) :
    Lexer.tryConsumeString ⟨ch :: rest⟩ [first, second] =
      if ch = first ∧ rest.head? = some second then (true, ⟨rest.tail⟩) else (false, ⟨ch :: rest⟩) := by
  cases rest with
  | nil => simp [Lexer.tryConsumeString]
  | cons other rest => simp [Lexer.tryConsumeString]

theorem tryConsume_cons {wanted : UInt8} (nonzero : wanted ≠ 0) (ch : UInt8) (rest : List UInt8) :
    Lexer.tryConsume ⟨ch :: rest⟩ wanted = .ok (if ch = wanted then (true, ⟨rest⟩) else (false, ⟨ch :: rest⟩)) := by
  unfold Lexer.tryConsume
  rw [if_pos nonzero]
  by_cases same : ch = wanted
  · simp [Lexer.peekOrNull, Lexer.peek, same]
    rfl
  · simp [Lexer.peekOrNull, Lexer.peek, same]

private theorem formatStep_escaped (ch : UInt8) :
    formatStep params ⟨builder, index, 0, ⟨(if ch = openBrace ∨ ch = closeBrace then [ch, ch] else [ch]) ++ more⟩⟩ =
      .ok ⟨builder ++ [ch], index, 0, ⟨more⟩⟩ := by
  by_cases opens : ch = openBrace
  · subst opens
    simp [formatStep, tryConsumeString_pair]
  by_cases closes : ch = closeBrace
  · subst closes
    simp [formatStep, tryConsumeString_pair, opens]
  · have nonzero : openBrace ≠ 0 := by decide
    simp [formatStep, tryConsumeString_pair, tryConsume_cons nonzero, opens, closes,
      Lexer.peekOrNull, Lexer.peek, Lexer.consume, bind,
      Except.bind]

private theorem formatStep_open : formatStep params ⟨builder, index, 0, ⟨placeholder ++ more⟩⟩ =
    .ok ⟨builder, index, 1, ⟨closeBrace :: more⟩⟩ := by
  have nonzero : openBrace ≠ 0 := by decide
  have differ : closeBrace ≠ openBrace := by decide
  simp [formatStep, placeholder, tryConsumeString_pair, tryConsume_cons nonzero, differ,
    differ.symm, bind, Except.bind]

private theorem formatStep_close {format : FormatParameter} (there : params[index]? = some format) :
    formatStep params ⟨builder, index, 1, ⟨closeBrace :: more⟩⟩ =
      .ok ⟨format builder, index + 1, 0, ⟨more⟩⟩ := by
  have opens : openBrace ≠ 0 := by decide
  have closes : closeBrace ≠ 0 := by decide
  have differ : closeBrace ≠ openBrace := by decide
  simp [formatStep, tryConsume_cons opens, tryConsume_cons closes, differ, there, bind, Except.bind]

theorem vformatFrom_step {rounds : Nat} {state next : Formatting} (some : state.lexer.rest ≠ [])
    (step : formatStep params state = .ok next) :
    vformatFrom params (rounds + 1) state = vformatFrom params rounds next := by
  have unfinished : state.lexer.eof = false := by
    rw [Lexer.eof, List.isEmpty_eq_false_iff]
    exact some
  rw [vformatFrom, unfinished, step]
  rfl

theorem vformatFrom_text (text : List UInt8) {rounds : Nat}
    (enough : (escape text ++ more).length < rounds) :
    ∃ left, more.length < left ∧
    vformatFrom params rounds ⟨builder, index, 0, ⟨escape text ++ more⟩⟩ =
      vformatFrom params left ⟨builder ++ text, index, 0, ⟨more⟩⟩ := by
  induction text generalizing builder rounds with
  | nil => exact ⟨rounds, enough, by rw [List.append_nil]; rfl⟩
  | cons ch text ih =>
    have whole : escape (ch :: text) ++ more = (if ch = openBrace ∨
      ch = closeBrace then [ch, ch] else [ch]) ++ (escape text ++ more) := by
      rw [escape, List.flatMap_cons, List.append_assoc]
      rfl
    rw [whole] at enough ⊢
    obtain ⟨rounds, rfl⟩ := Nat.exists_eq_succ_of_ne_zero
      (Nat.ne_of_gt (Nat.lt_of_le_of_lt (Nat.zero_le _) enough))
    have fewer : (escape text ++ more).length < rounds := by
      rw [List.length_append] at enough
      split at enough <;> simp only [List.length_cons, List.length_nil] at enough <;> omega
    have nonempty : (if ch = openBrace ∨ ch = closeBrace then [ch, ch] else [ch]) ++
      (escape text ++ more) ≠ [] := by
      split <;> exact List.cons_ne_nil _ _
    obtain ⟨left, room, done⟩ := @ih (builder ++ [ch]) rounds fewer
    refine ⟨left, room, ?_⟩
    rw [vformatFrom_step nonempty (formatStep_escaped ch), done, List.append_assoc]
    rfl

private theorem vformatFrom_placeholder {format : FormatParameter} {rounds : Nat}
    (there : params[index]? = some format)
    (enough : (placeholder ++ more).length < rounds) :
    ∃ left, more.length < left ∧
    vformatFrom params rounds ⟨builder, index, 0, ⟨placeholder ++ more⟩⟩ =
      vformatFrom params left ⟨format builder, index + 1, 0, ⟨more⟩⟩ := by
  have length : (placeholder ++ more).length = more.length + 2 := by
    rw [List.length_append, Nat.add_comm]
    rfl
  rw [length] at enough
  obtain ⟨left, rfl⟩ := Nat.exists_eq_add_of_lt enough
  refine ⟨more.length + left + 1, by omega, ?_⟩
  have rounds : more.length + 2 + left + 1 = more.length + left + 1 + 1 + 1 := by omega
  rw [rounds, vformatFrom_step (List.cons_ne_nil _ _) formatStep_open,
    vformatFrom_step (List.cons_ne_nil _ _) (formatStep_close there)]

def template (pieces : List (List UInt8 × List UInt8)) : List UInt8 :=
  pieces.flatMap fun piece => placeholder ++ escape piece.2

/-- The pieces from a parameter on, with the parameters that were used before. -/
theorem vformatFrom_pieces (pieces : List (List UInt8 × List UInt8)) (used : List FormatParameter)
    {rounds : Nat}
    (enough : (template pieces).length < rounds) :
    vformatFrom (used ++ pieces.map fun piece builder => builder ++ piece.1) rounds ⟨builder,
      used.length, 0, ⟨template pieces⟩⟩ =
      .ok ⟨builder ++ pieces.flatMap (fun piece => piece.1 ++ piece.2),
        used.length + pieces.length, 0, ⟨[]⟩⟩ := by
  induction pieces generalizing builder used rounds with
  | nil =>
    obtain ⟨rounds, rfl⟩ := Nat.exists_eq_succ_of_ne_zero (Nat.ne_of_gt enough)
    simp [vformatFrom, template, Lexer.eof]
  | cons piece pieces ih =>
    have whole : template (piece :: pieces) = placeholder ++
      (escape piece.2 ++ template pieces) := by
      rw [template, List.flatMap_cons, List.append_assoc]
      rfl
    have there : (used ++ (piece :: pieces).map fun piece builder => builder ++ piece.1)[used.length]? =
        some fun builder => builder ++ piece.1 := by
      rw [List.getElem?_append_right (Nat.le_refl _), Nat.sub_self]
      rfl
    rw [whole] at enough ⊢
    obtain ⟨between, fewer, first⟩ :=
      @vformatFrom_placeholder _ builder used.length _ _ _ there enough
    obtain ⟨left, room, second⟩ :=
      @vformatFrom_text (used ++ (piece :: pieces).map fun piece builder => builder ++ piece.1)
      (builder ++ piece.1) (used.length + 1) _ piece.2 between fewer
    have rest := @ih (builder ++ piece.1 ++ piece.2)
      (used ++ [fun builder => builder ++ piece.1]) left room
    rw [List.length_append, List.append_assoc] at rest
    rw [first, second]
    refine rest.trans ?_
    simp only [List.flatMap_cons, List.append_assoc, List.length_cons, List.length_nil]
    rw [Nat.zero_add, Nat.add_assoc, Nat.add_comm 1]

end Vformat

/-- Every parameter is used once, in order, and everything else is copied. -/
theorem vformat_template (builder : StringBuilder) (text : List UInt8)
    (pieces : List (List UInt8 × List UInt8)) :
    vformat builder (escape text ++ template pieces) (pieces.map fun piece builder => builder ++ piece.1) =
      .ok ⟨builder ++ text ++ pieces.flatMap (fun piece => piece.1 ++ piece.2),
        pieces.length, 0, ⟨[]⟩⟩ := by
  obtain ⟨left, room, first⟩ :=
    @vformatFrom_text (pieces.map fun piece builder => builder ++ piece.1) builder 0
      (template pieces) text _
    (Nat.lt_succ_self _)
  have rest := @vformatFrom_pieces (builder ++ text) pieces [] left room
  rw [List.nil_append, List.length_nil, Nat.zero_add] at rest
  exact first.trans rest

section Integers
variable {type : IntegralType} {value : Int}

private theorem length_fillBuffer (digits value : Nat) :
    (fillBuffer digits value).length = digits := by
  induction digits generalizing value with
  | zero => rfl
  | succ digits ih => rw [fillBuffer, List.length_cons, ih]

private theorem hexDigit_mem {digit : Nat} (small : digit < 16) :
    hexDigits.getD digit 0 ∈ hexDigits := by
  have each : ∀ digit < 16, hexDigits.getD digit 0 ∈ hexDigits := by decide
  exact each digit small

private theorem hexDigit_value {digit : Nat} (small : digit < 16) :
    hexDigits.idxOf (hexDigits.getD digit 0) = digit := by
  have each : ∀ digit < 16, hexDigits.idxOf (hexDigits.getD digit 0) = digit := by decide
  exact each digit small

private theorem fillBuffer_digits (digits value : Nat) :
    ∀ digit ∈ fillBuffer digits value, digit ∈ hexDigits := by
  induction digits generalizing value with
  | zero => nofun
  | succ digits ih =>
    rw [fillBuffer, List.forall_mem_cons]
    exact ⟨hexDigit_mem (Nat.mod_lt _ (by decide)), ih _⟩

private theorem fillBuffer_value (digits value : Nat) :
    Nat.ofDigits 16 ((fillBuffer digits value).map hexDigits.idxOf) = value % 16 ^ digits := by
  induction digits generalizing value with
  | zero => rw [Nat.pow_zero, Nat.mod_one]; rfl
  | succ digits ih =>
    rw [fillBuffer, List.map_cons, Nat.ofDigits_cons, ih,
      hexDigit_value (Nat.mod_lt _ (by decide)), Nat.pow_succ', Nat.mod_mul]

def hexValue (digits : List UInt8) : Nat := Nat.ofDigits 16 (digits.reverse.map hexDigits.idxOf)

/-- The sign, the prefix and as many digits as the type has. -/
structure Renders (type : IntegralType) (value : Int) (output : List UInt8) : Prop where
  shape : ∃ digits, output = (if value < 0 then [0x2d] else []) ++ [0x30, 0x78] ++ digits ∧
    digits.length = type.bits / 4 ∧
    (∀ digit ∈ digits, digit ∈ hexDigits) ∧ hexValue digits = value.natAbs

structure Formats (type : IntegralType) (value : Int) : Prop where
  returns : ∃ depth output, (∀ builder,
    formatInteger type depth builder value = .ok (builder ++ output)) ∧ Renders type value output
  determines : ∀ other, type.holds other → ∀ depth more output,
    formatInteger type depth [] value = .ok output →
    formatInteger type more [] other = .ok output → other = value

private theorem Renders.determines {other : Int} {output : List UInt8}
    (first : Renders type value output) (second : Renders type other output) :
    other = value := by
  obtain ⟨digits, same, _, _, whole⟩ := first.shape
  obtain ⟨more, equal, _, _, total⟩ := second.shape
  have both := same.symm.trans equal
  by_cases negative : value < 0
  · by_cases below : other < 0
    · rw [if_pos negative, if_pos below, List.append_cancel_left_eq] at both
      subst both
      omega
    · rw [if_pos negative, if_neg below] at both
      cases both
  · by_cases below : other < 0
    · rw [if_neg negative, if_pos below] at both
      cases both
    · rw [if_neg negative, if_neg below, List.append_cancel_left_eq] at both
      subst both
      omega

def IntegralType.Bytes (type : IntegralType) : Prop := 0 < type.bits ∧ type.bits % 8 = 0

instance : Decidable type.Bytes := inferInstanceAs (Decidable (_ ∧ _))

instance : Decidable (type.holds value) :=
  if signed : type.signed then
    decidable_of_iff (-2 ^ (type.bits - 1) ≤ value ∧ value < 2 ^ (type.bits - 1))
      (by rw [IntegralType.holds, if_pos signed])
  else decidable_of_iff (0 ≤ value ∧ value < 2 ^ type.bits)
    (by rw [IntegralType.holds, if_neg signed])

private theorem instantiated_bytes : ∀ type ∈ IntegralType.instantiated, type.Bytes := by decide

def IntegralType.least (type : IntegralType) (value : Int) : Prop :=
  type.signed = true ∧ value = -2 ^ (type.bits - 1)

theorem two_pow_bits (bytes : type.Bytes) : 2 ^ type.bits = 2 * 2 ^ (type.bits - 1) := by
  obtain ⟨bits, same⟩ := Nat.exists_eq_succ_of_ne_zero (Nat.ne_of_gt bytes.1)
  rw [same, Nat.pow_succ']
  rfl

private theorem natAbs_lt (bytes : type.Bytes) (inside : type.holds value) :
    value.natAbs < 2 ^ type.bits := by
  have whole := two_pow_bits bytes
  have cast : (2 : Int) ^ (type.bits - 1) = (2 ^ (type.bits - 1) : Nat) := by norm_cast
  have positive := Nat.two_pow_pos (type.bits - 1)
  unfold IntegralType.holds at inside
  split at inside
  · rw [cast] at inside
    omega
  · have total : (2 : Int) ^ type.bits = (2 ^ type.bits : Nat) := by norm_cast
    rw [total] at inside
    omega

theorem renders_digits (bytes : type.Bytes) (inside : type.holds value) :
    Renders type value ((if value < 0 then [0x2d] else []) ++ [0x30, 0x78] ++ (fillBuffer (type.size * 2) value.natAbs).reverse) := by
  refine ⟨_, rfl, ?_, ?_, ?_⟩
  · rw [List.length_reverse, length_fillBuffer, IntegralType.size]
    have whole := bytes.2
    omega
  · intro digit member
    exact fillBuffer_digits _ _ digit (List.mem_reverse.mp member)
  · have width : 16 ^ (type.size * 2) = 2 ^ type.bits := by
      rw [show 16 = 2 ^ 4 from rfl, ← Nat.pow_mul, IntegralType.size]
      congr 1
      have whole := bytes.2
      omega
    rw [hexValue, List.reverse_reverse, fillBuffer_value, width]
    exact Nat.mod_eq_of_lt (natAbs_lt bytes inside)

theorem formatInteger_nonneg (nonneg : 0 ≤ value) (depth : Nat) (builder : StringBuilder) :
    formatInteger type (depth + 1) builder value =
      .ok (builder ++ ([0x30, 0x78] ++ (fillBuffer (type.size * 2) value.natAbs).reverse)) := by
  have same : value.toNat = value.natAbs := by omega
  rw [formatInteger, if_neg (by omega), List.append_assoc, same]

private theorem holds_signed (inside : type.holds value) (negative : value < 0) :
    type.signed = true ∧ -2 ^ (type.bits - 1) ≤ value := by
  unfold IntegralType.holds at inside
  split at inside
  next signed => exact ⟨signed, inside.1⟩
  next => omega

theorem convert_negated (bytes : type.Bytes) (inside : type.holds value) (negative : value < 0)
    (other : ¬ type.least value) :
    type.convert (-value) = -value := by
  obtain ⟨signed, above⟩ := holds_signed inside negative
  have greater : value ≠ -2 ^ (type.bits - 1) := fun same => other ⟨signed, same⟩
  have whole := two_pow_bits bytes
  have cast : (2 : Int) ^ (type.bits - 1) = (2 ^ (type.bits - 1) : Nat) := by norm_cast
  rw [cast] at above greater
  rw [IntegralType.convert, if_pos signed, whole]
  apply Int.bmod_eq_of_le <;> omega

theorem formatInteger_least (bytes : type.Bytes) (least : type.least value) (depth : Nat)
    (builder : StringBuilder) :
    formatInteger type depth builder value = .error .exhausted := by
  obtain ⟨signed, rfl⟩ := least
  have whole := two_pow_bits bytes
  have cast : (2 : Int) ^ (type.bits - 1) = (2 ^ (type.bits - 1) : Nat) := by norm_cast
  have positive := Nat.two_pow_pos (type.bits - 1)
  have again : type.convert (-(-2 ^ (type.bits - 1))) = -2 ^ (type.bits - 1) := by
    rw [IntegralType.convert, if_pos signed, whole, cast, Int.neg_neg]
    generalize 2 ^ (type.bits - 1) = half at positive ⊢
    have small : (half : Int) % (2 * half : Nat) = half := Int.emod_eq_of_lt (by omega) (by omega)
    rw [Int.bmod, small, if_neg (by omega)]
    omega
  induction depth generalizing builder with
  | zero => rfl
  | succ depth ih =>
    rw [formatInteger, if_pos (by rw [cast]; omega), again]
    exact ih _

private theorem formatInteger_ok (bytes : type.Bytes) (inside : type.holds value) {depth : Nat}
    {output : List UInt8}
    (done : formatInteger type depth [] value = .ok output) : Renders type value output := by
  have renders := renders_digits bytes inside
  cases depth with
  | zero => cases done
  | succ depth =>
    by_cases negative : value < 0
    · by_cases least : type.least value
      · rw [formatInteger_least bytes least] at done
        cases done
      rw [formatInteger, if_pos negative, convert_negated bytes inside negative least] at done
      cases depth with
      | zero => cases done
      | succ depth =>
        rw [formatInteger_nonneg (by omega), Int.natAbs_neg] at done
        cases done
        rwa [if_pos negative] at renders
    · rw [formatInteger_nonneg (by omega)] at done
      cases done
      rwa [if_neg negative] at renders

end Integers

/-- Every value of every type is formatted, apart from the least one of a signed type. -/
theorem formats_iff {type : IntegralType} (instantiated : type ∈ IntegralType.instantiated)
    {value : Int} (inside : type.holds value) :
    Formats type value ↔ ¬ type.least value := by
  have bytes := instantiated_bytes type instantiated
  constructor
  · intro formats least
    obtain ⟨depth, output, done, _⟩ := formats.returns
    have stopped := formatInteger_least bytes least depth []
    rw [done] at stopped
    cases stopped
  · intro other
    refine ⟨⟨2, _, ?_, renders_digits bytes inside⟩, ?_⟩
    · intro builder
      by_cases negative : value < 0
      · rw [formatInteger, if_pos negative, convert_negated bytes inside negative other,
          formatInteger_nonneg (by omega), Int.natAbs_neg,
          if_pos negative, List.append_assoc, List.append_assoc]
      · rw [formatInteger_nonneg (by omega), if_neg negative, List.nil_append]
    · intro other held depth more output first second
      exact (formatInteger_ok bytes inside first).determines (formatInteger_ok bytes held second)

theorem formats_iff_byte : Formats ⟨8, true⟩ (-127) ↔ ¬ IntegralType.least ⟨8, true⟩ (-127) :=
  formats_iff (by decide) (by decide)

/-- There is no number of recursions after which -128 is formatted as an `i8`. -/
theorem formatter_diverges : IntegralType.holds ⟨8, true⟩ (-128) ∧ ¬ Formats ⟨8, true⟩ (-128) := by
  have bytes : IntegralType.Bytes ⟨8, true⟩ := by decide
  have least : IntegralType.least ⟨8, true⟩ (-128) := ⟨rfl, by decide⟩
  refine ⟨by decide, ?_⟩
  intro formats
  obtain ⟨depth, output, done, _⟩ := formats.returns
  have stopped := formatInteger_least bytes least depth []
  rw [done] at stopped
  cases stopped

end PicoOs.Std
