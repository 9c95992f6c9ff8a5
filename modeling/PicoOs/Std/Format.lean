import PicoOs.Library.Outcome

/-! `Std/Format` and the lexer it scans with. A `StringBuilder` is the list of bytes it
holds, and a lexer what it has not consumed yet. -/

namespace PicoOs.Std
open Library

/-- `exhausted` stands for a loop or a recursion that has not come to its end. -/
inductive FormatFault where
  | assert
  | exhausted
  deriving DecidableEq

abbrev StringBuilder := List UInt8

structure Lexer where
  rest : List UInt8

namespace Lexer
variable (lexer : Lexer)

def eof : Bool := lexer.rest.isEmpty

def peek : Option UInt8 := lexer.rest.head?

def peekOrNull : UInt8 := lexer.peek.getD 0

def consume : Except FormatFault (UInt8 × Lexer) :=
  match lexer.rest with
  | [] => .error .assert
  | ch :: rest => .ok (ch, ⟨rest⟩)

def tryConsume (ch : UInt8) : Except FormatFault (Bool × Lexer) :=
  if ch ≠ 0 then
    if lexer.peekOrNull = ch then do
      let (_, lexer) ← lexer.consume
      .ok (true, lexer)
    else .ok (false, lexer)
  else .error .assert

def tryConsumeString (str : List UInt8) : Bool × Lexer :=
  if str.length > lexer.rest.length then (false, lexer)
  else if lexer.rest.take str.length = str then (true, ⟨lexer.rest.drop str.length⟩)
  else (false, lexer)

end Lexer

def openBrace : UInt8 := 0x7b
def closeBrace : UInt8 := 0x7d

/-- What the formatter of a parameter does to the builder. -/
abbrev FormatParameter := StringBuilder → StringBuilder

structure Formatting where
  builder : StringBuilder
  nextParameterIndex : Nat
  curlyBraceLevel : Nat
  lexer : Lexer

/-- The body of the loop in `vformat`. -/
def formatStep (params : List FormatParameter) (state : Formatting) :
    Except FormatFault Formatting :=
  if state.curlyBraceLevel = 0 then
    match state.lexer.tryConsumeString [openBrace, openBrace] with
    | (true, lexer) => .ok { state with builder := state.builder ++ [openBrace], lexer }
    | (false, lexer) =>
      match lexer.tryConsumeString [closeBrace, closeBrace] with
      | (true, lexer) => .ok { state with builder := state.builder ++ [closeBrace], lexer }
      | (false, lexer) => do
        match ← lexer.tryConsume openBrace with
        | (true, lexer) => .ok { state with curlyBraceLevel := 1, lexer }
        | (false, lexer) =>
          if lexer.peekOrNull ≠ closeBrace then do
            let (ch, lexer) ← lexer.consume
            .ok { state with builder := state.builder ++ [ch], lexer }
          else .error .assert
  else do
    match ← state.lexer.tryConsume openBrace with
    | (true, lexer) => .ok { state with curlyBraceLevel := state.curlyBraceLevel + 1, lexer }
    | (false, lexer) =>
      match ← lexer.tryConsume closeBrace with
      | (true, lexer) =>
        if state.curlyBraceLevel - 1 = 0 then
          match params[state.nextParameterIndex]? with
          | some format =>
            .ok { builder := format state.builder, nextParameterIndex := state.nextParameterIndex + 1, curlyBraceLevel := 0, lexer }
          | none => .error .assert
        else .ok { state with curlyBraceLevel := state.curlyBraceLevel - 1, lexer }
      | (false, lexer) => do
        let (_, lexer) ← lexer.consume
        .ok { state with lexer }

def vformatFrom (params : List FormatParameter) : Nat → Formatting → Except FormatFault Formatting
  | 0, _ => .error .exhausted
  | rounds + 1, state =>
    if state.lexer.eof then .ok state
    else do
      let state ← formatStep params state
      vformatFrom params rounds state

/-- Each round of the loop consumes a byte. -/
def vformat (builder : StringBuilder) (fmtstr : List UInt8) (params : List FormatParameter) :
    Except FormatFault Formatting :=
  vformatFrom params (fmtstr.length + 1) ⟨builder, 0, 0, ⟨fmtstr⟩⟩

/-- A type for which `Formatter` is instantiated, by its width in bits. -/
structure IntegralType where
  bits : Nat
  signed : Bool
  deriving DecidableEq

namespace IntegralType

def instantiated : List IntegralType :=
  [⟨8, false⟩, ⟨16, false⟩, ⟨32, false⟩, ⟨64, false⟩, ⟨8, true⟩, ⟨16, true⟩, ⟨32, true⟩, ⟨64, true⟩]

def holds (type : IntegralType) (value : Int) : Prop :=
  if type.signed then -2 ^ (type.bits - 1) ≤ value ∧ value < 2 ^ (type.bits - 1)
  else 0 ≤ value ∧ value < 2 ^ type.bits

/-- The conversion of an integer to the type. -/
def convert (type : IntegralType) (value : Int) : Int :=
  if type.signed then value.bmod (2 ^ type.bits) else value % 2 ^ type.bits

/-- `sizeof(T)` -/
def size (type : IntegralType) : Nat := type.bits / 8

end IntegralType

/-- `"0123456789abcdef"` -/
def hexDigits : List UInt8 :=
  [0x30, 0x31, 0x32, 0x33, 0x34, 0x35, 0x36, 0x37, 0x38, 0x39, 0x61, 0x62, 0x63, 0x64, 0x65, 0x66]

/-- The loop that fills the buffer, the least significant digit first. -/
def fillBuffer : Nat → Nat → List UInt8
  | 0, _ => []
  | digits + 1, value => hexDigits.getD (value % 16) 0 :: fillBuffer digits (value / 16)

/-- `Formatter<T>::format`, to a depth of recursion. -/
def formatInteger (type : IntegralType) :
    Nat → StringBuilder → Int → Except FormatFault StringBuilder
  | 0, _, _ => .error .exhausted
  | depth + 1, builder, value =>
    if value < 0 then formatInteger type depth (builder ++ [0x2d]) (type.convert (-value))
    else .ok (builder ++ [0x30, 0x78] ++ (fillBuffer (type.size * 2) value.toNat).reverse)

end PicoOs.Std
