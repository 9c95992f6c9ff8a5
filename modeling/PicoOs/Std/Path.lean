import Mathlib

/-! Paths of `Std/Path`. Strings are lists of bytes. -/

namespace PicoOs.Std

abbrev ImmutableString := List UInt8

structure Path where
  isAbsolute : Bool
  components : List ImmutableString
  deriving DecidableEq

/-- The assertions of the constructor, of `parent` and `filename`, and of `operator/`. -/
inductive PathFault where
  | emptyString
  | noComponent
  | absolute
  deriving DecidableEq

namespace Path

def root : Path := ⟨true, []⟩

/-- `'/'` -/
def slash : UInt8 := 47

/-- The loop of the constructor, with what the lexer has not consumed yet. -/
def consumeComponents : Nat → List UInt8 → List ImmutableString
  | 0, _ => []
  | _, [] => []
  | fuel + 1, input =>
    input.takeWhile (· ≠ slash) :: consumeComponents fuel ((input.dropWhile (· ≠ slash)).drop 1)

/-- The constructor, which needs at most one round for each byte. -/
def construct (path : ImmutableString) : Except PathFault Path :=
  if ¬path.length ≥ 1 then .error .emptyString
  else
    let isAbsolute := path.head? = some slash
    let input := if isAbsolute then path.drop 1 else path
    .ok { isAbsolute, components := consumeComponents input.length input }

def parent (path : Path) : Except PathFault Path :=
  if path.components.length ≥ 1 then .ok { path with components := path.components.dropLast }
  else .error .noComponent

def filename (path : Path) : Except PathFault ImmutableString :=
  match path.components.getLast? with
  | some name => .ok name
  | none => .error .noComponent

def joinComponents : Bool → List ImmutableString → ImmutableString
  | _, [] => []
  | putSlash, component :: rest =>
      (if putSlash then [slash] else []) ++ component ++ joinComponents true rest

def string (path : Path) : ImmutableString :=
  if path.isAbsolute ∧ path.components.length = 0 then [slash]
  else joinComponents path.isAbsolute path.components

/-- `operator/` -/
def append (path rhs : Path) : Except PathFault Path :=
  if rhs.isAbsolute then .error .absolute
  else .ok { path with components := path.components ++ rhs.components }

end Path
end PicoOs.Std
