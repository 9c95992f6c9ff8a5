import PicoOs.Library.CStrings
import PicoOs.Userland.Malloc
import PicoOs.Userland.Store

/-! String functions of the user library, and how the shell makes the arguments of a program
out of a command line. No loop over a string takes more rounds than the memory has bytes. -/

namespace PicoOs.Userland
open Library

inductive StringFault where
  | exhausted
  | malloc (fault : MallocFault)
  deriving DecidableEq

def memorySize : Nat := 2 ^ 32

def strchrFrom (ch : UInt8) : Nat → Store → Nat → Except StringFault (Option Nat × Store)
  | 0, _, _ => .error .exhausted
  | rounds + 1, store, str =>
    let (byte, store) := store.load str
    if byte = 0 then .ok (none, store)
    else
      let (byte, store) := store.load str
      if byte = ch then .ok (some str, store) else strchrFrom ch rounds store (str + 1)

def strchr (store : Store) (str : Nat) (ch : UInt8) : Except StringFault (Option Nat × Store) :=
  strchrFrom ch memorySize store str

def strlenFrom : Nat → Store → Nat → Nat → Except StringFault (Nat × Store)
  | 0, _, _, _ => .error .exhausted
  | rounds + 1, store, str, length =>
    let (byte, store) := store.load str
    if byte = 0 then .ok (length, store) else strlenFrom rounds store (str + 1) (length + 1)

def strlen (store : Store) (str : Nat) : Except StringFault (Nat × Store) :=
  strlenFrom memorySize store str 0

def strcpy (store : Store) (dest src : Nat) : Except StringFault Store := do
  let (length, store) ← strlen store src
  .ok (store.memcpy dest src (length + 1))

/-- With `__libc_heap` afterwards. -/
def strdup (symbols : HeapSymbols) (heap : Nat) (store : Store) (str : Nat) :
    Except StringFault (Nat × Nat × Store) := do
  let (length, store) ← strlen store str
  let (copy, heap) ← (malloc symbols heap (wrap (length + 1))).mapError .malloc
  let store ← strcpy store copy str
  .ok (copy, heap, store)

def subtractBytes (store : Store) (lhs rhs : Nat) : Int × Store :=
  let (left, store) := store.load lhs
  let (right, store) := store.load rhs
  (left.toNat - right.toNat, store)

def strcmpFrom : Nat → Store → Nat → Nat → Except StringFault (Int × Store)
  | 0, _, _, _ => .error .exhausted
  | rounds + 1, store, lhs, rhs =>
    let (left, store) := store.load lhs
    if left = 0 then .ok (subtractBytes store lhs rhs)
    else
      let (left, store) := store.load lhs
      let (right, store) := store.load rhs
      if left = right then strcmpFrom rounds store (lhs + 1) (rhs + 1)
      else .ok (subtractBytes store lhs rhs)

def strcmp (store : Store) (lhs rhs : Nat) : Except StringFault (Int × Store) :=
  strcmpFrom memorySize store lhs rhs

/-- The first loop of `strtok_r`, with `*saveptr` at its end. -/
def skipDelimiters (delim : Nat) : Nat → Store → Nat → Except StringFault (Nat × Store)
  | 0, _, _ => .error .exhausted
  | rounds + 1, store, saveptr => do
    let (ch, store) := store.load saveptr
    let (found, store) ← strchr store delim ch
    if found.isSome then skipDelimiters delim rounds store (saveptr + 1) else .ok (saveptr, store)

/-- The second loop, with the result and `*saveptr` at its end. -/
def findDelimiter (delim begin : Nat) :
    Nat → Store → Nat → Except StringFault (Option Nat × Nat × Store)
  | 0, _, _ => .error .exhausted
  | rounds + 1, store, saveptr => do
    let (ch, store) := store.load saveptr
    if ch = 0 then .ok (if begin = saveptr then none else some begin, saveptr, store)
    else
      let (ch, store) := store.load saveptr
      let (found, store) ← strchr store delim ch
      if found.isSome then .ok (some begin, saveptr + 1, store.put saveptr 0)
      else findDelimiter delim begin rounds store (saveptr + 1)

/-- The result, `*saveptr` and the memory afterwards. -/
def strtokR (store : Store) (str : Option Nat) (delim saveptr : Nat) :
    Except StringFault (Option Nat × Nat × Store) := do
  let saveptr := str.getD saveptr
  let (saveptr, store) ← skipDelimiters delim memorySize store saveptr
  findDelimiter delim saveptr memorySize store saveptr

/-- Calls with `NULL` that follow each other, with what they return. -/
def strtokCalls (delim : Nat) :
    Nat → Store → Nat → Except StringFault (List (Option Nat) × Nat × Store)
  | 0, store, saveptr => .ok ([], saveptr, store)
  | calls + 1, store, saveptr => do
    let (result, saveptr, store) ← strtokR store none delim saveptr
    let (results, saveptr, store) ← strtokCalls delim calls store saveptr
    .ok (result :: results, saveptr, store)

namespace Shell

/-- `while (strtok_r(NULL, " ", &saveptr_clone) != NULL) ++argc;` -/
def countArguments (delim : Nat) : Nat → Store → Nat → Nat → Except StringFault (Nat × Store)
  | 0, _, _, _ => .error .exhausted
  | rounds + 1, store, saveptr, argc => do
    let (result, saveptr, store) ← strtokR store none delim saveptr
    match result with
    | some _ => countArguments delim rounds store saveptr (argc + 1)
    | none => .ok (argc, store)

/-- The loop that stores the arguments from an index on. A null pointer is zero. -/
def storeArguments (delim argv : Nat) : Nat → Store → Nat → Nat → Except StringFault Store
  | 0, store, _, _ => .ok store
  | remaining + 1, store, saveptr, index => do
    let (result, saveptr, store) ← strtokR store none delim saveptr
    storeArguments delim argv remaining (store.putWord (argv + 4 * index) (result.getD 0))
      saveptr (index + 1)

/-- `main` from `strdup` to the end of the loop, with `argc`, `argv` and `__libc_heap` at its
end. -/
def buildArguments (symbols : HeapSymbols) (heap : Nat) (store : Store)
    (delim program saveptr : Nat) :
    Except StringFault (Nat × Nat × Nat × Store) := do
  let (clone, heap, store) ← strdup symbols heap store saveptr
  let (argc, store) ← countArguments delim memorySize store clone 1
  let (argv, heap) ← (malloc symbols heap (wrap ((argc + 1) * 4))).mapError .malloc
  let store := store.putWord argv program
  let store := store.putWord (argv + 4 * argc) 0
  let store ← storeArguments delim argv (argc - 1) store saveptr 1
  .ok (argc, argv, heap, store)

/-- The commands that the shell has itself, in the order in which `main` compares with them. -/
def builtins : List CString :=
  [[0x65, 0x63, 0x68, 0x6f], [0x73, 0x74, 0x61, 0x74], [0x6c, 0x73],
    [0x63, 0x61, 0x74], [0x63, 0x64],
    [0x74, 0x6f, 0x75, 0x63, 0x68]].pmap Subtype.mk (by decide)

/-- The comparisons of `main`, with the literals at these addresses. -/
def isBuiltin : List Nat → Store → Nat → Except StringFault (Bool × Store)
  | [], store, _ => .ok (false, store)
  | name :: names, store, program => do
    let (order, store) ← strcmp store program name
    if order = 0 then .ok (true, store) else isBuiltin names store program

inductive Command where
  | blank
  | builtin
  | missing
  | program (argc argv : Nat)

/-- `main` for a line, from its first `strtok_r` to the arguments of the program. -/
def interpret (symbols : HeapSymbols) (heap : Nat) (store : Store) (names : List Nat)
    (delim buffer : Nat) :
    Except StringFault (Command × Store) := do
  let (program, saveptr, store) ← strtokR store (some buffer) delim 0
  match program with
  | none => .ok (.blank, store)
  | some program =>
    let (found, store) ← isBuiltin names store program
    if found then .ok (.builtin, store)
    else
      let (length, store) ← strlen store program
      if length < 1 then .ok (.missing, store)
      else
        let (argc, argv, _, store) ← buildArguments symbols heap store delim program saveptr
        .ok (.program argc argv, store)

end Shell
end PicoOs.Userland
