import PicoOs.Std.Path
import PicoOs.Std.SortedSet

/-! `Std/HashMap`, which keeps its pairs in a `SortedSet` of `Std/HashTable`. A `HashMap` is
the list of its pairs in ascending order: by the hash of the key, then by the key. The
`HashMaps` below have the trees. -/

namespace PicoOs.Std
open Library

/-- `Hash<Key>::compute` and `operator<=>`. -/
class HashKey (Key : Type) where
  compute : Key → UInt32
  compare : Key → Key → Ordering

/-- `Hash<u32>::compute` -/
def hashWord (value : UInt32) : UInt32 :=
  let value := value ^^^ (value >>> 16)
  let value := value * 0x7feb352d
  let value := value ^^^ (value >>> 15)
  let value := value * 0x846ca68b
  value ^^^ (value >>> 16)

instance : HashKey Nat where
  compute value := hashWord (UInt32.ofNat value)
  compare := Ord.compare

/-- For `i32`, whose bits are those of the `u32`. -/
instance : HashKey Int where
  compute value := hashWord (UInt32.ofNat (value % 2 ^ 32).toNat)
  compare := Ord.compare

/-- The size comes first, then the bytes. -/
instance : HashKey ImmutableString where
  compute := List.foldl (fun hash byte => ((hash <<< 5) + hash) + byte.toUInt32) 5381
  compare := compareLex (compareOn List.length) (List.compareLex Ord.compare)

/-- `operator<` and `operator>` of `HashTable::Node`. -/
def HashKey.order (Key : Type) [HashKey Key] : Comparison Key where
  less first second :=
    if compute first < compute second then true
    else if compute first > compute second then false
    else compare first second = .lt
  greater first second :=
    if compute first > compute second then true
    else if compute first < compute second then false
    else compare first second = .gt

structure HashMap (Key Value : Type) where
  entries : List (Key × Value)

namespace HashMap
variable {Key Value : Type} [HashKey Key]

def empty : HashMap Key Value := ⟨[]⟩

/-- `SortedSet::insert`, by which an equivalent pair is overwritten. -/
def insert (key : Key) (value : Value) : List (Key × Value) → List (Key × Value)
  | [] => [(key, value)]
  | entry :: rest =>
    if (HashKey.order Key).less key entry.1 then (key, value) :: entry :: rest
    else if (HashKey.order Key).greater key entry.1 then entry :: insert key value rest
    else (key, value) :: rest

def set (map : HashMap Key Value) (key : Key) (value : Value) : HashMap Key Value :=
  ⟨insert key value map.entries⟩

def getOpt (map : HashMap Key Value) (key : Key) : Option Value :=
  (map.entries.find? fun entry => (HashKey.order Key).equivalent key entry.1).map Prod.snd

/-- The iterator on the first pair, `none` being the end. Iterators are the keys they
stand at, since a pair never leaves its node. -/
def iter (map : HashMap Key Value) : Option Key := map.entries.head?.map Prod.fst

def at? (map : HashMap Key Value) (iterator : Key) : Option (Key × Value) :=
  map.entries.find? fun entry => (HashKey.order Key).equivalent iterator entry.1

/-- `operator++` of the iterator. -/
def advance (map : HashMap Key Value) (iterator : Key) : Option Key :=
  (map.entries.find? fun entry => (HashKey.order Key).less iterator entry.1).map Prod.fst

/-- `HashMap::Node`. The value is empty in a node that is only used to look for its key. -/
structure Node (Key Value : Type) where
  key : Key
  value : Option Value

def Node.order (Value : Type) : Comparison (Node Key Value) where
  less first second := HashKey.compare first.key second.key = .lt
  greater first second := HashKey.compare first.key second.key = .gt

end HashMap

structure HashTable.Node (T : Type) where
  hash : UInt32
  value : T

/-- `operator<` and `operator>` of `HashTable::Node`. -/
def HashTable.Node.order {T : Type} (order : Comparison T) : Comparison (HashTable.Node T) where
  less first second :=
    if first.hash < second.hash then true
    else if first.hash > second.hash then false
    else order.less first.value second.value
  greater first second :=
    if first.hash > second.hash then true
    else if first.hash < second.hash then false
    else order.greater first.value second.value

inductive MapEvent (Key Value : Type) where
  | set (map : SetId) (key : Key) (value : Value)
  | remove (map : SetId) (key : Key)
  | clear (map : SetId)

/-- All hash maps of one type, whose pairs are in the trees of `SortedSet`. -/
abbrev HashMaps (Key Value : Type) := SortedSets (HashTable.Node (HashMap.Node Key Value))

namespace HashMaps
variable {Key Value : Type} [HashKey Key]

def order (Key Value : Type) [HashKey Key] : Comparison (HashTable.Node (HashMap.Node Key Value)) :=
  HashTable.Node.order (HashMap.Node.order Value)

/-- What `HashTable` makes of `{ key, value }`. -/
def node (key : Key) (value : Option Value) : HashTable.Node (HashMap.Node Key Value) :=
  ⟨HashKey.compute key, key, value⟩

def get (state : HashMaps Key Value) (map : SetId) (key : Key) :
    Except SetFault (Option Value) := do
  match ← (state.sets map).search (order Key Value) state.heap (node key none) with
  | some found =>
    match found.value.value with
    | some value => .ok (some value)
    | none => .error .dangling
  | none => .ok none

def getOpt (state : HashMaps Key Value) (map : SetId) (key : Key) :
    Except SetFault (Option Value) := do
  match ← (state.sets map).search (order Key Value) state.heap (node key none) with
  | some found => .ok found.value.value
  | none => .ok none

def size (state : HashMaps Key Value) (map : SetId) : Nat := (state.sets map).size

def setEvent : MapEvent Key Value → SetEvent (HashTable.Node (HashMap.Node Key Value))
  | .set map key value => .insert map (node key (some value))
  | .remove map key => .remove map (node key none)
  | .clear map => .clear map

def execute (state : HashMaps Key Value) (event : MapEvent Key Value) :
    Except SetFault (HashMaps Key Value) :=
  SortedSets.execute (order Key Value) state (setEvent event)

def machine (Key Value : Type) [HashKey Key] :
    Machine (HashMaps Key Value) (MapEvent Key Value) SetFault where
  permitted _ _ := True
  execute := execute

instance (state : HashMaps Key Value) (event : MapEvent Key Value) :
    Decidable ((machine Key Value).permitted state event) :=
  .isTrue trivial

end HashMaps
end PicoOs.Std
