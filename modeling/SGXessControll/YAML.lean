import SGXessControll.Attempts.Attempt
import SGXessControll.Platform

/-!
# The nodes of yaml-cpp

`YAML::Node` as the programs use it: subscripts with a string, `as<std::string>`, sizes,
types and iterators. A document is a tree; the library's sharing of nodes is left out.
-/

namespace SGXess.YAML

set_option autoImplicit false

open Attempts (Attempt)

/-- `NodeType::value`. -/
inductive NodeType where
  | undefined
  | null
  | scalar
  | sequence
  | map
  deriving DecidableEq, Repr

/-- A node with all below it. A subscript of a node that is not const makes an undefined node
for a missing key. -/
inductive Node where
  | undefined
  | null
  | scalar (value : Str)
  | sequence (items : List Node)
  | map (pairs : List (Node × Node))

/-- The exceptions, and `pastEnd` for reading behind the last cell of a vector, which has no
meaning at all. -/
inductive Failure where
  | parserException
  | invalidNode
  | badSubscript
  | typedBadConversion
  | pastEnd
  deriving DecidableEq, Repr

/-- A `YAML::Node`. One without a tree behaves as one on a null node. -/
inductive Handle where
  | invalid
  | valid (n : Node)

/-- `detail::iterator_value`: a node and a pair of nodes. -/
structure IteratorValue where
  node : Handle
  first : Handle
  second : Handle

namespace Node

def type : Node → NodeType
  | undefined => .undefined
  | null => .null
  | scalar _ => .scalar
  | sequence _ => .sequence
  | map _ => .map

def isDefined (n : Node) : Bool := n.type ≠ .undefined

/-- `node::equals` on a string. -/
def equals (n : Node) (key : Str) : Bool :=
  match n with
  | scalar value => value = key
  | _ => false

def lookup (pairs : List (Node × Node)) (key : Str) : Option Node :=
  (pairs.find? fun p => p.1.equals key).map Prod.snd

/-- `node_data::get` of a const node: only a map has values under strings. -/
def field (n : Node) (key : Str) : Option Node :=
  match n with
  | map pairs => lookup pairs key
  | _ => none

def definedPairs (pairs : List (Node × Node)) : List (Node × Node) :=
  pairs.filter fun p => p.1.isDefined && p.2.isDefined

def size : Node → Nat
  | sequence items => (items.takeWhile isDefined).length
  | map pairs => (definedPairs pairs).length
  | _ => 0

/-- What is met from `begin()` to `end()`. -/
def items : Node → List IteratorValue
  | sequence items => items.map fun n => ⟨.valid n, .invalid, .invalid⟩
  | map pairs => (definedPairs pairs).map fun p => ⟨.invalid, .valid p.1, .valid p.2⟩
  | _ => []

/-- The pairs of the map that `convert_to_map` makes; positions become keys. -/
def toPairs : Node → List (Node × Node)
  | map pairs => pairs
  | sequence items => items.mapIdx fun i n => (.scalar (toStr i), n)
  | _ => []

/-- The node after a subscript that is not const. -/
def withKey (n : Node) (key : Str) : Node :=
  match lookup n.toPairs key with
  | some _ => map n.toPairs
  | none => map (n.toPairs ++ [(scalar key, undefined)])

/-- `n[key]` for a node that is not const: the node after it and the value. -/
def subscript {σ : Type} (n : Node) (key : Str) : Attempt Failure σ (Node × Node) :=
  match n with
  | scalar _ => .throw .badSubscript
  | n => .ret (n.withKey key, (lookup n.toPairs key).getD undefined)

end Node

namespace Handle

variable {σ : Type}

def type : Handle → Attempt Failure σ NodeType
  | invalid => .throw .invalidNode
  | valid n => .ret n.type

def size : Handle → Attempt Failure σ Nat
  | invalid => .throw .invalidNode
  | valid n => .ret n.size

/-- `as<std::string>()`. -/
def asString : Handle → Attempt Failure σ Str
  | invalid => .throw .invalidNode
  | valid (.scalar value) => .ret value
  | valid _ => .throw .typedBadConversion

def ofField : Option Node → Handle
  | none => invalid
  | some n => valid n

/-- `h[key]` for a const node. -/
def get (h : Handle) (key : Str) : Attempt Failure σ Handle :=
  match h with
  | invalid => .throw .invalidNode
  | valid (.scalar _) => .throw .badSubscript
  | valid n => .ret (ofField (n.field key))

/-- `h[key].as<std::string>()` for a const node. -/
def textAt (h : Handle) (key : Str) : Attempt Failure σ Str := do
  let value ← h.get key
  value.asString

def items : Handle → List IteratorValue
  | invalid => []
  | valid n => n.items

/-- `*h.begin()`. Where nothing can be iterated, `begin()` and `end()` are one default
iterator, and its value is a null node with a pair of such; an empty vector has no value. -/
def front (h : Handle) : Attempt Failure σ IteratorValue :=
  match h.items with
  | v :: _ => .ret v
  | [] =>
    match h with
    | valid (.sequence _) | valid (.map _) => .throw .pastEnd
    | _ => do
      Attempt.stray
      return ⟨valid .null, valid .null, valid .null⟩

end Handle

/-- `YAML::Load`, where `load` is the parser; `none` for a `ParserException`. -/
def Load {σ : Type} (load : Str → Option Node) (input : Str) : Attempt Failure σ Node :=
  match load input with
  | some n => .ret n
  | none => .throw .parserException

section Lemmas

variable {σ : Type} {s s' : σ} {n : Node} {key : Str}

/-- A key that is no position of a sequence. -/
def Named (key : Str) : Prop := ∃ b ∈ key, b.toNat < 48 ∨ 57 < b.toNat

instance (key : Str) : Decidable (Named key) := inferInstanceAs (Decidable (∃ _ ∈ key, _))

theorem Named.ne_toStr (hkey : Named key) (i : Nat) : toStr i ≠ key := by
  obtain ⟨b, hb, hrange⟩ := hkey
  intro heq
  rw [← heq] at hb
  have hdigit := toStr_digit hb
  omega

namespace Node

theorem lookup_toPairs (hkey : Named key) : lookup n.toPairs key = n.field key := by
  cases n with
  | sequence items =>
    simp only [toPairs, field, lookup, Option.map_eq_none_iff, List.find?_eq_none, List.mem_mapIdx]
    rintro _ ⟨i, _, rfl⟩
    simp only [equals, decide_eq_true_eq]
    exact hkey.ne_toStr i
  | _ => rfl

theorem isMap_of_field {x : Node} (h : n.field key = some x) : ∃ pairs, n = map pairs := by
  cases n with
  | map pairs => exact ⟨pairs, rfl⟩
  | _ => cases h

theorem withKey_of_field {x : Node} (h : n.field key = some x) : n.withKey key = n := by
  obtain ⟨pairs, rfl⟩ := isMap_of_field h
  have hlookup : lookup pairs key = some x := h
  simp only [withKey, toPairs, hlookup]

theorem lookup_append_key {pairs : List (Node × Node)} {other : Str} (hne : other ≠ key) :
    lookup (pairs ++ [(scalar other, undefined)]) key = lookup pairs key := by
  have hsingle : [(scalar other, undefined)].find? (fun p => p.1.equals key) = none := by
    simp [equals, hne]
  rw [lookup, List.find?_append, hsingle, Option.or_none, lookup]

theorem field_withKey {other : Str} (hkey : Named key) (hne : other ≠ key) :
    (n.withKey other).field key = n.field key := by
  have hpairs : lookup n.toPairs key = n.field key := lookup_toPairs hkey
  unfold withKey
  split
  · exact hpairs
  · exact (lookup_append_key hne).trans hpairs

theorem returns_subscript {r : Node × Node} (hkey : Named key) :
    (n.subscript key).Returns s r s' ↔
      (∀ value, n ≠ scalar value) ∧ r = (n.withKey key, (n.field key).getD undefined) ∧ s' = s := by
  rw [← lookup_toPairs hkey]
  cases n <;> simp [subscript]

end Node

namespace Handle

variable {h : Handle}

theorem returns_asString {value : Str} :
    h.asString.Returns s value s' ↔ h = valid (.scalar value) ∧ s' = s := by
  rcases h with _ | (_ | _ | _ | _ | _) <;> simp [asString, eq_comm]

theorem throws_asString_invalidNode :
    h.asString.Throws s .invalidNode s' ↔ h = invalid ∧ s' = s := by
  rcases h with _ | (_ | _ | _ | _ | _) <;> simp [asString]

theorem returns_get {value : Handle} : ((valid n).get key).Returns s value s' ↔
    (∀ v, n ≠ .scalar v) ∧ value = ofField (n.field key) ∧ s' = s := by
  cases n <;> simp [get]

theorem settles_get : ((valid n).get key : Attempt Failure σ Handle).Settles s ↔
    ∀ v, n ≠ .scalar v := by
  cases n <;> simp [get]

theorem not_throws_get_invalidNode : ¬ ((valid n).get key).Throws s .invalidNode s' := by
  cases n <;> simp [get]

theorem ofField_eq_valid {field : Option Node} : ofField field = valid n ↔ field = some n := by
  cases field <;> simp [ofField]

theorem ofField_eq_invalid {field : Option Node} : ofField field = invalid ↔ field = none := by
  cases field <;> simp [ofField]

theorem returns_textAt {value : Str} : ((valid n).textAt key).Returns s value s' ↔
    n.field key = some (.scalar value) ∧ s' = s := by
  simp only [textAt, Attempt.bind_eq, Attempt.returns_bind, returns_get, returns_asString]
  constructor
  · intro h
    obtain ⟨_, _, ⟨_, rfl, rfl⟩, hfield, rfl⟩ := h
    exact ⟨ofField_eq_valid.mp hfield, rfl⟩
  · intro h
    obtain ⟨hfield, rfl⟩ := h
    obtain ⟨pairs, rfl⟩ := Node.isMap_of_field hfield
    exact ⟨_, _, ⟨by simp, rfl, rfl⟩, ofField_eq_valid.mpr hfield, rfl⟩

theorem throws_textAt_invalidNode : ((valid n).textAt key).Throws s .invalidNode s' ↔
    (∀ v, n ≠ .scalar v) ∧ n.field key = none ∧ s' = s := by
  simp only [textAt, Attempt.bind_eq, Attempt.throws_bind, not_throws_get_invalidNode, false_or,
    returns_get, throws_asString_invalidNode]
  constructor
  · intro h
    obtain ⟨_, _, ⟨hscalar, rfl, rfl⟩, hfield, rfl⟩ := h
    exact ⟨hscalar, ofField_eq_invalid.mp hfield, rfl⟩
  · intro h
    obtain ⟨hscalar, hfield, rfl⟩ := h
    exact ⟨_, _, ⟨hscalar, rfl, rfl⟩, ofField_eq_invalid.mpr hfield, rfl⟩

theorem returns_front {v : IteratorValue} :
    h.front.Returns s v s' ↔ h.items.head? = some v ∧ s' = s := by
  unfold front
  split
  · rename_i hitems
    simp [hitems, eq_comm]
  · rename_i hitems
    simp only [hitems, List.head?_nil, reduceCtorEq, false_and, iff_false]
    split
    · exact Attempt.not_returns_throw
    · exact Attempt.not_returns_throw
    · simp [Attempt.returns_bind]

theorem returns_type {type : NodeType} :
    h.type.Returns s type s' ↔ ∃ n, h = valid n ∧ type = n.type ∧ s' = s := by
  cases h <;> simp [Handle.type]

theorem settles_type :
    (h.type : Attempt Failure σ NodeType).Settles s ↔ ∃ n, h = valid n := by
  cases h <;> simp [Handle.type]

theorem avoids_get : (h.get key : Attempt Failure σ Handle).Avoids .parserException := by
  rcases h with _ | (_ | _ | _ | _ | _) <;> intro s s' <;> simp [get]

theorem avoids_asString : (h.asString : Attempt Failure σ Str).Avoids .parserException := by
  rcases h with _ | (_ | _ | _ | _ | _) <;> intro s s' <;> simp [asString]

theorem avoids_type : (h.type : Attempt Failure σ NodeType).Avoids .parserException := by
  cases h <;> intro s s' <;> simp [Handle.type]

theorem avoids_front : (h.front : Attempt Failure σ IteratorValue).Avoids .parserException := by
  unfold front
  split
  · exact Attempt.avoids_ret
  · split
    · exact Attempt.avoids_throw (by decide)
    · exact Attempt.avoids_throw (by decide)
    · exact Attempt.avoids_bind Attempt.avoids_stray fun _ => Attempt.avoids_ret

end Handle

end Lemmas

end SGXess.YAML
