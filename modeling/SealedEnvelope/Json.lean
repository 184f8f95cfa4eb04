set_option autoImplicit false

/-! # JSON documents

A document is a tree of values. The members of an object are listed with their names; the reader and
all operations keep the names of one object distinct, and `find?` looks a name up. `merge` lays one
document over another: objects are merged name by name, everything else is replaced. -/

namespace SealedEnvelope

/-- A JSON number: an integer of 64 bits with or without a minus sign, or else a double. -/
inductive JsonNumber where
  | natural (n : UInt64)
  /-- Minus `n`, for `n` between 1 and 2^63. -/
  | negative (n : UInt64)
  /-- The double with these bits. -/
  | double (bits : UInt64)
deriving DecidableEq, Repr

/-- A JSON document. -/
inductive Json where
  | null
  | bool (b : Bool)
  | number (n : JsonNumber)
  | string (s : String)
  | array (items : List Json)
  | object (members : List (String × Json))
deriving Repr, Inhabited

namespace Json

/-- The members of an object. -/
abbrev Members := List (String × Json)

/-- An integer of 64 bits as a document. -/
def ofNat (n : Nat) : Json := .number (.natural (UInt64.ofNat n))

namespace Members

/-- The value under a name. -/
def find? (name : String) : Members → Option Json
  | [] => none
  | (k, v) :: rest => if k = name then some v else find? name rest

/-- The value under a name replaced by what `f` makes of it; a new name comes last. -/
def alter (name : String) (f : Option Json → Json) : Members → Members
  | [] => [(name, f none)]
  | (k, v) :: rest => if k = name then (k, f (some v)) :: rest else (k, v) :: alter name f rest

/-- The value under a name set to `value`; a new name comes last. -/
def set (name : String) (value : Json) (members : Members) : Members :=
  alter name (fun _ => value) members

/-- A member put in front of the first whose name is not smaller. -/
def insertSorted (member : String × Json) : Members → Members
  | [] => [member]
  | (k, v) :: rest =>
    if k < member.1 then (k, v) :: insertSorted member rest else member :: (k, v) :: rest

/-- The members in ascending order of their names. -/
def sorted (members : Members) : Members := members.foldr insertSorted []

theorem find?_alter_self (name : String) (f : Option Json → Json) (members : Members) :
    find? name (alter name f members) = some (f (find? name members)) := by
  induction members with
  | nil => simp [alter, find?]
  | cons m rest ih => by_cases h : m.1 = name <;> simp [alter, find?, h, ih]

theorem find?_alter_of_ne {name other : String} (h : other ≠ name) (f : Option Json → Json)
    (members : Members) : find? other (alter name f members) = find? other members := by
  induction members with
  | nil => simp [alter, find?, Ne.symm h]
  | cons m rest ih =>
    by_cases hm : m.1 = name
    · simp [alter, find?, hm, Ne.symm h]
    · simp [alter, find?, hm, ih]

end Members

/-! ## Merging -/

mutual

/-- A document laid over a base: objects name by name, everything else replaced. -/
def merge (base : Json) : (overlay : Json) → Json
  | .object members =>
    match base with
    | .object baseMembers => .object (mergeMembers baseMembers members)
    | _ => .object members
  | .null => .null
  | .bool b => .bool b
  | .number n => .number n
  | .string s => .string s
  | .array items => .array items
termination_by structural overlay => overlay

/-- Members laid over the members of a base, one after the other. -/
def mergeMembers (base : Members) : (overlay : Members) → Members
  | [] => base
  | (name, value) :: rest =>
    mergeMembers (base.alter name fun
      | some old => merge old value
      | none => value) rest
termination_by structural overlay => overlay

end

end Json

end SealedEnvelope
