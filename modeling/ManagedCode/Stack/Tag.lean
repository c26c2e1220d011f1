/-
# ManagedCode.Stack.Tag — the type of one slot of the operand stack.

The machine tells stack values apart by a `StackClass` alone.  A `TypeTag` says more: it keeps the
declared type of a primitive or an enumeration, and from it the signed or unsigned form of an
instruction is chosen.

One tag is *assignable* to another if a slot of the first may be used where the second is required.
Primitives of one stack class are interchangeable, references follow subtyping, `null` is any
reference, and addresses must agree on what they refer to up to the stack class of a primitive.
-/
import ManagedCode.Graph.Subtyping

namespace ManagedCode

/-! ## § Stack classes -/

/-- What the machine itself distinguishes on the stack. -/
inductive StackClass
  | int32
  | int64
  | nativeInt
  | float
  | object
  | valueType
  | address
  deriving DecidableEq

/-- The signed or the unsigned form of an instruction. -/
inductive Signedness
  | signed
  | unsigned
  deriving DecidableEq

namespace Primitive

/-- Integers narrower than 32 bits, truth values and characters are widened to `int32`. -/
def stackClass : Primitive → StackClass
  | .boolean | .char | .i8 | .u8 | .i16 | .u16 | .i32 | .u32 => .int32
  | .i64 | .u64 => .int64
  | .intPtr | .uintPtr => .nativeInt
  | .f32 | .f64 => .float

/-- The form of an instruction that a primitive operand selects. -/
def signedness (p : Primitive) : Signedness := if p.isUnsigned then .unsigned else .signed

end Primitive

/-! ## § Tags -/

/-- The type of one stack slot. -/
inductive TypeTag
  /-- The null reference. -/
  | null
  /-- A value of the type; for a reference type, an object reference. -/
  | value (type : TypeId)
  /-- A managed address of a location that holds a value of the type. -/
  | address (referent : TypeId)
  deriving DecidableEq, Inhabited

namespace TypeTag

/-- **`ofType`** — the tag of a value of a declared type; a by-reference type becomes an address. -/
def ofType (g : TypeGraph) (t : TypeId) : TypeTag :=
  match (g.type t).kind with
  | .byRef referent => .address referent
  | _ => .value t

/-- The stack class of a slot. -/
def stackClass (g : TypeGraph) : TypeTag → StackClass
  | .null => .object
  | .address _ => .address
  | .value t =>
    match (g.type t).kind with
    | .primitive p | .enumType p => p.stackClass
    | .structType => .valueType
    | .classType | .interfaceType | .array _ => .object
    | .byRef _ => .address

/-- The slot holds an object reference or `null`. -/
def isReference (g : TypeGraph) (tag : TypeTag) : Bool := tag.stackClass g == .object

/-- The form of an instruction that the slot selects; only primitives and enumerations select one. -/
def signedness? (g : TypeGraph) : TypeTag → Option Signedness
  | .value t => (g.type t).primitive?.map Primitive.signedness
  | .null | .address _ => none

/-- The declared type behind the tag. -/
def type? : TypeTag → Option TypeId
  | .null => none
  | .value t | .address t => some t

/-- The name of the tag in diagnostics: addresses are written with a trailing `&`. -/
def name (g : TypeGraph) : TypeTag → String
  | .null => "null"
  | .value t => g.nameOf t
  | .address t => g.nameOf t ++ "&"

end TypeTag

/-! ## § Assignability -/

namespace TypeGraph

/-- Both types are represented by primitives of one stack class. -/
def sharePrimitiveClass (g : TypeGraph) (a b : TypeId) : Option Bool :=
  match (g.type a).primitive?, (g.type b).primitive? with
  | some p, some q => some (p.stackClass == q.stackClass)
  | _, _ => none

/-- An address of a `found` location may be used as an address of an `expected` one: the types are equal
or represented by primitives of one stack class. -/
def isReferentCompatible (g : TypeGraph) (found expected : TypeId) : Bool :=
  found == expected || (g.sharePrimitiveClass found expected).getD false

end TypeGraph

/-- **`isAssignable`** — a slot tagged `found` may be used where `expected` is required. -/
def TypeTag.isAssignable (g : TypeGraph) (found expected : TypeTag) : Bool :=
  match found, expected with
  | .null, .null => true
  | .null, .value t => (g.type t).isReference
  | .value a, .value b =>
    a == b || (g.sharePrimitiveClass a b).getD ((g.type a).isReference && g.isSubtype a b)
  | .address a, .address b => g.isReferentCompatible a b
  | _, _ => false

end ManagedCode
