/-
# ManagedCode.Stack.Expectation — what an instruction requires of a slot that it pops.

An expectation is a predicate on tags together with its description in diagnostics.  `accepts` decides
it; nothing else about a slot matters to the instruction that popped it.
-/
import ManagedCode.Stack.Tag

namespace ManagedCode

/-- A requirement on one popped slot. -/
inductive Expect
  | any
  /-- Exactly `int32`. -/
  | integer32
  /-- An array index or length: `int32` or native int. -/
  | index
  | integer
  /-- An integer or a float. -/
  | numeric
  /-- Anything that can be tested for zero or null. -/
  | truthValue
  /-- An object reference or `null`. -/
  | reference
  /-- A slot assignable to the tag. -/
  | assignable (tag : TypeTag)
  /-- A managed address of a location of the type. -/
  | address (referent : TypeId)
  /-- The receiver of a member that the type declares; a value type is received by address. -/
  | receiver (owner : TypeId)
  /-- A receiver as above, or a value type received by value. -/
  | instanceOf (owner : TypeId)
  /-- An array of the element type. -/
  | arrayOf (element : TypeId)
  /-- An array of anything. -/
  | array
  deriving DecidableEq, Inhabited

namespace Expect

/-- References are received as objects, value types by address. -/
def isReceiver (g : TypeGraph) (owner : TypeId) (found : TypeTag) : Bool :=
  found.isAssignable g (if (g.type owner).isValueType then .address owner else .value owner)

/-- An array of `element`: `null`, or an array whose elements are assignable to `element` and live on
the same side of the divide between values and references. -/
def isArrayOf (g : TypeGraph) (element : TypeId) : TypeTag → Bool
  | .null => true
  | .value t =>
    (g.type t).element?.any fun found =>
      (TypeTag.value found).isAssignable g (.value element)
        && (g.type found).isValueType == (g.type element).isValueType
  | .address _ => false

/-- Any array at all, or `null`. -/
def isArray (g : TypeGraph) : TypeTag → Bool
  | .null => true
  | .value t => (g.type t).element?.isSome
  | .address _ => false

/-- **`accepts`** — the slot meets the requirement. -/
def accepts (g : TypeGraph) (expect : Expect) (found : TypeTag) : Bool :=
  match expect with
  | .any => true
  | .integer32 => found.stackClass g == .int32
  | .index => [StackClass.int32, .nativeInt].contains (found.stackClass g)
  | .integer => [StackClass.int32, .int64, .nativeInt].contains (found.stackClass g)
  | .numeric => [StackClass.int32, .int64, .nativeInt, .float].contains (found.stackClass g)
  | .truthValue => !([StackClass.float, .valueType].contains (found.stackClass g))
  | .reference => found.stackClass g == .object
  | .assignable expected => found.isAssignable g expected
  | .address referent => found.isAssignable g (.address referent)
  | .receiver owner => isReceiver g owner found
  | .instanceOf owner => isReceiver g owner found || found == .value owner
  | .arrayOf element => isArrayOf g element found
  | .array => isArray g found

/-- The requirement in diagnostics. -/
def describe (g : TypeGraph) : Expect → String
  | .any => "any value"
  | .integer32 => "int32"
  | .index => "int32 or native int"
  | .integer => "integer"
  | .numeric => "numeric value"
  | .truthValue => "integer, reference, or address"
  | .reference => "object reference"
  | .assignable tag => tag.name g
  | .address referent => g.nameOf referent ++ "&"
  | .receiver owner | .instanceOf owner => "receiver of type " ++ g.nameOf owner
  | .arrayOf element => g.nameOf element ++ "[]"
  | .array => "array"

end Expect

end ManagedCode
