/-
# ManagedCode.Stack.Effect — what an instruction does to the operand stack.

A `StackEffect` is data: the requirements on the popped slots, topmost first, the results in the order
in which they are pushed, and at most one `PairRule` that relates the top two operands.  `apply` runs an
effect on a list of slots, topmost first.  It looks at the popped slots only, so whatever lies beneath
them is carried over untouched.
-/
import ManagedCode.Graph.System
import ManagedCode.Stack.Fault

namespace ManagedCode

/-! ## § Pairs of operands -/

/-- A constraint between the two operands of a binary instruction. -/
inductive PairRule
  /-- Numeric operands of compatible stack classes, with address arithmetic and floating point operands
  only where allowed. -/
  | arithmetic (addresses floats : Bool)
  /-- Operands that can be compared with each other. -/
  | comparison
  deriving DecidableEq, Inhabited

namespace PairRule

/-- The type of `left op right` for two arithmetic operands.  Equal declared types are kept; otherwise the
result is the signed type of the common class, the native operand of a mixed pair, or the address that
is moved. -/
def arithmeticResult (g : TypeGraph) (system : SystemTypes) (addresses floats : Bool)
    (left right : TypeTag) : Option TypeTag :=
  match left.stackClass g, right.stackClass g with
  | .int32, .int32 => some (if left = right then left else .value system.int32)
  | .int64, .int64 => some (if left = right then left else .value system.int64)
  | .nativeInt, .nativeInt => some (if left = right then left else .value system.intptr)
  | .int32, .nativeInt => some right
  | .nativeInt, .int32 => some left
  | .float, .float =>
    if floats then some (if left = right then left else .value system.double) else none
  | .address, .int32 | .address, .nativeInt => if addresses then some left else none
  | .int32, .address | .nativeInt, .address => if addresses then some right else none
  | .address, .address => if addresses then some (.value system.intptr) else none
  | _, _ => none

/-- Operands of the two classes can be compared with each other. -/
def areComparable : StackClass → StackClass → Bool
  | .int32, .int32 | .int32, .nativeInt | .nativeInt, .int32 | .nativeInt, .nativeInt => true
  | .int64, .int64 | .float, .float | .object, .object => true
  | .address, .address | .address, .nativeInt | .nativeInt, .address => true
  | _, _ => false

/-- **`result?`** — the type of the result, if the operands can be combined; `left` was pushed before
`right`. -/
def result? (g : TypeGraph) (system : SystemTypes) (rule : PairRule) (left right : TypeTag) :
    Option TypeTag :=
  match rule with
  | .arithmetic addresses floats => arithmeticResult g system addresses floats left right
  | .comparison =>
    if areComparable (left.stackClass g) (right.stackClass g) then some (.value system.int32) else none

/-- The result, or the fault that the operands cannot be combined. -/
def result (g : TypeGraph) (system : SystemTypes) (rule : PairRule) (left right : TypeTag) :
    Except VerifierFault TypeTag :=
  match rule.result? g system left right with
  | some tag => .ok tag
  | none => .error (.incompatiblePair left right)

end PairRule

/-! ## § Effects -/

/-- One pushed result. -/
inductive Produce
  | type (tag : TypeTag)
  /-- The tag of the operand at this position; 0 is the top of the stack. -/
  | popped (position : Nat)
  /-- What the pair rule computed. -/
  | arithmetic
  deriving DecidableEq, Inhabited

/-- The effect of one instruction. -/
structure StackEffect where
  /-- Requirements on the popped slots, topmost first. -/
  pops : List Expect := []
  /-- Results, in the order in which they are pushed. -/
  pushes : List Produce := []
  /-- A constraint on the top two popped slots. -/
  pair : Option PairRule := none
  deriving DecidableEq, Inhabited

namespace StackEffect

/-- Neither pops nor pushes. -/
def nothing : StackEffect := {}

/-- Pushes one slot of a fixed type. -/
def push (tag : TypeTag) : StackEffect := { pushes := [.type tag] }

/-- Pops one slot. -/
def pop (expect : Expect) : StackEffect := { pops := [expect] }

/-- Pops slots, topmost first, and pushes one of a fixed type. -/
def replace (pops : List Expect) (tag : TypeTag) : StackEffect := { pops, pushes := [.type tag] }

/-- Pops two operands that are constrained only with each other. -/
def binary (rule : PairRule) (pushes : List Produce) : StackEffect :=
  { pops := [.any, .any], pushes, pair := some rule }

/-- Checks every popped slot against its requirement, topmost first. -/
def checkPops (g : TypeGraph) : List Expect → List TypeTag → Except VerifierFault Unit
  | expect :: expects, found :: rest =>
    if expect.accepts g found then checkPops g expects rest
    else .error (.incompatibleOperand expect found)
  | _, _ => .ok ()

/-- The result of the pair rule, if there is one and it has two operands. -/
def checkPair (g : TypeGraph) (system : SystemTypes) :
    Option PairRule → List TypeTag → Except VerifierFault (Option TypeTag)
  | some rule, right :: left :: _ => (rule.result g system left right).map some
  | _, _ => .ok none

/-- The tag that a result stands for, given the popped slots and the result of the pair rule. -/
def resolveProduce (popped : List TypeTag) (pair : Option TypeTag) :
    Produce → Except VerifierFault TypeTag
  | .type tag => .ok tag
  | .popped position =>
    match popped[position]? with
    | some tag => .ok tag
    | none => .error (.invalidInstruction .resultNotPopped)
  | .arithmetic =>
    match pair with
    | some tag => .ok tag
    | none => .error (.invalidInstruction .arithmeticWithoutOperands)

/-- The tags of all results, in the order in which they are pushed; the first fault wins. -/
def resolvePushes (popped : List TypeTag) (pair : Option TypeTag) :
    List Produce → Except VerifierFault (List TypeTag)
  | [] => .ok []
  | produce :: rest => do
    let tag ← resolveProduce popped pair produce
    let tags ← resolvePushes popped pair rest
    return tag :: tags

/-- **`apply`** — the slots after the instruction, topmost first.  Depth is checked before the operands,
the operands topmost first, and then the pair. -/
def apply (g : TypeGraph) (system : SystemTypes) (effect : StackEffect) (slots : List TypeTag) :
    Except VerifierFault (List TypeTag) :=
  let required := effect.pops.length
  if slots.length < required then .error (.stackUnderflow required slots.length)
  else do
    let popped := slots.take required
    checkPops g effect.pops popped
    let pair ← checkPair g system effect.pair popped
    let pushed ← resolvePushes popped pair effect.pushes
    return pushed.reverse ++ slots.drop required

end StackEffect

end ManagedCode
