/-
# ManagedCode.Builder.Typed — steps that choose their instruction.

These steps say what is wanted and leave the instruction to the types involved: signed or unsigned
arithmetic by the operand on the stack, plain or whole-object access by the type of the location, and the
form of a call by the receiver.  A step of several instructions emits them one after the other.
-/
import ManagedCode.Builder.Basic

namespace ManagedCode

/-- Comparisons that say nothing about sign. -/
inductive Relation
  | equal
  | notEqual
  | less
  | lessOrEqual
  | greater
  | greaterOrEqual
  deriving DecidableEq, Inhabited

namespace Relation

/-- The relation compares for order, and therefore depends on sign. -/
def isOrdering : Relation → Bool
  | .equal | .notEqual => false
  | _ => true

/-- The condition of the branch that tests the relation. -/
def comparison : Relation → Signedness → Comparison
  | .equal, _ => .eq
  | .notEqual, _ => .neUn
  | .less, .signed => .lt
  | .less, .unsigned => .ltUn
  | .lessOrEqual, .signed => .le
  | .lessOrEqual, .unsigned => .leUn
  | .greater, .signed => .gt
  | .greater, .unsigned => .gtUn
  | .greaterOrEqual, .signed => .ge
  | .greaterOrEqual, .unsigned => .geUn

end Relation

namespace SignedChoice

/-- The instruction for operands of either sign, where the choice is among two instructions. -/
def instruction? : SignedChoice → Signedness → Option Instruction
  | .division, .signed => some (.binary .div)
  | .division, .unsigned => some (.binary .divUn)
  | .remainder, .signed => some (.binary .rem)
  | .remainder, .unsigned => some (.binary .remUn)
  | .rightShift, .signed => some (.shift .shr)
  | .rightShift, .unsigned => some (.shift .shrUn)
  | .lessThan, .signed => some (.compare .clt)
  | .lessThan, .unsigned => some (.compare .cltUn)
  | .greaterThan, .signed => some (.compare .cgt)
  | .greaterThan, .unsigned => some (.compare .cgtUn)
  | .conditionalBranch, _ | .conversion, _ => none

end SignedChoice

namespace Draft

/-- **`signednessAt`** — the sign of the operand at a position below the top.  In dead code any choice will
do. -/
def signednessAt (operation : SignedChoice) (position : Nat) (d : Draft) :
    Except EmitError Signedness :=
  match d.stack with
  | .unreachable => .ok .signed
  | .reachable slots =>
    match slots[position]? with
    | none =>
      .error (.verification (.choice operation) (.stackUnderflow (position + 1) slots.length))
    | some tag =>
      match tag.signedness? d.graph with
      | some sign => .ok sign
      | none => .error (.verification (.choice operation) (.unsupportedOperandType tag))

end Draft

namespace Builder

variable {σ : Type} [CodeSink σ]

/-! ## § Constants and locals -/

/-- Pushes a 32-bit constant. -/
def constInt (value : Int32) : Build σ Unit := pushInstruction (.ldcI4 value)

/-- Pushes a 64-bit constant; one that fits 32 bits is widened, which takes fewer bytes. -/
def constLong (value : Int64) : Build σ Unit :=
  if Int32.minValue.toInt ≤ value.toInt && value.toInt ≤ Int32.maxValue.toInt then do
    pushInstruction (.ldcI4 value.toInt32)
    pushInstruction (.conv .i64 false false)
  else pushInstruction (.ldcI8 value)

/-- Pushes a string constant. -/
def constString (text : String) : Build σ Unit := pushInstruction (.ldstr text)

/-- Pushes the value of a local variable. -/
def getLocal (l : LocalSlot) : Build σ Unit := pushInstruction (.localVariable .load l.index)

/-- Pops a value into a local variable. -/
def setLocal (l : LocalSlot) : Build σ Unit := pushInstruction (.localVariable .store l.index)

/-! ## § Operations that depend on sign -/

/-- An operation on two operands whose form the lower one selects. -/
def signedOperation (operation : SignedChoice) : Build σ Unit := do
  let sign ← check (Draft.signednessAt operation 1)
  match operation.instruction? sign with
  | some insn => pushInstruction insn
  | none => pure ()

/-- Divides the lower operand by the upper. -/
def divide : Build σ Unit := signedOperation .division

/-- The remainder of that division. -/
def remainder : Build σ Unit := signedOperation .remainder

/-- Shifts the lower operand right by the upper. -/
def shiftRight : Build σ Unit := signedOperation .rightShift

/-- Whether the lower operand is less than the upper. -/
def compareLess : Build σ Unit := signedOperation .lessThan

/-- Whether the lower operand is greater than the upper. -/
def compareGreater : Build σ Unit := signedOperation .greaterThan

/-- Jumps if the relation holds between the lower and the upper operand.  Equality does not depend on sign,
and holds of references too. -/
def branchIf (relation : Relation) (target : Label) : Build σ Unit := do
  let sign ←
    if relation.isOrdering then check (Draft.signednessAt .conditionalBranch 1)
    else pure Signedness.signed
  pushBranch (.compare (relation.comparison sign) target)

/-- Converts the top of the stack, which is read as unsigned if its type is. -/
def convert (target : Primitive) (checked : Bool) : Build σ Unit := do
  let sign ← check (Draft.signednessAt .conversion 0)
  pushInstruction (.conv target checked (sign == .unsigned))

/-! ## § Memory -/

/-- Loads an array element; a struct is loaded through its address. -/
def loadElement (element : TypeId) : Build σ Unit := do
  if ← view fun d => (d.graph.type element).isStruct then
    pushInstruction (.element .address element)
    pushInstruction (.ldobj element)
  else pushInstruction (.element .load element)

/-- Stores an array element. -/
def storeElement (element : TypeId) : Build σ Unit := pushInstruction (.element .store element)

/-- Loads through an address; a struct is loaded as an object. -/
def loadIndirect (referent : TypeId) : Build σ Unit := do
  if ← view fun d => (d.graph.type referent).isStruct then pushInstruction (.ldobj referent)
  else pushInstruction (.ldind referent)

/-- Stores through an address; a struct is stored as an object. -/
def storeIndirect (referent : TypeId) : Build σ Unit := do
  if ← view fun d => (d.graph.type referent).isStruct then pushInstruction (.stobj referent)
  else pushInstruction (.stind referent)

/-- Uses a field, of an instance or static as the field is. -/
def accessField (access : Access) (field : FieldId) : Build σ Unit := do
  if ← view fun d => (d.graph.field field).isStatic then pushInstruction (.staticField access field)
  else pushInstruction (.instanceField access field)

/-! ## § Calls -/

/-- Calls a method without dispatch. -/
def call (method : MethodId) : Build σ Unit := pushInstruction (.call method)

/-- How an instance method is called on a receiver of a type. -/
inductive Dispatch
  /-- No dispatch: the method is known. -/
  | direct
  /-- Dispatch on an object. -/
  | virtual
  /-- Dispatch on a value that is passed by address. -/
  | constrained
  deriving DecidableEq

/-- **`dispatchOf`** — values dispatch virtual methods through a `constrained.` call; methods that are not
virtual, and those that a sealed receiver declares itself, need no dispatch. -/
def dispatchOf (g : TypeGraph) (method : MethodId) (receiver : TypeId) : Dispatch :=
  let m := g.method method
  let r := g.type receiver
  if r.isValueType && m.isVirtual then .constrained
  else if !m.isVirtual || (r.isSealed && m.owner == receiver) then .direct
  else .virtual

/-- **`callVirtual`** — calls an instance method on a receiver of the given type, without which there is no
way to choose the dispatch. -/
def callVirtual (method : MethodId) (receiver : Option TypeId) : Build σ Unit :=
  match receiver with
  | none =>
    throw (.verification (.instruction (.callvirt method))
      (.missingOperandContext .receiverOfVirtualCall))
  | some r => do
    match ← view fun d => dispatchOf d.graph method r with
    | .direct => pushInstruction (.call method)
    | .virtual => pushInstruction (.callvirt method)
    | .constrained =>
      pushInstruction (.constrained r)
      pushInstruction (.callvirt method)

/-- Constructs a new object. -/
def newObject (constructor : MethodId) : Build σ Unit := pushInstruction (.newobj constructor)

end Builder

end ManagedCode
