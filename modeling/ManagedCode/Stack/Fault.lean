/-
# ManagedCode.Stack.Fault — why an instruction does not verify.

A fault records its cause; the wording is derived from the cause by `VerifierFault.message` alone.
-/
import ManagedCode.Stack.Expectation

namespace ManagedCode

/-- Why an instruction is wrong on every stack. -/
inductive InvalidUse
  | conversionTarget
  | checkedFloatConversion
  | instanceAccessToStatic
  | staticAccessToInstance
  | indirectAccessToStruct
  | unboxOfReference
  | newOfNonConstructor
  | virtualCallOfStatic
  | virtualPointerOfStatic
  /-- A result is said to be an operand that is not popped. -/
  | resultNotPopped
  /-- A result is said to be arithmetic, but there are no operands. -/
  | arithmeticWithoutOperands
  deriving DecidableEq, Inhabited

/-- The wording of an invalid use. -/
def InvalidUse.message : InvalidUse → String
  | .conversionTarget => "conversion target must be a numeric type"
  | .checkedFloatConversion => "there are no overflow-checked conversions to floats"
  | .instanceAccessToStatic => "instance field access to a static field"
  | .staticAccessToInstance => "static field access to an instance field"
  | .indirectAccessToStruct => "indirect access to a value type needs `ldobj`/`stobj`"
  | .unboxOfReference => "`unbox` needs a value type"
  | .newOfNonConstructor => "`newobj` needs an instance constructor"
  | .virtualCallOfStatic => "`callvirt` needs an instance method"
  | .virtualPointerOfStatic => "`ldvirtftn` needs an instance method"
  | .resultNotPopped => "result refers to an operand that was not popped"
  | .arithmeticWithoutOperands => "arithmetic result without operands"

/-- Context that an operation needs and was not given. -/
inductive MissingContext
  /-- A virtual call cannot choose its dispatch without the type of the receiver. -/
  | receiverOfVirtualCall
  deriving DecidableEq, Inhabited

/-- The wording of missing context. -/
def MissingContext.message : MissingContext → String
  | .receiverOfVirtualCall => "receiver type of a virtual call"

/-- Why an instruction does not verify against a stack. -/
inductive VerifierFault
  | stackUnderflow (required available : Nat)
  /-- No signed or unsigned form of the instruction exists for the operand. -/
  | unsupportedOperandType (found : TypeTag)
  | missingOperandContext (what : MissingContext)
  | incompatibleOperand (expected : Expect) (found : TypeTag)
  /-- Two operands that cannot be combined with each other. -/
  | incompatiblePair (left right : TypeTag)
  /-- An argument or local that does not exist. -/
  | invalidIndex (index : Nat)
  /-- A `constrained.` that no `callvirt` follows. -/
  | danglingPrefix
  | invalidInstruction (use : InvalidUse)
  deriving DecidableEq, Inhabited

/-- The wording of a fault. -/
def VerifierFault.message (g : TypeGraph) : VerifierFault → String
  | .stackUnderflow required available =>
    s!"stack underflow (needed {required} values, found {available})"
  | .unsupportedOperandType found => s!"unsupported operand type `{found.name g}`"
  | .missingOperandContext what => s!"missing operand context: {what.message}"
  | .incompatibleOperand expected found =>
    s!"expected {expected.describe g} but found `{found.name g}`"
  | .incompatiblePair left right =>
    s!"expected operands of compatible numeric types but found `{left.name g}, {right.name g}`"
  | .invalidIndex index => s!"invalid argument or local index {index}"
  | .danglingPrefix => "`constrained.` prefix must be immediately followed by `callvirt`"
  | .invalidInstruction use => s!"invalid instruction: {use.message}"

end ManagedCode
