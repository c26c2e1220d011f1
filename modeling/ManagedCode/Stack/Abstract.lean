/-
# ManagedCode.Stack.Abstract — the operand stack at one point of a body.

A point that no known control flow reaches has no stack.  Nothing is checked there: an instruction leaves
it unreachable and a branch delivers nothing.  Everywhere else an instruction is run through its effect.
-/
import ManagedCode.Instruction.Effect

namespace ManagedCode

/-- What is known about the operand stack at a point. -/
inductive AbstractStack
  | unreachable
  /-- The slots, topmost first. -/
  | reachable (slots : List TypeTag)
  deriving DecidableEq, Inhabited

namespace AbstractStack

/-- Reachable, with nothing on the stack. -/
def empty : AbstractStack := .reachable []

/-- Control may reach the point. -/
def isReachable : AbstractStack → Bool
  | .unreachable => false
  | .reachable _ => true

/-- The slots, topmost first, if the point is reachable. -/
def slots? : AbstractStack → Option (List TypeTag)
  | .unreachable => none
  | .reachable slots => some slots

/-- Number of slots, if the point is reachable. -/
def depth? (s : AbstractStack) : Option Nat := s.slots?.map List.length

/-- The slot at a position below the top, which is position 0. -/
def peek? (s : AbstractStack) (position : Nat) : Option TypeTag := s.slots?.bind (·[position]?)

/-- Names of the slots, bottom first, if the point is reachable. -/
def names? (g : TypeGraph) (s : AbstractStack) : Option (List String) :=
  s.slots?.map fun slots => slots.reverse.map (TypeTag.name g)

/-- The slots in brackets, bottom first, or that the point is unreachable. -/
def text (g : TypeGraph) (s : AbstractStack) : String :=
  match s.names? g with
  | some names => "[" ++ ", ".intercalate names ++ "]"
  | none => "unreachable"

/-! ## § Compatibility -/

/-- Two lists of slots have one depth, and each slot is assignable to its counterpart. -/
def slotsCompatible (g : TypeGraph) : List TypeTag → List TypeTag → Bool
  | [], [] => true
  | found :: rest, expected :: rest' => found.isAssignable g expected && slotsCompatible g rest rest'
  | _, _ => false

/-- **`isCompatible`** — code that was verified with stack `recorded` may be entered with stack `found`. -/
def isCompatible (g : TypeGraph) (found recorded : AbstractStack) : Bool :=
  match found, recorded with
  | .unreachable, .unreachable => true
  | .reachable slots, .reachable expected => slotsCompatible g slots expected
  | _, _ => false

/-! ## § Running instructions -/

/-- **`step`** — the stack after a straight-line instruction. -/
def step (g : TypeGraph) (ctx : MethodContext) (insn : Instruction) :
    AbstractStack → Except VerifierFault AbstractStack
  | .unreachable => .ok .unreachable
  | .reachable slots => do
    let effect ← insn.effect g ctx
    return .reachable (← effect.apply g ctx.system slots)

/-- What a branch does with control and the stack. -/
structure Jump where
  /-- The stack at every target. -/
  delivered : AbstractStack
  /-- The stack at the next instruction. -/
  next : AbstractStack
  deriving DecidableEq, Inhabited

/-- **`jump`** — the stacks after a branch, at its targets and at the next instruction.  `leave` delivers
the empty stack, and nothing continues after a terminal branch. -/
def jump {Target : Type} (g : TypeGraph) (ctx : MethodContext) (branch : Branch Target) :
    AbstractStack → Except VerifierFault Jump
  | .unreachable => .ok ⟨.unreachable, .unreachable⟩
  | .reachable slots => do
    let after ← (branch.effect g ctx).apply g ctx.system slots
    return {
      delivered := if branch.isLeave then .empty else .reachable after
      next := if branch.isTerminal then .unreachable else .reachable after }

end AbstractStack

end ManagedCode
