/-
# ManagedCode.Instruction.Basic — the instruction set.

Straight-line instructions and branches are separate types: a branch is the only way to leave the
sequence, and it carries targets of whatever type names a place in the code.  Instructions that differ
only in an operation or in the way they reach a location share a constructor, so a table over the
instruction set has one row per shape and the operations have tables of their own.

Argument and local indices are plain here; choosing a short encoding is a matter of the binary layout.
Floating point operands are kept as their bits: two constants are equal exactly if they are the same
datum, a NaN included.
-/
import ManagedCode.Graph.Basic

namespace ManagedCode

/-! ## § Operations -/

/-- The three ways to use a location: read it, take its address, write it. -/
inductive Access
  | load
  | address
  | store
  deriving DecidableEq, Inhabited

/-- Every way to use a location. -/
def Access.all : List Access := [.load, .address, .store]

/-- Binary arithmetic and logic. -/
inductive BinaryOp
  | add
  | sub
  | mul
  | div
  | divUn
  | rem
  | remUn
  | and
  | or
  | xor
  | addOvf
  | addOvfUn
  | subOvf
  | subOvfUn
  | mulOvf
  | mulOvfUn
  deriving DecidableEq, Inhabited

/-- Every binary operation, in declaration order. -/
def BinaryOp.all : List BinaryOp :=
  [.add, .sub, .mul, .div, .divUn, .rem, .remUn, .and, .or, .xor, .addOvf, .addOvfUn, .subOvf,
    .subOvfUn, .mulOvf, .mulOvfUn]

/-- Shifts of a value by an amount. -/
inductive ShiftOp
  | shl
  | shr
  | shrUn
  deriving DecidableEq, Inhabited

/-- Every shift. -/
def ShiftOp.all : List ShiftOp := [.shl, .shr, .shrUn]

/-- Comparisons that push a truth value. -/
inductive CompareOp
  | ceq
  | cgt
  | cgtUn
  | clt
  | cltUn
  deriving DecidableEq, Inhabited

/-- Every comparison that pushes a truth value. -/
def CompareOp.all : List CompareOp := [.ceq, .cgt, .cgtUn, .clt, .cltUn]

/-! ## § Straight-line instructions -/

/-- An instruction after which control always continues with the next one. -/
inductive Instruction
  | nop
  | argument (access : Access) (index : UInt16)
  | localVariable (access : Access) (index : UInt16)
  | ldnull
  | ldcI4 (value : Int32)
  | ldcI8 (value : Int64)
  | ldcR4 (bits : UInt32)
  | ldcR8 (bits : UInt64)
  | ldstr (text : String)
  | dup
  | pop
  | binary (op : BinaryOp)
  | shift (op : ShiftOp)
  | neg
  | complement
  | compare (op : CompareOp)
  /-- Numeric conversion.  A checked one throws on overflow; `unsignedSource` reads the source as
  unsigned, which matters only for checked conversions and for conversions to floats. -/
  | conv (target : Primitive) (checked unsignedSource : Bool)
  | instanceField (access : Access) (field : FieldId)
  | staticField (access : Access) (field : FieldId)
  /-- Array element access; the type is the element type. -/
  | element (access : Access) (type : TypeId)
  | ldlen
  | newarr (element : TypeId)
  /-- Access through an address; the type is the referent type. -/
  | ldind (type : TypeId)
  | stind (type : TypeId)
  | ldobj (type : TypeId)
  | stobj (type : TypeId)
  | initobj (type : TypeId)
  | box (type : TypeId)
  | unbox (type : TypeId)
  | unboxAny (type : TypeId)
  | castclass (type : TypeId)
  | isinst (type : TypeId)
  | newobj (method : MethodId)
  | call (method : MethodId)
  | callvirt (method : MethodId)
  /-- Qualifies the `callvirt` that must follow immediately. -/
  | constrained (type : TypeId)
  | ldftn (method : MethodId)
  | ldvirtftn (method : MethodId)
  | sizeof (type : TypeId)
  deriving DecidableEq, Inhabited

namespace Instruction

/-- The instruction is a virtual call. -/
def isVirtualCall : Instruction → Bool
  | .callvirt _ => true
  | _ => false

/-- The type of a `constrained.` qualifier. -/
def constrained? : Instruction → Option TypeId
  | .constrained t => some t
  | _ => none

/-- The method that is called or constructed with. -/
def callee? : Instruction → Option MethodId
  | .newobj m | .call m | .callvirt m => some m
  | _ => none

end Instruction

/-! ## § Branches -/

/-- The condition of a branch on two operands. -/
inductive Comparison
  | eq
  | neUn
  | ge
  | geUn
  | gt
  | gtUn
  | le
  | leUn
  | lt
  | ltUn
  deriving DecidableEq, Inhabited

/-- Every condition of a branch on two operands. -/
def Comparison.all : List Comparison :=
  [.eq, .neUn, .ge, .geUn, .gt, .gtUn, .le, .leUn, .lt, .ltUn]

/-- An instruction after which control may continue elsewhere, with targets of type `Target`. -/
inductive Branch (Target : Type)
  | br (target : Target)
  | brtrue (target : Target)
  | brfalse (target : Target)
  | compare (comparison : Comparison) (target : Target)
  | switch (targets : List Target)
  /-- Leaves a protected block or a catch handler and empties the stack. -/
  | leave (target : Target)
  | ret
  | throw
  | rethrow
  | endfinally
  | endfilter
  deriving DecidableEq, Inhabited

namespace Branch

variable {Target : Type}

/-- The places that control may continue at, the next instruction apart. -/
def targets : Branch Target → List Target
  | .br t | .brtrue t | .brfalse t | .compare _ t | .leave t => [t]
  | .switch ts => ts
  | .ret | .throw | .rethrow | .endfinally | .endfilter => []

/-- Control never continues with the next instruction. -/
def isTerminal : Branch Target → Bool
  | .brtrue _ | .brfalse _ | .compare _ _ | .switch _ => false
  | _ => true

/-- The branch empties the stack on its way to the target. -/
def isLeave : Branch Target → Bool
  | .leave _ => true
  | _ => false

/-- The same branch with other names for the places. -/
def map {Target' : Type} (f : Target → Target') : Branch Target → Branch Target'
  | .br t => .br (f t)
  | .brtrue t => .brtrue (f t)
  | .brfalse t => .brfalse (f t)
  | .compare c t => .compare c (f t)
  | .switch ts => .switch (ts.map f)
  | .leave t => .leave (f t)
  | .ret => .ret
  | .throw => .throw
  | .rethrow => .rethrow
  | .endfinally => .endfinally
  | .endfilter => .endfilter

@[simp] theorem targets_map {Target' : Type} (f : Target → Target') (b : Branch Target) :
    (b.map f).targets = b.targets.map f := by
  cases b <;> rfl

@[simp] theorem isTerminal_map {Target' : Type} (f : Target → Target') (b : Branch Target) :
    (b.map f).isTerminal = b.isTerminal := by
  cases b <;> rfl

end Branch

end ManagedCode
