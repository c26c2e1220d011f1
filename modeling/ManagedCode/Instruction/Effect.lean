/-
# ManagedCode.Instruction.Effect — the stack effect of every instruction.

`Instruction.effect` and `Branch.effect` are tables: they say what an instruction pops, requires and
pushes in the context of one method.  Neither looks at a stack.  Whether control continues after a
branch is not part of its effect.
-/
import ManagedCode.Instruction.Basic
import ManagedCode.Stack.Effect

namespace ManagedCode

/-! ## § Context -/

/-- Everything about the method under construction that an effect may depend on. -/
structure MethodContext where
  system : SystemTypes
  /-- Argument types, the receiver of an instance method first. -/
  arguments : Array TypeId := #[]
  locals : Array TypeId := #[]
  /-- Missing if nothing is returned. -/
  returnType : Option TypeId := none
  /-- The type of a `constrained.` qualifier just before the instruction. -/
  constrained : Option TypeId := none
  deriving Inhabited

namespace MethodContext

/-- The type of an argument. -/
def argument (ctx : MethodContext) (index : UInt16) : Except VerifierFault TypeId :=
  match ctx.arguments[index.toNat]? with
  | some t => .ok t
  | none => .error (.invalidIndex index.toNat)

/-- The type of a local variable. -/
def localVariable (ctx : MethodContext) (index : UInt16) : Except VerifierFault TypeId :=
  match ctx.locals[index.toNat]? with
  | some t => .ok t
  | none => .error (.invalidIndex index.toNat)

/-- The tag of a value of a primitive type. -/
def primitive (ctx : MethodContext) (p : Primitive) : TypeTag := .value (ctx.system.primitive p)

end MethodContext

/-! ## § Rows that several instructions share -/

namespace StackEffect

/-- Uses a location that needs no operand to be found. -/
def accessLocation (g : TypeGraph) (access : Access) (type : TypeId) : StackEffect :=
  match access with
  | .load => push (.ofType g type)
  | .address => push (.address type)
  | .store => pop (.assignable (.ofType g type))

/-- Uses a field of the instance on the stack.  A value may be read out of a struct that was passed by
value; its address may not be taken, nor may it be written. -/
def accessField (g : TypeGraph) (access : Access) (owner type : TypeId) : StackEffect :=
  match access with
  | .load => replace [.instanceOf owner] (.ofType g type)
  | .address => replace [.receiver owner] (.address type)
  | .store => { pops := [.assignable (.ofType g type), .receiver owner] }

/-- Uses an element of the array on the stack, whose index lies above it. -/
def accessElement (g : TypeGraph) (access : Access) (element : TypeId) : StackEffect :=
  match access with
  | .load => replace [.index, .arrayOf element] (.ofType g element)
  | .address => replace [.index, .arrayOf element] (.address element)
  | .store => { pops := [.assignable (.ofType g element), .index, .arrayOf element] }

/-- Arguments are popped last first. -/
def popArguments (g : TypeGraph) (parameters : List TypeId) : List Expect :=
  parameters.reverse.map fun t => .assignable (.ofType g t)

/-- Calls a method: its arguments, then the receiver of an instance method.  A `constrained.` qualifier
makes the receiver of a virtual call an address. -/
def callMethod (g : TypeGraph) (ctx : MethodContext) (isVirtual : Bool) (m : MethodEntry) :
    StackEffect :=
  let receiver :=
    if m.isStatic then []
    else
      match ctx.constrained with
      | some t => if isVirtual then [.address t] else [.receiver m.owner]
      | none => [.receiver m.owner]
  { pops := popArguments g m.parameters ++ receiver,
    pushes := (m.returnType.map fun t => .type (.ofType g t)).toList }

end StackEffect

/-- The constraint on the operands of a binary operation.  Only additions and subtractions move addresses,
and only operations with one form for all numbers take floats. -/
def BinaryOp.rule : BinaryOp → PairRule
  | .add | .sub => .arithmetic true true
  | .mul | .div | .rem => .arithmetic false true
  | _ => .arithmetic false false

/-! ## § The tables -/

/-- **`effect`** — what a straight-line instruction does to the stack. -/
def Instruction.effect (g : TypeGraph) (ctx : MethodContext) :
    Instruction → Except VerifierFault StackEffect
  | .nop | .constrained _ => .ok .nothing
  | .argument access index => return .accessLocation g access (← ctx.argument index)
  | .localVariable access index => return .accessLocation g access (← ctx.localVariable index)
  | .ldnull => .ok (.push .null)
  | .ldcI4 _ => .ok (.push (.value ctx.system.int32))
  | .ldcI8 _ => .ok (.push (ctx.primitive .i64))
  | .ldcR4 _ => .ok (.push (ctx.primitive .f32))
  | .ldcR8 _ => .ok (.push (ctx.primitive .f64))
  | .ldstr _ => .ok (.push (.value ctx.system.string))
  | .dup => .ok { pops := [.any], pushes := [.popped 0, .popped 0] }
  | .pop => .ok (.pop .any)
  | .binary op => .ok (.binary op.rule [.arithmetic])
  | .shift _ => .ok { pops := [.integer, .integer], pushes := [.popped 1] }
  | .neg => .ok { pops := [.numeric], pushes := [.popped 0] }
  | .complement => .ok { pops := [.integer], pushes := [.popped 0] }
  | .compare _ => .ok (.binary .comparison [.type (.value ctx.system.int32)])
  | .conv target checked _ =>
    if [Primitive.boolean, .char].contains target then .error (.invalidInstruction .conversionTarget)
    else if checked && target.isFloat then .error (.invalidInstruction .checkedFloatConversion)
    else .ok (.replace [.numeric] (ctx.primitive target))
  | .instanceField access f =>
    let entry := g.field f
    if entry.isStatic then .error (.invalidInstruction .instanceAccessToStatic)
    else .ok (.accessField g access entry.owner entry.type)
  | .staticField access f =>
    let entry := g.field f
    if entry.isStatic then .ok (.accessLocation g access entry.type)
    else .error (.invalidInstruction .staticAccessToInstance)
  | .element access t => .ok (.accessElement g access t)
  | .ldlen => .ok (.replace [.array] (ctx.primitive .uintPtr))
  | .newarr t => .ok (.replace [.index] (.value (g.arrayOf t).1))
  | .ldind t =>
    if (g.type t).isStruct then .error (.invalidInstruction .indirectAccessToStruct)
    else .ok (.replace [.address t] (.ofType g t))
  | .stind t =>
    if (g.type t).isStruct then .error (.invalidInstruction .indirectAccessToStruct)
    else .ok { pops := [.assignable (.ofType g t), .address t] }
  | .ldobj t => .ok (.replace [.address t] (.value t))
  | .stobj t => .ok { pops := [.assignable (.value t), .address t] }
  | .initobj t => .ok (.pop (.address t))
  | .box t =>
    let boxed := if (g.type t).isValueType then ctx.system.object else t
    .ok (.replace [.assignable (.ofType g t)] (.value boxed))
  | .unbox t =>
    if (g.type t).isValueType then .ok (.replace [.reference] (.address t))
    else .error (.invalidInstruction .unboxOfReference)
  | .unboxAny t => .ok (.replace [.reference] (.ofType g t))
  | .castclass t | .isinst t => .ok (.replace [.reference] (.value t))
  | .newobj m =>
    let entry := g.method m
    if entry.isConstructor && !entry.isStatic then
      .ok (.replace (StackEffect.popArguments g entry.parameters) (.value entry.owner))
    else .error (.invalidInstruction .newOfNonConstructor)
  | .call m => .ok (.callMethod g ctx false (g.method m))
  | .callvirt m =>
    let entry := g.method m
    if entry.isStatic then .error (.invalidInstruction .virtualCallOfStatic)
    else .ok (.callMethod g ctx true entry)
  | .ldftn _ => .ok (.push (ctx.primitive .intPtr))
  | .ldvirtftn m =>
    let entry := g.method m
    if entry.isStatic then .error (.invalidInstruction .virtualPointerOfStatic)
    else .ok (.replace [.receiver entry.owner] (ctx.primitive .intPtr))
  | .sizeof _ => .ok (.push (ctx.primitive .u32))

/-- **`Branch.effect`** — what a branch does to the stack, its target and what follows it apart. -/
def Branch.effect {Target : Type} (g : TypeGraph) (ctx : MethodContext) :
    Branch Target → StackEffect
  | .br _ | .leave _ | .rethrow | .endfinally => .nothing
  | .brtrue _ | .brfalse _ => .pop .truthValue
  | .compare _ _ => .binary .comparison []
  | .switch _ | .endfilter => .pop .integer32
  | .ret =>
    match ctx.returnType with
    | some t => .pop (.assignable (.ofType g t))
    | none => .nothing
  | .throw => .pop .reference

/-! ## § Types that verification creates -/

/-- **`withResultTypes`** — the graph in which the result type of an instruction exists.  A new array is
the only result whose type may not be in the graph yet; asking for the effect of `newarr` adds it. -/
def TypeGraph.withResultTypes (g : TypeGraph) : Instruction → TypeGraph
  | .newarr t => (g.arrayOf t).2
  | _ => g

end ManagedCode
