/-
# ManagedCode.Instruction.Text — instructions in assembler syntax.

An instruction is its mnemonic followed by its operand.  Members and types are written with their full
names, strings quoted, and floating point constants as their shortest decimals.  A mnemonic depends on
the instruction alone; only operands need the graph.
-/
import ManagedCode.Decimal.Shortest
import ManagedCode.Instruction.Basic
import ManagedCode.Text.Quoted

namespace ManagedCode

/-! ## § Mnemonics -/

/-- The mnemonic of a way to use a location, from the operand's part: `ldloc`, `ldloca`, `stloc`. -/
def Access.mnemonic (location : String) : Access → String
  | .load => "ld" ++ location
  | .address => "ld" ++ location ++ "a"
  | .store => "st" ++ location

/-- The mnemonic of a binary operation. -/
def BinaryOp.mnemonic : BinaryOp → String
  | .add => "add"
  | .sub => "sub"
  | .mul => "mul"
  | .div => "div"
  | .divUn => "div.un"
  | .rem => "rem"
  | .remUn => "rem.un"
  | .and => "and"
  | .or => "or"
  | .xor => "xor"
  | .addOvf => "add.ovf"
  | .addOvfUn => "add.ovf.un"
  | .subOvf => "sub.ovf"
  | .subOvfUn => "sub.ovf.un"
  | .mulOvf => "mul.ovf"
  | .mulOvfUn => "mul.ovf.un"

/-- The mnemonic of a shift. -/
def ShiftOp.mnemonic : ShiftOp → String
  | .shl => "shl"
  | .shr => "shr"
  | .shrUn => "shr.un"

/-- The mnemonic of a comparison that pushes a truth value. -/
def CompareOp.mnemonic : CompareOp → String
  | .ceq => "ceq"
  | .cgt => "cgt"
  | .cgtUn => "cgt.un"
  | .clt => "clt"
  | .cltUn => "clt.un"

/-- The mnemonic of a conditional branch on two operands. -/
def Comparison.mnemonic : Comparison → String
  | .eq => "beq"
  | .neUn => "bne.un"
  | .ge => "bge"
  | .geUn => "bge.un"
  | .gt => "bgt"
  | .gtUn => "bgt.un"
  | .le => "ble"
  | .leUn => "ble.un"
  | .lt => "blt"
  | .ltUn => "blt.un"

/-- How a primitive is written as the target of a conversion: its class and its size in bytes. -/
def Primitive.conversionSuffix : Primitive → String
  | .i8 => "i1"
  | .u8 | .boolean => "u1"
  | .i16 => "i2"
  | .u16 | .char => "u2"
  | .i32 => "i4"
  | .u32 => "u4"
  | .i64 => "i8"
  | .u64 => "u8"
  | .intPtr => "i"
  | .uintPtr => "u"
  | .f32 => "r4"
  | .f64 => "r8"

/-- The mnemonic of a conversion.  An unchecked one says that its source is unsigned only if the target is
a float, for integers of one width do not differ. -/
def conversionMnemonic (target : Primitive) (checked unsignedSource : Bool) : String :=
  let suffix := target.conversionSuffix
  match checked, unsignedSource with
  | false, true => if target.isFloat then s!"conv.r.un (to {suffix})" else s!"conv.{suffix}"
  | false, false => s!"conv.{suffix}"
  | true, false => s!"conv.ovf.{suffix}"
  | true, true => s!"conv.ovf.{suffix}.un"

/-! ## § Instructions -/

/-- **`text`** — a straight-line instruction in assembler syntax. -/
def Instruction.text (g : TypeGraph) : Instruction → String
  | .nop => "nop"
  | .argument access index => access.mnemonic "arg" ++ " " ++ toString index.toNat
  | .localVariable access index => access.mnemonic "loc" ++ " " ++ toString index.toNat
  | .ldnull => "ldnull"
  | .ldcI4 value => "ldc.i4 " ++ toString value.toInt
  | .ldcI8 value => "ldc.i8 " ++ toString value.toInt
  | .ldcR4 bits => "ldc.r4 " ++ BinaryFormat.binary32.text bits.toNat
  | .ldcR8 bits => "ldc.r8 " ++ BinaryFormat.binary64.text bits.toNat
  | .ldstr text => "ldstr " ++ Text.quote text
  | .dup => "dup"
  | .pop => "pop"
  | .binary op => op.mnemonic
  | .shift op => op.mnemonic
  | .neg => "neg"
  | .complement => "not"
  | .compare op => op.mnemonic
  | .conv target checked unsignedSource => conversionMnemonic target checked unsignedSource
  | .instanceField access f => access.mnemonic "fld" ++ " " ++ g.fieldText f
  | .staticField access f => access.mnemonic "sfld" ++ " " ++ g.fieldText f
  | .element access t => access.mnemonic "elem" ++ " " ++ g.nameOf t
  | .ldlen => "ldlen"
  | .newarr t => "newarr " ++ g.nameOf t
  | .ldind t => "ldind " ++ g.nameOf t
  | .stind t => "stind " ++ g.nameOf t
  | .ldobj t => "ldobj " ++ g.nameOf t
  | .stobj t => "stobj " ++ g.nameOf t
  | .initobj t => "initobj " ++ g.nameOf t
  | .box t => "box " ++ g.nameOf t
  | .unbox t => "unbox " ++ g.nameOf t
  | .unboxAny t => "unbox.any " ++ g.nameOf t
  | .castclass t => "castclass " ++ g.nameOf t
  | .isinst t => "isinst " ++ g.nameOf t
  | .newobj m => "newobj " ++ g.methodText m
  | .call m => "call " ++ g.methodText m
  | .callvirt m => "callvirt " ++ g.methodText m
  | .constrained t => "constrained. " ++ g.nameOf t
  | .ldftn m => "ldftn " ++ g.methodText m
  | .ldvirtftn m => "ldvirtftn " ++ g.methodText m
  | .sizeof t => "sizeof " ++ g.nameOf t

/-- A branch in assembler syntax, with its targets written by `target`. -/
def Branch.text {Target : Type} (target : Target → String) : Branch Target → String
  | .br t => "br " ++ target t
  | .brtrue t => "brtrue " ++ target t
  | .brfalse t => "brfalse " ++ target t
  | .compare c t => c.mnemonic ++ " " ++ target t
  | .switch ts => "switch [" ++ ", ".intercalate (ts.map target) ++ "]"
  | .leave t => "leave " ++ target t
  | .ret => "ret"
  | .throw => "throw"
  | .rethrow => "rethrow"
  | .endfinally => "endfinally"
  | .endfilter => "endfilter"

end ManagedCode
