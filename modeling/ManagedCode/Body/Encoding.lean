/-
# ManagedCode.Body.Encoding — the bytes of every instruction.

Straight-line instructions use the shortest encoding of an index or a constant.  Branches always use the
long form with 32-bit offsets, so that the size of an instruction never depends on where its targets are.
-/
import ManagedCode.Body.Bytes
import ManagedCode.Flow.Region
import ManagedCode.Instruction.Basic

namespace ManagedCode.Body

/-! ## § User strings -/

/-- The strings that `ldstr` refers to, each once, in the order of first use. -/
structure StringPool where
  strings : Array String := #[]
  deriving DecidableEq, Inhabited

namespace StringPool

/-- The pool with a string in it. -/
def intern (pool : StringPool) (s : String) : StringPool :=
  if pool.strings.contains s then pool else { strings := pool.strings.push s }

/-- The token of a string of the pool: rows count from 1. -/
def token (pool : StringPool) (s : String) : UInt32 :=
  0x70000000 ||| UInt32.ofNat ((pool.strings.toList.idxOf s) + 1)

/-- The pool after an instruction: only `ldstr` adds to it. -/
def internOperand (pool : StringPool) : Instruction → StringPool
  | .ldstr s => pool.intern s
  | _ => pool

end StringPool

/-! ## § Parts of encodings -/

/-- The first byte of every two-byte opcode. -/
def extensionByte : UInt8 := 0xFE

/-- A two-byte opcode. -/
def extended (opcode : UInt8) : List UInt8 := [extensionByte, opcode]

/-- An opcode with a token. -/
def withToken (opcode : UInt8) (token : UInt32) : List UInt8 := opcode :: littleEndian 4 token.toNat

/-- A two-byte opcode with a token. -/
def extendedWithToken (opcode : UInt8) (token : UInt32) : List UInt8 :=
  extended opcode ++ littleEndian 4 token.toNat

/-- The opcodes of one way to use an argument or a local. -/
structure IndexedForms where
  /-- The opcode for index 0, if indices 0 to 3 have opcodes of their own. -/
  short : Option UInt8
  /-- The opcode with a one-byte index. -/
  byteIndex : UInt8
  /-- The second byte of the opcode with a two-byte index. -/
  wordIndex : UInt8

namespace IndexedForms

/-- The shortest form that spells the index out. -/
def spellOut (forms : IndexedForms) (index : UInt16) : List UInt8 :=
  if index ≤ 255 then [forms.byteIndex, index.toUInt8]
  else extended forms.wordIndex ++ littleEndian 2 index.toNat

/-- The shortest form for an index. -/
def encode (forms : IndexedForms) (index : UInt16) : List UInt8 :=
  match forms.short with
  | some base => if index ≤ 3 then [base + index.toUInt8] else forms.spellOut index
  | none => forms.spellOut index

end IndexedForms

/-- The opcodes for arguments. -/
def argumentForms : Access → IndexedForms
  | .load => ⟨some 0x02, 0x0E, 0x09⟩
  | .address => ⟨none, 0x0F, 0x0A⟩
  | .store => ⟨none, 0x10, 0x0B⟩

/-- The opcodes for local variables. -/
def localForms : Access → IndexedForms
  | .load => ⟨some 0x06, 0x11, 0x0C⟩
  | .address => ⟨none, 0x12, 0x0D⟩
  | .store => ⟨some 0x0A, 0x13, 0x0E⟩

/-- The shortest form of a 32-bit constant: an opcode of its own for -1 to 8, one byte, or four. -/
def encodeInt (value : Int32) : List UInt8 :=
  let i := value.toInt
  if -1 ≤ i && i ≤ 8 then littleEndianInt 1 (0x16 + i)
  else if -128 ≤ i && i ≤ 127 then 0x1F :: littleEndianInt 1 i
  else 0x20 :: littleEndianInt 4 i

/-! ## § Opcode tables -/

/-- The opcode of a binary operation. -/
def binaryOpcode : BinaryOp → UInt8
  | .add => 0x58
  | .sub => 0x59
  | .mul => 0x5A
  | .div => 0x5B
  | .divUn => 0x5C
  | .rem => 0x5D
  | .remUn => 0x5E
  | .and => 0x5F
  | .or => 0x60
  | .xor => 0x61
  | .addOvf => 0xD6
  | .addOvfUn => 0xD7
  | .mulOvf => 0xD8
  | .mulOvfUn => 0xD9
  | .subOvf => 0xDA
  | .subOvfUn => 0xDB

/-- The opcode of a shift. -/
def shiftOpcode : ShiftOp → UInt8
  | .shl => 0x62
  | .shr => 0x63
  | .shrUn => 0x64

/-- The second byte of the opcode of a comparison. -/
def compareOpcode : CompareOp → UInt8
  | .ceq => 0x01
  | .cgt => 0x02
  | .cgtUn => 0x03
  | .clt => 0x04
  | .cltUn => 0x05

/-- The opcode of access to a field of an instance. -/
def instanceFieldOpcode : Access → UInt8
  | .load => 0x7B
  | .address => 0x7C
  | .store => 0x7D

/-- The opcode of access to a static field. -/
def staticFieldOpcode : Access → UInt8
  | .load => 0x7E
  | .address => 0x7F
  | .store => 0x80

/-- The opcode of access to an array element. -/
def elementOpcode : Access → UInt8
  | .load => 0xA3
  | .address => 0x8F
  | .store => 0xA4

/-- The opcode of an unchecked conversion. -/
def uncheckedOpcode : Primitive → UInt8
  | .i8 => 0x67
  | .i16 => 0x68
  | .i32 => 0x69
  | .i64 => 0x6A
  | .f32 => 0x6B
  | .f64 => 0x6C
  | .u32 => 0x6D
  | .u64 => 0x6E
  | .u16 | .char => 0xD1
  | .u8 | .boolean => 0xD2
  | .intPtr => 0xD3
  | .uintPtr => 0xE0

/-- The opcode of a checked conversion to an integer from a signed source; floats have none and take the
unchecked one. -/
def checkedOpcode : Primitive → UInt8
  | .i8 => 0xB3
  | .u8 | .boolean => 0xB4
  | .i16 => 0xB5
  | .u16 | .char => 0xB6
  | .i32 => 0xB7
  | .u32 => 0xB8
  | .i64 => 0xB9
  | .u64 => 0xBA
  | .intPtr => 0xD4
  | .uintPtr => 0xD5
  | .f32 => 0x6B
  | .f64 => 0x6C

/-- The opcode of a checked conversion to an integer from an unsigned source; floats have none and take
the unchecked one. -/
def checkedUnsignedOpcode : Primitive → UInt8
  | .i8 => 0x82
  | .i16 => 0x83
  | .i32 => 0x84
  | .i64 => 0x85
  | .u8 | .boolean => 0x86
  | .u16 | .char => 0x87
  | .u32 => 0x88
  | .u64 => 0x89
  | .intPtr => 0x8A
  | .uintPtr => 0x8B
  | .f32 => 0x6B
  | .f64 => 0x6C

/-- The opcode that converts an unsigned integer to the widest float. -/
def unsignedToFloatOpcode : UInt8 := 0x76

/-- A conversion.  From an unsigned source to a float it takes two steps, the second of which narrows the
float and is needed only for the narrower one. -/
def encodeConversion (target : Primitive) (checked unsignedSource : Bool) : List UInt8 :=
  if target.isFloat && unsignedSource then
    unsignedToFloatOpcode :: if target == .f64 then [] else [uncheckedOpcode target]
  else if !checked then [uncheckedOpcode target]
  else if unsignedSource then [checkedUnsignedOpcode target]
  else [checkedOpcode target]

/-- The opcodes that load and store through an address of a primitive. -/
def primitiveIndirectOpcodes : Primitive → UInt8 × UInt8
  | .i8 => (0x46, 0x52)
  | .u8 | .boolean => (0x47, 0x52)
  | .i16 => (0x48, 0x53)
  | .u16 | .char => (0x49, 0x53)
  | .i32 => (0x4A, 0x54)
  | .u32 => (0x4B, 0x54)
  | .i64 | .u64 => (0x4C, 0x55)
  | .intPtr | .uintPtr => (0x4D, 0xDF)
  | .f32 => (0x4E, 0x56)
  | .f64 => (0x4F, 0x57)

/-- **`indirectOpcodes?`** — the opcodes that load and store through an address of the type; a type that is
neither a reference nor represented by a primitive has none and is moved as an object. -/
def indirectOpcodes? (t : TypeEntry) : Option (UInt8 × UInt8) :=
  if t.isReference then some (0x50, 0x51) else t.primitive?.map primitiveIndirectOpcodes

/-! ## § Straight-line instructions -/

/-- **`encode`** — the bytes of a straight-line instruction.  The string of an `ldstr` is in the pool. -/
def encode (g : TypeGraph) (pool : StringPool) : Instruction → List UInt8
  | .nop => [0x00]
  | .argument access index => (argumentForms access).encode index
  | .localVariable access index => (localForms access).encode index
  | .ldnull => [0x14]
  | .ldcI4 value => encodeInt value
  | .ldcI8 value => 0x21 :: littleEndianInt 8 value.toInt
  | .ldcR4 bits => 0x22 :: littleEndian 4 bits.toNat
  | .ldcR8 bits => 0x23 :: littleEndian 8 bits.toNat
  | .ldstr s => withToken 0x72 (pool.token s)
  | .dup => [0x25]
  | .pop => [0x26]
  | .binary op => [binaryOpcode op]
  | .shift op => [shiftOpcode op]
  | .neg => [0x65]
  | .complement => [0x66]
  | .compare op => extended (compareOpcode op)
  | .conv target checked unsignedSource => encodeConversion target checked unsignedSource
  | .instanceField access f => withToken (instanceFieldOpcode access) (g.field f).token
  | .staticField access f => withToken (staticFieldOpcode access) (g.field f).token
  | .element access t => withToken (elementOpcode access) (g.type t).token
  | .ldlen => [0x8E]
  | .newarr t => withToken 0x8D (g.type t).token
  | .ldind t =>
    match indirectOpcodes? (g.type t) with
    | some (load, _) => [load]
    | none => withToken 0x71 (g.type t).token
  | .stind t =>
    match indirectOpcodes? (g.type t) with
    | some (_, store) => [store]
    | none => withToken 0x81 (g.type t).token
  | .ldobj t => withToken 0x71 (g.type t).token
  | .stobj t => withToken 0x81 (g.type t).token
  | .initobj t => extendedWithToken 0x15 (g.type t).token
  | .box t => withToken 0x8C (g.type t).token
  | .unbox t => withToken 0x79 (g.type t).token
  | .unboxAny t => withToken 0xA5 (g.type t).token
  | .castclass t => withToken 0x74 (g.type t).token
  | .isinst t => withToken 0x75 (g.type t).token
  | .newobj m => withToken 0x73 (g.method m).token
  | .call m => withToken 0x28 (g.method m).token
  | .callvirt m => withToken 0x6F (g.method m).token
  | .constrained t => extendedWithToken 0x16 (g.type t).token
  | .ldftn m => extendedWithToken 0x06 (g.method m).token
  | .ldvirtftn m => extendedWithToken 0x07 (g.method m).token
  | .sizeof t => extendedWithToken 0x1C (g.type t).token

/-! ## § Branches -/

/-- The opcode of a conditional branch on two operands. -/
def comparisonOpcode : Comparison → UInt8
  | .eq => 0x3B
  | .ge => 0x3C
  | .gt => 0x3D
  | .le => 0x3E
  | .lt => 0x3F
  | .neUn => 0x40
  | .geUn => 0x41
  | .gtUn => 0x42
  | .leUn => 0x43
  | .ltUn => 0x44

/-- **`branchHead`** — the bytes of a branch before its offsets.  One 32-bit offset per target follows, and
a jump table is preceded by its length. -/
def branchHead : Branch Label → List UInt8
  | .br _ => [0x38]
  | .brfalse _ => [0x39]
  | .brtrue _ => [0x3A]
  | .compare c _ => [comparisonOpcode c]
  | .switch targets => 0x45 :: littleEndian 4 targets.length
  | .leave _ => [0xDD]
  | .ret => [0x2A]
  | .throw => [0x7A]
  | .rethrow => extended 0x1A
  | .endfinally => [0xDC]
  | .endfilter => extended 0x11

/-- Width of a branch offset in bytes. -/
def offsetWidth : Nat := 4

end ManagedCode.Body
