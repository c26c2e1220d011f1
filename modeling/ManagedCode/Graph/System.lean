/-
# ManagedCode.Graph.System — the `System` types that verification itself produces.

Constants, boxed values, array lengths, caught exceptions and filters put values of fixed types on the
stack.  `SystemTypes` names those types, and `addSystemTypes` makes sure that a graph has them.  A name
that the graph already uses keeps its entry, whatever that entry is: nothing here checks that
`System.Int32` is a primitive.
-/
import ManagedCode.Graph.Basic

namespace ManagedCode

/-- The types that instructions refer to without naming them. -/
structure SystemTypes where
  object : TypeId
  valueType : TypeId
  enumType : TypeId
  array : TypeId
  string : TypeId
  exception : TypeId
  boolean : TypeId
  char : TypeId
  sbyte : TypeId
  byte : TypeId
  int16 : TypeId
  uint16 : TypeId
  int32 : TypeId
  uint32 : TypeId
  int64 : TypeId
  uint64 : TypeId
  intptr : TypeId
  uintptr : TypeId
  single : TypeId
  double : TypeId
  deriving DecidableEq, Inhabited

namespace SystemTypes

/-- The type of a primitive. -/
def primitive (s : SystemTypes) : Primitive → TypeId
  | .boolean => s.boolean
  | .char => s.char
  | .i8 => s.sbyte
  | .u8 => s.byte
  | .i16 => s.int16
  | .u16 => s.uint16
  | .i32 => s.int32
  | .u32 => s.uint32
  | .i64 => s.int64
  | .u64 => s.uint64
  | .intPtr => s.intptr
  | .uintPtr => s.uintptr
  | .f32 => s.single
  | .f64 => s.double

/-- All of them, in the order in which they are added to a graph. -/
def all (s : SystemTypes) : List TypeId :=
  [s.object, s.valueType, s.enumType, s.array, s.string, s.exception] ++ Primitive.all.map s.primitive

end SystemTypes

/-- Full name of the type of a primitive. -/
def Primitive.systemName : Primitive → String
  | .boolean => "System.Boolean"
  | .char => "System.Char"
  | .i8 => "System.SByte"
  | .u8 => "System.Byte"
  | .i16 => "System.Int16"
  | .u16 => "System.UInt16"
  | .i32 => "System.Int32"
  | .u32 => "System.UInt32"
  | .i64 => "System.Int64"
  | .u64 => "System.UInt64"
  | .intPtr => "System.IntPtr"
  | .uintPtr => "System.UIntPtr"
  | .f32 => "System.Single"
  | .f64 => "System.Double"

namespace TypeGraph

/-- Adds the type of a primitive, a sealed value type. -/
def addPrimitive (g : TypeGraph) (valueType : TypeId) (p : Primitive) : TypeId × TypeGraph :=
  g.addType p.systemName (.primitive p) (some valueType) (.visible ||| .sealed)

/-- **`addSystemTypes`** — the graph with all system types, the class hierarchy first and then the
primitives; those that are there already are found and not added. -/
def addSystemTypes (g : TypeGraph) : SystemTypes × TypeGraph :=
  let (object, g) := g.addType "System.Object" .classType none .visible
  let (valueType, g) := g.addClass "System.ValueType" object (.visible ||| .abstract)
  let (enumType, g) := g.addClass "System.Enum" valueType (.visible ||| .abstract)
  let (array, g) := g.addClass arrayBaseName object (.visible ||| .abstract)
  let (string, g) := g.addClass "System.String" object (.visible ||| .sealed)
  let (exception, g) := g.addClass "System.Exception" object .visible
  let (boolean, g) := g.addPrimitive valueType .boolean
  let (char, g) := g.addPrimitive valueType .char
  let (sbyte, g) := g.addPrimitive valueType .i8
  let (byte, g) := g.addPrimitive valueType .u8
  let (int16, g) := g.addPrimitive valueType .i16
  let (uint16, g) := g.addPrimitive valueType .u16
  let (int32, g) := g.addPrimitive valueType .i32
  let (uint32, g) := g.addPrimitive valueType .u32
  let (int64, g) := g.addPrimitive valueType .i64
  let (uint64, g) := g.addPrimitive valueType .u64
  let (intptr, g) := g.addPrimitive valueType .intPtr
  let (uintptr, g) := g.addPrimitive valueType .uintPtr
  let (single, g) := g.addPrimitive valueType .f32
  let (double, g) := g.addPrimitive valueType .f64
  ({ object, valueType, enumType, array, string, exception, boolean, char, sbyte, byte, int16, uint16,
      int32, uint32, int64, uint64, intptr, uintptr, single, double }, g)

end TypeGraph

/-! ## § The graph without any other types -/

namespace SystemOnly

/-- The system types. -/
def system : SystemTypes := TypeGraph.empty.addSystemTypes.1

/-- The graph of the system types. -/
def graph : TypeGraph := TypeGraph.empty.addSystemTypes.2

end SystemOnly

end ManagedCode
