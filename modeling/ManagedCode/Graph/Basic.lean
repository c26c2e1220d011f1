/-
# ManagedCode.Graph.Basic — the types and members that a method body can refer to.

A body is verified against a handful of facts about each type it names: does a value of it live on
the operand stack itself or behind a reference, what does it derive from, which members does it
declare.  `TypeGraph` holds exactly those facts.  A type, field or method is an identity (`TypeId`,
`FieldId`, `MethodId`) into the graph, and the graph only ever grows: an identity that was handed out
keeps its meaning, and adding an entry under a key that is already taken answers the entry that is
there.

Growth is by pure functions that return the identity together with the grown graph.  Interface edges
are the one thing that is added to an existing entry without a new identity.
-/

namespace ManagedCode

/-! ## § Primitives -/

/-- The primitive types that the machine computes with natively. -/
inductive Primitive
  | boolean
  | char
  | i8
  | u8
  | i16
  | u16
  | i32
  | u32
  | i64
  | u64
  | intPtr
  | uintPtr
  | f32
  | f64
  deriving DecidableEq, Inhabited

namespace Primitive

/-- Every primitive, in declaration order. -/
def all : List Primitive :=
  [.boolean, .char, .i8, .u8, .i16, .u16, .i32, .u32, .i64, .u64, .intPtr, .uintPtr, .f32, .f64]

/-- The binary floating point types. -/
def isFloat : Primitive → Bool
  | .f32 | .f64 => true
  | _ => false

/-- The unsigned integers.  Truth values and characters count as unsigned; floats count as signed,
because the only unsigned instructions on floats are about unordered operands. -/
def isUnsigned : Primitive → Bool
  | .boolean | .char | .u8 | .u16 | .u32 | .u64 | .uintPtr => true
  | _ => false

end Primitive

/-! ## § Identities and attributes -/

/-- Identity of a type in a graph. -/
structure TypeId where
  index : Nat
  deriving DecidableEq, Inhabited

/-- Identity of a field in a graph. -/
structure FieldId where
  index : Nat
  deriving DecidableEq, Inhabited

/-- Identity of a method in a graph. -/
structure MethodId where
  index : Nat
  deriving DecidableEq, Inhabited

/-- Attribute bits of a type, in the encoding of the metadata tables. -/
structure TypeFlags where
  bits : UInt32
  deriving DecidableEq, Inhabited

namespace TypeFlags

/-- No attribute at all. -/
def none : TypeFlags := ⟨0⟩

/-- Visible everywhere. -/
def visible : TypeFlags := ⟨0x1⟩

/-- Marks an interface. -/
def interface : TypeFlags := ⟨0x20⟩

/-- Cannot be instantiated. -/
def abstract : TypeFlags := ⟨0x80⟩

/-- Cannot be derived from. -/
def sealed : TypeFlags := ⟨0x100⟩

/-- The union of two sets of attributes. -/
def union (a b : TypeFlags) : TypeFlags := ⟨a.bits ||| b.bits⟩

instance : OrOp TypeFlags := ⟨union⟩

/-- Reads a word of attribute bits; bits without a meaning are dropped. -/
def ofWord (word : UInt32) : TypeFlags :=
  ⟨word &&& (visible ||| interface ||| abstract ||| sealed).bits⟩

/-- Every attribute of `wanted` is set in `flags`. -/
def contains (flags wanted : TypeFlags) : Bool :=
  flags.bits &&& wanted.bits == wanted.bits

end TypeFlags

/-- Attribute bits of a field, in the encoding of the metadata tables. -/
structure FieldFlags where
  bits : UInt16
  deriving DecidableEq, Inhabited

namespace FieldFlags

/-- The field belongs to the type and not to its instances. -/
def static : FieldFlags := ⟨0x10⟩

/-- Reads a word of attribute bits: visibility (0x1, 0x6), static (0x10), initialise-only (0x20) and
literal (0x40).  Bits without a meaning are dropped. -/
def ofWord (word : UInt16) : FieldFlags := ⟨word &&& 0x77⟩

/-- Every attribute of `wanted` is set in `flags`. -/
def contains (flags wanted : FieldFlags) : Bool :=
  flags.bits &&& wanted.bits == wanted.bits

end FieldFlags

/-- Attribute bits of a method, in the encoding of the metadata tables. -/
structure MethodFlags where
  bits : UInt16
  deriving DecidableEq, Inhabited

namespace MethodFlags

/-- The method has no receiver. -/
def static : MethodFlags := ⟨0x10⟩

/-- The method is dispatched on its receiver. -/
def virtual : MethodFlags := ⟨0x40⟩

/-- Reads a word of attribute bits: visibility (0x1, 0x6), static (0x10), final (0x20),
virtual (0x40), hide-by-signature (0x80), abstract (0x400) and special-name (0x800).  Bits without a
meaning are dropped. -/
def ofWord (word : UInt16) : MethodFlags := ⟨word &&& 0xCF7⟩

/-- Every attribute of `wanted` is set in `flags`. -/
def contains (flags wanted : MethodFlags) : Bool :=
  flags.bits &&& wanted.bits == wanted.bits

end MethodFlags

/-! ## § Entries -/

/-- What sort of type an entry describes. -/
inductive TypeKind
  | primitive (repr : Primitive)
  | classType
  | interfaceType
  | structType
  | enumType (underlying : Primitive)
  | array (element : TypeId)
  | byRef (referent : TypeId)
  deriving DecidableEq, Inhabited

/-- A type of the graph. -/
structure TypeEntry where
  /-- Full name; no two types of a graph share one. -/
  name : String
  kind : TypeKind
  /-- Missing for the root class, for interfaces and for by-reference types. -/
  base : Option TypeId
  /-- Interfaces implemented, or super-interfaces, in the order they were recorded. -/
  interfaces : List TypeId := []
  flags : TypeFlags
  /-- Declared fields, oldest first. -/
  fields : List FieldId := []
  /-- Declared methods, oldest first. -/
  methods : List MethodId := []
  /-- Metadata token of the definition or specification row. -/
  token : UInt32

namespace TypeEntry

/-- What an identity outside the graph stands for: a class without a name, a base or members. -/
def absent : TypeEntry := { name := "", kind := .classType, base := none, flags := .none, token := 0 }

instance : Inhabited TypeEntry := ⟨absent⟩

/-- Values of the type live directly in a stack slot. -/
def isValueType (t : TypeEntry) : Bool :=
  match t.kind with
  | .primitive _ | .structType | .enumType _ => true
  | _ => false

/-- Values of the type live behind an object reference. -/
def isReference (t : TypeEntry) : Bool :=
  match t.kind with
  | .classType | .interfaceType | .array _ => true
  | _ => false

/-- The type is an interface. -/
def isInterface (t : TypeEntry) : Bool :=
  match t.kind with
  | .interfaceType => true
  | _ => false

/-- Sealed types cannot be derived from; value types always are. -/
def isSealed (t : TypeEntry) : Bool :=
  t.isValueType || t.flags.contains .sealed

/-- The primitive that represents values of the type: itself, or what an enumeration is over. -/
def primitive? (t : TypeEntry) : Option Primitive :=
  match t.kind with
  | .primitive p | .enumType p => some p
  | _ => none

/-- Value types that are neither primitive nor enumeration, and move only as whole objects. -/
def isStruct (t : TypeEntry) : Bool :=
  match t.kind with
  | .structType => true
  | _ => false

/-- The element type of an array. -/
def element? (t : TypeEntry) : Option TypeId :=
  match t.kind with
  | .array element => some element
  | _ => none

end TypeEntry

/-- A field of the graph. -/
structure FieldEntry where
  /-- The type that declares it. -/
  owner : TypeId
  name : String
  type : TypeId
  flags : FieldFlags
  token : UInt32
  deriving Inhabited

namespace FieldEntry

/-- The field belongs to its type and not to the instances. -/
def isStatic (f : FieldEntry) : Bool := f.flags.contains .static

end FieldEntry

/-- A method of the graph. -/
structure MethodEntry where
  /-- The type that declares it. -/
  owner : TypeId
  name : String
  /-- Declared parameter types, without any receiver. -/
  parameters : List TypeId
  /-- Missing if nothing is returned. -/
  returnType : Option TypeId
  flags : MethodFlags
  token : UInt32
  deriving Inhabited

namespace MethodEntry

/-- The method has no receiver. -/
def isStatic (m : MethodEntry) : Bool := m.flags.contains .static

/-- The method is dispatched on its receiver. -/
def isVirtual (m : MethodEntry) : Bool := m.flags.contains .virtual

/-- Constructors are the methods named `.ctor`. -/
def isConstructor (m : MethodEntry) : Bool := m.name == ".ctor"

end MethodEntry

/-! ## § Tokens -/

/-- The metadata tables that rows are handed out from. -/
inductive MetadataTable
  | typeDefinition
  | field
  | method
  | typeSpecification
  deriving DecidableEq

/-- The token of a table without its row: the table number in the high byte. -/
def MetadataTable.base : MetadataTable → UInt32
  | .typeDefinition => 0x02000000
  | .field => 0x04000000
  | .method => 0x06000000
  | .typeSpecification => 0x1B000000

/-- The token of a row; rows count from 1. -/
def MetadataTable.token (table : MetadataTable) (row : Nat) : UInt32 :=
  table.base ||| UInt32.ofNat row

/-- Arrays and by-reference types are specifications, all others definitions. -/
def TypeKind.table : TypeKind → MetadataTable
  | .array _ | .byRef _ => .typeSpecification
  | _ => .typeDefinition

/-! ## § The graph -/

/-- All types, fields and methods that bodies may refer to, each in the order of creation. -/
structure TypeGraph where
  types : Array TypeEntry := #[]
  fields : Array FieldEntry := #[]
  methods : Array MethodEntry := #[]
  /-- Rows handed out for type definitions. -/
  definitionRows : Nat := 0
  /-- Rows handed out for type specifications. -/
  specificationRows : Nat := 0
  deriving Inhabited

namespace TypeGraph

/-- The graph without any type. -/
def empty : TypeGraph := {}

/-- The entry of a type. -/
def type (g : TypeGraph) (t : TypeId) : TypeEntry := g.types.getD t.index .absent

/-- The entry of a field. -/
def field (g : TypeGraph) (f : FieldId) : FieldEntry := g.fields.getD f.index default

/-- The entry of a method. -/
def method (g : TypeGraph) (m : MethodId) : MethodEntry := g.methods.getD m.index default

/-- The full name of a type. -/
def nameOf (g : TypeGraph) (t : TypeId) : String := (g.type t).name

/-- The type with exactly the given full name. -/
def lookup? (g : TypeGraph) (name : String) : Option TypeId :=
  (g.types.findIdx? (·.name == name)).map TypeId.mk

/-! ### Adding types -/

/-- The rows handed out so far in the table that a kind of type belongs to. -/
def typeRows (g : TypeGraph) (kind : TypeKind) : Nat :=
  match kind.table with
  | .typeSpecification => g.specificationRows
  | _ => g.definitionRows

/-- **`addType`** — a new type under a name that is still free; a name that is taken answers the type
that has it, and the other arguments are ignored. -/
def addType (g : TypeGraph) (name : String) (kind : TypeKind) (base : Option TypeId)
    (flags : TypeFlags) : TypeId × TypeGraph :=
  match g.lookup? name with
  | some existing => (existing, g)
  | none =>
    let row := g.typeRows kind + 1
    let entry : TypeEntry := { name, kind, base, flags, token := kind.table.token row }
    let grown := { g with types := g.types.push entry }
    (⟨g.types.size⟩,
      match kind.table with
      | .typeSpecification => { grown with specificationRows := row }
      | _ => { grown with definitionRows := row })

/-- A class that derives from `base`. -/
def addClass (g : TypeGraph) (name : String) (base : TypeId) (flags : TypeFlags) :
    TypeId × TypeGraph :=
  g.addType name .classType (some base) flags

/-- An interface: visible, abstract and without a base. -/
def addInterface (g : TypeGraph) (name : String) : TypeId × TypeGraph :=
  g.addType name .interfaceType none (.visible ||| .interface ||| .abstract)

/-- A structured value type, always sealed. -/
def addValueType (g : TypeGraph) (name : String) (base : TypeId) (flags : TypeFlags) :
    TypeId × TypeGraph :=
  g.addType name .structType (some base) (flags ||| .sealed)

/-- An enumeration over a primitive. -/
def addEnum (g : TypeGraph) (name : String) (base : TypeId) (underlying : Primitive) :
    TypeId × TypeGraph :=
  g.addType name (.enumType underlying) (some base) (.visible ||| .sealed)

/-- Full name of the class that arrays derive from. -/
def arrayBaseName : String := "System.Array"

/-- The one-dimensional array of an element type, under the element's name followed by `[]`.  It
derives from the array class if the graph has one when the array is first asked for. -/
def arrayOf (g : TypeGraph) (element : TypeId) : TypeId × TypeGraph :=
  g.addType (g.nameOf element ++ "[]") (.array element) (g.lookup? arrayBaseName)
    (.visible ||| .sealed)

/-- The managed reference to a location of a type, under the referent's name followed by `&`. -/
def byRef (g : TypeGraph) (referent : TypeId) : TypeId × TypeGraph :=
  g.addType (g.nameOf referent ++ "&") (.byRef referent) none .none

/-! ### Adding edges and members -/

/-- Replaces the entry of a type by its image; an identity outside the graph changes nothing. -/
def updateType (g : TypeGraph) (t : TypeId) (change : TypeEntry → TypeEntry) : TypeGraph :=
  { g with types := g.types.modify t.index change }

/-- Records that a type implements an interface, once. -/
def addInterfaceImpl (g : TypeGraph) (implementer interface : TypeId) : TypeGraph :=
  if (g.type implementer).interfaces.contains interface then g
  else g.updateType implementer fun e => { e with interfaces := e.interfaces ++ [interface] }

/-- **`addField`** — a field of `owner`; a name that `owner` already declares answers the field that
has it. -/
def addField (g : TypeGraph) (owner : TypeId) (name : String) (type : TypeId) (flags : FieldFlags) :
    FieldId × TypeGraph :=
  match (g.type owner).fields.find? fun f => (g.field f).name == name with
  | some existing => (existing, g)
  | none =>
    let id : FieldId := ⟨g.fields.size⟩
    let token := MetadataTable.field.token (g.fields.size + 1)
    let grown := { g with fields := g.fields.push { owner, name, type, flags, token } }
    (id, grown.updateType owner fun e => { e with fields := e.fields ++ [id] })

/-- **`addMethod`** — a method of `owner`; one that `owner` already declares with the same name, the
same parameter types and the same staticness is answered instead. -/
def addMethod (g : TypeGraph) (owner : TypeId) (name : String) (parameters : List TypeId)
    (returnType : Option TypeId) (flags : MethodFlags) : MethodId × TypeGraph :=
  let declared := (g.type owner).methods.find? fun m =>
    let entry := g.method m
    entry.name == name && entry.parameters == parameters
      && entry.isStatic == flags.contains .static
  match declared with
  | some existing => (existing, g)
  | none =>
    let id : MethodId := ⟨g.methods.size⟩
    let token := MetadataTable.method.token (g.methods.size + 1)
    let entry : MethodEntry := { owner, name, parameters, returnType, flags, token }
    let grown := { g with methods := g.methods.push entry }
    (id, grown.updateType owner fun e => { e with methods := e.methods ++ [id] })

/-! ### Text of members -/

/-- A field as `TYPE OWNER::NAME`. -/
def fieldText (g : TypeGraph) (f : FieldId) : String :=
  let entry := g.field f
  s!"{g.nameOf entry.type} {g.nameOf entry.owner}::{entry.name}"

/-- A method as `RETURN OWNER::NAME(PARAMETER, PARAMETER)`, with `void` if nothing is returned. -/
def methodText (g : TypeGraph) (m : MethodId) : String :=
  let entry := g.method m
  let result := (entry.returnType.map g.nameOf).getD "void"
  let parameters := ", ".intercalate (entry.parameters.map g.nameOf)
  s!"{result} {g.nameOf entry.owner}::{entry.name}({parameters})"

end TypeGraph

end ManagedCode
