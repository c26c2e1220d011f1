/-
# ManagedCode.Graph.Resolution — from names to types and members.

Resolution only looks things up.  A type is found by its full name; a member is found on the type that
is asked and otherwise on the nearest type up its chain of bases that declares a match.  Several
matching methods on that nearest type are an ambiguity, even if a type further up has only one.
-/
import ManagedCode.Graph.Basic

namespace ManagedCode

/-! ## § What can go wrong -/

/-- Why a name stands for nothing. -/
inductive ResolutionError
  | missingType (name : String)
  | missingMember (owner : TypeId) (name : String)
  | ambiguousMethod (owner : TypeId) (name : String) (candidates : Nat)
  deriving DecidableEq

/-- The wording of a failed resolution. -/
def ResolutionError.message (g : TypeGraph) : ResolutionError → String
  | .missingType name => s!"missing type `{name}`"
  | .missingMember owner name => s!"missing member `{g.nameOf owner}::{name}`"
  | .ambiguousMethod owner name candidates =>
    s!"method `{g.nameOf owner}::{name}` is ambiguous ({candidates} overloads match)"

/-! ## § Look-up -/

namespace TypeGraph

/-- The first `fuel` types of the chain that starts at a type and follows bases. -/
def baseChain (g : TypeGraph) : (fuel : Nat) → Option TypeId → List TypeId
  | 0, _ => []
  | _ + 1, none => []
  | fuel + 1, some t => t :: g.baseChain fuel (g.type t).base

/-- **`lineage`** — the type and everything above it along bases, nearest first.  A base is older than
what derives from it, so the number of types bounds the length of the chain. -/
def lineage (g : TypeGraph) (t : TypeId) : List TypeId := g.baseChain g.types.size (some t)

/-- The type with the given full name. -/
def resolveType (g : TypeGraph) (name : String) : Except ResolutionError TypeId :=
  match g.lookup? name with
  | some t => .ok t
  | none => .error (.missingType name)

/-- The field of that name which the type itself declares. -/
def declaredField? (g : TypeGraph) (t : TypeId) (name : String) : Option FieldId :=
  (g.type t).fields.find? fun f => (g.field f).name == name

/-- The methods of that name which the type itself declares; if parameter types are given, only those
with exactly these. -/
def declaredMethods (g : TypeGraph) (t : TypeId) (name : String)
    (parameters : Option (List TypeId)) : List MethodId :=
  (g.type t).methods.filter fun m =>
    let entry := g.method m
    entry.name == name && parameters.all (entry.parameters == ·)

/-- **`resolveField`** — the field of that name on the nearest type that declares one. -/
def resolveField (g : TypeGraph) (owner : TypeId) (name : String) : Except ResolutionError FieldId :=
  match (g.lineage owner).findSome? (g.declaredField? · name) with
  | some f => .ok f
  | none => .error (.missingMember owner name)

/-- **`resolveMethod`** — the only match on the nearest type that declares any. -/
def resolveMethod (g : TypeGraph) (owner : TypeId) (name : String)
    (parameters : Option (List TypeId)) : Except ResolutionError MethodId :=
  let nearest := ((g.lineage owner).map (g.declaredMethods · name parameters)).find? (!·.isEmpty)
  match nearest with
  | some [m] => .ok m
  | some candidates => .error (.ambiguousMethod owner name candidates.length)
  | none => .error (.missingMember owner name)

end TypeGraph

end ManagedCode
