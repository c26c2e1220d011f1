/-
# ManagedCode.Graph.Subtyping — when a reference of one type may stand for another.

`isSubtype a b` holds if the types are equal, if both are arrays and the elements are related in the
same way, if `b` is the root class, or if a path of base and interface edges leads from `a` to `b`.  A
value type is a subtype of itself alone: to become an object it must be boxed.

The path search is a worklist: every step takes the newest pending type and adds those of its direct
supertypes that were not seen before.  Interface edges may form cycles, so what was seen is remembered;
each step consumes one type that was never pending before, and the number of types therefore bounds the
number of steps.
-/
import ManagedCode.Graph.Basic

namespace ManagedCode

/-! ## § The search for a supertype -/

/-- The state of a search: types to be looked at, newest first, and all types ever pending. -/
structure SupertypeSearch where
  pending : List TypeId
  seen : List TypeId
  deriving DecidableEq

namespace SupertypeSearch

/-- Nothing but the starting type is known. -/
def start (t : TypeId) : SupertypeSearch := ⟨[t], [t]⟩

/-- Makes a type pending, unless it was seen before. -/
def visit (s : SupertypeSearch) (t : TypeId) : SupertypeSearch :=
  if s.seen.contains t then s else ⟨t :: s.pending, t :: s.seen⟩

end SupertypeSearch

namespace TypeGraph

/-- Direct supertypes of a type: its base, followed by its interfaces if `interfaces` is set. -/
def supertypes (g : TypeGraph) (interfaces : Bool) (t : TypeId) : List TypeId :=
  let entry := g.type t
  entry.base.toList ++ if interfaces then entry.interfaces else []

/-- Runs a search for `target` for at most `fuel` steps. -/
def searchSupertype (g : TypeGraph) (interfaces : Bool) (target : TypeId) :
    (fuel : Nat) → SupertypeSearch → Bool
  | 0, _ => false
  | _ + 1, ⟨[], _⟩ => false
  | fuel + 1, ⟨t :: rest, seen⟩ =>
    t == target
      || g.searchSupertype interfaces target fuel
          ((g.supertypes interfaces t).foldl SupertypeSearch.visit ⟨rest, seen⟩)

/-- **`reaches`** — a path of base and interface edges leads from `a` to `b`.  A class is never reached
through an interface, so interface edges are followed only if `b` is an interface. -/
def reaches (g : TypeGraph) (a b : TypeId) : Bool :=
  g.searchSupertype (g.type b).isInterface b g.types.size (.start a)

/-! ## § Subtyping -/

/-- Subtyping of arrays nested at most `depth` deep. -/
def isSubtypeWithin (g : TypeGraph) : (depth : Nat) → (a b : TypeId) → Bool
  | 0, a, b => a == b
  | depth + 1, a, b =>
    if a == b then true
    else
      let sub := g.type a
      let super := g.type b
      if !sub.isReference || super.isValueType then false
      else
        match sub.kind, super.kind with
        | .array e, .array f => (g.type e).isReference && g.isSubtypeWithin depth e f
        | _, .array _ => false
        | _, .classType => super.base.isNone || g.reaches a b
        | _, _ => g.reaches a b

/-- **`isSubtype`** — a value of type `a` may be used where one of type `b` is required.  An array is
newer than its element, so the number of types bounds how deep arrays nest. -/
def isSubtype (g : TypeGraph) (a b : TypeId) : Bool := g.isSubtypeWithin g.types.size a b

end TypeGraph

end ManagedCode
