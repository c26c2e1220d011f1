/-
# ManagedCode.Proofs.Stack.Boxing — references in, references out.

Boxing a value and casting a reference both leave an object reference for the machine, whatever the type.
The effects say otherwise where the type is a value type: a cast leaves the tag of the unboxed value, exactly
as `unbox.any` does, so arithmetic on the reference verifies.  A box is tagged with the root class, which is
found by its name; only where something that is no reference type has taken that name does the tag of a box
deny that it is a reference, and then it cannot be unboxed again.
-/
import ManagedCode.Proofs.Stack.Storage

namespace ManagedCode

/-! ## § The class of a slot -/

/-- No primitive is moved as an object reference. -/
theorem Primitive.stackClass_ne_object (p : Primitive) : p.stackClass ≠ .object := by
  cases p <;> exact nofun

/-- **`stackClass_value_iff`** — a slot is an object reference exactly if its type is a reference type. -/
theorem TypeTag.stackClass_value_iff {g : TypeGraph} {t : TypeId} :
    (value t).stackClass g = .object ↔ (g.type t).isReference = true := by
  refine ⟨fun h => ?_, stackClass_of_isReference⟩
  rw [stackClass] at h
  rw [TypeEntry.isReference]
  cases hkind : (g.type t).kind with
  | primitive p =>
    rw [hkind] at h
    exact absurd h p.stackClass_ne_object
  | enumType p =>
    rw [hkind] at h
    exact absurd h p.stackClass_ne_object
  | structType =>
    rw [hkind] at h
    cases h
  | byRef =>
    rw [hkind] at h
    cases h
  | classType => rfl
  | interfaceType => rfl
  | array => rfl

/-- A type that is no by-reference type has values of its own. -/
theorem TypeTag.ofType_eq {g : TypeGraph} {t : TypeId} (h : (g.type t).kind.isByRef = false) :
    ofType g t = .value t := by
  rw [ofType]
  cases hkind : (g.type t).kind with
  | byRef r =>
    rw [hkind] at h
    cases h
  | _ => rfl

namespace TypeGraph

/-- The type of a boxed value: the type itself, or the root class in place of a value type. -/
def boxedType (g : TypeGraph) (system : SystemTypes) (t : TypeId) : TypeId :=
  if (g.type t).isValueType then system.object else t

/-- A box of the type is tagged as a reference: the type is one, or what has the name of the root class is. -/
def BoxesToReference (g : TypeGraph) (system : SystemTypes) (t : TypeId) : Prop :=
  (g.type t).isReference = true ∨ (g.type system.object).isReference = true

theorem boxesToReference_iff {g : TypeGraph} {system : SystemTypes} {t : TypeId}
    (h : (g.type t).kind.isByRef = false) : g.BoxesToReference system t ↔
      (TypeTag.value (g.boxedType system t)).stackClass g = .object := by
  rw [TypeTag.stackClass_value_iff, BoxesToReference, boxedType]
  cases href : (g.type t).isReference with
  | true =>
    rw [isValueType_of_isReference href, if_neg Bool.false_ne_true, href]
    exact or_iff_left_of_imp fun _ => rfl
  | false =>
    have hvalue : (g.type t).isValueType = true := by
      by_contra hnot
      rw [isByRef_iff.mpr ⟨Bool.eq_false_iff.mpr hnot, href⟩] at h
      cases h
    rw [hvalue, if_pos rfl]
    exact or_iff_right nofun

/-- The types that are added after the root class leave it alone. -/
theorem extends_root_addSystemTypes (g : TypeGraph) :
    (g.addType "System.Object" .classType none .visible).2.Extends g.addSystemTypes.2 := by
  unfold addSystemTypes addPrimitive addClass
  dsimp only
  -- From the last type that is added back to the root class.
  repeat first | with_reducible exact .refl _ | refine Extends.trans ?_ (extends_addType _ _ _ _ _)

/-- **`isReference_object`** — the root class is a reference type unless something else has its name. -/
theorem isReference_object (g : TypeGraph) :
    (g.addSystemTypes.2.type g.addSystemTypes.1.object).isReference = true ↔
      ∀ t, g.lookup? "System.Object" = some t → (g.type t).isReference = true := by
  have hroot : g.addSystemTypes.1.object = (g.addType "System.Object" .classType none .visible).1 := rfl
  rw [hroot, g.extends_root_addSystemTypes.type_eq (knows_addType g _ _ _ _)]
  cases hl : g.lookup? "System.Object" with
  | some existing =>
    rw [addType_taken .classType none .visible hl]
    constructor
    · rintro h t ⟨⟩
      exact h
    · intro h
      exact h existing rfl
  | none =>
    obtain ⟨token, hid, htypes, -, -⟩ := addType_free .classType none .visible hl
    rw [hid, type_push_new htypes]
    exact iff_of_true rfl nofun

end TypeGraph

namespace AbstractStack

open StackEffect

variable {g : TypeGraph} {ctx : MethodContext} {t : TypeId} {slots : List TypeTag} {after : AbstractStack}

/-- A cast to a type other than a by-reference type does what `unbox.any` does. -/
theorem step_cast_eq (h : (g.type t).kind.isByRef = false) {insn : Instruction}
    (hinsn : insn ∈ [Instruction.castclass t, .isinst t]) (s : AbstractStack) :
    s.step g ctx insn = s.step g ctx (.unboxAny t) := by
  have heffect : insn.effect g ctx = (Instruction.unboxAny t).effect g ctx := by
    have hunbox : (Instruction.unboxAny t).effect g ctx = .ok (.replace [.reference] (.value t)) := by
      rw [Instruction.effect, TypeTag.ofType_eq h]
    rw [hunbox]
    rcases List.mem_pair.mp hinsn with rfl | rfl <;> rfl
  cases s with
  | unreachable => rfl
  | reachable slots => rw [step, step, heffect]

theorem step_unboxAny_iff :
    (reachable slots).step g ctx (.unboxAny t) = .ok after ↔
      ∃ top rest, slots = top :: rest ∧ top.stackClass g = .object ∧
        after = .reachable (.ofType g t :: rest) := by
  rw [step_replace_iff rfl]
  simp only [Expect.accepts, beq_iff_eq]

theorem step_box_iff :
    (reachable slots).step g ctx (.box t) = .ok after ↔
      ∃ top rest, slots = top :: rest ∧ top.isAssignable g (.ofType g t) = true ∧
        after = .reachable (.value (g.boxedType ctx.system t) :: rest) := by
  have heffect : (Instruction.box t).effect g ctx =
      .ok (.replace [.assignable (.ofType g t)] (.value (g.boxedType ctx.system t))) := rfl
  exact step_replace_iff heffect

/-- **`boxed_reference_iff`** — of a type other than a by-reference type: a cast to it leaves an object
reference exactly if the type is a reference type.  A box does so unless a value type is boxed where the root
class is no reference type, and exactly then `unbox.any` is accepted next; it leaves the type on top of the
rest of the stack. -/
theorem boxed_reference_iff (h : (g.type t).kind.isByRef = false) :
    (∀ insn ∈ [Instruction.castclass t, .isinst t], ∀ slots after,
        (reachable slots).step g ctx insn = .ok after →
        ∃ top rest found, slots = found :: rest ∧ after = .reachable (top :: rest) ∧
          (top.stackClass g = .object ↔ (g.type t).isReference = true)) ∧
      ∀ slots after, (reachable slots).step g ctx (.box t) = .ok after →
        ∃ top rest found, slots = found :: rest ∧ after = .reachable (top :: rest) ∧
          (top.stackClass g = .object ↔ g.BoxesToReference ctx.system t) ∧
          ((∃ last, after.step g ctx (.unboxAny t) = .ok last) ↔ g.BoxesToReference ctx.system t) ∧
          ∀ last, after.step g ctx (.unboxAny t) = .ok last →
            last = .reachable (.ofType g t :: rest) := by
  constructor
  · intro insn hinsn slots after hstep
    rw [step_cast_eq h hinsn] at hstep
    obtain ⟨found, rest, rfl, -, rfl⟩ := step_unboxAny_iff.mp hstep
    refine ⟨_, rest, found, rfl, rfl, ?_⟩
    rw [TypeTag.ofType_eq h]
    exact TypeTag.stackClass_value_iff
  · intro slots after hstep
    obtain ⟨found, rest, rfl, -, rfl⟩ := step_box_iff.mp hstep
    have hclass : g.BoxesToReference ctx.system t ↔
        (TypeTag.value (g.boxedType ctx.system t)).stackClass g = .object :=
      TypeGraph.boxesToReference_iff h
    refine ⟨_, rest, found, rfl, rfl, hclass.symm, ?_, ?_⟩
    · rw [hclass]
      constructor
      · rintro ⟨last, hlast⟩
        obtain ⟨top, rest', heq, htop, -⟩ := step_unboxAny_iff.mp hlast
        cases heq
        exact htop
      · intro htop
        exact ⟨_, step_unboxAny_iff.mpr ⟨_, rest, rfl, htop, rfl⟩⟩
    · intro last hlast
      obtain ⟨top, rest', heq, -, rfl⟩ := step_unboxAny_iff.mp hlast
      cases heq
      rfl

end AbstractStack

/-! ## § A number in a box -/

namespace BoxedNumber

open AbstractStack TypeGraph
open SystemOnly (system graph)

/-- The number is boxed as an object, and can be taken out of the box again. -/
theorem box_unbox :
    (reachable [.value system.int32, .null]).step graph { system } (.box system.int32) =
        .ok (.reachable [.value system.object, .null]) ∧
      (TypeTag.value system.object).stackClass graph = .object ∧
      (reachable [.value system.object, .null]).step graph { system } (.unboxAny system.int32) =
        .ok (.reachable [.value system.int32, .null]) := by
  obtain ⟨hkind, hobject, hboxed⟩ : (graph.type system.int32).kind.isByRef = false ∧
      (graph.type system.object).isReference = true ∧
      (reachable [.value system.int32, .null]).step graph { system } (.box system.int32) =
        .ok (.reachable [.value system.object, .null]) := by
    decide +kernel
  have hreference : graph.BoxesToReference system system.int32 := .inr hobject
  obtain ⟨top, rest, found, heq, hafter, hclass, haccepted, hlast⟩ :=
    (boxed_reference_iff hkind).2 _ _ hboxed
  cases heq
  cases hafter
  obtain ⟨last, hunboxed⟩ := haccepted.mpr hreference
  have hnumber : TypeTag.ofType graph system.int32 = .value system.int32 := TypeTag.ofType_eq hkind
  rw [hlast last hunboxed, hnumber] at hunboxed
  exact ⟨hboxed, hclass.mpr hreference, hunboxed⟩

/-- A cast to the type of the number leaves the number itself, which can be negated. -/
theorem castclass_unboxes :
    (reachable [.value system.object]).step graph { system } (.castclass system.int32) =
        .ok (.reachable [.value system.int32]) ∧
      (TypeTag.value system.int32).stackClass graph = .int32 ∧
      (reachable [.value system.int32]).step graph { system } .neg =
        .ok (.reachable [.value system.int32]) := by
  decide +kernel

end BoxedNumber

end ManagedCode
