/-
# ManagedCode.Proofs.Stack.Storage — whether a verified access is as wide as its location.

An access through an address or into an array names the type that it moves, and its operand says what type
the location has.  The two need not be the same: references stand for each other, and so do primitives of
one stack class.  What is written depends on the width, though, and a stack class does not tell the narrow
integers or the floats apart.

`step_sameStorage_iff` says when an accepted access keeps the storage of its location: unless it moves a
primitive of another width (`Resized`), or moves an address where a hierarchy out of shape has references
derive from a by-reference type (`Readdressed`).  Every pair of the first kind verifies (`step_stind_resized`).
In a lawful graph there are none of the second, so what holds neither an integer of up to 32 bits nor a
float is safe (`step_sameStorage_of_lawful`).
-/
import ManagedCode.Body.Encoding
import ManagedCode.Proofs.Stack.Substitution

namespace ManagedCode

/-! ## § Storage -/

namespace TypeGraph

/-- The opcode that stores through an address of the type; a struct has none. -/
def storeOpcode? (g : TypeGraph) (t : TypeId) : Option UInt8 :=
  (Body.indirectOpcodes? (g.type t)).map Prod.snd

/-- The types are equal, or both are references, or primitives represent both and one opcode stores them. -/
def SameStorage (g : TypeGraph) (u t : TypeId) : Prop :=
  u = t ∨ ((g.type u).isReference = true ∧ (g.type t).isReference = true) ∨
    ((g.type u).primitive?.isSome = true ∧ (g.type t).primitive?.isSome = true ∧
      g.storeOpcode? u = g.storeOpcode? t)

/-- Primitives of one stack class represent the types, but other opcodes store them. -/
def Resized (g : TypeGraph) (u t : TypeId) : Prop :=
  g.SameClass u t ∧ g.storeOpcode? u ≠ g.storeOpcode? t

/-- The location holds a reference, and what is moved is a managed address. -/
def Readdressed (g : TypeGraph) (u t : TypeId) : Prop :=
  (g.type u).isReference = true ∧ (g.type t).kind.isByRef = true

variable {g : TypeGraph} {u t : TypeId}

theorem storeOpcode?_of_primitive? {p : Primitive} (hp : (g.type t).primitive? = some p) :
    g.storeOpcode? t = some (Body.primitiveIndirectOpcodes p).2 := by
  rw [storeOpcode?, Body.indirectOpcodes?, TypeTag.isReference_of_primitive? hp, hp]
  rfl

/-- What lives in the location itself or behind an object reference is no by-reference type. -/
theorem isByRef_iff {e : TypeEntry} :
    e.kind.isByRef = true ↔ e.isValueType = false ∧ e.isReference = false := by
  unfold TypeEntry.isValueType TypeEntry.isReference
  cases e.kind <;> simp [TypeKind.isByRef]

/-- Of the classes that several primitives share, two have members of several widths. -/
theorem storeOpcode_of_class {p q : Primitive} (hpq : p.stackClass = q.stackClass)
    (hint : p.stackClass ≠ .int32) (hfloat : p.stackClass ≠ .float) :
    (Body.primitiveIndirectOpcodes p).2 = (Body.primitiveIndirectOpcodes q).2 := by
  revert hpq hint hfloat
  cases p <;> cases q <;> decide

/-- **`Resized.stackClass`** — only narrow integers and floats are moved at another width. -/
theorem Resized.stackClass (h : g.Resized u t) :
    (TypeTag.value u).stackClass g = .int32 ∨ (TypeTag.value u).stackClass g = .float := by
  obtain ⟨⟨p, q, hp, hq, hpq⟩, hstore⟩ := h
  rw [storeOpcode?_of_primitive? hp, storeOpcode?_of_primitive? hq] at hstore
  rw [TypeTag.stackClass_of_primitive? hp]
  by_contra hwide
  rw [not_or] at hwide
  exact hstore (congrArg some (storeOpcode_of_class hpq hwide.1 hwide.2))

/-- Moving a primitive at its width, or a reference as a reference, is neither. -/
theorem SameStorage.exact (h : g.SameStorage u t) : ¬ g.Resized u t ∧ ¬ g.Readdressed u t := by
  rcases h with rfl | ⟨hu, ht⟩ | ⟨hu, -, hstore⟩
  · refine ⟨fun h => h.2 rfl, fun ⟨href, hbyRef⟩ => ?_⟩
    rw [(isByRef_iff.mp hbyRef).2] at href
    cases href
  · constructor
    · rintro ⟨⟨p, -, hp, -⟩, -⟩
      rw [primitive?_of_isReference hu] at hp
      cases hp
    · rintro ⟨-, hbyRef⟩
      rw [(isByRef_iff.mp hbyRef).2] at ht
      cases ht
  · refine ⟨fun h => h.2 hstore, fun ⟨href, _⟩ => ?_⟩
    rw [primitive?_of_isReference href] at hu
    cases hu

end TypeGraph

/-! ## § Locations -/

/-- Where an access finds its location, as a position below the top of the stack, and the type that it
moves. -/
def Instruction.access? : Instruction → Option (Nat × TypeId)
  | .ldind t | .ldobj t | .initobj t => some (0, t)
  | .stind t | .stobj t | .element .load t | .element .address t => some (1, t)
  | .element .store t => some (2, t)
  | _ => none

/-- The type of the location that an operand gives: what an address refers to, or the element of an array. -/
def TypeTag.located? (g : TypeGraph) : TypeTag → Option TypeId
  | .address u => some u
  | .value a => (g.type a).element?
  | .null => none

namespace Expect

variable {g : TypeGraph} {u t : TypeId} {tag : TypeTag}

/-- An address is accepted for its own referent and for primitives of the same class. -/
theorem address_accepts (h : (address t).accepts g tag = true) (hloc : tag.located? g = some u) :
    u = t ∨ g.SameClass u t := by
  rw [accepts] at h
  cases tag with
  | null => cases hloc
  | value => cases h
  | address r =>
    cases hloc
    exact TypeTag.isAssignable_address_iff.mp h

/-- An array is accepted for those, and for what its references are subtypes of. -/
theorem arrayOf_accepts (h : (arrayOf t).accepts g tag = true) (hloc : tag.located? g = some u) :
    u = t ∨ g.SameClass u t ∨
      ((g.type u).isReference = true ∧ (g.type t).isValueType = false ∧ g.isSubtype u t = true) := by
  rw [accepts] at h
  cases tag with
  | null => cases hloc
  | address => cases h
  | value a =>
    obtain ⟨e, he, hassignable, hside⟩ := isArrayOf_value_iff.mp h
    cases he.symm.trans hloc
    rw [TypeTag.isAssignable, Bool.or_eq_true, beq_iff_eq] at hassignable
    refine hassignable.imp_right fun hother => ?_
    cases hshare : g.sharePrimitiveClass u t with
    | some shared =>
      rw [hshare, Option.getD_some] at hother
      exact .inl (TypeGraph.sharePrimitiveClass_iff.mp (hother ▸ hshare))
    | none =>
      rw [hshare, Option.getD_none, Bool.and_eq_true] at hother
      rw [TypeGraph.isValueType_of_isReference hother.1] at hside
      exact .inr ⟨hother.1, hside.symm, hother.2⟩

end Expect

namespace StackEffect

/-- A slot of an accepted stack meets the requirement at its position. -/
theorem accepts_of_apply {g : TypeGraph} {system : SystemTypes} {effect : StackEffect}
    {slots out : List TypeTag} (h : effect.apply g system slots = .ok out) {pos : Nat} {e : Expect}
    {tag : TypeTag} (he : effect.pops[pos]? = some e) (htag : slots[pos]? = some tag) :
    e.accepts g tag = true := by
  obtain ⟨-, hpops, -⟩ := apply_ok_iff.mp h
  obtain ⟨hpos, rfl⟩ := List.getElem?_eq_some_iff.mp he
  have htake : (slots.take effect.pops.length)[pos]? = some tag := by
    rw [List.getElem?_take_of_lt hpos, htag]
  obtain ⟨hpos', rfl⟩ := List.getElem?_eq_some_iff.mp htake
  exact (List.forall₂_iff_get.mp hpops).2 pos hpos hpos'

end StackEffect

namespace Instruction

/-- The location of an access has to be an address of the type, or an array of it. -/
theorem effect_of_access {g : TypeGraph} {ctx : MethodContext} {insn : Instruction} {pos : Nat}
    {t : TypeId} (h : insn.access? = some (pos, t)) {effect : StackEffect}
    (heffect : insn.effect g ctx = .ok effect) :
    effect.pops[pos]? = some (.address t) ∨ effect.pops[pos]? = some (.arrayOf t) := by
  cases insn with
  | ldobj | initobj | stobj =>
    cases h
    cases heffect
    exact .inl rfl
  | ldind | stind =>
    cases h
    rw [Instruction.effect] at heffect
    split at heffect
    · cases heffect
    · cases heffect
      exact .inl rfl
  | element access =>
    cases heffect
    cases access <;> cases h <;> exact .inr rfl
  | _ => cases h

end Instruction

/-! ## § Accesses -/

namespace AbstractStack

open TypeGraph

variable {g : TypeGraph} {ctx : MethodContext} {insn : Instruction} {pos : Nat} {u t : TypeId}
  {slots : List TypeTag} {after : AbstractStack} {tag : TypeTag}

/-- The pairs of location and moved type that an access is accepted for. -/
theorem located_of_step (haccess : insn.access? = some (pos, t))
    (hstep : (reachable slots).step g ctx insn = .ok after) (htag : slots[pos]? = some tag)
    (hloc : tag.located? g = some u) :
    u = t ∨ g.SameClass u t ∨
      ((g.type u).isReference = true ∧ (g.type t).isValueType = false ∧ g.isSubtype u t = true) := by
  obtain ⟨effect, out, heffect, happly, -⟩ := step_ok_iff.mp hstep
  rcases Instruction.effect_of_access haccess heffect with hpop | hpop
  · have haccepts := StackEffect.accepts_of_apply happly hpop htag
    exact (Expect.address_accepts haccepts hloc).imp_right .inl
  · have haccepts := StackEffect.accepts_of_apply happly hpop htag
    exact Expect.arrayOf_accepts haccepts hloc

/-- Unless it is one of the two exceptions, an accepted access keeps the storage. -/
theorem sameStorage_of_step (haccess : insn.access? = some (pos, t))
    (hstep : (reachable slots).step g ctx insn = .ok after) (htag : slots[pos]? = some tag)
    (hloc : tag.located? g = some u) (hwidth : ¬ g.Resized u t) (haddress : ¬ g.Readdressed u t) :
    g.SameStorage u t := by
  rcases located_of_step haccess hstep htag hloc with heq | hclass | ⟨href, hvalue, -⟩
  · exact .inl heq
  · have hstore : g.storeOpcode? u = g.storeOpcode? t := by
      by_contra hne
      exact hwidth ⟨hclass, hne⟩
    obtain ⟨p, q, hp, hq, -⟩ := hclass
    exact .inr (.inr ⟨by rw [hp]; rfl, by rw [hq]; rfl, hstore⟩)
  · refine .inr (.inl ⟨href, ?_⟩)
    by_contra hne
    exact haddress ⟨href, isByRef_iff.mpr ⟨hvalue, Bool.eq_false_iff.mpr hne⟩⟩

/-- **`step_sameStorage_iff`** — an accepted access keeps the storage of its location unless it moves a
primitive of another width, or an address where there is a reference. -/
theorem step_sameStorage_iff (haccess : insn.access? = some (pos, t))
    (hstep : (reachable slots).step g ctx insn = .ok after) (htag : slots[pos]? = some tag)
    (hloc : tag.located? g = some u) :
    g.SameStorage u t ↔ ¬ g.Resized u t ∧ ¬ g.Readdressed u t :=
  ⟨SameStorage.exact, fun ⟨hwidth, haddress⟩ => sameStorage_of_step haccess hstep htag hloc hwidth haddress⟩

/-- In a lawful graph no reference is moved as an address. -/
theorem step_not_readdressed (hg : g.Closed) (hl : g.LawfulEdges) (hu : g.Knows u)
    (haccess : insn.access? = some (pos, t)) (hstep : (reachable slots).step g ctx insn = .ok after)
    (htag : slots[pos]? = some tag) (hloc : tag.located? g = some u) : ¬ g.Readdressed u t := by
  rintro ⟨href, hbyRef⟩
  have htref := (isByRef_iff.mp hbyRef).2
  rcases located_of_step haccess hstep htag hloc with rfl | ⟨p, -, hp, -⟩ | ⟨-, -, hsub⟩
  · rw [htref] at href
    cases href
  · rw [primitive?_of_isReference href] at hp
    cases hp
  · by_cases heq : u = t
    · rw [heq, htref] at href
      cases href
    · have hsuper := ((isSubtype_iff hg hu).mp hsub).super_reference hl heq
      rw [htref] at hsuper
      cases hsuper

/-- **`step_sameStorage_of_lawful`** — in a lawful graph every accepted access to a location that holds neither an
integer of up to 32 bits nor a float keeps its storage. -/
theorem step_sameStorage_of_lawful (hg : g.Closed) (hl : g.LawfulEdges) (hu : g.Knows u)
    (haccess : insn.access? = some (pos, t)) (hstep : (reachable slots).step g ctx insn = .ok after)
    (htag : slots[pos]? = some tag) (hloc : tag.located? g = some u)
    (hint : (TypeTag.value u).stackClass g ≠ .int32) (hfloat : (TypeTag.value u).stackClass g ≠ .float) :
    g.SameStorage u t := by
  have hwidth : ¬ g.Resized u t := fun h => h.stackClass.elim hint hfloat
  have haddress : ¬ g.Readdressed u t := step_not_readdressed hg hl hu haccess hstep htag hloc
  exact sameStorage_of_step haccess hstep htag hloc hwidth haddress

/-- **`step_stind_resized`** — every store at another width than that of its location verifies. -/
theorem step_stind_resized (h : g.Resized u t) (rest : List TypeTag) :
    (reachable (.value t :: .address u :: rest)).step g ctx (.stind t) = .ok (.reachable rest) := by
  have haddress := TypeTag.isAssignable_address_iff.mpr (.inr h.1)
  obtain ⟨⟨-, q, -, hq, -⟩, -⟩ := h
  -- A type that a primitive represents is no struct, and its values are no addresses.
  have hstruct : (g.type t).isStruct = false := by
    cases hk : (g.type t).kind <;> simp_all [TypeEntry.primitive?, TypeEntry.isStruct]
  have htag : TypeTag.ofType g t = .value t := by
    cases hk : (g.type t).kind <;> simp_all [TypeEntry.primitive?, TypeTag.ofType]
  refine step_ok_iff.mpr ⟨{ pops := [.assignable (.value t), .address t] }, rest, ?_, ?_, rfl⟩
  · rw [Instruction.effect, hstruct, htag]
    rfl
  · refine StackEffect.apply_ok_iff.mpr ⟨Nat.le_add_left 2 rest.length, ?_, none, [], rfl, .nil, rfl⟩
    exact .cons (TypeTag.isAssignable_refl g (.value t)) (.cons haddress .nil)

end AbstractStack

/-! ## § A byte among integers -/

namespace NarrowLocation

open AbstractStack TypeGraph
open SystemOnly (system graph)

/-- What is evaluated about the three integers. -/
theorem integers :
    (graph.type system.int32).primitive? = some .i32 ∧ (graph.type system.uint32).primitive? = some .u32 ∧
      (graph.type system.sbyte).primitive? = some .i8 := by
  decide +kernel

/-- An address of a signed integer may be read as unsigned, and nothing but its sign changes. -/
theorem step_sameStorage_unsigned :
    (reachable [.address system.int32]).step graph { system } (.ldind system.uint32) =
        .ok (.reachable [.value system.uint32]) ∧
      graph.SameStorage system.int32 system.uint32 := by
  have hstep : (reachable [.address system.int32]).step graph { system } (.ldind system.uint32) =
      .ok (.reachable [.value system.uint32]) := by
    decide +kernel
  obtain ⟨hint, huint, -⟩ := integers
  have hwidth : ¬ graph.Resized system.int32 system.uint32 := fun h =>
    h.2 ((storeOpcode?_of_primitive? hint).trans (storeOpcode?_of_primitive? huint).symm)
  have haddress : ¬ graph.Readdressed system.int32 system.uint32 := fun h => by
    rw [Readdressed, TypeTag.isReference_of_primitive? hint] at h
    cases h.1
  exact ⟨hstep, (step_sameStorage_iff rfl hstep rfl rfl).mpr ⟨hwidth, haddress⟩⟩

/-- Four bytes are stored where there is one. -/
theorem stind_overruns :
    (reachable [.value system.int32, .address system.sbyte]).step graph { system }
        (.stind system.int32) = .ok (.reachable []) ∧
      graph.storeOpcode? system.int32 = some 0x54 ∧ graph.storeOpcode? system.sbyte = some 0x52 ∧
      ¬ graph.SameStorage system.sbyte system.int32 := by
  obtain ⟨hint, -, hbyte⟩ := integers
  have hwide := storeOpcode?_of_primitive? hint
  have hnarrow := storeOpcode?_of_primitive? hbyte
  have hresized : graph.Resized system.sbyte system.int32 := by
    refine ⟨⟨.i8, .i32, hbyte, hint, rfl⟩, ?_⟩
    rw [hnarrow, hwide]
    decide
  exact ⟨step_stind_resized hresized [], hwide, hnarrow, fun h => h.exact.1 hresized⟩

end NarrowLocation

end ManagedCode
