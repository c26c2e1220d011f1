/-
# ManagedCode.Proofs.Stack.Compatibility — the merge relation on stacks is a preorder.

A stack may stand for another if their depths agree and every slot is assignable to its counterpart.  In a
lawful graph that is reflexive and transitive, which is what lets one recorded stack stand for all edges
that come later.  Assignable slots have one stack class, so the machine cannot tell them apart.

Tags are only meaningful in a graph that knows their types.  `Known` says so.  What a graph answers about known
tags a wider graph answers as well, and growth by types changes no answer at all.
-/
import ManagedCode.Proofs.Graph.Arrays
import ManagedCode.Stack.Abstract
import Mathlib.Data.List.Forall2

namespace ManagedCode

/-! ## § Tags of a graph -/

/-- The graph knows the type behind the tag. -/
def TypeTag.Known (g : TypeGraph) (tag : TypeTag) : Prop := ∀ t ∈ tag.type?, g.Knows t

/-- The graph knows every type on the stack. -/
def AbstractStack.Known (g : TypeGraph) (s : AbstractStack) : Prop :=
  ∀ slots ∈ s.slots?, ∀ tag ∈ slots, tag.Known g

instance (g : TypeGraph) (tag : TypeTag) : Decidable (tag.Known g) :=
  match tag with
  | .null => .isTrue (by intro t ht; cases ht)
  | .value t | .address t => decidable_of_iff (g.Knows t) (by simp [TypeTag.Known, TypeTag.type?])

namespace TypeTag

theorem known_null (g : TypeGraph) : TypeTag.null.Known g := by
  intro t ht
  cases ht

theorem known_value {g : TypeGraph} {t : TypeId} : (value t).Known g ↔ g.Knows t := by
  simp [Known, type?]

theorem known_address {g : TypeGraph} {t : TypeId} : (address t).Known g ↔ g.Knows t := by
  simp [Known, type?]

theorem Known.extend {g g' : TypeGraph} (h : g.Extends g') {tag : TypeTag} (ht : tag.Known g) :
    tag.Known g' := fun t hmem => h.knows (ht t hmem)

/-- The tag of a declared type refers to nothing that the type does not. -/
theorem known_ofType {g : TypeGraph} (hg : g.Closed) {t : TypeId} (ht : g.Knows t) :
    (ofType g t).Known g := by
  unfold ofType
  split
  · rename_i r hkind
    exact known_address.mpr (hg.inner_known (by rw [hkind]; rfl))
  · exact known_value.mpr ht

theorem ofType_extend {g g' : TypeGraph} (h : g.Extends g') {t : TypeId} (ht : g.Knows t) :
    ofType g' t = ofType g t := by
  rw [ofType, ofType, h.type_eq ht]

theorem stackClass_extend {g g' : TypeGraph} (h : g.Extends g') {tag : TypeTag}
    (ht : tag.Known g) : tag.stackClass g' = tag.stackClass g := by
  cases tag with
  | null => rfl
  | address t => rfl
  | value t => rw [stackClass, stackClass, h.type_eq (known_value.mp ht)]

theorem stackClass_wider {o g g' : TypeGraph} (h : o.Wider g g') {tag : TypeTag} (ht : tag.Known o) :
    tag.stackClass g' = tag.stackClass g := by
  cases tag with
  | null | address => rfl
  | value t => rw [stackClass, stackClass, h.widensOn.kind_eq (known_value.mp ht)]

end TypeTag

/-! ## § Primitives of one class -/

namespace TypeGraph

/-- Both types are represented by primitives of one stack class. -/
def SameClass (g : TypeGraph) (a b : TypeId) : Prop :=
  ∃ p q, (g.type a).primitive? = some p ∧ (g.type b).primitive? = some q ∧ p.stackClass = q.stackClass

theorem sharePrimitiveClass_iff {g : TypeGraph} {a b : TypeId} :
    g.sharePrimitiveClass a b = some true ↔ g.SameClass a b := by
  unfold sharePrimitiveClass SameClass
  cases (g.type a).primitive? <;> cases (g.type b).primitive? <;> simp

theorem SameClass.trans {g : TypeGraph} {a b c : TypeId} (h : g.SameClass a b)
    (h' : g.SameClass b c) : g.SameClass a c := by
  obtain ⟨p, q, hp, hq, hpq⟩ := h
  obtain ⟨q', r, hq', hr, hqr⟩ := h'
  cases hq.symm.trans hq'
  exact ⟨p, r, hp, hr, hpq.trans hqr⟩

/-- References are not represented by primitives. -/
theorem primitive?_of_isReference {t : TypeEntry} (h : t.isReference = true) : t.primitive? = none := by
  cases hk : t.kind <;> simp_all [TypeEntry.isReference, TypeEntry.primitive?]

theorem isValueType_of_isReference {t : TypeEntry} (h : t.isReference = true) :
    t.isValueType = false := by
  cases hk : t.kind <;> simp_all [TypeEntry.isReference, TypeEntry.isValueType]

theorem isReferentCompatible_iff {g : TypeGraph} {a b : TypeId} :
    g.isReferentCompatible a b = true ↔ a = b ∨ g.SameClass a b := by
  rw [← sharePrimitiveClass_iff, isReferentCompatible, Bool.or_eq_true, beq_iff_eq]
  cases hshare : g.sharePrimitiveClass a b <;> simp

/-- A wider graph has the same primitives. -/
theorem Wider.sharePrimitiveClass_eq {o g g' : TypeGraph} (h : o.Wider g g') {a b : TypeId}
    (ha : o.Knows a) (hb : o.Knows b) : g'.sharePrimitiveClass a b = g.sharePrimitiveClass a b := by
  have hprimitive : ∀ {t}, o.Knows t → (g'.type t).primitive? = (g.type t).primitive? := fun ht => by
    rw [TypeEntry.primitive?, TypeEntry.primitive?, h.widensOn.kind_eq ht]
  rw [sharePrimitiveClass, sharePrimitiveClass, hprimitive ha, hprimitive hb]

theorem Wider.isReferentCompatible_eq {o g g' : TypeGraph} (h : o.Wider g g') {a b : TypeId}
    (ha : o.Knows a) (hb : o.Knows b) : g'.isReferentCompatible a b = g.isReferentCompatible a b := by
  rw [isReferentCompatible, isReferentCompatible, h.sharePrimitiveClass_eq ha hb]

end TypeGraph

/-! ## § Assignability -/

namespace TypeTag

/-- **`isAssignable_value_iff`** — when one value may be used as another: the types are equal, or
primitives of one class, or references related by subtyping. -/
theorem isAssignable_value_iff {g : TypeGraph} (hg : g.Closed) (hl : g.LawfulEdges) {a b : TypeId}
    (ha : g.Knows a) :
    (value a).isAssignable g (value b) = true ↔ a = b ∨ g.SameClass a b ∨
      ((g.type a).isReference = true ∧ (g.type b).isReference = true ∧ g.Subtype a b) := by
  rw [isAssignable, Bool.or_eq_true, beq_iff_eq]
  refine or_congr_right' fun hab => ?_
  rw [← TypeGraph.sharePrimitiveClass_iff]
  cases hshare : g.sharePrimitiveClass a b with
  | none =>
    rw [Option.getD_none, Bool.and_eq_true, TypeGraph.isSubtype_iff hg ha]
    constructor
    · rintro ⟨href, hsub⟩
      exact .inr ⟨href, hsub.super_reference hl hab, hsub⟩
    · rintro (hfalse | ⟨href, -, hsub⟩)
      · cases hfalse
      · exact ⟨href, hsub⟩
  | some shared =>
    rw [Option.getD_some, Option.some.injEq]
    refine ⟨.inl, ?_⟩
    rintro (hsame | ⟨href, -, -⟩)
    · exact hsame
    · rw [TypeGraph.sharePrimitiveClass, TypeGraph.primitive?_of_isReference href] at hshare
      cases hshare

theorem isAssignable_address_iff {g : TypeGraph} {a b : TypeId} :
    (address a).isAssignable g (address b) = true ↔ a = b ∨ g.SameClass a b :=
  TypeGraph.isReferentCompatible_iff

/-- Every slot may be used as what it is. -/
@[simp] theorem isAssignable_refl (g : TypeGraph) (tag : TypeTag) : tag.isAssignable g tag = true := by
  cases tag with
  | null => rfl
  | value t => rw [isAssignable, beq_self_eq_true, Bool.true_or]
  | address t => exact isAssignable_address_iff.mpr (.inl rfl)

/-- **`isAssignable_trans`** — using a slot as something else and that as a third thing. -/
theorem isAssignable_trans {g : TypeGraph} (hg : g.Closed) (hl : g.LawfulEdges) {a b c : TypeTag}
    (ha : a.Known g) (hb : b.Known g) (h : a.isAssignable g b = true)
    (h' : b.isAssignable g c = true) : a.isAssignable g c = true := by
  cases a with
  | null =>
    cases b with
    | null => exact h'
    | address => cases h
    | value b =>
      cases c with
      | null => cases h'
      | address => cases h'
      | value c =>
        -- What accepts null is a reference, and so is what accepts a reference.
        rcases (isAssignable_value_iff hg hl (known_value.mp hb)).mp h' with rfl | hsame | ⟨-, href, -⟩
        · exact h
        · obtain ⟨p, -, hp, -⟩ := hsame
          rw [TypeGraph.primitive?_of_isReference h] at hp
          cases hp
        · exact href
  | address a =>
    cases b with
    | null => cases h
    | value => cases h
    | address b =>
      cases c with
      | null => cases h'
      | value => cases h'
      | address c =>
        rw [isAssignable_address_iff] at h h' ⊢
        rcases h with rfl | hab
        · exact h'
        · rcases h' with rfl | hbc
          · exact .inr hab
          · exact .inr (hab.trans hbc)
  | value a =>
    cases b with
    | null => cases h
    | address => cases h
    | value b =>
      cases c with
      | null => cases h'
      | address => cases h'
      | value c =>
        rw [isAssignable_value_iff hg hl (known_value.mp ha)] at h ⊢
        rw [isAssignable_value_iff hg hl (known_value.mp hb)] at h'
        -- Primitives and references do not mix, so both steps are of the same kind.
        rcases h with rfl | hab | ⟨haref, hbref, hab⟩
        · exact h'
        · rcases h' with rfl | hbc | ⟨hbref, -, -⟩
          · exact .inr (.inl hab)
          · exact .inr (.inl (hab.trans hbc))
          · obtain ⟨-, q, -, hq, -⟩ := hab
            rw [TypeGraph.primitive?_of_isReference hbref] at hq
            cases hq
        · rcases h' with rfl | hbc | ⟨-, hcref, hbc⟩
          · exact .inr (.inr ⟨haref, hbref, hab⟩)
          · obtain ⟨p, -, hp, -⟩ := hbc
            rw [TypeGraph.primitive?_of_isReference hbref] at hp
            cases hp
          · exact .inr (.inr ⟨haref, hcref, hab.trans hl hbc⟩)

theorem stackClass_of_primitive? {g : TypeGraph} {t : TypeId} {p : Primitive}
    (h : (g.type t).primitive? = some p) : (value t).stackClass g = p.stackClass := by
  cases hk : (g.type t).kind <;> simp_all [TypeEntry.primitive?, stackClass]

theorem stackClass_of_isReference {g : TypeGraph} {t : TypeId}
    (h : (g.type t).isReference = true) : (value t).stackClass g = .object := by
  cases hk : (g.type t).kind <;> simp_all [TypeEntry.isReference, stackClass]

/-- **`stackClass_eq`** — a slot that may be used as another is of the same class for the machine. -/
theorem stackClass_eq {g : TypeGraph} (hg : g.Closed) (hl : g.LawfulEdges) {a b : TypeTag}
    (ha : a.Known g) (h : a.isAssignable g b = true) : a.stackClass g = b.stackClass g := by
  cases a with
  | null =>
    cases b with
    | null => rfl
    | address => cases h
    | value b => exact (stackClass_of_isReference h).symm
  | address a =>
    cases b with
    | null => cases h
    | value => cases h
    | address b => rfl
  | value a =>
    cases b with
    | null => cases h
    | address => cases h
    | value b =>
      rcases (isAssignable_value_iff hg hl (known_value.mp ha)).mp h with rfl | hsame | ⟨hra, hrb, -⟩
      · rfl
      · obtain ⟨p, q, hp, hq, hpq⟩ := hsame
        rw [stackClass_of_primitive? hp, stackClass_of_primitive? hq, hpq]
      · rw [stackClass_of_isReference hra, stackClass_of_isReference hrb]

/-- What may be used as another slot may be used so in a wider graph. -/
theorem isAssignable_wider {o g g' : TypeGraph} (h : o.Wider g g') {a b : TypeTag} (ha : a.Known o)
    (hb : b.Known o) (hassign : a.isAssignable g b = true) : a.isAssignable g' b = true := by
  cases a with
  | null =>
    cases b with
    | null => rfl
    | address => cases hassign
    | value b => exact (h.widensOn.isReference_eq (known_value.mp hb)).trans hassign
  | address a =>
    cases b with
    | null => cases hassign
    | value => cases hassign
    | address b =>
      exact (h.isReferentCompatible_eq (known_address.mp ha) (known_address.mp hb)).trans hassign
  | value a =>
    cases b with
    | null => cases hassign
    | address => cases hassign
    | value b =>
      rw [known_value] at ha hb
      rw [isAssignable, Bool.or_eq_true] at hassign ⊢
      rw [h.sharePrimitiveClass_eq ha hb, h.widensOn.isReference_eq ha]
      refine hassign.imp_right ?_
      -- Only where one of them is no primitive does the hierarchy decide.
      cases g.sharePrimitiveClass a b with
      | some shared => exact id
      | none =>
        simp only [Option.getD_none, Bool.and_eq_true]
        exact And.imp_right (h.isSubtype ha hb)

end TypeTag

/-! ## § Stacks -/

namespace AbstractStack

@[simp] theorem known_unreachable (g : TypeGraph) : AbstractStack.unreachable.Known g := by
  intro slots hslots
  cases hslots

@[simp] theorem known_reachable {g : TypeGraph} {slots : List TypeTag} :
    (AbstractStack.reachable slots).Known g ↔ ∀ tag ∈ slots, tag.Known g := by
  simp [Known, slots?]

@[simp] theorem known_empty (g : TypeGraph) : AbstractStack.empty.Known g := by
  rw [empty, known_reachable]
  exact List.forall_mem_nil _

theorem Known.extend {g g' : TypeGraph} (h : g.Extends g') {s : AbstractStack} (hs : s.Known g) :
    s.Known g' := fun slots hslots tag htag => (hs slots hslots tag htag).extend h

/-- Compatible slots are compared one by one, over the whole depth. -/
theorem slotsCompatible_iff {g : TypeGraph} {s r : List TypeTag} :
    slotsCompatible g s r = true ↔ List.Forall₂ (fun a b => a.isAssignable g b = true) s r := by
  induction s generalizing r with
  | nil => cases r <;> simp [slotsCompatible]
  | cons a s ih => cases r <;> simp [slotsCompatible, ih]

theorem slotsCompatible_refl (g : TypeGraph) (s : List TypeTag) : slotsCompatible g s s = true :=
  slotsCompatible_iff.mpr (List.forall₂_same.mpr fun tag _ => tag.isAssignable_refl g)

theorem slotsCompatible_trans {g : TypeGraph} (hg : g.Closed) (hl : g.LawfulEdges) {s r q : List TypeTag}
    (hs : ∀ tag ∈ s, tag.Known g) (hr : ∀ tag ∈ r, tag.Known g) (h : slotsCompatible g s r = true)
    (h' : slotsCompatible g r q = true) : slotsCompatible g s q = true := by
  induction s generalizing r q with
  | nil =>
    cases r with
    | nil => exact h'
    | cons => cases h
  | cons a s ih =>
    cases r with
    | nil => cases h
    | cons b r =>
      cases q with
      | nil => cases h'
      | cons c q =>
        rw [slotsCompatible, Bool.and_eq_true] at h h' ⊢
        obtain ⟨hka, hks⟩ := List.forall_mem_cons.mp hs
        obtain ⟨hkb, hkr⟩ := List.forall_mem_cons.mp hr
        exact ⟨TypeTag.isAssignable_trans hg hl hka hkb h.1 h'.1, ih hks hkr h.2 h'.2⟩

theorem slotsCompatible_wider {o g g' : TypeGraph} (h : o.Wider g g') {s r : List TypeTag}
    (hs : ∀ tag ∈ s, tag.Known o) (hr : ∀ tag ∈ r, tag.Known o)
    (hcompatible : slotsCompatible g s r = true) : slotsCompatible g' s r = true := by
  rw [slotsCompatible_iff] at hcompatible ⊢
  induction hcompatible with
  | nil => exact .nil
  | cons hslot _ ih =>
    obtain ⟨hknown, hrest⟩ := List.forall_mem_cons.mp hs
    obtain ⟨hknown', hrest'⟩ := List.forall_mem_cons.mp hr
    exact .cons (TypeTag.isAssignable_wider h hknown hknown' hslot) (ih hrest hrest')

theorem slotsCompatible_extend {g g' : TypeGraph} (h : g.Extends g') (hg : g.Closed)
    (hg' : g'.Closed) {s r : List TypeTag} (hs : ∀ tag ∈ s, tag.Known g)
    (hr : ∀ tag ∈ r, tag.Known g) : slotsCompatible g' s r = slotsCompatible g s r := by
  rw [Bool.eq_iff_iff]
  exact ⟨slotsCompatible_wider (h.wider_back hg hg') hs hr, slotsCompatible_wider (h.wider hg hg') hs hr⟩

@[simp] theorem isCompatible_refl (g : TypeGraph) (s : AbstractStack) : isCompatible g s s = true := by
  cases s with
  | unreachable => rfl
  | reachable slots => exact slotsCompatible_refl g slots

/-- **`isCompatible_trans`** — what fits a stack that fits a third one fits the third one. -/
theorem isCompatible_trans {g : TypeGraph} (hg : g.Closed) (hl : g.LawfulEdges) {s r q : AbstractStack}
    (hs : s.Known g) (hr : r.Known g) (h : isCompatible g s r = true)
    (h' : isCompatible g r q = true) : isCompatible g s q = true := by
  cases s with
  | unreachable =>
    cases r with
    | unreachable => exact h'
    | reachable => cases h
  | reachable s =>
    cases r with
    | unreachable => cases h
    | reachable r =>
      cases q with
      | unreachable => cases h'
      | reachable q =>
        exact slotsCompatible_trans hg hl (known_reachable.mp hs) (known_reachable.mp hr) h h'

/-- Stacks that were compatible are so in a wider graph. -/
theorem isCompatible_wider {o g g' : TypeGraph} (h : o.Wider g g') {s r : AbstractStack}
    (hs : s.Known o) (hr : r.Known o) (hcompatible : isCompatible g s r = true) :
    isCompatible g' s r = true := by
  cases s with
  | unreachable => cases r <;> exact hcompatible
  | reachable s =>
    cases r with
    | unreachable => cases hcompatible
    | reachable r => exact slotsCompatible_wider h (known_reachable.mp hs) (known_reachable.mp hr) hcompatible

theorem isCompatible_extend {g g' : TypeGraph} (h : g.Extends g') (hg : g.Closed)
    (hg' : g'.Closed) {s r : AbstractStack} (hs : s.Known g) (hr : r.Known g) :
    isCompatible g' s r = isCompatible g s r := by
  rw [Bool.eq_iff_iff]
  exact ⟨isCompatible_wider (h.wider_back hg hg') hs hr, isCompatible_wider (h.wider hg hg') hs hr⟩

/-- **`compatibility_preorder`** — in every graph whose arrays came after the system types and whose edges are
in order, using one slot or one stack as another is reflexive and transitive, and keeps stack classes. -/
theorem compatibility_preorder {g : TypeGraph} (hb : g.SystemBuilt) (ho : g.Orderly) :
    (∀ a : TypeTag, a.isAssignable g a = true) ∧
    (∀ a b c : TypeTag, a.Known g → b.Known g → a.isAssignable g b = true → b.isAssignable g c = true →
      a.isAssignable g c = true) ∧
    (∀ a b : TypeTag, a.Known g → a.isAssignable g b = true → a.stackClass g = b.stackClass g) ∧
    (∀ s : AbstractStack, isCompatible g s s = true) ∧
    (∀ s r q : AbstractStack, s.Known g → r.Known g → isCompatible g s r = true →
      isCompatible g r q = true → isCompatible g s q = true) := by
  have hg := hb.built.closed
  have hl := hb.lawfulEdges_iff.mpr ho
  refine ⟨TypeTag.isAssignable_refl g, ?_, ?_, isCompatible_refl g, ?_⟩
  · intro a b c ha hb hab hbc
    exact TypeTag.isAssignable_trans hg hl ha hb hab hbc
  · intro a b ha hab
    exact TypeTag.stackClass_eq hg hl ha hab
  · intro s r q hs hr hsr hrq
    exact isCompatible_trans hg hl hs hr hsr hrq

end AbstractStack

namespace InterfaceCycle

/-- A channel and an array of channels. -/
def narrow : AbstractStack := .reachable [.value channel.1, .value channels.1]

/-- A source and an array of channels. -/
def middle : AbstractStack := .reachable [.value source.1, .value channels.1]

/-- A sink and an array of sinks. -/
def wide : AbstractStack := .reachable [.value sink.1, .value sinks.1]

theorem compatibility_preorder_cycle :
    graph.SystemBuilt ∧ graph.Orderly ∧ narrow.Known graph ∧ middle.Known graph ∧
      AbstractStack.isCompatible graph narrow middle = true ∧
      AbstractStack.isCompatible graph middle wide = true ∧
      AbstractStack.isCompatible graph narrow wide = true := by
  have ho : graph.Orderly := systemBuilt.lawfulEdges_iff.mp (by decide +kernel)
  have hnarrow : narrow.Known graph := AbstractStack.known_reachable.mpr (by decide +kernel)
  have hmiddle : middle.Known graph := AbstractStack.known_reachable.mpr (by decide +kernel)
  obtain ⟨h, h'⟩ : AbstractStack.isCompatible graph narrow middle = true ∧
      AbstractStack.isCompatible graph middle wide = true := by
    decide +kernel
  obtain ⟨-, -, -, -, htrans⟩ := AbstractStack.compatibility_preorder systemBuilt ho
  exact ⟨systemBuilt, ho, hnarrow, hmiddle, h, h', htrans narrow middle wide hnarrow hmiddle h h'⟩

end InterfaceCycle

end ManagedCode
