/-
# ManagedCode.Proofs.Graph.Hierarchy — subtyping as an order.

`Subtype` says by rules what `isSubtype` computes; in a closed graph the two agree (`isSubtype_iff`).
The relation is an order only if the hierarchy is in shape, and a graph does not check that.  `Lawful`
is the shape: a root class implements nothing, interfaces are only derived from as interfaces and have
no base of their own, no type derives from a by-reference type, and all arrays derive from the one array
class and from nothing else.

Without it transitivity fails.  An array type that was made before the array class exists has no base,
so its subtypes reach a class that it does not reach itself; and an interface with a base passes that
base on to itself alone, because paths to a class never run through interfaces.
-/
import ManagedCode.Proofs.Graph.Supertype
import Mathlib.Tactic.MkIffOfInductiveProp

namespace ManagedCode

/-- The type is a by-reference type. -/
def TypeKind.isByRef : TypeKind → Bool
  | .byRef _ => true
  | _ => false

theorem TypeEntry.element?_eq_some {t : TypeEntry} {e : TypeId} :
    t.element? = some e ↔ t.kind = .array e := by
  cases hk : t.kind <;> simp [TypeEntry.element?, hk]

namespace TypeGraph

/-! ## § Lawful hierarchies -/

/-- What the edges of one entry have to look like. -/
@[mk_iff]
structure LawfulEntry (g : TypeGraph) (t : TypeEntry) : Prop where
  root_bare : t.kind = .classType → t.base = none → t.interfaces = []
  base_kind : ∀ b ∈ t.base, (g.type b).kind.isByRef = false
  interface_kind : ∀ i ∈ t.interfaces, (g.type i).kind = .interfaceType ∧ (g.type i).base = none
  array_edges : t.element?.isSome → t.base = g.lookup? arrayBaseName ∧ t.interfaces = []

instance (g : TypeGraph) (t : TypeEntry) : Decidable (g.LawfulEntry t) :=
  decidable_of_iff' _ (lawfulEntry_iff g t)

/-- **`LawfulEdges`** — all edges of the graph are in shape. -/
def LawfulEdges (g : TypeGraph) : Prop := ∀ t, g.LawfulEntry (g.type t)

/-- **`Lawful`** — all edges of the graph are in shape, and there is a class for arrays to derive from. -/
structure Lawful (g : TypeGraph) : Prop where
  entry : ∀ t, g.LawfulEntry (g.type t)
  array_root : ∃ c ∈ g.lookup? arrayBaseName, (g.type c).kind.isByRef = false

instance (g : TypeGraph) : Coe g.Lawful g.LawfulEdges := ⟨Lawful.entry⟩

theorem lawfulEntry_absent (g : TypeGraph) : g.LawfulEntry .absent where
  root_bare _ _ := rfl
  base_kind b hb := by cases hb
  interface_kind i hi := by cases hi
  array_edges h := by cases h

/-- Only the entries that are there need to be looked at. -/
theorem forall_type_iff {g : TypeGraph} {P : TypeEntry → Prop} (habsent : P .absent) :
    (∀ t, P (g.type t)) ↔ ∀ i < g.types.size, P (g.type ⟨i⟩) := by
  refine ⟨fun h i _ => h ⟨i⟩, fun h t => ?_⟩
  by_cases ht : g.Knows t
  · exact h t.index ht
  · rw [type_of_not_knows ht]
    exact habsent

theorem lawfulEdges_iff (g : TypeGraph) :
    g.LawfulEdges ↔ ∀ i < g.types.size, g.LawfulEntry (g.type ⟨i⟩) :=
  forall_type_iff (lawfulEntry_absent g)

instance (g : TypeGraph) : Decidable g.LawfulEdges := decidable_of_iff' _ (lawfulEdges_iff g)

theorem lawful_iff (g : TypeGraph) :
    g.Lawful ↔ g.LawfulEdges ∧ ∃ c ∈ g.lookup? arrayBaseName, (g.type c).kind.isByRef = false :=
  ⟨fun h => ⟨h.entry, h.array_root⟩, fun h => ⟨h.1, h.2⟩⟩

instance (g : TypeGraph) : Decidable g.Lawful := decidable_of_iff' _ (lawful_iff g)

/-! ## § Growth of a lawful graph -/

theorem Extends.lookup_array {g g' : TypeGraph} (h : g.Extends g') (hl : g.Lawful) :
    g'.lookup? arrayBaseName = g.lookup? arrayBaseName := by
  obtain ⟨c, hc, -⟩ := hl.array_root
  rw [Option.mem_def.mp hc]
  exact h.lookup_eq hc

/-- An entry whose edges lead to known types is as lawful in a later graph. -/
theorem LawfulEntry.extend {g g' : TypeGraph} (h : g.Extends g') (hl : g.Lawful) {t : TypeEntry}
    (hbase : ∀ b ∈ t.base, g.Knows b) (hinterfaces : ∀ i ∈ t.interfaces, g.Knows i)
    (ht : g.LawfulEntry t) : g'.LawfulEntry t where
  root_bare := ht.root_bare
  base_kind b hb := by rw [h.type_eq (hbase b hb)]; exact ht.base_kind b hb
  interface_kind i hi := by rw [h.type_eq (hinterfaces i hi)]; exact ht.interface_kind i hi
  array_edges he := by rw [h.lookup_array hl]; exact ht.array_edges he

/-- A new type whose entry is lawful keeps the graph lawful. -/
theorem Lawful.push {g g' : TypeGraph} {entry : TypeEntry} (hl : g.Lawful) (hg : g.Closed)
    (h : g'.types = g.types.push entry) (hext : g.Extends g') (hbase : ∀ b ∈ entry.base, g.Knows b)
    (hinterfaces : ∀ i ∈ entry.interfaces, g.Knows i) (he : g.LawfulEntry entry) : g'.Lawful where
  entry t := by
    rcases type_push h t with ⟨-, ht⟩ | ⟨-, ht⟩
    · rw [ht]
      exact he.extend hext hl hbase hinterfaces
    · rw [ht]
      exact (hl.entry t).extend hext hl (fun _ hb => hg.base_known hb)
        (fun _ hi => hg.interface_known hi)
  array_root := by
    obtain ⟨c, hc, hkind⟩ := hl.array_root
    refine ⟨c, hext.lookup_eq hc, ?_⟩
    rwa [hext.type_eq (knows_of_lookup? hc)]

theorem Lawful.arrayOf {g : TypeGraph} (hl : g.Lawful) (hg : g.Closed) (element : TypeId) :
    (g.arrayOf element).2.Lawful := by
  cases hname : g.lookup? (g.nameOf element ++ "[]") with
  | some existing => rwa [TypeGraph.arrayOf, addType_taken _ _ _ hname]
  | none =>
    obtain ⟨_, -, htypes, hf, hm⟩ := addType_free (.array element) (g.lookup? arrayBaseName)
      (.visible ||| .sealed) hname
    have hnone : ∀ {P : TypeId → Prop}, ∀ i ∈ ([] : List TypeId), P i := fun i hi => by cases hi
    refine hl.push hg htypes (extends_push htypes hf hm) (fun b hb => knows_of_lookup? hb) hnone ?_
    constructor
    case root_bare => intro hkind; cases hkind
    case base_kind =>
      intro b hb
      obtain ⟨c, hc, hkind⟩ := hl.array_root
      cases hb.symm.trans hc
      exact hkind
    case interface_kind => exact hnone
    case array_edges => exact fun _ => ⟨rfl, rfl⟩

theorem Lawful.byRef {g : TypeGraph} (hl : g.Lawful) (hg : g.Closed) (referent : TypeId) :
    (g.byRef referent).2.Lawful := by
  cases hname : g.lookup? (g.nameOf referent ++ "&") with
  | some existing => rwa [TypeGraph.byRef, addType_taken _ _ _ hname]
  | none =>
    obtain ⟨_, -, htypes, hf, hm⟩ := addType_free (.byRef referent) none .none hname
    have hnone : ∀ {P : TypeId → Prop}, ∀ i ∈ ([] : List TypeId), P i := fun i hi => by cases hi
    have hbase : ∀ {P : TypeId → Prop}, ∀ b ∈ (none : Option TypeId), P b := fun b hb => by cases hb
    refine hl.push hg htypes (extends_push htypes hf hm) hbase hnone ?_
    constructor
    case root_bare => intro hkind; cases hkind
    case base_kind => exact hbase
    case interface_kind => exact hnone
    case array_edges => intro he; cases he

/-! ## § The rules of subtyping -/

/-- **`Subtype`** — when a value of the first type may be used where one of the second is required. -/
inductive Subtype (g : TypeGraph) : TypeId → TypeId → Prop
  | refl (a : TypeId) : Subtype g a a
  /-- Arrays of references are related as their elements are. -/
  | array {a b e f : TypeId} : (g.type a).kind = .array e → (g.type b).kind = .array f →
      (g.type e).isReference = true → Subtype g e f → Subtype g a b
  /-- A class without a base is above all references. -/
  | root {a b : TypeId} : (g.type a).isReference = true → (g.type b).kind = .classType →
      (g.type b).base = none → Subtype g a b
  | path {a b : TypeId} : (g.type a).isReference = true → (g.type b).isValueType = false →
      (g.type b).element? = none → g.Path (g.type b).isInterface a b → Subtype g a b

theorem isReference_of_array {t : TypeEntry} {e : TypeId} (h : t.kind = .array e) :
    t.isReference = true := by
  rw [TypeEntry.isReference, h]

theorem isValueType_of_array {t : TypeEntry} {e : TypeId} (h : t.kind = .array e) :
    t.isValueType = false := by
  rw [TypeEntry.isValueType, h]

/-- The element of an array is known, and older. -/
theorem Closed.element_older {g : TypeGraph} (hg : g.Closed) {a e : TypeId}
    (h : (g.type a).kind = .array e) : g.Knows e ∧ e.index < a.index := by
  have hinner : (g.type a).kind.inner? = some e := by rw [h]; rfl
  exact ⟨hg.inner_known hinner, hg.inner_older hinner⟩

theorem isSubtypeWithin_self (g : TypeGraph) (depth : Nat) (a : TypeId) :
    g.isSubtypeWithin depth a a = true := by
  cases depth with
  | zero => exact beq_self_eq_true a
  | succ depth => rw [isSubtypeWithin, if_pos (beq_self_eq_true a)]

/-- One level of the computation, for two different types. -/
theorem isSubtypeWithin_succ_iff {g : TypeGraph} (hg : g.Closed) (depth : Nat) {a b : TypeId}
    (ha : g.Knows a) (hab : a ≠ b) :
    g.isSubtypeWithin (depth + 1) a b = true ↔
      (∃ e f, (g.type a).kind = .array e ∧ (g.type b).kind = .array f ∧
        (g.type e).isReference = true ∧ g.isSubtypeWithin depth e f = true) ∨
      ((g.type a).isReference = true ∧ (g.type b).kind = .classType ∧ (g.type b).base = none) ∨
      ((g.type a).isReference = true ∧ (g.type b).isValueType = false ∧ (g.type b).element? = none ∧
        g.Path (g.type b).isInterface a b) := by
  rw [isSubtypeWithin, if_neg (by rwa [beq_iff_eq])]
  rw [← reaches_iff_path hg ha]
  cases hka : (g.type a).kind <;> cases hkb : (g.type b).kind <;>
    simp [TypeEntry.isReference, TypeEntry.isValueType, TypeEntry.element?, hka, hkb]

/-- **`isSubtype_iff`** — the computation decides the rules. -/
theorem isSubtype_iff {g : TypeGraph} (hg : g.Closed) {a b : TypeId} (ha : g.Knows a) :
    g.isSubtype a b = true ↔ g.Subtype a b := by
  -- Arrays are newer than their elements, so the depth only has to exceed the index of the array.
  suffices h : ∀ depth a b, g.Knows a → a.index < depth →
      (g.isSubtypeWithin depth a b = true ↔ g.Subtype a b) from h _ a b ha ha
  intro depth
  induction depth with
  | zero =>
    intro a b _ hlt
    exact absurd hlt (Nat.not_lt_zero _)
  | succ depth ih =>
    intro a b ha hlt
    by_cases hab : a = b
    · subst hab
      exact ⟨fun _ => .refl a, fun _ => isSubtypeWithin_self g _ a⟩
    · rw [isSubtypeWithin_succ_iff hg depth ha hab]
      have helement : ∀ {e}, (g.type a).kind = .array e → g.Knows e ∧ e.index < depth := by
        intro e he
        obtain ⟨hknown, holder⟩ := hg.element_older he
        exact ⟨hknown, by omega⟩
      constructor
      · rintro (⟨e, f, he, hf, href, hsub⟩ | ⟨href, hclass, hbase⟩ | ⟨href, hvalue, harray, hpath⟩)
        · exact .array he hf href ((ih e f (helement he).1 (helement he).2).mp hsub)
        · exact .root href hclass hbase
        · exact .path href hvalue harray hpath
      · intro h
        cases h with
        | refl => exact absurd rfl hab
        | array he hf href hsub =>
          exact .inl ⟨_, _, he, hf, href, (ih _ _ (helement he).1 (helement he).2).mpr hsub⟩
        | root href hclass hbase => exact .inr (.inl ⟨href, hclass, hbase⟩)
        | path href hvalue harray hpath => exact .inr (.inr ⟨href, hvalue, harray, hpath⟩)

/-! ## § References stay references -/

theorem Subtype.super_reference {g : TypeGraph} (hl : g.LawfulEdges) {a b : TypeId} (h : g.Subtype a b)
    (hab : a ≠ b) : (g.type b).isReference = true := by
  cases h with
  | refl => exact absurd rfl hab
  | array _ hf => exact isReference_of_array hf
  | root _ hclass => rw [TypeEntry.isReference, hclass]
  | path _ hvalue _ hpath =>
    rcases Relation.ReflTransGen.cases_tail hpath with heq | ⟨x, -, hedge⟩
    · exact absurd heq.symm hab
    · rcases edge_iff.mp hedge with hbase | ⟨-, hinterface⟩
      · have hkind := (hl x).base_kind b hbase
        cases hk : (g.type b).kind <;>
          simp_all [TypeEntry.isReference, TypeEntry.isValueType, TypeKind.isByRef]
      · rw [TypeEntry.isReference, ((hl x).interface_kind b hinterface).1]

/-! ## § Transitivity -/

/-- Interfaces have no base, so a path that uses an interface edge ends at a type without one. -/
theorem Path.bases_or_baseless {g : TypeGraph} (hl : g.LawfulEdges) {a b : TypeId}
    (h : g.Path true a b) : g.Path false a b ∨ (g.type b).base = none := by
  induction h with
  | refl => exact .inl .refl
  | tail hinit hedge ih =>
    rename_i x y
    rcases edge_iff.mp hedge with hbase | ⟨-, hinterface⟩
    · rcases ih with hpath | hnone
      · exact .inl (hpath.tail (edge_iff.mpr (.inl hbase)))
      · cases hnone.symm.trans hbase
    · exact .inr ((hl x).interface_kind y hinterface).2

/-- No base edges lead out of a type without a base. -/
theorem Path.eq_of_baseless {g : TypeGraph} {a b : TypeId} (h : g.Path false a b)
    (hbase : (g.type a).base = none) : b = a := by
  rcases Relation.ReflTransGen.cases_head h with rfl | ⟨x, hedge, -⟩
  · rfl
  · rcases edge_iff.mp hedge with hx | ⟨hfalse, -⟩
    · cases hbase.symm.trans hx
    · cases hfalse

/-- Paths compose, each being asked for interfaces as its own target demands. -/
theorem Path.comp {g : TypeGraph} (hl : g.LawfulEdges) {a b c : TypeId}
    (h : g.Path (g.type b).isInterface a b) (h' : g.Path (g.type c).isInterface b c) :
    g.Path (g.type c).isInterface a c := by
  cases hb : (g.type b).isInterface with
  | false =>
    rw [hb] at h
    cases hc : (g.type c).isInterface with
    | false =>
      rw [hc] at h'
      exact h.trans h'
    | true =>
      rw [hc] at h'
      exact h.withInterfaces.trans h'
  | true =>
    rw [hb] at h
    cases hc : (g.type c).isInterface with
    | true =>
      rw [hc] at h'
      exact h.trans h'
    | false =>
      rw [hc] at h'
      -- An interface edge on the first path leads to a type that no base edge leads out of.
      rcases Path.bases_or_baseless hl h with hbases | hnone
      · exact hbases.trans h'
      · rw [h'.eq_of_baseless hnone, hb] at hc
        cases hc

/-- Two arrays have the same supertypes above them. -/
theorem Path.of_array {g : TypeGraph} (hl : g.LawfulEdges) {interfaces : Bool} {a b c e f : TypeId}
    (ha : (g.type a).kind = .array e) (hb : (g.type b).kind = .array f) (hbc : b ≠ c)
    (h : g.Path interfaces b c) : g.Path interfaces a c := by
  have hae : (g.type a).element?.isSome := by rw [TypeEntry.element?, ha]; rfl
  have hbe : (g.type b).element?.isSome := by rw [TypeEntry.element?, hb]; rfl
  obtain ⟨habase, -⟩ := (hl a).array_edges hae
  obtain ⟨hbbase, hbbare⟩ := (hl b).array_edges hbe
  rcases Relation.ReflTransGen.cases_head h with heq | ⟨x, hedge, hrest⟩
  · exact absurd heq hbc
  · rcases edge_iff.mp hedge with hbase | ⟨-, hinterface⟩
    · refine .head (edge_iff.mpr (.inl ?_)) hrest
      rw [habase, ← hbbase, hbase]
    · rw [hbbare] at hinterface
      cases hinterface

/-- A root class has no supertype but itself. -/
theorem Path.eq_of_root {g : TypeGraph} (hl : g.LawfulEdges) {interfaces : Bool} {a b : TypeId}
    (hclass : (g.type a).kind = .classType) (hbase : (g.type a).base = none)
    (h : g.Path interfaces a b) : b = a := by
  rcases Relation.ReflTransGen.cases_head h with rfl | ⟨x, hedge, -⟩
  · rfl
  · rcases edge_iff.mp hedge with hx | ⟨-, hx⟩
    · cases hbase.symm.trans hx
    · rw [(hl a).root_bare hclass hbase] at hx
      cases hx

/-- **`Subtype.trans`** — in a lawful hierarchy subtyping is transitive. -/
theorem Subtype.trans {g : TypeGraph} (hl : g.LawfulEdges) {a b c : TypeId} (h : g.Subtype a b)
    (h' : g.Subtype b c) : g.Subtype a c := by
  -- Induction on the first derivation, inversion of the second: arrays recurse into their elements.
  induction h generalizing c with
  | refl => exact h'
  | array ha hb href hsub ih =>
    cases h' with
    | refl => exact .array ha hb href hsub
    | array hb' hc _ hsub' =>
      cases hb.symm.trans hb'
      exact .array ha hc href (ih hsub')
    | root _ hclass hbase => exact .root (isReference_of_array ha) hclass hbase
    | path _ hvalue harray hpath =>
      refine .path (isReference_of_array ha) hvalue harray (Path.of_array hl ha hb ?_ hpath)
      rintro rfl
      rw [TypeEntry.element?, hb] at harray
      cases harray
  | root href hclass hbase =>
    cases h' with
    | refl => exact .root href hclass hbase
    | array hb => cases hclass.symm.trans hb
    | root _ hclass' hbase' => exact .root href hclass' hbase'
    | path _ _ _ hpath =>
      rw [Path.eq_of_root hl hclass hbase hpath]
      exact .root href hclass hbase
  | path href hvalue harray hpath =>
    cases h' with
    | refl => exact .path href hvalue harray hpath
    | array hb =>
      rw [TypeEntry.element?, hb] at harray
      cases harray
    | root _ hclass hbase => exact .root href hclass hbase
    | path _ hvalue' harray' hpath' => exact .path href hvalue' harray' (Path.comp hl hpath hpath')

/-! ## § Growth keeps the relation -/

/-- **`WidensOn`** — the second graph says the same about types of a set, except that they may have gained
interfaces.  Neither the edges of the first graph nor the making of arrays lead out of the set. -/
structure WidensOn (S : TypeId → Prop) (g g' : TypeGraph) : Prop where
  kind_eq : ∀ {t}, S t → (g'.type t).kind = (g.type t).kind
  base_eq : ∀ {t}, S t → (g'.type t).base = (g.type t).base
  interfaces_subset : ∀ {t}, S t → (g.type t).interfaces ⊆ (g'.type t).interfaces
  edge : ∀ {interfaces t u}, S t → g.Edge interfaces t u → S u
  inner : ∀ {t e}, S t → (g.type t).kind.inner? = some e → S e

namespace WidensOn

variable {S : TypeId → Prop} {g g' : TypeGraph} {a b : TypeId}

theorem isReference_eq (h : WidensOn S g g') {t : TypeId} (ht : S t) :
    (g'.type t).isReference = (g.type t).isReference := by
  rw [TypeEntry.isReference, TypeEntry.isReference, h.kind_eq ht]

theorem isValueType_eq (h : WidensOn S g g') {t : TypeId} (ht : S t) :
    (g'.type t).isValueType = (g.type t).isValueType := by
  rw [TypeEntry.isValueType, TypeEntry.isValueType, h.kind_eq ht]

theorem isInterface_eq (h : WidensOn S g g') {t : TypeId} (ht : S t) :
    (g'.type t).isInterface = (g.type t).isInterface := by
  rw [TypeEntry.isInterface, TypeEntry.isInterface, h.kind_eq ht]

theorem element?_eq (h : WidensOn S g g') {t : TypeId} (ht : S t) :
    (g'.type t).element? = (g.type t).element? := by
  rw [TypeEntry.element?, TypeEntry.element?, h.kind_eq ht]

/-- A path is walked edge by edge, and every edge is still there. -/
theorem path (h : WidensOn S g g') {interfaces : Bool} (ha : S a) (hpath : g.Path interfaces a b) :
    S b ∧ g'.Path interfaces a b := by
  induction hpath with
  | refl => exact ⟨ha, .refl⟩
  | tail _ hedge ih =>
    obtain ⟨hlast, hpath'⟩ := ih
    refine ⟨h.edge hlast hedge, hpath'.tail (edge_iff.mpr ?_)⟩
    rcases edge_iff.mp hedge with hbase | ⟨hfollowed, hinterface⟩
    · exact .inl ((h.base_eq hlast).trans hbase)
    · exact .inr ⟨hfollowed, h.interfaces_subset hlast hinterface⟩

/-- **`WidensOn.subtype`** — what was a subtype is one in the wider graph, by the same rules. -/
theorem subtype (h : WidensOn S g g') (ha : S a) (hb : S b) (hsub : g.Subtype a b) : g'.Subtype a b := by
  induction hsub with
  | refl => exact .refl _
  | array he hf href _ ih =>
    have hse := h.inner ha (show (g.type _).kind.inner? = some _ by rw [he]; rfl)
    have hsf := h.inner hb (show (g.type _).kind.inner? = some _ by rw [hf]; rfl)
    rw [← h.kind_eq ha] at he
    rw [← h.kind_eq hb] at hf
    rw [← h.isReference_eq hse] at href
    exact .array he hf href (ih hse hsf)
  | root href hclass hbase =>
    rw [← h.isReference_eq ha] at href
    rw [← h.kind_eq hb] at hclass
    rw [← h.base_eq hb] at hbase
    exact .root href hclass hbase
  | path href hvalue harray hpath =>
    have hpath' := (h.path ha hpath).2
    rw [← h.isReference_eq ha] at href
    rw [← h.isValueType_eq hb] at hvalue
    rw [← h.element?_eq hb] at harray
    rw [← h.isInterface_eq hb] at hpath'
    exact .path href hvalue harray hpath'

end WidensOn

/-- **`AgreeOn`** — the graphs say the same about types of a set, which neither edges nor the making of arrays
lead out of. -/
structure AgreeOn (S : TypeId → Prop) (g g' : TypeGraph) : Prop where
  type_eq : ∀ {t}, S t → g'.type t = g.type t
  edge : ∀ {interfaces t u}, S t → g.Edge interfaces t u → S u
  inner : ∀ {t e}, S t → (g.type t).kind.inner? = some e → S e

namespace AgreeOn

variable {S : TypeId → Prop} {g g' : TypeGraph} {a b : TypeId}

theorem edge_iff (h : AgreeOn S g g') {interfaces : Bool} (ha : S a) :
    g'.Edge interfaces a b ↔ g.Edge interfaces a b := by
  rw [TypeGraph.edge_iff, TypeGraph.edge_iff, h.type_eq ha]

theorem symm (h : AgreeOn S g g') : AgreeOn S g' g where
  type_eq ht := (h.type_eq ht).symm
  edge ht hedge := h.edge ht ((h.edge_iff ht).mp hedge)
  inner ht he := h.inner ht (h.type_eq ht ▸ he)

theorem widensOn (h : AgreeOn S g g') : WidensOn S g g' where
  kind_eq ht := by rw [h.type_eq ht]
  base_eq ht := by rw [h.type_eq ht]
  interfaces_subset ht := by
    rw [h.type_eq ht]
    exact List.Subset.refl _
  edge := h.edge
  inner := h.inner

end AgreeOn

/-- Growth changes nothing about the types that were there, and nothing new lies above them. -/
theorem Extends.agreeOn {g g' : TypeGraph} (h : g.Extends g') (hg : g.Closed) : AgreeOn g.Knows g g' where
  type_eq := h.type_eq
  edge _ hedge := hg.knows_of_edge hedge
  inner _ he := hg.inner_known he

/-- **`Wider`** — two closed graphs have the types of an origin, and the second is wider on them. -/
structure Wider (o g g' : TypeGraph) : Prop where
  widensOn : WidensOn o.Knows g g'
  knows : ∀ {t}, o.Knows t → g.Knows t
  knows' : ∀ {t}, o.Knows t → g'.Knows t
  closed : g.Closed
  closed' : g'.Closed

theorem Wider.isSubtype {o g g' : TypeGraph} (h : Wider o g g') {a b : TypeId} (ha : o.Knows a)
    (hb : o.Knows b) (hsub : g.isSubtype a b = true) : g'.isSubtype a b = true := by
  rw [isSubtype_iff h.closed (h.knows ha)] at hsub
  exact (isSubtype_iff h.closed' (h.knows' ha)).mpr (h.widensOn.subtype ha hb hsub)

/-- A graph that gained types only is wider than before. -/
theorem Extends.wider {g g' : TypeGraph} (h : g.Extends g') (hg : g.Closed) (hg' : g'.Closed) :
    Wider g g g' where
  widensOn := (h.agreeOn hg).widensOn
  knows ht := ht
  knows' := h.knows
  closed := hg
  closed' := hg'

/-- And it was as wide before. -/
theorem Extends.wider_back {g g' : TypeGraph} (h : g.Extends g') (hg : g.Closed) (hg' : g'.Closed) :
    Wider g g' g where
  widensOn := (h.agreeOn hg).symm.widensOn
  knows := h.knows
  knows' ht := ht
  closed := hg'
  closed' := hg

end TypeGraph

end ManagedCode
