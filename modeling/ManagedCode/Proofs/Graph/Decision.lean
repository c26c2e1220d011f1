/-
# ManagedCode.Proofs.Graph.Decision — subtyping is decided, and by paths of all edges.

`isSubtype` recurses into arrays to a depth that is computed from the graph.  `Decides` is the same decision
without a depth, and with the search for a supertype run for as many turns as it takes: a derivation is a
run that comes to an end.  In every graph that can be built each pair of types has one, and its answer is
that of `isSubtype` (`decides_iff`).

The search passes over interface edges when it looks for a class.  If interfaces have no base and interface
edges lead to interfaces (`PlainInterfaces`), an interface edge cannot be part of a path to anything but an
interface, so nothing is lost (`path_iff`).
-/
import ManagedCode.Proofs.Graph.Arrays

namespace ManagedCode

namespace TypeGraph

open SupertypeSearch (Ends)

/-! ## § The decision without a bound -/

/-- **`Decides`** — the decision whether the first type is a subtype of the second comes to an end with the
answer. -/
inductive Decides (g : TypeGraph) : TypeId → TypeId → Bool → Prop
  | same (a : TypeId) : Decides g a a true
  /-- A value type, or what is not behind a reference, is related to itself alone. -/
  | apart {a b : TypeId} : a ≠ b → (g.type a).isReference = false ∨ (g.type b).isValueType = true →
      Decides g a b false
  | values {a b e f : TypeId} : a ≠ b → (g.type a).kind = .array e → (g.type b).kind = .array f →
      (g.type e).isReference = false → Decides g a b false
  | elements {a b e f : TypeId} {answer : Bool} : a ≠ b → (g.type a).kind = .array e →
      (g.type b).kind = .array f → (g.type e).isReference = true → Decides g e f answer →
      Decides g a b answer
  | scalar {a b f : TypeId} : a ≠ b → (g.type a).isReference = true → (g.type a).element? = none →
      (g.type b).kind = .array f → Decides g a b false
  | root {a b : TypeId} : a ≠ b → (g.type a).isReference = true → (g.type b).kind = .classType →
      (g.type b).base = none → Decides g a b true
  | search {a b : TypeId} {answer : Bool} : a ≠ b → (g.type a).isReference = true →
      (g.type b).isValueType = false → (g.type b).element? = none →
      ((g.type b).kind = .classType → (g.type b).base ≠ none) →
      Ends g (g.type b).isInterface b (.start a) answer → Decides g a b answer

variable {g : TypeGraph} {a b : TypeId}

theorem isSubtypeWithin_apart (depth : Nat) (hab : a ≠ b)
    (hapart : (g.type a).isReference = false ∨ (g.type b).isValueType = true) :
    g.isSubtypeWithin depth a b = false := by
  cases depth with
  | zero => exact beq_false_of_ne hab
  | succ depth =>
    rw [isSubtypeWithin, if_neg (by rwa [beq_iff_eq])]
    exact if_pos (by simpa using hapart)

/-- One level of the bounded decision, for two different types of which the first is behind a reference and
the second is no value type. -/
theorem isSubtypeWithin_succ (depth : Nat) (hab : a ≠ b) (href : (g.type a).isReference = true)
    (hvalue : (g.type b).isValueType = false) :
    g.isSubtypeWithin (depth + 1) a b =
      match (g.type b).element? with
      | none => ((g.type b).kind == .classType && (g.type b).base.isNone) || g.reaches a b
      | some f =>
        match (g.type a).element? with
        | none => false
        | some e => (g.type e).isReference && g.isSubtypeWithin depth e f := by
  rw [isSubtypeWithin, if_neg (by rwa [beq_iff_eq])]
  dsimp only
  rw [if_neg (by simp [href, hvalue])]
  cases hka : (g.type a).kind <;> cases hkb : (g.type b).kind <;> simp [TypeEntry.element?, hka, hkb]

theorem not_root {t : TypeEntry} (h : t.kind = .classType → t.base ≠ none) :
    (t.kind == .classType && t.base.isNone) = false := by
  rw [Bool.and_eq_false_imp, beq_iff_eq]
  intro hclass
  rw [Option.isNone_eq_false_iff, Option.isSome_iff_ne_none]
  exact h hclass

/-- A decision that comes to an end agrees with every bounded one that is deep enough. -/
theorem Decides.isSubtypeWithin_eq (hg : g.Closed) {answer : Bool} (h : g.Decides a b answer)
    (ha : g.Knows a) (depth : Nat) (hdepth : a.index < depth) :
    g.isSubtypeWithin depth a b = answer := by
  induction h generalizing depth with
  | same a => exact isSubtypeWithin_self g depth a
  | apart hab hapart => exact isSubtypeWithin_apart depth hab hapart
  | values hab hka hkb he =>
    obtain ⟨depth, rfl⟩ := Nat.exists_eq_succ_of_ne_zero (Nat.ne_zero_of_lt hdepth)
    rw [isSubtypeWithin_succ depth hab (isReference_of_array hka) (isValueType_of_array hkb),
      TypeEntry.element?_eq_some.mpr hka, TypeEntry.element?_eq_some.mpr hkb]
    simp only [he, Bool.false_and]
  | elements hab hka hkb he _ ih =>
    obtain ⟨depth, rfl⟩ := Nat.exists_eq_succ_of_ne_zero (Nat.ne_zero_of_lt hdepth)
    obtain ⟨hknown, holder⟩ := hg.element_older hka
    rw [isSubtypeWithin_succ depth hab (isReference_of_array hka) (isValueType_of_array hkb),
      TypeEntry.element?_eq_some.mpr hka, TypeEntry.element?_eq_some.mpr hkb]
    simp only [he, Bool.true_and]
    exact ih hknown depth (by omega)
  | scalar hab href helement hkb =>
    obtain ⟨depth, rfl⟩ := Nat.exists_eq_succ_of_ne_zero (Nat.ne_zero_of_lt hdepth)
    rw [isSubtypeWithin_succ depth hab href (isValueType_of_array hkb), helement,
      TypeEntry.element?_eq_some.mpr hkb]
  | @root a b hab href hclass hbase =>
    obtain ⟨depth, rfl⟩ := Nat.exists_eq_succ_of_ne_zero (Nat.ne_zero_of_lt hdepth)
    have hvalue : (g.type b).isValueType = false := by rw [TypeEntry.isValueType, hclass]
    have helement : (g.type b).element? = none := by rw [TypeEntry.element?, hclass]
    rw [isSubtypeWithin_succ depth hab href hvalue, helement]
    simp [hclass, hbase]
  | @search a b answer hab href hvalue helement hroot hends =>
    obtain ⟨depth, rfl⟩ := Nat.exists_eq_succ_of_ne_zero (Nat.ne_zero_of_lt hdepth)
    rw [isSubtypeWithin_succ depth hab href hvalue, helement, (ends_reaches hg ha).unique hends]
    simp [not_root hroot]

/-- The bounded decision comes to an end, if the depth exceeds the index of the first type. -/
theorem decides_isSubtypeWithin (hg : g.Closed) (depth : Nat) (ha : g.Knows a) (hdepth : a.index < depth) :
    g.Decides a b (g.isSubtypeWithin depth a b) := by
  induction depth generalizing a b with
  | zero => exact absurd hdepth (Nat.not_lt_zero _)
  | succ depth ih =>
    by_cases hab : a = b
    · rw [hab, isSubtypeWithin_self]
      exact .same b
    by_cases hapart : (g.type a).isReference = false ∨ (g.type b).isValueType = true
    · rw [isSubtypeWithin_apart _ hab hapart]
      exact .apart hab hapart
    obtain ⟨href, hvalue⟩ : (g.type a).isReference = true ∧ (g.type b).isValueType = false := by
      simpa using hapart
    rw [isSubtypeWithin_succ depth hab href hvalue]
    cases hfb : (g.type b).element? with
    | some f =>
      have hkb := TypeEntry.element?_eq_some.mp hfb
      cases hea : (g.type a).element? with
      | none => exact .scalar hab href hea hkb
      | some e =>
        have hka := TypeEntry.element?_eq_some.mp hea
        obtain ⟨hknown, holder⟩ := hg.element_older hka
        dsimp only
        cases he : (g.type e).isReference with
        | false => exact .values hab hka hkb he
        | true => exact .elements hab hka hkb he (ih hknown (by omega))
    | none =>
      dsimp only
      by_cases hroot : (g.type b).kind = .classType ∧ (g.type b).base = none
      · rw [hroot.1, hroot.2]
        exact .root hab href hroot.1 hroot.2
      · rw [not_and] at hroot
        rw [not_root hroot, Bool.false_or]
        exact .search hab href hvalue hfb hroot (ends_reaches hg ha)

/-- **`decides_iff`** — each decision comes to an end, with one answer. -/
theorem decides_iff (hg : g.Closed) (ha : g.Knows a) {answer : Bool} :
    g.Decides a b answer ↔ answer = g.isSubtype a b := by
  constructor
  · intro h
    exact (h.isSubtypeWithin_eq hg ha _ ha).symm
  · rintro rfl
    exact decides_isSubtypeWithin hg _ ha ha

/-! ## § Neglected edges -/

/-- Interfaces have no base, and interface edges lead to interfaces.  They may form cycles. -/
structure PlainInterfaces (g : TypeGraph) : Prop where
  baseless : ∀ t, (g.type t).kind = .interfaceType → (g.type t).base = none
  interface : ∀ t, ∀ i ∈ (g.type t).interfaces, (g.type i).kind = .interfaceType

theorem plainInterfaces_iff (g : TypeGraph) :
    g.PlainInterfaces ↔ ∀ i < g.types.size,
      ((g.type ⟨i⟩).kind = .interfaceType → (g.type ⟨i⟩).base = none) ∧
      ∀ j ∈ (g.type ⟨i⟩).interfaces, (g.type j).kind = .interfaceType := by
  rw [← forall_type_iff (P := fun t => (t.kind = .interfaceType → t.base = none) ∧
    ∀ j ∈ t.interfaces, (g.type j).kind = .interfaceType) ⟨fun _ => rfl, fun _ h => by cases h⟩]
  exact ⟨fun h t => ⟨h.baseless t, h.interface t⟩, fun h => ⟨fun t => (h t).1, fun t => (h t).2⟩⟩

instance (g : TypeGraph) : Decidable g.PlainInterfaces := decidable_of_iff' _ (plainInterfaces_iff g)

/-- A path ends at an interface, or has no interface edge in it. -/
theorem PlainInterfaces.path (hi : g.PlainInterfaces) (h : g.Path true a b) :
    (g.type b).kind = .interfaceType ∨ g.Path false a b := by
  induction h with
  | refl => exact .inr .refl
  | @tail x y _ hedge ih =>
    rcases edge_iff.mp hedge with hbase | ⟨-, hinterface⟩
    · rcases ih with hkind | hbases
      · cases (hi.baseless x hkind).symm.trans hbase
      · exact .inr (hbases.tail (edge_iff.mpr (.inl hbase)))
    · exact .inl (hi.interface x y hinterface)

/-- **`path_iff`** — the edges that the search follows lead to its target if any do. -/
theorem PlainInterfaces.path_iff (hi : g.PlainInterfaces) :
    g.Path (g.type b).isInterface a b ↔ g.Path true a b := by
  cases hb : (g.type b).isInterface with
  | true => rfl
  | false =>
    refine ⟨Path.withInterfaces, fun h => (hi.path h).resolve_left ?_⟩
    intro hkind
    rw [TypeEntry.isInterface, hkind] at hb
    cases hb

/-- **`subtype_decided`** — every decision comes to an end, with one answer, and the answer is what the edges
of the graph say: interfaces may be passed over and types remembered without losing any. -/
theorem subtype_decided (hb : g.Built) (hi : g.PlainInterfaces) (ha : g.Knows a) :
    (∀ answer, g.Decides a b answer ↔ answer = g.isSubtype a b) ∧
      (g.isSubtype a b = true ↔ a = b ∨
        (g.type a).isReference = true ∧ (g.type b).isValueType = false ∧
          ((∃ e f, (g.type a).kind = .array e ∧ (g.type b).kind = .array f ∧
              (g.type e).isReference = true ∧ g.isSubtype e f = true) ∨
            ((g.type b).kind = .classType ∧ (g.type b).base = none) ∨
            ((g.type b).element? = none ∧ g.Path true a b))) := by
  have hg := hb.closed
  refine ⟨fun answer => decides_iff hg ha, ?_⟩
  rw [isSubtype_iff hg ha]
  constructor
  · intro h
    cases h with
    | refl => exact .inl rfl
    | array hka hkb he hsub =>
      refine .inr ⟨isReference_of_array hka, isValueType_of_array hkb, .inl ⟨_, _, hka, hkb, he, ?_⟩⟩
      exact (isSubtype_iff hg (hg.element_older hka).1).mpr hsub
    | root href hclass hbase =>
      exact .inr ⟨href, by rw [TypeEntry.isValueType, hclass], .inr (.inl ⟨hclass, hbase⟩)⟩
    | path href hvalue helement hpath =>
      exact .inr ⟨href, hvalue, .inr (.inr ⟨helement, hi.path_iff.mp hpath⟩)⟩
  · rintro (rfl | ⟨href, hvalue, ⟨e, f, hka, hkb, he, hsub⟩ | ⟨hclass, hbase⟩ | ⟨helement, hpath⟩⟩)
    · exact .refl _
    · exact .array hka hkb he ((isSubtype_iff hg (hg.element_older hka).1).mp hsub)
    · exact .root href hclass hbase
    · exact .path href hvalue helement (hi.path_iff.mpr hpath)

end TypeGraph

namespace InterfaceCycle

/-- The search goes through one interface to the other, and back to none of them. -/
theorem subtype_decided_cycle :
    graph.Built ∧ graph.PlainInterfaces ∧ graph.Knows channel.1 ∧
      graph.Decides channel.1 sink.1 true ∧ graph.isSubtype channel.1 sink.1 = true := by
  have hi : graph.PlainInterfaces := by decide +kernel
  obtain ⟨ha, href, hvalue, helement, himplements, hextends⟩ : graph.Knows channel.1 ∧
      (graph.type channel.1).isReference = true ∧ (graph.type sink.1).isValueType = false ∧
      (graph.type sink.1).element? = none ∧ source.1 ∈ (graph.type channel.1).interfaces ∧
      sink.1 ∈ (graph.type source.1).interfaces := by
    decide +kernel
  have hpath : graph.Path true channel.1 sink.1 :=
    .tail (.single (TypeGraph.edge_iff.mpr (.inr ⟨rfl, himplements⟩)))
      (TypeGraph.edge_iff.mpr (.inr ⟨rfl, hextends⟩))
  obtain ⟨hdecides, hsubtype⟩ := TypeGraph.subtype_decided systemBuilt.built hi ha
  have hsub := hsubtype.mpr (.inr ⟨href, hvalue, .inr (.inr ⟨helement, hpath⟩)⟩)
  exact ⟨systemBuilt.built, hi, ha, (hdecides true).mpr hsub.symm, hsub⟩

end InterfaceCycle

end ManagedCode
