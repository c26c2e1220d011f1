/-
# ManagedCode.Proofs.Graph.Arrays — where arrays derive from.

An array derives from the class that is found under the name of the array class at the time it is made.  If
all arrays are made after the system types, that is one class for all of them (`SystemBuilt.arraysDerive`),
and of a lawful hierarchy only the edges that the owner of the graph draws are left to demand (`Orderly`).
-/
import ManagedCode.Proofs.Graph.Hierarchy

namespace ManagedCode

namespace TypeGraph

/-! ## § Where arrays derive from -/

/-- **`SystemBuilt`** — the graphs whose arrays were all made by `arrayOf`, once the system types were there. -/
inductive SystemBuilt : TypeGraph → Prop
  | addSystemTypes {g : TypeGraph} : Built g → (∀ t, (g.type t).element? = none) →
      SystemBuilt g.addSystemTypes.2
  | addType {g : TypeGraph} (name : String) {kind : TypeKind} {base : Option TypeId}
      (flags : TypeFlags) : SystemBuilt g → (∀ e, kind ≠ .array e) → (∀ b ∈ base, g.Knows b) →
      (∀ e ∈ kind.inner?, g.Knows e) → SystemBuilt (g.addType name kind base flags).2
  | arrayOf {g : TypeGraph} {element : TypeId} : SystemBuilt g → g.Knows element →
      SystemBuilt (g.arrayOf element).2
  | addInterfaceImpl {g : TypeGraph} {implementer interface : TypeId} : SystemBuilt g →
      g.Knows implementer → g.Knows interface → SystemBuilt (g.addInterfaceImpl implementer interface)
  | addField {g : TypeGraph} {owner type : TypeId} (name : String) (flags : FieldFlags) :
      SystemBuilt g → g.Knows owner → g.Knows type → SystemBuilt (g.addField owner name type flags).2
  | addMethod {g : TypeGraph} {owner : TypeId} (name : String) {parameters : List TypeId}
      {returnType : Option TypeId} (flags : MethodFlags) : SystemBuilt g → g.Knows owner →
      (∀ p ∈ parameters, g.Knows p) → (∀ t ∈ returnType, g.Knows t) →
      SystemBuilt (g.addMethod owner name parameters returnType flags).2

theorem Built.arrayOf {g : TypeGraph} (h : g.Built) {element : TypeId} (he : g.Knows element) :
    (g.arrayOf element).2.Built := by
  refine h.addType _ _ (fun b hb => knows_of_lookup? hb) ?_
  intro e hinner
  cases hinner
  exact he

theorem SystemBuilt.built {g : TypeGraph} (h : g.SystemBuilt) : g.Built := by
  induction h with
  | addSystemTypes hb _ => exact hb.addSystemTypes
  | addType name flags _ _ hbase hinner ih => exact ih.addType name flags hbase hinner
  | arrayOf _ he ih => exact ih.arrayOf he
  | addInterfaceImpl _ himplementer hinterface ih => exact ih.addInterfaceImpl himplementer hinterface
  | addField name flags _ howner htype ih => exact ih.addField name flags howner htype
  | addMethod name flags _ howner hparams hret ih => exact ih.addMethod name flags howner hparams hret

/-- The array class is there, and all arrays derive from it. -/
structure ArraysDerive (g : TypeGraph) (c : TypeId) : Prop where
  lookup : g.lookup? arrayBaseName = some c
  base : ∀ t, (g.type t).element?.isSome → (g.type t).base = some c

theorem ArraysDerive.addType {g : TypeGraph} {c : TypeId} (h : g.ArraysDerive c) (name : String)
    {kind : TypeKind} {base : Option TypeId} (flags : TypeFlags)
    (hbase : ∀ e, kind = .array e → base = some c) : (g.addType name kind base flags).2.ArraysDerive c := by
  refine ⟨(g.extends_addType name kind base flags).lookup_eq h.lookup, fun t ht => ?_⟩
  rcases g.type_addType name kind base flags t with hentry | ⟨token, hentry⟩
  · rw [hentry] at ht ⊢
    exact h.base t ht
  · rw [hentry] at ht ⊢
    obtain ⟨e, he⟩ := Option.isSome_iff_exists.mp ht
    exact hbase e (TypeEntry.element?_eq_some.mp he)

/-- A change of interfaces or members. -/
theorem ArraysDerive.updateType {g : TypeGraph} {c : TypeId} (h : g.ArraysDerive c) (t : TypeId)
    {change : TypeEntry → TypeEntry} (hname : ∀ e, (change e).name = e.name)
    (hkind : ∀ e, (change e).kind = e.kind) (hbase : ∀ e, (change e).base = e.base) :
    (g.updateType t change).ArraysDerive c := by
  refine ⟨(g.lookup?_updateType t hname _).trans h.lookup, fun u hu => ?_⟩
  rw [TypeEntry.element?, read_updateType TypeEntry.kind g t u hkind] at hu
  rw [read_updateType TypeEntry.base g t u hbase]
  exact h.base u hu

theorem lookup?_addSystemTypes (g : TypeGraph) : ∃ c, g.addSystemTypes.2.lookup? arrayBaseName = some c := by
  have hkeep (g : TypeGraph) (name : String) (kind : TypeKind) (base : Option TypeId) (flags : TypeFlags)
      (h : ∃ c, g.lookup? arrayBaseName = some c) :
      ∃ c, (g.addType name kind base flags).2.lookup? arrayBaseName = some c := by
    obtain ⟨c, hc⟩ := h
    exact ⟨c, (g.extends_addType name kind base flags).lookup_eq hc⟩
  unfold addSystemTypes addPrimitive addClass
  dsimp only
  -- From the last type that is added back to the array class.
  repeat first | with_reducible exact lookup?_addType _ _ _ _ _ | refine hkeep _ _ _ _ _ ?_

theorem arraysDerive_addSystemTypes {g : TypeGraph} (h : ∀ t, (g.type t).element? = none) :
    ∃ c, g.addSystemTypes.2.ArraysDerive c := by
  obtain ⟨c, hc⟩ := g.lookup?_addSystemTypes
  refine ⟨c, hc, fun t ht => ?_⟩
  have hnone : ∀ t, (g.addSystemTypes.2.type t).element? = none := by
    refine addSystemTypes_steps (P := fun g => ∀ t, (g.type t).element? = none) ?_ h
    intro g name kind base flags _ hkind _ hg t
    rcases g.type_addType name kind base flags t with hentry | ⟨token, hentry⟩
    · rw [hentry]
      exact hg t
    · rw [hentry]
      cases kind with
      | array => cases hkind
      | _ => rfl
  rw [hnone t] at ht
  cases ht

/-- **`SystemBuilt.arraysDerive`** — one class is below all arrays. -/
theorem SystemBuilt.arraysDerive {g : TypeGraph} (h : g.SystemBuilt) : ∃ c, g.ArraysDerive c := by
  induction h with
  | addSystemTypes _ hnone => exact arraysDerive_addSystemTypes hnone
  | addType _ _ _ hkind _ _ ih =>
    obtain ⟨c, hc⟩ := ih
    exact ⟨c, hc.addType _ _ fun e he => absurd he (hkind e)⟩
  | arrayOf _ _ ih =>
    obtain ⟨c, hc⟩ := ih
    exact ⟨c, hc.addType _ _ fun _ _ => hc.lookup⟩
  | addInterfaceImpl _ _ _ ih =>
    obtain ⟨c, hc⟩ := ih
    refine ⟨c, ?_⟩
    unfold TypeGraph.addInterfaceImpl
    split
    · exact hc
    · exact hc.updateType _ (fun _ => rfl) (fun _ => rfl) fun _ => rfl
  | @addField _ owner _ _ _ _ _ _ ih =>
    obtain ⟨c, hc⟩ := ih
    refine ⟨c, ?_⟩
    unfold TypeGraph.addField
    dsimp only
    split
    · exact hc
    · refine ArraysDerive.updateType ?_ owner (fun _ => ?_) (fun _ => ?_) fun _ => ?_
      · exact ⟨hc.lookup, hc.base⟩
      all_goals rfl
  | @addMethod _ owner _ _ _ _ _ _ _ _ ih =>
    obtain ⟨c, hc⟩ := ih
    refine ⟨c, ?_⟩
    unfold TypeGraph.addMethod
    dsimp only
    split
    · exact hc
    · refine ArraysDerive.updateType ?_ owner (fun _ => ?_) (fun _ => ?_) fun _ => ?_
      · exact ⟨hc.lookup, hc.base⟩
      all_goals rfl

/-! ## § Edges that are drawn -/

/-- **`Orderly`** — all edges that do not come with an array are in shape.  Interfaces may form cycles. -/
structure Orderly (g : TypeGraph) : Prop where
  /-- The root implements nothing. -/
  root_bare : ∀ t, (g.type t).kind = .classType → (g.type t).base = none → (g.type t).interfaces = []
  /-- Bases need not be classes, as long as they are no by-reference types. -/
  base_kind : ∀ t, ∀ b ∈ (g.type t).base, (g.type b).kind.isByRef = false
  /-- Interface edges lead to interfaces, which have no base. -/
  interface_kind : ∀ t, ∀ i ∈ (g.type t).interfaces,
    (g.type i).kind = .interfaceType ∧ (g.type i).base = none
  array_bare : ∀ t, (g.type t).element?.isSome → (g.type t).interfaces = []

/-- **`SystemBuilt.lawfulEdges_iff`** — where arrays derive from need not be demanded. -/
theorem SystemBuilt.lawfulEdges_iff {g : TypeGraph} (h : g.SystemBuilt) : g.LawfulEdges ↔ g.Orderly := by
  constructor
  · intro hl
    exact ⟨fun t => (hl t).root_bare, fun t => (hl t).base_kind, fun t => (hl t).interface_kind,
      fun t ht => ((hl t).array_edges ht).2⟩
  · intro ho t
    obtain ⟨c, hc⟩ := h.arraysDerive
    exact ⟨ho.root_bare t, ho.base_kind t, ho.interface_kind t,
      fun ht => ⟨(hc.base t ht).trans hc.lookup.symm, ho.array_bare t ht⟩⟩

end TypeGraph

/-! ## § Two interfaces that extend each other -/

namespace InterfaceCycle

open TypeGraph

export SystemOnly (system)

/-- An interface. -/
def source : TypeId × TypeGraph := SystemOnly.graph.addInterface "T.Source"

/-- Another interface. -/
def sink : TypeId × TypeGraph := source.2.addInterface "T.Sink"

/-- A class. -/
def channel : TypeId × TypeGraph := sink.2.addClass "T.Channel" system.object .visible

/-- The interfaces extend each other, and the class implements one of them. -/
def linked : TypeGraph :=
  ((channel.2.addInterfaceImpl source.1 sink.1).addInterfaceImpl sink.1 source.1).addInterfaceImpl
    channel.1 source.1

/-- The array of the class. -/
def channels : TypeId × TypeGraph := linked.arrayOf channel.1

/-- The array of the interface that the class does not name. -/
def sinks : TypeId × TypeGraph := channels.2.arrayOf sink.1

/-- The graph with all of them. -/
def graph : TypeGraph := sinks.2

theorem systemBuilt : graph.SystemBuilt := by
  have hnone : ∀ t, (TypeGraph.empty.type t).element? = none := fun _ => rfl
  obtain ⟨hobject, hsource, hsink, hchannel⟩ : sink.2.Knows system.object ∧
      channel.2.Knows source.1 ∧ channel.2.Knows sink.1 ∧ channel.2.Knows channel.1 := by
    decide +kernel
  have hlinked : ∀ {t}, channel.2.Knows t → linked.Knows t := by
    intro t ht
    rwa [linked, knows_addInterfaceImpl, knows_addInterfaceImpl, knows_addInterfaceImpl]
  -- The types, the edges between them and the arrays.
  have hsystem := SystemBuilt.addSystemTypes .empty hnone
  have htypes : channel.2.SystemBuilt := by
    refine .addType _ _ (.addType _ _ (.addType _ _ hsystem ?_ ?_ ?_) ?_ ?_ ?_) ?_ ?_ ?_
    case refine_8 =>
      intro b hb
      cases hb
      exact hobject
    all_goals exact fun _ => nofun
  have hedges : linked.SystemBuilt := by
    refine .addInterfaceImpl (.addInterfaceImpl (.addInterfaceImpl htypes hsource hsink) ?_ ?_) ?_ ?_
    all_goals simpa only [knows_addInterfaceImpl]
  exact (hedges.arrayOf (hlinked hchannel)).arrayOf
    ((extends_addType _ _ _ _ _).knows (hlinked hsink))

end InterfaceCycle

end ManagedCode
