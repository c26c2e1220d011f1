/-
# ManagedCode.Proofs.Graph.Evolution — what every later graph still says.

`Extends` describes growth by types alone, which is what verification causes.  Between two verifications
anything may happen to a graph: types, members and interface edges are added by whoever holds it.  `Growth`
is one such operation and `Evolves` any number of them.

No operation takes anything back (`Retains`): a type keeps its name, kind and base, and can only gain
interfaces.  Where no interface edge is added it gains none either, and then the two graphs describe the same
hierarchy on the types of the first.
-/
import ManagedCode.Proofs.Graph.Hierarchy

namespace ManagedCode

namespace TypeGraph

/-! ## § Operations -/

/-- **`Growth`** — one operation on a graph, given identities of that graph; interface edges are added only
if `edges` is set. -/
inductive Growth (edges : Bool) (g : TypeGraph) : TypeGraph → Prop
  | addType (name : String) {kind : TypeKind} {base : Option TypeId} (flags : TypeFlags) :
    (∀ b ∈ base, g.Knows b) → (∀ e ∈ kind.inner?, g.Knows e) →
    Growth edges g (g.addType name kind base flags).2
  | addInterfaceImpl {implementer interface : TypeId} : edges = true → g.Knows implementer →
    g.Knows interface → Growth edges g (g.addInterfaceImpl implementer interface)
  | addField {owner type : TypeId} (name : String) (flags : FieldFlags) : g.Knows owner →
    g.Knows type → Growth edges g (g.addField owner name type flags).2
  | addMethod {owner : TypeId} (name : String) {parameters : List TypeId} {returnType : Option TypeId}
    (flags : MethodFlags) : g.Knows owner → (∀ p ∈ parameters, g.Knows p) →
    (∀ t ∈ returnType, g.Knows t) → Growth edges g (g.addMethod owner name parameters returnType flags).2

/-- **`Evolves`** — any number of operations, one after the other. -/
def Evolves (edges : Bool) : TypeGraph → TypeGraph → Prop := Relation.ReflTransGen (Growth edges)

/-- An array is a type like any other; the array class is known if there is one. -/
theorem Growth.arrayOf {edges : Bool} {g : TypeGraph} {element : TypeId} (he : g.Knows element) :
    Growth edges g (g.arrayOf element).2 := by
  refine .addType _ _ (fun b hb => knows_of_lookup? hb) fun e hinner => ?_
  cases hinner
  exact he

theorem Growth.byRef {edges : Bool} {g : TypeGraph} {referent : TypeId} (hr : g.Knows referent) :
    Growth edges g (g.byRef referent).2 := by
  refine .addType _ _ (fun b hb => by cases hb) fun e hinner => ?_
  cases hinner
  exact hr

theorem Growth.built {edges : Bool} {g g' : TypeGraph} (h : Growth edges g g') (hg : g.Built) :
    g'.Built := by
  cases h with
  | addType name flags hbase hinner => exact hg.addType name flags hbase hinner
  | addInterfaceImpl _ himplementer hinterface => exact hg.addInterfaceImpl himplementer hinterface
  | addField name flags howner htype => exact hg.addField name flags howner htype
  | addMethod name flags howner hparams hret => exact hg.addMethod name flags howner hparams hret

theorem Evolves.built {edges : Bool} {g g' : TypeGraph} (h : Evolves edges g g') (hg : g.Built) :
    g'.Built := by
  induction h with
  | refl => exact hg
  | tail _ hgrowth ih => exact hgrowth.built ih

/-- **`built_iff_evolves`** — what can be built is what the empty graph can become. -/
theorem built_iff_evolves {g : TypeGraph} : g.Built ↔ Evolves true empty g := by
  constructor
  · intro h
    induction h with
    | empty => exact .refl
    | addType name flags _ hbase hinner ih => exact ih.tail (.addType name flags hbase hinner)
    | addInterfaceImpl _ himplementer hinterface ih =>
      exact ih.tail (.addInterfaceImpl rfl himplementer hinterface)
    | addField name flags _ howner htype ih => exact ih.tail (.addField name flags howner htype)
    | addMethod name flags _ howner hparams hret ih =>
      exact ih.tail (.addMethod name flags howner hparams hret)
  · intro h
    exact h.built .empty

/-! ## § What is retained -/

/-- **`Retains`** — the later graph has every type of the earlier one, under its name and with its kind and
base; a type may have gained interfaces, but only if `edges` is set. -/
structure Retains (edges : Bool) (g g' : TypeGraph) : Prop where
  knows : ∀ {t}, g.Knows t → g'.Knows t
  kind_eq : ∀ {t}, g.Knows t → (g'.type t).kind = (g.type t).kind
  base_eq : ∀ {t}, g.Knows t → (g'.type t).base = (g.type t).base
  interfaces_subset : ∀ {t}, g.Knows t → (g.type t).interfaces ⊆ (g'.type t).interfaces
  interfaces_eq : edges = false → ∀ {t}, g.Knows t → (g'.type t).interfaces = (g.type t).interfaces
  lookup_eq : ∀ {name t}, g.lookup? name = some t → g'.lookup? name = some t

namespace Retains

variable {edges : Bool} {g g' g'' : TypeGraph}

theorem refl (edges : Bool) (g : TypeGraph) : Retains edges g g where
  knows h := h
  kind_eq _ := rfl
  base_eq _ := rfl
  interfaces_subset _ := List.Subset.refl _
  interfaces_eq _ _ _ := rfl
  lookup_eq h := h

theorem trans (h : Retains edges g g') (h' : Retains edges g' g'') : Retains edges g g'' where
  knows ht := h'.knows (h.knows ht)
  kind_eq ht := (h'.kind_eq (h.knows ht)).trans (h.kind_eq ht)
  base_eq ht := (h'.base_eq (h.knows ht)).trans (h.base_eq ht)
  interfaces_subset ht := List.Subset.trans (h.interfaces_subset ht) (h'.interfaces_subset (h.knows ht))
  interfaces_eq he _ ht := (h'.interfaces_eq he (h.knows ht)).trans (h.interfaces_eq he ht)
  lookup_eq hl := h'.lookup_eq (h.lookup_eq hl)

/-- A graph that gains types only changes none of those it had. -/
theorem of_extends (edges : Bool) (h : g.Extends g') : Retains edges g g' where
  knows := h.knows
  kind_eq ht := by rw [h.type_eq ht]
  base_eq ht := by rw [h.type_eq ht]
  interfaces_subset ht := by
    rw [h.type_eq ht]
    exact List.Subset.refl _
  interfaces_eq _ _ ht := by rw [h.type_eq ht]
  lookup_eq := h.lookup_eq

/-- A graph in which one entry was changed, but not in its name, kind or base. -/
theorem of_updateType {t : TypeId} {change : TypeEntry → TypeEntry}
    (htypes : g'.types = (g.updateType t change).types) (hname : ∀ e, (change e).name = e.name)
    (hkind : ∀ e, (change e).kind = e.kind) (hbase : ∀ e, (change e).base = e.base)
    (hsubset : ∀ e, e.interfaces ⊆ (change e).interfaces)
    (hsame : edges = false → ∀ e, (change e).interfaces = e.interfaces) : Retains edges g g' := by
  refine ⟨?knows, fun _ => read_of_types_eq TypeEntry.kind htypes hkind _,
    fun _ => read_of_types_eq TypeEntry.base htypes hbase _, ?subset,
    fun he _ _ => read_of_types_eq TypeEntry.interfaces htypes (hsame he) _, ?lookup⟩
  case knows =>
    intro u hu
    rw [Knows, htypes]
    exact knows_updateType.mpr hu
  case subset =>
    intro u _
    rw [type_congr htypes, type_updateType]
    split
    case isTrue h =>
      rw [h.2]
      exact hsubset _
    case isFalse => exact List.Subset.refl _
  case lookup =>
    intro name u hu
    rw [← lookup?_updateType g t hname, lookup?] at hu
    rwa [lookup?, htypes]

end Retains

/-- **`Growth.retains`** — no operation takes anything back. -/
theorem Growth.retains {edges : Bool} {g g' : TypeGraph} (h : Growth edges g g') : Retains edges g g' := by
  cases h with
  | addType name flags => exact .of_extends edges (extends_addType g name _ _ flags)
  | addInterfaceImpl hedges =>
    unfold TypeGraph.addInterfaceImpl
    split
    · exact .refl edges g
    · refine .of_updateType rfl (fun _ => rfl) (fun _ => rfl) (fun _ => rfl) ?_ ?_
      · exact fun e => List.subset_append_left e.interfaces _
      · intro he
        cases hedges.symm.trans he
  | addField name flags =>
    unfold TypeGraph.addField
    split
    · exact .refl edges g
    · exact .of_updateType rfl (fun _ => rfl) (fun _ => rfl) (fun _ => rfl)
        (fun _ => List.Subset.refl _) fun _ _ => rfl
  | addMethod name flags =>
    unfold TypeGraph.addMethod
    dsimp only
    split
    · exact .refl edges g
    · exact .of_updateType rfl (fun _ => rfl) (fun _ => rfl) (fun _ => rfl)
        (fun _ => List.Subset.refl _) fun _ _ => rfl

/-- **`Evolves.retains`** — and so nothing is ever taken back. -/
theorem Evolves.retains {edges : Bool} {g g' : TypeGraph} (h : Evolves edges g g') :
    Retains edges g g' := by
  induction h with
  | refl => exact .refl edges g
  | tail _ hgrowth ih => exact ih.trans hgrowth.retains

/-! ## § The hierarchy of the earlier graph -/

/-- The later graph is wider on the types of the earlier one. -/
theorem Retains.widensOn {edges : Bool} {g g' : TypeGraph} (h : Retains edges g g') (hg : g.Closed) :
    WidensOn g.Knows g g' where
  kind_eq := h.kind_eq
  base_eq := h.base_eq
  interfaces_subset := h.interfaces_subset
  edge _ hedge := hg.knows_of_edge hedge
  inner _ he := hg.inner_known he

/-- Without new interface edges it is no wider. -/
theorem Retains.widensOn_back {g g' : TypeGraph} (h : Retains false g g') (hg : g.Closed) :
    WidensOn g.Knows g' g where
  kind_eq ht := (h.kind_eq ht).symm
  base_eq ht := (h.base_eq ht).symm
  interfaces_subset ht := by
    rw [h.interfaces_eq rfl ht]
    exact List.Subset.refl _
  edge ht hedge := by
    rw [edge_iff, h.base_eq ht, h.interfaces_eq rfl ht, ← edge_iff] at hedge
    exact hg.knows_of_edge hedge
  inner ht he := hg.inner_known (h.kind_eq ht ▸ he)

theorem Evolves.wider {edges : Bool} {g g' : TypeGraph} (h : Evolves edges g g') (hg : g.Built) :
    Wider g g g' where
  widensOn := h.retains.widensOn hg.closed
  knows ht := ht
  knows' := h.retains.knows
  closed := hg.closed
  closed' := (h.built hg).closed

theorem Evolves.wider_back {g g' : TypeGraph} (h : Evolves false g g') (hg : g.Built) :
    Wider g g' g where
  widensOn := h.retains.widensOn_back hg.closed
  knows := h.retains.knows
  knows' ht := ht
  closed := (h.built hg).closed
  closed' := hg.closed

end TypeGraph

end ManagedCode
