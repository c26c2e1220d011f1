/-
# ManagedCode.Proofs.Graph.Growth — what a type graph keeps as it grows.

A graph is only ever built by its operations, and each of them is given identities that the graph has
handed out before.  Two facts follow for every graph that can exist, whatever hierarchy it describes:
every identity it mentions has an entry (`Closed`), and arrays and by-reference types are newer than the
type they are made of, so nesting ends.

`Extends` says that a later graph still has everything that an earlier one had, with the same meaning.
Adding a type extends a graph; this is all the growth that verification itself causes.
-/
import ManagedCode.Graph.Subtyping
import ManagedCode.Graph.System
import Mathlib.Tactic.ByContra

namespace ManagedCode

/-- The type that an array or a by-reference type is made of. -/
def TypeKind.inner? : TypeKind → Option TypeId
  | .array t | .byRef t => some t
  | _ => none

namespace TypeGraph

/-! ## § Identities of a graph -/

/-- The graph has handed out the identity. -/
def Knows (g : TypeGraph) (t : TypeId) : Prop := t.index < g.types.size

/-- The graph has handed out the identity of the field. -/
def KnowsField (g : TypeGraph) (f : FieldId) : Prop := f.index < g.fields.size

/-- The graph has handed out the identity of the method. -/
def KnowsMethod (g : TypeGraph) (m : MethodId) : Prop := m.index < g.methods.size

instance (g : TypeGraph) (t : TypeId) : Decidable (g.Knows t) := Nat.decLt _ _

instance (g : TypeGraph) (f : FieldId) : Decidable (g.KnowsField f) := Nat.decLt _ _

instance (g : TypeGraph) (m : MethodId) : Decidable (g.KnowsMethod m) := Nat.decLt _ _

theorem type_eq_getElem {g : TypeGraph} {t : TypeId} (h : t.index < g.types.size) :
    g.type t = g.types[t.index] := by
  rw [type, Array.getD_eq_getD_getElem?, Array.getElem?_eq_getElem h]
  rfl

/-- An identity from elsewhere stands for the nameless class. -/
theorem type_of_not_knows {g : TypeGraph} {t : TypeId} (h : ¬ g.Knows t) : g.type t = .absent := by
  have hsize : g.types.size ≤ t.index := Nat.le_of_not_lt h
  rw [type, Array.getD_eq_getD_getElem?, Array.getElem?_eq_none hsize]
  rfl

/-- Whatever tells an entry from the nameless class shows that the graph has it. -/
theorem knows_of_type_ne {g : TypeGraph} {t : TypeId} (h : g.type t ≠ .absent) : g.Knows t := by
  by_contra hk
  exact h (type_of_not_knows hk)

theorem knows_of_lookup? {g : TypeGraph} {name : String} {t : TypeId}
    (h : g.lookup? name = some t) : g.Knows t := by
  simp only [lookup?, Option.map_eq_some_iff] at h
  obtain ⟨i, hi, rfl⟩ := h
  exact (Array.findIdx?_eq_some_iff_getElem.mp hi).1

/-- What is found under a name has that name. -/
theorem nameOf_of_lookup? {g : TypeGraph} {name : String} {t : TypeId} (h : g.lookup? name = some t) :
    g.nameOf t = name := by
  simp only [lookup?, Option.map_eq_some_iff] at h
  obtain ⟨i, hi, rfl⟩ := h
  obtain ⟨hlt, hname, -⟩ := Array.findIdx?_eq_some_iff_getElem.mp hi
  rw [nameOf, type_eq_getElem hlt]
  exact beq_iff_eq.mp hname

/-! ## § Closed graphs -/

/-- Every identity that the graph mentions is one of its own, and what a type is made of is older. -/
structure Closed (g : TypeGraph) : Prop where
  base_known : ∀ {t b}, (g.type t).base = some b → g.Knows b
  interface_known : ∀ {t i}, i ∈ (g.type t).interfaces → g.Knows i
  inner_older : ∀ {t e}, (g.type t).kind.inner? = some e → e.index < t.index
  field_known : ∀ {f}, g.KnowsField f → g.Knows (g.field f).owner ∧ g.Knows (g.field f).type
  method_known : ∀ {m}, g.KnowsMethod m →
    g.Knows (g.method m).owner ∧ (∀ p ∈ (g.method m).parameters, g.Knows p) ∧
      ∀ t ∈ (g.method m).returnType, g.Knows t

theorem Closed.inner_known {g : TypeGraph} (hg : g.Closed) {t e : TypeId}
    (h : (g.type t).kind.inner? = some e) : g.Knows e := by
  have ht : g.Knows t := by
    apply knows_of_type_ne
    intro habsent
    rw [habsent] at h
    cases h
  exact Nat.lt_trans (hg.inner_older h) ht

theorem closed_empty : empty.Closed where
  base_known h := by cases h
  interface_known h := by cases h
  inner_older h := by cases h
  field_known h := by cases h
  method_known h := by cases h

/-! ## § Extension -/

/-- `g'` has every type of `g`, unchanged and under the same name, and the same members. -/
structure Extends (g g' : TypeGraph) : Prop where
  knows : ∀ {t}, g.Knows t → g'.Knows t
  type_eq : ∀ {t}, g.Knows t → g'.type t = g.type t
  fields_eq : g'.fields = g.fields
  methods_eq : g'.methods = g.methods
  lookup_eq : ∀ {name t}, g.lookup? name = some t → g'.lookup? name = some t

theorem Extends.refl (g : TypeGraph) : g.Extends g := ⟨fun h => h, fun _ => rfl, rfl, rfl, fun h => h⟩

theorem Extends.trans {g₁ g₂ g₃ : TypeGraph} (h : g₁.Extends g₂) (h' : g₂.Extends g₃) :
    g₁.Extends g₃ where
  knows hk := h'.knows (h.knows hk)
  type_eq hk := by rw [h'.type_eq (h.knows hk), h.type_eq hk]
  fields_eq := by rw [h'.fields_eq, h.fields_eq]
  methods_eq := by rw [h'.methods_eq, h.methods_eq]
  lookup_eq hl := h'.lookup_eq (h.lookup_eq hl)

theorem Extends.field_eq {g g' : TypeGraph} (h : g.Extends g') (f : FieldId) :
    g'.field f = g.field f := by
  rw [field, field, h.fields_eq]

theorem Extends.method_eq {g g' : TypeGraph} (h : g.Extends g') (m : MethodId) :
    g'.method m = g.method m := by
  rw [method, method, h.methods_eq]

theorem Extends.knowsField {g g' : TypeGraph} (h : g.Extends g') {f : FieldId}
    (hf : g.KnowsField f) : g'.KnowsField f := by
  rwa [KnowsField, h.fields_eq]

theorem Extends.knowsMethod {g g' : TypeGraph} (h : g.Extends g') {m : MethodId}
    (hm : g.KnowsMethod m) : g'.KnowsMethod m := by
  rwa [KnowsMethod, h.methods_eq]

theorem Extends.nameOf_eq {g g' : TypeGraph} (h : g.Extends g') {t : TypeId} (ht : g.Knows t) :
    g'.nameOf t = g.nameOf t := by
  rw [nameOf, nameOf, h.type_eq ht]

/-! ## § Adding a type -/

/-- A name that is taken adds nothing. -/
theorem addType_taken {g : TypeGraph} {name : String} {existing : TypeId}
    (kind : TypeKind) (base : Option TypeId) (flags : TypeFlags)
    (h : g.lookup? name = some existing) : g.addType name kind base flags = (existing, g) := by
  rw [addType, h]

/-- A free name adds one entry after all others, and no member. -/
theorem addType_free {g : TypeGraph} {name : String}
    (kind : TypeKind) (base : Option TypeId) (flags : TypeFlags) (h : g.lookup? name = none) :
    ∃ token, (g.addType name kind base flags).1 = ⟨g.types.size⟩ ∧
      (g.addType name kind base flags).2.types =
        g.types.push { name, kind, base, flags, token } ∧
      (g.addType name kind base flags).2.fields = g.fields ∧
      (g.addType name kind base flags).2.methods = g.methods := by
  refine ⟨kind.table.token (g.typeRows kind + 1), ?_⟩
  rw [addType, h]
  dsimp only
  split <;> exact ⟨rfl, rfl, rfl, rfl⟩

section Push

variable {g g' : TypeGraph} {entry : TypeEntry}

theorem knows_push (h : g'.types = g.types.push entry) {t : TypeId} :
    g'.Knows t ↔ g.Knows t ∨ t = ⟨g.types.size⟩ := by
  obtain ⟨i⟩ := t
  simp only [Knows, h, Array.size_push, TypeId.mk.injEq]
  omega

theorem type_push_old (h : g'.types = g.types.push entry) {t : TypeId} (ht : g.Knows t) :
    g'.type t = g.type t := by
  have ht' : g'.Knows t := (knows_push h).mpr (.inl ht)
  rw [type_eq_getElem ht, type_eq_getElem ht']
  simp only [h]
  exact Array.getElem_push_lt ht

theorem type_push_new (h : g'.types = g.types.push entry) : g'.type ⟨g.types.size⟩ = entry := by
  rw [type_eq_getElem ((knows_push h).mpr (.inr rfl))]
  simp only [h, Array.getElem_push_eq]

/-- The entry of any identity after one more type: the new one, or what it was. -/
theorem type_push (h : g'.types = g.types.push entry) (t : TypeId) :
    (t = ⟨g.types.size⟩ ∧ g'.type t = entry) ∨ (t ≠ ⟨g.types.size⟩ ∧ g'.type t = g.type t) := by
  by_cases hnew : t = ⟨g.types.size⟩
  · exact .inl ⟨hnew, hnew ▸ type_push_new h⟩
  · refine .inr ⟨hnew, ?_⟩
    by_cases ht : g.Knows t
    · exact type_push_old h ht
    · have ht' : ¬ g'.Knows t := by
        rw [knows_push h]
        rintro (hold | heq)
        · exact ht hold
        · exact hnew heq
      rw [type_of_not_knows ht, type_of_not_knows ht']

/-- One more type is found under its name, unless an older one has it. -/
theorem lookup?_push_eq (h : g'.types = g.types.push entry) (name : String) :
    g'.lookup? name =
      (g.lookup? name).or (if entry.name == name then some ⟨g.types.size⟩ else none) := by
  rw [lookup?, lookup?, h, Array.findIdx?_push]
  cases g.types.findIdx? (·.name == name) with
  | some i => rfl
  | none => cases entry.name == name <;> rfl

theorem lookup?_push (h : g'.types = g.types.push entry) {name : String} {t : TypeId}
    (hl : g.lookup? name = some t) : g'.lookup? name = some t := by
  rw [lookup?_push_eq h, hl]
  rfl

theorem extends_push (h : g'.types = g.types.push entry) (hf : g'.fields = g.fields)
    (hm : g'.methods = g.methods) : g.Extends g' where
  knows ht := (knows_push h).mpr (.inl ht)
  type_eq ht := type_push_old h ht
  fields_eq := hf
  methods_eq := hm
  lookup_eq hl := lookup?_push h hl

/-- A new entry keeps a graph closed if all it mentions is known. -/
theorem Closed.push (hg : g.Closed) (h : g'.types = g.types.push entry)
    (hf : g'.fields = g.fields) (hm : g'.methods = g.methods)
    (hbase : ∀ b ∈ entry.base, g.Knows b) (hinterfaces : ∀ i ∈ entry.interfaces, g.Knows i)
    (hinner : ∀ e ∈ entry.kind.inner?, g.Knows e) : g'.Closed := by
  have hext := extends_push h hf hm
  constructor
  · intro t b hb
    rcases type_push h t with ⟨-, ht⟩ | ⟨-, ht⟩
    · exact hext.knows (hbase b (ht ▸ hb))
    · exact hext.knows (hg.base_known (ht ▸ hb))
  · intro t i hi
    rcases type_push h t with ⟨-, ht⟩ | ⟨-, ht⟩
    · exact hext.knows (hinterfaces i (ht ▸ hi))
    · exact hext.knows (hg.interface_known (ht ▸ hi))
  · intro t e he
    rcases type_push h t with ⟨rfl, ht⟩ | ⟨-, ht⟩
    · exact hinner e (ht ▸ he)
    · exact hg.inner_older (ht ▸ he)
  · intro f hlt
    rw [hext.field_eq]
    obtain ⟨howner, htype⟩ := hg.field_known (show g.KnowsField f by rwa [KnowsField, ← hf])
    exact ⟨hext.knows howner, hext.knows htype⟩
  · intro m hlt
    rw [hext.method_eq]
    obtain ⟨howner, hparams, hret⟩ := hg.method_known (show g.KnowsMethod m by rwa [KnowsMethod, ← hm])
    exact ⟨hext.knows howner, fun p hp => hext.knows (hparams p hp),
      fun t ht => hext.knows (hret t ht)⟩

end Push

/-- **`extends_addType`** — adding a type changes nothing that was there. -/
theorem extends_addType (g : TypeGraph) (name : String) (kind : TypeKind) (base : Option TypeId)
    (flags : TypeFlags) : g.Extends (g.addType name kind base flags).2 := by
  cases hl : g.lookup? name with
  | some existing =>
    rw [addType_taken kind base flags hl]
    exact .refl g
  | none =>
    obtain ⟨_, -, htypes, hf, hm⟩ := addType_free kind base flags hl
    exact extends_push htypes hf hm

/-- The identity that is answered is one of the grown graph. -/
theorem knows_addType (g : TypeGraph) (name : String) (kind : TypeKind) (base : Option TypeId)
    (flags : TypeFlags) :
    (g.addType name kind base flags).2.Knows (g.addType name kind base flags).1 := by
  cases hl : g.lookup? name with
  | some existing =>
    rw [addType_taken kind base flags hl]
    exact knows_of_lookup? hl
  | none =>
    obtain ⟨_, hid, htypes, -, -⟩ := addType_free kind base flags hl
    rw [hid]
    exact (knows_push htypes).mpr (.inr rfl)

/-- The entry of any identity after a type was added: what it was, or the new one. -/
theorem type_addType (g : TypeGraph) (name : String) (kind : TypeKind) (base : Option TypeId)
    (flags : TypeFlags) (t : TypeId) :
    (g.addType name kind base flags).2.type t = g.type t ∨
      ∃ token, (g.addType name kind base flags).2.type t = { name, kind, base, flags, token } := by
  cases hl : g.lookup? name with
  | some existing =>
    rw [addType_taken kind base flags hl]
    exact .inl rfl
  | none =>
    obtain ⟨token, -, htypes, -, -⟩ := addType_free kind base flags hl
    rcases type_push htypes t with ⟨-, hentry⟩ | ⟨-, hentry⟩
    · exact .inr ⟨token, hentry⟩
    · exact .inl hentry

/-- A name that was asked for is taken from then on. -/
theorem lookup?_addType (g : TypeGraph) (name : String) (kind : TypeKind) (base : Option TypeId)
    (flags : TypeFlags) : ∃ t, (g.addType name kind base flags).2.lookup? name = some t := by
  cases hl : g.lookup? name with
  | some existing =>
    rw [addType_taken kind base flags hl]
    exact ⟨existing, hl⟩
  | none =>
    obtain ⟨_, -, htypes, -, -⟩ := addType_free kind base flags hl
    rw [lookup?_push_eq htypes, hl, beq_self_eq_true]
    exact ⟨_, rfl⟩

theorem Closed.addType {g : TypeGraph} (hg : g.Closed) (name : String) {kind : TypeKind}
    {base : Option TypeId} (flags : TypeFlags) (hbase : ∀ b ∈ base, g.Knows b)
    (hinner : ∀ e ∈ kind.inner?, g.Knows e) : (g.addType name kind base flags).2.Closed := by
  cases hl : g.lookup? name with
  | some existing => rwa [addType_taken kind base flags hl]
  | none =>
    obtain ⟨_, -, htypes, hf, hm⟩ := addType_free kind base flags hl
    exact hg.push htypes hf hm hbase (fun i hi => by cases hi) hinner

theorem Closed.arrayOf {g : TypeGraph} (hg : g.Closed) {element : TypeId} (he : g.Knows element) :
    (g.arrayOf element).2.Closed := by
  apply hg.addType
  · intro b hb
    exact knows_of_lookup? hb
  · intro e hinner
    cases hinner
    exact he

theorem Closed.byRef {g : TypeGraph} (hg : g.Closed) {referent : TypeId} (hr : g.Knows referent) :
    (g.byRef referent).2.Closed := by
  apply hg.addType
  · intro b hb
    cases hb
  · intro e hinner
    cases hinner
    exact hr

/-! ## § Adding edges and members -/

/-- The entry of any identity after one entry was replaced. -/
theorem type_updateType (g : TypeGraph) (t u : TypeId) (change : TypeEntry → TypeEntry) :
    (g.updateType t change).type u = if g.Knows t ∧ u = t then change (g.type t) else g.type u := by
  obtain ⟨i⟩ := t
  obtain ⟨j⟩ := u
  simp only [type, updateType, Array.getD_eq_getD_getElem?, Array.getElem?_modify, Knows,
    TypeId.mk.injEq]
  by_cases hij : i = j
  · subst hij
    by_cases hlt : i < g.types.size
    · simp [hlt]
    · simp [hlt]
  · have hji : j ≠ i := fun h => hij h.symm
    simp [hij, hji]

/-- What a change keeps of every entry it keeps of the graph. -/
theorem read_updateType {α : Type} (read : TypeEntry → α) (g : TypeGraph) (t u : TypeId)
    {change : TypeEntry → TypeEntry} (h : ∀ e, read (change e) = read e) :
    read ((g.updateType t change).type u) = read (g.type u) := by
  rw [type_updateType]
  split
  case isTrue hu => rw [h, hu.2]
  case isFalse => rfl

theorem type_congr {g g' : TypeGraph} (h : g'.types = g.types) (t : TypeId) : g'.type t = g.type t := by
  rw [type, type, h]

/-- What a change keeps of every entry it keeps in a graph that differs in members besides. -/
theorem read_of_types_eq {α : Type} (read : TypeEntry → α) {g g' : TypeGraph} {t : TypeId}
    {change : TypeEntry → TypeEntry} (htypes : g'.types = (g.updateType t change).types)
    (h : ∀ e, read (change e) = read e) (u : TypeId) : read (g'.type u) = read (g.type u) := by
  rw [type_congr htypes]
  exact read_updateType read g t u h

theorem knows_updateType {g : TypeGraph} {t u : TypeId} {change : TypeEntry → TypeEntry} :
    (g.updateType t change).Knows u ↔ g.Knows u := by
  simp only [Knows, updateType, Array.size_modify]

theorem knows_addInterfaceImpl {g : TypeGraph} {implementer interface t : TypeId} :
    (g.addInterfaceImpl implementer interface).Knows t ↔ g.Knows t := by
  unfold addInterfaceImpl
  split
  · rfl
  · exact knows_updateType

/-- What a change keeps of every entry, read off all of them in order. -/
theorem map_updateType {α : Type} (read : TypeEntry → α) (g : TypeGraph) (t : TypeId)
    {change : TypeEntry → TypeEntry} (h : ∀ e, read (change e) = read e) :
    (g.updateType t change).types.map read = g.types.map read := by
  apply Array.ext
  · simp [updateType]
  · intro i hi hi'
    rw [Array.getElem_map, Array.getElem_map]
    simp only [updateType, Array.getElem_modify]
    split
    · exact h _
    · rfl

/-- Names are found where they were after an entry was replaced by one of its name. -/
theorem lookup?_updateType (g : TypeGraph) (t : TypeId) {change : TypeEntry → TypeEntry}
    (hname : ∀ e, (change e).name = e.name) (name : String) :
    (g.updateType t change).lookup? name = g.lookup? name := by
  have hfind : ∀ types : Array TypeEntry,
      types.findIdx? (·.name == name) = (types.map (·.name)).findIdx? (· == name) := by
    intro types
    rw [Array.findIdx?_map]
    rfl
  rw [lookup?, lookup?, hfind, map_updateType TypeEntry.name g t hname, ← hfind]

/-- Replacing an entry keeps a graph closed if base and kind stay and the interfaces are known. -/
theorem Closed.updateType {g : TypeGraph} (hg : g.Closed) {t : TypeId}
    {change : TypeEntry → TypeEntry} (hbase : ∀ e, (change e).base = e.base)
    (hkind : ∀ e, (change e).kind = e.kind)
    (hinterfaces : ∀ i ∈ (change (g.type t)).interfaces, g.Knows i) :
    (g.updateType t change).Closed := by
  constructor
  · intro u b hb
    rw [read_updateType TypeEntry.base g t u hbase] at hb
    exact knows_updateType.mpr (hg.base_known hb)
  · intro u i hi
    rw [type_updateType] at hi
    rw [knows_updateType]
    split at hi
    · exact hinterfaces i hi
    · exact hg.interface_known hi
  · intro u e he
    rw [read_updateType TypeEntry.kind g t u hkind] at he
    exact hg.inner_older he
  · intro f hlt
    obtain ⟨howner, htype⟩ := hg.field_known hlt
    exact ⟨knows_updateType.mpr howner, knows_updateType.mpr htype⟩
  · intro m hlt
    obtain ⟨howner, hparams, hret⟩ := hg.method_known hlt
    exact ⟨knows_updateType.mpr howner, fun p hp => knows_updateType.mpr (hparams p hp),
      fun u hu => knows_updateType.mpr (hret u hu)⟩

theorem Closed.addInterfaceImpl {g : TypeGraph} (hg : g.Closed) (implementer : TypeId)
    {interface : TypeId} (hi : g.Knows interface) :
    (g.addInterfaceImpl implementer interface).Closed := by
  unfold TypeGraph.addInterfaceImpl
  split
  · exact hg
  · refine hg.updateType (fun _ => rfl) (fun _ => rfl) ?_
    intro i hmem
    rcases List.mem_append.mp hmem with hold | hnew
    · exact hg.interface_known hold
    · rwa [List.mem_singleton.mp hnew]

theorem Closed.addField {g : TypeGraph} (hg : g.Closed) {owner type : TypeId} (name : String)
    (flags : FieldFlags) (howner : g.Knows owner) (htype : g.Knows type) :
    (g.addField owner name type flags).2.Closed := by
  unfold TypeGraph.addField
  split
  · exact hg
  · refine Closed.updateType ?_ (fun _ => rfl) (fun _ => rfl) (fun i hi => hg.interface_known hi)
    refine ⟨hg.base_known, hg.interface_known, hg.inner_older, ?_, hg.method_known⟩
    intro f hlt
    simp only [field, Array.getD_eq_getD_getElem?, Array.getElem?_push]
    split
    · exact ⟨howner, htype⟩
    · have hold : g.KnowsField f := by
        simp only [KnowsField, Array.size_push] at hlt ⊢
        omega
      have hknown := hg.field_known hold
      rwa [field, Array.getD_eq_getD_getElem?] at hknown

theorem Closed.addMethod {g : TypeGraph} (hg : g.Closed) {owner : TypeId} (name : String)
    {parameters : List TypeId} {returnType : Option TypeId} (flags : MethodFlags)
    (howner : g.Knows owner) (hparams : ∀ p ∈ parameters, g.Knows p)
    (hret : ∀ t ∈ returnType, g.Knows t) :
    (g.addMethod owner name parameters returnType flags).2.Closed := by
  unfold TypeGraph.addMethod
  dsimp only
  split
  · exact hg
  · refine Closed.updateType ?_ (fun _ => rfl) (fun _ => rfl) (fun i hi => hg.interface_known hi)
    refine ⟨hg.base_known, hg.interface_known, hg.inner_older, hg.field_known, ?_⟩
    intro m hlt
    simp only [method, Array.getD_eq_getD_getElem?, Array.getElem?_push]
    split
    · exact ⟨howner, hparams, hret⟩
    · have hold : g.KnowsMethod m := by
        simp only [KnowsMethod, Array.size_push] at hlt ⊢
        omega
      have hknown := hg.method_known hold
      rwa [method, Array.getD_eq_getD_getElem?] at hknown

/-! ## § Graphs that can be built -/

/-- **`Built`** — the graphs that the operations can make, each operation being given identities of the
graph it grows. -/
inductive Built : TypeGraph → Prop
  | empty : Built empty
  | addType {g : TypeGraph} (name : String) {kind : TypeKind} {base : Option TypeId}
      (flags : TypeFlags) : Built g → (∀ b ∈ base, g.Knows b) → (∀ e ∈ kind.inner?, g.Knows e) →
      Built (g.addType name kind base flags).2
  | addInterfaceImpl {g : TypeGraph} {implementer interface : TypeId} : Built g →
      g.Knows implementer → g.Knows interface → Built (g.addInterfaceImpl implementer interface)
  | addField {g : TypeGraph} {owner type : TypeId} (name : String) (flags : FieldFlags) : Built g →
      g.Knows owner → g.Knows type → Built (g.addField owner name type flags).2
  | addMethod {g : TypeGraph} {owner : TypeId} (name : String) {parameters : List TypeId}
      {returnType : Option TypeId} (flags : MethodFlags) : Built g → g.Knows owner →
      (∀ p ∈ parameters, g.Knows p) → (∀ t ∈ returnType, g.Knows t) →
      Built (g.addMethod owner name parameters returnType flags).2

/-- **`Built.closed`** — no operation can make a graph mention an identity it has not handed out. -/
theorem Built.closed {g : TypeGraph} (h : g.Built) : g.Closed := by
  induction h with
  | empty => exact closed_empty
  | addType name flags _ hbase hinner ih => exact ih.addType name flags hbase hinner
  | addInterfaceImpl _ _ hi ih => exact ih.addInterfaceImpl _ hi
  | addField name flags _ howner htype ih => exact ih.addField name flags howner htype
  | addMethod name flags _ howner hparams hret ih => exact ih.addMethod name flags howner hparams hret

/-! ## § The system types -/

theorem Built.addClass {g : TypeGraph} (h : g.Built) (name : String) {base : TypeId}
    (flags : TypeFlags) (hbase : g.Knows base) : (g.addClass name base flags).2.Built := by
  refine h.addType name flags ?_ ?_
  · intro b hb
    cases hb
    exact hbase
  · intro e he
    cases he

/-- Full names of the system types. -/
def systemNames : List String :=
  ["System.Object", "System.ValueType", "System.Enum", arrayBaseName, "System.String",
    "System.Exception"] ++ Primitive.all.map Primitive.systemName

/-- Adding primitives one after the other, each deriving from the same type. -/
theorem addPrimitives_steps {P : TypeGraph → Prop} {valueType : TypeId}
    (hstep : ∀ g p, g.Knows valueType → P g → P (g.addPrimitive valueType p).2) {g : TypeGraph}
    (hbase : g.Knows valueType) (h : P g) (primitives : List Primitive) :
    P (primitives.foldl (fun g p => (g.addPrimitive valueType p).2) g) := by
  induction primitives generalizing g with
  | nil => exact h
  | cons p rest ih => exact ih ((extends_addType g _ _ _ _).knows hbase) (hstep g p hbase h)

/-- **`addSystemTypes_steps`** — what adding one type under a system name keeps, adding all of them keeps.
No type that is added is made of another, and each derives from one that is there by then. -/
theorem addSystemTypes_steps {P : TypeGraph → Prop}
    (hstep : ∀ {g : TypeGraph} {name : String} {kind : TypeKind} {base : Option TypeId} (flags : TypeFlags),
      name ∈ systemNames → kind.inner? = none → (∀ b ∈ base, g.Knows b) → P g →
      P (g.addType name kind base flags).2)
    {g : TypeGraph} (h : P g) : P g.addSystemTypes.2 := by
  have hclass {g : TypeGraph} (name : String) {base : TypeId} (flags : TypeFlags)
      (hname : name ∈ systemNames) (hbase : g.Knows base) (hg : P g) :
      P (g.addClass name base flags).2 :=
    hstep flags hname rfl (fun b hb => Option.mem_some.mp hb ▸ hbase) hg
  -- The class hierarchy: each class derives from one that is there by then.
  let g₁ := g.addType "System.Object" .classType none .visible
  let g₂ := g₁.2.addClass "System.ValueType" g₁.1 (.visible ||| .abstract)
  let g₃ := g₂.2.addClass "System.Enum" g₂.1 (.visible ||| .abstract)
  let g₄ := g₃.2.addClass arrayBaseName g₁.1 (.visible ||| .abstract)
  let g₅ := g₄.2.addClass "System.String" g₁.1 (.visible ||| .sealed)
  have hobject₁ : g₁.2.Knows g₁.1 := knows_addType g _ _ _ _
  have hobject₂ : g₂.2.Knows g₁.1 := (extends_addType g₁.2 _ _ _ _).knows hobject₁
  have hobject₃ : g₃.2.Knows g₁.1 := (extends_addType g₂.2 _ _ _ _).knows hobject₂
  have hobject₄ : g₄.2.Knows g₁.1 := (extends_addType g₃.2 _ _ _ _).knows hobject₃
  have hobject₅ : g₅.2.Knows g₁.1 := (extends_addType g₄.2 _ _ _ _).knows hobject₄
  have hvalue₂ : g₂.2.Knows g₂.1 := knows_addType g₁.2 _ _ _ _
  have hvalue₃ : g₃.2.Knows g₂.1 := (extends_addType g₂.2 _ _ _ _).knows hvalue₂
  have hvalue₄ : g₄.2.Knows g₂.1 := (extends_addType g₃.2 _ _ _ _).knows hvalue₃
  have hvalue₅ : g₅.2.Knows g₂.1 := (extends_addType g₄.2 _ _ _ _).knows hvalue₄
  have h₁ : P g₁.2 := hstep _ (by decide) rfl (fun b hb => by cases hb) h
  have h₂ : P g₂.2 := hclass _ _ (by decide) hobject₁ h₁
  have h₃ : P g₃.2 := hclass _ _ (by decide) hvalue₂ h₂
  have h₄ : P g₄.2 := hclass _ _ (by decide) hobject₃ h₃
  have h₅ : P g₅.2 := hclass _ _ (by decide) hobject₄ h₄
  have h₆ := hclass "System.Exception" .visible (by decide) hobject₅ h₅
  have hprimitive (g : TypeGraph) (p : Primitive) (hbase : g.Knows g₂.1) (hg : P g) :
      P (g.addPrimitive g₂.1 p).2 := by
    refine hstep _ ?_ rfl (fun b hb => Option.mem_some.mp hb ▸ hbase) hg
    cases p <;> decide
  have hprimitives :=
    addPrimitives_steps hprimitive ((extends_addType g₅.2 _ _ _ _).knows hvalue₅) h₆ Primitive.all
  simp only [Primitive.all, List.foldl_cons, List.foldl_nil] at hprimitives
  unfold TypeGraph.addSystemTypes
  dsimp only
  exact hprimitives

/-- **`Built.addSystemTypes`** — the system types can be added to whatever has been built. -/
theorem Built.addSystemTypes {g : TypeGraph} (h : g.Built) : g.addSystemTypes.2.Built := by
  refine addSystemTypes_steps (P := Built) ?_ h
  intro g name kind base flags _ hinner hbase hg
  refine hg.addType name flags hbase fun e he => ?_
  rw [hinner] at he
  cases he

end TypeGraph

end ManagedCode
