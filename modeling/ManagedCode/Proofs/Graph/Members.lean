/-
# ManagedCode.Proofs.Graph.Members — what was added can be resolved.

Adding and resolving look at different things.  Adding a field asks the owner for one of that name, adding a
method for one of that name with the same parameters and the same staticness; resolving walks up the bases
and compares names, and parameters if they are given.  For fields the two agree.  For methods they agree up
to staticness: a static and an instance method that share everything else are two methods (`Twins`), and
then neither of them can be resolved.

`Listed` is the invariant behind this, for either sort of member: a type lists exactly the members of the
table that it owns, each once, and no two of one key.
-/
import ManagedCode.Graph.Resolution
import ManagedCode.Proofs.Graph.Supertype
import ManagedCode.Proofs.Graph.Tokens

namespace ManagedCode

/-! ## § Members and their keys -/

/-- **`Listed`** — every type lists the members of a table that it owns, each once, and no two members of one
type have the same key. -/
structure Listed {α κ : Type} (table : Array α) (owner : α → TypeId) (key : α → κ)
    (listed : TypeId → List Nat) : Prop where
  mem_iff : ∀ {t i}, i ∈ listed t ↔ ∃ h : i < table.size, owner table[i] = t
  nodup : ∀ t, (listed t).Nodup
  key_inj : ∀ {i j} (hi : i < table.size) (hj : j < table.size), owner table[i] = owner table[j] →
    key table[i] = key table[j] → i = j

namespace Listed

variable {α κ : Type} {table : Array α} {owner : α → TypeId} {key : α → κ} {listed : TypeId → List Nat}

theorem empty : Listed #[] owner key fun _ => [] where
  mem_iff := by
    intro t i
    constructor
    · intro h
      cases h
    · rintro ⟨h, -⟩
      exact absurd h (Nat.not_lt_zero i)
  nodup _ := List.nodup_nil
  key_inj hi := absurd hi (Nat.not_lt_zero _)

theorem congr (h : Listed table owner key listed) {listed' : TypeId → List Nat}
    (heq : ∀ t, listed' t = listed t) : Listed table owner key listed' := by
  rwa [funext heq]

/-- **`Listed.push`** — a member whose key is free at its owner goes to the end of the table and of the list. -/
theorem push (h : Listed table owner key listed) {entry : α} {listed' : TypeId → List Nat}
    (hfresh : ∀ i (hi : i < table.size), owner table[i] = owner entry → key table[i] ≠ key entry)
    (hlisted : ∀ t, listed' t = if t = owner entry then listed t ++ [table.size] else listed t) :
    Listed (table.push entry) owner key listed' where
  mem_iff := by
    intro t i
    have hmem : i ∈ listed' t ↔ i ∈ listed t ∨ i = table.size ∧ t = owner entry := by
      rw [hlisted]
      split <;> simp_all
    rw [hmem, h.mem_iff]
    constructor
    · rintro (⟨hi, howner⟩ | ⟨rfl, rfl⟩)
      · refine ⟨by rw [Array.size_push]; omega, ?_⟩
        rwa [Array.getElem_push_lt hi]
      · exact ⟨by simp, by rw [Array.getElem_push_eq]⟩
    · rintro ⟨hi, howner⟩
      rw [Array.size_push] at hi
      rcases Nat.lt_succ_iff_lt_or_eq.mp hi with hlt | rfl
      · rw [Array.getElem_push_lt hlt] at howner
        exact .inl ⟨hlt, howner⟩
      · rw [Array.getElem_push_eq] at howner
        exact .inr ⟨rfl, howner.symm⟩
  nodup t := by
    rw [hlisted]
    split
    · refine (h.nodup t).append (List.nodup_singleton _) ?_
      intro i hi hnew
      obtain ⟨hlt, -⟩ := h.mem_iff.mp hi
      rw [List.mem_singleton.mp hnew] at hlt
      exact Nat.lt_irrefl _ hlt
    · exact h.nodup t
  key_inj := by
    intro i j hi hj howner hkey
    rw [Array.size_push] at hi hj
    -- Two old members are told apart as before, and an old one from the new one by its key.
    rcases Nat.lt_succ_iff_lt_or_eq.mp hi with hi' | rfl
    · rcases Nat.lt_succ_iff_lt_or_eq.mp hj with hj' | rfl
      · rw [Array.getElem_push_lt hi', Array.getElem_push_lt hj'] at howner hkey
        exact h.key_inj hi' hj' howner hkey
      · rw [Array.getElem_push_lt hi', Array.getElem_push_eq] at howner hkey
        exact absurd hkey (hfresh i hi' howner)
    · rcases Nat.lt_succ_iff_lt_or_eq.mp hj with hj' | rfl
      · rw [Array.getElem_push_eq, Array.getElem_push_lt hj'] at howner hkey
        exact absurd hkey.symm (hfresh j hj' howner.symm)
      · rfl

end Listed

/-- Everything that adding a method compares. -/
def MethodEntry.key (m : MethodEntry) : String × List TypeId × Bool := (m.name, m.parameters, m.isStatic)

namespace TypeGraph

/-- The positions of the fields that a type lists. -/
def fieldRows (g : TypeGraph) (t : TypeId) : List Nat := (g.type t).fields.map FieldId.index

/-- The positions of the methods that a type lists. -/
def methodRows (g : TypeGraph) (t : TypeId) : List Nat := (g.type t).methods.map MethodId.index

/-- **`Membered`** — bases are older than what derives from them, and both sorts of members are listed. -/
structure Membered (g : TypeGraph) : Prop where
  base_older : ∀ {t b}, (g.type t).base = some b → b.index < t.index
  fields : Listed g.fields FieldEntry.owner FieldEntry.name g.fieldRows
  methods : Listed g.methods MethodEntry.owner MethodEntry.key g.methodRows

/-- A type lists the fields that it owns. -/
theorem Membered.mem_fields {g : TypeGraph} (hg : g.Membered) {t : TypeId} {f : FieldId} :
    f ∈ (g.type t).fields ↔ g.KnowsField f ∧ (g.field f).owner = t := by
  have hrow : f ∈ (g.type t).fields ↔ f.index ∈ g.fieldRows t := by
    obtain ⟨i⟩ := f
    rw [fieldRows, List.mem_map]
    constructor
    · intro h
      exact ⟨_, h, rfl⟩
    · rintro ⟨f, hf, rfl⟩
      exact hf
  rw [hrow, hg.fields.mem_iff]
  constructor
  · rintro ⟨hf, howner⟩
    exact ⟨hf, by rwa [field_eq_getElem hf]⟩
  · rintro ⟨hf, howner⟩
    exact ⟨hf, by rwa [← field_eq_getElem hf]⟩

/-- A type lists the methods that it owns. -/
theorem Membered.mem_methods {g : TypeGraph} (hg : g.Membered) {t : TypeId} {m : MethodId} :
    m ∈ (g.type t).methods ↔ g.KnowsMethod m ∧ (g.method m).owner = t := by
  have hrow : m ∈ (g.type t).methods ↔ m.index ∈ g.methodRows t := by
    obtain ⟨i⟩ := m
    rw [methodRows, List.mem_map]
    constructor
    · intro h
      exact ⟨_, h, rfl⟩
    · rintro ⟨m, hm, rfl⟩
      exact hm
  rw [hrow, hg.methods.mem_iff]
  constructor
  · rintro ⟨hm, howner⟩
    exact ⟨hm, by rwa [method_eq_getElem hm]⟩
  · rintro ⟨hm, howner⟩
    exact ⟨hm, by rwa [← method_eq_getElem hm]⟩

/-! ## § Adding members -/

theorem declaredField?_eq_none {g : TypeGraph} {t : TypeId} {name : String}
    (h : g.declaredField? t name = none) : ∀ f ∈ (g.type t).fields, (g.field f).name ≠ name := by
  intro f hf hname
  have hne := List.find?_eq_none.mp h f hf
  rw [hname, beq_self_eq_true] at hne
  exact hne rfl

theorem declaredField?_eq_some {g : TypeGraph} {t : TypeId} {name : String} {f : FieldId}
    (h : g.declaredField? t name = some f) : f ∈ (g.type t).fields ∧ (g.field f).name = name := by
  have hname := List.find?_some h
  exact ⟨List.mem_of_find?_eq_some h, beq_iff_eq.mp hname⟩

/-- A field of a name that the owner declares is the one it declares. -/
theorem addField_taken {g : TypeGraph} {owner : TypeId} {name : String} {existing : FieldId}
    (type : TypeId) (flags : FieldFlags) (h : g.declaredField? owner name = some existing) :
    g.addField owner name type flags = (existing, g) := by
  rw [declaredField?] at h
  rw [addField, h]

/-- A field of another name is one more entry, and its owner lists it last. -/
theorem addField_free {g : TypeGraph} {owner : TypeId} {name : String} (type : TypeId)
    (flags : FieldFlags) (h : g.declaredField? owner name = none) :
    ∃ token, (g.addField owner name type flags).1 = ⟨g.fields.size⟩ ∧
      (g.addField owner name type flags).2.fields = g.fields.push { owner, name, type, flags, token } ∧
      (g.addField owner name type flags).2.methods = g.methods ∧
      (g.addField owner name type flags).2.types =
        (g.updateType owner fun e => { e with fields := e.fields ++ [⟨g.fields.size⟩] }).types := by
  rw [declaredField?] at h
  refine ⟨MetadataTable.field.token (g.fields.size + 1), ?_⟩
  rw [addField, h]
  exact ⟨rfl, rfl, rfl, rfl⟩

/-- The method that adding one would answer if there is one already. -/
def overload? (g : TypeGraph) (t : TypeId) (key : String × List TypeId × Bool) : Option MethodId :=
  (g.type t).methods.find? fun m =>
    (g.method m).name == key.1 && (g.method m).parameters == key.2.1 && (g.method m).isStatic == key.2.2

theorem overload?_eq_some {g : TypeGraph} {t : TypeId} {key : String × List TypeId × Bool} {m : MethodId}
    (h : g.overload? t key = some m) : m ∈ (g.type t).methods ∧ (g.method m).key = key := by
  have hkey := List.find?_some h
  simp only [Bool.and_eq_true, beq_iff_eq] at hkey
  exact ⟨List.mem_of_find?_eq_some h, by rw [MethodEntry.key, hkey.1.1, hkey.1.2, hkey.2]⟩

theorem overload?_eq_none {g : TypeGraph} {t : TypeId} {key : String × List TypeId × Bool}
    (h : g.overload? t key = none) : ∀ m ∈ (g.type t).methods, (g.method m).key ≠ key := by
  rintro m hm rfl
  have hne := List.find?_eq_none.mp h m hm
  simp [MethodEntry.key] at hne

/-- A method of a key that the owner declares is the one it declares. -/
theorem addMethod_taken {g : TypeGraph} {owner : TypeId} {name : String} {parameters : List TypeId}
    {flags : MethodFlags} {existing : MethodId} (returnType : Option TypeId)
    (h : g.overload? owner (name, parameters, flags.contains .static) = some existing) :
    g.addMethod owner name parameters returnType flags = (existing, g) := by
  rw [overload?] at h
  rw [addMethod]
  dsimp only
  rw [h]

/-- A method of another key is one more entry, and its owner lists it last. -/
theorem addMethod_free {g : TypeGraph} {owner : TypeId} {name : String} {parameters : List TypeId}
    {flags : MethodFlags} (returnType : Option TypeId)
    (h : g.overload? owner (name, parameters, flags.contains .static) = none) :
    ∃ token, (g.addMethod owner name parameters returnType flags).1 = ⟨g.methods.size⟩ ∧
      (g.addMethod owner name parameters returnType flags).2.methods =
        g.methods.push { owner, name, parameters, returnType, flags, token } ∧
      (g.addMethod owner name parameters returnType flags).2.fields = g.fields ∧
      (g.addMethod owner name parameters returnType flags).2.types =
        (g.updateType owner fun e => { e with methods := e.methods ++ [⟨g.methods.size⟩] }).types := by
  rw [overload?] at h
  refine ⟨MetadataTable.method.token (g.methods.size + 1), ?_⟩
  rw [addMethod]
  dsimp only
  rw [h]
  exact ⟨rfl, rfl, rfl, rfl⟩

/-! ## § Every graph keeps its members in order -/

theorem membered_empty : empty.Membered where
  base_older h := by cases h
  fields := .empty
  methods := .empty

theorem Membered.addType {g : TypeGraph} (hg : g.Membered) (name : String) (kind : TypeKind)
    {base : Option TypeId} (flags : TypeFlags) (hbase : ∀ b ∈ base, g.Knows b) :
    (g.addType name kind base flags).2.Membered := by
  cases hl : g.lookup? name with
  | some existing => rwa [addType_taken kind base flags hl]
  | none =>
    obtain ⟨token, -, htypes, hfields, hmethods⟩ := addType_free kind base flags hl
    generalize (g.addType name kind base flags).2 = g' at *
    have habsent : g.type ⟨g.types.size⟩ = .absent := type_of_not_knows (Nat.lt_irrefl _)
    -- The new type lists nothing, and neither did its identity before.
    have hlists : ∀ t, (g'.type t).fields = (g.type t).fields ∧ (g'.type t).methods = (g.type t).methods := by
      intro t
      rcases type_push htypes t with ⟨rfl, hentry⟩ | ⟨-, hentry⟩
      · rw [hentry, habsent]
        exact ⟨rfl, rfl⟩
      · rw [hentry]
        exact ⟨rfl, rfl⟩
    constructor
    · intro t b hb
      rcases type_push htypes t with ⟨rfl, hentry⟩ | ⟨-, hentry⟩
      · rw [hentry] at hb
        exact hbase b hb
      · exact hg.base_older (hentry ▸ hb)
    · have hrows : g'.fieldRows = g.fieldRows := funext fun t => by rw [fieldRows, fieldRows, (hlists t).1]
      rw [hfields, hrows]
      exact hg.fields
    · have hrows : g'.methodRows = g.methodRows := funext fun t => by
        rw [methodRows, methodRows, (hlists t).2]
      rw [hmethods, hrows]
      exact hg.methods

/-- A change that keeps bases and members keeps them in order. -/
theorem Membered.updateType {g : TypeGraph} (hg : g.Membered) {t : TypeId}
    {change : TypeEntry → TypeEntry} (hbase : ∀ e, (change e).base = e.base)
    (hfields : ∀ e, (change e).fields = e.fields) (hmethods : ∀ e, (change e).methods = e.methods) :
    (g.updateType t change).Membered where
  base_older hb := hg.base_older (read_updateType TypeEntry.base g t _ hbase ▸ hb)
  fields := hg.fields.congr fun u => by
    rw [fieldRows, fieldRows, read_updateType TypeEntry.fields g t u hfields]
  methods := hg.methods.congr fun u => by
    rw [methodRows, methodRows, read_updateType TypeEntry.methods g t u hmethods]

theorem Membered.addInterfaceImpl {g : TypeGraph} (hg : g.Membered) (implementer interface : TypeId) :
    (g.addInterfaceImpl implementer interface).Membered := by
  unfold TypeGraph.addInterfaceImpl
  split
  · exact hg
  · exact hg.updateType (fun _ => rfl) (fun _ => rfl) fun _ => rfl

theorem Membered.addField {g : TypeGraph} (hg : g.Membered) {owner : TypeId} (name : String)
    (type : TypeId) (flags : FieldFlags) (howner : g.Knows owner) :
    (g.addField owner name type flags).2.Membered := by
  cases hdeclared : g.declaredField? owner name with
  | some existing => rwa [addField_taken type flags hdeclared]
  | none =>
    obtain ⟨token, -, hfields, hmethods, htypes⟩ := addField_free type flags hdeclared
    generalize (g.addField owner name type flags).2 = g' at *
    have hbase := read_of_types_eq TypeEntry.base htypes fun _ => rfl
    constructor
    · intro t b hb
      rw [hbase] at hb
      exact hg.base_older hb
    · rw [hfields]
      refine hg.fields.push ?_ ?_
      · intro i hi hsame hname
        have hlisted : (⟨i⟩ : FieldId) ∈ (g.type owner).fields := hg.mem_fields.mpr ⟨hi, ?_⟩
        · refine declaredField?_eq_none hdeclared _ hlisted ?_
          rw [field_eq_getElem hi]
          exact hname
        · rw [field_eq_getElem hi]
          exact hsame
      · intro t
        rw [fieldRows, fieldRows, type_congr htypes, type_updateType]
        by_cases ht : t = owner
        · rw [if_pos ⟨howner, ht⟩, if_pos ht, List.map_append, ht]
          rfl
        · rw [if_neg fun h => ht h.2, if_neg ht]
    · rw [hmethods]
      exact hg.methods.congr (read_of_types_eq (·.methods.map MethodId.index) htypes fun _ => rfl)

theorem Membered.addMethod {g : TypeGraph} (hg : g.Membered) {owner : TypeId} (name : String)
    (parameters : List TypeId) (returnType : Option TypeId) (flags : MethodFlags)
    (howner : g.Knows owner) : (g.addMethod owner name parameters returnType flags).2.Membered := by
  cases hdeclared : g.overload? owner (name, parameters, flags.contains .static) with
  | some existing => rwa [addMethod_taken returnType hdeclared]
  | none =>
    obtain ⟨token, -, hmethods, hfields, htypes⟩ := addMethod_free returnType hdeclared
    generalize (g.addMethod owner name parameters returnType flags).2 = g' at *
    have hbase := read_of_types_eq TypeEntry.base htypes fun _ => rfl
    constructor
    · intro t b hb
      rw [hbase] at hb
      exact hg.base_older hb
    · rw [hfields]
      exact hg.fields.congr (read_of_types_eq (·.fields.map FieldId.index) htypes fun _ => rfl)
    · rw [hmethods]
      refine hg.methods.push ?_ ?_
      · intro i hi hsame hkey
        have hlisted : (⟨i⟩ : MethodId) ∈ (g.type owner).methods := hg.mem_methods.mpr ⟨hi, ?_⟩
        · refine overload?_eq_none hdeclared _ hlisted ?_
          rw [method_eq_getElem hi]
          exact hkey
        · rw [method_eq_getElem hi]
          exact hsame
      · intro t
        rw [methodRows, methodRows, type_congr htypes, type_updateType]
        by_cases ht : t = owner
        · rw [if_pos ⟨howner, ht⟩, if_pos ht, List.map_append, ht]
          rfl
        · rw [if_neg fun h => ht h.2, if_neg ht]

/-- **`Built.membered`** — every graph that can be built keeps its members in order. -/
theorem Built.membered {g : TypeGraph} (h : g.Built) : g.Membered := by
  induction h with
  | empty => exact membered_empty
  | addType name flags _ hbase _ ih => exact ih.addType name _ flags hbase
  | addInterfaceImpl _ _ _ ih => exact ih.addInterfaceImpl _ _
  | addField name flags _ howner _ ih => exact ih.addField name _ flags howner
  | addMethod name flags _ howner _ _ ih => exact ih.addMethod name _ _ flags howner

/-! ## § What adding a member answers -/

/-- The field that is answered belongs to the owner and has the name that was asked for. -/
theorem Membered.addField_answer {g : TypeGraph} (hg : g.Membered) (owner : TypeId) (name : String)
    (type : TypeId) (flags : FieldFlags) :
    let (f, g') := g.addField owner name type flags
    g'.KnowsField f ∧ (g'.field f).owner = owner ∧ (g'.field f).name = name := by
  cases hdeclared : g.declaredField? owner name with
  | some existing =>
    rw [addField_taken type flags hdeclared]
    obtain ⟨hmem, hname⟩ := declaredField?_eq_some hdeclared
    obtain ⟨hknown, howner⟩ := hg.mem_fields.mp hmem
    exact ⟨hknown, howner, hname⟩
  | none =>
    obtain ⟨token, hid, hfields, -, -⟩ := addField_free type flags hdeclared
    generalize g.addField owner name type flags = answer at *
    obtain ⟨f, g'⟩ := answer
    subst hid
    dsimp only at hfields ⊢
    have hknown : g'.KnowsField ⟨g.fields.size⟩ := by
      rw [KnowsField, hfields, Array.size_push]
      exact Nat.lt_succ_self _
    refine ⟨hknown, ?_⟩
    rw [field_eq_getElem hknown]
    simp only [hfields, Array.getElem_push_eq, and_self]

/-- The method that is answered belongs to the owner and has the key that was asked for. -/
theorem Membered.addMethod_answer {g : TypeGraph} (hg : g.Membered) (owner : TypeId) (name : String)
    (parameters : List TypeId) (returnType : Option TypeId) (flags : MethodFlags) :
    let (m, g') := g.addMethod owner name parameters returnType flags
    g'.KnowsMethod m ∧ (g'.method m).owner = owner ∧
      (g'.method m).key = (name, parameters, flags.contains .static) := by
  cases hdeclared : g.overload? owner (name, parameters, flags.contains .static) with
  | some existing =>
    rw [addMethod_taken returnType hdeclared]
    obtain ⟨hmem, hkey⟩ := overload?_eq_some hdeclared
    obtain ⟨hknown, howner⟩ := hg.mem_methods.mp hmem
    exact ⟨hknown, howner, hkey⟩
  | none =>
    obtain ⟨token, hid, hmethods, -, -⟩ := addMethod_free returnType hdeclared
    generalize g.addMethod owner name parameters returnType flags = answer at *
    obtain ⟨m, g'⟩ := answer
    subst hid
    dsimp only at hmethods ⊢
    have hknown : g'.KnowsMethod ⟨g.methods.size⟩ := by
      rw [KnowsMethod, hmethods, Array.size_push]
      exact Nat.lt_succ_self _
    refine ⟨hknown, ?_⟩
    rw [method_eq_getElem hknown]
    simp only [hmethods, Array.getElem_push_eq, MethodEntry.key, MethodEntry.isStatic, and_self]

/-! ## § Bases -/

/-- The type declares a field of that name. -/
def DeclaresField (g : TypeGraph) (name : String) (t : TypeId) : Prop :=
  ∃ f, g.KnowsField f ∧ (g.field f).owner = t ∧ (g.field f).name = name

/-- The type declares a method of that name with these parameters. -/
def DeclaresMethod (g : TypeGraph) (name : String) (parameters : List TypeId) (t : TypeId) : Prop :=
  ∃ m, g.KnowsMethod m ∧ (g.method m).owner = t ∧ (g.method m).name = name ∧
    (g.method m).parameters = parameters

/-- **`Beneath`** — the type is the owner of a member, or a chain of bases leads from it to the owner past
types that declare no match, itself included. -/
inductive Beneath (g : TypeGraph) (declares : TypeId → Prop) (owner : TypeId) : TypeId → Prop
  | self : Beneath g declares owner owner
  | derived {t b : TypeId} : ¬ declares t → (g.type t).base = some b → Beneath g declares owner b →
    Beneath g declares owner t

section Beneath

variable {g : TypeGraph} {declares : TypeId → Prop} {owner t : TypeId}

/-- Bases are older, so a bound above the position of a type is enough to get past it. -/
theorem Beneath.baseChain (hg : g.Membered) (h : Beneath g declares owner t) {fuel : Nat}
    (hfuel : t.index < fuel) : ∃ skipped tail,
      g.baseChain fuel (some t) = skipped ++ owner :: tail ∧ ∀ u ∈ skipped, ¬ declares u := by
  induction h generalizing fuel with
  | self =>
    obtain ⟨fuel, rfl⟩ := Nat.exists_eq_succ_of_ne_zero (Nat.ne_zero_of_lt hfuel)
    exact ⟨[], g.baseChain fuel (g.type owner).base, rfl, by simp⟩
  | @derived t b hnot hbase _ ih =>
    obtain ⟨fuel, rfl⟩ := Nat.exists_eq_succ_of_ne_zero (Nat.ne_zero_of_lt hfuel)
    have holder := hg.base_older hbase
    obtain ⟨skipped, tail, hchain, hskipped⟩ := ih (show b.index < fuel by omega)
    refine ⟨t :: skipped, tail, ?_, List.forall_mem_cons.mpr ⟨hnot, hskipped⟩⟩
    rw [TypeGraph.baseChain, hbase, hchain]
    rfl

theorem Beneath.lineage (hg : g.Membered) (howner : g.Knows owner) (h : Beneath g declares owner t) :
    ∃ skipped tail, g.lineage t = skipped ++ owner :: tail ∧ ∀ u ∈ skipped, ¬ declares u := by
  have ht : g.Knows t := by
    cases h with
    | self => exact howner
    | derived _ hbase =>
      refine knows_of_type_ne fun habsent => ?_
      rw [habsent] at hbase
      cases hbase
  exact h.baseChain hg ht

end Beneath

/-! ## § Resolution -/

/-- Two methods that only staticness tells apart. -/
structure Twins (g : TypeGraph) (m m' : MethodId) : Prop where
  known : g.KnowsMethod m'
  owner_eq : (g.method m').owner = (g.method m).owner
  name_eq : (g.method m').name = (g.method m).name
  parameters_eq : (g.method m').parameters = (g.method m).parameters
  isStatic_ne : (g.method m').isStatic ≠ (g.method m).isStatic

namespace Membered

variable {g : TypeGraph} (hg : g.Membered)
include hg

/-- A field is the only one of its name that its owner declares. -/
theorem declaredField?_eq {f : FieldId} (hf : g.KnowsField f) :
    g.declaredField? (g.field f).owner (g.field f).name = some f := by
  have hmem : f ∈ (g.type (g.field f).owner).fields := hg.mem_fields.mpr ⟨hf, rfl⟩
  cases hdeclared : g.declaredField? (g.field f).owner (g.field f).name with
  | none => exact absurd rfl (declaredField?_eq_none hdeclared f hmem)
  | some f' =>
    obtain ⟨hmem', hname⟩ := declaredField?_eq_some hdeclared
    obtain ⟨hf', howner⟩ := hg.mem_fields.mp hmem'
    rw [field_eq_getElem hf, field_eq_getElem hf'] at howner hname
    obtain ⟨i⟩ := f
    obtain ⟨j⟩ := f'
    cases hg.fields.key_inj hf' hf howner hname
    rfl

theorem mem_declaredMethods {t : TypeId} {name : String} {parameters : List TypeId} {m : MethodId} :
    m ∈ g.declaredMethods t name (some parameters) ↔
      g.KnowsMethod m ∧ (g.method m).owner = t ∧ (g.method m).name = name ∧
        (g.method m).parameters = parameters := by
  rw [declaredMethods, List.mem_filter, hg.mem_methods]
  simp [and_assoc]

theorem nodup_declaredMethods (t : TypeId) (name : String) (parameters : Option (List TypeId)) :
    (g.declaredMethods t name parameters).Nodup :=
  (List.Nodup.of_map MethodId.index (hg.methods.nodup t)).filter _

/-- Of the methods of one owner, name and parameters, staticness decides which is which. -/
theorem method_eq_or_twins {m m' : MethodId} (hm : g.KnowsMethod m) (hm' : g.KnowsMethod m')
    (howner : (g.method m').owner = (g.method m).owner) (hname : (g.method m').name = (g.method m).name)
    (hparameters : (g.method m').parameters = (g.method m).parameters) : m' = m ∨ g.Twins m m' := by
  by_cases hstatic : (g.method m').isStatic = (g.method m).isStatic
  · have hkey : (g.method m').key = (g.method m).key := by
      rw [MethodEntry.key, MethodEntry.key, hname, hparameters, hstatic]
    rw [method_eq_getElem hm, method_eq_getElem hm'] at howner hkey
    obtain ⟨i⟩ := m
    obtain ⟨j⟩ := m'
    cases hg.methods.key_inj hm' hm howner hkey
    exact .inl rfl
  · exact .inr ⟨hm', howner, hname, hparameters, hstatic⟩

/-- A method without a twin is the only match at its owner. -/
theorem declaredMethods_of_lone {m : MethodId} (hm : g.KnowsMethod m) (hlone : ∀ m', ¬ g.Twins m m') :
    g.declaredMethods (g.method m).owner (g.method m).name (some (g.method m).parameters) = [m] := by
  refine List.perm_singleton.mp ((List.perm_ext_iff_of_nodup (hg.nodup_declaredMethods _ _ _)
    (List.nodup_singleton m)).mpr fun m' => ?_)
  rw [hg.mem_declaredMethods, List.mem_singleton]
  constructor
  · rintro ⟨hm', howner, hname, hparameters⟩
    exact (hg.method_eq_or_twins hm hm' howner hname hparameters).resolve_right (hlone m')
  · rintro rfl
    exact ⟨hm, rfl, rfl, rfl⟩

/-- A method with a twin is one of two matches at its owner. -/
theorem declaredMethods_of_twins {m m' : MethodId} (hm : g.KnowsMethod m) (htwins : g.Twins m m') :
    (g.declaredMethods (g.method m).owner (g.method m).name (some (g.method m).parameters)).length = 2 := by
  have hne : m ≠ m' := by
    rintro rfl
    exact htwins.isStatic_ne rfl
  refine ((List.perm_ext_iff_of_nodup (hg.nodup_declaredMethods _ _ _)
    (show [m, m'].Nodup by simpa using hne)).mpr fun n => ?_).length_eq
  rw [hg.mem_declaredMethods, List.mem_cons, List.mem_singleton]
  constructor
  · rintro ⟨hn, howner, hname, hparameters⟩
    rcases hg.method_eq_or_twins hm hn howner hname hparameters with rfl | hn'
    · exact .inl rfl
    · -- Both are twins of the method, so they are of the same staticness.
      have hstatic : (g.method n).isStatic = (g.method m').isStatic := by
        have h := hn'.isStatic_ne
        have h' := htwins.isStatic_ne
        cases hs : (g.method n).isStatic <;> cases hs' : (g.method m').isStatic <;> simp_all
      refine .inr ((hg.method_eq_or_twins htwins.known hn (howner.trans htwins.owner_eq.symm)
        (hname.trans htwins.name_eq.symm) (hparameters.trans htwins.parameters_eq.symm)).resolve_right ?_)
      exact fun h => h.isStatic_ne hstatic
  · rintro (rfl | rfl)
    · exact ⟨hm, rfl, rfl, rfl⟩
    · exact ⟨htwins.known, htwins.owner_eq, htwins.name_eq, htwins.parameters_eq⟩

/-- **`resolveField_beneath`** — a field is found from its owner and from whatever inherits it. -/
theorem resolveField_beneath (hclosed : g.Closed) {f : FieldId} {t : TypeId} (hf : g.KnowsField f)
    (h : g.Beneath (g.DeclaresField (g.field f).name) (g.field f).owner t) :
    g.resolveField t (g.field f).name = .ok f := by
  obtain ⟨skipped, tail, hlineage, hskipped⟩ := h.lineage hg (hclosed.field_known hf).1
  have hnone : skipped.findSome? (g.declaredField? · (g.field f).name) = none := by
    rw [List.findSome?_eq_none_iff]
    intro u hu
    cases hdeclared : g.declaredField? u (g.field f).name with
    | none => rfl
    | some f' =>
      obtain ⟨hmem, hname⟩ := declaredField?_eq_some hdeclared
      obtain ⟨hf', howner⟩ := hg.mem_fields.mp hmem
      exact absurd ⟨f', hf', howner, hname⟩ (hskipped u hu)
  rw [resolveField, hlineage, List.findSome?_append, hnone, Option.none_or, List.findSome?_cons,
    hg.declaredField?_eq hf]

/-- Whatever inherits a method resolves its name as the owner does. -/
theorem resolveMethod_beneath (hclosed : g.Closed) {m : MethodId} {t : TypeId} (hm : g.KnowsMethod m)
    (h : g.Beneath (g.DeclaresMethod (g.method m).name (g.method m).parameters) (g.method m).owner t) :
    g.resolveMethod t (g.method m).name (some (g.method m).parameters) =
      match g.declaredMethods (g.method m).owner (g.method m).name (some (g.method m).parameters) with
      | [m'] => .ok m'
      | candidates => .error (.ambiguousMethod t (g.method m).name candidates.length) := by
  obtain ⟨skipped, tail, hlineage, hskipped⟩ := h.lineage hg (hclosed.method_known hm).1
  have hnone : (skipped.map (g.declaredMethods · (g.method m).name (some (g.method m).parameters))).find?
      (!·.isEmpty) = none := by
    rw [List.find?_eq_none]
    intro candidates hcandidates
    obtain ⟨u, hu, rfl⟩ := List.mem_map.mp hcandidates
    rw [Bool.not_eq_true, Bool.not_eq_false', List.isEmpty_iff, List.eq_nil_iff_forall_not_mem]
    intro m' hm'
    exact hskipped u hu ⟨m', hg.mem_declaredMethods.mp hm'⟩
  have hmem : m ∈ g.declaredMethods (g.method m).owner (g.method m).name (some (g.method m).parameters) :=
    hg.mem_declaredMethods.mpr ⟨hm, rfl, rfl, rfl⟩
  rw [resolveMethod, hlineage, List.map_append, List.find?_append, hnone, Option.none_or, List.map_cons]
  generalize g.declaredMethods (g.method m).owner (g.method m).name (some (g.method m).parameters) =
    candidates at hmem
  cases candidates with
  | nil => cases hmem
  | cons first rest => cases rest <;> rfl

end Membered

/-- What the chain of bases contains lies at the end of a path of bases. -/
theorem path_of_mem_baseChain {g : TypeGraph} {fuel : Nat} {t u : TypeId}
    (h : u ∈ g.baseChain fuel (some t)) : g.Path false t u := by
  induction fuel generalizing t with
  | zero => cases h
  | succ fuel ih =>
    rw [baseChain] at h
    rcases List.mem_cons.mp h with rfl | hrest
    · exact .refl
    · cases hbase : (g.type t).base with
      | none =>
        rw [hbase] at hrest
        cases fuel <;> cases hrest
      | some b =>
        rw [hbase] at hrest
        exact .head (edge_iff.mpr (.inl hbase)) (ih hrest)

/-- **`resolveMethod_ok`** — what a method name resolves to is declared by the type or by one of its bases. -/
theorem Membered.resolveMethod_ok {g : TypeGraph} (hg : g.Membered) {t : TypeId} {name : String}
    {parameters : Option (List TypeId)} {m : MethodId} (h : g.resolveMethod t name parameters = .ok m) :
    g.KnowsMethod m ∧ g.Path false t (g.method m).owner := by
  rw [resolveMethod] at h
  split at h
  case h_1 hnearest =>
    cases h
    obtain ⟨u, hu, hcandidates⟩ := List.mem_map.mp (List.mem_of_find?_eq_some hnearest)
    have hdeclared : m ∈ g.declaredMethods u name parameters := by
      rw [hcandidates]
      exact List.mem_singleton_self m
    obtain ⟨hknown, rfl⟩ := hg.mem_methods.mp (List.mem_of_mem_filter hdeclared)
    exact ⟨hknown, path_of_mem_baseChain hu⟩
  case h_2 => cases h
  case h_3 => cases h

/-- **`members_resolve`** — what adding a field or a method answers is a member of the grown graph.  Every field
is found by its name, from its owner and from whatever inherits it.  Every method is found by its name and
parameters from there unless it has a twin, and two twins are found by neither. -/
theorem members_resolve {g : TypeGraph} (hg : g.Built) :
    (∀ owner name type flags, let (f, g') := g.addField owner name type flags
      g'.KnowsField f ∧ (g'.field f).owner = owner ∧ (g'.field f).name = name) ∧
    (∀ owner name parameters returnType flags,
      let (m, g') := g.addMethod owner name parameters returnType flags
      g'.KnowsMethod m ∧ (g'.method m).owner = owner ∧
        (g'.method m).key = (name, parameters, flags.contains .static)) ∧
    (∀ {f t}, g.KnowsField f → g.Beneath (g.DeclaresField (g.field f).name) (g.field f).owner t →
      g.resolveField t (g.field f).name = .ok f) ∧
    ∀ {m t}, g.KnowsMethod m →
      g.Beneath (g.DeclaresMethod (g.method m).name (g.method m).parameters) (g.method m).owner t →
      ((∀ m', ¬ g.Twins m m') →
        g.resolveMethod t (g.method m).name (some (g.method m).parameters) = .ok m) ∧
      ∀ m', g.Twins m m' → g.resolveMethod t (g.method m).name (some (g.method m).parameters) =
        .error (.ambiguousMethod t (g.method m).name 2) := by
  have hmembered := hg.membered
  refine ⟨hmembered.addField_answer, hmembered.addMethod_answer,
    hmembered.resolveField_beneath hg.closed, ?_⟩
  intro m t hm h
  rw [hmembered.resolveMethod_beneath hg.closed hm h]
  constructor
  · intro hlone
    rw [hmembered.declaredMethods_of_lone hm hlone]
  · intro m' htwins
    have hlength := hmembered.declaredMethods_of_twins hm htwins
    generalize g.declaredMethods (g.method m).owner (g.method m).name (some (g.method m).parameters) =
      candidates at hlength
    match candidates, hlength with
    | [_, _], _ => rfl

end TypeGraph

namespace Inheritance

open TypeGraph

/-- A value type. -/
def number : TypeId × TypeGraph := TypeGraph.empty.addType "T.Number" .structType none .visible

/-- A class. -/
def writer : TypeId × TypeGraph := number.2.addType "T.Writer" .classType none .visible

/-- A class that derives from it. -/
def logger : TypeId × TypeGraph := writer.2.addClass "T.Logger" writer.1 .visible

/-- A field of the writer. -/
def count : FieldId × TypeGraph := logger.2.addField writer.1 "count" number.1 ⟨0x6⟩

/-- A method of the writer. -/
def writeNumber : MethodId × TypeGraph := count.2.addMethod writer.1 "Write" [number.1] none ⟨0x46⟩

/-- An overload of it. -/
def writeWriter : MethodId × TypeGraph := writeNumber.2.addMethod writer.1 "Write" [writer.1] none ⟨0x46⟩

/-- The overload once more, as a static method. -/
def writeStatic : MethodId × TypeGraph := writeWriter.2.addMethod writer.1 "Write" [writer.1] none ⟨0x16⟩

theorem writeWriter_built : writeWriter.2.Built := by
  have hwriter : writer.2.Knows writer.1 ∧ logger.2.Knows writer.1 ∧ logger.2.Knows number.1 ∧
      count.2.Knows writer.1 ∧ count.2.Knows number.1 ∧ writeNumber.2.Knows writer.1 := by
    decide +kernel
  obtain ⟨hbase, howner, htype, howner', hnumber, howner''⟩ := hwriter
  have htypes : logger.2.Built := by
    refine .addClass (.addType _ _ (.addType _ _ .empty ?_ ?_) ?_ ?_) _ _ hbase
    all_goals exact fun _ => nofun
  have hfirst : writeNumber.2.Built :=
    .addMethod "Write" ⟨0x46⟩ (.addField "count" ⟨0x6⟩ htypes howner htype) howner'
      (fun p hp => List.mem_singleton.mp hp ▸ hnumber) fun _ => nofun
  exact .addMethod "Write" ⟨0x46⟩ hfirst howner'' (fun p hp => List.mem_singleton.mp hp ▸ howner'')
    fun _ => nofun

/-- The logger inherits the field, and the overload that its parameters pick out. -/
theorem members_resolve_inherited :
    writeWriter.2.resolveField logger.1 "count" = .ok count.1 ∧
      writeWriter.2.resolveMethod logger.1 "Write" (some [writer.1]) = .ok writeWriter.1 := by
  have hbase : (writeWriter.2.type logger.1).base = some writer.1 := by decide +kernel
  obtain ⟨hfields, hmethods⟩ : (∀ i < writeWriter.2.fields.size,
        (writeWriter.2.field ⟨i⟩).owner ≠ logger.1) ∧
      ∀ i < writeWriter.2.methods.size, (writeWriter.2.method ⟨i⟩).owner ≠ logger.1 ∧
        ((writeWriter.2.method ⟨i⟩).parameters = [writer.1] → ⟨i⟩ = writeWriter.1) := by
    decide +kernel
  obtain ⟨hf, hfowner, hfname⟩ : writeWriter.2.KnowsField count.1 ∧
      (writeWriter.2.field count.1).owner = writer.1 ∧ (writeWriter.2.field count.1).name = "count" := by
    decide +kernel
  obtain ⟨hm, hmowner, hmname, hmparameters⟩ : writeWriter.2.KnowsMethod writeWriter.1 ∧
      (writeWriter.2.method writeWriter.1).owner = writer.1 ∧
      (writeWriter.2.method writeWriter.1).name = "Write" ∧
      (writeWriter.2.method writeWriter.1).parameters = [writer.1] := by
    decide +kernel
  obtain ⟨-, -, hfield, hmethod⟩ := members_resolve writeWriter_built
  have hfield' := @hfield count.1 logger.1 hf
  have hmethod' := @hmethod writeWriter.1 logger.1 hm
  rw [hfowner, hfname] at hfield'
  rw [hmowner, hmname, hmparameters] at hmethod'
  refine ⟨hfield' (.derived ?_ hbase .self), (hmethod' (.derived ?_ hbase .self)).1 ?_⟩
  · rintro ⟨f, hknown, howner, -⟩
    exact hfields f.index hknown howner
  · rintro ⟨m, hknown, howner, -⟩
    exact (hmethods m.index hknown).1 howner
  · intro m htwins
    have hsame : m = writeWriter.1 :=
      (hmethods m.index htwins.known).2 (htwins.parameters_eq.trans hmparameters)
    exact htwins.isStatic_ne (by rw [hsame])

/-- Both methods were added, and no parameters tell them apart. -/
theorem twins_unresolved :
    writeStatic.2.Built ∧ writeStatic.2.KnowsMethod writeWriter.1 ∧
      (writeStatic.2.method writeWriter.1).owner = writer.1 ∧
      (writeStatic.2.method writeWriter.1).name = "Write" ∧
      (writeStatic.2.method writeWriter.1).parameters = [writer.1] ∧
      writeStatic.2.resolveMethod writer.1 "Write" (some [writer.1]) =
        .error (.ambiguousMethod writer.1 "Write" 2) := by
  have hwriter : writeWriter.2.Knows writer.1 := by decide +kernel
  refine ⟨?_, by decide +kernel⟩
  exact .addMethod "Write" ⟨0x16⟩ writeWriter_built hwriter (fun p hp => List.mem_singleton.mp hp ▸ hwriter)
    fun _ => nofun

end Inheritance

end ManagedCode
