/-
# ManagedCode.Proofs.Graph.Identity — one name, one token, one identity.

A graph finds types by name, refers to everything by identity and writes tokens into code.  In every graph
that can be built the three agree (`Identified`): a name finds the one type that has it, a token belongs to
one entry and says in which table, and the rows of a table are handed out in order, none of them for a call
that answers what is there.

Arrays and by-reference types are looked for under the name of the type they are made of with a suffix.  The
graph lets anything else take such a name first, and then `arrayOf` answers that.  `Tidy` is the discipline
under which only `arrayOf` and `byRef` make names of that shape; what they answer is then made of exactly the
type they were asked for, now and in every later graph.
-/
import ManagedCode.Proofs.Graph.Evolution
import ManagedCode.Proofs.Graph.Members

namespace ManagedCode

/-- No type is in a table of members. -/
theorem TypeKind.table_ne (kind : TypeKind) : kind.table ≠ .field ∧ kind.table ≠ .method := by
  cases kind <;> exact ⟨nofun, nofun⟩

namespace TypeGraph

/-! ## § Names -/

/-- **`Named`** — every type is found under its name. -/
def Named (g : TypeGraph) : Prop := ∀ t, g.Knows t → g.lookup? (g.nameOf t) = some t

theorem Named.nameOf_inj {g : TypeGraph} (hg : g.Named) {t u : TypeId} (ht : g.Knows t) (hu : g.Knows u)
    (h : g.nameOf t = g.nameOf u) : t = u := by
  have hfound := hg t ht
  rw [h, hg u hu] at hfound
  exact (Option.some.inj hfound).symm

theorem Named.addType {g : TypeGraph} (hg : g.Named) (name : String) (kind : TypeKind)
    (base : Option TypeId) (flags : TypeFlags) : (g.addType name kind base flags).2.Named := by
  cases hl : g.lookup? name with
  | some existing => rwa [addType_taken kind base flags hl]
  | none =>
    obtain ⟨token, -, htypes, -, -⟩ := addType_free kind base flags hl
    intro t ht
    rcases (knows_push htypes).mp ht with hold | rfl
    · rw [nameOf, type_push_old htypes hold, lookup?_push_eq htypes]
      rw [← nameOf, hg t hold]
      rfl
    · rw [nameOf, type_push_new htypes, lookup?_push_eq htypes, hl, beq_self_eq_true]
      rfl

/-- Entries that are replaced by entries of their name. -/
theorem Named.of_updateType {g g' : TypeGraph} (hg : g.Named) {t : TypeId} {change : TypeEntry → TypeEntry}
    (htypes : g'.types = (g.updateType t change).types) (hname : ∀ e, (change e).name = e.name) :
    g'.Named := by
  intro u hu
  have hu' : g.Knows u := by rwa [Knows, htypes, ← Knows, knows_updateType] at hu
  rw [nameOf, read_of_types_eq TypeEntry.name htypes hname, ← nameOf, lookup?, htypes, ← lookup?,
    lookup?_updateType g t hname]
  exact hg u hu'

theorem Growth.named {edges : Bool} {g g' : TypeGraph} (h : Growth edges g g') (hg : g.Named) :
    g'.Named := by
  cases h with
  | addType name flags => exact hg.addType name _ _ flags
  | addInterfaceImpl =>
    unfold TypeGraph.addInterfaceImpl
    split
    · exact hg
    · exact hg.of_updateType rfl fun _ => rfl
  | addField name flags =>
    unfold TypeGraph.addField
    split
    · exact hg
    · exact hg.of_updateType rfl fun _ => rfl
  | addMethod name flags =>
    unfold TypeGraph.addMethod
    dsimp only
    split
    · exact hg
    · exact hg.of_updateType rfl fun _ => rfl

/-- **`Built.named`** — names are unique in every graph that can be built. -/
theorem Built.named {g : TypeGraph} (h : g.Built) : g.Named := by
  have hrun := built_iff_evolves.mp h
  induction hrun with
  | refl => exact fun t ht => absurd ht (Nat.not_lt_zero _)
  | tail hrun hgrowth ih => exact hgrowth.named (ih (built_iff_evolves.mpr hrun))

/-- A type keeps its name. -/
theorem Growth.nameOf_eq {edges : Bool} {g g' : TypeGraph} (h : Growth edges g g') (hg : g.Named)
    {t : TypeId} (ht : g.Knows t) : g'.nameOf t = g.nameOf t :=
  nameOf_of_lookup? (h.retains.lookup_eq (hg t ht))

/-! ## § Rows -/

/-- The rows handed out so far in a table. -/
def rows (g : TypeGraph) : MetadataTable → Nat
  | .typeDefinition => g.definitionRows
  | .typeSpecification => g.specificationRows
  | .field => g.fields.size
  | .method => g.methods.size

/-- The token of a type, if it is one of the table. -/
def tokenIn? (table : MetadataTable) (t : TypeEntry) : Option UInt32 :=
  if t.kind.table = table then some t.token else none

/-- The tokens that a table has given to entries, in the order of creation. -/
def tokensOf (g : TypeGraph) : MetadataTable → List UInt32
  | .field => g.fields.toList.map (·.token)
  | .method => g.methods.toList.map (·.token)
  | table => g.types.toList.filterMap (tokenIn? table)

/-- What a table was before an operation and is after it: the same, or one row longer. -/
def Issues (g g' : TypeGraph) (table : MetadataTable) : Prop :=
  (g'.rows table = g.rows table ∧ g'.tokensOf table = g.tokensOf table) ∨
    (g'.rows table = g.rows table + 1 ∧
      g'.tokensOf table = g.tokensOf table ++ [table.token (g.rows table + 1)])

theorem tokens_push {g g' : TypeGraph} {entry : TypeEntry} (h : g'.types = g.types.push entry)
    (table : MetadataTable) : g'.types.toList.filterMap (tokenIn? table) =
      g.types.toList.filterMap (tokenIn? table) ++ (tokenIn? table entry).toList := by
  rw [h, Array.toList_push, List.filterMap_append]
  cases hentry : tokenIn? table entry <;> simp [hentry]

/-- Replacing entries by entries of their kind and token. -/
theorem tokens_updateType (g : TypeGraph) (t : TypeId) {change : TypeEntry → TypeEntry}
    (hkind : ∀ e, (change e).kind = e.kind) (htoken : ∀ e, (change e).token = e.token)
    (table : MetadataTable) : (g.updateType t change).types.toList.filterMap (tokenIn? table) =
      g.types.toList.filterMap (tokenIn? table) := by
  have hmap (types : Array TypeEntry) :
      types.toList.filterMap (tokenIn? table) = (types.map (tokenIn? table)).toList.filterMap id := by
    rw [Array.toList_map, List.filterMap_map]
    rfl
  have hsame (e : TypeEntry) : tokenIn? table (change e) = tokenIn? table e := by
    rw [tokenIn?, hkind, htoken, ← tokenIn?]
  rw [hmap, map_updateType (tokenIn? table) g t hsame, ← hmap]

theorem rows_table (g : TypeGraph) (kind : TypeKind) : g.rows kind.table = g.typeRows kind := by
  cases kind <;> rfl

theorem tokensOf_table (g : TypeGraph) (kind : TypeKind) :
    g.tokensOf kind.table = g.types.toList.filterMap (tokenIn? kind.table) := by
  cases kind <;> rfl

/-- A new type takes the next row of the table that types of its kind are in. -/
theorem issues_addType (g : TypeGraph) (name : String) (kind : TypeKind) (base : Option TypeId)
    (flags : TypeFlags) (table : MetadataTable) : Issues g (g.addType name kind base flags).2 table := by
  cases hl : g.lookup? name with
  | some existing =>
    rw [addType_taken kind base flags hl]
    exact .inl ⟨rfl, rfl⟩
  | none =>
    obtain ⟨-, -, -, hfields, hmethods⟩ := addType_free kind base flags hl
    obtain ⟨htypes, hrows⟩ := addType_row kind base flags hl
    generalize (g.addType name kind base flags).2 = g' at *
    have htype (kind' : TypeKind) : Issues g g' kind'.table := by
      rw [Issues, rows_table, rows_table, tokensOf_table, tokensOf_table, tokens_push htypes, hrows]
      by_cases h : kind'.table = kind.table
      · right
        rw [if_pos h, typeRows_eq h, tokenIn?, if_pos h.symm, h]
        exact ⟨rfl, rfl⟩
      · left
        rw [if_neg h, tokenIn?, if_neg fun heq => h heq.symm, Option.toList_none, List.append_nil]
        exact ⟨rfl, rfl⟩
    cases table with
    | typeDefinition => exact htype .classType
    | typeSpecification => exact htype (.array default)
    | field => exact .inl (by rw [rows, rows, tokensOf, tokensOf, hfields]; exact ⟨rfl, rfl⟩)
    | method => exact .inl (by rw [rows, rows, tokensOf, tokensOf, hmethods]; exact ⟨rfl, rfl⟩)

/-- An update of an entry that keeps its kind and token, in a graph that may have gained a member. -/
theorem Issues.updateType {g g' : TypeGraph} {table : MetadataTable} (h : Issues g g' table) (t : TypeId)
    {change : TypeEntry → TypeEntry} (hkind : ∀ e, (change e).kind = e.kind)
    (htoken : ∀ e, (change e).token = e.token) : Issues g (g'.updateType t change) table := by
  have htokens : (g'.updateType t change).tokensOf table = g'.tokensOf table := by
    cases table with
    | typeDefinition => exact tokens_updateType g' t hkind htoken _
    | typeSpecification => exact tokens_updateType g' t hkind htoken _
    | field => rfl
    | method => rfl
  have hrows : (g'.updateType t change).rows table = g'.rows table := by
    cases table <;> rfl
  rwa [Issues, htokens, hrows, ← Issues]

/-- **`Growth.issues`** — an operation takes no row of a table, or the next one. -/
theorem Growth.issues {edges : Bool} {g g' : TypeGraph} (h : Growth edges g g') (table : MetadataTable) :
    Issues g g' table := by
  cases h with
  | addType name flags => exact issues_addType g name _ _ flags table
  | addInterfaceImpl =>
    unfold TypeGraph.addInterfaceImpl
    split
    · exact .inl ⟨rfl, rfl⟩
    · exact Issues.updateType (.inl ⟨rfl, rfl⟩) _ (fun _ => rfl) fun _ => rfl
  | addField name flags =>
    unfold TypeGraph.addField
    split
    · exact .inl ⟨rfl, rfl⟩
    · refine Issues.updateType ?_ _ (fun _ => rfl) fun _ => rfl
      cases table with
      | field => exact .inr (by simp [rows, tokensOf])
      | _ => exact .inl ⟨rfl, rfl⟩
  | addMethod name flags =>
    unfold TypeGraph.addMethod
    dsimp only
    split
    · exact .inl ⟨rfl, rfl⟩
    · refine Issues.updateType ?_ _ (fun _ => rfl) fun _ => rfl
      cases table with
      | method => exact .inr (by simp [rows, tokensOf])
      | _ => exact .inl ⟨rfl, rfl⟩

/-- **`Built.tokensOf_eq`** — the rows of a table are handed out in order, from 1 to the number of them. -/
theorem Built.tokensOf_eq {g : TypeGraph} (h : g.Built) (table : MetadataTable) :
    g.tokensOf table = (List.range (g.rows table)).map fun i => table.token (i + 1) := by
  have hrun := built_iff_evolves.mp h
  induction hrun with
  | refl => cases table <;> rfl
  | tail hrun hgrowth ih =>
    have hold := ih (built_iff_evolves.mpr hrun)
    rcases hgrowth.issues table with ⟨hrows, htokens⟩ | ⟨hrows, htokens⟩
    · rw [htokens, hrows, hold]
    · rw [htokens, hrows, hold, List.range_succ, List.map_append]
      rfl

/-! ## § Entries of all sorts -/

/-- A type, a field or a method. -/
inductive Item
  | type (t : TypeId)
  | field (f : FieldId)
  | method (m : MethodId)

namespace Item

/-- The graph has handed out the identity. -/
def Known (g : TypeGraph) : Item → Prop
  | type t => g.Knows t
  | field f => g.KnowsField f
  | method m => g.KnowsMethod m

/-- The token of the entry. -/
def token (g : TypeGraph) : Item → UInt32
  | type t => (g.type t).token
  | field f => (g.field f).token
  | method m => (g.method m).token

/-- The table that the entry has a row in. -/
def table (g : TypeGraph) : Item → MetadataTable
  | type t => (g.type t).kind.table
  | field _ => .field
  | method _ => .method

/-- The token of an entry is a row of its table. -/
theorem token_row {g : TypeGraph} (hg : g.Numbered) {a : Item} (ha : a.Known g) :
    ∃ row ≤ g.rows (a.table g), a.token g = (a.table g).token row := by
  cases a with
  | type t =>
    obtain ⟨row, hrow, htoken⟩ := hg.type_row ha
    exact ⟨row, (rows_table g _).symm ▸ hrow, htoken⟩
  | field f => exact ⟨f.index + 1, ha, hg.field_row ha⟩
  | method m => exact ⟨m.index + 1, ha, hg.method_row ha⟩

end Item

theorem RowsFit.rows {g : TypeGraph} (h : g.RowsFit) (table : MetadataTable) : g.rows table < 16777216 := by
  cases table with
  | typeDefinition => exact h.definitions
  | field => exact h.fields
  | method => exact h.methods
  | typeSpecification => exact h.specifications

/-- **`Item.token_inj`** — while the rows fit, no two entries of any sort share a token. -/
theorem Item.token_inj {g : TypeGraph} (hg : g.Numbered) (hfit : g.RowsFit) {a b : Item} (ha : a.Known g)
    (hb : b.Known g) (h : a.token g = b.token g) : a = b := by
  obtain ⟨row, hrow, htoken⟩ := token_row hg ha
  obtain ⟨row', hrow', htoken'⟩ := token_row hg hb
  have htable : a.table g = b.table g := by
    rw [htoken, htoken', MetadataTable.token_inj (Nat.lt_of_le_of_lt hrow (hfit.rows _))
      (Nat.lt_of_le_of_lt hrow' (hfit.rows _))] at h
    exact h.1
  -- Entries of different sorts are in different tables, and those of one sort are found by their tokens.
  cases a with
  | type t =>
    cases b with
    | type u =>
      rw [Item.type.injEq, ← Option.some_inj, ← typeOf?_token hg hfit ha, ← typeOf?_token hg hfit hb]
      exact congrArg g.typeOf? h
    | field => exact absurd htable (TypeKind.table_ne _).1
    | method => exact absurd htable (TypeKind.table_ne _).2
  | field f =>
    cases b with
    | type => exact absurd htable.symm (TypeKind.table_ne _).1
    | field f' =>
      rw [Item.field.injEq, ← Option.some_inj, ← fieldOf?_token hg hfit ha, ← fieldOf?_token hg hfit hb]
      exact congrArg g.fieldOf? h
    | method => cases htable
  | method m =>
    cases b with
    | type => exact absurd htable.symm (TypeKind.table_ne _).2
    | field => cases htable
    | method m' =>
      rw [Item.method.injEq, ← Option.some_inj, ← methodOf?_token hg hfit ha, ← methodOf?_token hg hfit hb]
      exact congrArg g.methodOf? h

/-- The high byte of a token is the number of its table. -/
theorem Item.token_table {g : TypeGraph} (hg : g.Numbered) (hfit : g.RowsFit) {a : Item} (ha : a.Known g) :
    a.token g >>> 24 = (a.table g).base >>> 24 := by
  obtain ⟨row, hrow, htoken⟩ := token_row hg ha
  rw [htoken, MetadataTable.token_shiftRight _ (Nat.lt_of_le_of_lt hrow (hfit.rows _))]

/-- **`Identified`** — names, tokens and identities of a graph agree. -/
structure Identified (g : TypeGraph) : Prop where
  lookup_nameOf : ∀ t, g.Knows t → g.lookup? (g.nameOf t) = some t
  nameOf_inj : ∀ t u, g.Knows t → g.Knows u → g.nameOf t = g.nameOf u → t = u
  token_inj : ∀ a b : Item, a.Known g → b.Known g → a.token g = b.token g → a = b
  token_table : ∀ a : Item, a.Known g → a.token g >>> 24 = (a.table g).base >>> 24
  tokensOf_eq : ∀ table, g.tokensOf table = (List.range (g.rows table)).map fun i => table.token (i + 1)
  /-- A type that was there is answered without a row being taken, and likewise a field and a method. -/
  addType_known : ∀ name kind base flags, g.Knows (g.addType name kind base flags).1 →
    (g.addType name kind base flags).2 = g
  addField_known : ∀ owner name type flags, g.KnowsField (g.addField owner name type flags).1 →
    (g.addField owner name type flags).2 = g
  addMethod_known : ∀ owner name parameters returnType flags,
    g.KnowsMethod (g.addMethod owner name parameters returnType flags).1 →
    (g.addMethod owner name parameters returnType flags).2 = g

theorem addType_eq_of_knows {g : TypeGraph} {name : String} {kind : TypeKind} {base : Option TypeId}
    {flags : TypeFlags} (h : g.Knows (g.addType name kind base flags).1) :
    (g.addType name kind base flags).2 = g := by
  cases hl : g.lookup? name with
  | some existing => rw [addType_taken kind base flags hl]
  | none =>
    obtain ⟨_, hid, -⟩ := addType_free kind base flags hl
    rw [hid] at h
    exact absurd h (Nat.lt_irrefl _)

theorem addField_eq_of_knows {g : TypeGraph} {owner : TypeId} {name : String} {type : TypeId}
    {flags : FieldFlags} (h : g.KnowsField (g.addField owner name type flags).1) :
    (g.addField owner name type flags).2 = g := by
  cases hl : g.declaredField? owner name with
  | some existing => rw [addField_taken type flags hl]
  | none =>
    obtain ⟨_, hid, -⟩ := addField_free type flags hl
    rw [hid] at h
    exact absurd h (Nat.lt_irrefl _)

theorem addMethod_eq_of_knows {g : TypeGraph} {owner : TypeId} {name : String} {parameters : List TypeId}
    {returnType : Option TypeId} {flags : MethodFlags}
    (h : g.KnowsMethod (g.addMethod owner name parameters returnType flags).1) :
    (g.addMethod owner name parameters returnType flags).2 = g := by
  cases hl : g.overload? owner (name, parameters, flags.contains .static) with
  | some existing => rw [addMethod_taken returnType hl]
  | none =>
    obtain ⟨_, hid, -⟩ := addMethod_free returnType hl
    rw [hid] at h
    exact absurd h (Nat.lt_irrefl _)

theorem Built.identified {g : TypeGraph} (hg : g.Built) (hfit : g.RowsFit) : g.Identified where
  lookup_nameOf := hg.named
  nameOf_inj _ _ := hg.named.nameOf_inj
  token_inj _ _ := Item.token_inj hg.numbered hfit
  token_table _ := Item.token_table hg.numbered hfit
  tokensOf_eq := hg.tokensOf_eq
  addType_known _ _ _ _ := addType_eq_of_knows
  addField_known _ _ _ _ := addField_eq_of_knows
  addMethod_known _ _ _ _ _ := addMethod_eq_of_knows

/-! ## § Bases -/

/-- One step up the hierarchy, and nowhere from where there is no base. -/
def baseOf? (g : TypeGraph) (t : Option TypeId) : Option TypeId := t.bind fun t => (g.type t).base

/-- **`Membered.bases_end`** — a base is older than what derives from it, so following bases ends. -/
theorem Membered.bases_end {g : TypeGraph} (hg : g.Membered) (t : TypeId) : ∃ n, g.baseOf?^[n] (some t) = none := by
  obtain ⟨i⟩ := t
  induction i using Nat.strong_induction_on with
  | _ i ih =>
    cases hbase : (g.type ⟨i⟩).base with
    | none => exact ⟨1, hbase⟩
    | some b =>
      obtain ⟨n, hn⟩ := ih b.index (hg.base_older hbase)
      refine ⟨n + 1, ?_⟩
      rw [Function.iterate_succ_apply]
      have hstep : g.baseOf? (some ⟨i⟩) = some b := hbase
      rw [hstep]
      exact hn

/-! ## § Types made of others -/

/-- The two ways to make a type of another. -/
inductive Derivation
  | array
  | byRef
  deriving DecidableEq

namespace Derivation

/-- What is put after the name. -/
def suffix : Derivation → String
  | array => "[]"
  | byRef => "&"

/-- The kind of what is made. -/
def kind : Derivation → TypeId → TypeKind
  | array => .array
  | byRef => .byRef

/-- **`make`** — `arrayOf` or `byRef`. -/
def make : Derivation → TypeGraph → TypeId → TypeId × TypeGraph
  | array => TypeGraph.arrayOf
  | byRef => TypeGraph.byRef

theorem make_eq (d : Derivation) (g : TypeGraph) (t : TypeId) : ∃ base flags,
    (∀ b ∈ base, g.Knows b) ∧ d.make g t = g.addType (g.nameOf t ++ d.suffix) (d.kind t) base flags := by
  cases d with
  | array => exact ⟨g.lookup? arrayBaseName, .visible ||| .sealed, fun b hb => knows_of_lookup? hb, rfl⟩
  | byRef => exact ⟨none, .none, fun b hb => absurd hb (Option.not_mem_none b), rfl⟩

theorem inner?_kind (d : Derivation) (t : TypeId) : (d.kind t).inner? = some t := by
  cases d <;> rfl

theorem kind_inj {d d' : Derivation} {t t' : TypeId} : d.kind t = d'.kind t' ↔ d = d' ∧ t = t' := by
  cases d <;> cases d' <;> simp [kind]

theorem exists_kind {kind : TypeKind} {t : TypeId} (h : kind.inner? = some t) :
    ∃ d : Derivation, kind = d.kind t := by
  cases kind with
  | array e =>
    cases h
    exact ⟨.array, rfl⟩
  | byRef e =>
    cases h
    exact ⟨.byRef, rfl⟩
  | _ => cases h

theorem getLast?_append_suffix (s : String) (d : Derivation) :
    (s ++ d.suffix).toList.getLast? = some (match d with | array => ']' | byRef => '&') := by
  rw [String.toList_append]
  cases d <;> simp [suffix]

/-- The last character tells the suffixes apart, and what is before the suffix is left. -/
theorem append_suffix_inj {d d' : Derivation} {a b : String} :
    a ++ d.suffix = b ++ d'.suffix ↔ d = d' ∧ a = b := by
  constructor
  · intro h
    have hd : d = d' := by
      have hlast := congrArg (·.toList.getLast?) h
      simp only [getLast?_append_suffix] at hlast
      cases d <;> cases d' <;> first | rfl | exact absurd hlast (by decide)
    subst hd
    have hlist := congrArg String.toList h
    rw [String.toList_append, String.toList_append, List.append_left_inj] at hlist
    exact ⟨rfl, String.toList_inj.mp hlist⟩
  · rintro ⟨rfl, rfl⟩
    rfl

end Derivation

/-- The name ends like that of an array or of a by-reference type. -/
def Suffixed (name : String) : Prop := ∃ d : Derivation, d.suffix.toList <:+ name.toList

theorem suffixed_iff {name : String} :
    Suffixed name ↔ "[]".toList <:+ name.toList ∨ "&".toList <:+ name.toList := by
  constructor
  · rintro ⟨d, hd⟩
    cases d with
    | array => exact .inl hd
    | byRef => exact .inr hd
  · rintro (h | h)
    · exact ⟨.array, h⟩
    · exact ⟨.byRef, h⟩

instance (name : String) : Decidable (Suffixed name) := decidable_of_iff' _ suffixed_iff

theorem suffixed_append (name : String) (d : Derivation) : Suffixed (name ++ d.suffix) := by
  refine ⟨d, ?_⟩
  rw [String.toList_append]
  exact List.suffix_append _ _

/-- Neither made of another type nor named as if it were. -/
structure Plain (t : TypeEntry) : Prop where
  inner : t.kind.inner? = none
  name : ¬ Suffixed t.name

/-- **`Tidy`** — one operation; it is `arrayOf` or `byRef`, or all that it adds is plain. -/
inductive Tidy (g : TypeGraph) : TypeGraph → Prop
  | make (d : Derivation) {t : TypeId} : g.Knows t → Tidy g (d.make g t).2
  | plain {g' : TypeGraph} : Growth true g g' →
      (∀ t, g'.Knows t → g.Knows t ∨ Plain (g'.type t)) → Tidy g g'

/-- **`Tidies`** — any number of tidy operations, one after the other. -/
def Tidies : TypeGraph → TypeGraph → Prop := Relation.ReflTransGen Tidy

theorem Tidy.growth {g g' : TypeGraph} (h : Tidy g g') : Growth true g g' := by
  cases h with
  | @make d t ht =>
    obtain ⟨base, flags, hbase, hmake⟩ := d.make_eq g t
    rw [hmake]
    refine .addType _ flags hbase fun e he => ?_
    rw [d.inner?_kind, Option.mem_some] at he
    exact he ▸ ht
  | plain hgrowth => exact hgrowth

theorem Tidies.evolves {g g' : TypeGraph} (h : Tidies g g') : Evolves true g g' := by
  induction h with
  | refl => exact .refl
  | tail _ hstep ih => exact ih.tail hstep.growth

theorem Tidies.built {g : TypeGraph} (h : Tidies empty g) : g.Built := h.evolves.built .empty

/-- The system types are plain. -/
theorem tidies_addSystemTypes (g : TypeGraph) : Tidies g g.addSystemTypes.2 := by
  refine addSystemTypes_steps (P := Tidies g) ?_ .refl
  intro g' name kind base flags hname hinner hbase hrun
  refine hrun.tail (.plain (.addType name flags hbase fun e he => ?_) fun t ht => ?_)
  · rw [hinner] at he
    cases he
  · cases hl : g'.lookup? name with
    | some existing =>
      rw [addType_taken kind base flags hl] at ht
      exact .inl ht
    | none =>
      obtain ⟨token, -, htypes, -, -⟩ := addType_free kind base flags hl
      rcases (knows_push htypes).mp ht with hold | rfl
      · exact .inl hold
      · rw [type_push_new htypes]
        have hplain : ∀ name ∈ systemNames, ¬ Suffixed name := by decide +kernel
        exact .inr ⟨hinner, hplain name hname⟩

/-- **`WellNamed`** — arrays and by-reference types are named after what they are made of, and nothing else is
named like them. -/
structure WellNamed (g : TypeGraph) : Prop where
  made : ∀ {d : Derivation} {t e}, (g.type t).kind = d.kind e → g.nameOf t = g.nameOf e ++ d.suffix
  plain : ∀ {t}, g.Knows t → (g.type t).kind.inner? = none → ¬ Suffixed (g.nameOf t)

theorem wellNamed_empty : empty.WellNamed where
  made {d} _ _ h := by cases d <;> cases h
  plain h := absurd h (Nat.not_lt_zero _)

/-- What an operation adds decides whether a graph stays well named. -/
theorem WellNamed.grow {g g' : TypeGraph} (hn : g.WellNamed) (hg : g.Built) (h : Growth true g g')
    (hmade : ∀ {d : Derivation} {t e}, g'.Knows t → ¬ g.Knows t → (g'.type t).kind = d.kind e →
      g'.nameOf t = g'.nameOf e ++ d.suffix)
    (hplain : ∀ {t}, g'.Knows t → ¬ g.Knows t → (g'.type t).kind.inner? = none →
      ¬ Suffixed (g'.nameOf t)) : g'.WellNamed := by
  constructor
  · intro d t e hkind
    have ht : g'.Knows t := by
      apply knows_of_type_ne
      intro habsent
      rw [habsent] at hkind
      cases d <;> cases hkind
    by_cases hold : g.Knows t
    · rw [h.retains.kind_eq hold] at hkind
      have he : g.Knows e := hg.closed.inner_known (hkind ▸ d.inner?_kind e)
      rw [h.nameOf_eq hg.named hold, h.nameOf_eq hg.named he]
      exact hn.made hkind
    · exact hmade ht hold hkind
  · intro t ht hinner
    by_cases hold : g.Knows t
    · rw [h.retains.kind_eq hold] at hinner
      rw [h.nameOf_eq hg.named hold]
      exact hn.plain hold hinner
    · exact hplain ht hold hinner

/-- One step of the discipline. -/
theorem Tidy.wellNamed {g g' : TypeGraph} (h : Tidy g g') (hg : g.Built) (hn : g.WellNamed) :
    g'.WellNamed := by
  have hgrowth := h.growth
  cases h with
  | plain _ hplain =>
    refine hn.grow hg hgrowth ?_ ?_
    · intro d t e ht hnew hkind
      have hinner := ((hplain t ht).resolve_left hnew).inner
      rw [hkind, d.inner?_kind] at hinner
      cases hinner
    · intro t ht hnew _
      exact ((hplain t ht).resolve_left hnew).name
  | @make d u hu =>
    obtain ⟨base, flags, hbase, hmake⟩ := d.make_eq g u
    rw [hmake] at hgrowth ⊢
    cases hl : g.lookup? (g.nameOf u ++ d.suffix) with
    | some existing => rwa [addType_taken _ base flags hl]
    | none =>
      obtain ⟨token, -, htypes, -, -⟩ := addType_free (d.kind u) base flags hl
      refine hn.grow hg hgrowth ?_ ?_
      · intro d' t e ht hnew hkind
        obtain rfl := ((knows_push htypes).mp ht).resolve_left hnew
        rw [type_push_new htypes, d.kind_inj] at hkind
        obtain ⟨rfl, rfl⟩ := hkind
        rw [hgrowth.nameOf_eq hg.named hu, nameOf, type_push_new htypes]
      · intro t ht hnew hinner
        obtain rfl := ((knows_push htypes).mp ht).resolve_left hnew
        rw [type_push_new htypes, d.inner?_kind] at hinner
        cases hinner

/-- **`Tidies.wellNamed`** — a graph that was built tidily is well named. -/
theorem Tidies.wellNamed {g : TypeGraph} (h : Tidies empty g) : g.WellNamed := by
  induction h with
  | refl => exact wellNamed_empty
  | tail hrun hstep ih => exact hstep.wellNamed (Tidies.built hrun) ih

/-- What is asked for is found under its name from then on. -/
theorem Derivation.lookup?_make (d : Derivation) (g : TypeGraph) (t : TypeId) :
    (d.make g t).2.lookup? (g.nameOf t ++ d.suffix) = some (d.make g t).1 := by
  obtain ⟨base, flags, -, hmake⟩ := d.make_eq g t
  rw [hmake]
  cases hl : g.lookup? (g.nameOf t ++ d.suffix) with
  | some existing => rw [addType_taken _ base flags hl, hl]
  | none =>
    obtain ⟨token, hid, htypes, -, -⟩ := addType_free (d.kind t) base flags hl
    rw [lookup?_push_eq htypes, hl, hid, beq_self_eq_true]
    rfl

/-- **`WellNamed.kind_make`** — what is answered is made of the type that was asked for. -/
theorem WellNamed.kind_make {g : TypeGraph} (hn : g.WellNamed) (hg : g.Built) (d : Derivation) {t : TypeId}
    (ht : g.Knows t) : ((d.make g t).2.type (d.make g t).1).kind = d.kind t := by
  obtain ⟨base, flags, -, hmake⟩ := d.make_eq g t
  rw [hmake]
  cases hl : g.lookup? (g.nameOf t ++ d.suffix) with
  | none =>
    obtain ⟨token, hid, htypes, -, -⟩ := addType_free (d.kind t) base flags hl
    rw [hid, type_push_new htypes]
  | some existing =>
    rw [addType_taken _ base flags hl]
    have hname : g.nameOf existing = g.nameOf t ++ d.suffix := nameOf_of_lookup? hl
    cases hinner : (g.type existing).kind.inner? with
    | none => exact absurd (hname ▸ suffixed_append _ d) (hn.plain (knows_of_lookup? hl) hinner)
    | some e =>
      obtain ⟨d', hkind⟩ := Derivation.exists_kind hinner
      obtain ⟨rfl, hsame⟩ := Derivation.append_suffix_inj.mp ((hn.made hkind).symm.trans hname)
      rw [hkind, hg.named.nameOf_inj (hg.closed.inner_known hinner) ht hsame]

/-- **`Tidies.make_later`** — what `arrayOf` or `byRef` answers is made of the type it was asked for, stays
its answer in every later graph, and is not the answer for anything else. -/
theorem Tidies.make_later {g g' : TypeGraph} (h : Tidies empty g) (d : Derivation) {t : TypeId}
    (ht : g.Knows t) (h' : Tidies (d.make g t).2 g') :
    (g'.type (d.make g t).1).kind = d.kind t ∧
      d.make g' t = ((d.make g t).1, g') ∧
      ∀ d' u, g'.Knows u → ((Derivation.make d' g' u).1 = (d.make g t).1 ↔ d' = d ∧ u = t) := by
  have hmade : Tidies empty (d.make g t).2 := h.tail (.make d ht)
  have hlater : Tidies empty g' := hmade.trans h'
  have hretains := h'.evolves.retains
  have hfound := d.lookup?_make g t
  have hknown : (d.make g t).2.Knows (d.make g t).1 := knows_of_lookup? hfound
  have hkind : (g'.type (d.make g t).1).kind = d.kind t := by
    rw [hretains.kind_eq hknown]
    exact h.wellNamed.kind_make h.built d ht
  have hagain : d.make g' t = ((d.make g t).1, g') := by
    obtain ⟨base, flags, -, hmake⟩ := d.make_eq g' t
    have hname : g'.nameOf t = g.nameOf t := by
      have hgrowth : Growth true g (d.make g t).2 := (Tidy.make d ht).growth
      exact nameOf_of_lookup? (hretains.lookup_eq (hgrowth.retains.lookup_eq (h.built.named t ht)))
    rw [hmake, addType_taken _ base flags]
    rw [hname]
    exact hretains.lookup_eq hfound
  refine ⟨hkind, hagain, fun d' u hu => ?_⟩
  constructor
  · intro heq
    have hgrowth : Growth true g' (d'.make g' u).2 := (Tidy.make d' hu).growth
    have hkind' := hlater.wellNamed.kind_make hlater.built d' hu
    rw [heq, hgrowth.retains.kind_eq (hretains.knows hknown), hkind] at hkind'
    obtain ⟨rfl, rfl⟩ := Derivation.kind_inj.mp hkind'
    exact ⟨rfl, rfl⟩
  · rintro ⟨rfl, rfl⟩
    rw [hagain]

/-! ## § Identity -/

/-- **`identity_consistent`** — in every graph that can be built, names, tokens and identities agree and
following bases ends.  If it was built tidily, arrays and by-reference types are made of exactly what they were
asked for, for good. -/
theorem identity_consistent {g : TypeGraph} (hg : g.Built) (hfit : g.RowsFit) :
    g.Identified ∧ (∀ t, ∃ n, g.baseOf?^[n] (some t) = none) ∧
      (Tidies empty g → ∀ (d : Derivation) {t : TypeId} {g' : TypeGraph}, g.Knows t →
        Tidies (d.make g t).2 g' →
          (g'.type (d.make g t).1).kind = d.kind t ∧
          d.make g' t = ((d.make g t).1, g') ∧
          ∀ d' u, g'.Knows u → ((Derivation.make d' g' u).1 = (d.make g t).1 ↔ d' = d ∧ u = t)) :=
  ⟨hg.identified hfit, hg.membered.bases_end, fun htidy d _ _ ht hlater => htidy.make_later d ht hlater⟩

end TypeGraph

namespace NestedArrays

open TypeGraph
open SystemOnly (system)

/-- Arrays of numbers. -/
def row : TypeId × TypeGraph := SystemOnly.graph.arrayOf system.int32

/-- Arrays of those. -/
def grid : TypeId × TypeGraph := row.2.arrayOf row.1

/-- References to locations of those. -/
def place : TypeId × TypeGraph := grid.2.byRef grid.1

/-- The rows keep the array type that was made of them first, and no other type is answered it. -/
theorem grid_stays :
    row.2.Identified ∧ (place.2.type grid.1).kind = .array row.1 ∧
      place.2.arrayOf row.1 = (grid.1, place.2) ∧
      ∀ u, place.2.Knows u → ((place.2.arrayOf u).1 = grid.1 ↔ u = row.1) := by
  obtain ⟨hnumber, hrow, hgrid⟩ : SystemOnly.graph.Knows system.int32 ∧
      row.2.Knows row.1 ∧ grid.2.Knows grid.1 := by
    decide +kernel
  have htidy : Tidies TypeGraph.empty row.2 := (tidies_addSystemTypes _).tail (.make .array hnumber)
  have hfit : row.2.RowsFit := by constructor <;> decide +kernel
  have hlater : Tidies grid.2 place.2 := .single (.make .byRef hgrid)
  obtain ⟨hidentified, -, hmade⟩ := identity_consistent htidy.built hfit
  obtain ⟨hkind, hagain, honly⟩ := hmade htidy .array hrow hlater
  exact ⟨hidentified, hkind, hagain, fun u hu => (honly .array u hu).trans (and_iff_right rfl)⟩

end NestedArrays

end ManagedCode
