/-
# ManagedCode.Proofs.Graph.Tokens — a token names one entry.

Rows of a metadata table are handed out one after the other, and a token is a table with a row.  As long as
no table has run out of the 24 bits of a row, two entries never share a token, so an entry can be found again
by its token.  Tokens are given once: a graph that has grown still has what it had under the tokens it had.
-/
import ManagedCode.Proofs.Graph.Growth

namespace ManagedCode

/-! ## § Tables and rows -/

namespace MetadataTable

/-- A row that fits leaves the number of the table as it is. -/
theorem toNat_token (table : MetadataTable) {row : Nat} (h : row < 16777216) :
    (table.token row).toNat = table.base.toNat + row := by
  have hrow : row % 4294967296 = row := Nat.mod_eq_of_lt (by omega)
  have hor (number : Nat) : (number <<< 24) ||| row = (number <<< 24) + row :=
    (Nat.shiftLeft_add_eq_or_of_lt h number).symm
  rw [token, UInt32.toNat_or, UInt32.toNat_ofNat', hrow]
  cases table with
  | typeDefinition => exact hor 0x02
  | field => exact hor 0x04
  | method => exact hor 0x06
  | typeSpecification => exact hor 0x1B

theorem token_inj {table table' : MetadataTable} {row row' : Nat} (h : row < 16777216)
    (h' : row' < 16777216) : table.token row = table'.token row' ↔ table = table' ∧ row = row' := by
  constructor
  · intro heq
    have hnat := congrArg UInt32.toNat heq
    rw [toNat_token table h, toNat_token table' h'] at hnat
    have hrow : table.base.toNat / 16777216 = table'.base.toNat / 16777216 := by
      cases table <;> cases table' <;> simp only [base, UInt32.reduceToNat] at hnat ⊢ <;> omega
    have htable : table = table' := by
      cases table <;> cases table' <;> first | rfl | exact absurd hrow (by decide)
    subst htable
    exact ⟨rfl, by omega⟩
  · rintro ⟨rfl, rfl⟩
    rfl

/-- The high byte of a token is that of its table. -/
theorem token_shiftRight (table : MetadataTable) {row : Nat} (h : row < 16777216) :
    table.token row >>> 24 = table.base >>> 24 := by
  rw [← UInt32.toNat_inj, UInt32.toNat_shiftRight, UInt32.toNat_shiftRight, toNat_token table h]
  cases table <;>
    simp only [base, UInt32.reduceToNat, Nat.shiftRight_eq_div_pow, Nat.reduceMod, Nat.reducePow] <;> omega

end MetadataTable

namespace TypeGraph

/-- **`RowsFit`** — no metadata table has more rows than the row number of a token can tell apart. -/
structure RowsFit (g : TypeGraph) : Prop where
  definitions : g.definitionRows < 16777216
  specifications : g.specificationRows < 16777216
  fields : g.fields.size < 16777216
  methods : g.methods.size < 16777216

theorem RowsFit.typeRows {g : TypeGraph} (h : g.RowsFit) (kind : TypeKind) : g.typeRows kind < 16777216 := by
  rw [TypeGraph.typeRows.eq_1]
  split
  · exact h.specifications
  · exact h.definitions

/-! ## § How rows are handed out -/

theorem typeRows_eq {g : TypeGraph} {kind kind' : TypeKind} (h : kind'.table = kind.table) :
    g.typeRows kind' = g.typeRows kind := by
  rw [typeRows, typeRows, h]

/-- A new type takes the next row of its table and no row of the other. -/
theorem addType_row {g : TypeGraph} {name : String} (kind : TypeKind) (base : Option TypeId)
    (flags : TypeFlags) (h : g.lookup? name = none) :
    (g.addType name kind base flags).2.types =
        g.types.push { name, kind, base, flags, token := kind.table.token (g.typeRows kind + 1) } ∧
      ∀ kind', (g.addType name kind base flags).2.typeRows kind' =
        if kind'.table = kind.table then g.typeRows kind + 1 else g.typeRows kind' := by
  rw [addType, h]
  constructor
  · dsimp only
    split <;> rfl
  · intro kind'
    cases kind <;> cases kind' <;> rfl

/-- **`Numbered`** — how the tokens of a graph come about. -/
structure Numbered (g : TypeGraph) : Prop where
  type_row : ∀ {t}, g.Knows t → ∃ row ≤ g.typeRows (g.type t).kind,
    (g.type t).token = (g.type t).kind.table.token row
  type_distinct : (∀ kind, g.typeRows kind < 16777216) →
    ∀ {t u}, g.Knows t → g.Knows u → (g.type t).token = (g.type u).token → t = u
  field_row : ∀ {f}, g.KnowsField f → (g.field f).token = MetadataTable.field.token (f.index + 1)
  method_row : ∀ {m}, g.KnowsMethod m → (g.method m).token = MetadataTable.method.token (m.index + 1)

theorem numbered_empty : empty.Numbered where
  type_row h := absurd h (Nat.not_lt_zero _)
  type_distinct _ _ _ h := absurd h (Nat.not_lt_zero _)
  field_row h := absurd h (Nat.not_lt_zero _)
  method_row h := absurd h (Nat.not_lt_zero _)

/-- No type has the token of the row that comes next. -/
theorem Numbered.token_ne_next {g : TypeGraph} (hg : g.Numbered) {kind : TypeKind}
    (hfit : ∀ kind', g.typeRows kind' < 16777216) (hnext : g.typeRows kind + 1 < 16777216) {t : TypeId}
    (ht : g.Knows t) : (g.type t).token ≠ kind.table.token (g.typeRows kind + 1) := by
  intro heq
  obtain ⟨row, hrow, htoken⟩ := hg.type_row ht
  rw [htoken, MetadataTable.token_inj (Nat.lt_of_le_of_lt hrow (hfit _)) hnext] at heq
  rw [typeRows_eq heq.1, heq.2] at hrow
  exact Nat.not_succ_le_self _ hrow

theorem Numbered.addType {g : TypeGraph} (hg : g.Numbered) (name : String) (kind : TypeKind)
    (base : Option TypeId) (flags : TypeFlags) : (g.addType name kind base flags).2.Numbered := by
  cases hl : g.lookup? name with
  | some existing => rwa [addType_taken kind base flags hl]
  | none =>
    obtain ⟨-, -, -, hfields, hmethods⟩ := addType_free kind base flags hl
    obtain ⟨htypes, hrows⟩ := addType_row kind base flags hl
    generalize (g.addType name kind base flags).2 = g' at *
    have hext := extends_push htypes hfields hmethods
    have hgrown (kind' : TypeKind) : g.typeRows kind' ≤ g'.typeRows kind' := by
      rw [hrows]
      split
      · rename_i htable
        exact Nat.le_succ_of_le (Nat.le_of_eq (typeRows_eq htable))
      · exact Nat.le_refl _
    have hnew : g'.typeRows kind = g.typeRows kind + 1 := by rw [hrows, if_pos rfl]
    constructor
    · intro t ht
      rcases type_push htypes t with ⟨-, hentry⟩ | ⟨hold, hentry⟩
      · rw [hentry]
        exact ⟨g.typeRows kind + 1, Nat.le_of_eq hnew.symm, rfl⟩
      · obtain ⟨row, hrow, htoken⟩ := hg.type_row (((knows_push htypes).mp ht).resolve_right hold)
        rw [hentry]
        exact ⟨row, Nat.le_trans hrow (hgrown _), htoken⟩
    · intro hfit t u ht hu heq
      have hfit' (kind' : TypeKind) : g.typeRows kind' < 16777216 :=
        Nat.lt_of_le_of_lt (hgrown kind') (hfit kind')
      have hnext : g.typeRows kind + 1 < 16777216 := hnew ▸ hfit kind
      have hknown {v : TypeId} (hv : g'.Knows v) (hold : v ≠ ⟨g.types.size⟩) : g.Knows v :=
        ((knows_push htypes).mp hv).resolve_right hold
      -- Two old types are told apart as before, and an old one from the new one by the row.
      rcases type_push htypes t with ⟨htnew, ht'⟩ | ⟨htold, ht'⟩
      · rcases type_push htypes u with ⟨hunew, hu'⟩ | ⟨huold, hu'⟩
        · rw [htnew, hunew]
        · rw [ht', hu'] at heq
          exact absurd heq.symm (hg.token_ne_next hfit' hnext (hknown hu huold))
      · rcases type_push htypes u with ⟨hunew, hu'⟩ | ⟨huold, hu'⟩
        · rw [ht', hu'] at heq
          exact absurd heq (hg.token_ne_next hfit' hnext (hknown ht htold))
        · rw [ht', hu'] at heq
          exact hg.type_distinct hfit' (hknown ht htold) (hknown hu huold) heq
    · intro f hf
      rw [hext.field_eq]
      exact hg.field_row (by rwa [KnowsField, ← hfields])
    · intro m hm
      rw [hext.method_eq]
      exact hg.method_row (by rwa [KnowsMethod, ← hmethods])

/-- Replacing an entry changes no token if its token and its kind stay. -/
theorem Numbered.updateType {g : TypeGraph} (hg : g.Numbered) (t : TypeId)
    {change : TypeEntry → TypeEntry} (htoken : ∀ e, (change e).token = e.token)
    (hkind : ∀ e, (change e).kind = e.kind) : (g.updateType t change).Numbered := by
  have hsame (u : TypeId) : ((g.updateType t change).type u).token = (g.type u).token ∧
      ((g.updateType t change).type u).kind = (g.type u).kind :=
    ⟨read_updateType TypeEntry.token g t u htoken, read_updateType TypeEntry.kind g t u hkind⟩
  constructor
  · intro u hu
    rw [(hsame u).1, (hsame u).2]
    exact hg.type_row (knows_updateType.mp hu)
  · intro hfit u v hu hv heq
    rw [(hsame u).1, (hsame v).1] at heq
    exact hg.type_distinct hfit (knows_updateType.mp hu) (knows_updateType.mp hv) heq
  · exact hg.field_row
  · exact hg.method_row

theorem Numbered.addInterfaceImpl {g : TypeGraph} (hg : g.Numbered) (implementer interface : TypeId) :
    (g.addInterfaceImpl implementer interface).Numbered := by
  unfold TypeGraph.addInterfaceImpl
  split
  · exact hg
  · exact hg.updateType _ (fun _ => rfl) fun _ => rfl

theorem Numbered.addField {g : TypeGraph} (hg : g.Numbered) (owner : TypeId) (name : String)
    (type : TypeId) (flags : FieldFlags) : (g.addField owner name type flags).2.Numbered := by
  unfold TypeGraph.addField
  split
  · exact hg
  · refine Numbered.updateType ?_ _ (fun _ => rfl) fun _ => rfl
    refine ⟨hg.type_row, hg.type_distinct, ?_, hg.method_row⟩
    intro f hlt
    simp only [field, Array.getD_eq_getD_getElem?, Array.getElem?_push]
    split
    · rename_i hnew
      rw [hnew]
      rfl
    · have hold : g.KnowsField f := by
        simp only [KnowsField, Array.size_push] at hlt ⊢
        omega
      have hrow := hg.field_row hold
      rwa [field, Array.getD_eq_getD_getElem?] at hrow

theorem Numbered.addMethod {g : TypeGraph} (hg : g.Numbered) (owner : TypeId) (name : String)
    (parameters : List TypeId) (returnType : Option TypeId) (flags : MethodFlags) :
    (g.addMethod owner name parameters returnType flags).2.Numbered := by
  unfold TypeGraph.addMethod
  dsimp only
  split
  · exact hg
  · refine Numbered.updateType ?_ _ (fun _ => rfl) fun _ => rfl
    refine ⟨hg.type_row, hg.type_distinct, hg.field_row, ?_⟩
    intro m hlt
    simp only [method, Array.getD_eq_getD_getElem?, Array.getElem?_push]
    split
    · rename_i hnew
      rw [hnew]
      rfl
    · have hold : g.KnowsMethod m := by
        simp only [KnowsMethod, Array.size_push] at hlt ⊢
        omega
      have hrow := hg.method_row hold
      rwa [method, Array.getD_eq_getD_getElem?] at hrow

/-- **`Built.numbered`** — every graph that can be built numbers its entries. -/
theorem Built.numbered {g : TypeGraph} (h : g.Built) : g.Numbered := by
  induction h with
  | empty => exact numbered_empty
  | addType name flags _ _ _ ih => exact ih.addType name _ _ flags
  | addInterfaceImpl _ _ _ ih => exact ih.addInterfaceImpl _ _
  | addField name flags _ _ _ ih => exact ih.addField _ name _ flags
  | addMethod name flags _ _ _ _ ih => exact ih.addMethod _ name _ _ flags

/-! ## § Entries by token -/

/-- The type that a token names. -/
def typeOf? (g : TypeGraph) (token : UInt32) : Option TypeId :=
  (g.types.findIdx? (·.token == token)).map TypeId.mk

/-- The field that a token names. -/
def fieldOf? (g : TypeGraph) (token : UInt32) : Option FieldId :=
  (g.fields.findIdx? (·.token == token)).map FieldId.mk

/-- The method that a token names. -/
def methodOf? (g : TypeGraph) (token : UInt32) : Option MethodId :=
  (g.methods.findIdx? (·.token == token)).map MethodId.mk

/-- Of entries with different tokens, a token finds the one that it belongs to. -/
theorem findIdx?_token {α : Type} {entries : Array α} (token : α → UInt32) {i : Nat}
    (hi : i < entries.size)
    (hdistinct : ∀ j (hj : j < entries.size), token entries[j] = token entries[i] → j = i) :
    entries.findIdx? (fun entry => token entry == token entries[i]) = some i := by
  rw [Array.findIdx?_eq_some_iff_getElem]
  refine ⟨hi, beq_self_eq_true _, fun j hj => ?_⟩
  rw [Bool.not_eq_true, beq_eq_false_iff_ne]
  intro heq
  exact Nat.ne_of_lt hj (hdistinct j (Nat.lt_trans hj hi) heq)

/-- Entries that have the rows of a table in their order have different tokens. -/
theorem findIdx?_row {α : Type} {entries : Array α} (token : α → UInt32) (table : MetadataTable) {i : Nat}
    (hi : i < entries.size) (hfit : entries.size < 16777216)
    (hrow : ∀ j (hj : j < entries.size), token entries[j] = table.token (j + 1)) :
    entries.findIdx? (fun entry => token entry == token entries[i]) = some i := by
  refine findIdx?_token token hi fun j hj heq => ?_
  rw [hrow i hi, hrow j hj,
    MetadataTable.token_inj (Nat.lt_of_le_of_lt hj hfit) (Nat.lt_of_le_of_lt hi hfit)] at heq
  exact Nat.succ.inj heq.2

theorem field_eq_getElem {g : TypeGraph} {f : FieldId} (h : f.index < g.fields.size) :
    g.field f = g.fields[f.index] := by
  rw [field, Array.getD_eq_getD_getElem?, Array.getElem?_eq_getElem h]
  rfl

theorem method_eq_getElem {g : TypeGraph} {m : MethodId} (h : m.index < g.methods.size) :
    g.method m = g.methods[m.index] := by
  rw [method, Array.getD_eq_getD_getElem?, Array.getElem?_eq_getElem h]
  rfl

section Lookup

variable {g : TypeGraph} (hg : g.Numbered) (hfit : g.RowsFit)
include hg hfit

/-- **`typeOf?_token`** — a type is found again by its token. -/
theorem typeOf?_token {t : TypeId} (ht : g.Knows t) : g.typeOf? (g.type t).token = some t := by
  have hdistinct : ∀ j (hj : j < g.types.size), g.types[j].token = g.types[t.index].token →
      j = t.index := by
    intro j hj heq
    have hentry : g.type ⟨j⟩ = g.types[j] := type_eq_getElem hj
    rw [← type_eq_getElem ht, ← hentry] at heq
    exact congrArg TypeId.index (hg.type_distinct hfit.typeRows hj ht heq)
  rw [typeOf?, type_eq_getElem ht, findIdx?_token TypeEntry.token ht hdistinct]
  rfl

/-- A field is found again by its token. -/
theorem fieldOf?_token {f : FieldId} (hf : g.KnowsField f) : g.fieldOf? (g.field f).token = some f := by
  have hrow : ∀ j (hj : j < g.fields.size), g.fields[j].token = MetadataTable.field.token (j + 1) := by
    intro j hj
    have hentry : g.field ⟨j⟩ = g.fields[j] := field_eq_getElem hj
    exact hentry ▸ hg.field_row hj
  rw [fieldOf?, field_eq_getElem hf, findIdx?_row FieldEntry.token .field hf hfit.fields hrow]
  rfl

/-- A method is found again by its token. -/
theorem methodOf?_token {m : MethodId} (hm : g.KnowsMethod m) :
    g.methodOf? (g.method m).token = some m := by
  have hrow : ∀ j (hj : j < g.methods.size),
      g.methods[j].token = MetadataTable.method.token (j + 1) := by
    intro j hj
    have hentry : g.method ⟨j⟩ = g.methods[j] := method_eq_getElem hj
    exact hentry ▸ hg.method_row hj
  rw [methodOf?, method_eq_getElem hm, findIdx?_row MethodEntry.token .method hm hfit.methods hrow]
  rfl

end Lookup

/-! ## § Growth -/

/-- **`Precedes`** — the later graph still has what the earlier one had, under the same tokens, and each type
is of the kind that it was. -/
structure Precedes (g g' : TypeGraph) : Prop where
  type : ∀ {t}, g.Knows t →
    g'.Knows t ∧ (g'.type t).token = (g.type t).token ∧ (g'.type t).kind = (g.type t).kind
  field : ∀ {f}, g.KnowsField f → g'.KnowsField f ∧ (g'.field f).token = (g.field f).token
  method : ∀ {m}, g.KnowsMethod m → g'.KnowsMethod m ∧ (g'.method m).token = (g.method m).token

theorem Precedes.refl (g : TypeGraph) : g.Precedes g :=
  ⟨fun h => ⟨h, rfl, rfl⟩, fun h => ⟨h, rfl⟩, fun h => ⟨h, rfl⟩⟩

theorem Precedes.trans {g₁ g₂ g₃ : TypeGraph} (h : g₁.Precedes g₂) (h' : g₂.Precedes g₃) :
    g₁.Precedes g₃ := by
  constructor
  · intro t ht
    obtain ⟨hknown, htoken, hkind⟩ := h.type ht
    obtain ⟨hknown', htoken', hkind'⟩ := h'.type hknown
    exact ⟨hknown', htoken'.trans htoken, hkind'.trans hkind⟩
  · intro f hf
    obtain ⟨hknown, htoken⟩ := h.field hf
    obtain ⟨hknown', htoken'⟩ := h'.field hknown
    exact ⟨hknown', htoken'.trans htoken⟩
  · intro m hm
    obtain ⟨hknown, htoken⟩ := h.method hm
    obtain ⟨hknown', htoken'⟩ := h'.method hknown
    exact ⟨hknown', htoken'.trans htoken⟩

theorem Extends.precedes {g g' : TypeGraph} (h : g.Extends g') : g.Precedes g' where
  type ht := ⟨h.knows ht, by rw [h.type_eq ht], by rw [h.type_eq ht]⟩
  field hf := ⟨h.knowsField hf, by rw [h.field_eq]⟩
  method hm := ⟨h.knowsMethod hm, by rw [h.method_eq]⟩

theorem precedes_addType (g : TypeGraph) (name : String) (kind : TypeKind) (base : Option TypeId)
    (flags : TypeFlags) : g.Precedes (g.addType name kind base flags).2 :=
  (extends_addType g name kind base flags).precedes

theorem precedes_updateType (g : TypeGraph) (t : TypeId) {change : TypeEntry → TypeEntry}
    (htoken : ∀ e, (change e).token = e.token) (hkind : ∀ e, (change e).kind = e.kind) :
    g.Precedes (g.updateType t change) where
  type {u} hu := ⟨knows_updateType.mpr hu, read_updateType TypeEntry.token g t u htoken,
    read_updateType TypeEntry.kind g t u hkind⟩
  field hf := ⟨hf, rfl⟩
  method hm := ⟨hm, rfl⟩

theorem precedes_addInterfaceImpl (g : TypeGraph) (implementer interface : TypeId) :
    g.Precedes (g.addInterfaceImpl implementer interface) := by
  unfold addInterfaceImpl
  split
  · exact .refl g
  · exact precedes_updateType g _ (fun _ => rfl) fun _ => rfl

theorem precedes_addField (g : TypeGraph) (owner : TypeId) (name : String) (type : TypeId)
    (flags : FieldFlags) : g.Precedes (g.addField owner name type flags).2 := by
  unfold addField
  split
  · exact .refl g
  · refine Precedes.trans ?_ (precedes_updateType _ owner (fun _ => rfl) fun _ => rfl)
    refine ⟨fun ht => ⟨ht, rfl, rfl⟩, fun {f} hf => ⟨?_, ?_⟩, fun hm => ⟨hm, rfl⟩⟩
    · exact Nat.lt_of_lt_of_le hf (by simp only [Array.size_push]; omega)
    · simp only [field, Array.getD_eq_getD_getElem?, Array.getElem?_push, if_neg (Nat.ne_of_lt hf)]

theorem precedes_addMethod (g : TypeGraph) (owner : TypeId) (name : String) (parameters : List TypeId)
    (returnType : Option TypeId) (flags : MethodFlags) :
    g.Precedes (g.addMethod owner name parameters returnType flags).2 := by
  unfold addMethod
  dsimp only
  split
  · exact .refl g
  · refine Precedes.trans ?_ (precedes_updateType _ owner (fun _ => rfl) fun _ => rfl)
    refine ⟨fun ht => ⟨ht, rfl, rfl⟩, fun hf => ⟨hf, rfl⟩, fun {m} hm => ⟨?_, ?_⟩⟩
    · exact Nat.lt_of_lt_of_le hm (by simp only [Array.size_push]; omega)
    · simp only [method, Array.getD_eq_getD_getElem?, Array.getElem?_push, if_neg (Nat.ne_of_lt hm)]

/-- **`Grows`** — the graphs that operations can make of a graph. -/
inductive Grows (g : TypeGraph) : TypeGraph → Prop
  | refl : Grows g g
  | addType {g' : TypeGraph} (name : String) (kind : TypeKind) (base : Option TypeId) (flags : TypeFlags) :
      Grows g g' → Grows g (g'.addType name kind base flags).2
  | addInterfaceImpl {g' : TypeGraph} (implementer interface : TypeId) :
      Grows g g' → Grows g (g'.addInterfaceImpl implementer interface)
  | addField {g' : TypeGraph} (owner : TypeId) (name : String) (type : TypeId) (flags : FieldFlags) :
      Grows g g' → Grows g (g'.addField owner name type flags).2
  | addMethod {g' : TypeGraph} (owner : TypeId) (name : String) (parameters : List TypeId)
      (returnType : Option TypeId) (flags : MethodFlags) :
      Grows g g' → Grows g (g'.addMethod owner name parameters returnType flags).2

/-- **`Grows.precedes`** — no operation takes an identity back or gives it another token. -/
theorem Grows.precedes {g g' : TypeGraph} (h : g.Grows g') : g.Precedes g' := by
  induction h with
  | refl => exact .refl g
  | addType name kind base flags _ ih => exact ih.trans (precedes_addType _ name kind base flags)
  | addInterfaceImpl implementer interface _ ih => exact ih.trans (precedes_addInterfaceImpl _ _ _)
  | addField owner name type flags _ ih => exact ih.trans (precedes_addField _ owner name type flags)
  | addMethod owner name parameters returnType flags _ ih =>
    exact ih.trans (precedes_addMethod _ owner name parameters returnType flags)

end TypeGraph

end ManagedCode
