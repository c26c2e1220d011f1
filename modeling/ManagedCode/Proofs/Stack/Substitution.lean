/-
# ManagedCode.Proofs.Stack.Substitution — when a stack may stand for the one that was verified.

The code at a label is verified once, with the stack of the first edge that reaches it.  Every later edge
brings a stack that is compatible with it, so an instruction that was accepted should be accepted again,
and leave a compatible stack.  That is so for all branches, and for all instructions but in two places:

* a field that is read out of a value type passed by value asks for exactly that type (`ByValueClash`),
  where compatible stacks may hold another primitive of the same stack class;
* arithmetic on two operands of one class keeps their type if they agree on it, and otherwise answers the
  system type of the class (`MixedClash`), which fits only if it is represented by that class.  It always
  is unless the name of the system type was taken by another type first.

`verified_once` says that these are the only places, and that both really are exceptions.
-/
import ManagedCode.Proofs.Stack.Growth

namespace ManagedCode

/-! ## § Classes of numbers -/

/-- The classes that only primitives have. -/
def StackClass.isNumeric : StackClass → Bool
  | .int32 | .int64 | .nativeInt | .float => true
  | _ => false

namespace TypeTag

variable {g : TypeGraph}

/-- A slot of a numeric class is a value that some primitive represents. -/
theorem exists_primitive {tag : TypeTag} {c : StackClass} (hc : c.isNumeric = true)
    (h : tag.stackClass g = c) :
    ∃ t p, tag = .value t ∧ (g.type t).primitive? = some p ∧ p.stackClass = c := by
  subst h
  cases tag with
  | null => cases hc
  | address => cases hc
  | value t =>
    cases hk : (g.type t).kind with
    | primitive p => exact ⟨t, p, rfl, by rw [TypeEntry.primitive?, hk], by rw [stackClass, hk]⟩
    | enumType p => exact ⟨t, p, rfl, by rw [TypeEntry.primitive?, hk], by rw [stackClass, hk]⟩
    | _ => simp [stackClass, hk, StackClass.isNumeric] at hc

theorem isReference_of_primitive? {t : TypeEntry} {p : Primitive} (h : t.primitive? = some p) :
    t.isReference = false := by
  cases href : t.isReference with
  | false => rfl
  | true =>
    rw [TypeGraph.primitive?_of_isReference href] at h
    cases h

theorem isValueType_of_primitive? {t : TypeEntry} {p : Primitive} (h : t.primitive? = some p) :
    t.isValueType = true := by
  cases hk : t.kind <;> simp_all [TypeEntry.primitive?, TypeEntry.isValueType]

/-- Nothing is a subtype of a value type but the type itself. -/
theorem isSubtype_valueType {a b : TypeId} (hab : a ≠ b) (hb : (g.type b).isValueType = true) :
    g.isSubtype a b = false := by
  rw [TypeGraph.isSubtype]
  cases g.types.size with
  | zero => exact beq_eq_false_iff_ne.mpr hab
  | succ depth =>
    rw [TypeGraph.isSubtypeWithin, if_neg (by rwa [beq_iff_eq])]
    simp only [hb, Bool.or_true, if_true]

/-- What a number may be used as is any number of its class. -/
theorem isAssignable_of_numeric {a b : TypeTag} {c : StackClass} (hc : c.isNumeric = true)
    (ha : a.stackClass g = c) : a.isAssignable g b = true ↔ b.stackClass g = c := by
  obtain ⟨t, p, rfl, hp, hpc⟩ := exists_primitive hc ha
  have href := isReference_of_primitive? hp
  constructor
  · intro h
    -- Only a value accepts a number: the same one, or a primitive of its class.
    cases b with
    | null => cases h
    | address => cases h
    | value u =>
      rw [isAssignable, TypeGraph.sharePrimitiveClass, hp, Bool.or_eq_true] at h
      rcases h with heq | hshare
      · rw [← eq_of_beq heq, ha]
      · cases hq : (g.type u).primitive? with
        | none => simp [hq, href] at hshare
        | some q =>
          have hpq : p.stackClass = q.stackClass := by simpa [hq] using hshare
          rw [stackClass_of_primitive? hq, ← hpq, hpc]
  · intro hb
    obtain ⟨u, q, rfl, hq, hqc⟩ := exists_primitive hc hb
    rw [isAssignable, TypeGraph.sharePrimitiveClass, hp, hq]
    simp [hpc, hqc]

/-- What may be used as a number is any number of its class. -/
theorem isAssignable_to_numeric {a b : TypeTag} {c : StackClass} (hc : c.isNumeric = true)
    (hb : b.stackClass g = c) : a.isAssignable g b = true ↔ a.stackClass g = c := by
  constructor
  · intro h
    obtain ⟨u, q, rfl, hq, hqc⟩ := exists_primitive hc hb
    cases a with
    | null =>
      have href : (g.type u).isReference = true := h
      rw [isReference_of_primitive? hq] at href
      cases href
    | address => cases h
    | value t =>
      by_cases htu : t = u
      · rw [htu, hb]
      · rw [isAssignable, TypeGraph.sharePrimitiveClass, hq, Bool.or_eq_true] at h
        rcases h with heq | hshare
        · exact absurd (eq_of_beq heq) htu
        · cases hp : (g.type t).primitive? with
          | none =>
            simp [hp, isSubtype_valueType htu (isValueType_of_primitive? hq)] at hshare
          | some p =>
            rw [stackClass_of_primitive? hp, ← hqc]
            simpa [hp] using hshare
  · intro ha
    exact (isAssignable_of_numeric hc ha).mpr hb

end TypeTag

/-! ## § Requirements -/

namespace Expect

variable {g : TypeGraph}

/-- A value type is received by value, and the slot holds it although it is not assignable to what a
receiver has to be. -/
def ByValueClash (g : TypeGraph) (e : Expect) (found verified : TypeTag) : Prop :=
  ∃ owner, e = .instanceOf owner ∧ (g.type owner).isValueType = true ∧ verified = .value owner ∧
    found ≠ .value owner

/-- What may be used as an array is an array, and if it is another one then of related references. -/
theorem element_of_assignable (hg : g.Closed) (hl : g.Lawful) {t u f : TypeId} (ht : g.Knows t)
    (hab : (TypeTag.value t).isAssignable g (.value u) = true) (hf : (g.type u).element? = some f) :
    t = u ∨ ∃ e, (g.type t).element? = some e ∧ (g.type e).isReference = true ∧ g.Subtype e f := by
  have hkind := TypeEntry.element?_eq_some.mp hf
  rcases (TypeTag.isAssignable_value_iff hg hl ht).mp hab with rfl | hsame | ⟨-, -, hsub⟩
  · exact .inl rfl
  · obtain ⟨-, q, -, hq, -⟩ := hsame
    rw [TypeEntry.primitive?, hkind] at hq
    cases hq
  · cases hsub with
    | refl => exact .inl rfl
    | array he hf' href hsub =>
      cases hkind.symm.trans hf'
      exact .inr ⟨_, TypeEntry.element?_eq_some.mpr he, href, hsub⟩
    | root _ hclass => cases hkind.symm.trans hclass
    | path _ _ hnone => cases hf.symm.trans hnone

theorem isArrayOf_value_iff {element t : TypeId} :
    isArrayOf g element (.value t) = true ↔ ∃ e, (g.type t).element? = some e ∧
      (TypeTag.value e).isAssignable g (.value element) = true ∧
      (g.type e).isValueType = (g.type element).isValueType := by
  simp only [isArrayOf, Option.any_eq_true, Bool.and_eq_true, beq_iff_eq]

theorem isArrayOf_of_assignable (hg : g.Closed) (hl : g.Lawful) {element : TypeId} {a b : TypeTag}
    (ha : a.Known g) (hab : a.isAssignable g b = true) (h : isArrayOf g element b = true) :
    isArrayOf g element a = true := by
  cases a with
  | null => rfl
  | address =>
    cases b with
    | null => cases hab
    | value => cases hab
    | address => cases h
  | value t =>
    cases b with
    | null => cases hab
    | address => cases hab
    | value u =>
      have hkt := TypeTag.known_value.mp ha
      obtain ⟨f, hf, hassignable, hside⟩ := isArrayOf_value_iff.mp h
      rcases element_of_assignable hg hl hkt hab hf with rfl | ⟨e, he, href, hsub⟩
      · exact h
      · have hke : g.Knows e := hg.inner_known (by rw [TypeEntry.element?_eq_some.mp he]; rfl)
        have hkf : g.Knows f := hg.inner_known (by rw [TypeEntry.element?_eq_some.mp hf]; rfl)
        have hfref : (g.type f).isReference = true := by
          by_cases hef : e = f
          · rwa [← hef]
          · exact hsub.super_reference hl hef
        have hef : (TypeTag.value e).isAssignable g (.value f) = true :=
          (TypeTag.isAssignable_value_iff hg hl hke).mpr (.inr (.inr ⟨href, hfref, hsub⟩))
        refine isArrayOf_value_iff.mpr ⟨e, he, ?_, ?_⟩
        · exact TypeTag.isAssignable_trans hg hl (TypeTag.known_value.mpr hke)
            (TypeTag.known_value.mpr hkf) hef hassignable
        · -- Both elements are references, so they are on the same side as the one that was asked for.
          rw [← hside, TypeGraph.isValueType_of_isReference href,
            TypeGraph.isValueType_of_isReference hfref]

theorem isArray_of_assignable (hg : g.Closed) (hl : g.Lawful) {a b : TypeTag}
    (ha : a.Known g) (hab : a.isAssignable g b = true) (h : isArray g b = true) :
    isArray g a = true := by
  cases a with
  | null => rfl
  | address =>
    cases b with
    | null => cases hab
    | value => cases hab
    | address => cases h
  | value t =>
    cases b with
    | null => cases hab
    | address => cases hab
    | value u =>
      obtain ⟨f, hf⟩ := Option.isSome_iff_exists.mp h
      rcases element_of_assignable hg hl (TypeTag.known_value.mp ha) hab hf with rfl | ⟨e, he, -, -⟩
      · exact h
      · exact Option.isSome_iff_exists.mpr ⟨e, he⟩

/-- A receiver by value is the one requirement that an assignable slot may fail. -/
theorem accepts_instanceOf_iff (hg : g.Closed) (hl : g.Lawful) {owner : TypeId} {a b : TypeTag}
    (ha : a.Known g) (hb : b.Known g) (hab : a.isAssignable g b = true)
    (h : (instanceOf owner).accepts g b = true) :
    (instanceOf owner).accepts g a = true ↔ ¬ ByValueClash g (.instanceOf owner) a b := by
  have htrans : ∀ {c}, b.isAssignable g c = true → a.isAssignable g c = true :=
    fun hbc => TypeTag.isAssignable_trans hg hl ha hb hab hbc
  rw [accepts, Bool.or_eq_true, beq_iff_eq] at h ⊢
  cases hvalue : (g.type owner).isValueType with
  | false =>
    simp only [isReceiver, hvalue] at h ⊢
    have hbo : b.isAssignable g (.value owner) = true := by
      rcases h with h | rfl
      · exact h
      · exact TypeTag.isAssignable_refl g _
    constructor
    · rintro - ⟨owner', heq, hvalue', -⟩
      cases heq
      cases hvalue.symm.trans hvalue'
    · intro _
      exact .inl (htrans hbo)
  | true =>
    simp only [isReceiver, hvalue] at h ⊢
    rcases h with hbo | rfl
    · -- The verified slot holds an address, and so does the other one.
      constructor
      · rintro - ⟨owner', heq, -, rfl, -⟩
        cases hbo
      · intro _
        exact .inl (htrans hbo)
    · -- The verified slot holds the owner itself: any other slot is either refused or an address.
      constructor
      · rintro (haddress | rfl) ⟨owner', heq, -, hverified, hne⟩
        · cases a with
          | null => cases haddress
          | value => cases haddress
          | address => cases hab
        · cases heq
          exact hne rfl
      · intro hclash
        right
        by_contra hne
        exact hclash ⟨owner, rfl, hvalue, rfl, hne⟩

/-- **`accepts_iff`** — what accepts a slot accepts every slot assignable to it, short of a clash. -/
theorem accepts_iff (hg : g.Closed) (hl : g.Lawful) {e : Expect} {a b : TypeTag} (ha : a.Known g)
    (hb : b.Known g) (hab : a.isAssignable g b = true) (h : e.accepts g b = true) :
    e.accepts g a = true ↔ ¬ ByValueClash g e a b := by
  by_cases hinstance : ∃ owner, e = .instanceOf owner
  · obtain ⟨owner, rfl⟩ := hinstance
    exact accepts_instanceOf_iff hg hl ha hb hab h
  · have hclash : ¬ ByValueClash g e a b := fun ⟨owner, heq, _⟩ => hinstance ⟨owner, heq⟩
    refine iff_of_true ?_ hclash
    have hclass := TypeTag.stackClass_eq hg hl ha hab
    have htrans : ∀ {c}, b.isAssignable g c = true → a.isAssignable g c = true :=
      fun hbc => TypeTag.isAssignable_trans hg hl ha hb hab hbc
    cases e with
    | any => rfl
    | integer32 | index | integer | numeric | truthValue | reference =>
      simpa only [accepts, hclass] using h
    | assignable expected => exact htrans h
    | address t => exact htrans h
    | receiver owner => exact htrans h
    | instanceOf owner => exact absurd ⟨owner, rfl⟩ hinstance
    | arrayOf element => exact isArrayOf_of_assignable hg hl ha hab h
    | array => exact isArray_of_assignable hg hl ha hab h

end Expect

/-! ## § Results of operations on two operands -/

/-- The type of a number of the class when its operands do not agree on one. -/
def SystemTypes.ofClass? (s : SystemTypes) : StackClass → Option TypeId
  | .int32 => some s.int32
  | .int64 => some s.int64
  | .nativeInt => some s.intptr
  | .float => some s.double
  | .object | .valueType | .address => none

namespace PairRule

variable {g : TypeGraph} {system : SystemTypes}

/-- Exactly one of two pairs of operands of one class agrees on a type, and the system type that the other
pair yields is not of their class. -/
def MixedClash (g : TypeGraph) (system : SystemTypes) (left right left' right' : TypeTag) : Prop :=
  left.stackClass g = right.stackClass g ∧ ¬ (left = right ↔ left' = right') ∧
    ∃ t ∈ system.ofClass? (left.stackClass g), (TypeTag.value t).stackClass g ≠ left.stackClass g

/-- The common type of two numbers of one class fits that of two others, short of a clash. -/
theorem common_iff {left right left' right' : TypeTag} {c : StackClass} (hc : c.isNumeric = true)
    {t : TypeId} (ht : system.ofClass? c = some t) (hl : left.stackClass g = c)
    (hr : right.stackClass g = c) (hl' : left'.stackClass g = c) :
    (if left = right then left else .value t).isAssignable g
        (if left' = right' then left' else .value t) = true ↔
      ¬ MixedClash g system left right left' right' := by
  have hclash : MixedClash g system left right left' right' ↔
      ¬ (left = right ↔ left' = right') ∧ (TypeTag.value t).stackClass g ≠ c := by
    simp [MixedClash, hl, hr, ht]
  rw [hclash]
  by_cases heq : left = right
  · by_cases heq' : left' = right'
    · rw [if_pos heq, if_pos heq', TypeTag.isAssignable_of_numeric hc hl]
      exact iff_of_true hl' fun h => h.1 (iff_of_true heq heq')
    · rw [if_pos heq, if_neg heq', TypeTag.isAssignable_of_numeric hc hl]
      simp [heq, heq']
  · by_cases heq' : left' = right'
    · rw [if_neg heq, if_pos heq', TypeTag.isAssignable_to_numeric hc hl']
      simp [heq, heq']
    · rw [if_neg heq, if_neg heq']
      exact iff_of_true (TypeTag.isAssignable_refl g _) fun h => h.1 (iff_of_false heq heq')

/-- Operands of two classes, or of a class that is not numeric, do not clash. -/
theorem not_mixedClash {left right left' right' : TypeTag}
    (h : left.stackClass g ≠ right.stackClass g ∨ system.ofClass? (left.stackClass g) = none) :
    ¬ MixedClash g system left right left' right' := by
  rintro ⟨hsame, -, t, ht, -⟩
  rcases h with hne | hnone
  · exact hne hsame
  · cases hnone.symm.trans ht

/-- **`result?_iff`** — a rule with a result for two operands has one for all operands assignable to them,
which fits it short of a clash. -/
theorem result?_iff (hg : g.Closed) (hl : g.Lawful) {rule : PairRule}
    {left right left' right' : TypeTag} (hkl : left.Known g) (hkr : right.Known g)
    (hal : left.isAssignable g left' = true) (har : right.isAssignable g right' = true)
    {tag' : TypeTag} (h : rule.result? g system left' right' = some tag') :
    ∃ tag, rule.result? g system left right = some tag ∧
      (rule ≠ .comparison → (tag.isAssignable g tag' = true ↔
        ¬ MixedClash g system left right left' right')) := by
  have hcl := TypeTag.stackClass_eq hg hl hkl hal
  have hcr := TypeTag.stackClass_eq hg hl hkr har
  cases rule with
  | comparison =>
    rw [result?, Option.ite_none_right_eq_some] at h
    refine ⟨.value system.int32, ?_, fun hne => absurd rfl hne⟩
    rw [result?, hcl, hcr, if_pos h.1]
  | arithmetic addresses floats =>
    -- Both pairs are of the same classes, so the rule decides both in the same way.
    simp only [result?, arithmeticResult, hcl, hcr] at h ⊢
    have hleft : left'.stackClass g ≠ right'.stackClass g →
        (left.isAssignable g left' = true ↔ ¬ MixedClash g system left right left' right') :=
      fun hne => iff_of_true hal (not_mixedClash (.inl (by rwa [hcl, hcr])))
    have hright : left'.stackClass g ≠ right'.stackClass g →
        (right.isAssignable g right' = true ↔ ¬ MixedClash g system left right left' right') :=
      fun hne => iff_of_true har (not_mixedClash (.inl (by rwa [hcl, hcr])))
    split at h
    · rename_i hl' hr'
      cases h
      exact ⟨_, rfl, fun _ => common_iff rfl rfl (hcl.trans hl') (hcr.trans hr') hl'⟩
    · rename_i hl' hr'
      cases h
      exact ⟨_, rfl, fun _ => common_iff rfl rfl (hcl.trans hl') (hcr.trans hr') hl'⟩
    · rename_i hl' hr'
      cases h
      exact ⟨_, rfl, fun _ => common_iff rfl rfl (hcl.trans hl') (hcr.trans hr') hl'⟩
    · rename_i hl' hr'
      cases h
      exact ⟨right, rfl, fun _ => hright (by rw [hl', hr']; decide)⟩
    · rename_i hl' hr'
      cases h
      exact ⟨left, rfl, fun _ => hleft (by rw [hl', hr']; decide)⟩
    · rename_i hl' hr'
      obtain ⟨hfloats, heq⟩ := Option.ite_none_right_eq_some.mp h
      cases heq
      exact ⟨_, if_pos hfloats, fun _ => common_iff rfl rfl (hcl.trans hl') (hcr.trans hr') hl'⟩
    · rename_i hl' hr'
      obtain ⟨haddresses, heq⟩ := Option.ite_none_right_eq_some.mp h
      cases heq
      exact ⟨left, if_pos haddresses, fun _ => hleft (by rw [hl', hr']; decide)⟩
    · rename_i hl' hr'
      obtain ⟨haddresses, heq⟩ := Option.ite_none_right_eq_some.mp h
      cases heq
      exact ⟨left, if_pos haddresses, fun _ => hleft (by rw [hl', hr']; decide)⟩
    · rename_i hl' hr'
      obtain ⟨haddresses, heq⟩ := Option.ite_none_right_eq_some.mp h
      cases heq
      exact ⟨right, if_pos haddresses, fun _ => hright (by rw [hl', hr']; decide)⟩
    · rename_i hl' hr'
      obtain ⟨haddresses, heq⟩ := Option.ite_none_right_eq_some.mp h
      cases heq
      exact ⟨right, if_pos haddresses, fun _ => hright (by rw [hl', hr']; decide)⟩
    · rename_i hl' hr'
      obtain ⟨haddresses, heq⟩ := Option.ite_none_right_eq_some.mp h
      cases heq
      -- The difference of two addresses is a native integer whatever they refer to.
      refine ⟨_, if_pos haddresses, fun _ => iff_of_true (TypeTag.isAssignable_refl g _) ?_⟩
      exact not_mixedClash (.inr (by rw [hcl, hl']; rfl))
    · cases h

end PairRule

/-! ## § Effects without exceptions -/

/-- An effect that neither takes a receiver by value nor pushes what a pair rule computed. -/
structure StackEffect.IsPlain (effect : StackEffect) : Prop where
  no_instance : ∀ owner, Expect.instanceOf owner ∉ effect.pops
  no_arithmetic : Produce.arithmetic ∉ effect.pushes

namespace StackEffect

variable {g : TypeGraph} {system : SystemTypes}

theorem isPlain_accessLocation (access : Access) (t : TypeId) : (accessLocation g access t).IsPlain := by
  cases access <;> constructor <;> simp [accessLocation, push, pop]

theorem isPlain_accessElement (access : Access) (t : TypeId) : (accessElement g access t).IsPlain := by
  cases access <;> constructor <;> simp [accessElement, replace]

theorem instanceOf_not_mem_popArguments (parameters : List TypeId) (owner : TypeId) :
    Expect.instanceOf owner ∉ popArguments g parameters := by
  simp [popArguments]

theorem isPlain_callMethod (ctx : MethodContext) (isVirtual : Bool) (m : MethodEntry) :
    (callMethod g ctx isVirtual m).IsPlain := by
  constructor
  · intro owner hmem
    rcases List.mem_append.mp hmem with hmem | hmem
    · exact instanceOf_not_mem_popArguments _ _ hmem
    · split at hmem
      · cases hmem
      · split at hmem
        · split at hmem <;> simp at hmem
        · simp at hmem
  · simp [callMethod]

/-- Slots assignable to accepted ones are accepted where no receiver is taken by value. -/
theorem accepts_of_compatible (hg : g.Closed) (hl : g.Lawful) {pops : List Expect}
    {s r : List TypeTag} (hplain : ∀ owner, Expect.instanceOf owner ∉ pops)
    (hs : ∀ tag ∈ s, tag.Known g) (hr : ∀ tag ∈ r, tag.Known g)
    (h : List.Forall₂ (fun a b => a.isAssignable g b = true) s r)
    (hok : List.Forall₂ (fun e tag => e.accepts g tag = true) pops r) :
    List.Forall₂ (fun e tag => e.accepts g tag = true) pops s := by
  induction h generalizing pops with
  | nil =>
    cases hok
    exact .nil
  | cons hab _ ih =>
    cases hok with
    | cons haccepts hrest =>
      obtain ⟨hka, hks⟩ := List.forall_mem_cons.mp hs
      obtain ⟨hkb, hkr⟩ := List.forall_mem_cons.mp hr
      -- Without a receiver by value there is nothing to clash with.
      refine .cons ((Expect.accepts_iff hg hl hka hkb hab haccepts).mpr ?_) (ih ?_ hks hkr hrest)
      · rintro ⟨owner, rfl, -⟩
        exact hplain owner List.mem_cons_self
      · exact fun owner hmem => hplain owner (List.mem_cons_of_mem _ hmem)

/-- A pair rule that holds of two slots holds of any assignable to them. -/
theorem checkPair_of_compatible (hg : g.Closed) (hl : g.Lawful) {rule : Option PairRule}
    {s r : List TypeTag} {pair : Option TypeTag} (hs : ∀ tag ∈ s, tag.Known g)
    (h : List.Forall₂ (fun a b => a.isAssignable g b = true) s r)
    (hok : checkPair g system rule r = .ok pair) : ∃ pair', checkPair g system rule s = .ok pair' := by
  cases rule with
  | none => exact ⟨none, rfl⟩
  | some rule =>
    cases h with
    | nil => exact ⟨none, rfl⟩
    | cons har htail =>
      cases htail with
      | nil => exact ⟨none, rfl⟩
      | cons hal _ =>
        obtain ⟨hkr, hrest⟩ := List.forall_mem_cons.mp hs
        obtain ⟨hkl, -⟩ := List.forall_mem_cons.mp hrest
        simp only [checkPair, PairRule.result] at hok ⊢
        split at hok
        · rename_i tag' htag'
          obtain ⟨tag, htag, -⟩ := PairRule.result?_iff hg hl hkl hkr hal har htag'
          exact ⟨some tag, by rw [htag]; rfl⟩
        · cases hok

/-- Results that do not come from a pair rule resolve to compatible slots. -/
theorem resolve_of_compatible {pushes : List Produce} {s r pushed : List TypeTag}
    (pair pair' : Option TypeTag) (hplain : Produce.arithmetic ∉ pushes)
    (h : List.Forall₂ (fun a b => a.isAssignable g b = true) s r)
    (hok : List.Forall₂ (fun p tag => resolveProduce r pair p = .ok tag) pushes pushed) :
    ∃ pushed', List.Forall₂ (fun p tag => resolveProduce s pair' p = .ok tag) pushes pushed' ∧
      List.Forall₂ (fun a b => a.isAssignable g b = true) pushed' pushed := by
  induction hok with
  | nil => exact ⟨[], .nil, .nil⟩
  | @cons p tag pushes pushed hp _ ih =>
    obtain ⟨pushed', hresolve, hcompatible⟩ := ih fun hmem => hplain (List.mem_cons_of_mem p hmem)
    cases p with
    | arithmetic => exact absurd List.mem_cons_self hplain
    | type tag' =>
      cases hp
      exact ⟨tag :: pushed', .cons rfl hresolve, .cons (tag.isAssignable_refl g) hcompatible⟩
    | popped position =>
      -- The slot at the same position is assignable to this one.
      cases hget : r[position]? with
      | none => simp [resolveProduce, hget] at hp
      | some tag' =>
        rw [resolveProduce, hget] at hp
        cases hp
        obtain ⟨hlt, htag⟩ := List.getElem?_eq_some_iff.mp hget
        have hlt' : position < s.length := by rwa [h.length_eq]
        refine ⟨s[position] :: pushed', .cons ?_ hresolve, .cons ?_ hcompatible⟩
        · rw [resolveProduce, List.getElem?_eq_getElem hlt']
        · have hget' := h.get hlt' hlt
          rwa [List.get_eq_getElem, List.get_eq_getElem, htag] at hget'

/-- **`apply_of_compatible`** — a plain effect on compatible slots leaves compatible slots. -/
theorem apply_of_compatible (hg : g.Closed) (hl : g.Lawful) {effect : StackEffect}
    (hplain : effect.IsPlain) {s r out : List TypeTag} (hs : ∀ tag ∈ s, tag.Known g)
    (hr : ∀ tag ∈ r, tag.Known g) (h : AbstractStack.slotsCompatible g s r = true)
    (hok : effect.apply g system r = .ok out) :
    ∃ out', effect.apply g system s = .ok out' ∧ AbstractStack.slotsCompatible g out' out = true := by
  rw [AbstractStack.slotsCompatible_iff] at h
  obtain ⟨hdepth, hpops, pair, pushed, hpair, hpushed, rfl⟩ := apply_ok_iff.mp hok
  have htake := List.forall₂_take effect.pops.length h
  have hdrop := List.forall₂_drop effect.pops.length h
  have hks : ∀ tag ∈ s.take effect.pops.length, tag.Known g :=
    fun tag htag => hs tag (List.mem_of_mem_take htag)
  have hkr : ∀ tag ∈ r.take effect.pops.length, tag.Known g :=
    fun tag htag => hr tag (List.mem_of_mem_take htag)
  obtain ⟨pair', hpair'⟩ := checkPair_of_compatible hg hl hks htake hpair
  obtain ⟨pushed', hpushed', hcompatible⟩ :=
    resolve_of_compatible pair pair' hplain.no_arithmetic htake hpushed
  refine ⟨pushed'.reverse ++ s.drop effect.pops.length, apply_ok_iff.mpr ⟨?_, ?_, ?_⟩, ?_⟩
  · rwa [h.length_eq]
  · exact accepts_of_compatible hg hl hplain.no_instance hks hkr htake hpops
  · exact ⟨pair', pushed', hpair', hpushed', rfl⟩
  · exact AbstractStack.slotsCompatible_iff.mpr
      (List.rel_append (List.forall₂_reverse_iff.mpr hcompatible) hdrop)

end StackEffect

/-- All branches have plain effects. -/
theorem Branch.isPlain_effect {Target : Type} (g : TypeGraph) (ctx : MethodContext)
    (branch : Branch Target) : (branch.effect g ctx).IsPlain := by
  cases branch with
  | ret =>
    simp only [effect]
    split <;> constructor <;> simp [StackEffect.pop, StackEffect.nothing]
  | _ => constructor <;> simp [effect, StackEffect.pop, StackEffect.nothing, StackEffect.binary]

/-- So have all instructions but those that read a field or compute with two operands. -/
theorem Instruction.isPlain_effect {g : TypeGraph} {ctx : MethodContext} {insn : Instruction}
    {e : StackEffect} (hfield : ∀ f, insn ≠ .instanceField .load f) (hbinary : ∀ op, insn ≠ .binary op)
    (hok : insn.effect g ctx = .ok e) : e.IsPlain := by
  have hreplace : ∀ {pops tag}, (∀ owner, Expect.instanceOf owner ∉ pops) →
      (StackEffect.replace pops tag).IsPlain := fun hpops => ⟨hpops, by simp [StackEffect.replace]⟩
  cases insn with
  | binary op => exact absurd rfl (hbinary op)
  | argument access index =>
    obtain ⟨t, -, heq⟩ := Except.bind_eq_ok_iff.mp hok
    cases heq
    exact StackEffect.isPlain_accessLocation access t
  | localVariable access index =>
    obtain ⟨t, -, heq⟩ := Except.bind_eq_ok_iff.mp hok
    cases heq
    exact StackEffect.isPlain_accessLocation access t
  | instanceField access f =>
    simp only [effect] at hok
    split at hok
    · cases hok
    · cases hok
      cases access with
      | load => exact absurd rfl (hfield f)
      | address => exact hreplace (by simp)
      | store => constructor <;> simp [StackEffect.accessField]
  | staticField access f =>
    simp only [effect] at hok
    split at hok
    · cases hok
      exact StackEffect.isPlain_accessLocation access _
    · cases hok
  | element access t =>
    cases hok
    exact StackEffect.isPlain_accessElement access t
  | newobj m =>
    simp only [effect] at hok
    split at hok
    · cases hok
      exact hreplace fun owner => StackEffect.instanceOf_not_mem_popArguments _ owner
    · cases hok
  | call m =>
    cases hok
    exact StackEffect.isPlain_callMethod ctx false _
  | callvirt m =>
    simp only [effect] at hok
    split at hok
    · cases hok
    · cases hok
      exact StackEffect.isPlain_callMethod ctx true _
  | conv target checked unsigned =>
    simp only [effect] at hok
    split at hok
    · cases hok
    · split at hok
      · cases hok
      · cases hok
        exact hreplace (by simp)
  | ldind t | ldvirtftn m =>
    simp only [effect] at hok
    split at hok
    · cases hok
    · cases hok
      exact hreplace (by simp)
  | unbox t =>
    simp only [effect] at hok
    split at hok
    · cases hok
      exact hreplace (by simp)
    · cases hok
  | stind t =>
    simp only [effect] at hok
    split at hok
    · cases hok
    · cases hok
      constructor <;> simp
  | _ =>
    cases hok
    constructor <;> simp [StackEffect.push, StackEffect.pop, StackEffect.nothing, StackEffect.replace,
      StackEffect.binary]

/-! ## § Verified once -/

/-- A field is read from a value type by value, and the slot is not of exactly that type. -/
def Instruction.ByValueClash (g : TypeGraph) (s r : List TypeTag) : Instruction → Prop
  | .instanceField .load f =>
    (g.type (g.field f).owner).isValueType = true ∧
      r.head? = some (.value (g.field f).owner) ∧ s.head? ≠ r.head?
  | _ => False

/-- Two operands of one class that agree on a type stand for two that do not, or the other way round, and
the system type of the class is not of that class. -/
def Instruction.MixedClash (g : TypeGraph) (system : SystemTypes) (s r : List TypeTag) :
    Instruction → Prop
  | .binary _ => ∃ right left right' left', s.take 2 = [right, left] ∧ r.take 2 = [right', left'] ∧
      PairRule.MixedClash g system left right left' right'
  | _ => False

namespace AbstractStack

variable {g : TypeGraph} {ctx : MethodContext} {s r : List TypeTag}

/-- A straight-line instruction with a plain effect has no exception. -/
theorem step_of_plain (hg : g.Closed) (hl : g.Lawful) {insn : Instruction}
    (hs : ∀ tag ∈ s, tag.Known g) (hr : ∀ tag ∈ r, tag.Known g) (h : slotsCompatible g s r = true)
    (hplain : ∀ e, insn.effect g ctx = .ok e → e.IsPlain) {after : AbstractStack}
    (hok : (reachable r).step g ctx insn = .ok after) :
    ∃ after', (reachable s).step g ctx insn = .ok after' ∧ isCompatible g after' after = true := by
  obtain ⟨e, out, he, hout, rfl⟩ := step_ok_iff.mp hok
  obtain ⟨out', hout', hcompatible⟩ :=
    StackEffect.apply_of_compatible hg hl (hplain e he) hs hr h hout
  exact ⟨.reachable out', step_ok_iff.mpr ⟨e, out', he, hout', rfl⟩, hcompatible⟩

/-- When a field of an instance can be read. -/
theorem step_load_ok_iff {f : FieldId} {slots : List TypeTag} {after : AbstractStack} :
    (reachable slots).step g ctx (.instanceField .load f) = .ok after ↔
      (g.field f).isStatic = false ∧ ∃ top rest, slots = top :: rest ∧
        (Expect.instanceOf (g.field f).owner).accepts g top = true ∧
        after = .reachable (.ofType g (g.field f).type :: rest) := by
  cases hstatic : (g.field f).isStatic with
  | true =>
    rw [step_ok_iff, Instruction.effect, hstatic]
    simp
  | false =>
    have heffect : (Instruction.instanceField .load f).effect g ctx =
        .ok (.replace [.instanceOf (g.field f).owner] (.ofType g (g.field f).type)) := by
      rw [Instruction.effect, hstatic]
      rfl
    rw [step_replace_iff heffect]
    exact (and_iff_right rfl).symm

/-- When two operands can be combined. -/
theorem step_binary_ok_iff {op : BinaryOp} {slots : List TypeTag} {after : AbstractStack} :
    (reachable slots).step g ctx (.binary op) = .ok after ↔
      ∃ right left rest tag, slots = right :: left :: rest ∧
        op.rule.result? g ctx.system left right = some tag ∧ after = .reachable (tag :: rest) := by
  rw [step_ok_iff]
  constructor
  · rintro ⟨e, out, heq, hout, rfl⟩
    cases heq
    obtain ⟨right, left, rest, tag, rfl, htag, rfl⟩ := StackEffect.apply_binary_iff.mp hout
    exact ⟨right, left, rest, tag, rfl, htag, rfl⟩
  · rintro ⟨right, left, rest, tag, rfl, htag, rfl⟩
    exact ⟨_, _, rfl, StackEffect.apply_binary_iff.mpr ⟨right, left, rest, tag, rfl, htag, rfl⟩, rfl⟩

/-- Reading a field: only a receiver by value may be refused. -/
theorem step_load_substitution (hg : g.Closed) (hl : g.Lawful) {f : FieldId}
    (hs : ∀ tag ∈ s, tag.Known g) (hr : ∀ tag ∈ r, tag.Known g) (h : slotsCompatible g s r = true)
    {after : AbstractStack} (hok : (reachable r).step g ctx (.instanceField .load f) = .ok after) :
    ((∃ after', (reachable s).step g ctx (.instanceField .load f) = .ok after') ↔
        ¬ (Instruction.instanceField .load f).ByValueClash g s r) ∧
      ∀ after', (reachable s).step g ctx (.instanceField .load f) = .ok after' →
        isCompatible g after' after = true := by
  obtain ⟨hstatic, top', rest', rfl, haccepts, rfl⟩ := step_load_ok_iff.mp hok
  cases s with
  | nil => cases h
  | cons top rest =>
    rw [slotsCompatible, Bool.and_eq_true] at h
    have hiff := Expect.accepts_iff hg hl (List.forall_mem_cons.mp hs).1
      (List.forall_mem_cons.mp hr).1 h.1 haccepts
    have hclash : (Instruction.instanceField .load f).ByValueClash g (top :: rest) (top' :: rest') ↔
        Expect.ByValueClash g (.instanceOf (g.field f).owner) top top' := by
      simp only [Instruction.ByValueClash, List.head?_cons, Option.some.injEq]
      constructor
      · rintro ⟨hvalue, htop', hne⟩
        exact ⟨_, rfl, hvalue, htop', fun heq => hne (by rw [heq, htop'])⟩
      · rintro ⟨owner, heq, hvalue, htop', hne⟩
        cases heq
        exact ⟨hvalue, htop', fun heq => hne ((Option.some.inj heq).trans htop')⟩
    constructor
    · rw [hclash, ← hiff]
      constructor
      · rintro ⟨after', hok'⟩
        obtain ⟨-, top'', rest'', heq, haccepts', -⟩ := step_load_ok_iff.mp hok'
        cases heq
        exact haccepts'
      · intro haccepts'
        exact ⟨_, step_load_ok_iff.mpr ⟨hstatic, top, rest, rfl, haccepts', rfl⟩⟩
    · intro after' hok'
      obtain ⟨-, top'', rest'', heq, -, rfl⟩ := step_load_ok_iff.mp hok'
      cases heq
      rw [isCompatible, slotsCompatible, TypeTag.isAssignable_refl, Bool.true_and]
      exact h.2

/-- Combining two operands: never refused, and only the common type may not fit. -/
theorem step_binary_substitution (hg : g.Closed) (hl : g.Lawful) {op : BinaryOp}
    (hs : ∀ tag ∈ s, tag.Known g) (h : slotsCompatible g s r = true)
    {after : AbstractStack} (hok : (reachable r).step g ctx (.binary op) = .ok after) :
    ∃ after', (reachable s).step g ctx (.binary op) = .ok after' ∧
      (isCompatible g after' after = true ↔
        ¬ (Instruction.binary op).MixedClash g ctx.system s r) := by
  obtain ⟨right', left', rest', tag', rfl, htag', rfl⟩ := step_binary_ok_iff.mp hok
  match s, hs, h with
  | [], _, h => cases h
  | [_], _, h => simp [slotsCompatible] at h
  | right :: left :: rest, hs, h =>
    rw [slotsCompatible, slotsCompatible, Bool.and_eq_true, Bool.and_eq_true] at h
    obtain ⟨hkr, hks⟩ := List.forall_mem_cons.mp hs
    obtain ⟨hkl, -⟩ := List.forall_mem_cons.mp hks
    have hrule : op.rule ≠ .comparison := by cases op <;> decide
    obtain ⟨tag, htag, hiff⟩ := PairRule.result?_iff hg hl hkl hkr h.2.1 h.1 htag'
    refine ⟨_, step_binary_ok_iff.mpr ⟨right, left, rest, tag, rfl, htag, rfl⟩, ?_⟩
    have hclash : (Instruction.binary op).MixedClash g ctx.system (right :: left :: rest)
        (right' :: left' :: rest') ↔ PairRule.MixedClash g ctx.system left right left' right' := by
      constructor
      · rintro ⟨_, _, _, _, heq, heq', hclash⟩
        cases heq
        cases heq'
        exact hclash
      · intro hclash
        exact ⟨right, left, right', left', rfl, rfl, hclash⟩
    rw [hclash, ← hiff hrule, isCompatible, slotsCompatible, Bool.and_eq_true]
    exact ⟨fun hcompatible => hcompatible.1, fun htag => ⟨htag, h.2.2⟩⟩

/-- **`step_substitution`** — a straight-line instruction on a stack that fits the verified one. -/
theorem step_substitution (hg : g.Closed) (hl : g.Lawful) {insn : Instruction}
    (hs : ∀ tag ∈ s, tag.Known g) (hr : ∀ tag ∈ r, tag.Known g) (h : slotsCompatible g s r = true)
    {after : AbstractStack} (hok : (reachable r).step g ctx insn = .ok after) :
    ((∃ after', (reachable s).step g ctx insn = .ok after') ↔ ¬ insn.ByValueClash g s r) ∧
      ∀ after', (reachable s).step g ctx insn = .ok after' →
        (isCompatible g after' after = true ↔ ¬ insn.MixedClash g ctx.system s r) := by
  by_cases hfield : ∃ f, insn = .instanceField .load f
  · obtain ⟨f, rfl⟩ := hfield
    obtain ⟨haccepted, hcompatible⟩ := step_load_substitution hg hl hs hr h hok
    exact ⟨haccepted, fun after' hok' => iff_of_true (hcompatible after' hok') id⟩
  · by_cases hbinary : ∃ op, insn = .binary op
    · obtain ⟨op, rfl⟩ := hbinary
      obtain ⟨out, hout, hiff⟩ := step_binary_substitution hg hl hs h hok
      refine ⟨iff_of_true ⟨out, hout⟩ id, ?_⟩
      intro after' hok'
      cases hout.symm.trans hok'
      exact hiff
    · -- All other instructions have plain effects, and neither clash is about them.
      have hplain : ∀ e, insn.effect g ctx = .ok e → e.IsPlain := fun e he =>
        Instruction.isPlain_effect (fun f hf => hfield ⟨f, hf⟩) (fun op hop => hbinary ⟨op, hop⟩) he
      have hvalue : ¬ insn.ByValueClash g s r := by
        intro hclash
        unfold Instruction.ByValueClash at hclash
        split at hclash
        · exact hfield ⟨_, rfl⟩
        · exact hclash
      have hmixed : ¬ insn.MixedClash g ctx.system s r := by
        intro hclash
        unfold Instruction.MixedClash at hclash
        split at hclash
        · exact hbinary ⟨_, rfl⟩
        · exact hclash
      obtain ⟨out, hout, hcompatible⟩ := step_of_plain hg hl hs hr h hplain hok
      refine ⟨iff_of_true ⟨out, hout⟩ hvalue, ?_⟩
      intro after' hok'
      cases hout.symm.trans hok'
      exact iff_of_true hcompatible hmixed

/-- A branch on a stack that fits the verified one. -/
theorem jump_substitution (hg : g.Closed) (hl : g.Lawful) {Target : Type} {branch : Branch Target}
    (hs : ∀ tag ∈ s, tag.Known g) (hr : ∀ tag ∈ r, tag.Known g) (h : slotsCompatible g s r = true)
    {j : Jump} (hok : (reachable r).jump g ctx branch = .ok j) :
    ∃ j', (reachable s).jump g ctx branch = .ok j' ∧
      isCompatible g j'.delivered j.delivered = true ∧ isCompatible g j'.next j.next = true := by
  obtain ⟨out, hout, rfl⟩ := jump_ok_iff.mp hok
  obtain ⟨out', hout', hcompatible⟩ :=
    StackEffect.apply_of_compatible hg hl (branch.isPlain_effect g ctx) hs hr h hout
  refine ⟨.after branch out', jump_ok_iff.mpr ⟨out', hout', rfl⟩, ?_, ?_⟩
  · unfold Jump.after
    dsimp only
    split
    · rfl
    · exact hcompatible
  · unfold Jump.after
    dsimp only
    split
    · rfl
    · exact hcompatible

end AbstractStack

/-- **`verified_once`** — what was accepted on a stack is accepted on every stack compatible with it, and
leaves compatible stacks, for all branches; and for all straight-line instructions if and only if no
value type is read by value as another and no mixed operands get a type of another class. -/
theorem AbstractStack.verified_once {g : TypeGraph} (hb : g.Built) (hl : g.Lawful)
    (ctx : MethodContext) {s r : List TypeTag} (hs : (reachable s).Known g)
    (hr : (reachable r).Known g) (h : isCompatible g (reachable s) (reachable r) = true) :
    (∀ insn : Instruction, insn.Known g →
      ∀ after, (reachable r).step (g.withResultTypes insn) ctx insn = .ok after →
        ((∃ after', (reachable s).step (g.withResultTypes insn) ctx insn = .ok after') ↔
          ¬ insn.ByValueClash g s r) ∧
        ∀ after', (reachable s).step (g.withResultTypes insn) ctx insn = .ok after' →
          (isCompatible (g.withResultTypes insn) after' after = true ↔
            ¬ insn.MixedClash g ctx.system s r)) ∧
    (∀ {Target : Type} (branch : Branch Target) (j : Jump), (reachable r).jump g ctx branch = .ok j →
      ∃ j', (reachable s).jump g ctx branch = .ok j' ∧
        isCompatible g j'.delivered j.delivered = true ∧ isCompatible g j'.next j.next = true) := by
  have hg := hb.closed
  rw [known_reachable] at hs hr
  constructor
  · intro insn hi after hok
    have hext := g.extends_withResultTypes insn
    have hg' := hg.withResultTypes hi
    have hl' := hl.withResultTypes hg insn
    have hs' : ∀ tag ∈ s, tag.Known (g.withResultTypes insn) := fun tag htag => (hs tag htag).extend hext
    have hr' : ∀ tag ∈ r, tag.Known (g.withResultTypes insn) := fun tag htag => (hr tag htag).extend hext
    have h' : slotsCompatible (g.withResultTypes insn) s r = true := by
      rw [slotsCompatible_extend hext hg hg' hs hr]
      exact h
    have hsubstitution := step_substitution hg' hl' hs' hr' h' hok
    -- The clashes are about instructions that leave the graph as it is.
    cases insn <;> exact hsubstitution
  · intro Target branch j hok
    exact jump_substitution hg hl hs hr h hok

/-! ## § The integer's own field -/

namespace IntegerField

open SystemOnly (system)

/-- The graph of the system types, in which the 32-bit integer declares the field that holds it. -/
def graph : TypeGraph :=
  (SystemOnly.graph.addField system.int32 "m_value" system.int32 ⟨6⟩).2

/-- Reads that field. -/
def read : Instruction := .instanceField .load ⟨0⟩

theorem built : graph.Built := by
  refine .addField "m_value" ⟨6⟩ TypeGraph.Built.empty.addSystemTypes ?_ ?_
  · decide +kernel
  · decide +kernel

/-- Both 32-bit integers fit each other, and only one of them may be read. -/
theorem read_refuses_compatible :
    AbstractStack.isCompatible graph (.reachable [.value system.uint32])
        (.reachable [.value system.int32]) = true ∧
      (AbstractStack.reachable [.value system.int32]).step graph { system } read =
        .ok (.reachable [.value system.int32]) ∧
      (AbstractStack.reachable [.value system.uint32]).step graph { system } read =
        .error (.incompatibleOperand (.instanceOf system.int32) (.value system.uint32)) := by
  decide +kernel

theorem verified_once_read :
    (AbstractStack.reachable [.value system.uint32]).Known graph ∧
      (AbstractStack.reachable [.value system.int32]).Known graph ∧
      graph.Lawful ∧ read.Known graph ∧
      ¬ ∃ after, (AbstractStack.reachable [.value system.uint32]).step graph { system } read = .ok after := by
  have hs : (AbstractStack.reachable [.value system.uint32]).Known graph :=
    AbstractStack.known_reachable.mpr (by decide +kernel)
  have hr : (AbstractStack.reachable [.value system.int32]).Known graph :=
    AbstractStack.known_reachable.mpr (by decide +kernel)
  have hl : graph.Lawful := by decide +kernel
  have hread : read.Known graph := by decide +kernel
  refine ⟨hs, hr, hl, hread, ?_⟩
  have hclash : read.ByValueClash graph [.value system.uint32] [.value system.int32] := by
    refine ⟨by decide +kernel, by decide +kernel, by decide +kernel⟩
  obtain ⟨haccepted, -⟩ := (AbstractStack.verified_once built hl { system } hs hr
    (by decide +kernel)).1 read hread (.reachable [.value system.int32]) (by decide +kernel)
  exact fun hok => haccepted.mp hok hclash

end IntegerField

end ManagedCode
