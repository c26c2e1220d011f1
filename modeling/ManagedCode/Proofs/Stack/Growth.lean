/-
# ManagedCode.Proofs.Stack.Growth — what was verified stays verified while the graph grows.

While a body is built its graph gains array types and its context gains locals.  An instruction whose
operands are known has the same effect in every later graph, its effect accepts the same slots and yields
the same results, and all those results are tags of the graph that it was verified in.

There is one instruction whose own result may be new: `newarr` names an array type.  Its effect is stable
from the moment that type is in the graph, which `withResultTypes` sees to.
-/
import ManagedCode.Proofs.Stack.Application
import ManagedCode.Proofs.Stack.Compatibility

namespace ManagedCode

/-! ## § Operands of a graph -/

/-- The graph knows every type, field and method that the instruction names. -/
def Instruction.Known (g : TypeGraph) : Instruction → Prop
  | .instanceField _ f | .staticField _ f => g.KnowsField f
  | .element _ t | .newarr t | .ldind t | .stind t | .ldobj t | .stobj t | .initobj t | .box t | .unbox t
  | .unboxAny t | .castclass t | .isinst t | .constrained t | .sizeof t => g.Knows t
  | .newobj m | .call m | .callvirt m | .ldftn m | .ldvirtftn m => g.KnowsMethod m
  | _ => True

instance (g : TypeGraph) (insn : Instruction) : Decidable (insn.Known g) :=
  match insn with
  | .instanceField _ f | .staticField _ f => inferInstanceAs (Decidable (g.KnowsField f))
  | .element _ t | .newarr t | .ldind t | .stind t | .ldobj t | .stobj t | .initobj t | .box t | .unbox t
  | .unboxAny t | .castclass t | .isinst t | .constrained t | .sizeof t =>
    inferInstanceAs (Decidable (g.Knows t))
  | .newobj m | .call m | .callvirt m | .ldftn m | .ldvirtftn m =>
    inferInstanceAs (Decidable (g.KnowsMethod m))
  | .nop | .argument _ _ | .localVariable _ _ | .ldnull | .ldcI4 _ | .ldcI8 _ | .ldcR4 _ | .ldcR8 _
  | .ldstr _ | .dup | .pop | .binary _ | .shift _ | .neg | .complement | .compare _ | .conv _ _ _
  | .ldlen => .isTrue trivial

theorem Instruction.Known.extend {g g' : TypeGraph} (h : g.Extends g') {insn : Instruction}
    (hi : insn.Known g) : insn.Known g' := by
  cases insn with
  | instanceField | staticField => exact h.knowsField hi
  | newobj | call | callvirt | ldftn | ldvirtftn => exact h.knowsMethod hi
  | element | newarr | ldind | stind | ldobj | stobj | initobj | box | unbox | unboxAny | castclass
  | isinst | constrained | sizeof => exact h.knows hi
  | _ => trivial

/-- The graph knows all system types. -/
def SystemTypes.Known (g : TypeGraph) (s : SystemTypes) : Prop := ∀ t ∈ s.all, g.Knows t

instance (g : TypeGraph) (s : SystemTypes) : Decidable (s.Known g) :=
  inferInstanceAs (Decidable (∀ t ∈ s.all, g.Knows t))

namespace SystemTypes.Known

variable {g : TypeGraph} {s : SystemTypes} (h : s.Known g)
include h

theorem primitive (p : Primitive) : g.Knows (s.primitive p) := by
  refine h _ (List.mem_append_right _ (List.mem_map_of_mem ?_))
  cases p <;> decide

theorem int32 : g.Knows s.int32 := h.primitive .i32

theorem object : g.Knows s.object := h _ (by simp [SystemTypes.all])

theorem string : g.Knows s.string := h _ (by simp [SystemTypes.all])

theorem exception : g.Knows s.exception := h _ (by simp [SystemTypes.all])

end SystemTypes.Known

/-- The graph knows every type that the context mentions. -/
structure MethodContext.Known (g : TypeGraph) (ctx : MethodContext) : Prop where
  system : ctx.system.Known g
  arguments : ∀ t ∈ ctx.arguments, g.Knows t
  locals : ∀ t ∈ ctx.locals, g.Knows t
  returnType : ∀ t ∈ ctx.returnType, g.Knows t
  constrained : ∀ t ∈ ctx.constrained, g.Knows t

/-- The later context has all the locals of the earlier one, and agrees on all else. -/
structure MethodContext.Extends (ctx ctx' : MethodContext) : Prop where
  system : ctx'.system = ctx.system
  arguments : ctx'.arguments = ctx.arguments
  locals : ∀ {i : Nat} {t}, ctx.locals[i]? = some t → ctx'.locals[i]? = some t
  returnType : ctx'.returnType = ctx.returnType
  constrained : ctx'.constrained = ctx.constrained

/-! ## § Requirements and results of a graph -/

/-- The graph knows every type that the requirement mentions. -/
def Expect.Known (g : TypeGraph) : Expect → Prop
  | .assignable tag => tag.Known g
  | .address t | .receiver t | .instanceOf t | .arrayOf t => g.Knows t
  | _ => True

/-- The graph knows the type that the result mentions, if it mentions one. -/
def Produce.Known (g : TypeGraph) : Produce → Prop
  | .type tag => tag.Known g
  | _ => True

/-- The graph knows every type that the effect mentions. -/
structure StackEffect.Known (g : TypeGraph) (effect : StackEffect) : Prop where
  pops : ∀ e ∈ effect.pops, e.Known g
  pushes : ∀ p ∈ effect.pushes, p.Known g

namespace StackEffect

variable {g : TypeGraph}

@[simp] theorem known_nothing : nothing.Known g := by
  constructor <;> simp [nothing]

@[simp] theorem known_push {tag : TypeTag} : (push tag).Known g ↔ tag.Known g := by
  constructor
  · intro h
    exact h.pushes _ List.mem_cons_self
  · intro h
    constructor <;> simp [push, Produce.Known, h]

@[simp] theorem known_pop {e : Expect} : (pop e).Known g ↔ e.Known g := by
  constructor
  · intro h
    exact h.pops _ List.mem_cons_self
  · intro h
    constructor <;> simp [pop, h]

@[simp] theorem known_replace {pops : List Expect} {tag : TypeTag} :
    (replace pops tag).Known g ↔ (∀ e ∈ pops, e.Known g) ∧ tag.Known g := by
  constructor
  · intro h
    exact ⟨h.pops, h.pushes _ List.mem_cons_self⟩
  · intro h
    constructor <;> simp [replace, Produce.Known, h.2]
    exact h.1

@[simp] theorem known_binary {rule : PairRule} {pushes : List Produce} :
    (binary rule pushes).Known g ↔ ∀ p ∈ pushes, p.Known g := by
  constructor
  · intro h
    exact h.pushes
  · intro h
    exact ⟨by simp [binary, Expect.Known], h⟩

end StackEffect

/-! ## § Result types -/

namespace TypeGraph

theorem extends_withResultTypes (g : TypeGraph) (insn : Instruction) :
    g.Extends (g.withResultTypes insn) := by
  cases insn with
  | newarr t => exact extends_addType g _ _ _ _
  | _ => exact .refl g

theorem Closed.withResultTypes {g : TypeGraph} (hg : g.Closed) {insn : Instruction}
    (hi : insn.Known g) : (g.withResultTypes insn).Closed := by
  cases insn with
  | newarr t => exact hg.arrayOf hi
  | _ => exact hg

theorem Lawful.withResultTypes {g : TypeGraph} (hl : g.Lawful) (hg : g.Closed) (insn : Instruction) :
    (g.withResultTypes insn).Lawful := by
  cases insn with
  | newarr t => exact hl.arrayOf hg t
  | _ => exact hl

/-- The result type of the instruction is in the graph. -/
def HasResultTypes (g : TypeGraph) (insn : Instruction) : Prop :=
  ∀ t, insn = .newarr t → ∃ a, g.lookup? (g.nameOf t ++ "[]") = some a

theorem hasResultTypes_withResultTypes {g : TypeGraph} {insn : Instruction} (hi : insn.Known g) :
    (g.withResultTypes insn).HasResultTypes insn := by
  rintro t rfl
  have hext := g.extends_withResultTypes (.newarr t)
  rw [hext.nameOf_eq hi]
  exact lookup?_addType g _ _ _ _

theorem HasResultTypes.extend {g g' : TypeGraph} (h : g.Extends g') {insn : Instruction}
    (hi : insn.Known g) (hr : g.HasResultTypes insn) : g'.HasResultTypes insn := by
  rintro t rfl
  obtain ⟨a, ha⟩ := hr t rfl
  exact ⟨a, by rw [h.nameOf_eq hi]; exact h.lookup_eq ha⟩

end TypeGraph

/-! ## § Effects -/

namespace StackEffect

variable {g g' : TypeGraph}

theorem accessLocation_extend (h : g.Extends g') {t : TypeId} (ht : g.Knows t) (access : Access) :
    accessLocation g' access t = accessLocation g access t := by
  cases access <;> simp only [accessLocation, TypeTag.ofType_extend h ht]

theorem accessField_extend (h : g.Extends g') {t : TypeId} (ht : g.Knows t) (access : Access)
    (owner : TypeId) : accessField g' access owner t = accessField g access owner t := by
  cases access <;> simp only [accessField, TypeTag.ofType_extend h ht]

theorem accessElement_extend (h : g.Extends g') {t : TypeId} (ht : g.Knows t) (access : Access) :
    accessElement g' access t = accessElement g access t := by
  cases access <;> simp only [accessElement, TypeTag.ofType_extend h ht]

theorem popArguments_extend (h : g.Extends g') {parameters : List TypeId}
    (hp : ∀ t ∈ parameters, g.Knows t) : popArguments g' parameters = popArguments g parameters := by
  refine List.map_congr_left fun t ht => ?_
  rw [TypeTag.ofType_extend h (hp t (List.mem_reverse.mp ht))]

theorem callMethod_extend (h : g.Extends g') (hg : g.Closed) {ctx ctx' : MethodContext}
    (hctx : ctx.Extends ctx') (isVirtual : Bool) {m : MethodId} (hm : g.KnowsMethod m) :
    callMethod g' ctx' isVirtual (g'.method m) = callMethod g ctx isVirtual (g.method m) := by
  obtain ⟨-, hparams, hret⟩ := hg.method_known hm
  have hresult : (g.method m).returnType.map (fun t => Produce.type (.ofType g' t)) =
      (g.method m).returnType.map fun t => Produce.type (.ofType g t) := by
    refine Option.map_congr fun t ht => ?_
    rw [TypeTag.ofType_extend h (hret t ht)]
  rw [callMethod, callMethod, h.method_eq, popArguments_extend h hparams, hctx.constrained, hresult]

theorem accessLocation_known (hg : g.Closed) {t : TypeId} (ht : g.Knows t) (access : Access) :
    (accessLocation g access t).Known g := by
  cases access <;>
    simp [accessLocation, Expect.Known, TypeTag.known_ofType hg ht, TypeTag.known_address, ht]

theorem accessField_known (hg : g.Closed) {owner t : TypeId} (howner : g.Knows owner)
    (ht : g.Knows t) (access : Access) : (accessField g access owner t).Known g := by
  have htype := TypeTag.known_ofType hg ht
  cases access with
  | load => exact known_replace.mpr ⟨by simpa [Expect.Known], htype⟩
  | address => exact known_replace.mpr ⟨by simpa [Expect.Known], TypeTag.known_address.mpr ht⟩
  | store => exact ⟨by simp [accessField, Expect.Known, htype, howner], by simp [accessField]⟩

theorem accessElement_known (hg : g.Closed) {t : TypeId} (ht : g.Knows t) (access : Access) :
    (accessElement g access t).Known g := by
  have htype := TypeTag.known_ofType hg ht
  cases access with
  | load => exact known_replace.mpr ⟨by simpa [Expect.Known], htype⟩
  | address => exact known_replace.mpr ⟨by simpa [Expect.Known], TypeTag.known_address.mpr ht⟩
  | store => exact ⟨by simp [accessElement, Expect.Known, htype, ht], by simp [accessElement]⟩

theorem popArguments_known (hg : g.Closed) {parameters : List TypeId}
    (hp : ∀ t ∈ parameters, g.Knows t) : ∀ e ∈ popArguments g parameters, e.Known g := by
  intro e he
  obtain ⟨t, ht, rfl⟩ := List.mem_map.mp he
  exact TypeTag.known_ofType hg (hp t (List.mem_reverse.mp ht))

theorem callMethod_known (hg : g.Closed) {ctx : MethodContext} (hctx : ctx.Known g)
    (isVirtual : Bool) {m : MethodId} (hm : g.KnowsMethod m) :
    (callMethod g ctx isVirtual (g.method m)).Known g := by
  obtain ⟨howner, hparams, hret⟩ := hg.method_known hm
  constructor
  · intro e he
    rcases List.mem_append.mp he with he | he
    · exact popArguments_known hg hparams e he
    · -- The receiver is the owner of the method or the type of the qualifier.
      split at he
      · cases he
      · split at he
        · rename_i t hqualifier
          split at he
          · rw [List.mem_singleton.mp he]
            exact hctx.constrained t hqualifier
          · rw [List.mem_singleton.mp he]
            exact howner
        · rw [List.mem_singleton.mp he]
          exact howner
  · intro p hp
    obtain ⟨t, ht, rfl⟩ := Option.map_eq_some_iff.mp (Option.mem_toList.mp hp)
    exact TypeTag.known_ofType hg (hret t ht)

end StackEffect

namespace MethodContext

theorem argument_ok_iff {ctx : MethodContext} {index : UInt16} {t : TypeId} :
    ctx.argument index = .ok t ↔ ctx.arguments[index.toNat]? = some t := by
  rw [argument]
  cases ctx.arguments[index.toNat]? <;> simp

theorem localVariable_ok_iff {ctx : MethodContext} {index : UInt16} {t : TypeId} :
    ctx.localVariable index = .ok t ↔ ctx.locals[index.toNat]? = some t := by
  rw [localVariable]
  cases ctx.locals[index.toNat]? <;> simp

end MethodContext

namespace TypeGraph

/-- An array type that exists is what asking for it answers. -/
theorem arrayOf_of_lookup? {g : TypeGraph} {t a : TypeId} (h : g.lookup? (g.nameOf t ++ "[]") = some a) :
    g.arrayOf t = (a, g) := addType_taken _ _ _ h

end TypeGraph

namespace Instruction

variable {g g' : TypeGraph} {ctx ctx' : MethodContext}

/-- **`effect_extend`** — an effect, once found, is the effect in every later graph and context. -/
theorem effect_extend (h : g.Extends g') (hg : g.Closed) (hctx : ctx.Extends ctx')
    (hknown : ctx.Known g) {insn : Instruction} (hi : insn.Known g) (hr : g.HasResultTypes insn)
    {e : StackEffect} (hok : insn.effect g ctx = .ok e) : insn.effect g' ctx' = .ok e := by
  have hprimitive : ∀ p, ctx'.primitive p = ctx.primitive p := fun p => by
    rw [MethodContext.primitive, MethodContext.primitive, hctx.system]
  cases insn with
  | argument access index =>
    obtain ⟨t, ht, heq⟩ := Except.bind_eq_ok_iff.mp hok
    cases heq
    rw [MethodContext.argument_ok_iff] at ht
    have hkt : g.Knows t := hknown.arguments t (Array.mem_of_getElem? ht)
    rw [← StackEffect.accessLocation_extend h hkt]
    refine Except.bind_eq_ok_iff.mpr ⟨t, ?_, rfl⟩
    rwa [MethodContext.argument_ok_iff, hctx.arguments]
  | localVariable access index =>
    obtain ⟨t, ht, heq⟩ := Except.bind_eq_ok_iff.mp hok
    cases heq
    rw [MethodContext.localVariable_ok_iff] at ht
    have hkt : g.Knows t := hknown.locals t (Array.mem_of_getElem? ht)
    rw [← StackEffect.accessLocation_extend h hkt]
    refine Except.bind_eq_ok_iff.mpr ⟨t, ?_, rfl⟩
    exact MethodContext.localVariable_ok_iff.mpr (hctx.locals ht)
  | instanceField access f =>
    have hkt := (hg.field_known hi).2
    simpa only [effect, h.field_eq, StackEffect.accessField_extend h hkt] using hok
  | staticField access f =>
    have hkt := (hg.field_known hi).2
    simpa only [effect, h.field_eq, StackEffect.accessLocation_extend h hkt] using hok
  | element access t =>
    simpa only [effect, StackEffect.accessElement_extend h hi] using hok
  | newarr t =>
    -- The array type is there already, so the effect finds it and adds nothing.
    obtain ⟨a, ha⟩ := hr t rfl
    have ha' : g'.lookup? (g'.nameOf t ++ "[]") = some a := by
      rw [h.nameOf_eq hi]
      exact h.lookup_eq ha
    rw [effect, TypeGraph.arrayOf_of_lookup? ha']
    rwa [effect, TypeGraph.arrayOf_of_lookup? ha] at hok
  | ldind t | stind t | box t | unbox t | unboxAny t =>
    simpa only [effect, h.type_eq hi, TypeTag.ofType_extend h hi, hctx.system] using hok
  | newobj m =>
    obtain ⟨-, hparams, -⟩ := hg.method_known hi
    simpa only [effect, h.method_eq, StackEffect.popArguments_extend h hparams] using hok
  | call m | callvirt m =>
    simp only [effect, StackEffect.callMethod_extend h hg hctx _ hi]
    simpa only [effect, h.method_eq] using hok
  | ldvirtftn m => simpa only [effect, h.method_eq, hprimitive] using hok
  | _ => simpa only [effect, hprimitive, hctx.system] using hok

/-- **`effect_known`** — an effect mentions no type that the graph does not know. -/
theorem effect_known (hg : g.Closed) (hctx : ctx.Known g) {insn : Instruction} (hi : insn.Known g)
    (hr : g.HasResultTypes insn) {e : StackEffect} (hok : insn.effect g ctx = .ok e) :
    e.Known g := by
  have hprimitive : ∀ p, (ctx.primitive p).Known g := fun p =>
    TypeTag.known_value.mpr (hctx.system.primitive p)
  have hint32 : (TypeTag.value ctx.system.int32).Known g := TypeTag.known_value.mpr hctx.system.int32
  cases insn with
  | argument access index =>
    obtain ⟨t, ht, heq⟩ := Except.bind_eq_ok_iff.mp hok
    cases heq
    rw [MethodContext.argument_ok_iff] at ht
    exact StackEffect.accessLocation_known hg (hctx.arguments t (Array.mem_of_getElem? ht)) access
  | localVariable access index =>
    obtain ⟨t, ht, heq⟩ := Except.bind_eq_ok_iff.mp hok
    cases heq
    rw [MethodContext.localVariable_ok_iff] at ht
    exact StackEffect.accessLocation_known hg (hctx.locals t (Array.mem_of_getElem? ht)) access
  | instanceField access f =>
    obtain ⟨howner, htype⟩ := hg.field_known hi
    simp only [effect] at hok
    split at hok
    · cases hok
    · cases hok
      exact StackEffect.accessField_known hg howner htype access
  | staticField access f =>
    obtain ⟨-, htype⟩ := hg.field_known hi
    simp only [effect] at hok
    split at hok
    · cases hok
      exact StackEffect.accessLocation_known hg htype access
    · cases hok
  | element access t =>
    cases hok
    exact StackEffect.accessElement_known hg hi access
  | newarr t =>
    obtain ⟨a, ha⟩ := hr t rfl
    rw [effect, TypeGraph.arrayOf_of_lookup? ha] at hok
    cases hok
    exact StackEffect.known_replace.mpr
      ⟨by simp [Expect.Known], TypeTag.known_value.mpr (TypeGraph.knows_of_lookup? ha)⟩
  | newobj m =>
    obtain ⟨howner, hparams, -⟩ := hg.method_known hi
    simp only [effect] at hok
    split at hok
    · cases hok
      exact StackEffect.known_replace.mpr
        ⟨StackEffect.popArguments_known hg hparams, TypeTag.known_value.mpr howner⟩
    · cases hok
  | call m =>
    cases hok
    exact StackEffect.callMethod_known hg hctx false hi
  | callvirt m =>
    simp only [effect] at hok
    split at hok
    · cases hok
    · cases hok
      exact StackEffect.callMethod_known hg hctx true hi
  | ldvirtftn m =>
    simp only [effect] at hok
    split at hok
    · cases hok
    · cases hok
      have howner := (hg.method_known hi).1
      exact StackEffect.known_replace.mpr ⟨by simpa [Expect.Known], hprimitive _⟩
  | ldstr text =>
    cases hok
    exact StackEffect.known_push.mpr (TypeTag.known_value.mpr hctx.system.string)
  | box t =>
    cases hok
    refine StackEffect.known_replace.mpr ⟨?_, TypeTag.known_value.mpr ?_⟩
    · simpa [Expect.Known] using TypeTag.known_ofType hg hi
    · split
      · exact hctx.system.object
      · exact hi
  | ldind t =>
    simp only [effect] at hok
    split at hok
    · cases hok
    · cases hok
      exact StackEffect.known_replace.mpr ⟨by simpa [Expect.Known], TypeTag.known_ofType hg hi⟩
  | stind t =>
    simp only [effect] at hok
    split at hok
    · cases hok
    · cases hok
      constructor
      · simpa [Expect.Known] using ⟨TypeTag.known_ofType hg hi, hi⟩
      · simp
  | stobj t =>
    cases hok
    constructor
    · simpa [Expect.Known, TypeTag.known_value] using (show g.Knows t from hi)
    · simp
  | ldobj t =>
    cases hok
    exact StackEffect.known_replace.mpr ⟨by simpa [Expect.Known], TypeTag.known_value.mpr hi⟩
  | unbox t =>
    simp only [effect] at hok
    split at hok
    · cases hok
      exact StackEffect.known_replace.mpr ⟨by simp [Expect.Known], TypeTag.known_address.mpr hi⟩
    · cases hok
  | unboxAny t =>
    cases hok
    exact StackEffect.known_replace.mpr ⟨by simp [Expect.Known], TypeTag.known_ofType hg hi⟩
  | castclass t | isinst t =>
    cases hok
    exact StackEffect.known_replace.mpr ⟨by simp [Expect.Known], TypeTag.known_value.mpr hi⟩
  | conv target checked unsigned =>
    simp only [effect] at hok
    split at hok
    · cases hok
    · split at hok
      · cases hok
      · cases hok
        exact StackEffect.known_replace.mpr ⟨by simp [Expect.Known], hprimitive _⟩
  | initobj t =>
    cases hok
    exact StackEffect.known_pop.mpr hi
  | ldnull =>
    cases hok
    exact StackEffect.known_push.mpr (TypeTag.known_null g)
  | ldcI4 =>
    cases hok
    exact StackEffect.known_push.mpr hint32
  | ldcI8 | ldcR4 | ldcR8 | ldftn | sizeof =>
    cases hok
    exact StackEffect.known_push.mpr (hprimitive _)
  | ldlen =>
    cases hok
    exact StackEffect.known_replace.mpr ⟨by simp [Expect.Known], hprimitive _⟩
  | compare =>
    cases hok
    exact StackEffect.known_binary.mpr (by simpa [Produce.Known] using hint32)
  | nop | constrained =>
    cases hok
    exact StackEffect.known_nothing
  | dup | pop | binary | shift | neg | complement =>
    cases hok
    constructor <;> simp [StackEffect.pop, StackEffect.binary, Expect.Known, Produce.Known]

end Instruction

namespace Branch

variable {Target : Type} {g g' : TypeGraph} {ctx ctx' : MethodContext}

theorem effect_extend (h : g.Extends g') (hctx : ctx.Extends ctx') (hknown : ctx.Known g)
    (branch : Branch Target) : branch.effect g' ctx' = branch.effect g ctx := by
  cases branch with
  | ret =>
    simp only [effect, hctx.returnType]
    split
    · rename_i t ht
      rw [TypeTag.ofType_extend h (hknown.returnType t ht)]
    · rfl
  | _ => rfl

theorem effect_known (hg : g.Closed) (hctx : ctx.Known g) (branch : Branch Target) :
    (branch.effect g ctx).Known g := by
  cases branch with
  | ret =>
    simp only [effect]
    split
    · rename_i t ht
      exact StackEffect.known_pop.mpr (TypeTag.known_ofType hg (hctx.returnType t ht))
    · exact StackEffect.known_nothing
  | compare => exact StackEffect.known_binary.mpr (by simp)
  | brtrue | brfalse | switch | endfilter | throw => exact StackEffect.known_pop.mpr trivial
  | br | leave | rethrow | endfinally => exact StackEffect.known_nothing

end Branch

/-! ## § Running an effect -/

namespace Expect

section Wider

variable {o g g' : TypeGraph} (h : o.Wider g g')
include h

theorem isReceiver_wider {owner : TypeId} {tag : TypeTag} (howner : o.Knows owner) (htag : tag.Known o)
    (hreceiver : isReceiver g owner tag = true) : isReceiver g' owner tag = true := by
  rw [isReceiver] at hreceiver ⊢
  rw [h.widensOn.isValueType_eq howner]
  refine TypeTag.isAssignable_wider h htag ?_ hreceiver
  split
  · exact TypeTag.known_address.mpr howner
  · exact TypeTag.known_value.mpr howner

theorem isArrayOf_wider {element : TypeId} {tag : TypeTag} (helement : o.Knows element)
    (htag : tag.Known o) (harray : isArrayOf g element tag = true) : isArrayOf g' element tag = true := by
  cases tag with
  | null => rfl
  | address => cases harray
  | value t =>
    have ht := TypeTag.known_value.mp htag
    simp only [isArrayOf, h.widensOn.element?_eq ht, Option.any_eq_true, Bool.and_eq_true] at harray ⊢
    obtain ⟨found, hfound, hassign, hside⟩ := harray
    -- The element of a known array is known as well.
    have hkfound : o.Knows found := by
      refine h.widensOn.inner ht ?_
      rw [TypeEntry.element?_eq_some.mp hfound]
      rfl
    refine ⟨found, hfound, ?_, ?_⟩
    · exact TypeTag.isAssignable_wider h (TypeTag.known_value.mpr hkfound)
        (TypeTag.known_value.mpr helement) hassign
    · rwa [h.widensOn.isValueType_eq hkfound, h.widensOn.isValueType_eq helement]

/-- **`accepts_wider`** — a slot that met a requirement meets it in a wider graph. -/
theorem accepts_wider {e : Expect} {tag : TypeTag} (he : e.Known o) (htag : tag.Known o)
    (haccepts : e.accepts g tag = true) : e.accepts g' tag = true := by
  cases e with
  | any => rfl
  | integer32 | index | integer | numeric | truthValue | reference =>
    simpa only [accepts, TypeTag.stackClass_wider h htag] using haccepts
  | assignable expected => exact TypeTag.isAssignable_wider h htag he haccepts
  | address t => exact TypeTag.isAssignable_wider h htag (TypeTag.known_address.mpr he) haccepts
  | receiver owner => exact isReceiver_wider h he htag haccepts
  | instanceOf owner =>
    rw [accepts, Bool.or_eq_true] at haccepts ⊢
    exact haccepts.imp_left (isReceiver_wider h he htag)
  | arrayOf element => exact isArrayOf_wider h he htag haccepts
  | array =>
    cases tag with
    | null => rfl
    | address => cases haccepts
    | value t =>
      simpa only [accepts, isArray, h.widensOn.element?_eq (TypeTag.known_value.mp htag)] using haccepts

end Wider

end Expect

section Run

variable {g g' : TypeGraph} (h : g.Extends g') (hg : g.Closed) (hg' : g'.Closed)
include h hg hg'

theorem Expect.accepts_extend {e : Expect} {tag : TypeTag} (he : e.Known g) (htag : tag.Known g) :
    e.accepts g' tag = e.accepts g tag := by
  rw [Bool.eq_iff_iff]
  exact ⟨accepts_wider (h.wider_back hg hg') he htag, accepts_wider (h.wider hg hg') he htag⟩

namespace StackEffect

theorem checkPops_extend {expects : List Expect} {found : List TypeTag}
    (he : ∀ e ∈ expects, e.Known g) (hf : ∀ tag ∈ found, tag.Known g) :
    checkPops g' expects found = checkPops g expects found := by
  induction expects generalizing found with
  | nil => cases found <;> rfl
  | cons e expects ih =>
    cases found with
    | nil => rfl
    | cons tag found =>
      obtain ⟨hke, hkes⟩ := List.forall_mem_cons.mp he
      obtain ⟨hkt, hkts⟩ := List.forall_mem_cons.mp hf
      rw [checkPops, checkPops, Expect.accepts_extend h hg hg' hke hkt, ih hkes hkts]

omit hg hg' in
theorem result?_extend {system : SystemTypes} {rule : PairRule} {left right : TypeTag}
    (hl : left.Known g) (hr : right.Known g) :
    rule.result? g' system left right = rule.result? g system left right := by
  cases rule with
  | comparison =>
    simp only [PairRule.result?, TypeTag.stackClass_extend h hl, TypeTag.stackClass_extend h hr]
  | arithmetic addresses floats =>
    simp only [PairRule.result?, PairRule.arithmeticResult, TypeTag.stackClass_extend h hl,
      TypeTag.stackClass_extend h hr]

omit hg hg' in
theorem checkPair_extend {system : SystemTypes} {pair : Option PairRule} {popped : List TypeTag}
    (hp : ∀ tag ∈ popped, tag.Known g) :
    checkPair g' system pair popped = checkPair g system pair popped := by
  match pair, popped, hp with
  | none, _, _ => rfl
  | some _, [], _ => rfl
  | some _, [_], _ => rfl
  | some rule, right :: left :: rest, hp =>
    have hr := hp right List.mem_cons_self
    have hl := hp left (List.mem_cons_of_mem right List.mem_cons_self)
    simp only [checkPair, PairRule.result, result?_extend h hl hr]

/-- **`apply_extend`** — an effect does to known slots what it did before the graph grew. -/
theorem apply_extend {system : SystemTypes} {effect : StackEffect} (he : effect.Known g)
    {slots : List TypeTag} (hs : ∀ tag ∈ slots, tag.Known g) :
    effect.apply g' system slots = effect.apply g system slots := by
  have hpopped : ∀ tag ∈ slots.take effect.pops.length, tag.Known g :=
    fun tag htag => hs tag (List.mem_of_mem_take htag)
  simp only [apply, checkPops_extend h hg hg' he.pops hpopped, checkPair_extend h hpopped]

end StackEffect

end Run

namespace StackEffect

variable {g : TypeGraph} {system : SystemTypes}

theorem result?_known (hsystem : system.Known g) {rule : PairRule} {left right tag : TypeTag}
    (hl : left.Known g) (hr : right.Known g) (h : rule.result? g system left right = some tag) :
    tag.Known g := by
  have hprimitive : ∀ p, (TypeTag.value (system.primitive p)).Known g :=
    fun p => TypeTag.known_value.mpr (hsystem.primitive p)
  cases rule with
  | comparison =>
    simp only [PairRule.result?, Option.ite_none_right_eq_some, Option.some.injEq] at h
    exact h.2 ▸ hprimitive .i32
  | arithmetic addresses floats =>
    simp only [PairRule.result?, PairRule.arithmeticResult] at h
    -- Operands of one class keep their type or get the signed type of the class.
    have hsame : ∀ p, some (if left = right then left else .value (system.primitive p)) = some tag →
        tag.Known g := by
      intro p hp
      split at hp
      · cases hp
        exact hl
      · cases hp
        exact hprimitive p
    split at h
    · exact hsame .i32 h
    · exact hsame .i64 h
    · exact hsame .intPtr h
    · cases h
      exact hr
    · cases h
      exact hl
    · exact hsame .f64 (Option.ite_none_right_eq_some.mp h).2
    · cases (Option.ite_none_right_eq_some.mp h).2
      exact hl
    · cases (Option.ite_none_right_eq_some.mp h).2
      exact hl
    · cases (Option.ite_none_right_eq_some.mp h).2
      exact hr
    · cases (Option.ite_none_right_eq_some.mp h).2
      exact hr
    · cases (Option.ite_none_right_eq_some.mp h).2
      exact hprimitive .intPtr
    · cases h

theorem checkPair_known (hsystem : system.Known g) {rule : Option PairRule} {popped : List TypeTag}
    {pair : Option TypeTag} (hp : ∀ tag ∈ popped, tag.Known g)
    (h : checkPair g system rule popped = .ok pair) : ∀ tag ∈ pair, tag.Known g := by
  intro tag htag
  cases htag
  match rule, popped, hp with
  | none, _, _ => cases h
  | some _, [], _ => cases h
  | some _, [_], _ => cases h
  | some rule, right :: left :: rest, hp =>
    have hr := hp right List.mem_cons_self
    have hl := hp left (List.mem_cons_of_mem right List.mem_cons_self)
    cases hresult : rule.result g system left right with
    | error e =>
      rw [checkPair, hresult] at h
      cases h
    | ok tag' =>
      rw [checkPair, hresult] at h
      cases h
      exact result?_known hsystem hl hr (PairRule.result_ok_iff.mp hresult)

theorem resolveProduce_known {popped : List TypeTag} {pair : Option TypeTag} {p : Produce}
    {tag : TypeTag} (hp : p.Known g) (hpopped : ∀ tag ∈ popped, tag.Known g)
    (hpair : ∀ tag ∈ pair, tag.Known g) (h : resolveProduce popped pair p = .ok tag) :
    tag.Known g := by
  cases p with
  | type tag' =>
    cases h
    exact hp
  | popped position =>
    simp only [resolveProduce] at h
    split at h
    · rename_i tag' hget
      cases h
      exact hpopped tag (List.mem_of_getElem? hget)
    · cases h
  | arithmetic =>
    simp only [resolveProduce] at h
    split at h
    · cases h
      exact hpair tag rfl
    · cases h

/-- **`apply_known`** — running an effect on known slots yields known slots. -/
theorem apply_known (hsystem : system.Known g) {effect : StackEffect} (he : effect.Known g)
    {slots out : List TypeTag} (hs : ∀ tag ∈ slots, tag.Known g)
    (hok : effect.apply g system slots = .ok out) : ∀ tag ∈ out, tag.Known g := by
  obtain ⟨-, -, pair, pushed, hpair, hpushed, rfl⟩ := apply_ok_iff.mp hok
  have hpopped : ∀ tag ∈ slots.take effect.pops.length, tag.Known g :=
    fun tag htag => hs tag (List.mem_of_mem_take htag)
  have hkpair := checkPair_known hsystem hpopped hpair
  have hkpushed : ∀ tag ∈ pushed, tag.Known g := by
    -- By induction on the results, each of which is known for a reason of its own.
    have hpushes := he.pushes
    generalize effect.pushes = pushes at hpushes hpushed
    clear hok
    induction hpushed with
    | nil => simp
    | cons hresolve _ ih =>
      obtain ⟨hkp, hkps⟩ := List.forall_mem_cons.mp hpushes
      exact List.forall_mem_cons.mpr ⟨resolveProduce_known hkp hpopped hkpair hresolve, ih hkps⟩
  intro tag htag
  rcases List.mem_append.mp htag with htag | htag
  · exact hkpushed tag (List.mem_reverse.mp htag)
  · exact hs tag (List.mem_of_mem_drop htag)

end StackEffect

/-! ## § Steps and jumps -/

namespace AbstractStack

variable {g g' : TypeGraph} {ctx ctx' : MethodContext}

/-- **`step_extend`** — a straight-line instruction that verified once verifies in every later graph and
context, with the same result. -/
theorem step_extend (h : g.Extends g') (hg : g.Closed) (hg' : g'.Closed) (hctx : ctx.Extends ctx')
    (hknown : ctx.Known g) {insn : Instruction} (hi : insn.Known g) (hr : g.HasResultTypes insn)
    {s after : AbstractStack} (hs : s.Known g) (hok : s.step g ctx insn = .ok after) :
    s.step g' ctx' insn = .ok after := by
  cases s with
  | unreachable => exact hok
  | reachable slots =>
    obtain ⟨effect, out, heffect, hout, rfl⟩ := step_ok_iff.mp hok
    have hke := Instruction.effect_known hg hknown hi hr heffect
    refine step_ok_iff.mpr ⟨effect, out, ?_, ?_, rfl⟩
    · exact Instruction.effect_extend h hg hctx hknown hi hr heffect
    · rw [hctx.system, StackEffect.apply_extend h hg hg' hke (known_reachable.mp hs), hout]

theorem step_known (hg : g.Closed) (hknown : ctx.Known g) {insn : Instruction} (hi : insn.Known g)
    (hr : g.HasResultTypes insn) {s after : AbstractStack} (hs : s.Known g)
    (hok : s.step g ctx insn = .ok after) : after.Known g := by
  cases s with
  | unreachable =>
    cases hok
    exact known_unreachable g
  | reachable slots =>
    obtain ⟨effect, out, heffect, hout, rfl⟩ := step_ok_iff.mp hok
    have hke := Instruction.effect_known hg hknown hi hr heffect
    exact known_reachable.mpr (StackEffect.apply_known hknown.system hke (known_reachable.mp hs) hout)

/-- **`jump_extend`** — a branch that verified once verifies in every later graph and context, with the same
stacks after it. -/
theorem jump_extend {Target : Type} (h : g.Extends g') (hg : g.Closed) (hg' : g'.Closed)
    (hctx : ctx.Extends ctx') (hknown : ctx.Known g) {branch : Branch Target} {s : AbstractStack}
    {j : Jump} (hs : s.Known g) (hok : s.jump g ctx branch = .ok j) :
    s.jump g' ctx' branch = .ok j := by
  cases s with
  | unreachable => exact hok
  | reachable slots =>
    obtain ⟨out, hout, rfl⟩ := jump_ok_iff.mp hok
    have hke := Branch.effect_known hg hknown branch
    refine jump_ok_iff.mpr ⟨out, ?_, rfl⟩
    rw [Branch.effect_extend h hctx hknown, hctx.system,
      StackEffect.apply_extend h hg hg' hke (known_reachable.mp hs), hout]

theorem jump_known {Target : Type} (hg : g.Closed) (hknown : ctx.Known g) {branch : Branch Target}
    {s : AbstractStack} {j : Jump} (hs : s.Known g) (hok : s.jump g ctx branch = .ok j) :
    j.delivered.Known g ∧ j.next.Known g := by
  cases s with
  | unreachable =>
    cases hok
    exact ⟨known_unreachable g, known_unreachable g⟩
  | reachable slots =>
    obtain ⟨out, hout, rfl⟩ := jump_ok_iff.mp hok
    have hke := Branch.effect_known hg hknown branch
    have hkout := StackEffect.apply_known hknown.system hke (known_reachable.mp hs) hout
    constructor
    · unfold Jump.after
      dsimp only
      split
      · exact known_reachable.mpr (by simp)
      · exact known_reachable.mpr hkout
    · unfold Jump.after
      dsimp only
      split
      · exact known_unreachable g
      · exact known_reachable.mpr hkout

end AbstractStack

end ManagedCode
