/-
# ManagedCode.Proofs.Builder.Dispatch — calling a method on a receiver.

A virtual call is given a method and the type of its receiver, and picks the form of the call.  Three things
have to fit: where resolution found the method, which form is picked, and what that form wants the receiver
to be.  They fit for every receiver but one.  A value is passed by address, and an address is only accepted
as a receiver by the qualified form or by a method of the value type itself; a method that is not virtual is
called directly all the same, wherever it was found (`Misdirected`).
-/
import ManagedCode.Proofs.Builder.Expansion
import ManagedCode.Proofs.Graph.Members
import ManagedCode.Proofs.Sink.Delivery
import ManagedCode.Proofs.Stack.Compatibility

namespace ManagedCode

/-! ## § Receivers -/

namespace TypeGraph

/-- The slot in which a receiver of the type is passed: values by address, references as they are. -/
def receiverTag (g : TypeGraph) (r : TypeId) : TypeTag :=
  if (g.type r).isValueType then .address r else .value r

/-- Types only derive from classes. -/
def DerivesFromClasses (g : TypeGraph) : Prop :=
  ∀ t, ∀ b ∈ (g.type t).base, (g.type b).kind = .classType

instance (g : TypeGraph) : Decidable g.DerivesFromClasses :=
  decidable_of_iff' _ (forall_type_iff (P := fun e => ∀ b ∈ e.base, (g.type b).kind = .classType)
    fun b hb => by cases hb)

/-- What derives from a class along bases is the class itself, or the end of the path is a class. -/
theorem DerivesFromClasses.eq_or_class {g : TypeGraph} (hg : g.DerivesFromClasses) {r owner : TypeId}
    (h : g.Path false r owner) : owner = r ∨ (g.type owner).kind = .classType := by
  rcases Relation.ReflTransGen.cases_tail h with heq | ⟨t, -, hedge⟩
  · exact .inl heq
  · rcases edge_iff.mp hedge with hbase | ⟨hfalse, -⟩
    · exact .inr (hg t owner hbase)
    · cases hfalse

/-- A reference may be used as any class above it. -/
theorem value_isAssignable_class {g : TypeGraph} (hg : g.Closed) {r owner : TypeId} (hr : g.Knows r)
    (href : (g.type r).isReference = true) (hpath : g.Path false r owner)
    (hclass : (g.type owner).kind = .classType) :
    (TypeTag.value r).isAssignable g (.value owner) = true := by
  have hsub : g.Subtype r owner := by
    refine .path href ?_ ?_ ?_
    · rw [TypeEntry.isValueType, hclass]
    · rw [TypeEntry.element?, hclass]
    · rwa [TypeEntry.isInterface, hclass]
  have hshare : g.sharePrimitiveClass r owner = none := by
    rw [sharePrimitiveClass, primitive?_of_isReference href]
  rw [TypeTag.isAssignable, hshare, Option.getD_none, href, (isSubtype_iff hg hr).mpr hsub, Bool.and_self,
    Bool.or_true]

end TypeGraph

/-- **`receiver_accepts_iff`** — a method that was found on a base accepts the receiver, unless the receiver is
a value and the method another type's. -/
theorem Expect.receiver_accepts_iff {g : TypeGraph} (hg : g.Closed) (hbases : g.DerivesFromClasses)
    {r owner : TypeId} (hr : g.Knows r) (hkind : (g.type r).kind.isByRef = false)
    (hpath : g.Path false r owner) :
    (Expect.receiver owner).accepts g (g.receiverTag r) = true ↔
      ((g.type r).isValueType = true → owner = r) := by
  show (g.receiverTag r).isAssignable g (g.receiverTag owner) = true ↔ _
  rcases hbases.eq_or_class hpath with rfl | hclass
  · simp
  · have howner : g.receiverTag owner = .value owner := by
      rw [TypeGraph.receiverTag, TypeEntry.isValueType, hclass]
      rfl
    rw [howner, TypeGraph.receiverTag]
    cases hvalue : (g.type r).isValueType with
    | true =>
      have hne : owner ≠ r := by
        rintro rfl
        rw [TypeEntry.isValueType, hclass] at hvalue
        cases hvalue
      simp [TypeTag.isAssignable, hne]
    | false =>
      have href : (g.type r).isReference = true := by
        cases hk : (g.type r).kind <;>
          simp_all [TypeEntry.isReference, TypeEntry.isValueType, TypeKind.isByRef]
      simpa using TypeGraph.value_isAssignable_class hg hr href hpath hclass

/-! ## § Calls -/

namespace StackEffect

variable {g : TypeGraph}

/-- Operands that are accepted are out of the way of the rest. -/
theorem checkPops_append {expects expects' : List Expect} {found found' : List TypeTag}
    (h : List.Forall₂ (fun e tag => e.accepts g tag = true) expects found) :
    checkPops g (expects ++ expects') (found ++ found') = checkPops g expects' found' := by
  induction h with
  | nil => rfl
  | cons haccepts _ ih => rw [List.cons_append, List.cons_append, checkPops, if_pos haccepts, ih]

/-- Arguments are accepted if they are assignable to the parameters in order. -/
theorem popArguments_accept {parameters : List TypeId} {args : List TypeTag}
    (h : List.Forall₂ (fun a t => a.isAssignable g (.ofType g t) = true) args parameters) :
    List.Forall₂ (fun e tag => e.accepts g tag = true) (popArguments g parameters) args.reverse := by
  rw [popArguments, List.forall₂_map_left_iff, List.forall₂_reverse_iff]
  exact h.flip

/-- **`apply_call`** — with its arguments in order, a call is decided by its receiver. -/
theorem apply_call {system : SystemTypes} {parameters : List TypeId} {returnType : Option TypeId}
    {e : Expect} {args : List TypeTag} {receiver : TypeTag} {rest : List TypeTag}
    (h : List.Forall₂ (fun a t => a.isAssignable g (.ofType g t) = true) args parameters) :
    apply g system
        { pops := popArguments g parameters ++ [e]
          pushes := (returnType.map fun t => Produce.type (.ofType g t)).toList }
        (args.reverse ++ receiver :: rest) =
      if e.accepts g receiver = true then .ok ((returnType.map (TypeTag.ofType g)).toList ++ rest)
      else .error (.incompatibleOperand e receiver) := by
  have hargs := popArguments_accept h
  have hlen : (popArguments g parameters ++ [e]).length = (args.reverse ++ [receiver]).length := by
    rw [List.length_append, List.length_append, hargs.length_eq, List.length_singleton,
      List.length_singleton]
  have hslots : args.reverse ++ receiver :: rest = (args.reverse ++ [receiver]) ++ rest := by
    rw [List.append_assoc, List.singleton_append]
  have hdeep : ¬ (args.reverse ++ [receiver] ++ rest).length < (popArguments g parameters ++ [e]).length := by
    rw [hlen, @List.length_append _ (args.reverse ++ [receiver]) rest]
    omega
  rw [apply, hslots]
  dsimp only
  rw [if_neg hdeep, hlen, List.take_left, List.drop_left, checkPops_append hargs, checkPops]
  cases e.accepts g receiver with
  | false => rfl
  | true =>
    cases returnType <;> rfl

/-- An unqualified call wants a receiver of the owner. -/
theorem callMethod_unqualified {ctx : MethodContext} (hctx : ctx.constrained = none) (isVirtual : Bool)
    {m : MethodEntry} (hm : m.isStatic = false) :
    callMethod g ctx isVirtual m =
      { pops := popArguments g m.parameters ++ [.receiver m.owner]
        pushes := (m.returnType.map fun t => Produce.type (.ofType g t)).toList } := by
  rw [callMethod, hctx, hm]
  rfl

/-- A qualified call wants the address that the qualifier names. -/
theorem callMethod_qualified {ctx : MethodContext} {r : TypeId} (hctx : ctx.constrained = some r)
    {m : MethodEntry} (hm : m.isStatic = false) :
    callMethod g ctx true m =
      { pops := popArguments g m.parameters ++ [.address r]
        pushes := (m.returnType.map fun t => Produce.type (.ofType g t)).toList } := by
  rw [callMethod, hctx, hm]
  rfl

end StackEffect

/-! ## § The forms of a call -/

namespace Draft

/-- The draft after an instruction that leaves the given stack. -/
def withInstruction (insn : Instruction) (after : AbstractStack) (d : Draft) : Draft :=
  (d.note (.emitted ⟨.straight insn, d.stack⟩)).commitInstruction insn after

variable (insn : Instruction) (after : AbstractStack) (d : Draft)

@[simp] theorem stack_withInstruction : (d.withInstruction insn after).stack = after := rfl

@[simp] theorem graph_withInstruction : (d.withInstruction insn after).graph = d.graph := rfl

@[simp] theorem context_withInstruction :
    (d.withInstruction insn after).context = { d.context with constrained := insn.constrained? } := rfl

end Draft

namespace Builder

/-- The instructions of a call, by its form. -/
def Dispatch.instructions (m : MethodId) (r : TypeId) : Dispatch → List Instruction
  | .direct => [.call m]
  | .virtual => [.callvirt m]
  | .constrained => [.constrained r, .callvirt m]

/-- **`Misdirected`** — a method that is not virtual is called directly on the address of a value, and another
type declares it. -/
structure Misdirected (g : TypeGraph) (m : MethodId) (r : TypeId) : Prop where
  value : (g.type r).isValueType = true
  plain : (g.method m).isVirtual = false
  inherited : (g.method m).owner ≠ r

/-- **`CallPoint`** — a point of a body where a method can be called on a receiver of a type: the method is
what its name and parameters resolve to, and its receiver and arguments are on the stack. -/
structure CallPoint (d : Draft) (m : MethodId) (r : TypeId) (args rest : List TypeTag) : Prop where
  built : d.graph.Built
  bases : d.graph.DerivesFromClasses
  known : d.graph.Knows r
  kind : (d.graph.type r).kind.isByRef = false
  isInstance : (d.graph.method m).isStatic = false
  resolved : d.graph.resolveMethod r (d.graph.method m).name (some (d.graph.method m).parameters) = .ok m
  unqualified : d.constrained = none
  stack : d.stack = .reachable (args.reverse ++ d.graph.receiverTag r :: rest)
  arguments : List.Forall₂ (fun a t => a.isAssignable d.graph (.ofType d.graph t) = true) args
    (d.graph.method m).parameters

namespace CallPoint

variable {d : Draft} {m : MethodId} {r : TypeId} {args rest : List TypeTag}

/-- The stack after the call. -/
def after (d : Draft) (m : MethodId) (rest : List TypeTag) : AbstractStack :=
  .reachable (((d.graph.method m).returnType.map (TypeTag.ofType d.graph)).toList ++ rest)

/-- An unqualified call, on one receiver or another. -/
theorem step_unqualified (h : CallPoint d m r args rest) {insn : Instruction} (isVirtual : Bool)
    (heffect : insn.effect d.graph d.context =
      .ok (.callMethod d.graph d.context isVirtual (d.graph.method m))) :
    d.stack.step d.graph d.context insn =
      if (Expect.receiver (d.graph.method m).owner).accepts d.graph (d.graph.receiverTag r) = true then
        .ok (after d m rest)
      else .error (.incompatibleOperand (.receiver (d.graph.method m).owner) (d.graph.receiverTag r)) := by
  rw [h.stack, AbstractStack.step_of_effect heffect,
    StackEffect.callMethod_unqualified h.unqualified isVirtual h.isInstance,
    StackEffect.apply_call h.arguments]
  split <;> rfl

theorem accepts_iff (h : CallPoint d m r args rest) :
    (Expect.receiver (d.graph.method m).owner).accepts d.graph (d.graph.receiverTag r) = true ↔
      ((d.graph.type r).isValueType = true → (d.graph.method m).owner = r) :=
  Expect.receiver_accepts_iff h.built.closed h.bases h.known h.kind
    (h.built.membered.resolveMethod_ok h.resolved).2

/-- The call behind a qualifier: the qualifier changes nothing but the context. -/
theorem step_qualified (h : CallPoint d m r args rest) (hvalue : (d.graph.type r).isValueType = true) :
    d.stack.step d.graph { d.context with constrained := some r } (.callvirt m) = .ok (after d m rest) := by
  have heffect : (Instruction.callvirt m).effect d.graph { d.context with constrained := some r } =
      .ok (.callMethod d.graph { d.context with constrained := some r } true (d.graph.method m)) := by
    rw [Instruction.effect, h.isInstance]
    rfl
  have haccepts : (Expect.address r).accepts d.graph (d.graph.receiverTag r) = true := by
    rw [TypeGraph.receiverTag, if_pos hvalue, Expect.accepts, TypeTag.isAssignable_refl]
  rw [h.stack, AbstractStack.step_of_effect heffect, StackEffect.callMethod_qualified rfl h.isInstance,
    StackEffect.apply_call h.arguments, if_pos haccepts]
  rfl

end CallPoint

section Push

variable {σ : Type} [CodeSink σ] {insn : Instruction} {d : Draft} {w w' : σ}

/-- An instruction that verifies is emitted if the sink takes it. -/
theorem pushInstruction_verified (hfixed : ∀ g : TypeGraph, g.withResultTypes insn = g)
    (hfree : insn.isVirtualCall = false → d.constrained = none) {after : AbstractStack}
    (hstep : d.stack.step d.graph d.context insn = .ok after)
    (htakes : CodeSink.emit d.graph insn w = .ok () w') :
    pushInstruction insn ⟨d, w⟩ =
      .ok () ⟨d.withInstruction insn after, w'⟩ := by
  rw [pushInstruction_run, if_neg fun h => h.2 (hfree h.1), Draft.addResultTypes_same hfixed, hstep]
  dsimp only
  rw [emitVerified_run, htakes]
  rfl

/-- An instruction that does not verify is refused before the sink hears of it. -/
theorem pushInstruction_faulty (hfixed : ∀ g : TypeGraph, g.withResultTypes insn = g)
    (hfree : insn.isVirtualCall = false → d.constrained = none) {fault : VerifierFault}
    (hstep : d.stack.step d.graph d.context insn = .error fault) :
    pushInstruction insn ⟨d, w⟩ =
      .error (.verification (.instruction insn) fault) ⟨reportFault insn fault d, w⟩ := by
  rw [pushInstruction_run, if_neg fun h => h.2 (hfree h.1), Draft.addResultTypes_same hfixed, hstep]

end Push

/-- Which form is picked for which receivers and methods. -/
theorem dispatchOf_cases (g : TypeGraph) (m : MethodId) (r : TypeId) :
    (dispatchOf g m r = .constrained ∧ (g.type r).isValueType = true) ∨
      (dispatchOf g m r = .direct ∧ ((g.type r).isValueType = true → (g.method m).isVirtual = false)) ∨
      (dispatchOf g m r = .virtual ∧ (g.type r).isValueType = false) := by
  rw [dispatchOf]
  cases (g.type r).isValueType <;> cases (g.method m).isVirtual <;>
    cases (g.type r).isSealed && (g.method m).owner == r <;> simp

theorem callVirtual_run {σ : Type} [CodeSink σ] (m : MethodId) (r : TypeId) (d : Draft) (w : σ) :
    callVirtual m (some r) ⟨d, w⟩ =
      match dispatchOf d.graph m r with
      | .direct => pushInstruction (.call m) ⟨d, w⟩
      | .virtual => pushInstruction (.callvirt m) ⟨d, w⟩
      | .constrained =>
        match pushInstruction (.constrained r) ⟨d, w⟩ with
        | .ok () b => pushInstruction (.callvirt m) b
        | .error e b => .error e b := by
  simp only [callVirtual, bind_run, view_run]
  cases dispatchOf d.graph m r with
  | constrained =>
    show (pushInstruction (.constrained r) >>= fun _ => pushInstruction (.callvirt m) : Build σ Unit) ⟨d, w⟩ = _
    rw [bind_run]
    cases pushInstruction (.constrained r) ⟨d, w⟩ <;> rfl
  | direct | virtual => rfl

section Call

variable {σ : Type} [CodeSink σ] {d : Draft} {w w' : σ} {m : MethodId} {r : TypeId}
  {args rest : List TypeTag} (h : CallPoint d m r args rest)
include h

/-- The one instruction of an unqualified form, where the receiver is accepted. -/
theorem CallPoint.push_unqualified {insn : Instruction} (hfixed : ∀ g : TypeGraph, g.withResultTypes insn = g)
    (isVirtual : Bool) (heffect : insn.effect d.graph d.context =
      .ok (.callMethod d.graph d.context isVirtual (d.graph.method m)))
    (hdirected : (d.graph.type r).isValueType = true → (d.graph.method m).owner = r)
    (htakes : Takes w ([insn].map (.instruction d.graph)) w') :
    ∃ d', pushInstruction insn ⟨d, w⟩ = .ok () ⟨d', w'⟩ ∧ d'.stack = CallPoint.after d m rest := by
  have hstep := h.step_unqualified isVirtual heffect
  rw [if_pos (h.accepts_iff.mpr hdirected)] at hstep
  obtain ⟨w₁, hmake, hnil⟩ := takes_cons.mp htakes
  cases takes_nil.mp hnil
  exact ⟨_, pushInstruction_verified hfixed (fun _ => h.unqualified) hstep hmake, rfl⟩

theorem CallPoint.callVirtual_ok (hdirected : ¬ Misdirected d.graph m r)
    (htakes : Takes w (((dispatchOf d.graph m r).instructions m r).map (.instruction d.graph)) w') :
    ∃ d', callVirtual m (some r) ⟨d, w⟩ = .ok () ⟨d', w'⟩ ∧ d'.stack = CallPoint.after d m rest := by
  rw [callVirtual_run]
  rcases dispatchOf_cases d.graph m r with ⟨hform, hvalue⟩ | ⟨hform, hplain⟩ | ⟨hform, hreference⟩
  · rw [hform] at htakes ⊢
    obtain ⟨w₁, hfirst, hrest⟩ := takes_cons.mp htakes
    obtain ⟨w₂, hsecond, hnil⟩ := takes_cons.mp hrest
    cases takes_nil.mp hnil
    have hsame : d.stack.step d.graph d.context (.constrained r) = .ok d.stack := by
      rw [h.stack]
      rfl
    have hcall : (d.withInstruction (.constrained r) d.stack).stack.step
        (d.withInstruction (.constrained r) d.stack).graph
        (d.withInstruction (.constrained r) d.stack).context (.callvirt m) = .ok (after d m rest) := by
      rw [Draft.stack_withInstruction, Draft.graph_withInstruction, Draft.context_withInstruction]
      exact h.step_qualified hvalue
    dsimp only
    rw [pushInstruction_verified (fun _ => rfl) (fun _ => h.unqualified) hsame hfirst]
    exact ⟨_, pushInstruction_verified (fun _ => rfl) (fun hplain => Bool.noConfusion hplain) hcall hsecond,
      rfl⟩
  · rw [hform] at htakes ⊢
    refine h.push_unqualified (fun _ => rfl) false rfl (fun hvalue => ?_) htakes
    by_contra hinherited
    exact hdirected ⟨hvalue, hplain hvalue, hinherited⟩
  · rw [hform] at htakes ⊢
    have heffect : (Instruction.callvirt m).effect d.graph d.context =
        .ok (.callMethod d.graph d.context true (d.graph.method m)) := by
      rw [Instruction.effect, h.isInstance]
      rfl
    refine h.push_unqualified (fun _ => rfl) true heffect (fun hvalue => ?_) htakes
    cases hreference.symm.trans hvalue

theorem CallPoint.callVirtual_error (hmisdirected : Misdirected d.graph m r) :
    ∃ d', callVirtual m (some r) ⟨d, w⟩ =
      .error (.verification (.instruction (.call m))
        (.incompatibleOperand (.receiver (d.graph.method m).owner) (.address r))) ⟨d', w⟩ := by
  have hform : dispatchOf d.graph m r = .direct := by
    rw [dispatchOf, hmisdirected.value, hmisdirected.plain]
    rfl
  have hrefused : ¬ (Expect.receiver (d.graph.method m).owner).accepts d.graph (d.graph.receiverTag r) = true :=
    fun haccepts => hmisdirected.inherited (h.accepts_iff.mp haccepts hmisdirected.value)
  have hstep : d.stack.step d.graph d.context (.call m) = _ := h.step_unqualified false rfl
  rw [if_neg hrefused, TypeGraph.receiverTag, if_pos hmisdirected.value] at hstep
  rw [callVirtual_run, hform]
  exact ⟨_, pushInstruction_faulty (fun _ => rfl) (fun _ => h.unqualified) hstep⟩

end Call

/-- **`callVirtual_dispatched`** — at a call point a virtual call replaces the receiver and the arguments by the
result, over every sink that takes its instructions, unless it is misdirected.  A misdirected call is refused,
and the sink does not hear of it. -/
theorem callVirtual_dispatched {σ : Type} [CodeSink σ] {d : Draft} {w : σ} {m : MethodId} {r : TypeId}
    {args rest : List TypeTag} (h : CallPoint d m r args rest) :
    (¬ Misdirected d.graph m r → ∀ w', Takes w (((dispatchOf d.graph m r).instructions m r).map
        (.instruction d.graph)) w' →
      ∃ d', callVirtual m (some r) ⟨d, w⟩ = .ok () ⟨d', w'⟩ ∧
        d'.stack = .reachable
          (((d.graph.method m).returnType.map (TypeTag.ofType d.graph)).toList ++ rest)) ∧
    (Misdirected d.graph m r → ∃ d', callVirtual m (some r) ⟨d, w⟩ =
      .error (.verification (.instruction (.call m))
        (.incompatibleOperand (.receiver (d.graph.method m).owner) (.address r))) ⟨d', w⟩) :=
  ⟨fun hdirected _ => h.callVirtual_ok hdirected, h.callVirtual_error⟩

end Builder

namespace Sample

open Builder

/-- A method of the root class that is not virtual. -/
def tag : MethodId × TypeGraph := describeNumber.2.addMethod system.object "Tag" [] (some system.string) ⟨0x6⟩

/-- The start of a body with a local number. -/
def withLocal : Builder Recording :=
  ⟨{ Draft.start tag.2 system method with locals := #[number.1] }, Recording.empty⟩

/-- The point behind the instruction that pushes the address of the number. -/
def withAddress : Builder Recording :=
  withLocal.withInstruction (.localVariable .address 0) (.reachable [.address number.1])

/-- What is evaluated about the graph before the methods. -/
theorem number_facts : graph.Knows system.valueType ∧ number.2.Knows number.1 ∧
    describeNumber.2.Knows system.object ∧ describeNumber.2.Knows system.string := by
  decide +kernel

/-- What is evaluated about the graph with the methods. -/
theorem tag_facts :
    (tag.2.DerivesFromClasses ∧ tag.2.Knows number.1 ∧ (tag.2.type number.1).kind = .structType ∧
      (tag.2.method method).isStatic = true) ∧
    (∀ m ∈ [describeNumber.1, tag.1], (tag.2.method m).isStatic = false ∧
      (tag.2.method m).parameters = [] ∧
      tag.2.resolveMethod number.1 (tag.2.method m).name (some (tag.2.method m).parameters) = .ok m) ∧
    ((tag.2.method describeNumber.1).isVirtual = true ∧ (tag.2.method describeNumber.1).returnType = none) ∧
    ((tag.2.method tag.1).isVirtual = false ∧ (tag.2.method tag.1).owner = system.object ∧
      system.object ≠ number.1) ∧
    ∀ i < tag.2.types.size, (tag.2.type ⟨i⟩).kind = .classType → (tag.2.type ⟨i⟩).base = none →
      (⟨i⟩ : TypeId) = system.object := by
  decide +kernel

theorem tag_built : tag.2.Built := by
  obtain ⟨hvalue, hnumber, hobject, hstring⟩ := number_facts
  have hnumbers : number.2.Built := by
    refine built.addType "Number" _ ?_ ?_
    · rintro b hb
      cases hb
      exact hvalue
    · exact fun _ => nofun
  refine .addMethod "Tag" ⟨0x6⟩ (.addMethod "Describe" .virtual hnumbers hnumber ?_ ?_) hobject ?_ ?_
  case refine_4 =>
    rintro t ht
    cases ht
    exact hstring
  all_goals exact fun _ => nofun

theorem withLocal_draft : withLocal.draft =
    { graph := tag.2, system, method, arguments := (tag.2.method method).parameters.toArray
      locals := #[number.1] } := by
  obtain ⟨⟨-, -, -, hstatic⟩, -⟩ := tag_facts
  rw [withLocal, Draft.start, if_pos hstatic]

theorem withAddress_graph : withAddress.draft.graph = tag.2 := by
  rw [withAddress, graph_withInstruction, withLocal_draft]

theorem withAddress_reached :
    pushInstruction (.localVariable .address 0) withLocal = .ok () withAddress := by
  refine (pushInstruction_ok_iff fun _ => rfl).mpr ⟨fun _ => ?_, _, ?_, rfl⟩
  · rw [withLocal_draft]
  · rw [withLocal_draft]
    rfl

/-- Both methods can be called there, each by its name and parameters. -/
theorem callPoint {m : MethodId} (hm : m ∈ [describeNumber.1, tag.1]) :
    CallPoint withAddress.draft m number.1 [] [] := by
  obtain ⟨⟨hbases, hknown, hkind, -⟩, hmethods, -⟩ := tag_facts
  obtain ⟨hstatic, hparameters, hresolved⟩ := hmethods m hm
  have hreference : (tag.2.type number.1).kind.isByRef = false := by
    rw [hkind]
    rfl
  have hreceiver : AbstractStack.reachable [.address number.1] =
      .reachable (([] : List TypeTag).reverse ++ tag.2.receiverTag number.1 :: []) := by
    rw [TypeGraph.receiverTag, TypeEntry.isValueType, hkind]
    rfl
  have hgraph := withAddress_graph
  refine ⟨hgraph ▸ tag_built, hgraph ▸ hbases, hgraph ▸ hknown, hgraph ▸ hreference, hgraph ▸ hstatic,
    hgraph ▸ hresolved, rfl, hgraph ▸ hreceiver, ?_⟩
  rw [hgraph, hparameters]
  exact .nil

/-- The virtual method is called on the number through a qualifier. -/
theorem callVirtual_describe : ∃ b, callVirtual describeNumber.1 (some number.1) withAddress = .ok () b ∧
    b.draft.stack = .reachable [] := by
  obtain ⟨-, -, ⟨hvirtual, hreturn⟩, -⟩ := tag_facts
  obtain ⟨w', htakes⟩ := Recording.takes
    (((dispatchOf withAddress.draft.graph describeNumber.1 number.1).instructions describeNumber.1
      number.1).map (.instruction withAddress.draft.graph)) withAddress.sink
  have hdirected : ¬ Misdirected withAddress.draft.graph describeNumber.1 number.1 := by
    intro h
    have hplain := h.plain
    rw [withAddress_graph, hvirtual] at hplain
    cases hplain
  obtain ⟨d', hcall, hstack⟩ :=
    (callVirtual_dispatched (callPoint List.mem_cons_self)).1 hdirected w' htakes
  rw [withAddress_graph, hreturn] at hstack
  exact ⟨⟨d', w'⟩, hcall, hstack⟩

/-- Once the address is pushed the inherited method has its receiver, and it resolves from the number; the call
is refused.  No class but the root is without a base there. -/
theorem callVirtual_tag_refused :
    (∀ t, tag.2.Knows t → (tag.2.type t).kind = .classType → (tag.2.type t).base = none →
        t = system.object) ∧
      pushInstruction (.localVariable .address 0) withLocal = .ok () withAddress ∧
      CallPoint withAddress.draft tag.1 number.1 [] [] ∧
      ∃ b, callVirtual tag.1 (some number.1) withAddress =
        .error (.verification (.instruction (.call tag.1))
          (.incompatibleOperand (.receiver system.object) (.address number.1))) b := by
  obtain ⟨⟨-, -, hkind, -⟩, -, -, ⟨hplain, howner, hne⟩, hroot⟩ := tag_facts
  have hpoint := callPoint (m := tag.1) (List.mem_cons_of_mem _ List.mem_cons_self)
  have hmisdirected : Misdirected withAddress.draft.graph tag.1 number.1 := by
    rw [withAddress_graph]
    exact ⟨by rw [TypeEntry.isValueType, hkind], hplain, howner ▸ hne⟩
  obtain ⟨d', hcall⟩ := hpoint.callVirtual_error (w := withAddress.sink) hmisdirected
  rw [withAddress_graph, howner] at hcall
  exact ⟨fun t ht => hroot t.index ht, withAddress_reached, hpoint, ⟨d', _⟩, hcall⟩

end Sample

end ManagedCode
