/-
# ManagedCode.Proofs.Builder.Expansion — steps of several instructions, and what half of one leaves behind.

A step that chooses its instructions looks at the draft once and emits what it has chosen: one instruction,
two of them, or one branch (`TypedStep.expansion`).  One item is emitted or refused as a whole.  Of the three
steps with two, loading a struct out of an array cannot fail between them: the first instruction leaves the
address that the second asks for.  The other two can, and the first instruction stays (`TypedStep.Halves`):

  * a virtual call on a value, if the call does not verify: its `constrained.` qualifier then admits nothing
    but a virtual call;
  * a small 64-bit constant, if the type that goes by the name of the 32-bit integers is not numeric.
-/
import ManagedCode.Proofs.Builder.DeadCode
import ManagedCode.Proofs.Builder.Retry

namespace ManagedCode

/-! ## § Expansions -/

/-- A step that says what is wanted and leaves the instructions to the types involved. -/
inductive TypedStep
  | constInt (value : Int32)
  | constLong (value : Int64)
  | constString (text : String)
  | getLocal (slot : LocalSlot)
  | setLocal (slot : LocalSlot)
  /-- Divides, takes the remainder, shifts right or compares. -/
  | signed (choice : SignedChoice)
  | branchIf (relation : Relation) (target : Label)
  | convert (target : Primitive) (checked : Bool)
  | loadElement (element : TypeId)
  | storeElement (element : TypeId)
  | loadIndirect (referent : TypeId)
  | storeIndirect (referent : TypeId)
  | accessField (access : Access) (field : FieldId)
  | call (method : MethodId)
  | callVirtual (method : MethodId) (receiver : Option TypeId)
  | newObject (constructor : MethodId)
  deriving DecidableEq

/-- What a step has chosen to emit. -/
inductive Expansion
  | nothing
  | one (insn : Instruction)
  | two (first second : Instruction)
  | jump (branch : Branch Label)
  deriving DecidableEq

/-- Emits what has been chosen. -/
def Expansion.emit {σ : Type} [CodeSink σ] : Expansion → Build σ Unit
  | .nothing => pure ()
  | .one insn => Builder.pushInstruction insn
  | .two first second => do Builder.pushInstruction first; Builder.pushInstruction second
  | .jump branch => Builder.pushBranch branch

namespace TypedStep

/-- The step on a builder. -/
def build {σ : Type} [CodeSink σ] : TypedStep → Build σ Unit
  | .constInt value => Builder.constInt value
  | .constLong value => Builder.constLong value
  | .constString text => Builder.constString text
  | .getLocal slot => Builder.getLocal slot
  | .setLocal slot => Builder.setLocal slot
  | .signed choice => Builder.signedOperation choice
  | .branchIf relation target => Builder.branchIf relation target
  | .convert target checked => Builder.convert target checked
  | .loadElement t => Builder.loadElement t
  | .storeElement t => Builder.storeElement t
  | .loadIndirect t => Builder.loadIndirect t
  | .storeIndirect t => Builder.storeIndirect t
  | .accessField access f => Builder.accessField access f
  | .call m => Builder.call m
  | .callVirtual m receiver => Builder.callVirtual m receiver
  | .newObject m => Builder.newObject m

/-- The constant fits 32 bits. -/
def isSmall (value : Int64) : Bool :=
  Int32.minValue.toInt ≤ value.toInt && value.toInt ≤ Int32.maxValue.toInt

/-- **`expansion`** — what the step emits on a draft, or why it cannot choose. -/
def expansion (d : Draft) : TypedStep → Except EmitError Expansion
  | .constInt value => .ok (.one (.ldcI4 value))
  | .constLong value =>
    .ok (if isSmall value then .two (.ldcI4 value.toInt32) (.conv .i64 false false) else .one (.ldcI8 value))
  | .constString text => .ok (.one (.ldstr text))
  | .getLocal slot => .ok (.one (.localVariable .load slot.index))
  | .setLocal slot => .ok (.one (.localVariable .store slot.index))
  | .signed choice =>
    (d.signednessAt choice 1).map fun sign => (choice.instruction? sign).elim .nothing .one
  | .branchIf relation target =>
    (if relation.isOrdering then d.signednessAt .conditionalBranch 1 else .ok .signed).map fun sign =>
      .jump (.compare (relation.comparison sign) target)
  | .convert target checked =>
    (d.signednessAt .conversion 0).map fun sign => .one (.conv target checked (sign == .unsigned))
  | .loadElement t =>
    .ok (if (d.graph.type t).isStruct then .two (.element .address t) (.ldobj t) else .one (.element .load t))
  | .storeElement t => .ok (.one (.element .store t))
  | .loadIndirect t => .ok (.one (if (d.graph.type t).isStruct then .ldobj t else .ldind t))
  | .storeIndirect t => .ok (.one (if (d.graph.type t).isStruct then .stobj t else .stind t))
  | .accessField access f =>
    .ok (.one (if (d.graph.field f).isStatic then .staticField access f else .instanceField access f))
  | .call m => .ok (.one (.call m))
  | .callVirtual m none =>
    .error (.verification (.instruction (.callvirt m)) (.missingOperandContext .receiverOfVirtualCall))
  | .callVirtual m (some r) =>
    .ok (match Builder.dispatchOf d.graph m r with
      | .direct => .one (.call m)
      | .virtual => .one (.callvirt m)
      | .constrained => .two (.constrained r) (.callvirt m))
  | .newObject m => .ok (.one (.newobj m))

/-- **`build_run`** — a step chooses, and then emits what it has chosen. -/
theorem build_run {σ : Type} [CodeSink σ] (step : TypedStep) (b : Builder σ) :
    step.build b =
      match step.expansion b.draft with
      | .error e => .error e b
      | .ok chosen => chosen.emit b := by
  obtain ⟨d, w⟩ := b
  cases step with
  | constLong value =>
    have hbuild : (build (.constLong value) : Build σ Unit) =
        if isSmall value then (Expansion.two (.ldcI4 value.toInt32) (.conv .i64 false false)).emit
        else (Expansion.one (.ldcI8 value)).emit := rfl
    rw [hbuild, expansion]
    cases isSmall value <;> rfl
  | signed choice =>
    simp only [build, Builder.signedOperation, Builder.bind_run, Builder.check_run, expansion]
    cases d.signednessAt choice 1 with
    | error e => rfl
    | ok sign =>
      simp only [Except.map]
      cases choice.instruction? sign <;> rfl
  | branchIf relation target =>
    simp only [build, Builder.branchIf, expansion]
    split
    · simp only [Builder.bind_run, Builder.check_run]
      cases d.signednessAt .conditionalBranch 1 <;> rfl
    · rfl
  | convert target checked =>
    simp only [build, Builder.convert, Builder.bind_run, Builder.check_run, expansion]
    cases d.signednessAt .conversion 0 <;> rfl
  | loadElement t =>
    simp only [build, Builder.loadElement, Builder.bind_run, Builder.view_run, expansion]
    split <;> rfl
  | loadIndirect t =>
    simp only [build, Builder.loadIndirect, Builder.bind_run, Builder.view_run, expansion]
    split <;> rfl
  | storeIndirect t =>
    simp only [build, Builder.storeIndirect, Builder.bind_run, Builder.view_run, expansion]
    split <;> rfl
  | accessField access f =>
    simp only [build, Builder.accessField, Builder.bind_run, Builder.view_run, expansion]
    split <;> rfl
  | callVirtual m receiver =>
    cases receiver with
    | none => rfl
    | some r =>
      simp only [build, Builder.callVirtual, Builder.bind_run, Builder.view_run, expansion]
      cases Builder.dispatchOf d.graph m r <;> rfl
  | _ => rfl

end TypedStep

/-! ## § An instruction over a recording -/

/-- Fixed results need no new types. -/
theorem Draft.addResultTypes_same {insn : Instruction} (h : ∀ g : TypeGraph, g.withResultTypes insn = g)
    (d : Draft) : d.addResultTypes insn = d := by
  rw [Draft.addResultTypes_eq, h, ite_self]

/-- A replacement leaves what it says on top of what lay beneath the operands. -/
theorem StackEffect.apply_replace_ok {g : TypeGraph} {system : SystemTypes} {pops : List Expect}
    {tag : TypeTag} {slots out : List TypeTag} (h : (replace pops tag).apply g system slots = .ok out) :
    out = tag :: slots.drop pops.length := by
  obtain ⟨-, -, pair, pushed, -, hpushed, rfl⟩ := apply_ok_iff.mp h
  obtain ⟨tag', rest, hresolve, hrest, rfl⟩ := List.forall₂_cons_left_iff.mp hpushed
  cases List.forall₂_nil_left_iff.mp hrest
  cases hresolve
  rfl

/-- An instruction that replaces the top of the stack looks at nothing else. -/
theorem AbstractStack.step_replace {g : TypeGraph} {ctx : MethodContext} {insn : Instruction} {e : Expect}
    {tag : TypeTag} (heffect : insn.effect g ctx = .ok (.replace [e] tag)) (top : TypeTag) (rest : List TypeTag) :
    (reachable (top :: rest)).step g ctx insn =
      if e.accepts g top = true then .ok (.reachable (tag :: rest)) else .error (.incompatibleOperand e top) := by
  rw [step_of_effect heffect]
  by_cases haccepts : e.accepts g top = true
  · rw [if_pos haccepts, StackEffect.apply_replace_iff.mpr ⟨top, rest, rfl, haccepts, rfl⟩]
    rfl
  · rw [if_neg haccepts]
    simp [StackEffect.apply, StackEffect.replace, StackEffect.checkPops, haccepts, bind, Except.bind,
      Except.map]

namespace Builder

variable {b b' : Builder Recording} {e : EmitError} {insn : Instruction}

/-- The builder after an instruction that leaves the given stack. -/
def withInstruction (insn : Instruction) (after : AbstractStack) (b : Builder Recording) : Builder Recording :=
  ⟨(b.draft.note (.emitted ⟨.straight insn, b.draft.stack⟩)).commitInstruction insn after,
    { events := b.sink.events.push (.code (.straight insn)) }⟩

@[simp] theorem stack_withInstruction (insn : Instruction) (after : AbstractStack) (b : Builder Recording) :
    (b.withInstruction insn after).draft.stack = after := rfl

@[simp] theorem graph_withInstruction (insn : Instruction) (after : AbstractStack) (b : Builder Recording) :
    (b.withInstruction insn after).draft.graph = b.draft.graph := rfl

@[simp] theorem constrained_withInstruction (insn : Instruction) (after : AbstractStack)
    (b : Builder Recording) : (b.withInstruction insn after).draft.constrained = insn.constrained? := rfl

@[simp] theorem context_withInstruction (insn : Instruction) (after : AbstractStack) (b : Builder Recording) :
    (b.withInstruction insn after).draft.context =
      { b.draft.context with constrained := insn.constrained? } := rfl

/-- **`pushInstruction_ok_iff`** — an instruction without a result type of its own is emitted if no qualifier
forbids it and it verifies. -/
theorem pushInstruction_ok_iff (hfixed : ∀ g : TypeGraph, g.withResultTypes insn = g) :
    pushInstruction insn b = .ok () b' ↔
      (insn.isVirtualCall = false → b.draft.constrained = none) ∧
        ∃ after, b.draft.stack.step b.draft.graph b.draft.context insn = .ok after ∧
          b' = b.withInstruction insn after := by
  obtain ⟨d, w⟩ := b
  rw [pushInstruction_run, Draft.addResultTypes_same hfixed]
  by_cases hqualified : insn.isVirtualCall = false ∧ d.constrained ≠ none
  · rw [if_pos hqualified]
    constructor
    · intro h
      cases h
    · rintro ⟨hfree, -⟩
      exact absurd (hfree hqualified.1) hqualified.2
  · rw [if_neg hqualified]
    have hfree : insn.isVirtualCall = false → d.constrained = none :=
      fun hplain => by_contra fun hwaits => hqualified ⟨hplain, hwaits⟩
    cases hstep : d.stack.step d.graph d.context insn with
    | error fault =>
      constructor
      · intro h
        cases h
      · rintro ⟨-, after, hafter, -⟩
        cases hafter
    | ok after =>
      constructor
      · intro h
        cases h
        exact ⟨hfree, after, rfl, rfl⟩
      · rintro ⟨-, after', hafter, rfl⟩
        cases hafter
        rfl

/-- It is refused otherwise. -/
theorem pushInstruction_error_iff (hfixed : ∀ g : TypeGraph, g.withResultTypes insn = g) :
    (∃ e b', pushInstruction insn b = .error e b') ↔
      (insn.isVirtualCall = false ∧ b.draft.constrained ≠ none) ∨
        ∃ fault, b.draft.stack.step b.draft.graph b.draft.context insn = .error fault := by
  cases hpush : pushInstruction insn b with
  | ok a b₁ =>
    obtain ⟨hfree, after, hafter, -⟩ := (pushInstruction_ok_iff hfixed).mp hpush
    constructor
    · rintro ⟨e, b', h⟩
      cases h
    · rintro (⟨hplain, hwaits⟩ | ⟨fault, hfault⟩)
      · exact absurd (hfree hplain) hwaits
      · cases hafter.symm.trans hfault
  | error e₁ b₁ =>
    refine iff_of_true ⟨e₁, b₁, rfl⟩ ?_
    by_contra hnone
    rw [not_or, not_and_not_right, not_exists] at hnone
    cases hstep : b.draft.stack.step b.draft.graph b.draft.context insn with
    | error fault => exact hnone.2 fault hstep
    | ok after =>
      cases ((pushInstruction_ok_iff hfixed).mpr ⟨hnone.1, after, hstep, rfl⟩).symm.trans hpush

/-- An instruction that is refused leaves all but the graph and the journal as they were. -/
theorem pushInstruction_refused_recording (h : pushInstruction insn b = .error e b') : b.Unchanged b' := by
  have hanswer : (Operation.instruction insn).answer b = .error e b' := by
    show (pushInstruction insn >>= fun _ => pure Answer.done : Build Recording Answer) b = _
    rw [bind_run, h]
  have hatomic : (Operation.instruction insn).Atomic := trivial
  exact (Operation.refused_over_recording hatomic hanswer).1

end Builder

/-! ## § The steps with two instructions -/

namespace Builder

variable {b b₁ : Builder Recording}

/-- The address of an element is an address to load through. -/
theorem loadObject_of_elementAddress {t : TypeId} (h : pushInstruction (.element .address t) b = .ok () b₁) :
    ∃ b₂, pushInstruction (.ldobj t) b₁ = .ok () b₂ := by
  obtain ⟨-, after, hafter, rfl⟩ := (pushInstruction_ok_iff fun _ => rfl).mp h
  suffices hstep : ∃ after', after.step b.draft.graph
      { b.draft.context with constrained := (Instruction.element .address t).constrained? } (.ldobj t) =
        .ok after' by
    obtain ⟨after', hafter'⟩ := hstep
    refine ⟨_, (pushInstruction_ok_iff fun _ => rfl).mpr ⟨fun _ => ?_, after', ?_, rfl⟩⟩
    · rw [constrained_withInstruction]
      rfl
    · rw [stack_withInstruction, graph_withInstruction, context_withInstruction, hafter']
  cases hstack : b.draft.stack with
  | unreachable =>
    rw [hstack] at hafter
    cases hafter
    exact ⟨_, rfl⟩
  | reachable slots =>
    rw [hstack] at hafter
    obtain ⟨effect, out, heffect, hout, rfl⟩ := AbstractStack.step_ok_iff.mp hafter
    cases heffect
    have haddress : out = .address t :: slots.drop 2 := StackEffect.apply_replace_ok hout
    have haccepts : (Expect.address t).accepts b.draft.graph (.address t) = true := by
      rw [Expect.accepts, TypeTag.isAssignable_refl]
    rw [haddress, AbstractStack.step_replace rfl, if_pos haccepts]
    exact ⟨_, rfl⟩

/-- The second of two instructions is refused if a qualifier forbids it, or if it does not verify. -/
theorem pushInstruction_second_error_iff {first second : Instruction} {after : AbstractStack}
    (hfixed : ∀ g : TypeGraph, g.withResultTypes second = g) :
    (∃ e b₂, pushInstruction second (b.withInstruction first after) = .error e b₂) ↔
      (second.isVirtualCall = false ∧ first.constrained? ≠ none) ∨
        ∃ fault, after.step b.draft.graph { b.draft.context with constrained := first.constrained? } second =
          .error fault := by
  rw [pushInstruction_error_iff hfixed, constrained_withInstruction, stack_withInstruction,
    graph_withInstruction, context_withInstruction]

/-- A 32-bit constant can be widened, unless the type that it has is not numeric. -/
theorem widen_refused_iff {value : Int32} (h : pushInstruction (.ldcI4 value) b = .ok () b₁) :
    (∃ e b₂, pushInstruction (.conv .i64 false false) b₁ = .error e b₂) ↔
      b.draft.stack.isReachable = true ∧
        Expect.numeric.accepts b.draft.graph (.value b.draft.system.int32) = false := by
  obtain ⟨-, after, hafter, rfl⟩ := (pushInstruction_ok_iff fun _ => rfl).mp h
  rw [pushInstruction_second_error_iff fun _ => rfl, or_iff_right fun hwaits => hwaits.2 rfl]
  cases hstack : b.draft.stack with
  | unreachable =>
    rw [hstack] at hafter
    cases hafter
    simp [AbstractStack.step, AbstractStack.isReachable]
  | reachable slots =>
    rw [hstack] at hafter
    obtain ⟨effect, out, heffect, hout, rfl⟩ := AbstractStack.step_ok_iff.mp hafter
    cases heffect
    -- Pushing is replacing nothing.
    have hpush : (StackEffect.replace [] (.value b.draft.system.int32)).apply b.draft.graph b.draft.system slots =
        .ok out := hout
    have hconstant : out = .value b.draft.system.int32 :: slots := StackEffect.apply_replace_ok hpush
    rw [hconstant, AbstractStack.step_replace rfl]
    cases Expect.numeric.accepts b.draft.graph (.value b.draft.system.int32) <;>
      simp [AbstractStack.isReachable]

/-- A qualifier changes nothing but the context of the call. -/
theorem constrainedCall_refused_iff {m : MethodId} {r : TypeId}
    (h : pushInstruction (.constrained r) b = .ok () b₁) :
    (∃ e b₂, pushInstruction (.callvirt m) b₁ = .error e b₂) ↔
      ∃ fault, b.draft.stack.step b.draft.graph { b.draft.context with constrained := some r } (.callvirt m) =
        .error fault := by
  obtain ⟨-, after, hafter, rfl⟩ := (pushInstruction_ok_iff fun _ => rfl).mp h
  have hsame : after = b.draft.stack := by
    cases hstack : b.draft.stack with
    | unreachable =>
      rw [hstack] at hafter
      cases hafter
      rfl
    | reachable slots =>
      rw [hstack] at hafter
      obtain ⟨effect, out, heffect, hout, rfl⟩ := AbstractStack.step_ok_iff.mp hafter
      cases heffect
      cases hout
      rfl
  rw [pushInstruction_second_error_iff fun _ => rfl, or_iff_right fun hwaits => Bool.noConfusion hwaits.1, hsame,
    Instruction.constrained?]

end Builder

/-! ## § Halves -/

/-- **`Halves`** — on the draft the step emits the first of two instructions, and its second is refused. -/
inductive TypedStep.Halves (d : Draft) : TypedStep → Prop
  /-- The call does not verify behind its qualifier. -/
  | dispatch {m : MethodId} {r : TypeId} {fault : VerifierFault} :
    Builder.dispatchOf d.graph m r = .constrained → d.constrained = none →
    d.stack.step d.graph { d.context with constrained := some r } (.callvirt m) = .error fault →
    Halves d (.callVirtual m (some r))
  /-- The type of a 32-bit constant is not numeric. -/
  | constant {value : Int64} :
    isSmall value = true → d.constrained = none → d.stack.isReachable = true →
    Expect.numeric.accepts d.graph (.value d.system.int32) = false → Halves d (.constLong value)

namespace Expansion

variable {b b' : Builder Recording} {e : EmitError}

/-- Two instructions are refused at the first or between them. -/
theorem two_refused {first second : Instruction} (h : (two first second).emit b = .error e b') :
    Builder.pushInstruction first b = .error e b' ∨
      ∃ b₁, Builder.pushInstruction first b = .ok () b₁ ∧ Builder.pushInstruction second b₁ = .error e b' := by
  have hrun : (two first second).emit b = _ := Builder.bind_run _ _ b
  rw [hrun] at h
  cases hfirst : Builder.pushInstruction first b with
  | error e₁ b₁ =>
    rw [hfirst] at h
    exact .inl h
  | ok _ b₁ =>
    rw [hfirst] at h
    exact .inr ⟨b₁, rfl, h⟩

end Expansion

namespace TypedStep

variable {b b' : Builder Recording} {e : EmitError}

/-- The steps that emit two instructions. -/
theorem expansion_two {d : Draft} {step : TypedStep} {first second : Instruction}
    (h : step.expansion d = .ok (.two first second)) :
    (∃ value, step = .constLong value ∧ isSmall value = true ∧
        first = .ldcI4 value.toInt32 ∧ second = .conv .i64 false false) ∨
      (∃ t, step = .loadElement t ∧ first = .element .address t ∧ second = .ldobj t) ∨
      ∃ m r, step = .callVirtual m (some r) ∧ Builder.dispatchOf d.graph m r = .constrained ∧
        first = .constrained r ∧ second = .callvirt m := by
  have hchosen {α : Type} {choice : Except EmitError α} {f : α → Expansion}
      (hf : ∀ a, f a ≠ .two first second) : choice.map f ≠ .ok (.two first second) := by
    intro heq
    cases choice with
    | error e => cases heq
    | ok a => exact hf a (Except.ok.inj heq)
  cases step with
  | constLong value =>
    have heq := Except.ok.inj h
    split at heq
    · cases heq
      exact .inl ⟨value, rfl, ‹_›, rfl, rfl⟩
    · cases heq
  | loadElement t =>
    have heq := Except.ok.inj h
    split at heq
    · cases heq
      exact .inr (.inl ⟨t, rfl, rfl, rfl⟩)
    · cases heq
  | callVirtual m receiver =>
    cases receiver with
    | none => cases h
    | some r =>
      have heq := Except.ok.inj h
      split at heq
      · cases heq
      · cases heq
      · rename_i hdispatch
        cases heq
        exact .inr (.inr ⟨m, r, rfl, hdispatch, rfl, rfl⟩)
  | signed choice =>
    refine absurd h (hchosen fun sign => ?_)
    cases choice.instruction? sign <;> exact fun heq => Expansion.noConfusion heq
  | branchIf relation target => exact absurd h (hchosen fun sign heq => Expansion.noConfusion heq)
  | convert target checked => exact absurd h (hchosen fun sign heq => Expansion.noConfusion heq)
  | _ => cases h

/-- **`refused_whole`** — a step that does not halve leaves no trace of what is refused. -/
theorem refused_whole {step : TypedStep} (hwhole : ¬ step.Halves b.draft) (h : step.build b = .error e b') :
    b.Unchanged b' := by
  rw [build_run] at h
  cases hexpansion : step.expansion b.draft with
  | error e₁ =>
    rw [hexpansion] at h
    cases h
    rfl
  | ok x =>
    rw [hexpansion] at h
    cases x with
    | two first second =>
      rcases Expansion.two_refused h with hfirst | ⟨b₁, hfirst, hsecond⟩
      · exact Builder.pushInstruction_refused_recording hfirst
      · -- The second instruction is refused only where the step halves.
        rcases expansion_two hexpansion with ⟨value, rfl, hsmall, rfl, rfl⟩ | ⟨t, rfl, rfl, rfl⟩ |
          ⟨m, r, rfl, hdispatch, rfl, rfl⟩
        · have hfree := ((Builder.pushInstruction_ok_iff fun _ => rfl).mp hfirst).1 rfl
          obtain ⟨hreachable, hclass⟩ := (Builder.widen_refused_iff hfirst).mp ⟨e, b', hsecond⟩
          exact absurd (.constant hsmall hfree hreachable hclass) hwhole
        · obtain ⟨b₂, hb₂⟩ := Builder.loadObject_of_elementAddress hfirst
          cases hb₂.symm.trans hsecond
        · have hfree := ((Builder.pushInstruction_ok_iff fun _ => rfl).mp hfirst).1 rfl
          obtain ⟨fault, hfault⟩ := (Builder.constrainedCall_refused_iff hfirst).mp ⟨e, b', hsecond⟩
          exact absurd (.dispatch hdispatch hfree hfault) hwhole
    | nothing => cases h
    | one insn => exact Builder.pushInstruction_refused_recording h
    | jump branch =>
      have hsame := Builder.pushBranch_refused_recording h
      rw [hsame]
      rfl

/-- Two instructions of which the first is emitted and the second is refused. -/
theorem build_between {step : TypedStep} {first second : Instruction} {b₁ : Builder Recording}
    (hexpansion : step.expansion b.draft = .ok (.two first second))
    (hfirst : Builder.pushInstruction first b = .ok () b₁)
    (hsecond : Builder.pushInstruction second b₁ = .error e b') :
    step.build b = .error e b' ∧ b₁.Unchanged b' := by
  refine ⟨?_, Builder.pushInstruction_refused_recording hsecond⟩
  rw [build_run, hexpansion]
  show (Builder.pushInstruction first >>= fun _ => Builder.pushInstruction second : Build Recording Unit) b = _
  rw [Builder.bind_run, hfirst]
  exact hsecond

/-- **`halved`** — a step that halves is refused, and its first instruction stays. -/
theorem halved {step : TypedStep} (h : step.Halves b.draft) :
    ∃ first second after e b', step.expansion b.draft = .ok (.two first second) ∧
      b.draft.stack.step b.draft.graph b.draft.context first = .ok after ∧
      step.build b = .error e b' ∧ (b.withInstruction first after).Unchanged b' := by
  cases h with
  | @dispatch m r fault hdispatch hfree hfault =>
    have hexpansion : expansion b.draft (.callVirtual m (some r)) =
        .ok (.two (.constrained r) (.callvirt m)) := by
      rw [expansion, hdispatch]
    have hstep : b.draft.stack.step b.draft.graph b.draft.context (.constrained r) = .ok b.draft.stack := by
      cases b.draft.stack <;> rfl
    have hfirst := (Builder.pushInstruction_ok_iff fun _ => rfl).mpr ⟨fun _ => hfree, _, hstep, rfl⟩
    obtain ⟨e, b₂, hsecond⟩ := (Builder.constrainedCall_refused_iff hfirst).mpr ⟨fault, hfault⟩
    exact ⟨_, _, _, e, b₂, hexpansion, hstep, build_between hexpansion hfirst hsecond⟩
  | @constant value hsmall hfree hreachable hclass =>
    have hexpansion : expansion b.draft (.constLong value) =
        .ok (.two (.ldcI4 value.toInt32) (.conv .i64 false false)) := by
      rw [expansion, if_pos hsmall]
    obtain ⟨after, hstep⟩ : ∃ after,
        b.draft.stack.step b.draft.graph b.draft.context (.ldcI4 value.toInt32) = .ok after := by
      cases b.draft.stack <;> exact ⟨_, rfl⟩
    have hfirst := (Builder.pushInstruction_ok_iff fun _ => rfl).mpr ⟨fun _ => hfree, _, hstep, rfl⟩
    obtain ⟨e, b₂, hsecond⟩ := (Builder.widen_refused_iff hfirst).mpr ⟨hreachable, hclass⟩
    exact ⟨_, _, _, e, b₂, hexpansion, hstep, build_between hexpansion hfirst hsecond⟩

/-- **`refused_or_halved`** — over a recording, a step that is refused leaves all but the graph and the journal
as they were, unless it halves: then it is refused, and leaves what its first instruction alone would have. -/
theorem refused_or_halved (step : TypedStep) (b : Builder Recording) :
    (¬ step.Halves b.draft → ∀ e b', step.build b = .error e b' → b.Unchanged b') ∧
      (step.Halves b.draft →
        ∃ first second after e b', step.expansion b.draft = .ok (.two first second) ∧
          b.draft.stack.step b.draft.graph b.draft.context first = .ok after ∧
          step.build b = .error e b' ∧ (b.withInstruction first after).Unchanged b') :=
  ⟨fun hwhole _ _ => refused_whole hwhole, halved⟩

end TypedStep

namespace Sample

/-- A struct with a virtual method, added to the graph. -/
def number : TypeId × TypeGraph := graph.addValueType "Number" system.valueType .visible

/-- The virtual method. -/
def describeNumber : MethodId × TypeGraph := number.2.addMethod number.1 "Describe" [] none .virtual

/-- A point where a number is on the stack. -/
def withNumber : Builder Recording :=
  ((Session.start describeNumber.2 system method Recording.empty).run
    [.declareLocal number.1, .instruction (.localVariable .load 0)]).builder

/-- The virtual call on a number. -/
def callDescribe : TypedStep := .callVirtual describeNumber.1 (some number.1)

/-- The call wants the address of the number.  It is refused, and its qualifier stays. -/
theorem callDescribe_leaves_qualifier :
    callDescribe.build.succeeds withNumber = false ∧
      (callDescribe.build.reached withNumber).draft.constrained ≠ withNumber.draft.constrained ∧
      (callDescribe.build.reached withNumber).sink ≠ withNumber.sink := by
  decide +kernel

theorem halved_callDescribe : callDescribe.Halves withNumber.draft ∧
    ∃ e b', callDescribe.build withNumber = .error e b' ∧ b'.draft.constrained = some number.1 := by
  have hpoint : Builder.dispatchOf withNumber.draft.graph describeNumber.1 number.1 = .constrained ∧
      withNumber.draft.constrained = none ∧
      (withNumber.draft.stack.step withNumber.draft.graph
        { withNumber.draft.context with constrained := some number.1 }
        (.callvirt describeNumber.1)).isOk = false := by
    decide +kernel
  obtain ⟨hdispatch, hfree, hrefused⟩ := hpoint
  have hhalves : callDescribe.Halves withNumber.draft := by
    cases hstep : withNumber.draft.stack.step withNumber.draft.graph
        { withNumber.draft.context with constrained := some number.1 } (.callvirt describeNumber.1) with
    | ok after =>
      rw [hstep] at hrefused
      cases hrefused
    | error fault => exact .dispatch hdispatch hfree hstep
  obtain ⟨first, second, after, e, b', hexpansion, -, hbuild, hleft⟩ :=
    (callDescribe.refused_or_halved withNumber).2 hhalves
  refine ⟨hhalves, e, b', hbuild, ?_⟩
  have hfirst : callDescribe.expansion withNumber.draft =
      .ok (.two (.constrained number.1) (.callvirt describeNumber.1)) := by
    rw [callDescribe, TypedStep.expansion, hdispatch]
  cases hfirst.symm.trans hexpansion
  rw [hleft]
  rfl

end Sample

end ManagedCode
