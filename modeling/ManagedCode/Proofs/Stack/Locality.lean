/-
# ManagedCode.Proofs.Stack.Locality — an instruction sees its operands and nothing beneath them.

An effect runs in stages: the depth, the operands, the pair, the results, and only then are slots replaced.
The stages in the middle read the operands alone (`results`), so whatever lies beneath them decides nothing
and is carried over.  The last stage cannot fail.  Run as programs that change one stack, the operations
therefore leave the stack as it was whenever they are refused.

Two faults are reserved for results that refer to operands the effect does not have.  No row of the tables
has such a result (`Resolvable`), so neither of them is ever reported.
-/
import ManagedCode.Proofs.Flow.InPlace
import ManagedCode.Proofs.Stack.Application

namespace ManagedCode

open InPlace

/-! ## § Faults -/

/-- The table of effects is at fault, and not the code that is verified. -/
def VerifierFault.IsInternal (e : VerifierFault) : Prop :=
  e = .invalidInstruction .resultNotPopped ∨ e = .invalidInstruction .arithmeticWithoutOperands

theorem VerifierFault.not_internal_of_use {use : InvalidUse}
    (h : use ≠ .resultNotPopped ∧ use ≠ .arithmeticWithoutOperands) :
    ¬ (VerifierFault.invalidInstruction use).IsInternal := by
  simpa [IsInternal] using h

/-- The operands are at fault: one of them is not accepted, or two cannot be combined. -/
inductive VerifierFault.OfOperands : VerifierFault → Prop
  | operand {expected : Expect} {found : TypeTag} : OfOperands (.incompatibleOperand expected found)
  | pair {left right : TypeTag} : OfOperands (.incompatiblePair left right)

theorem VerifierFault.OfOperands.not_internal {e : VerifierFault} (h : e.OfOperands) : ¬ e.IsInternal := by
  cases h <;> simp [VerifierFault.IsInternal]

/-! ## § Effects on their operands -/

/-- The result stands for something as soon as the operands are accepted. -/
def Produce.Resolvable (effect : StackEffect) : Produce → Prop
  | .type _ => True
  | .popped position => position < effect.pops.length
  | .arithmetic => effect.pair.isSome = true ∧ 2 ≤ effect.pops.length

/-- Every result of the effect stands for something. -/
def StackEffect.Resolvable (effect : StackEffect) : Prop := ∀ p ∈ effect.pushes, p.Resolvable effect

namespace StackEffect

variable {g : TypeGraph} {system : SystemTypes} {effect : StackEffect} {operands : List TypeTag}

/-- **`results`** — what an effect makes of as many operands as it pops: the tags that it pushes, in the
order in which they are pushed. -/
def results (g : TypeGraph) (system : SystemTypes) (effect : StackEffect) (operands : List TypeTag) :
    Except VerifierFault (List TypeTag) := do
  checkPops g effect.pops operands
  let pair ← checkPair g system effect.pair operands
  resolvePushes operands pair effect.pushes

/-- An effect looks at the depth, and then at its operands only. -/
theorem apply_eq (g : TypeGraph) (system : SystemTypes) (effect : StackEffect) (slots : List TypeTag) :
    effect.apply g system slots =
      if slots.length < effect.pops.length then .error (.stackUnderflow effect.pops.length slots.length)
      else (effect.results g system (slots.take effect.pops.length)).map fun pushed =>
        pushed.reverse ++ slots.drop effect.pops.length := by
  rw [apply, results]
  dsimp only
  split
  · rfl
  · generalize slots.take effect.pops.length = operands
    cases checkPops g effect.pops operands with
    | error e => rfl
    | ok _ =>
      cases checkPair g system effect.pair operands with
      | error e => rfl
      | ok pair => exact (map_eq_pure_bind _ (resolvePushes operands pair effect.pushes)).symm

theorem checkPops_error {expects : List Expect} {found : List TypeTag} {e : VerifierFault}
    (h : checkPops g expects found = .error e) : e.OfOperands := by
  induction expects generalizing found with
  | nil => cases h
  | cons expect expects ih =>
    cases found with
    | nil => cases h
    | cons tag found =>
      rw [checkPops] at h
      split at h
      · exact ih h
      · cases h
        exact .operand

theorem checkPair_error {rule : Option PairRule} {e : VerifierFault}
    (h : checkPair g system rule operands = .error e) : e.OfOperands := by
  match rule, operands with
  | none, _ => cases h
  | some _, [] => cases h
  | some _, [_] => cases h
  | some rule, right :: left :: _ =>
    rw [checkPair, PairRule.result] at h
    cases hresult : rule.result? g system left right with
    | some tag =>
      rw [hresult] at h
      cases h
    | none =>
      rw [hresult] at h
      cases h
      exact .pair

/-- A pair rule that has two operands and is satisfied has a result. -/
theorem checkPair_ok {rule : Option PairRule} {pair : Option TypeTag}
    (h : checkPair g system rule operands = .ok pair) (hrule : rule.isSome = true)
    (htwo : 2 ≤ operands.length) : ∃ tag, pair = some tag := by
  match rule, operands with
  | some rule, right :: left :: _ =>
    rw [checkPair] at h
    cases hresult : rule.result g system left right with
    | error e =>
      rw [hresult] at h
      cases h
    | ok tag =>
      rw [hresult] at h
      cases h
      exact ⟨tag, rfl⟩

/-- Nothing is missing once the operands are accepted. -/
theorem resolveProduce_ok {pair : Option TypeTag} (hlen : operands.length = effect.pops.length)
    (hpair : checkPair g system effect.pair operands = .ok pair) {p : Produce} (hp : p.Resolvable effect) :
    ∃ tag, resolveProduce operands pair p = .ok tag := by
  cases p with
  | type tag => exact ⟨tag, rfl⟩
  | popped position =>
    have hlt : position < operands.length := hlen ▸ hp
    refine ⟨operands[position], ?_⟩
    rw [resolveProduce, List.getElem?_eq_getElem hlt]
  | arithmetic =>
    obtain ⟨tag, rfl⟩ := checkPair_ok hpair hp.1 (hlen ▸ hp.2)
    exact ⟨tag, rfl⟩

theorem resolvePushes_ok {pair : Option TypeTag} {pushes : List Produce}
    (h : ∀ p ∈ pushes, ∃ tag, resolveProduce operands pair p = .ok tag) :
    ∃ pushed, resolvePushes operands pair pushes = .ok pushed ∧ pushed.length = pushes.length := by
  induction pushes with
  | nil => exact ⟨[], rfl, rfl⟩
  | cons p pushes ih =>
    obtain ⟨tag, htag⟩ := h p List.mem_cons_self
    obtain ⟨tags, htags, hlen⟩ := ih fun p hp => h p (List.mem_cons_of_mem _ hp)
    refine ⟨tag :: tags, ?_, congrArg Nat.succ hlen⟩
    rw [resolvePushes, htag, htags]
    rfl

/-- **`results_cases`** — an effect whose results can be resolved pushes all of them, or its operands are at
fault. -/
theorem results_cases (g : TypeGraph) (system : SystemTypes) (heffect : effect.Resolvable)
    (hlen : operands.length = effect.pops.length) :
    (∃ pushed, effect.results g system operands = .ok pushed ∧ pushed.length = effect.pushes.length) ∨
      ∃ e, effect.results g system operands = .error e ∧ e.OfOperands := by
  rw [results]
  cases hpops : checkPops g effect.pops operands with
  | error e => exact .inr ⟨e, rfl, checkPops_error hpops⟩
  | ok _ =>
    cases hpair : checkPair g system effect.pair operands with
    | error e => exact .inr ⟨e, rfl, checkPair_error hpair⟩
    | ok pair => exact .inl (resolvePushes_ok fun p hp => resolveProduce_ok hlen hpair (heffect p hp))

/-- **`apply_error`** — what is refused is a stack that is not deep enough, or operands that do not fit. -/
theorem apply_error (heffect : effect.Resolvable) {slots : List TypeTag} {e : VerifierFault}
    (h : effect.apply g system slots = .error e) :
    slots.length < effect.pops.length ∧ e = .stackUnderflow effect.pops.length slots.length ∨
      e.OfOperands := by
  rw [apply_eq] at h
  split at h
  case isTrue hdepth =>
    cases h
    exact .inl ⟨hdepth, rfl⟩
  case isFalse hdepth =>
    have hlen : (slots.take effect.pops.length).length = effect.pops.length := by
      rw [List.length_take, Nat.min_eq_left (Nat.le_of_not_lt hdepth)]
    rcases results_cases g system heffect hlen with ⟨pushed, hresults, -⟩ | ⟨e', hresults, he⟩
    · rw [hresults] at h
      cases h
    · rw [hresults] at h
      cases h
      exact .inr he

/-- **`apply_ok`** — what is accepted has all its operands replaced, and nothing else. -/
theorem apply_ok {slots out : List TypeTag} (h : effect.apply g system slots = .ok out) :
    effect.pops.length ≤ slots.length ∧
      out.length = slots.length - effect.pops.length + effect.pushes.length ∧
      out.drop effect.pushes.length = slots.drop effect.pops.length := by
  obtain ⟨hdepth, -, pair, pushed, -, hpushed, rfl⟩ := apply_ok_iff.mp h
  have hlen : pushed.reverse.length = effect.pushes.length := by
    rw [List.length_reverse, hpushed.length_eq]
  refine ⟨hdepth, ?_, ?_⟩
  · rw [List.length_append, List.length_drop, hlen, Nat.add_comm]
  · rw [← hlen, List.drop_left]

/-- **`apply_append`** — on a stack that is deep enough, whatever lies underneath is carried over and decides
nothing. -/
theorem apply_append (g : TypeGraph) (system : SystemTypes) (effect : StackEffect) {slots : List TypeTag}
    (hdepth : effect.pops.length ≤ slots.length) (under : List TypeTag) :
    effect.apply g system (slots ++ under) = (effect.apply g system slots).map (· ++ under) := by
  have hdeep : ¬ (slots ++ under).length < effect.pops.length := by
    rw [List.length_append]
    omega
  rw [apply_eq, apply_eq, if_neg hdeep, if_neg (Nat.not_lt.mpr hdepth),
    List.take_append_of_le_length hdepth, List.drop_append_of_le_length hdepth]
  cases effect.results g system (slots.take effect.pops.length) with
  | error e => rfl
  | ok pushed => exact congrArg Except.ok (List.append_assoc _ _ _).symm

end StackEffect

/-! ## § The tables -/

namespace StackEffect

theorem resolvable_of_typed {effect : StackEffect} (h : ∀ p ∈ effect.pushes, ∃ tag, p = .type tag) :
    effect.Resolvable := by
  intro p hp
  obtain ⟨tag, rfl⟩ := h p hp
  trivial

theorem resolvable_nothing : nothing.Resolvable := resolvable_of_typed (by simp [nothing])

theorem resolvable_push (tag : TypeTag) : (push tag).Resolvable := resolvable_of_typed (by simp [push])

theorem resolvable_pop (e : Expect) : (pop e).Resolvable := resolvable_of_typed (by simp [pop])

theorem resolvable_replace (pops : List Expect) (tag : TypeTag) : (replace pops tag).Resolvable :=
  resolvable_of_typed (by simp [replace])

/-- A pair rule has its two operands, whatever is pushed. -/
theorem resolvable_binary (rule : PairRule) {pushes : List Produce}
    (h : ∀ p ∈ pushes, ∀ position, p ≠ .popped position) : (binary rule pushes).Resolvable := by
  intro p hp
  cases p with
  | type tag => trivial
  | popped position => exact absurd rfl (h _ hp position)
  | arithmetic => exact ⟨rfl, Nat.le_refl 2⟩

theorem resolvable_accessLocation (g : TypeGraph) (access : Access) (t : TypeId) :
    (accessLocation g access t).Resolvable := by
  cases access with
  | load | address => exact resolvable_push _
  | store => exact resolvable_pop _

theorem resolvable_accessField (g : TypeGraph) (access : Access) (owner t : TypeId) :
    (accessField g access owner t).Resolvable := by
  cases access with
  | load | address => exact resolvable_replace _ _
  | store => exact resolvable_of_typed (by simp [accessField])

theorem resolvable_accessElement (g : TypeGraph) (access : Access) (t : TypeId) :
    (accessElement g access t).Resolvable := by
  cases access with
  | load | address => exact resolvable_replace _ _
  | store => exact resolvable_of_typed (by simp [accessElement])

theorem resolvable_callMethod (g : TypeGraph) (ctx : MethodContext) (isVirtual : Bool) (m : MethodEntry) :
    (callMethod g ctx isVirtual m).Resolvable := by
  refine resolvable_of_typed fun p hp => ?_
  obtain ⟨t, -, rfl⟩ := Option.map_eq_some_iff.mp (Option.mem_toList.mp hp)
  exact ⟨_, rfl⟩

end StackEffect

/-- A row of the table of effects: an effect whose results can be resolved, or a fault of the instruction
itself. -/
inductive ResolvableRow : Except VerifierFault StackEffect → Prop
  | effect {effect : StackEffect} (h : effect.Resolvable) : ResolvableRow (.ok effect)
  | refused {e : VerifierFault} (h : ¬ e.IsInternal) : ResolvableRow (.error e)

namespace ResolvableRow

/-- A row that depends on a lookup which may find nothing. -/
theorem lookup {α : Type} {found : Except VerifierFault α} {row : α → StackEffect}
    (hrow : ∀ a, (row a).Resolvable) (hfound : ∀ e, found = .error e → ¬ e.IsInternal) :
    ResolvableRow (found >>= fun a => pure (row a)) := by
  cases h : found with
  | ok a => exact .effect (hrow a)
  | error e => exact .refused (hfound e h)

/-- A row that is refused for the operands of the instruction. -/
theorem guarded {c : Prop} [Decidable c] {use : InvalidUse} {row : Except VerifierFault StackEffect}
    (huse : use ≠ .resultNotPopped ∧ use ≠ .arithmeticWithoutOperands) (hrow : ResolvableRow row) :
    ResolvableRow (if c then .error (.invalidInstruction use) else row) := by
  split
  · exact .refused (VerifierFault.not_internal_of_use huse)
  · exact hrow

/-- A row that is there for some operands of the instruction only. -/
theorem allowed {c : Prop} [Decidable c] {use : InvalidUse} {row : Except VerifierFault StackEffect}
    (huse : use ≠ .resultNotPopped ∧ use ≠ .arithmeticWithoutOperands) (hrow : ResolvableRow row) :
    ResolvableRow (if c then row else .error (.invalidInstruction use)) := by
  split
  · exact hrow
  · exact .refused (VerifierFault.not_internal_of_use huse)

end ResolvableRow

theorem MethodContext.argument_error {ctx : MethodContext} {index : UInt16} {e : VerifierFault}
    (h : ctx.argument index = .error e) : ¬ e.IsInternal := by
  rw [argument] at h
  cases hfound : ctx.arguments[index.toNat]? <;> rw [hfound] at h <;> cases h
  simp [VerifierFault.IsInternal]

theorem MethodContext.localVariable_error {ctx : MethodContext} {index : UInt16} {e : VerifierFault}
    (h : ctx.localVariable index = .error e) : ¬ e.IsInternal := by
  rw [localVariable] at h
  cases hfound : ctx.locals[index.toNat]? <;> rw [hfound] at h <;> cases h
  simp [VerifierFault.IsInternal]

open StackEffect in
/-- **`resolvableRow`** — every row of the table of instructions is sound. -/
theorem Instruction.resolvableRow (g : TypeGraph) (ctx : MethodContext) (insn : Instruction) :
    ResolvableRow (insn.effect g ctx) := by
  cases insn with
  | nop | constrained => exact .effect resolvable_nothing
  | argument access index =>
    exact .lookup (fun t => resolvable_accessLocation g access t) fun _ => MethodContext.argument_error
  | localVariable access index =>
    exact .lookup (fun t => resolvable_accessLocation g access t) fun _ =>
      MethodContext.localVariable_error
  | ldnull | ldcI4 | ldcI8 | ldcR4 | ldcR8 | ldstr | ldftn | sizeof => exact .effect (resolvable_push _)
  | pop | initobj => exact .effect (resolvable_pop _)
  | dup | shift | neg | complement =>
    -- The rows that copy operands.
    refine .effect fun p hp => ?_
    simp only [List.mem_cons, List.not_mem_nil, or_false, or_self] at hp
    subst hp
    simp [Produce.Resolvable]
  | binary | compare => exact .effect (resolvable_binary _ (by simp))
  | element access t => exact .effect (resolvable_accessElement g access t)
  | ldlen | newarr | ldobj | box | unboxAny | castclass | isinst => exact .effect (resolvable_replace _ _)
  | stobj => exact .effect (resolvable_of_typed (by simp))
  | call m => exact .effect (resolvable_callMethod g ctx false _)
  | callvirt m => exact .guarded (by decide) (.effect (resolvable_callMethod g ctx true _))
  | conv => exact .guarded (by decide) (.guarded (by decide) (.effect (resolvable_replace _ _)))
  | instanceField access f => exact .guarded (by decide) (.effect (resolvable_accessField g access _ _))
  | staticField access f => exact .allowed (by decide) (.effect (resolvable_accessLocation g access _))
  | ldind => exact .guarded (by decide) (.effect (resolvable_replace _ _))
  | stind => exact .guarded (by decide) (.effect (resolvable_of_typed (by simp)))
  | unbox | newobj => exact .allowed (by decide) (.effect (resolvable_replace _ _))
  | ldvirtftn => exact .guarded (by decide) (.effect (resolvable_replace _ _))

open StackEffect in
/-- **`effect_resolvable`** — and so is every row of the table of branches. -/
theorem Branch.effect_resolvable {Target : Type} (g : TypeGraph) (ctx : MethodContext)
    (branch : Branch Target) : (branch.effect g ctx).Resolvable := by
  cases branch with
  | br | leave | rethrow | endfinally => exact resolvable_nothing
  | brtrue | brfalse | switch | endfilter | throw => exact resolvable_pop _
  | compare => exact resolvable_binary _ (by simp)
  | ret =>
    rw [effect]
    split
    · exact resolvable_pop _
    · exact resolvable_nothing

/-! ## § Programs -/

/-- Runs a program where the stack is reachable, and leaves an unreachable one alone. -/
def InPlace.whereReachable {ε α : Type} (otherwise : α) (run : InPlace ε AbstractStack α) :
    InPlace ε AbstractStack α
  | .unreachable => .ok otherwise .unreachable
  | .reachable slots => run (.reachable slots)

/-- Runs a program on the slots of a reachable stack. -/
def InPlace.onSlots {ε : Type} (run : InPlace ε (List TypeTag) Unit) : InPlace ε AbstractStack Unit
  | .unreachable => .ok () .unreachable
  | .reachable slots =>
    match run slots with
    | .ok () slots' => .ok () (.reachable slots')
    | .error e slots' => .error e (.reachable slots')

/-- The operands of an effect, topmost first, if the stack is deep enough. -/
def StackEffect.operands (effect : StackEffect) (slots : List TypeTag) :
    Except VerifierFault (List TypeTag) :=
  if slots.length < effect.pops.length then .error (.stackUnderflow effect.pops.length slots.length)
  else .ok (slots.take effect.pops.length)

/-- Pops and checks operands, then pushes results. -/
def StackEffect.applyInPlace (g : TypeGraph) (system : SystemTypes) (effect : StackEffect) :
    InPlace VerifierFault (List TypeTag) Unit := do
  let popped ← reading effect.operands
  reading fun _ => checkPops g effect.pops popped
  let pair ← reading fun _ => checkPair g system effect.pair popped
  let pushed ← reading fun _ => resolvePushes popped pair effect.pushes
  change (·.drop effect.pops.length)
  change (pushed.reverse ++ ·)

namespace AbstractStack

/-- Runs a straight-line instruction. -/
def stepInPlace (g : TypeGraph) (ctx : MethodContext) (insn : Instruction) :
    InPlace VerifierFault AbstractStack Unit :=
  whereReachable () do
    let effect ← reading fun _ => insn.effect g ctx
    onSlots (effect.applyInPlace g ctx.system)

/-- Runs a branch, and answers the stack that it delivers to its targets. -/
def jumpInPlace {Target : Type} (g : TypeGraph) (ctx : MethodContext) (branch : Branch Target) :
    InPlace VerifierFault AbstractStack AbstractStack :=
  whereReachable .unreachable do
    onSlots ((branch.effect g ctx).applyInPlace g ctx.system)
    let s ← get
    if branch.isTerminal then
      change fun _ => .unreachable
    return if branch.isLeave then .empty else s

end AbstractStack

theorem StackEffect.applyInPlace_eq (g : TypeGraph) (system : SystemTypes) (effect : StackEffect)
    (slots : List TypeTag) :
    effect.applyInPlace g system slots = settled slots ((effect.apply g system slots).map ((), ·)) := by
  simp only [applyInPlace, bind_run, reading_run, apply, operands]
  by_cases hdepth : slots.length < effect.pops.length
  · simp only [if_pos hdepth]
    rfl
  · simp only [if_neg hdepth]
    generalize slots.take effect.pops.length = popped
    cases checkPops g effect.pops popped with
    | error e => rfl
    | ok _ =>
      cases checkPair g system effect.pair popped with
      | error e => rfl
      | ok pair =>
        cases hpushed : resolvePushes popped pair effect.pushes <;>
          simp only [bind, Except.bind, hpushed] <;> rfl

/-- Running an effect on the slots of a reachable stack. -/
theorem InPlace.onSlots_apply (g : TypeGraph) (system : SystemTypes) (effect : StackEffect)
    (slots : List TypeTag) :
    onSlots (effect.applyInPlace g system) (.reachable slots) =
      settled (.reachable slots) ((effect.apply g system slots).map fun out => ((), .reachable out)) := by
  rw [onSlots, StackEffect.applyInPlace_eq]
  cases effect.apply g system slots <;> rfl

namespace AbstractStack

theorem stepInPlace_eq (g : TypeGraph) (ctx : MethodContext) (insn : Instruction) (s : AbstractStack) :
    stepInPlace g ctx insn s = settled s ((s.step g ctx insn).map ((), ·)) := by
  cases s with
  | unreachable => rfl
  | reachable slots =>
    simp only [stepInPlace, whereReachable, bind_run, reading_run, step]
    cases insn.effect g ctx with
    | error e => rfl
    | ok effect =>
      show onSlots _ _ = _
      rw [onSlots_apply]
      cases h : effect.apply g ctx.system slots <;> simp only [bind, Except.bind, h] <;> rfl

theorem jumpInPlace_eq {Target : Type} (g : TypeGraph) (ctx : MethodContext) (branch : Branch Target)
    (s : AbstractStack) :
    jumpInPlace g ctx branch s = settled s ((s.jump g ctx branch).map fun j => (j.delivered, j.next)) := by
  cases s with
  | unreachable => rfl
  | reachable slots =>
    simp only [jumpInPlace, whereReachable, bind_run, onSlots_apply, jump]
    cases (branch.effect g ctx).apply g ctx.system slots with
    | error e => rfl
    | ok out => cases branch <;> rfl

end AbstractStack

/-! ## § Locality -/

/-- **`Transacts`** — a program takes some operands off the stack and leaves some results in their place, and
does so in one piece.  What it answers, and the stack it leaves, is the `shape` of the slots by then. -/
structure Transacts {α : Type} (run : InPlace VerifierFault AbstractStack α) (takes leaves : Nat)
    (shape : List TypeTag → α × AbstractStack) : Prop where
  /-- An underflow is reported exactly for a stack that is not deep enough. -/
  underflow_iff : ∀ {slots s' required available},
    run (.reachable slots) = .error (.stackUnderflow required available) s' ↔
      slots.length < takes ∧ required = takes ∧ available = slots.length ∧ s' = .reachable slots
  /-- Whatever is refused leaves the stack as it was, and is not for want of a result. -/
  refused : ∀ {slots e s'}, run (.reachable slots) = .error e s' →
    s' = .reachable slots ∧ ¬ e.IsInternal
  /-- The slots beneath the operands are kept. -/
  accepted : ∀ {slots a s'}, run (.reachable slots) = .ok a s' →
    takes ≤ slots.length ∧ ∃ out, (a, s') = shape out ∧ out.length = slots.length - takes + leaves ∧
      out.drop leaves = slots.drop takes
  /-- More slots underneath change neither the verdict nor the slots that are produced. -/
  framed : ∀ {slots}, takes ≤ slots.length → ∀ under,
    (∃ e, run (.reachable slots) = .error e (.reachable slots) ∧
        run (.reachable (slots ++ under)) = .error e (.reachable (slots ++ under))) ∨
      ∃ out, run (.reachable slots) = .ok (shape out).1 (shape out).2 ∧
        run (.reachable (slots ++ under)) = .ok (shape (out ++ under)).1 (shape (out ++ under)).2

open StackEffect in
/-- A program that runs an effect whose results can be resolved. -/
theorem Transacts.of_effect {α : Type} (g : TypeGraph) (system : SystemTypes) {effect : StackEffect}
    {run : InPlace VerifierFault AbstractStack α} {shape : List TypeTag → α × AbstractStack}
    (heffect : effect.Resolvable)
    (hrun : ∀ slots, run (.reachable slots) =
      settled (.reachable slots) ((effect.apply g system slots).map shape)) :
    Transacts run effect.pops.length effect.pushes.length shape := by
  have herror : ∀ {slots e s'}, run (.reachable slots) = .error e s' →
      effect.apply g system slots = .error e ∧ s' = .reachable slots := by
    intro slots e s' h
    rw [hrun] at h
    cases happly : effect.apply g system slots <;> rw [happly] at h <;> cases h
    exact ⟨rfl, rfl⟩
  refine ⟨?underflow, ?refused, ?accepted, ?framed⟩
  case underflow =>
    intro slots s' required available
    constructor
    · intro h
      obtain ⟨happly, rfl⟩ := herror h
      rcases apply_error heffect happly with ⟨hdepth, heq⟩ | he
      · cases heq
        exact ⟨hdepth, rfl, rfl, rfl⟩
      · cases he
    · rintro ⟨hdepth, rfl, rfl, rfl⟩
      rw [hrun, apply_eq, if_pos hdepth]
      rfl
  case refused =>
    intro slots e s' h
    obtain ⟨happly, rfl⟩ := herror h
    refine ⟨rfl, ?_⟩
    rcases apply_error heffect happly with ⟨-, rfl⟩ | he
    · simp [VerifierFault.IsInternal]
    · exact he.not_internal
  case accepted =>
    intro slots a s' h
    rw [hrun] at h
    cases happly : effect.apply g system slots with
    | error e =>
      rw [happly] at h
      cases h
    | ok out =>
      rw [happly] at h
      cases h
      obtain ⟨hdepth, hlen, hlower⟩ := apply_ok happly
      exact ⟨hdepth, out, rfl, hlen, hlower⟩
  case framed =>
    intro slots hdepth under
    rw [hrun, hrun, apply_append g system effect hdepth]
    cases effect.apply g system slots with
    | error e => exact .inl ⟨e, rfl, rfl⟩
    | ok out => exact .inr ⟨out, rfl, rfl⟩

namespace AbstractStack

variable {g : TypeGraph} {ctx : MethodContext}

theorem stepInPlace_transacts {insn : Instruction} {effect : StackEffect}
    (h : insn.effect g ctx = .ok effect) :
    Transacts (stepInPlace g ctx insn) effect.pops.length effect.pushes.length
      fun out => ((), .reachable out) := by
  have heffect : effect.Resolvable := by
    have hrow := insn.resolvableRow g ctx
    rw [h] at hrow
    cases hrow
    assumption
  refine .of_effect g ctx.system heffect fun slots => ?_
  rw [stepInPlace_eq, step_of_effect h]
  cases effect.apply g ctx.system slots <;> rfl

/-- An instruction that has no effect is refused on every stack. -/
theorem stepInPlace_refused {insn : Instruction} {e : VerifierFault} (h : insn.effect g ctx = .error e) :
    ¬ e.IsInternal ∧ ∀ slots, stepInPlace g ctx insn (.reachable slots) = .error e (.reachable slots) := by
  constructor
  · have hrow := insn.resolvableRow g ctx
    rw [h] at hrow
    cases hrow
    assumption
  · intro slots
    rw [stepInPlace_eq, step, h]
    rfl

theorem jumpInPlace_transacts {Target : Type} (g : TypeGraph) (ctx : MethodContext)
    (branch : Branch Target) :
    Transacts (jumpInPlace g ctx branch) (branch.effect g ctx).pops.length
      (branch.effect g ctx).pushes.length fun out =>
        (if branch.isLeave then .empty else .reachable out,
          if branch.isTerminal then .unreachable else .reachable out) := by
  refine .of_effect g ctx.system (branch.effect_resolvable g ctx) fun slots => ?_
  rw [jumpInPlace_eq, jump]
  cases (branch.effect g ctx).apply g ctx.system slots <;> rfl

/-- **`verification_transacts`** — verifying an instruction or a branch is local and happens in one piece, in
every graph and context.  The programs compute what `step` and `jump` compute, on every stack. -/
theorem verification_transacts (g : TypeGraph) (ctx : MethodContext) :
    (∀ insn : Instruction,
      (∀ s, stepInPlace g ctx insn s = settled s ((s.step g ctx insn).map ((), ·))) ∧
      (∀ effect, insn.effect g ctx = .ok effect →
        Transacts (stepInPlace g ctx insn) effect.pops.length effect.pushes.length
          fun out => ((), .reachable out)) ∧
      ∀ e, insn.effect g ctx = .error e →
        ¬ e.IsInternal ∧
          ∀ slots, stepInPlace g ctx insn (.reachable slots) = .error e (.reachable slots)) ∧
    ∀ (Target : Type) (branch : Branch Target),
      (∀ s, jumpInPlace g ctx branch s =
        settled s ((s.jump g ctx branch).map fun j => (j.delivered, j.next))) ∧
      Transacts (jumpInPlace g ctx branch) (branch.effect g ctx).pops.length
        (branch.effect g ctx).pushes.length fun out =>
          (if branch.isLeave then .empty else .reachable out,
            if branch.isTerminal then .unreachable else .reachable out) :=
  ⟨fun insn => ⟨stepInPlace_eq g ctx insn, fun _ => stepInPlace_transacts, fun _ => stepInPlace_refused⟩,
    fun _ branch => ⟨jumpInPlace_eq g ctx branch, jumpInPlace_transacts g ctx branch⟩⟩

end AbstractStack

namespace ShiftOverString

open AbstractStack
open SystemOnly (system graph)

/-- A shift takes two slots and leaves one; the string beneath them stays. -/
theorem shift_transacts :
    Transacts (stepInPlace graph { system } (.shift .shl)) 2 1 (fun out => ((), .reachable out)) ∧
      stepInPlace graph { system } (.shift .shl)
          (.reachable [.value system.int32, .value system.uint32, .value system.string]) =
        .ok () (.reachable [.value system.uint32, .value system.string]) := by
  obtain ⟨hrun, htransacts, -⟩ := (verification_transacts graph { system }).1 (.shift .shl)
  have hstep : (reachable [.value system.int32, .value system.uint32, .value system.string]).step graph
      { system } (.shift .shl) = .ok (.reachable [.value system.uint32, .value system.string]) := by
    decide +kernel
  refine ⟨htransacts _ rfl, ?_⟩
  rw [hrun, hstep]
  rfl

end ShiftOverString

end ManagedCode
