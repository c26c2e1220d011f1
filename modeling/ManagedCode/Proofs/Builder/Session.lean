/-
# ManagedCode.Proofs.Builder.Session — builders in the hands of a caller.

A caller makes one operation after the other and holds the labels it was given.  Nothing is assumed about
the order of the operations, and an operation that is refused leaves what it had reached, so what is said
about a session holds between any two calls.  Steps that stand for one fixed instruction are that
instruction.
-/
import ManagedCode.Builder.Typed
import ManagedCode.Proofs.Builder.Run
import ManagedCode.Proofs.Flow.Regions
import ManagedCode.Proofs.Stack.Growth

namespace ManagedCode

/-! ## § Operations -/

/-- What a caller can ask of a builder. -/
inductive Operation
  | declareLocal (type : TypeId)
  | defineLabel
  | markLabel (label : Label)
  | instruction (insn : Instruction)
  | branch (branch : Branch Label)
  | beginTry
  | beginHandler (tryRegion : Region) (kind : RegionKind)
  | endRegion (region : Region)
  | constLong (value : Int64)
  | signed (choice : SignedChoice)
  | branchIf (relation : Relation) (target : Label)
  | convert (target : Primitive) (checked : Bool)
  | loadElement (element : TypeId)
  | loadIndirect (referent : TypeId)
  | storeIndirect (referent : TypeId)
  | accessField (access : Access) (field : FieldId)
  | callVirtual (method : MethodId) (receiver : Option TypeId)
  deriving DecidableEq

namespace Operation

/-- The straight-line instructions that the operation chooses from. -/
def instructions : Operation → List Instruction
  | .instruction insn => [insn]
  | .constLong value => [.ldcI4 value.toInt32, .conv .i64 false false, .ldcI8 value]
  | .signed choice => [Signedness.signed, .unsigned].filterMap choice.instruction?
  | .convert target checked => [.conv target checked false, .conv target checked true]
  | .loadElement t => [.element .address t, .ldobj t, .element .load t]
  | .loadIndirect t => [.ldobj t, .ldind t]
  | .storeIndirect t => [.stobj t, .stind t]
  | .accessField access f => [.staticField access f, .instanceField access f]
  | .callVirtual m receiver => [.call m, .callvirt m] ++ receiver.toList.map .constrained
  | _ => []

/-- The branches that the operation chooses from. -/
def branches : Operation → List (Branch Label)
  | .branch b => [b]
  | .branchIf relation target =>
    [.compare (relation.comparison .signed) target, .compare (relation.comparison .unsigned) target]
  | _ => []

/-- The labels among the operands. -/
def labels : Operation → List Label
  | .markLabel l => [l]
  | .branch b => b.targets
  | .branchIf _ target => [target]
  | _ => []

/-- The label that the operation places. -/
def placed? : Operation → Option Label
  | .markLabel l => some l
  | _ => none

/-- The types among the operands that no instruction mentions. -/
def types : Operation → List TypeId
  | .declareLocal t => [t]
  | .beginHandler _ (.catchHandler exception) => [exception]
  | _ => []

/-- Types, fields and methods among the operands are in the graph. -/
def Known (g : TypeGraph) (op : Operation) : Prop :=
  (∀ insn ∈ op.instructions, insn.Known g) ∧ ∀ t ∈ op.types, g.Knows t

instance (g : TypeGraph) (op : Operation) : Decidable (op.Known g) := inferInstanceAs (Decidable (_ ∧ _))

theorem Known.extend {g g' : TypeGraph} (h : g.Extends g') {op : Operation} (hop : op.Known g) :
    op.Known g' :=
  ⟨fun insn hinsn => Instruction.Known.extend h (hop.1 insn hinsn), fun t ht => h.knows (hop.2 t ht)⟩

/-- A branch jumps to nothing but labels among the operands. -/
theorem targets_subset {op : Operation} {b : Branch Label} (h : b ∈ op.branches) :
    b.targets ⊆ op.labels := by
  cases op with
  | branch b' =>
    rw [branches, List.mem_singleton] at h
    rw [h]
    exact List.Subset.refl _
  | branchIf relation target =>
    simp only [branches, List.mem_cons, List.not_mem_nil, or_false] at h
    rcases h with rfl | rfl <;> exact List.Subset.refl _
  | _ => simp [branches] at h

variable {σ : Type} [CodeSink σ]

/-- The operation on a builder, which answers with the label that it hands out. -/
def perform : Operation → Build σ (Option Label)
  | .declareLocal t => do let _ ← Builder.declareLocal t; return none
  | .defineLabel => do return some (← Builder.defineLabel)
  | .markLabel l => do Builder.markLabel l; return none
  | .instruction insn => do Builder.pushInstruction insn; return none
  | .branch b => do Builder.pushBranch b; return none
  | .beginTry => do let _ ← Builder.beginTry; return none
  | .beginHandler r kind => do let _ ← Builder.beginHandler r kind; return none
  | .endRegion r => do Builder.endRegion r; return none
  | .constLong value => do Builder.constLong value; return none
  | .signed choice => do Builder.signedOperation choice; return none
  | .branchIf relation target => do Builder.branchIf relation target; return none
  | .convert target checked => do Builder.convert target checked; return none
  | .loadElement t => do Builder.loadElement t; return none
  | .loadIndirect t => do Builder.loadIndirect t; return none
  | .storeIndirect t => do Builder.storeIndirect t; return none
  | .accessField access f => do Builder.accessField access f; return none
  | .callVirtual m receiver => do Builder.callVirtual m receiver; return none

end Operation

/-! ## § Sessions -/

/-- The builder that a step leaves, whether it answers or is refused. -/
def Build.reached {σ α : Type} (x : Build σ α) (b : Builder σ) : Builder σ :=
  match x b with
  | .ok _ b' => b'
  | .error _ b' => b'

/-- The step answers. -/
def Build.succeeds {σ α : Type} (x : Build σ α) (b : Builder σ) : Bool :=
  match x b with
  | .ok _ _ => true
  | .error _ _ => false

/-- A step that does not answer is refused. -/
theorem Build.exists_error {σ α : Type} {x : Build σ α} {b : Builder σ} (h : x.succeeds b = false) :
    ∃ e, x b = .error e (x.reached b) := by
  rw [succeeds] at h
  rw [reached]
  cases hx : x b with
  | ok a b' =>
    rw [hx] at h
    cases h
  | error e b' => exact ⟨e, rfl⟩

/-- A builder and the labels that it has handed out. -/
structure Session (σ : Type) where
  builder : Builder σ
  handles : List Label := []

namespace Session

variable {σ : Type} [CodeSink σ]

/-- A builder for the body of a method, which has handed out nothing yet. -/
def start (g : TypeGraph) (system : SystemTypes) (method : MethodId) (sink : σ) : Session σ :=
  ⟨.start g system method sink, []⟩

/-- **`call`** — makes an operation.  A refused one hands out nothing. -/
def call (s : Session σ) (op : Operation) : Session σ :=
  match op.perform s.builder with
  | .ok label b => ⟨b, label.toList ++ s.handles⟩
  | .error _ b => ⟨b, s.handles⟩

/-- Makes operations one after the other. -/
def run (s : Session σ) (ops : List Operation) : Session σ := ops.foldl call s

/-- Every operation of the run is allowed where it is made. -/
def Admits (allowed : Session σ → Operation → Prop) : Session σ → List Operation → Prop
  | _, [] => True
  | s, op :: rest => allowed s op ∧ Admits allowed (s.call op) rest

/-- The operation names no label but those that were handed out. -/
def Owns (s : Session σ) (op : Operation) : Prop := op.labels ⊆ s.handles

instance (s : Session σ) (op : Operation) : Decidable (s.Owns op) :=
  inferInstanceAs (Decidable (∀ l ∈ op.labels, l ∈ s.handles))

instance (allowed : Session σ → Operation → Prop) [∀ s op, Decidable (allowed s op)] :
    (s : Session σ) → (ops : List Operation) → Decidable (Admits allowed s ops)
  | _, [] => isTrue trivial
  | s, op :: rest =>
    have := instDecidableAdmits allowed (s.call op) rest
    inferInstanceAs (Decidable (_ ∧ _))

/-- The graph has all types, fields and methods that the operation names. -/
def Understands (s : Session σ) (op : Operation) : Prop := op.Known s.builder.draft.graph

instance (s : Session σ) (op : Operation) : Decidable (s.Understands op) :=
  inferInstanceAs (Decidable (op.Known s.builder.draft.graph))

/-- The operation does not place a label between the handlers of a protected block, or is refused there. -/
def Orderly (s : Session σ) (op : Operation) : Prop :=
  ∀ l ∈ op.placed?, s.builder.draft.regions.BetweenHandlers →
    (Builder.markLabel l).succeeds s.builder = false

instance (s : Session σ) (op : Operation) : Decidable (s.Orderly op) :=
  inferInstanceAs (Decidable (∀ l ∈ op.placed?, _ → _))

theorem builder_call (s : Session σ) (op : Operation) :
    (s.call op).builder = op.perform.reached s.builder := by
  rw [call, Build.reached]
  cases op.perform s.builder <;> rfl

/-- Only a new label adds to what the caller holds. -/
theorem handles_call (s : Session σ) {op : Operation} (hop : op ≠ .defineLabel) :
    (s.call op).handles = s.handles := by
  have hsilent {α : Type} (x : Build σ α) {answer : Option Label} {b : Builder σ}
      (h : (x >>= fun _ => pure none : Build σ (Option Label)) s.builder = .ok answer b) :
      answer = none := by
    rw [Builder.bind_run] at h
    cases hx : x s.builder with
    | error e b' =>
      rw [hx] at h
      cases h
    | ok a b' =>
      rw [hx] at h
      cases h
      rfl
  rw [call]
  cases hresult : op.perform s.builder with
  | error e b => rfl
  | ok answer b =>
    have hnone : answer = none := by
      cases op with
      | defineLabel => exact absurd rfl hop
      | _ => exact hsilent _ hresult
    rw [hnone]
    rfl

theorem call_defineLabel (s : Session σ) :
    s.call .defineLabel =
      ⟨⟨{ s.builder.draft with labels := s.builder.draft.labels.define.2 }, s.builder.sink⟩,
        s.builder.draft.labels.fresh :: s.handles⟩ := rfl

theorem admits_true (s : Session σ) (ops : List Operation) : s.Admits (fun _ _ => True) ops := by
  induction ops generalizing s with
  | nil => trivial
  | cons op rest ih => exact ⟨trivial, ih _⟩

theorem Admits.and {allowed allowed' : Session σ → Operation → Prop} {s : Session σ} {ops : List Operation}
    (h : s.Admits allowed ops) (h' : s.Admits allowed' ops) :
    s.Admits (fun s op => allowed s op ∧ allowed' s op) ops := by
  induction ops generalizing s with
  | nil => trivial
  | cons op rest ih => exact ⟨⟨h.1, h'.1⟩, ih h.2 h'.2⟩

/-- **`run_induction`** — what every allowed operation preserves holds after every run of them. -/
theorem run_induction {allowed : Session σ → Operation → Prop} (Inv : Session σ → Prop)
    (hcall : ∀ s op, allowed s op → Inv s → Inv (s.call op)) {s : Session σ} (hs : Inv s)
    {ops : List Operation} (hops : s.Admits allowed ops) : Inv (s.run ops) := by
  induction ops generalizing s with
  | nil => exact hs
  | cons op rest ih =>
    obtain ⟨hop, hrest⟩ := hops
    exact ih (hcall s op hop hs) hrest

end Session

/-! ## § A method to build a body for -/

namespace Sample

export SystemOnly (system)

/-- A class among the system types, and the graph that has it. -/
def owner : TypeId × TypeGraph := SystemOnly.graph.addClass "Sample" system.object .visible

/-- A static method of the class, without parameters and without a result. -/
def method : MethodId := (owner.2.addMethod owner.1 "Run" [] none .static).1

/-- The graph that the body is built over. -/
def graph : TypeGraph := (owner.2.addMethod owner.1 "Run" [] none .static).2

theorem built : graph.Built := by
  refine .addMethod "Run" .static ?_ ?_ (by simp) (by simp)
  · exact TypeGraph.Built.empty.addSystemTypes.addClass "Sample" .visible (by decide +kernel)
  · decide +kernel

end Sample

end ManagedCode
