/-
# ManagedCode.Proofs.Sink.Delivery — calls on a sink as data.

A sink is only ever changed by calls, so what has happened to it is a list of them.  `Takes` says that a
sink accepts a list of calls and what it is afterwards.  The `Transcript` is the sink that does nothing but
remember its calls with all that they were given: it refuses nothing, and any other sink can be asked
whether it would have taken the same calls.
-/
import ManagedCode.Sink.Basic

namespace ManagedCode

/-- **`Delivery`** — one call on a sink, with all that it is given. -/
inductive Delivery
  | instruction (g : TypeGraph) (insn : Instruction)
  | branch (branch : Branch Label)
  | label (label : Label)
  /-- Opens a protected block, if no block is given, or a handler of the given block. -/
  | beginRegion (g : TypeGraph) (region : Region) (kind : RegionKind) (tryRegion : Option Region)
  | endRegion (region : Region)

variable {σ : Type} [CodeSink σ]

/-- The call on a sink. -/
def Delivery.make : Delivery → SinkCall σ
  | .instruction g insn => CodeSink.emit g insn
  | .branch b => CodeSink.emitBranch b
  | .label l => CodeSink.markLabel l
  | .beginRegion g region kind tryRegion => CodeSink.beginRegion g region kind tryRegion
  | .endRegion region => CodeSink.endRegion region

/-- Makes calls one after the other, until one is refused. -/
def deliver : List Delivery → SinkCall σ
  | [] => fun s => .ok () s
  | call :: rest => fun s =>
    match call.make s with
    | .ok () s' => deliver rest s'
    | .error e s' => .error e s'

/-- **`Takes`** — the sink accepts all of the calls, and is `s'` afterwards. -/
def Takes (s : σ) (calls : List Delivery) (s' : σ) : Prop := deliver calls s = .ok () s'

@[simp] theorem takes_nil {s s' : σ} : Takes s [] s' ↔ s = s' := by
  rw [Takes, deliver, EStateM.Result.ok.injEq]
  exact and_iff_right rfl

theorem takes_cons {s s' : σ} {call : Delivery} {rest : List Delivery} :
    Takes s (call :: rest) s' ↔ ∃ s₁, call.make s = .ok () s₁ ∧ Takes s₁ rest s' := by
  cases hcall : call.make s with
  | error e s₁ => simp [Takes, deliver, hcall]
  | ok _ s₁ => simp [Takes, deliver, hcall]

theorem takes_append {s s' : σ} {calls calls' : List Delivery} :
    Takes s (calls ++ calls') s' ↔ ∃ s₁, Takes s calls s₁ ∧ Takes s₁ calls' s' := by
  induction calls generalizing s with
  | nil => simp
  | cons call rest ih =>
    rw [List.cons_append, takes_cons]
    constructor
    · rintro ⟨s₁, hcall, hrest⟩
      obtain ⟨s₂, hfirst, hlast⟩ := ih.mp hrest
      exact ⟨s₂, takes_cons.mpr ⟨s₁, hcall, hfirst⟩, hlast⟩
    · rintro ⟨s₂, hfirst, hlast⟩
      obtain ⟨s₁, hcall, hrest⟩ := takes_cons.mp hfirst
      exact ⟨s₁, hcall, ih.mpr ⟨s₂, hrest, hlast⟩⟩

theorem takes_concat {s s' : σ} {calls : List Delivery} {call : Delivery} :
    Takes s (calls ++ [call]) s' ↔ ∃ s₁, Takes s calls s₁ ∧ call.make s₁ = .ok () s' := by
  rw [takes_append]
  refine exists_congr fun s₁ => and_congr_right fun _ => ?_
  rw [takes_cons]
  simp

/-- The calls alone say what becomes of the sink. -/
theorem Takes.unique {s s₁ s₂ : σ} {calls : List Delivery} (h₁ : Takes s calls s₁) (h₂ : Takes s calls s₂) :
    s₁ = s₂ := by
  cases h₁.symm.trans h₂
  rfl

/-- A sink that takes a list of calls takes every beginning of it. -/
theorem Takes.of_prefix {s s' : σ} {calls calls' : List Delivery} (h : Takes s calls' s')
    (hp : calls <+: calls') : ∃ s₁, Takes s calls s₁ := by
  obtain ⟨rest, rfl⟩ := hp
  obtain ⟨s₁, hfirst, -⟩ := takes_append.mp h
  exact ⟨s₁, hfirst⟩

/-! ## § The sink that only remembers -/

/-- The calls that were made, in order. -/
structure Transcript where
  calls : List Delivery := []

namespace Transcript

/-- No call was made yet. -/
def empty : Transcript := {}

/-- Remembers a call. -/
def add (call : Delivery) (t : Transcript) : Transcript := { calls := t.calls ++ [call] }

instance : CodeSink Transcript where
  emit g insn := modify (add (.instruction g insn))
  emitBranch b := modify (add (.branch b))
  markLabel l := modify (add (.label l))
  beginRegion g region kind tryRegion := modify (add (.beginRegion g region kind tryRegion))
  endRegion region := modify (add (.endRegion region))

/-- The transcript refuses no call. -/
theorem make_eq (call : Delivery) (t : Transcript) : call.make t = .ok () (t.add call) := by
  cases call <;> rfl

end Transcript

/-- The recording refuses no call either. -/
theorem Recording.takes (calls : List Delivery) (r : Recording) : ∃ r', Takes r calls r' := by
  induction calls generalizing r with
  | nil => exact ⟨r, takes_nil.mpr rfl⟩
  | cons call rest ih =>
    have hcall : ∃ r₁, call.make r = .ok () r₁ := by cases call <;> exact ⟨_, rfl⟩
    obtain ⟨r₁, hr₁⟩ := hcall
    obtain ⟨r', hr'⟩ := ih r₁
    exact ⟨r', takes_cons.mpr ⟨r₁, hr₁, hr'⟩⟩

end ManagedCode
