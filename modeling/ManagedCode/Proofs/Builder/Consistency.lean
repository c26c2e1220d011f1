/-
# ManagedCode.Proofs.Builder.Consistency — what the records of a finished body promise each other.

A session leads from an empty draft, which is typed, to a finished body by steps that keep drafts typed.
When the body is finished its last point is dead and labels that were jumped to have places, so every record
that can be reached has all the successors it needs, and each of them accepts its result.
-/
import ManagedCode.Proofs.Builder.Typing

namespace ManagedCode

/-! ## § The empty draft -/

/-- The argument types of a method are known, and finding them leaves a sound graph. -/
theorem Draft.typed_start {g : TypeGraph} (hg : g.Closed) (hl : g.Lawful) {system : SystemTypes}
    (hsystem : system.Known g) {method : MethodId} (hmethod : g.KnowsMethod method) :
    (Draft.start g system method).Typed := by
  obtain ⟨howner, hparameters, -⟩ := hg.method_known hmethod
  obtain ⟨g', receiver, hstart, hreceiver⟩ := start_eq g system method
  have hgrown : g.Extends g' ∧ g'.Closed ∧ g'.Lawful ∧ ∀ t ∈ receiver, g'.Knows t := by
    rcases hreceiver with ⟨rfl, hall⟩ | ⟨rfl, rfl⟩
    · refine ⟨.refl _, hg, hl, fun t ht => ?_⟩
      rw [hall t ht]
      exact howner
    · refine ⟨TypeGraph.extends_addType _ _ _ _ _, hg.byRef howner, hl.byRef hg _, fun t ht => ?_⟩
      rw [List.mem_singleton.mp ht]
      exact TypeGraph.knows_addType _ _ _ _ _
  obtain ⟨hextends, hclosed, hlawful, hknows⟩ := hgrown
  rw [hstart]
  refine ⟨⟨hclosed, hlawful, fun t ht => hextends.knows (hsystem t ht),
    hextends.knowsMethod hmethod, ?_, ?_, ?_, ?_, ?_⟩, rfl, rfl, ?_, ?_⟩
  · intro t ht
    rw [List.mem_toArray, List.mem_append] at ht
    rcases ht with ht | ht
    · exact hknows t ht
    · exact hextends.knows (hparameters t ht)
  · exact fun t ht => absurd ht (Array.not_mem_empty t)
  · exact AbstractStack.known_empty _
  · rintro l slots ⟨state, hstate, -⟩
    cases hstate
  · intro i r hr
    cases hr
  · intro i r hr
    cases hr
  · intro l k hk
    cases hk

namespace Session

variable {σ : Type} [CodeSink σ] {g : TypeGraph} {system : SystemTypes} {method : MethodId} {sink : σ}

/-! ## § Sessions -/

/-- An operation on known types keeps a draft typed: its steps may add to the graph, which knows its types all
the same. -/
theorem typed_call {s : Session σ} {op : Operation} (hop : s.Understands op) (horderly : s.Orderly op)
    (hsettled : Settled s.builder.draft) (htyped : s.builder.draft.Punctual → s.builder.draft.Typed) :
    (s.call op).builder.draft.Punctual → (s.call op).builder.draft.Typed := by
  have hcall : s.builder.draft.graph.Extends (s.call op).builder.draft.graph ∧
      Settled (s.call op).builder.draft ∧
      ((s.call op).builder.draft.Punctual → (s.call op).builder.draft.Typed) := by
    refine call_induction (fun b => s.builder.draft.graph.Extends b.draft.graph ∧ Settled b.draft ∧
      (b.draft.Punctual → b.draft.Typed)) ?_ ⟨.refl _, hsettled, htyped⟩
    rintro b b' hstep hfirst ⟨hextends, hsettled, htyped⟩
    refine ⟨hextends.trans hstep.graph_extends, hsettled.step horderly hstep hfirst, fun hpunctual => ?_⟩
    exact (htyped (hpunctual.before hstep)).step hstep (hop.extend hextends) hsettled hpunctual
  exact hcall.2.2

/-- **`typed_run`** — a session on known types builds typed drafts, as long as it places no label between
handlers and reaches none late. -/
theorem typed_run {ops : List Operation} (hg : g.Closed) (hl : g.Lawful) (hsystem : system.Known g)
    (hmethod : g.KnowsMethod method) (hknown : (start g system method sink).Admits Understands ops)
    (horderly : (start g system method sink).Admits Orderly ops)
    (hpunctual : ((start g system method sink).run ops).builder.draft.Punctual) :
    ((start g system method sink).run ops).builder.draft.Typed := by
  have hrun : Settled ((start g system method sink).run ops).builder.draft ∧
      (((start g system method sink).run ops).builder.draft.Punctual →
        ((start g system method sink).run ops).builder.draft.Typed) := by
    refine run_induction (fun s => Settled s.builder.draft ∧
      (s.builder.draft.Punctual → s.builder.draft.Typed)) ?_ ?_ (hknown.and horderly)
    · rintro s op ⟨hop, horderly⟩ ⟨hsettled, htyped⟩
      exact ⟨settled_call horderly hsettled, typed_call hop horderly hsettled htyped⟩
    · exact ⟨Draft.settled_start g system method, fun _ => Draft.typed_start hg hl hsystem hmethod⟩
  exact hrun.2 hpunctual

end Session

/-! ## § Finished bodies -/

/-- There is a record at the point, and its stack accepts the given one. -/
def AcceptsAt (g : TypeGraph) (records : Array InstructionRecord) (k : Nat) (s : AbstractStack) : Prop :=
  ∃ r, records[k]? = some r ∧ AbstractStack.isCompatible g s r.stackBefore = true

/-- Nothing fits a dead end: where a stack fits there is a record. -/
theorem Draft.acceptsAt {d : Draft} (hdead : d.stack = .unreachable) {k : Nat} {slots : List TypeTag}
    (h : AbstractStack.isCompatible d.graph (.reachable slots) (d.stackAt k) = true) :
    AcceptsAt d.graph d.records k (.reachable slots) := by
  rw [stackAt] at h
  cases hr : d.records[k]? with
  | none =>
    rw [hr] at h
    have hend : AbstractStack.isCompatible d.graph (.reachable slots) .unreachable = true := by
      rw [← hdead]
      exact h
    cases hend
  | some r =>
    rw [hr] at h
    exact ⟨r, hr, h⟩

namespace Session

variable {σ : Type} [CodeSink σ] {g : TypeGraph} {system : SystemTypes} {method : MethodId} {sink : σ}

/-- **`consistent`** — in a finished body every record that can be reached verifies against its stack, and what
it leaves behind is accepted by each of its successors: by the next record, unless the instruction is terminal,
and by the records after its labels.  Its labels have places; they stand at points of the body if the sink
marks labels once. -/
theorem consistent {ops : List Operation} {code : FinishedCode σ} (hg : g.Built) (hl : g.Lawful)
    (hsystem : system.Known g) (hmethod : g.KnowsMethod method)
    (hknown : (start g system method sink).Admits Understands ops)
    (horderly : (start g system method sink).Admits Orderly ops)
    (hpunctual : ((start g system method sink).run ops).builder.draft.Punctual)
    (hfinish : ((start g system method sink).run ops).builder.finish = .ok code) :
    let d := ((start g system method sink).run ops).builder.draft
    (∀ i r, code.records[i]? = some r → r.stackBefore.isReachable = true →
      ∃ j, r.item.run d.graph (d.contextAt i) r.stackBefore = .ok j ∧
        (r.item.isTerminal = false → AcceptsAt d.graph code.records (i + 1) j.next) ∧
        ∀ l ∈ r.item.targets, d.labels.isPlaced l = true ∧
          ∀ k, d.position? l = some k → AcceptsAt d.graph code.records k j.delivered) ∧
    ∀ marked, CodeSink.MarksOnce marked → (∀ l, ¬ marked sink l) →
      ∀ l, d.labels.isPlaced l = true → ∃ k, d.position? l = some k := by
  intro d
  have htyped : d.Typed := typed_run hg.closed hl hsystem hmethod hknown horderly hpunctual
  obtain ⟨-, hdead, hunplaced, rfl⟩ := Builder.finish_ok hfinish
  refine ⟨?_, fun marked hmarks hnone l hplaced => located_run hmarks hnone ops hplaced⟩
  intro i r hr hreachable
  obtain ⟨j, hj⟩ := htyped.verified hr hreachable
  refine ⟨j, hj.run, ?_, ?_⟩
  · intro hterminal
    obtain ⟨slots, hslots⟩ := CodeItem.run_next hj.run hreachable hterminal
    have hfits := hj.next hterminal
    rw [hslots] at hfits ⊢
    exact Draft.acceptsAt hdead hfits
  · intro l hl
    obtain ⟨slots, hrecords, hfits⟩ := hj.targets l hl
    refine ⟨LabelTable.isPlaced_of_unplaced hunplaced hrecords, fun k hk => ?_⟩
    -- What is delivered fits the record of the label, and that fits the point it stands at.
    have hplace := (htyped.placed hk).2.2 slots hrecords
    obtain ⟨hstack, hitem⟩ := htyped.known.records hr
    have hdelivered := (CodeItem.run_known htyped.known.closed (htyped.known.contextAt i) hitem
      hj.results hstack hj.run).1
    obtain ⟨found, hfound⟩ := CodeItem.run_delivered hj.run hreachable hl
    rw [hfound] at hfits hdelivered ⊢
    have hrecorded := htyped.known.recorded hrecords
    exact Draft.acceptsAt hdead (AbstractStack.isCompatible_trans htyped.known.closed
      htyped.known.lawful hdelivered hrecorded hfits hplace)

end Session

/-! ## § A loop around a protected block -/

namespace Sample

open Body (Writer)

/-- A loop whose body catches exceptions: the first label is jumped back to, the second one ends the loop, and
both the block and its handler leave for the label that the builder places after them. -/
def retry : List Operation :=
  [.defineLabel, .defineLabel, .markLabel ⟨0⟩, .instruction (.ldcI4 1), .branch (.brfalse ⟨1⟩), .beginTry,
    .instruction (.ldcI4 3), .instruction .pop, .beginHandler ⟨0⟩ (.catchHandler system.exception),
    .instruction .pop, .endRegion ⟨1⟩, .endRegion ⟨0⟩, .branch (.br ⟨0⟩), .markLabel ⟨1⟩, .branch .ret]

/-- Every jump of the loop arrives at a record that accepts what it delivers. -/
theorem consistent_retry :
    let d := ((Session.start graph system method Writer.empty).run retry).builder.draft
    ∃ code : FinishedCode Writer,
      ((Session.start graph system method Writer.empty).run retry).builder.finish = .ok code ∧
      ∀ (i : Nat) r, code.records[i]? = some r → r.stackBefore.isReachable = true → ∀ l ∈ r.item.targets,
        ∃ k j, d.position? l = some k ∧ r.item.run d.graph (d.contextAt i) r.stackBefore = .ok j ∧
          AcceptsAt d.graph code.records k j.delivered := by
  intro d
  have hfinished :
      ((Session.start graph system method Writer.empty).run retry).builder.finish.toOption.isSome =
        true := by
    decide +kernel
  cases hfinish : ((Session.start graph system method Writer.empty).run retry).builder.finish with
  | error e =>
    rw [hfinish] at hfinished
    cases hfinished
  | ok code =>
    obtain ⟨hrecords, hpoints⟩ := Session.consistent built (by decide +kernel) (by decide +kernel)
      (by decide +kernel) (by decide +kernel) (by decide +kernel) (by decide +kernel) hfinish
    refine ⟨code, rfl, fun i r hr hreachable l hl => ?_⟩
    obtain ⟨j, hj, -, htargets⟩ := hrecords i r hr hreachable
    obtain ⟨hplaced, haccepts⟩ := htargets l hl
    obtain ⟨k, hk⟩ := hpoints _ Writer.marksOnce (fun l hl => by cases hl) l hplaced
    exact ⟨k, j, hk, hj, haccepts k hk⟩

end Sample

end ManagedCode
