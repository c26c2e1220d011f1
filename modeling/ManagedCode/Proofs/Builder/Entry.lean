/-
# ManagedCode.Proofs.Builder.Entry — which exceptions a catch handler is entered with.

A catch handler is verified from the stack that holds one exception of its type, guarded by a filter or not.
What enters it in the end is decided by its clause: a catch clause names the type, while a filter clause names
none, and the filter that it points at has seen an object of which nothing is known but that it is an
exception.  `Justifies` says when a clause lets in nothing else than the handler was verified with.  It does
so exactly if no filter guards the handler, or every exception is of the type of the handler.
-/
import ManagedCode.Proofs.Builder.Clauses

namespace ManagedCode

open Body (Writer ExceptionClause MethodBody)

/-- **`Justifies`** — the clause admits nothing to the handler but exceptions of the type: it names the type,
or it is that of a filter and all exceptions are of the type. -/
def Body.ExceptionClause.Justifies (g : TypeGraph) (system : SystemTypes) (clause : ExceptionClause)
    (exception : TypeId) : Prop :=
  (clause.kind = .catchClause ∧ clause.classToken = (g.type exception).token) ∨
    (clause.kind = .filterClause ∧ g.isSubtype system.exception exception = true)

instance (g : TypeGraph) (system : SystemTypes) (clause : ExceptionClause) (exception : TypeId) :
    Decidable (clause.Justifies g system exception) := inferInstanceAs (Decidable (_ ∨ _))

/-- The clause that describes a catch handler justifies it unless a filter guards it, and then if all
exceptions are of its type. -/
theorem Handles.justifies_iff {g : TypeGraph} {calls : List Delivery} {b : Nat} {t : Region}
    {clause : ExceptionClause} {exception : TypeId} (h : Handles g calls b t clause (.catchHandler exception))
    (system : SystemTypes) :
    clause.Justifies g system exception ↔
      ((∃ f, GuardedAt calls f b t) → g.isSubtype system.exception exception = true) := by
  unfold Body.ExceptionClause.Justifies
  rcases h with ⟨hkind, htoken, hfree⟩ | ⟨hkind, f, hguard, -⟩
  · constructor
    · rintro - ⟨f, hguard⟩
      exact absurd hguard (hfree f)
    · intro _
      exact .inl ⟨hkind, htoken⟩
  · constructor
    · rintro (⟨hcatch, -⟩ | ⟨-, hsubtype⟩) _
      · cases hkind.symm.trans hcatch
      · exact hsubtype
    · intro hsubtype
      exact .inr ⟨hkind, hsubtype ⟨f, hguard⟩⟩

/-! ## § Opening a handler -/

namespace Builder

variable {b b' : Builder Transcript} {tryRegion region : Region} {kind : RegionKind}

/-- The last thing that opening a handler sends is the handler, and the code goes on with its entry stack. -/
theorem openHandler_ok (h : openHandler tryRegion kind b = .ok region b') :
    b'.draft.stack = b.draft.handlerStack kind ∧ b'.draft.graph = b.draft.graph ∧
      b'.sink.calls = b.sink.calls ++ [.beginRegion b.draft.graph region kind (some tryRegion)] := by
  obtain ⟨d, t⟩ := b
  rw [openHandler_run] at h
  cases hbegin : d.regions.beginHandler tryRegion kind with
  | error fault =>
    rw [hbegin] at h
    cases h
  | ok opened =>
    obtain ⟨region', regions⟩ := opened
    simp only [hbegin] at h
    cases h
    exact ⟨rfl, rfl, rfl⟩

theorem beginHandler_sends (h : beginHandler tryRegion kind b = .ok region b') :
    (∃ d, b'.draft.stack = Draft.handlerStack d kind) ∧
      .beginRegion b'.draft.graph region kind (some tryRegion) ∈ b'.sink.calls := by
  rw [beginHandler_run] at h
  cases happroach : approachHandler tryRegion kind b with
  | error e b₁ =>
    rw [happroach] at h
    cases h
  | ok _ b₁ =>
    simp only [happroach] at h
    obtain ⟨hstack, hgraph, hcalls⟩ := openHandler_ok h
    refine ⟨⟨b₁.draft, hstack⟩, ?_⟩
    rw [hcalls, hgraph]
    exact List.mem_append_right _ (List.mem_singleton_self _)

end Builder

/-- What an operation answers over the transcript: the region that was opened, after the call that opens it. -/
theorem Operation.answer_beginHandler {b b' : Builder Transcript} {tryRegion region : Region}
    {kind : RegionKind} (h : (Operation.beginHandler tryRegion kind).answer b = .ok (.region region) b') :
    Builder.beginHandler tryRegion kind b = .ok region b' := by
  have hanswer : (Operation.beginHandler tryRegion kind).answer b =
      (Builder.beginHandler tryRegion kind >>= fun r => pure (Answer.region r) : Build Transcript Answer) b := rfl
  rw [hanswer, Builder.bind_run] at h
  cases hbegin : Builder.beginHandler tryRegion kind b with
  | error e b₁ =>
    rw [hbegin] at h
    cases h
  | ok r b₁ =>
    rw [hbegin] at h
    cases h
    rfl

namespace Session

variable {g : TypeGraph} {system : SystemTypes} {method : MethodId} {before : List Operation}
  {tryRegion h : Region} {exception : TypeId} {b : Builder Writer}

theorem run_append {σ : Type} [CodeSink σ] (s : Session σ) (ops ops' : List Operation) :
    s.run (ops ++ ops') = (s.run ops).run ops' := List.foldl_append

/-- A catch handler starts with its exception, and the calls of the session open it in the graph that it
starts in. -/
theorem opened_catch (after : List Operation)
    (hopen : (Operation.beginHandler tryRegion (.catchHandler exception)).answer
      ((start g system method Writer.empty).run before).builder = .ok (.region h) b) :
    b.draft.stack = .reachable [.value exception] ∧
      .beginRegion b.draft.graph h (.catchHandler exception) (some tryRegion) ∈
        ((start g system method Transcript.empty).run
          (before ++ .beginHandler tryRegion (.catchHandler exception) :: after)).builder.sink.calls := by
  have hmirrors := mirrors_writer g system method before
  have hmore := (mirrors_writer g system method
    (before ++ [.beginHandler tryRegion (.catchHandler exception)])).taken
  rw [run_concat] at hmore
  have hsame := hmirrors.outcome _ ⟨_, hmore⟩
  rw [hopen] at hsame
  rw [run_append]
  generalize (start g system method Transcript.empty).run before = t at hsame ⊢
  cases hecho : (Operation.beginHandler tryRegion (.catchHandler exception)).answer t.builder with
  | error e b' =>
    rw [hecho] at hsame
    exact hsame.elim
  | ok answer b' =>
    rw [hecho] at hsame
    obtain ⟨rfl, hdraft, -⟩ := hsame
    obtain ⟨⟨d, hstack⟩, hsent⟩ := Builder.beginHandler_sends (Operation.answer_beginHandler hecho)
    rw [hdraft]
    refine ⟨hstack, ?_⟩
    -- The rest of the session only adds to the calls.
    have hlater := calls_prefix_run (t.call (.beginHandler tryRegion (.catchHandler exception))) after
    refine hlater.subset ?_
    rw [builder_call, Operation.reached_perform, Build.reached, hecho]
    exact hsent

/-- **`entry_justified_iff`** — every catch handler of a finished body starts with an exception of its type and
has a clause.  The clause names the type if no filter guards the handler, and is that of the filter otherwise;
it justifies what the handler starts with exactly if no filter guards it or all exceptions are of its type. -/
theorem entry_justified_iff {after : List Operation} {code : FinishedCode Writer} {body : MethodBody}
    (hopen : (Operation.beginHandler tryRegion (.catchHandler exception)).answer
      ((start g system method Writer.empty).run before).builder = .ok (.region h) b)
    (hcode : ((start g system method Writer.empty).run
      (before ++ .beginHandler tryRegion (.catchHandler exception) :: after)).builder.finish = .ok code)
    (hbody : code.sink.finish = .ok body) :
    let calls := ((start g system method Transcript.empty).run
      (before ++ .beginHandler tryRegion (.catchHandler exception) :: after)).builder.sink.calls
    b.draft.stack = .reachable [.value exception] ∧
    ∃ i, calls[i]? = some (.beginRegion b.draft.graph h (.catchHandler exception) (some tryRegion)) ∧
      (∃ clause ∈ body.clauses, Describes calls h clause) ∧
      ∀ clause ∈ body.clauses, Describes calls h clause →
        Handles b.draft.graph calls i tryRegion clause (.catchHandler exception) ∧
        (clause.Justifies b.draft.graph system exception ↔
          ((∃ f, GuardedAt calls f i tryRegion) →
            b.draft.graph.isSubtype system.exception exception = true)) := by
  intro calls
  obtain ⟨hstack, hmem⟩ := opened_catch after hopen
  obtain ⟨-, handlers, hreflects⟩ := table_reflects hcode hbody
  have hbracketed : Bracketed calls := (chronicle_run g system method _).bracketed
  obtain ⟨i, hi⟩ := List.mem_iff_getElem?.mp hmem
  refine ⟨hstack, i, hi, ?_, fun clause hclause hdescribes => ?_⟩
  · have hhandler : h ∈ handlers :=
      (hreflects.complete h).mpr ⟨.catchHandler exception, tryRegion, by simp, _, hmem⟩
    obtain ⟨n, hn⟩ := List.mem_iff_getElem?.mp hhandler
    obtain ⟨hlt, heq⟩ := List.getElem?_eq_some_iff.mp hn
    have hlength := hreflects.described.length_eq
    have hclause := hreflects.described.get hlt (hlength ▸ hlt)
    refine ⟨_, Array.mem_toList_iff.mp (List.getElem_mem (hlength ▸ hlt)), ?_⟩
    rw [List.get_eq_getElem, List.get_eq_getElem, heq] at hclause
    exact hclause
  · obtain ⟨t, g', kind, i', f, n, j, -, hn, -, -, -, -, -, hhandles⟩ := hdescribes
    -- A region is opened once, so the clause describes this very handler.
    cases hbracketed.once hi hn
    cases hi.symm.trans hn
    exact ⟨hhandles, hhandles.justifies_iff system⟩

end Session

namespace Sample

/-- A block with a filter that lets everything pass. -/
def filtered : List Operation :=
  [.beginTry, .instruction .nop,
    .beginHandler ⟨0⟩ .filterBlock, .instruction .pop, .instruction (.ldcI4 1), .endRegion ⟨1⟩]

/-- The handler that the filter guards, and the end. -/
def guarded (exception : TypeId) : List Operation :=
  .beginHandler ⟨0⟩ (.catchHandler exception) ::
    [.instruction .pop, .endRegion ⟨2⟩, .endRegion ⟨0⟩, .branch .ret]

/-- A handler of objects may be guarded by any filter. -/
theorem justified_guarded_object : ∃ b code body,
    (Operation.beginHandler ⟨0⟩ (.catchHandler system.object)).answer
      ((Session.start graph system method Writer.empty).run filtered).builder = .ok (.region ⟨2⟩) b ∧
    ((Session.start graph system method Writer.empty).run (filtered ++ guarded system.object)).builder.finish =
      .ok code ∧ code.sink.finish = .ok body ∧
    ∃ clause ∈ body.clauses, clause.Justifies b.draft.graph system system.object := by
  have hopens : (match (Operation.beginHandler ⟨0⟩ (.catchHandler system.object)).answer
        ((Session.start graph system method Writer.empty).run filtered).builder with
      | .ok (.region h) b => some (h, b.draft.graph.isSubtype system.exception system.object)
      | .ok _ _ | .error _ _ => none) = some (⟨2⟩, true) := by
    decide +kernel
  have hends : (match ((Session.start graph system method Writer.empty).run
        (filtered ++ guarded system.object)).builder.finish with
      | .ok code => code.sink.finish.toOption.isSome
      | .error _ => false) = true := by
    decide +kernel
  split at hopens
  · rename_i h b hopen
    obtain ⟨rfl, hsubtype⟩ := Prod.mk.inj (Option.some.inj hopens)
    split at hends
    · rename_i code hcode
      cases hbody : code.sink.finish with
      | error e =>
        rw [hbody] at hends
        cases hends
      | ok body =>
        obtain ⟨-, i, -, ⟨clause, hclause, hdescribes⟩, hjustified⟩ :=
          Session.entry_justified_iff hopen hcode hbody
        refine ⟨b, code, body, hopen, hcode, hbody, clause, hclause, ?_⟩
        exact (hjustified clause hclause hdescribes).2.mpr fun _ => hsubtype
    · cases hends
  · cases hopens
  · cases hopens

/-- A handler of strings is verified with a string all the same, and its clause admits every exception. -/
theorem guarded_string_admitsAll :
    (match (Operation.beginHandler ⟨0⟩ (.catchHandler system.string)).answer
        ((Session.start graph system method Writer.empty).run filtered).builder with
      | .ok _ b => some b.draft.stack
      | .error _ _ => none) = some (.reachable [.value system.string]) ∧
    (match ((Session.start graph system method Writer.empty).run
        (filtered ++ guarded system.string)).builder.finish with
      | .ok code => code.sink.finish.toOption.map fun body => body.clauses.toList
      | .error _ => none) = some [⟨.filterClause, 0, 6, 10, 6, 0, 6⟩] ∧
    ¬ Body.ExceptionClause.Justifies graph system ⟨.filterClause, 0, 6, 10, 6, 0, 6⟩ system.string := by
  decide +kernel

end Sample

end ManagedCode
