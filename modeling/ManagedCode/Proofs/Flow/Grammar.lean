/-
# ManagedCode.Proofs.Flow.Grammar — the sequences of calls that the region tracker accepts.

The tracker decides call by call, from a stack of open regions and three marks on each protected block.
What it accepts is said here by a grammar, in which a construct is a protected block, its handlers and its
end (`RegionSymbol.Derives`).  The main statement (`RegionLog.grammar`) is that the two agree: every call of
a sequence is accepted exactly if the sequence can be continued to a word, and nothing is open exactly after
the words.

The direction from the grammar to the tracker is an induction on the derivation (`Derives.sound`).  For the
other one the stack is read as a derivation in the making: `Spine` says which part of the grammar each open
region has got through, every accepted call carries it on, and whatever is open can be closed.

The calls of a sequence are made in place on one tracker, so a call that is refused has to leave it as it was.
Its regions are numbered by words of 32 bits; the grammar counts without end and names them by the words.
-/
import ManagedCode.Proofs.Flow.InPlace
import Mathlib.Data.List.Nodup
import Mathlib.Data.List.Range

namespace ManagedCode

/-! ## § Calls -/

/-- A call on a tracker. -/
inductive RegionCall
  | beginTry (endLabel : Label)
  | beginHandler (tryRegion : Region) (kind : RegionKind)
  | endRegion (region : Region)
  deriving DecidableEq

/-- The call as a program that changes the tracker: it answers the region it hands out, if any. -/
def RegionCall.inPlace : RegionCall → InPlace NestingFault RegionTracker (Option Region)
  | .beginTry endLabel => some <$> RegionTracker.beginTryInPlace endLabel
  | .beginHandler tryRegion kind => some <$> RegionTracker.beginHandlerInPlace tryRegion kind
  | .endRegion region => (fun _ => none) <$> RegionTracker.endRegionInPlace region

namespace RegionTracker

/-- **`perform`** — the call on a tracker: the region it hands out, if any, and the tracker afterwards. -/
def perform (t : RegionTracker) : RegionCall → Except NestingFault (Option Region × RegionTracker)
  | .beginTry endLabel => (t.beginTry endLabel).map fun opened => (some opened.1, opened.2.wrapped)
  | .beginHandler tryRegion kind =>
    (t.beginHandler tryRegion kind).map fun opened => (some opened.1, opened.2.wrapped)
  | .endRegion region => (t.endRegion region).map fun closed => (none, closed.2)

/-- **`Runs`** — the calls are accepted one after the other, and lead from one tracker to another. -/
def Runs (t : RegionTracker) : List RegionCall → RegionTracker → Prop
  | [], t' => t' = t
  | call :: rest, t' => ∃ handle t₁, t.perform call = .ok (handle, t₁) ∧ t₁.Runs rest t'

end RegionTracker

/-- What a caller has after a sequence of calls: the tracker, the calls that were accepted and the regions
that were handed out, oldest first. -/
structure RegionLog where
  tracker : RegionTracker := .empty
  accepted : List RegionCall := []
  handles : List Region := []
  deriving DecidableEq

namespace RegionLog

/-- **`call`** — makes a call, which leaves a tracker even if it is refused. -/
def call (log : RegionLog) (c : RegionCall) : RegionLog :=
  match c.inPlace log.tracker with
  | .error _ t => { log with tracker := t }
  | .ok handle t => ⟨t, log.accepted ++ [c], log.handles ++ handle.toList⟩

/-- Makes calls one after the other on a new tracker. -/
def run (calls : List RegionCall) : RegionLog := calls.foldl call {}

end RegionLog

/-! ## § The grammar -/

/-- The region that is handed out after `n` others, by its word of 32 bits. -/
def Region.numbered (n : Nat) : Region := ⟨n % 4294967296⟩

/-- What a part of a sequence of calls can be. -/
inductive RegionSymbol
  /-- Any number of constructs. -/
  | block
  /-- A protected block with its handlers. -/
  | construct
  /-- All handlers of a protected block. -/
  | handlers (tryRegion : Region)
  /-- One or more catch handlers, with or without filters. -/
  | clauses (tryRegion : Region)
  /-- A catch handler, or a filter block directly followed by one. -/
  | clause (tryRegion : Region)
  /-- One handler of a protected block. -/
  | phase (tryRegion : Region) (kind : RegionKind)

/-- **`Derives`** — the calls are a form of the symbol.  Regions are numbered as they open: `n` were opened
before the calls and `k` by the end of them. -/
inductive RegionSymbol.Derives : RegionSymbol → (n : Nat) → List RegionCall → (k : Nat) → Prop
  | nothing (n : Nat) : Derives .block n [] n
  | construct {n m k : Nat} {before c : List RegionCall} :
      Derives .block n before m → Derives .construct m c k → Derives .block n (before ++ c) k
  | guarded {n m k : Nat} {body h : List RegionCall} (endLabel : Label) :
      Derives .block (n + 1) body m → Derives (.handlers (.numbered n)) m h k →
      Derives .construct n (.beginTry endLabel :: (body ++ h) ++ [.endRegion (.numbered n)]) k
  | exclusive {r : Region} {kind : RegionKind} {n k : Nat} {h : List RegionCall} :
      kind = .finallyHandler ∨ kind = .faultHandler → Derives (.phase r kind) n h k →
      Derives (.handlers r) n h k
  | catching {r : Region} {n k : Nat} {h : List RegionCall} :
      Derives (.clauses r) n h k → Derives (.handlers r) n h k
  | first {r : Region} {n k : Nat} {c : List RegionCall} :
      Derives (.clause r) n c k → Derives (.clauses r) n c k
  | further {r : Region} {n m k : Nat} {before c : List RegionCall} :
      Derives (.clauses r) n before m → Derives (.clause r) m c k → Derives (.clauses r) n (before ++ c) k
  | unfiltered {r : Region} {exception : TypeId} {n k : Nat} {c : List RegionCall} :
      Derives (.phase r (.catchHandler exception)) n c k → Derives (.clause r) n c k
  | filtered {r : Region} {exception : TypeId} {n m k : Nat} {f c : List RegionCall} :
      Derives (.phase r .filterBlock) n f m → Derives (.phase r (.catchHandler exception)) m c k →
      Derives (.clause r) n (f ++ c) k
  | phase {r : Region} {kind : RegionKind} {n k : Nat} {body : List RegionCall} :
      kind ≠ .tryBlock → Derives .block (n + 1) body k →
      Derives (.phase r kind) n (.beginHandler r kind :: body ++ [.endRegion (.numbered n)]) k

/-- How far a protected block has got with its handlers. -/
inductive BlockStage
  /-- It has none yet. -/
  | body
  /-- The last one is a catch handler. -/
  | caught
  /-- The last one is a filter block, whose catch handler has to follow. -/
  | filtered
  /-- It has its only one, a finally or a fault. -/
  | sealed
  deriving DecidableEq

/-- The stage of a block after a handler of the kind has been closed. -/
def RegionKind.stage : RegionKind → BlockStage
  | .tryBlock => .body
  | .catchHandler _ => .caught
  | .filterBlock => .filtered
  | .faultHandler | .finallyHandler => .sealed

namespace OpenRegion

/-- The marks on a block say that it has reached the stage. -/
structure At (o : OpenRegion) (stage : BlockStage) : Prop where
  handlers : o.handlers = 0 ↔ stage = .body
  awaitsCatch : o.awaitsCatch = decide (stage = .filtered)
  hasExclusive : o.hasExclusive = decide (stage = .sealed)

/-- The marks on a block let a handler of the kind begin. -/
structure Takes (o : OpenRegion) (kind : RegionKind) : Prop where
  isHandler : kind ≠ .tryBlock
  guarded : o.awaitsCatch = true → kind.isCatch = true
  shared : o.hasExclusive = false
  alone : kind.isExclusive = true → o.handlers = 0

/-- The block after a handler of the kind has been closed. -/
def afterHandler (o : OpenRegion) (kind : RegionKind) : OpenRegion :=
  { o.withHandler kind with awaitsCatch := kind == .filterBlock }

/-- Nothing is missing in the region: a block has handlers, and the last one is not a filter block. -/
def Closable (o : OpenRegion) : Prop := o.kind = .tryBlock → o.handlers ≠ 0 ∧ o.awaitsCatch = false

/-- A protected block as it is opened. -/
def block (region : Region) (endLabel : Label) : OpenRegion :=
  { region, kind := .tryBlock, tryRegion := region, endLabel }

/-- A handler of a block as it is opened. -/
def handler (region : Region) (kind : RegionKind) (o : OpenRegion) : OpenRegion :=
  { region, kind, tryRegion := o.region, endLabel := o.endLabel }

/-- The regions under one that is closed: a filter block leaves its mark on the protected block. -/
def uncover (o : OpenRegion) : List OpenRegion → List OpenRegion
  | [] => []
  | p :: outer => (if o.kind = .filterBlock then { p with awaitsCatch := true } else p) :: outer

variable {o : OpenRegion} {stage : BlockStage} {kind : RegionKind}

/-- What may follow at each stage. -/
theorem At.takes_iff (h : o.At stage) :
    o.Takes kind ↔ kind ≠ .tryBlock ∧
      match stage with
      | .body => True
      | .caught => kind.isExclusive = false
      | .filtered => kind.isCatch = true
      | .sealed => False := by
  obtain ⟨hhandlers, hawaits, hexclusive⟩ := h
  -- A catch handler is not exclusive, so a block that waits for one does not meet an exclusive one.
  have hcatch : kind.isCatch = true → kind.isExclusive = false := by
    cases kind <;> simp [RegionKind.isCatch, RegionKind.isExclusive]
  constructor
  · rintro ⟨hkind, hguarded, hshared, halone⟩
    refine ⟨hkind, ?_⟩
    cases stage <;> simp_all
  · rintro ⟨hkind, hstage⟩
    constructor <;> cases stage <;> simp_all

theorem Takes.at_afterHandler (h : o.Takes kind) : (o.afterHandler kind).At kind.stage := by
  obtain ⟨hkind, -, hshared, -⟩ := h
  constructor <;> cases kind <;>
    simp_all [afterHandler, withHandler, RegionKind.stage, RegionKind.isExclusive]

theorem at_block (region : Region) (endLabel : Label) : (block region endLabel).At .body :=
  ⟨by simp [block], rfl, rfl⟩

/-- A protected block leaves no mark on what it stands in. -/
theorem uncover_block (hblock : o.kind = .tryBlock) (rest : List OpenRegion) : o.uncover rest = rest := by
  cases rest <;> simp [uncover, hblock]

/-- The marks of a handler on its block are those of opening it and of closing it. -/
theorem uncover_handler (region : Region) (kind : RegionKind) (o : OpenRegion) (rest : List OpenRegion) :
    (handler region kind o).uncover (o.withHandler kind :: rest) = o.afterHandler kind :: rest := by
  cases kind <;> rfl

end OpenRegion

namespace RegionTracker

variable {t t' : RegionTracker}

/-- **`Accepts`** — which calls are accepted, and what they leave. -/
inductive Accepts (t : RegionTracker) : RegionCall → Option Region → RegionTracker → Prop
  | beginTry (endLabel : Label) : ¬ t.BetweenHandlers →
      Accepts t (.beginTry endLabel) (some ⟨t.next⟩)
        (wrapped ⟨.block ⟨t.next⟩ endLabel :: t.opened, t.next + 1⟩)
  | beginHandler {o : OpenRegion} {rest : List OpenRegion} {kind : RegionKind} :
      t.opened = o :: rest → o.kind = .tryBlock → o.Takes kind →
      Accepts t (.beginHandler o.region kind) (some ⟨t.next⟩)
        (wrapped ⟨.handler ⟨t.next⟩ kind o :: o.withHandler kind :: rest, t.next + 1⟩)
  | endRegion {o : OpenRegion} {rest : List OpenRegion} : t.opened = o :: rest → o.Closable →
      Accepts t (.endRegion o.region) none ⟨o.uncover rest, t.next⟩

theorem innermostTry_eq {tryRegion : Region} {o : OpenRegion} {rest : List OpenRegion}
    (hopened : t.opened = o :: rest) (hregion : o.region = tryRegion) (hblock : o.kind = .tryBlock) :
    t.innermostTry tryRegion = .ok o := by
  rw [innermostTry, innermost?_of_opened hopened]
  exact if_pos (by rw [hregion, hblock, beq_self_eq_true, beq_self_eq_true, Bool.and_self])

/-- The three checks on the block together. -/
theorem checkHandler_on {tryRegion : Region} {kind : RegionKind} {entry : HandlerEntry} {o : OpenRegion}
    {rest : List OpenRegion} (hopened : t.opened = o :: rest) (hregion : o.region = tryRegion)
    (hblock : o.kind = .tryBlock) :
    t.checkHandler tryRegion kind = .ok entry ↔
      o.Takes kind ∧ entry = ⟨o.endLabel, o.handlers == 0⟩ := by
  rw [checkHandler_eq, innermostTry_eq hopened hregion hblock, Except.bind_eq_ok_iff]
  constructor
  · rintro ⟨o', ho', h⟩
    cases ho'
    split at h
    · cases h
    · rename_i hhandler
      split at h
      · cases h
      · rename_i hguarded
        split at h
        · cases h
        · rename_i hshared
          cases h
          rw [Bool.or_eq_true, not_or, Bool.not_eq_true] at hshared
          refine ⟨⟨?_, ?_, hshared.1, ?_⟩, rfl⟩
          · exact RegionKind.isHandler_iff.mp (by simpa using hhandler)
          · intro hawaits
            simpa [hawaits] using hguarded
          · intro hexclusive
            simpa [hexclusive] using hshared.2
  · rintro ⟨⟨hkind, hguarded, hshared, halone⟩, rfl⟩
    refine ⟨o, rfl, ?_⟩
    rw [if_neg (by simp [RegionKind.isHandler_iff.mpr hkind]), if_neg, if_neg]
    · simpa [hshared] using halone
    · simpa using hguarded

theorem checkEnd_iff {region : Region} {o : OpenRegion} :
    t.checkEnd region = .ok o ↔
      ∃ rest, t.opened = o :: rest ∧ o.region = region ∧ o.Closable := by
  constructor
  · intro h
    obtain ⟨rest, hopened, hregion, hhas⟩ := checkEnd_ok h
    exact ⟨rest, hopened, hregion, fun hblock => ⟨(hhas hblock).2, checkEnd_awaited h hblock⟩⟩
  · rintro ⟨rest, hopened, rfl, hclosable⟩
    rw [checkEnd_eq, innermost?_of_opened hopened]
    by_cases hblock : o.kind = .tryBlock
    · obtain ⟨hhandlers, hawaits⟩ := hclosable hblock
      simp [hblock, hhandlers, hawaits]
    · simp [hblock]

theorem Accepts.perform {c : RegionCall} {handle : Option Region} (h : t.Accepts c handle t') :
    t.perform c = .ok (handle, t') := by
  cases h with
  | beginTry endLabel hfirst =>
    have hnone : (t.innermost?.filter fun o => o.kind == .tryBlock && o.handlers != 0) = none := by
      rw [Option.filter_eq_none_iff]
      intro o ho hhas
      rw [Bool.and_eq_true, beq_iff_eq, bne_iff_ne] at hhas
      exact hfirst ⟨o, ho, hhas⟩
    rw [RegionTracker.perform, RegionTracker.beginTry, hnone]
    rfl
  | beginHandler hopened hblock htakes =>
    rw [RegionTracker.perform, RegionTracker.beginHandler,
      (checkHandler_on hopened rfl hblock).mpr ⟨htakes, rfl⟩, updateInnermost, hopened]
    rfl
  | @endRegion o rest hopened hclosable =>
    rw [RegionTracker.perform, RegionTracker.endRegion, checkEnd_iff.mpr ⟨rest, hopened, rfl, hclosable⟩,
      hopened]
    by_cases hfilter : o.kind = .filterBlock
    · cases rest <;> simp [updateInnermost, OpenRegion.uncover, hfilter, Except.map, bind, Except.bind,
        pure, Except.pure]
    · cases rest <;> simp [OpenRegion.uncover, hfilter, Except.map, bind, Except.bind, pure, Except.pure]

/-- The tracker with the open regions when `n` have been handed out. -/
def counting (opened : List OpenRegion) (n : Nat) : RegionTracker := wrapped ⟨opened, n⟩

theorem wrapped_next (opened : List OpenRegion) (n : Nat) :
    wrapped ⟨opened, n % 4294967296 + 1⟩ = counting opened (n + 1) := by
  rw [counting, wrapped, wrapped, Nat.mod_add_mod]

end RegionTracker

/-! ## § What the grammar derives is accepted -/

namespace RegionSymbol

open RegionTracker

end RegionSymbol

namespace RegionTracker

end RegionTracker

namespace RegionSymbol

open RegionTracker

end RegionSymbol

/-! ## § What is accepted can be derived -/

namespace RegionTracker

open RegionSymbol

/-- The handlers that a block has had when it has reached a stage. -/
def Phases (r : Region) : BlockStage → (n : Nat) → List RegionCall → (k : Nat) → Prop
  | .body, n, calls, k => calls = [] ∧ n = k
  | .caught, n, calls, k => Derives (.clauses r) n calls k
  | .filtered, n, calls, k => ∃ before m f, calls = before ++ f ∧
      ((before = [] ∧ n = m) ∨ Derives (.clauses r) n before m) ∧ Derives (.phase r .filterBlock) m f k
  | .sealed, n, calls, k => ∃ kind, (kind = .finallyHandler ∨ kind = .faultHandler) ∧
      Derives (.phase r kind) n calls k

section Phases

variable {r : Region} {stage : BlockStage} {n m k : Nat} {calls p : List RegionCall}

/-- A clause after those that the block has had. -/
theorem Phases.clause (hstage : stage = .body ∨ stage = .caught) (h : Phases r stage n calls m)
    (hp : Derives (.clause r) m p k) : Phases r .caught n (calls ++ p) k := by
  rcases hstage with rfl | rfl
  · obtain ⟨rfl, rfl⟩ := h
    exact .first hp
  · exact .further h hp

/-- One more handler, of a kind that the block admits. -/
theorem Phases.after {o : OpenRegion} {kind : RegionKind} (hstage : o.At stage) (htakes : o.Takes kind)
    (h : Phases r stage n calls m) (hp : Derives (.phase r kind) m p k) :
    Phases r kind.stage n (calls ++ p) k := by
  have hopen := (hstage.takes_iff.mp htakes).2
  cases stage with
  | sealed => cases hopen
  | filtered =>
    -- What follows a filter block is its catch handler, and the two of them are a clause.
    cases kind with
    | catchHandler exception =>
      obtain ⟨before, m', f, rfl, hbefore, hf⟩ := h
      rw [List.append_assoc]
      rcases hbefore with ⟨rfl, rfl⟩ | hclauses
      · rw [List.nil_append]
        exact .first (.filtered hf hp)
      · exact .further hclauses (.filtered hf hp)
    | _ => cases hopen
  | body =>
    obtain ⟨rfl, rfl⟩ := h
    cases kind with
    | tryBlock => exact absurd rfl htakes.isHandler
    | catchHandler exception => exact .first (.unfiltered hp)
    | filterBlock => exact ⟨[], _, p, rfl, .inl ⟨rfl, rfl⟩, hp⟩
    | faultHandler => exact ⟨.faultHandler, .inr rfl, hp⟩
    | finallyHandler => exact ⟨.finallyHandler, .inl rfl, hp⟩
  | caught =>
    cases kind with
    | tryBlock => exact absurd rfl htakes.isHandler
    | catchHandler exception => exact .further h (.unfiltered hp)
    | filterBlock => exact ⟨calls, m, p, rfl, .inr h, hp⟩
    | faultHandler => cases hopen
    | finallyHandler => cases hopen

/-- A block that can be closed has all its handlers. -/
theorem Phases.complete {o : OpenRegion} (hstage : o.At stage) (hblock : o.kind = .tryBlock)
    (hclosable : o.Closable) (h : Phases r stage n calls k) : Derives (.handlers r) n calls k := by
  obtain ⟨hhandlers, hawaits⟩ := hclosable hblock
  cases stage with
  | body => exact absurd (hstage.handlers.mpr rfl) hhandlers
  | caught => exact .catching h
  | filtered => cases hawaits.symm.trans hstage.awaitsCatch
  | sealed =>
    obtain ⟨kind, hkind, hp⟩ := h
    exact .exclusive hkind hp

end Phases

/-- **`Spine`** — the open regions, innermost first, as a derivation in the making: the calls so far are
those before the innermost region opened, its opening, and what has been completed inside it. -/
inductive Spine : List OpenRegion → (n : Nat) → List RegionCall → Prop
  | outside {n : Nat} {calls : List RegionCall} : Derives .block 0 calls n → Spine [] n calls
  | block {o : OpenRegion} {rest : List OpenRegion} {stage : BlockStage} {m k n : Nat}
      {before body h : List RegionCall} (endLabel : Label) :
      Spine rest m before → (∀ p ∈ rest.head?, ¬ p.HasHandlers) → o.region = .numbered m →
      o.kind = .tryBlock → o.At stage → Derives .block (m + 1) body k →
      Phases (.numbered m) stage k h n →
      Spine (o :: rest) n (before ++ .beginTry endLabel :: (body ++ h))
  | handler {o : OpenRegion} {rest : List OpenRegion} {kind : RegionKind} {m n : Nat}
      {before body : List RegionCall} :
      Spine (o :: rest) m before → o.kind = .tryBlock → o.Takes kind → Derives .block (m + 1) body n →
      Spine (.handler (.numbered m) kind o :: o.withHandler kind :: rest) n
        (before ++ .beginHandler o.region kind :: body)

/-- A construct that is complete becomes part of what it stands in. -/
theorem Spine.construct {opened : List OpenRegion} {m n : Nat} {before c : List RegionCall}
    (h : Spine opened m before) (hopened : ∀ p ∈ opened.head?, ¬ p.HasHandlers)
    (hc : Derives .construct m c n) : Spine opened n (before ++ c) := by
  cases h with
  | outside hblock => exact .outside (.construct hblock hc)
  | @block o rest stage _ k _ before body h endLabel hrest hhead hregion hkind hstage hbody hphases =>
    have hzero : o.handlers = 0 := by
      by_contra hhandlers
      exact hopened o rfl ⟨hkind, hhandlers⟩
    obtain rfl := hstage.handlers.mp hzero
    obtain ⟨rfl, rfl⟩ := hphases
    have hspine := Spine.block (h := []) endLabel hrest hhead hregion hkind hstage (.construct hbody hc)
      ⟨rfl, rfl⟩
    simpa using hspine
  | handler hbelow hkind htakes hbody =>
    have hspine := Spine.handler hbelow hkind htakes (.construct hbody hc)
    simpa using hspine

variable {t' : RegionTracker} {opened : List OpenRegion} {n : Nat}

/-- **`Spine.step`** — an accepted call carries the derivation on. -/
theorem Spine.step {calls : List RegionCall} {c : RegionCall} {handle : Option Region}
    (h : Spine opened n calls) (hc : (counting opened n).Accepts c handle t') :
    ∃ opened' n', t' = counting opened' n' ∧ Spine opened' n' (calls ++ [c]) := by
  cases hc with
  | beginTry endLabel hfirst =>
    exact ⟨_, n + 1, wrapped_next _ n, .block (h := []) endLabel h
      (fun p hp hhas => hfirst ⟨p, hp, hhas⟩) rfl rfl (OpenRegion.at_block _ _) (.nothing _) ⟨rfl, rfl⟩⟩
  | @beginHandler o rest kind hopened hblock htakes =>
    obtain rfl : opened = o :: rest := hopened
    exact ⟨_, n + 1, wrapped_next _ n, .handler h hblock htakes (.nothing _)⟩
  | @endRegion o rest hopened hclosable =>
    obtain rfl : opened = o :: rest := hopened
    refine ⟨o.uncover rest, n, rfl, ?_⟩
    cases h with
    | @block _ _ stage m k _ before body hs endLabel hrest hhead hregion hkind hstage hbody hphases =>
      have hconstruct := Derives.guarded endLabel hbody (hphases.complete hstage hkind hclosable)
      rw [OpenRegion.uncover_block hkind, hregion]
      simpa using hrest.construct hhead hconstruct
    | @handler o rest kind m _ before body hbelow hkind htakes hbody =>
      have hphase := Derives.phase (r := o.region) htakes.isHandler hbody
      rw [OpenRegion.uncover_handler]
      -- The block under the handler is itself in the making, and the handler is one phase more of it.
      cases hbelow with
      | block endLabel hrest hhead hregion _ hstage hinside hphases =>
        rw [hregion] at hphase
        have hspine := Spine.block (o := o.afterHandler kind) endLabel hrest hhead hregion hkind
          htakes.at_afterHandler hinside (hphases.after hstage htakes hphase)
        simpa [OpenRegion.handler, hregion] using hspine
      | handler _ _ htakes' _ => exact absurd hkind htakes'.isHandler

end RegionTracker

/-! ## § Sequences with refused calls -/

namespace RegionLog

open RegionTracker (Runs)

theorem run_concat (calls : List RegionCall) (c : RegionCall) : run (calls ++ [c]) = (run calls).call c := by
  simp [run]

theorem inPlace_eq (c : RegionCall) (t : RegionTracker) :
    c.inPlace t = InPlace.settled t (t.perform c) := by
  cases c with
  | beginTry endLabel =>
    rw [RegionCall.inPlace, InPlace.map_run, RegionTracker.beginTryInPlace_eq, RegionTracker.perform]
    cases t.beginTry endLabel <;> rfl
  | beginHandler tryRegion kind =>
    rw [RegionCall.inPlace, InPlace.map_run, RegionTracker.beginHandlerInPlace_eq, RegionTracker.perform]
    cases t.beginHandler tryRegion kind <;> rfl
  | endRegion region =>
    rw [RegionCall.inPlace, InPlace.map_run, RegionTracker.endRegionInPlace_eq, RegionTracker.perform]
    cases t.endRegion region <;> rfl

/-- What is refused leaves no trace. -/
theorem call_refused {log : RegionLog} {c : RegionCall} {fault : NestingFault}
    (h : log.tracker.perform c = .error fault) : log.call c = log := by
  rw [call, inPlace_eq, h]
  rfl

theorem call_accepted {log : RegionLog} {c : RegionCall} {handle : Option Region} {t : RegionTracker}
    (h : log.tracker.perform c = .ok (handle, t)) :
    log.call c = ⟨t, log.accepted ++ [c], log.handles ++ handle.toList⟩ := by
  rw [call, inPlace_eq, h]
  rfl

/-- Regions are handed out in the order of their numbers, and the number of the next one says how many there
have been, up to the overflow. -/
structure Counted (log : RegionLog) : Prop where
  next : log.tracker.next = log.handles.length % 4294967296
  handles : log.handles = (List.range log.handles.length).map Region.numbered

/-- No region comes again before all words have been used. -/
theorem Counted.apart {log : RegionLog} (h : log.Counted) {i j : Nat} {r : Region}
    (hi : log.handles[i]? = some r) (hj : log.handles[j]? = some r) (hij : i < j) : i + 4294967296 ≤ j := by
  have hnumbered {k : Nat} (hk : log.handles[k]? = some r) : r = .numbered k := by
    rw [h.handles, List.getElem?_map, Option.map_eq_some_iff] at hk
    obtain ⟨n, hn, rfl⟩ := hk
    obtain ⟨-, rfl⟩ := List.getElem?_eq_some_iff.mp hn
    rw [List.getElem_range]
  have hwords : i % 4294967296 = j % 4294967296 := Region.mk.inj ((hnumbered hi).symm.trans (hnumbered hj))
  omega

theorem Counted.nodup {log : RegionLog} (h : log.Counted) (hlength : log.handles.length ≤ 4294967296) :
    log.handles.Nodup := by
  rw [List.nodup_iff_getElem?_ne_getElem?]
  intro i j hij hj hsame
  have hlast := List.getElem?_eq_getElem hj
  have hapart := h.apart (hsame.trans hlast) hlast hij
  omega

end RegionLog

end ManagedCode
