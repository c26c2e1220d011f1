/-
# ManagedCode.Proofs.Builder.History — in which order a builder opens and closes regions.

The calls that a builder makes are a history of its regions.  `Admissible` says what each call presupposes of
the calls before it, without reference to a tracker: regions are numbered as they open, the region opened last
is closed first, handlers open while their block is the innermost region, and so on.  `Chronicle` connects
the history to the stack of the tracker, and every step of a builder carries it on.
-/
import ManagedCode.Proofs.Body.Offsets
import ManagedCode.Proofs.Builder.Books

namespace ManagedCode

open RegionTracker (Nested)

/-! ## § Regions in a list of calls -/

/-- The region has been opened, as a block of its own or as a handler of a block. -/
def Begun (calls : List Delivery) (r : Region) (kind : RegionKind) (owner : Option Region) : Prop :=
  ∃ g, .beginRegion g r kind owner ∈ calls

/-- The region has been closed. -/
def Ended (calls : List Delivery) (r : Region) : Prop := .endRegion r ∈ calls

/-- The region has been opened and not closed. -/
def Live (calls : List Delivery) (r : Region) : Prop :=
  (∃ kind owner, Begun calls r kind owner) ∧ ¬ Ended calls r

/-- The region is the last of those that have been opened and not closed. -/
def Innermost (calls : List Delivery) (r : Region) : Prop :=
  Live calls r ∧ ∀ r', Live calls r' → r'.index ≤ r.index

/-- **`Admissible`** — what a builder's call presupposes of the calls before it. -/
def Admissible (past : List Delivery) : Delivery → Prop
  | .instruction _ _ | .branch _ | .label _ => True
  | .beginRegion _ r kind none =>
    kind = .tryBlock ∧ (∀ r' kind' owner, Begun past r' kind' owner → r'.index < r.index) ∧
    -- In a block with handlers a new block opens inside one of the handlers.
    ∀ t h kind', Live past t → Begun past h kind' (some t) →
      ∃ h' kind', Begun past h' kind' (some t) ∧ ¬ Ended past h'
  | .beginRegion _ h kind (some t) =>
    kind ≠ .tryBlock ∧ (∀ r' kind' owner, Begun past r' kind' owner → r'.index < h.index) ∧
    Begun past t .tryBlock none ∧ Innermost past t ∧
    -- What follows a filter block is the catch handler that it guards.
    ∀ f, Begun past f .filterBlock (some t) →
      (∀ h' kind', Begun past h' kind' (some t) → h'.index ≤ f.index) → kind.isCatch = true
  | .endRegion r =>
    Innermost past r ∧ (Begun past r .tryBlock none → ∃ h kind, Begun past h kind (some r)) ∧
    -- A handler is never empty.
    ∀ i g kind t, past[i]? = some (.beginRegion g r kind (some t)) →
      extent {} (past.take i) < extent {} past

/-- **`Bracketed`** — every call is admissible after those before it. -/
def Bracketed (calls : List Delivery) : Prop :=
  ∀ i call, calls[i]? = some call → Admissible (calls.take i) call

section Membership

variable {calls : List Delivery} {call : Delivery} {r : Region} {kind : RegionKind} {owner : Option Region}

theorem begun_concat : Begun (calls ++ [call]) r kind owner ↔
    Begun calls r kind owner ∨ ∃ g, call = .beginRegion g r kind owner := by
  simp only [Begun, List.mem_append, List.mem_singleton, exists_or, eq_comm]

theorem ended_concat : Ended (calls ++ [call]) r ↔ Ended calls r ∨ call = .endRegion r := by
  simp only [Ended, List.mem_append, List.mem_singleton, eq_comm]

theorem getElem?_concat {call' : Delivery} {i : Nat} (h : (calls ++ [call])[i]? = some call') :
    calls[i]? = some call' ∨ (i = calls.length ∧ call = call') := by
  rw [List.getElem?_append] at h
  split at h
  · exact .inl h
  · have hlt := (List.getElem?_eq_some_iff.mp h).1
    rw [List.length_singleton] at hlt
    obtain rfl : i = calls.length := by omega
    rw [Nat.sub_self] at h
    cases h
    exact .inr ⟨rfl, rfl⟩

theorem extent_concat (calls : List Delivery) (call : Delivery) :
    extent {} (calls ++ [call]) = extent {} calls + call.size (poolAfter {} calls) := extent_append _ _ _

theorem mem_take_iff {i : Nat} : call ∈ calls.take i ↔ ∃ j < i, calls[j]? = some call := by
  rw [List.mem_iff_getElem?]
  simp only [List.getElem?_take]
  constructor
  · rintro ⟨j, hj⟩
    split at hj
    · exact ⟨j, ‹_›, hj⟩
    · cases hj
  · rintro ⟨j, hlt, hj⟩
    exact ⟨j, by rw [if_pos hlt, hj]⟩

theorem Begun.of_take {i : Nat} (h : Begun (calls.take i) r kind owner) : Begun calls r kind owner := by
  obtain ⟨g, hg⟩ := h
  exact ⟨g, List.mem_of_mem_take hg⟩

end Membership

namespace Bracketed

variable {calls : List Delivery}

theorem nil : Bracketed [] := fun i call h => by cases h

theorem concat (h : Bracketed calls) {call : Delivery} (hcall : Admissible calls call) :
    Bracketed (calls ++ [call]) := by
  intro i call' hi
  rcases getElem?_concat hi with hi | ⟨rfl, rfl⟩
  · rw [List.take_append_of_le_length (Nat.le_of_lt (List.getElem?_eq_some_iff.mp hi).1)]
    exact h i call' hi
  · rw [List.take_left]
    exact hcall

/-- A handler belongs to a block that was opened before it. -/
theorem owner (h : Bracketed calls) {b : Region} {kind : RegionKind} {t : Region}
    (hb : Begun calls b kind (some t)) :
    kind ≠ .tryBlock ∧ Begun calls t .tryBlock none ∧ t.index < b.index := by
  obtain ⟨g, hg⟩ := hb
  obtain ⟨i, hi⟩ := List.mem_iff_getElem?.mp hg
  obtain ⟨hkind, hnewest, ht, -⟩ := h i _ hi
  exact ⟨hkind, ht.of_take, hnewest _ _ _ ht⟩

/-- A region is opened once. -/
theorem once (h : Bracketed calls) {r : Region} {g g' : TypeGraph} {kind kind' : RegionKind}
    {owner owner' : Option Region} {i j : Nat} (hi : calls[i]? = some (.beginRegion g r kind owner))
    (hj : calls[j]? = some (.beginRegion g' r kind' owner')) : i = j := by
  have hnever {i j : Nat} {g g' : TypeGraph} {kind kind' : RegionKind} {owner owner' : Option Region}
      (hi : calls[i]? = some (.beginRegion g r kind owner))
      (hj : calls[j]? = some (.beginRegion g' r kind' owner')) : ¬ i < j := by
    intro hlt
    have hbegun : Begun (calls.take j) r kind owner := ⟨g, mem_take_iff.mpr ⟨i, hlt, hi⟩⟩
    have hadmissible := h j _ hj
    cases owner' with
    | none => exact Nat.lt_irrefl _ (hadmissible.2.1 _ _ _ hbegun)
    | some t => exact Nat.lt_irrefl _ (hadmissible.2.1 _ _ _ hbegun)
  have hle := hnever hi hj
  have hge := hnever hj hi
  omega

/-- What was closed had been opened. -/
theorem begun_of_ended (h : Bracketed calls) {r : Region} (hr : Ended calls r) :
    ∃ kind owner, Begun calls r kind owner := by
  obtain ⟨i, hi⟩ := List.mem_iff_getElem?.mp hr
  obtain ⟨⟨⟨⟨kind, owner, hbegun⟩, -⟩, -⟩, -⟩ := h i _ hi
  exact ⟨kind, owner, hbegun.of_take⟩

theorem begun_unique (h : Bracketed calls) {r : Region} {kind kind' : RegionKind}
    {owner owner' : Option Region} (hr : Begun calls r kind owner) (hr' : Begun calls r kind' owner') :
    kind = kind' ∧ owner = owner' := by
  obtain ⟨g, hg⟩ := hr
  obtain ⟨g', hg'⟩ := hr'
  obtain ⟨i, hi⟩ := List.mem_iff_getElem?.mp hg
  obtain ⟨j, hj⟩ := List.mem_iff_getElem?.mp hg'
  cases h.once hi hj
  cases hi.symm.trans hj
  exact ⟨rfl, rfl⟩

end Bracketed

/-- A block with handlers that is not the innermost region has one of them over it. -/
theorem RegionTracker.Nested.handler_over {opened : List OpenRegion} (hn : Nested opened) {o : OpenRegion}
    (ho : o ∈ opened) (hhas : o.HasHandlers) :
    opened.head? = some o ∨ ∃ h ∈ opened, h.kind ≠ .tryBlock ∧ h.tryRegion = o.region := by
  induction hn with
  | nil => cases ho
  | block hblock hhead _ ih =>
    rcases List.mem_cons.mp ho with rfl | hrest
    · exact .inl rfl
    · rcases ih hrest with hfirst | ⟨h, hh, hover⟩
      · exact absurd hhas (hhead o hfirst)
      · exact .inr ⟨h, List.mem_cons_of_mem _ hh, hover⟩
  | handler hkind howner _ _ _ ih =>
    rcases List.mem_cons.mp ho with rfl | hrest
    · exact absurd hhas.1 hkind
    · rcases ih hrest with hfirst | ⟨h, hh, hover⟩
      · cases hfirst
        exact .inr ⟨_, List.mem_cons_self, hkind, howner⟩
      · exact .inr ⟨h, List.mem_cons_of_mem _ hh, hover⟩

/-! ## § The history and the stack -/

/-- **`Chronicle`** — the history of the calls tells which regions are on the stack and what has become of
them. -/
structure Chronicle (calls : List Delivery) (t : RegionTracker) (reachable : Bool) : Prop where
  bracketed : Bracketed calls
  nested : Nested t.opened
  sorted : t.opened.Pairwise fun o p => p.region.index < o.region.index
  numbered : ∀ r kind owner, Begun calls r kind owner → r.index < t.next
  live : ∀ r, Live calls r ↔ ∃ o ∈ t.opened, o.region = r
  begun : ∀ o ∈ t.opened,
    Begun calls o.region o.kind (if o.kind = .tryBlock then none else some o.tryRegion)
  handled : ∀ o ∈ t.opened, o.kind = .tryBlock →
    (o.handlers ≠ 0 ↔ ∃ h kind, Begun calls h kind (some o.region))
  /-- A filter block that was the last handler is awaited. -/
  awaited : ∀ o ∈ t.opened, o.kind = .tryBlock → ∀ f, Begun calls f .filterBlock (some o.region) →
    (∀ h kind, Begun calls h kind (some o.region) → h.index ≤ f.index) → Ended calls f →
    o.awaitsCatch = true
  /-- A handler starts with reachable code, which ends with a branch. -/
  filled : ∀ o ∈ t.opened, ∀ i g kind owner,
    calls[i]? = some (.beginRegion g o.region kind (some owner)) →
    extent {} (calls.take i) < extent {} calls ∨ reachable = true

namespace Chronicle

variable {calls : List Delivery} {t t' : RegionTracker} {reachable reachable' : Bool}

theorem congr (h : Chronicle calls t reachable) (hstack : reachable = true → reachable' = true) :
    Chronicle calls t reachable' :=
  { h with filled := fun o ho i g kind owner hi => (h.filled o ho i g kind owner hi).imp_right hstack }

/-- A handler that the last call does not open is as full as it was, or fuller. -/
theorem filled_concat (h : Chronicle calls t reachable) {call : Delivery} {o : OpenRegion} (ho : o ∈ t.opened)
    (hbegin : ∀ g kind owner, call ≠ .beginRegion g o.region kind (some owner))
    (hstack : reachable = true → reachable' = true ∨ 0 < call.size (poolAfter {} calls)) (i : Nat)
    (g : TypeGraph) (kind : RegionKind) (owner : Region)
    (hi : (calls ++ [call])[i]? = some (.beginRegion g o.region kind (some owner))) :
    extent {} ((calls ++ [call]).take i) < extent {} (calls ++ [call]) ∨ reachable' = true := by
  rcases getElem?_concat hi with hi | ⟨-, heq⟩
  · rw [List.take_append_of_le_length (Nat.le_of_lt (List.getElem?_eq_some_iff.mp hi).1), extent_concat]
    rcases h.filled o ho i g kind owner hi with hlt | hreachable
    · exact .inl (Nat.lt_add_right _ hlt)
    · rcases hstack hreachable with hreachable' | hsize
      · exact .inr hreachable'
      · have hle := extent_take_le {} calls i
        exact .inl (by omega)
  · exact absurd heq (hbegin g kind owner)

/-- Calls that open and close nothing. -/
theorem quiet (h : Chronicle calls t reachable) {call : Delivery}
    (hbegin : ∀ g r kind owner, call ≠ .beginRegion g r kind owner) (hend : ∀ r, call ≠ .endRegion r)
    (hstack : reachable = true → reachable' = true ∨ 0 < call.size (poolAfter {} calls)) :
    Chronicle (calls ++ [call]) t reachable' := by
  have hbegun : Begun (calls ++ [call]) = Begun calls := by
    funext r kind owner
    rw [begun_concat, eq_iff_iff]
    exact or_iff_left fun ⟨g, hg⟩ => hbegin g r kind owner hg
  have hended : Ended (calls ++ [call]) = Ended calls := by
    funext r
    rw [ended_concat, eq_iff_iff]
    exact or_iff_left (hend r)
  have hlive : Live (calls ++ [call]) = Live calls := by
    funext r
    rw [Live, Live, hbegun, hended]
  have hadmissible : Admissible calls call := by
    cases call with
    | beginRegion g r kind owner => exact absurd rfl (hbegin g r kind owner)
    | endRegion r => exact absurd rfl (hend r)
    | _ => trivial
  refine ⟨h.bracketed.concat hadmissible, h.nested, h.sorted, ?_, ?_, ?_, ?_, ?_, ?_⟩
  · rw [hbegun]
    exact h.numbered
  · rw [hlive]
    exact h.live
  · rw [hbegun]
    exact h.begun
  · rw [hbegun]
    exact h.handled
  · rw [hbegun, hended]
    exact h.awaited
  · exact fun o ho => h.filled_concat ho (fun g kind owner => hbegin g o.region kind (some owner)) hstack

/-- The stack is in the order of the numbers. -/
theorem under (h : Chronicle calls t reachable) {o : OpenRegion} {rest : List OpenRegion}
    (hopened : t.opened = o :: rest) :
    o ∈ t.opened ∧ ∀ p ∈ rest, p ∈ t.opened ∧ p.region.index < o.region.index := by
  have hsorted := h.sorted
  rw [hopened, List.pairwise_cons] at hsorted
  rw [hopened]
  exact ⟨List.mem_cons_self, fun p hp => ⟨List.mem_cons_of_mem _ hp, hsorted.1 p hp⟩⟩

theorem ne_of_under (h : Chronicle calls t reachable) {o p : OpenRegion} {rest : List OpenRegion}
    (hopened : t.opened = o :: rest) (hp : p ∈ rest) : p.region ≠ o.region := by
  intro heq
  have hlt := ((h.under hopened).2 p hp).2
  rw [heq] at hlt
  exact Nat.lt_irrefl _ hlt

theorem innermost (h : Chronicle calls t reachable) {o : OpenRegion} {rest : List OpenRegion}
    (hopened : t.opened = o :: rest) : Innermost calls o.region := by
  obtain ⟨ho, hrest⟩ := h.under hopened
  refine ⟨(h.live _).mpr ⟨o, ho, rfl⟩, fun r' hr' => ?_⟩
  obtain ⟨p, hp, rfl⟩ := (h.live r').mp hr'
  rw [hopened] at hp
  rcases List.mem_cons.mp hp with rfl | hp
  · exact Nat.le_refl _
  · exact Nat.le_of_lt (hrest p hp).2

/-! ## § Opening -/

/-- Nothing is known of the region that is opened next. -/
theorem fresh (h : Chronicle calls t reachable) :
    (∀ kind owner, ¬ Begun calls ⟨t.next⟩ kind owner) ∧ ¬ Ended calls ⟨t.next⟩ ∧
      ∀ b kind, ¬ Begun calls b kind (some ⟨t.next⟩) := by
  have hbegun (kind : RegionKind) (owner : Option Region) : ¬ Begun calls ⟨t.next⟩ kind owner :=
    fun hb => Nat.lt_irrefl _ (h.numbered _ _ _ hb)
  refine ⟨hbegun, fun hended => ?_, fun b kind hb => ?_⟩
  · obtain ⟨kind, owner, hb⟩ := h.bracketed.begun_of_ended hended
    exact hbegun _ _ hb
  · exact hbegun _ _ (h.bracketed.owner hb).2.1

/-- One more region is live. -/
theorem live_begin (h : Chronicle calls t reachable) {g : TypeGraph} {kind : RegionKind} {owner : Option Region}
    (r : Region) : Live (calls ++ [.beginRegion g ⟨t.next⟩ kind owner]) r ↔ r = ⟨t.next⟩ ∨ Live calls r := by
  obtain ⟨hbegun, hended, -⟩ := h.fresh
  have hsame : Ended (calls ++ [.beginRegion g ⟨t.next⟩ kind owner]) r ↔ Ended calls r :=
    ended_concat.trans (or_iff_left (by simp))
  rw [Live, Live, hsame]
  constructor
  · rintro ⟨⟨kind', owner', hr⟩, hopen⟩
    rcases begun_concat.mp hr with hr | ⟨g', heq⟩
    · exact .inr ⟨⟨kind', owner', hr⟩, hopen⟩
    · cases heq
      exact .inl rfl
  · rintro (rfl | ⟨⟨kind', owner', hr⟩, hopen⟩)
    · exact ⟨⟨kind, owner, begun_concat.mpr (.inr ⟨g, rfl⟩)⟩, hended⟩
    · exact ⟨⟨kind', owner', begun_concat.mpr (.inl hr)⟩, hopen⟩

theorem numbered_begin (h : Chronicle calls t reachable) {g : TypeGraph} {kind : RegionKind}
    {owner : Option Region} (r : Region) (kind' : RegionKind) (owner' : Option Region)
    (hr : Begun (calls ++ [.beginRegion g ⟨t.next⟩ kind owner]) r kind' owner') : r.index < t.next + 1 := by
  rcases begun_concat.mp hr with hr | ⟨g', heq⟩
  · exact Nat.lt_succ_of_lt (h.numbered _ _ _ hr)
  · cases heq
    exact Nat.lt_succ_self _

theorem beginTry (h : Chronicle calls t reachable) (g : TypeGraph) {endLabel : Label} {region : Region}
    (hbegin : t.beginTry endLabel = .ok (region, t')) :
    Chronicle (calls ++ [.beginRegion g region .tryBlock none]) t' reachable := by
  have hn := h.nested.beginTry hbegin
  obtain ⟨hfirst, rfl, rfl⟩ := RegionTracker.beginTry_ok hbegin
  obtain ⟨hbegun, hended, hhandler⟩ := h.fresh
  have hold {b : Region} {kind : RegionKind} {owner : Region} :
      Begun (calls ++ [.beginRegion g ⟨t.next⟩ .tryBlock none]) b kind (some owner) ↔
        Begun calls b kind (some owner) := begun_concat.trans (or_iff_left (by simp))
  refine ⟨h.bracketed.concat ⟨rfl, h.numbered, ?_⟩, hn, ?_, h.numbered_begin, fun r => ?_, ?_, ?_, ?_, ?_⟩
  · intro owner b kind hlive hb
    obtain ⟨o, ho, rfl⟩ := (h.live owner).mp hlive
    have hkind : o.kind = .tryBlock :=
      (h.bracketed.begun_unique (h.begun o ho) (h.bracketed.owner hb).2.1).1
    have hhas : o.HasHandlers := ⟨hkind, (h.handled o ho hkind).mpr ⟨b, kind, hb⟩⟩
    rcases h.nested.handler_over ho hhas with hhead | ⟨p, hp, hover, howner⟩
    · exact absurd ⟨o, hhead, hhas⟩ hfirst
    · have hp' := h.begun p hp
      rw [if_neg hover, howner] at hp'
      exact ⟨p.region, p.kind, hp', ((h.live _).mpr ⟨p, hp, rfl⟩).2⟩
  · exact List.pairwise_cons.mpr ⟨fun p hp => h.numbered _ _ _ (h.begun p hp), h.sorted⟩
  · rw [h.live_begin, h.live, List.exists_mem_cons_iff]
    exact or_congr_left eq_comm
  · rw [List.forall_mem_cons]
    exact ⟨begun_concat.mpr (.inr ⟨g, rfl⟩), fun o ho => begun_concat.mpr (.inl (h.begun o ho))⟩
  · rw [List.forall_mem_cons]
    refine ⟨fun _ => iff_of_false (fun hne => hne rfl) ?_, fun o ho hkind => ?_⟩
    · rintro ⟨b, kind, hb⟩
      exact hhandler _ _ (hold.mp hb)
    · simp only [hold]
      exact h.handled o ho hkind
  · rw [List.forall_mem_cons]
    refine ⟨fun _ f hf => absurd (hold.mp hf) (hhandler _ _), fun o ho hkind f hf hlast hclosed => ?_⟩
    simp only [hold] at hf hlast
    exact h.awaited o ho hkind f hf hlast ((ended_concat.mp hclosed).resolve_right (by simp))
  · rw [List.forall_mem_cons]
    refine ⟨fun i g' kind owner hi => ?_, fun o ho => h.filled_concat ho (by simp) .inl⟩
    exact absurd (hold.mp ⟨g', List.mem_of_getElem? hi⟩) (hbegun _ _)

theorem beginHandler (h : Chronicle calls t reachable) (g : TypeGraph) {tryRegion region : Region}
    {kind : RegionKind} (hbegin : t.beginHandler tryRegion kind = .ok (region, t')) :
    Chronicle (calls ++ [.beginRegion g region kind (some tryRegion)]) t' true := by
  have hn := h.nested.beginHandler hbegin
  obtain ⟨entry, hentry, -⟩ := Except.bind_eq_ok_iff.mp hbegin
  obtain ⟨o, rest, hopened, rfl, hblock, hkind, rfl, rfl⟩ := RegionTracker.beginHandler_ok hbegin
  obtain ⟨hbegun, hended, hhandler⟩ := h.fresh
  obtain ⟨ho, hunder⟩ := h.under hopened
  have hrest : ∀ p ∈ rest, p ∈ t.opened := fun p hp => (hunder p hp).1
  have howner : Begun calls o.region .tryBlock none := by
    have hb := h.begun o ho
    rwa [hblock, if_pos rfl] at hb
  refine ⟨h.bracketed.concat ⟨hkind, h.numbered, howner, h.innermost hopened, ?_⟩, hn, ?_, h.numbered_begin,
    fun r => ?_, ?_, ?_, ?_, fun _ _ _ _ _ _ _ => .inr rfl⟩
  · intro f hf hlast
    have hclosed : Ended calls f := by
      by_contra hlive
      -- A filter block that is still open would lie over its block.
      have hle := (h.innermost hopened).2 f ⟨⟨_, _, hf⟩, hlive⟩
      exact absurd (h.bracketed.owner hf).2.2 (Nat.not_lt.mpr hle)
    exact RegionTracker.checkHandler_awaited hentry hopened (h.awaited o ho hblock f hf hlast hclosed)
  · have hsorted := h.sorted
    rw [hopened, List.pairwise_cons] at hsorted
    rw [List.pairwise_cons, List.pairwise_cons]
    refine ⟨?_, hsorted⟩
    rw [List.forall_mem_cons]
    exact ⟨h.numbered _ _ _ (h.begun o ho), fun p hp => h.numbered _ _ _ (h.begun p (hrest p hp))⟩
  · rw [h.live_begin, h.live, hopened, List.exists_mem_cons_iff, List.exists_mem_cons_iff,
      List.exists_mem_cons_iff]
    exact or_congr_left eq_comm
  · rw [List.forall_mem_cons, List.forall_mem_cons]
    refine ⟨begun_concat.mpr (.inr ⟨g, ?_⟩), begun_concat.mpr (.inl (h.begun o ho)),
      fun p hp => begun_concat.mpr (.inl (h.begun p (hrest p hp)))⟩
    rw [if_neg hkind]
  · rw [List.forall_mem_cons, List.forall_mem_cons]
    refine ⟨fun htry => absurd htry hkind, fun _ => ?_, fun p hp hblock' => ?_⟩
    · exact iff_of_true (Nat.succ_ne_zero _) ⟨⟨t.next⟩, kind, begun_concat.mpr (.inr ⟨g, rfl⟩)⟩
    · rw [h.handled p (hrest p hp) hblock']
      refine exists_congr fun b => exists_congr fun kind' => (begun_concat.trans (or_iff_left ?_)).symm
      rintro ⟨g', heq⟩
      rw [Delivery.beginRegion.injEq, Option.some.injEq] at heq
      exact h.ne_of_under hopened hp heq.2.2.2.symm
  · rw [List.forall_mem_cons, List.forall_mem_cons]
    refine ⟨fun htry => absurd htry hkind, fun _ f hf hlast hclosed => ?_, fun p hp hblock' f hf hlast hclosed => ?_⟩
    · -- The last handler has only just been opened.
      have hle := hlast ⟨t.next⟩ kind (begun_concat.mpr (.inr ⟨g, rfl⟩))
      rcases begun_concat.mp hf with hf | ⟨g', heq⟩
      · exact absurd (h.numbered _ _ _ hf) (Nat.not_lt.mpr hle)
      · cases heq
        exact absurd ((ended_concat.mp hclosed).resolve_right (by simp)) hended
    · rcases begun_concat.mp hf with hf | ⟨g', heq⟩
      · exact h.awaited p (hrest p hp) hblock' f hf
          (fun b kind' hb => hlast b kind' (begun_concat.mpr (.inl hb)))
          ((ended_concat.mp hclosed).resolve_right (by simp))
      · rw [Delivery.beginRegion.injEq, Option.some.injEq] at heq
        exact absurd heq.2.2.2.symm (h.ne_of_under hopened hp)

/-! ## § Closing -/

/-- The innermost region may be closed, unless it is a block without handlers or a handler at whose end the
code is reachable. -/
theorem admissible_end (h : Chronicle calls t reachable) {o : OpenRegion} {rest : List OpenRegion}
    (hopened : t.opened = o :: rest) (hhas : o.kind = .tryBlock → o.HasHandlers)
    (hdead : o.kind ≠ .tryBlock → reachable = false) : Admissible calls (.endRegion o.region) := by
  obtain ⟨ho, -⟩ := h.under hopened
  refine ⟨h.innermost hopened, fun hb => ?_, fun i g kind owner hi => ?_⟩
  · have hkind := (h.bracketed.begun_unique (h.begun o ho) hb).1
    exact (h.handled o ho hkind).mp (hhas hkind).2
  · have hb : Begun calls o.region kind (some owner) := ⟨g, List.mem_of_getElem? hi⟩
    have hkind : o.kind ≠ .tryBlock := by
      rw [(h.bracketed.begun_unique (h.begun o ho) hb).1]
      exact (h.bracketed.owner hb).1
    refine (h.filled o ho i g kind owner hi).resolve_right ?_
    rw [hdead hkind]
    exact Bool.false_ne_true

/-- One region less is live. -/
theorem live_end (h : Chronicle calls t reachable) {o : OpenRegion} {rest : List OpenRegion}
    (hopened : t.opened = o :: rest) (r : Region) :
    Live (calls ++ [.endRegion o.region]) r ↔ ∃ p ∈ rest, p.region = r := by
  have hbegun : (∃ kind owner, Begun (calls ++ [.endRegion o.region]) r kind owner) ↔
      ∃ kind owner, Begun calls r kind owner :=
    exists_congr fun kind => exists_congr fun owner => begun_concat.trans (or_iff_left (by simp))
  have hbefore := h.live r
  rw [hopened, List.exists_mem_cons_iff, Live] at hbefore
  rw [Live, hbegun, ended_concat, not_or, ← and_assoc, hbefore, Delivery.endRegion.injEq]
  constructor
  · rintro ⟨heq | hp, hother⟩
    · exact absurd heq hother
    · exact hp
  · rintro ⟨p, hp, rfl⟩
    exact ⟨.inr ⟨p, hp, rfl⟩, fun heq => h.ne_of_under hopened hp heq.symm⟩

/-- A block waits as it did, unless the region that is closed is a filter of it. -/
theorem awaited_end (h : Chronicle calls t reachable) {o p : OpenRegion} (ho : o ∈ t.opened) (hp : p ∈ t.opened)
    (hkind : p.kind = .tryBlock) (hother : o.kind = .filterBlock → o.tryRegion ≠ p.region) (f : Region)
    (hf : Begun calls f .filterBlock (some p.region))
    (hlast : ∀ b kind, Begun calls b kind (some p.region) → b.index ≤ f.index)
    (hclosed : Ended (calls ++ [.endRegion o.region]) f) : p.awaitsCatch = true := by
  rcases ended_concat.mp hclosed with hclosed | heq
  · exact h.awaited p hp hkind f hf hlast hclosed
  · cases heq
    obtain ⟨hfilter, howner⟩ := h.bracketed.begun_unique (h.begun o ho) hf
    rw [hfilter, if_neg (by simp), Option.some.injEq] at howner
    exact absurd howner (hother hfilter)

theorem endRegion (h : Chronicle calls t reachable) {region : Region} {o : OpenRegion}
    (hend : t.endRegion region = .ok (o, t')) (hdead : o.kind ≠ .tryBlock → reachable = false) :
    Chronicle (calls ++ [.endRegion region]) t' reachable := by
  have hn := h.nested.endRegion hend
  obtain ⟨hcheck, hnext, rest, hopened, hcases⟩ := RegionTracker.endRegion_ok hend
  obtain ⟨-, -, rfl, hhas⟩ := RegionTracker.checkEnd_ok hcheck
  obtain ⟨ho, hunder⟩ := h.under hopened
  have hrest : ∀ p ∈ rest, p ∈ t.opened := fun p hp => (hunder p hp).1
  have hbegun : Begun (calls ++ [.endRegion o.region]) = Begun calls := by
    funext r kind owner
    rw [begun_concat, eq_iff_iff]
    exact or_iff_left (by simp)
  have hawaited : ∀ p ∈ rest, p.kind = .tryBlock → (o.kind = .filterBlock → o.tryRegion ≠ p.region) →
      ∀ f, Begun calls f .filterBlock (some p.region) →
      (∀ b kind, Begun calls b kind (some p.region) → b.index ≤ f.index) →
      Ended (calls ++ [.endRegion o.region]) f → p.awaitsCatch = true :=
    fun p hp => h.awaited_end ho (hrest p hp)
  have hfilled : ∀ p ∈ rest, ∀ (i : Nat) g kind owner,
      (calls ++ [.endRegion o.region])[i]? = some (.beginRegion g p.region kind (some owner)) →
      extent {} ((calls ++ [Delivery.endRegion o.region]).take i) <
        extent {} (calls ++ [.endRegion o.region]) ∨ reachable = true :=
    fun p hp => h.filled_concat (hrest p hp) (by simp) .inl
  have hsame : (∀ p ∈ rest, Begun calls p.region p.kind (if p.kind = .tryBlock then none else some p.tryRegion)) ∧
      ∀ p ∈ rest, p.kind = .tryBlock →
        (p.handlers ≠ 0 ↔ ∃ b kind, Begun calls b kind (some p.region)) :=
    ⟨fun p hp => h.begun p (hrest p hp), fun p hp => h.handled p (hrest p hp)⟩
  have hadmissible := h.bracketed.concat (h.admissible_end hopened hhas hdead)
  have hsorted := h.sorted
  rw [hopened, List.pairwise_cons] at hsorted
  have hlive := h.live_end hopened
  by_cases hfilter : o.kind = .filterBlock
  · -- The block under the filter is the only one that changes: it waits from now on.
    have hunder := h.nested
    rw [hopened] at hunder
    obtain ⟨p, outer, rfl, howner, -⟩ := hunder.under_handler (by simp [hfilter])
    have hopened' := RegionTracker.endRegion_filter hend hfilter hopened
    rw [List.forall_mem_cons] at hawaited hfilled
    rw [List.forall_mem_cons, List.forall_mem_cons] at hsame
    rw [List.pairwise_cons] at hsorted
    refine ⟨hadmissible, hn, ?_, ?_, fun r => ?_, ?_, ?_, ?_, ?_⟩
    · rw [hopened', List.pairwise_cons]
      exact hsorted.2
    · rw [hbegun, hnext]
      exact h.numbered
    · rw [hlive, hopened', List.exists_mem_cons_iff, List.exists_mem_cons_iff]
    · rw [hbegun, hopened', List.forall_mem_cons]
      exact hsame.1
    · rw [hbegun, hopened', List.forall_mem_cons]
      exact hsame.2
    · rw [hbegun, hopened', List.forall_mem_cons]
      refine ⟨fun _ _ _ _ _ => rfl, fun q hq hkind => hawaited.2 q hq hkind fun _ heq => ?_⟩
      -- Further out lie other blocks than the one of the filter.
      have hlt := hsorted.2.1 q hq
      rw [howner] at heq
      rw [heq] at hlt
      exact Nat.lt_irrefl _ hlt
    · rw [hopened', List.forall_mem_cons]
      exact hfilled
  · have hopened' : t'.opened = rest := by
      rcases hcases with hrest | ⟨-, -, hkind, -, -⟩
      · exact hrest
      · exact absurd hkind hfilter
    rw [← hopened'] at hsorted hlive hawaited hfilled hsame
    refine ⟨hadmissible, hn, hsorted.2, ?_, hlive, ?_, ?_, ?_, hfilled⟩
    · rw [hbegun, hnext]
      exact h.numbered
    · rw [hbegun]
      exact hsame.1
    · rw [hbegun]
      exact hsame.2
    · rw [hbegun]
      exact fun p hp hkind => hawaited p hp hkind fun hkind' => absurd hkind' hfilter

/-! ## § Every step -/

/-- Marking a label at which the code goes on. -/
theorem place (h : Chronicle calls t reachable) {g : TypeGraph} {labels labels' : LabelTable} {l : Label}
    {fallThrough resume : AbstractStack} (hplace : labels.place g l fallThrough = .ok (resume, labels'))
    (hstack : fallThrough.isReachable = reachable) :
    Chronicle (calls ++ [.label l]) t resume.isReachable := by
  refine h.quiet (by simp) (by simp) fun hreachable => .inl ?_
  rcases (LabelTable.place_ok hplace).1 with ⟨-, rfl⟩ | ⟨slots, -, rfl, -⟩
  · exact hstack.trans hreachable
  · rfl

/-- **`Chronicle.step`** — every step of a builder carries its history on. -/
theorem step {op : Operation} {b b' : Builder Transcript} (hstep : Step op b b')
    (h : Chronicle b.sink.calls b.draft.regions b.draft.stack.isReachable) :
    Chronicle b'.sink.calls b'.draft.regions b'.draft.stack.isReachable := by
  cases hstep with
  | declareLocal => exact h
  | defineLabel => exact h
  | addResultTypes =>
    rw [Draft.addResultTypes_eq]
    exact h
  | report => exact h
  | @instruction d t t' insn after hinsn hvirtual hok hsink =>
    cases hsink
    rw [Draft.addResultTypes_eq]
    refine h.quiet (by simp) (by simp) fun hreachable => .inl ?_
    -- Straight-line code goes on after every instruction.
    show after.isReachable = true
    cases hstack : d.stack with
    | unreachable =>
      rw [hstack] at hreachable
      cases hreachable
    | reachable slots =>
      rw [hstack] at hok
      obtain ⟨effect, out, -, -, rfl⟩ := AbstractStack.step_ok_iff.mp hok
      rfl
  | instructionRefused hsink => cases hsink
  | @branch d t t' b j hb hj hsink =>
    cases hsink
    obtain ⟨late, hcommit, -, -⟩ := Draft.commitBranch_eq b j (d.note (.emitted ⟨.branch b, d.stack⟩))
    rw [hcommit]
    exact h.quiet (by simp) (by simp) fun _ => .inr (Delivery.size_branch_pos _ _)
  | branchRefused hsink => cases hsink
  | place hop hfree hplace hsink =>
    cases hsink
    exact h.place hplace rfl
  | placeRefused hop hplace hsink => cases hsink
  | beginTry hfree hbegin hsink =>
    cases hsink
    exact h.beginTry _ hbegin
  | beginTryRefused hbegin hsink => cases hsink
  | @beginHandler d t t' tryRegion region kind regions hop hfree hbetween hbegin hsink =>
    cases hsink
    have hstack : (d.handlerStack kind).isReachable = true := by cases kind <;> rfl
    exact (h.beginHandler _ hbegin).congr fun _ => hstack
  | beginHandlerRefused hbetween hbegin hsink => cases hsink
  | endHandler hfree hkind hdead hend hsink =>
    cases hsink
    exact h.endRegion hend fun _ => by rw [hdead]; rfl
  | endTry hfree hblock hend hsink hplace hmark =>
    cases hsink
    cases hmark
    exact (h.endRegion hend fun hkind => absurd hblock hkind).place hplace rfl
  | endTryUnplaced hblock hend hsink =>
    cases hsink
    exact h.endRegion hend fun hkind => absurd hblock hkind
  | endTryRefused hblock hend hsink hplace hmark => cases hmark
  | endRefused hdead hend hsink => cases hsink

end Chronicle

namespace Session

variable (g : TypeGraph) (system : SystemTypes) (method : MethodId) (ops : List Operation)

/-- **`chronicle_run`** — a builder keeps to the order of regions, whatever the caller asks for. -/
theorem chronicle_run :
    Chronicle ((start g system method Transcript.empty).run ops).builder.sink.calls
      ((start g system method Transcript.empty).run ops).builder.draft.regions
      ((start g system method Transcript.empty).run ops).builder.draft.stack.isReachable := by
  refine run_induction (fun s => Chronicle s.builder.sink.calls s.builder.draft.regions
    s.builder.draft.stack.isReachable) (fun s op _ hs => ?_) ?_
    (admits_true (start g system method Transcript.empty) ops)
  · exact call_induction
      (fun b => Chronicle b.sink.calls b.draft.regions b.draft.stack.isReachable)
      (fun b b' hstep _ => Chronicle.step hstep) hs
  · have hregions : (start g system method Transcript.empty).builder.draft.regions = {} :=
      Draft.regions_start g system method
    have hnone (r : Region) (kind : RegionKind) (owner : Option Region) : ¬ Begun [] r kind owner := by
      rintro ⟨g', hg'⟩
      cases hg'
    rw [hregions]
    refine ⟨.nil, .nil, .nil, fun r kind owner hr => absurd hr (hnone _ _ _), fun r => ?_, by simp, by simp,
      by simp, by simp⟩
    refine iff_of_false ?_ (by simp)
    rintro ⟨⟨kind, owner, hr⟩, -⟩
    exact hnone _ _ _ hr

end Session

end ManagedCode
