/-
# ManagedCode.Proofs.Builder.Nesting — how the parts of protected blocks lie inside each other.

A protected block and its handlers form a construct, which has phases: the body, up to the first handler, and
every handler from its opening to its closing, filter blocks included.  In a bracketed history a construct
that opens within a phase is over before the phase is.  So two constructs are apart unless one of them opens
within a phase of the other.  Calls are counted by their position in the history, and what holds of positions
holds of the offsets of the code that is written in between.
-/
import Mathlib.Data.Nat.Find
import ManagedCode.Proofs.Builder.History

namespace ManagedCode

/-! ## § Calls by position -/

/-- The call at the position opens the region. -/
def OpensAt (calls : List Delivery) (i : Nat) (r : Region) (kind : RegionKind) (owner : Option Region) : Prop :=
  ∃ g, calls[i]? = some (.beginRegion g r kind owner)

/-- The call at the position closes the region. -/
def ClosesAt (calls : List Delivery) (j : Nat) (r : Region) : Prop := calls[j]? = some (.endRegion r)

/-- Every region that has been opened has been closed. -/
def Complete (calls : List Delivery) : Prop :=
  ∀ r kind owner, Begun calls r kind owner → Ended calls r

/-- **`offsetAt`** — where the code stands that the calls from a position on write. -/
def offsetAt (calls : List Delivery) (i : Nat) : Nat := extent {} (calls.take i)

section Positions

variable {calls : List Delivery} {i j : Nat} {r : Region} {kind : RegionKind} {owner : Option Region}

theorem begun_iff : Begun calls r kind owner ↔ ∃ i, OpensAt calls i r kind owner := by
  simp only [Begun, OpensAt, List.mem_iff_getElem?]
  exact exists_comm

theorem ended_iff : Ended calls r ↔ ∃ j, ClosesAt calls j r := List.mem_iff_getElem?

theorem begun_take_iff : Begun (calls.take i) r kind owner ↔ ∃ m < i, OpensAt calls m r kind owner := by
  simp only [Begun, OpensAt, mem_take_iff]
  constructor
  · rintro ⟨g, m, hm, hcall⟩
    exact ⟨m, hm, g, hcall⟩
  · rintro ⟨m, hm, g, hcall⟩
    exact ⟨g, m, hm, hcall⟩

theorem ended_take_iff : Ended (calls.take i) r ↔ ∃ m < i, ClosesAt calls m r := mem_take_iff

/-- One call opens one region. -/
theorem OpensAt.same {r' : Region} {kind' : RegionKind} {owner' : Option Region}
    (h : OpensAt calls i r kind owner) (h' : OpensAt calls i r' kind' owner') :
    r = r' ∧ kind = kind' ∧ owner = owner' := by
  obtain ⟨g, hg⟩ := h
  obtain ⟨g', hg'⟩ := h'
  cases hg.symm.trans hg'
  exact ⟨rfl, rfl, rfl⟩

theorem OpensAt.ne_closesAt {r' : Region} (h : OpensAt calls i r kind owner) (h' : ClosesAt calls j r') :
    i ≠ j := by
  rintro rfl
  obtain ⟨g, hg⟩ := h
  cases hg.symm.trans h'

theorem live_take_iff : Live (calls.take i) r ↔
    (∃ kind owner, ∃ m < i, OpensAt calls m r kind owner) ∧ ∀ m < i, ¬ ClosesAt calls m r := by
  simp only [Live, begun_take_iff, ended_take_iff, not_exists, not_and]

theorem offsetAt_mono (h : i ≤ j) : offsetAt calls i ≤ offsetAt calls j := by
  have hle := extent_take_le {} (calls.take j) i
  rwa [List.take_take, Nat.min_eq_left h] at hle

theorem offsetAt_le (calls : List Delivery) (i : Nat) : offsetAt calls i ≤ extent {} calls :=
  extent_take_le {} calls i

end Positions

/-! ## § One region -/

namespace Bracketed

variable {calls : List Delivery} {i j i' j' k : Nat} {r r' t : Region} {kind kind' : RegionKind}
  {owner owner' : Option Region}

theorem opensAt_unique (h : Bracketed calls) (hr : OpensAt calls i r kind owner)
    (hr' : OpensAt calls i' r kind' owner') : i = i' ∧ kind = kind' ∧ owner = owner' := by
  obtain ⟨hkind, howner⟩ := h.begun_unique (begun_iff.mpr ⟨i, hr⟩) (begun_iff.mpr ⟨i', hr'⟩)
  obtain ⟨g, hg⟩ := hr
  obtain ⟨g', hg'⟩ := hr'
  exact ⟨h.once hg hg', hkind, howner⟩

/-- Regions are numbered in the order in which they open. -/
theorem index_lt (h : Bracketed calls) (hr : OpensAt calls i r kind owner)
    (hr' : OpensAt calls i' r' kind' owner') (hlt : i < i') : r.index < r'.index := by
  obtain ⟨g', hg'⟩ := hr'
  have hbegun : Begun (calls.take i') r kind owner := begun_take_iff.mpr ⟨i, hlt, hr⟩
  have hadmissible := h i' _ hg'
  cases owner' with
  | none => exact hadmissible.2.1 _ _ _ hbegun
  | some t => exact hadmissible.2.1 _ _ _ hbegun

/-- What is closed has been opened before. -/
theorem lt_of_closesAt (h : Bracketed calls) (hr : OpensAt calls i r kind owner) (hclose : ClosesAt calls j r) :
    i < j := by
  obtain ⟨⟨hlive, -⟩, -, -⟩ := h j _ hclose
  obtain ⟨⟨kind', owner', m, hm, hopen⟩, -⟩ := live_take_iff.mp hlive
  obtain ⟨rfl, -, -⟩ := h.opensAt_unique hr hopen
  exact hm

theorem closesAt_unique (h : Bracketed calls) (hclose : ClosesAt calls j r) (hclose' : ClosesAt calls j' r) :
    j = j' := by
  have hnever {j j' : Nat} (hclose : ClosesAt calls j r) (hclose' : ClosesAt calls j' r) : ¬ j < j' := by
    intro hlt
    obtain ⟨⟨hlive, -⟩, -, -⟩ := h j' _ hclose'
    exact (live_take_iff.mp hlive).2 j hlt hclose
  have hle := hnever hclose hclose'
  have hge := hnever hclose' hclose
  omega

/-- What opens after a region is closed by the time that the region is innermost. -/
theorem closed_of_innermost (h : Bracketed calls) (hinner : Innermost (calls.take k) r)
    (hr : OpensAt calls i r kind owner) (hr' : OpensAt calls j r' kind' owner') (hij : i < j) (hjk : j < k) :
    ∃ z, j < z ∧ z < k ∧ ClosesAt calls z r' := by
  by_contra hnever
  have hlive : Live (calls.take k) r' := by
    refine live_take_iff.mpr ⟨⟨kind', owner', j, hjk, hr'⟩, fun z hz hcloses => ?_⟩
    exact hnever ⟨z, h.lt_of_closesAt hr' hcloses, hz, hcloses⟩
  exact absurd (h.index_lt hr hr' hij) (Nat.not_lt.mpr (hinner.2 r' hlive))

/-- **`closed_inside`** — what opens while a region is open is closed before it. -/
theorem closed_inside (h : Bracketed calls) (hr : OpensAt calls i r kind owner) (hclose : ClosesAt calls j r)
    (hr' : OpensAt calls k r' kind' owner') (hik : i < k) (hkj : k < j) :
    ∃ z, k < z ∧ z < j ∧ ClosesAt calls z r' :=
  h.closed_of_innermost (h j _ hclose).1 hr hr' hik hkj

/-- **`handler_opens`** — a handler opens while its block is open and everything in the block is closed. -/
theorem handler_opens (h : Bracketed calls) (hr : OpensAt calls k r kind (some t)) :
    kind ≠ .tryBlock ∧ ∃ i < k, OpensAt calls i t .tryBlock none ∧ (∀ j < k, ¬ ClosesAt calls j t) ∧
      ∀ m r' kind' owner', OpensAt calls m r' kind' owner' → i < m → m < k →
        ∃ j, m < j ∧ j < k ∧ ClosesAt calls j r' := by
  obtain ⟨g, hg⟩ := hr
  obtain ⟨hkind, -, howner, hinner, -⟩ := h k _ hg
  obtain ⟨i, hik, hopen⟩ := begun_take_iff.mp howner
  exact ⟨hkind, i, hik, hopen, (live_take_iff.mp hinner.1).2, fun m r' kind' owner' hm him hmk =>
    h.closed_of_innermost hinner hopen hm him hmk⟩

/-- Of two handlers of a block the first is closed when the second opens. -/
theorem handler_closed (h : Bracketed calls) (hr : OpensAt calls i r kind (some t))
    (hr' : OpensAt calls k r' kind' (some t)) (hlt : i < k) : ∃ z, i < z ∧ z < k ∧ ClosesAt calls z r := by
  obtain ⟨-, a, ha, hblock, -⟩ := h.handler_opens hr
  obtain ⟨-, a', -, hblock', -, hinside⟩ := h.handler_opens hr'
  obtain ⟨rfl, -, -⟩ := h.opensAt_unique hblock hblock'
  exact hinside i r kind (some t) hr ha hlt

/-- In an open block that has had a handler, a block opens within an open handler. -/
theorem block_opens (h : Bracketed calls) (hr : OpensAt calls k r kind none)
    (ht : OpensAt calls i t .tryBlock none) (hik : i < k) (hopen : ∀ j < k, ¬ ClosesAt calls j t)
    (hhas : ∃ m < k, ∃ b kind', OpensAt calls m b kind' (some t)) :
    ∃ m < k, ∃ b kind', OpensAt calls m b kind' (some t) ∧ ∀ j < k, ¬ ClosesAt calls j b := by
  obtain ⟨g, hg⟩ := hr
  obtain ⟨m, hmk, b, kind', hb⟩ := hhas
  obtain ⟨-, -, hinside⟩ := h k _ hg
  obtain ⟨b', kind'', hb', hlive⟩ := hinside t b kind'
    (live_take_iff.mpr ⟨⟨_, _, i, hik, ht⟩, hopen⟩) (begun_take_iff.mpr ⟨m, hmk, hb⟩)
  obtain ⟨m', hm', hopens⟩ := begun_take_iff.mp hb'
  rw [ended_take_iff, not_exists] at hlive
  exact ⟨m', hm', b', kind'', hopens, fun j hj hcloses => hlive j ⟨hj, hcloses⟩⟩

/-- Every handler, filter blocks included, has code. -/
theorem handler_filled (h : Bracketed calls) (hr : OpensAt calls i r kind (some t))
    (hclose : ClosesAt calls j r) : offsetAt calls i < offsetAt calls j := by
  obtain ⟨-, -, hfilled⟩ := h j _ hclose
  have hij := h.lt_of_closesAt hr hclose
  obtain ⟨g, hg⟩ := hr
  have hlt := hfilled i g kind t (by rw [List.getElem?_take, if_pos hij]; exact hg)
  rwa [List.take_take, Nat.min_eq_left (Nat.le_of_lt hij)] at hlt

end Bracketed

/-! ## § Phases of a construct -/

/-- A phase of the construct of a protected block. -/
inductive Phase
  /-- The protected code. -/
  | body
  /-- A handler or a filter block. -/
  | handler (h : Region)
  deriving DecidableEq

/-- The call at the position opens the first handler of the block; a filter block counts as one. -/
def FirstHandlerAt (calls : List Delivery) (b : Nat) (t : Region) : Prop :=
  (∃ h kind, OpensAt calls b h kind (some t)) ∧ ∀ b' h kind, OpensAt calls b' h kind (some t) → b ≤ b'

/-- **`Spans`** — the positions between which a phase of a block lasts.  The body lasts until the first
handler opens, a handler until it is closed. -/
def Spans (calls : List Delivery) (t : Region) (i j : Nat) : Phase → Prop
  | .body => OpensAt calls i t .tryBlock none ∧ FirstHandlerAt calls j t
  | .handler h => (∃ kind, OpensAt calls i h kind (some t)) ∧ ClosesAt calls j h

/-- The block opens within the phase of another block. -/
def OpensWithin (calls : List Delivery) (q t : Region) (p : Phase) : Prop :=
  ∃ i j k, Spans calls t i j p ∧ OpensAt calls k q .tryBlock none ∧ i < k ∧ k < j

/-- The filter block at the position guards the handler that opens at another: no handler of the block opens
in between. -/
def GuardedAt (calls : List Delivery) (f b : Nat) (t : Region) : Prop :=
  f < b ∧ (∃ r, OpensAt calls f r .filterBlock (some t)) ∧
    ∀ m h kind, f < m → m < b → ¬ OpensAt calls m h kind (some t)

/-- The handler is described by a clause that belongs to the phase of its block: to the body belong the
clauses of all handlers, to a handler its own, and to a filter block the clause of the handler that it
guards. -/
def BelongsTo (calls : List Delivery) (h t : Region) : Phase → Prop
  | .body => ∃ kind, Begun calls h kind (some t)
  | .handler h' => (∃ kind, Begun calls h kind (some t)) ∧
      (h = h' ∨ ∃ f b kind, OpensAt calls f h' .filterBlock (some t) ∧ OpensAt calls b h kind (some t) ∧
        GuardedAt calls f b t)

namespace Bracketed

variable {calls : List Delivery} {i j i' j' k : Nat} {q t t' : Region} {p p' : Phase}

/-- A phase begins when its block opens, or later. -/
theorem block_of_spans (h : Bracketed calls) (hspan : Spans calls t i j p) :
    ∃ a ≤ i, OpensAt calls a t .tryBlock none := by
  cases p with
  | body => exact ⟨i, Nat.le_refl _, hspan.1⟩
  | handler b =>
    obtain ⟨⟨kind, hopen⟩, -⟩ := hspan
    obtain ⟨-, a, ha, hblock, -⟩ := h.handler_opens hopen
    exact ⟨a, Nat.le_of_lt ha, hblock⟩

/-- **`closed_within`** — what opens within a phase is closed before the phase is over. -/
theorem closed_within (h : Bracketed calls) (hspan : Spans calls t i j p) {r : Region} {kind : RegionKind}
    {owner : Option Region} (hr : OpensAt calls k r kind owner) (hik : i < k) (hkj : k < j) :
    ∃ z, k < z ∧ z < j ∧ ClosesAt calls z r := by
  cases p with
  | body =>
    obtain ⟨hopen, ⟨b, kind', hb⟩, -⟩ := hspan
    obtain ⟨-, a, -, hblock, -, hinside⟩ := h.handler_opens hb
    obtain ⟨rfl, -, -⟩ := h.opensAt_unique hopen hblock
    exact hinside k r kind owner hr hik hkj
  | handler b =>
    obtain ⟨⟨kind', hopen⟩, hclose⟩ := hspan
    exact h.closed_inside hopen hclose hr hik hkj

/-- A phase is over before its block is closed. -/
theorem spans_lt_closesAt (h : Bracketed calls) (hspan : Spans calls t i j p) {z : Nat}
    (hclose : ClosesAt calls z t) : j < z := by
  have hopens {m : Nat} {b : Region} {kind : RegionKind} (hb : OpensAt calls m b kind (some t)) : m < z := by
    obtain ⟨-, a, -, -, hopen, -⟩ := h.handler_opens hb
    have hne := hb.ne_closesAt hclose
    have hle : ¬ z < m := fun hlt => hopen z hlt hclose
    omega
  cases p with
  | body =>
    obtain ⟨-, ⟨b, kind, hb⟩, -⟩ := hspan
    exact hopens hb
  | handler b =>
    obtain ⟨⟨kind, hb⟩, hcloses⟩ := hspan
    obtain ⟨-, a, ha, hblock, -⟩ := h.handler_opens hb
    obtain ⟨j', -, hj', hcloses'⟩ := h.closed_inside hblock hclose hb ha (hopens hb)
    rw [h.closesAt_unique hcloses hcloses']
    exact hj'

/-- A phase lasts once. -/
theorem spans_unique (h : Bracketed calls) (hspan : Spans calls t i j p) (hspan' : Spans calls t i' j' p) :
    i = i' ∧ j = j' := by
  cases p with
  | body =>
    obtain ⟨hopen, ⟨b, kind, hb⟩, hfirst⟩ := hspan
    obtain ⟨hopen', ⟨b', kind', hb'⟩, hfirst'⟩ := hspan'
    exact ⟨(h.opensAt_unique hopen hopen').1, Nat.le_antisymm (hfirst j' b' kind' hb') (hfirst' j b kind hb)⟩
  | handler b =>
    obtain ⟨⟨kind, hopen⟩, hclose⟩ := hspan
    obtain ⟨⟨kind', hopen'⟩, hclose'⟩ := hspan'
    exact ⟨(h.opensAt_unique hopen hopen').1, h.closesAt_unique hclose hclose'⟩

/-- **`spans_within`** — the phases of a block that opens within a phase lie within that phase. -/
theorem spans_within (h : Bracketed calls) (hwithin : OpensWithin calls q t p) (hspan : Spans calls t i j p)
    (hspan' : Spans calls q i' j' p') : i < i' ∧ j' < j := by
  obtain ⟨i₀, j₀, k, hspan₀, hq, hik, hkj⟩ := hwithin
  obtain ⟨rfl, rfl⟩ := h.spans_unique hspan hspan₀
  obtain ⟨a, ha, hblock⟩ := h.block_of_spans hspan'
  obtain ⟨rfl, -, -⟩ := h.opensAt_unique hq hblock
  obtain ⟨z, -, hz, hclose⟩ := h.closed_within hspan hq hik hkj
  have hover := h.spans_lt_closesAt hspan' hclose
  exact ⟨Nat.lt_of_lt_of_le hik ha, Nat.lt_trans hover hz⟩

/-- **`phases_apart`** — two phases of one block lie one after the other. -/
theorem phases_apart (h : Bracketed calls) (hne : p ≠ p') (hspan : Spans calls t i j p)
    (hspan' : Spans calls t i' j' p') : j ≤ i' ∨ j' ≤ i := by
  have hbody {i j i' j' : Nat} {b : Region} (hspan : Spans calls t i j .body)
      (hspan' : Spans calls t i' j' (.handler b)) : j ≤ i' := by
    obtain ⟨⟨kind, hb⟩, -⟩ := hspan'
    exact hspan.2.2 i' b kind hb
  have hhandlers {i j i' j' : Nat} {b b' : Region} (hspan : Spans calls t i j (.handler b))
      (hspan' : Spans calls t i' j' (.handler b')) (hlt : i < i') : j ≤ i' := by
    obtain ⟨⟨kind, hb⟩, hclose⟩ := hspan
    obtain ⟨⟨kind', hb'⟩, -⟩ := hspan'
    obtain ⟨z, -, hz, hclose'⟩ := h.handler_closed hb hb' hlt
    rw [h.closesAt_unique hclose hclose']
    exact Nat.le_of_lt hz
  cases p with
  | body =>
    cases p' with
    | body => exact absurd rfl hne
    | handler b' => exact .inl (hbody hspan hspan')
  | handler b =>
    cases p' with
    | body => exact .inr (hbody hspan' hspan)
    | handler b' =>
      rcases Nat.lt_trichotomy i i' with hlt | rfl | hlt
      · exact .inl (hhandlers hspan hspan' hlt)
      · obtain ⟨⟨kind, hb⟩, -⟩ := hspan
        obtain ⟨⟨kind', hb'⟩, -⟩ := hspan'
        exact absurd (congrArg Phase.handler (hb.same hb').1) hne
      · exact .inr (hhandlers hspan' hspan hlt)

/-- A block is not closed without a handler, and one of them is the first. -/
theorem exists_firstHandler (h : Bracketed calls) (hcomplete : Complete calls)
    (ht : OpensAt calls i t .tryBlock none) : ∃ f, FirstHandlerAt calls f t := by
  classical
  obtain ⟨z, hz⟩ := ended_iff.mp (hcomplete t .tryBlock none (begun_iff.mpr ⟨i, ht⟩))
  obtain ⟨-, hhandled, -⟩ := h z _ hz
  obtain ⟨b, kind, hb⟩ := hhandled (begun_take_iff.mpr ⟨i, h.lt_of_closesAt ht hz, ht⟩)
  obtain ⟨m, -, hopens⟩ := begun_take_iff.mp hb
  have hhas : ∃ m b kind, OpensAt calls m b kind (some t) := ⟨m, b, kind, hopens⟩
  exact ⟨Nat.find hhas, Nat.find_spec hhas, fun b' r kind hopen => Nat.find_min' hhas ⟨r, kind, hopen⟩⟩

/-- In the end every phase is over. -/
theorem exists_spans (h : Bracketed calls) (hcomplete : Complete calls) :
    (∀ t, Begun calls t .tryBlock none → ∃ i j, Spans calls t i j .body) ∧
      ∀ b kind t, Begun calls b kind (some t) → ∃ i j, Spans calls t i j (.handler b) := by
  refine ⟨fun t ht => ?_, fun b kind t hb => ?_⟩
  · obtain ⟨i, hopen⟩ := begun_iff.mp ht
    obtain ⟨f, hfirst⟩ := h.exists_firstHandler hcomplete hopen
    exact ⟨i, f, hopen, hfirst⟩
  · obtain ⟨i, hopen⟩ := begun_iff.mp hb
    obtain ⟨j, hclose⟩ := ended_iff.mp (hcomplete b kind (some t) hb)
    exact ⟨i, j, ⟨kind, hopen⟩, hclose⟩

/-- **`within_or_closed`** — when a block opens, an earlier block has been closed or is in a phase. -/
theorem within_or_closed (h : Bracketed calls) (hcomplete : Complete calls)
    (ht : OpensAt calls i t .tryBlock none) (hq : OpensAt calls k q .tryBlock none) (hik : i < k) :
    (∃ z < k, ClosesAt calls z t) ∨ ∃ p, OpensWithin calls q t p := by
  by_cases hclosed : ∃ z < k, ClosesAt calls z t
  · exact .inl hclosed
  · right
    have hopen : ∀ z < k, ¬ ClosesAt calls z t := fun z hz hcloses => hclosed ⟨z, hz, hcloses⟩
    by_cases hhas : ∃ m < k, ∃ b kind, OpensAt calls m b kind (some t)
    · obtain ⟨m, hmk, b, kind, hb, hlive⟩ := h.block_opens hq ht hik hopen hhas
      obtain ⟨z, hz⟩ := ended_iff.mp (hcomplete b kind (some t) (begun_iff.mpr ⟨m, hb⟩))
      have hle : ¬ z < k := fun hlt => hlive z hlt hz
      have hne := hq.ne_closesAt hz
      exact ⟨.handler b, m, z, k, ⟨⟨kind, hb⟩, hz⟩, hq, hmk, by omega⟩
    · -- Without a handler so far the body lasts.
      obtain ⟨f, hfirst⟩ := h.exists_firstHandler hcomplete ht
      obtain ⟨b, kind, hb⟩ := hfirst.1
      have hle : ¬ f < k := fun hlt => hhas ⟨f, hlt, b, kind, hb⟩
      have hne : f ≠ k := by
        rintro rfl
        obtain ⟨-, -, howner⟩ := hq.same hb
        cases howner
      exact ⟨.body, i, f, k, ⟨ht, hfirst⟩, hq, hik, by omega⟩

/-- **`constructs_apart`** — all phases of a block come before those of another, unless one of the two blocks
opens within a phase of the other. -/
theorem constructs_apart (h : Bracketed calls) (hcomplete : Complete calls) (hne : t ≠ t')
    (hout : ∀ p, ¬ OpensWithin calls t' t p) (hout' : ∀ p, ¬ OpensWithin calls t t' p)
    (hspan : Spans calls t i j p) (hspan' : Spans calls t' i' j' p') : j ≤ i' ∨ j' ≤ i := by
  have hbefore {t t' : Region} {p : Phase} {a a' i j i' : Nat} (hout : ∀ p, ¬ OpensWithin calls t' t p)
      (hblock : OpensAt calls a t .tryBlock none) (hblock' : OpensAt calls a' t' .tryBlock none)
      (hlt : a < a') (hspan : Spans calls t i j p) (ha' : a' ≤ i') : j ≤ i' := by
    rcases h.within_or_closed hcomplete hblock hblock' hlt with ⟨z, hz, hclose⟩ | ⟨p, hwithin⟩
    · have hover := h.spans_lt_closesAt hspan hclose
      omega
    · exact absurd hwithin (hout p)
  obtain ⟨a, ha, hblock⟩ := h.block_of_spans hspan
  obtain ⟨a', ha', hblock'⟩ := h.block_of_spans hspan'
  rcases Nat.lt_trichotomy a a' with hlt | rfl | hlt
  · exact .inl (hbefore hout hblock hblock' hlt hspan ha')
  · exact absurd (hblock.same hblock').1 hne
  · exact .inr (hbefore hout' hblock' hblock hlt hspan' ha)

/-- A handler is not closed before a phase that its clause belongs to is over. -/
theorem le_of_belongsTo (h : Bracketed calls) {b : Region} (hbelongs : BelongsTo calls b t p)
    (hspan : Spans calls t i j p) {z : Nat} (hclose : ClosesAt calls z b) : j ≤ z := by
  cases p with
  | body =>
    obtain ⟨kind, hb⟩ := hbelongs
    obtain ⟨m, hopen⟩ := begun_iff.mp hb
    have hfirst := hspan.2.2 m b kind hopen
    have hlater := h.lt_of_closesAt hopen hclose
    omega
  | handler b' =>
    obtain ⟨-, rfl | ⟨f, m, kind, hf, hopen, hguard⟩⟩ := hbelongs
    · exact Nat.le_of_eq (h.closesAt_unique hspan.2 hclose)
    · -- The filter block is closed when the handler that it guards opens.
      have hne : Phase.handler b' ≠ .handler b := by
        rintro heq
        cases heq
        obtain ⟨rfl, -, -⟩ := h.opensAt_unique hf hopen
        exact Nat.lt_irrefl _ hguard.1
      have hspan' : Spans calls t m z (.handler b) := ⟨⟨kind, hopen⟩, hclose⟩
      have hapart := h.phases_apart hne hspan hspan'
      obtain ⟨⟨kind', hf'⟩, -⟩ := hspan
      obtain ⟨rfl, -, -⟩ := h.opensAt_unique hf hf'
      have hlater := h.lt_of_closesAt hopen hclose
      have hlt := hguard.1
      omega

/-- **`closed_earlier`** — the handlers of a block that opens within a phase are closed before those whose
clauses belong to the phase. -/
theorem closed_earlier (h : Bracketed calls) {b b' : Region} {kind : RegionKind} {z z' : Nat}
    (hwithin : OpensWithin calls q t p) (hb' : Begun calls b' kind (some q)) (hclose' : ClosesAt calls z' b')
    (hbelongs : BelongsTo calls b t p) (hclose : ClosesAt calls z b) : z' < z := by
  obtain ⟨i, j, -, hspan, -⟩ := id hwithin
  obtain ⟨m, hopen⟩ := begun_iff.mp hb'
  have hspan' : Spans calls q m z' (.handler b') := ⟨⟨kind, hopen⟩, hclose'⟩
  have hinside := (h.spans_within hwithin hspan hspan').2
  have hlater := h.le_of_belongsTo hbelongs hspan hclose
  omega

end Bracketed

end ManagedCode
