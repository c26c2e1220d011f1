/-
# ManagedCode.Proofs.Graph.Supertype — the search for a supertype finds exactly the paths.

`reaches` runs a worklist for a bounded number of steps.  `Path` is what it looks for: any number of base
and interface edges, cycles included.  In a closed graph the two agree (`reaches_iff_path`): what the
search finds lies at the end of a path, and a search that stops without an answer has seen everything
that paths lead to.

`Ends` is the search without the bound: it has a derivation exactly if the search comes to an end.  The bound
is enough because each step takes one type off the list of pending types and no type is put there twice
(`ends_searchSupertype`).  `Covers` is the invariant that both this and the second half rest on: a type that
was seen is still pending, or it is not the target and its supertypes were seen as well.
-/
import ManagedCode.Proofs.Graph.Growth
import Mathlib.Data.List.Nodup
import Mathlib.Data.List.Perm.Subperm
import Mathlib.Data.List.Range
import Mathlib.Logic.Relation

namespace ManagedCode

namespace TypeGraph

/-! ## § Paths -/

/-- `b` is a direct supertype of `a`; interfaces count if asked for. -/
def Edge (g : TypeGraph) (interfaces : Bool) (a b : TypeId) : Prop := b ∈ g.supertypes interfaces a

/-- **`Path`** — a finite chain of edges leads from one type to another. -/
def Path (g : TypeGraph) (interfaces : Bool) : TypeId → TypeId → Prop :=
  Relation.ReflTransGen (g.Edge interfaces)

theorem edge_iff {g : TypeGraph} {interfaces : Bool} {a b : TypeId} :
    g.Edge interfaces a b ↔
      (g.type a).base = some b ∨ (interfaces = true ∧ b ∈ (g.type a).interfaces) := by
  cases interfaces <;> simp [Edge, supertypes, Option.mem_toList]

/-- A path along bases is also one along bases and interfaces. -/
theorem Path.withInterfaces {g : TypeGraph} {a b : TypeId} (h : g.Path false a b) :
    g.Path true a b := by
  induction h with
  | refl => exact .refl
  | tail _ hedge ih =>
    rcases edge_iff.mp hedge with hbase | ⟨hfalse, -⟩
    · exact ih.tail (edge_iff.mpr (.inl hbase))
    · cases hfalse

theorem Closed.knows_of_edge {g : TypeGraph} (hg : g.Closed) {interfaces : Bool} {a b : TypeId}
    (h : g.Edge interfaces a b) : g.Knows b := by
  rcases edge_iff.mp h with hbase | ⟨-, hinterface⟩
  · exact hg.base_known hbase
  · exact hg.interface_known hinterface

end TypeGraph

/-! ## § One step of the search -/

namespace SupertypeSearch

theorem visit_seen {s : SupertypeSearch} {t : TypeId} (h : t ∈ s.seen) : s.visit t = s := by
  rw [visit, if_pos (List.contains_iff_mem.mpr h)]

theorem visit_fresh {s : SupertypeSearch} {t : TypeId} (h : t ∉ s.seen) :
    s.visit t = ⟨t :: s.pending, t :: s.seen⟩ := by
  rw [visit, if_neg (by rwa [List.contains_iff_mem])]

/-- **`foldl_visit`** — visiting a list of types puts those not seen before on both lists, once each. -/
theorem foldl_visit (types : List TypeId) (s : SupertypeSearch) :
    ∃ fresh, types.foldl visit s = ⟨fresh ++ s.pending, fresh ++ s.seen⟩ ∧ fresh.Nodup ∧
      (∀ t ∈ fresh, t ∈ types ∧ t ∉ s.seen) ∧ ∀ t ∈ types, t ∈ fresh ∨ t ∈ s.seen := by
  induction types generalizing s with
  | nil => exact ⟨[], rfl, List.nodup_nil, by simp, by simp⟩
  | cons t rest ih =>
    rw [List.foldl_cons]
    by_cases ht : t ∈ s.seen
    · obtain ⟨fresh, hfold, hnodup, hfresh, hall⟩ := ih s
      refine ⟨fresh, by rw [visit_seen ht, hfold], hnodup, ?_, ?_⟩
      · intro u hu
        exact ⟨List.mem_cons_of_mem t (hfresh u hu).1, (hfresh u hu).2⟩
      · intro u hu
        rcases List.mem_cons.mp hu with rfl | hu
        · exact .inr ht
        · exact hall u hu
    · -- `t` itself is new: it ends up behind what the rest of the list adds.
      obtain ⟨fresh, hfold, hnodup, hfresh, hall⟩ := ih ⟨t :: s.pending, t :: s.seen⟩
      refine ⟨fresh ++ [t], by rw [visit_fresh ht, hfold]; simp, ?_, ?_, ?_⟩
      · refine hnodup.append (List.nodup_singleton t) ?_
        intro u hu hut
        rw [List.mem_singleton.mp hut] at hu
        exact (hfresh t hu).2 List.mem_cons_self
      · intro u hu
        rcases List.mem_append.mp hu with hu | hu
        · exact ⟨List.mem_cons_of_mem t (hfresh u hu).1,
            fun hs => (hfresh u hu).2 (List.mem_cons_of_mem t hs)⟩
        · rw [List.mem_singleton.mp hu]
          exact ⟨List.mem_cons_self, ht⟩
      · intro u hu
        rcases List.mem_cons.mp hu with rfl | hu
        · exact .inl (List.mem_append_right fresh List.mem_cons_self)
        · rcases hall u hu with hf | hs
          · exact .inl (List.mem_append_left [t] hf)
          · rcases List.mem_cons.mp hs with rfl | hs
            · exact .inl (List.mem_append_right fresh List.mem_cons_self)
            · exact .inr hs

/-! ## § What the search knows -/

/-- **`Covers`** — every type that was seen is a type of the graph, once; and it is pending, or it has
been dealt with: it is not the target, and its supertypes were seen. -/
structure Covers (g : TypeGraph) (interfaces : Bool) (target : TypeId) (s : SupertypeSearch) :
    Prop where
  nodup : s.seen.Nodup
  known : ∀ t ∈ s.seen, g.Knows t
  pending_seen : ∀ t ∈ s.pending, t ∈ s.seen
  settled : ∀ t ∈ s.seen, t ∈ s.pending ∨
    (t ≠ target ∧ ∀ u, g.Edge interfaces t u → u ∈ s.seen)

theorem covers_start {g : TypeGraph} {interfaces : Bool} {target a : TypeId} (ha : g.Knows a) :
    Covers g interfaces target (.start a) where
  nodup := List.nodup_singleton a
  known t ht := by rwa [List.mem_singleton.mp ht]
  pending_seen t ht := ht
  settled t ht := .inl ht

/-- A pending type that is not the target is dealt with by visiting its supertypes. -/
theorem Covers.step {g : TypeGraph} (hg : g.Closed) {interfaces : Bool} {target t : TypeId}
    {rest seen : List TypeId} (h : Covers g interfaces target ⟨t :: rest, seen⟩) (ht : t ≠ target) :
    Covers g interfaces target ((g.supertypes interfaces t).foldl visit ⟨rest, seen⟩) := by
  obtain ⟨fresh, hfold, hnodup, hfresh, hall⟩ := foldl_visit (g.supertypes interfaces t) ⟨rest, seen⟩
  rw [hfold]
  constructor
  · exact hnodup.append h.nodup fun u hu hs => (hfresh u hu).2 hs
  · intro u hu
    rcases List.mem_append.mp hu with hu | hu
    · exact hg.knows_of_edge (hfresh u hu).1
    · exact h.known u hu
  · intro u hu
    rcases List.mem_append.mp hu with hu | hu
    · exact List.mem_append_left seen hu
    · exact List.mem_append_right fresh (h.pending_seen u (List.mem_cons_of_mem t hu))
  · intro u hu
    rcases List.mem_append.mp hu with hu | hu
    · exact .inl (List.mem_append_left rest hu)
    · rcases h.settled u hu with hp | ⟨hne, hedges⟩
      · rcases List.mem_cons.mp hp with rfl | hp
        · exact .inr ⟨ht, fun v hv => List.mem_append.mpr (hall v hv)⟩
        · exact .inl (List.mem_append_right fresh hp)
      · exact .inr ⟨hne, fun v hv => List.mem_append_right fresh (hedges v hv)⟩

/-- A search sees no more types than the graph has. -/
theorem Covers.seen_length_le {g : TypeGraph} {interfaces : Bool} {target : TypeId}
    {s : SupertypeSearch} (h : Covers g interfaces target s) : s.seen.length ≤ g.types.size := by
  have hnodup : (s.seen.map TypeId.index).Nodup := by
    refine h.nodup.map ?_
    intro a b hab
    cases a
    cases b
    exact congrArg TypeId.mk hab
  have hsub : s.seen.map TypeId.index ⊆ List.range g.types.size := by
    intro i hi
    obtain ⟨t, ht, rfl⟩ := List.mem_map.mp hi
    exact List.mem_range.mpr (h.known t ht)
  have hle := (List.subperm_of_subset hnodup hsub).length_le
  rwa [List.length_map, List.length_range] at hle

/-! ## § The whole search -/

/-- **`Ends`** — the search, run for as many turns as it takes, comes to an end with the answer. -/
inductive Ends (g : TypeGraph) (interfaces : Bool) (target : TypeId) : SupertypeSearch → Bool → Prop
  | exhausted (seen : List TypeId) : Ends g interfaces target ⟨[], seen⟩ false
  | found (rest seen : List TypeId) : Ends g interfaces target ⟨target :: rest, seen⟩ true
  | turn {t : TypeId} {rest seen : List TypeId} {answer : Bool} : t ≠ target →
      Ends g interfaces target ((g.supertypes interfaces t).foldl visit ⟨rest, seen⟩) answer →
      Ends g interfaces target ⟨t :: rest, seen⟩ answer

section Ends

variable {g : TypeGraph} {interfaces : Bool} {target : TypeId} {s : SupertypeSearch}

/-- Each turn is determined by the one before it, and so is the answer. -/
theorem Ends.unique {answer answer' : Bool} (h : Ends g interfaces target s answer)
    (h' : Ends g interfaces target s answer') : answer = answer' := by
  induction h with
  | exhausted seen =>
    cases h'
    rfl
  | found rest seen =>
    cases h' with
    | found => rfl
    | turn hne => exact absurd rfl hne
  | turn hne _ ih =>
    cases h' with
    | found => exact absurd rfl hne
    | turn _ hrest => exact ih hrest

/-- **`ends_searchSupertype`** — a search that may still take a step for every pending type and every type
not yet seen is not cut off. -/
theorem ends_searchSupertype (hg : g.Closed) (fuel : Nat) (hs : Covers g interfaces target s)
    (hfuel : g.types.size + s.pending.length ≤ fuel + s.seen.length) :
    Ends g interfaces target s (g.searchSupertype interfaces target fuel s) := by
  induction fuel generalizing s with
  | zero =>
    obtain ⟨pending, seen⟩ := s
    have hle := hs.seen_length_le
    cases pending with
    | nil => exact .exhausted seen
    | cons t rest =>
      -- Something is pending, so more types were seen than the graph has.
      simp only [List.length_cons] at hfuel hle
      omega
  | succ fuel ih =>
    obtain ⟨pending, seen⟩ := s
    cases pending with
    | nil => exact .exhausted seen
    | cons t rest =>
      rw [TypeGraph.searchSupertype]
      by_cases ht : t = target
      · rw [ht, beq_self_eq_true, Bool.true_or]
        exact .found rest seen
      · -- The turn takes `t` off the list; what it adds there it adds to the types seen as well.
        rw [beq_false_of_ne ht, Bool.false_or]
        refine .turn ht (ih (hs.step hg ht) ?_)
        obtain ⟨fresh, hfold, -, -, -⟩ := foldl_visit (g.supertypes interfaces t) ⟨rest, seen⟩
        simp only [hfold, List.length_append, List.length_cons] at hfuel ⊢
        omega

/-- What the search finds lies at the end of a path. -/
theorem Ends.path (h : Ends g interfaces target s true) :
    ∃ t ∈ s.pending, g.Path interfaces t target := by
  generalize hanswer : true = answer at h
  induction h with
  | exhausted => cases hanswer
  | found => exact ⟨target, List.mem_cons_self, .refl⟩
  | @turn t rest seen _ _ _ ih =>
    obtain ⟨u, hu, hpath⟩ := ih hanswer
    obtain ⟨fresh, hfold, -, hfresh, -⟩ := foldl_visit (g.supertypes interfaces t) ⟨rest, seen⟩
    rw [hfold] at hu
    rcases List.mem_append.mp hu with hu | hu
    · exact ⟨t, List.mem_cons_self, .head (hfresh u hu).1 hpath⟩
    · exact ⟨u, List.mem_cons_of_mem t hu, hpath⟩

/-- With nothing pending, no path leads from a type that was seen to the target. -/
theorem Covers.no_path {seen : List TypeId} (h : Covers g interfaces target ⟨[], seen⟩) {a : TypeId}
    (ha : a ∈ seen) : ¬ g.Path interfaces a target := by
  intro hpath
  -- By induction on the path: nothing is pending, so the supertypes of what was seen were seen.
  have hseen : ∀ u, g.Path interfaces a u → u ∈ seen := by
    intro u hu
    induction hu with
    | refl => exact ha
    | tail _ hedge ih =>
      rcases h.settled _ ih with hp | ⟨-, hedges⟩
      · cases hp
      · exact hedges _ hedge
  have htarget : target ∈ seen := hseen target hpath
  rcases h.settled target htarget with hp | ⟨hne, -⟩
  · cases hp
  · exact hne rfl

/-- What the search does not find lies on no path from where it started. -/
theorem Ends.no_path (hg : g.Closed) (h : Ends g interfaces target s false)
    (hs : Covers g interfaces target s) {a : TypeId} (ha : a ∈ s.seen) : ¬ g.Path interfaces a target := by
  generalize hanswer : false = answer at h
  induction h with
  | exhausted => exact hs.no_path ha
  | found => cases hanswer
  | @turn t rest seen _ ht _ ih =>
    refine ih (hs.step hg ht) ?_ hanswer
    obtain ⟨fresh, hfold, -, -, -⟩ := foldl_visit (g.supertypes interfaces t) ⟨rest, seen⟩
    rw [hfold]
    exact List.mem_append_right fresh ha

end Ends

end SupertypeSearch

namespace TypeGraph

open SupertypeSearch

/-- The bound of the search is large enough for every graph. -/
theorem ends_reaches {g : TypeGraph} (hg : g.Closed) {a b : TypeId} (ha : g.Knows a) :
    Ends g (g.type b).isInterface b (.start a) (g.reaches a b) :=
  ends_searchSupertype hg _ (covers_start ha) (Nat.le_refl _)

/-- **`reaches_iff_path`** — the search answers whether a path of base edges, and of interface edges if
the target is an interface, leads to the target. -/
theorem reaches_iff_path {g : TypeGraph} (hg : g.Closed) {a b : TypeId} (ha : g.Knows a) :
    g.reaches a b = true ↔ g.Path (g.type b).isInterface a b := by
  have hends := ends_reaches hg (b := b) ha
  constructor
  · intro h
    rw [h] at hends
    obtain ⟨t, ht, hpath⟩ := hends.path
    rwa [List.mem_singleton.mp ht] at hpath
  · intro hpath
    by_contra h
    rw [Bool.not_eq_true] at h
    rw [h] at hends
    exact hends.no_path hg (covers_start ha) List.mem_cons_self hpath

end TypeGraph

end ManagedCode
