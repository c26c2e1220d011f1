/-
# ManagedCode.Proofs.Stack.Application — when an instruction verifies, and with what result.

`apply`, `step` and `jump` compute in stages that may each fail.  Here each of them is described by one
equivalence: it answers exactly if the stack is deep enough, every popped slot is accepted, the pair rule
has a result where there is one, and every pushed result can be resolved.  Nothing later unfolds them.
-/
import ManagedCode.Stack.Abstract
import Mathlib.Data.List.Forall2

namespace ManagedCode

/-- A sequence of two computations answers if both do. -/
theorem Except.bind_eq_ok_iff {ε α β : Type} {x : Except ε α} {f : α → Except ε β} {b : β} :
    x >>= f = .ok b ↔ ∃ a, x = .ok a ∧ f a = .ok b := by
  cases x with
  | error e =>
    constructor
    · intro h
      cases h
    · rintro ⟨a, ha, -⟩
      cases ha
  | ok a =>
    constructor
    · intro h
      exact ⟨a, rfl, h⟩
    · rintro ⟨a', ha, h⟩
      cases ha
      exact h

namespace StackEffect

variable {g : TypeGraph} {system : SystemTypes}

/-! ## § The stages of an effect -/

theorem checkPops_ok_iff {expects : List Expect} {found : List TypeTag}
    (hlen : expects.length = found.length) :
    checkPops g expects found = .ok () ↔
      List.Forall₂ (fun e tag => e.accepts g tag = true) expects found := by
  induction expects generalizing found with
  | nil =>
    cases found with
    | nil => simp [checkPops]
    | cons => cases hlen
  | cons e expects ih =>
    cases found with
    | nil => cases hlen
    | cons tag found =>
      rw [List.forall₂_cons, checkPops]
      by_cases haccepts : e.accepts g tag = true
      · rw [if_pos haccepts, ih (Nat.succ.inj hlen)]
        exact ⟨fun h => ⟨haccepts, h⟩, fun h => h.2⟩
      · rw [if_neg haccepts]
        constructor
        · intro h
          cases h
        · intro h
          exact absurd h.1 haccepts

theorem resolvePushes_ok_iff {popped : List TypeTag} {pair : Option TypeTag} {pushes : List Produce}
    {tags : List TypeTag} :
    resolvePushes popped pair pushes = .ok tags ↔
      List.Forall₂ (fun p tag => resolveProduce popped pair p = .ok tag) pushes tags := by
  induction pushes generalizing tags with
  | nil =>
    rw [List.forall₂_nil_left_iff, resolvePushes]
    exact ⟨fun h => (Except.ok.inj h).symm, fun h => h ▸ rfl⟩
  | cons p pushes ih =>
    rw [resolvePushes, Except.bind_eq_ok_iff, List.forall₂_cons_left_iff]
    constructor
    · rintro ⟨tag, htag, hrest⟩
      obtain ⟨tags', htags', heq⟩ := Except.bind_eq_ok_iff.mp hrest
      cases heq
      exact ⟨tag, tags', htag, ih.mp htags', rfl⟩
    · rintro ⟨tag, tags', htag, htags', rfl⟩
      exact ⟨tag, htag, Except.bind_eq_ok_iff.mpr ⟨tags', ih.mpr htags', rfl⟩⟩

/-- **`apply_ok_iff`** — the whole effect: depth, operands, pair and results. -/
theorem apply_ok_iff {effect : StackEffect} {slots out : List TypeTag} :
    effect.apply g system slots = .ok out ↔
      effect.pops.length ≤ slots.length ∧
      List.Forall₂ (fun e tag => e.accepts g tag = true) effect.pops
        (slots.take effect.pops.length) ∧
      ∃ pair pushed, checkPair g system effect.pair (slots.take effect.pops.length) = .ok pair ∧
        List.Forall₂ (fun p tag => resolveProduce (slots.take effect.pops.length) pair p = .ok tag)
          effect.pushes pushed ∧
        out = pushed.reverse ++ slots.drop effect.pops.length := by
  rw [apply]
  by_cases hdepth : slots.length < effect.pops.length
  · rw [if_pos hdepth]
    constructor
    · intro h
      cases h
    · rintro ⟨hle, -⟩
      omega
  · have hle : effect.pops.length ≤ slots.length := Nat.le_of_not_lt hdepth
    have htake : effect.pops.length = (slots.take effect.pops.length).length := by
      rw [List.length_take, Nat.min_eq_left hle]
    rw [if_neg hdepth, Except.bind_eq_ok_iff]
    -- The stages run in this order; each direction takes them one by one.
    constructor
    · rintro ⟨⟨⟩, hpops, hrest⟩
      obtain ⟨pair, hpair, hrest⟩ := Except.bind_eq_ok_iff.mp hrest
      obtain ⟨pushed, hpushed, heq⟩ := Except.bind_eq_ok_iff.mp hrest
      cases heq
      exact ⟨hle, (checkPops_ok_iff htake).mp hpops, pair, pushed, hpair,
        resolvePushes_ok_iff.mp hpushed, rfl⟩
    · rintro ⟨-, hpops, pair, pushed, hpair, hpushed, rfl⟩
      refine ⟨(), (checkPops_ok_iff htake).mpr hpops, Except.bind_eq_ok_iff.mpr ⟨pair, hpair, ?_⟩⟩
      exact Except.bind_eq_ok_iff.mpr ⟨pushed, resolvePushes_ok_iff.mpr hpushed, rfl⟩

/-- What a pair rule answers on the two operands of a binary effect. -/
theorem PairRule.result_ok_iff {rule : PairRule} {left right tag : TypeTag} :
    rule.result g system left right = .ok tag ↔ rule.result? g system left right = some tag := by
  rw [PairRule.result]
  cases rule.result? g system left right <;> simp

/-- **`apply_binary_iff`** — an operation on two operands that pushes what its rule computes. -/
theorem apply_binary_iff {rule : PairRule} {slots out : List TypeTag} :
    (binary rule [.arithmetic]).apply g system slots = .ok out ↔
      ∃ right left rest tag, slots = right :: left :: rest ∧
        rule.result? g system left right = some tag ∧ out = tag :: rest := by
  match slots with
  | [] => simp [apply, binary]
  | [_] => simp [apply, binary]
  | right :: left :: rest =>
    rw [apply_ok_iff]
    constructor
    · rintro ⟨-, -, pair, pushed, hpair, hpushed, rfl⟩
      obtain ⟨tag, htag, hsome⟩ : ∃ tag, rule.result g system left right = .ok tag ∧ some tag = pair := by
        cases hr : rule.result g system left right with
        | error e => simp [binary, checkPair, hr, Except.map] at hpair
        | ok tag => exact ⟨tag, rfl, by simpa [binary, checkPair, hr, Except.map] using hpair⟩
      subst hsome
      obtain ⟨tag', rest', hresolve, hrest', rfl⟩ := List.forall₂_cons_left_iff.mp hpushed
      cases List.forall₂_nil_left_iff.mp hrest'
      cases hresolve
      exact ⟨right, left, rest, tag, rfl, PairRule.result_ok_iff.mp htag, rfl⟩
    · rintro ⟨right', left', rest', tag, heq, htag, rfl⟩
      cases heq
      refine ⟨by simp [binary], by simp [binary, Expect.accepts], some tag, [tag], ?_, ?_, rfl⟩
      · simp [binary, checkPair, PairRule.result_ok_iff.mpr htag, Except.map]
      · exact .cons rfl .nil

/-- **`apply_replace_iff`** — an operation that replaces the top of the stack. -/
theorem apply_replace_iff {e : Expect} {tag : TypeTag} {slots out : List TypeTag} :
    (replace [e] tag).apply g system slots = .ok out ↔
      ∃ top rest, slots = top :: rest ∧ e.accepts g top = true ∧ out = tag :: rest := by
  cases slots with
  | nil => simp [apply, replace]
  | cons top rest =>
    rw [apply_ok_iff]
    constructor
    · rintro ⟨-, hpops, pair, pushed, -, hpushed, rfl⟩
      obtain ⟨haccepts, -⟩ := List.forall₂_cons.mp hpops
      obtain ⟨tag', rest', hresolve, hrest', rfl⟩ := List.forall₂_cons_left_iff.mp hpushed
      cases List.forall₂_nil_left_iff.mp hrest'
      cases hresolve
      exact ⟨top, rest, rfl, haccepts, rfl⟩
    · rintro ⟨top', rest', heq, haccepts, rfl⟩
      cases heq
      exact ⟨Nat.succ_le_succ (Nat.zero_le _), .cons haccepts .nil, none, [tag], rfl, .cons rfl .nil, rfl⟩

end StackEffect

/-! ## § Steps and jumps from a reachable stack -/

namespace AbstractStack

variable {g : TypeGraph} {ctx : MethodContext}

theorem step_ok_iff {insn : Instruction} {slots : List TypeTag} {after : AbstractStack} :
    (reachable slots).step g ctx insn = .ok after ↔
      ∃ effect out, insn.effect g ctx = .ok effect ∧ effect.apply g ctx.system slots = .ok out ∧
        after = .reachable out := by
  rw [step, Except.bind_eq_ok_iff]
  constructor
  · rintro ⟨effect, heffect, hrest⟩
    obtain ⟨out, hout, heq⟩ := Except.bind_eq_ok_iff.mp hrest
    cases heq
    exact ⟨effect, out, heffect, hout, rfl⟩
  · rintro ⟨effect, out, heffect, hout, rfl⟩
    exact ⟨effect, heffect, Except.bind_eq_ok_iff.mpr ⟨out, hout, rfl⟩⟩

/-- Where an instruction can be reached, verifying it is applying its effect. -/
theorem step_of_effect {insn : Instruction} {effect : StackEffect} (heffect : insn.effect g ctx = .ok effect)
    (slots : List TypeTag) :
    (reachable slots).step g ctx insn = (effect.apply g ctx.system slots).map .reachable := by
  rw [step, heffect]
  cases happly : effect.apply g ctx.system slots <;> simp only [bind, Except.bind, happly] <;> rfl

/-- **`step_replace_iff`** — an instruction that replaces the top of the stack. -/
theorem step_replace_iff {insn : Instruction} {e : Expect} {tag : TypeTag} {slots : List TypeTag}
    {after : AbstractStack} (heffect : insn.effect g ctx = .ok (.replace [e] tag)) :
    (reachable slots).step g ctx insn = .ok after ↔
      ∃ top rest, slots = top :: rest ∧ e.accepts g top = true ∧ after = .reachable (tag :: rest) := by
  rw [step_ok_iff]
  constructor
  · rintro ⟨effect, out, heffect', happly, rfl⟩
    cases heffect.symm.trans heffect'
    obtain ⟨top, rest, rfl, haccepts, rfl⟩ := StackEffect.apply_replace_iff.mp happly
    exact ⟨top, rest, rfl, haccepts, rfl⟩
  · rintro ⟨top, rest, rfl, haccepts, rfl⟩
    exact ⟨_, _, heffect, StackEffect.apply_replace_iff.mpr ⟨top, rest, rfl, haccepts, rfl⟩, rfl⟩

/-- The stacks after a branch that leaves the given slots. -/
def Jump.after {Target : Type} (branch : Branch Target) (out : List TypeTag) : Jump :=
  { delivered := if branch.isLeave then .empty else .reachable out
    next := if branch.isTerminal then .unreachable else .reachable out }

theorem jump_ok_iff {Target : Type} {branch : Branch Target} {slots : List TypeTag} {j : Jump} :
    (reachable slots).jump g ctx branch = .ok j ↔
      ∃ out, (branch.effect g ctx).apply g ctx.system slots = .ok out ∧ j = .after branch out := by
  rw [jump, Except.bind_eq_ok_iff]
  constructor
  · rintro ⟨out, hout, heq⟩
    cases heq
    exact ⟨out, hout, rfl⟩
  · rintro ⟨out, hout, rfl⟩
    exact ⟨out, hout, rfl⟩

/-- Where a branch can be reached, so can its targets. -/
theorem jump_delivers {Target : Type} {branch : Branch Target} {slots : List TypeTag} {j : Jump}
    (hjump : (reachable slots).jump g ctx branch = .ok j) : ∃ found, j.delivered = .reachable found := by
  obtain ⟨out, -, rfl⟩ := jump_ok_iff.mp hjump
  simp only [Jump.after, empty]
  split
  · exact ⟨[], rfl⟩
  · exact ⟨out, rfl⟩

/-- A `leave` delivers the empty stack, if anything. -/
theorem jump_leave {Target : Type} {branch : Branch Target} (h : branch.isLeave = true)
    {s : AbstractStack} {j : Jump} (hjump : s.jump g ctx branch = .ok j) :
    j.delivered = .unreachable ∨ j.delivered = .empty := by
  cases s with
  | unreachable =>
    cases hjump
    exact .inl rfl
  | reachable slots =>
    obtain ⟨out, -, rfl⟩ := jump_ok_iff.mp hjump
    exact .inr (if_pos h)

/-- Nothing continues after a terminal branch. -/
theorem jump_terminal {Target : Type} {branch : Branch Target} (h : branch.isTerminal = true)
    {s : AbstractStack} {j : Jump} (hjump : s.jump g ctx branch = .ok j) : j.next = .unreachable := by
  cases s with
  | unreachable =>
    cases hjump
    rfl
  | reachable slots =>
    obtain ⟨out, -, rfl⟩ := jump_ok_iff.mp hjump
    exact if_pos h

end AbstractStack

end ManagedCode
