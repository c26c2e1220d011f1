/-
# ManagedCode.Proofs.Stack.Evolution — no verdict is revoked by what happens to the graph later.

A body is verified against a graph that others keep adding to.  Every question that verification puts to a
graph is about types that the graph has by then: whether one type, slot or stack may stand for another, and
whether a slot meets a requirement.  What was answered with yes is answered so for good; and as long as no
interface edge is added, so is what was answered with no.

Both halves are one argument.  A graph that is `Wider` on the types of an origin answers yes wherever the
narrower one does; a graph is wider than what it evolved from, and without new interface edges the converse
holds as well.
-/
import ManagedCode.Proofs.Graph.Evolution
import ManagedCode.Proofs.Stack.Growth

namespace ManagedCode

/-! ## § Questions to a graph -/

/-- **`Question`** — what verification may ask a graph. -/
inductive Question
  /-- A value of the one type may be used as the other. -/
  | subtype (sub super : TypeId)
  /-- An address of a location of the one type may be used as an address of the other. -/
  | referent (found expected : TypeId)
  | assignable (found expected : TypeTag)
  | compatible (found recorded : AbstractStack)
  | accepted (requirement : Expect) (found : TypeTag)
  deriving DecidableEq

namespace Question

/-- What the graph answers. -/
def answer (g : TypeGraph) : Question → Bool
  | .subtype sub super => g.isSubtype sub super
  | .referent found expected => g.isReferentCompatible found expected
  | .assignable found expected => found.isAssignable g expected
  | .compatible found recorded => AbstractStack.isCompatible g found recorded
  | .accepted requirement found => requirement.accepts g found

/-- The graph has the types that the question is about. -/
def Known (g : TypeGraph) : Question → Prop
  | .subtype a b | .referent a b => g.Knows a ∧ g.Knows b
  | .assignable found expected => found.Known g ∧ expected.Known g
  | .compatible found recorded => found.Known g ∧ recorded.Known g
  | .accepted requirement found => requirement.Known g ∧ found.Known g

/-- A wider graph answers yes wherever the narrower one does. -/
theorem answer_wider {o g g' : TypeGraph} (h : o.Wider g g') {q : Question} (hq : q.Known o)
    (hyes : q.answer g = true) : q.answer g' = true := by
  cases q with
  | subtype => exact h.isSubtype hq.1 hq.2 hyes
  | referent => exact (h.isReferentCompatible_eq hq.1 hq.2).trans hyes
  | assignable => exact TypeTag.isAssignable_wider h hq.1 hq.2 hyes
  | compatible => exact AbstractStack.isCompatible_wider h hq.1 hq.2 hyes
  | accepted => exact Expect.accepts_wider h hq.1 hq.2 hyes

end Question

namespace TypeGraph

/-- **`Evolves.answers`** — whatever is done to a graph, each of its answers stands: what it answered with yes
it still does, without new interface edges it answers every question as before, and the types it found under
a name are the ones it finds. -/
theorem Evolves.answers {edges : Bool} {g g' : TypeGraph} (hg : g.Built) (h : Evolves edges g g') :
    (∀ q : Question, q.Known g →
      (q.answer g = true → q.answer g' = true) ∧ (edges = false → q.answer g' = q.answer g)) ∧
      ∀ {name t}, g.lookup? name = some t → g'.lookup? name = some t := by
  refine ⟨fun q hq => ⟨Question.answer_wider (h.wider hg) hq, ?_⟩, h.retains.lookup_eq⟩
  rintro rfl
  rw [Bool.eq_iff_iff]
  exact ⟨Question.answer_wider (h.wider_back hg) hq, Question.answer_wider (h.wider hg) hq⟩

end TypeGraph

namespace InterfaceCycle

open TypeGraph

/-- What is evaluated about the graphs, from the first interface to the arrays. -/
theorem cycle_facts :
    sink.2.Knows system.object ∧
      (channel.2.Knows source.1 ∧ channel.2.Knows sink.1 ∧ channel.2.Knows channel.1 ∧
        channel.2.Knows system.object) ∧
      (linked.Knows channel.1 ∧ linked.Knows sink.1 ∧ channels.2.Knows sink.1) ∧
      channel.2.isSubtype channel.1 system.object = true ∧
      channel.2.isSubtype channel.1 sink.1 = false := by
  decide +kernel

theorem channel_built : channel.2.Built := by
  obtain ⟨hobject, -⟩ := cycle_facts
  refine .addClass (.addType _ _ (.addType _ _ (.addSystemTypes .empty) ?_ ?_) ?_ ?_) _ _ hobject
  all_goals exact fun _ => nofun

theorem linked_evolves : Evolves true channel.2 linked := by
  obtain ⟨-, ⟨hsource, hsink, hchannel, -⟩, -⟩ := cycle_facts
  refine .tail (.tail (.tail .refl (.addInterfaceImpl rfl hsource hsink)) (.addInterfaceImpl rfl ?_ ?_))
    (.addInterfaceImpl rfl ?_ ?_)
  all_goals simpa only [knows_addInterfaceImpl]

theorem graph_evolves : Evolves false linked graph := by
  obtain ⟨-, -, ⟨hchannel, -, hsink⟩, -⟩ := cycle_facts
  exact .tail (.tail .refl (.arrayOf hchannel)) (.arrayOf hsink)

/-- A channel is an object before and after it becomes a sink, and the arrays make no difference to that. -/
theorem answers_cycle :
    channel.2.isSubtype channel.1 system.object = true ∧ linked.isSubtype channel.1 system.object = true ∧
      channel.2.isSubtype channel.1 sink.1 = false ∧
      graph.isSubtype channel.1 sink.1 = linked.isSubtype channel.1 sink.1 := by
  obtain ⟨-, ⟨-, -, hchannel, hobject⟩, ⟨hlchannel, hlsink, -⟩, hyes, hno⟩ := cycle_facts
  have hlinked := (linked_evolves.answers channel_built).1 (.subtype channel.1 system.object)
    ⟨hchannel, hobject⟩
  have hgraph := (graph_evolves.answers (linked_evolves.built channel_built)).1
    (.subtype channel.1 sink.1) ⟨hlchannel, hlsink⟩
  exact ⟨hyes, hlinked.1 hyes, hno, hgraph.2 rfl⟩

end InterfaceCycle

end ManagedCode
