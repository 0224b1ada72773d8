/-
  The shape of the tree of namespaces.

  Where no two needed paths clash, a finished tree of namespaces follows a plan that speaks of paths alone:
  the paths needed are the closure of those that are declared, and a path is below the one that it goes up
  to, under its last name.  For each namespace the plan says two things, and each needs its own argument:

  * its PARENT is at the path above, since nothing is left to link (`SpaceForest.parent_of_settled`);
  * a child is found under EVERY path below it, since nobody is displaced by another of the same name
    (`SpacesBuilt.kept_iff`).
-/
import Docset.Proofs.Namespace.Children
import Docset.Proofs.Namespace.Members
import Docset.Proofs.Plan

namespace Docset

/-- What the tree of namespaces of a set is to look like. -/
def Store.spacePlan (s : Store) (d : SetId) : Plan where
  needed := Path.Closure (s.DeclaresSpace d)
  below p key q := Path.parentKey q = .ok p ∧ (Path.split q).2 = key
  hangsOff p := (Path.split p).1
  held p kind := ((s.declared d Tree.spaces.kinds).filter fun e => (s.element e).kind = kind).filter
    fun e => s.namedSpace e = p

namespace SpacesBuilt

variable {s t : Store} {d : SetId} {n : NodeId}

/-- The parent of a namespace is at the path above. -/
theorem parentAt_iff (h : SpacesBuilt d s t) (hn : n ∈ t.madeSince s.nodes.size) {q : String} :
    t.parentAt n = some q ↔ Path.parentKey (t.node n).path = .ok q := by
  rw [Store.parentAt_eq_some]
  constructor
  · rintro ⟨m, hm, rfl⟩
    exact (h.forest.above n hn m hm).2
  · intro hup
    obtain ⟨m, -, hm, hpath⟩ := h.forest.parent_of_settled hn (h.settled n hn) hup
    exact ⟨m, hm, hpath⟩

/-- What is above a namespace is needed. -/
theorem needed_above (h : SpacesBuilt d s t) (hn : n ∈ t.madeSince s.nodes.size) {q : String}
    (hup : Path.parentKey (t.node n).path = .ok q) : Path.Closure (s.DeclaresSpace d) q := by
  have hneeded : Path.Closure (s.DeclaresSpace d) (t.node n).path :=
    h.mem_keys.1 (h.forest.registry.mem_keys.2 ⟨n, hn, rfl⟩)
  exact hneeded.above hup

/-- The children of a namespace are at the needed paths that go up to it, under their last names. -/
theorem childAt_iff (h : SpacesBuilt d s t) (hclash : ¬ Path.Clash (Path.Closure (s.DeclaresSpace d)))
    (hn : n ∈ t.madeSince s.nodes.size) {key q : String} :
    t.childAt n key = some q ↔ Path.Closure (s.DeclaresSpace d) q ∧
      Path.parentKey q = .ok (t.node n).path ∧ (Path.split q).2 = key := by
  rw [Store.childAt_eq_some]
  constructor
  · rintro ⟨c, hc, rfl⟩
    obtain ⟨hmade, hparent, hname⟩ := h.forest.below n hn key c hc
    refine ⟨h.mem_keys.1 (h.forest.registry.mem_keys.2 ⟨c, hmade, rfl⟩), ?_, ?_⟩
    · exact (h.forest.above c hmade n hparent).2
    · rw [← (h.forest.formed c hmade).name_eq]
      exact hname
  · rintro ⟨hneeded, hup, rfl⟩
    obtain ⟨c, hc, rfl⟩ := h.forest.registry.mem_keys.1 (h.mem_keys.2 hneeded)
    obtain ⟨m, hm, hparent, hpath⟩ := h.forest.parent_of_settled hc (h.settled c hc) hup
    have hmn : m = n := h.forest.registry.eq_of_path hm hn hpath
    have hkept := h.kept_iff.2 hclash c hc m hparent
    rw [(h.forest.formed c hc).name_eq, hmn] at hkept
    exact ⟨c, hkept, rfl⟩

/-- **A finished tree of namespaces follows the plan of the input**, also in every later store that has
    it as it was. -/
theorem follows {u : Store} (h : SpacesBuilt d s t)
    (hfiled : Filed .spaces s.nodes.size s s.namedSpace id (s.declared d Tree.spaces.kinds) t)
    (hclash : ¬ Path.Clash (Path.Closure (s.DeclaresSpace d))) (hu : Store.Retains d .spaces t u) :
    u.Follows d .spaces (s.spacePlan d) := by
  have hregistry := h.forest.registry
  have hrow : ∀ n ∈ t.madeSince s.nodes.size, n.row < t.nodes.size := fun n hn =>
    (Store.mem_madeSince.1 hn).2
  refine ⟨fun p => ?_, fun p hp => ?_⟩
  · rw [hu.index]
    exact h.mem_keys
  · obtain ⟨n, hn, rfl⟩ := hregistry.mem_keys.1 (h.mem_keys.2 hp)
    have hnode := hu.node n (hrow n hn)
    have hparent := hu.parentAt (hrow n hn) fun m hm => hrow m (h.forest.above n hn m hm).1
    have hchild := hu.childAt (hrow n hn) fun key c hc => hrow c (h.forest.below n hn key c hc).1
    refine ⟨n, ?_, congrArg Node.path hnode, ?_⟩
    · rw [hu.index]
      exact hregistry.get?_path hn
    · refine ⟨?_, fun q => ?_, fun key q => ?_, fun kind hkind => ?_⟩
      · rw [hnode]
        exact congrArg Prod.fst (h.forest.formed n hn)
      · rw [hparent, hnode, h.parentAt_iff hn]
        constructor
        · intro hup
          exact ⟨h.needed_above hn hup, _, hup, rfl⟩
        · rintro ⟨-, -, hup, -⟩
          exact hup
      · rw [hchild, hnode]
        exact h.childAt_iff hclash hn
      · rw [hnode]
        exact hfiled.collection hn (hregistry.tree_eq n hn) hkind

end SpacesBuilt

end Docset
