import Mathlib.Data.List.Nodup
import StateWalk.Canonical.Printer

/-!
# Canonical text and order

What a tree prints as depends on its parts only by what these print as, and where a tree has no order of its
own, not on the order in which its parts are given: the members of an object are sorted by name
(`render_object_of_perm`), and the items of a collection by their texts (`render_sortByText_of_perm`).

Items that print alike can stand in either order, so only the printed items are the same; members have
different names, so they are the same themselves.
-/

namespace StateWalk.Canonical

/-- A sorted list of pairs with different names does not depend on the order in which they were given. -/
theorem sortByName_eq_of_perm {α : Type} {pairs pairs' : List (String × α)} (perm : pairs.Perm pairs')
    (distinct : (pairs.map Prod.fst).Nodup) : sortByName pairs = sortByName pairs' := by
  have perms : (sortByName pairs).Perm (sortByName pairs') :=
    (sortByName_perm pairs).trans (perm.trans (sortByName_perm pairs').symm)
  refine perms.eq_of_pairwise ?_ (pairwise_sortByName pairs) (pairwise_sortByName pairs')
  intro a b ha hb le ge
  have mem_a : a ∈ pairs := (sortByName_perm pairs).mem_iff.1 ha
  have mem_b : b ∈ pairs := perm.mem_iff.2 ((sortByName_perm pairs').mem_iff.1 hb)
  exact List.inj_on_of_nodup_map distinct mem_a mem_b (String.le_antisymm le ge)

theorem sortByName_map {α β : Type} (f : α → β) (pairs : List (String × α)) :
    sortByName (pairs.map fun p => (p.1, f p.2)) = (sortByName pairs).map fun p => (p.1, f p.2) := by
  rw [sortByName, sortByName, List.map_mergeSort]
  exact fun _ _ _ _ => rfl

/-- Sorting makes only a single pair into a single pair. -/
theorem sortByName_eq_singleton {α : Type} {pairs : List (String × α)} {pair : String × α} :
    sortByName pairs = [pair] ↔ pairs = [pair] := by
  constructor
  · intro eq
    exact List.perm_singleton.1 (eq ▸ (sortByName_perm pairs).symm)
  · rintro rfl
    exact List.mergeSort_singleton pair

/-- Sorting by a label keeps all items. -/
theorem sortByName_labelled_perm {α : Type} (label : α → String) (items : List α) :
    ((sortByName (items.map fun x => (label x, x))).map Prod.snd).Perm items := by
  have perm := (sortByName_perm (items.map fun x => (label x, x))).map Prod.snd
  rwa [List.map_map, show Prod.snd ∘ (fun x => (label x, x)) = id from rfl, List.map_id] at perm

theorem sortByText_perm (cs : List Canonical) : (sortByText cs).Perm cs := sortByName_labelled_perm toText cs

theorem pairwise_sortByText (cs : List Canonical) :
    (sortByText cs).Pairwise fun c d => c.toText ≤ d.toText := by
  have labelled : ∀ p ∈ sortByName (cs.map fun c => (c.toText, c)), p.1 = p.2.toText := by
    intro p mem
    obtain ⟨c, -, rfl⟩ := List.mem_map.1 ((sortByName_perm _).mem_iff.1 mem)
    rfl
  refine List.pairwise_map.2 ((pairwise_sortByName _).imp_of_mem fun {p q} hp hq le => ?_)
  rwa [labelled p hp, labelled q hq] at le

/-- Collections of items that print alike print alike, whatever their order. -/
theorem render_sortByText_of_perm {cs ds : List Canonical} (perm : (cs.map render).Perm (ds.map render)) :
    (sortByText cs).map render = (sortByText ds).map render := by
  have perms : ((sortByText cs).map render).Perm ((sortByText ds).map render) :=
    ((sortByText_perm cs).map render).trans (perm.trans ((sortByText_perm ds).map render).symm)
  have sorted : ∀ cs : List Canonical,
      ((sortByText cs).map render).Pairwise fun a b => String.ofList a ≤ String.ofList b :=
    fun cs => List.pairwise_map.2 (pairwise_sortByText cs)
  refine perms.eq_of_pairwise ?_ (sorted cs) (sorted ds)
  exact fun a b _ _ le ge => String.ofList_injective (String.le_antisymm le ge)

theorem render_array_congr {cs ds : List Canonical} (same : cs.map render = ds.map render) :
    (array cs).render = (array ds).render := by
  rw [render, render, renderAll_eq_map, renderAll_eq_map, same]

theorem render_object_congr {ms ns : List (String × Canonical)}
    (same : (ms.map fun m => (m.1, m.2.render)) = ns.map fun m => (m.1, m.2.render)) :
    (object ms).render = (object ns).render := by
  rw [render, render, renderMembers_eq_map, renderMembers_eq_map, same]

theorem render_object_of_perm {ms ns : List (String × Canonical)} (perm : ms.Perm ns)
    (distinct : (ms.map Prod.fst).Nodup) : (object ms).render = (object ns).render := by
  have names : ((ms.map fun m => (m.1, m.2.render)).map Prod.fst).Nodup := by
    rwa [List.map_map]
  rw [render, render, renderMembers_eq_map, renderMembers_eq_map,
    sortByName_eq_of_perm (perm.map _) names]

end StateWalk.Canonical
