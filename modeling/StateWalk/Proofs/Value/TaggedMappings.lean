import StateWalk.Proofs.Canonical.Reading
import StateWalk.Proofs.Value.Order

/-!
# Keys of mappings that are tagged

The key of a mapping with a key that is not a plain text lists its entries as pairs, in the one member of an
object, which has the name of the tag. A mapping of texts becomes an object of as many members as it has entries.
So it has the key of the other one exactly if the tag is its only key and stands for the pairs
(`key_eq_iff_tagged`), and that can happen (`numbered_key_of_tag`).
-/

namespace StateWalk.Value

/-- The entries of a mapping as pairs, in no order. -/
def entryPairs (es : Entries) : Value := set (es.map fun e => tuple [e.1, e.2])

variable {es fs : Entries}

/-- A mapping with a key that is no plain text has one member, the pairs. -/
theorem canonical_tagged (other : ∃ e ∈ es, e.1.isPlainText = false) :
    (mapping es).canonical = .object [(mappingTag, (entryPairs es).canonical)] := by
  have tagged : ¬ es.all (fun e => e.1.isPlainText) = true := by
    simpa using other
  rw [canonical, mappingForm, if_neg tagged, canonicalEntries_eq_map, List.map_map, entryPairs, canonical,
    canonicalAll_eq_map, List.map_map]
  rfl

/-- A mapping of plain texts has a member for each entry. -/
theorem canonical_of_texts (texts : ∀ e ∈ fs, e.1.isPlainText = true) :
    (mapping fs).canonical = .object (fs.map fun e => (memberName e.1.canonical, e.2.canonical)) := by
  have plain : fs.all (fun e => e.1.isPlainText) = true := List.all_eq_true.2 texts
  rw [canonical, mappingForm, if_pos plain, canonicalEntries_eq_map, List.map_map]
  rfl

theorem hasKey_entryPairs (keyed : (mapping es).hasKey = true) : (entryPairs es).hasKey = true := by
  rw [hasKey_mapping] at keyed
  rw [entryPairs, hasKey_set, List.all_map]
  refine List.all_eq_true.2 fun e mem => ?_
  change (tuple [e.1, e.2]).hasKey = true
  rw [show (tuple [e.1, e.2]).hasKey = [e.1, e.2].all hasKey from hasKey_list _]
  simpa using List.all_eq_true.1 keyed e mem

/-- The value of a single entry has a key, if the mapping has one. -/
theorem hasKey_of_single {k v : Value} (keyed : (mapping [(k, v)]).hasKey = true) : v.hasKey = true := by
  rw [hasKey_mapping] at keyed
  exact (Bool.and_eq_true_iff.1 (List.all_eq_true.1 keyed (k, v) List.mem_cons_self)).2

/-- **A mapping with a key that is no plain text has the key of a mapping of texts in one case only**: if the
other one has the tag for its only key, and a value there with the key of the pairs. -/
theorem key_eq_iff_tagged {k l : String} (other : ∃ e ∈ es, e.1.isPlainText = false)
    (texts : ∀ e ∈ fs, e.1.isPlainText = true) (hk : (mapping es).key = .ok k)
    (hl : (mapping fs).key = .ok l) :
    k = l ↔ ∃ w, fs = [(text mappingTag, w)] ∧ w.key = (entryPairs es).key := by
  obtain ⟨keyed, rfl⟩ := key_eq_ok_iff.1 hk
  obtain ⟨keyed', rfl⟩ := key_eq_ok_iff.1 hl
  have pairs := key_of_hasKey (hasKey_entryPairs keyed)
  constructor
  · intro eq
    have printed := String.ofList_injective eq
    rw [canonical_tagged other, canonical_of_texts texts] at printed
    have members := Canonical.members_of_render_eq printed
    rw [List.map_map, List.map_singleton, Canonical.sortByName_eq_singleton.2 rfl, eq_comm,
      Canonical.sortByName_eq_singleton] at members
    obtain ⟨⟨key, w⟩, rfl, member⟩ := List.map_eq_singleton_iff.1 members
    obtain ⟨tag, same⟩ := Prod.ext_iff.1 member
    obtain ⟨name, named⟩ := exists_text_of_isPlainText (texts _ List.mem_cons_self)
    obtain rfl : key = text name := named
    obtain rfl : name = mappingTag := tag
    refine ⟨w, rfl, ?_⟩
    rw [pairs, key_of_hasKey (hasKey_of_single keyed')]
    exact congrArg Except.ok (congrArg String.ofList same)
  · rintro ⟨w, rfl, same⟩
    rw [pairs, key_of_hasKey (hasKey_of_single keyed'), Except.ok.injEq] at same
    have printed : w.canonical.render = (entryPairs es).canonical.render := String.ofList_injective same
    rw [canonicalText, canonicalText, canonical_tagged other, canonical_of_texts texts, Canonical.toText,
      Canonical.toText]
    refine congrArg String.ofList (Canonical.render_object_congr ?_)
    rw [List.map_singleton, List.map_singleton, List.map_singleton, printed]
    rfl

/-- Mappings of two entries have different keys if one has a number where the other one has its digit. -/
theorem number_key_ne_digit_key :
    ∃ k l, (mapping [(int 1, text "one"), (text "2", null)]).key = .ok k ∧
      (mapping [(text "1", text "one"), (text "2", null)]).key = .ok l ∧ k ≠ l := by
  have number : (mapping [(int 1, text "one"), (text "2", null)]).hasKey = true := rfl
  have digit : (mapping [(text "1", text "one"), (text "2", null)]).hasKey = true := rfl
  have other : ∃ e ∈ [(int 1, text "one"), (text "2", null)], e.1.isPlainText = false :=
    ⟨_, List.mem_cons_self, rfl⟩
  have texts : ∀ e ∈ [(text "1", text "one"), (text "2", null)], e.1.isPlainText = true :=
    List.forall_mem_cons.2 ⟨rfl, List.forall_mem_singleton.2 rfl⟩
  refine ⟨_, _, key_of_hasKey number, key_of_hasKey digit, fun eq => ?_⟩
  obtain ⟨w, alone, -⟩ := (key_eq_iff_tagged other texts (key_of_hasKey number) (key_of_hasKey digit)).1 eq
  have lengths : 2 = 1 := congrArg List.length alone
  exact absurd lengths (by decide)

/-- A mapping of a number has the key of a mapping of texts, which has the tag for a key. -/
theorem numbered_key_of_tag :
    (int 1).isPlainText = false ∧ (text mappingTag).isPlainText = true ∧
      (mapping [(int 1, int 2)]).key = .ok "\x7b\"<mapping>\":[[1,2]]\x7d" ∧
      (mapping [(text mappingTag, list [list [int 1, int 2]])]).key =
        .ok "\x7b\"<mapping>\":[[1,2]]\x7d" := by
  refine ⟨rfl, rfl, ?_, ?_⟩ <;> cbv

end StateWalk.Value
