import Mathlib.Data.List.Induction
import Mathlib.Data.List.Perm.Lattice
import Mathlib.Tactic.Common
import SafeQuery.Dict

/-!
# Dictionaries in order

A dictionary whose keys are in order has one entry for every key, so that its entries are given by
the values of its keys.
-/

namespace SafeQuery

namespace Dict

variable {α β : Type} {d d' : Dict α}

lemma mem_entries_iff (h : d.Sorted) {k : String} {v : α} :
    (k, v) ∈ d.entries ↔ d.get? k = some v := by
  obtain ⟨es⟩ := d
  rw [Sorted] at h
  dsimp only at h ⊢
  constructor
  · intro hmem
    induction es with
    | nil => cases hmem
    | cons e es ih =>
      obtain ⟨hfirst, hsorted⟩ := List.pairwise_cons.mp h
      rcases List.mem_cons.mp hmem with rfl | hmem
      · simp [get?]
      · have hlt : e.1 < k := hfirst (k, v) hmem
        have hne : e.1 ≠ k := by
          rintro rfl
          exact String.lt_irrefl _ hlt
        simpa [get?, hne] using ih hsorted hmem
  · intro hget
    obtain ⟨e, hfind, rfl⟩ := Option.map_eq_some_iff.mp hget
    obtain rfl : e.1 = k := by simpa using List.find?_some hfind
    exact List.mem_of_find?_eq_some hfind

lemma keys_filter_pairwise (h : d.Sorted) (f : String → Bool) :
    (d.keys.filter f).Pairwise (· < ·) :=
  (List.pairwise_map.mpr h).filter f

lemma keys_filter_nodup (h : d.Sorted) (f : String → Bool) : (d.keys.filter f).Nodup := by
  refine (keys_filter_pairwise h f).imp ?_
  rintro a b hlt rfl
  exact String.lt_irrefl _ hlt

lemma mem_keys_iff {k : String} : k ∈ d.keys ↔ ∃ v, d.get? k = some v := by
  constructor
  · intro hk
    obtain ⟨e, he, rfl⟩ := List.mem_map.mp hk
    cases hget : d.get? e.1 with
    | some v => exact ⟨v, rfl⟩
    | none =>
      have hnone := List.find?_eq_none.mp (Option.map_eq_none_iff.mp hget) e he
      exact absurd (decide_eq_true rfl) hnone
  · rintro ⟨v, hget⟩
    obtain ⟨e, hfind, rfl⟩ := Option.map_eq_some_iff.mp hget
    obtain rfl : e.1 = k := by simpa using List.find?_some hfind
    exact List.mem_map_of_mem (List.mem_of_find?_eq_some hfind)

/-- Behind several insertions every inserted key has one of the values that it was given. -/
lemma exists_get?_insertAll (d : Dict α) {es : List (String × α)} {k : String}
    (hk : k ∈ es.map (·.1)) : ∃ v, (k, v) ∈ es ∧ (d.insertAll es).get? k = some v := by
  induction es using List.reverseRecOn with
  | nil => cases hk
  | append_singleton es e ih =>
    have hlast : d.insertAll (es ++ [e]) = (d.insertAll es).insert e.1 e.2 := by
      rw [insertAll, List.foldl_append]
      rfl
    rw [hlast]
    simp only [get?_insert]
    by_cases he : k = e.1
    · exact ⟨e.2, by simp [he], if_pos he⟩
    · rw [List.map_append, List.mem_append] at hk
      rcases hk with hk | hk
      · obtain ⟨v, hv, hget⟩ := ih hk
        exact ⟨v, List.mem_append_left _ hv, by rw [if_neg he, hget]⟩
      · exact absurd (by simpa using hk) he

/-- At most one entry has a key. -/
lemma flatMap_entries_of_key (h : d.Sorted) (k : String) (f : String → List β) :
    (d.entries.flatMap fun e => if e.1 = k then f e.1 else []) =
      if (d.get? k).isSome then f k else [] := by
  obtain ⟨es⟩ := d
  rw [Sorted] at h
  dsimp only at h ⊢
  induction es with
  | nil => rfl
  | cons e es ih =>
    obtain ⟨hfirst, hsorted⟩ := List.pairwise_cons.mp h
    rw [List.flatMap_cons]
    by_cases he : e.1 = k
    · have hrest : (es.flatMap fun e => if e.1 = k then f e.1 else []) = [] := by
        rw [List.flatMap_eq_nil_iff]
        intro e' he'
        rw [if_neg]
        rintro rfl
        exact String.lt_irrefl _ (he ▸ hfirst e' he')
      rw [hrest, if_pos he, List.append_nil, he, if_pos]
      simp [get?, he]
    · have hget : (mk (e :: es)).get? k = (mk es).get? k := by simp [get?, he]
      rw [if_neg he, List.nil_append, ih hsorted, hget]

/-- Dictionaries in order that have the same value for every key are the same. -/
lemma eq_of_get?_eq (h : d.Sorted) (h' : d'.Sorted) (hget : ∀ k, d.get? k = d'.get? k) :
    d = d' := by
  have hnodup : ∀ {d : Dict α}, d.Sorted → d.entries.Nodup := by
    intro d hd
    refine List.Pairwise.imp ?_ hd
    rintro a b hlt rfl
    exact String.lt_irrefl _ hlt
  have hperm : d.entries.Perm d'.entries := by
    rw [List.perm_ext_iff_of_nodup (hnodup h) (hnodup h')]
    rintro ⟨k, v⟩
    rw [mem_entries_iff h, mem_entries_iff h', hget]
  have hentries : d.entries = d'.entries :=
    hperm.eq_of_pairwise (fun _ _ _ _ hlt hlt' => absurd hlt' (String.lt_asymm hlt)) h h'
  exact congrArg mk hentries

end Dict

end SafeQuery
