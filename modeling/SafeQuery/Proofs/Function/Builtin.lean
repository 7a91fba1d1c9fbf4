import Mathlib.Tactic.Common
import SafeQuery.Proofs.Execution.Keeping
import SafeQuery.Proofs.Tree.Reading

/-!
# What builtin functions keep

The builtin functions make their values of constants, of their arguments and of parts of these:
`builtins_keep` says that they keep every closed property.
-/

namespace SafeQuery

/-- What a dictionary of a list holds comes from the list. -/
lemma Dict.mem_of_get?_insertAll {α : Type} {d : Dict α} {es : List (String × α)} {k : String}
    {v : α} (h : (d.insertAll es).get? k = some v) : (k, v) ∈ es ∨ d.get? k = some v := by
  unfold Dict.insertAll at h
  induction es generalizing d with
  | nil => exact Or.inr h
  | cons e es ih =>
    rcases ih h with hes | hd
    · exact Or.inl (List.mem_cons_of_mem _ hes)
    · rw [Dict.get?_insert] at hd
      split at hd
      · rename_i hk
        cases hd
        exact Or.inl (hk ▸ List.mem_cons_self)
      · exact Or.inr hd

lemma Dict.mem_of_get?_ofList {α : Type} {es : List (String × α)} {k : String} {v : α}
    (h : (Dict.ofList es).get? k = some v) : (k, v) ∈ es := by
  rcases Dict.mem_of_get?_insertAll h with hes | hempty
  · exact hes
  · cases hempty

namespace Function

variable {V : Value → Prop}

/-- A function whose values are all of one kind. -/
lemma keeps_of_kind {α : Type} {make : α → Value} (hV : ∀ a, V (make a)) {g : Function}
    (h : ∀ args v, g args = .ok v → ∃ a, v = make a) : g.Keeps V := by
  intro args v _ hv
  obtain ⟨a, rfl⟩ := h args v hv
  exact hV a

lemma find?_getD_keeps {p : Value → Bool} {vs : List Value} {w : Value} (hvs : ∀ v ∈ vs, V v)
    (hw : V w) : V ((vs.find? p).getD w) := by
  cases h : vs.find? p with
  | none => exact hw
  | some v => exact hvs v (List.mem_of_find?_eq_some h)

/-- The conjunction yields one of its arguments. -/
lemma conj_keeps : Keeps V conj := by
  intro args v hargs h
  cases args with
  | nil => cases h
  | cons a as =>
    cases h
    exact find?_getD_keeps hargs (hargs _ (List.getLast_mem _))

/-- The disjunction yields one of its arguments. -/
lemma disj_keeps : Keeps V disj := by
  intro args v hargs h
  cases args with
  | nil => cases h
  | cons a as =>
    cases h
    exact find?_getD_keeps hargs (hargs _ (List.getLast_mem _))

lemma negation_bool {args : List Value} {v : Value} (h : negation args = .ok v) :
    ∃ b, v = .bool b := by
  unfold negation at h
  split at h
  · cases h
    exact ⟨_, rfl⟩
  · cases h

lemma eq_bool {args : List Value} {v : Value} (h : eq args = .ok v) : ∃ b, v = .bool b := by
  unfold eq at h
  split at h
  · obtain ⟨b, -, hb⟩ := bind_eq_ok_iff.mp h
    cases hb
    exact ⟨b, rfl⟩
  · cases h

lemma ne_bool {args : List Value} {v : Value} (h : ne args = .ok v) : ∃ b, v = .bool b := by
  unfold ne at h
  split at h
  · obtain ⟨b, -, hb⟩ := bind_eq_ok_iff.mp h
    cases hb
    exact ⟨!b, rfl⟩
  · cases h

/-- A comparison yields a truth value. -/
lemma ordered_bool {name : String} {wanted : Ordering → Bool} {args : List Value} {v : Value}
    (h : ordered name wanted args = .ok v) : ∃ b, v = .bool b := by
  unfold ordered at h
  split at h
  · split at h
    · cases h
    · cases h
    · obtain ⟨o, -, ho⟩ := bind_eq_ok_iff.mp h
      cases ho
      exact ⟨_, rfl⟩
  · cases h

/-- A length is a whole number. -/
lemma len_int {args : List Value} {v : Value} (h : len args = .ok v) : ∃ n, v = .int n := by
  unfold len at h
  split at h
  all_goals
    cases h
    try exact ⟨_, rfl⟩

/-- What stands in a list has the property of its items. -/
lemma itemAt_keeps {vs : List Value} {i : Int64} {v : Value} (hvs : ∀ w ∈ vs, V w)
    (h : itemAt vs i = .ok v) : V v := by
  unfold itemAt at h
  split at h
  · cases h
  · split at h
    · rename_i w hw
      cases h
      exact hvs v (List.mem_of_getElem? hw)
    · cases h

/-- What a value with the property holds at an index has the property. -/
lemma indexOne_keeps (hV : Value.Closed V) {w i v : Value} (hw : V w)
    (h : indexOne w i = .ok v) : V v := by
  have hbytes : ∀ bs : List UInt8, ∀ w ∈ bs.map ofByte, V w := by
    intro bs w hw
    obtain ⟨b, -, rfl⟩ := List.mem_map.mp hw
    exact hV.int _
  unfold indexOne at h
  split at h
  · exact itemAt_keeps (fun _ => hV.item hw) h
  · exact itemAt_keeps (hbytes _) h
  · exact itemAt_keeps (hbytes _) h
  · rename_i d k
    cases h
    cases hget : d.get? k with
    | none => exact hV.null
    | some v =>
      obtain ⟨e, he, rfl⟩ := Option.map_eq_some_iff.mp hget
      exact hV.entry hw (List.mem_of_find?_eq_some he)
  all_goals cases h

lemma index_keeps (hV : Value.Closed V) : Keeps V index := by
  intro args v hargs h
  cases args with
  | nil => cases h
  | cons w is =>
    have hw : V w := hargs w List.mem_cons_self
    simp only [index] at h
    clear hargs
    induction is generalizing w with
    | nil =>
      cases h
      exact hw
    | cons i is ih =>
      rw [List.foldlM_cons] at h
      obtain ⟨w', hw', hrest⟩ := bind_eq_ok_iff.mp h
      exact ih w' hrest (indexOne_keeps hV hw hw')

/-- What is printed is a string. -/
lemma printf_string {args : List Value} {v : Value} (h : printf args = .ok v) :
    ∃ s, v = .string s := by
  unfold printf at h
  split at h
  · cases h
  · split at h
    · cases h
    · cases h
      exact ⟨_, rfl⟩
  · cases h

end Function

/-- Builtin functions keep every closed property. -/
theorem builtins_keep {V : Value → Prop} (hV : Value.Closed V) {name : String} {g : Function}
    (h : builtins.get? name = some g) : g.Keeps V := by
  have hmem := Dict.mem_of_get?_ofList h
  have hbool {g : Function} (hg : ∀ args v, g args = .ok v → ∃ b, v = .bool b) : g.Keeps V :=
    Function.keeps_of_kind hV.bool hg
  have hstring {g : Function} (hg : ∀ args v, g args = .ok v → ∃ s, v = .string s) : g.Keeps V :=
    Function.keeps_of_kind hV.string hg
  have hprinted {print : List Value → String} :
      Function.Keeps V fun vs => .ok (.string (print vs)) :=
    hstring fun _ _ hv => ⟨_, (Except.ok.inj hv).symm⟩
  simp only [List.mem_cons, List.not_mem_nil, or_false, Prod.mk.injEq] at hmem
  rcases hmem with ⟨-, rfl⟩ | ⟨-, rfl⟩ | ⟨-, rfl⟩ | ⟨-, rfl⟩ | ⟨-, rfl⟩ | ⟨-, rfl⟩ | ⟨-, rfl⟩ |
    ⟨-, rfl⟩ | ⟨-, rfl⟩ | ⟨-, rfl⟩ | ⟨-, rfl⟩ | ⟨-, rfl⟩ | ⟨-, rfl⟩ | ⟨-, rfl⟩
  · exact Function.conj_keeps
  · exact Function.disj_keeps
  · exact hbool fun _ _ => Function.negation_bool
  · exact Function.keeps_of_kind hV.int fun _ _ => Function.len_int
  · exact Function.index_keeps hV
  · exact hbool fun _ _ => Function.eq_bool
  · exact hbool fun _ _ => Function.ne_bool
  · exact hbool fun _ _ => Function.ordered_bool
  · exact hbool fun _ _ => Function.ordered_bool
  · exact hbool fun _ _ => Function.ordered_bool
  · exact hbool fun _ _ => Function.ordered_bool
  · exact hprinted
  · exact hprinted
  · exact hstring fun _ _ => Function.printf_string

end SafeQuery
