import SafeQuery.Function.Builtin
import SafeQuery.Proofs.Function.Ordering

/-!
# The comparison functions agree

All comparison functions rest on the order of values, each with its own treatment of the absent
value, of truth values and of failure. What they say fits together nevertheless, as `Coherent`
lists it: `comparisons_coherent`.
-/

namespace SafeQuery

/-- There is an item with `P`, and all items before it have `Q`. -/
def Reaches {α : Type} (P Q : α → Prop) (as : List α) : Prop :=
  ∃ before a after, as = before ++ a :: after ∧ P a ∧ ∀ b ∈ before, Q b

section Reaches

variable {α : Type} {P Q : α → Prop} {a : α} {as : List α}

@[simp]
lemma not_reaches_nil : ¬ Reaches P Q [] := by
  rintro ⟨before, b, after, hsplit, -, -⟩
  exact List.append_ne_nil_of_right_ne_nil before (List.cons_ne_nil b after) hsplit.symm

/-- An item is reached at the beginning, or behind it if the search goes on there. -/
@[simp]
lemma reaches_cons : Reaches P Q (a :: as) ↔ P a ∨ Q a ∧ Reaches P Q as := by
  constructor
  · rintro ⟨before, b, after, hsplit, hb, hbefore⟩
    cases before with
    | nil =>
      cases hsplit
      exact .inl hb
    | cons c before =>
      cases hsplit
      obtain ⟨hc, hrest⟩ := List.forall_mem_cons.mp hbefore
      exact .inr ⟨hc, before, b, after, rfl, hb, hrest⟩
  · rintro (ha | ⟨ha, before, b, after, rfl, hb, hbefore⟩)
    · exact ⟨[], a, as, rfl, ha, by simp⟩
    · exact ⟨a :: before, b, after, rfl, hb, List.forall_mem_cons.mpr ⟨ha, hbefore⟩⟩

end Reaches

namespace Value

/-- Values that are there are equal if they have the same place in the order. -/
lemma isEqual_eq_order {v w : Value} (hv : v ≠ .null) (hw : w ≠ .null) :
    v.isEqual w = (v.order w).map fun o => decide (o = some .eq) := by
  unfold isEqual
  split
  · exact absurd rfl hv
  · exact absurd rfl hv
  · exact absurd rfl hw
  · cases v.order w <;> rfl

variable {v : Value} {ws : List Value}

/-- One of the values is found to be equal if no value before it is incomparable. -/
lemma equalsAny_eq_true_iff : v.equalsAny ws = .ok true ↔
    Reaches (v.isEqual · = .ok true) (fun w => ¬ ∃ e, v.isEqual w = .error e) ws := by
  induction ws with
  | nil => simp [equalsAny]
  | cons w ws ih =>
    rw [reaches_cons, ← ih, equalsAny]
    rcases v.isEqual w with e | (_ | _)
    · simp [bind, Except.bind]
    · simp [bind, Except.bind]
    · simp [bind, Except.bind, pure, Except.pure]

/-- The comparison fails if a value is incomparable and no value before it is equal. -/
lemma equalsAny_eq_error_iff : (∃ e, v.equalsAny ws = .error e) ↔
    Reaches (fun w => ∃ e, v.isEqual w = .error e) (¬ v.isEqual · = .ok true) ws := by
  induction ws with
  | nil => simp [equalsAny]
  | cons w ws ih =>
    rw [reaches_cons, ← ih, equalsAny]
    rcases v.isEqual w with e | (_ | _)
    · simp [bind, Except.bind]
    · simp [bind, Except.bind]
    · simp [bind, Except.bind, pure, Except.pure]

end Value

/-! ### What the functions say -/

/-- A value that is there and is no truth value. -/
structure Value.Ordinary (v : Value) : Prop where
  notNull : v ≠ .null
  notBool (b : Bool) : v ≠ .bool b

/-- Two values of a kind whose values are all ordered. -/
inductive Value.SameOrdered : Value → Value → Prop
  | int (m n : Int64) : SameOrdered (.int m) (.int n)
  | string (s t : String) : SameOrdered (.string s) (.string t)
  | time (s t : Calendar.Instant) : SameOrdered (.time s) (.time t)

/-- Functions for the comparison of values that agree with each other. -/
structure Coherent (eq ne lt le gt ge : Function) : Prop where
  /-- Values are either equal or unequal, and the failures are the same. -/
  ne_eq (a b : Value) : ∃ result : Except FunctionError Bool,
    eq [a, b] = result.map Value.bool ∧ ne [a, b] = result.map fun isEq => Value.bool !isEq
  /-- Values are ordered if they can be equal, and the failures are the same. -/
  error_iff (a b : Value) : a.Ordinary → b.Ordinary → ∀ g ∈ [lt, le, gt, ge], ∀ e,
    g [a, b] = .error e ↔ eq [a, b] = .error e
  /-- One value is less, equal or greater, unless one of both is no number. -/
  rank (a b : Value) (isEq : Bool) : a.Ordinary → b.Ordinary → eq [a, b] = .ok (.bool isEq) →
    ∃ isLt isGt, lt [a, b] = .ok (.bool isLt) ∧ gt [a, b] = .ok (.bool isGt) ∧
      le [a, b] = .ok (.bool (isLt || isEq)) ∧ ge [a, b] = .ok (.bool (isGt || isEq)) ∧
      [isLt, isEq, isGt].count true ≤ 1 ∧
      ([isLt, isEq, isGt].count true = 0 →
        ∃ x : Float, (a = .float x ∨ b = .float x) ∧ x.isNaN = true)
  /-- Values of some kinds are always ordered. -/
  total (a b : Value) : a.SameOrdered b → ∃ isLt isEq isGt,
    lt [a, b] = .ok (.bool isLt) ∧ eq [a, b] = .ok (.bool isEq) ∧ gt [a, b] = .ok (.bool isGt) ∧
      [isLt, isEq, isGt].count true = 1
  /-- If one value is less, the other one is greater. -/
  swap (a b : Value) : lt [a, b] = gt [b, a]
  /-- A value is equal, and none before it is incomparable. -/
  any_true_iff (a : Value) (bs : List Value) : bs ≠ [] → (eq (a :: bs) = .ok (.bool true) ↔
    Reaches (fun b => eq [a, b] = .ok (.bool true)) (fun b => ¬ ∃ e, eq [a, b] = .error e) bs)
  /-- A value is incomparable, and none before it is equal. -/
  any_error_iff (a : Value) (bs : List Value) : bs ≠ [] → ((∃ e, eq (a :: bs) = .error e) ↔
    Reaches (fun b => ∃ e, eq [a, b] = .error e) (fun b => ¬ eq [a, b] = .ok (.bool true)) bs)
  /-- Otherwise the values are known not to be equal. -/
  any_false (a : Value) (bs : List Value) : bs ≠ [] → ¬ eq (a :: bs) = .ok (.bool true) →
    (¬ ∃ e, eq (a :: bs) = .error e) → eq (a :: bs) = .ok (.bool false)

namespace Value.SameOrdered

variable {v w : Value}

lemma ordinary_left (h : v.SameOrdered w) : v.Ordinary := by
  cases h <;> constructor <;> simp

lemma ordinary_right (h : v.SameOrdered w) : w.Ordinary := by
  cases h <;> constructor <;> simp

lemma order (h : v.SameOrdered w) : ∃ o : Ordering, v.order w = .ok (some o) := by
  cases h <;> exact ⟨_, rfl⟩

end Value.SameOrdered

namespace Function

section Results

variable {result : Except FunctionError Bool}

@[simp]
lemma map_bool_eq_ok_iff {b : Bool} : result.map Value.bool = .ok (.bool b) ↔ result = .ok b := by
  cases result <;> simp [Except.map]

@[simp]
lemma map_bool_eq_error_iff {e : FunctionError} :
    result.map Value.bool = .error e ↔ result = .error e := by
  cases result <;> simp [Except.map]

end Results

variable {v w : Value}

/-- The first argument is compared with all others. -/
lemma eq_of_ne_nil {ws : List Value} (hws : ws ≠ []) :
    eq (v :: ws) = (v.equalsAny ws).map Value.bool := by
  cases ws with
  | nil => exact absurd rfl hws
  | cons w ws =>
    rw [eq]
    cases v.equalsAny (w :: ws) <;> rfl

lemma eq_pair : eq [v, w] = (v.isEqual w).map Value.bool := by
  rw [eq_of_ne_nil (List.cons_ne_nil w []), Value.equalsAny]
  rcases v.isEqual w with e | (_ | _) <;> rfl

lemma ne_pair : ne [v, w] = (v.isEqual w).map fun isEq => Value.bool !isEq := by
  rw [ne]
  cases v.isEqual w <;> rfl

/-- Ordinary values are equal if their order says so. -/
lemma eq_pair_of_ordinary (hv : v.Ordinary) (hw : w.Ordinary) :
    eq [v, w] = (v.order w).map fun o => Value.bool (decide (o = some .eq)) := by
  rw [eq_pair, Value.isEqual_eq_order hv.notNull hw.notNull]
  cases v.order w <;> rfl

section Ordered

variable {name : String} {wanted : Ordering → Bool}

/-- Values that are no truth values compare as wanted if their order is one of the wanted ones. -/
lemma ordered_pair (hv : ∀ b, v ≠ .bool b) (hw : ∀ b, w ≠ .bool b) :
    ordered name wanted [v, w] = (v.order w).map fun o => Value.bool (o.any wanted) := by
  rw [ordered]
  · cases v.order w <;> rfl
  · exact hv
  · exact hw

lemma ordered_bool_left (b : Bool) : ordered name wanted [.bool b, w] = .error .unordered := rfl

lemma ordered_bool_right (b : Bool) : ordered name wanted [v, .bool b] = .error .unordered := by
  cases v <;> rfl

/-- A comparison by order fails as equality does, with the same message. -/
lemma ordered_eq_error_iff {e : FunctionError} (hv : v.Ordinary) (hw : w.Ordinary) :
    ordered name wanted [v, w] = .error e ↔ eq [v, w] = .error e := by
  rw [ordered_pair hv.notBool hw.notBool, eq_pair_of_ordinary hv hw]
  cases v.order w <;> simp [Except.map]

/-- Values that are not ordered the one way are ordered the other way round. -/
lemma ordered_swap {name' : String} {wanted' : Ordering → Bool}
    (h : ∀ o : Ordering, wanted o = wanted' o.swap) :
    ordered name wanted [v, w] = ordered name' wanted' [w, v] := by
  by_cases hv : ∃ b, v = .bool b
  · obtain ⟨b, rfl⟩ := hv
    rw [ordered_bool_left, ordered_bool_right]
  by_cases hw : ∃ b, w = .bool b
  · obtain ⟨b, rfl⟩ := hw
    rw [ordered_bool_left, ordered_bool_right]
  rw [not_exists] at hv hw
  rw [ordered_pair hv hw, ordered_pair hw hv, Value.order_swap v w]
  rcases v.order w with e | (_ | o)
  · rfl
  · rfl
  · exact congrArg (fun isWanted => Except.ok (Value.bool isWanted)) (h o)

end Ordered

/-- An order is less, equal or greater. -/
lemma count_rank (o : Ordering) :
    [o.isLT, decide (some o = some .eq), o.isGT].count true = 1 := by
  cases o <;> rfl

/-- The order of two values decides about all functions. -/
lemma rank_of_order {o : Option Ordering} (hv : v.Ordinary) (hw : w.Ordinary)
    (ho : v.order w = .ok o) :
    lt [v, w] = .ok (.bool (o.any (·.isLT))) ∧ gt [v, w] = .ok (.bool (o.any (·.isGT))) ∧
      le [v, w] = .ok (.bool (o.any (·.isLT) || decide (o = some .eq))) ∧
      ge [v, w] = .ok (.bool (o.any (·.isGT) || decide (o = some .eq))) := by
  simp only [lt, gt, le, ge, ordered_pair hv.notBool hw.notBool, ho]
  rcases o with _ | (_ | _ | _) <;> exact ⟨rfl, rfl, rfl, rfl⟩

/-- Where equality has an answer, so have all orders, and at most one of less, equal and greater
holds. None does only where a value is no number. -/
lemma rank_of_eq {isEq : Bool} (hv : v.Ordinary) (hw : w.Ordinary)
    (heq : eq [v, w] = .ok (.bool isEq)) :
    ∃ isLt isGt, lt [v, w] = .ok (.bool isLt) ∧ gt [v, w] = .ok (.bool isGt) ∧
      le [v, w] = .ok (.bool (isLt || isEq)) ∧ ge [v, w] = .ok (.bool (isGt || isEq)) ∧
      [isLt, isEq, isGt].count true ≤ 1 ∧
      ([isLt, isEq, isGt].count true = 0 →
        ∃ x : Float, (v = .float x ∨ w = .float x) ∧ x.isNaN = true) := by
  rw [eq_pair_of_ordinary hv hw] at heq
  cases ho : v.order w with
  | error e =>
    rw [ho] at heq
    cases heq
  | ok o =>
    rw [ho] at heq
    cases heq
    obtain ⟨hlt, hgt, hle, hge⟩ := rank_of_order hv hw ho
    refine ⟨_, _, hlt, hgt, hle, hge, ?_⟩
    cases o with
    | none => exact ⟨Nat.zero_le 1, fun _ => Value.exists_isNaN_of_order ho⟩
    | some o =>
      have hcount := count_rank o
      exact ⟨Nat.le_of_eq hcount, fun hzero => absurd (hcount.symm.trans hzero) Nat.one_ne_zero⟩

/-- Of two values of an ordered kind exactly one of less, equal and greater holds. -/
lemma rank_of_sameOrdered (h : v.SameOrdered w) : ∃ isLt isEq isGt,
    lt [v, w] = .ok (.bool isLt) ∧ eq [v, w] = .ok (.bool isEq) ∧ gt [v, w] = .ok (.bool isGt) ∧
      [isLt, isEq, isGt].count true = 1 := by
  obtain ⟨o, ho⟩ := h.order
  obtain ⟨hlt, hgt, -, -⟩ := rank_of_order h.ordinary_left h.ordinary_right ho
  refine ⟨_, _, _, hlt, ?_, hgt, count_rank o⟩
  rw [eq_pair_of_ordinary h.ordinary_left h.ordinary_right, ho]
  rfl

/-- The comparison functions agree with each other. -/
theorem comparisons_coherent :
    (∀ f ∈ [("eq", eq), ("ne", ne), ("lt", lt), ("le", le), ("gt", gt), ("ge", ge)],
      builtins.get? f.1 = some f.2) ∧
    Coherent eq ne lt le gt ge := by
  constructor
  · simp only [List.forall_mem_cons]
    exact ⟨rfl, rfl, rfl, rfl, rfl, rfl, by simp⟩
  constructor
  case ne_eq =>
    intro a b
    exact ⟨a.isEqual b, eq_pair, ne_pair⟩
  case error_iff =>
    intro a b ha hb g hg e
    simp only [List.mem_cons, List.not_mem_nil, or_false] at hg
    rcases hg with rfl | rfl | rfl | rfl <;> exact ordered_eq_error_iff ha hb
  case rank =>
    intro a b isEq
    exact rank_of_eq
  case total =>
    intro a b
    exact rank_of_sameOrdered
  case swap =>
    intro a b
    apply ordered_swap
    intro o
    cases o <;> rfl
  case any_true_iff =>
    intro a bs hbs
    simp only [eq_of_ne_nil hbs, eq_pair, map_bool_eq_ok_iff, map_bool_eq_error_iff]
    exact Value.equalsAny_eq_true_iff
  case any_error_iff =>
    intro a bs hbs
    simp only [eq_of_ne_nil hbs, eq_pair, map_bool_eq_ok_iff, map_bool_eq_error_iff]
    exact Value.equalsAny_eq_error_iff
  case any_false =>
    intro a bs hbs htrue herror
    rw [eq_of_ne_nil hbs] at htrue herror ⊢
    generalize a.equalsAny bs = result at htrue herror ⊢
    rcases result with e | (_ | _)
    · exact absurd ⟨e, rfl⟩ herror
    · rfl
    · exact absurd rfl htrue

/-- A text that is not comparable with a number is not reached after an equal number. -/
theorem comparisons_coherent_of_numbers :
    (∃ isLt isGt, lt [.int 1, .int 2] = .ok (.bool isLt) ∧ gt [.int 1, .int 2] = .ok (.bool isGt) ∧
      le [.int 1, .int 2] = .ok (.bool (isLt || false)) ∧
      [isLt, false, isGt].count true ≤ 1) ∧
    eq [.int 1, .int 2, .int 1, .string "a"] = .ok (.bool true) := by
  have hordinary (n : Int64) : (Value.int n).Ordinary := by
    constructor <;> simp
  constructor
  · have heq : eq [.int 1, .int 2] = .ok (.bool false) := by rfl
    obtain ⟨isLt, isGt, hlt, hgt, hle, -, hcount, -⟩ :=
      comparisons_coherent.2.rank _ _ _ (hordinary 1) (hordinary 2) heq
    exact ⟨isLt, isGt, hlt, hgt, hle, hcount⟩
  · apply (comparisons_coherent.2.any_true_iff _ _ (List.cons_ne_nil _ _)).mpr
    refine ⟨[.int 2], .int 1, [.string "a"], rfl, rfl, ?_⟩
    rintro b hb ⟨e, he⟩
    rw [List.mem_singleton] at hb
    subst hb
    cases he

end Function

end SafeQuery
