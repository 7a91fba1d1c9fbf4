import SafeQuery.Proofs.Execution.Piping

/-!
# Functions that stop early

A call of `and` or `or` evaluates its operands up to the first one whose value decides, where the
functions themselves look for this value among all that they are given. `call_stopsEarly` says that
this makes no difference to the value as long as the operands have values, and that an operand
without a value matters only if no operand before it decides.
-/

namespace SafeQuery

/-- The value holds, or it does not, as `stop` says. -/
def Value.decides (stop : Bool) (v : Value) : Bool := v.isTrue == stop

/-- The values up to the first one that decides. -/
def upToDeciding (stop : Bool) : List Value → List Value
  | []      => []
  | v :: vs => if v.decides stop then [v] else v :: upToDeciding stop vs

lemma upToDeciding_of_find?_eq_none {stop : Bool} {vs : List Value}
    (h : vs.find? (·.decides stop) = none) : upToDeciding stop vs = vs := by
  induction vs with
  | nil => rfl
  | cons v vs ih =>
    simp only [List.find?_eq_none, List.forall_mem_cons] at h
    rw [upToDeciding, if_neg h.1, ih (List.find?_eq_none.mpr h.2)]

namespace Function

/-- The first value that decides, or the last one. -/
def decided? (stop : Bool) (vs : List Value) : Option Value :=
  (vs.find? (·.decides stop)).or vs.getLast?

/-- The first value that decides, or the last one if none does. -/
lemma decided?_cons (stop : Bool) (v : Value) (vs : List Value) :
    decided? stop (v :: vs) =
      some (((v :: vs).find? (·.decides stop)).getD
        ((v :: vs).getLast (List.cons_ne_nil v vs))) := by
  rw [decided?, List.getLast?_eq_some_getLast (List.cons_ne_nil v vs)]
  cases (v :: vs).find? (·.decides stop) <;> rfl

lemma decided?_eq_none_iff {stop : Bool} {vs : List Value} : decided? stop vs = none ↔ vs = [] := by
  cases vs with
  | nil => simp [decided?]
  | cons v vs => simp [decided?_cons]

/-- The conjunction is decided by the first value that does not hold. -/
lemma conj_eq (vs : List Value) :
    conj vs = (decided? false vs).elim (.error (.noArgument "and")) .ok := by
  have hdecides : (fun v : Value => !v.isTrue) = (·.decides false) := by
    funext v
    simp [Value.decides]
  cases vs with
  | nil => rfl
  | cons v vs => rw [conj, hdecides, decided?_cons, Option.elim_some]

/-- The disjunction is decided by the first value that holds. -/
lemma disj_eq (vs : List Value) :
    disj vs = (decided? true vs).elim (.error (.noArgument "or")) .ok := by
  have hdecides : (fun v : Value => v.isTrue) = (·.decides true) := by
    funext v
    simp [Value.decides]
  cases vs with
  | nil => rfl
  | cons v vs => rw [disj, hdecides, decided?_cons, Option.elim_some]

/-- A value behind values that do not decide is the last one, whether it decides or not. -/
lemma decided?_append {stop : Bool} {vs : List Value} (h : vs.find? (·.decides stop) = none)
    (last : Option Value) : decided? stop (vs ++ last.toList) = last.or vs.getLast? := by
  cases last with
  | none => simp [decided?, h]
  | some w => by_cases hw : w.decides stop = true <;> simp [decided?, h, hw]

/-- A value that decides counts, whatever comes behind it. -/
lemma decided?_append_of_find? {stop : Bool} {vs : List Value} {v : Value}
    (h : vs.find? (·.decides stop) = some v) (ws : List Value) :
    decided? stop (vs ++ ws) = some v := by
  simp [decided?, h]

end Function

/-- The builtin functions that stop early yield the value that decides, or the last one. -/
lemma builtins_get?_of_isShort {name : String} (h : isShort name = true) :
    ∃ g, builtins.get? name = some g ∧ ∀ vs, g vs =
      (Function.decided? (name = "or") vs).elim (.error (.noArgument name)) .ok := by
  simp only [isShort, Bool.or_eq_true, decide_eq_true_eq] at h
  rcases h with rfl | rfl
  · exact ⟨Function.conj, rfl, Function.conj_eq⟩
  · exact ⟨Function.disj, rfl, Function.disj_eq⟩

/-! ### Evaluations one after the other -/

namespace Eval

variable {s t : Scope} {e : Eval Value} {es : List (Eval Value)} {vs : List Value}

/-- A row of evaluations yields values if the first yields one and the others do behind it. -/
lemma run_mapM_cons_eq_ok :
    ((e :: es).mapM id).run s = .ok (vs, t) ↔
      ∃ v s' ws, e.run s = .ok (v, s') ∧ (es.mapM id).run s' = .ok (ws, t) ∧ vs = v :: ws := by
  rw [List.mapM_cons, run_bind_eq_ok]
  constructor
  · rintro ⟨v, s', hv, h⟩
    obtain ⟨ws, t', hws, h⟩ := run_bind_eq_ok.mp h
    cases h
    exact ⟨v, s', ws, hv, hws, rfl⟩
  · rintro ⟨v, s', ws, hv, hws, rfl⟩
    exact ⟨v, s', hv, run_bind_eq_ok.mpr ⟨ws, t, hws, rfl⟩⟩

/-- There are as many values as operands. -/
lemma length_of_run_mapM (h : (es.mapM id).run s = .ok (vs, t)) : vs.length = es.length := by
  induction es generalizing s vs with
  | nil =>
    cases h
    rfl
  | cons e es ih =>
    obtain ⟨v, s', ws, -, hes, rfl⟩ := run_mapM_cons_eq_ok.mp h
    rw [List.length_cons, List.length_cons, ih hes]

/-- One evaluation after the other fails where the first one does, or the second one. -/
lemma run_bind_eq_error {α β : Type} {e : Eval α} {k : α → Eval β} {cause : ExecutionError} :
    (e >>= k).run s = .error cause ↔
      e.run s = .error cause ∨ ∃ a t, e.run s = .ok (a, t) ∧ (k a).run t = .error cause := by
  rw [StateT.run_bind]
  cases e.run s with
  | error cause' => simp [bind, Except.bind]
  | ok r =>
    obtain ⟨a, t⟩ := r
    simp [bind, Except.bind]

/-- If evaluations fail, then because of the first of them that does. -/
lemma exists_of_run_mapM_eq_error {cause : ExecutionError}
    (h : (es.mapM id).run s = .error cause) :
    ∃ before e after vs t, es = before ++ e :: after ∧ (before.mapM id).run s = .ok (vs, t) ∧
      e.run t = .error cause := by
  induction es generalizing s with
  | nil => cases h
  | cons d es ih =>
    rw [List.mapM_cons, run_bind_eq_error] at h
    rcases h with hd | ⟨v, s', hd, h⟩
    · exact ⟨[], d, es, [], s, rfl, rfl, hd⟩
    · rcases run_bind_eq_error.mp h with hes | ⟨ws, t, -, h⟩
      · obtain ⟨before, e, after, vs, t, rfl, hbefore, he⟩ := ih hes
        exact ⟨d :: before, e, after, v :: vs, t, rfl,
          run_mapM_cons_eq_ok.mpr ⟨v, s', vs, hd, hbefore, rfl⟩, he⟩
      · cases h

end Eval

namespace Frame

open Eval

variable {f : Frame} {s t : Scope} {stop : Bool} {last : Option Value} {w : Value}
  {es rest : List (Eval Value)} {vs : List Value}

/-- Evaluations are passed if their values do not decide. -/
lemma run_firstThat_passed (h : (es.mapM id).run s = .ok (vs, t))
    (hvs : vs.find? (·.decides stop) = none) :
    (firstThat stop last w (es ++ rest)).run s =
      (firstThat stop last (vs.getLast?.getD w) rest).run t := by
  induction es generalizing s vs w with
  | nil =>
    cases h
    rfl
  | cons e es ih =>
    obtain ⟨v, s', ws, he, hes, rfl⟩ := run_mapM_cons_eq_ok.mp h
    simp only [List.find?_eq_none, List.forall_mem_cons] at hvs
    have hv : ¬v.isTrue = stop := by simpa [Value.decides] using hvs.1
    have hlast : (v :: ws).getLast?.getD w = ws.getLast?.getD v := by
      rw [List.getLast?_cons]
      rfl
    rw [List.cons_append, firstThat, StateT.run_bind, he]
    change (if v.isTrue = stop then pure v else firstThat stop last v (es ++ rest)).run s' = _
    rw [if_neg hv, ih hes (List.find?_eq_none.mpr hvs.2), hlast]

/-- Evaluations are followed up to the first one whose value decides. -/
lemma run_firstThat_decided (last : Option Value) (w : Value) (rest : List (Eval Value))
    (h : (es.mapM id).run s = .ok (vs, t)) {v : Value}
    (hv : vs.find? (·.decides stop) = some v) :
    ∃ t', (firstThat stop last w (es ++ rest)).run s = .ok (v, t') ∧
      ((es.take (upToDeciding stop vs).length).mapM id).run s =
        .ok (upToDeciding stop vs, t') := by
  induction es generalizing s vs w with
  | nil =>
    cases h
    cases hv
  | cons e es ih =>
    obtain ⟨u, s', ws, he, hes, rfl⟩ := run_mapM_cons_eq_ok.mp h
    rw [List.cons_append, firstThat, StateT.run_bind, he, upToDeciding]
    change ∃ t', (if u.isTrue = stop then pure u else firstThat stop last u (es ++ rest)).run s' =
      .ok (v, t') ∧ _
    by_cases hu : u.decides stop = true
    · have hstop : u.isTrue = stop := by simpa [Value.decides] using hu
      obtain rfl : u = v := by simpa [hu] using hv
      rw [if_pos hstop, if_pos hu]
      exact ⟨s', rfl, run_mapM_cons_eq_ok.mpr ⟨u, s', [], he, rfl, rfl⟩⟩
    · have hstop : ¬u.isTrue = stop := by simpa [Value.decides] using hu
      rw [List.find?_cons_of_neg hu] at hv
      obtain ⟨t', hrun, htake⟩ := ih u hes hv
      rw [if_neg hstop, if_neg hu]
      exact ⟨t', hrun, run_mapM_cons_eq_ok.mpr ⟨u, s', _, he, htake, rfl⟩⟩

/-! ### Calls -/

/-- The values of operands, one after the other. -/
def valuesOf (f : Frame) (os : List Operand) : Eval (List Value) := (f.evalOperands os).mapM id

lemma evalOperands_eq_map (os : List Operand) : f.evalOperands os = os.map f.evalOperand := by
  induction os with
  | nil => rw [evalOperands, List.map_nil]
  | cons o os ih => rw [evalOperands, ih, List.map_cons]

lemma evalOperands_ne_nil_iff {os : List Operand} : f.evalOperands os ≠ [] ↔ os ≠ [] := by
  rw [evalOperands_eq_map, ne_eq, List.map_eq_nil_iff]

lemma evalOperands_take (os : List Operand) (n : Nat) :
    f.evalOperands (os.take n) = (f.evalOperands os).take n := by
  rw [evalOperands_eq_map, evalOperands_eq_map, List.map_take]

/-- If operands have no values, then because of the first of them that has none. -/
lemma exists_of_valuesOf_eq_error {os : List Operand} {cause : ExecutionError}
    (h : (f.valuesOf os).run s = .error cause) :
    ∃ before o after vs t, os = before ++ o :: after ∧
      (f.valuesOf before).run s = .ok (vs, t) ∧ (f.evalOperand o).run t = .error cause := by
  obtain ⟨before, e, after, vs, t, heq, hbefore, he⟩ := exists_of_run_mapM_eq_error h
  rw [evalOperands_eq_map] at heq
  obtain ⟨os₁, os₂, rfl, rfl, h₂⟩ := List.map_eq_append_iff.mp heq
  obtain ⟨o, after', rfl, rfl, rfl⟩ := List.map_eq_cons_iff.mp h₂
  refine ⟨os₁, o, after', vs, t, rfl, ?_, he⟩
  rw [valuesOf, evalOperands_eq_map]
  exact hbefore

lemma length_of_valuesOf {os : List Operand} (h : (f.valuesOf os).run s = .ok (vs, t)) :
    vs.length = os.length := by
  rw [length_of_run_mapM h, evalOperands_eq_map, List.length_map]

section Call

variable {name : String} {before : List Operand}

/-- A call has the value of the first operand that decides, and behind it no operand is
evaluated. -/
lemma run_call_of_decided (hname : f.stopsEarly name = true) (c : Command)
    (after : List Operand) (last : Option Value)
    (h : (f.valuesOf before).run s = .ok (vs, t)) {v : Value}
    (hv : vs.find? (·.decides (name = "or")) = some v) :
    ∃ t', (f.call c name (f.evalOperands (before ++ after)) last).run s = .ok (v, t') ∧
      (f.valuesOf (before.take (upToDeciding (name = "or") vs).length)).run s =
        .ok (upToDeciding (name = "or") vs, t') := by
  have hne : before ++ after ≠ [] := by
    rintro hnil
    obtain ⟨rfl, -⟩ := List.append_eq_nil_iff.mp hnil
    cases h
    cases hv
  obtain ⟨t', hrun, htake⟩ := run_firstThat_decided last .null (f.evalOperands after) h hv
  refine ⟨t', ?_, ?_⟩
  · rw [call_eq_firstThat hname c (.inl (evalOperands_ne_nil_iff.mpr hne)), evalOperands_append]
    exact hrun
  · rw [valuesOf, evalOperands_take]
    exact htake

/-- Operands that do not decide are passed. -/
lemma run_call_of_passed (hname : f.stopsEarly name = true) (c : Command)
    (after : List Operand) (last : Option Value)
    (h : (f.valuesOf before).run s = .ok (vs, t))
    (hvs : vs.find? (·.decides (name = "or")) = none)
    (hne : before ++ after ≠ [] ∨ last.isSome = true) :
    (f.call c name (f.evalOperands (before ++ after)) last).run s =
      (firstThat (name = "or") last (vs.getLast?.getD .null) (f.evalOperands after)).run t := by
  rw [call_eq_firstThat hname c (hne.imp_left evalOperands_ne_nil_iff.mpr), evalOperands_append]
  exact run_firstThat_passed h hvs

/-- If all operands have values, a call has the value of the first one that decides, or the value
that is handed over, or the one of the last operand. -/
lemma run_call_of_values (hname : f.stopsEarly name = true) (c : Command) {os : List Operand}
    (h : (f.valuesOf os).run s = .ok (vs, t)) {v : Value}
    (hv : Function.decided? (name = "or") (vs ++ last.toList) = some v) :
    ∃ t', (f.call c name (f.evalOperands os) last).run s = .ok (v, t') ∧
      (f.valuesOf (os.take (upToDeciding (name = "or") vs).length)).run s =
        .ok (upToDeciding (name = "or") vs, t') := by
  cases hfind : vs.find? (·.decides (name = "or")) with
  | some u =>
    rw [Function.decided?_append_of_find? hfind] at hv
    cases hv
    have hcall := run_call_of_decided hname c [] last h hfind
    rwa [List.append_nil] at hcall
  | none =>
    rw [Function.decided?_append hfind] at hv
    have hne : os ++ [] ≠ [] ∨ last.isSome = true := by
      cases last with
      | some w => exact .inr rfl
      | none =>
        left
        rintro hos
        rw [List.append_nil] at hos
        subst hos
        cases h
        cases hv
    have hcall := run_call_of_passed hname c [] last h hfind hne
    have hlast : last.getD (vs.getLast?.getD .null) = v := by
      cases last <;> simp_all
    rw [List.append_nil, evalOperands, firstThat, hlast] at hcall
    rw [upToDeciding_of_find?_eq_none hfind, length_of_valuesOf h, List.take_length]
    exact ⟨t, hcall, h⟩

/-- Without operands and without a value that is handed over, a call fails. -/
lemma run_call_of_no_values (hname : f.stopsEarly name = true) (c : Command) {os : List Operand}
    (h : (f.valuesOf os).run s = .ok (vs, t))
    (hv : Function.decided? (name = "or") (vs ++ last.toList) = none) :
    (f.call c name (f.evalOperands os) last).run s =
      .error (f.commandFault c (.noArgument name)) := by
  obtain ⟨rfl, hlast⟩ := List.append_eq_nil_iff.mp (Function.decided?_eq_none_iff.mp hv)
  obtain rfl : os = [] := List.length_eq_zero_iff.mp (length_of_valuesOf h).symm
  obtain rfl : last = none := by simpa using hlast
  rw [call_of_stopsEarly hname]
  rfl

/-- An operand that is reached and has no value makes a call fail. -/
lemma run_call_of_failed (hname : f.stopsEarly name = true) (c : Command) {o : Operand}
    (after : List Operand) (last : Option Value)
    (h : (f.valuesOf before).run s = .ok (vs, t))
    (hvs : vs.find? (·.decides (name = "or")) = none) {cause : ExecutionError}
    (ho : (f.evalOperand o).run t = .error cause) :
    (f.call c name (f.evalOperands (before ++ o :: after)) last).run s = .error cause := by
  have hne : before ++ o :: after ≠ [] :=
    List.append_ne_nil_of_right_ne_nil before (List.cons_ne_nil o after)
  rw [run_call_of_passed hname c (o :: after) last h hvs (.inl hne), evalOperands, firstThat,
    run_bind_eq_error]
  exact .inl ho

end Call

/-- A call of `and` or `or`, if the environment has no function of this name. If all operands have
values, the call has the value that the builtin function has for them and the value that is handed
over, or it fails with the words of the builtin function. If an operand has no value, the call has
the value of the first operand before it that decides, or else it fails as the operand does. Behind
a value that decides no operand is evaluated. -/
theorem call_stopsEarly (f : Frame) (c : Command) {name : String}
    (hname : f.stopsEarly name = true) (os : List Operand) (last : Option Value) (s : Scope) :
    let called := (f.call c name (f.evalOperands os) last).run s
    let upTo := upToDeciding (name = "or")
    ∃ g, builtins.get? name = some g ∧
      (∀ vs t, (f.valuesOf os).run s = .ok (vs, t) →
        (∀ v, g (vs ++ last.toList) = .ok v → ∃ t', called = .ok (v, t') ∧
          (f.valuesOf (os.take (upTo vs).length)).run s = .ok (upTo vs, t')) ∧
        ∀ e, g (vs ++ last.toList) = .error e → ∃ cause,
          called = .error (f.commandFault c cause) ∧ cause.message = e.message) ∧
      ∀ cause, (f.valuesOf os).run s = .error cause → ∃ before o after vs t,
        os = before ++ o :: after ∧ (f.valuesOf before).run s = .ok (vs, t) ∧
        (f.evalOperand o).run t = .error cause ∧
        (∀ v, vs.find? (·.decides (name = "or")) = some v → ∃ t', called = .ok (v, t') ∧
          (f.valuesOf (before.take (upTo vs).length)).run s = .ok (upTo vs, t')) ∧
        (vs.find? (·.decides (name = "or")) = none → called = .error cause) := by
  intro called upTo
  have hshort : isShort name = true := by
    rw [stopsEarly, Bool.and_eq_true] at hname
    exact hname.1
  obtain ⟨g, hget, hg⟩ := builtins_get?_of_isShort hshort
  refine ⟨g, hget, ?_, ?_⟩
  · intro vs t hvs
    simp only [hg]
    cases hdecided : Function.decided? (name = "or") (vs ++ last.toList) with
    | some u =>
      constructor
      · intro v hv
        cases hv
        exact run_call_of_values hname c hvs hdecided
      · intro e he
        cases he
    | none =>
      constructor
      · intro v hv
        cases hv
      · intro e he
        cases he
        exact ⟨.noArgument name, run_call_of_no_values hname c hvs hdecided, rfl⟩
  · intro cause hcause
    obtain ⟨before, o, after, vs, t, rfl, hbefore, ho⟩ := exists_of_valuesOf_eq_error hcause
    refine ⟨before, o, after, vs, t, rfl, hbefore, ho, ?_, ?_⟩
    · intro v hv
      exact run_call_of_decided hname c (o :: after) last hbefore hv
    · intro hvs
      exact run_call_of_failed hname c after last hbefore hvs ho

/-- The empty list does not hold, so that its first item is never looked up. -/
theorem call_stopsEarly_of_empty :
    let p : Position := ⟨0, 1⟩
    let f : Frame := ⟨⟨.empty, .empty, Literal.postgres, .default⟩, "q", .list []⟩
    let s : Scope := [("$", .null)]
    let first : Operand := .pipeline ⟨p, false, [],
      [⟨p, [.identifier p "index", .dot p, .number ⟨p, "0", some 0, some 0⟩]⟩]⟩
    let os : List Operand := [.dot p, first]
    f.stopsEarly "and" = true ∧ (∃ cause, (f.valuesOf os).run s = .error cause) ∧
      (f.call ⟨p, .identifier p "and" :: os⟩ "and" (f.evalOperands os) none).run s =
        .ok (.list [], s) := by
  intro p f s first os
  have hname : f.stopsEarly "and" = true := by decide
  have hfirst : ∃ cause, (f.valuesOf os).run s = .error cause := ⟨_, rfl⟩
  obtain ⟨cause, hcause⟩ := hfirst
  obtain ⟨-, -, -, hfail⟩ := call_stopsEarly f ⟨p, .identifier p "and" :: os⟩ hname os none s
  obtain ⟨before, o, after, vs, t, hos, hvs, ho, hdecided, -⟩ := hfail cause hcause
  have hbefore : before = [.dot p] := by
    rcases before with _ | ⟨b, _ | ⟨b', bs⟩⟩
    · obtain ⟨rfl, -⟩ := List.cons.inj hos
      cases ho
    · obtain ⟨rfl, -⟩ := List.cons.inj hos
      rfl
    · have hlength := congrArg List.length hos
      simp [os] at hlength
  subst hbefore
  cases hvs
  obtain ⟨t', hcall, htake⟩ := hdecided (.list []) rfl
  cases htake
  exact ⟨hname, ⟨cause, hcause⟩, hcall⟩

end Frame

end SafeQuery
