import SafeQuery.Proofs.Execution.Moving
import SafeQuery.Proofs.Tree.Scoping

/-!
# Piping and nesting

A value is handed to a function at the end of a pipeline, or the pipeline stands in parentheses as
the last operand of the function. Without declarations and assignments both leave the variables as
they are, so that it does not matter what is evaluated first: `evalPipeline_nested` says that what
the first form yields the second one does too, and that no other function than `and` and `or` makes
a difference between the two.
-/

namespace SafeQuery

mutual

/-- No pipeline in the operand declares variables or gives them other values. -/
def Operand.bindsNothing : Operand → Bool
  | .chain _ base _                => base.bindsNothing
  | .pipeline ⟨_, _, declared, cs⟩ => declared.isEmpty && commandsBindNothing cs
  | _                              => true

def operandsBindNothing : List Operand → Bool
  | []      => true
  | o :: os => o.bindsNothing && operandsBindNothing os

def commandsBindNothing : List (CommandOf Operand) → Bool
  | []            => true
  | ⟨_, os⟩ :: cs => operandsBindNothing os && commandsBindNothing cs

end

mutual

lemma Operand.declared_eq_nil {o : Operand} (h : o.bindsNothing = true) :
    ∀ p ∈ o.within, p.declared = [] := by
  match o with
  | .chain _ base _ => exact base.declared_eq_nil h
  | .pipeline ⟨_, _, declared, cs⟩ =>
    rw [Operand.bindsNothing, Bool.and_eq_true, List.isEmpty_iff] at h
    exact List.forall_mem_append.mpr ⟨commands_declared_eq_nil h.2, by simpa using h.1⟩
  | .dot _ | .nil _ | .bool _ _ | .number _ | .string _ _ _ | .field _ _ | .var _
  | .identifier _ _ => simp [Operand.within]

/-- The pipelines within operands that bind nothing declare nothing. -/
lemma operands_declared_eq_nil {os : List Operand} (h : operandsBindNothing os = true) :
    ∀ p ∈ operandsWithin os, p.declared = [] := by
  match os with
  | []     => simp [operandsWithin]
  | o :: _ =>
    rw [operandsBindNothing, Bool.and_eq_true] at h
    exact List.forall_mem_append.mpr ⟨o.declared_eq_nil h.1, operands_declared_eq_nil h.2⟩

lemma commands_declared_eq_nil {cs : List (CommandOf Operand)} (h : commandsBindNothing cs = true) :
    ∀ p ∈ commandsWithin cs, p.declared = [] := by
  match cs with
  | []          => simp [commandsWithin]
  | ⟨_, _⟩ :: _ =>
    rw [commandsBindNothing, Bool.and_eq_true] at h
    exact List.forall_mem_append.mpr ⟨operands_declared_eq_nil h.1, commands_declared_eq_nil h.2⟩

end

/-! ### Evaluations that leave the variables -/

namespace Eval

variable {α β : Type} {e : Eval α} {s : Scope}

/-- The evaluation leaves the variables as they are. -/
def Leaves (e : Eval α) : Prop := ∀ s a s', e.run s = .ok (a, s') → s' = s

lemma leaves_iff_moves : Leaves e ↔ Moves Eq e :=
  forall₄_congr fun _ _ _ _ => eq_comm

/-- What follows an evaluation that leaves the variables starts from the same ones. -/
lemma Leaves.run_bind_eq_ok (he : Leaves e) {k : α → Eval β} {r : β × Scope} :
    (e >>= k).run s = .ok r ↔ ∃ a, e.run s = .ok (a, s) ∧ (k a).run s = .ok r := by
  rw [Eval.run_bind_eq_ok]
  constructor
  · rintro ⟨a, s', h, hk⟩
    obtain rfl := he s a s' h
    exact ⟨a, h, hk⟩
  · rintro ⟨a, h, hk⟩
    exact ⟨a, s, h, hk⟩

lemma leaves_mapM {es : List (Eval Value)} (h : ∀ e ∈ es, Leaves e) : Leaves (es.mapM id) :=
  leaves_iff_moves.mpr (moves_mapM fun e he => leaves_iff_moves.mp (h e he))

end Eval

namespace Frame

open Eval

variable {f : Frame} {s : Scope}

lemma call_leaves {c : Command} {name : String} {es : List (Eval Value)} {last : Option Value}
    (h : ∀ e ∈ es, Leaves e) : Leaves (f.call c name es last) :=
  leaves_iff_moves.mpr (call_moves fun e he => leaves_iff_moves.mp (h e he))

lemma binds_eq_of_declared {p : Pipeline} (h : p.declared = []) : f.Binds Eq p := by
  intro value
  rw [h]
  exact moves_pure ()

/-- Operands that bind nothing leave the variables as they are. -/
lemma evalOperands_leaves (os : List Operand) (h : operandsBindNothing os = true) :
    ∀ e ∈ f.evalOperands os, Leaves e := by
  have hbinds : ∀ p ∈ operandsWithin os, f.Binds Eq p :=
    fun p hp => binds_eq_of_declared (operands_declared_eq_nil h p hp)
  exact fun e he => leaves_iff_moves.mpr (evalOperands_moves os hbinds e he)

lemma evalCommands_leaves (before : Option (Command × Value)) (cs : List (CommandOf Operand))
    (h : commandsBindNothing cs = true) : Leaves (f.evalCommands before cs) := by
  have hbinds : ∀ p ∈ commandsWithin cs, f.Binds Eq p :=
    fun p hp => binds_eq_of_declared (commands_declared_eq_nil h p hp)
  exact leaves_iff_moves.mpr (evalCommands_moves before cs hbinds)

/-! ### Calls -/

/-- The function evaluates no more operands than it needs. -/
def stopsEarly (f : Frame) (name : String) : Bool :=
  isShort name && !f.env.functions.contains name

/-- A function that stops early wants one operand, or a value that is handed to it. -/
lemma call_of_stopsEarly {name : String} (h : f.stopsEarly name = true) (c : Command)
    (es : List (Eval Value)) (last : Option Value) :
    f.call c name es last =
      if es.isEmpty && last.isNone then throw (f.commandFault c (.noArgument name))
      else firstThat (name = "or") last .null es := by
  have hshort : ((decide (name = "and") || decide (name = "or")) &&
      !f.env.functions.contains name) = true := h
  have hhook : name ≠ hookName := by
    rintro rfl
    simp [hookName] at hshort
  rw [call, if_neg hhook, if_pos hshort]

/-- Any operands at all, or a value that is handed over, are evaluated until one decides. -/
lemma call_eq_firstThat {name : String} (h : f.stopsEarly name = true) (c : Command)
    {es : List (Eval Value)} {last : Option Value} (hne : es ≠ [] ∨ last.isSome = true) :
    f.call c name es last = firstThat (name = "or") last .null es := by
  have hsome : (es.isEmpty && last.isNone) = false := by
    rcases hne with hes | hlast
    · simp [List.isEmpty_eq_false_iff.mpr hes]
    · simp [Option.isNone_eq_false_iff.mpr hlast]
  rw [call_of_stopsEarly h, if_neg (by simp [hsome])]

/-- What a function that evaluates all of its operands yields for their values. -/
def applied? (f : Frame) (name : String) (args : List Value) : Option Value :=
  if name = hookName then
    match args with
    | [v] => (f.env.encoder v).toOption.map .raw
    | _   => none
  else ((f.env.functions.get? name).or (builtins.get? name)).bind fun g => (g args).toOption

/-- The encoder yields a literal, if it yields anything. -/
lemma encode_eq_ok_iff {c : Command} {v w : Value} :
    f.encode c v = .ok w ↔ (f.env.encoder v).toOption.map .raw = some w := by
  unfold encode
  cases f.env.encoder v <;> simp [Except.toOption]

/-- What reads no variables yields its value and leaves the variables. -/
lemma run_lift_eq_ok {α : Type} {x : Except ExecutionError α} {r : α × Scope} :
    (liftM x : Eval α).run s = .ok r ↔ x = .ok r.1 ∧ r.2 = s := by
  obtain ⟨a, t⟩ := r
  cases x with
  | error cause => exact ⟨fun h => (by cases h), fun h => (by cases h.1)⟩
  | ok b =>
    constructor
    · intro h
      cases h
      exact ⟨rfl, rfl⟩
    · rintro ⟨h, rfl⟩
      cases h
      rfl

/-- A function that evaluates all of its operands yields a value where it does so for the values of
the operands and the value that is handed to it, which comes last. -/
lemma run_call_eq_ok {c : Command} {name : String} (hname : f.stopsEarly name = false)
    {es : List (Eval Value)} (hes : ∀ e ∈ es, Leaves e) {last : Option Value}
    {r : Value × Scope} :
    (f.call c name es last).run s = .ok r ↔
      ∃ vs, (es.mapM id).run s = .ok (vs, s) ∧
        f.applied? name (vs ++ last.toList) = some r.1 ∧ r.2 = s := by
  have hshort : ((decide (name = "and") || decide (name = "or")) &&
      !f.env.functions.contains name) = false := hname
  unfold call applied?
  by_cases hhook : name = hookName
  · simp only [if_pos hhook]
    rw [(leaves_mapM hes).run_bind_eq_ok]
    refine exists_congr fun vs => and_congr_right fun _ => ?_
    rcases vs ++ last.toList with _ | ⟨v, _ | ⟨w, ws⟩⟩
    · exact ⟨fun h => (by cases h), fun h => (by cases h.1)⟩
    · dsimp only
      rw [run_lift_eq_ok, encode_eq_ok_iff]
    · exact ⟨fun h => (by cases h), fun h => (by cases h.1)⟩
  · simp only [if_neg hhook, hshort, Bool.false_eq_true, if_false]
    cases (f.env.functions.get? name).or (builtins.get? name) with
    | none =>
      constructor
      · intro h
        cases h
      · rintro ⟨_, _, h, _⟩
        cases h
    | some g =>
      dsimp only
      rw [(leaves_mapM hes).run_bind_eq_ok]
      refine exists_congr fun vs => and_congr_right fun _ => ?_
      dsimp only [Option.bind_some]
      obtain ⟨w, t⟩ := r
      cases g (vs ++ last.toList) with
      | error cause => exact ⟨fun h => (by cases h), fun h => (by cases h.1)⟩
      | ok v =>
        constructor
        · intro h
          cases h
          exact ⟨rfl, rfl⟩
        · rintro ⟨h, rfl⟩
          cases h
          rfl

/-- In a pipeline a call yields what the function yields for the operands and the value of the
commands before, also where it is nothing but the call of the encoder. -/
lemma run_evalNext_eq_ok (source : Command) {pos at₁ : Position} {name : String}
    {os : List Operand} {v : Value} {r : Value × Scope} :
    (f.evalNext (some (source, v)) ⟨pos, .identifier at₁ name :: os⟩).run s = .ok r ↔
      (f.call ⟨pos, .identifier at₁ name :: os⟩ name (f.evalOperands os) (some v)).run s =
        .ok r := by
  unfold evalNext
  split_ifs with hbare
  · -- the two report a failure at different commands
    cases os with
    | cons o os => simp [CommandOf.isBare] at hbare
    | nil =>
      obtain rfl : name = hookName := by simpa [CommandOf.isBare] using hbare
      rw [evalOperands, run_call_eq_ok (by simp [stopsEarly, isShort, hookName]) (by simp)]
      dsimp only
      rw [run_lift_eq_ok, encode_eq_ok_iff]
      constructor
      · exact fun h => ⟨[], rfl, by simpa [applied?] using h⟩
      · rintro ⟨vs, hvs, h⟩
        cases hvs
        simpa [applied?] using h
  · dsimp only [Option.map_some]
    rw [evalCommand]

/-- A value that is handed over counts like the last operand. -/
lemma run_firstThat_append {stop : Bool} {p : Eval Value} {v w : Value} {es : List (Eval Value)}
    (hes : ∀ e ∈ es, Leaves e) (hp : p.run s = .ok (v, s)) {r : Value × Scope}
    (h : (firstThat stop (some v) w es).run s = .ok r) :
    (firstThat stop none w (es ++ [p])).run s = .ok r := by
  induction es generalizing w with
  | nil =>
    have hlast : (firstThat stop none w [p]).run s = .ok (v, s) := by
      rw [firstThat, run_bind_eq_ok]
      refine ⟨v, s, hp, ?_⟩
      split <;> rfl
    rw [List.nil_append, hlast]
    exact h
  | cons e es ih =>
    have he := hes e List.mem_cons_self
    rw [firstThat, he.run_bind_eq_ok] at h
    rw [List.cons_append, firstThat, he.run_bind_eq_ok]
    obtain ⟨u, hu, h⟩ := h
    refine ⟨u, hu, ?_⟩
    split_ifs at h ⊢ with hstop
    · exact h
    · exact ih (fun d hd => hes d (List.mem_cons_of_mem _ hd)) h

/-! ### Piping and nesting -/

lemma evalOperands_append (os os' : List Operand) :
    f.evalOperands (os ++ os') = f.evalOperands os ++ f.evalOperands os' := by
  induction os with
  | nil => simp [evalOperands]
  | cons o os ih => rw [List.cons_append, evalOperands, ih, evalOperands, List.cons_append]

/-- Without variables a pipeline in parentheses is evaluated like its commands. -/
lemma evalOperand_parentheses (pos : Position) (assigns : Bool) (cs : List Command) :
    f.evalOperand (.pipeline ⟨pos, assigns, [], cs⟩) = f.evalCommands none cs := by
  rw [evalOperand]
  have hbind : ∀ value, f.bind assigns [] value = pure () := fun _ => rfl
  simp [hbind]

section Nested

variable {cs : List Command} {os : List Operand} {name : String} {pos at₁ : Position}

/-- A call at the end of a pipeline yields what the function yields for the value of the commands
before it, which is handed over. -/
lemma run_piped_eq_ok (hne : cs ≠ []) (hcs : commandsBindNothing cs = true)
    {r : Value × Scope} :
    (f.evalCommands none (cs ++ [⟨pos, .identifier at₁ name :: os⟩])).run s = .ok r ↔
      ∃ v, (f.evalCommands none cs).run s = .ok (v, s) ∧
        (f.call ⟨pos, .identifier at₁ name :: os⟩ name (f.evalOperands os) (some v)).run s =
          .ok r := by
  have hlast := List.getLast?_eq_some_getLast hne
  rw [evalCommands_append f hlast, (evalCommands_leaves none cs hcs).run_bind_eq_ok]
  refine exists_congr fun v => and_congr_right fun _ => ?_
  rw [evalCommands_cons, ← run_evalNext_eq_ok (cs.getLast hne)]
  simp

/-- A pipeline in parentheses is the last operand of a call. -/
lemma evalCommands_nested (at₂ : Position) (assigns : Bool) :
    f.evalCommands none
        [⟨pos, .identifier at₁ name :: (os ++ [.pipeline ⟨at₂, assigns, [], cs⟩])⟩] =
      f.call ⟨pos, .identifier at₁ name :: (os ++ [.pipeline ⟨at₂, assigns, [], cs⟩])⟩ name
        (f.evalOperands os ++ [f.evalCommands none cs]) none := by
  have hbare : CommandOf.isBare hookName
      ⟨pos, .identifier at₁ name :: (os ++ [.pipeline ⟨at₂, assigns, [], cs⟩])⟩ = false := by
    cases os <;> rfl
  rw [evalCommands_cons, evalNext, if_neg (by simp [hbare]), evalCommand, evalOperands_append]
  simp [evalOperands, evalOperand_parentheses]

/-- An operand at the end is evaluated last, from the same variables. -/
lemma run_mapM_concat {es : List (Eval Value)} (hes : ∀ e ∈ es, Leaves e) {p : Eval Value}
    (hp : Leaves p) {vs : List Value} :
    ((es ++ [p]).mapM id).run s = .ok (vs, s) ↔
      ∃ us v, (es.mapM id).run s = .ok (us, s) ∧ p.run s = .ok (v, s) ∧ vs = us ++ [v] := by
  have hlast : ∀ w, ([p].mapM id).run s = .ok (w, s) ↔ ∃ v, p.run s = .ok (v, s) ∧ w = [v] := by
    intro w
    rw [List.mapM_cons, id, hp.run_bind_eq_ok]
    refine exists_congr fun v => and_congr_right fun _ => ?_
    constructor
    · intro h
      cases h
      rfl
    · rintro rfl
      rfl
  have hleaves : Leaves ([p].mapM id) := leaves_mapM (by simpa using hp)
  rw [List.mapM_append, (leaves_mapM hes).run_bind_eq_ok]
  refine exists_congr fun us => ?_
  rw [hleaves.run_bind_eq_ok]
  constructor
  · rintro ⟨hus, w, hw, h⟩
    obtain ⟨v, hv, rfl⟩ := (hlast w).mp hw
    cases h
    exact ⟨v, hus, hv, rfl⟩
  · rintro ⟨v, hus, hv, rfl⟩
    exact ⟨hus, [v], (hlast [v]).mpr ⟨v, hv, rfl⟩, rfl⟩

/-- A function that evaluates all of its operands makes no difference between the value that is
handed to it and the one of its last operand. -/
lemma run_call_concat (hname : f.stopsEarly name = false) {c c' : Command}
    {es : List (Eval Value)} (hes : ∀ e ∈ es, Leaves e) {p : Eval Value} (hp : Leaves p)
    {r : Value × Scope} :
    (f.call c name (es ++ [p]) none).run s = .ok r ↔
      ∃ v, p.run s = .ok (v, s) ∧ (f.call c' name es (some v)).run s = .ok r := by
  have hall : ∀ e ∈ es ++ [p], Leaves e := by simpa [or_imp, forall_and] using ⟨hes, hp⟩
  simp only [run_call_eq_ok hname hall, run_call_eq_ok hname hes, run_mapM_concat hes hp]
  constructor
  · rintro ⟨vs, ⟨us, v, hus, hv, rfl⟩, h⟩
    exact ⟨v, hv, us, hus, by simpa using h⟩
  · rintro ⟨v, hv, us, hus, h⟩
    exact ⟨us ++ [v], ⟨us, v, hus, hv, rfl⟩, by simpa using h⟩

/-- What a function that stops early yields with a value that is handed to it, it yields too with
this value as that of its last operand. -/
lemma run_call_concat_of_stopsEarly (hname : f.stopsEarly name = true) {c c' : Command}
    {es : List (Eval Value)} (hes : ∀ e ∈ es, Leaves e) {p : Eval Value} {v : Value}
    (hp : p.run s = .ok (v, s)) {r : Value × Scope}
    (h : (f.call c' name es (some v)).run s = .ok r) :
    (f.call c name (es ++ [p]) none).run s = .ok r := by
  rw [call_eq_firstThat hname c' (.inr rfl)] at h
  rw [call_eq_firstThat hname c (.inl (by simp))]
  exact run_firstThat_append hes hp h

end Nested

/-- Without declarations and assignments, what a pipeline with a call at its end yields the call
yields too that has the commands before it as its last operand, in parentheses, and both leave the
variables as they are. Unless the function is the builtin `and` or `or`, each of the two yields a
value whenever the other does. -/
theorem evalPipeline_nested (f : Frame) (s : Scope) (name : String) {cs : List Command}
    {os : List Operand} (hne : cs ≠ []) (hcs : commandsBindNothing cs = true)
    (hos : operandsBindNothing os = true) (pos pos' at₁ at₂ at₃ at₄ at₅ : Position)
    (assigns assigns' assigns'' : Bool) :
    let piped : Pipeline := ⟨pos, assigns, [], cs ++ [⟨at₁, .identifier at₂ name :: os⟩]⟩
    let nested : Pipeline := ⟨pos', assigns', [],
      [⟨at₃, .identifier at₄ name :: (os ++ [.pipeline ⟨at₅, assigns'', [], cs⟩])⟩]⟩
    (∀ v t, (f.evalPipeline piped).run s = .ok (v, t) →
      (f.evalPipeline nested).run s = .ok (v, t) ∧ t = s) ∧
    (name ≠ "and" ∧ name ≠ "or" ∨ f.env.functions.contains name = true →
      ∀ v t, (f.evalPipeline piped).run s = .ok (v, t) ↔
        (f.evalPipeline nested).run s = .ok (v, t)) := by
  intro piped nested
  have hp : Leaves (f.evalCommands none cs) := evalCommands_leaves none cs hcs
  have hes := evalOperands_leaves (f := f) os hos
  rw [evalPipeline_of_declared_nil f rfl, evalPipeline_of_declared_nil f rfl]
  simp only [nested, piped, evalCommands_nested]
  constructor
  · intro v t h
    obtain ⟨u, hu, h⟩ := (run_piped_eq_ok hne hcs).mp h
    refine ⟨?_, call_leaves hes s v t h⟩
    cases hname : f.stopsEarly name with
    | true => exact run_call_concat_of_stopsEarly hname hes hu h
    | false => exact (run_call_concat hname hes hp).mpr ⟨u, hu, h⟩
  · intro heager v t
    have hname : f.stopsEarly name = false := by
      rcases heager with ⟨hand, hor⟩ | hcontains
      · simp [stopsEarly, isShort, hand, hor]
      · simp [stopsEarly, hcontains]
    exact (run_piped_eq_ok hne hcs).trans (run_call_concat hname hes hp).symm

/-- The number of values in a list is handed to `or`, which finds no other value that holds. -/
theorem evalPipeline_nested_of_or :
    let p : Position := ⟨0, 1⟩
    let f : Frame := ⟨⟨.empty, .empty, Literal.postgres, .default⟩, "q", .list [.null]⟩
    let s : Scope := [("$", .null)]
    let cs : List Command :=
      [⟨p, [.pipeline ⟨p, false, [], [⟨p, [.dot p]⟩]⟩]⟩, ⟨p, [.identifier p "len"]⟩]
    let os : List Operand := [.var ⟨p, "$", []⟩, .bool p false]
    cs ≠ [] ∧ commandsBindNothing cs = true ∧ operandsBindNothing os = true ∧
      (f.evalPipeline ⟨p, false, [], cs ++ [⟨p, .identifier p "or" :: os⟩]⟩).run s =
        .ok (.int 1, s) ∧
      (f.evalPipeline ⟨p, false, [],
        [⟨p, .identifier p "or" :: (os ++ [.pipeline ⟨p, false, [], cs⟩])⟩]⟩).run s =
        .ok (.int 1, s) := by
  intro p f s cs os
  have hcs : commandsBindNothing cs = true := by decide
  have hos : operandsBindNothing os = true := by decide
  have hpiped : (f.evalPipeline ⟨p, false, [], cs ++ [⟨p, .identifier p "or" :: os⟩]⟩).run s =
      .ok (.int 1, s) := by rfl
  have hnested := (evalPipeline_nested f s "or" (List.cons_ne_nil _ _) hcs hos p p p p p p p
    false false false).1 (.int 1) s hpiped
  exact ⟨List.cons_ne_nil _ _, hcs, hos, hpiped, hnested.1⟩

end Frame

end SafeQuery
