import SafeQuery.Proofs.Dict
import SafeQuery.Proofs.Execution.Piping
import SafeQuery.Proofs.Execution.Stepwise
import SafeQuery.Proofs.Template.Namespace
import SafeQuery.Proofs.Tree.Functions
import SafeQuery.Proofs.Tree.Lone

/-!
# Names of functions

A function may have every name that begins like one and goes on like one. Ten of these names are
keywords and three are constants, and the reader takes them for that wherever they stand: a function
of such a name can be added and never be called. Every other function that has been added is called
by its name alone, `callable_iff_not_reserved`.
-/

namespace SafeQuery

def reservedWords : List String := Keyword.all.map Keyword.word ++ ["true", "false", "nil"]

lemma keywordOfWord_eq_none {w : String} :
    Keyword.ofWord? w = none ↔ w ∉ Keyword.all.map Keyword.word := by
  simp [Keyword.ofWord?]

/-- A word is the name of a function unless it is reserved. -/
lemma ofWord_eq_identifier_iff {w : String} :
    TokenKind.ofWord w = .identifier w ↔ w ∉ reservedWords := by
  rw [reservedWords, List.mem_append, not_or, ← keywordOfWord_eq_none, TokenKind.ofWord]
  cases Keyword.ofWord? w with
  | some k => simp
  | none => split_ifs <;> simp_all

/-- The delimiters are not empty, and the right one begins with a character that ends every name and
is not blank. -/
structure Delimiters.EndNames (d : Delimiters) : Prop where
  left : d.left.toList ≠ []
  right : ∃ c cs, d.right.toList = c :: cs ∧ isNameChar c = false ∧ Text.isSpace c = false

section Words

variable {d : Delimiters} {w : String}

lemma ofWord_endsAt {s : List Char} (hs : Avoids isNameChar s) (w : String) :
    (TokenKind.ofWord w).EndsAt s := by
  unfold TokenKind.ofWord
  split
  · exact hs
  · split_ifs <;> exact hs

lemma Delimiters.EndNames.enclose (hd : d.EndNames) (hw : isName w = true) :
    d.Enclose (.ofWord w) := by
  obtain ⟨hleft, c, cs, hcs, hname, hspace⟩ := hd
  obtain ⟨c', cs', hcs', hstart, -⟩ := isName_iff.mp hw
  refine ⟨hleft, by simp [hcs], hcs ▸ .cons hspace, ofWord_endsAt (hcs ▸ .cons hname) w, ?_⟩
  rw [ofWord_print, hcs, hcs', List.cons_append, List.cons_prefix_cons]
  rintro ⟨rfl, -⟩
  rw [isNameChar_of_isNameStart hstart] at hname
  cases hname

/-- A name between delimiters is the token of this word. -/
lemma ofSource_name (hd : d.EndNames) (hw : isName w = true) :
    Item.ofSource d (d.left ++ w ++ d.right) =
      .ok [.action 0 [⟨.ofWord w, Text.width d.left.toList, true⟩]] := by
  have h := ofSource_word (hd.enclose hw) (ofWord_isLexical hw)
  rwa [ofWord_print] at h

/-- The names of functions between delimiters are those that are not reserved. -/
lemma ofSource_eq_identifier_iff (hd : d.EndNames) (s : String) :
    Item.ofSource d (d.left ++ s ++ d.right) =
        .ok [.action 0 [⟨.identifier s, Text.width d.left.toList, true⟩]] ↔
      isName s = true ∧ s ∉ reservedWords := by
  constructor
  · intro h
    have hlexed := ofSource_isLexed h _ (List.mem_singleton_self _)
    obtain ⟨hname, hword⟩ := hlexed _ (List.mem_singleton_self _)
    exact ⟨hname, ofWord_eq_identifier_iff.mp hword⟩
  · rintro ⟨hname, hreserved⟩
    rw [ofSource_name hd hname, ofWord_eq_identifier_iff.mpr hreserved]

end Words

/-! ### Reserved words are not called -/

section Reserved

variable {known : String → Bool} {name : String}

mutual

lemma Operand.Readable.functions {scope : List String} {o : Operand} (h : o.Readable known scope)
    (hname : name ∈ o.functions) : (TokenKind.identifier name).IsLexical := by
  match o with
  | .identifier _ n =>
    obtain rfl := List.mem_singleton.mp hname
    exact h.2
  | .chain _ base _ => exact h.2.2.functions hname
  | .pipeline ⟨_, _, _, commands⟩ => exact commandsReadable_functions h.2.2.2 hname
  | .dot _ | .nil _ | .bool _ _ | .number _ | .string _ _ _ | .field _ _ | .var _ => cases hname

lemma operandsReadable_functions {scope : List String} {os : List Operand}
    (h : operandsReadable known scope os) (hname : name ∈ operandsFunctions os) :
    (TokenKind.identifier name).IsLexical := by
  match os with
  | []     => cases hname
  | _ :: _ =>
    rcases List.mem_append.mp hname with hname | hname
    · exact h.1.functions hname
    · exact operandsReadable_functions h.2 hname

lemma commandsReadable_functions {scope : List String} {cs : List Command}
    (h : commandsReadable known scope cs) (hname : name ∈ commandsFunctions cs) :
    (TokenKind.identifier name).IsLexical := by
  match cs with
  | []          => cases hname
  | ⟨_, _⟩ :: _ =>
    rcases List.mem_append.mp hname with hname | hname
    · exact operandsReadable_functions h.2.1 hname
    · exact commandsReadable_functions h.2.2 hname

end

mutual

/-- The functions of a node are called in one of its pipelines. -/
lemma Node.exists_pipe (scope : List String) {n : Node}
    (hname : name ∈ n.functions ++ n.inside.flatMap Node.functions) :
    ∃ q ∈ n.pipes scope, name ∈ q.pipe.functions := by
  match n with
  | .action _ p =>
    have hp : name ∈ p.functions := by simpa [Node.functions, Node.inside] using hname
    exact ⟨_, List.mem_cons_self, hp⟩
  | .call _ _ (some p) =>
    have hp : name ∈ p.functions := by simpa [Node.functions, Node.inside] using hname
    exact ⟨_, List.mem_cons_self, hp⟩
  | .text _ _ | .comment _ _ | .call _ _ none | .breakLoop _ | .continueLoop _ =>
    simp [Node.functions, Node.inside] at hname
  | .branch kind _ p ⟨_, body⟩ none =>
    rcases List.mem_append.mp hname with hname | hname
    · exact ⟨_, List.mem_cons_self, hname⟩
    · obtain ⟨q, hq, hcalled⟩ := nodes_exists_pipe (p.scopeBehind scope) hname
      exact ⟨q, List.mem_append_right _ (List.mem_append_left _ hq), hcalled⟩
  | .branch kind _ p ⟨_, body⟩ (some ⟨_, otherwise⟩) =>
    rw [Node.inside, List.flatMap_append] at hname
    rcases List.mem_append.mp hname with hname | hname
    · exact ⟨_, List.mem_cons_self, hname⟩
    · rcases List.mem_append.mp hname with hname | hname
      · obtain ⟨q, hq, hcalled⟩ := nodes_exists_pipe (p.scopeBehind scope) hname
        exact ⟨q, List.mem_append_right _ (List.mem_append_left _ hq), hcalled⟩
      · obtain ⟨q, hq, hcalled⟩ :=
          nodes_exists_pipe (nodesScope (p.scopeBehind scope) body) hname
        exact ⟨q, List.mem_append_right _ (List.mem_append_right _ hq), hcalled⟩

/-- The functions of statements are those of their pipelines. -/
lemma nodes_exists_pipe (scope : List String) {ns : List Node}
    (hname : name ∈ (walkAll ns).flatMap Node.functions) :
    ∃ q ∈ nodesPipes scope ns, name ∈ q.pipe.functions := by
  match ns with
  | []      => simp at hname
  | n :: ns =>
    rw [walkAll_cons, List.flatMap_cons, List.flatMap_append, ← List.append_assoc] at hname
    rcases List.mem_append.mp hname with hname | hname
    · obtain ⟨q, hq, hcalled⟩ := Node.exists_pipe scope hname
      exact ⟨q, List.mem_append_left _ hq, hcalled⟩
    · obtain ⟨q, hq, hcalled⟩ := nodes_exists_pipe (n.scopeBehind scope) hname
      exact ⟨q, List.mem_append_right _ hq, hcalled⟩

end

/-- No tree of a source calls a function with the name of a reserved word. -/
lemma ofSource_functions {d : Delimiters} {source n : String} {trees : Dict Tree}
    (h : Tree.ofSource d known n source = .ok trees) {e : String × Tree} (he : e ∈ trees.entries)
    (hname : name ∈ e.2.functions) : name ∉ reservedWords := by
  obtain ⟨q, hq, hcalled⟩ := nodes_exists_pipe ["$"] hname
  have hreadable := (ofSource_pipes h e he q hq).isReadable
  exact ofWord_eq_identifier_iff.mp (commandsReadable_functions hreadable.2.2.2 hcalled).2

end Reserved

/-! ### The other names are called -/

section Called

variable {name : String} {function : Function}

/-- What the call of a function alone amounts to: the literal of its value, or the failure of the
function or of the encoder. -/
def Environment.literalOfCall (env : Environment) (place : Place) (name : String)
    (function : Function) : Except ExecutionError String :=
  match function [] with
  | .error e => .error (.fault place (.callFailed name e))
  | .ok v    => (env.encoder v).mapError (.encoding place)

/-- What has been rendered when the literal of an action, if there is one, has been written. -/
def Template.Rendering.ofLiteral (room : Option Nat) : Except ExecutionError String → Rendering
  | .error cause => ⟨some (.execution cause), .ofRoom room⟩
  | .ok sql      =>
    let (fits, sink) := (Sink.ofRoom room).put (.value (.raw sql))
    ⟨if fits then none else some (.execution .outputFull), sink⟩

/-- A function of the environment is called by its name alone. -/
lemma Frame.call_alone {f : Frame} (hhook : name ≠ hookName)
    (hget : f.env.functions.get? name = some function) (c : Command) :
    f.call c name [] none = match function [] with
      | .ok v    => pure v
      | .error e => throw (f.commandFault c (.callFailed name e)) := by
  have hcontains : f.env.functions.contains name = true := by
    rw [Dict.contains_eq_isSome, hget, Option.isSome_some]
  rw [call, if_neg hhook, if_neg (by simp [hcontains]), hget]
  rfl

/-- The action of a call alone yields the literal of its value. -/
lemma Frame.run_evalPipeline_call {f : Frame} (hhook : name ≠ hookName)
    (hget : f.env.functions.get? name = some function) (pos : Position) (s : Scope) :
    (f.evalPipeline (PipelineOf.ofOperand pos (.identifier pos name)).withHook).run s =
      (f.env.literalOfCall (f.placeAt pos name) name function).map fun sql => (.raw sql, s) := by
  have hlast : (⟨pos, [.identifier pos name]⟩ : Command).isBare hookName = false := by
    simpa [CommandOf.isBare] using hhook
  have hvalue : f.evalPipeline (.ofOperand pos (.identifier pos name)) =
      f.call ⟨pos, [.identifier pos name]⟩ name [] none := by
    rw [f.evalPipeline_of_declared_nil rfl, PipelineOf.ofOperand, f.evalCommands_cons, evalNext,
      hlast, if_neg Bool.false_ne_true, evalCommand]
    simp [evalOperands]
  rw [f.evalPipeline_withHook rfl rfl hlast, hvalue, call_alone hhook hget,
    Environment.literalOfCall]
  cases function [] with
  | error e => rfl
  | ok v =>
    rw [pure_bind, encode]
    dsimp only
    cases f.env.encoder v <;> rfl

/-- The action of a call alone writes the literal of its value. -/
lemma Stage.run_call {s : Stage} (hhook : name ≠ hookName)
    (hget : s.env.functions.get? name = some function) (pos₁ pos : Position) (vars : Scope)
    (w : Sink) :
    ((s.runNodes (hookAll [.action pos₁ (.ofOperand pos (.identifier pos name))])).run
        vars).run.run w =
      match s.env.literalOfCall (s.placeAt pos name) name function with
      | .error cause => (.error cause, w)
      | .ok sql      => (if (w.put (.value (.raw sql))).1 then .ok (.normal, vars)
          else .error .outputFull, (w.put (.value (.raw sql))).2) := by
  -- The value is written because the pipeline declares nothing, with the encoder or without it.
  have hdeclared : ((PipelineOf.ofOperand pos (.identifier pos name)).withHook).declared = [] := by
    rcases (PipelineOf.ofOperand pos (.identifier pos name)).withHook_cases with h | ⟨_, h⟩
    · rw [h, PipelineOf.ofOperand]
    · rw [h, PipelineOf.ofOperand]
  have hvalue := Frame.run_evalPipeline_call (f := s.toFrame) hhook hget pos vars
  rw [hookAll, hookAll, Node.withHooks, Stage.runNodes, Run.run_bind, Stage.runNode,
    Run.run_bind, Run.run_ofEval, hvalue]
  cases s.env.literalOfCall (s.placeAt pos name) name function with
  | error cause => rfl
  | ok sql =>
    simp only [Except.map, hdeclared, List.isEmpty_nil, if_true]
    rw [Run.run_bind, Run.run_emit]
    split_ifs <;> rfl

namespace Template

variable {t t' : Template}

/-- Every function that has been added stands under its name, which is not that of the encoder. -/
lemma get?_of_withFunctions {functions : FunctionTable}
    (hok : t.withFunctions functions = .ok t') (hname : name ∈ functions.keys) :
    isName name = true ∧ name ≠ hookName ∧ ∃ function,
      (name, function) ∈ functions.entries ∧ t'.functions.get? name = some function := by
  unfold withFunctions at hok
  split at hok
  · cases hok
  · rename_i hnone
    cases hok
    obtain ⟨hisName, hhook⟩ := nameFault?_eq_none hnone name hname
    exact ⟨hisName, hhook, Dict.exists_get?_insertAll _ hname⟩

/-- A template that is the call of a function alone renders the literal of its value. -/
lemma executeNamed_call {n : String} {pos₀ pos₁ pos : Position} (hhook : name ≠ hookName)
    (hget : t.functions.get? name = some function)
    (htree : t.trees.get? n = some (Tree.withHooks
      ⟨n, ⟨pos₀, [.action pos₁ (.ofOperand pos (.identifier pos name))]⟩⟩))
    (data : Value) (room : Option Nat) :
    t.executeNamed n data room = .ofLiteral room
      (t.environment.literalOfCall ⟨n, pos.line, shortened name⟩ name function) := by
  have hrun := Stage.run_call
    (s := ⟨⟨t.environment, n, data⟩, t.environment.enterAt maxCallDepth⟩) hhook
    (show t.environment.functions.get? name = some function from hget) pos₁ pos [("$", data)]
    (.ofRoom room)
  have hend := t.environment.run_enterWith (t.environment.enterAt maxCallDepth) (Tree.withHooks
    ⟨n, ⟨pos₀, [.action pos₁ (.ofOperand pos (.identifier pos name))]⟩⟩) data (.ofRoom room)
  rw [← Environment.runTree_eq] at hend
  simp only [Tree.withHooks, BlockOf.withHooks, hrun] at hend
  simp only [StateT.run, Frame.placeAt] at hend
  rw [executeNamed, htree]
  simp only [run, Environment.execute, Tree.withHooks, BlockOf.withHooks, hend]
  cases t.environment.literalOfCall ⟨n, pos.line, shortened name⟩ name function with
  | error cause => rfl
  | ok sql =>
    dsimp only [Rendering.ofLiteral]
    split_ifs <;> rfl

/-- A source that is the call of a function alone is read and installed as the tree of this call. -/
lemma withSource_call (hd : t.delimiters.EndNames) (hname : isName name = true)
    (hreserved : name ∉ reservedWords) (hcallable : t.isCallable name = true) (n : String) :
    ∃ t' pos₀ pos₁ pos,
      t.withSource n (t.delimiters.left ++ name ++ t.delimiters.right) = .ok t' ∧
        t'.functions = t.functions ∧ t'.trees.get? n = some (Tree.withHooks
          ⟨n, ⟨pos₀, [.action pos₁ (.ofOperand pos (.identifier pos name))]⟩⟩) := by
  have hitems := (ofSource_eq_identifier_iff hd name).mpr ⟨hname, hreserved⟩
  have hoperand : Operand.ofToken
      ((PipelineContext.ofSource t.isCallable
        (t.delimiters.left ++ name ++ t.delimiters.right)).inAction 0)
      ["$"] ⟨.identifier name, Text.width t.delimiters.left.toList, true⟩ =
        .ok (.identifier _ name) := if_pos hcallable
  have htree := Tree.ofSource_lone n
    (show (⟨.identifier name, Text.width t.delimiters.left.toList, true⟩ : Token).kind.IsLone from
      trivial) hitems hoperand
  rw [withSource, htree]
  exact ⟨_, _, _, _, rfl, rfl, (Dict.get?_insert _ _ _ _).trans (if_pos rfl)⟩

end Template

end Called

/-- Between delimiters a name is read as that of a function if it is not reserved. A function that has
been added under a reserved word is called in no tree of a source; every other one is called by its
name alone, in a template that is read after it has been added. -/
theorem callable_iff_not_reserved (d : Delimiters) (hd : d.EndNames) (s : String) :
    (Item.ofSource d (d.left ++ s ++ d.right) =
        .ok [.action 0 [⟨.identifier s, Text.width d.left.toList, true⟩]] ↔
      isName s = true ∧ s ∉ reservedWords) ∧
      ∀ (t t' : Template) (functions : FunctionTable), t.withFunctions functions = .ok t' →
        s ∈ functions.keys →
          (s ∈ reservedWords → ∀ d' known n source trees,
            Tree.ofSource d' known n source = .ok trees →
              ∀ e ∈ trees.entries, s ∉ e.2.functions) ∧
          (s ∉ reservedWords → ∃ function, (s, function) ∈ functions.entries ∧
            ∀ u : Template, u.functions = t'.functions → u.delimiters = d → ∀ n,
              ∃ u' line, u.withSource n (d.left ++ s ++ d.right) = .ok u' ∧
                ∀ data room, u'.executeNamed n data room = .ofLiteral room
                  (u'.environment.literalOfCall ⟨n, line, shortened s⟩ s function)) := by
  refine ⟨ofSource_eq_identifier_iff hd s, fun t t' functions hok hs =>
    ⟨fun hreserved d' known n source trees hsource e he hcalled =>
      ofSource_functions hsource he hcalled hreserved, fun hreserved => ?_⟩⟩
  obtain ⟨hisName, hhook, function, hmem, hget⟩ := Template.get?_of_withFunctions hok hs
  refine ⟨function, hmem, fun u hu hdelimiters n => ?_⟩
  subst hdelimiters
  have hget' : u.functions.get? s = some function := hu ▸ hget
  have hcallable : u.isCallable s = true := by
    rw [Template.isCallable, Dict.contains_eq_isSome u.functions, hget']
    simp
  obtain ⟨u', _, _, pos, hsource, hfunctions, htree⟩ :=
    Template.withSource_call hd hisName hreserved hcallable n
  rw [← hfunctions] at hget'
  exact ⟨u', pos.line, hsource, fun data room =>
    Template.executeNamed_call hhook hget' htree data room⟩

/-- A function that counts from one, added under a name of its own and as a constant. -/
theorem callable_iff_not_reserved_of_one :
    let one : Function := fun _ => .ok (.int 1)
    let functions : FunctionTable := .ofList [("one", one), ("nil", one)]
    ∃ t', (Template.new "q").withFunctions functions = .ok t' ∧
      (Item.ofSource .braces "\x7b\x7bone\x7d\x7d" =
        .ok [.action 0 [⟨.identifier "one", 2, true⟩]]) ∧
      (∀ trees, Tree.ofSource .braces t'.isCallable "q" "\x7b\x7bnil\x7d\x7d" = .ok trees →
        ∀ e ∈ trees.entries, "nil" ∉ e.2.functions) ∧
      ∃ u' line, t'.withSource "q" "\x7b\x7bone\x7d\x7d" = .ok u' ∧
        ∀ data room, u'.executeNamed "q" data room = .ofLiteral room
          (u'.environment.literalOfCall ⟨"q", line, "one"⟩ "one" one) := by
  intro one functions
  have hbraces : Delimiters.braces.EndNames := ⟨by decide, '\x7d', _, rfl, by decide, by decide⟩
  have hnames : Template.nameFault? functions.keys = none := by decide
  obtain ⟨t', hok, hdelimiters⟩ : ∃ t', (Template.new "q").withFunctions functions = .ok t' ∧
      t'.delimiters = .braces := ⟨_, by rw [Template.withFunctions, hnames], rfl⟩
  obtain ⟨hlex, hcall⟩ := callable_iff_not_reserved .braces hbraces "one"
  obtain ⟨-, hnil⟩ := callable_iff_not_reserved .braces hbraces "nil"
  refine ⟨t', hok, hlex.mpr ⟨by decide, by decide⟩, fun trees htrees => ?_, ?_⟩
  · exact (hnil _ t' functions hok (by decide)).1 (by decide) _ _ _ _ trees htrees
  · obtain ⟨function, hmem, hrun⟩ := (hcall _ t' functions hok (by decide)).2 (by decide)
    obtain rfl : function = one := by
      rcases Dict.mem_insertAll hmem with hmem | hmem
      · simpa using hmem
      · cases hmem
    exact hrun t' rfl hdelimiters "q"

end SafeQuery
