import Mathlib.Tactic.Common
import SafeQuery.Proofs.Execution.Keeping
import SafeQuery.Proofs.Execution.Run

/-!
# What statements write

Statements write the texts of their nodes and the values of their actions. `runNodes_keeps` is the
induction over statements, loops and calls: if every piece that a template may write keeps a
property of the output, then the property holds behind every run that does not fail, and a weaker
one behind a run that fails. The pieces are the texts of the template and literals of values that
evaluation keeps good.
-/

namespace SafeQuery

/-- Every piece of the kind that fits keeps a property of an output, and one that does not fit
leaves the property of the output of a failed run. -/
structure Sink.KeptBy (I J : Sink → Prop) (W : Piece → Prop) : Prop where
  fits {p : Piece} {w : Sink} : W p → I w → (w.put p).1 = true → I (w.put p).2
  full {p : Piece} {w : Sink} : W p → I w → (w.put p).1 = false → J (w.put p).2
  fails {w : Sink} : I w → J w

/-- The end of a computation with a good output, or with the output of a failed run. -/
def Output.Ends (I J : Sink → Prop) : Except ExecutionError Unit × Sink → Prop
  | (.ok _, w)    => I w
  | (.error _, w) => J w

/-- From a good output the computation ends well. -/
def Output.Keeps (I J : Sink → Prop) (act : Output Unit) : Prop :=
  ∀ w, I w → Output.Ends I J (act.run.run w)

namespace Run

variable {V : Value → Prop} {I J : Sink → Prop} {W : Piece → Prop} {α β : Type}
  {P : α → Prop} {Q : β → Prop}

/-- The end of a computation: its result, its variables and its output are good, or it has failed
with the output of a failed run. -/
def Ends (V : Value → Prop) (I J : Sink → Prop) (P : α → Prop) :
    Except ExecutionError (α × Scope) × Sink → Prop
  | (.ok (a, s), w) => P a ∧ Scope.All V s ∧ I w
  | (.error _, w)   => J w

/-- From good variables and a good output the computation ends well. -/
def Keeps (V : Value → Prop) (I J : Sink → Prop) (P : α → Prop) (act : Run α) : Prop :=
  ∀ s w, Scope.All V s → I w → Ends V I J P ((act.run s).run.run w)

lemma keeps_pure {a : α} (h : P a) : Keeps V I J P (pure a) := fun _ _ hs hw => ⟨h, hs, hw⟩

lemma keeps_throw (hI : Sink.KeptBy I J W) (cause : ExecutionError) :
    Keeps V I J P (throw cause : Run α) := fun _ _ _ hw => hI.fails hw

/-- Two runs end well from a good output if the first does, and the second for what the first
yields. -/
lemma keeps_bind {act : Run α} {k : α → Run β} (ha : Keeps V I J P act)
    (hk : ∀ a, P a → Keeps V I J Q (k a)) : Keeps V I J Q (act >>= k) := by
  intro s w hs hw
  have hact := ha s w hs hw
  rw [run_bind]
  rcases hrun : (act.run s).run.run w with ⟨_ | ⟨a, t⟩, w'⟩
  · rw [hrun] at hact
    exact hact
  · rw [hrun] at hact
    obtain ⟨hpa, ht, hw'⟩ := hact
    exact hk a hpa t w' ht hw'

/-- An evaluation writes nothing. -/
lemma keeps_ofEval (hI : Sink.KeptBy I J W) {e : Eval α} (he : Eval.Keeps V P e) :
    Keeps V I J P (ofEval e) := by
  intro s w hs hw
  rw [run_ofEval]
  cases h : e.run s with
  | error cause => exact hI.fails hw
  | ok r =>
    obtain ⟨ha, hs'⟩ := he s r.2 r.1 hs h
    exact ⟨ha, hs', hw⟩

/-- Writing a piece of the kind. -/
lemma keeps_emit (hI : Sink.KeptBy I J W) {p : Piece} (hp : W p) :
    Keeps V I J (fun _ => True) (emit p) := by
  intro s w hs hw
  rw [run_emit]
  by_cases hput : (w.put p).1 = true
  · rw [if_pos hput]
    exact ⟨trivial, hs, hI.fits hp hw hput⟩
  · rw [if_neg hput]
    exact hI.full hp hw (by simpa using hput)

/-- The variables that are dropped at the end of a clause leave good ones. -/
lemma keeps_locally {act : Run α} (h : Keeps V I J P act) : Keeps V I J P (locally act) := by
  have hget : Keeps V I J (fun _ => True) (get : Run Scope) :=
    fun _ _ hs hw => ⟨trivial, hs, hw⟩
  have hdrop : ∀ mark : Nat, Keeps V I J (fun _ => True)
      (modify (·.outermost mark) : Run PUnit) := by
    intro mark s w hs hw
    exact ⟨trivial, fun e he => hs e (List.mem_of_mem_drop he), hw⟩
  apply keeps_bind hget
  intro scope _
  apply keeps_bind h
  intro a ha
  apply keeps_bind (hdrop scope.length)
  intro _ _
  exact keeps_pure ha

/-- A call keeps its own variables to itself. -/
lemma keeps_lift {act : Output Unit} (h : Output.Keeps I J act) :
    Keeps V I J (fun _ => True) (liftM act : Run Unit) := by
  intro s w hs hw
  have hact := h w hw
  rw [run_lift]
  rcases hend : act.run.run w with ⟨_ | u, w'⟩
  · rw [hend] at hact
    exact hact
  · rw [hend] at hact
    exact ⟨trivial, hs, hact⟩

end Run

/-! ### What a loop goes through -/

namespace Items

variable {V : Value → Prop} {I J : Sink → Prop} {env : Environment}

def All (V : Value → Prop) : Items → Prop
  | pairs ps => ∀ p ∈ ps, V p.1 ∧ V p.2
  | count _  => True

/-- The items of a value with the property have the property. -/
lemma all_of_ofValue? (hV : env.Keeps V) {value : Value} {items : Items} (hv : V value)
    (h : ofValue? value = some items) : items.All V := by
  unfold ofValue? at h
  split at h
  · cases h
    intro p hp
    obtain ⟨⟨v, i⟩, hvi, rfl⟩ := List.mem_map.mp hp
    exact ⟨hV.int _, hV.item hv (List.mem_zipIdx' hvi |>.2 ▸ List.getElem_mem _)⟩
  · cases h
    intro p hp
    obtain ⟨e, he, rfl⟩ := List.mem_map.mp hp
    exact ⟨hV.string _, hV.entry hv he⟩
  · cases h
    trivial
  · cases h
    simp [All]
  · cases h

lemma forPairs_keeps {body : Value → Value → Run Flow} {ps : List (Value × Value)}
    (hps : ∀ p ∈ ps, V p.1 ∧ V p.2)
    (hbody : ∀ i v, V i → V v → Run.Keeps V I J (fun _ => True) (body i v)) :
    Run.Keeps V I J (fun _ => True) (forPairs body ps) := by
  induction ps with
  | nil => exact Run.keeps_pure trivial
  | cons p ps ih =>
    obtain ⟨hi, hv⟩ := hps p List.mem_cons_self
    apply Run.keeps_bind (hbody p.1 p.2 hi hv)
    intro flow _
    cases flow with
    | breakLoop => exact Run.keeps_pure trivial
    | normal => exact ih fun q hq => hps q (List.mem_cons_of_mem _ hq)
    | continueLoop => exact ih fun q hq => hps q (List.mem_cons_of_mem _ hq)

lemma forNumbers_keeps {body : Value → Value → Run Flow}
    (hV : env.Keeps V) (hbody : ∀ i v, V i → V v → Run.Keeps V I J (fun _ => True) (body i v))
    (i n : Nat) : Run.Keeps V I J (fun _ => True) (forNumbers body i n) := by
  induction n generalizing i with
  | zero => exact Run.keeps_pure trivial
  | succ n ih =>
    apply Run.keeps_bind (hbody _ _ (hV.int _) (hV.int _))
    intro flow _
    cases flow with
    | breakLoop => exact Run.keeps_pure trivial
    | normal => exact ih (i + 1)
    | continueLoop => exact ih (i + 1)

lemma forEach_keeps {items : Items} {body : Value → Value → Run Flow} (hV : env.Keeps V)
    (hitems : items.All V)
    (hbody : ∀ i v, V i → V v → Run.Keeps V I J (fun _ => True) (body i v)) :
    Run.Keeps V I J (fun _ => True) (items.forEach body) := by
  cases items with
  | pairs ps => exact forPairs_keeps hitems hbody
  | count n => exact forNumbers_keeps hV hbody 0 n

end Items

/-! ### Statements -/

/-- What the node writes by itself is of the kind: its text, or the value of a guarded pipeline. -/
def Node.Writes (W : Piece → Prop) : Node → Prop
  | .text _ t   => W (.text t)
  | .action _ p => p.IsGuarded
  | _           => True

lemma Node.writes_branch {W : Piece → Prop} {kind : Control} {pos : Position} {pipe : Pipeline}
    {body : Block} {otherwise : Option Block}
    (h : ∀ m ∈ (Node.branch kind pos pipe body otherwise).inside, m.Writes W) :
    (∀ m ∈ walkAll body.nodes, m.Writes W) ∧
      ∀ b, otherwise = some b → ∀ m ∈ walkAll b.nodes, m.Writes W :=
  ⟨fun m hm => h m (mem_inside_branch.mpr (Or.inl hm)),
    fun b hb m hm => h m (mem_inside_branch.mpr (Or.inr ⟨b, hb, hm⟩))⟩

namespace Stage

variable {V : Value → Prop} {I J : Sink → Prop} {W : Piece → Prop} {s : Stage}

/-- The data is good, literals are pieces of the kind, and calls of templates keep the property of
the output. -/
structure Keeps (V : Value → Prop) (I J : Sink → Prop) (W : Piece → Prop) (s : Stage) : Prop where
  env : s.env.Keeps V
  dot : V s.dot
  kept : Sink.KeptBy I J W
  literal {v : Value} {sql : String} :
    V v → s.env.encoder v = .ok sql → W (.value (.raw sql))
  enter {enter : Tree → Value → Output Unit} {name : String} {tree : Tree} {dot : Value} :
    s.enter = some enter → s.env.trees.get? name = some tree → V dot →
      Output.Keeps I J (enter tree dot)

lemma Keeps.withDot (hs : s.Keeps V I J W) {v : Value} (hv : V v) : (s.withDot v).Keeps V I J W :=
  ⟨hs.env, hv, hs.kept, hs.literal, hs.enter⟩

lemma bindItem_keeps {pos : Position} {index value : Value} (hi : V index) (hv : V value)
    (declared : List Variable) :
    Eval.Keeps V (fun _ => True) (s.bindItem pos index value declared) := by
  match declared with
  | []          => exact Eval.keeps_pure trivial
  | [v]         => exact Frame.assign_keeps hv pos v
  | v :: w :: _ =>
    exact Eval.keeps_bind (Frame.assign_keeps hi pos v) fun _ _ => Frame.assign_keeps hv pos w

/-- A call writes what the template that is called writes. -/
lemma callTemplate_keeps (hs : s.Keeps V I J W) (pos : Position) (name : String)
    (argument : Option Pipeline) :
    Run.Keeps V I J (fun _ => True) (s.callTemplate pos name argument) := by
  unfold callTemplate
  dsimp only
  split
  · exact Run.keeps_throw hs.kept _
  · rename_i tree htree
    split
    · exact Run.keeps_throw hs.kept _
    · rename_i enter henter
      have hcall : ∀ dot, V dot → Run.Keeps V I J (fun _ => True) (liftM (enter tree dot)) :=
        fun dot hdot => Run.keeps_lift (hs.enter henter htree hdot)
      cases argument with
      | none => exact Run.keeps_bind (Run.keeps_pure hs.env.null) hcall
      | some p =>
        refine Run.keeps_bind (Run.keeps_locally (Run.keeps_ofEval hs.kept ?_)) hcall
        exact Frame.evalPipeline_keeps hs.env hs.dot p

/-- An action writes the value of a pipeline that ends with the encoder, or nothing. -/
lemma runAction_keeps (hs : s.Keeps V I J W) {pos : Position} {pipe : Pipeline}
    (hp : pipe.IsGuarded) : Run.Keeps V I J (fun _ => True) (s.runNode (.action pos pipe)) := by
  rw [runNode]
  by_cases hd : pipe.declared = []
  · have hvalue := Frame.evalPipeline_guarded hs.env hs.dot hp hd
    apply Run.keeps_bind (Run.keeps_ofEval hs.kept hvalue)
    intro value hv
    obtain ⟨u, sql, hu, hsql, rfl⟩ := hv
    simp only [hd, List.isEmpty_nil, if_true]
    apply Run.keeps_bind (Run.keeps_emit hs.kept (hs.literal hu hsql))
    intro _ _
    exact Run.keeps_pure trivial
  · refine Run.keeps_bind (Run.keeps_ofEval hs.kept (Frame.evalPipeline_keeps hs.env hs.dot pipe))
      fun value _ => ?_
    simp only [List.isEmpty_iff, hd, if_false]
    exact Run.keeps_pure trivial

/-- A loop, if its body and its else part do so. -/
lemma runRange_keeps (hs : s.Keeps V I J W) {pos at₁ : Position} {pipe : Pipeline}
    {body : List Node} {otherwise : Option (BlockOf Node)}
    (hbody : ∀ v, V v → Run.Keeps V I J (fun _ => True) ((s.withDot v).runNodes body))
    (helse : Run.Keeps V I J (fun _ => True) (s.runElse otherwise)) :
    Run.Keeps V I J (fun _ => True) (s.runNode (.branch .range pos pipe ⟨at₁, body⟩ otherwise)) := by
  have hitem : ∀ i v, V i → V v → Run.Keeps V I J (fun _ => True) (do
      Run.ofEval (s.bindItem pos i v pipe.declared)
      Run.locally ((s.withDot v).runNodes body)) := by
    intro i v hi hv
    have hbind : Eval.Keeps V (fun _ => True) (s.bindItem pos i v pipe.declared) :=
      bindItem_keeps hi hv pipe.declared
    apply Run.keeps_bind (Run.keeps_ofEval hs.kept hbind)
    intro _ _
    exact Run.keeps_locally (hbody v hv)
  rw [runNode]
  refine Run.keeps_locally ?_
  refine Run.keeps_bind (Run.keeps_ofEval hs.kept
    (Frame.evalCommands_keeps hs.env hs.dot none (by simp) pipe.commands)) fun value hvalue => ?_
  split
  · exact Run.keeps_throw hs.kept _
  · rename_i items hitems
    dsimp only
    split
    · apply Run.keeps_bind helse
      intro _ _
      exact Run.keeps_pure trivial
    · have hloop := Items.forEach_keeps hs.env (Items.all_of_ofValue? hs.env hvalue hitems) hitem
      split
      · apply Run.keeps_bind hloop
        intro _ _
        exact Run.keeps_pure trivial
      · have hdeclare : Eval.Keeps V (fun _ => True)
            (pipe.declared.forM fun v => Frame.declare v .null) :=
          Eval.keeps_forM fun v _ => Frame.declare_keeps hs.env.null v
        apply Run.keeps_bind (Run.keeps_ofEval hs.kept hdeclare)
        intro _ _
        apply Run.keeps_bind hloop
        intro _ _
        exact Run.keeps_pure trivial

mutual

/-- A statement writes pieces of the kind if it and those inside it do. -/
lemma runNode_keeps {s : Stage} (hs : s.Keeps V I J W) (n : Node) (hn : n.Writes W)
    (hin : ∀ m ∈ n.inside, m.Writes W) : Run.Keeps V I J (fun _ => True) (s.runNode n) := by
  match n with
  | .text _ t =>
    rw [runNode]
    apply Run.keeps_bind (Run.keeps_emit hs.kept hn)
    intro _ _
    exact Run.keeps_pure trivial
  | .comment _ _ =>
    rw [runNode]
    exact Run.keeps_pure trivial
  | .action pos pipe => exact runAction_keeps hs hn
  | .branch .cond pos pipe ⟨at₁, body⟩ otherwise =>
    obtain ⟨hbody, helse⟩ := Node.writes_branch hin
    rw [runNode]
    refine Run.keeps_locally ?_
    refine Run.keeps_bind (Run.keeps_ofEval hs.kept (Frame.evalPipeline_keeps hs.env hs.dot pipe))
      fun value _ => ?_
    split
    · exact runNodes_keeps hs body hbody
    · exact runElse_keeps hs otherwise helse
  | .branch .withValue pos pipe ⟨at₁, body⟩ otherwise =>
    obtain ⟨hbody, helse⟩ := Node.writes_branch hin
    rw [runNode]
    refine Run.keeps_locally ?_
    refine Run.keeps_bind (Run.keeps_ofEval hs.kept (Frame.evalPipeline_keeps hs.env hs.dot pipe))
      fun value hvalue => ?_
    split
    · exact runNodes_keeps (hs.withDot hvalue) body hbody
    · exact runElse_keeps hs otherwise helse
  | .branch .range pos pipe ⟨at₁, body⟩ otherwise =>
    obtain ⟨hbody, helse⟩ := Node.writes_branch hin
    exact runRange_keeps hs (fun v hv => runNodes_keeps (hs.withDot hv) body hbody)
      (runElse_keeps hs otherwise helse)
  | .call pos name argument =>
    rw [runNode]
    apply Run.keeps_bind (callTemplate_keeps hs pos name argument)
    intro _ _
    exact Run.keeps_pure trivial
  | .breakLoop _ =>
    rw [runNode]
    exact Run.keeps_pure trivial
  | .continueLoop _ =>
    rw [runNode]
    exact Run.keeps_pure trivial

lemma runNodes_keeps {s : Stage} (hs : s.Keeps V I J W) (ns : List Node)
    (hns : ∀ m ∈ walkAll ns, m.Writes W) : Run.Keeps V I J (fun _ => True) (s.runNodes ns) := by
  match ns with
  | [] =>
    rw [runNodes]
    exact Run.keeps_pure trivial
  | n :: ns =>
    have hn : n.Writes W := hns n (by simp)
    have hin : ∀ m ∈ n.inside, m.Writes W := fun m hm => hns m (by simp [hm])
    have hrest : ∀ m ∈ walkAll ns, m.Writes W := fun m hm => hns m (by simp [hm])
    rw [runNodes]
    apply Run.keeps_bind (runNode_keeps hs n hn hin)
    intro flow _
    cases flow with
    | normal => exact runNodes_keeps hs ns hrest
    | breakLoop => exact Run.keeps_pure trivial
    | continueLoop => exact Run.keeps_pure trivial

lemma runElse_keeps {s : Stage} (hs : s.Keeps V I J W) (otherwise : Option (BlockOf Node))
    (ho : ∀ b, otherwise = some b → ∀ m ∈ walkAll b.nodes, m.Writes W) :
    Run.Keeps V I J (fun _ => True) (s.runElse otherwise) := by
  match otherwise with
  | none =>
    rw [runElse]
    exact Run.keeps_pure trivial
  | some ⟨pos, ns⟩ =>
    rw [runElse]
    exact runNodes_keeps hs ns (ho ⟨pos, ns⟩ rfl)

end

end Stage

/-! ### Templates -/

namespace Environment

variable {V : Value → Prop} {I J : Sink → Prop} {W : Piece → Prop} {env : Environment}

/-- Every template of the environment writes only pieces of the kind by itself. -/
def Writes (env : Environment) (W : Piece → Prop) : Prop :=
  ∀ name tree, env.trees.get? name = some tree → ∀ n ∈ tree.walk, n.Writes W

/-- A template of the environment writes only pieces of the kind. -/
lemma enterWith_keeps (htrees : env.Writes W) {enter : Option (Tree → Value → Output Unit)}
    {name : String} {tree : Tree} {dot : Value} (htree : env.trees.get? name = some tree)
    (hs : Stage.Keeps V I J W ⟨⟨env, tree.name, dot⟩, enter⟩) :
    Output.Keeps I J (runTree.enterWith env enter tree dot) := by
  intro w hw
  have hscope : Scope.All V [("$", dot)] := by simpa [Scope.All] using hs.dot
  have hrun := Stage.runNodes_keeps hs tree.root.nodes (htrees name tree htree)
    [("$", dot)] w hscope hw
  rw [run_enterWith]
  rcases hend : ((Stage.runNodes ⟨⟨env, tree.name, dot⟩, enter⟩ tree.root.nodes).run
    [("$", dot)]).run.run w with ⟨_ | r, w'⟩
  · rw [hend] at hrun
    exact hrun
  · rw [hend] at hrun
    exact hrun.2.2

/-- However deep calls are nested, a template ends well. -/
lemma runTree_keeps (hV : env.Keeps V) (hI : Sink.KeptBy I J W)
    (hW : ∀ {v sql}, V v → env.encoder v = .ok sql → W (.value (.raw sql)))
    (htrees : env.Writes W) (d : Nat) {name : String} {tree : Tree} {dot : Value}
    (htree : env.trees.get? name = some tree) (hdot : V dot) :
    Output.Keeps I J (env.runTree d tree dot) := by
  induction d generalizing name tree dot with
  | zero =>
    refine enterWith_keeps htrees htree ⟨hV, hdot, hI, hW, ?_⟩
    intro enter name' tree' dot' henter
    cases henter
  | succ d ih =>
    refine enterWith_keeps htrees htree ⟨hV, hdot, hI, hW, ?_⟩
    intro enter name' tree' dot' henter htree' hdot'
    cases henter
    exact ih htree' hdot'

/-- An execution keeps the property of the output, or leaves the other one if it fails. -/
theorem execute_keeps (hV : env.Keeps V) (hI : Sink.KeptBy I J W)
    (hW : ∀ {v sql}, V v → env.encoder v = .ok sql → W (.value (.raw sql)))
    (htrees : env.Writes W) {name : String} {tree : Tree} {data : Value} {room : Option Nat}
    (htree : env.trees.get? name = some tree) (hdata : V data) (hroom : I (.ofRoom room)) :
    ((env.execute tree data room).failure = none → I (env.execute tree data room).sink) ∧
      J (env.execute tree data room).sink := by
  have h := runTree_keeps hV hI hW htrees maxCallDepth htree hdata (.ofRoom room) hroom
  change Output.Ends I J ((env.runTree maxCallDepth tree data).run (Sink.ofRoom room)) at h
  unfold execute
  rcases hend : (env.runTree maxCallDepth tree data).run (Sink.ofRoom room) with ⟨_ | u, w⟩
  · rw [hend] at h
    refine ⟨fun hnone => ?_, h⟩
    cases hnone
  · rw [hend] at h
    exact ⟨fun _ => h, hI.fails h⟩

end Environment

end SafeQuery
