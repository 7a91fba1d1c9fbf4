import SafeQuery.Proofs.Execution.Emission
import SafeQuery.Proofs.Template.Built
import SafeQuery.Proofs.Template.Loading

/-!
# Where output comes from

Whatever an execution writes is the text of a template or a literal that the encoder has given for a
value of this execution; no value is written as it is shown. `executeNamed_consists` says so with a
property of values that evaluation keeps, and `executeNamed_supplied` with the values that the
encoder is asked for.
-/

namespace SafeQuery

/-! ### Outputs made of pieces -/

namespace Sink

variable {W : Piece → Prop} {room : Option Nat}

/-- The output consists of pieces of the kind. The last one may be cut off where the room ends. -/
structure Consists (W : Piece → Prop) (room : Option Nat) (w : Sink) : Prop where
  limited : w.room.isSome = room.isSome
  pieces : ∀ p ∈ w.pieces, W p
  cut : w.cut = [] ∨ room.isSome = true ∧ ∃ p, W p ∧ w.cut <+: p.bytes

lemma consists_ofRoom : (Sink.ofRoom room).Consists W room := ⟨rfl, by simp [ofRoom], Or.inl rfl⟩

lemma Consists.mono {W' : Piece → Prop} {w : Sink} (h : w.Consists W room)
    (hW : ∀ p, W p → W' p) : w.Consists W' room where
  limited := h.limited
  pieces p hp := hW p (h.pieces p hp)
  cut := by
    rcases h.cut with hnil | ⟨hroom, p, hp, hprefix⟩
    · exact Or.inl hnil
    · exact Or.inr ⟨hroom, p, hW p hp, hprefix⟩

/-- A piece that fits is added, and one that does not fit is cut off. -/
lemma consists_keptBy : KeptBy (fun w => w.Consists W room ∧ w.cut = []) (Consists W room) W where
  fails hw := hw.1
  fits := by
    intro p w hp ⟨hw, hcut⟩ hput
    have hpieces : ∀ q ∈ p :: w.pieces, W q := by
      intro q hq
      rcases List.mem_cons.mp hq with rfl | hq
      · exact hp
      · exact hw.pieces q hq
    have hlimited := hw.limited
    unfold put at hput ⊢
    cases hroom : w.room with
    | none =>
      rw [hroom] at hlimited
      exact ⟨⟨by simpa [hroom] using hlimited, hpieces, Or.inl hcut⟩, hcut⟩
    | some n =>
      rw [hroom] at hput hlimited
      by_cases hn : p.bytes.length ≤ n
      · simp only [hn, if_true]
        exact ⟨⟨hlimited, hpieces, Or.inl hcut⟩, hcut⟩
      · simp [hn] at hput
  full := by
    intro p w hp ⟨hw, hcut⟩ hput
    have hlimited := hw.limited
    unfold put at hput ⊢
    cases hroom : w.room with
    | none => simp [hroom] at hput
    | some n =>
      rw [hroom] at hput hlimited
      by_cases hn : p.bytes.length ≤ n
      · simp [hn] at hput
      · simp only [hn, if_false]
        refine ⟨hlimited, hw.pieces, Or.inr ⟨hlimited.symm, p, hp, ?_⟩⟩
        exact List.take_prefix n p.bytes

end Sink

namespace Template

variable {t : Template} {V : Value → Prop} {name : String} {data : Value} {room : Option Nat}

/-! ### What a template may write -/

/-- What executions of the template may write: texts of its trees, and literals of the values. -/
inductive Supplies (t : Template) (asked : Value → Prop) : Piece → Prop where
  | text {name : String} {tree : Tree} {s : String} :
      t.trees.get? name = some tree → tree.HasText s → Supplies t asked (.text s)
  | literal {v : Value} {sql : String} :
      asked v → t.encoder v = .ok sql → Supplies t asked (.value (.raw sql))

/-- By themselves the statements of a guarded template write texts of its trees only. -/
lemma IsGuarded.writes (ht : t.IsGuarded) (asked : Value → Prop) :
    t.environment.Writes (t.Supplies asked) := by
  intro key tree hget n hn
  cases n with
  | text pos s => exact .text hget ⟨pos, hn⟩
  | action pos p => exact ht key tree hget pos p hn
  | _ => trivial

/-- The output of an execution consists of texts of the template and of literals of values with a
property that evaluation keeps. It is cut off only if the execution fails. -/
theorem executeNamed_consists (ht : t.IsGuarded) (hV : t.environment.Keeps V) (name : String)
    (data : Value) (room : Option Nat) (hdata : V data) :
    (t.executeNamed name data room).sink.Consists (t.Supplies V) room ∧
      ((t.executeNamed name data room).failure = none →
        (t.executeNamed name data room).sink.cut = []) := by
  unfold executeNamed run
  cases htree : t.trees.get? name with
  | none => exact ⟨Sink.consists_ofRoom, fun _ => rfl⟩
  | some tree =>
    have hroom : (Sink.ofRoom room).Consists (t.Supplies V) room ∧ (Sink.ofRoom room).cut = [] :=
      ⟨Sink.consists_ofRoom, rfl⟩
    obtain ⟨hok, hany⟩ := Environment.execute_keeps hV Sink.consists_keptBy
      (fun hv hsql => Supplies.literal hv hsql) (ht.writes V) htree hdata hroom
    refine ⟨hany, fun hnone => ?_⟩
    exact (hok (by simpa using hnone)).2

/-- The template of the set itself is executed as the one of its name. -/
lemma execute_sink (t : Template) (data : Value) (room : Option Nat) :
    (t.execute data room).sink = (t.executeNamed t.name data room).sink := by
  unfold execute executeNamed run tree?
  cases t.trees.get? t.name <;> rfl

/-! ### The values that the encoder is asked for -/

/-- An execution asks the encoder for no other values: with every encoder that gives the same
answers for these it is the same. The values for which it is called are such values. -/
def AsksOnly (t : Template) (name : String) (data : Value) (room : Option Nat)
    (asked : Value → Prop) : Prop :=
  ∀ e : Encoder, (∀ v, asked v → e v = t.encoder v) →
    (t.withEncoder e).executeNamed name data room = t.executeNamed name data room

/-- The encoder that refuses all other values. -/
noncomputable def encoderFor (t : Template) (asked : Value → Prop) : Encoder := fun v =>
  letI := Classical.propDecidable (asked v)
  if asked v then t.encoder v else .error (.unsupported v.kind)

/-- What comes from the restricted encoder is the literal of a value that is asked for. -/
lemma supplies_encoderFor {asked : Value → Prop} {p : Piece}
    (h : (t.withEncoder (t.encoderFor asked)).Supplies (fun _ => True) p) :
    t.Supplies asked p := by
  cases h with
  | text htree hs => exact .text htree hs
  | @literal v sql _ hsql =>
    change t.encoderFor asked v = .ok sql at hsql
    unfold encoderFor at hsql
    split at hsql
    · rename_i hv
      exact .literal hv hsql
    · cases hsql

/-- Whatever an execution writes, whether it fails or not, is made of the texts of stored trees and
of literals that the encoder gives for the values that it is asked for, one after the other. Only
in an execution that fails because there is no room left is the last piece cut off. -/
theorem executeNamed_supplied (ht : t.Built Tree.IsRead) (name : String) (data : Value)
    (room : Option Nat) :
    (∀ asked, t.AsksOnly name data room asked →
        (t.executeNamed name data room).sink.Consists (t.Supplies asked) room) ∧
      ((t.executeNamed name data room).failure = none →
        (t.executeNamed name data room).sink.cut = []) ∧
      (t.executeNamed name data room).sink.bytes =
        (t.executeNamed name data room).sink.pieces.reverse.flatMap Piece.bytes ++
          (t.executeNamed name data room).sink.cut ∧
      (t.execute data room).sink = (t.executeNamed t.name data room).sink := by
  have hguarded : ∀ e, (t.withEncoder e).IsGuarded := fun e =>
    Built.isGuarded (fun _ => Tree.IsRead.isComplete) (ht.encoder e)
  refine ⟨?_, ?_, rfl, execute_sink t data room⟩
  · intro asked hasked
    -- the run is the same with an encoder that gives no other literals than those it is asked for
    have hsame := hasked (t.encoderFor asked) fun v hv => by simp [encoderFor, hv]
    have hconsists := (executeNamed_consists (hguarded (t.encoderFor asked))
      (Environment.keeps_true _) name data room trivial).1
    rw [hsame] at hconsists
    exact hconsists.mono fun _ => supplies_encoderFor
  · exact (executeNamed_consists (hguarded t.encoder) (Environment.keeps_true _) name data room
      trivial).2

lemma load_parse_of_ok {t t' : Template} {source : String}
    (h : t.withSource t.name source = .ok t') : t.load (parse source) = (t', none) := by
  have hparse : t.load (parse source) = t.load (parseAs t.name source) := rfl
  rw [hparse, load_parseAs, follow, h]
  rfl

/-- The data alone is a pipeline of one command. -/
lemma ofTokens_dot (c : PipelineContext) (scope : List String) (offset : Nat) (spaced : Bool) :
    PipelineOf.ofTokens c .command scope [⟨.dot, offset, spaced⟩] =
      .ok (⟨c.positionOf offset, false, [],
        [⟨c.positionOf offset, [.dot (c.positionOf offset)]⟩]⟩, scope) := by
  have hoperand : readOperand c scope ⟨.dot, offset, spaced⟩ [] =
      .ok ⟨.dot (c.positionOf offset), scope, [], Nat.one_pos⟩ := by
    rw [readOperand]
    rfl
  have hoperands : readOperands c scope [⟨.dot, offset, spaced⟩] =
      .ok ⟨[.dot (c.positionOf offset)], scope, [], Nat.two_pos⟩ := by
    rw [readOperands, if_neg (by simp [endsCommand]), hoperand]
    change (readOperands c scope [] >>= _) = _
    rw [readOperands]
    rfl
  have hcommands : readCommands c scope [⟨.dot, offset, spaced⟩] =
      .ok ⟨[⟨c.positionOf offset, [.dot (c.positionOf offset)]⟩], scope, [], Nat.two_pos⟩ := by
    rw [readCommands, hoperands]
    rfl
  rw [PipelineOf.ofTokens, readPipeline]
  change ((readCommands c scope _ >>= _) >>= _) = _
  rw [hcommands]
  rfl

/-- A text and an action are read from their source, and the action gets its call of the encoder. -/
lemma load_action :
    (new "q").load (parse "x = \x7b\x7b.\x7d\x7d") =
      ({ new "q" with
        trees := .insert .empty "q" ⟨"q", ⟨⟨0, 1⟩, [.text ⟨0, 1⟩ "x = ", .action ⟨4, 1⟩
          ⟨⟨6, 1⟩, false, [], [⟨⟨6, 1⟩, [.dot ⟨6, 1⟩]⟩, ⟨⟨6, 1⟩, [.identifier ⟨6, 1⟩ hookName]⟩]⟩]⟩⟩ },
        none) := by
  have hitems : Item.ofSource .braces "x = \x7b\x7b.\x7d\x7d" =
      .ok [.text 0 "x = ", .action 4 [⟨.dot, 6, true⟩]] := eq_ok_of_toOption (by decide +kernel)
  refine load_parse_of_ok ?_
  have hsource : Tree.ofSource .braces (new "q").isCallable "q" "x = \x7b\x7b.\x7d\x7d" =
      .ok (.insert .empty "q" ⟨"q", ⟨⟨0, 1⟩, [.text ⟨0, 1⟩ "x = ", .action ⟨4, 1⟩
        ⟨⟨6, 1⟩, false, [], [⟨⟨6, 1⟩, [.dot ⟨6, 1⟩]⟩]⟩]⟩⟩) := by
    rw [Tree.ofSource, hitems]
    change Except.bind (Except.bind (Except.bind (PipelineOf.ofTokens _ _ _ _) _) _) _ = _
    rw [ofTokens_dot]
    rfl
  rw [withSource, show (new "q").delimiters = .braces from rfl, show (new "q").name = "q" from rfl,
    hsource]
  rfl

/-- A source with one action, executed with a number, which is all that the encoder is asked for. -/
theorem executeNamed_supplied_of_action :
    let t := ((new "q").load (parse "x = \x7b\x7b.\x7d\x7d")).1
    t.Built Tree.IsRead ∧ t.AsksOnly "q" (.int 7) none (· = .int 7) ∧
      (t.executeNamed "q" (.int 7) none).sink.Consists (t.Supplies (· = .int 7)) none ∧
      (t.executeNamed "q" (.int 7) none).sink.pieces.length = 2 ∧
      (t.executeNamed "q" (.int 7) none).sink.text = "x = 7" := by
  intro t
  have ht : t.Built Tree.IsRead := (Built.new "q").source _
  have hrun : ∀ e : Encoder, (t.withEncoder e).executeNamed "q" (.int 7) none =
      (t.withEncoder fun _ => e (.int 7)).executeNamed "q" (.int 7) none := by
    intro e
    simp only [t, load_action]
    rfl
  have hasks : t.AsksOnly "q" (.int 7) none (· = .int 7) := by
    intro e he
    rw [hrun e, he _ rfl, ← hrun t.encoder]
    rfl
  exact ⟨ht, hasks, (executeNamed_supplied ht "q" (.int 7) none).1 _ hasks, by decide +kernel,
    by decide +kernel⟩

end Template

end SafeQuery
