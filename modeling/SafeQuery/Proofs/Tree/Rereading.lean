import SafeQuery.Proofs.Tree.Placed
import SafeQuery.Proofs.Tree.Words

/-!
# Pipelines that are read again

A pipeline that can be read is read again from its words, wherever these stand, and it is the same
apart from positions: `PipelineOf.Readable.readPipeline_again`. So the printed form of a pipeline in
a tree of a source, lexed as an action, is read as this pipeline where the pipeline stood,
`ofSource_pipes_again`, also when the calls of the encoder have been put into the tree.
-/

namespace SafeQuery

def Variable.unplaced (v : Variable) : Variable := { v with pos := default }

def Number.unplaced (n : Number) : Number := { n with pos := default }

mutual

def Operand.unplaced : Operand → Operand
  | .identifier _ name    => .identifier default name
  | .dot _                => .dot default
  | .nil _                => .nil default
  | .bool _ b             => .bool default b
  | .number n             => .number n.unplaced
  | .string _ quoted text => .string default quoted text
  | .field _ names        => .field default names
  | .var v                => .var v.unplaced
  | .chain _ base names   => .chain default base.unplaced names
  | .pipeline ⟨_, assigns, declared, commands⟩ =>
    .pipeline ⟨default, assigns, declared.map Variable.unplaced, commandsUnplaced commands⟩

def operandsUnplaced : List Operand → List Operand
  | []      => []
  | o :: os => o.unplaced :: operandsUnplaced os

def commandsUnplaced : List (CommandOf Operand) → List (CommandOf Operand)
  | []            => []
  | ⟨_, os⟩ :: cs => ⟨default, operandsUnplaced os⟩ :: commandsUnplaced cs

end

def PipelineOf.unplaced (p : Pipeline) : Pipeline :=
  ⟨default, p.assigns, p.declared.map Variable.unplaced, commandsUnplaced p.commands⟩

lemma Number.ofText_unplaced (pos pos' : Position) (text : String) :
    (ofText pos text).unplaced = (ofText pos' text).unplaced := by
  unfold ofText unplaced
  dsimp only
  split
  · rfl
  · rfl
  · split <;> rfl

lemma Operand.isConstant_unplaced (o : Operand) : o.unplaced.isConstant = o.isConstant := by
  cases o with
  | pipeline p =>
    obtain ⟨_, _, _, _⟩ := p
    rfl
  | identifier | dot | nil | bool | number | string | field | var | chain => rfl

lemma commandsUnplaced_eq_map (cs : List Command) :
    commandsUnplaced cs = cs.map fun c => ⟨default, operandsUnplaced c.operands⟩ := by
  induction cs with
  | nil          => rfl
  | cons c cs ih => rw [commandsUnplaced, ih, List.map_cons]

lemma commandsUnplaced_tail (cs : List Command) :
    (commandsUnplaced cs).tail = commandsUnplaced cs.tail := by
  rw [commandsUnplaced_eq_map, commandsUnplaced_eq_map, List.map_tail]

lemma operandsUnplaced_ne_nil {os os' : List Operand}
    (h : operandsUnplaced os' = operandsUnplaced os) (hne : os ≠ []) : os' ≠ [] := by
  rintro rfl
  cases os with
  | nil      => contradiction
  | cons _ _ => cases h

/-- Whether commands take values does not depend on positions. -/
lemma takeValues_unplaced {cs : List Command} :
    TakeValues (commandsUnplaced cs) ↔ TakeValues cs := by
  induction cs with
  | nil => rfl
  | cons c cs ih =>
    have hhead : ((operandsUnplaced c.operands).head?.any Operand.isConstant) =
        c.operands.head?.any Operand.isConstant := by
      cases c.operands with
      | nil       => rfl
      | cons o os => exact o.isConstant_unplaced
    simp only [TakeValues, commandsUnplaced, List.forall_mem_cons, hhead]
    exact and_congr_right fun _ => ih

/-! ### The first words -/

def TokenKind.startsOperand : TokenKind → Bool
  | .identifier _ | .dot | .nil | .bool _ | .number _ | .string _ _ | .field _ | .var _ _
  | .leftParen => true
  | _          => false

/-- The first word of an operand, which alone may have a space before it. -/
lemma Operand.words_eq_cons (o : Operand) :
    ∃ kind ws, kind.startsOperand = true ∧ ∀ spaced, o.words spaced = ⟨kind, spaced⟩ :: ws := by
  match o with
  | .chain _ base names =>
    obtain ⟨kind, ws, hkind, hws⟩ := base.words_eq_cons
    exact ⟨kind, ws ++ [⟨.field names, false⟩], hkind, fun spaced => by rw [words, hws]; rfl⟩
  | .pipeline ⟨_, _, _, _⟩ => exact ⟨_, _, rfl, fun _ => rfl⟩
  | .identifier _ _ | .dot _ | .nil _ | .bool _ _ | .number _ | .string _ _ _ | .field _ _
  | .var _ => exact ⟨_, _, rfl, fun _ => rfl⟩

/-- The tokens do not go on with fields of the operand before them. -/
def Detached : List Token → Prop
  | ⟨.field _, _, false⟩ :: _ => False
  | _                         => True

/-- The tokens do not go on with a declaration whose variable stands before them. -/
def Undeclaring : List Token → Prop
  | ⟨.declare, _, _⟩ :: _ | ⟨.assign, _, _⟩ :: _ | ⟨.comma, _, _⟩ :: _ => False
  | _                                                                 => True

lemma detached_of_spaced {t : Token} {ts : List Token} (h : t.spaced = true) :
    Detached (t :: ts) := by
  obtain ⟨kind, offset, _⟩ := t
  subst h
  cases kind <;> trivial

lemma undeclaring_of_startsOperand {t : Token} {ts : List Token}
    (h : t.kind.startsOperand = true) : Undeclaring (t :: ts) := by
  obtain ⟨kind, offset, spaced⟩ := t
  cases kind <;> trivial

lemma endsCommand_of_startsOperand {t : Token} {ts : List Token}
    (h : t.kind.startsOperand = true) : endsCommand (t :: ts) = false := by
  obtain ⟨kind, offset, spaced⟩ := t
  cases kind <;> first | rfl | cases h

lemma endsCommand_of_endsPipeline {ts : List Token} (h : endsPipeline ts = true) :
    endsCommand ts = true := by
  unfold endsPipeline at h
  split at h
  · rfl
  · rfl
  · cases h

lemma detached_of_endsCommand {ts : List Token} (h : endsCommand ts = true) : Detached ts := by
  unfold endsCommand at h
  split at h
  · trivial
  · trivial
  · trivial
  · cases h

lemma undeclaring_of_endsCommand {ts : List Token} (h : endsCommand ts = true) :
    Undeclaring ts := by
  unfold endsCommand at h
  split at h
  · trivial
  · trivial
  · trivial
  · cases h


/-! ### Declarations -/

/-- The tokens do not begin with variables that a value is given to. -/
def DeclaresNothing : List Token → Prop
  | ⟨.var _ _, _, _⟩ :: ts => Undeclaring ts
  | _                      => True

section Reading

variable {c : PipelineContext}

lemma readDeclarations_of_declaresNothing {clause : Clause} {ts : List Token}
    (h : DeclaresNothing ts) : readDeclarations c clause ts = .ok ⟨false, [], ts⟩ := by
  unfold readDeclarations
  dsimp only
  split
  · contradiction
  · contradiction
  · contradiction
  · rfl

lemma word_eq_iff {t : Token} {w : Word} :
    t.word = w ↔ ∃ offset, t = ⟨w.kind, offset, w.spaced⟩ := by
  obtain ⟨kind, offset, spaced⟩ := t
  obtain ⟨kind', spaced'⟩ := w
  simp [Token.word]

lemma clause_of_isLoop {clause : Clause} (h : clause.isLoop = true) : clause = .branch .range := by
  unfold Clause.isLoop at h
  split at h
  · rfl
  · cases h

/-- The variables that a pipeline gives its value to are read again. -/
lemma readDeclarations_again {clause : Clause} {scope : List String} {assigns spaced : Bool}
    {declared : List Variable} (h : Declarable clause.isLoop scope assigns declared)
    {front ts : List Token}
    (hfront : front.map Token.word = declarationWords spaced assigns declared)
    (hts : declared = [] → DeclaresNothing ts) :
    ∃ vs, readDeclarations c clause (front ++ ts) = .ok ⟨assigns, vs, ts⟩ ∧
      vs.map Variable.unplaced = declared.map Variable.unplaced := by
  have hbare := h.bare
  have hlength := h.length
  match declared with
  | [] =>
    obtain rfl : front = [] := List.map_eq_nil_iff.mp hfront
    obtain rfl : assigns = false := by
      by_contra hassigns
      exact (h.assigned (by simpa using hassigns)).1 rfl
    exact ⟨[], readDeclarations_of_declaresNothing (hts rfl), rfl⟩
  | [v] =>
    obtain ⟨x, xpos, _⟩ := v
    obtain rfl := hbare _ List.mem_cons_self
    simp only [declarationWords, List.map_eq_cons_iff, List.map_eq_nil_iff, word_eq_iff] at hfront
    obtain ⟨_, _, rfl, ⟨at₁, rfl⟩, _, _, rfl, ⟨at₂, rfl⟩, rfl⟩ := hfront
    refine ⟨[⟨c.positionOf at₁, _, []⟩], ?_, rfl⟩
    cases assigns <;> rfl
  | [v, w] =>
    obtain ⟨x, xpos, _⟩ := v
    obtain ⟨y, ypos, _⟩ := w
    obtain ⟨hv, hw⟩ := List.forall_mem_cons.mp hbare
    obtain rfl := hv
    obtain rfl := hw _ List.mem_cons_self
    have hloop : clause.isLoop = true := by
      by_contra hloop
      simp [hloop] at hlength
    simp only [declarationWords, List.map_eq_cons_iff, List.map_eq_nil_iff, word_eq_iff] at hfront
    obtain ⟨_, _, rfl, ⟨at₁, rfl⟩, _, _, rfl, ⟨at₂, rfl⟩, _, _, rfl, ⟨at₃, rfl⟩, _, _, rfl,
      ⟨at₄, rfl⟩, rfl⟩ := hfront
    refine ⟨[⟨c.positionOf at₁, _, []⟩, ⟨c.positionOf at₃, _, []⟩], ?_, rfl⟩
    obtain rfl := clause_of_isLoop hloop
    cases assigns <;> rfl
  | _ :: _ :: _ :: _ =>
    simp only [List.length_cons] at hlength
    split at hlength <;> omega

/-- What is declared comes into scope again. -/
lemma declare_again {ofLoop assigns : Bool} {scope : List String} {declared vs : List Variable}
    (ts : List Token) (h : Declarable ofLoop scope assigns declared)
    (hvs : vs.map Variable.unplaced = declared.map Variable.unplaced) :
    declare ⟨assigns, vs, ts⟩ scope = .ok (newNames assigns declared ++ scope) := by
  have hnames : vs.map (·.name) = declared.map (·.name) := by
    simpa [Variable.unplaced, Function.comp_def] using congrArg (List.map (·.name)) hvs
  have hscope : assigns = true → ∀ v ∈ vs, v.name ∈ scope := by
    intro hassigns v hv
    have hmem : v.name ∈ declared.map (·.name) := hnames ▸ List.mem_map_of_mem hv
    obtain ⟨w, hw, heq⟩ := List.mem_map.mp hmem
    exact heq ▸ (h.assigned hassigns).2 w hw
  rw [declare_of_mem hscope, newNames, newNames, hnames]

/-! ### Operands, commands and pipelines -/

lemma readFields_of_detached {n : Nat} {pos : Position} {r : Reading n Operand}
    (h : Detached r.rest) : readFields pos r = .ok r := by
  unfold readFields
  split
  · rename_i heq
    rw [heq] at h
    cases h
  · rfl

/-- Fields directly behind an operand that takes them. -/
lemma readFields_again {n : Nat} {o : Operand} (ho : o.takesFields = true) (pos : Position)
    {scope names : List String} {offset : Nat} {rest : List Token}
    (fewer : (⟨.field names, offset, false⟩ :: rest : List Token).length < n) :
    ∃ fewer', readFields pos ⟨o, scope, ⟨.field names, offset, false⟩ :: rest, fewer⟩ =
      .ok ⟨.chain pos o names, scope, rest, fewer'⟩ := by
  have hfields : o.withFields pos offset names = .ok (.chain pos o names) := by
    cases o with
    | identifier | pipeline => rfl
    | dot | nil | bool | number | string | field | var | chain => cases ho
  have fewer' : rest.length < n := by
    rw [List.length_cons] at fewer
    omega
  unfold readFields
  simp only [hfields]
  exact ⟨fewer', rfl⟩

/-- An operand of one token, and what is directly behind it. -/
lemma readOperand_of_token {scope : List String} {t : Token} (ts : List Token) {o : Operand}
    (hkind : t.kind ≠ .leftParen) (ho : Operand.ofToken c scope t = .ok o) :
    ∃ fewer, readOperand c scope t ts =
      readFields (c.positionOf t.offset) ⟨o, scope, ts, fewer⟩ := by
  rw [readOperand, if_neg hkind, ho]
  exact ⟨ts.length.lt_succ_self, rfl⟩

/-- A pipeline in parentheses, and what is directly behind it. -/
lemma readOperand_of_pipeline {scope scope' : List String} {t : Token} {ts rest : List Token}
    {p : Pipeline} {offset : Nat} {spaced : Bool} (hkind : t.kind = .leftParen)
    (hp : ∃ fewer, readPipeline c .parentheses scope ts =
      .ok ⟨p, scope', ⟨.rightParen, offset, spaced⟩ :: rest, fewer⟩) :
    ∃ fewer, readOperand c scope t ts =
      readFields (c.positionOf t.offset) ⟨.pipeline p, scope', rest, fewer⟩ := by
  obtain ⟨fewer, hp⟩ := hp
  have hfewer : rest.length < ts.length + 1 := by
    rw [List.length_cons] at fewer
    omega
  rw [readOperand, if_pos hkind, hp]
  exact ⟨hfewer, rfl⟩

lemma readOperands_of_endsCommand (scope : List String) {ts : List Token}
    (h : endsCommand ts = true) :
    ∃ fewer, readOperands c scope ts = .ok ⟨[], scope, ts, fewer⟩ := by
  cases ts with
  | nil       => exact ⟨by omega, by rw [readOperands]⟩
  | cons t ts => exact ⟨by omega, by rw [readOperands, if_pos h]⟩

/-- An operand, and those behind it. -/
lemma readOperands_cons {scope scope₁ scope' : List String} {t : Token} {ts mid rest : List Token}
    {o : Operand} {os : List Operand} (hmore : endsCommand (t :: ts) = false)
    (ho : ∃ fewer, readOperand c scope t ts = .ok ⟨o, scope₁, mid, fewer⟩)
    (hos : ∃ fewer, readOperands c scope₁ mid = .ok ⟨os, scope', rest, fewer⟩) :
    ∃ fewer, readOperands c scope (t :: ts) = .ok ⟨o :: os, scope', rest, fewer⟩ := by
  obtain ⟨fewer, ho⟩ := ho
  obtain ⟨fewer', hos⟩ := hos
  have hfewer : rest.length < (t :: ts).length + 1 := by
    rw [List.length_cons]
    omega
  refine ⟨hfewer, ?_⟩
  rw [readOperands]
  simp only [hmore, ho, hos, Bool.false_eq_true, if_false, bind, Except.bind, pure, Except.pure]

/-- The last command of a pipeline. -/
lemma readCommands_last {scope scope' : List String} {ts rest : List Token} {os : List Operand}
    (hne : os ≠ []) (hrest : endsPipeline rest = true)
    (hos : ∃ fewer, readOperands c scope ts = .ok ⟨os, scope', rest, fewer⟩) :
    ∃ fewer, readCommands c scope ts =
      .ok ⟨[⟨c.positionOf (c.nextOffset ts), os⟩], scope', rest, fewer⟩ := by
  obtain ⟨fewer, hos⟩ := hos
  have hmore : os.isEmpty = false := List.isEmpty_eq_false_iff.mpr hne
  rw [readCommands, hos]
  simp only [hmore, Bool.false_eq_true, if_false, bind, Except.bind, pure, Except.pure]
  split
  · cases hrest
  · exact ⟨fewer, rfl⟩

/-- A command before a bar, and those behind it. -/
lemma readCommands_bar {scope scope₁ scope' : List String} {ts mid rest : List Token}
    {os : List Operand} {cs : List Command} {offset : Nat} {spaced : Bool} (hne : os ≠ [])
    (hos : ∃ fewer, readOperands c scope ts =
      .ok ⟨os, scope₁, ⟨.bar, offset, spaced⟩ :: mid, fewer⟩)
    (hmore : endsPipeline mid = false)
    (hcs : ∃ fewer, readCommands c scope₁ mid = .ok ⟨cs, scope', rest, fewer⟩) :
    ∃ fewer, readCommands c scope ts =
      .ok ⟨⟨c.positionOf (c.nextOffset ts), os⟩ :: cs, scope', rest, fewer⟩ := by
  obtain ⟨fewer, hos⟩ := hos
  obtain ⟨fewer', hcs⟩ := hcs
  have hempty : os.isEmpty = false := List.isEmpty_eq_false_iff.mpr hne
  have hfewer : rest.length < ts.length + 1 := by
    rw [List.length_cons] at fewer
    omega
  refine ⟨hfewer, ?_⟩
  rw [readCommands, hos]
  simp only [hempty, hmore, hcs, Bool.false_eq_true, if_false, bind, Except.bind, pure,
    Except.pure]

/-- A pipeline is what stands before its commands and these. -/
lemma readPipeline_of_parts {clause : Clause} {scope scope₁ scope' : List String}
    {ts rest : List Token} {d : Declarations} {cs : List Command}
    (hd : readDeclarations c clause ts = .ok d) (hscope : declare d scope = .ok scope₁)
    (hmore : endsPipeline d.rest = false)
    (hcs : ∃ fewer, readCommands c scope₁ d.rest = .ok ⟨cs, scope', rest, fewer⟩)
    (htake : TakeValues cs.tail) :
    ∃ fewer, readPipeline c clause scope ts =
      .ok ⟨⟨c.positionOf (c.nextOffset ts), d.assigns, d.declared, cs⟩, scope', rest, fewer⟩ := by
  obtain ⟨fewer, hcs⟩ := hcs
  have hfewer : rest.length < ts.length + 1 := by
    have := readDeclarations_length hd
    omega
  have hfirst : firstConstant? 2 cs.tail = none := firstConstant_eq_none.mpr htake
  rw [readPipeline]
  split
  · rename_i herror
    rw [hd] at herror
    cases herror
  · rename_i hok
    rw [hd] at hok
    cases hok
    simp only [hscope, hmore, hcs, Bool.false_eq_true, if_false, bind, Except.bind, pure,
      Except.pure]
    split
    · rename_i hsome
      rw [hfirst] at hsome
      cases hsome
    · exact ⟨hfewer, rfl⟩

/-- An operand of one token is read again. -/
lemma ofToken_again {scope : List String} {o : Operand} (h : o.Readable c.isFunction scope)
    {t : Token} {spaced : Bool} (hwords : o.words spaced = [t.word]) :
    t.kind ≠ .leftParen ∧ ∃ o', Operand.ofToken c scope t = .ok o' ∧ o'.unplaced = o.unplaced ∧
      o.scopeBehind scope = scope := by
  obtain ⟨kind, offset, _⟩ := t
  cases o with
  | identifier pos name =>
    cases hwords
    exact ⟨by simp, .identifier (c.positionOf offset) name, if_pos h.1, rfl, rfl⟩
  | dot | nil | bool | string | field =>
    cases hwords
    exact ⟨by simp, _, rfl, rfl, rfl⟩
  | number n =>
    cases hwords
    obtain ⟨-, hn, hsome⟩ := h
    have hsame := Number.ofText_unplaced (c.positionOf offset) n.pos n.text
    rw [← hn] at hsame
    have hint : (Number.ofText (c.positionOf offset) n.text).int = n.int :=
      (congrArg Number.int hsame :)
    have hfloat : (Number.ofText (c.positionOf offset) n.text).float = n.float :=
      (congrArg Number.float hsame :)
    refine ⟨by simp, .number (Number.ofText (c.positionOf offset) n.text), ?_, ?_, rfl⟩
    · simp only [Operand.ofToken, hint, hfloat, hsome, Bool.false_eq_true, if_false]
    · rw [Operand.unplaced, Operand.unplaced, hsame]
  | var v =>
    cases hwords
    have hname : checkVariable scope offset v.name = .ok () :=
      if_pos (List.contains_iff_mem.mpr h.1)
    refine ⟨by simp, .var ⟨c.positionOf offset, v.name, v.fields⟩, ?_, rfl, rfl⟩
    simp only [Operand.ofToken, hname]
    rfl
  | chain pos base names =>
    obtain ⟨_, _, -, hbase⟩ := base.words_eq_cons
    simp [Operand.words, hbase] at hwords
  | pipeline p =>
    obtain ⟨_, assigns, declared, commands⟩ := p
    simp [Operand.words] at hwords

lemma Operand.takesFields_unplaced (o : Operand) : o.unplaced.takesFields = o.takesFields := by
  cases o with
  | pipeline p =>
    obtain ⟨_, _, _, _⟩ := p
    rfl
  | identifier | dot | nil | bool | number | string | field | var | chain => rfl

/-- A pipeline is read again if its commands are. -/
lemma readPipeline_of_commands {clause : Clause} {scope : List String} {spaced : Bool}
    {p : Pipeline} (h : Declarable clause.isLoop scope p.assigns p.declared)
    (htake : TakeValues p.commands.tail)
    {front ts : List Token} (hfront : front.map Token.word =
      declarationWords spaced p.assigns p.declared)
    (hts : p.declared = [] → DeclaresNothing ts) (hmore : endsPipeline ts = false)
    {cs : List Command} {scope' : List String} {rest : List Token}
    {fewer : rest.length < ts.length + 1}
    (hcs : readCommands c (newNames p.assigns p.declared ++ scope) ts =
      .ok ⟨cs, scope', rest, fewer⟩)
    (hsame : commandsUnplaced cs = commandsUnplaced p.commands) :
    ∃ p' fewer', readPipeline c clause scope (front ++ ts) = .ok ⟨p', scope', rest, fewer'⟩ ∧
      p'.unplaced = p.unplaced := by
  obtain ⟨vs, hvs, hdeclared⟩ := readDeclarations_again (c := c) h hfront hts
  have htake' : TakeValues cs.tail := by
    rw [← takeValues_unplaced, ← commandsUnplaced_tail, hsame, commandsUnplaced_tail,
      takeValues_unplaced]
    exact htake
  obtain ⟨fewer', hread⟩ := readPipeline_of_parts hvs (declare_again ts h hdeclared) hmore
    ⟨fewer, hcs⟩ htake'
  exact ⟨_, fewer', hread, by rw [PipelineOf.unplaced, PipelineOf.unplaced, hdeclared, hsame]⟩

/-- A variable at the beginning of an operand is the operand. -/
lemma Operand.Readable.words_var {scope : List String} {o : Operand}
    (h : o.Readable c.isFunction scope) {spaced : Bool} {x : String} {fields : List String}
    {ws : List Word} (hwords : o.words spaced = ⟨.var x fields, spaced⟩ :: ws) : ws = [] := by
  cases o with
  | var v =>
    cases hwords
    rfl
  | chain pos base names =>
    obtain ⟨hbase, -⟩ := h
    cases base with
    | pipeline p =>
      obtain ⟨_, _, _, _⟩ := p
      cases hwords
    | identifier => cases hwords
    | dot | nil | bool | number | string | field | var | chain => cases hbase
  | pipeline p =>
    obtain ⟨_, _, _, _⟩ := p
    cases hwords
  | identifier | dot | nil | bool | number | string | field => cases hwords

/-- No operator of a declaration stands behind an operand. -/
lemma operandsWords_undeclaring {os : List Operand} {spaced : Bool} {ws : List Word}
    {front rest : List Token} (hfront : front.map Token.word = operandsWords spaced os ++ ws)
    (hws : ∀ front', front'.map Token.word = ws → Undeclaring (front' ++ rest)) :
    Undeclaring (front ++ rest) := by
  cases os with
  | nil       => exact hws front hfront
  | cons o os =>
    obtain ⟨kind, vs, hkind, hvs⟩ := o.words_eq_cons
    simp only [operandsWords, hvs, List.cons_append, List.map_eq_cons_iff, word_eq_iff] at hfront
    obtain ⟨_, _, rfl, ⟨offset, rfl⟩, -⟩ := hfront
    exact undeclaring_of_startsOperand hkind

/-- No fields of the operand before them stand at the beginning of operands behind a space. -/
lemma operandsWords_detached {os : List Operand} {front rest : List Token}
    (hfront : front.map Token.word = operandsWords true os) (hrest : endsCommand rest = true) :
    Detached (front ++ rest) := by
  cases os with
  | nil =>
    obtain rfl := List.map_eq_nil_iff.mp hfront
    exact detached_of_endsCommand hrest
  | cons o os =>
    obtain ⟨kind, ws, -, hws⟩ := o.words_eq_cons
    rw [operandsWords, hws, List.cons_append, List.map_eq_cons_iff] at hfront
    obtain ⟨t, front', rfl, ht, -⟩ := hfront
    exact detached_of_spaced (congrArg Word.spaced ht)

/-- The first operand of commands, and what stands behind it. -/
lemma commandsWords_eq_append (cs : List Command) (pos : Position) (o : Operand)
    (os : List Operand) {rest : List Token} (hrest : endsCommand rest = true) :
    ∃ ws, (∀ spaced, commandsWords spaced (⟨pos, o :: os⟩ :: cs) = o.words spaced ++ ws) ∧
      ∀ front, front.map Token.word = ws → Undeclaring (front ++ rest) := by
  cases cs with
  | nil =>
    refine ⟨operandsWords true os, fun _ => by rw [commandsWords, operandsWords],
      fun front hfront => ?_⟩
    rw [← List.append_nil (operandsWords _ _)] at hfront
    refine operandsWords_undeclaring hfront fun front' hnil => ?_
    obtain rfl := List.map_eq_nil_iff.mp hnil
    exact undeclaring_of_endsCommand hrest
  | cons c cs =>
    refine ⟨operandsWords true os ++ ⟨.bar, true⟩ :: commandsWords true (c :: cs),
      fun _ => ?_, fun front hfront => ?_⟩
    · rw [commandsWords_cons, operandsWords, List.append_assoc]
    · refine operandsWords_undeclaring hfront fun front' hbar => ?_
      simp only [List.map_eq_cons_iff, word_eq_iff] at hbar
      obtain ⟨_, _, rfl, ⟨offset, rfl⟩, -⟩ := hbar
      trivial

/-- Commands declare nothing, and they do not end where they begin. -/
lemma commandsReadable_begins {scope : List String} {cs : List Command} {spaced : Bool}
    (h : commandsReadable c.isFunction scope cs) (hne : cs ≠ []) {front rest : List Token}
    (hfront : front.map Token.word = commandsWords spaced cs) (hrest : endsCommand rest = true) :
    DeclaresNothing (front ++ rest) ∧ endsPipeline (front ++ rest) = false := by
  match cs with
  | ⟨pos, o :: os⟩ :: cs =>
    obtain ⟨-, ⟨ho, -⟩, -⟩ := h
    obtain ⟨ws, hws, hbehind⟩ := commandsWords_eq_append cs pos o os hrest
    obtain ⟨kind, vs, hkind, hvs⟩ := o.words_eq_cons
    rw [hws, hvs, List.cons_append, List.map_eq_cons_iff] at hfront
    obtain ⟨t, front', rfl, ht, hfront'⟩ := hfront
    obtain ⟨offset, rfl⟩ := word_eq_iff.mp ht
    refine ⟨?_, ?_⟩
    · cases kind with
      | var x fields =>
        obtain rfl := ho.words_var (hvs spaced)
        exact hbehind front' hfront'
      | bar | declare | assign | comma | rightParen | keyword => cases hkind
      | identifier | dot | nil | bool | number | string | field | leftParen => trivial
    · by_contra hends
      have hcommand := endsCommand_of_endsPipeline (by simpa using hends)
      rw [endsCommand_of_startsOperand hkind] at hcommand
      cases hcommand

mutual

/-- An operand is read again: before fields if it takes fields, and before anything else. -/
lemma Operand.Readable.readOperand_again {scope : List String} {o : Operand} {spaced : Bool}
    (h : o.Readable c.isFunction scope) {t : Token} {front : List Token}
    (hfront : (t :: front).map Token.word = o.words spaced) (rest : List Token) :
    ∃ o' fewer, o'.unplaced = o.unplaced ∧
      (o.takesFields = true → readOperand c scope t (front ++ rest) =
        readFields (c.positionOf t.offset) ⟨o', o.scopeBehind scope, rest, fewer⟩) ∧
      (Detached rest → readOperand c scope t (front ++ rest) =
        .ok ⟨o', o.scopeBehind scope, rest, fewer⟩) := by
  match o with
  | .chain pos base names =>
    obtain ⟨hbase, -, hreadable⟩ := h
    obtain ⟨kind, ws, -, hws⟩ := base.words_eq_cons
    rw [Operand.words, hws, List.cons_append, List.map_cons, List.cons.injEq,
      List.map_eq_append_iff] at hfront
    obtain ⟨ht, front₁, front₂, rfl, hfront₁, hfront₂⟩ := hfront
    simp only [List.map_eq_cons_iff, List.map_eq_nil_iff, word_eq_iff] at hfront₂
    obtain ⟨_, _, rfl, ⟨offset, rfl⟩, rfl⟩ := hfront₂
    have hfront : (t :: front₁).map Token.word = base.words spaced := by
      rw [hws, List.map_cons, ht, hfront₁]
    obtain ⟨o, fewer, hsame, hread, -⟩ :=
      hreadable.readOperand_again hfront (⟨.field names, offset, false⟩ :: rest)
    have htakes : o.takesFields = true := by
      rw [← o.takesFields_unplaced, hsame, base.takesFields_unplaced, hbase]
    obtain ⟨fewer', hfields⟩ := readFields_again htakes (c.positionOf t.offset) fewer
    rw [List.append_assoc]
    refine ⟨_, fewer', ?_, (nomatch ·), fun _ => (hread hbase).trans hfields⟩
    rw [Operand.unplaced, hsame, Operand.unplaced]
  | .pipeline ⟨pos, assigns, declared, commands⟩ =>
    obtain ⟨hdeclarable, hne, htake, hcommands⟩ := h
    simp only [Operand.words, List.map_cons, List.cons.injEq, List.map_eq_append_iff] at hfront
    obtain ⟨ht, front₁, _, rfl, hfront₁, front₂, front₃, rfl, hfront₂, hfront₃⟩ := hfront
    simp only [List.map_eq_cons_iff, List.map_eq_nil_iff, word_eq_iff] at hfront₃
    obtain ⟨_, _, rfl, ⟨offset, rfl⟩, rfl⟩ := hfront₃
    have hends : endsPipeline (⟨.rightParen, offset, false⟩ :: rest) = true := rfl
    obtain ⟨hnothing, hmore⟩ :=
      commandsReadable_begins hcommands hne hfront₂ (endsCommand_of_endsPipeline hends)
    obtain ⟨cs, fewer, hcs, hsame⟩ :=
      commandsReadable_readCommands_again hcommands hne hfront₂ hends
    have hdeclarable : Declarable (Clause.parentheses).isLoop scope assigns declared := hdeclarable
    obtain ⟨p, fewer', hp, hsame'⟩ :=
      readPipeline_of_commands (p := ⟨pos, assigns, declared, commands⟩) hdeclarable htake hfront₁
        (fun _ => hnothing) hmore hcs hsame
    obtain ⟨fewer, hread⟩ := readOperand_of_pipeline (congrArg Word.kind ht) ⟨fewer', hp⟩
    rw [List.append_assoc, List.append_assoc]
    exact ⟨.pipeline p, fewer, congrArg Operand.pipeline hsame', fun _ => hread,
      fun hrest => hread.trans (readFields_of_detached hrest)⟩
  | .identifier _ _ | .dot _ | .nil _ | .bool _ _ | .number _ | .string _ _ _ | .field _ _
  | .var _ =>
    simp only [Operand.words, List.map_cons, List.cons.injEq, List.map_eq_nil_iff] at hfront
    obtain ⟨ht, rfl⟩ := hfront
    obtain ⟨hkind, o', ho', hsame, hscope⟩ := ofToken_again h (t := t) (congrArg ([·]) ht.symm)
    obtain ⟨fewer, hread⟩ := readOperand_of_token rest hkind ho'
    rw [hscope]
    exact ⟨o', fewer, hsame, fun _ => hread,
      fun hrest => hread.trans (readFields_of_detached hrest)⟩

/-- Operands are read again, up to the end of their command. -/
lemma operandsReadable_readOperands_again {scope : List String} {os : List Operand} {spaced : Bool}
    (h : operandsReadable c.isFunction scope os) {front : List Token}
    (hfront : front.map Token.word = operandsWords spaced os) {rest : List Token}
    (hrest : endsCommand rest = true) :
    ∃ os' fewer, readOperands c scope (front ++ rest) =
      .ok ⟨os', operandsScope scope os, rest, fewer⟩ ∧
        operandsUnplaced os' = operandsUnplaced os := by
  match os with
  | [] =>
    obtain rfl := List.map_eq_nil_iff.mp hfront
    rw [List.nil_append]
    obtain ⟨fewer, hread⟩ := readOperands_of_endsCommand scope hrest
    exact ⟨[], fewer, hread, rfl⟩
  | o :: os =>
    obtain ⟨kind, ws, hkind, hws⟩ := o.words_eq_cons
    rw [operandsWords, hws, List.cons_append, List.map_eq_cons_iff] at hfront
    obtain ⟨t, _, rfl, ht, hfront⟩ := hfront
    obtain ⟨front₁, front₂, rfl, hfront₁, hfront₂⟩ := List.map_eq_append_iff.mp hfront
    have hfirst : (t :: front₁).map Token.word = o.words spaced := by
      rw [hws, List.map_cons, ht, hfront₁]
    have hdetached := operandsWords_detached hfront₂ hrest
    obtain ⟨o', fewer, hsame, -, ho⟩ := h.1.readOperand_again hfirst (front₂ ++ rest)
    obtain ⟨os', fewer', hos, hsame'⟩ := operandsReadable_readOperands_again h.2 hfront₂ hrest
    have hmore : endsCommand (t :: (front₁ ++ (front₂ ++ rest))) = false :=
      endsCommand_of_startsOperand (by rw [show t.kind = kind from congrArg Word.kind ht, hkind])
    obtain ⟨fewer'', hread⟩ := readOperands_cons hmore ⟨fewer, ho hdetached⟩ ⟨fewer', hos⟩
    rw [List.cons_append, List.append_assoc]
    exact ⟨o' :: os', fewer'', hread, by rw [operandsUnplaced, operandsUnplaced, hsame, hsame']⟩

/-- Commands are read again, up to the end of their pipeline. -/
lemma commandsReadable_readCommands_again {scope : List String} {cs : List Command} {spaced : Bool}
    (h : commandsReadable c.isFunction scope cs) (hne : cs ≠ []) {front : List Token}
    (hfront : front.map Token.word = commandsWords spaced cs) {rest : List Token}
    (hrest : endsPipeline rest = true) :
    ∃ cs' fewer, readCommands c scope (front ++ rest) =
      .ok ⟨cs', commandsScope scope cs, rest, fewer⟩ ∧
        commandsUnplaced cs' = commandsUnplaced cs := by
  match cs with
  | [⟨_, os⟩] =>
    rw [commandsWords] at hfront
    obtain ⟨os', fewer, hos, hsame⟩ :=
      operandsReadable_readOperands_again h.2.1 hfront (endsCommand_of_endsPipeline hrest)
    obtain ⟨fewer', hread⟩ :=
      readCommands_last (operandsUnplaced_ne_nil hsame h.1) hrest ⟨fewer, hos⟩
    exact ⟨_, fewer', hread, by simp only [commandsUnplaced, hsame]⟩
  | ⟨_, os⟩ :: c' :: cs =>
    rw [commandsWords_cons] at hfront
    obtain ⟨front₁, _, rfl, hfront₁, hfront₂⟩ := List.map_eq_append_iff.mp hfront
    simp only [List.map_eq_cons_iff, word_eq_iff] at hfront₂
    obtain ⟨_, front₂, rfl, ⟨offset, rfl⟩, hfront₂⟩ := hfront₂
    obtain ⟨os', fewer, hos, hsame⟩ := operandsReadable_readOperands_again h.2.1 hfront₁
      (show endsCommand (⟨.bar, offset, true⟩ :: (front₂ ++ rest)) = true from rfl)
    obtain ⟨-, hends⟩ := commandsReadable_begins h.2.2 (List.cons_ne_nil c' cs) hfront₂
      (endsCommand_of_endsPipeline hrest)
    obtain ⟨cs', fewer', hcs, hsame'⟩ :=
      commandsReadable_readCommands_again h.2.2 (List.cons_ne_nil c' cs) hfront₂ hrest
    obtain ⟨fewer'', hread⟩ := readCommands_bar (operandsUnplaced_ne_nil hsame h.1) ⟨fewer, hos⟩
      hends ⟨fewer', hcs⟩
    rw [List.append_assoc, List.cons_append]
    refine ⟨_, fewer'', hread, ?_⟩
    rw [commandsUnplaced, hsame, hsame']
    rfl

end

/-- A pipeline is read again. -/
theorem PipelineOf.Readable.readPipeline_again {clause : Clause} {scope : List String}
    {p : Pipeline} {spaced : Bool} (h : p.Readable c.isFunction clause.isLoop scope)
    {front : List Token}
    (hfront : front.map Token.word = p.words spaced) {rest : List Token}
    (hrest : endsPipeline rest = true) :
    ∃ p' fewer, readPipeline c clause scope (front ++ rest) =
      .ok ⟨p', p.scopeBehind scope, rest, fewer⟩ ∧ p'.unplaced = p.unplaced := by
  obtain ⟨hdeclarable, hne, htake, hcommands⟩ := h
  obtain ⟨front₁, front₂, rfl, hfront₁, hfront₂⟩ := List.map_eq_append_iff.mp hfront
  obtain ⟨hnothing, hmore⟩ :=
    commandsReadable_begins hcommands hne hfront₂ (endsCommand_of_endsPipeline hrest)
  obtain ⟨cs, fewer, hcs, hsame⟩ :=
    commandsReadable_readCommands_again hcommands hne hfront₂ hrest
  rw [List.append_assoc]
  exact readPipeline_of_commands hdeclarable htake hfront₁ (fun _ => hnothing) hmore hcs hsame

/-- Tokens that are the words of a pipeline as a whole are read as this pipeline. -/
theorem PipelineOf.Readable.ofTokens_again {clause : Clause} {scope : List String} {p : Pipeline}
    {spaced : Bool} (h : p.Readable c.isFunction clause.isLoop scope) {tokens : List Token}
    (htokens : tokens.map Token.word = p.words spaced) :
    ∃ p', PipelineOf.ofTokens c clause scope tokens = .ok (p', p.scopeBehind scope) ∧
      p'.unplaced = p.unplaced := by
  have hagain := h.readPipeline_again htokens (show endsPipeline [] = true from rfl)
  rw [List.append_nil] at hagain
  obtain ⟨p', fewer, hread, hsame⟩ := hagain
  refine ⟨p', ?_, hsame⟩
  rw [PipelineOf.ofTokens, hread]
  rfl

end Reading

/-! ### Printed pipelines -/

/-- The printed form of the pipeline is one action between braces, and at its place this action is
read as the pipeline, whatever the clause is called and wherever the action stands. -/
def Placed.IsReadAgain (known : String → Bool) (q : Placed) : Prop :=
  ∀ (c : PipelineContext) (clause : Clause), c.isFunction = known → clause.isLoop = q.ofLoop →
    ∃ tokens p, Item.ofSource .braces (inBraces q.pipe.print) = .ok [.action 0 tokens] ∧
      PipelineOf.ofTokens c clause q.scope tokens = .ok (p, q.pipe.scopeBehind q.scope) ∧
      p.unplaced = q.pipe.unplaced

/-- The first word of a pipeline, which may have a space before it. -/
lemma PipelineOf.Readable.words_eq_cons {known : String → Bool} {ofLoop : Bool}
    {scope : List String} {p : Pipeline} (h : p.Readable known ofLoop scope) :
    ∃ kind ws, ∀ spaced, p.words spaced = ⟨kind, spaced⟩ :: ws := by
  obtain ⟨_, assigns, declared, commands⟩ := p
  obtain ⟨-, hne, -, hcommands⟩ := h
  match declared, commands with
  | [], ⟨_, []⟩ :: _ => exact absurd rfl hcommands.1
  | [], ⟨pos, o :: os⟩ :: cs =>
    obtain ⟨kind, ws, -, hws⟩ := o.words_eq_cons
    obtain ⟨vs, hvs, -⟩ := commandsWords_eq_append cs pos o os (show endsCommand [] = true from rfl)
    exact ⟨kind, ws ++ vs, fun spaced => by simp [PipelineOf.words, declarationWords, hvs, hws]⟩
  | v :: vs, commands =>
    obtain ⟨ws, hws⟩ : ∃ ws, ∀ spaced, declarationWords spaced assigns (v :: vs) =
        ⟨.var v.name v.fields, spaced⟩ :: ws := by
      cases vs <;> exact ⟨_, fun _ => rfl⟩
    exact ⟨.var v.name v.fields, ws ++ commandsWords true commands,
      fun spaced => by simp [PipelineOf.words, hws]⟩

/-- The printed form of a pipeline that can be read is read as this pipeline. -/
theorem Placed.isReadAgain {known : String → Bool} {q : Placed}
    (h : q.IsReadable known) : q.IsReadAgain known := by
  rintro c clause rfl hclause
  obtain ⟨kind, ws, hwords⟩ := h.words_eq_cons
  have hlexable := h.words_lexable false (s := ['\x7d', '\x7d']) (runsOn_cons (by decide) _)
  have hprint : q.pipe.print.toList = spell (q.pipe.words false) := (h.spell_words false).symm
  rw [hwords false] at hlexable hprint
  obtain ⟨tokens, hitems, htokens⟩ := ofSource_inBraces hlexable rfl hprint
  rw [Placed.IsReadable, ← hclause] at h
  obtain ⟨p, hp, hsame⟩ := h.ofTokens_again (htokens.trans (hwords true).symm)
  exact ⟨tokens, p, hitems, hp, hsame⟩

/-- Printing a pipeline and reading it back is the identity: every pipeline in the trees of a source
has been read at its place, and its printed form is read there as the pipeline, without and with the
calls of the encoder. -/
theorem ofSource_pipes_again {d : Delimiters} {isFunction known : String → Bool}
    {name source : String} {trees : Dict Tree}
    (h : Tree.ofSource d isFunction name source = .ok trees)
    (hknown : ∀ f, isFunction f = true → known f = true) (hhook : known hookName = true)
    {e : String × Tree} (he : e ∈ trees.entries) :
    (∀ q ∈ e.2.pipes, q.WasRead isFunction ∧ q.IsReadAgain known) ∧
      ∀ q ∈ e.2.withHooks.pipes, (∃ q₀ ∈ e.2.pipes, q = q₀ ∨ q = q₀.withHook) ∧
        q.IsReadAgain known := by
  have hread := ofSource_pipes h e he
  refine ⟨fun q hq => ⟨hread q hq, ?_⟩, fun q hq => ?_⟩
  · exact Placed.isReadAgain ((hread q hq).isReadable.mono hknown)
  · obtain ⟨q₀, hq₀, hhooked⟩ := e.2.pipes_withHooks q hq
    have hreadable := (hread q₀ hq₀).isReadable.mono hknown
    refine ⟨⟨q₀, hq₀, hhooked⟩, Placed.isReadAgain ?_⟩
    rcases hhooked with rfl | rfl
    · exact hreadable
    · exact hreadable.withHook hhook

/-- A loop with two variables between other delimiters, and in it an action that gets a call of the
encoder. -/
theorem ofSource_pipes_again_of_loop :
    let isFunction : String → Bool := fun f => f = "len" || f = "printf"
    let known : String → Bool := fun f => isFunction f || f = hookName
    let source :=
      "<% range $i, $x:=.Items %><%- (len $x.Names).Size|printf \"%d%>\" -1.5e3 ($y:=$)%>" ++
      "<%end -%>"
    ∃ trees, Tree.ofSource ⟨"<%", "%>"⟩ isFunction "q" source = .ok trees ∧
      trees.entries.map (fun e => e.2.withHooks.pipes.map (·.pipe.print)) =
        [["$i, $x := .Items",
          "(len $x.Names).Size | printf \"%d%>\" -1.5e3 ($y := $) | sqlliteral",
          "len $x.Names", "$y := $"]] ∧
      ∀ e ∈ trees.entries, (∀ q ∈ e.2.pipes, q.WasRead isFunction ∧ q.IsReadAgain known) ∧
        ∀ q ∈ e.2.withHooks.pipes, (∃ q₀ ∈ e.2.pipes, q = q₀ ∨ q = q₀.withHook) ∧
          q.IsReadAgain known := by
  intro isFunction known source
  cases hsource : Tree.ofSource ⟨"<%", "%>"⟩ isFunction "q" source with
  | error fault =>
    have hok : (Tree.ofSource ⟨"<%", "%>"⟩ isFunction "q" source).toOption.isSome = true := by
      decide +kernel
    rw [hsource] at hok
    cases hok
  | ok trees =>
    have hprinted : (Tree.ofSource ⟨"<%", "%>"⟩ isFunction "q" source).toOption.map
        (fun trees => trees.entries.map (fun e => e.2.withHooks.pipes.map (·.pipe.print))) =
        some [["$i, $x := .Items",
          "(len $x.Names).Size | printf \"%d%>\" -1.5e3 ($y := $) | sqlliteral",
          "len $x.Names", "$y := $"]] := by
      decide +kernel
    rw [hsource] at hprinted
    refine ⟨trees, rfl, Option.some.inj hprinted, fun e he => ?_⟩
    exact ofSource_pipes_again hsource (fun f hf => by simp [known, hf]) (by simp [known]) he

end SafeQuery
