import SafeQuery.Proofs.Tree.Numbers
import SafeQuery.Proofs.Tree.Rereading

/-!
# The grammar of pipelines over tokens

`Forms` is the grammar of pipelines over the tokens of an action: which tokens form a pipeline, from
the variables in scope before them to those in scope behind them, and which one. The reader does not
stand in it. What tokens form has their kinds again as its words, `Forms.kinds`.
-/

namespace SafeQuery

/-- What tokens can form; a pipeline belongs to a loop or does not. -/
inductive Part where
  | operand (o : Operand)
  | operands (os : List Operand)
  | commands (cs : List Command)
  | pipeline (ofLoop : Bool) (p : Pipeline)

def Part.words (spaced : Bool) : Part → List Word
  | operand o    => o.words spaced
  | operands os  => operandsWords spaced os
  | commands cs  => commandsWords spaced cs
  | pipeline _ p => p.words spaced

/-- One token forms an operand: functions are known, variables in scope and numerals legal. -/
inductive Atom (c : PipelineContext) (scope : List String) : Token → Operand → Prop
  | identifier {name : String} {offset : Nat} {spaced : Bool} :
      c.isFunction name = true →
      Atom c scope ⟨.identifier name, offset, spaced⟩ (.identifier (c.positionOf offset) name)
  | dot {offset : Nat} {spaced : Bool} :
      Atom c scope ⟨.dot, offset, spaced⟩ (.dot (c.positionOf offset))
  | nil {offset : Nat} {spaced : Bool} :
      Atom c scope ⟨.nil, offset, spaced⟩ (.nil (c.positionOf offset))
  | bool {b : Bool} {offset : Nat} {spaced : Bool} :
      Atom c scope ⟨.bool b, offset, spaced⟩ (.bool (c.positionOf offset) b)
  | number {text : String} {offset : Nat} {spaced : Bool} :
      IsLegal text →
      Atom c scope ⟨.number text, offset, spaced⟩ (.number (.ofText (c.positionOf offset) text))
  | string {quoted text : String} {offset : Nat} {spaced : Bool} :
      Atom c scope ⟨.string quoted text, offset, spaced⟩
        (.string (c.positionOf offset) quoted text)
  | field {names : List String} {offset : Nat} {spaced : Bool} :
      Atom c scope ⟨.field names, offset, spaced⟩ (.field (c.positionOf offset) names)
  | var {name : String} {fields : List String} {offset : Nat} {spaced : Bool} :
      name ∈ scope →
      Atom c scope ⟨.var name fields, offset, spaced⟩ (.var ⟨c.positionOf offset, name, fields⟩)

/-- The mark behind the variables that a pipeline gives its value to. -/
def givingMark (assigns : Bool) : TokenKind := if assigns then .assign else .declare

/-- The tokens give the value of a pipeline to no variable, to one, or in a loop to two. Variables
that exist already are in scope. -/
inductive Gives (c : PipelineContext) (ofLoop : Bool) (scope : List String) :
    Bool → List Variable → List Token → Prop
  | nothing : Gives c ofLoop scope false [] []
  | one {assigns : Bool} {x : String} {at₁ at₂ : Nat} {spaced₁ spaced₂ : Bool} :
      (assigns = true → x ∈ scope) →
      Gives c ofLoop scope assigns [⟨c.positionOf at₁, x, []⟩]
        [⟨.var x [], at₁, spaced₁⟩, ⟨givingMark assigns, at₂, spaced₂⟩]
  | two {assigns : Bool} {x y : String} {at₁ at₂ at₃ at₄ : Nat}
      {spaced₁ spaced₂ spaced₃ spaced₄ : Bool} :
      ofLoop = true → (assigns = true → x ∈ scope ∧ y ∈ scope) →
      Gives c ofLoop scope assigns [⟨c.positionOf at₁, x, []⟩, ⟨c.positionOf at₃, y, []⟩]
        [⟨.var x [], at₁, spaced₁⟩, ⟨.comma, at₂, spaced₂⟩, ⟨.var y [], at₃, spaced₃⟩,
          ⟨givingMark assigns, at₄, spaced₄⟩]

/-- From one scope to the other the tokens form the part. Fields directly behind an operand stand
only where they belong to it, and only the first command may begin with a constant. -/
inductive Forms (c : PipelineContext) :
    Part → List String → List Token → List String → Prop
  | atom {scope : List String} {t : Token} {o : Operand} :
      Atom c scope t o → Forms c (.operand o) scope [t] scope
  | parentheses {scope scope' : List String} {ts : List Token} {p : Pipeline} {at₁ at₂ : Nat}
      {spaced₁ spaced₂ : Bool} :
      Forms c (.pipeline false p) scope ts scope' →
      Forms c (.operand (.pipeline p)) scope
        (⟨.leftParen, at₁, spaced₁⟩ :: (ts ++ [⟨.rightParen, at₂, spaced₂⟩])) scope'
  | chain {scope scope' : List String} {ts : List Token} {o : Operand} {names : List String}
      {offset : Nat} :
      o.takesFields = true → Forms c (.operand o) scope ts scope' →
      Forms c (.operand (.chain (c.positionOf (c.nextOffset ts)) o names)) scope
        (ts ++ [⟨.field names, offset, false⟩]) scope'
  | single {scope scope' : List String} {ts : List Token} {o : Operand} :
      Forms c (.operand o) scope ts scope' → Forms c (.operands [o]) scope ts scope'
  | cons {scope scope₁ scope' : List String} {ts ts' : List Token} {o : Operand}
      {os : List Operand} :
      Forms c (.operand o) scope ts scope₁ → Detached ts' →
      Forms c (.operands os) scope₁ ts' scope' →
      Forms c (.operands (o :: os)) scope (ts ++ ts') scope'
  | command {scope scope' : List String} {ts : List Token} {os : List Operand} :
      Forms c (.operands os) scope ts scope' →
      Forms c (.commands [⟨c.positionOf (c.nextOffset ts), os⟩]) scope ts scope'
  | bar {scope scope₁ scope' : List String} {ts ts' : List Token} {os : List Operand}
      {cs : List Command} {offset : Nat} {spaced : Bool} :
      Forms c (.operands os) scope ts scope₁ → Forms c (.commands cs) scope₁ ts' scope' →
      Forms c (.commands (⟨c.positionOf (c.nextOffset ts), os⟩ :: cs)) scope
        (ts ++ ⟨.bar, offset, spaced⟩ :: ts') scope'
  | pipeline {ofLoop : Bool} {scope scope' : List String} {front ts : List Token} {assigns : Bool}
      {declared : List Variable} {cs : List Command} :
      Gives c ofLoop scope assigns declared front → TakeValues cs.tail →
      Forms c (.commands cs) (newNames assigns declared ++ scope) ts scope' →
      Forms c (.pipeline ofLoop ⟨c.positionOf (c.nextOffset (front ++ ts)), assigns, declared, cs⟩)
        scope (front ++ ts) scope'

section Grammar

variable {c : PipelineContext} {scope scope' : List String} {ts : List Token} {part : Part}

lemma PipelineContext.nextOffset_append (hts : ts ≠ []) (rest : List Token) :
    c.nextOffset (ts ++ rest) = c.nextOffset ts := by
  obtain ⟨t, ts, rfl⟩ := List.exists_cons_of_ne_nil hts
  rfl

lemma detached_append (hts : ts ≠ []) (rest : List Token) :
    Detached (ts ++ rest) ↔ Detached ts := by
  obtain ⟨⟨kind, offset, spaced⟩, ts, rfl⟩ := List.exists_cons_of_ne_nil hts
  cases kind <;> cases spaced <;> rfl

lemma Forms.ne_nil (h : Forms c part scope ts scope') : ts ≠ [] := by
  induction h with
  | atom | parentheses => exact List.cons_ne_nil _ _
  | chain | bar => simp
  | single _ ih | command _ ih => exact ih
  | cons _ _ _ ih | pipeline _ _ _ ih => simp [ih]

lemma Atom.words_kind {t : Token} {o : Operand} (h : Atom c scope t o) (spaced : Bool) :
    (o.words spaced).map (·.kind) = [t.kind] := by
  cases h with
  | number => simp [Operand.words, Number.ofText_text]
  | identifier | dot | nil | bool | string | field | var => rfl

lemma Gives.kinds {ofLoop assigns : Bool} {declared : List Variable}
    (h : Gives c ofLoop scope assigns declared ts) (spaced : Bool) :
    (declarationWords spaced assigns declared).map (·.kind) = ts.map (·.kind) := by
  cases h <;> rfl

lemma Forms.operands_ne_nil {os : List Operand} (h : Forms c (.operands os) scope ts scope') :
    os ≠ [] := by
  cases h <;> exact List.cons_ne_nil _ _

lemma Forms.commands_ne_nil {cs : List Command} (h : Forms c (.commands cs) scope ts scope') :
    cs ≠ [] := by
  cases h <;> exact List.cons_ne_nil _ _

/-- The words of what tokens form are of the kinds of the tokens. -/
theorem Forms.kinds (h : Forms c part scope ts scope') (spaced : Bool) :
    (part.words spaced).map (·.kind) = ts.map (·.kind) := by
  induction h generalizing spaced with
  | atom ha => exact ha.words_kind spaced
  | @parentheses _ _ _ p _ _ _ _ _ ih =>
    obtain ⟨pos, assigns, declared, cs⟩ := p
    have hinner := ih false
    simp only [Part.words, PipelineOf.words, Bool.false_or] at hinner
    simp only [Part.words, Operand.words, List.map_cons, List.map_append, List.map_nil, ← hinner,
      List.append_assoc]
  | chain _ _ ih =>
    have hbase := ih spaced
    simp only [Part.words] at hbase
    simp only [Part.words, Operand.words, List.map_append, hbase, List.map_cons, List.map_nil]
  | single _ ih =>
    simp only [Part.words, operandsWords, List.append_nil]
    exact ih spaced
  | cons _ _ _ ih ihs =>
    simp only [Part.words, operandsWords, List.map_append]
    exact congrArg₂ _ (ih spaced) (ihs true)
  | command _ ih => exact ih spaced
  | @bar _ _ _ _ _ _ cs _ _ _ hcs ih ihs =>
    obtain ⟨c', cs, rfl⟩ := List.exists_cons_of_ne_nil hcs.commands_ne_nil
    simp only [Part.words, commandsWords_cons, List.map_append, List.map_cons]
    exact congrArg₂ _ (ih spaced) (congrArg _ (ihs true))
  | pipeline hgives _ _ ih =>
    simp only [Part.words, PipelineOf.words, List.map_append]
    exact congrArg₂ _ (hgives.kinds spaced) (ih _)

end Grammar

end SafeQuery
