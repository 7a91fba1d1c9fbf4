import Mathlib.Tactic.Common
import SafeQuery.Tree.Nesting

/-!
# Steps of the reader

`Nesting.Step` lists what an item can do to what has been read of a source: it adds a statement, it
opens a clause, it turns a branch to its else part, or it closes a clause. `addItem_step` is the
inversion of the reader by this list; what all steps keep is kept by the reading of a source.
-/

namespace SafeQuery

/-- Two steps have a result if the first one has and the second one has for it. -/
lemma bind_eq_ok_iff {ε α β : Type} {first : Except ε α} {next : α → Except ε β} {result : β} :
    first >>= next = .ok result ↔ ∃ a, first = .ok a ∧ next a = .ok result := by
  rcases first with e | a <;> simp [bind, Except.bind]

lemma eq_ok_of_toOption {ε α : Type} {e : Except ε α} {a : α} (h : e.toOption = some a) :
    e = .ok a := by
  cases e with
  | error => cases h
  | ok b => exact congrArg _ (Option.some.inj h)

/-- The context of an action at an offset. -/
def PipelineContext.inAction (c : PipelineContext) (offset : Nat) : PipelineContext :=
  { c with action := offset }

def Control.keyword : Control → Keyword
  | cond      => .cond
  | range     => .range
  | withValue => .withValue

namespace Nesting

/-- What an item does to what has been read. -/
inductive Step (ctx : PipelineContext) (n : Nesting) : Item → Nesting → Prop where
  | text (o : Nat) (t : String) : Step ctx n (.text o t) (n.add (.text (ctx.positionOf o) t))
  | comment (o : Nat) (t : String) :
      Step ctx n (.comment o t) (n.add (.comment (ctx.positionOf o) t))
  | action {o : Nat} {ts : List Token} {pipe : Pipeline} {scope : List String} :
      PipelineOf.ofTokens (ctx.inAction o) .command n.scope ts = .ok (pipe, scope) →
      Step ctx n (.action o ts) ({ n with scope }.add (.action (ctx.positionOf o) pipe))
  | call {o at₁ : Nat} {spaced : Bool} {ts : List Token} {name : String} :
      clauseName .templateCall o ts = .ok (name, []) →
      Step ctx n (.action o (⟨.keyword .template, at₁, spaced⟩ :: ts))
        (n.add (.call (ctx.positionOf o) name none))
  | callWith {o at₁ : Nat} {spaced : Bool} {ts rest : List Token} {name : String}
      {argument : Pipeline} {scope : List String} :
      clauseName .templateCall o ts = .ok (name, rest) →
      PipelineOf.ofTokens (ctx.inAction o) .templateCall n.scope rest = .ok (argument, scope) →
      Step ctx n (.action o (⟨.keyword .template, at₁, spaced⟩ :: ts))
        ({ n with scope }.add (.call (ctx.positionOf o) name (some argument)))
  | breakLoop {o at₁ : Nat} {spaced : Bool} : inLoop n.clauses = true →
      Step ctx n (.action o [⟨.keyword .breakLoop, at₁, spaced⟩])
        (n.add (.breakLoop (ctx.positionOf o)))
  | continueLoop {o at₁ : Nat} {spaced : Bool} : inLoop n.clauses = true →
      Step ctx n (.action o [⟨.keyword .continueLoop, at₁, spaced⟩])
        (n.add (.continueLoop (ctx.positionOf o)))
  | enterBranch (kind : Control) {o at₁ : Nat} {spaced : Bool} {ts : List Token} {pipe : Pipeline}
      {scope : List String} :
      PipelineOf.ofTokens (ctx.inAction o) (.branch kind) n.scope ts = .ok (pipe, scope) →
      Step ctx n (.action o (⟨.keyword kind.keyword, at₁, spaced⟩ :: ts))
        (n.enter ⟨.body kind pipe [], ctx.positionOf o, ctx.positionOf o, [], n.scope⟩ scope)
  | enterDefinition {o at₁ at₂ : Nat} {spaced₁ spaced₂ : Bool} {quoted name : String} :
      n.clauses = [] →
      Step ctx n
        (.action o [⟨.keyword .define, at₁, spaced₁⟩, ⟨.string quoted name, at₂, spaced₂⟩])
        (n.enter (.isolated (.define name) (ctx.positionOf o) n.scope) ["$"])
  | enterBlock {o at₁ : Nat} {spaced : Bool} {ts rest : List Token} {name : String}
      {argument : Pipeline} {scope : List String} :
      clauseName .block o ts = .ok (name, rest) →
      PipelineOf.ofTokens (ctx.inAction o) .block n.scope rest = .ok (argument, scope) →
      Step ctx n (.action o (⟨.keyword .block, at₁, spaced⟩ :: ts))
        (n.enter (.isolated (.block name argument) (ctx.positionOf o) scope) ["$"])
  /-- The else part of a branch begins. -/
  | turn {o at₁ : Nat} {spaced : Bool} {c : OpenClause} {cs : List OpenClause} {kind : Control}
      {pipe : Pipeline} {before : List Link} :
      n.clauses = c :: cs → c.opening = .body kind pipe before →
      Step ctx n (.action o [⟨.keyword .otherwise, at₁, spaced⟩])
        { n with clauses :=
          ⟨.otherwise kind pipe c.block before, c.pos, ctx.positionOf o, [], c.outer⟩ :: cs }
  /-- The next branch of a row begins. -/
  | turnTo {o at₁ at₂ : Nat} {spaced₁ spaced₂ : Bool} {ts : List Token} {c : OpenClause}
      {cs : List OpenClause} {kind : Control} {pipe next : Pipeline} {before : List Link}
      {scope : List String} :
      n.clauses = c :: cs → c.opening = .body kind pipe before → kind ≠ .range →
      PipelineOf.ofTokens (ctx.inAction o) (.branch kind) n.scope ts = .ok (next, scope) →
      Step ctx n
        (.action o (⟨.keyword .otherwise, at₁, spaced₁⟩ ::
          ⟨.keyword kind.keyword, at₂, spaced₂⟩ :: ts))
        { n with
          clauses := ⟨.body kind next (⟨kind, c.pos, pipe, c.block⟩ :: before), ctx.positionOf o,
            ctx.positionOf o, [], c.outer⟩ :: cs
          scope }
  | closeDefinition {o at₁ : Nat} {spaced : Bool} {c : OpenClause} {cs : List OpenClause}
      {name : String} {trees : Dict Tree} :
      n.clauses = c :: cs → c.opening = .define name →
      addTree n.trees ⟨name, c.block⟩ = .ok trees →
      Step ctx n (.action o [⟨.keyword .finish, at₁, spaced⟩])
        { n with clauses := cs, scope := c.outer, trees }
  | closeBlock {o at₁ : Nat} {spaced : Bool} {c : OpenClause} {cs : List OpenClause}
      {name : String} {argument : Pipeline} {trees : Dict Tree} :
      n.clauses = c :: cs → c.opening = .block name argument →
      addTree n.trees ⟨name, c.block⟩ = .ok trees →
      Step ctx n (.action o [⟨.keyword .finish, at₁, spaced⟩])
        ({ n with clauses := cs, scope := c.outer, trees }.add (.call c.pos name (some argument)))
  | closeBody {o at₁ : Nat} {spaced : Bool} {c : OpenClause} {cs : List OpenClause}
      {kind : Control} {pipe : Pipeline} {before : List Link} :
      n.clauses = c :: cs → c.opening = .body kind pipe before →
      Step ctx n (.action o [⟨.keyword .finish, at₁, spaced⟩])
        ({ n with clauses := cs, scope := c.outer }.add
          (chain (.branch kind c.pos pipe c.block none) before))
  | closeOtherwise {o at₁ : Nat} {spaced : Bool} {c : OpenClause} {cs : List OpenClause}
      {kind : Control} {pipe : Pipeline} {body : Block} {before : List Link} :
      n.clauses = c :: cs → c.opening = .otherwise kind pipe body before →
      Step ctx n (.action o [⟨.keyword .finish, at₁, spaced⟩])
        ({ n with clauses := cs, scope := c.outer }.add
          (chain (.branch kind c.pos pipe body (some c.block)) before))

/-! ### Inversion -/

section Inversion

variable {ctx : PipelineContext} {n n' : Nesting} {o at₁ : Nat} {spaced : Bool} {ts : List Token}

lemma checkEnd_eq_ok {clause : Clause} {u : Unit} (h : checkEnd clause ts = .ok u) : ts = [] := by
  cases ts with
  | nil => rfl
  | cons t ts => cases h

/-- The end of a clause is a step. -/
lemma close_step (h : n.close (ctx.positionOf o) = .ok n') :
    Step ctx n (.action o [⟨.keyword .finish, at₁, spaced⟩]) n' := by
  unfold Nesting.close at h
  split at h
  · contradiction
  rename_i c cs hc
  cases ho : c.opening with
  | define name =>
    simp only [ho, bind_eq_ok_iff] at h
    obtain ⟨trees, htrees, heq⟩ := h
    cases heq
    exact .closeDefinition hc ho htrees
  | block name argument =>
    simp only [ho, bind_eq_ok_iff] at h
    obtain ⟨trees, htrees, heq⟩ := h
    cases heq
    exact .closeBlock hc ho htrees
  | body kind pipe before =>
    simp only [ho] at h
    cases h
    exact .closeBody hc ho
  | otherwise kind pipe body before =>
    simp only [ho] at h
    cases h
    exact .closeOtherwise hc ho

lemma turn_step (h : n.turn (ctx.inAction o) (ctx.positionOf o) ts = .ok n') :
    Step ctx n (.action o (⟨.keyword .otherwise, at₁, spaced⟩ :: ts)) n' := by
  unfold Nesting.turn at h
  split at h
  · contradiction
  rename_i c cs hc
  cases ho : c.opening with
  | define name => simp [ho] at h
  | block name argument => simp [ho] at h
  | otherwise kind pipe body before => simp [ho] at h
  | body kind pipe before =>
    simp only [ho] at h
    split at h
    · cases h
      exact .turn hc ho
    · simp only [bind_eq_ok_iff, Prod.exists] at h
      obtain ⟨next, scope, hp, heq⟩ := h
      cases heq
      exact .turnTo hc ho (by simp) hp
    · simp only [bind_eq_ok_iff, Prod.exists] at h
      obtain ⟨next, scope, hp, heq⟩ := h
      cases heq
      exact .turnTo hc ho (by simp) hp
    · contradiction

lemma enterBranch_step {kind : Control}
    (h : n.enterBranch (ctx.inAction o) kind (ctx.positionOf o) ts = .ok n') :
    Step ctx n (.action o (⟨.keyword kind.keyword, at₁, spaced⟩ :: ts)) n' := by
  simp only [Nesting.enterBranch, bind_eq_ok_iff, Prod.exists] at h
  obtain ⟨pipe, scope, hp, heq⟩ := h
  cases heq
  exact .enterBranch kind hp

lemma enterDefinition_step (hn : n.clauses = [])
    (h : n.enterDefinition (ctx.positionOf o) ts = .ok n') :
    Step ctx n (.action o (⟨.keyword .define, at₁, spaced⟩ :: ts)) n' := by
  unfold Nesting.enterDefinition at h
  split at h
  · cases h
    exact .enterDefinition hn
  · contradiction
  · contradiction

lemma enterBlock_step (h : n.enterBlock (ctx.inAction o) (ctx.positionOf o) ts = .ok n') :
    Step ctx n (.action o (⟨.keyword .block, at₁, spaced⟩ :: ts)) n' := by
  simp only [Nesting.enterBlock, bind_eq_ok_iff, Prod.exists] at h
  obtain ⟨name, rest, hname, argument, scope, hp, heq⟩ := h
  cases heq
  exact .enterBlock hname hp

lemma addCall_step (h : n.addCall (ctx.inAction o) (ctx.positionOf o) ts = .ok n') :
    Step ctx n (.action o (⟨.keyword .template, at₁, spaced⟩ :: ts)) n' := by
  simp only [Nesting.addCall, bind_eq_ok_iff, Prod.exists] at h
  obtain ⟨name, rest, hname, h⟩ := h
  split at h
  · rename_i hrest
    cases h
    exact .call (List.isEmpty_iff.mp hrest ▸ hname)
  · simp only [bind_eq_ok_iff, Prod.exists] at h
    obtain ⟨argument, scope, hp, heq⟩ := h
    cases heq
    exact .callWith hname hp

lemma addLoopExit_eq_ok {k : Keyword} {node : Node} (h : n.addLoopExit k node ts = .ok n') :
    ts = [] ∧ inLoop n.clauses = true ∧ n' = n.add node := by
  simp only [Nesting.addLoopExit, bind_eq_ok_iff] at h
  obtain ⟨_, hend, h⟩ := h
  split at h
  · rename_i hloop
    cases h
    exact ⟨checkEnd_eq_ok hend, hloop, rfl⟩
  · contradiction

/-- An action with a keyword is a step. -/
lemma addKeyword_step {k : Keyword}
    (h : n.addKeyword (ctx.inAction o) (ctx.positionOf o) k ts = .ok n') :
    Step ctx n (.action o (⟨.keyword k, at₁, spaced⟩ :: ts)) n' := by
  cases k with
  | finish =>
    simp only [Nesting.addKeyword, bind_eq_ok_iff] at h
    obtain ⟨_, hend, h⟩ := h
    rw [checkEnd_eq_ok hend]
    exact close_step h
  | otherwise => exact turn_step h
  | cond => exact enterBranch_step h
  | range => exact enterBranch_step h
  | withValue => exact enterBranch_step h
  | template => exact addCall_step h
  | block => exact enterBlock_step h
  | breakLoop =>
    obtain ⟨rfl, hloop, rfl⟩ := addLoopExit_eq_ok h
    exact .breakLoop hloop
  | continueLoop =>
    obtain ⟨rfl, hloop, rfl⟩ := addLoopExit_eq_ok h
    exact .continueLoop hloop
  | define =>
    simp only [Nesting.addKeyword] at h
    split at h
    · rename_i hn
      exact enterDefinition_step (List.isEmpty_iff.mp hn) h
    · contradiction

/-- What an item does is one of the steps. -/
theorem addItem_step {item : Item} (h : n.addItem ctx item = .ok n') : Step ctx n item n' := by
  unfold Nesting.addItem at h
  split at h
  · cases h
    exact .text _ _
  · cases h
    exact .comment _ _
  · simp only at h
    split at h
    · exact addKeyword_step h
    · simp only [bind_eq_ok_iff, Prod.exists] at h
      obtain ⟨pipe, scope, hp, heq⟩ := h
      cases heq
      exact .action hp

end Inversion

/-- A statement is no definition. -/
@[simp] lemma trees_add (n : Nesting) (node : Node) : (n.add node).trees = n.trees := by
  unfold Nesting.add
  split <;> rfl

/-- What holds of a definition and of those before it holds of all of them behind it. -/
lemma addTree_keeps {P : String × Tree → Prop} {trees trees' : Dict Tree} {t : Tree}
    (h : addTree trees t = .ok trees') (ht : P (t.name, t)) (hs : ∀ e ∈ trees.entries, P e) :
    ∀ e ∈ trees'.entries, P e := by
  have hins : ∀ e ∈ (trees.insert t.name t).entries, P e := by
    intro e he
    rcases Dict.mem_insertEntry he with rfl | he
    · exact ht
    · exact hs e he
  unfold addTree at h
  split at h
  · cases h
    exact hins
  · split_ifs at h
    · cases h
      exact hs
    · cases h
      exact hins

/-! ### Runs of steps -/

section Runs

variable {ctx : PipelineContext} {items : List Item}

/-- This has been read of the items when the reader comes by the item. -/
def ComesBy (n : Nesting) (ctx : PipelineContext) (items : List Item) (item : Item) : Prop :=
  ∃ before after, items = before ++ item :: after ∧
    before.foldlM (fun n item => n.addItem ctx item) start = .ok n

/-- What every step that the reader comes by keeps is kept when all items are read. -/
theorem foldlM_addItem_keeps {I : Nesting → Prop} (hstart : I start)
    (hstep : ∀ {n n' : Nesting} {item : Item}, n.ComesBy ctx items item → I n →
      Step ctx n item n' → I n')
    {n : Nesting} (h : items.foldlM (fun n item => n.addItem ctx item) start = .ok n) : I n := by
  -- The items before those that are still to be read have led to what has been read of them.
  have go : ∀ (rest before : List Item) (m : Nesting), items = before ++ rest →
      before.foldlM (fun n item => n.addItem ctx item) start = .ok m → I m →
      rest.foldlM (fun n item => n.addItem ctx item) m = .ok n → I n := by
    intro rest
    induction rest with
    | nil =>
      intro before m _ _ hm hrest
      cases hrest
      exact hm
    | cons item rest ih =>
      intro before m hitems hbefore hm hrest
      simp only [List.foldlM_cons, bind_eq_ok_iff] at hrest
      obtain ⟨next, hitem, hrest⟩ := hrest
      refine ih (before ++ [item]) next (by simp [hitems]) ?_ ?_ hrest
      · rw [List.foldlM_append, hbefore]
        simp [bind, Except.bind, hitem, pure, Except.pure]
      · exact hstep ⟨before, rest, hitems, hbefore⟩ hm (addItem_step hitem)
  exact go items [] start rfl rfl hstart h

end Runs

end Nesting

/-- The context in which the statements of a source are read. -/
def PipelineContext.ofSource (isFunction : String → Bool) (source : String) : PipelineContext :=
  ⟨lineAt (lineBreaks 0 source.toList), isFunction, 0⟩

/-- The trees of a source are those of all its items, when no clause is open, and the main one. -/
lemma ofSource_eq_ok {d : Delimiters} {isFunction : String → Bool} {name source : String}
    {trees : Dict Tree} (h : Tree.ofSource d isFunction name source = .ok trees) :
    ∃ items n pos, Item.ofSource d source = .ok items ∧
      items.foldlM (fun n item => Nesting.addItem (.ofSource isFunction source) n item)
        Nesting.start = .ok n ∧
      n.clauses = [] ∧ addTree n.trees ⟨name, ⟨pos, n.main.reverse⟩⟩ = .ok trees := by
  simp only [Tree.ofSource, bind_eq_ok_iff] at h
  obtain ⟨items, hitems, n, hn, hfinish⟩ := h
  unfold Nesting.finish at hfinish
  split at hfinish
  · rename_i hclauses
    exact ⟨items, n, _, hitems, hn, hclauses, hfinish⟩
  · contradiction

end SafeQuery
