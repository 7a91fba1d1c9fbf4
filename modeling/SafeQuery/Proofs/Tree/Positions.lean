import SafeQuery.Proofs.Tree.Exactness
import SafeQuery.Proofs.Tree.Walk

/-!
# The positions of a tree

Every position that a tree holds, `Tree.positions`. Those of a pipeline are listed a second time by
its words, `PipelineOf.begins`: what begins at a word has the position of the token of this word,
`Forms.begins`, so that a pipeline has the positions of its tokens and no others. The calls of the
encoder bring no position that has not been there, `Tree.positions_withHooks`.
-/

namespace SafeQuery

mutual

def Operand.positions : Operand → List Position
  | .chain pos base _                    => pos :: base.positions
  | .pipeline ⟨pos, _, declared, commands⟩ =>
    pos :: (declared.map (·.pos) ++ commandsPositions commands)
  | .number n                            => [n.pos]
  | .var v                               => [v.pos]
  | .identifier pos _ | .dot pos | .nil pos | .bool pos _ | .string pos _ _ | .field pos _ => [pos]

def operandsPositions : List Operand → List Position
  | []      => []
  | o :: os => o.positions ++ operandsPositions os

def commandsPositions : List (CommandOf Operand) → List Position
  | []              => []
  | ⟨pos, os⟩ :: cs => pos :: (operandsPositions os ++ commandsPositions cs)

end

def PipelineOf.positions (p : Pipeline) : List Position :=
  p.pos :: (p.declared.map (·.pos) ++ commandsPositions p.commands)

/-! ### Words -/

/-- What begins at the words, with one more part that begins at the first one. -/
def beginFirst (pos : Position) : List (List Position) → List (List Position)
  | []        => [[pos]]
  | ps :: pss => (pos :: ps) :: pss

/-- What begins at the words of the variables that a pipeline gives its value to: each of them has a
comma or the mark behind it. -/
def declarationBegins (vs : List Variable) : List (List Position) :=
  vs.flatMap fun v => [[v.pos], []]

mutual

/-- For every word of an operand, the positions of the parts that begin at it. -/
def Operand.begins : Operand → List (List Position)
  | .chain pos base _                    => beginFirst pos base.begins ++ [[]]
  | .pipeline ⟨pos, _, declared, commands⟩ =>
    [] :: (beginFirst pos (declarationBegins declared ++ commandsBegins commands) ++ [[]])
  | .number n                            => [[n.pos]]
  | .var v                               => [[v.pos]]
  | .identifier pos _ | .dot pos | .nil pos | .bool pos _ | .string pos _ _ | .field pos _ =>
    [[pos]]

def operandsBegins : List Operand → List (List Position)
  | []      => []
  | o :: os => o.begins ++ operandsBegins os

def commandsBegins : List (CommandOf Operand) → List (List Position)
  | []              => []
  | [⟨pos, os⟩]     => beginFirst pos (operandsBegins os)
  | ⟨pos, os⟩ :: cs => beginFirst pos (operandsBegins os) ++ [] :: commandsBegins cs

end

def PipelineOf.begins (p : Pipeline) : List (List Position) :=
  beginFirst p.pos (declarationBegins p.declared ++ commandsBegins p.commands)

lemma commandsBegins_cons (pos : Position) (os : List Operand) (c : Command) (cs : List Command) :
    commandsBegins (⟨pos, os⟩ :: c :: cs) =
      beginFirst pos (operandsBegins os) ++ [] :: commandsBegins (c :: cs) := by
  rw [commandsBegins]
  simp

@[simp] lemma beginFirst_flatten (pos : Position) (pss : List (List Position)) :
    (beginFirst pos pss).flatten = pos :: pss.flatten := by
  cases pss <;> rfl

@[simp] lemma declarationBegins_flatten (vs : List Variable) :
    (declarationBegins vs).flatten = vs.map (·.pos) := by
  induction vs with
  | nil => rfl
  | cons v vs ih => simpa [declarationBegins] using ih

mutual

lemma Operand.begins_flatten (o : Operand) : o.begins.flatten = o.positions := by
  match o with
  | .chain pos base _ => simp [Operand.begins, Operand.positions, base.begins_flatten]
  | .pipeline ⟨pos, _, declared, commands⟩ =>
    simp [Operand.begins, Operand.positions, commandsBegins_flatten commands]
  | .identifier _ _ | .dot _ | .nil _ | .bool _ _ | .number _ | .string _ _ _ | .field _ _
  | .var _ => simp [Operand.begins, Operand.positions]

lemma operandsBegins_flatten (os : List Operand) :
    (operandsBegins os).flatten = operandsPositions os := by
  match os with
  | []      => simp [operandsBegins, operandsPositions]
  | o :: os =>
    simp [operandsBegins, operandsPositions, o.begins_flatten, operandsBegins_flatten os]

lemma commandsBegins_flatten (cs : List Command) :
    (commandsBegins cs).flatten = commandsPositions cs := by
  match cs with
  | []                   => simp [commandsBegins, commandsPositions]
  | [⟨pos, os⟩]          =>
    simp [commandsBegins, commandsPositions, operandsBegins_flatten os]
  | ⟨pos, os⟩ :: c :: cs =>
    rw [commandsBegins_cons, commandsPositions]
    simp [operandsBegins_flatten os, commandsBegins_flatten (c :: cs)]

end

/-- The words of a pipeline have all of its positions between them. -/
lemma PipelineOf.begins_flatten (p : Pipeline) : p.begins.flatten = p.positions := by
  rw [begins, beginFirst_flatten, List.flatten_append, declarationBegins_flatten,
    commandsBegins_flatten, positions]

/-! ### Tokens -/

/-- The parts that begin at the token have its position. -/
def BeginAt (c : PipelineContext) (t : Token) (ps : List Position) : Prop :=
  ∀ pos ∈ ps, pos = c.positionOf t.offset

/-- For every word of a part, the positions of the parts that begin at it. -/
def Part.begins : Part → List (List Position)
  | operand o    => o.begins
  | operands os  => operandsBegins os
  | commands cs  => commandsBegins cs
  | pipeline _ p => p.begins

section Tokens

variable {c : PipelineContext} {scope scope' : List String} {ts : List Token} {part : Part}

lemma beginAt_nil (t : Token) : BeginAt c t [] := fun _ hpos => absurd hpos List.not_mem_nil

lemma beginAt_singleton (t : Token) : BeginAt c t [c.positionOf t.offset] :=
  fun _ hpos => List.mem_singleton.mp hpos

/-- One more part begins at the first token. -/
lemma beginAt_first {pss : List (List Position)} (hts : ts ≠ [])
    (h : List.Forall₂ (BeginAt c) ts pss) :
    List.Forall₂ (BeginAt c) ts (beginFirst (c.positionOf (c.nextOffset ts)) pss) := by
  cases h with
  | nil => contradiction
  | cons hfirst hrest => exact .cons (List.forall_mem_cons.mpr ⟨rfl, hfirst⟩) hrest

lemma Atom.begins {t : Token} {o : Operand} (h : Atom c scope t o) :
    List.Forall₂ (BeginAt c) [t] o.begins := by
  cases h with
  | number => simpa [Operand.begins, Number.ofText_pos] using beginAt_singleton _
  | identifier | dot | nil | bool | string | field | var =>
    simpa only [Operand.begins] using .cons (beginAt_singleton _) .nil

lemma Gives.begins {ofLoop assigns : Bool} {declared : List Variable}
    (h : Gives c ofLoop scope assigns declared ts) :
    List.Forall₂ (BeginAt c) ts (declarationBegins declared) := by
  cases h with
  | nothing => exact .nil
  | one => exact .cons (beginAt_singleton _) (.cons (beginAt_nil _) .nil)
  | two =>
    exact .cons (beginAt_singleton _) (.cons (beginAt_nil _)
      (.cons (beginAt_singleton _) (.cons (beginAt_nil _) .nil)))

/-- The parts of what tokens form begin at the tokens, word by word, and have their positions. -/
theorem Forms.begins (h : Forms c part scope ts scope') :
    List.Forall₂ (BeginAt c) ts part.begins := by
  induction h with
  | atom ha => exact ha.begins
  | @parentheses _ _ _ p _ _ _ _ _ ih =>
    obtain ⟨pos, assigns, declared, cs⟩ := p
    simp only [Part.begins, PipelineOf.begins] at ih
    simp only [Part.begins, Operand.begins]
    exact .cons (beginAt_nil _) (List.rel_append ih (.cons (beginAt_nil _) .nil))
  | chain _ hbase ih =>
    simp only [Part.begins, Operand.begins]
    exact List.rel_append (beginAt_first hbase.ne_nil ih) (.cons (beginAt_nil _) .nil)
  | single _ ih =>
    simp only [Part.begins, operandsBegins, List.append_nil]
    exact ih
  | cons _ _ _ ih ihs =>
    simp only [Part.begins, operandsBegins]
    exact List.rel_append ih ihs
  | command hos ih =>
    simp only [Part.begins, commandsBegins]
    exact beginAt_first hos.ne_nil ih
  | @bar _ _ _ _ _ _ cs _ _ hos hcs ih ihs =>
    obtain ⟨c', cs, rfl⟩ := List.exists_cons_of_ne_nil hcs.commands_ne_nil
    simp only [Part.begins, commandsBegins_cons]
    exact List.rel_append (beginAt_first hos.ne_nil ih) (.cons (beginAt_nil _) ihs)
  | pipeline hgives _ hcs ih =>
    exact beginAt_first (by simp [hcs.ne_nil]) (List.rel_append hgives.begins ih)

lemma forall₂_exists_of_mem {α β : Type} {R : α → β → Prop} {as : List α} {bs : List β}
    (h : List.Forall₂ R as bs) : ∀ b ∈ bs, ∃ a ∈ as, R a b := by
  induction h with
  | nil => exact fun _ hb => absurd hb List.not_mem_nil
  | cons hab _ ih =>
    refine List.forall_mem_cons.mpr ⟨⟨_, List.mem_cons_self, hab⟩, fun b hb => ?_⟩
    obtain ⟨a, ha, hR⟩ := ih b hb
    exact ⟨a, List.mem_cons_of_mem _ ha, hR⟩

/-- All that begins at words has the position of a token. -/
lemma exists_token_of_begins {pss : List (List Position)} {pos : Position}
    (h : List.Forall₂ (BeginAt c) ts pss) (hpos : pos ∈ pss.flatten) :
    ∃ t ∈ ts, pos = c.positionOf t.offset := by
  obtain ⟨ps, hps, hpos⟩ := List.mem_flatten.mp hpos
  obtain ⟨t, ht, hbegin⟩ := forall₂_exists_of_mem h ps hps
  exact ⟨t, ht, hbegin pos hpos⟩

end Tokens

mutual

def Node.positions : Node → List Position
  | .action pos pipe | .call pos _ (some pipe)    => pos :: pipe.positions
  | .branch _ pos pipe ⟨at₁, body⟩ none           =>
    pos :: (pipe.positions ++ at₁ :: nodesPositions body)
  | .branch _ pos pipe ⟨at₁, body⟩ (some ⟨at₂, otherwise⟩) =>
    pos :: (pipe.positions ++ at₁ :: (nodesPositions body ++ at₂ :: nodesPositions otherwise))
  | .text pos _ | .comment pos _ | .call pos _ none | .breakLoop pos | .continueLoop pos => [pos]

def nodesPositions : List Node → List Position
  | []      => []
  | n :: ns => n.positions ++ nodesPositions ns

end

/-- The positions that a tree holds: its own, and those of its nodes with all that is in them. -/
def Tree.positions (t : Tree) : List Position := t.root.pos :: nodesPositions t.root.nodes

/-! ### Calls of the encoder -/

lemma commandsPositions_append (cs cs' : List Command) :
    commandsPositions (cs ++ cs') = commandsPositions cs ++ commandsPositions cs' := by
  induction cs with
  | nil => simp [commandsPositions]
  | cons c cs ih => simp [commandsPositions, ih]

/-- A call of the encoder stands at the position of the command before it. -/
lemma PipelineOf.positions_withHook (p : Pipeline) : p.withHook.positions ⊆ p.positions := by
  unfold PipelineOf.withHook
  split
  · rename_i last _ hlast
    split
    · exact List.Subset.refl _
    · obtain ⟨cs, hcs⟩ := List.getLast?_eq_some_iff.mp hlast
      simp only [positions, hcs, commandsPositions_append, commandsPositions, hookAt,
        operandsPositions, Operand.positions]
      grind
  · exact List.Subset.refl _

mutual

lemma Node.positions_withHooks (n : Node) : n.withHooks.positions ⊆ n.positions := by
  match n with
  | .action pos pipe =>
    simp only [Node.withHooks, Node.positions]
    exact List.cons_subset_cons _ pipe.positions_withHook
  | .branch kind pos pipe ⟨at₁, body⟩ none =>
    have hbody := nodesPositions_hookAll body
    simp only [Node.withHooks, Node.positions]
    grind
  | .branch kind pos pipe ⟨at₁, body⟩ (some ⟨at₂, otherwise⟩) =>
    have hbody := nodesPositions_hookAll body
    have hotherwise := nodesPositions_hookAll otherwise
    simp only [Node.withHooks, Node.positions]
    grind
  | .text _ _ | .comment _ _ | .call _ _ _ | .breakLoop _ | .continueLoop _ =>
    simp only [Node.withHooks]
    exact List.Subset.refl _

lemma nodesPositions_hookAll (ns : List Node) :
    nodesPositions (hookAll ns) ⊆ nodesPositions ns := by
  match ns with
  | []      => simp [hookAll]
  | n :: ns =>
    have hnode := n.positions_withHooks
    have hrest := nodesPositions_hookAll ns
    simp only [hookAll, nodesPositions]
    grind

end

/-- The calls of the encoder stand at positions that the tree has without them. -/
theorem Tree.positions_withHooks (t : Tree) : t.withHooks.positions ⊆ t.positions :=
  List.cons_subset_cons _ (nodesPositions_hookAll t.root.nodes)

lemma Node.pos_withHooks (n : Node) : n.withHooks.pos = n.pos := by
  cases n with
  | branch kind pos pipe body otherwise => cases otherwise <;> simp only [withHooks, Node.pos]
  | text | comment | action | call | breakLoop | continueLoop => simp only [withHooks, Node.pos]

/-- The nodes of a tree keep their positions. -/
lemma Tree.walk_pos_withHooks (t : Tree) :
    t.withHooks.walk.map Node.pos = t.walk.map Node.pos := by
  rw [Tree.walk_withHooks, List.map_map]
  exact List.map_congr_left fun n _ => n.pos_withHooks

end SafeQuery
