import SafeQuery.Tree.Basic

/-!
# The encoding hook

What an action writes has to pass the literal encoder, so that every action that writes a value
ends in a command that calls the encoder. `Tree.withHooks` puts the missing calls into a tree.
Actions that declare variables write nothing and stay as they are, and so do the pipelines that
branches and calls depend on.
-/

namespace SafeQuery

/-- The name under which the encoder is called. -/
def hookName : String := "sqlliteral"

/-- The command that calls the encoder, at the given position. -/
def hookAt (pos : Position) : Command := ⟨pos, [.identifier pos hookName]⟩

/-- The pipeline with a call of the encoder at its end, if it writes a value and has none. -/
def PipelineOf.withHook (p : Pipeline) : Pipeline :=
  match p.declared, p.commands.getLast? with
  | [], some last =>
    if last.isBare hookName then p else { p with commands := p.commands ++ [hookAt last.pos] }
  | _, _ => p

mutual

/-- The node with the missing calls of the encoder. -/
def Node.withHooks : Node → Node
  | .action pos pipe => .action pos pipe.withHook
  | .branch kind pos pipe ⟨at₁, body⟩ none => .branch kind pos pipe ⟨at₁, hookAll body⟩ none
  | .branch kind pos pipe ⟨at₁, body⟩ (some ⟨at₂, otherwise⟩) =>
    .branch kind pos pipe ⟨at₁, hookAll body⟩ (some ⟨at₂, hookAll otherwise⟩)
  | node => node

def hookAll : List Node → List Node
  | []      => []
  | n :: ns => n.withHooks :: hookAll ns

end

def BlockOf.withHooks (b : Block) : Block := { b with nodes := hookAll b.nodes }

def Tree.withHooks (t : Tree) : Tree := { t with root := t.root.withHooks }

/-- A command that calls the encoder is one that has nothing but its name. -/
theorem hookAt_isBare (pos : Position) : (hookAt pos).isBare hookName = true := by
  simp [hookAt, CommandOf.isBare]

/-- A second hook is not put behind the first. -/
theorem withHook_withHook (p : Pipeline) : p.withHook.withHook = p.withHook := by
  obtain ⟨pos, assigns, declared, commands⟩ := p
  cases declared with
  | cons v vs => simp [PipelineOf.withHook]
  | nil =>
    rcases hl : commands.getLast? with _ | last
    · simp [PipelineOf.withHook, hl]
    · by_cases hb : last.isBare hookName = true
      · simp [PipelineOf.withHook, hl, hb]
      · simp [PipelineOf.withHook, hl, hb, hookAt_isBare]

mutual

theorem Node.withHooks_withHooks (n : Node) : n.withHooks.withHooks = n.withHooks := by
  match n with
  | .action pos pipe => simp only [Node.withHooks, withHook_withHook]
  | .branch kind pos pipe ⟨at₁, body⟩ none => simp only [Node.withHooks, hookAll_hookAll body]
  | .branch kind pos pipe ⟨at₁, body⟩ (some ⟨at₂, otherwise⟩) =>
    simp only [Node.withHooks, hookAll_hookAll body, hookAll_hookAll otherwise]
  | .text _ _ | .comment _ _ | .call _ _ _ | .breakLoop _ | .continueLoop _ =>
    simp only [Node.withHooks]

theorem hookAll_hookAll (ns : List Node) : hookAll (hookAll ns) = hookAll ns := by
  match ns with
  | []      => simp only [hookAll]
  | n :: ns => simp only [hookAll, Node.withHooks_withHooks n, hookAll_hookAll ns]

end

/-- A tree that has its calls of the encoder gets no others. -/
theorem Tree.withHooks_withHooks (t : Tree) : t.withHooks.withHooks = t.withHooks := by
  simp only [Tree.withHooks, BlockOf.withHooks, hookAll_hookAll]

end SafeQuery
