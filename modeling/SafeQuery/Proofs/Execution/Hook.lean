import Mathlib.Tactic.Common
import SafeQuery.Execution.Evaluation

/-!
# What the call of the encoder does

A pipeline is evaluated command by command, and a command that only calls the encoder turns the
value so far into a literal. `evalCommands_hook` is this rule for a call at the end of a pipeline,
and `evalPipeline_withHook` for the call that `PipelineOf.withHook` puts there: the failure to find
a literal is reported at the command before the call.
-/

namespace SafeQuery.Frame

variable (f : Frame)

def evalNext (before : Option (Command × Value)) (c : Command) : Eval Value :=
  if c.isBare hookName then
    match before with
    | some (source, v) => f.encode source v
    | none             => throw (f.commandFault c (.encoderArguments 0))
  else f.evalCommand c (before.map (·.2)) c.operands

@[simp] lemma evalCommands_nil (before : Option (Command × Value)) :
    f.evalCommands before [] = pure ((before.map (·.2)).getD .null) := by
  rw [evalCommands]

/-- Commands are evaluated one after the other. -/
lemma evalCommands_cons (before : Option (Command × Value)) (c : Command) (cs : List Command) :
    f.evalCommands before (c :: cs) = (do
      let v ← f.evalNext before c
      f.evalCommands (some (c, v)) cs) := by
  obtain ⟨pos, os⟩ := c
  rcases before with _ | ⟨source, v⟩
  · rw [evalCommands, evalNext]
    split <;> rfl
  · rw [evalCommands, evalNext]
    split <;> rfl

/-- The commands at the end go on with the value of the last command before them. -/
lemma evalCommands_append {cs : List Command} {last : Command} (h : cs.getLast? = some last)
    (before : Option (Command × Value)) (ds : List Command) :
    f.evalCommands before (cs ++ ds) = (do
      let v ← f.evalCommands before cs
      f.evalCommands (some (last, v)) ds) := by
  induction cs generalizing before with
  | nil => simp at h
  | cons c cs ih =>
    rw [List.cons_append, evalCommands_cons, evalCommands_cons, bind_assoc]
    congr 1
    funext v
    cases cs with
    | nil =>
      obtain rfl : c = last := by simpa using h
      simp
    | cons d ds' => exact ih (by simpa using h) (some (c, v))

/-- A call of the encoder at the end of a pipeline makes a literal of its value. -/
theorem evalCommands_hook {cs : List Command} {last hook : Command}
    (h : cs.getLast? = some last) (hb : hook.isBare hookName = true) :
    f.evalCommands none (cs ++ [hook]) = (do
      let v ← f.evalCommands none cs
      f.encode last v) := by
  rw [evalCommands_append f h]
  congr 1
  funext v
  simp [evalCommands_cons, evalNext, hb]

/-- A pipeline that declares nothing has the value of its commands. -/
lemma evalPipeline_of_declared_nil {p : Pipeline} (h : p.declared = []) :
    f.evalPipeline p = f.evalCommands none p.commands := by
  simp [evalPipeline, h, bind]

/-- With the missing call of the encoder a pipeline has the literal of its value. -/
theorem evalPipeline_withHook {p : Pipeline} {last : Command} (hd : p.declared = [])
    (h : p.commands.getLast? = some last) (hb : last.isBare hookName = false) :
    f.evalPipeline p.withHook = (do
      let v ← f.evalPipeline p
      f.encode last v) := by
  obtain ⟨pos, assigns, declared, commands⟩ := p
  subst hd
  simp only at h
  have hhook : (PipelineOf.withHook ⟨pos, assigns, [], commands⟩ : Pipeline)
      = ⟨pos, assigns, [], commands ++ [hookAt last.pos]⟩ := by
    simp [PipelineOf.withHook, h, hb]
  rw [hhook, evalPipeline_of_declared_nil f rfl, evalPipeline_of_declared_nil f rfl]
  exact evalCommands_hook f h (hookAt_isBare last.pos)

end SafeQuery.Frame
