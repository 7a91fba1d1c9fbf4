import SafeQuery.Proofs.Execution.Stepwise
import SafeQuery.Template

/-!
# Executions with room for some bytes only

An execution whose output has room for some bytes only goes along with the one that has no limit,
step by step, until a piece does not fit; then it has ended, and what it has written is the
beginning of what the other one has written and will write: `cut_step`. So an output that takes no
more bytes cuts what is written and changes nothing else, `execute_with_room`.
-/

namespace SafeQuery

namespace Sink

/-- There is no limit, and so no piece has been cut. -/
structure Unlimited (w : Sink) : Prop where
  room : w.room = none
  cut : w.cut = []

/-- What has been written without a limit is within the bytes given, and has been written with room
for them as well. -/
structure Fits (n : Nat) (w w' : Sink) : Prop extends Unlimited w where
  length_le : w.bytes.length ≤ n
  eq : w' = { w with room := some (n - w.bytes.length) }

variable {n : Nat} {w w' : Sink}

lemma fits_ofRoom (n : Nat) : Fits n (ofRoom none) (ofRoom (some n)) :=
  ⟨⟨rfl, rfl⟩, Nat.zero_le n, rfl⟩

lemma Fits.bytes_eq (h : Fits n w w') : w'.bytes = w.bytes := by rw [h.eq, bytes, bytes]

lemma Unlimited.put_fst (h : w.Unlimited) (p : Piece) : (w.put p).1 = true := by
  simp only [put, h.room]

lemma Unlimited.put (h : w.Unlimited) (p : Piece) : (w.put p).2.Unlimited := by
  simp only [Sink.put, h.room]
  exact ⟨rfl, h.cut⟩

/-- Without a limit a piece is written behind the others. -/
lemma Unlimited.bytes_put (h : w.Unlimited) (p : Piece) :
    (w.put p).2.bytes = w.bytes ++ p.bytes := by
  simp only [Sink.put, h.room, bytes, h.cut, List.reverse_cons, List.flatMap_append,
    List.flatMap_singleton, List.append_nil]

/-- A piece that fits. -/
lemma Fits.put (h : Fits n w w') {p : Piece} (hp : (w.put p).2.bytes.length ≤ n) :
    (w'.put p).1 = true ∧ Fits n (w.put p).2 (w'.put p).2 := by
  have hlength := h.bytes_put p ▸ hp
  rw [List.length_append] at hlength
  have hfits : p.bytes.length ≤ n - w.bytes.length := by omega
  have hrest : n - w.bytes.length - p.bytes.length = n - (w.put p).2.bytes.length := by
    rw [h.bytes_put p, List.length_append]
    omega
  have hput : w'.put p =
      (true, { (w.put p).2 with room := some (n - (w.put p).2.bytes.length) }) := by
    rw [← hrest, h.eq]
    simp only [Sink.put, h.room, if_pos hfits]
  rw [hput]
  exact ⟨rfl, h.toUnlimited.put p, hp, rfl⟩

/-- A piece that does not fit is cut where the room ends. -/
lemma Fits.cut_put (h : Fits n w w') {p : Piece} (hp : n < (w.put p).2.bytes.length) :
    (w'.put p).1 = false ∧ (w'.put p).2.bytes = (w.put p).2.bytes.take n := by
  rw [h.bytes_put p] at hp ⊢
  rw [List.length_append] at hp
  have hle := h.length_le
  have hfull : ¬p.bytes.length ≤ n - w.bytes.length := by omega
  have hput : w'.put p = (false, ⟨some 0, w.pieces, p.bytes.take (n - w.bytes.length)⟩) := by
    rw [h.eq]
    simp only [Sink.put, if_neg hfull]
  have hbytes : w.bytes = w.pieces.reverse.flatMap Piece.bytes := by
    rw [bytes, h.cut, List.append_nil]
  rw [hput]
  refine ⟨rfl, ?_⟩
  rw [List.take_append, List.take_of_length_le hle, hbytes]
  rfl

end Sink

namespace Progress

def sink : Progress → Sink
  | going _ w     => w
  | ended outcome => outcome.sink

/-- An execution without a limit, and one with room for some bytes: they have come to the same
point, or the second has ended because the first has written more than there is room for. -/
inductive Cut (n : Nat) : Progress → Progress → Prop
  | going {m : Moment} {w w' : Sink} : w.Fits n w' → Cut n (.going m w) (.going m w')
  | ended {failure : Option ExecutionError} {w w' : Sink} : w.Fits n w' →
      Cut n (.ended ⟨failure, w⟩) (.ended ⟨failure, w'⟩)
  | full {p : Progress} {w' : Sink} : p.sink.Unlimited → n < p.sink.bytes.length →
      w'.bytes = p.sink.bytes.take n → Cut n p (.ended ⟨some .outputFull, w'⟩)

variable {n : Nat} {p q : Progress}

/-- A step without a limit adds to what has been written. -/
lemma sink_step (h : p.sink.Unlimited) : p.step.sink.Unlimited ∧
    ∃ bs, p.step.sink.bytes = p.sink.bytes ++ bs := by
  cases p with
  | ended outcome => exact ⟨h, [], (List.append_nil _).symm⟩
  | going m w =>
    rw [step]
    cases m.next with
    | goesOn m' => exact ⟨h, [], (List.append_nil _).symm⟩
    | ends failure => exact ⟨h, [], (List.append_nil _).symm⟩
    | writes piece m' =>
      have hfits := Sink.Unlimited.put_fst h piece
      rw [sink] at hfits
      rw [Move.take, if_pos hfits]
      exact ⟨Sink.Unlimited.put h piece, piece.bytes, Sink.Unlimited.bytes_put h piece⟩

/-- A step of both executions. -/
lemma cut_step (h : Cut n p q) : Cut n p.step q.step := by
  cases h with
  | ended hfits => exact .ended hfits
  | full hunlimited hlength hbytes =>
    obtain ⟨hunlimited', bs, happend⟩ := sink_step hunlimited
    refine .full hunlimited' ?_ ?_
    · rw [happend, List.length_append]
      omega
    · rw [happend, hbytes, List.take_append_of_le_length (Nat.le_of_lt hlength)]
  | @going m w w' hfits =>
    rw [step, step]
    cases m.next with
    | goesOn m' => exact .going hfits
    | ends failure => exact .ended hfits
    | writes piece m' =>
      rw [Move.take, Move.take, if_pos (hfits.put_fst piece)]
      rcases Nat.lt_or_ge n (w.put piece).2.bytes.length with hfull | hroom
      · obtain ⟨hcut, hbytes⟩ := hfits.cut_put hfull
        rw [if_neg (by simp [hcut])]
        exact .full (hfits.toUnlimited.put piece) hfull hbytes
      · obtain ⟨hput, hfits'⟩ := hfits.put hroom
        rw [if_pos hput]
        exact .going hfits'

/-- The second execution stays the first one cut, over any number of steps. -/
lemma cut_after (h : Cut n p q) (k : Nat) : Cut n (p.after k) (q.after k) := by
  induction k with
  | zero => exact h
  | succ k ih =>
    rw [after_succ, after_succ]
    exact cut_step ih

end Progress

namespace Environment

/-- An execution and the one with room for some bytes end alike, unless there is more to write than
there is room for. -/
lemma cut_execute (env : Environment) (tree : Tree) (data : Value) (n : Nat) :
    Progress.Cut n (.ended (env.execute tree data none))
      (.ended (env.execute tree data (some n))) := by
  have hstart : Progress.Cut n (env.beginning tree data none)
    (env.beginning tree data (some n)) := .going (Sink.fits_ofRoom n)
  obtain ⟨k, hwhole⟩ := env.beginning_leads tree data none
  obtain ⟨l, hcut⟩ := env.beginning_leads tree data (some n)
  have hend := Progress.cut_after hstart (k + l)
  rw [Progress.after_add, hwhole, Progress.after_ended, Nat.add_comm, Progress.after_add, hcut,
    Progress.after_ended] at hend
  exact hend

end Environment

namespace Template

/-- What is written with room for some bytes, beside what is written without a limit. -/
structure Rendering.CutAt (n : Nat) (whole cut : Rendering) : Prop where
  bytes : cut.sink.bytes = whole.sink.bytes.take n
  failure : cut.failure =
    if whole.sink.bytes.length ≤ n then whole.failure else some (.execution .outputFull)

variable {t : Template} {data : Value} {n : Nat}

/-- A run with room for some bytes is the run without a limit, cut there. -/
lemma run_cutAt (t : Template) (tree? : Option Tree) (missing : Error) (data : Value) (n : Nat) :
    Rendering.CutAt n (t.run tree? missing data none) (t.run tree? missing data (some n)) := by
  cases tree? with
  | none => exact ⟨List.take_nil.symm, (if_pos (Nat.zero_le n)).symm⟩
  | some tree =>
    have hcut := t.environment.cut_execute tree data n
    simp only [run]
    generalize t.environment.execute tree data none = whole at hcut ⊢
    generalize t.environment.execute tree data (some n) = cut at hcut ⊢
    cases hcut with
    | ended hfits =>
      refine ⟨?_, (if_pos hfits.length_le).symm⟩
      exact hfits.bytes_eq.trans (List.take_of_length_le hfits.length_le).symm
    | full hunlimited hlength hbytes => exact ⟨hbytes, (if_neg (Nat.not_le.mpr hlength)).symm⟩

/-- An output that takes some bytes and then fails cuts what an execution writes: if all of it fits,
the execution is the one without a limit, and otherwise it writes as much as there is room for and
fails because of the output, however it would have ended. -/
theorem execute_with_room (t : Template) (data : Value) (n : Nat) :
    Rendering.CutAt n (t.execute data none) (t.execute data (some n)) ∧
      ∀ name, Rendering.CutAt n (t.executeNamed name data none)
        (t.executeNamed name data (some n)) :=
  ⟨t.run_cutAt _ _ data n, fun name => t.run_cutAt (t.trees.get? name) _ data n⟩

end Template

end SafeQuery
