import SafeQuery.Proofs.Execution.Stepwise

/-!
# Loops over a count

A loop over a count produces its numbers one at a time, so that a large count is no large list.
`runNode_count` says that it is nevertheless the loop over the list of these numbers, and that the
loop ends with the first visit that breaks or fails: what the visits of later numbers would do does
not matter.
-/

namespace SafeQuery

/-- The whole numbers below `n`, beginning with zero. -/
def numbersBelow (n : Int64) : List Value := (List.range n.toInt.toNat).map .ofNat

lemma numbersBelow_of_le {n : Int64} (h : n ≤ 0) : numbersBelow n = [] := by
  have hn : n.toInt ≤ 0 := Int64.le_iff_toInt_le.mp h
  have hzero : n.toInt.toNat = 0 := Int.toNat_of_nonpos hn
  rw [numbersBelow, hzero]
  rfl

/-- A number below a count is the value that it stands for. -/
lemma toInt_ofNat_of_lt_toNat {n : Int64} {i : Nat} (h : i < n.toInt.toNat) :
    (Int64.ofNat i).toInt = i := by
  have hn := n.toInt_lt
  apply Int64.toInt_ofNat_of_lt
  omega

/-- The number at a place of the list is the place. -/
lemma getElem?_numbersBelow_iff {n : Int64} {i : Nat} {v : Value} :
    (numbersBelow n)[i]? = some v ↔ ∃ m : Int64, v = .int m ∧ m.toInt = i ∧ m < n := by
  rw [numbersBelow, List.getElem?_map]
  constructor
  · intro h
    obtain ⟨j, hj, rfl⟩ := Option.map_eq_some_iff.mp h
    obtain ⟨hi, rfl⟩ := List.getElem?_eq_some_iff.mp hj
    rw [List.length_range] at hi
    rw [List.getElem_range]
    have htoInt := toInt_ofNat_of_lt_toNat hi
    refine ⟨.ofNat i, rfl, htoInt, ?_⟩
    rw [Int64.lt_iff_toInt_lt, htoInt]
    omega
  · rintro ⟨m, rfl, hm, hlt⟩
    rw [Int64.lt_iff_toInt_lt, hm] at hlt
    have hi : i < n.toInt.toNat := by omega
    have hmi : Int64.ofNat i = m := by
      rw [← Int64.toInt_inj, toInt_ofNat_of_lt_toNat hi, hm]
    rw [List.getElem?_range hi, Option.map_some, Value.ofNat, hmi]

namespace Items

/-- A loop goes through no items just where the list of them is empty. -/
lemma isEmpty_eq (items : Items) : items.isEmpty = items.all.isEmpty := by
  cases items with
  | pairs ps => rfl
  | count n => cases n <;> simp [isEmpty, all, List.range_succ]

/-- The list of the numbers has the items of the count. -/
lemma all_numbersBelow (n : Int64) :
    (Items.pairs ((numbersBelow n).zipIdx.map fun (v, i) => (.ofNat i, v))).all =
      (Items.count n.toInt.toNat).all := by
  apply List.ext_getElem
  · simp [all, numbersBelow]
  · intro i h h'
    simp [all, numbersBelow]

end Items

/-! ### Visits of a loop -/

/-- A loop has visited the numbers below the given one, and none of these visits has left it: where
it began and where it is. -/
inductive Passes (visit : Value → Value → Run Flow) : Nat → Scope × Sink → Scope × Sink → Prop
  | start {x : Scope × Sink} : Passes visit 0 x x
  | next {k : Nat} {x : Scope × Sink} {t t' : Scope} {w w' : Sink} {flow : Flow} :
      Passes visit k x (t, w) →
      ((visit (.ofNat k) (.ofNat k)).run t).run.run w = (.ok (flow, t'), w') →
      flow ≠ .breakLoop → Passes visit (k + 1) x (t', w')

/-- A loop over numbers is left by the visit of the given one, which breaks or fails: where the loop
began and how it ends. -/
inductive LeftAt (visit : Value → Value → Run Flow) (k : Nat) :
    Scope × Sink → Except ExecutionError Scope × Sink → Prop
  | breaks {x : Scope × Sink} {t t' : Scope} {w w' : Sink} :
      Passes visit k x (t, w) →
      ((visit (.ofNat k) (.ofNat k)).run t).run.run w = (.ok (.breakLoop, t'), w') →
      LeftAt visit k x (.ok t', w')
  | fails {x : Scope × Sink} {t : Scope} {w w' : Sink} {cause : ExecutionError} :
      Passes visit k x (t, w) →
      ((visit (.ofNat k) (.ofNat k)).run t).run.run w = (.error cause, w') →
      LeftAt visit k x (.error cause, w')

section Visits

variable {visit visit' : Value → Value → Run Flow} {k : Nat} {x : Scope × Sink}

/-- The visits of later numbers do not matter. -/
lemma Passes.congr {y : Scope × Sink} (h : Passes visit k x y)
    (hsame : ∀ i < k, visit' (.ofNat i) (.ofNat i) = visit (.ofNat i) (.ofNat i)) :
    Passes visit' k x y := by
  induction h with
  | start => exact .start
  | @next k x t t' w w' flow _ hvisit hflow ih =>
    have hpasses := ih fun i hi => hsame i (Nat.lt_succ_of_lt hi)
    rw [← hsame k (Nat.lt_succ_self k)] at hvisit
    exact .next hpasses hvisit hflow

/-- Where a loop is left depends only on the visits so far. -/
lemma LeftAt.congr {o : Except ExecutionError Scope × Sink} (h : LeftAt visit k x o)
    (hsame : ∀ i ≤ k, visit' (.ofNat i) (.ofNat i) = visit (.ofNat i) (.ofNat i)) :
    LeftAt visit' k x o := by
  have hbelow : ∀ i < k, visit' (.ofNat i) (.ofNat i) = visit (.ofNat i) (.ofNat i) :=
    fun i hi => hsame i (Nat.le_of_lt hi)
  cases h with
  | breaks hpasses hvisit =>
    rw [← hsame k (Nat.le_refl k)] at hvisit
    exact .breaks (hpasses.congr hbelow) hvisit
  | fails hpasses hvisit =>
    rw [← hsame k (Nat.le_refl k)] at hvisit
    exact .fails (hpasses.congr hbelow) hvisit

namespace Items

/-- Behind visits that have not left the loop, the loop goes on with the next number. -/
lemma run_forNumbers_of_passes {y : Scope × Sink} (h : Passes visit k x y) (m : Nat) :
    ((forNumbers visit 0 (k + m)).run x.1).run.run x.2 =
      ((forNumbers visit k m).run y.1).run.run y.2 := by
  induction h generalizing m with
  | start => rw [Nat.zero_add]
  | @next k x t t' w w' flow _ hvisit hflow ih =>
    rw [Nat.add_assoc, Nat.add_comm 1 m, ih, forNumbers, Run.run_bind, hvisit]
    cases flow with
    | breakLoop => exact absurd rfl hflow
    | normal | continueLoop => rfl

/-- A loop ends with the visit that leaves it. -/
lemma run_forEach_of_leftAt {o : Except ExecutionError Scope × Sink} (h : LeftAt visit k x o)
    {n : Nat} (hk : k < n) :
    (((Items.count n).forEach visit).run x.1).run.run x.2 = (o.1.map fun t => ((), t), o.2) := by
  obtain ⟨m, rfl⟩ := Nat.exists_eq_add_of_lt hk
  rw [Nat.add_assoc, forEach]
  cases h with
  | breaks hpasses hvisit =>
    rw [run_forNumbers_of_passes hpasses, forNumbers, Run.run_bind, hvisit]
    rfl
  | fails hpasses hvisit =>
    rw [run_forNumbers_of_passes hpasses, forNumbers, Run.run_bind, hvisit]
    rfl

end Items

end Visits

/-! ### Statements -/

namespace Stage

/-- One visit of a loop: the item is given to the variables, and the statements are run with it as
their data. -/
def visit (s : Stage) (pos : Position) (declared : List Variable) (body : Block)
    (index value : Value) : Run Flow := do
  Run.ofEval (s.toFrame.bindItem pos index value declared)
  Run.locally ((s.withDot value).runNodes body.nodes)

/-- What a loop does with its items. -/
def runItems (s : Stage) (pos : Position) (pipe : Pipeline) (body : Block)
    (otherwise : Option Block) (items : Items) : Run Flow := do
  if items.isEmpty then
    let _ ← s.runElse otherwise
    return .normal
  else
    Run.ofEval (Frame.declareItems pipe)
    items.forEach (s.visit pos pipe.declared body)
    return .normal

variable {s : Stage} {pos : Position} {body : Block} {otherwise : Option Block} {p q : Pipeline}

/-- Of its items a loop sees only what they are one after the other, and of its pipeline only the
variables. -/
lemma runItems_congr {items items' : Items} (hall : items.all = items'.all)
    (hdeclared : q.declared = p.declared) (hassigns : q.assigns = p.assigns) :
    s.runItems pos p body otherwise items = s.runItems pos q body otherwise items' := by
  simp only [runItems, Items.isEmpty_eq, Items.forEach_eq, hall, Frame.declareItems, hdeclared,
    hassigns]

/-- A loop evaluates its items and then goes through them. -/
lemma runNode_eq_runItems :
    s.runNode (.branch .range pos p body otherwise) = Run.locally (do
      let items ← Run.ofEval (s.evalItems pos p)
      s.runItems pos p body otherwise items) := by
  rw [runNode_range]
  simp only [runItems, Items.forEach_eq]
  rfl

/-- A loop, from the value of its commands. -/
lemma run_runNode_range {u t : Scope} {v : Value} {items : Items}
    (hvalue : (s.evalCommands none p.commands).run u = .ok (v, t))
    (hitems : Items.ofValue? v = some items) (w : Sink) :
    let o := ((s.runItems pos p body otherwise items).run t).run.run w
    ((s.runNode (.branch .range pos p body otherwise)).run u).run.run w =
      (o.1.map fun r => (r.1, r.2.outermost u.length), o.2) := by
  intro o
  have hrun : (s.evalItems pos p).run u = .ok (items, t) := by
    rw [Frame.evalItems, StateT.run_bind, hvalue]
    simp only [bind, Except.bind, hitems]
    rfl
  rw [runNode_eq_runItems, Run.run_locally, Run.run_bind, Run.run_ofEval, hrun]
  simp only [o]
  rcases ((s.runItems pos p body otherwise items).run t).run.run w with ⟨cause | ⟨flow, t'⟩, w'⟩
  · rfl
  · rfl

/-- What a loop does with numbers, if a visit leaves it. -/
lemma run_runItems_of_leftAt {t t₀ : Scope} {w : Sink} {n k : Nat}
    {o : Except ExecutionError Scope × Sink}
    (hdeclare : (Frame.declareItems p).run t = .ok ((), t₀)) (hk : k < n)
    (h : LeftAt (s.visit pos p.declared body) k (t₀, w) o) :
    ((s.runItems pos p body otherwise (.count n)).run t).run.run w =
      (o.1.map fun t' => (.normal, t'), o.2) := by
  have hsome : (Items.count n).isEmpty = false := by
    rw [Items.isEmpty, decide_eq_false_iff_not]
    omega
  rw [runItems, hsome, if_neg (by decide), Run.run_bind, Run.run_ofEval, hdeclare]
  dsimp only
  rw [Run.run_bind, Items.run_forEach_of_leftAt h hk]
  rcases o with ⟨cause | t', w'⟩
  · rfl
  · rfl

/-- A loop whose pipeline yields a count writes, ends and leaves the variables as the same loop does
if its pipeline yields the list of the numbers below the count, of which there are none if the count
is not positive. If the visit of a number breaks or fails, the loop ends there, and it would do so
whatever the visits of later numbers did. -/
theorem runNode_count (s : Stage) (pos : Position) (body : Block) (otherwise : Option Block)
    (n : Int64) {p q : Pipeline} (hdeclared : q.declared = p.declared)
    (hassigns : q.assigns = p.assigns) {u t : Scope}
    (hcount : (s.evalCommands none p.commands).run u = .ok (.int n, t))
    (hlist : (s.evalCommands none q.commands).run u = .ok (.list (numbersBelow n), t)) (w : Sink) :
    let ends := ((s.runNode (.branch .range pos p body otherwise)).run u).run.run w
    ends = ((s.runNode (.branch .range pos q body otherwise)).run u).run.run w ∧
    (∀ (i : Nat) (v : Value), (numbersBelow n)[i]? = some v ↔
      ∃ m : Int64, v = .int m ∧ m.toInt = i ∧ m < n) ∧
    (n ≤ 0 → numbersBelow n = []) ∧
    ∀ t₀ k o, (Frame.declareItems p).run t = .ok ((), t₀) → k < n.toInt.toNat →
      LeftAt (s.visit pos p.declared body) k (t₀, w) o →
        ends = (o.1.map fun t' => (.normal, t'.outermost u.length), o.2) ∧
        ∀ visit', (∀ i ≤ k, visit' (.ofNat i) (.ofNat i) =
            s.visit pos p.declared body (.ofNat i) (.ofNat i)) →
          (((Items.count n.toInt.toNat).forEach visit').run t₀).run.run w =
            (o.1.map fun t' => ((), t'), o.2) := by
  intro ends
  refine ⟨?_, fun i v => getElem?_numbersBelow_iff, numbersBelow_of_le, ?_⟩
  · simp only [ends]
    rw [run_runNode_range hcount rfl, run_runNode_range hlist rfl,
      runItems_congr (Items.all_numbersBelow n).symm hdeclared hassigns]
  · intro t₀ k o hdeclare hk hleft
    constructor
    · simp only [ends]
      rw [run_runNode_range hcount rfl, run_runItems_of_leftAt hdeclare hk hleft]
      rcases o with ⟨cause | t', w'⟩
      · rfl
      · rfl
    · intro visit' hsame
      exact Items.run_forEach_of_leftAt (hleft.congr hsame) hk

/-- The first visit leaves the loop, so that it does not matter how large the count is. -/
theorem runNode_count_of_break :
    let p : Position := ⟨0, 1⟩
    let n : Int64 := 4611686018427387904
    let s : Stage := ⟨⟨⟨.empty, .empty, Literal.postgres, .default⟩, "q",
      .list (numbersBelow n)⟩, none⟩
    let counts : Pipeline := ⟨p, false, [⟨p, "$i", []⟩],
      [⟨p, [.number ⟨p, "4611686018427387904", some n, none⟩]⟩]⟩
    let lists : Pipeline := ⟨p, false, [⟨p, "$i", []⟩], [⟨p, [.dot p]⟩]⟩
    let body : Block := ⟨p, [.text p "x", .breakLoop p]⟩
    let u : Scope := [("$", .null)]
    (s.evalCommands none counts.commands).run u = .ok (.int n, u) ∧
      (s.evalCommands none lists.commands).run u = .ok (.list (numbersBelow n), u) ∧
      ((s.runNode (.branch .range p counts body none)).run u).run.run (.ofRoom none) =
        (.ok (.normal, u), ⟨none, [.text "x"], []⟩) ∧
      ((s.runNode (.branch .range p lists body none)).run u).run.run (.ofRoom none) =
        (.ok (.normal, u), ⟨none, [.text "x"], []⟩) := by
  intro p n s counts lists body u
  have hcount : (s.evalCommands none counts.commands).run u = .ok (.int n, u) := rfl
  have hlist : (s.evalCommands none lists.commands).run u = .ok (.list (numbersBelow n), u) := rfl
  obtain ⟨hsame, -, -, hends⟩ :=
    runNode_count (p := counts) (q := lists) s p body none n rfl rfl hcount hlist (.ofRoom none)
  have hleft : LeftAt (s.visit p counts.declared body) 0 (("$i", .null) :: u, .ofRoom none)
      (.ok (("$i", .int 0) :: u), ⟨none, [.text "x"], []⟩) := .breaks .start rfl
  have hsome : 0 < n.toInt.toNat := by decide +kernel
  have hcounted := (hends _ 0 _ rfl hsome hleft).1
  exact ⟨hcount, hlist, hcounted, hsame ▸ hcounted⟩

end Stage

end SafeQuery
