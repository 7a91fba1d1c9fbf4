import SafeQuery.Proofs.Glob.Walk

/-!
# Patterns that find files

A pattern is matched with a name as a whole, or its segments are matched with those of the name,
one after the other. For the patterns whose segments lead to entries, `IsPlain`, these are the same
(`IsPlain.admits_iff`), but the number of ways may be another one than one, and directories are
found as well: `FindsEach` says when each file is found once and nothing else is.
-/

namespace SafeQuery

/-- The path is that of a directory in which the named file lies. -/
def Path.Encloses (path name : String) : Prop :=
  ∃ rest, rest ≠ [] ∧ Path.segments name = Path.segments path ++ rest

/-- The paths of the directories in which the named file lies. -/
def Path.directories (name : String) : List String :=
  ((Path.segments name).dropLast.inits.filter (· ≠ [])).map Path.ofSegments

/-- The directories in which a file lies are those along its path. -/
lemma Path.encloses_iff {path name : String} :
    Path.Encloses path name ↔ path ∈ Path.directories name := by
  have hwhole := List.dropLast_append_getLast (Path.segments_ne_nil name)
  simp only [directories, List.mem_map, List.mem_filter, List.mem_inits, decide_eq_true_eq]
  constructor
  · rintro ⟨rest, hrest, hsegments⟩
    refine ⟨Path.segments path, ⟨?_, Path.segments_ne_nil path⟩, Path.ofSegments_segments path⟩
    rw [hsegments, List.dropLast_append_of_ne_nil hrest]
    exact List.prefix_append _ _
  · rintro ⟨ss, ⟨⟨more, hmore⟩, hne⟩, rfl⟩
    rw [← hmore, List.append_assoc] at hwhole
    have hslash : ∀ s ∈ ss, '/' ∉ s.toList := by
      intro s hs
      refine Path.not_mem_of_mem_segments (p := name) ?_
      rw [← hwhole]
      exact List.mem_append_left _ hs
    refine ⟨_, ?_, (Path.segments_ofSegments hne hslash).symm ▸ hwhole.symm⟩
    exact List.append_ne_nil_of_right_ne_nil _ (List.cons_ne_nil _ _)

example : Path.directories "sql/orders/items.tmpl" = ["sql", "sql/orders"] := by decide

namespace Glob

/-- No segment of the pattern is empty or matches a directory itself or the one above. -/
def IsPlain (pattern : String) : Prop :=
  ∀ s ∈ Path.segments pattern, s ≠ "" ∧ ∀ p, Pattern.ofText s = .ok p →
    p.head? = some (.char '.') → p.admits ['.'] = false ∧ p.admits ['.', '.'] = false

/-- The patterns find every name that is admitted once, and no directory is admitted. -/
structure FindsEach (p : Pattern) (ps : List Pattern) (names : List String) : Prop where
  once : ∀ name ∈ names, p.admits name.toList = true →
    findings (collapse ps) false (Path.segments name) = 1
  noDirectory : ∀ name ∈ names, ∀ path, Path.Encloses path name → p.admits path.toList = false

lemma eq_nil_of_reads {b : Bool} {s : List Char} (h : Reads b s []) : s = [] := by
  cases h
  rfl

variable {pattern : String} {p : Pattern} {ps : List Pattern}

lemma IsPlain.leadsDown (h : IsPlain pattern)
    (hps : (Path.segments pattern).mapM Pattern.ofText = .ok ps) : ∀ p ∈ ps, p.LeadsDown := by
  intro q hq
  obtain ⟨s, hs, hread⟩ := exists_of_mem_mapM_ofText hps hq
  obtain ⟨hne, hdots⟩ := h s hs
  have hreads := ofText_eq_ok_iff.mp hread
  refine ⟨?_, fun hhead => (hdots q hread hhead).1, fun hhead => (hdots q hread hhead).2⟩
  rcases hreads.isLocal (Path.not_mem_of_mem_segments hs) with hlocal | ⟨-, hdeep⟩
  · refine .inr ⟨hlocal, ?_⟩
    rintro rfl
    exact hne (String.toList_inj.mp (eq_nil_of_reads hreads))
  · exact .inl hdeep

/-- A pattern is plain if no segment of it is empty or begins with a point. -/
lemma isPlain_of_head (h : ∀ s ∈ Path.segments pattern, s ≠ "" ∧ s.toList.head? ≠ some '.') :
    IsPlain pattern := by
  intro s hs
  refine ⟨(h s hs).1, fun p hp hhead => ?_⟩
  exact absurd ((ofText_eq_ok_iff.mp hp).head_eq hhead) (h s hs).2

lemma IsPlain.getLast (h : IsPlain pattern) :
    (Path.segments pattern).getLast? ≠ some "" := by
  intro hlast
  exact (h "" (List.mem_of_getLast? hlast)).1 rfl

/-- A name is admitted as a whole if its segments are matched in some way. -/
lemma IsPlain.admits_iff (hplain : IsPlain pattern) (hp : Pattern.ofText pattern = .ok p)
    (hps : (Path.segments pattern).mapM Pattern.ofText = .ok ps) (name : String) :
    p.admits name.toList = true ↔ 0 < ways (collapse ps) (Path.segments name) := by
  have hwhole := ofText_of_segments hps
  rw [hp] at hwhole
  obtain rfl := Except.ok.inj hwhole
  have hsegments : ∀ q ∈ ps, q.IsSegment := fun q hq => (hplain.leadsDown hps q hq).isSegment
  have hname := congrArg String.toList (Path.ofSegments_segments name)
  rw [Path.ofSegments, String.toList_ofList] at hname
  rw [ways_collapse_pos_iff, ← hname]
  exact matchBySegments hsegments (mapM_ofText_ne_nil (Path.segments_ne_nil pattern) hps) _
    (Path.segments_ne_nil name) fun s hs => Path.not_mem_of_mem_segments hs

/-- A pattern that has one wildcard for segments at most, and that not at its end, finds each file
once, so that all that matters is that no directory is admitted. -/
theorem findsEach_iff {names : List String} (hplain : IsPlain pattern)
    (hp : Pattern.ofText pattern = .ok p)
    (hps : (Path.segments pattern).mapM Pattern.ofText = .ok ps)
    (hcount : (collapse ps).count [.deep] ≤ 1) (hlast : (collapse ps).getLast? ≠ some [.deep]) :
    FindsEach p ps names ↔
      ∀ name ∈ names, ∀ path, Path.Encloses path name → p.admits path.toList = false := by
  refine ⟨FindsEach.noDirectory, fun hno => ⟨?_, hno⟩⟩
  intro name _ hadmits
  have hpos := (hplain.admits_iff hp hps name).mp hadmits
  have hfound : findings (collapse ps) false (Path.segments name) =
      ways (collapse ps) (Path.segments name) := by
    rw [findings, Bool.false_or, decide_eq_true hlast, if_pos rfl]
  rw [hfound]
  exact Nat.le_antisymm (ways_le_one hcount) hpos

end Glob

end SafeQuery
