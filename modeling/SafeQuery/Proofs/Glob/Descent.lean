import SafeQuery.Proofs.File.Path
import SafeQuery.Proofs.Glob.Walk

/-!
# The way to a directory

A path leads to a directory step by step along its segments. `Disk.Stands` says where a path leads
and by which directories, and `Stands.shows` that the disk shows below the path what lies in the
directory. The patterns of an escaped path are followed to where the path leads: `goOn_verbatim`.
-/

namespace SafeQuery

namespace Glob

open SafeQuery.Path (IsRooted base)

variable {path name : String} {names : List String}

lemma entryPath_here (name : String) : entryPath "." name = name := if_pos Path.components_here

lemma entryPath_of_ne (h : Path.components path ≠ [.here]) (name : String) :
    entryPath path name = Path.join path name :=
  if_neg h

/-- What a path is made of when the name of an entry is put behind it. -/
lemma segments_entryPath (h : IsRooted path) (hname : '/' ∉ name.toList) :
    Path.segments (entryPath path name) = base path ++ [name] := by
  rcases h.here with rfl | hhere
  · rw [entryPath_here, Path.base_here, Path.segments_of_not_mem hname, List.nil_append]
  · rw [entryPath_of_ne hhere, Path.segments_join h.ne_empty (Path.isAbsolute_of_not_mem hname),
      Path.base_of_ne hhere, Path.segments_of_not_mem hname]

lemma isAbsolute_entryPath (h : IsRooted path) (hname : '/' ∉ name.toList) :
    Path.isAbsolute (entryPath path name) = Path.isAbsolute path := by
  have hrelative := Path.isAbsolute_of_not_mem hname
  rcases h.here with rfl | hhere
  · rw [entryPath_here, hrelative]
    rfl
  · rw [entryPath_of_ne hhere, Path.isAbsolute_join h.ne_empty hrelative]

lemma components_ne_here_of_join (hne : path ≠ "") (hhere : Path.components path ≠ [.here])
    (hname : '/' ∉ name.toList) : Path.components (Path.join path name) ≠ [.here] := by
  rw [Path.components_join hne (Path.isAbsolute_of_not_mem hname)]
  intro heq
  rcases List.append_eq_singleton_iff.mp heq with ⟨-, hcounted⟩ | ⟨hsame, -⟩
  · have hmem : Path.Component.here ∈ Path.counted (Path.segments name) := by
      rw [hcounted]
      exact List.mem_singleton_self _
    exact Path.here_not_mem_counted _ hmem
  · exact hhere hsame

/-- From the path of an entry one can go on to entries of it. -/
lemma isRooted_entryPath (h : IsRooted path) (hname : '/' ∉ name.toList)
    (hfirst : path = "." → name ≠ "") : IsRooted (entryPath path name) := by
  rcases h.here with rfl | hhere
  · rw [entryPath_here]
    refine ⟨hfirst rfl, ?_⟩
    by_cases hdot : name = "."
    · exact .inl hdot
    · refine .inr ?_
      rw [Path.components_eq, Path.start, Path.isAbsolute_of_not_mem hname,
        Path.segments_of_not_mem hname]
      simp only [Bool.false_eq_true, if_false, List.head?_cons, Option.some.injEq, hdot,
        List.nil_append]
      intro heq
      exact Path.here_not_mem_counted [name] (heq ▸ List.mem_singleton_self _)
  · rw [entryPath_of_ne hhere]
    exact ⟨Path.join_ne_empty h.ne_empty (Path.isAbsolute_of_not_mem hname),
      .inr (components_ne_here_of_join h.ne_empty hhere hname)⟩

lemma base_entryPath_isPrefix (h : IsRooted path) (hname : '/' ∉ name.toList) :
    base (entryPath path name) <+: base path ++ [name] := by
  rw [← segments_entryPath h hname, base]
  split
  · exact List.nil_prefix
  · exact Path.front_isPrefix _

/-- What counts is kept. -/
lemma counted_base_entryPath (h : IsRooted path) (hname : '/' ∉ name.toList)
    (hfirst : path = "." → name ≠ "") :
    Path.counted (base (entryPath path name)) =
      Path.counted (base path) ++ Path.counted [name] := by
  rw [← Path.counted_append, ← segments_entryPath h hname]
  rcases (isRooted_entryPath h hname hfirst).here with hdot | hhere
  · rw [hdot]
    rfl
  · exact Path.counted_base hhere

lemma components_entryPath_ne (h : IsRooted path) (hname : Path.IsName name) :
    Path.components (entryPath path name) ≠ [.here] := by
  rcases (isRooted_entryPath h hname.noSlash fun _ => hname.ne_empty).here with hdot | hhere
  · have hsegments := segments_entryPath h hname.noSlash
    rw [hdot] at hsegments
    have hlast := congrArg List.getLast? hsegments
    rw [List.getLast?_concat] at hlast
    exact absurd (Option.some.inj hlast).symm hname.ne_dot
  · exact hhere

/-- The path of an entry has the name of the entry as its last segment that stays. -/
lemma base_entryPath (h : IsRooted path) (hname : Path.IsName name) :
    base (entryPath path name) = base path ++ [name] := by
  have hsegments := segments_entryPath h hname.noSlash
  rw [Path.base_of_ne (components_entryPath_ne h hname), Path.front_of_getLast, hsegments]
  rw [hsegments, List.getLast?_concat]
  exact fun heq => hname.ne_empty (Option.some.inj heq)

/-- What a path below another one is made of. -/
lemma segments_pathBelow (h : IsRooted path) (hne : names ≠ [])
    (hnames : ∀ s ∈ names, Path.IsName s) :
    Path.segments (pathBelow path names) = base path ++ names ∧
      Path.isAbsolute (pathBelow path names) = Path.isAbsolute path ∧
        IsRooted (pathBelow path names) := by
  induction names generalizing path with
  | nil => exact absurd rfl hne
  | cons name names ih =>
    obtain ⟨hname, hnames⟩ := List.forall_mem_cons.mp hnames
    have hrooted := isRooted_entryPath h hname.noSlash fun _ => hname.ne_empty
    change Path.segments (pathBelow (entryPath path name) names) = _ ∧
      Path.isAbsolute (pathBelow (entryPath path name) names) = _ ∧
        IsRooted (pathBelow (entryPath path name) names)
    by_cases hnil : names = []
    · subst hnil
      exact ⟨segments_entryPath h hname.noSlash, isAbsolute_entryPath h hname.noSlash, hrooted⟩
    · obtain ⟨hsegments, habsolute, hbelow⟩ := ih hrooted hnil hnames
      refine ⟨?_, habsolute.trans (isAbsolute_entryPath h hname.noSlash), hbelow⟩
      rw [hsegments, base_entryPath h hname, List.append_assoc]
      rfl

end Glob

/-! ### Resolving paths -/

namespace Disk

open Glob
open SafeQuery.Path (IsRooted base)

variable {d : Disk} {path name : String} {names : List String} {t u : FileTree}
  {w w' : Descent × FileTree}

/-- The names that lead to where paths like the given one begin. -/
def origin (d : Disk) (path : String) : List String :=
  if Path.isAbsolute path then [] else d.working

/-- The path can be looked up at all. -/
structure IsUsable (path : String) : Prop where
  ne_empty : path ≠ ""
  noNul : '\x00' ∉ path.toList
  short : path.utf8ByteSize < 4096

/-- A usable path is resolved segment by segment from its origin on. -/
lemma resolve_of_isUsable (h : IsUsable path) :
    d.resolve path =
      ((d.origin path ++ Path.segments path).foldlM step ([], d.tree)).map (·.2) := by
  have hnul : path.toList.contains '\x00' = false := by simpa using h.noNul
  have hshort : ¬ 4096 ≤ path.utf8ByteSize := Nat.not_le.mpr h.short
  rw [resolve]
  simp only [hnul, h.ne_empty, hshort, Bool.false_eq_true, if_false]
  rfl

/-- What is looked up with success can be looked up. -/
lemma isUsable_of_resolve (h : d.resolve path = .ok t) : IsUsable path := by
  rw [resolve] at h
  by_cases hnul : path.toList.contains '\x00' = true
  · rw [if_pos hnul] at h
    cases h
  · rw [if_neg hnul] at h
    refine ⟨?_, by simpa using hnul, ?_⟩
    · rintro rfl
      cases h
    · refine Nat.lt_of_not_le fun hlong => ?_
      have hne : path ≠ "" := by
        rintro rfl
        cases h
      simp only [hne, hlong, if_true, if_false] at h
      cases h

/-- What a path leads to is where the way along its segments ends. -/
lemma resolve_eq_ok_iff : d.resolve path = .ok t ↔
    IsUsable path ∧ ∃ w, (d.origin path ++ Path.segments path).foldlM step ([], d.tree) = .ok w ∧
      w.2 = t := by
  constructor
  · intro h
    have husable := isUsable_of_resolve h
    rw [resolve_of_isUsable husable] at h
    cases hwalk : (d.origin path ++ Path.segments path).foldlM step ([], d.tree) with
    | error e =>
      rw [hwalk] at h
      cases h
    | ok w =>
      rw [hwalk] at h
      exact ⟨husable, w, rfl, Except.ok.inj h⟩
  · rintro ⟨husable, w, hwalk, rfl⟩
    rw [resolve_of_isUsable husable, hwalk]
    rfl

/-- A way goes along the first part of a path and on along the rest. -/
lemma foldlM_append_eq_ok {as bs : List String} {v : Descent × FileTree} :
    (as ++ bs).foldlM step v = .ok w ↔
      ∃ u, as.foldlM step v = .ok u ∧ bs.foldlM step u = .ok w := by
  rw [List.foldlM_append]
  cases as.foldlM step v <;> simp [bind, Except.bind]

/-- A path leads to a directory, and it is known what lies on the way. -/
structure Stands (d : Disk) (path : String) (w : Descent × FileTree) : Prop
    extends IsRooted path where
  noNul : '\x00' ∉ path.toList
  way : (d.origin path ++ base path).foldlM step ([], d.tree) = .ok w
  isDirectory : w.2.isDirectory = true

lemma step_idle (hname : Path.isIdle name = true) (hw : w.2.isDirectory = true) :
    step w name = .ok w := by
  rw [step, if_pos hname, if_pos hw]

/-- The way to a directory goes along its path. -/
lemma Stands.walk (h : d.Stands path w) :
    (d.origin path ++ Path.segments path).foldlM step ([], d.tree) = .ok w := by
  have hidle : ∀ s, Path.isIdle s = true →
      (d.origin path ++ (base path ++ [s])).foldlM step ([], d.tree) = .ok w := by
    intro s hs
    rw [← List.append_assoc, List.foldlM_append, h.way]
    change [s].foldlM step w = .ok w
    rw [List.foldlM_cons, step_idle hs h.isDirectory]
    rfl
  rcases h.here with rfl | hhere
  · exact hidle "." (by decide)
  · have hbase := Path.base_of_ne hhere
    rcases Path.segments_eq_front path with hsegments | hsegments
    · rw [hsegments, ← hbase]
      exact h.way
    · rw [hsegments, ← hbase]
      exact hidle "" (by decide)

/-- A path that leads to a directory is resolved as that directory. -/
lemma Stands.resolve (h : d.Stands path w) (hshort : path.utf8ByteSize < 4096) :
    d.resolve path = .ok w.2 := by
  rw [resolve_of_isUsable ⟨h.ne_empty, h.noNul, hshort⟩, h.walk]
  rfl

lemma noNul_entryPath (hpath : '\x00' ∉ path.toList) (hname : '\x00' ∉ name.toList) :
    '\x00' ∉ (entryPath path name).toList := by
  rw [entryPath]
  split
  · exact hname
  · exact Path.not_mem_join (by decide) hpath hname

lemma noNul_pathBelow (hpath : '\x00' ∉ path.toList) (hnames : ∀ s ∈ names, '\x00' ∉ s.toList) :
    '\x00' ∉ (pathBelow path names).toList := by
  induction names generalizing path with
  | nil => exact hpath
  | cons name names ih =>
    obtain ⟨hname, hnames⟩ := List.forall_mem_cons.mp hnames
    exact ih (noNul_entryPath hpath hname) hnames

/-- The way to an entry goes one step further. -/
lemma Stands.walk_entryPath (h : d.Stands path w) (hname : '/' ∉ name.toList) :
    (d.origin (entryPath path name) ++ Path.segments (entryPath path name)).foldlM step
      ([], d.tree) = step w name := by
  have horigin : d.origin (entryPath path name) = d.origin path := by
    rw [origin, origin, isAbsolute_entryPath h.toIsRooted hname]
  rw [horigin, segments_entryPath h.toIsRooted hname, ← List.append_assoc, List.foldlM_append,
    h.way]
  change [name].foldlM step w = step w name
  rw [List.foldlM_cons]
  cases step w name <;> rfl

/-- A segment that does not count does not lead anywhere else. -/
lemma foldlM_of_idle {as : List String} {v : Descent × FileTree} (hname : Path.isIdle name = true)
    (h : (as ++ [name]).foldlM step v = .ok w) : as.foldlM step v = .ok w := by
  obtain ⟨u, hu, hstep⟩ := foldlM_append_eq_ok.mp h
  rw [List.foldlM_cons, step, if_pos hname] at hstep
  split at hstep
  · cases hstep
    exact hu
  · cases hstep

/-- A step of the way leads to the entry of the directory. -/
lemma Stands.enter (h : d.Stands path w) (hname : '/' ∉ name.toList)
    (hnul : '\x00' ∉ name.toList) (hfirst : path = "." → name ≠ "") (hstep : step w name = .ok w')
    (hw' : w'.2.isDirectory = true) : d.Stands (entryPath path name) w' := by
  have hrooted := isRooted_entryPath h.toIsRooted hname hfirst
  have hwalk := (h.walk_entryPath hname).trans hstep
  refine ⟨hrooted, noNul_entryPath h.noNul hnul, ?_, hw'⟩
  generalize hpath : entryPath path name = q at hrooted hwalk
  rcases hrooted.here with rfl | hhere
  · have hpoint : Path.segments "." = ["."] := by decide
    rw [hpoint] at hwalk
    rw [Path.base_here, List.append_nil]
    exact foldlM_of_idle (by decide) hwalk
  · rw [Path.base_of_ne hhere]
    rcases Path.segments_eq_front q with hsegments | hsegments
    · rwa [hsegments] at hwalk
    · rw [hsegments, ← List.append_assoc] at hwalk
      exact foldlM_of_idle (by decide) hwalk

/-! ### What a disk shows below a directory -/

/-- A name leads from a directory to its entry. -/
lemma step_isName (hname : Path.IsName name) :
    step w name = (w.2.child name).map fun u => (w.2 :: w.1, u) := by
  have hidle : ¬ Path.isIdle name = true := by simp [hname.counts]
  rw [step, if_neg hidle, if_neg hname.notUp]
  cases w.2.child name <;> rfl

/-- The entry under a name is the part that the name alone leads to. -/
lemma child_toOption (hproper : t.IsProper) (name : String) :
    (t.child name).toOption = t.at? [name] := by
  cases t with
  | file bs => rfl
  | directory d =>
    rw [FileTree.at?_directory, FileTree.child]
    split
    · rename_i hlong
      cases hget : d.get? name with
      | none => rfl
      | some u =>
        have hentry := hproper.isEntryName ((Dict.mem_entries_iff hproper.sorted).mpr hget)
        exact absurd hentry.short (Nat.not_le.mpr hlong)
    · cases d.get? name <;> rfl

/-- A step to an entry leads to what lies in the directory under its name. -/
lemma at?_of_step (hproper : w.2.IsProper) (hname : Path.IsName name)
    (hstep : step w name = .ok w') : w.2.at? [name] = some w'.2 := by
  rw [step_isName hname] at hstep
  rw [← child_toOption hproper]
  cases hchild : w.2.child name with
  | error e =>
    rw [hchild] at hstep
    cases hstep
  | ok u =>
    rw [hchild] at hstep
    cases hstep
    rfl

/-- Names lead to the part of a tree that they name. -/
lemma foldlM_step_names (hproper : w.2.IsProper) (hnames : ∀ s ∈ names, Path.IsName s) :
    ((names.foldlM step w).map (·.2)).toOption = w.2.at? names := by
  induction names generalizing w with
  | nil => exact (FileTree.at?_nil w.2).symm
  | cons name names ih =>
    obtain ⟨hname, hnames⟩ := List.forall_mem_cons.mp hnames
    have hchild := child_toOption hproper name
    rw [List.foldlM_cons, step_isName hname, FileTree.at?_cons, ← hchild]
    cases hget : w.2.child name with
    | error e => rfl
    | ok u =>
      rw [hget] at hchild
      exact ih (hproper.at hchild.symm) hnames

/-- Below a directory the disk shows what lies in it. -/
theorem Stands.shows (h : d.Stands path w) (hproper : w.2.IsProper)
    (hshort : ∀ names u, w.2.at? names = some u → (pathBelow path names).utf8ByteSize < 4096) :
    d.Shows path w.2 := by
  intro names hnames
  have hwalk : (d.origin (pathBelow path names) ++ Path.segments (pathBelow path names)).foldlM step
      ([], d.tree) = names.foldlM step w := by
    by_cases hne : names = []
    · subst hne
      exact h.walk
    · obtain ⟨hsegments, habsolute, -⟩ := segments_pathBelow h.toIsRooted hne hnames
      rw [hsegments, origin, habsolute, ← origin, ← List.append_assoc, List.foldlM_append, h.way]
      rfl
  have hat := foldlM_step_names hproper hnames
  by_cases husable : IsUsable (pathBelow path names)
  · rw [resolve_of_isUsable husable, hwalk, hat]
  · have hnone : w.2.at? names = none := by
      by_contra hsome
      obtain ⟨u, hu⟩ := Option.ne_none_iff_exists'.mp hsome
      refine husable ⟨?_, ?_, hshort names u hu⟩
      · by_cases hne : names = []
        · subst hne
          exact h.ne_empty
        · exact (segments_pathBelow h.toIsRooted hne hnames).2.2.ne_empty
      · exact noNul_pathBelow h.noNul fun s hs => (hproper.isEntryName_of_at hu s hs).noNul
    rw [hnone]
    cases hresolve : d.resolve (pathBelow path names) with
    | error e => rfl
    | ok u => exact absurd (isUsable_of_resolve hresolve) husable

/-- The path of an entry is resolved as the entry. -/
lemma Stands.resolve_entryPath (h : d.Stands path w) (hname : '/' ∉ name.toList)
    (hnul : '\x00' ∉ name.toList) (hfirst : path = "." → name ≠ "")
    (hshort : (entryPath path name).utf8ByteSize < 4096) (hstep : step w name = .ok w') :
    d.resolve (entryPath path name) = .ok w'.2 := by
  have hrooted := isRooted_entryPath h.toIsRooted hname hfirst
  rw [resolve_of_isUsable ⟨hrooted.ne_empty, noNul_entryPath h.noNul hnul, hshort⟩,
    h.walk_entryPath hname, hstep]
  rfl

end Disk

namespace Glob

open Disk (Stands)
open SafeQuery.Path (base)

variable {d : Disk} {path name : String} {ps : List Pattern} {w w' : Disk.Descent × FileTree}

/-- A segment with wildcards that are escaped is neither idle nor one that leads up. -/
lemma verbatim_isName (hname : '/' ∉ name.toList)
    (hspecial : (verbatim name.toList).literal? = none) : Path.IsName name := by
  refine ⟨?_, ?_, hname⟩
  · rw [Path.isIdle, Bool.or_eq_false_iff, decide_eq_false_iff_not, decide_eq_false_iff_not]
    refine ⟨?_, ?_⟩ <;> rintro rfl <;> cases hspecial
  · rintro rfl
    cases hspecial

/-- The escaped name of an entry leads to the entry alone. -/
lemma verbatim_leadsDown (hname : Path.IsName name) : (verbatim name.toList).LeadsDown := by
  have hadmits : ∀ s, s ≠ name → (verbatim name.toList).admits s.toList = false := by
    intro s hs
    rw [Bool.eq_false_iff]
    exact fun h => hs (String.toList_inj.mp ((admits_verbatim hname.noSlash).mp h))
  have hslash : '/' ∉ (escape name).toList := by
    rw [toList_escape, List.mem_flatMap]
    rintro ⟨c, hc, hmem⟩
    exact slash_not_mem_escapeChar (fun heq => hname.noSlash (heq ▸ hc)) hmem
  have hlocal := ((reads_escape false name).isLocal hslash).resolve_right
    fun hdeep => verbatim_ne_deep _ hdeep.2
  have hne : verbatim name.toList ≠ [] := by
    simpa [verbatim] using hname.ne_empty
  exact ⟨.inr ⟨hlocal, hne⟩, fun _ => hadmits "." hname.ne_dot.symm,
    fun _ => hadmits ".." hname.notUp.symm⟩

/-- An escaped segment is followed to the entry that it names. -/
lemma follow_verbatim (h : d.Stands path w) (hpath : path.utf8ByteSize < 4096)
    (hproper : w.2.IsProper) (hname : '/' ∉ name.toList) (hnul : '\x00' ∉ name.toList)
    (hfirst : path = "." → name ≠ "") (hshort : (entryPath path name).utf8ByteSize < 4096)
    (hstep : Disk.step w name = .ok w') :
    follow d false (verbatim name.toList :: ps) path = goOn d ps (entryPath path name) := by
  have hresolve := h.resolve hpath
  cases hs : (verbatim name.toList).literal? with
  | some s =>
    obtain rfl : s = name.toList := (admits_verbatim hname).mp ((admits_of_literal hs s).mpr rfl)
    have hdirectory : d.isDirectory path = true := by
      rw [Disk.isDirectory, hresolve]
      exact h.isDirectory
    have hcontains : d.contains (entryPath path name) = true := by
      rw [Disk.contains, h.resolve_entryPath hname hnul hfirst hshort hstep]
      rfl
    rw [follow]
    simp only [hs, String.ofList_toList, hdirectory, hcontains, ite_self, if_true]
    rfl
  | none =>
    -- A name with wildcards is looked for among the entries, where it is found once.
    have hisName := verbatim_isName hname hs
    have hat := Disk.at?_of_step hproper hisName hstep
    have hadmits : ∀ e : String × FileTree,
        (verbatim name.toList).admits e.1.toList = true ↔ e.1 = name := by
      intro e
      rw [admits_verbatim hname, String.toList_inj]
    cases hw : w.2 with
    | file bs =>
      rw [hw] at hat
      cases hat
    | directory es =>
      rw [hw] at hresolve hproper hat
      rw [FileTree.at?_directory] at hat
      rw [follow_wild (verbatim_leadsDown hisName) (verbatim_ne_deep _) hs hresolve]
      have hkey := Dict.flatMap_entries_of_key hproper.sorted name
        fun name => goOn d ps (entryPath path name)
      rw [hat, Option.isSome_some, if_pos rfl] at hkey
      simp only [hadmits]
      exact hkey

/-- The segments of a path can be followed from another path, from which the given trees have been
passed. -/
structure Ready (d : Disk) (path : String) (w : Disk.Descent × FileTree) (rs : List String) :
    Prop where
  stands : d.Stands path w
  short : path.utf8ByteSize < 4096
  proper : ∀ t ∈ w.2 :: w.1, t.IsProper
  noSlash : ∀ r ∈ rs, '/' ∉ r.toList
  noNul : ∀ r ∈ rs, '\x00' ∉ r.toList
  fits : Path.extent (base path) + Path.extent rs ≤ 4096
  regular : path = "." → (∀ r ∈ rs, r = ".") ∨ ∀ r ∈ rs.head?, Path.isIdle r = false

lemma isDirectory_of_step (h : Disk.step w name = .ok w') : w.2.isDirectory = true := by
  rw [Disk.step] at h
  cases hw : w.2 with
  | directory es => rfl
  | file bs =>
    simp only [hw, FileTree.isDirectory, Bool.false_eq_true, if_false] at h
    split_ifs at h
    cases h

/-- A walk that ends at a directory has begun at one. -/
lemma isDirectory_of_steps {rs : List String} (h : rs.foldlM Disk.step w = .ok w')
    (hw' : w'.2.isDirectory = true) : w.2.isDirectory = true := by
  cases rs with
  | nil =>
    cases h
    exact hw'
  | cons r rs =>
    rw [List.foldlM_cons] at h
    cases hstep : Disk.step w r with
    | error e =>
      rw [hstep] at h
      cases h
    | ok v => exact isDirectory_of_step hstep

/-- A step keeps to proper trees. -/
lemma proper_of_step (hproper : ∀ t ∈ w.2 :: w.1, t.IsProper) (h : Disk.step w name = .ok w') :
    ∀ t ∈ w'.2 :: w'.1, t.IsProper := by
  have hdirectory := isDirectory_of_step h
  rw [Disk.step, if_pos hdirectory, if_pos hdirectory] at h
  split at h
  · cases h
    exact hproper
  · split at h
    · split at h
      · rename_i t ts hts
        cases h
        exact fun u hu => hproper u (List.mem_cons_of_mem _ (hts ▸ hu))
      · cases h
        exact hproper
    · cases hchild : w.2.child name with
      | error e =>
        rw [hchild] at h
        cases h
      | ok u =>
        rw [hchild] at h
        cases h
        have hw := hproper w.2 List.mem_cons_self
        have hat := Disk.child_toOption hw name
        rw [hchild] at hat
        exact List.forall_mem_cons.mpr ⟨hw.at hat.symm, hproper⟩

section Steps

variable {r : String} {rs : List String}

lemma Ready.first (h : Ready d path w (r :: rs)) : path = "." → r ≠ "" := by
  rintro hpath rfl
  rcases h.regular hpath with hdots | hcounts
  · exact absurd (hdots "" List.mem_cons_self) (by decide)
  · exact absurd (hcounts "" rfl) (by decide)

lemma Ready.short_entryPath (h : Ready d path w (r :: rs)) :
    (entryPath path r).utf8ByteSize < 4096 := by
  have hsize := Path.extent_segments (entryPath path r)
  have hfits := h.fits
  rw [segments_entryPath h.stands.toIsRooted (h.noSlash r List.mem_cons_self),
    Path.extent_append] at hsize
  have hcons : Path.extent (r :: rs) = Path.extent [r] + Path.extent rs := Path.extent_append [r] rs
  omega

/-- The rest of a path can be followed behind its first segment. -/
lemma Ready.next (h : Ready d path w (r :: rs)) (hstep : Disk.step w r = .ok w')
    (hw' : w'.2.isDirectory = true) : Ready d (entryPath path r) w' rs := by
  have hslash := h.noSlash r List.mem_cons_self
  have hrooted := h.stands.toIsRooted
  refine ⟨h.stands.enter hslash (h.noNul r List.mem_cons_self) h.first hstep hw', h.short_entryPath,
    proper_of_step h.proper hstep, fun s hs => h.noSlash s (List.mem_cons_of_mem _ hs),
    fun s hs => h.noNul s (List.mem_cons_of_mem _ hs), ?_, ?_⟩
  · have hbelow := Path.extent_mono (base_entryPath_isPrefix hrooted hslash)
    have hcons : Path.extent (r :: rs) = Path.extent [r] + Path.extent rs :=
      Path.extent_append [r] rs
    have hfits := h.fits
    rw [Path.extent_append] at hbelow
    omega
  · intro hdot
    have hsegments := segments_entryPath hrooted hslash
    rw [hdot] at hsegments
    obtain ⟨hbase, hr⟩ := List.append_eq_singleton_iff.mp hsegments.symm |>.resolve_right
      fun hright => List.cons_ne_nil r [] hright.2
    obtain rfl : r = "." := List.singleton_inj.mp hr
    have hpath : path = "." := hrooted.here.resolve_right fun hhere =>
      Path.front_ne_nil path (Path.base_of_ne hhere ▸ hbase)
    rcases h.regular hpath with hdots | hcounts
    · exact .inl fun s hs => hdots s (List.mem_cons_of_mem _ hs)
    · exact absurd (hcounts "." rfl) (by decide)

/-- The patterns of an escaped path lead to the directory of the path. -/
theorem goOn_verbatim (h : Ready d path w rs) (hsteps : rs.foldlM Disk.step w = .ok w')
    (hw' : w'.2.isDirectory = true) :
    (∀ ps, goOn d (rs.map (fun r => verbatim r.toList) ++ ps) path =
        goOn d ps (pathBelow path rs)) ∧
      Ready d (pathBelow path rs) w' [] ∧
        Path.extent (base (pathBelow path rs)) ≤ Path.extent (base path) + Path.extent rs ∧
          Path.counted (base (pathBelow path rs)) =
            Path.counted (base path) ++ Path.counted rs := by
  induction rs generalizing path w with
  | nil =>
    cases hsteps
    exact ⟨fun _ => rfl, h, Nat.le_add_right _ _, (List.append_nil _).symm⟩
  | cons r rs ih =>
    have hslash := h.noSlash r List.mem_cons_self
    have hrooted := h.stands.toIsRooted
    have hcons : Path.extent (r :: rs) = Path.extent [r] + Path.extent rs :=
      Path.extent_append [r] rs
    rw [List.foldlM_cons] at hsteps
    cases hstep : Disk.step w r with
    | error e =>
      rw [hstep] at hsteps
      cases hsteps
    | ok v =>
      rw [hstep] at hsteps
      have hnext := h.next hstep (isDirectory_of_steps hsteps hw')
      obtain ⟨hgoOn, hready, hextent, hcounted⟩ := ih hnext hsteps
      refine ⟨?_, hready, ?_, ?_⟩
      · refine fun ps => Eq.trans ?_ (hgoOn ps)
        exact follow_verbatim h.stands h.short (h.proper w.2 List.mem_cons_self) hslash
          (h.noNul r List.mem_cons_self) h.first h.short_entryPath hstep
      · have hbelow := Path.extent_mono (base_entryPath_isPrefix hrooted hslash)
        rw [Path.extent_append] at hbelow
        exact hextent.trans (by omega)
      · rw [counted_base_entryPath hrooted hslash h.first, List.append_assoc,
          ← Path.counted_append] at hcounted
        exact hcounted

end Steps

end Glob

end SafeQuery
