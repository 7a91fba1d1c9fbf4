import SafeQuery.Proofs.File.Below

/-!
# From the path of a directory to the names below it

The walk to a directory goes along its path, `base_append_trunk`, and arrives there, `exists_ready`.
What is found below the directory is named by what its path has behind that of the directory:
`relative_pathBelow`.
-/

namespace SafeQuery

open Glob
open FileSource (outset trunk)
open SafeQuery.Path (base)

variable {disk : Disk} {root : String} {t : FileTree} {w w' : Disk.Descent × FileTree}

/-! ### The walk to the directory -/

/-- Segments without a name at the end of a walk can be left out. -/
lemma foldlM_of_idles {as : List String} {k : Nat} {v : Disk.Descent × FileTree}
    (h : (as ++ List.replicate k "").foldlM Disk.step v = .ok w) :
    as.foldlM Disk.step v = .ok w := by
  induction k with
  | zero => simpa using h
  | succ k ih =>
    rw [List.replicate_succ', ← List.append_assoc] at h
    exact ih (Disk.foldlM_of_idle (by decide) h)

/-- Every directory on a walk is proper if those at its beginning are. -/
lemma proper_of_steps {rs : List String} (hproper : ∀ t ∈ w.2 :: w.1, t.IsProper)
    (h : rs.foldlM Disk.step w = .ok w') : ∀ t ∈ w'.2 :: w'.1, t.IsProper := by
  induction rs generalizing w with
  | nil =>
    cases h
    exact hproper
  | cons r rs ih =>
    rw [List.foldlM_cons] at h
    cases hstep : Disk.step w r with
    | error e =>
      rw [hstep] at h
      cases h
    | ok v =>
      rw [hstep] at h
      exact ih (proper_of_step hproper hstep) h

/-- The walk to a directory goes along its path. -/
lemma base_append_trunk (root : String) :
    base (outset root) ++ trunk root = Path.segments (Path.untrailed root) := by
  by_cases habsolute : Path.isAbsolute root = true
  · have houtset : outset root = "/" := if_pos habsolute
    have hbase : base "/" = [""] := by decide
    rw [houtset, hbase, FileSource.segments_untrailed habsolute, List.singleton_append]
  · have houtset : outset root = "." := if_neg habsolute
    have htrunk : trunk root = Path.segments (Path.untrailed root) := if_neg habsolute
    rw [houtset, htrunk, Path.base_here, List.nil_append]

/-- The walk to a directory counts what counts in its path. -/
lemma counted_trunk (root : String) :
    Path.counted (base (outset root)) ++ Path.counted (trunk root) =
      Path.counted (Path.segments root) := by
  rw [← Path.counted_append, base_append_trunk, Path.counted_segments_untrailed]

/-- The walk to a directory takes no more bytes than its path. -/
lemma extent_trunk (root : String) :
    Path.extent (base (outset root)) + Path.extent (trunk root) =
      (Path.untrailed root).utf8ByteSize + 1 := by
  rw [← Path.extent_append, base_append_trunk, Path.extent_segments]

lemma mem_segments_of_mem_trunk {r : String} (hr : r ∈ trunk root) :
    r ∈ Path.segments (Path.untrailed root) := by
  rw [← base_append_trunk]
  exact List.mem_append_right _ hr

/-- A path that begins neither at the root nor with a point begins with a segment that counts. -/
lemma trunk_counts (hroot : root ≠ "") (habsolute : ¬ Path.isAbsolute root = true)
    (hdot : (Path.segments root).head? ≠ some ".") :
    ∃ r rs, trunk root = r :: rs ∧ Path.isIdle r = false := by
  have htrunk : trunk root = Path.segments (Path.untrailed root) := if_neg habsolute
  obtain ⟨k, -, -, hk⟩ := Path.segments_eq_untrailed root
  obtain ⟨r, rs, hrs⟩ := List.exists_cons_of_ne_nil (Path.segments_ne_nil (Path.untrailed root))
  refine ⟨r, rs, htrunk.trans hrs, ?_⟩
  rw [hk, hrs, List.cons_append, List.head?_cons] at hdot
  have hempty := mt (FileSource.head_untrailed_iff hroot).mp habsolute
  rw [hrs, List.head?_cons] at hempty
  rw [Path.isIdle, Bool.or_eq_false_iff, decide_eq_false_iff_not, decide_eq_false_iff_not]
  exact ⟨fun h => hempty (congrArg some h), fun h => hdot (congrArg some h)⟩

/-- The walk begins where paths like that of the directory begin. -/
lemma outset_begins (disk : Disk) (root : String) :
    Path.IsRooted (outset root) ∧ '\x00' ∉ (outset root).toList ∧
      (outset root).utf8ByteSize < 4096 ∧ disk.origin (outset root) = disk.origin root := by
  by_cases habsolute : Path.isAbsolute root = true
  · have houtset : outset root = "/" := if_pos habsolute
    have horigin : disk.origin root = [] := if_pos habsolute
    rw [houtset, horigin]
    exact ⟨⟨by decide, .inr (by decide)⟩, by decide, by decide, if_pos (by decide)⟩
  · have houtset : outset root = "." := if_neg habsolute
    have horigin : disk.origin root = disk.working := if_neg habsolute
    rw [houtset, horigin]
    exact ⟨⟨by decide, .inl rfl⟩, by decide, by decide, if_neg (by decide)⟩

/-- What counts of a directory's path leads from where the walk begins to the directory. -/
lemma exists_ready (hresolve : disk.resolve root = .ok t) (hdirectory : t.isDirectory = true)
    (hproper : disk.tree.IsProper)
    (hdots : (Path.segments root).head? = some "." →
      ∀ s ∈ Path.segments (Path.untrailed root), s = ".") :
    ∃ v w, Ready disk (outset root) v (trunk root) ∧
      (trunk root).foldlM Disk.step v = .ok w ∧ w.2 = t := by
  obtain ⟨husable, w, hwalk, rfl⟩ := Disk.resolve_eq_ok_iff.mp hresolve
  obtain ⟨hrooted, hnul, hshort, horigin⟩ := outset_begins disk root
  obtain ⟨k, hroot, -, hk⟩ := Path.segments_eq_untrailed root
  rw [hk, ← List.append_assoc] at hwalk
  have htrunk := foldlM_of_idles hwalk
  rw [← base_append_trunk, ← List.append_assoc, ← horigin] at htrunk
  obtain ⟨v, hv, hw⟩ := Disk.foldlM_append_eq_ok.mp htrunk
  refine ⟨v, w, ⟨⟨hrooted, hnul, hv, isDirectory_of_steps hw hdirectory⟩, hshort,
    proper_of_steps (List.forall_mem_singleton.mpr hproper) hv, ?_, ?_, ?_, ?_⟩, hw, rfl⟩
  · exact fun r hr => Path.not_mem_of_mem_segments (mem_segments_of_mem_trunk hr)
  · intro r hr hmem
    refine husable.noNul ?_
    rw [hroot]
    exact List.mem_append_left _ (Path.mem_of_mem_segments (mem_segments_of_mem_trunk hr) hmem)
  · have hsize := Path.utf8ByteSize_untrailed_le root
    have hpath := husable.short
    rw [extent_trunk]
    omega
  · intro hhere
    by_cases hdot : (Path.segments root).head? = some "."
    · exact .inl fun r hr => hdots hdot r (mem_segments_of_mem_trunk hr)
    · have habsolute : ¬ Path.isAbsolute root = true := by
        intro habsolute
        have houtset : outset root = "/" := if_pos habsolute
        rw [houtset] at hhere
        exact absurd hhere (by decide)
      obtain ⟨r, rs, hrs, hr⟩ := trunk_counts husable.ne_empty habsolute hdot
      refine .inr ?_
      rw [hrs, List.head?_cons]
      rintro _ ⟨⟩
      exact hr

/-! ### Names relative to the directory -/

section Relative

variable {path : String} {names rs : List String}

lemma pathBelow_append (path : String) (rs names : List String) :
    pathBelow path (rs ++ names) = pathBelow (pathBelow path rs) names :=
  List.foldl_append ..

/-- A path below another one begins like this. -/
lemma start_pathBelow (h : Path.IsRooted path) (hhere : Path.components path ≠ [.here])
    (hnames : ∀ s ∈ names, '/' ∉ s.toList) :
    Path.start (pathBelow path names) = Path.start path := by
  induction names generalizing path with
  | nil => rfl
  | cons name names ih =>
    obtain ⟨hname, hnames⟩ := List.forall_mem_cons.mp hnames
    have hrelative := Path.isAbsolute_of_not_mem hname
    change Path.start (pathBelow (entryPath path name) names) = _
    rw [entryPath_of_ne hhere, ih ⟨Path.join_ne_empty h.ne_empty hrelative, .inr ?_⟩ ?_ hnames,
      Path.start_join h.ne_empty hrelative]
    all_goals exact components_ne_here_of_join h.ne_empty hhere hname

lemma pathBelow_here (hrs : ∀ r ∈ rs, r = ".") : pathBelow "." rs = "." := by
  induction rs with
  | nil => rfl
  | cons r rs ih =>
    obtain ⟨rfl, hrest⟩ := List.forall_mem_cons.mp hrs
    change pathBelow (entryPath "." ".") rs = "."
    rw [entryPath_here]
    exact ih hrest

/-- Below the working directory the paths are the names. -/
lemma relative_here (hdot : (Path.segments root).head? = some ".") (hne : names ≠ [])
    (hnames : ∀ s ∈ names, Path.IsName s) :
    (Path.relative? root (pathBelow "." names)).getD (pathBelow "." names) =
      Path.ofSegments names := by
  have hrooted : Path.IsRooted "." := ⟨by decide, .inl rfl⟩
  obtain ⟨hsegments, habsolute, -⟩ := segments_pathBelow hrooted hne hnames
  rw [Path.base_here, List.nil_append] at hsegments
  have hpath : pathBelow "." names = Path.ofSegments names :=
    (Path.ofSegments_segments _).symm.trans (congrArg Path.ofSegments hsegments)
  have hroot : Path.Component.here ∈ Path.components root := by
    rw [Path.components_eq, Path.start, if_neg (Path.not_isAbsolute_of_head hdot), if_pos hdot]
    exact List.mem_append_left _ (List.mem_singleton_self _)
  have hstart : Path.start (pathBelow "." names) = [] := by
    obtain ⟨name, rest, rfl⟩ := List.exists_cons_of_ne_nil hne
    have hname := (hnames name List.mem_cons_self).ne_dot
    have habsolute' : Path.isAbsolute (pathBelow "." (name :: rest)) = false := habsolute
    rw [Path.start, habsolute', hsegments]
    simp [hname]
  have hnot :
      ¬ (Path.components root).isPrefixOf (Path.components (pathBelow "." names)) = true := by
    intro hbelow
    have hmem := (List.isPrefixOf_iff_prefix.mp hbelow).subset hroot
    rw [Path.components_eq, hstart] at hmem
    exact Path.here_not_mem_counted _ hmem
  have hnone : Path.relative? root (pathBelow "." names) = none := by
    rw [Path.relative?]
    simp only [List.isEmpty_eq_false_iff.mpr (List.ne_nil_of_mem hroot), hnot, Bool.false_eq_true,
      if_false]
  rw [hnone]
  exact hpath

/-- What is found below a directory has a path that begins like that of the directory. -/
lemma start_pathBelow_trunk (hroot : root ≠ "") (hdot : (Path.segments root).head? ≠ some ".")
    (hslash : ∀ r ∈ trunk root, '/' ∉ r.toList) (hnames : ∀ s ∈ names, '/' ∉ s.toList) :
    Path.start (pathBelow (outset root) (trunk root ++ names)) = Path.start root := by
  by_cases habsolute : Path.isAbsolute root = true
  · have houtset : outset root = "/" := if_pos habsolute
    have hall := List.forall_mem_append.mpr ⟨hslash, hnames⟩
    have hstart : Path.start root = [.root] := if_pos habsolute
    have hstart' : Path.start "/" = [.root] := by decide
    rw [houtset, start_pathBelow ⟨by decide, .inr (by decide)⟩ (by decide) hall, hstart, hstart']
  · have houtset : outset root = "." := if_neg habsolute
    obtain ⟨r, rs, hrs, hr⟩ := trunk_counts hroot habsolute hdot
    rw [hrs] at hslash ⊢
    obtain ⟨hslashr, hslash⟩ := List.forall_mem_cons.mp hslash
    have hall := List.forall_mem_append.mpr ⟨hslash, hnames⟩
    have hstart := Path.start_of_counts hr hslashr
    have hhere : Path.components r ≠ [.here] := by
      rw [Path.components_eq, hstart, List.nil_append]
      exact fun heq => Path.here_not_mem_counted _ (heq ▸ List.mem_singleton_self _)
    have hne : r ≠ "" := of_decide_eq_false (Bool.or_eq_false_iff.mp hr).1
    change Path.start (pathBelow (entryPath (outset root) r) (rs ++ names)) = _
    rw [houtset, entryPath_here, start_pathBelow ⟨hne, .inr hhere⟩ hhere hall, hstart,
      Path.start, if_neg habsolute, if_neg hdot]

/-- What counts behind the directory's path is the name of a file in it. -/
theorem relative_pathBelow (hroot : root ≠ "")
    (hdots : (Path.segments root).head? = some "." →
      ∀ s ∈ Path.segments (Path.untrailed root), s = ".")
    (hslash : ∀ r ∈ trunk root, '/' ∉ r.toList)
    (hrooted : Path.IsRooted (pathBelow (outset root) (trunk root)))
    (hcounted : Path.counted (base (pathBelow (outset root) (trunk root))) =
      Path.counted (base (outset root)) ++ Path.counted (trunk root))
    (hne : names ≠ []) (hnames : ∀ s ∈ names, Path.IsName s) :
    (Path.relative? root (pathBelow (pathBelow (outset root) (trunk root)) names)).getD
      (pathBelow (pathBelow (outset root) (trunk root)) names) = Path.ofSegments names := by
  by_cases hdot : (Path.segments root).head? = some "."
  · have habsolute := Path.not_isAbsolute_of_head hdot
    have houtset : outset root = "." := if_neg habsolute
    have htrunk : trunk root = Path.segments (Path.untrailed root) := if_neg habsolute
    rw [houtset, pathBelow_here (htrunk ▸ hdots hdot)]
    exact relative_here hdot hne hnames
  · obtain ⟨hsegments, -, -⟩ := segments_pathBelow hrooted hne hnames
    have hidle : ∀ s ∈ names, Path.isIdle s = false := fun s hs => (hnames s hs).counts
    have hstart : Path.start (pathBelow (pathBelow (outset root) (trunk root)) names) =
        Path.start root := by
      rw [← pathBelow_append]
      exact start_pathBelow_trunk hroot hdot hslash fun s hs => (hnames s hs).noSlash
    have hsame := hcounted.trans (counted_trunk root)
    have hcomponents : Path.components root ≠ [] := by
      by_cases habsolute : Path.isAbsolute root = true
      · rw [Path.components_eq, Path.start, if_pos habsolute]
        exact List.cons_ne_nil _ _
      · obtain ⟨r, rs, hrs, hr⟩ := trunk_counts hroot habsolute hdot
        rw [Path.components_eq, ← counted_trunk, hrs]
        simp [Path.counted, hr]
    rw [Path.relative_eq_some hcomponents hstart hsegments hsame hidle, Option.getD_some]

end Relative

end SafeQuery
