import SafeQuery.File.Source
import SafeQuery.Proofs.Glob.Descent

/-!
# Patterns below a directory

The files below a directory are found by a pattern behind the escaped path of the directory,
`below_eq`. It is followed along this path first, `trunk`, and from there on along the pattern:
`paths_below`.
-/

namespace SafeQuery

namespace FileSource

open Glob

lemma getLast_flatMap_escapeChar {cs : List Char} (h : cs.getLast? ≠ some '/') :
    (cs.flatMap escapeChar).getLast? ≠ some '/' := by
  rcases cs.eq_nil_or_concat with rfl | ⟨ds, c, rfl⟩
  · exact h
  · rw [List.concat_eq_append] at h ⊢
    rw [List.getLast?_concat] at h
    have hc : '/' ∉ escapeChar c := slash_not_mem_escapeChar fun hc => h (congrArg some hc)
    rw [List.flatMap_append, List.flatMap_singleton,
      List.getLast?_append_of_ne_nil _ (escapeChar_ne_nil c)]
    exact fun hlast => hc (List.mem_of_getLast? hlast)

lemma flatMap_escapeChar_slashes (k : Nat) :
    (List.replicate k '/').flatMap escapeChar = List.replicate k '/' := by
  induction k with
  | zero => rfl
  | succ k ih =>
    rw [List.replicate_succ, List.flatMap_cons, ih]
    rfl

/-- The pattern below a directory is the pattern behind the escaped path of the directory. -/
lemma below_eq (root pattern : String) :
    below root pattern = escape (Path.untrailed root) ++ "/" ++ pattern := by
  obtain ⟨k, hroot, hlast⟩ := Path.exists_untrailed root
  have hbase : ((escape root).toList.reverse.dropWhile (· = '/')).reverse =
      (escape (Path.untrailed root)).toList := by
    rw [toList_escape, hroot, List.flatMap_append, flatMap_escapeChar_slashes, List.reverse_append,
      List.reverse_replicate, List.dropWhile_append_of_pos (by simp),
      Path.dropWhile_slash_of_getLast (getLast_flatMap_escapeChar hlast), List.reverse_reverse,
      toList_escape]
  rw [below]
  simp only [hbase, String.ofList_toList]

/-- Where the walk to a path begins. -/
def outset (root : String) : String := if Path.isAbsolute root then "/" else "."

/-- The segments along which the walk to a path goes. -/
def trunk (root : String) : List String :=
  if Path.isAbsolute root then (Path.segments (Path.untrailed root)).tail
  else Path.segments (Path.untrailed root)

variable {root pattern : String} {ps : List Pattern}

/-- Without the slashes at its end a path that begins at the root is empty or still begins there. -/
lemma segments_untrailed (hroot : Path.isAbsolute root = true) :
    Path.segments (Path.untrailed root) = "" :: trunk root := by
  obtain ⟨k, hk, hlast⟩ := Path.exists_untrailed root
  obtain ⟨cs, hcs⟩ := Path.isAbsolute_iff.mp hroot
  have hsegments : ∃ ss, Path.segments (Path.untrailed root) = "" :: ss := by
    cases hb : (Path.untrailed root).toList with
    | nil => exact ⟨[], by rw [Path.segments, hb]; rfl⟩
    | cons c b =>
      rw [hb, hcs, List.cons_append] at hk
      obtain ⟨rfl, -⟩ := List.cons.inj hk
      refine ⟨(Path.split b).map String.ofList, ?_⟩
      rw [Path.segments, hb, Path.split_cons_slash]
      rfl
  obtain ⟨ss, hss⟩ := hsegments
  rw [trunk, if_pos hroot, hss, List.tail_cons]

lemma segments_below (root pattern : String) : Path.segments (below root pattern) =
    (Path.segments (Path.untrailed root)).map escape ++ Path.segments pattern := by
  rw [below_eq, Path.segments_append_slash, segments_escape]

/-- Only the empty text is escaped as the empty pattern. -/
lemma escape_eq_empty_iff {s : String} : escape s = "" ↔ s = "" := by
  rw [← String.toList_inj, ← String.toList_inj, toList_escape]
  cases s.toList with
  | nil => exact .rfl
  | cons c cs => simp [escapeChar_ne_nil]

/-- A path without the slashes at its end begins at the root as it did before. -/
lemma head_untrailed_iff (hroot : root ≠ "") :
    (Path.segments (Path.untrailed root)).head? = some "" ↔ Path.isAbsolute root = true := by
  constructor
  · intro h
    obtain ⟨k, hk, -⟩ := Path.exists_untrailed root
    rcases (Path.head_segments_iff _).mp h with hempty | habsolute
    · rw [hempty] at hk
      cases k with
      | zero => exact absurd (String.toList_inj.mp hk) hroot
      | succ k => exact Path.isAbsolute_iff.mpr ⟨List.replicate k '/', hk⟩
    · obtain ⟨cs, hcs⟩ := Path.isAbsolute_iff.mp habsolute
      exact Path.isAbsolute_iff.mpr ⟨cs ++ List.replicate k '/', by rw [hk, hcs, List.cons_append]⟩
  · intro h
    rw [segments_untrailed h, List.head?_cons]

/-- A pattern below a directory begins at the root if the directory does. -/
lemma isAbsolute_below (hroot : root ≠ "") (pattern : String) :
    Path.isAbsolute (below root pattern) = Path.isAbsolute root := by
  have hne : below root pattern ≠ "" := by
    rw [below_eq]
    simp
  have hhead : (Path.segments (below root pattern)).head? = some "" ↔
      (Path.segments (Path.untrailed root)).head? = some "" := by
    obtain ⟨s, ss, hs⟩ := List.exists_cons_of_ne_nil (Path.segments_ne_nil (Path.untrailed root))
    rw [segments_below, hs, List.map_cons, List.cons_append, List.head?_cons, List.head?_cons,
      Option.some.injEq, Option.some.injEq, escape_eq_empty_iff]
  rw [Bool.eq_iff_iff, ← head_untrailed_iff hroot, ← hhead, Path.head_segments_iff]
  exact ⟨.inr, fun h => h.resolve_left hne⟩

/-- The segments that are followed as patterns, behind the slash with which the path of the
directory may begin. -/
lemma patternSegments_below (hroot : root ≠ "")
    (hlast : (Path.segments pattern).getLast? ≠ some "") :
    patternSegments (if Path.isAbsolute (below root pattern) then (below root pattern).toList.tail
      else (below root pattern).toList) = (trunk root).map escape ++ Path.segments pattern := by
  have hsegments := segments_below root pattern
  have hlast' : ∀ ss, (ss ++ Path.segments pattern).getLast? ≠ some "" := by
    intro ss
    rwa [List.getLast?_append_of_ne_nil _ (Path.segments_ne_nil pattern)]
  have hinner : ∀ cs : List Char, (Path.split cs).map String.ofList =
      (trunk root).map escape ++ Path.segments pattern →
        patternSegments cs = (trunk root).map escape ++ Path.segments pattern := by
    intro cs hcs
    rw [patternSegments]
    simp only [hcs, hlast', if_false]
  apply hinner
  by_cases habsolute : Path.isAbsolute root = true
  · have hbelow := isAbsolute_below hroot pattern
    rw [habsolute] at hbelow
    obtain ⟨cs, hcs⟩ := Path.isAbsolute_iff.mp hbelow
    rw [segments_untrailed habsolute, Path.segments, hcs, Path.split_cons_slash] at hsegments
    rw [hbelow, if_pos rfl, hcs, List.tail_cons]
    exact (List.cons.inj hsegments).2
  · rw [isAbsolute_below hroot, if_neg habsolute, trunk, if_neg habsolute]
    exact hsegments

/-- The pieces below are read as those of the directory and those of the pattern. -/
lemma mapM_ofText_escape (rs : List String) :
    (rs.map escape).mapM Pattern.ofText = .ok (rs.map fun r => verbatim r.toList) := by
  induction rs with
  | nil => rfl
  | cons r rs ih =>
    have hr : Pattern.ofText (escape r) = .ok (verbatim r.toList) :=
      ofText_eq_ok_iff.mpr (reads_escape false r)
    rw [List.map_cons, List.mapM_cons, hr, ih]
    rfl

lemma mapM_ofText_append {ss ts : List String} {ps qs : List Pattern}
    (hss : ss.mapM Pattern.ofText = .ok ps) (hts : ts.mapM Pattern.ofText = .ok qs) :
    (ss ++ ts).mapM Pattern.ofText = .ok (ps ++ qs) := by
  rw [List.mapM_append, hss, hts]
  rfl

lemma patternSegments_ne_nil {cs : List Char} (h : patternSegments cs ≠ []) :
    cs.isEmpty = false := by
  cases cs with
  | nil => exact absurd (by decide) h
  | cons c cs => rfl

/-- The paths that match a pattern, where its segments can be read. -/
lemma paths_eq {disk : Disk} {p : Pattern} {qs : List Pattern} {inner : List Char}
    (hp : Pattern.ofText pattern = .ok p)
    (hinner : (if Path.isAbsolute pattern then pattern.toList.tail else pattern.toList) = inner)
    (hne : inner.isEmpty = false) (hqs : (patternSegments inner).mapM Pattern.ofText = .ok qs) :
    paths disk pattern =
      .ok (follow disk (pattern.toList.getLast? = some '/') (collapse qs)
        (if Path.isAbsolute pattern then "/" else ".")) := by
  rw [paths, hp]
  simp only [hinner]
  rw [hqs]
  simp only [hne]
  rfl

/-- A pattern of which a segment is wrong is wrong. -/
lemma paths_error {disk : Disk} {inner : List Char} {f : PatternFault}
    (hinner : (if Path.isAbsolute pattern then pattern.toList.tail else pattern.toList) = inner)
    (hqs : (patternSegments inner).mapM Pattern.ofText = .error f) :
    ∃ f', paths disk pattern = .error f' := by
  rw [paths]
  simp only [hinner]
  rw [hqs]
  cases Pattern.ofText pattern with
  | error f' => exact ⟨f', rfl⟩
  | ok p => exact ⟨f, rfl⟩

/-- The walk goes along the path of the directory and on along the pattern. -/
theorem paths_below (disk : Disk) (hroot : root ≠ "")
    (hlast : (Path.segments pattern).getLast? ≠ some "")
    (hps : (Path.segments pattern).mapM Pattern.ofText = .ok ps) :
    paths disk (below root pattern) =
      .ok (goOn disk ((trunk root).map (fun r => verbatim r.toList) ++ collapse ps)
        (outset root)) := by
  have hne := mapM_ofText_ne_nil (Path.segments_ne_nil pattern) hps
  have hbelow := mapM_ofText_append (mapM_ofText_escape (Path.segments (Path.untrailed root))) hps
  rw [← segments_below] at hbelow
  have hwhole := ofText_of_segments hbelow
  have hsegments := patternSegments_below hroot hlast
  have hinner : (if Path.isAbsolute (below root pattern) then (below root pattern).toList.tail
      else (below root pattern).toList).isEmpty = false := by
    refine patternSegments_ne_nil ?_
    rw [hsegments]
    exact List.append_ne_nil_of_right_ne_nil _ (Path.segments_ne_nil pattern)
  have hqs := mapM_ofText_append (mapM_ofText_escape (trunk root)) hps
  rw [← hsegments] at hqs
  have hslash : ¬ (below root pattern).toList.getLast? = some '/' := by
    intro hslash
    obtain ⟨p, -, hp⟩ := Path.segments_of_endsInSlash hslash
    have hend := congrArg List.getLast? ((segments_below root pattern).symm.trans hp)
    rw [List.getLast?_append_of_ne_nil _ (Path.segments_ne_nil pattern), List.getLast?_concat]
      at hend
    exact hlast hend
  have hcollapse : collapse ((trunk root).map (fun r => verbatim r.toList) ++ ps) =
      (trunk root).map (fun r => verbatim r.toList) ++ collapse ps := by
    refine collapse_append ?_ ps
    intro q hq
    obtain ⟨r, -, rfl⟩ := List.mem_map.mp hq
    exact verbatim_ne_deep r.toList
  have hgoOn : ((trunk root).map (fun r => verbatim r.toList) ++ collapse ps).isEmpty = false := by
    simp [mt collapse_eq_nil_iff.mp hne]
  rw [paths_eq hwhole rfl hinner hqs, hcollapse, isAbsolute_below hroot, decide_eq_false hslash,
    goOn, hgoOn, if_neg Bool.false_ne_true, outset]

/-- Where a segment of the pattern cannot be read, neither can the pattern below a directory. -/
theorem paths_below_error (disk : Disk) (hroot : root ≠ "")
    (hlast : (Path.segments pattern).getLast? ≠ some "") {f : PatternFault}
    (hps : (Path.segments pattern).mapM Pattern.ofText = .error f) :
    ∃ f', paths disk (below root pattern) = .error f' := by
  have hqs : ((trunk root).map escape ++ Path.segments pattern).mapM Pattern.ofText = .error f := by
    rw [List.mapM_append, mapM_ofText_escape, hps]
    rfl
  rw [← patternSegments_below hroot hlast] at hqs
  exact paths_error rfl hqs

end FileSource

end SafeQuery
