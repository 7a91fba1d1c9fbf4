import SafeQuery.Proofs.File.Root
import SafeQuery.Proofs.Glob.Finding

/-!
# Directories that have texts as their files

A directory of a disk mirrors texts if its files are these texts under their names, `Disk.Mirrors`.
A pattern then finds a name in the directory as often as it finds the segments of the name
(`find_perm`), so that it finds the same names there as among the texts if and only if it finds
every file that is admitted once and admits no directory: `find_eq_iff`. The texts themselves are
the same: `read_eq`.
-/

namespace SafeQuery

theorem Text.ofBytes_bytesOf (s : String) : ofBytes? (bytesOf s) = some s := by
  have hbytes : (⟨(bytesOf s).toArray⟩ : ByteArray) = s.toByteArray := by
    rw [bytesOf, Array.toArray_toList]
    rfl
  rw [ofBytes?, hbytes, String.fromUTF8?, dif_pos s.isValidUTF8]
  rfl

open Glob
open FileSource (outset trunk)
open SafeQuery.Path (base)

/-- A directory that has the texts as files under their names, and no directories but those that
these files need. -/
structure FileTree.Holds (t : FileTree) (texts : Dict String) : Prop where
  file_iff : ∀ names bs, t.at? names = some (.file bs) ↔
    ∃ name text, texts.get? name = some text ∧ names = Path.segments name ∧ bs = Text.bytesOf text
  needed : ∀ names entries, t.at? names = some (.directory entries) → names ≠ [] →
    ∃ name ∈ texts.keys, names <+: Path.segments name

/-- The directory of the disk has the texts as files, all of which can be reached. A path that
begins with a point is the working directory. -/
structure Disk.Mirrors (disk : Disk) (root : String) (texts : Dict String) : Prop where
  sorted : texts.Sorted
  proper : disk.tree.IsProper
  holds : ∃ t, disk.resolve root = .ok t ∧ t.Holds texts
  short : ∀ name ∈ texts.keys, (Path.join root name).utf8ByteSize < 4096
  dots : (Path.segments root).head? = some "." → ∀ s ∈ Path.segments (Path.untrailed root), s = "."

namespace FileTree.Holds

variable {t u : FileTree} {texts : Dict String} {names : List String} {name : String}

/-- What lies in the directory is part of the path of a file. -/
lemma exists_key (h : t.Holds texts) (hne : names ≠ []) (hu : t.at? names = some u) :
    ∃ name ∈ texts.keys, names <+: Path.segments name := by
  cases u with
  | directory entries => exact h.needed names entries hu hne
  | file bs =>
    obtain ⟨name, text, hget, rfl, -⟩ := (h.file_iff names bs).mp hu
    exact ⟨name, Dict.mem_keys_iff.mpr ⟨text, hget⟩, List.prefix_rfl⟩

lemma isDirectory (h : t.Holds texts) : t.isDirectory = true := by
  cases t with
  | directory d => rfl
  | file bs =>
    obtain ⟨name, text, -, hnil, -⟩ := (h.file_iff [] bs).mp rfl
    exact absurd hnil.symm (Path.segments_ne_nil name)

/-- Under each of the names lies a file. -/
lemma file_at (h : t.Holds texts) (hname : name ∈ texts.keys) :
    ∃ bs, t.at? (Path.segments name) = some (.file bs) := by
  obtain ⟨text, hget⟩ := Dict.mem_keys_iff.mp hname
  exact ⟨_, (h.file_iff _ _).mpr ⟨name, text, hget, rfl, rfl⟩⟩

/-- What encloses a file is a directory. -/
lemma directory_at {path : String} (h : t.Holds texts) (hname : name ∈ texts.keys)
    (hpath : Path.Encloses path name) :
    ∃ entries, t.at? (Path.segments path) = some (.directory entries) := by
  obtain ⟨rest, hrest, hsegments⟩ := hpath
  obtain ⟨bs, hbs⟩ := h.file_at hname
  rw [hsegments, FileTree.at?_append] at hbs
  obtain ⟨u, hu, hbelow⟩ := Option.bind_eq_some_iff.mp hbs
  obtain ⟨r, rs, rfl⟩ := List.exists_cons_of_ne_nil hrest
  cases u with
  | directory entries => exact ⟨entries, hu⟩
  | file bs => cases hbelow

/-- The names of the texts are made of names of entries. -/
lemma isName (h : t.Holds texts) (hproper : t.IsProper) (hname : name ∈ texts.keys) :
    ∀ s ∈ Path.segments name, Path.IsName s := by
  obtain ⟨bs, hbs⟩ := h.file_at hname
  exact fun s hs => (hproper.isEntryName_of_at hbs s hs).toIsName

end FileTree.Holds

namespace Disk.Mirrors

variable {disk : Disk} {root : String} {texts : Dict String} {pattern : String} {p : Pattern}
  {ps : List Pattern}

/-- The path below the directory is short enough. -/
lemma short_pathBelow {path name : String} {names : List String} (hrooted : Path.IsRooted path)
    (hbase : Path.extent (base path) ≤ (Path.untrailed root).utf8ByteSize + 1) (hroot : root ≠ "")
    (hname : Path.isAbsolute name = false) (hshort : (Path.join root name).utf8ByteSize < 4096)
    (hne : names ≠ []) (hnames : ∀ s ∈ names, Path.IsName s)
    (hbelow : names <+: Path.segments name) : (pathBelow path names).utf8ByteSize < 4096 := by
  have hsize := Path.extent_segments (pathBelow path names)
  rw [(segments_pathBelow hrooted hne hnames).1, Path.extent_append] at hsize
  have hjoin := Path.extent_segments (Path.join root name)
  rw [Path.segments_join hroot hname, Path.extent_append, Path.extent_segments] at hjoin
  have hfront := Path.extent_mono (Path.segments_untrailed_isPrefix root)
  have hextent := Path.extent_mono hbelow
  rw [Path.extent_segments] at hfront hextent
  omega

/-- A path of names does not begin at the root. -/
lemma isAbsolute_of_isName {name : String} (hnames : ∀ s ∈ Path.segments name, Path.IsName s) :
    Path.isAbsolute name = false := by
  rw [Bool.eq_false_iff]
  intro habsolute
  have hhead := (Path.head_segments_iff name).mpr (.inr habsolute)
  exact (hnames "" (List.mem_of_head? hhead)).ne_empty rfl

/-- The walk reaches the directory at some path, below which the disk shows the files and from which
their names are found. -/
theorem exists_path (h : disk.Mirrors root texts) :
    ∃ t path, disk.resolve root = .ok t ∧ t.IsProper ∧ t.Holds texts ∧ disk.Shows path t ∧
      (∀ ps, goOn disk ((trunk root).map (fun r => verbatim r.toList) ++ ps) (outset root) =
        goOn disk ps path) ∧
      ∀ names, names ≠ [] → (∀ s ∈ names, Path.IsName s) →
        (Path.relative? root (pathBelow path names)).getD (pathBelow path names) =
          Path.ofSegments names := by
  obtain ⟨t, hresolve, hholds⟩ := h.holds
  obtain ⟨v, w, hready, hsteps, rfl⟩ := exists_ready hresolve hholds.isDirectory h.proper h.dots
  have husable := isUsable_of_resolve hresolve
  obtain ⟨hgoOn, hready', hextent, hcounted⟩ := goOn_verbatim hready hsteps hholds.isDirectory
  rw [extent_trunk] at hextent
  have hrooted := hready'.stands.toIsRooted
  have hproper := hready'.proper w.2 List.mem_cons_self
  refine ⟨w.2, pathBelow (outset root) (trunk root), hresolve, hproper, hholds, ?_, hgoOn, ?_⟩
  · refine hready'.stands.shows hproper ?_
    intro names u hu
    by_cases hne : names = []
    · subst hne
      exact hready'.short
    · obtain ⟨name, hname, hbelow⟩ := hholds.exists_key hne hu
      exact short_pathBelow hrooted hextent husable.ne_empty
        (isAbsolute_of_isName (hholds.isName hproper hname)) (h.short name hname) hne
        (fun s hs => (hproper.isEntryName_of_at hu s hs).toIsName) hbelow
  · exact fun names hne hnames =>
      relative_pathBelow husable.ne_empty h.dots hready.noSlash hrooted hcounted hne hnames

/-- How often a part of the directory is listed under its name. -/
def listing (ps : List Pattern) (t : FileTree) : List String :=
  t.places.flatMap fun e =>
    List.replicate (findings (collapse ps) e.2.isDirectory e.1) (Path.ofSegments e.1)

/-- What is found below the directory, by names. -/
theorem find_perm (h : disk.Mirrors root texts) (hplain : IsPlain pattern)
    (hp : Pattern.ofText pattern = .ok p)
    (hps : (Path.segments pattern).mapM Pattern.ofText = .ok ps) :
    ∃ (t : FileTree) (names : List String), disk.resolve root = .ok t ∧ t.IsProper ∧
      t.Holds texts ∧ (FileSource.ofDirectory disk root).find pattern =
        .ok (names.mergeSort fun s t => !decide (t < s)) ∧ names.Perm (listing ps t) := by
  obtain ⟨t, path, hresolve, hproper, hholds, hshows, hgoOn, hrelative⟩ := h.exists_path
  have hroot := (isUsable_of_resolve hresolve).ne_empty
  have hne := mt collapse_eq_nil_iff.mp (mapM_ofText_ne_nil (Path.segments_ne_nil pattern) hps)
  have hfollows : Follows disk (collapse ps) :=
    follows_of_leadsDown _ (fun q hq => hplain.leadsDown hps q (mem_of_mem_collapse hq))
      (collapse_isChain ps)
  have hperm := hfollows path t hproper hshows
  have hnames : (foundIn (collapse ps) path t.places).map
      (fun p => (Path.relative? root p).getD p) = listing ps t := by
    rw [foundIn, List.map_flatMap, listing]
    refine List.flatMap_congr ?_
    rintro ⟨names, u⟩ he
    have hu := (FileTree.mem_places hproper).mp he
    by_cases hnil : names = []
    · rw [hnil, findings_nil hne]
      rfl
    · rw [List.map_replicate, hrelative names hnil fun s hs =>
        (hproper.isEntryName_of_at hu s hs).toIsName]
  refine ⟨t, (goOn disk (collapse ps) path).map fun p => (Path.relative? root p).getD p, hresolve,
    hproper, hholds, ?_, hnames ▸ hperm.map _⟩
  simp only [FileSource.ofDirectory, hp]
  rw [FileSource.paths_below disk hroot hplain.getLast hps, hgoOn]
  rfl

/-! ### Names that are listed -/

/-- A pattern finds a path at most as often as there are ways to match it. -/
lemma findings_le_ways (ps : List Pattern) (b : Bool) (ss : List String) :
    findings ps b ss ≤ ways ps ss := by
  rw [findings]
  split
  · exact Nat.le_refl _
  · exact Nat.zero_le _

/-- A row in strict order is the sorted form of its own rearrangements. -/
lemma mergeSort_eq_iff {names sorted : List String} (h : sorted.Pairwise (· < ·)) :
    (names.mergeSort fun s t => !decide (t < s)) = sorted ↔ names.Perm sorted := by
  have hperm := names.mergeSort_perm fun s t => !decide (t < s)
  have hle : ∀ s t : String, (!decide (t < s)) = true ↔ s ≤ t := by
    intro s t
    rw [Bool.not_eq_true', decide_eq_false_iff_not, String.not_lt]
  constructor
  · rintro rfl
    exact hperm.symm
  · intro hnames
    have hsorted : (names.mergeSort fun s t => !decide (t < s)).Pairwise (· ≤ ·) := by
      refine (List.pairwise_mergeSort ?_ ?_ names).imp fun h => (hle _ _).mp h
      · intro s t u hst htu
        exact (hle s u).mpr (String.le_trans ((hle s t).mp hst) ((hle t u).mp htu))
      · intro s t
        rw [Bool.or_eq_true, hle, hle]
        exact String.le_total s t
    refine (hperm.trans hnames).eq_of_pairwise (fun s t _ _ hst hts => String.le_antisymm hst hts)
      hsorted (h.imp fun hlt => String.not_lt.mp (String.lt_asymm hlt))

section Listing

variable {t u : FileTree} {names : List String} {name s : String}

/-- What is listed is the name of the part that has been found. -/
lemma eq_segments_of_mem (hproper : t.IsProper) (hne : ps ≠ []) (hu : t.at? names = some u)
    (hs : s ∈ List.replicate (findings (collapse ps) u.isDirectory names) (Path.ofSegments names)) :
    names = Path.segments s ∧ 0 < findings (collapse ps) u.isDirectory names := by
  obtain ⟨hcount, rfl⟩ := List.mem_replicate.mp hs
  have hnil : names ≠ [] := by
    rintro rfl
    exact hcount (findings_nil (mt collapse_eq_nil_iff.mp hne) _)
  have hslash : ∀ s ∈ names, '/' ∉ s.toList :=
    fun s hs => (hproper.isEntryName_of_at hu s hs).noSlash
  exact ⟨(Path.segments_ofSegments hnil hslash).symm, Nat.pos_of_ne_zero hcount⟩

/-- A part is listed if it lies in the directory and the pattern finds it. -/
lemma mem_listing (hproper : t.IsProper) (hne : ps ≠ []) : s ∈ listing ps t ↔
    ∃ u, t.at? (Path.segments s) = some u ∧
      0 < findings (collapse ps) u.isDirectory (Path.segments s) := by
  rw [listing, List.mem_flatMap]
  constructor
  · rintro ⟨⟨names, u⟩, he, hs⟩
    have hu := (FileTree.mem_places hproper).mp he
    obtain ⟨rfl, hcount⟩ := eq_segments_of_mem hproper hne hu hs
    exact ⟨u, hu, hcount⟩
  · rintro ⟨u, hu, hcount⟩
    refine ⟨(Path.segments s, u), (FileTree.mem_places hproper).mpr hu, ?_⟩
    exact List.mem_replicate.mpr ⟨Nat.ne_of_gt hcount, (Path.ofSegments_segments s).symm⟩

/-- Nothing is listed twice if every path is found once at most. -/
lemma listing_nodup_iff (hproper : t.IsProper) (hne : ps ≠ []) : (listing ps t).Nodup ↔
    ∀ names u, t.at? names = some u → findings (collapse ps) u.isDirectory names ≤ 1 := by
  rw [listing, List.nodup_flatMap]
  constructor
  · rintro ⟨hnodup, -⟩ names u hu
    exact List.nodup_replicate.mp (hnodup (names, u) ((FileTree.mem_places hproper).mpr hu))
  · intro hle
    refine ⟨fun e he => List.nodup_replicate.mpr (hle _ _ ((FileTree.mem_places hproper).mp he)),
      ?_⟩
    refine List.Pairwise.imp_of_mem ?_ (FileTree.places_pairwise t hproper)
    rintro ⟨names, u⟩ ⟨names', u'⟩ he he' hdiffer s hs hs'
    obtain ⟨rfl, -⟩ := eq_segments_of_mem hproper hne ((FileTree.mem_places hproper).mp he) hs
    obtain ⟨rfl, -⟩ := eq_segments_of_mem hproper hne ((FileTree.mem_places hproper).mp he') hs'
    exact hdiffer rfl

variable (hholds : t.Holds texts) (hproper : t.IsProper) (hplain : IsPlain pattern)
  (hp : Pattern.ofText pattern = .ok p)
  (hps : (Path.segments pattern).mapM Pattern.ofText = .ok ps)

include hholds hproper hplain hp hps

/-- Of the parts of the directory the files alone are found, if no directory is admitted. -/
lemma file_of_found (heach : FindsEach p ps texts.keys) (hu : t.at? names = some u)
    (hcount : 0 < findings (collapse ps) u.isDirectory names) :
    ∃ name ∈ texts.keys, names = Path.segments name ∧ p.admits name.toList = true ∧
      u.isDirectory = false := by
  have hne := mapM_ofText_ne_nil (Path.segments_ne_nil pattern) hps
  have hnil : names ≠ [] := by
    rintro rfl
    rw [findings_nil (mt collapse_eq_nil_iff.mp hne)] at hcount
    exact Nat.lt_irrefl 0 hcount
  have hslash : ∀ s ∈ names, '/' ∉ s.toList :=
    fun s hs => (hproper.isEntryName_of_at hu s hs).noSlash
  have hways := Nat.lt_of_lt_of_le hcount (findings_le_ways _ _ _)
  cases u with
  | file bs =>
    obtain ⟨name, text, hget, rfl, -⟩ := (hholds.file_iff names bs).mp hu
    exact ⟨name, Dict.mem_keys_iff.mpr ⟨text, hget⟩, rfl,
      (hplain.admits_iff hp hps name).mpr hways, rfl⟩
  | directory entries =>
    -- A directory is part of the path of a file, and not the whole.
    exfalso
    obtain ⟨name, hname, rest, hrest⟩ := hholds.needed names entries hu hnil
    have hsegments := Path.segments_ofSegments hnil hslash
    have hproperRest : rest ≠ [] := by
      rintro rfl
      obtain ⟨bs, hbs⟩ := hholds.file_at hname
      rw [← hrest, List.append_nil, hu] at hbs
      cases hbs
    have hnot := heach.noDirectory name hname (Path.ofSegments names)
      ⟨rest, hproperRest, by rw [hsegments, hrest]⟩
    rw [← hsegments, ← hplain.admits_iff hp hps, hnot] at hways
    cases hways

/-- If the names that are admitted are listed, every file is found once and no directory is
admitted. -/
lemma findsEach_of_perm (hsorted : texts.Sorted)
    (hperm : (listing ps t).Perm (texts.keys.filter fun name => p.admits name.toList)) :
    FindsEach p ps texts.keys := by
  have hne := mapM_ofText_ne_nil (Path.segments_ne_nil pattern) hps
  have hnodup := hperm.nodup_iff.mpr (Dict.keys_filter_nodup hsorted _)
  have hle := (listing_nodup_iff hproper hne).mp hnodup
  refine ⟨?_, ?_⟩
  · intro name hname hadmits
    obtain ⟨bs, hbs⟩ := hholds.file_at hname
    have hmem := hperm.mem_iff.mpr (List.mem_filter.mpr ⟨hname, hadmits⟩)
    obtain ⟨u, hu, hcount⟩ := (mem_listing hproper hne).mp hmem
    rw [hbs] at hu
    cases hu
    exact Nat.le_antisymm (hle _ _ hbs) hcount
  · intro name hname path hpath
    rw [Bool.eq_false_iff]
    intro hadmits
    -- The directory is listed, but its name is not that of a text.
    obtain ⟨entries, hentries⟩ := hholds.directory_at hname hpath
    have hcount : 0 < findings (collapse ps) true (Path.segments path) :=
      (hplain.admits_iff hp hps path).mp hadmits
    have hmem := hperm.mem_iff.mp ((mem_listing hproper hne).mpr ⟨_, hentries, hcount⟩)
    obtain ⟨bs, hbs⟩ := hholds.file_at (List.mem_filter.mp hmem).1
    rw [hentries] at hbs
    cases hbs

/-- If every file is found once and no directory is admitted, the names that are listed are those
that are admitted. -/
lemma perm_of_findsEach (hsorted : texts.Sorted)
    (heach : FindsEach p ps texts.keys) :
    (listing ps t).Perm (texts.keys.filter fun name => p.admits name.toList) := by
  have hne := mapM_ofText_ne_nil (Path.segments_ne_nil pattern) hps
  refine (List.perm_ext_iff_of_nodup ?_ (Dict.keys_filter_nodup hsorted _)).mpr ?_
  · refine (listing_nodup_iff hproper hne).mpr ?_
    intro names u hu
    by_cases hcount : 0 < findings (collapse ps) u.isDirectory names
    · obtain ⟨name, hname, rfl, hadmits, hfile⟩ :=
        file_of_found hholds hproper hplain hp hps heach hu hcount
      rw [hfile, heach.once name hname hadmits]
    · exact (Nat.not_lt.mp hcount).trans (Nat.zero_le 1)
  · intro s
    rw [mem_listing hproper hne, List.mem_filter]
    constructor
    · rintro ⟨u, hu, hcount⟩
      obtain ⟨name, hname, hsegments, hadmits, -⟩ :=
        file_of_found hholds hproper hplain hp hps heach hu hcount
      have hs : s = name := by
        rw [← Path.ofSegments_segments s, hsegments, Path.ofSegments_segments]
      exact hs ▸ ⟨hname, hadmits⟩
    · rintro ⟨hname, hadmits⟩
      obtain ⟨bs, hbs⟩ := hholds.file_at hname
      refine ⟨_, hbs, ?_⟩
      rw [FileTree.isDirectory, heach.once s hname hadmits]
      exact Nat.one_pos

end Listing

/-! ### The two sources -/

/-- A pattern whose segments lead to entries finds the same names among the texts and below the
directory if and only if it can be read segment by segment, no directory matches it and every file
that does is found in one way. -/
theorem find_eq_iff (h : disk.Mirrors root texts) (hplain : IsPlain pattern)
    (hp : Pattern.ofText pattern = .ok p) :
    (FileSource.ofDirectory disk root).find pattern = (FileSource.ofTexts texts).find pattern ↔
      ∃ ps, (Path.segments pattern).mapM Pattern.ofText = .ok ps ∧ FindsEach p ps texts.keys := by
  have htexts : (FileSource.ofTexts texts).find pattern =
      .ok (texts.keys.filter fun name => p.admits name.toList) := by
    simp only [FileSource.ofTexts, hp]
    rfl
  cases hps : (Path.segments pattern).mapM Pattern.ofText with
  | error f =>
    obtain ⟨t, hresolve, -⟩ := h.holds
    obtain ⟨f', hf'⟩ := FileSource.paths_below_error disk (isUsable_of_resolve hresolve).ne_empty
      hplain.getLast hps
    have hdirectory : (FileSource.ofDirectory disk root).find pattern = .error f' := by
      simp only [FileSource.ofDirectory, hp, hf']
      rfl
    rw [hdirectory, htexts]
    simp
  | ok ps =>
    obtain ⟨t, names, -, hproper, hholds, hdirectory, hnames⟩ := h.find_perm hplain hp hps
    rw [hdirectory, htexts, Except.ok.injEq,
      mergeSort_eq_iff (Dict.keys_filter_pairwise h.sorted _), hnames.congr_left]
    constructor
    · intro hperm
      exact ⟨ps, rfl, findsEach_of_perm hholds hproper hplain hp hps h.sorted hperm⟩
    · rintro ⟨qs, hqs, heach⟩
      obtain rfl := Except.ok.inj hqs
      exact perm_of_findsEach hholds hproper hplain hp hps h.sorted heach

/-- A path behind that of the directory leads to what lies in it. -/
lemma resolve_join {t u : FileTree} {name : String} (hresolve : disk.resolve root = .ok t)
    (hproper : t.IsProper) (hu : t.at? (Path.segments name) = some u)
    (hshort : (Path.join root name).utf8ByteSize < 4096) :
    disk.resolve (Path.join root name) = .ok u := by
  obtain ⟨husable, w, hwalk, rfl⟩ := resolve_eq_ok_iff.mp hresolve
  have hentries := hproper.isEntryName_of_at hu
  have hrelative := isAbsolute_of_isName fun s hs => (hentries s hs).toIsName
  have hnul : '\x00' ∉ (Path.join root name).toList := by
    refine Path.not_mem_join (by decide) husable.noNul ?_
    intro hmem
    obtain ⟨s, hs, hmem⟩ := Path.exists_mem_segments hmem (by decide)
    exact (hentries s hs).noNul hmem
  have horigin : disk.origin (Path.join root name) = disk.origin root := by
    rw [origin, origin, Path.isAbsolute_join husable.ne_empty hrelative]
  have hfront : (disk.origin root ++ Path.front root).foldlM step ([], disk.tree) = .ok w := by
    rcases Path.segments_eq_front root with hsegments | hsegments
    · rwa [hsegments] at hwalk
    · rw [hsegments, ← List.append_assoc] at hwalk
      exact foldlM_of_idle (by decide) hwalk
  have hnames := foldlM_step_names hproper fun s hs => (hentries s hs).toIsName
  rw [hu] at hnames
  cases hfold : (Path.segments name).foldlM step w with
  | error e =>
    rw [hfold] at hnames
    cases hnames
  | ok v =>
    rw [hfold] at hnames
    refine resolve_eq_ok_iff.mpr ⟨⟨Path.join_ne_empty husable.ne_empty hrelative, hnul, hshort⟩, v,
      ?_, Option.some.inj hnames⟩
    rw [horigin, Path.segments_join husable.ne_empty hrelative, ← List.append_assoc]
    exact foldlM_append_eq_ok.mpr ⟨w, hfront, hfold⟩

/-- A text is the same below the directory. -/
theorem read_eq (h : disk.Mirrors root texts) {name : String} (hname : name ∈ texts.keys) :
    (FileSource.ofDirectory disk root).read name = (FileSource.ofTexts texts).read name := by
  obtain ⟨t, path, hresolve, hproper, hholds, -⟩ := h.exists_path
  obtain ⟨text, hget⟩ := Dict.mem_keys_iff.mp hname
  have hfile := (hholds.file_iff _ _).mpr ⟨name, text, hget, rfl, rfl⟩
  have hjoin := resolve_join hresolve hproper hfile (h.short name hname)
  simp only [FileSource.ofDirectory, FileSource.ofTexts, hget, Disk.readText]
  rw [hjoin]
  simp only [bind, Except.bind, pure, Except.pure, Text.ofBytes_bytesOf]

end Disk.Mirrors

end SafeQuery
