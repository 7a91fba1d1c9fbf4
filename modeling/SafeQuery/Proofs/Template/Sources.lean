import Mathlib.Data.List.Permutation
import SafeQuery.Proofs.File.Mirror
import SafeQuery.Template

/-!
# Templates from texts and from files

A template is read from a source of texts: texts under their names, or the files below a directory.
It depends on nothing but the names that are found and their texts (`Template.ofSource_congr`), so
that the two sources give the same template for the patterns that find the same names in both.
-/

namespace SafeQuery

open Glob

namespace Template

variable {a b : FileSource} {patterns : List String}

lemma forM_congr {α : Type} {l : List α} {f g : α → Load Unit} (h : ∀ x ∈ l, f x = g x) :
    l.forM f = l.forM g := by
  induction l with
  | nil => rfl
  | cons x l ih =>
    obtain ⟨hx, hl⟩ := List.forall_mem_cons.mp h
    change (do f x; l.forM f) = (do g x; l.forM g)
    rw [hx, ih hl]

/-- Sources that find the same names and have the same texts under them. -/
def SameFor (a b : FileSource) (patterns : List String) : Prop :=
  ∀ pattern ∈ patterns, a.find pattern = b.find pattern ∧
    ∀ names, b.find pattern = .ok names → ∀ name ∈ names, a.read name = b.read name

lemma matchingNames_congr {pattern : String} (h : a.find pattern = b.find pattern) :
    matchingNames a pattern = matchingNames b pattern := by
  rw [matchingNames, matchingNames, h]

/-- Sources that find the same names with the same texts give the same definitions. -/
theorem parseSource_congr (h : SameFor a b patterns) :
    parseSource a patterns = parseSource b patterns := by
  have heach : ∀ pattern ∈ patterns,
      ((matchingNames a pattern : Load (List String)) >>= fun names => names.forM (parseNamed a)) =
        ((matchingNames b pattern : Load (List String)) >>= fun names =>
          names.forM (parseNamed b)) := by
    intro pattern hpattern
    obtain ⟨hfind, hread⟩ := h pattern hpattern
    rw [matchingNames_congr hfind]
    cases hnames : matchingNames b pattern with
    | error e => rfl
    | ok names =>
      have hfound : b.find pattern = .ok names := by
        rw [matchingNames] at hnames
        split at hnames <;> cases hnames
        assumption
      have hsame : names.forM (parseNamed a) = names.forM (parseNamed b) := by
        refine forM_congr ?_
        intro name hname
        rw [parseNamed, parseNamed, hread names hfound name hname]
      exact hsame
  rw [parseSource, parseSource]
  split
  · rfl
  · exact forM_congr heach

theorem ofSource_congr (h : SameFor a b patterns) : ofSource a patterns = ofSource b patterns := by
  cases patterns with
  | nil => rfl
  | cons p ps =>
    have hfirst := matchingNames_congr (h p List.mem_cons_self).1
    rw [ofSource, ofSource, parseSource_congr h, hfirst]

end Template

namespace FileSource

variable {disk : Disk} {root : String} {texts : Dict String}

lemma find_ofTexts_eq_ok {pattern : String} {names : List String}
    (h : (ofTexts texts).find pattern = .ok names) : ∀ name ∈ names, name ∈ texts.keys := by
  simp only [ofTexts] at h
  cases hp : Pattern.ofText pattern with
  | error f =>
    rw [hp] at h
    cases h
  | ok p =>
    rw [hp] at h
    cases h
    exact fun name hname => (List.mem_filter.mp hname).1

/-- Texts and a directory that has them as files are the same source, as far as the patterns find
files. A pattern that cannot be read is refused by both for the same reason. One whose segments lead
to entries finds the same names in both if and only if it can be read segment by segment, no
directory matches it and every file that does is found in one way. The texts are the same in any
case, and so are the definitions that patterns with the same names give. -/
theorem ofDirectory_ofTexts (h : disk.Mirrors root texts) :
    (∀ pattern f, Pattern.ofText pattern = .error f →
      (ofDirectory disk root).find pattern = .error f ∧ (ofTexts texts).find pattern = .error f) ∧
    (∀ pattern p, Pattern.ofText pattern = .ok p → IsPlain pattern →
      ((ofDirectory disk root).find pattern = (ofTexts texts).find pattern ↔
        ∃ ps, (Path.segments pattern).mapM Pattern.ofText = .ok ps ∧
          FindsEach p ps texts.keys)) ∧
    (∀ name ∈ texts.keys, (ofDirectory disk root).read name = (ofTexts texts).read name) ∧
    ∀ patterns, (∀ pattern ∈ patterns,
        (ofDirectory disk root).find pattern = (ofTexts texts).find pattern) →
      Template.parseSource (ofDirectory disk root) patterns =
          Template.parseSource (ofTexts texts) patterns ∧
        Template.ofSource (ofDirectory disk root) patterns =
          Template.ofSource (ofTexts texts) patterns := by
  refine ⟨?_, fun pattern p hp hplain => h.find_eq_iff hplain hp, fun name hname => h.read_eq hname,
    ?_⟩
  · intro pattern f hf
    simp only [ofDirectory, ofTexts, hf]
    exact ⟨rfl, rfl⟩
  · intro patterns hfind
    have hsame : Template.SameFor (ofDirectory disk root) (ofTexts texts) patterns :=
      fun pattern hpattern => ⟨hfind pattern hpattern, fun names hnames name hname =>
        h.read_eq (find_ofTexts_eq_ok hnames name hname)⟩
    exact ⟨Template.parseSource_congr hsame, Template.ofSource_congr hsame⟩

/-- A text in a directory is found by a pattern that leads to it, and the directory itself is found
where texts are not. -/
theorem ofDirectory_ofTexts_of_query :
    let texts : Dict String := ⟨[("sql/users.tmpl", "users")]⟩
    let query := FileTree.file (Text.bytesOf "users")
    let sql := FileTree.directory ⟨[("users.tmpl", query)]⟩
    let root := FileTree.directory ⟨[("sql", sql)]⟩
    let disk : Disk := ⟨.directory ⟨[("root", root)]⟩, []⟩
    disk.Mirrors "root" texts ∧
      (ofDirectory disk "root").read "sql/users.tmpl" = .ok "users" ∧
      (ofDirectory disk "root").find "sql/*" = .ok ["sql/users.tmpl"] ∧
      Template.ofSource (ofDirectory disk "root") ["sql/*"] =
        Template.ofSource (ofTexts texts) ["sql/*"] ∧
      (ofDirectory disk "root").find "*" ≠ (ofTexts texts).find "*" := by
  intro texts query sql root disk
  have hsql : sql.IsProper :=
    FileTree.isProper_singleton (by decide) (FileTree.isProper_file _)
  have hroot : root.IsProper := FileTree.isProper_singleton (by decide) hsql
  have hproper : disk.tree.IsProper := FileTree.isProper_singleton (by decide) hroot
  have hparts : ∀ names t, root.at? names = some t →
      names = [] ∧ t = root ∨ names = ["sql"] ∧ t = sql ∨
        names = ["sql", "users.tmpl"] ∧ t = query := by
    intro names t h
    have hmem := (FileTree.mem_places hroot).mpr h
    simpa [root, sql, query, FileTree.places, FileTree.placesIn] using hmem
  have hkeys : texts.keys = ["sql/users.tmpl"] := rfl
  have hsegments : Path.segments "sql/users.tmpl" = ["sql", "users.tmpl"] := by decide
  have hholds : root.Holds texts := by
    refine ⟨?_, ?_⟩
    · intro names bs
      constructor
      · intro h
        rcases hparts _ _ h with ⟨-, ht⟩ | ⟨-, ht⟩ | ⟨rfl, ht⟩
        · simp [root] at ht
        · simp [sql] at ht
        · exact ⟨"sql/users.tmpl", "users", by decide, by decide, by simpa [query] using ht⟩
      · rintro ⟨name, text, hget, rfl, rfl⟩
        obtain rfl : name = "sql/users.tmpl" :=
          List.mem_singleton.mp (Dict.mem_keys_iff.mpr ⟨text, hget⟩)
        obtain rfl : "users" = text := Option.some.inj (hget.symm.trans (by decide)).symm
        rw [hsegments]
        rfl
    · intro names entries h hne
      rw [hkeys]
      refine ⟨_, List.mem_singleton_self _, ?_⟩
      rw [hsegments]
      rcases hparts _ _ h with ⟨rfl, -⟩ | ⟨rfl, -⟩ | ⟨rfl, ht⟩
      · exact absurd rfl hne
      · exact ⟨["users.tmpl"], rfl⟩
      · simp [query] at ht
  have hmirrors : disk.Mirrors "root" texts := by
    refine ⟨List.pairwise_singleton _ _, hproper, ⟨root, rfl, hholds⟩, ?_, ?_⟩
    · exact List.forall_mem_singleton.mpr (by decide)
    · exact fun h => absurd h (by decide)
  obtain ⟨-, hfind, hread, hsame⟩ := ofDirectory_ofTexts hmirrors
  have hstar : Pattern.ofText "*" = .ok [.star] := by cbv
  have hin : (ofDirectory disk "root").find "sql/*" = (ofTexts texts).find "sql/*" := by
    have hp : Pattern.ofText "sql/*" =
        .ok [.char 's', .char 'q', .char 'l', .char '/', .star] := by cbv
    have hps : (Path.segments "sql/*").mapM Pattern.ofText =
        .ok [[.char 's', .char 'q', .char 'l'], [.star]] := by cbv
    have hplain : IsPlain "sql/*" := isPlain_of_head (by decide)
    refine (hfind _ _ hp hplain).mpr ⟨_, hps, ?_⟩
    refine (findsEach_iff hplain hp hps (by decide) (by decide)).mpr ?_
    rw [hkeys]
    simp only [Path.encloses_iff]
    decide
  refine ⟨hmirrors, ?_, ?_, ?_, ?_⟩
  · exact (hread _ (List.mem_singleton_self _)).trans (by cbv)
  · exact hin.trans (by cbv)
  · exact (hsame _ (List.forall_mem_singleton.mpr hin)).2
  · intro hout
    obtain ⟨ps, -, heach⟩ := (hfind "*" _ hstar (isPlain_of_head (by decide))).mp hout
    have hnot := heach.noDirectory _ (List.mem_singleton_self _) "sql"
      (Path.encloses_iff.mpr (by decide))
    exact absurd hnot (by decide)

end FileSource

end SafeQuery
