import Mathlib.Data.List.Perm.Basic
import SafeQuery.Glob.Walk
import SafeQuery.Proofs.File.Tree
import SafeQuery.Proofs.Glob.Matching

/-!
# What patterns find below a directory

Patterns for segments are followed through the directories of a disk. Where the disk shows a tree
at a path, `Disk.Shows`, they find the parts of the tree whose paths they match, and each of them
as often as there are ways to match it: `follows_of_leadsDown`. The walk comes to the parts in
another order than their listing has, so the two are the same up to a permutation.
-/

namespace SafeQuery

namespace Glob

/-- A pattern without wildcards admits its text alone. -/
lemma admits_of_literal {p : Pattern} {s : List Char} (h : p.literal? = some s) (t : List Char) :
    p.admits t = true ↔ t = s := by
  induction p generalizing s t with
  | nil =>
    cases h
    exact admits_nil_iff
  | cons w p ih =>
    cases w with
    | char c =>
      obtain ⟨s', hs', rfl⟩ := Option.map_eq_some_iff.mp h
      rw [admits_cons_iff (by simp) (by simp)]
      constructor
      · rintro ⟨d, b, hd, hb, rfl⟩
        rw [(ih hs' b).mp hb, show d = c from of_decide_eq_true hd]
      · rintro rfl
        exact ⟨c, s', decide_eq_true rfl, (ih hs' s').mpr rfl, rfl⟩
    | any | star | deep | within cs | except cs => cases h

/-- How often a part of a tree is found at the segments of its path. A wildcard for segments at the
end of a pattern finds directories alone. -/
def findings (ps : List Pattern) (directory : Bool) (ss : List String) : Nat :=
  if directory || ps.getLast? ≠ some [.deep] then ways ps ss else 0

/-- The path that names lead to from another one. -/
def pathBelow (path : String) (names : List String) : String := names.foldl entryPath path

/-- What patterns find in a tree at a path. -/
def foundIn (ps : List Pattern) (path : String) (parts : List (List String × FileTree)) :
    List String :=
  parts.flatMap fun e => List.replicate (findings ps e.2.isDirectory e.1) (pathBelow path e.1)

/-- A pattern that leads to entries, and neither to the directory itself nor to the one above. -/
structure Pattern.LeadsDown (p : Pattern) : Prop where
  isSegment : p.IsSegment
  notHere : p.head? = some (.char '.') → p.admits ['.'] = false
  notUp : p.head? = some (.char '.') → p.admits ['.', '.'] = false

lemma head_of_literal {p : Pattern} {c : Char} {s : List Char} (h : p.literal? = some (c :: s)) :
    p.head? = some (.char c) := by
  cases p with
  | nil => cases h
  | cons w p =>
    cases w with
    | char d =>
      obtain ⟨s', -, heq⟩ := Option.map_eq_some_iff.mp h
      rw [(List.cons.inj heq).1]
      rfl
    | any | star | deep | within cs | except cs => cases h

lemma eq_nil_of_literal {p : Pattern} (h : p.literal? = some []) : p = [] := by
  cases p with
  | nil => rfl
  | cons w p =>
    cases w with
    | char d =>
      obtain ⟨s', -, heq⟩ := Option.map_eq_some_iff.mp h
      cases heq
    | any | star | deep | within cs | except cs => cases h

/-- A pattern without wildcards that leads down is the name of an entry. -/
lemma Pattern.LeadsDown.isName {p : Pattern} (h : p.LeadsDown) {s : List Char}
    (hs : p.literal? = some s) : Path.IsName (String.ofList s) := by
  have hadmits := (admits_of_literal hs s).mpr rfl
  have hdeep : p ≠ [.deep] := by
    rintro rfl
    cases hs
  obtain ⟨hlocal, hne⟩ := h.isSegment.resolve_left hdeep
  refine ⟨?_, ?_, ?_⟩
  · rw [Path.isIdle, Bool.or_eq_false_iff, decide_eq_false_iff_not, decide_eq_false_iff_not]
    refine ⟨?_, ?_⟩
    · intro heq
      obtain rfl : s = [] := by simpa using heq
      exact hne (eq_nil_of_literal hs)
    · intro heq
      obtain rfl : s = ['.'] := by simpa using congrArg String.toList heq
      rw [h.notHere (head_of_literal hs)] at hadmits
      contradiction
  · intro heq
    obtain rfl : s = ['.', '.'] := by simpa using congrArg String.toList heq
    rw [h.notUp (head_of_literal hs)] at hadmits
    contradiction
  · rw [String.toList_ofList]
    exact not_mem_of_admits hlocal hadmits

end Glob

open Glob

/-- The tree is what the disk has at the path. -/
def Disk.Shows (disk : Disk) (path : String) (t : FileTree) : Prop :=
  ∀ names, (∀ s ∈ names, Path.IsName s) →
    (disk.resolve (pathBelow path names)).toOption = t.at? names

namespace Disk.Shows

variable {disk : Disk} {path name : String} {t u : FileTree}

lemma child (h : disk.Shows path t) (hname : Path.IsName name) (hu : t.at? [name] = some u) :
    disk.Shows (entryPath path name) u := by
  intro names hnames
  have := h (name :: names) (List.forall_mem_cons.mpr ⟨hname, hnames⟩)
  rw [FileTree.at?_cons, hu] at this
  exact this

/-- What a path shows is what it is resolved as. -/
lemma resolve (h : disk.Shows path t) : disk.resolve path = .ok t := by
  have hself : (disk.resolve path).toOption = some t := (h [] nofun).trans (t.at?_nil)
  cases hr : disk.resolve path with
  | error e =>
    rw [hr] at hself
    cases hself
  | ok u =>
    rw [hr] at hself
    cases hself
    rfl

lemma contains (h : disk.Shows path t) (hname : Path.IsName name) :
    disk.contains (entryPath path name) = (t.at? [name]).isSome := by
  have hchild : (disk.resolve (entryPath path name)).toOption = t.at? [name] :=
    h [name] (List.forall_mem_singleton.mpr hname)
  rw [← hchild, Disk.contains]
  cases disk.resolve (entryPath path name) <;> rfl

end Disk.Shows

namespace Glob

section Follow

variable {disk : Disk} {p : Pattern} {ps : List Pattern} {path : String} {t : FileTree}
  {es : List (String × FileTree)}

/-- What is reached by the remaining patterns, of which there may be none. -/
def goOn (disk : Disk) (ps : List Pattern) (path : String) : List String :=
  if ps.isEmpty then [path] else follow disk false ps path

lemma special_eq_nil (hp : p.LeadsDown) (directory : Bool) :
    (if (directory && decide (p.head? = some (.char '.'))) = true then
      ["..", "."].filter fun s => p.admits s.toList else []) = [] := by
  split
  · rename_i hcond
    have hhead := of_decide_eq_true (Bool.and_eq_true_iff.mp hcond).2
    have hup : p.admits "..".toList = false := hp.notUp hhead
    have hhere : p.admits ".".toList = false := hp.notHere hhead
    simp only [List.filter_cons, hup, hhere, Bool.false_eq_true, if_false, List.filter_nil]
  · rfl

/-- Nothing is found below a file. -/
lemma follow_file {bs : List UInt8} (hp : p.LeadsDown) (h : disk.Shows path (.file bs)) :
    follow disk false (p :: ps) path = [] := by
  rw [follow]
  cases hs : p.literal? with
  | some s =>
    have hname := hp.isName hs
    have hcontains := h.contains hname
    obtain ⟨hempty, hdot⟩ := Bool.or_eq_false_iff.mp hname.counts
    simp only [hdot, decide_eq_false hname.notUp, hcontains, FileTree.at?, Bool.or_self,
      Bool.false_eq_true, if_false, Option.isSome_none]
  | none =>
    simp only [h.resolve, descendants, children, special_eq_nil hp, List.flatMap_nil,
      List.append_nil, ite_self]

/-- A pattern with wildcards for a segment is followed to the entries that it matches. -/
lemma follow_wild {d : Dict FileTree} (hp : p.LeadsDown) (hdeep : p ≠ [.deep])
    (hs : p.literal? = none) (hresolve : disk.resolve path = .ok (.directory d)) :
    follow disk false (p :: ps) path =
      d.entries.flatMap fun e =>
        if p.admits e.1.toList then goOn disk ps (entryPath path e.1) else [] := by
  rw [follow]
  simp only [hs, hresolve, if_neg hdeep, children, special_eq_nil hp, List.flatMap_nil,
    List.nil_append, List.flatMap_map, Bool.false_and, Bool.false_eq_true, if_false]
  rfl

/-- A pattern for a segment is followed to the entries that it matches. -/
lemma follow_local (hp : p.LeadsDown) (hdeep : p ≠ [.deep])
    (hproper : (FileTree.directory ⟨es⟩).IsProper) (h : disk.Shows path (.directory ⟨es⟩)) :
    follow disk false (p :: ps) path =
      es.flatMap fun e =>
        if p.admits e.1.toList then goOn disk ps (entryPath path e.1) else [] := by
  cases hs : p.literal? with
  | some s =>
    have hname := hp.isName hs
    have hcontains := h.contains hname
    obtain ⟨hempty, hdot⟩ := Bool.or_eq_false_iff.mp hname.counts
    have hkey := Dict.flatMap_entries_of_key hproper.sorted (String.ofList s)
      fun name => goOn disk ps (entryPath path name)
    have hsame : ∀ e : String × FileTree, p.admits e.1.toList = true ↔ e.1 = String.ofList s := by
      intro e
      rw [admits_of_literal hs, ← String.toList_inj, String.toList_ofList]
    rw [follow]
    simp only [hs, hsame]
    simp only [hdot, decide_eq_false hname.notUp, hcontains, FileTree.at?_directory, Bool.or_self,
      Bool.false_eq_true, if_false, Bool.false_and]
    exact hkey.symm
  | none => exact follow_wild hp hdeep hs h.resolve

/-! ### What is found -/

lemma findings_nil (hps : ps ≠ []) (b : Bool) : findings ps b [] = 0 := by
  rw [findings, ways_nil hps, ite_self]

/-- Without patterns a tree itself is found. -/
lemma foundIn_nil (path : String) (t : FileTree) : foundIn [] path t.places = [path] := by
  have hinside : foundIn [] path t.inside = [] := by
    rw [foundIn, List.flatMap_eq_nil_iff]
    intro e he
    have hne := FileTree.ne_nil_of_mem_inside he
    have hzero : findings [] e.2.isDirectory e.1 = 0 := by simp [findings, ways, hne]
    rw [hzero, List.replicate_zero]
  have hself : findings [] t.isDirectory [] = 1 := by simp [findings, ways]
  rw [FileTree.places_eq]
  rw [foundIn] at hinside
  rw [foundIn, List.flatMap_cons, hself, hinside]
  rfl

lemma foundIn_places (hps : ps ≠ []) (path : String) (t : FileTree) :
    foundIn ps path t.places = foundIn ps path t.inside := by
  rw [FileTree.places_eq, foundIn, List.flatMap_cons, findings_nil hps]
  rfl

lemma foundIn_placesIn_cons (ps : List Pattern) (path name : String) (t : FileTree)
    (es : List (String × FileTree)) :
    foundIn ps path (FileTree.placesIn ((name, t) :: es)) =
      (t.places.flatMap fun e => List.replicate (findings ps e.2.isDirectory (name :: e.1))
        (pathBelow (entryPath path name) e.1)) ++ foundIn ps path (FileTree.placesIn es) := by
  rw [FileTree.placesIn, foundIn, List.flatMap_append, List.flatMap_map]
  rfl

/-- A pattern for one segment finds a path through the name that it admits. -/
lemma findings_local_cons (hdeep : p ≠ [.deep]) (b : Bool) (name : String) (names : List String) :
    findings (p :: ps) b (name :: names) =
      if p.admits name.toList then findings ps b names else 0 := by
  have hlast : (p :: ps).getLast? = some [.deep] ↔ ps.getLast? = some [.deep] := by
    cases ps with
    | nil => simp [hdeep]
    | cons q ps => rw [List.getLast?_cons_cons]
  rw [findings, findings, ways_local_cons hdeep]
  simp only [ne_eq, hlast]
  split <;> split <;> rfl

/-- A wildcard for segments finds a path with its first name or without it. -/
lemma findings_deep_cons (hps : ps ≠ []) (b : Bool) (name : String) (names : List String) :
    findings ([.deep] :: ps) b (name :: names) =
      findings ps b (name :: names) + findings ([.deep] :: ps) b names := by
  have hlast : ([.deep] :: ps).getLast? = ps.getLast? := by
    obtain ⟨q, ps, rfl⟩ := List.exists_cons_of_ne_nil hps
    exact List.getLast?_cons_cons
  rw [findings, findings, findings, hlast, ways_deep_cons hps]
  split <;> rfl

lemma findings_lastDeep_cons (b : Bool) (name : String) (names : List String) :
    findings [[.deep]] b (name :: names) =
      (if b && names.isEmpty then 1 else 0) + findings [[.deep]] b names := by
  cases b <;> cases names <;> rfl

/-- What a pattern for a segment and others find in a directory. -/
lemma foundIn_local (hdeep : p ≠ [.deep]) (path : String) (es : List (String × FileTree)) :
    foundIn (p :: ps) path (FileTree.placesIn es) =
      es.flatMap fun e =>
        if p.admits e.1.toList then foundIn ps (entryPath path e.1) e.2.places else [] := by
  induction es with
  | nil => rfl
  | cons e es ih =>
    obtain ⟨name, t⟩ := e
    rw [foundIn_placesIn_cons, List.flatMap_cons, ih]
    simp only [findings_local_cons hdeep]
    split
    · rfl
    · simp

/-! ### Wildcards for segments -/

section Deep

variable {counted : Bool → String → List String → Nat} {look : Found → List String}

/-- What is looked up at every part inside a tree is found there, if the patterns find a part
through the entries of the directory and through those below them. -/
def LooksUp (disk : Disk) (counted : Bool → String → List String → Nat)
    (look : Found → List String) : Prop :=
  ∀ path name t, t.IsProper → disk.Shows (entryPath path name) t →
    (look ⟨entryPath path name, name, t⟩).Perm (t.places.flatMap fun e =>
      List.replicate (counted e.2.isDirectory name e.1) (pathBelow (entryPath path name) e.1))

mutual

/-- The walk below a directory comes by the places inside it, each one once. -/
lemma descendants_perm (hps : ps ≠ [])
    (hcounted : ∀ b name names,
      findings ps b (name :: names) = counted b name names + findings ps b names)
    (hlook : LooksUp disk counted look) (path : String) (t : FileTree) (hproper : t.IsProper)
    (hshows : disk.Shows path t) :
    ((descendants path t).flatMap look).Perm (foundIn ps path t.places) := by
  rw [foundIn_places hps]
  match t with
  | .file bs =>
    rw [descendants]
    exact .refl _
  | .directory ⟨es⟩ =>
    rw [descendants]
    refine descendantsIn_perm hps hcounted hlook path es ?_
    intro e he
    have he' := FileTree.at?_directory.trans ((Dict.mem_entries_iff hproper.sorted).mp he)
    exact ⟨hproper.at he', hshows.child (hproper.isEntryName he).toIsName he'⟩

lemma descendantsIn_perm (hps : ps ≠ [])
    (hcounted : ∀ b name names,
      findings ps b (name :: names) = counted b name names + findings ps b names)
    (hlook : LooksUp disk counted look) (path : String) (es : List (String × FileTree))
    (hes : ∀ e ∈ es, e.2.IsProper ∧ disk.Shows (entryPath path e.1) e.2) :
    ((descendantsIn path es).flatMap look).Perm (foundIn ps path (FileTree.placesIn es)) := by
  match es with
  | [] =>
    rw [descendantsIn]
    exact .refl _
  | (name, t) :: es =>
    obtain ⟨⟨hproper, hshows⟩, hes⟩ := List.forall_mem_cons.mp hes
    have hself := hlook path name t hproper hshows
    have hbelow := descendants_perm hps hcounted hlook (entryPath path name) t hproper hshows
    have hrest := descendantsIn_perm hps hcounted hlook path es hes
    rw [descendantsIn, foundIn_placesIn_cons, List.cons_append, List.flatMap_cons,
      List.flatMap_append, ← List.append_assoc]
    refine .append ?_ hrest
    simp only [hcounted, List.replicate_add]
    exact (hself.append hbelow).trans (List.flatMap_append_perm ..)

end

lemma follow_lastDeep (h : disk.Shows path t) :
    follow disk false [[.deep]] path =
      (descendants path t).flatMap fun f => if f.tree.isDirectory then [f.path] else [] := by
  rw [follow]
  simp only [Pattern.literal?, h.resolve, if_true]

lemma follow_deep (h : disk.Shows path t) (q : Pattern) (qs : List Pattern) :
    follow disk false ([.deep] :: q :: qs) path =
      (descendants path t).flatMap fun f =>
        if q.admits f.name.toList then goOn disk qs f.path else [] := by
  rw [follow]
  simp only [Pattern.literal?, h.resolve, if_true, Bool.false_and, Bool.false_eq_true, if_false]
  refine List.flatMap_congr ?_
  intro f _
  cases q.admits f.name.toList <;> rfl

lemma looksUp_lastDeep :
    LooksUp disk (fun b _ names => if b && names.isEmpty then 1 else 0)
      fun f => if f.tree.isDirectory then [f.path] else [] := by
  intro path name t _ _
  have hinside : (t.inside.flatMap fun e =>
      List.replicate (if e.2.isDirectory && e.1.isEmpty then 1 else 0)
        (pathBelow (entryPath path name) e.1)) = [] := by
    rw [List.flatMap_eq_nil_iff]
    intro e he
    have hempty : e.1.isEmpty = false := by simpa using FileTree.ne_nil_of_mem_inside he
    rw [hempty, Bool.and_false, if_neg Bool.false_ne_true, List.replicate_zero]
  rw [FileTree.places_eq, List.flatMap_cons, hinside, List.append_nil]
  cases ht : t.isDirectory with
  | false => simp [ht]
  | true => simp [ht, pathBelow]

end Deep

/-- The patterns are followed to what they find in a tree at a path, and as often as they find
it. -/
def Follows (disk : Disk) (ps : List Pattern) : Prop :=
  ∀ path t, t.IsProper → disk.Shows path t → (goOn disk ps path).Perm (foundIn ps path t.places)

lemma follows_nil : Follows disk [] := by
  intro path t _ _
  rw [foundIn_nil]
  exact .refl _

/-- A pattern for one segment is followed through the entries that it admits. -/
lemma Follows.local (h : Follows disk ps) (hp : p.LeadsDown) (hdeep : p ≠ [.deep]) :
    Follows disk (p :: ps) := by
  intro path t hproper hshows
  rw [foundIn_places (List.cons_ne_nil p ps)]
  change (follow disk false (p :: ps) path).Perm _
  match t with
  | .file bs =>
    rw [follow_file hp hshows]
    exact .refl _
  | .directory ⟨es⟩ =>
    rw [follow_local hp hdeep hproper hshows, FileTree.inside, foundIn_local hdeep]
    refine List.Perm.flatMap_left _ ?_
    intro e he
    have he' := FileTree.at?_directory.trans ((Dict.mem_entries_iff hproper.sorted).mp he)
    split
    · exact h _ _ (hproper.at he') (hshows.child (hproper.isEntryName he).toIsName he')
    · exact .refl _

lemma follows_lastDeep : Follows disk [[.deep]] := by
  intro path t hproper hshows
  change (follow disk false [[.deep]] path).Perm _
  rw [follow_lastDeep hshows]
  exact descendants_perm (List.cons_ne_nil _ _) findings_lastDeep_cons looksUp_lastDeep path t
    hproper hshows

/-- A wildcard for segments is followed through all directories below. -/
lemma Follows.deep (h : Follows disk ps) (hdeep : p ≠ [.deep]) :
    Follows disk ([.deep] :: p :: ps) := by
  intro path t hproper hshows
  have hlook : LooksUp disk (fun b name names => findings (p :: ps) b (name :: names))
      fun f => if p.admits f.name.toList then goOn disk ps f.path else [] := by
    intro path name u hu hushows
    simp only [findings_local_cons hdeep]
    split
    · exact h _ _ hu hushows
    · simp
  change (follow disk false ([.deep] :: p :: ps) path).Perm _
  rw [follow_deep hshows]
  exact descendants_perm (List.cons_ne_nil _ _) (findings_deep_cons (List.cons_ne_nil p ps)) hlook
    path t hproper hshows

/-- Patterns that lead down are followed, where no two wildcards for segments stand side by side. -/
theorem follows_of_leadsDown (ps : List Pattern) (hps : ∀ p ∈ ps, p.LeadsDown)
    (hchain : ps.IsChain fun p q => p = [.deep] → q ≠ [.deep]) : Follows disk ps := by
  match ps with
  | [] => exact follows_nil
  | [p] =>
    by_cases hdeep : p = [.deep]
    · subst hdeep
      exact follows_lastDeep
    · exact follows_nil.local (hps p List.mem_cons_self) hdeep
  | p :: q :: ps =>
    obtain ⟨hp, hps'⟩ := List.forall_mem_cons.mp hps
    obtain ⟨hpq, hchain'⟩ := List.isChain_cons_cons.mp hchain
    by_cases hdeep : p = [.deep]
    · subst hdeep
      exact (follows_of_leadsDown ps (List.forall_mem_cons.mp hps').2
        (List.isChain_of_isChain_cons hchain')).deep (hpq rfl)
    · exact (follows_of_leadsDown (q :: ps) hps' hchain').local hp hdeep

end Follow

end Glob

end SafeQuery
