import SafeQuery.Proofs.Template.Merging

/-!
# Loading definitions

A call that loads definitions has a row of readings in front of it: sources with the names of their
own statements, or the reason why there is none. It follows them up to the first one that fails,
`Loading.load_eq_follow`, so that it leaves the definitions of the sources before that one and no
others. However many calls there are, none of them takes a definition away, `loadAll_keeps`.
-/

namespace SafeQuery.Template

/-- What is read next: a source with the name of its own statements, or nothing, for this reason. -/
abbrev Reading := Except Error (String × String)

/-- Read sources one after the other, up to the first one that fails. -/
def follow (t : Template) : List Reading → Template × Option Error
  | []                         => (t, none)
  | .error e :: _              => (t, some e)
  | .ok (name, source) :: rest =>
    match t.withSource name source with
    | .ok u    => u.follow rest
    | .error e => (t, some e)

/-- The template with the definitions of sources, of which none fails. -/
def withSources (t : Template) (files : List (String × String)) : Except Error Template :=
  files.foldlM (fun t file => t.withSource file.1 file.2) t

/-- There is nothing more to read, or the next reading fails with the error. -/
def EndsAt (t : Template) : List Reading → Option Error → Prop
  | [],                      failure => failure = none
  | .error e :: _,           failure => failure = some e
  | .ok (name, source) :: _, failure =>
    ∃ e, t.withSource name source = .error e ∧ failure = some e

/-- What has been followed are sources that have been read without a failure, and behind them
everything has been read or the next reading has failed. -/
lemma follow_eq (t : Template) (rs : List Reading) :
    ∃ files rest, rs = files.map .ok ++ rest ∧ t.withSources files = .ok (t.follow rs).1 ∧
      (t.follow rs).1.EndsAt rest (t.follow rs).2 := by
  induction rs generalizing t with
  | nil => exact ⟨[], [], rfl, rfl, rfl⟩
  | cons r rs ih =>
    rcases r with e | ⟨name, source⟩
    · exact ⟨[], _, rfl, rfl, rfl⟩
    · rw [follow]
      cases hread : t.withSource name source with
      | error e => exact ⟨[], .ok (name, source) :: rs, rfl, rfl, e, hread, rfl⟩
      | ok u =>
        obtain ⟨files, rest, hrs, hfiles, hend⟩ := ih u
        refine ⟨(name, source) :: files, rest, by rw [hrs]; rfl, ?_, hend⟩
        rw [withSources, List.foldlM_cons, hread]
        exact hfiles

/-- Readings side by side are followed one after the other. -/
lemma follow_append (t : Template) (rs rs' : List Reading) :
    t.follow (rs ++ rs') =
      match t.follow rs with
      | (u, none)   => u.follow rs'
      | (u, some e) => (u, some e) := by
  induction rs generalizing t with
  | nil => rfl
  | cons r rs ih =>
    rcases r with e | ⟨name, source⟩
    · rfl
    · rw [List.cons_append, follow, follow]
      cases t.withSource name source with
      | error e => rfl
      | ok u => exact ih u

/-! ### Calls -/

/-- A call that loads definitions. -/
inductive Loading where
  | source (text : String)
  | files (disk : Disk) (paths : List String)
  | matching (disk : Disk) (pattern : String)
  | texts (texts : FileSource) (patterns : List String)

namespace Loading

def act : Loading → Load Unit
  | source text           => parse text
  | files disk paths      => parseFiles disk paths
  | matching disk pattern => parseMatching disk pattern
  | texts fs patterns     => parseSource fs patterns

def ofFile (disk : Disk) (path : String) : Reading :=
  match disk.readText path with
  | .ok text => .ok ((Path.fileName? path).getD path, text)
  | .error f => .error (.file f)

def ofFiles (disk : Disk) : List String → List Reading
  | []    => [.error .noFiles]
  | paths => paths.map (ofFile disk)

def ofText (fs : FileSource) (name : String) : Reading :=
  match fs.read name with
  | .ok text => .ok (Path.baseName name, text)
  | .error f => .error (.file f)

/-- The readings of the texts whose names match a pattern, of which there has to be one. -/
def ofPattern (fs : FileSource) (pattern : String) : List Reading :=
  match matchingNames fs pattern with
  | .ok names => names.map (ofText fs)
  | .error e  => [.error e]

/-- What a call reads in a template of the given name, in order. -/
def readings (name : String) : Loading → List Reading
  | source text           => [.ok (name, text)]
  | files disk paths      => ofFiles disk paths
  | matching disk pattern =>
    match matchingPaths disk pattern with
    | .ok paths => ofFiles disk paths
    | .error e  => [.error e]
  | texts _ []            => [.error .noFiles]
  | texts fs patterns     => patterns.flatMap (ofPattern fs)

end Loading

/-! ### Calls follow their readings -/

section Load

variable {t : Template}

lemma load_bind (act : Load Unit) (k : Unit → Load Unit) :
    t.load (act >>= k) =
      match t.load act with
      | (u, none)   => u.load (k ())
      | (u, some e) => (u, some e) := by
  have hrun := Load.run_bind act k t
  simp only [ExceptT.run, StateT.run] at hrun
  simp only [load, ExceptT.run, hrun]
  rcases act t with ⟨_ | ⟨⟩, u⟩ <;> rfl

lemma load_lift {α : Type} (x : Except Error α) (k : α → Load Unit) :
    t.load (liftM x >>= k) = match x with
      | .ok a    => t.load (k a)
      | .error e => (t, some e) := by
  cases x <;> rfl

lemma load_parseAs (name source : String) :
    t.load (parseAs name source) = t.follow [.ok (name, source)] := by
  have hload : t.load (parseAs name source) =
      t.load (match t.withSource name source with
        | .ok u    => set u
        | .error e => throw e) := rfl
  rw [hload, follow]
  cases t.withSource name source <;> rfl

/-- Computations that follow their readings do so one after the other. -/
lemma load_forM {α : Type} {k : α → Load Unit} {readings : α → List Reading}
    (h : ∀ (u : Template) x, u.load (k x) = u.follow (readings x)) (xs : List α) :
    t.load (xs.forM k) = t.follow (xs.flatMap readings) := by
  induction xs generalizing t with
  | nil => rfl
  | cons x xs ih =>
    have hcons : (x :: xs).forM k = (k x >>= fun _ => xs.forM k) := rfl
    rw [hcons, load_bind, h, List.flatMap_cons, follow_append]
    rcases t.follow (readings x) with ⟨u, _ | e⟩
    · exact ih
    · rfl

/-- Loading files is following their readings. -/
lemma load_parseFiles (disk : Disk) (paths : List String) :
    t.load (parseFiles disk paths) = t.follow (Loading.ofFiles disk paths) := by
  cases paths with
  | nil => rfl
  | cons path paths =>
    have hfile : ∀ (u : Template) (path : String),
        u.load (match disk.readText path with
          | .ok text => parseAs ((Path.fileName? path).getD path) text
          | .error f => throw (.file f)) = u.follow [Loading.ofFile disk path] := by
      intro u path
      rw [Loading.ofFile]
      cases disk.readText path with
      | error f => rfl
      | ok text => exact load_parseAs _ _
    have hall := load_forM (t := t) hfile (path :: paths)
    rw [← List.map_eq_flatMap] at hall
    exact hall

lemma load_parseSource (fs : FileSource) (patterns : List String) :
    t.load (parseSource fs patterns) =
      t.follow ((Loading.texts fs patterns).readings t.name) := by
  cases patterns with
  | nil => rfl
  | cons pattern patterns =>
    have hname : ∀ (u : Template) (name : String),
        u.load (parseNamed fs name) = u.follow [Loading.ofText fs name] := by
      intro u name
      rw [parseNamed, Loading.ofText]
      cases fs.read name with
      | error f => rfl
      | ok text => exact load_parseAs _ _
    have hpattern : ∀ (u : Template) (pattern : String),
        u.load (do (← matchingNames fs pattern).forM (parseNamed fs)) =
          u.follow (Loading.ofPattern fs pattern) := by
      intro u pattern
      rw [load_lift, Loading.ofPattern]
      cases matchingNames fs pattern with
      | error e => rfl
      | ok names =>
        have hall := load_forM (t := u) hname names
        rw [← List.map_eq_flatMap] at hall
        exact hall
    exact load_forM hpattern (pattern :: patterns)

/-- A call follows its readings. -/
theorem Loading.load_eq_follow (t : Template) (c : Loading) :
    t.load c.act = t.follow (c.readings t.name) := by
  match c with
  | .source text => exact load_parseAs t.name text
  | .files disk paths => exact load_parseFiles disk paths
  | .matching disk pattern =>
    rw [Loading.act, parseMatching, load_lift, Loading.readings]
    cases matchingPaths disk pattern with
    | error e => rfl
    | ok paths => exact load_parseFiles disk paths
  | .texts fs patterns => exact load_parseSource fs patterns

end Load

/-! ### Runs of calls -/

/-- Carry out calls one after the other, whether they fail or not. -/
def loadAll (t : Template) (calls : List Loading) : Template :=
  calls.foldl (fun t c => (t.load c.act).1) t

/-- Every definition is still there, and none with content has been replaced by one without. -/
def KeepsDefinitions (t u : Template) : Prop :=
  ∀ name old, t.trees.get? name = some old →
    ∃ new, u.trees.get? name = some new ∧ (old.isEmpty = false → new.isEmpty = false)

lemma KeepsDefinitions.refl (t : Template) : t.KeepsDefinitions t := fun _ old h => ⟨old, h, id⟩

lemma KeepsDefinitions.trans {t u v : Template} (h : t.KeepsDefinitions u)
    (h' : u.KeepsDefinitions v) : t.KeepsDefinitions v := by
  intro name old hold
  obtain ⟨mid, hmid, hcontent⟩ := h name old hold
  obtain ⟨new, hnew, hcontent'⟩ := h' name mid hmid
  exact ⟨new, hnew, hcontent' ∘ hcontent⟩

/-- A source takes no definition away. -/
lemma withSource_keeps {t u : Template} {name source : String}
    (h : t.withSource name source = .ok u) : t.KeepsDefinitions u := by
  obtain ⟨added, hadded, rfl⟩ := withSource_eq_ok.mp h
  intro key old hold
  rw [get?_adding hadded, hold]
  cases added.get? key with
  | none => exact ⟨old, rfl, id⟩
  | some tree =>
    rw [merged, Option.isSome_some, Bool.and_true]
    split
    · exact ⟨old, rfl, id⟩
    · rename_i hcontent
      refine ⟨tree.withHooks, rfl, fun _ => ?_⟩
      rw [Tree.isEmpty_withHooks]
      simpa using hcontent

/-- A call keeps all definitions. -/
lemma load_keepsDefinitions (t : Template) (c : Loading) :
    t.KeepsDefinitions (t.load c.act).1 := by
  rw [Loading.load_eq_follow]
  generalize c.readings t.name = rs
  induction rs generalizing t with
  | nil => exact .refl t
  | cons r rs ih =>
    rcases r with e | ⟨name, source⟩
    · exact .refl t
    · rw [follow]
      cases hread : t.withSource name source with
      | error e => exact .refl t
      | ok u => exact (withSource_keeps hread).trans (ih u)

/-- However many calls there are, all definitions are kept. -/
theorem loadAll_keeps (t : Template) (calls : List Loading) :
    t.KeepsDefinitions (t.loadAll calls) := by
  induction calls generalizing t with
  | nil => exact .refl t
  | cons c calls ih => exact (load_keepsDefinitions t c).trans (ih _)

/-- The definitions of a source are there, with their calls of the encoder. Another tree stands for
one of them only if it has no content. -/
def HoldsSource (t : Template) (name source : String) : Prop :=
  ∃ defs, DefinedBy t.delimiters t.isCallable name source defs ∧ ∀ d ∈ defs,
    ∃ tree, t.trees.get? d.name = some tree ∧ (d.isEmpty = false → tree = d.withHooks)

/-- What a source defines is there behind it. -/
lemma withSource_holds {t u : Template} {name source : String}
    (h : t.withSource name source = .ok u) : u.HoldsSource name source := by
  obtain ⟨added, hadded, rfl⟩ := withSource_eq_ok.mp h
  obtain ⟨defs, hdefs, hstands⟩ := ofSource_definitions hadded
  refine ⟨defs, hdefs, fun d hd => ?_⟩
  obtain ⟨new, hnew, hsame⟩ := hstands d hd
  rw [get?_adding hadded, hnew, merged]
  split
  · rename_i hold
    rw [Bool.and_eq_true, Option.isSome_iff_exists] at hold
    obtain ⟨hempty, old, hold⟩ := hold
    refine ⟨old, hold, fun hcontent => ?_⟩
    rw [hsame hcontent, hcontent] at hempty
    cases hempty
  · exact ⟨new.withHooks, rfl, fun hcontent => by rw [hsame hcontent]⟩

/-- Loading is atomic for every source, and no definition is lost. A source that cannot be read
changes nothing. A call that fails has read the sources before the failure, in order and each under
its name, and has changed nothing else; and one that does not fail has read all of them. Over any
run of calls the definitions that are there stay, and none with content is replaced by one without;
and the definitions of a source that is read are there behind it. -/
theorem load_atomic (t : Template) :
    (∀ text u e, t.load (parse text) = (u, some e) → u = t) ∧
      (∀ c : Loading, ∃ files rest, c.readings t.name = files.map .ok ++ rest ∧
        t.withSources files = .ok (t.load c.act).1 ∧
          (t.load c.act).1.EndsAt rest (t.load c.act).2) ∧
      (∀ calls, t.KeepsDefinitions (t.loadAll calls)) ∧
      ∀ name source u, t.withSource name source = .ok u → u.HoldsSource name source := by
  refine ⟨?_, ?_, t.loadAll_keeps, fun name source u => withSource_holds⟩
  · intro text u e h
    have hload := Loading.load_eq_follow t (.source text)
    rw [Loading.act, h, Loading.readings, follow] at hload
    split at hload
    · cases hload
    · exact congrArg Prod.fst hload
  · intro c
    rw [Loading.load_eq_follow]
    exact t.follow_eq _

/-- A definition with content for which a text has none. The text behind it is no source, so that
the call fails there and the last text is not read. -/
theorem load_atomic_of_texts :
    let t := ((new "q").load (parse "a\x7b\x7bdefine \"d\"\x7d\x7db\x7b\x7bend\x7d\x7d")).1
    let blank := "\x7b\x7bdefine \"d\"\x7d\x7d \x7b\x7bend\x7d\x7de"
    let fs := FileSource.ofTexts (.ofList [("x/c", blank), ("x/f", "\x7b\x7b"), ("x/g", "h")])
    let c := Loading.texts fs ["x/*"]
    (t.trees.keys = ["d", "q"] ∧ (t.load c.act).1.trees.keys = ["c", "d", "q"] ∧
        (t.load c.act).2.isSome ∧ ((t.load c.act).1.trees.get? "d").map (·.isEmpty) = some false) ∧
      (∃ e, t.load (parse "\x7b\x7b") = (t, some e)) ∧
      (∃ files rest, c.readings t.name = files.map .ok ++ rest ∧
        t.withSources files = .ok (t.load c.act).1 ∧
          (t.load c.act).1.EndsAt rest (t.load c.act).2) ∧
      t.KeepsDefinitions (t.loadAll [c, .source "\x7b\x7b"]) ∧
      ∃ u, t.withSource "c" blank = .ok u ∧ u.HoldsSource "c" blank := by
  intro t blank fs c
  obtain ⟨hsource, hcall, hrun, hholds⟩ := t.load_atomic
  refine ⟨⟨by decide +kernel, by decide +kernel, by decide +kernel, by decide +kernel⟩, ?_,
    hcall c, hrun _, ?_⟩
  · have hfails : (t.load (parse "\x7b\x7b")).2.isSome = true := by decide +kernel
    obtain ⟨e, he⟩ := Option.isSome_iff_exists.mp hfails
    have hpair : t.load (parse "\x7b\x7b") = ((t.load (parse "\x7b\x7b")).1, some e) :=
      Prod.ext rfl he
    exact ⟨e, hpair.trans (congrArg (·, some e) (hsource _ _ e hpair))⟩
  · have hok : (t.withSource "c" blank).toOption.isSome = true := by decide +kernel
    cases hread : t.withSource "c" blank with
    | error e =>
      rw [hread] at hok
      cases hok
    | ok u => exact ⟨u, rfl, hholds _ _ u hread⟩

end SafeQuery.Template
