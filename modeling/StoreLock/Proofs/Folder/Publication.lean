import StoreLock.Proofs.Folder.Effects
import StoreLock.Proofs.Folder.Refinement
import StoreLock.Proofs.Folder.Usable

/-!
# Listings while objects are created

Any number of creations and deletions of different objects, through any number of stores on one root, take their
steps in any order, and each may end after any step (`FolderClient.World.Step`). All that a step takes for
granted is kept by the steps of others (`World.Sound`), for no step but the last of a creation changes an
object, and no hidden file is that of two objects. So at every moment an object holds what the last move or
deletion has left of it, and these objects are what a listing shows (`FolderClient.listed_whole`). Whole calls
are such steps (`World.Reached.create`, `World.Reached.delete`).

A link below the root makes one file of two names, and then one creation moves what another is still writing
(`FolderClient.half_written_behind_link`).
-/

namespace StoreLock

/-- What the object of a name holds after these requests have been served, the latest first, if it held this
before. -/
def heldSince (before : Option ByteArray) (name : String) : List Request → Option ByteArray
  | [] => before
  | request :: served => request.revise name (heldSince before name served)

namespace FolderClient

/-- A creation that has begun. -/
structure Job where
  path : FilePath
  contents : ByteArray
  stage : Stage

/-- A job after something has been done to open files. -/
def Job.follow (effect : Effect) (job : Job) : Job :=
  { job with stage := job.stage.follow effect }

/-- A tree and what is being done to it. -/
structure World where
  tree : Folder
  /-- The creations that have begun, each at the name of its object. -/
  jobs : String → Option Job
  /-- The creations that have moved their file to its place and the deletions, the latest first. -/
  past : List Request

namespace World

/-- The creation of an object gets further, begins or ends. -/
def put (w : World) (name : String) (job : Option Job) : World :=
  { w with jobs := Function.update w.jobs name job }

/-- What a step makes of the tree, and of open files. -/
def after (w : World) (effect : Effect) (f : Folder) (past : List Request) : World :=
  ⟨f, fun name => (w.jobs name).map (·.follow effect), past⟩

/-- One step of a creation or a deletion through any store on the root. -/
inductive Step (root : Place) (w : World) : World → Prop where
  /-- A creation begins if no other of this object is going on. -/
  | begin {c : FolderClient} {path : FilePath} {slash : Bool} (name : String) (contents : ByteArray) :
    w.tree.resolve true c.root = .ok ⟨root, slash⟩ →
    c.path name = .ok path →
    w.jobs name = none →
    Step root w (w.put name (some ⟨path, contents, .start path⟩))
  | go {job : Job} {effect : Effect} {f : Folder} {stage : Stage} (name : String) (count : Nat) :
    w.jobs name = some job →
    job.stage.step job.path job.contents count w.tree = (effect, f, stage) →
    Step root w ((w.after effect f (if effect.moves then .create name job.contents :: w.past else w.past)).put name
      (some { job with stage }))
  /-- A call fails for a reason of its own. -/
  | fail {job : Job} (name : String) (e : FileFault) :
    w.jobs name = some job →
    Step root w (w.put name (some { job with stage := job.stage.fail e }))
  /-- A creation ends, or is cut off. -/
  | quit (name : String) : Step root w (w.put name none)
  | delete {c : FolderClient} {path : FilePath} {slash : Bool} {f : Folder} (name : String) :
    w.tree.resolve true c.root = .ok ⟨root, slash⟩ →
    c.path name = .ok path →
    w.tree.remove path = .ok f →
    Step root w (w.after (removing w.tree path) f (.delete name :: w.past))

/-- The steps that have been taken since nothing was going on. -/
def Reached (root : Place) (f₀ : Folder) (w : World) : Prop :=
  Relation.ReflTransGen (Step root) ⟨f₀, fun _ => none, []⟩ w

end World

/-- What the creation of an object takes for granted. -/
structure Job.Fits (c : FolderClient) (root : Place) (init : List String) (s : String) (name : String) (f : Folder)
    (job : Job) : Prop where
  site : Site c f root
  named : ObjectName.segments name = .ok (init ++ [s])
  path : c.path name = .ok job.path
  stage : job.stage.Fits c root init s job.contents f

/-- Objects hold what the last change has left of them, and creations find what they have written. -/
structure World.Sound (f₀ : Folder) (root : Place) (w : World) : Prop where
  lawful : w.tree.LawfulAt root
  objects : ∀ name, (∀ s ∈ ObjectName.pieces name, ObjectName.isObjectSegment s = true) →
    object? w.tree root (ObjectName.pieces name) =
      heldSince (object? f₀ root (ObjectName.pieces name)) name w.past
  named : ∀ name contents, .create name contents ∈ w.past → ∃ segs, ObjectName.segments name = .ok segs
  jobs : ∀ name job, w.jobs name = some job → ∃ c init s, job.Fits c root init s name w.tree

/-- A listing shows the objects as the last change has left them, each whole, and no hidden file. -/
structure World.Shows (f₀ : Folder) (root : Place) (w : World) (names : List String) : Prop where
  listed : ∀ name, name ∈ names ↔
    (∀ s ∈ ObjectName.pieces name, ObjectName.isObjectSegment s = true) ∧
      (heldSince (object? f₀ root (ObjectName.pieces name)) name w.past).isSome
  whole : ∀ name ∈ names, ∃ contents, object? w.tree root (ObjectName.pieces name) = some contents ∧
    heldSince (object? f₀ root (ObjectName.pieces name)) name w.past = some contents ∧
    (.create name contents ∈ w.past ∨ object? f₀ root (ObjectName.pieces name) = some contents)
  hidden : ∀ name init s, ObjectName.segments name = .ok (init ++ [s]) →
    ObjectName.spell (init ++ [ObjectName.staged s]) ∉ names

variable {c : FolderClient} {f f' f₀ top : Folder} {root : Place} {w w' : World} {job : Job} {effect : Effect}
  {path : FilePath} {name other : String} {init init' segs : List String} {s s' : String} {names : List String}
  {contents : ByteArray} {past : List Request} {slash : Bool} {stage stage' : Stage}
  {result : Except StoreError Unit}

/-! ## Who does what -/

lemma Site.of_lawfulAt (hroot : f.resolve true c.root = .ok ⟨root, slash⟩) (h : f.LawfulAt root) :
    Site c f root := by
  obtain ⟨top, hat, hlawful⟩ := h
  exact .of_lawful hroot hat hlawful

lemma pieces_eq_iff (h : ObjectName.segments name = .ok segs) :
    ObjectName.pieces other = segs ↔ other = name := by
  obtain ⟨rfl, -⟩ := ObjectName.segments_eq_ok_iff.mp h
  constructor
  · intro he
    rw [← @ObjectName.spell_pieces other, he, ObjectName.spell_pieces]
  · rintro rfl
    rfl

namespace Job.Fits

/-- Creations of different objects have different hidden files. -/
lemma apart (h : job.Fits c root init s name f) (h' : ObjectName.segments other = .ok (init' ++ [s']))
    (hne : other ≠ name) : ¬ (init = init' ∧ s = s') := by
  rintro ⟨rfl, rfl⟩
  exact hne (ObjectName.segments_inj h' h.named)

lemma follow (h : job.Fits c root init s name f) (hsite : Site c f' root)
    (hsame : f'.look? (hiddenPlace root init s) = f.look? (hiddenPlace root init s) ∧
      effect.follow (hiddenPlace root init s) = some (hiddenPlace root init s)) :
    (job.follow effect).Fits c root init s name f' :=
  ⟨hsite, h.named, h.path, h.stage.follow hsame.1 hsame.2⟩

end Job.Fits

/-! ## Every step -/

namespace World.Sound

lemma start (h : f₀.LawfulAt root) : World.Sound f₀ root ⟨f₀, fun _ => none, []⟩ := by
  refine ⟨h, fun _ _ => rfl, ?_, ?_⟩
  · intro name contents hmem
    cases hmem
  · intro name job hjob
    cases hjob

lemma put (h : w.Sound f₀ root) (job : Option Job)
    (hjob : ∀ j, job = some j → ∃ c init s, j.Fits c root init s name w.tree) :
    (w.put name job).Sound f₀ root := by
  refine ⟨h.lawful, h.objects, h.named, ?_⟩
  intro other j hj
  by_cases hother : other = name
  · subst hother
    exact hjob j (by simpa [World.put] using hj)
  · exact h.jobs other j (by simpa [World.put, hother] using hj)

/-- A creation takes a step. -/
lemma go (count : Nat) (h : w.Sound f₀ root) (hjob : w.jobs name = some job)
    (hstep : job.stage.step job.path job.contents count w.tree = (effect, f, stage)) :
    ((w.after effect f (if effect.moves then .create name job.contents :: w.past else w.past)).put name
      (some { job with stage })).Sound f₀ root := by
  obtain ⟨c, init, s, hfits⟩ := h.jobs name job hjob
  obtain ⟨hpath, hinit, hs⟩ := path_eq hfits.named hfits.path
  rw [hpath] at hstep
  obtain ⟨hchange, hstage⟩ := hfits.stage.step hfits.site hinit hs hstep
  refine ⟨hchange.lawful h.lawful, ?_, ?_, ?_⟩
  · intro other hother
    have hobject := hchange.object?_eq hother
    simp only [pieces_eq_iff hfits.named, h.objects other hother] at hobject
    refine hobject.trans ?_
    by_cases hmoves : effect.moves = true
    · simp [World.put, World.after, hmoves, heldSince, Request.revise]
    · simp [World.put, World.after, hmoves]
  · intro other contents hmem
    have hpast : .create other contents ∈ w.past ∨ other = name := by
      by_cases hmoves : effect.moves = true <;> simp [World.put, World.after, hmoves] at hmem <;> tauto
    rcases hpast with hpast | rfl
    · exact h.named other contents hpast
    · exact ⟨_, hfits.named⟩
  · intro other j hj
    by_cases hother : other = name
    · subst hother
      simp only [World.put, Function.update_self, Option.some.injEq] at hj
      subst hj
      exact ⟨c, init, s, hchange.site hfits.site, hfits.named, hfits.path, hstage⟩
    · simp only [World.put, World.after, Function.update_of_ne hother, Option.map_eq_some_iff] at hj
      obtain ⟨j, hj, rfl⟩ := hj
      obtain ⟨c', init', s', hfits'⟩ := h.jobs other j hj
      have hsame := hchange.look?_hiddenPlace hs (hfits'.apart hfits.named (Ne.symm hother))
      exact ⟨c', init', s', hfits'.follow (hchange.site hfits'.site) hsame⟩

/-- An object is deleted. -/
lemma delete (h : w.Sound f₀ root) (hroot : w.tree.resolve true c.root = .ok ⟨root, slash⟩)
    (hpath : c.path name = .ok path) (hremove : w.tree.remove path = .ok f) :
    (w.after (removing w.tree path) f (.delete name :: w.past)).Sound f₀ root := by
  obtain ⟨init, s, hname, rfl, hinit, hs⟩ := exists_of_path hpath
  obtain ⟨hunder, hplain⟩ := under_object (c := c) hinit hs
  obtain ⟨hturn, heffect⟩ :=
    (Site.of_lawfulAt hroot h.lawful).remove_turn hunder hplain hs.hasSeparator_eq_false hremove
  refine ⟨hturn.lawful h.lawful, ?_, ?_, ?_⟩
  · intro other hother
    show object? f root (ObjectName.pieces other) = _
    rw [hturn.object?_eq]
    simp only [place_eq_iff, pieces_eq_iff hname, h.objects other hother]
    simp [World.after, heldSince, Request.revise]
  · intro other contents hmem
    exact h.named other contents (by simpa [World.after] using hmem)
  · intro other j hj
    simp only [World.after, Option.map_eq_some_iff] at hj
    obtain ⟨j, hj, rfl⟩ := hj
    obtain ⟨c', init', s', hfits⟩ := h.jobs other j hj
    have hne : hiddenPlace root init' s' ≠ root ++ init.map .text ++ [.text s] := (ne_hiddenPlace hs).symm
    refine ⟨c', init', s', hfits.follow (hturn.site hfits.site) ⟨?_, ?_⟩⟩
    · exact (hturn.look _).trans (if_neg hne)
    · rw [heffect, Effect.follow, if_neg hne]

/-- Every step leaves a world sound. -/
theorem step (h : w.Sound f₀ root) (hstep : World.Step root w w') : w'.Sound f₀ root := by
  cases hstep with
  | @begin c path _ name contents hroot hpath hnone =>
    apply h.put
    rintro j ⟨⟩
    obtain ⟨init, s, hname, rfl, hinit, hs⟩ := exists_of_path hpath
    exact ⟨c, init, s, .of_lawfulAt hroot h.lawful, hname, hpath, .start hinit hs⟩
  | go name count hjob hstep => exact h.go count hjob hstep
  | fail name e hjob =>
    apply h.put
    rintro j ⟨⟩
    obtain ⟨c, init, s, hfits⟩ := h.jobs name _ hjob
    exact ⟨c, init, s, hfits.site, hfits.named, hfits.path, .fail e _⟩
  | quit name =>
    apply h.put
    rintro j ⟨⟩
  | delete name hroot hpath hremove => exact h.delete hroot hpath hremove

/-- Whatever has happened, a world is sound. -/
theorem of_reached (h : f₀.LawfulAt root) (hw : World.Reached root f₀ w) : w.Sound f₀ root := by
  induction hw with
  | refl => exact .start h
  | tail _ hstep ih => exact ih.step hstep

end World.Sound

/-! ## Whole calls -/

namespace World.Reached

/-- A creation takes steps one after another. -/
lemma run (counts : List Nat) (h : World.Reached root f₀ w)
    (hjob : w.jobs name = some ⟨path, contents, stage⟩) (hgoing : stage.hasSucceeded = false)
    (hrun : Stage.run path contents w.tree stage counts = (f, stage')) :
    ∃ jobs, World.Reached root f₀ ⟨f, jobs, if stage'.hasSucceeded then .create name contents :: w.past else w.past⟩ ∧
      jobs name = some ⟨path, contents, stage'⟩ := by
  induction counts generalizing w stage with
  | nil =>
    cases hrun
    rw [if_neg (by simp [hgoing])]
    exact ⟨w.jobs, h, hjob⟩
  | cons count counts ih =>
    rcases hstep : stage.step path contents count w.tree with ⟨effect, f₁, stage₁⟩
    have hrun₁ : Stage.run path contents f₁ stage₁ counts = (f, stage') := by
      rw [← hrun, Stage.run, Stage.run, List.foldl_cons, hstep]
    have hmoves := Stage.hasSucceeded_step hgoing hstep
    have hgo := h.tail (.go name count hjob hstep)
    rw [← hmoves] at hgo
    cases hdone : stage₁.hasSucceeded with
    | true =>
      obtain rfl := Stage.eq_ended_of_hasSucceeded hdone
      rw [Stage.run_ended] at hrun₁
      cases hrun₁
      exact ⟨_, hgo, Function.update_self ..⟩
    | false =>
      rw [hdone, if_neg Bool.false_ne_true] at hgo
      have hrest := ih hgo (Function.update_self ..) hdone hrun₁
      exact hrest

/-- A whole creation is made of steps, if no other of its object is going on, and moves its file if it succeeds. -/
theorem create (h : World.Reached root f₀ w) (hroot : w.tree.resolve true c.root = .ok ⟨root, slash⟩)
    (hidle : w.jobs name = none) (hcreate : FolderClient.create w.tree c name contents = (result, f)) :
    ∃ w', World.Reached root f₀ w' ∧ w'.tree = f ∧ w'.jobs name = none ∧
      w'.past = if result = .ok () then .create name contents :: w.past else w.past := by
  cases hpath : c.path name with
  | error e =>
    rw [FolderClient.create, hpath] at hcreate
    cases hcreate
    exact ⟨w, h, rfl, hidle, by simp⟩
  | ok path =>
    have hrun := Stage.run_eq_create hpath w.tree contents
      (List.replicate ((Stage.start path).left contents) 0) (by simp)
    rw [hcreate] at hrun
    have hbegun : World.Reached root f₀ (w.put name (some ⟨path, contents, .start path⟩)) :=
      h.tail (.begin name contents hroot hpath hidle)
    obtain ⟨jobs, hreached, -⟩ := hbegun.run _ (Function.update_self ..) rfl hrun
    refine ⟨_, hreached.tail (.quit name), rfl, Function.update_self .., ?_⟩
    cases result <;> rfl

/-- A whole deletion is one step, or leaves the tree as it is: what is not there is deleted already, and nothing is
deleted where it fails. -/
theorem delete (h : World.Reached root f₀ w) (hroot : w.tree.resolve true c.root = .ok ⟨root, slash⟩)
    (hdelete : FolderClient.delete w.tree c name = (result, f)) :
    f = w.tree ∨ ∃ w', World.Reached root f₀ w' ∧ w'.tree = f ∧ result = .ok () ∧ w'.past = .delete name :: w.past := by
  rw [FolderClient.delete] at hdelete
  cases hpath : c.path name with
  | error e =>
    rw [hpath] at hdelete
    cases hdelete
    exact .inl rfl
  | ok path =>
    rw [hpath] at hdelete
    dsimp only at hdelete
    cases hremove : w.tree.remove path with
    | ok f' =>
      rw [hremove] at hdelete
      cases hdelete
      exact .inr ⟨_, h.tail (.delete name hroot hpath hremove), rfl, rfl, rfl⟩
    | error e =>
      rw [hremove] at hdelete
      refine .inl ?_
      cases e <;> cases hdelete <;> rfl

end World.Reached

/-! ## What is listed -/

/-- A listing shows the objects there are. -/
lemma mem_list_iff (hsite : Site c f root) (h : f.LawfulAt root) (hlist : list f c "" = .ok names) :
    name ∈ names ↔ (∀ s ∈ ObjectName.pieces name, ObjectName.isObjectSegment s = true) ∧
      ∃ contents, object? f root (ObjectName.pieces name) = some contents := by
  obtain ⟨top, hat, hlawful⟩ := h
  rw [(lists_of_list hsite hat hlawful hlist).mem]
  constructor
  · rintro ⟨-, rel, hrel, rfl⟩
    obtain ⟨hpieces, contents, hlook⟩ := exists_contents hlawful hrel
    rw [hpieces, object?_eq_bind, Folder.look?_append hat, hlook]
    exact ⟨hrel.1, contents, rfl⟩
  · rintro ⟨hobject, contents, hholds⟩
    refine ⟨by simp [Text.startsWith], ObjectName.pieces name, ⟨hobject, ?_⟩, ObjectName.spell_pieces.symm⟩
    rw [object?_eq_bind, Folder.look?_append hat, Option.bind_eq_some_iff] at hholds
    obtain ⟨kind, hlook, hkind⟩ := hholds
    refine ⟨kind, hlook, ?_⟩
    rintro rfl
    cases hkind

/-- What an object holds it has held before, or a creation has written. -/
lemma mem_of_heldSince {before : Option ByteArray} (h : heldSince before name past = some contents) :
    .create name contents ∈ past ∨ before = some contents := by
  induction past with
  | nil => exact .inr h
  | cons request past ih =>
    have hbefore : heldSince before name past = some contents →
        .create name contents ∈ request :: past ∨ before = some contents :=
      fun he => (ih he).imp_left (List.mem_cons_of_mem _)
    rw [heldSince] at h
    cases request with
    | list => exact hbefore h
    | create n x =>
      rw [Request.revise] at h
      split_ifs at h with hn
      · cases h
        exact .inl (hn ▸ List.mem_cons_self)
      · exact hbefore h
    | delete n =>
      rw [Request.revise] at h
      split_ifs at h
      exact hbefore h

/-- The name of a hidden file is read back as its segments. -/
lemma pieces_staged (h : ObjectName.segments name = .ok (init ++ [s])) :
    ObjectName.pieces (ObjectName.spell (init ++ [ObjectName.staged s])) = init ++ [ObjectName.staged s] := by
  obtain ⟨hpieces, -⟩ := ObjectName.segments_eq_ok_iff.mp h
  have hsep : ∀ t ∈ init ++ [s], ObjectName.separator ∉ t.toList := by
    intro t ht
    rw [hpieces] at ht
    exact ObjectName.separator_not_mem_of_mem_pieces ht
  apply ObjectName.pieces_spell _ (by simp)
  intro t ht
  rcases List.mem_append.mp ht with ht | ht
  · exact hsep t (List.mem_append_left _ ht)
  · rw [List.mem_singleton.mp ht, ObjectName.mem_staged (by decide)]
    exact hsep s (by simp)

lemma World.Sound.shows (h : w.Sound f₀ root) (hroot : w.tree.resolve true c.root = .ok ⟨root, slash⟩)
    (hlist : list w.tree c "" = .ok names) : w.Shows f₀ root names := by
  have hlisted : ∀ name, name ∈ names ↔ (∀ s ∈ ObjectName.pieces name, ObjectName.isObjectSegment s = true) ∧
      ∃ contents, heldSince (object? f₀ root (ObjectName.pieces name)) name w.past = some contents := by
    intro name
    rw [mem_list_iff (.of_lawfulAt hroot h.lawful) h.lawful hlist]
    apply and_congr_right
    intro hobject
    rw [h.objects name hobject]
  refine ⟨?_, ?_, ?_⟩
  · intro name
    rw [hlisted, Option.isSome_iff_exists]
  · intro name hmem
    obtain ⟨hobject, contents, hholds⟩ := (hlisted name).mp hmem
    exact ⟨contents, (h.objects name hobject).trans hholds, hholds, mem_of_heldSince hholds⟩
  · intro name init s hname hmem
    have hobject := ((hlisted _).mp hmem).1
    rw [pieces_staged hname] at hobject
    have hstaged := hobject (ObjectName.staged s) (by simp)
    rw [ObjectName.isObjectSegment_staged] at hstaged
    cases hstaged

/-- Creations and deletions of different objects take their steps in any order, from a root without links, and
may be cut off at any time. When a creation has moved its file, its object holds what it was to write, whatever
an earlier one has left behind. At every moment, what a listing through any store on the root shows are the
objects that were there before or whose creation has moved its file, if they have not been deleted since; each
holds the whole contents of one creation, the last, or what it held before. No hidden file is shown. The steps of
a creation are together what the whole call does (`Stage.run_eq_create`), and so whole calls are among what may
happen here (`World.Reached.create`, `World.Reached.delete`). -/
theorem listed_whole (h : f₀.LawfulAt root) (hw : World.Reached root f₀ w) :
    (∀ name contents past, w.past = .create name contents :: past →
      object? w.tree root (ObjectName.pieces name) = some contents) ∧
    ∀ c slash names, w.tree.resolve true c.root = .ok ⟨root, slash⟩ → list w.tree c "" = .ok names →
      w.Shows f₀ root names := by
  have hsound := World.Sound.of_reached h hw
  refine ⟨?_, fun c slash names hroot hlist => hsound.shows hroot hlist⟩
  intro name contents past hpast
  obtain ⟨segs, hname⟩ := hsound.named name contents (by simp [hpast])
  obtain ⟨rfl, hproper⟩ := ObjectName.segments_eq_ok_iff.mp hname
  rw [hsound.objects name fun s hs => (hproper s hs).isObject, hpast, heldSince, Request.revise, if_pos rfl]

lemma Job.follow_none (job : Job) : job.follow .none = job := by
  rcases job with ⟨path, contents, stage⟩
  cases stage with
  | write file position => cases file <;> rfl
  | _ => rfl

/-- A creation takes a step that moves nothing and takes nothing away. -/
lemma World.Reached.quiet {jobs : String → Option Job} (count : Nat) (f' : Folder) (stage' : Stage)
    (h : World.Reached root f₀ (World.put ⟨f, jobs, past⟩ name (some ⟨path, contents, stage⟩)))
    (hstep : stage.step path contents count f = (.none, f', stage')) :
    World.Reached root f₀ (World.put ⟨f', jobs, past⟩ name (some ⟨path, contents, stage'⟩)) := by
  have hgo : World.Reached root f₀ _ := h.tail (.go name count (Function.update_self ..) hstep)
  simpa [World.put, World.after, Effect.moves, Job.follow_none] using hgo

/-- A creation that is cut off, and another of the same object, as a case of the theorem. -/
theorem listed_whole_after_crash :
    let c : FolderClient := ⟨⟨[.text "srv"]⟩⟩
    let root : Place := [.text "srv"]
    let tree (inside : Folder) : Folder := .folder (.text "srv") inside .empty
    let a : Folder := .file (.text "a") .empty .empty
    (tree a).LawfulAt root ∧
    (∃ w names, World.Reached root (tree a) w ∧ w.tree = tree (.file (.text ".b.tmp") ⟨#[1]⟩ a) ∧
      list w.tree c "" = .ok names ∧ w.Shows (tree a) root names ∧ "b" ∉ names) ∧
    ∃ w names, World.Reached root (tree a) w ∧ w.past = [.create "b" ⟨#[7]⟩] ∧
      object? w.tree root ["b"] = some ⟨#[7]⟩ ∧
      list w.tree c "" = .ok names ∧ w.Shows (tree a) root names ∧ "b" ∈ names := by
  intro c root tree a
  let path : FilePath := ⟨[.text "srv", .text "b"]⟩
  let file : Place := [.text "srv", .text ".b.tmp"]
  let hidden (bytes : ByteArray) : Folder := tree (.file (.text ".b.tmp") bytes a)
  have hlawful : (tree a).LawfulAt root := ⟨a, rfl, Folder.Lawful.empty.file rfl rfl⟩
  have hpath : c.path "b" = .ok path := rfl
  have hroot : (tree a).resolve true c.root = .ok ⟨root, false⟩ := rfl
  have hroot' : (hidden ⟨#[1]⟩).resolve true c.root = .ok ⟨root, false⟩ := rfl
  -- The first creation is cut off when one of two bytes is written.
  have h₁ : World.Reached root (tree a)
      (World.put ⟨tree a, fun _ => none, []⟩ "b" (some ⟨path, ⟨#[1, 2]⟩, .start path⟩)) :=
    .tail .refl (.begin "b" _ hroot hpath rfl)
  have h₂ := h₁.quiet 0 (tree a) (.check path.parent []) rfl
  have h₃ := h₂.quiet 0 (tree a) (.make []) rfl
  have h₄ := h₃.quiet 0 (hidden .empty) (.write (some file) 0) rfl
  have h₅ := h₄.quiet 0 (hidden ⟨#[1]⟩) (.write (some file) 1) rfl
  have h₆ : World.Reached root (tree a) ⟨hidden ⟨#[1]⟩, fun _ => none, []⟩ := by
    have hquit := h₅.tail (.quit "b")
    simp only [World.put, Function.update_idem] at hquit
    rwa [Function.update_eq_self_iff.mpr rfl] at hquit
  -- The second one writes over what is left.
  have h₇ : World.Reached root (tree a)
      (World.put ⟨hidden ⟨#[1]⟩, fun _ => none, []⟩ "b" (some ⟨path, ⟨#[7]⟩, .start path⟩)) :=
    h₆.tail (.begin "b" _ hroot' hpath rfl)
  have h₈ := h₇.quiet 0 (hidden ⟨#[1]⟩) (.check path.parent []) rfl
  have h₉ := h₈.quiet 0 (hidden ⟨#[1]⟩) (.make []) rfl
  have h₁₀ := h₉.quiet 0 (hidden .empty) (.write (some file) 0) rfl
  have h₁₁ := h₁₀.quiet 0 (hidden ⟨#[7]⟩) (.write (some file) 1) rfl
  have h₁₂ := h₁₁.quiet 0 (hidden ⟨#[7]⟩) .move rfl
  have hmove : (World.put ⟨hidden ⟨#[7]⟩, fun _ => none, []⟩ "b" (some ⟨path, ⟨#[7]⟩, .move⟩)).jobs "b" =
      some ⟨path, ⟨#[7]⟩, .move⟩ := by simp [World.put]
  have h₁₃ := h₁₂.tail (.go "b" 0 hmove
    (show _ = (.moved file path.pieces, tree (.file (.text "b") ⟨#[7]⟩ a), .ended (.ok ())) from rfl))
  obtain ⟨-, hshows⟩ := listed_whole hlawful h₆
  obtain ⟨hholds, hshows'⟩ := listed_whole hlawful h₁₃
  have hbefore := hshows c false _ hroot' rfl
  have hafter := hshows' c false _ rfl rfl
  refine ⟨hlawful, ⟨_, _, h₆, rfl, rfl, hbefore, ?_⟩, _, _, h₁₃, rfl, hholds "b" ⟨#[7]⟩ [] rfl, rfl, hafter, ?_⟩
  · intro hmem
    cases ((hbefore.listed "b").mp hmem).2
  · exact (hafter.listed "b").mpr ⟨by decide, rfl⟩

/-- Two names of one file, behind a link: what the one creation is still writing, the other has moved. -/
theorem half_written_behind_link :
    let c : FolderClient := ⟨⟨[.text "srv"]⟩⟩
    let root : Place := [.text "srv"]
    let tree (inside : Folder) : Folder :=
      .folder (.text "srv") (.folder (.text "e") inside (.link (.text "d") "e" .empty)) .empty
    ∃ w names, World.Reached root (tree .empty) w ∧ w.tree.resolve true c.root = .ok ⟨root, false⟩ ∧
      list w.tree c "" = .ok names ∧ "e/x" ∈ names ∧ ¬ w.Shows (tree .empty) root names ∧
      w.past = [.create "d/x" ⟨#[3]⟩] ∧
      (∃ path file, w.jobs "e/x" = some ⟨path, ⟨#[1, 2]⟩, .write file 1⟩) ∧
      object? (tree .empty) root ["e", "x"] = none ∧ object? w.tree root ["e", "x"] = some ⟨#[1]⟩ := by
  intro c root tree
  let file : Place := [.text "srv", .text "e", .text ".x.tmp"]
  let path (folder : String) : FilePath := ⟨[.text "srv", .text folder, .text "x"]⟩
  let hidden (bytes : ByteArray) : Folder := tree (.file (.text ".x.tmp") bytes .empty)
  have hroot : (tree .empty).resolve true c.root = .ok ⟨root, false⟩ := rfl
  have hroot' : (hidden ⟨#[3]⟩).resolve true c.root = .ok ⟨root, false⟩ := rfl
  have hpath : c.path "d/x" = .ok (path "d") := rfl
  have hpath' : c.path "e/x" = .ok (path "e") := rfl
  have h₁ : World.Reached root (tree .empty)
      (World.put ⟨tree .empty, fun _ => none, []⟩ "d/x" (some ⟨path "d", ⟨#[3]⟩, .start (path "d")⟩)) :=
    .tail .refl (.begin "d/x" _ hroot hpath rfl)
  have h₂ := h₁.quiet 0 (tree .empty) (.check (path "d").parent []) rfl
  have h₃ := h₂.quiet 0 (tree .empty) (.make []) rfl
  have h₄ := h₃.quiet 0 (hidden .empty) (.write (some file) 0) rfl
  have h₅ := h₄.quiet 0 (hidden ⟨#[3]⟩) (.write (some file) 1) rfl
  have h₆ := h₅.quiet 0 (hidden ⟨#[3]⟩) .move rfl
  -- The other creation opens the same file, and has written one of two bytes when it is moved.
  have h₇ : World.Reached root (tree .empty)
      (World.put ⟨hidden ⟨#[3]⟩, Function.update (fun _ => none) "d/x" (some ⟨path "d", ⟨#[3]⟩, .move⟩), []⟩ "e/x"
        (some ⟨path "e", ⟨#[1, 2]⟩, .start (path "e")⟩)) :=
    h₆.tail (.begin "e/x" _ hroot' hpath' (by simp [World.put]))
  have h₈ := h₇.quiet 0 (hidden ⟨#[3]⟩) (.check (path "e").parent []) rfl
  have h₉ := h₈.quiet 0 (hidden ⟨#[3]⟩) (.make []) rfl
  have h₁₀ := h₉.quiet 0 (hidden .empty) (.write (some file) 0) rfl
  have h₁₁ := h₁₀.quiet 0 (hidden ⟨#[1]⟩) (.write (some file) 1) rfl
  have hmove : (World.put ⟨hidden ⟨#[1]⟩, Function.update (fun _ => none) "d/x" (some ⟨path "d", ⟨#[3]⟩, .move⟩), []⟩
      "e/x" (some ⟨path "e", ⟨#[1, 2]⟩, .write (some file) 1⟩)).jobs "d/x" = some ⟨path "d", ⟨#[3]⟩, .move⟩ :=
    by simp [World.put]
  have h₁₂ := h₁₁.tail (.go "d/x" 0 hmove (show _ =
    (.moved file [.text "srv", .text "e", .text "x"], tree (.file (.text "x") ⟨#[1]⟩ .empty), .ended (.ok ())) from rfl))
  have hmem : "e/x" ∈ ["e/x", "d"].mergeSort fun a b => decide (a ≤ b) := List.mem_mergeSort.mpr (by simp)
  refine ⟨_, _, h₁₂, rfl, rfl, hmem, ?_, rfl, ⟨path "e", some [.text "srv", .text "e", .text "x"], ?_⟩, rfl, rfl⟩
  · intro hshows
    cases ((hshows.listed "e/x").mp hmem).2
  · simp [World.put, World.after, Job.follow, Stage.follow, Effect.follow, file]

end FolderClient

end StoreLock
