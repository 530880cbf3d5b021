import StoreLock.Proofs.Folder.Lawful
import StoreLock.Proofs.Folder.Steps

/-!
# What single steps change

Whatever the stage of a creation, a step changes nothing, adds a folder, changes the hidden file of its own
object, or puts this file at the place of the object (`FolderClient.Change`). The paths of all stores on the
root still lead there (`Change.site`), no links come below (`Change.lawful`), the hidden file of any other
object stays as it is, and so does the file of any other object (`Change.look?_hiddenPlace`,
`Change.object?_eq`). What a stage takes for granted, a step provides for the next stage (`Stage.Fits.step`).
-/

namespace StoreLock

/-- What a file holds. -/
def FileKind.contents? : FileKind → Option ByteArray
  | .file contents => some contents
  | _ => none

/-- A folder without links at a place, in which every name stands for one entry and holds no separator. -/
def Folder.LawfulAt (f : Folder) (root : Place) : Prop :=
  ∃ top, f.at? root = some (.folder top) ∧ top.Lawful (·.hasSeparator = false)

namespace FolderClient

/-- What is at one place below the root is changed, where no folder is. -/
structure Turn (root : Place) (f : Folder) (p : Place) (kind : Option FileKind) (f' : Folder) : Prop where
  below : ∃ q n, p = root ++ q ++ [n] ∧ n.hasSeparator = false
  look : ∀ x, f'.look? x = if x = p then kind else f.look? x
  before : f.look? p ≠ some .folder
  after : ∀ target, kind ≠ some (.link target)
  clear : ∀ top, f.at? root = some (.folder top) → top.Clear →
    ∃ top', f'.at? root = some (.folder top') ∧ top'.Clear

/-- The place of the hidden file of an object. -/
def hiddenPlace (root : Place) (init : List String) (s : String) : Place :=
  root ++ init.map .text ++ [.text (ObjectName.staged s)]

/-- The place of the file of an object. -/
def objectPlace (root : Place) (init : List String) (s : String) : Place :=
  root ++ init.map .text ++ [.text s]

/-- What a step of a creation changes, and does to open files. -/
inductive Change (root : Place) (init : List String) (s : String) (contents : ByteArray) (f : Folder) :
    Effect → Folder → Prop where
  | same : Change root init s contents f .none f
  | folder {p f'} :
    Turn root f p (some .folder) f' →
    f.look? p = none →
    (∀ init s, p ≠ hiddenPlace root init s) →
    Change root init s contents f .none f'
  | hidden {bytes f'} :
    Turn root f (hiddenPlace root init s) (some (.file bytes)) f' →
    Change root init s contents f .none f'
  | move {f₁ f'} :
    Turn root f (hiddenPlace root init s) none f₁ →
    Turn root f₁ (objectPlace root init s) (some (.file contents)) f' →
    Change root init s contents f (.moved (hiddenPlace root init s) (objectPlace root init s)) f'
  | clean {f'} :
    Turn root f (hiddenPlace root init s) none f' →
    Change root init s contents f (.removed (hiddenPlace root init s)) f'

/-- The path of a folder below the root. -/
def Inner (c : FolderClient) (path : FilePath) : Prop :=
  ∃ q n, (∀ m ∈ q ++ [n], IsSegment m) ∧ path = ⟨c.base ++ (q ++ [n])⟩

/-- What a stage of the creation of an object takes for granted. -/
def Stage.Fits (c : FolderClient) (root : Place) (init : List String) (s : String) (contents : ByteArray)
    (f : Folder) : Stage → Prop
  | .seek around missing =>
    (∃ names, (∀ n ∈ names, IsSegment n) ∧ around = FilePath.prefixes (c.base ++ names).reverse) ∧
      ∀ p ∈ missing, c.Inner p
  | .check _ missing => ∀ p ∈ missing, c.Inner p
  | .make missing => ∀ p ∈ missing, c.Inner p
  | .write file position => position ≤ contents.size ∧ file = some (hiddenPlace root init s) ∧
    f.look? (hiddenPlace root init s) = some (.file (contents.extract 0 position))
  | .move => f.look? (hiddenPlace root init s) = some (.file contents)
  | .clean _ => True
  | .ended _ => True

variable {c : FolderClient} {f f' : Folder} {root p q : Place} {n : FileName} {kind : Option FileKind}
  {init init' segs : List String} {s s' : String} {contents : ByteArray} {effect : Effect} {path : FilePath}
  {stage stage' : Stage} {around missing : List FilePath} {count : Nat}

/-! ## One place -/

lemma object?_eq_bind (f : Folder) (root : Place) (segs : List String) :
    object? f root segs = (f.look? (root ++ segs.map .text)).bind FileKind.contents? := by
  rw [object?]
  cases f.look? (root ++ segs.map .text) with
  | none => rfl
  | some kind => cases kind <;> rfl

lemma IsSegment.hasSeparator_eq_false (h : IsSegment n) : n.hasSeparator = false := by
  obtain ⟨s, rfl, -, hsep⟩ := h
  simpa [FileName.hasSeparator] using hsep

lemma hasSeparator_staged (h : IsSegment (.text s)) :
    (FileName.text (ObjectName.staged s)).hasSeparator = false := by
  have hs := h.hasSeparator_eq_false
  rw [FileName.hasSeparator, ← Bool.not_eq_true, List.contains_iff_mem] at hs ⊢
  rwa [ObjectName.mem_staged (by decide)]

namespace Turn

/-- A change of one folder below the root. -/
lemma of_modify {change : Folder → Folder} (hclear : ∀ g : Folder, g.Clear → (change g).Clear) (top : Folder)
    (hat : f.at? root = some (.folder top)) (h : top.Clear) :
    ∃ top', (f.modify change (root ++ q)).at? root = some (.folder top') ∧ top'.Clear := by
  rw [Folder.modify_append]
  exact ⟨_, Folder.at?_modify hat, h.modify hclear⟩

lemma set_folder (hp : f.look? (root ++ q) = some .folder) (hnone : f.look? (root ++ q ++ [n]) = none)
    (hn : n.hasSeparator = false) :
    Turn root f (root ++ q ++ [n]) (some .folder) (f.set (root ++ q ++ [n]) (.folder .empty)) where
  below := ⟨q, n, rfl, hn⟩
  look _ := Folder.look?_set_folder hp hnone
  before := by
    rw [hnone]
    simp
  after := by simp
  clear := by
    rw [Folder.set_append]
    apply of_modify
    intro g hg
    apply hg.insert
    rintro inside ⟨⟩
    trivial

lemma set_file (contents : ByteArray) (hp : f.look? (root ++ q) = some .folder)
    (hnot : f.look? (root ++ q ++ [n]) ≠ some .folder) (hn : n.hasSeparator = false) :
    Turn root f (root ++ q ++ [n]) (some (.file contents)) (f.set (root ++ q ++ [n]) (.file contents)) where
  below := ⟨q, n, rfl, hn⟩
  look _ := Folder.look?_set_file contents hp hnot
  before := hnot
  after := by simp
  clear := by
    rw [Folder.set_append]
    apply of_modify
    intro g hg
    apply hg.insert
    rintro inside ⟨⟩

lemma unset (hp : f.look? (root ++ q) = some .folder) (hnot : f.look? (root ++ q ++ [n]) ≠ some .folder)
    (hn : n.hasSeparator = false) : Turn root f (root ++ q ++ [n]) none (f.unset (root ++ q ++ [n])) where
  below := ⟨q, n, rfl, hn⟩
  look _ := Folder.look?_unset_leaf hp hnot
  before := hnot
  after := by simp
  clear := by
    rw [Folder.unset_append]
    exact of_modify fun g hg => hg.erase

/-- The path of the root leads there as before. -/
lemma site (h : Turn root f p kind f') (hsite : Site c f root) : Site c f' root := by
  obtain ⟨q, n, rfl, -⟩ := h.below
  exact hsite.of_place h.look h.before h.after

lemma lawful (h : Turn root f p kind f') (hf : f.LawfulAt root) : f'.LawfulAt root := by
  obtain ⟨top, hat, hlawful⟩ := hf
  obtain ⟨q, n, rfl, hn⟩ := h.below
  obtain ⟨top', hat', hclear⟩ := h.clear top hat hlawful.clear
  have hlook : ∀ x, top'.look? x = if x = q ++ [n] then kind else top.look? x := by
    intro x
    rw [← Folder.look?_append hat', ← Folder.look?_append hat, h.look]
    simp only [List.append_assoc, List.append_cancel_left_eq]
  exact ⟨top', hat', hlawful.of_place hn hclear hlook h.after⟩

/-- What an object holds depends on what is at its place. -/
lemma object?_eq (h : Turn root f p kind f') :
    object? f' root segs =
      if root ++ segs.map .text = p then kind.bind FileKind.contents? else object? f root segs := by
  rw [object?_eq_bind, object?_eq_bind, h.look]
  split_ifs <;> rfl

end Turn

/-! ## What is left alone -/

/-- No file of an object or folder is at the place of a hidden file. -/
lemma ne_hiddenPlace (h : IsSegment n) : root ++ q ++ [n] ≠ hiddenPlace root init s := by
  intro he
  obtain ⟨-, hn⟩ := List.append_inj' he rfl
  exact h.ne_staged (List.singleton_inj.mp hn)

lemma hiddenPlace_inj (h : hiddenPlace root init s = hiddenPlace root init' s') : init = init' ∧ s = s' := by
  obtain ⟨hinit, hs⟩ := List.append_inj' h rfl
  rw [List.append_cancel_left_eq, map_text_inj] at hinit
  exact ⟨hinit, ObjectName.staged_inj (FileName.text.inj (List.singleton_inj.mp hs))⟩

namespace Change

lemma site (h : Change root init s contents f effect f') (hsite : Site c f root) : Site c f' root := by
  cases h with
  | same => exact hsite
  | folder h => exact h.site hsite
  | hidden h => exact h.site hsite
  | move h h' => exact h'.site (h.site hsite)
  | clean h => exact h.site hsite

lemma lawful (h : Change root init s contents f effect f') (hf : f.LawfulAt root) : f'.LawfulAt root := by
  cases h with
  | same => exact hf
  | folder h => exact h.lawful hf
  | hidden h => exact h.lawful hf
  | move h h' => exact h'.lawful (h.lawful hf)
  | clean h => exact h.lawful hf

/-- The hidden file of another object stays what and where it is. -/
lemma look?_hiddenPlace (h : Change root init s contents f effect f') (hs : IsSegment (.text s))
    (hne : ¬ (init' = init ∧ s' = s)) :
    f'.look? (hiddenPlace root init' s') = f.look? (hiddenPlace root init' s') ∧
      effect.follow (hiddenPlace root init' s') = some (hiddenPlace root init' s') := by
  have hother : hiddenPlace root init' s' ≠ hiddenPlace root init s := fun he => hne (hiddenPlace_inj he)
  have hobject : hiddenPlace root init' s' ≠ objectPlace root init s := (ne_hiddenPlace hs).symm
  cases h with
  | same => exact ⟨rfl, rfl⟩
  | folder h _ hp => exact ⟨by rw [h.look, if_neg (hp _ _).symm], rfl⟩
  | hidden h => exact ⟨by rw [h.look, if_neg hother], rfl⟩
  | move h h' =>
    refine ⟨by rw [h'.look, if_neg hobject, h.look, if_neg hother], ?_⟩
    rw [Effect.follow, if_neg hother, if_neg hobject]
  | clean h =>
    refine ⟨by rw [h.look, if_neg hother], ?_⟩
    rw [Effect.follow, if_neg hother]

/-- No object is changed but by the move of its file, which makes it hold what was to be written. -/
lemma object?_eq (h : Change root init s contents f effect f')
    (hsegs : ∀ s ∈ segs, ObjectName.isObjectSegment s = true) :
    object? f' root segs =
      if effect.moves = true ∧ segs = init ++ [s] then some contents else object? f root segs := by
  have hhidden : root ++ segs.map .text ≠ hiddenPlace root init s := ne_of_hidden hsegs objectSegment?_staged
  have hstill : ¬ (false = true ∧ segs = init ++ [s]) := by simp
  cases h with
  | same => exact (if_neg hstill).symm
  | folder h hnone _ =>
    rw [Effect.moves, if_neg hstill, h.object?_eq]
    split_ifs with hp
    · rw [object?_eq_bind, hp, hnone]
      rfl
    · rfl
  | hidden h => rw [Effect.moves, if_neg hstill, h.object?_eq, if_neg hhidden]
  | move h h' =>
    rw [h'.object?_eq, h.object?_eq, if_neg hhidden]
    simp only [objectPlace, place_eq_iff, Effect.moves, true_and]
    rfl
  | clean h => rw [Effect.moves, if_neg hstill, h.object?_eq, if_neg hhidden]

end Change

/-! ## One step -/

/-- A folder is made where nothing is. -/
lemma Inner.change (h : c.Inner path) (hsite : Site c f root) (hf : f.makeFolder path = .ok f') :
    Change root init s contents f .none f' := by
  obtain ⟨q, n, hseg, rfl⟩ := h
  have hn : IsSegment n := hseg n (by simp)
  obtain ⟨hfolder, hnone, rfl⟩ := hsite.makeFolder_eq_ok (under_base hseg) (plain_of_isSegment hseg) hf
  exact .folder (.set_folder hfolder hnone hn.hasSeparator_eq_false) hnone fun _ _ => ne_hiddenPlace hn

/-- The folders that are looked for end with that of the root, which is there. -/
lemma Site.makeFolder_around {around : List FilePath} (h : Site c f root)
    (haround : ∃ names, (∀ n ∈ names, IsSegment n) ∧
      path :: around = FilePath.prefixes (c.base ++ names).reverse) :
    (c.Inner path ∧ ∃ names, (∀ n ∈ names, IsSegment n) ∧
      around = FilePath.prefixes (c.base ++ names).reverse) ∨
    ∃ e, f.makeFolder path = .error e ∧ e ≠ .notFound := by
  obtain ⟨names, hnames, he⟩ := haround
  rcases List.eq_nil_or_concat names with rfl | ⟨names, n, rfl⟩
  · right
    obtain ⟨rest, hrest⟩ := FilePath.exists_prefixes c.base.reverse
    rw [List.append_nil, hrest] at he
    obtain ⟨rfl, -⟩ := List.cons_eq_cons.mp he
    obtain ⟨e, hmake, hne, -⟩ := h.makeFolder_home
    exact ⟨e, hmake, hne⟩
  · left
    rw [List.concat_eq_append] at he hnames
    rw [← List.append_assoc, FilePath.prefixes_concat (hnames n (by simp)).not_stays] at he
    obtain ⟨rfl, rfl⟩ := List.cons_eq_cons.mp he
    rw [List.append_assoc]
    exact ⟨⟨names, n, hnames, rfl⟩, names, fun m hm => hnames m (List.mem_append_left _ hm), rfl⟩

/-- The hidden file is opened in the folder around the object. -/
lemma Site.openFile_staging {place : Place} (h : Site c f root) (hinit : ∀ n ∈ init.map FileName.text, IsSegment n)
    (hs : IsSegment (.text s))
    (hf : f.openFile (staging ⟨c.base ++ init.map .text ++ [FileName.text s]⟩) = .ok (place, f')) :
    place = hiddenPlace root init s ∧ Turn root f (hiddenPlace root init s) (some (.file .empty)) f' := by
  obtain ⟨rfl, -, hwrite⟩ := Folder.openFile_eq_ok hf
  obtain ⟨hfolder, hnot, -⟩ := h.writeFile_eq_ok (under_staging hinit hs) (plain_staged hinit) (hwrite .empty)
  have hplace : place = hiddenPlace root init s := by
    rw [Folder.openFile] at hf
    rcases h.resolve_concat true (under_staging hinit hs) (plain_staged hinit) with ⟨hres, -⟩ | ⟨e, hres, -⟩
    · rw [hres] at hf
      dsimp only at hf
      split_ifs at hf
      split at hf
      case h_1 => cases hf
      case h_2 =>
        cases hf
        rfl
    · rw [hres] at hf
      cases hf
  subst hplace
  exact ⟨rfl, .set_file .empty hfolder hnot (hasSeparator_staged hs)⟩

/-- The hidden file goes to the place of the object. -/
lemma Site.rename_staging (h : Site c f root) (hinit : ∀ n ∈ init.map FileName.text, IsSegment n)
    (hs : IsSegment (.text s)) (hfile : f.look? (hiddenPlace root init s) = some (.file contents))
    (hf : f.rename (staging ⟨c.base ++ init.map .text ++ [FileName.text s]⟩)
      ⟨c.base ++ init.map .text ++ [FileName.text s]⟩ = .ok f') :
    Change root init s contents f
      (moving f (staging ⟨c.base ++ init.map .text ++ [FileName.text s]⟩)
        ⟨c.base ++ init.map .text ++ [FileName.text s]⟩) f' := by
  obtain ⟨hunder, hplain⟩ := under_object (c := c) hinit hs
  have hstaging := under_staging (c := c) hinit hs
  have heffect : moving f (staging ⟨c.base ++ init.map .text ++ [FileName.text s]⟩)
      ⟨c.base ++ init.map .text ++ [FileName.text s]⟩ =
      .moved (hiddenPlace root init s) (objectPlace root init s) := by
    rw [Folder.rename] at hf
    rw [moving]
    rcases h.resolve_concat false hstaging (plain_staged hinit) with ⟨hres, -⟩ | ⟨e, hres, -⟩
    case inr =>
      rw [hres] at hf
      cases hf
    rcases h.resolve_concat false hunder hplain with ⟨hres', -⟩ | ⟨e, hres', -⟩
    case inr =>
      rw [hres, hres'] at hf
      cases hf
    rw [hres, hres']
    rfl
  obtain ⟨hfolder, hnot, rfl⟩ := h.rename_eq_ok hstaging (plain_staged hinit) hunder hplain hfile hf
  have hturn : Turn root f (hiddenPlace root init s) none (f.unset (hiddenPlace root init s)) :=
    .unset hfolder (by rw [← hiddenPlace, hfile]; simp) (hasSeparator_staged hs)
  rw [heffect]
  refine .move hturn (.set_file contents ?_ ?_ hs.hasSeparator_eq_false)
  · rw [hturn.look, if_neg (by simp [hiddenPlace]), hfolder]
  · rw [hturn.look, if_neg (ne_hiddenPlace hs)]
    exact hnot

/-- A file below the root is taken away. -/
lemma Site.remove_turn (h : Site c f root) (hu : c.Under path (q ++ [n])) (hn : Plain (q ++ [n]))
    (hsep : n.hasSeparator = false) (hf : f.remove path = .ok f') :
    Turn root f (root ++ q ++ [n]) none f' ∧ removing f path = .removed (root ++ q ++ [n]) := by
  obtain ⟨hfolder, hnot, rfl⟩ := h.remove_eq_ok hu hn hf
  refine ⟨.unset hfolder hnot hsep, ?_⟩
  rw [Folder.remove] at hf
  rw [removing]
  rcases h.resolve_concat false hu hn with ⟨hres, -⟩ | ⟨e, hres, -⟩
  · rw [hres]
  · rw [hres] at hf
    cases hf

namespace Stage.Fits

/-- A creation begins with the folders around its file. -/
lemma start (hinit : ∀ n ∈ init.map FileName.text, IsSegment n) (hs : IsSegment (.text s)) :
    (Stage.start ⟨c.base ++ init.map .text ++ [FileName.text s]⟩).Fits c root init s contents f := by
  refine ⟨⟨init.map .text, hinit, FilePath.parent_cons_around hs.not_stays⟩, ?_⟩
  intro p hp
  cases hp

/-- An attempt at a folder makes none but in a folder below the root. -/
lemma attempt {otherwise : FileFault → Stage} (hsite : Site c f root)
    (hp : c.Inner path ∨ ∃ e, f.makeFolder path = .error e) (hmissing : ∀ p ∈ missing, c.Inner p)
    (hother : ∀ e, f.makeFolder path = .error e → (otherwise e).Fits c root init s contents f)
    (hstep : Stage.attempt path missing otherwise f = (effect, f', stage')) :
    Change root init s contents f effect f' ∧ stage'.Fits c root init s contents f' := by
  rcases attempt_cases path missing otherwise f with ⟨f₁, hmake, he⟩ | ⟨hmake, he⟩ | ⟨e, hmake, -, he⟩
  · cases he.symm.trans hstep
    rcases hp with hp | ⟨e, hfail⟩
    · exact ⟨hp.change hsite hmake, hmissing⟩
    · cases hfail.symm.trans hmake
  · cases he.symm.trans hstep
    exact ⟨.same, hmissing⟩
  · cases he.symm.trans hstep
    exact ⟨.same, hother e hmake⟩

lemma seek (h : (Stage.seek around missing).Fits c root init s contents f) (hsite : Site c f root)
    (hstep : (Stage.seek around missing).step path contents count f = (effect, f', stage')) :
    Change root init s contents f effect f' ∧ stage'.Fits c root init s contents f' := by
  obtain ⟨haround, hmissing⟩ := h
  cases around with
  | nil =>
    cases hstep
    exact ⟨.same, hmissing⟩
  | cons p around =>
    have hcases := hsite.makeFolder_around haround
    refine attempt hsite (hcases.imp And.left fun ⟨e, he, _⟩ => ⟨e, he⟩) hmissing ?_ hstep
    intro e hmake
    by_cases he : e = .notFound
    · rw [if_pos he]
      rcases hcases with ⟨hp, haround⟩ | ⟨e', hmake', hne⟩
      · exact ⟨haround, List.forall_mem_cons.mpr ⟨hp, hmissing⟩⟩
      · cases hmake.symm.trans hmake'
        exact absurd he hne
    · rw [if_neg he]
      trivial

lemma make (h : (Stage.make missing).Fits c root init s contents f) (hsite : Site c f root)
    (hinit : ∀ n ∈ init.map FileName.text, IsSegment n) (hs : IsSegment (.text s))
    (hstep : (Stage.make missing).step ⟨c.base ++ init.map .text ++ [FileName.text s]⟩ contents count f =
      (effect, f', stage')) :
    Change root init s contents f effect f' ∧ stage'.Fits c root init s contents f' := by
  cases missing with
  | nil =>
    rw [Stage.step] at hstep
    cases hopen : f.openFile (staging ⟨c.base ++ init.map .text ++ [FileName.text s]⟩) with
    | ok opened =>
      obtain ⟨place, f₁⟩ := opened
      rw [hopen] at hstep
      cases hstep
      obtain ⟨rfl, hturn⟩ := hsite.openFile_staging hinit hs hopen
      refine ⟨.hidden hturn, Nat.zero_le _, rfl, ?_⟩
      rw [hturn.look, if_pos rfl]
      simp
    | error e =>
      rw [hopen] at hstep
      cases hstep
      exact ⟨.same, trivial⟩
  | cons p missing =>
    obtain ⟨hp, hmissing⟩ := List.forall_mem_cons.mp h
    refine attempt hsite (.inl hp) hmissing ?_ hstep
    intro _ _
    trivial

lemma write {file : Option Place} {position : Nat}
    (h : (Stage.write file position).Fits c root init s contents f) (hs : IsSegment (.text s))
    (hstep : (Stage.write file position).step path contents count f = (effect, f', stage')) :
    Change root init s contents f effect f' ∧ stage'.Fits c root init s contents f' := by
  obtain ⟨hsize, rfl, hfile⟩ := h
  rw [Stage.step] at hstep
  split_ifs at hstep with hmore
  · have hle : position ≤ min (position + count + 1) contents.size := by lia
    dsimp only at hstep
    rw [Folder.writeAt_extract (Folder.look?_eq_file.mp hfile) hle hsize] at hstep
    cases hstep
    have hfolder : f.look? (root ++ init.map .text) = some .folder := by
      apply Folder.look?_of_append
      rw [← hiddenPlace, hfile]
      simp
    have hturn := Turn.set_file (contents.extract 0 (min (position + count + 1) contents.size)) hfolder
      (by rw [← hiddenPlace, hfile]; simp) (hasSeparator_staged hs)
    exact ⟨.hidden hturn, min_le_right _ _, rfl, (hturn.look _).trans (if_pos rfl)⟩
  · cases hstep
    rw [extract_of_not_lt hsize hmore] at hfile
    exact ⟨.same, hfile⟩

/-- A step changes what it may, and provides what the next stage takes for granted. -/
theorem step (h : stage.Fits c root init s contents f) (hsite : Site c f root)
    (hinit : ∀ n ∈ init.map FileName.text, IsSegment n) (hs : IsSegment (.text s))
    (hstep : stage.step ⟨c.base ++ init.map .text ++ [FileName.text s]⟩ contents count f = (effect, f', stage')) :
    Change root init s contents f effect f' ∧ stage'.Fits c root init s contents f' := by
  cases stage with
  | seek around missing => exact h.seek hsite hstep
  | check p missing =>
    rw [Stage.step] at hstep
    split_ifs at hstep
    · cases hstep
      exact ⟨.same, h⟩
    · cases hstep
      exact ⟨.same, trivial⟩
  | make missing => exact h.make hsite hinit hs hstep
  | write file position => exact h.write hs hstep
  | move =>
    rw [Stage.step] at hstep
    cases hmove : f.rename (staging ⟨c.base ++ init.map .text ++ [FileName.text s]⟩)
      ⟨c.base ++ init.map .text ++ [FileName.text s]⟩ with
    | ok f₁ =>
      rw [hmove] at hstep
      cases hstep
      exact ⟨hsite.rename_staging hinit hs h hmove, trivial⟩
    | error e =>
      rw [hmove] at hstep
      cases hstep
      exact ⟨.same, trivial⟩
  | clean e =>
    rw [Stage.step] at hstep
    cases hremove : f.remove (staging ⟨c.base ++ init.map .text ++ [FileName.text s]⟩) with
    | ok f₁ =>
      rw [hremove] at hstep
      cases hstep
      obtain ⟨hturn, heffect⟩ :=
        hsite.remove_turn (under_staging hinit hs) (plain_staged hinit) (hasSeparator_staged hs) hremove
      exact ⟨heffect ▸ .clean hturn, trivial⟩
    | error e' =>
      rw [hremove] at hstep
      cases hstep
      exact ⟨.same, trivial⟩
  | ended result =>
    cases hstep
    exact ⟨.same, trivial⟩

/-- A call that fails for a reason of its own leaves a stage that takes no more for granted. -/
lemma fail (e : FileFault) (stage : Stage) : (stage.fail e).Fits c root init s contents f := by
  cases stage <;> exact trivial

/-- What a stage takes for granted is not touched where the hidden file stays what and where it is. -/
lemma follow (h : stage.Fits c root init s contents f)
    (hlook : f'.look? (hiddenPlace root init s) = f.look? (hiddenPlace root init s))
    (hfollow : effect.follow (hiddenPlace root init s) = some (hiddenPlace root init s)) :
    (stage.follow effect).Fits c root init s contents f' := by
  cases stage with
  | write file position =>
    obtain ⟨hsize, rfl, hfile⟩ := h
    exact ⟨hsize, hfollow, hlook.trans hfile⟩
  | move => exact hlook.trans h
  | _ => exact h

end Stage.Fits

end FolderClient

end StoreLock
