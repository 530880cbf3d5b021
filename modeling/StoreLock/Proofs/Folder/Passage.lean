import StoreLock.Proofs.Folder.Listing

/-!
# Which folders a walk enters

A walk enters the folders whose ways have no hidden names and whose names, with a separator behind them, start with
the text (`FolderClient.Enters`). It fails if and only if the path of one of these is too long for the system
(`FolderClient.walk_cases`).
-/

namespace StoreLock

namespace FolderClient

/-- A folder whose way has no hidden names. -/
def IsFolderAt (look : Place → Option FileKind) (rel : List String) : Prop :=
  (∀ s ∈ rel, ObjectName.isObjectSegment s = true) ∧ look (rel.map .text) = some .folder

/-- A folder with these segments that a walk enters. -/
structure Enters (start base : String) (look : Place → Option FileKind) (rel : List String) : Prop where
  below : rel ≠ []
  folder : IsFolderAt look rel
  agrees : Text.startsWith (base ++ stem rel) start = true

variable {g inside rest : Folder} {n : FileName} {start base s : String} {path : FilePath} {rel : List String}
  {contents : ByteArray} {target : String}

lemma isFolderAt_iff {look : Place → Option FileKind} :
    IsFolderAt look rel ↔ (∀ s ∈ rel, ObjectName.isObjectSegment s = true) ∧
      ∃ kind, look (rel.map .text) = some kind ∧ kind = .folder := by
  simp [IsFolderAt]

/-- The folders in a folder are those in its first entry and those in the others. -/
lemma isFolderAt_entry (node : FileNode) (hn : rest.find? n = none)
    (hg : ∀ m, g.find? m = if n = m then some node else rest.find? m) :
    IsFolderAt g.look? (s :: rel) ↔
      (objectSegment? n = some s ∧ IsFolderAt node.look? rel) ∨ IsFolderAt rest.look? (s :: rel) := by
  rw [isFolderAt_iff, isFolderAt_iff, isFolderAt_iff]
  exact exists_kind_entry (· = .folder) node hn hg

lemma isFolderAt_nil : IsFolderAt g.look? [] :=
  ⟨nofun, Folder.look?_nil⟩

lemma isFolderAt_empty : IsFolderAt Folder.empty.look? rel ↔ rel = [] := by
  constructor
  · rintro ⟨-, hfolder⟩
    cases rel with
    | nil => rfl
    | cons s rel =>
      rw [List.map_cons, Folder.look?_cons] at hfolder
      cases hfolder
  · rintro rfl
    exact isFolderAt_nil

/-- No folder is at an entry that is no folder and has none in it. -/
lemma isFolderAt_leaf (node : FileNode) (hn : rest.find? n = none)
    (hg : ∀ m, g.find? m = if n = m then some node else rest.find? m)
    (hleaf : ∀ q, node.look? q ≠ some .folder) : IsFolderAt g.look? rel ↔ IsFolderAt rest.look? rel := by
  cases rel with
  | nil => exact iff_of_true isFolderAt_nil isFolderAt_nil
  | cons s rel =>
    rw [isFolderAt_entry node hn hg, or_iff_right]
    exact fun h => hleaf _ h.2.2

lemma isFolderAt_file {name : FileName} (hn : rest.find? name = none) :
    IsFolderAt (Folder.file name contents rest).look? rel ↔ IsFolderAt rest.look? rel := by
  apply isFolderAt_leaf (.file contents) hn fun _ => rfl
  rintro (- | ⟨m, q⟩) h <;> cases h

lemma isFolderAt_link {name : FileName} (hn : rest.find? name = none) :
    IsFolderAt (Folder.link name target rest).look? rel ↔ IsFolderAt rest.look? rel := by
  apply isFolderAt_leaf (.link target) hn fun _ => rfl
  rintro (- | ⟨m, q⟩) h <;> cases h

/-- A folder is in the first entry, if this is one, or among the others. -/
lemma isFolderAt_folder {name : FileName} (hn : rest.find? name = none) :
    IsFolderAt (Folder.folder name inside rest).look? rel ↔
      (∃ s more, rel = s :: more ∧ objectSegment? name = some s ∧ IsFolderAt inside.look? more) ∨
      IsFolderAt rest.look? rel := by
  cases rel with
  | nil => exact iff_of_true isFolderAt_nil (.inr isFolderAt_nil)
  | cons s rel =>
    have hin : IsFolderAt (FileNode.folder inside).look? rel ↔ IsFolderAt inside.look? rel := by
      simp only [IsFolderAt, FileNode.look?]
    rw [isFolderAt_entry (.folder inside) hn (fun _ => rfl), hin]
    simp [and_comm]

lemma stem_cons : stem (s :: rel) = s ++ ObjectName.separator.toString ++ stem rel := by
  cases rel with
  | nil => simp [stem]
  | cons s' rel =>
    rw [stem, if_neg (List.cons_ne_nil _ _), stem, if_neg (List.cons_ne_nil _ _),
      ObjectName.spell_cons (List.cons_ne_nil _ _)]
    simp only [String.append_assoc]

/-- What is entered depends on nothing but which folders there are. -/
lemma Enters.congr {look look' : Place → Option FileKind} (hiff : ∀ rel, IsFolderAt look rel ↔ IsFolderAt look' rel) :
    Enters start base look rel ↔ Enters start base look' rel :=
  ⟨fun h => ⟨h.below, (hiff rel).mp h.folder, h.agrees⟩, fun h => ⟨h.below, (hiff rel).mpr h.folder, h.agrees⟩⟩

/-- A folder is entered if it is an entry whose name agrees with the text, or is in such an entry and entered from
there, or is among the others. -/
lemma enters_folder {name : FileName} (hn : rest.find? name = none) (hcuts : Cuts start base)
    (hsep : ∀ s, objectSegment? name = some s → ObjectName.separator ∉ s.toList) :
    Enters start base (Folder.folder name inside rest).look? rel ↔
      (∃ s more, rel = s :: more ∧ objectSegment? name = some s ∧
        Text.startsWith (base ++ s ++ ObjectName.separator.toString) start = true ∧
        (more = [] ∨ Enters start (base ++ s ++ ObjectName.separator.toString) inside.look? more)) ∨
      Enters start base rest.look? rel := by
  have hbase (s : String) (more : List String) :
      base ++ stem (s :: more) = base ++ s ++ ObjectName.separator.toString ++ stem more := by
    rw [stem_cons]
    simp only [String.append_assoc]
  constructor
  · intro h
    rcases (isFolderAt_folder hn).mp h.folder with ⟨s, more, rfl, hs, hfolder⟩ | hrest
    · have hagrees := h.agrees
      rw [hbase] at hagrees
      refine .inl ⟨s, more, rfl, hs, hcuts s _ (hsep s hs) hagrees, ?_⟩
      by_cases hnil : more = []
      · exact .inl hnil
      · exact .inr ⟨hnil, hfolder, hagrees⟩
    · exact .inr ⟨h.below, hrest, h.agrees⟩
  · rintro (⟨s, more, rfl, hs, hagrees, hmore⟩ | h)
    · have hfolder : IsFolderAt inside.look? more ∧
          Text.startsWith (base ++ s ++ ObjectName.separator.toString ++ stem more) start = true := by
        rcases hmore with rfl | hmore
        · exact ⟨isFolderAt_nil, by simpa [stem] using hagrees⟩
        · exact ⟨hmore.folder, hmore.agrees⟩
      refine ⟨List.cons_ne_nil _ _, (isFolderAt_folder hn).mpr (.inl ⟨s, more, rfl, hs, hfolder.1⟩), ?_⟩
      rw [hbase]
      exact hfolder.2
    · exact ⟨h.below, (isFolderAt_folder hn).mpr (.inr h.folder), h.agrees⟩

/-- The path of the folder with these segments in the folder of a path. -/
def pathBelow (path : FilePath) (rel : List String) : FilePath :=
  rel.foldl (fun path s => path.child (.text s)) path

lemma pathBelow_cons : pathBelow path (s :: rel) = pathBelow (path.child (.text s)) rel :=
  rfl

/-- A walk gives names and the system takes the paths of all folders that it enters, or the walk fails because the
system does not take one of them. -/
def Passes (entered : List String → Prop) (path : FilePath) (walked : Except FileFault (List String)) : Prop :=
  ((∃ names, walked = .ok names) ∧ ∀ rel, entered rel → (pathBelow path rel).isTooLong = false) ∨
    (walked = .error .nameTooLong ∧ ∃ rel, entered rel ∧ (pathBelow path rel).isTooLong = true)

lemma Passes.congr {entered entered' : List String → Prop} {walked : Except FileFault (List String)}
    (h : Passes entered path walked) (hiff : ∀ rel, entered' rel ↔ entered rel) : Passes entered' path walked := by
  rcases h with ⟨hok, hall⟩ | ⟨herror, rel, hrel, hlong⟩
  · exact .inl ⟨hok, fun rel hrel => hall rel ((hiff rel).mp hrel)⟩
  · exact .inr ⟨herror, rel, (hiff rel).mpr hrel, hlong⟩

lemma Passes.map {entered : List String → Prop} {walked : Except FileFault (List String)}
    (h : Passes entered path walked) (more : List String → List String) : Passes entered path (walked.map more) := by
  rcases h with ⟨⟨names, rfl⟩, hall⟩ | ⟨rfl, hlong⟩
  · exact .inl ⟨⟨_, rfl⟩, hall⟩
  · exact .inr ⟨rfl, hlong⟩

/-- A walk through one entry and then the others. -/
lemma Passes.and {entered entered' : List String → Prop} {walked walked' : Except FileFault (List String)} :
    Passes entered path walked → Passes entered' path walked' →
      Passes (fun rel => entered rel ∨ entered' rel) path
        (match walked, walked' with
          | .ok inner, .ok outer => .ok (inner ++ outer)
          | .error e, _ => .error e
          | .ok _, .error e => .error e) := by
  intro h h'
  rcases h with ⟨⟨names, rfl⟩, hall⟩ | ⟨rfl, rel, hrel, hlong⟩
  · rcases h' with ⟨⟨names', rfl⟩, hall'⟩ | ⟨rfl, rel, hrel, hlong⟩
    · exact .inl ⟨⟨_, rfl⟩, fun rel hrel => hrel.elim (hall rel) (hall' rel)⟩
    · exact .inr ⟨rfl, rel, .inr hrel, hlong⟩
  · exact .inr ⟨rfl, rel, .inl hrel, hlong⟩

/-- What is among the other entries is in the folder. -/
lemma look?_of_rest {q : Place} (node : FileNode) (hn : rest.find? n = none)
    (hg : ∀ m, g.find? m = if n = m then some node else rest.find? m) (hq : rest.look? q ≠ none) :
    g.look? q ≠ none := by
  cases q with
  | nil => simp
  | cons m q =>
    rw [Folder.look?_cons] at hq ⊢
    rw [hg, if_neg]
    · exact hq
    · rintro rfl
      rw [hn] at hq
      exact hq rfl

/-- A walk through one folder, if its name agrees with the text. -/
lemma passes_entry {name : FileName} (hinside : ∀ s, objectSegment? name = some s →
      Text.startsWith (base ++ s ++ ObjectName.separator.toString) start = true →
      Passes (Enters start (base ++ s ++ ObjectName.separator.toString) inside.look?) (path.child name)
        (walk start (base ++ s ++ ObjectName.separator.toString) (path.child name) inside)) :
    Passes (fun rel => ∃ s more, rel = s :: more ∧ objectSegment? name = some s ∧
        Text.startsWith (base ++ s ++ ObjectName.separator.toString) start = true ∧
        (more = [] ∨ Enters start (base ++ s ++ ObjectName.separator.toString) inside.look? more)) path
      (match objectSegment? name with
        | none => .ok []
        | some segment =>
          let nested := base ++ segment ++ ObjectName.separator.toString
          if ¬ Text.startsWith nested start then .ok []
          else if (path.child name).isTooLong then .error .nameTooLong
          else walk start nested (path.child name) inside) := by
  cases hs : objectSegment? name with
  | none =>
    refine .inl ⟨⟨[], rfl⟩, ?_⟩
    rintro rel ⟨s, more, -, h, -⟩
    cases h
  | some s =>
    have hbelow (more : List String) : pathBelow path (s :: more) = pathBelow (path.child name) more := by
      rw [pathBelow_cons, ← (eq_text_of_objectSegment? hs).1]
    dsimp only
    by_cases hstart : Text.startsWith (base ++ s ++ ObjectName.separator.toString) start = true
    · rw [if_neg (not_not.mpr hstart)]
      by_cases hlong : (path.child name).isTooLong = true
      · rw [if_pos hlong]
        refine .inr ⟨rfl, [s], ⟨s, [], rfl, rfl, hstart, .inl rfl⟩, ?_⟩
        rw [hbelow]
        exact hlong
      · rw [if_neg hlong]
        rcases hinside s hs hstart with ⟨hok, hall⟩ | ⟨herror, more, hmore, hlong'⟩
        · refine .inl ⟨hok, ?_⟩
          rintro rel ⟨s', more, rfl, h, -, hmore⟩
          cases h
          rw [hbelow]
          rcases hmore with rfl | hmore
          · exact Bool.not_eq_true _ ▸ hlong
          · exact hall more hmore
        · refine .inr ⟨herror, s :: more, ⟨s, more, rfl, rfl, hstart, .inr hmore⟩, ?_⟩
          rw [hbelow]
          exact hlong'
    · rw [if_pos hstart]
      refine .inl ⟨⟨[], rfl⟩, ?_⟩
      rintro rel ⟨s', more, -, h, hs', -⟩
      cases h
      exact absurd hs' hstart

/-- A walk gives names, and the system takes the paths of all folders that it enters, or it does not take one of them
and the walk fails for that. -/
theorem walk_cases (hg : g.Clear) (hcuts : Cuts start base)
    (hsep : ∀ q, g.look? q ≠ none → ∀ s, .text s ∈ q → ObjectName.separator ∉ s.toList) :
    Passes (Enters start base g.look?) path (walk start base path g) := by
  induction g generalizing base path with
  | empty =>
    refine .inl ⟨⟨[], rfl⟩, ?_⟩
    intro rel hrel
    exact absurd (isFolderAt_empty.mp hrel.folder) hrel.below
  | file name contents rest ih =>
    have hrest : Passes (Enters start base rest.look?) path (walk start base path rest) := ih hg.2 hcuts fun q hq =>
      hsep q (look?_of_rest (.file contents) hg.1 (fun _ => rfl) hq)
    exact (hrest.map _).congr fun _ => Enters.congr fun _ => isFolderAt_file hg.1
  | link name target rest ih =>
    have hrest : Passes (Enters start base rest.look?) path (walk start base path rest) := ih hg.2 hcuts fun q hq =>
      hsep q (look?_of_rest (.link target) hg.1 (fun _ => rfl) hq)
    exact (hrest.map _).congr fun _ => Enters.congr fun _ => isFolderAt_link hg.1
  | folder name inside rest ihi ih =>
    obtain ⟨hn, hinside, hclear⟩ := hg
    have hrest : Passes (Enters start base rest.look?) path (walk start base path rest) := ih hclear hcuts fun q hq =>
      hsep q (look?_of_rest (.folder inside) hn (fun _ => rfl) hq)
    have hname : ∀ s, objectSegment? name = some s → ObjectName.separator ∉ s.toList := by
      intro s hs
      apply hsep [name] _ s
      · rw [(eq_text_of_objectSegment? hs).1]
        exact List.mem_singleton_self _
      · rw [Folder.look?_cons, Folder.find?, if_pos rfl]
        simp [FileNode.look?]
    rw [walk]
    refine Passes.congr (Passes.and (passes_entry ?_) hrest) fun _ => enters_folder hn hcuts hname
    intro s hs hstart
    have hfind : (Folder.folder name inside rest).find? (.text s) = some (.folder inside) := by
      rw [Folder.find?, if_pos (eq_text_of_objectSegment? hs).1]
    apply ihi hinside (cuts_of_startsWith hstart)
    intro q hq s' hs'
    exact hsep (.text s :: q) (by rwa [Folder.look?_cons, hfind]) s' (List.mem_cons_of_mem _ hs')

end FolderClient

end StoreLock
