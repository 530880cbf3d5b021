import StoreLock.Proofs.Folder.Change

/-!
# Listing files

A listing walks the folders below one that the text names in full, and enters only those whose names agree
with the text. Leaving out the others loses nothing: what a walk gives is what there is of files behind that
folder, as far as their names start with the text (`FolderClient.walk_eq`). So a listing that succeeds gives
the names of all objects that start with the text, in their order and each once (`list_spec`).
-/

namespace StoreLock

namespace FolderClient

/-- The segments of all files in a folder and below. -/
def files : Folder → List (List String)
  | .empty => []
  | .file name _ rest => (objectSegment? name).toList.map ([·]) ++ files rest
  | .link name _ rest => (objectSegment? name).toList.map ([·]) ++ files rest
  | .folder name inside rest =>
    (objectSegment? name).toList.flatMap (fun s => (files inside).map (s :: ·)) ++ files rest

/-- A text does not go on behind a folder in which a name is that starts with it, or it names the folder in
full. -/
def Cuts (start base : String) : Prop :=
  ∀ s r : String, ObjectName.separator ∉ s.toList →
    Text.startsWith (base ++ s ++ ObjectName.separator.toString ++ r) start = true →
      Text.startsWith (base ++ s ++ ObjectName.separator.toString) start = true

variable {c : FolderClient} {f f₀ g : Folder} {root : Place} {n : FileName} {start base : String}
  {path : FilePath} {rel segs : List String} {s : String} {names : List String}

lemma eq_text_of_objectSegment? (h : objectSegment? n = some s) :
    n = .text s ∧ ObjectName.isObjectSegment s = true := by
  cases n with
  | bytes => cases h
  | text name =>
    rw [objectSegment?] at h
    split_ifs at h with hs
    cases h
    exact ⟨rfl, hs⟩

lemma objectSegment?_text (h : ObjectName.isObjectSegment s = true) :
    objectSegment? (.text s) = some s := by
  rw [objectSegment?, if_pos h]

/-! ## Files in a folder -/

/-- What is there with names of segments, but for folders. -/
def IsFileAt (look : Place → Option FileKind) (rel : List String) : Prop :=
  (∀ s ∈ rel, ObjectName.isObjectSegment s = true) ∧
    ∃ kind, look (rel.map .text) = some kind ∧ kind ≠ .folder

lemma not_isFileAt_nil : ¬ IsFileAt g.look? [] := by
  intro h
  obtain ⟨-, kind, hk, hne⟩ := h
  rw [List.map_nil, Folder.look?_nil] at hk
  exact hne (Option.some.inj hk).symm

/-- What is in a folder is what is in its first entry and what is in the others. -/
lemma exists_kind_entry {rest : Folder} (kinds : FileKind → Prop) (node : FileNode) (hn : rest.find? n = none)
    (hg : ∀ m, g.find? m = if n = m then some node else rest.find? m) :
    ((∀ s' ∈ s :: rel, ObjectName.isObjectSegment s' = true) ∧
        ∃ kind, g.look? ((s :: rel).map .text) = some kind ∧ kinds kind) ↔
      (objectSegment? n = some s ∧ (∀ s' ∈ rel, ObjectName.isObjectSegment s' = true) ∧
        ∃ kind, node.look? (rel.map .text) = some kind ∧ kinds kind) ∨
      (∀ s' ∈ s :: rel, ObjectName.isObjectSegment s' = true) ∧
        ∃ kind, rest.look? ((s :: rel).map .text) = some kind ∧ kinds kind := by
  simp only [List.map_cons, Folder.look?_cons, hg, List.forall_mem_cons]
  by_cases hns : n = .text s
  · subst hns
    rw [if_pos rfl, hn, Option.bind_some, Option.bind_none]
    simp only [reduceCtorEq, false_and, exists_false, and_false, or_false]
    constructor
    · intro h
      exact ⟨objectSegment?_text h.1.1, h.1.2, h.2⟩
    · intro h
      exact ⟨⟨(eq_text_of_objectSegment? h.1).2, h.2.1⟩, h.2.2⟩
  · rw [if_neg hns]
    have hne : objectSegment? n ≠ some s := fun h => hns (eq_text_of_objectSegment? h).1
    simp only [hne, false_and, false_or]

lemma isFileAt_entry {rest : Folder} (node : FileNode) (hn : rest.find? n = none)
    (hg : ∀ m, g.find? m = if n = m then some node else rest.find? m) :
    IsFileAt g.look? (s :: rel) ↔
      (objectSegment? n = some s ∧ IsFileAt node.look? rel) ∨ IsFileAt rest.look? (s :: rel) :=
  exists_kind_entry (· ≠ .folder) node hn hg

/-- An entry that is no folder is one more file. -/
lemma mem_files_leaf {rest : Folder} (node : FileNode) (hn : rest.find? n = none)
    (hg : ∀ m, g.find? m = if n = m then some node else rest.find? m)
    (hleaf : ∀ m r, node.look? (m :: r) = none)
    (hk : ∃ kind, node.look? [] = some kind ∧ kind ≠ .folder)
    (hrest : ∀ rel, rel ∈ files rest ↔ IsFileAt rest.look? rel) :
    rel ∈ (objectSegment? n).toList.map ([·]) ++ files rest ↔ IsFileAt g.look? rel := by
  cases rel with
  | nil => simp [hrest, not_isFileAt_nil]
  | cons s rel =>
    have hnode : IsFileAt node.look? rel ↔ rel = [] := by
      cases rel with
      | nil => simpa [IsFileAt] using hk
      | cons s rel => simp [IsFileAt, hleaf]
    rw [isFileAt_entry node hn hg, hnode, List.mem_append, hrest]
    simp [eq_comm]

/-- A walk through a folder finds all files. -/
theorem mem_files (h : g.Clear) : rel ∈ files g ↔ IsFileAt g.look? rel := by
  induction g generalizing rel with
  | empty =>
    cases rel with
    | nil => simp [files, not_isFileAt_nil]
    | cons s rel => simp [files, IsFileAt, Folder.look?_cons, Folder.find?]
  | file name contents rest ih =>
    exact mem_files_leaf (.file contents) h.1 (fun _ => rfl) (fun _ _ => rfl)
      ⟨_, rfl, by simp [FileNode.kind]⟩ fun _ => ih h.2
  | link name target rest ih =>
    exact mem_files_leaf (.link target) h.1 (fun _ => rfl) (fun _ _ => rfl)
      ⟨_, rfl, by simp [FileNode.kind]⟩ fun _ => ih h.2
  | folder name inside rest ihi ih =>
    cases rel with
    | nil => simp [files, not_isFileAt_nil, ih h.2.2]
    | cons s rel =>
      have hin : IsFileAt (FileNode.folder inside).look? rel ↔ IsFileAt inside.look? rel := by
        simp only [IsFileAt, FileNode.look?]
      rw [isFileAt_entry (.folder inside) h.1 (fun _ => rfl), hin, ← ihi h.2.1, files,
        List.mem_append, ih h.2.2]
      simp [and_comm]

lemma files_ne_nil (h : g.Clear) (hr : rel ∈ files g) : rel ≠ [] := by
  intro hnil
  rw [hnil, mem_files h] at hr
  exact not_isFileAt_nil hr

/-- What is found in one entry is not found in the others. -/
lemma not_mem_files (h : g.Clear) (hn : g.find? n = none) (hs : objectSegment? n = some s) :
    s :: rel ∉ files g := by
  intro hmem
  obtain ⟨-, kind, hk, -⟩ := (mem_files h).mp hmem
  rw [List.map_cons, Folder.look?_cons, ← (eq_text_of_objectSegment? hs).1, hn] at hk
  cases hk

/-- No file is found twice. -/
theorem nodup_files (h : g.Clear) : (files g).Nodup := by
  induction g with
  | empty => exact List.nodup_nil
  | file name contents rest ih =>
    rw [files]
    cases hs : objectSegment? name with
    | none => exact ih h.2
    | some s => exact List.nodup_cons.mpr ⟨not_mem_files h.2 h.1 hs, ih h.2⟩
  | link name target rest ih =>
    rw [files]
    cases hs : objectSegment? name with
    | none => exact ih h.2
    | some s => exact List.nodup_cons.mpr ⟨not_mem_files h.2 h.1 hs, ih h.2⟩
  | folder name inside rest ihi ih =>
    rw [files]
    cases hs : objectSegment? name with
    | none => exact ih h.2.2
    | some s =>
      simp only [Option.toList_some, List.flatMap_singleton]
      apply List.Nodup.append ((ihi h.2.1).map (List.cons_injective)) (ih h.2.2)
      intro rel hin hrest
      obtain ⟨rel', -, rfl⟩ := List.mem_map.mp hin
      exact not_mem_files h.2.2 h.1 hs hrest

/-! ## Walks -/

lemma cuts_of_startsWith (h : Text.startsWith base start = true) : Cuts start base := by
  intro s r _ _
  obtain ⟨rest, hr⟩ := List.isPrefixOf_iff_prefix.mp h
  rw [Text.startsWith, List.isPrefixOf_iff_prefix, String.toList_append, String.toList_append, ← hr,
    List.append_assoc, List.append_assoc]
  exact List.prefix_append _ _

/-- The names behind a folder that start with a text. -/
def spelled (start base : String) (found : List (List String)) : List String :=
  (found.map fun rel => base ++ ObjectName.spell rel).filter (Text.startsWith · start)

lemma spelled_append (found found' : List (List String)) :
    spelled start base (found ++ found') = spelled start base found ++ spelled start base found' := by
  rw [spelled, List.map_append, List.filter_append, spelled, spelled]

lemma listFile_eq :
    listFile start base n = spelled start base ((objectSegment? n).toList.map ([·])) := by
  rw [listFile]
  cases objectSegment? n with
  | none => rfl
  | some s => simp [spelled, List.filter_cons]

/-- The names behind a folder in it are those behind the longer base. -/
lemma spelled_cons {found : List (List String)} (h : ∀ rel ∈ found, rel ≠ []) :
    spelled start base (found.map (s :: ·)) =
      spelled start (base ++ s ++ ObjectName.separator.toString) found := by
  rw [spelled, spelled, List.map_map]
  congr 1
  apply List.map_congr_left
  intro rel hr
  rw [Function.comp_apply, ObjectName.spell_cons (h rel hr)]
  simp only [String.append_assoc]

/-- A walk on from an entry that is no folder. -/
lemma walk_leaf {walked : Except FileFault (List String)}
    (hw : walked.map (listFile start base n ++ ·) = .ok names) :
    ∃ outer, walked = .ok outer ∧
      names = spelled start base ((objectSegment? n).toList.map ([·])) ++ outer := by
  cases walked with
  | error => cases hw
  | ok outer =>
    cases hw
    exact ⟨outer, rfl, by rw [listFile_eq]⟩

/-- What a walk gives are the names of the files behind the folder that start with the text. -/
theorem walk_eq (hg : g.Clear) (hcuts : Cuts start base)
    (hsep : ∀ rel ∈ files g, ∀ s ∈ rel, ObjectName.separator ∉ s.toList)
    (hw : walk start base path g = .ok names) : names = spelled start base (files g) := by
  induction g generalizing base path names with
  | empty =>
    cases hw
    rfl
  | file name contents rest ih =>
    obtain ⟨outer, hrest, rfl⟩ := walk_leaf hw
    rw [files, spelled_append,
      ← ih hg.2 hcuts (fun rel hr => hsep rel (List.mem_append_right _ hr)) hrest]
  | link name target rest ih =>
    obtain ⟨outer, hrest, rfl⟩ := walk_leaf hw
    rw [files, spelled_append,
      ← ih hg.2 hcuts (fun rel hr => hsep rel (List.mem_append_right _ hr)) hrest]
  | folder name inside rest ihi ih =>
    rw [walk] at hw
    split at hw
    case h_1 inner outer hbelow hrest =>
      cases hw
      have hsep' := fun rel hr => hsep rel (List.mem_append_right _ hr)
      rw [files, spelled_append, ← ih hg.2.2 hcuts hsep' hrest]
      congr 1
      cases hs : objectSegment? name with
      | none =>
        rw [hs] at hbelow
        cases hbelow
        rfl
      | some s =>
        rw [hs] at hbelow
        have hne : ∀ rel ∈ files inside, rel ≠ [] := fun rel => files_ne_nil hg.2.1
        have hmem : ∀ rel ∈ files inside, s :: rel ∈ files (.folder name inside rest) := by
          intro rel hr
          rw [files, hs]
          exact List.mem_append_left _ (by simpa using hr)
        simp only [Option.toList_some, List.flatMap_singleton]
        dsimp only at hbelow
        split_ifs at hbelow with hstart hlong
        · have hsepi : ∀ rel ∈ files inside, ∀ s' ∈ rel, ObjectName.separator ∉ s'.toList :=
            fun rel hr s' hs' => hsep _ (hmem rel hr) s' (List.mem_cons_of_mem _ hs')
          rw [spelled_cons hne]
          exact ihi hg.2.1 (cuts_of_startsWith hstart) hsepi hbelow
        · -- The folder is left out: no name in it starts with the text.
          cases hbelow
          rw [spelled, eq_comm, List.filter_eq_nil_iff]
          intro n hn hstart'
          obtain ⟨rel', hr', rfl⟩ := List.mem_map.mp hn
          obtain ⟨rel, hr, rfl⟩ := List.mem_map.mp hr'
          apply hstart
          apply hcuts s (ObjectName.spell rel) (hsep _ (hmem rel hr) s List.mem_cons_self)
          rw [ObjectName.spell_cons (hne rel hr)] at hstart'
          simpa only [String.append_assoc] using hstart'
    case h_2 => cases hw
    case h_3 => cases hw

/-! ## Listings -/

/-- What all names behind a folder with these segments begin with. -/
def stem (segs : List String) : String :=
  if segs = [] then "" else ObjectName.spell segs ++ ObjectName.separator.toString

lemma stem_append (h : rel ≠ []) : stem segs ++ ObjectName.spell rel = ObjectName.spell (segs ++ rel) := by
  rw [stem]
  split_ifs with hs
  · rw [hs, List.nil_append, String.empty_append]
  · rw [ObjectName.spell_append hs h]

/-- Different files in a folder have different names. -/
lemma nodup_spelled {inside : Folder} (hc : inside.Clear)
    (hsep : ∀ rel ∈ files inside, ∀ s ∈ segs ++ rel, ObjectName.separator ∉ s.toList) :
    (spelled start (stem segs) (files inside)).Nodup := by
  apply List.Nodup.filter
  apply List.Nodup.map_on _ (nodup_files hc)
  intro rel hrel rel' hrel' he
  have hne := files_ne_nil hc hrel
  have hne' := files_ne_nil hc hrel'
  rw [stem_append hne, stem_append hne'] at he
  have hpieces := ObjectName.pieces_spell (hsep rel hrel) (by simp [hne])
  rw [he, ObjectName.pieces_spell (hsep rel' hrel') (by simp [hne'])] at hpieces
  exact (List.append_cancel_left hpieces).symm

/-- The pieces of a text behind a folder are the segments of the folder, and more. -/
lemma exists_pieces {n : String} (hs : ∀ s ∈ segs, ObjectName.separator ∉ s.toList)
    (h : Text.startsWith n (stem segs) = true) :
    ∃ rel, rel ≠ [] ∧ ObjectName.pieces n = segs ++ rel ∧ n = stem segs ++ ObjectName.spell rel := by
  by_cases hnil : segs = []
  · subst hnil
    exact ⟨ObjectName.pieces n, ObjectName.pieces_ne_nil, rfl, by
      rw [stem, if_pos rfl, String.empty_append, ObjectName.spell_pieces]⟩
  · obtain ⟨rest, hr⟩ := List.isPrefixOf_iff_prefix.mp h
    rw [stem, if_neg hnil] at hr
    have he : n = String.ofList ((ObjectName.spell segs).toList ++ ObjectName.separator :: rest) := by
      apply String.toList_injective
      rw [← hr]
      simp
    have hp : ObjectName.pieces n = segs ++ ObjectName.pieces (String.ofList rest) := by
      rw [he, ObjectName.pieces_append, String.ofList_toList, ObjectName.pieces_spell hs hnil]
    refine ⟨_, ObjectName.pieces_ne_nil, hp, ?_⟩
    rw [stem_append ObjectName.pieces_ne_nil, ← hp, ObjectName.spell_pieces]

/-- A name behind a folder has the segments of the folder, and more. -/
lemma exists_rel {n : String} (hn : ObjectName.segments n = .ok names)
    (hs : ∀ s ∈ segs, ObjectName.separator ∉ s.toList) (h : Text.startsWith n (stem segs) = true) :
    ∃ rel, rel ≠ [] ∧ names = segs ++ rel ∧ n = stem segs ++ ObjectName.spell rel := by
  obtain ⟨rfl, -⟩ := ObjectName.segments_eq_ok_iff.mp hn
  exact exists_pieces hs h

lemma isPrefix_of_not_mem {t u r : List Char} {sep : Char} (h : t <+: u ++ sep :: r) (ht : sep ∉ t) :
    t <+: u := by
  rcases List.prefix_or_prefix_of_prefix h (List.prefix_append u (sep :: r)) with hp | ⟨v, rfl⟩
  · exact hp
  · rw [List.prefix_append_right_inj] at h
    cases v with
    | nil => simp
    | cons x v =>
      rw [List.cons_prefix_cons] at h
      exact absurd (by simp [h.1]) ht

/-- A text that holds no separator behind a folder does not go on in one of the folders in it. -/
lemma cuts_append {tail : String} (h : ObjectName.separator ∉ tail.toList) :
    Cuts (base ++ tail) base := by
  intro s r _ hstart
  rw [Text.startsWith, List.isPrefixOf_iff_prefix] at hstart ⊢
  simp only [String.toList_append, List.append_assoc, List.prefix_append_right_inj] at hstart ⊢
  have hsep : ObjectName.separator.toString.toList = [ObjectName.separator] := rfl
  rw [hsep, List.singleton_append] at hstart
  exact (isPrefix_of_not_mem hstart h).trans (List.prefix_append _ _)

namespace Rooted

lemma clear_at {inside : Folder} {q : Place} (hr : Rooted f₀ root f)
    (hat : f.at? (root ++ q) = some (.folder inside)) : inside.Clear := by
  obtain ⟨g, hg⟩ := Folder.look?_eq_folder.mp hr.folder
  rw [Folder.at?_append hg] at hat
  exact (hr.clear g hg).at? hat

/-- What is below the root under names of segments is where an object can be. -/
lemma proper_of_look (hr : Rooted f₀ root f) (h : f.look? (root ++ segs.map .text) ≠ none)
    (hobject : ∀ s ∈ segs, ObjectName.isObjectSegment s = true) :
    ∀ s ∈ segs, ObjectName.Proper s ∧ ObjectName.separator ∉ s.toList := by
  intro s hs
  obtain ⟨a, b, rfl⟩ := List.append_of_mem hs
  have hlook : f.look? (root ++ (a.map .text ++ [.text s])) ≠ none := by
    rw [List.map_append, List.map_cons, List.append_cons, ← List.append_assoc] at h
    cases b with
    | nil => simpa using h
    | cons m b =>
      rw [List.map_cons] at h
      rw [Folder.look?_of_append h]
      exact Option.some_ne_none _
  rcases hr.named _ _ hlook with ⟨s', he, hp, hsep⟩ | ⟨hhidden, -⟩
  · cases he
    exact ⟨hp, hsep⟩
  · rw [objectSegment?_text (hobject s hs)] at hhidden
    cases hhidden

/-- The objects behind a folder are the files in it and below. -/
lemma mem_files_iff {inside : Folder} (hr : Rooted f₀ root f)
    (hat : f.at? (root ++ segs.map .text) = some (.folder inside))
    (hs : ∀ s ∈ segs, ObjectName.Proper s) :
    rel ∈ files inside ↔
      rel ≠ [] ∧ (∀ s ∈ segs ++ rel, ObjectName.Proper s ∧ ObjectName.separator ∉ s.toList) ∧
        object? f root (segs ++ rel) ≠ none := by
  have hclear := hr.clear_at hat
  have hlook : f.look? (root ++ (segs ++ rel).map .text) = inside.look? (rel.map .text) := by
    rw [List.map_append, ← List.append_assoc, Folder.look?_append hat]
  rw [mem_files hclear]
  constructor
  · intro hfile
    have hne : rel ≠ [] := by
      intro hnil
      rw [hnil] at hfile
      exact not_isFileAt_nil hfile
    obtain ⟨hobject, kind, hk, hkind⟩ := hfile
    rw [← hlook] at hk
    refine ⟨hne, ?_, ?_⟩
    · apply hr.proper_of_look (by rw [hk]; exact Option.some_ne_none _)
      intro s hmem
      rcases List.mem_append.mp hmem with hmem | hmem
      · exact (hs s hmem).isObject
      · exact hobject s hmem
    · rw [object?, hk]
      cases kind with
      | file => exact Option.some_ne_none _
      | link target => exact absurd hk (hr.links _ target)
      | folder => exact absurd rfl hkind
  · intro hfile
    obtain ⟨-, hproper, hobject⟩ := hfile
    refine ⟨fun s hmem => (hproper s (List.mem_append_right _ hmem)).1.isObject, ?_⟩
    rw [object?, hlook] at hobject
    split at hobject
    case h_1 contents hfile => exact ⟨_, hfile, by simp⟩
    case h_2 => exact absurd rfl hobject

end Rooted

/-- The path of the folder with these segments; without any, that of the root. -/
def folderPath (c : FolderClient) (segs : List String) : FilePath :=
  if segs = [] then c.root else ⟨c.base ++ segs.map .text⟩

/-- What a listing does behind a folder. -/
def listBehind (f : Folder) (start base : String) (path : FilePath) : Except StoreError (List String) :=
  match f.readFolder path with
  | .error .notFound => .ok []
  | .error e => .error (.file e)
  | .ok inside =>
    match walk start base path inside with
    | .error e => .error (.file e)
    | .ok names => .ok (names.mergeSort fun a b => decide (a ≤ b))

/-- The segments of the innermost folder that a text names in full, which is the root or what stands before the
last separator of the text. -/
inductive NamesFolder : String → List String → Prop
  | root {tail} :
    ObjectName.separator ∉ tail.toList →
    NamesFolder tail []
  | below {folder segs tail} :
    ObjectName.segments folder = .ok segs →
    ObjectName.separator ∉ tail.toList →
    NamesFolder (folder ++ ObjectName.separator.toString ++ tail) segs

lemma exists_namesFolder (hl : list f c start = .ok names) : ∃ segs, NamesFolder start segs := by
  rw [list] at hl
  cases hcut : Text.splitLast ObjectName.separator start.toList with
  | none => exact ⟨[], .root (Text.not_mem_of_splitLast_eq_none hcut)⟩
  | some cut =>
    obtain ⟨folder, tail⟩ := cut
    rw [hcut] at hl
    dsimp only at hl
    cases hsegs : ObjectName.segments (String.ofList folder) with
    | error fault =>
      rw [path, hsegs] at hl
      cases hl
    | ok segs =>
      have hstart : start = String.ofList folder ++ ObjectName.separator.toString ++ String.ofList tail := by
        apply String.toList_injective
        rw [Text.eq_append_of_splitLast hcut]
        simp
      have htail : ObjectName.separator ∉ (String.ofList tail).toList := by
        rw [String.toList_ofList]
        exact Text.not_mem_of_splitLast hcut
      exact ⟨segs, hstart ▸ .below hsegs htail⟩

namespace NamesFolder

lemma proper (h : NamesFolder start segs) :
    ∀ s ∈ segs, ObjectName.Proper s ∧ ObjectName.separator ∉ s.toList := by
  cases h with
  | root => nofun
  | below hsegs =>
    obtain ⟨rfl, hproper⟩ := ObjectName.segments_eq_ok_iff.mp hsegs
    exact fun s hs => ⟨hproper s hs, ObjectName.separator_not_mem_of_mem_pieces hs⟩

/-- A listing goes on behind the innermost folder that the text names in full. -/
lemma list_eq (h : NamesFolder start segs) (f : Folder) (c : FolderClient) :
    list f c start = listBehind f start (stem segs) (c.folderPath segs) := by
  rw [list]
  cases h with
  | root htail =>
    rw [Text.splitLast_eq_none htail]
    rfl
  | @below folder _ tail hsegs htail =>
    have hcut : Text.splitLast ObjectName.separator
        (folder ++ ObjectName.separator.toString ++ tail).toList = some (folder.toList, tail.toList) := by
      rw [← Text.splitLast_append folder.toList htail]
      simp
    obtain ⟨rfl, -⟩ := ObjectName.segments_eq_ok_iff.mp hsegs
    rw [hcut]
    dsimp only
    rw [String.ofList_toList, path, hsegs, stem, if_neg ObjectName.pieces_ne_nil, folderPath,
      if_neg ObjectName.pieces_ne_nil, ObjectName.spell_pieces]
    rfl

lemma exists_tail (h : NamesFolder start segs) :
    ∃ tail, start = stem segs ++ tail ∧ ObjectName.separator ∉ tail.toList := by
  cases h with
  | root htail => exact ⟨start, String.empty_append.symm, htail⟩
  | @below folder _ tail hsegs htail =>
    obtain ⟨rfl, -⟩ := ObjectName.segments_eq_ok_iff.mp hsegs
    refine ⟨tail, ?_, htail⟩
    rw [stem, if_neg ObjectName.pieces_ne_nil, ObjectName.spell_pieces]

end NamesFolder

lemma listBehind_eq_ok (hl : listBehind f start base path = .ok names) :
    (f.readFolder path = .error .notFound ∧ names = []) ∨
      ∃ inside found, f.readFolder path = .ok inside ∧ walk start base path inside = .ok found ∧
        names = found.mergeSort fun a b => decide (a ≤ b) := by
  rw [listBehind] at hl
  split at hl
  case h_1 hf =>
    cases hl
    exact .inl ⟨hf, rfl⟩
  case h_2 => cases hl
  case h_3 inside hf =>
    split at hl
    case h_1 => cases hl
    case h_2 found hw =>
      cases hl
      exact .inr ⟨inside, found, hf, hw, rfl⟩

/-- The path of a folder leads to the place of the folder, or nowhere. -/
lemma Site.readFolder_folderPath (h : Site c f root)
    (hs : ∀ s ∈ segs, ObjectName.Proper s ∧ ObjectName.separator ∉ s.toList) :
    (∀ inside, f.readFolder (c.folderPath segs) = .ok inside →
      f.at? (root ++ segs.map .text) = some (.folder inside)) ∧
    (f.readFolder (c.folderPath segs) = .error .notFound → f.look? (root ++ segs.map .text) = none) := by
  by_cases hnil : segs = []
  · obtain ⟨g, hat, hread⟩ := h.readFolder
    rw [hnil, folderPath, if_pos rfl, hread, List.map_nil, List.append_nil]
    constructor
    · intro inside he
      cases he
      exact hat
    · simp
  · have hseg : ∀ n ∈ segs.map FileName.text, IsSegment n := by
      intro n hn
      obtain ⟨s, hmem, rfl⟩ := List.mem_map.mp hn
      exact ⟨s, rfl, hs s hmem⟩
    rw [folderPath, if_neg hnil, Folder.readFolder]
    rcases h.resolve true (under_base hseg) (plain_of_isSegment hseg) (by simpa using hnil) with
      ⟨hres, -⟩ | ⟨e, hres, hnone⟩
    · rw [hres]
      dsimp only
      split
      case h_1 hat => exact ⟨by simp, fun _ => by rw [Folder.look?, hat, Option.map_none]⟩
      case h_2 inside hat =>
        constructor
        · intro inside' he
          cases he
          exact hat
        · simp
      case h_3 => exact ⟨by simp, by simp⟩
    · rw [hres]
      exact ⟨by simp, fun he => hnone (Except.error.inj he)⟩

lemma startsWith_stem {tail n : String} (h : Text.startsWith n (stem segs ++ tail) = true) :
    Text.startsWith n (stem segs) = true := by
  rw [Text.startsWith, List.isPrefixOf_iff_prefix, String.toList_append] at h
  rw [Text.startsWith, List.isPrefixOf_iff_prefix]
  exact (List.prefix_append _ _).trans h

namespace Rooted

variable {inside : Folder} {name tail : String}

/-- The name of a file in a folder has the segments of the folder and those of the file. -/
lemma segments_of_mem_files (hr : Rooted f₀ root f)
    (hat : f.at? (root ++ segs.map .text) = some (.folder inside))
    (hs : ∀ s ∈ segs, ObjectName.Proper s) (hrel : rel ∈ files inside) :
    ObjectName.segments (stem segs ++ ObjectName.spell rel) = .ok (segs ++ rel) := by
  obtain ⟨hne, hproper, -⟩ := (hr.mem_files_iff hat hs).mp hrel
  rw [stem_append hne]
  exact ObjectName.segments_spell hproper (by simp [hne])

/-- Among the names behind a folder that start with a text are those of all objects there. -/
lemma mem_spelled_iff (hr : Rooted f₀ root f)
    (hat : f.at? (root ++ segs.map .text) = some (.folder inside))
    (hs : ∀ s ∈ segs, ObjectName.Proper s ∧ ObjectName.separator ∉ s.toList) :
    name ∈ spelled (stem segs ++ tail) (stem segs) (files inside) ↔
      Text.startsWith name (stem segs ++ tail) = true ∧
        ∃ segs', ObjectName.segments name = .ok segs' ∧ object? f root segs' ≠ none := by
  have hproper : ∀ s ∈ segs, ObjectName.Proper s := fun s hmem => (hs s hmem).1
  rw [spelled, List.mem_filter, List.mem_map, and_comm]
  apply and_congr_right
  intro hstart
  constructor
  · intro h
    obtain ⟨rel, hrel, rfl⟩ := h
    exact ⟨_, hr.segments_of_mem_files hat hproper hrel, ((hr.mem_files_iff hat hproper).mp hrel).2.2⟩
  · intro h
    obtain ⟨segs', hsegs, hobject⟩ := h
    obtain ⟨rel, hne, rfl, rfl⟩ := exists_rel hsegs (fun s hmem => (hs s hmem).2) (startsWith_stem hstart)
    refine ⟨rel, (hr.mem_files_iff hat hproper).mpr ⟨hne, ?_, hobject⟩, rfl⟩
    obtain ⟨he, hall⟩ := ObjectName.segments_eq_ok_iff.mp hsegs
    intro s hmem
    refine ⟨hall s hmem, ?_⟩
    rw [he] at hmem
    exact ObjectName.separator_not_mem_of_mem_pieces hmem

/-- No object is behind a folder that is missing. -/
lemma object?_eq_none (h : f.look? (root ++ segs.map .text) = none) (hne : rel ≠ []) :
    object? f root (segs ++ rel) = none := by
  obtain ⟨s, rel, rfl⟩ := List.exists_cons_of_ne_nil hne
  have hlook : f.look? (root ++ (segs ++ s :: rel).map .text) = none := by
    by_contra hsome
    rw [List.map_append, List.map_cons, ← List.append_assoc] at hsome
    rw [Folder.look?_of_append hsome] at h
    cases h
  rw [object?, hlook]

end Rooted

/-- Texts in which none is there twice are put in their order. -/
lemma pairwise_mergeSort {l : List String} (h : l.Nodup) :
    (l.mergeSort fun a b => decide (a ≤ b)).Pairwise (· < ·) := by
  have hnodup : (l.mergeSort fun a b => decide (a ≤ b)).Nodup :=
    (List.mergeSort_perm l _).nodup_iff.mpr h
  exact (List.sortedLE_mergeSort.sortedLT_of_nodup hnodup).pairwise

/-- A listing that succeeds gives the names of the objects that start with the text, in their order and each
once. -/
theorem list_spec (h : Opening c f₀ root) (hr : Rooted f₀ root f) (hl : list f c start = .ok names) :
    names.Pairwise (· < ·) ∧ ∀ n, n ∈ names ↔ Text.startsWith n start = true ∧
      ∃ segs, ObjectName.segments n = .ok segs ∧ object? f root segs ≠ none := by
  obtain ⟨segs, hstart⟩ := exists_namesFolder hl
  have hs := hstart.proper
  rw [hstart.list_eq] at hl
  obtain ⟨tail, rfl, hsep⟩ := hstart.exists_tail
  have hproper : ∀ s ∈ segs, ObjectName.Proper s := fun s hmem => (hs s hmem).1
  obtain ⟨hread, hmissing⟩ := (h.site hr).readFolder_folderPath hs
  rcases listBehind_eq_ok hl with ⟨hf, rfl⟩ | ⟨inside, found, hf, hw, rfl⟩
  · -- All names that start with the text are behind the folder, which is missing.
    refine ⟨List.Pairwise.nil, fun n => ⟨nofun, ?_⟩⟩
    intro hn
    obtain ⟨hbehind, segs', hsegs, hobject⟩ := hn
    obtain ⟨rel, hne, rfl, -⟩ := exists_rel hsegs (fun s hmem => (hs s hmem).2) (startsWith_stem hbehind)
    exact absurd (Rooted.object?_eq_none (hmissing hf) hne) hobject
  · have hat := hread inside hf
    have hclear := hr.clear_at hat
    have hseparator : ∀ rel ∈ files inside, ∀ s ∈ segs ++ rel, ObjectName.separator ∉ s.toList :=
      fun rel hrel s hmem => (((hr.mem_files_iff hat hproper).mp hrel).2.1 s hmem).2
    have hfound := walk_eq hclear (cuts_append hsep)
      (fun rel hrel s hmem => hseparator rel hrel s (List.mem_append_right _ hmem)) hw
    rw [hfound]
    refine ⟨pairwise_mergeSort (nodup_spelled hclear hseparator), fun n => ?_⟩
    rw [(List.mergeSort_perm _ _).mem_iff, hr.mem_spelled_iff hat hs]

end FolderClient

end StoreLock
