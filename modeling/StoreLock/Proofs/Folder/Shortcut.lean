import StoreLock.Proofs.Folder.Lawful
import StoreLock.Proofs.Folder.Missing
import StoreLock.Proofs.Folder.Passage

/-!
# Listings that start below the root

A listing does not walk the whole tree: it starts in the innermost folder that its text names in full, and enters
only folders whose names agree with the text. In any tree without links, whoever has made it and whatever else is in
it, this loses nothing: a listing that succeeds gives what a listing of everything gives, as far as it starts with the
text. It succeeds if and only if the system takes the paths of the folders that it looks into
(`FolderClient.list_eq_filter`).
-/

namespace StoreLock

namespace FolderClient

/-- A file stands at the place of the folder with these segments, or on the way there. -/
def Barred (top : Folder) (segs : List String) : Prop :=
  ∃ above contents, above <+: segs ∧ top.look? (above.map .text) = some (.file contents)

/-- The names of all files in a folder and below that start with a text, in the order of their bytes. -/
structure Lists (top : Folder) (start : String) (names : List String) : Prop where
  sorted : names.Pairwise fun a b => Text.toUtf8 a < Text.toUtf8 b
  mem : ∀ name, name ∈ names ↔ Text.startsWith name start = true ∧
    ∃ rel, IsFileAt top.look? rel ∧ name = ObjectName.spell rel

/-- A listing looks into the folder that its text names in full, whose segments are `segs`, and into every folder
whose name, with a separator behind it, starts with the text. -/
def LooksInto (top : Folder) (start : String) (segs rel : List String) : Prop :=
  rel = segs ∨ (IsFolderAt top.look? rel ∧ Text.startsWith (stem rel) start = true)

variable {c : FolderClient} {f top inside : Folder} {root : Place} {path : FilePath}
  {start base name tail : String}
  {rel segs : List String} {s : String} {names all : List String}

/-! ## The path of a folder -/

lemma folderPath_of_ne_nil (h : segs ≠ []) : c.folderPath segs = c.root.descend (segs.map .text) := by
  rw [folderPath, if_neg h]
  rfl

lemma reaching_folderPath (hnul : c.root.pieces.any FileName.hasNul = false)
    (hs : ∀ s ∈ segs, ObjectName.Proper s ∧ ObjectName.separator ∉ s.toList) (hne : segs ≠ []) :
    Reaching c segs (c.folderPath segs) := by
  have hname := ObjectName.segments_spell hs hne
  apply reaching hnul hname
  rw [FolderClient.path, hname, folderPath_of_ne_nil hne]

lemma child_folderPath (hs : ∀ s ∈ segs, FileName.text s ≠ .text "") (n : String) :
    (c.folderPath segs).child (.text n) = c.folderPath (segs ++ [n]) := by
  rcases List.eq_nil_or_concat segs with rfl | ⟨init, s, rfl⟩
  · simp [folderPath, FilePath.child, FilePath.descend, base]
  · rw [List.concat_eq_append] at hs ⊢
    have hslash : (FilePath.mk (c.base ++ (init ++ [s]).map .text)).endsInSlash = false := by
      rw [List.map_append, List.map_singleton, ← List.append_assoc]
      exact endsInSlash_concat (hs s (by simp))
    rw [folderPath, if_neg (by simp), folderPath, if_neg (by simp), FilePath.child, FilePath.descend, hslash]
    simp

lemma pathBelow_folderPath {more : List String} (hs : ∀ s ∈ segs ++ more, FileName.text s ≠ .text "") :
    pathBelow (c.folderPath segs) more = c.folderPath (segs ++ more) := by
  induction more generalizing segs with
  | nil =>
    rw [List.append_nil]
    rfl
  | cons s more ih =>
    have hrest : pathBelow (c.folderPath (segs ++ [s])) more = c.folderPath (segs ++ [s] ++ more) :=
      ih (by rwa [← List.append_cons])
    rw [pathBelow_cons, child_folderPath fun s' hmem => hs s' (List.mem_append_left _ hmem), hrest, ← List.append_cons]

/-! ## Files behind a folder -/

lemma isFileAt_append (hat : top.at? (segs.map .text) = some (.folder inside))
    (hs : ∀ s ∈ segs, ObjectName.isObjectSegment s = true) :
    IsFileAt top.look? (segs ++ rel) ↔ IsFileAt inside.look? rel := by
  rw [IsFileAt, IsFileAt, List.map_append, Folder.look?_append hat, List.forall_mem_append]
  exact and_congr_left fun _ => and_iff_right hs

/-- A file whose name starts with all that names behind a folder start with is behind that folder. -/
lemma exists_behind (h : top.Lawful (·.hasSeparator = false)) (hrel : IsFileAt top.look? rel)
    (hs : ∀ s ∈ segs, ObjectName.separator ∉ s.toList)
    (hstart : Text.startsWith (ObjectName.spell rel) (stem segs) = true) :
    ∃ more, more ≠ [] ∧ rel = segs ++ more := by
  obtain ⟨more, hne, hpieces, -⟩ := exists_pieces hs hstart
  have hnil : rel ≠ [] := by
    rintro rfl
    exact not_isFileAt_nil hrel
  obtain ⟨-, kind, hlook, -⟩ := hrel
  have hsep := h.separator_not_mem (by rw [hlook]; exact Option.some_ne_none kind)
  rw [ObjectName.pieces_spell hsep hnil] at hpieces
  exact ⟨more, hne, hpieces⟩

/-- The names behind a folder that start with a text are the names of all files that do. -/
lemma mem_spelled_files (h : top.Lawful (·.hasSeparator = false))
    (hat : top.at? (segs.map .text) = some (.folder inside))
    (hs : ∀ s ∈ segs, ObjectName.Proper s ∧ ObjectName.separator ∉ s.toList) :
    name ∈ spelled (stem segs ++ tail) (stem segs) (files inside) ↔
      Text.startsWith name (stem segs ++ tail) = true ∧
        ∃ rel, IsFileAt top.look? rel ∧ name = ObjectName.spell rel := by
  have hclear := h.clear.at? hat
  have hobject : ∀ s ∈ segs, ObjectName.isObjectSegment s = true := fun s hmem => (hs s hmem).1.isObject
  rw [spelled, List.mem_filter, List.mem_map, and_comm]
  apply and_congr_right
  intro hstart
  constructor
  · intro hmem
    obtain ⟨rel, hrel, rfl⟩ := hmem
    refine ⟨segs ++ rel, ?_, stem_append (files_ne_nil hclear hrel)⟩
    rw [isFileAt_append hat hobject, ← mem_files hclear]
    exact hrel
  · intro hmem
    obtain ⟨rel, hrel, rfl⟩ := hmem
    obtain ⟨more, hne, rfl⟩ :=
      exists_behind h hrel (fun s hmem => (hs s hmem).2) (startsWith_stem hstart)
    refine ⟨more, ?_, stem_append hne⟩
    rw [mem_files hclear, ← isFileAt_append hat hobject]
    exact hrel

/-- No separator is in the segments of the files behind a folder. -/
lemma separator_not_mem_behind (h : top.Lawful (·.hasSeparator = false))
    (hat : top.at? (segs.map .text) = some (.folder inside))
    (hs : ∀ s ∈ segs, ObjectName.isObjectSegment s = true) :
    ∀ rel ∈ files inside, ∀ s ∈ segs ++ rel, ObjectName.separator ∉ s.toList := by
  intro rel hrel
  rw [mem_files (h.clear.at? hat), ← isFileAt_append hat hs] at hrel
  obtain ⟨-, kind, hlook, -⟩ := hrel
  exact h.separator_not_mem (by rw [hlook]; exact Option.some_ne_none kind)

/-! ## Folders that a listing looks into -/

lemma stem_append_stem {more : List String} : stem (segs ++ more) = stem segs ++ stem more := by
  induction segs with
  | nil => simp [stem]
  | cons s segs ih =>
    rw [List.cons_append, stem_cons, stem_cons, ih]
    simp only [String.append_assoc]

lemma isFolderAt_append (hat : top.at? (segs.map .text) = some (.folder inside))
    (hs : ∀ s ∈ segs, ObjectName.isObjectSegment s = true) :
    IsFolderAt top.look? (segs ++ rel) ↔ IsFolderAt inside.look? rel := by
  rw [IsFolderAt, IsFolderAt, List.map_append, Folder.look?_append hat, List.forall_mem_append]
  exact and_congr_left fun _ => and_iff_right hs

/-- A folder whose name, with a separator behind it, starts with all that names behind another start with is that
folder or is below it. -/
lemma exists_below (h : top.Lawful (·.hasSeparator = false)) (hrel : IsFolderAt top.look? rel)
    (hs : ∀ s ∈ segs, ObjectName.separator ∉ s.toList) (hstart : Text.startsWith (stem rel) (stem segs) = true) :
    ∃ more, rel = segs ++ more := by
  by_cases hnil : rel = []
  · refine ⟨[], ?_⟩
    have hempty : (stem segs).toList <+: [] := by
      rw [hnil] at hstart
      exact List.isPrefixOf_iff_prefix.mp hstart
    rw [List.prefix_nil, stem] at hempty
    split_ifs at hempty with hsegs
    · rw [hnil, hsegs, List.append_nil]
    · simp at hempty
  · have hsep := h.separator_not_mem (by rw [hrel.2]; exact Option.some_ne_none _)
    have hstem : stem rel = String.ofList ((ObjectName.spell rel).toList ++ ObjectName.separator :: []) := by
      rw [stem, if_neg hnil]
      apply String.toList_injective
      simp
    have hpieces : ObjectName.pieces (stem rel) = rel ++ [""] := by
      rw [hstem, ObjectName.pieces_append, String.ofList_toList, ObjectName.pieces_spell hsep hnil]
      rfl
    obtain ⟨more, hne, hmore, -⟩ := exists_pieces hs hstart
    rw [hpieces] at hmore
    refine ⟨more.dropLast, ?_⟩
    rw [← List.dropLast_append_of_ne_nil hne, ← hmore, List.dropLast_concat]

/-- Below the folder that its text names in full, a listing looks into the folders that a walk enters. -/
lemma looksInto_iff (h : top.Lawful (·.hasSeparator = false))
    (hat : top.at? (segs.map .text) = some (.folder inside))
    (hs : ∀ s ∈ segs, ObjectName.Proper s ∧ ObjectName.separator ∉ s.toList) :
    LooksInto top (stem segs ++ tail) segs rel ↔
      rel = segs ∨ ∃ more, rel = segs ++ more ∧ Enters (stem segs ++ tail) (stem segs) inside.look? more := by
  have hobject : ∀ s ∈ segs, ObjectName.isObjectSegment s = true := fun s hmem => (hs s hmem).1.isObject
  constructor
  · rintro (rfl | ⟨hfolder, hagrees⟩)
    · exact .inl rfl
    · obtain ⟨more, rfl⟩ := exists_below h hfolder (fun s hmem => (hs s hmem).2) (startsWith_stem hagrees)
      by_cases hnil : more = []
      · exact .inl (by rw [hnil, List.append_nil])
      · rw [stem_append_stem] at hagrees
        exact .inr ⟨more, rfl, hnil, (isFolderAt_append hat hobject).mp hfolder, hagrees⟩
  · rintro (rfl | ⟨more, rfl, hmore⟩)
    · exact .inl rfl
    · refine .inr ⟨(isFolderAt_append hat hobject).mpr hmore.folder, ?_⟩
      rw [stem_append_stem]
      exact hmore.agrees

/-- Nothing is behind a folder that is missing. -/
lemma look?_behind_missing {more : List String} (hnone : top.look? (segs.map .text) = none) (hne : more ≠ []) :
    top.look? ((segs ++ more).map .text) = none := by
  rw [List.map_append]
  exact top.isTree.none_of_append (by simp [hnone]) (by simpa using hne)

/-- Below a folder that is missing there is nothing to look into. -/
lemma eq_of_looksInto (h : top.Lawful (·.hasSeparator = false)) (hs : ∀ s ∈ segs, ObjectName.separator ∉ s.toList)
    (hnone : top.look? (segs.map .text) = none) (hrel : LooksInto top (stem segs ++ tail) segs rel) : rel = segs := by
  rcases hrel with rfl | ⟨hfolder, hagrees⟩
  · rfl
  · obtain ⟨more, rfl⟩ := exists_below h hfolder hs (startsWith_stem hagrees)
    by_contra hne
    have hmore : more ≠ [] := by
      rintro rfl
      exact hne (List.append_nil _)
    cases (look?_behind_missing hnone hmore).symm.trans hfolder.2

/-! ## Where a listing starts -/

/-- The path of a folder leads to it, or nothing is there. -/
lemma readFolder_cases (hroot : f.readFolder c.root = .ok top) (h : top.Lawful (·.hasSeparator = false))
    (hs : ∀ s ∈ segs, ObjectName.Proper s ∧ ObjectName.separator ∉ s.toList)
    (hlong : (c.folderPath segs).isTooLong = false) (hbarred : ¬ Barred top segs) :
    (∃ inside, f.readFolder (c.folderPath segs) = .ok inside ∧
      top.at? (segs.map .text) = some (.folder inside)) ∨
    (f.readFolder (c.folderPath segs) = .error .notFound ∧ top.look? (segs.map .text) = none) := by
  by_cases hnil : segs = []
  · subst hnil
    exact .inl ⟨top, hroot, Folder.at?_nil⟩
  obtain ⟨hnul, -, ⟨root, slash⟩, hf, hat⟩ := Folder.readFolder_eq_ok_iff.mp hroot
  have hlead : Leads f.look? c.root.names root :=
    Leads.of_follow f.isTree hf (Folder.look?_eq_folder.mpr ⟨_, hat⟩)
  have hlook : ∀ q, f.look? (root ++ q) = top.look? q := fun q => Folder.look?_append hat
  have hlinks : ∀ q target, f.look? (root ++ q) ≠ some (.link target) := by
    intro q target
    rw [hlook]
    exact h.links q target
  rw [Folder.readFolder]
  rcases (reaching_folderPath hnul hs hnil).resolve_cases true hlead hlinks hnil hlong with
    ⟨hres, -⟩ | ⟨hres, -, hnone⟩ | ⟨hres, hblocked⟩
  · have hthere : f.at? (root ++ segs.map .text) = top.at? (segs.map .text) := Folder.at?_append hat
    rw [hres]
    dsimp only
    rw [hthere]
    cases hnode : top.at? (segs.map .text) with
    | none => exact .inr ⟨rfl, by rw [Folder.look?, hnode, Option.map_none]⟩
    | some node =>
      have hkind : top.look? (segs.map .text) = some node.kind := by
        rw [Folder.look?, hnode, Option.map_some]
      cases node with
      | folder inside => exact .inl ⟨inside, rfl, rfl⟩
      | file contents => exact absurd ⟨segs, contents, List.prefix_rfl, hkind⟩ hbarred
      | link target => exact absurd hkind (h.links _ _)
  · rw [hres]
    exact .inr ⟨rfl, (hlook _).symm.trans hnone⟩
  · obtain ⟨before, rest, contents, hsegs, -, hfile⟩ := hblocked
    obtain ⟨above, below, rfl, rfl, rfl⟩ := List.map_eq_append_iff.mp hsegs
    exact absurd ⟨above, contents, List.prefix_append _ _, (hlook _).symm.trans hfile⟩ hbarred

/-- A listing that starts in a folder whose path the system does not take fails. -/
lemma list_eq_nameTooLong (hroot : f.readFolder c.root = .ok top) (hstart : NamesFolder start segs)
    (hlong : (c.folderPath segs).isTooLong = true) :
    list f c start = .error (.file .nameTooLong) := by
  obtain ⟨hnul, hshort, -⟩ := Folder.readFolder_eq_ok_iff.mp hroot
  have hnil : segs ≠ [] := by
    rintro rfl
    rw [folderPath, if_pos rfl, hshort] at hlong
    cases hlong
  have hread : f.readFolder (c.folderPath segs) = .error .nameTooLong := by
    rw [Folder.readFolder, Folder.resolve_eq, (reaching_folderPath hnul hstart.proper hnil).nul, hlong,
      if_neg Bool.false_ne_true, if_pos rfl]
  rw [hstart.list_eq, listBehind, hread]

/-- A walk through a folder gives the names of all files that start with the text. -/
lemma lists_of_walk (h : top.Lawful (·.hasSeparator = false))
    (hs : ∀ s ∈ segs, ObjectName.Proper s ∧ ObjectName.separator ∉ s.toList)
    (htail : ObjectName.separator ∉ tail.toList) (hat : top.at? (segs.map .text) = some (.folder inside))
    (hwalk : walk (stem segs ++ tail) (stem segs) path inside = .ok names) :
    Lists top (stem segs ++ tail) (names.mergeSort fun a b => decide (a ≤ b)) := by
  have hclear := h.clear.at? hat
  have hseparator := separator_not_mem_behind h hat fun s hmem => (hs s hmem).1.isObject
  have hfound := walk_eq hclear (cuts_append htail)
    (fun rel hrel s hmem => hseparator rel hrel s (List.mem_append_right _ hmem)) hwalk
  rw [hfound]
  refine ⟨?_, ?_⟩
  · simp only [Text.toUtf8_lt_toUtf8_iff]
    exact pairwise_mergeSort (nodup_spelled hclear hseparator)
  · intro name
    rw [(List.mergeSort_perm _ _).mem_iff]
    exact mem_spelled_files h hat hs

/-- No file is behind a folder that is missing. -/
lemma lists_nil (h : top.Lawful (·.hasSeparator = false)) (hs : ∀ s ∈ segs, ObjectName.separator ∉ s.toList)
    (hnone : top.look? (segs.map .text) = none) : Lists top (stem segs ++ tail) [] := by
  refine ⟨.nil, fun name => ⟨nofun, ?_⟩⟩
  rintro ⟨hbehind, rel, hrel, rfl⟩
  obtain ⟨more, hne, rfl⟩ := exists_behind h hrel hs (startsWith_stem hbehind)
  obtain ⟨-, kind, hlook, -⟩ := hrel
  cases (look?_behind_missing hnone hne).symm.trans hlook

/-- A listing that succeeds gives the names of all files that start with the text. -/
theorem lists_of_list (hsite : Site c f root) (hat : f.at? root = some (.folder top))
    (h : top.Lawful (·.hasSeparator = false)) (hl : list f c start = .ok names) : Lists top start names := by
  obtain ⟨segs, hstart⟩ := exists_namesFolder hl
  have hs := hstart.proper
  rw [hstart.list_eq] at hl
  obtain ⟨tail, rfl, htail⟩ := hstart.exists_tail
  obtain ⟨hread, hmissing⟩ := hsite.readFolder_folderPath hs
  rcases listBehind_eq_ok hl with ⟨hf, rfl⟩ | ⟨inside, found, hf, hwalk, rfl⟩
  · have hnone := hmissing hf
    rw [Folder.look?_append hat] at hnone
    exact lists_nil h (fun s hmem => (hs s hmem).2) hnone
  · have hinside := hread inside hf
    rw [Folder.at?_append hat] at hinside
    exact lists_of_walk h hs htail hinside hwalk

/-- A listing gives the names of all files that start with the text, and the system takes the paths of all folders
that it looks into, or it does not take one of them and the listing fails. -/
lemma lists_or_fails (hroot : f.readFolder c.root = .ok top) (h : top.Lawful (·.hasSeparator = false))
    (hstart : NamesFolder start segs) (hbarred : ¬ Barred top segs) :
    ((∃ names, list f c start = .ok names ∧ Lists top start names) ∧
      ∀ rel, LooksInto top start segs rel → (c.folderPath rel).isTooLong = false) ∨
    (list f c start = .error (.file .nameTooLong) ∧
      ∃ rel, LooksInto top start segs rel ∧ (c.folderPath rel).isTooLong = true) := by
  by_cases hlong : (c.folderPath segs).isTooLong = true
  · exact .inr ⟨list_eq_nameTooLong hroot hstart hlong, segs, .inl rfl, hlong⟩
  rw [Bool.not_eq_true] at hlong
  have hs := hstart.proper
  rw [hstart.list_eq, listBehind]
  obtain ⟨tail, rfl, htail⟩ := hstart.exists_tail
  rcases readFolder_cases hroot h hs hlong hbarred with ⟨inside, hread, hat⟩ | ⟨hread, hnone⟩
  · have hinside := h.at? hat
    have hpath : ∀ more, Enters (stem segs ++ tail) (stem segs) inside.look? more →
        pathBelow (c.folderPath segs) more = c.folderPath (segs ++ more) := by
      intro more hmore
      apply pathBelow_folderPath
      intro s hmem
      rcases List.mem_append.mp hmem with hmem | hmem
      · exact IsSegment.ne_empty ⟨s, rfl, hs s hmem⟩
      · rintro ⟨⟩
        exact absurd (hmore.folder.1 "" hmem) (by decide)
    have hsep : ∀ q, inside.look? q ≠ none → ∀ s, .text s ∈ q → ObjectName.separator ∉ s.toList := by
      intro q hq s hmem
      simpa [FileName.hasSeparator] using hinside.of_mem hq _ hmem
    have hwalked : Passes _ (c.folderPath segs) (walk (stem segs ++ tail) (stem segs) (c.folderPath segs) inside) :=
      walk_cases hinside.clear (cuts_append htail) hsep
    rw [hread]
    dsimp only
    rcases hwalked with ⟨⟨found, hwalk⟩, hall⟩ | ⟨hwalk, more, hmore, hlong'⟩
    · rw [hwalk]
      refine .inl ⟨⟨_, rfl, lists_of_walk h hs htail hat hwalk⟩, ?_⟩
      intro rel hrel
      rcases (looksInto_iff h hat hs).mp hrel with rfl | ⟨more, rfl, hmore⟩
      · exact hlong
      · rw [← hpath more hmore]
        exact hall more hmore
    · rw [hwalk]
      refine .inr ⟨rfl, segs ++ more, (looksInto_iff h hat hs).mpr (.inr ⟨more, rfl, hmore⟩), ?_⟩
      rw [← hpath more hmore]
      exact hlong'
  · have hsep : ∀ s ∈ segs, ObjectName.separator ∉ s.toList := fun s hmem => (hs s hmem).2
    rw [hread]
    refine .inl ⟨⟨[], rfl, lists_nil h hsep hnone⟩, ?_⟩
    intro rel hrel
    rw [eq_of_looksInto h hsep hnone hrel]
    exact hlong

/-- Only one list has the names of all files that start with a text, in their order. -/
lemma Lists.eq_filter (hall : Lists top "" all) (h : Lists top start names) :
    names = all.filter (Text.startsWith · start) := by
  have hsorted := h.sorted
  have hsorted' := hall.sorted.filter (Text.startsWith · start)
  simp only [Text.toUtf8_lt_toUtf8_iff] at hsorted hsorted'
  apply hsorted.eq_of_mem_iff hsorted'
  intro name
  rw [List.mem_filter, h.mem, hall.mem]
  simp [Text.startsWith, and_comm]

/-- A text in a tree without links where no file stands at the place of the folder that it names in full, nor on the
way there. If the system takes the paths of all folders that a listing looks into, it gives the names of all files
that start with the text, in the order of their bytes and each once, which is what a listing of everything gives, as
far as it starts with the text. If one of these paths is too long, the listing fails. A listing of everything succeeds
if the paths of all folders are taken whose ways have no hidden names. -/
theorem list_eq_filter (hroot : f.readFolder c.root = .ok top) (h : top.Lawful (·.hasSeparator = false))
    (hstart : NamesFolder start segs) (hbarred : ¬ Barred top segs) :
    ((∀ rel, LooksInto top start segs rel → (c.folderPath rel).isTooLong = false) →
      ∃ names, list f c start = .ok names ∧ Lists top start names ∧
        ∀ all, list f c "" = .ok all → names = all.filter (Text.startsWith · start)) ∧
    ((∃ rel, LooksInto top start segs rel ∧ (c.folderPath rel).isTooLong = true) →
      list f c start = .error (.file .nameTooLong)) ∧
    ((∀ rel, IsFolderAt top.look? rel → (c.folderPath rel).isTooLong = false) → ∃ all, list f c "" = .ok all) := by
  have hall : NamesFolder "" [] := .root List.not_mem_nil
  have hopen : ¬ Barred top [] := by
    rintro ⟨above, contents, habove, hfile⟩
    rw [List.prefix_nil.mp habove, List.map_nil, Folder.look?_nil] at hfile
    cases hfile
  have hlists := lists_or_fails hroot h hstart hbarred
  have hlists' := lists_or_fails hroot h hall hopen
  refine ⟨?_, ?_, ?_⟩
  · intro hshort
    rcases hlists with ⟨⟨names, hlist, hnames⟩, -⟩ | ⟨-, rel, hrel, hlong⟩
    · refine ⟨names, hlist, hnames, ?_⟩
      intro all hlist'
      rcases hlists' with ⟨⟨all', hlist'', hnames'⟩, -⟩ | ⟨herror, -⟩
      · cases hlist'.symm.trans hlist''
        exact hnames'.eq_filter hnames
      · cases hlist'.symm.trans herror
    · rw [hshort rel hrel] at hlong
      cases hlong
  · rintro ⟨rel, hrel, hlong⟩
    rcases hlists with ⟨-, hshort⟩ | ⟨herror, -⟩
    · rw [hshort rel hrel] at hlong
      cases hlong
    · exact herror
  · intro hshort
    rcases hlists' with ⟨⟨all, hlist, -⟩, -⟩ | ⟨-, rel, hrel, hlong⟩
    · exact ⟨all, hlist⟩
    · have hfolder : IsFolderAt top.look? rel := by
        rcases hrel with rfl | hrel
        · exact ⟨nofun, Folder.look?_nil⟩
        · exact hrel.1
      rw [hshort rel hfolder] at hlong
      cases hlong

/-- A listing below a folder among other files, as a case of the theorem. -/
theorem list_eq_filter_among_others :
    let c : FolderClient := ⟨⟨[.text "srv"]⟩⟩
    let locks : Folder := .file (.text "config_1") .empty (.file (.text ".config_2.tmp") .empty
      (.file (.bytes [0xFF]) .empty (.folder (.text "config_old") (.file (.text "3") .empty .empty) .empty)))
    let top : Folder := .folder (.text "locks") locks (.file (.text "locks_4") .empty .empty)
    let f : Folder := .folder (.text "srv") top .empty
    f.readFolder c.root = .ok top ∧ top.Lawful (·.hasSeparator = false) ∧ NamesFolder "locks/config_" ["locks"] ∧
      ¬ Barred top ["locks"] ∧
      (∀ rel, LooksInto top "locks/config_" ["locks"] rel → (c.folderPath rel).isTooLong = false) ∧
      (∀ rel, IsFolderAt top.look? rel → (c.folderPath rel).isTooLong = false) ∧
      ∃ all names, list f c "" = .ok all ∧ list f c "locks/config_" = .ok names ∧
        Lists top "locks/config_" names ∧ names = all.filter (Text.startsWith · "locks/config_") ∧
        "locks/config_old/3" ∈ names := by
  intro c locks top f
  have hroot : f.readFolder c.root = .ok top := rfl
  have hold : (Folder.file (.text "3") .empty .empty).Lawful (·.hasSeparator = false) := .file .empty rfl rfl
  have hlocks : locks.Lawful (·.hasSeparator = false) :=
    .file (.file (.file (.folder .empty rfl rfl hold) rfl rfl) rfl rfl) rfl rfl
  have h : top.Lawful (·.hasSeparator = false) := .folder (.file .empty rfl rfl) rfl rfl hlocks
  have hsegs : ObjectName.segments "locks" = .ok ["locks"] := rfl
  have htail : ObjectName.separator ∉ "config_".toList := by decide
  have hstart : NamesFolder "locks/config_" ["locks"] := NamesFolder.below hsegs htail
  have hbarred : ¬ Barred top ["locks"] := by
    rintro ⟨above, contents, habove, hfile⟩
    rcases List.prefix_cons_iff.mp habove with rfl | ⟨rest, rfl, hrest⟩
    · cases hfile
    · rw [List.prefix_nil.mp hrest] at hfile
      cases hfile
  have hfolders : ∀ rel, IsFolderAt top.look? rel → (c.folderPath rel).isTooLong = false := by
    intro rel hrel
    rcases (isFolderAt_folder rfl).mp hrel with ⟨s, more, rfl, hs, hmore⟩ | hrest
    · cases (eq_text_of_objectSegment? hs).1
      rw [isFolderAt_file rfl, isFolderAt_file rfl, isFolderAt_file rfl, isFolderAt_folder rfl] at hmore
      rcases hmore with ⟨s, more, rfl, hs, hmore⟩ | hmore
      · cases (eq_text_of_objectSegment? hs).1
        rw [isFolderAt_file rfl, isFolderAt_empty] at hmore
        rw [hmore]
        rfl
      · rw [isFolderAt_empty.mp hmore]
        rfl
    · rw [isFolderAt_file rfl, isFolderAt_empty] at hrest
      rw [hrest]
      rfl
  have hinto : ∀ rel, LooksInto top "locks/config_" ["locks"] rel → (c.folderPath rel).isTooLong = false := by
    rintro rel (rfl | hrel)
    · rfl
    · exact hfolders rel hrel.1
  obtain ⟨hlists, -, hall⟩ := list_eq_filter hroot h hstart hbarred
  obtain ⟨names, hlist, hnames, hfilter⟩ := hlists hinto
  obtain ⟨all, hlist'⟩ := hall hfolders
  have hfile : IsFileAt top.look? ["locks", "config_old", "3"] := ⟨by decide, .file .empty, rfl, nofun⟩
  refine ⟨hroot, h, hstart, hbarred, hinto, hfolders, all, names, hlist', hlist, hnames, hfilter all hlist', ?_⟩
  exact (hnames.mem _).mpr ⟨by decide, _, hfile, rfl⟩

/-- In an empty store, a text that names a folder whose path the system does not take cannot be listed, though no
name starts with it. -/
theorem list_fails_in_deep_folder :
    let c : FolderClient := ⟨⟨[.text "srv"]⟩⟩
    let f : Folder := .folder (.text "srv") .empty .empty
    let segs := List.replicate 2048 "a"
    let start := ObjectName.spell segs ++ ObjectName.separator.toString ++ "x"
    f.readFolder c.root = .ok .empty ∧ Folder.empty.Lawful (·.hasSeparator = false) ∧ NamesFolder start segs ∧
      ¬ Barred .empty segs ∧ list f c "" = .ok [] ∧ list f c start = .error (.file .nameTooLong) := by
  intro c f segs start
  have hroot : f.readFolder c.root = .ok .empty := rfl
  have hproper : ∀ s ∈ segs, ObjectName.Proper s ∧ ObjectName.separator ∉ s.toList := by
    intro s hs
    rw [List.eq_of_mem_replicate hs]
    exact ⟨⟨by decide, by decide, by decide⟩, by decide⟩
  have hstart : NamesFolder start segs :=
    .below (ObjectName.segments_spell hproper (List.cons_ne_nil _ _)) (by decide)
  have hlong : (c.folderPath segs).isTooLong = true := by decide +kernel
  refine ⟨hroot, .empty, hstart, ?_, ?_, list_eq_nameTooLong hroot hstart hlong⟩
  · rintro ⟨above, contents, -, hfile⟩
    cases above with
    | nil => cases hfile
    | cons s above =>
      rw [List.map_cons, Folder.look?_cons] at hfile
      cases hfile
  · show Except.ok (([] : List String).mergeSort _) = Except.ok []
    rw [List.mergeSort_nil]

end FolderClient

end StoreLock
