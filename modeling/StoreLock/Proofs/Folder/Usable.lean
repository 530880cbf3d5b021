import StoreLock.Proofs.Folder.Shortcut

/-!
# Names that listings give

A listing takes any file for that of an object whose way below the root has no hidden names, whoever has put it
there. The name that it gives leads back to that file, unless a backslash is in it: a listing does not mind one, but
no object can have such a name, so the file cannot be deleted (`FolderClient.listed_usable`).
-/

namespace StoreLock

namespace FolderClient

variable {c : FolderClient} {f top : Folder} {root : Place} {slash : Bool} {start name : String}
  {names segs : List String} {path : FilePath} {contents : ByteArray}

/-- The name of a file below the root is read back as the segments of the file. -/
lemma exists_contents (h : top.Lawful (·.hasSeparator = false)) (hrel : IsFileAt top.look? segs) :
    ObjectName.pieces (ObjectName.spell segs) = segs ∧
      ∃ contents, top.look? (segs.map .text) = some (.file contents) := by
  have hne : segs ≠ [] := by
    rintro rfl
    exact not_isFileAt_nil hrel
  obtain ⟨-, kind, hlook, hkind⟩ := hrel
  have hsep := h.separator_not_mem (by rw [hlook]; exact Option.some_ne_none kind)
  refine ⟨ObjectName.pieces_spell hsep hne, ?_⟩
  cases kind with
  | file contents => exact ⟨contents, hlook⟩
  | link target => exact absurd hlook (h.links _ target)
  | folder => exact absurd rfl hkind

/-- The path of the name of a file leads to the file. -/
lemma resolve_of_file (hsite : Site c f root) (hname : ObjectName.segments name = .ok segs)
    (hpath : c.path name = .ok path) (hlong : path.isTooLong = false)
    (hfile : f.look? (root ++ segs.map .text) = some (.file contents)) :
    f.resolve false path = .ok ⟨root ++ segs.map .text, false⟩ := by
  have hne := ObjectName.segments_ne_nil hname
  rcases (reaching hsite.nul hname hpath).resolve_cases false hsite.leads hsite.links hne hlong with
    ⟨hres, -⟩ | ⟨-, -, hnone⟩ | ⟨-, hblocked⟩
  · exact hres
  · rw [hnone] at hfile
    cases hfile
  · rw [hblocked.none f.isTree] at hfile
    cases hfile

/-- A name that a listing gives, of a tree without links that anyone may have made, is that of a file below the
root. It is the name of an object if and only if no backslash is in it, and then its path goes on from the root by
the segments of the name, leads to this very file if the system takes it, and a deletion takes the file away. For
want of such a name a deletion fails if and only if a backslash is in it. -/
theorem listed_usable (hroot : f.resolve true c.root = .ok ⟨root, slash⟩) (hat : f.at? root = some (.folder top))
    (h : top.Lawful FileName.IsEntry) (hlist : list f c start = .ok names) (hmem : name ∈ names) :
    (∃ contents, f.look? (root ++ (ObjectName.pieces name).map .text) = some (.file contents)) ∧
    c.path name = (if '\\' ∈ name.toList then
        .error (.invalidName (ObjectName.Fault.forbiddenCharacter name).detail)
      else .ok (c.root.descend ((ObjectName.pieces name).map .text))) ∧
    (∀ path, c.path name = .ok path → path.isTooLong = false →
      f.resolve false path = .ok ⟨root ++ (ObjectName.pieces name).map .text, false⟩ ∧
      delete f c name = (.ok (), f.unset (root ++ (ObjectName.pieces name).map .text))) ∧
    ((∃ detail, (delete f c name).1 = .error (.invalidName detail)) ↔ '\\' ∈ name.toList) := by
  have hsite : Site c f root := .of_lawful hroot hat h
  have hlists := lists_of_list hsite hat (h.imp fun _ hn => hn.separator) hlist
  obtain ⟨-, segs, hrel, rfl⟩ := (hlists.mem name).mp hmem
  obtain ⟨hpieces, contents, hlook⟩ := exists_contents (h.imp fun _ hn => hn.separator) hrel
  have hfile : f.look? (root ++ segs.map .text) = some (.file contents) := by
    rw [Folder.look?_append hat, hlook]
  have hsegs := ObjectName.segments_eq_of_entries fun s hs => by
    rw [hpieces] at hs
    have hentry := h.of_mem (by rw [hlook]; exact Option.some_ne_none _) (.text s) (List.mem_map_of_mem hs)
    exact ⟨hrel.1 s hs, hentry.short, by simpa [FileName.hasNul] using hentry.nul⟩
  rw [hpieces] at hsegs ⊢
  have hpath : c.path (ObjectName.spell segs) = if '\\' ∈ (ObjectName.spell segs).toList then
      .error (.invalidName (ObjectName.Fault.forbiddenCharacter (ObjectName.spell segs)).detail)
      else .ok (c.root.descend (segs.map .text)) := by
    rw [path, hsegs]
    split_ifs <;> rfl
  refine ⟨⟨contents, hfile⟩, hpath, ?_, ?_⟩
  · intro path hok hlong
    have hname : ObjectName.segments (ObjectName.spell segs) = .ok segs := by
      rw [hsegs]
      rw [hpath] at hok
      split_ifs at hok with hslash
      rw [if_neg hslash]
    have hres := resolve_of_file hsite hname hok hlong hfile
    refine ⟨hres, ?_⟩
    have hremove : f.remove path = .ok (f.unset (root ++ segs.map .text)) := by
      rw [Folder.remove, hres]
      dsimp only
      rw [Folder.look?_eq_file.mp hfile]
      rfl
    rw [delete, hok]
    dsimp only
    rw [hremove]
  · constructor
    · rintro ⟨detail, hdelete⟩
      by_contra hslash
      rw [if_neg hslash] at hpath
      rw [delete, hpath] at hdelete
      dsimp only at hdelete
      split at hdelete <;> cases hdelete
    · intro hslash
      rw [if_pos hslash] at hpath
      exact ⟨_, by rw [delete, hpath]⟩

/-- A file beside one that cannot be deleted, as a case of the theorem. -/
theorem listed_usable_beside_backslash :
    let c : FolderClient := ⟨⟨[.text "srv"]⟩⟩
    let locks : Folder := .file (.text "a\\b") .empty (.file (.text "config_1") .empty .empty)
    let f : Folder := .folder (.text "srv") (.folder (.text "locks") locks .empty) .empty
    let path : FilePath := ⟨[.text "srv", .text "locks", .text "config_1"]⟩
    f.resolve true c.root = .ok ⟨[.text "srv"], false⟩ ∧ list f c "locks/c" = .ok ["locks/config_1"] ∧
      c.path "locks/config_1" = .ok path ∧
      f.resolve false path = .ok ⟨[.text "srv", .text "locks", .text "config_1"], false⟩ := by
  intro c locks f path
  have hroot : f.resolve true c.root = .ok ⟨[.text "srv"], false⟩ := rfl
  have hentry : ∀ s ∈ ["locks", "a\\b", "config_1"], (FileName.text s).IsEntry := by
    intro s hs
    fin_cases hs <;> exact ⟨by decide, by decide, by decide⟩
  have hlawful : (Folder.folder (.text "locks") locks .empty).Lawful FileName.IsEntry := by
    apply Folder.Lawful.empty.folder (hentry _ (by decide)) rfl
    exact (Folder.Lawful.empty.file (hentry _ (by decide)) rfl).file (hentry _ (by decide)) rfl
  have hlist : list f c "locks/c" = .ok ["locks/config_1"] := by
    show Except.ok (["locks/config_1"].mergeSort _) = Except.ok ["locks/config_1"]
    rw [List.mergeSort_singleton]
  have hpath : c.path "locks/config_1" = .ok path := rfl
  obtain ⟨-, -, husable, -⟩ := listed_usable hroot rfl hlawful hlist (List.mem_singleton.mpr rfl)
  exact ⟨hroot, hlist, hpath, (husable path hpath rfl).1⟩

/-- A file with a backslash in its name is listed, but its name is refused, and so is its deletion. -/
theorem listed_with_backslash :
    let c : FolderClient := ⟨⟨[.text "srv"]⟩⟩
    let top : Folder := .file (.text "a\\b") .empty .empty
    let f : Folder := .folder (.text "srv") top .empty
    f.resolve true c.root = .ok ⟨[.text "srv"], false⟩ ∧ top.Lawful FileName.IsEntry ∧
      list f c "" = .ok ["a\\b"] ∧ ¬ (c.path "a\\b").isOk = true ∧
      ∃ detail, delete f c "a\\b" = (.error (.invalidName detail), f) := by
  intro c top f
  have hentry : (FileName.text "a\\b").IsEntry := ⟨by decide, by decide, by decide⟩
  refine ⟨rfl, Folder.Lawful.empty.file hentry rfl, ?_, by decide, _, rfl⟩
  show Except.ok (["a\\b"].mergeSort _) = Except.ok ["a\\b"]
  rw [List.mergeSort_singleton]

end FolderClient

end StoreLock
