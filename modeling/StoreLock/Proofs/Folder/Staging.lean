import StoreLock.Proofs.Folder.Growth
import StoreLock.Proofs.Folder.ObjectPath
import StoreLock.Proofs.Folder.Shortcut

/-!
# The names of hidden files

A hidden file has five bytes more in its name than the object that is written to it. So the last segment of a name
may be taken for that of an object and still be too long to be written: no creation of such a name succeeds. A
segment of 250 bytes or less never makes a creation fail for the length of a name (`FolderClient.hidden_name_fits`).
-/

namespace StoreLock

namespace FilePath

variable {pieces more : List FileName}

lemma length_append : (FilePath.mk (pieces ++ more)).length = (FilePath.mk pieces).length + (FilePath.mk more).length := by
  simp only [length]
  induction pieces with
  | nil => simp
  | cons piece pieces ih =>
    rw [List.cons_append, List.foldr_cons, List.foldr_cons, ih]
    lia

/-- The system takes the paths of all folders on the way if it takes a path. -/
lemma isTooLong_of_prefix (h : pieces <+: more) (hmore : (FilePath.mk more).isTooLong = false) :
    (FilePath.mk pieces).isTooLong = false := by
  obtain ⟨rest, rfl⟩ := h
  rw [isTooLong, decide_eq_false_iff_not, length_append] at hmore
  rw [isTooLong, decide_eq_false_iff_not]
  lia

end FilePath

namespace Folder

variable {f f' : Folder} {path source target : FilePath} {n : FileName} {contents : ByteArray} {followsLast : Bool}

/-! ## Names that are too long -/

lemma resolve_of_makeFolder (h : f.makeFolder path = .error .nameTooLong) :
    f.resolve false path = .error .nameTooLong := by
  rw [makeFolder] at h
  split at h
  case h_1 e hres => rw [hres, Except.error.inj h]
  case h_2 => split at h <;> cases h

lemma resolve_of_ensureFolder (h : f.ensureFolder path = .error .nameTooLong) :
    f.resolve false path = .error .nameTooLong := by
  rw [ensureFolder] at h
  split at h
  case h_1 => cases h
  case h_2 e hmake =>
    split_ifs at h
    cases h
    exact resolve_of_makeFolder hmake

lemma resolve_of_writeFile (h : f.writeFile path contents = .error .nameTooLong) :
    f.resolve true path = .error .nameTooLong := by
  rw [writeFile] at h
  split at h
  case h_1 e hres => rw [hres, Except.error.inj h]
  case h_2 =>
    split_ifs at h
    · cases h
    · split at h <;> cases h

lemma resolve_of_rename (h : f.rename source target = .error .nameTooLong) :
    f.resolve false source = .error .nameTooLong ∨ f.resolve false target = .error .nameTooLong := by
  rw [rename] at h
  cases hsource : f.resolve false source with
  | error e =>
    rw [hsource] at h
    exact .inl (by rw [Except.error.inj h])
  | ok here =>
    cases htarget : f.resolve false target with
    | error e =>
      rw [hsource, htarget] at h
      exact .inr (by rw [Except.error.inj h])
    | ok there =>
      rw [hsource, htarget] at h
      dsimp only at h
      split at h
      case h_1 => cases h
      case h_2 => cases h
      case h_3 =>
        split_ifs at h
        · cases h
        · split at h <;> cases h

/-- A name that is too long leads nowhere in any folder. -/
lemma resolve_child_of_long (h : f.isFolder path = true) (hslash : path.endsInSlash = false)
    (hn : Plain [n]) (hempty : n ≠ .text "") (hnul : n.hasNul = false) (hlong : FileName.maxLength < n.length) :
    f.resolve followsLast (path.child n) = .error .nameTooLong := by
  cases hread : f.readFolder path with
  | error e =>
    rw [isFolder, hread] at h
    cases h
  | ok inside =>
    obtain ⟨hnul', -, landing, hf, hat⟩ := readFolder_eq_ok_iff.mp hread
    obtain ⟨-, links, hon⟩ := Leads.of_follow f.isTree hf (look?_eq_folder.mpr ⟨inside, hat⟩)
    have hpieces : (path.child n).pieces.any FileName.hasNul = false := by
      rw [FilePath.child, FilePath.descend, hslash, List.any_append]
      simpa [hnul] using hnul'
    obtain ⟨hdot, hdots⟩ := hn n (List.mem_singleton.mpr rfl)
    have hlost : walkAt f.look? followsLast landing.place [n] = .lost .nameTooLong := by
      rw [walkAt_name hdot hdots, if_pos hlong]
    rw [resolve_eq, hpieces, FolderClient.names_child hslash hempty, hon _ _ _ (List.cons_ne_nil _ _),
      followAt_of_lost hlost, if_neg Bool.false_ne_true, ite_self]

end Folder

namespace FolderClient

variable {c : FolderClient} {f f' : Folder} {root q : Place} {n : FileName} {name s : String}
  {init segs : List String} {path : FilePath} {contents : ByteArray} {followsLast : Bool}

lemma Reaching.resolve_ne (hp : Reaching c segs path) (h : Site c f root) (hne : segs ≠ [])
    (hlong : path.isTooLong = false) : f.resolve followsLast path ≠ .error .nameTooLong := by
  rcases hp.resolve_cases followsLast h.leads h.links hne hlong with ⟨hres, -⟩ | ⟨hres, -⟩ | ⟨hres, -⟩
  · simp [hres]
  · simp [hres]
  · simp [hres]

/-! ## Folders around an object -/

lemma home_prefix (c : FolderClient) : c.home.pieces <+: c.base := by
  rw [home, ← List.reverse_suffix, List.reverse_reverse]
  exact List.dropWhile_suffix _

/-- A folder that is made below the root leaves the root where it is. -/
lemma Site.ensureFolder (h : Site c f root) (hn : ∀ m ∈ q ++ [n], IsSegment m)
    (hf : f.ensureFolder ⟨c.base ++ (q ++ [n])⟩ = .ok f') : Site c f' root := by
  rw [Folder.ensureFolder] at hf
  split at hf
  case h_1 hmake =>
    cases hf
    obtain ⟨hfolder, hnone, rfl⟩ := h.makeFolder_eq_ok (under_base hn) (plain_of_isSegment hn) hmake
    exact h.set_folder hfolder hnone
  case h_2 =>
    split_ifs at hf
    cases hf
    exact h

/-- If the system takes the path of an object, the folders around it do not fail for the length of a name. -/
lemma Site.makeFolders (h : Site c f root) (hinit : ∀ n ∈ init.map FileName.text, IsSegment n)
    (hs : IsSegment (.text s))
    (hlong : (FilePath.mk (c.base ++ init.map .text ++ [FileName.text s])).isTooLong = false) :
    Site c (f.makeFolders (FilePath.parent ⟨c.base ++ init.map .text ++ [FileName.text s]⟩)).2 root ∧
      (f.makeFolders (FilePath.parent ⟨c.base ++ init.map .text ++ [FileName.text s]⟩)).1 ≠
        .error .nameTooLong := by
  have hhome : ∀ f e, Site c f root → f.ensureFolder c.home = .error e → e ≠ .nameTooLong := by
    rintro f e h he rfl
    have hhome := h.ensureFolder_home.2.2 he
    rw [FilePath.isTooLong_of_prefix _ hlong] at hhome
    · cases hhome
    · rw [List.append_assoc]
      exact c.home_prefix.trans (List.prefix_append _ _)
  have hthere : ∀ q n, (∀ m ∈ q ++ [n], IsSegment m) → q ++ [n] <+: init.map FileName.text →
      ∀ f, Site c f root → (∀ f', f.ensureFolder ⟨c.base ++ (q ++ [n])⟩ = .ok f' → Site c f' root) ∧
        ∀ e, f.ensureFolder ⟨c.base ++ (q ++ [n])⟩ = .error e → e ≠ .nameTooLong := by
    intro q n hn hpre f h
    refine ⟨fun f' hf => h.ensureFolder hn hf, ?_⟩
    rintro e he rfl
    obtain ⟨segs, hsegs, hq⟩ := List.prefix_map_iff.mp hpre
    have hne : segs ≠ [] := by
      rintro rfl
      simp at hq
    have hproper : ∀ s ∈ segs, ObjectName.Proper s ∧ ObjectName.separator ∉ s.toList := by
      intro s hmem
      apply isSegment_text.mp
      apply hn
      rw [hq]
      exact List.mem_map_of_mem hmem
    have hp := reaching_folderPath h.nul hproper hne
    rw [folderPath, if_neg hne, ← hq] at hp
    apply hp.resolve_ne h hne _ (Folder.resolve_of_ensureFolder he)
    apply FilePath.isTooLong_of_prefix _ hlong
    rw [List.append_assoc, List.prefix_append_right_inj]
    exact hpre.trans (List.prefix_append _ _)
  obtain ⟨hsite, hfault⟩ := makeFolders_induction (fun _ h => h) hhome hthere hinit hs h
  exact ⟨hsite, fun he => hfault _ he rfl⟩

/-! ## Hidden files -/

lemma hasNul_staged (h : (FileName.text s).hasNul = false) :
    (FileName.text (ObjectName.staged s)).hasNul = false := by
  rw [FileName.hasNul, ← Bool.not_eq_true, List.contains_iff_mem] at h ⊢
  rwa [ObjectName.mem_staged (by decide)]

/-- The path of a hidden file, whose name is short enough. -/
lemma reaching_staging (hnul : c.root.pieces.any FileName.hasNul = false)
    (hinit : ∀ n ∈ init.map FileName.text, IsSegment n) (hs : IsSegment (.text s)) (hshort : s.utf8ByteSize ≤ 250) :
    Reaching c (init ++ [ObjectName.staged s]) (staging ⟨c.base ++ init.map .text ++ [FileName.text s]⟩) := by
  have hmap : (init ++ [ObjectName.staged s]).map FileName.text =
      init.map .text ++ [FileName.text (ObjectName.staged s)] := by simp
  have hstaging : staging ⟨c.base ++ init.map .text ++ [FileName.text s]⟩ =
      ⟨((c.base ++ init.map FileName.text).reverse.dropWhile FilePath.stays).reverse ++
        [.text (ObjectName.staged s)]⟩ := by
    rw [staging_concat, FilePath.parent_concat hs.not_stays, FilePath.child, FilePath.descend,
      endsInSlash_of_dropWhile, if_neg Bool.false_ne_true]
  refine ⟨hmap ▸ under_staging hinit hs, hmap ▸ plain_staged hinit, ?_, ?_, ?_⟩
  · rw [hmap]
    intro n hn
    rcases List.mem_append.mp hn with hn | hn
    · obtain ⟨t, -, rfl⟩ := List.mem_map.mp hn
      exact (isSegment_text.mp (hinit _ hn)).1.short
    · rw [List.mem_singleton.mp hn, FileName.length, ObjectName.utf8ByteSize_staged, FileName.maxLength]
      lia
  · have hpieces : ∀ n ∈ c.base ++ init.map FileName.text, n.hasNul = false := by
      intro n hn
      rcases List.mem_append.mp hn with hn | hn
      · exact Bool.not_eq_true _ ▸ List.any_eq_false.mp (hasNul_base hnul) n hn
      · exact (hinit n hn).hasNul_eq_false
    rw [hstaging, List.any_eq_false]
    intro n hn
    rw [Bool.not_eq_true]
    rcases List.mem_append.mp hn with hn | hn
    · apply hpieces
      exact List.mem_reverse.mp ((List.dropWhile_sublist _).mem (List.mem_reverse.mp hn))
    · rw [List.mem_singleton.mp hn]
      exact hasNul_staged hs.hasNul_eq_false
  · rw [hstaging]
    exact endsInSlash_concat (staged_ne (by decide))

/-- Where the path of the root leads to a folder without links, no creation fails for the length of a name if the
system takes both paths and the hidden name is short enough. -/
lemma Site.create_ne (h : Site c f root) (hname : ObjectName.segments name = .ok (init ++ [s]))
    (hpath : c.path name = .ok path) (hshort : s.utf8ByteSize ≤ 250) (hlong : path.isTooLong = false)
    (hlong' : (staging path).isTooLong = false) (contents : ByteArray) :
    (create f c name contents).1 ≠ .error (.file .nameTooLong) := by
  have hobject := reaching h.nul hname hpath
  obtain ⟨rfl, hinit, hs⟩ := path_eq hname hpath
  have hstaging := reaching_staging h.nul hinit hs hshort
  have hne : init ++ [ObjectName.staged s] ≠ [] := by simp
  obtain ⟨hsite, hmake⟩ := h.makeFolders hinit hs hlong
  rw [create, hpath]
  dsimp only
  cases hm : f.makeFolders (FilePath.parent ⟨c.base ++ init.map .text ++ [FileName.text s]⟩) with
  | mk r f₁ =>
  rw [hm] at hsite hmake
  cases r with
  | error e =>
    rintro ⟨⟩
    exact hmake rfl
  | ok =>
  dsimp only
  cases hw : f₁.writeFile (staging ⟨c.base ++ init.map .text ++ [FileName.text s]⟩) contents with
  | error e =>
    rintro ⟨⟩
    exact hstaging.resolve_ne hsite hne hlong' (Folder.resolve_of_writeFile hw)
  | ok f₂ =>
  obtain ⟨hfolder, hnot, rfl⟩ := hsite.writeFile_eq_ok (under_staging hinit hs) (plain_staged hinit) hw
  have hsite₂ := hsite.set_file contents hfolder hnot
  dsimp only
  split
  case h_1 => simp
  case h_2 e hmove =>
    have hfault : e ≠ .nameTooLong := by
      rintro rfl
      rcases Folder.resolve_of_rename hmove with hres | hres
      · exact hstaging.resolve_ne hsite₂ hne hlong' hres
      · exact hobject.resolve_ne hsite₂ (ObjectName.segments_ne_nil hname) hlong hres
    split
    · rintro ⟨⟩
      exact hfault rfl
    · rintro ⟨⟩
      exact hfault rfl

/-- A name whose hidden file would have too long a name cannot be created anywhere. -/
lemma create_of_long (hname : ObjectName.segments name = .ok (init ++ [s])) (hpath : c.path name = .ok path)
    (hlong : 250 < s.utf8ByteSize) (f : Folder) (contents : ByteArray) :
    (create f c name contents).1 ≠ .ok () ∧
      ∀ f', f.makeFolders path.parent = (.ok (), f') →
        create f c name contents = (.error (.file .nameTooLong), f') := by
  obtain ⟨rfl, hinit, hs⟩ := path_eq hname hpath
  have hfails : ∀ f', f.makeFolders (FilePath.parent ⟨c.base ++ init.map .text ++ [FileName.text s]⟩) =
      (.ok (), f') → create f c name contents = (.error (.file .nameTooLong), f') := by
    intro f' hm
    have hres : f'.resolve true (staging ⟨c.base ++ init.map .text ++ [FileName.text s]⟩) =
        .error .nameTooLong := by
      rw [staging_concat]
      apply Folder.resolve_child_of_long (Folder.isFolder_of_makeFolders hm)
      · rw [FilePath.parent_concat hs.not_stays]
        exact endsInSlash_of_dropWhile _
      · simpa using plain_staged (q := []) (s := s) nofun
      · exact staged_ne (by decide)
      · exact hasNul_staged hs.hasNul_eq_false
      · rw [FileName.length, ObjectName.utf8ByteSize_staged, FileName.maxLength]
        lia
    rw [create, hpath]
    dsimp only
    rw [hm]
    dsimp only
    rw [Folder.writeFile, hres]
  refine ⟨?_, hfails⟩
  intro hok
  cases hm : f.makeFolders (FilePath.parent ⟨c.base ++ init.map .text ++ [FileName.text s]⟩) with
  | mk r f' =>
  cases r with
  | error e =>
    rw [create, hpath] at hok
    dsimp only at hok
    rw [hm] at hok
    cases hok
  | ok =>
    rw [hfails f' hm] at hok
    cases hok

/-- The hidden file of an object is named after the last segment of its name, whatever the root is, and this hidden
name keeps to the limit of segments if and only if the segment has 250 bytes or less. With a longer one the object
cannot be created: once the folders around it are there, the file system refuses the hidden name. With a shorter one
no creation fails for the length of a name, if the system takes the paths of the object and of the hidden file. -/
theorem hidden_name_fits (hpath : c.path name = .ok path) :
    ∃ init s, ObjectName.segments name = .ok (init ++ [s]) ∧
      (staging path).pieces.getLast? = some (.text (ObjectName.staged s)) ∧
      (∀ root p, ObjectName.path root name = .ok p → ∃ p', ObjectName.stagingPath p = .ok p' ∧
        (ObjectName.components p').getLast? = some (.name (ObjectName.staged s))) ∧
      ((ObjectName.staged s).utf8ByteSize ≤ ObjectName.maxSegment ↔ s.utf8ByteSize ≤ 250) ∧
      (250 < s.utf8ByteSize → ∀ f contents, (create f c name contents).1 ≠ .ok () ∧
        ∀ f', f.makeFolders path.parent = (.ok (), f') →
          create f c name contents = (.error (.file .nameTooLong), f')) ∧
      (s.utf8ByteSize ≤ 250 → path.isTooLong = false → (staging path).isTooLong = false →
        ∀ f root contents, Site c f root → (create f c name contents).1 ≠ .error (.file .nameTooLong)) := by
  obtain ⟨init, s, hname, rfl, hinit, hs⟩ := exists_of_path hpath
  refine ⟨init, s, hname, ?_, ?_, ?_, ?_, ?_⟩
  · rw [staging_concat, FilePath.child, FilePath.descend, List.getLast?_concat]
  · intro root p hp
    obtain ⟨init', s', p', hpieces, hstaging, hcomponents⟩ := ObjectName.exists_stagingPath hp
    rw [← (ObjectName.segments_eq_ok_iff.mp hname).1] at hpieces
    obtain ⟨-, hs'⟩ := List.append_inj' hpieces rfl
    obtain rfl := List.singleton_inj.mp hs'
    exact ⟨p', hstaging, by rw [hcomponents, List.getLast?_concat]⟩
  · rw [ObjectName.utf8ByteSize_staged, ObjectName.maxSegment]
    lia
  · exact fun hlong f contents => create_of_long hname hpath hlong f contents
  · exact fun hshort hlong hlong' f root contents h => h.create_ne hname hpath hshort hlong hlong' contents

lemma utf8ByteSize_replicate (n : Nat) : (String.ofList (List.replicate n 'x')).utf8ByteSize = n := by
  rw [String.utf8ByteSize_ofList]
  induction n with
  | zero => rfl
  | succ n ih =>
    rw [List.replicate_succ, String.utf8Len_cons, ih]
    rfl

/-- A letter that is repeated makes up the name of an object. -/
lemma segments_replicate {n : Nat} (hpos : n ≠ 0) (hle : n ≤ ObjectName.maxSegment) :
    ObjectName.segments (String.ofList (List.replicate n 'x')) = .ok [String.ofList (List.replicate n 'x')] := by
  have hproper : ∀ s ∈ [String.ofList (List.replicate n 'x')],
      ObjectName.Proper s ∧ ObjectName.separator ∉ s.toList := by
    intro s hs
    rw [List.mem_singleton.mp hs]
    refine ⟨⟨?_, ?_, ?_⟩, ?_⟩
    · obtain ⟨m, rfl⟩ := Nat.exists_eq_succ_of_ne_zero hpos
      simp [ObjectName.isObjectSegment, ObjectName.isHidden, List.replicate_succ]
    · rwa [utf8ByteSize_replicate]
    · simp [List.any_replicate]
    · simp [ObjectName.separator, List.mem_replicate]
  have hsegs := ObjectName.segments_spell hproper (List.cons_ne_nil _ _)
  rwa [ObjectName.spell_singleton] at hsegs

/-- The longest name that fits, as a case of the theorem. -/
theorem hidden_name_fits_of_longest :
    let c : FolderClient := ⟨⟨[.text "srv"]⟩⟩
    let f : Folder := .folder (.text "srv") .empty .empty
    let name := String.ofList (List.replicate 250 'x')
    c.path name = .ok ⟨[.text "srv", .text name]⟩ ∧
      (create f c name .empty).1 ≠ .error (.file .nameTooLong) := by
  intro c f name
  have hsegs : ObjectName.segments name = .ok ([] ++ [name]) := segments_replicate (by decide) (by decide)
  have hpath : c.path name = .ok ⟨[.text "srv", .text name]⟩ := by
    rw [path, hsegs]
    rfl
  refine ⟨hpath, ?_⟩
  obtain ⟨init, s, hname, -, -, -, -, hfits⟩ := hidden_name_fits hpath
  obtain ⟨-, hs⟩ := List.append_inj' (Except.ok.inj (hname.symm.trans hsegs)) (by simp)
  obtain rfl := List.singleton_inj.mp hs
  have hempty : Folder.empty.Lawful FileName.IsEntry := .empty
  have hroot : f.resolve true c.root = .ok ⟨[.text "srv"], false⟩ := rfl
  have hat : f.at? [.text "srv"] = some (.folder .empty) := rfl
  have hsite : Site c f [.text "srv"] := .of_lawful hroot hat hempty
  have hlength : name.utf8ByteSize ≤ 250 := le_of_eq (utf8ByteSize_replicate 250)
  have hlong : (FilePath.mk [.text "srv", .text name]).isTooLong = false := by decide +kernel
  have hlong' : (staging ⟨[.text "srv", .text name]⟩).isTooLong = false := by decide +kernel
  exact hfits hlength hlong hlong' f _ .empty hsite

/-- A name with one byte more is accepted, but cannot be created. -/
theorem hidden_name_too_long :
    let c : FolderClient := ⟨⟨[.text "srv"]⟩⟩
    let f : Folder := .folder (.text "srv") .empty .empty
    let name := String.ofList (List.replicate 251 'x')
    c.path name = .ok ⟨[.text "srv", .text name]⟩ ∧
      staging ⟨[.text "srv", .text name]⟩ = ⟨[.text "srv", .text (ObjectName.staged name)]⟩ ∧
      ObjectName.maxSegment < (ObjectName.staged name).utf8ByteSize ∧
      create f c name .empty = (.error (.file .nameTooLong), f) := by
  intro c f name
  have hname : ObjectName.segments name = .ok ([] ++ [name]) := segments_replicate (by decide) (by decide)
  have hpath : c.path name = .ok ⟨[.text "srv", .text name]⟩ := by
    rw [path, hname]
    rfl
  have hlong : 250 < name.utf8ByteSize := lt_of_lt_of_eq (by decide) (utf8ByteSize_replicate 251).symm
  have hparent : FilePath.parent ⟨[.text "srv", .text name]⟩ = ⟨[.text "srv"]⟩ := by decide +kernel
  have hm : f.makeFolders (FilePath.parent ⟨[.text "srv", .text name]⟩) = (.ok (), f) := by
    rw [hparent]
    rfl
  exact ⟨hpath, by decide +kernel, by decide +kernel, (create_of_long hname hpath hlong f .empty).2 f hm⟩

end FolderClient

end StoreLock
