import StoreLock.Proofs.Folder.Change

/-!
# Creating and deleting files

A creation makes the folders that its name asks for, writes a hidden file and moves it to its place. All
but the last step keep the objects, so whichever step fails, none is changed; the move makes the object of
the name hold what was written, and changes no other (`FolderClient.create_spec`). A deletion takes the
file away, if there is one (`FolderClient.delete_spec`).
-/

namespace StoreLock

namespace FilePath

variable {pieces : List FileName} {n : FileName}

/-- Pieces at the end that stay where they are do not matter for the folders on the way. -/
lemma prefixes_dropWhile : prefixes (pieces.dropWhile stays) = prefixes pieces := by
  induction pieces with
  | nil => rfl
  | cons piece pieces ih =>
    by_cases hs : stays piece = true
    · rw [List.dropWhile_cons_of_pos hs, ih, prefixes, if_pos hs]
    · rw [List.dropWhile_cons_of_neg hs]

/-- The first of the folders on a way is the one that it leads to. -/
lemma exists_prefixes (pieces : List FileName) :
    ∃ rest, prefixes pieces = ⟨(pieces.dropWhile stays).reverse⟩ :: rest := by
  induction pieces with
  | nil => exact ⟨[], rfl⟩
  | cons piece pieces ih =>
    by_cases hs : stays piece = true
    · rw [List.dropWhile_cons_of_pos hs, prefixes, if_pos hs]
      exact ih
    · rw [List.dropWhile_cons_of_neg hs, prefixes, if_neg hs]
      exact ⟨_, rfl⟩

lemma prefixes_concat (h : ¬ stays n = true) :
    prefixes (pieces ++ [n]).reverse = ⟨pieces ++ [n]⟩ :: prefixes pieces.reverse := by
  rw [List.reverse_append, List.reverse_singleton, List.singleton_append, prefixes, if_neg h,
    List.reverse_cons, List.reverse_reverse]

/-- The folder that a last name is in. -/
lemma parent_concat (h : ¬ stays n = true) :
    parent ⟨pieces ++ [n]⟩ = ⟨(pieces.reverse.dropWhile stays).reverse⟩ := by
  rw [parent, List.reverse_append, List.reverse_singleton, List.singleton_append,
    List.dropWhile_cons_of_neg h, List.tail_cons]

/-- The folder that a last name is in, and those around it. -/
lemma parent_cons_around (h : ¬ stays n = true) :
    parent ⟨pieces ++ [n]⟩ :: (parent ⟨pieces ++ [n]⟩).around = prefixes pieces.reverse := by
  obtain ⟨rest, hr⟩ := exists_prefixes pieces.reverse
  rw [parent_concat h, around, List.reverse_reverse, prefixes_dropWhile, hr, List.tail_cons]

end FilePath

namespace FolderClient

variable {c : FolderClient} {f f' f₁ f₂ f₀ : Folder} {root q : Place} {n : FileName}
  {names : List FileName} {node : FileNode} {path : FilePath} {segs : List String} {s name : String}
  {contents : ByteArray} {around : Folder → Except FileFault Unit × Folder}

/-! ## Paths below the root -/

lemma endsInSlash_of_dropWhile (pieces : List FileName) :
    (FilePath.mk (pieces.dropWhile FilePath.stays).reverse).endsInSlash = false := by
  rw [FilePath.endsInSlash, List.getLast?_reverse]
  cases hd : pieces.dropWhile FilePath.stays with
  | nil => rfl
  | cons piece rest =>
    have hs : ¬ FilePath.stays piece = true := by
      have := List.head_dropWhile_not FilePath.stays (l := pieces) (by rw [hd]; exact List.cons_ne_nil _ _)
      simpa [hd] using this
    rw [List.head?_cons]
    simp only [beq_eq_false_iff_ne, ne_eq, Option.some.injEq]
    intro he
    exact hs (by rw [he]; rfl)

lemma names_child (h : path.endsInSlash = false) (hn : n ≠ .text "") :
    (path.child n).names = path.names ++ [n] := by
  rw [FilePath.child, FilePath.descend, h, FilePath.names, FilePath.names, List.filter_append]
  simp [hn]

/-- The path of a hidden file goes on from that of the folder. -/
lemma staging_concat (pieces : List FileName) (s : String) :
    staging ⟨pieces ++ [.text s]⟩ = (FilePath.parent ⟨pieces ++ [.text s]⟩).child (.text (ObjectName.staged s)) := by
  rw [staging, List.getLast?_concat]

/-- The path of a hidden file is in the same folder as the file. -/
lemma under_staging (h : ∀ n ∈ q, IsSegment n) (hs : IsSegment (.text s)) :
    c.Under (staging ⟨c.base ++ q ++ [FileName.text s]⟩) (q ++ [FileName.text (ObjectName.staged s)]) := by
  have hne : FileName.text (ObjectName.staged s) ≠ .text "" := staged_ne (by decide)
  rw [staging_concat, FilePath.parent_concat hs.not_stays, Under, names_child (endsInSlash_of_dropWhile _) hne]
  rcases List.eq_nil_or_concat q with rfl | ⟨q', m, rfl⟩
  · right
    rw [List.append_nil, List.nil_append]
    rfl
  · left
    rw [List.concat_eq_append] at h ⊢
    have hm : ¬ FilePath.stays m = true := (h m (by simp)).not_stays
    have hstop : ((c.base ++ (q' ++ [m])).reverse.dropWhile FilePath.stays).reverse =
        c.base ++ (q' ++ [m]) := by
      rw [← List.append_assoc, List.reverse_append, List.reverse_singleton, List.singleton_append,
        List.dropWhile_cons_of_neg hm, List.reverse_cons, List.reverse_reverse]
    rw [hstop, FilePath.names, List.filter_append, names_base, names_of_isSegment h,
      List.append_assoc]

/-- A path below the root leads to the place that its names say, which is in a folder, or nowhere. -/
lemma Site.resolve_concat (followsLast : Bool) (h : Site c f root) (hu : c.Under path (q ++ [n]))
    (hn : Plain (q ++ [n])) :
    (f.resolve followsLast path = .ok ⟨root ++ q ++ [n], path.endsInSlash⟩ ∧
      f.look? (root ++ q) = some .folder) ∨
    ∃ e, f.resolve followsLast path = .error e ∧
      (e = .notFound → f.look? (root ++ q ++ [n]) = none) := by
  have hres := h.resolve followsLast hu hn (by simp)
  rwa [List.dropLast_concat, ← List.append_assoc] at hres

/-! ## Making folders -/

/-- A folder is made where nothing is, in a folder that is there. -/
lemma Site.makeFolder_eq_ok (h : Site c f root) (hu : c.Under path (q ++ [n])) (hn : Plain (q ++ [n]))
    (hf : f.makeFolder path = .ok f') :
    f.look? (root ++ q) = some .folder ∧ f.look? (root ++ q ++ [n]) = none ∧
      f' = f.set (root ++ q ++ [n]) (.folder .empty) := by
  rw [Folder.makeFolder] at hf
  rcases h.resolve_concat false hu hn with ⟨hres, hfolder⟩ | ⟨e, hres, -⟩
  · rw [hres] at hf
    dsimp only at hf
    split at hf
    case h_1 => cases hf
    case h_2 hat =>
      cases hf
      exact ⟨hfolder, by rw [Folder.look?, hat, Option.map_none], rfl⟩
  · rw [hres] at hf
    cases hf

lemma makeFolder_keeps (h : Opening c f₀ root) (hr : Rooted f₀ root f)
    (hu : c.Under path (q ++ [n])) (hn : ∀ m ∈ q ++ [n], IsSegment m)
    (hf : f.makeFolder path = .ok f') : Keeps f₀ root f f' := by
  obtain ⟨hfolder, hnone, rfl⟩ := (h.site hr).makeFolder_eq_ok hu (plain_of_isSegment hn) hf
  exact hr.keeps_folder hfolder hnone (hn n (by simp))

lemma ensureFolder_keeps (h : Opening c f₀ root) (hr : Rooted f₀ root f)
    (hu : c.Under path (q ++ [n])) (hn : ∀ m ∈ q ++ [n], IsSegment m)
    (hf : f.ensureFolder path = .ok f') : Keeps f₀ root f f' := by
  rw [Folder.ensureFolder] at hf
  split at hf
  case h_1 f₁ hmake =>
    cases hf
    exact makeFolder_keeps h hr hu hn hmake
  case h_2 =>
    split at hf
    · cases hf
      exact .refl hr
    · cases hf

/-- The folder of the root is there, and cannot be made. -/
lemma Site.makeFolder_home (h : Site c f root) :
    ∃ e, f.makeFolder c.home = .error e ∧ e ≠ .notFound ∧ (e = .nameTooLong → c.home.isTooLong = true) := by
  rw [Folder.makeFolder, Folder.resolve_eq]
  by_cases hnul : c.home.pieces.any FileName.hasNul = true
  · rw [if_pos hnul]
    exact ⟨_, rfl, by simp, by simp⟩
  by_cases hlong : c.home.isTooLong = true
  · rw [if_neg hnul, if_pos hlong]
    exact ⟨_, rfl, by simp, fun _ => hlong⟩
  obtain ⟨landing, hf, hthere⟩ := (leads_home h.leads).exists f.isTree c.home.endsInSlash
  rw [if_neg hnul, if_neg hlong, hf]
  dsimp only
  split
  case h_1 => exact ⟨_, rfl, by simp, by simp⟩
  case h_2 hat =>
    rw [Folder.look?, hat] at hthere
    exact absurd rfl hthere

/-- The folder of the root is not made again. -/
lemma Site.ensureFolder_home (h : Site c f root) :
    (∀ f', f.ensureFolder c.home = .ok f' → f' = f) ∧ f.ensureFolder c.home ≠ .error .notFound ∧
      (f.ensureFolder c.home = .error .nameTooLong → c.home.isTooLong = true) := by
  obtain ⟨e, hmake, hne, hlong⟩ := h.makeFolder_home
  rw [Folder.ensureFolder, hmake]
  dsimp only
  split_ifs
  · exact ⟨fun f' hf => (Except.ok.inj hf).symm, by simp, by simp⟩
  · exact ⟨by simp, fun hf => hne (Except.error.inj hf), fun hf => hlong (Except.error.inj hf)⟩

/-- Making a folder keeps what holds of a tree, and fails as it should, if making those around it does. -/
lemma ensureIn_induction {P : Folder → Prop} {Q : FileFault → Prop}
    (hthere : ∀ f, P f → (∀ f', f.ensureFolder path = .ok f' → P f') ∧
      ∀ e, f.ensureFolder path = .error e → Q e)
    (haround : ∀ f, P f → f.ensureFolder path = .error .notFound →
      P (around f).2 ∧ ∀ e, (around f).1 = .error e → Q e)
    (h : P f) : P (f.ensureIn path around).2 ∧ ∀ e, (f.ensureIn path around).1 = .error e → Q e := by
  rw [Folder.ensureIn]
  split
  case h_1 f' hf => exact ⟨(hthere f h).1 f' hf, nofun⟩
  case h_2 hf =>
    have hgo := haround f h hf
    split
    case h_1 e f' ha =>
      rw [ha] at hgo
      exact hgo
    case h_2 f' ha =>
      rw [ha] at hgo
      split
      case h_1 f'' hf' => exact ⟨(hthere f' hgo.1).1 f'' hf', nofun⟩
      case h_2 e hf' =>
        refine ⟨hgo.1, ?_⟩
        rintro e' ⟨⟩
        exact (hthere f' hgo.1).2 e hf'
  case h_3 e _ hf =>
    refine ⟨h, ?_⟩
    rintro e' ⟨⟩
    exact (hthere f h).2 e hf

/-- What making one folder below the root keeps is kept by making all folders around a file, and each fault is
one of a folder on the way. -/
lemma makeFolders_induction {P : Folder → Prop} {Q : FileFault → Prop} (hsite : ∀ f, P f → Site c f root)
    (hhome : ∀ f e, P f → f.ensureFolder c.home = .error e → Q e)
    (hthere : ∀ q n, (∀ m ∈ q ++ [n], IsSegment m) → q ++ [n] <+: names → ∀ f, P f →
      (∀ f', f.ensureFolder ⟨c.base ++ (q ++ [n])⟩ = .ok f' → P f') ∧
      ∀ e, f.ensureFolder ⟨c.base ++ (q ++ [n])⟩ = .error e → Q e)
    (hn : ∀ n ∈ names, IsSegment n) (hm : IsSegment n) (h : P f) :
    P (f.makeFolders (FilePath.parent ⟨c.base ++ names ++ [n]⟩)).2 ∧
      ∀ e, (f.makeFolders (FilePath.parent ⟨c.base ++ names ++ [n]⟩)).1 = .error e → Q e := by
  have he : ∀ path : FilePath, f.makeFolders path = f.ensureWithin (path :: path.around) := fun _ => rfl
  rw [he, FilePath.parent_cons_around hm.not_stays]
  clear he hm
  induction names using List.reverseRecOn generalizing f with
  | nil =>
    -- The folder of the root is there, so those around it are never asked for.
    obtain ⟨rest, hp⟩ := FilePath.exists_prefixes c.base.reverse
    rw [List.append_nil, hp, Folder.ensureWithin]
    apply ensureIn_induction _ _ h
    · intro f h
      refine ⟨fun f' hf => ?_, fun e => hhome f e h⟩
      rw [(hsite f h).ensureFolder_home.1 f' hf]
      exact h
    · intro f h hf
      exact absurd hf (hsite f h).ensureFolder_home.2.1
  | append_singleton names n ih =>
    rw [← List.append_assoc, FilePath.prefixes_concat (hn n (by simp)).not_stays, Folder.ensureWithin]
    apply ensureIn_induction _ _ h
    · intro f h
      rw [List.append_assoc]
      exact hthere names n hn List.prefix_rfl f h
    · intro f h _
      apply ih _ (fun m hm => hn m (List.mem_append_left _ hm)) h
      intro q m hq hpre
      exact hthere q m hq (hpre.trans (List.prefix_append _ _))

/-- Making the folders around a file keeps the objects. -/
lemma makeFolders_keeps (h : Opening c f₀ root) (hr : Rooted f₀ root f)
    (hq : ∀ n ∈ q, IsSegment n) (hn : IsSegment n) :
    Keeps f₀ root f (f.makeFolders (FilePath.parent ⟨c.base ++ q ++ [n]⟩)).2 := by
  refine (makeFolders_induction (P := Keeps f₀ root f) (Q := fun _ => True)
    (fun f' hk => h.site hk.rooted) (fun _ _ _ _ => trivial) ?_ hq hn (.refl hr)).1
  intro q n hn _ f' hk
  exact ⟨fun f'' hf => hk.trans (ensureFolder_keeps h hk.rooted (under_base hn) hn hf), fun _ _ => trivial⟩

/-! ## Files -/

/-- A file is written where no folder is, in a folder that is there. -/
lemma Site.writeFile_eq_ok (h : Site c f root) (hu : c.Under path (q ++ [n])) (hn : Plain (q ++ [n]))
    (hf : f.writeFile path contents = .ok f') :
    f.look? (root ++ q) = some .folder ∧ f.look? (root ++ q ++ [n]) ≠ some .folder ∧
      f' = f.set (root ++ q ++ [n]) (.file contents) := by
  rw [Folder.writeFile] at hf
  rcases h.resolve_concat true hu hn with ⟨hres, hfolder⟩ | ⟨e, hres, -⟩
  · rw [hres] at hf
    dsimp only at hf
    split_ifs at hf
    have hnot : f.look? (root ++ q ++ [n]) ≠ some .folder := by
      intro hlook
      obtain ⟨g, hg⟩ := Folder.look?_eq_folder.mp hlook
      rw [hg] at hf
      cases hf
    split at hf
    case h_1 => cases hf
    case h_2 =>
      cases hf
      exact ⟨hfolder, hnot, rfl⟩
  · rw [hres] at hf
    cases hf

/-- What is written to a hidden file keeps the objects. -/
lemma writeFile_keeps (h : Opening c f₀ root) (hr : Rooted f₀ root f)
    (hu : c.Under path (q ++ [n])) (hn : Plain (q ++ [n])) (hhidden : objectSegment? n = none)
    (hf : f.writeFile path contents = .ok f') :
    Keeps f₀ root f f' ∧ f'.look? (root ++ q ++ [n]) = some (.file contents) := by
  obtain ⟨hfolder, hnot, rfl⟩ := (h.site hr).writeFile_eq_ok hu hn hf
  refine ⟨hr.keeps_hidden hfolder hnot hhidden, ?_⟩
  rw [(hr.set (.file contents) hfolder hnot (.inr ⟨contents, rfl, .inr hhidden⟩)).2, if_pos rfl]
  rfl

/-- What is taken away is a file, and nothing else is changed. -/
lemma Site.remove_eq_ok (h : Site c f root) (hu : c.Under path (q ++ [n])) (hn : Plain (q ++ [n]))
    (hf : f.remove path = .ok f') :
    f.look? (root ++ q) = some .folder ∧ f.look? (root ++ q ++ [n]) ≠ some .folder ∧
      f' = f.unset (root ++ q ++ [n]) := by
  rw [Folder.remove] at hf
  rcases h.resolve_concat false hu hn with ⟨hres, hfolder⟩ | ⟨e, hres, -⟩
  · rw [hres] at hf
    dsimp only at hf
    split at hf
    case h_1 => cases hf
    case h_2 => cases hf
    case h_3 node hnode hat =>
      split_ifs at hf
      cases hf
      refine ⟨hfolder, ?_, rfl⟩
      intro hlook
      obtain ⟨g, hg⟩ := Folder.look?_eq_folder.mp hlook
      rw [hg] at hat
      cases hat
      exact hnode g rfl
  · rw [hres] at hf
    cases hf

/-- Where there is nothing to take away, nothing is at the place. -/
lemma Site.remove_eq_notFound (h : Site c f root) (hu : c.Under path (q ++ [n])) (hn : Plain (q ++ [n]))
    (hf : f.remove path = .error .notFound) :
    f.look? (root ++ q ++ [n]) = none := by
  rw [Folder.remove] at hf
  rcases h.resolve_concat false hu hn with ⟨hres, -⟩ | ⟨e, hres, hnone⟩
  · rw [hres] at hf
    dsimp only at hf
    split at hf
    case h_1 hat => rw [Folder.look?, hat, Option.map_none]
    case h_2 => cases hf
    case h_3 =>
      split_ifs at hf
      cases hf
  · rw [hres] at hf
    exact hnone (Except.error.inj hf)

/-- What is moved takes the place of the target, and nothing else is changed. -/
lemma Site.rename_eq_ok {source target : FilePath} {hidden : FileName} (h : Site c f root)
    (hs : c.Under source (q ++ [hidden])) (hsn : Plain (q ++ [hidden]))
    (ht : c.Under target (q ++ [n])) (htn : Plain (q ++ [n]))
    (hfile : f.look? (root ++ q ++ [hidden]) = some (.file contents))
    (hf : f.rename source target = .ok f') :
    f.look? (root ++ q) = some .folder ∧ f.look? (root ++ q ++ [n]) ≠ some .folder ∧
      f' = (f.unset (root ++ q ++ [hidden])).set (root ++ q ++ [n]) (.file contents) := by
  rw [Folder.rename] at hf
  rcases h.resolve_concat false hs hsn with ⟨hres, hfolder⟩ | ⟨e, hres, -⟩
  case inr =>
    rw [hres] at hf
    cases hf
  rcases h.resolve_concat false ht htn with ⟨hres', -⟩ | ⟨e, hres', -⟩
  case inr =>
    rw [hres, hres'] at hf
    cases hf
  have hat : f.at? (root ++ q ++ [hidden]) = some (.file contents) := Folder.look?_eq_file.mp hfile
  rw [hres, hres'] at hf
  dsimp only at hf
  rw [hat] at hf
  dsimp only at hf
  split_ifs at hf
  split at hf
  case h_1 => cases hf
  case h_2 hnot =>
    cases hf
    refine ⟨hfolder, ?_, rfl⟩
    intro hlook
    obtain ⟨g, hg⟩ := Folder.look?_eq_folder.mp hlook
    exact hnot g hg

/-! ## Objects -/

/-- The path of the file of an object. -/
lemma exists_path (h : ObjectName.segments name = .ok segs) :
    ∃ init s, segs = init ++ [s] ∧ c.path name = .ok ⟨c.base ++ init.map .text ++ [FileName.text s]⟩ ∧
      (∀ n ∈ init.map FileName.text, IsSegment n) ∧ IsSegment (.text s) := by
  obtain ⟨rfl, hproper⟩ := ObjectName.segments_eq_ok_iff.mp h
  have hseg : ∀ s ∈ ObjectName.pieces name, IsSegment (.text s) := fun s hs =>
    ⟨s, rfl, hproper s hs, ObjectName.separator_not_mem_of_mem_pieces hs⟩
  rcases List.eq_nil_or_concat (ObjectName.pieces name) with hnil | ⟨init, s, he⟩
  · exact absurd hnil ObjectName.pieces_ne_nil
  rw [List.concat_eq_append] at he
  refine ⟨init, s, he, ?_, ?_, hseg s (by rw [he]; simp)⟩
  · rw [path, h]
    dsimp only
    rw [he, List.map_append, List.append_assoc]
    rfl
  · intro n hn
    obtain ⟨s', hs', rfl⟩ := List.mem_map.mp hn
    exact hseg s' (by rw [he]; exact List.mem_append_left _ hs')

lemma path_eq {init : List String} (hname : ObjectName.segments name = .ok (init ++ [s]))
    (h : c.path name = .ok path) :
    path = ⟨c.base ++ init.map .text ++ [FileName.text s]⟩ ∧ (∀ n ∈ init.map FileName.text, IsSegment n) ∧
      IsSegment (.text s) := by
  obtain ⟨init', s', he, hpath, hseg⟩ := exists_path (c := c) hname
  obtain ⟨rfl, hs⟩ := List.append_inj' he rfl
  obtain rfl := List.singleton_inj.mp hs
  exact ⟨Except.ok.inj (h.symm.trans hpath), hseg⟩

/-- A path that an object has goes on from the root by the segments of its name. -/
lemma exists_of_path (h : c.path name = .ok path) :
    ∃ init s, ObjectName.segments name = .ok (init ++ [s]) ∧
      path = ⟨c.base ++ init.map .text ++ [FileName.text s]⟩ ∧ (∀ n ∈ init.map FileName.text, IsSegment n) ∧
        IsSegment (.text s) := by
  obtain ⟨segs, hname⟩ : ∃ segs, ObjectName.segments name = .ok segs := by
    rw [FolderClient.path] at h
    split at h
    case h_1 => cases h
    case h_2 segs hname => exact ⟨segs, hname⟩
  obtain ⟨init, s, rfl, hpath, hseg⟩ := exists_path (c := c) hname
  exact ⟨init, s, hname, Except.ok.inj (h.symm.trans hpath), hseg⟩

lemma proper_of_segments (h : ObjectName.segments name = .ok segs) :
    ∀ s ∈ segs, ObjectName.Proper s :=
  (ObjectName.segments_eq_ok_iff.mp h).2

/-- The place of one object is not that of another. -/
lemma place_eq_iff {init : List String} {segs' : List String} :
    root ++ segs'.map .text = root ++ init.map .text ++ [FileName.text s] ↔ segs' = init ++ [s] := by
  rw [List.append_assoc, List.append_cancel_left_eq, ← map_text_inj, List.map_append]
  rfl

/-- A hidden file that is moved to the place of an object makes it hold what was written. -/
lemma Rooted.move {hidden : FileName} {init : List String} (contents : ByteArray)
    (hr : Rooted f₀ root f) (hp : f.look? (root ++ init.map .text) = some .folder)
    (hfile : f.look? (root ++ init.map .text ++ [hidden]) ≠ some .folder)
    (hhidden : objectSegment? hidden = none)
    (hn : f.look? (root ++ init.map .text ++ [FileName.text s]) ≠ some .folder) (hs : IsSegment (.text s)) :
    Rooted f₀ root ((f.unset (root ++ init.map .text ++ [hidden])).set
        (root ++ init.map .text ++ [FileName.text s]) (.file contents)) ∧
      ∀ segs, (∀ s ∈ segs, ObjectName.Proper s) →
        object? ((f.unset (root ++ init.map .text ++ [hidden])).set
            (root ++ init.map .text ++ [FileName.text s]) (.file contents)) root segs =
          if segs = init ++ [s] then some contents else object? f root segs := by
  obtain ⟨hr₁, hlook₁⟩ := hr.unset hp hfile
  have hp₁ : (f.unset (root ++ init.map .text ++ [hidden])).look? (root ++ init.map .text) =
      some .folder := by
    rw [hlook₁, if_neg (by simp), hp]
  have hn₁ : (f.unset (root ++ init.map .text ++ [hidden])).look?
      (root ++ init.map .text ++ [FileName.text s]) ≠ some .folder := by
    rw [hlook₁]
    split_ifs
    · exact nofun
    · exact hn
  obtain ⟨hr₂, hlook₂⟩ := hr₁.set (.file contents) hp₁ hn₁ (.inr ⟨contents, rfl, .inl hs⟩)
  refine ⟨hr₂, ?_⟩
  intro segs hsegs
  rw [object?, object?, hlook₂, hlook₁, if_neg (ne_of_hidden (fun s hmem => (hsegs s hmem).isObject) hhidden)]
  simp only [place_eq_iff]
  split_ifs <;> rfl

lemma isSegment_concat (hq : ∀ m ∈ q, IsSegment m) (hn : IsSegment n) : ∀ m ∈ q ++ [n], IsSegment m := by
  intro m hm
  rcases List.mem_append.mp hm with hm | hm
  · exact hq m hm
  · rw [List.mem_singleton.mp hm]
    exact hn

lemma under_object {init : List String} (hinit : ∀ n ∈ init.map FileName.text, IsSegment n)
    (hs : IsSegment (.text s)) :
    c.Under ⟨c.base ++ init.map .text ++ [FileName.text s]⟩ (init.map .text ++ [FileName.text s]) ∧
      Plain (init.map .text ++ [FileName.text s]) := by
  have hall := isSegment_concat hinit hs
  rw [List.append_assoc]
  exact ⟨under_base hall, plain_of_isSegment hall⟩

/-- An object that is created holds what was written, and no other object is changed. A creation that
fails changes none. -/
theorem create_spec (contents : ByteArray) (h : Opening c f₀ root) (hr : Rooted f₀ root f)
    (hname : ObjectName.segments name = .ok segs) :
    (∃ f', create f c name contents = (.ok (), f') ∧ Rooted f₀ root f' ∧
      ∀ segs', (∀ s ∈ segs', ObjectName.Proper s) →
        object? f' root segs' = if segs' = segs then some contents else object? f root segs') ∨
    ∃ e f', create f c name contents = (.error e, f') ∧ Keeps f₀ root f f' := by
  obtain ⟨init, s, rfl, hpath, hinit, hs⟩ := exists_path (c := c) hname
  have hstaged := under_staging (c := c) hinit hs
  have hplain := plain_staged (s := s) hinit
  obtain ⟨hunder, hplain'⟩ := under_object (c := c) hinit hs
  rw [create, hpath]
  dsimp only
  -- Until the move, a failure leaves new folders and a hidden file behind at most.
  have hmake := makeFolders_keeps h hr hinit hs
  cases hm : f.makeFolders (FilePath.parent ⟨c.base ++ init.map .text ++ [FileName.text s]⟩) with
  | mk r f₁ =>
  rw [hm] at hmake
  cases r with
  | error e => exact .inr ⟨_, _, rfl, hmake⟩
  | ok =>
  dsimp only
  cases hw : f₁.writeFile (staging ⟨c.base ++ init.map .text ++ [FileName.text s]⟩) contents with
  | error e => exact .inr ⟨_, _, rfl, hmake⟩
  | ok f₂ =>
  dsimp only
  obtain ⟨hwrite, hfile⟩ :=
    writeFile_keeps h hmake.rooted hstaged hplain objectSegment?_staged hw
  have hkeeps := hmake.trans hwrite
  cases hmove : f₂.rename (staging ⟨c.base ++ init.map .text ++ [FileName.text s]⟩)
    ⟨c.base ++ init.map .text ++ [FileName.text s]⟩ with
  | error e =>
    dsimp only
    cases hrem : f₂.remove (staging ⟨c.base ++ init.map .text ++ [FileName.text s]⟩) with
    | error e' => exact .inr ⟨_, _, rfl, hkeeps⟩
    | ok f₃ =>
      obtain ⟨hfolder, hnot, rfl⟩ := (h.site hkeeps.rooted).remove_eq_ok hstaged hplain hrem
      exact .inr ⟨_, _, rfl, hkeeps.trans
        (hkeeps.rooted.keeps_unset hfolder hnot objectSegment?_staged)⟩
  | ok f₃ =>
    obtain ⟨hfolder, hnot, rfl⟩ :=
      (h.site hkeeps.rooted).rename_eq_ok hstaged hplain hunder hplain' hfile hmove
    obtain ⟨hr₃, hobjects⟩ := hkeeps.rooted.move contents hfolder (by rw [hfile]; exact nofun)
      objectSegment?_staged hnot hs
    refine .inl ⟨_, rfl, hr₃, ?_⟩
    intro segs' hsegs'
    rw [hobjects segs' hsegs', hkeeps.objects segs' hsegs']

/-- An object that is deleted is gone, and no other object is changed. A deletion that fails changes
none. -/
theorem delete_spec (h : Opening c f₀ root) (hr : Rooted f₀ root f)
    (hname : ObjectName.segments name = .ok segs) :
    (∃ f', delete f c name = (.ok (), f') ∧ Rooted f₀ root f' ∧
      ∀ segs', (∀ s ∈ segs', ObjectName.Proper s) →
        object? f' root segs' = if segs' = segs then none else object? f root segs') ∨
    ∃ e, delete f c name = (.error e, f) := by
  obtain ⟨init, s, rfl, hpath, hinit, hs⟩ := exists_path (c := c) hname
  obtain ⟨hunder, hplain⟩ := under_object (c := c) hinit hs
  rw [delete, hpath]
  dsimp only
  split
  case h_1 f' hrem =>
    obtain ⟨hfolder, hnot, rfl⟩ := (h.site hr).remove_eq_ok hunder hplain hrem
    obtain ⟨hr', hlook⟩ := hr.unset hfolder hnot
    refine .inl ⟨_, rfl, hr', ?_⟩
    intro segs' _
    rw [object?, object?, hlook]
    simp only [place_eq_iff]
    split_ifs <;> rfl
  case h_2 hrem =>
    have hnone := (h.site hr).remove_eq_notFound hunder hplain hrem
    refine .inl ⟨f, rfl, hr, ?_⟩
    intro segs' _
    split_ifs with he
    · rw [object?, place_eq_iff.mpr he, hnone]
    · rfl
  case h_3 e _ _ => exact .inr ⟨_, rfl⟩

end FolderClient

end StoreLock
