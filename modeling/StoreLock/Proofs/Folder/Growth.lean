import StoreLock.Proofs.Folder.Write

/-!
# Trees that grow

No step of a store takes a folder or a link away (`Grows`). Names that meet a link still meet it when a tree has
grown, and where they lead to something else, or to nothing, they lead to the same place (`Grows.followAt_eq`).
So the path of the root leads to the root as before (`Site.grows`), and the path of folders that have been made
leads to the innermost (`Folder.isFolder_of_makeFolders`).
-/

namespace StoreLock

/-- The folders and the links of a tree are in another tree as well. -/
structure Grows (look look' : Place → Option FileKind) : Prop where
  folder : ∀ p, look p = some .folder → look' p = some .folder
  link : ∀ p target, look p = some (.link target) → look' p = some (.link target)

variable {look look' look'' : Place → Option FileKind} {followsLast followsLast' slash : Bool} {links : Nat}
  {p q : Place} {n : FileName} {names rest : List FileName} {target : String} {landing : Folder.Landing}
  {kind : Option FileKind}

/-- One name that is not too long arrives where no link is. -/
lemma walkAt_last (hdot : n ≠ .text ".") (hdots : n ≠ .text "..") (hshort : ¬ FileName.maxLength < n.length)
    (h : ∀ target, look (p ++ [n]) ≠ some (.link target)) :
    walkAt look followsLast p [n] = .arrived (p ++ [n]) := by
  rw [walkAt_name hdot hdots, if_neg hshort]
  rcases hl : look (p ++ [n]) with - | (contents | target | -)
  · rfl
  · rfl
  · exact absurd hl (h target)
  · rfl

namespace Grows

lemma refl (look : Place → Option FileKind) : Grows look look :=
  ⟨fun _ h => h, fun _ _ h => h⟩

lemma trans (h : Grows look look') (h' : Grows look' look'') : Grows look look'' :=
  ⟨fun p hp => h'.folder p (h.folder p hp), fun p target hp => h'.link p target (h.link p target hp)⟩

/-- A tree grows where one place changes that has neither a folder nor a link. -/
lemma of_place (hlook : ∀ x, look' x = if x = p then kind else look x) (hfolder : look p ≠ some .folder)
    (hlink : ∀ target, look p ≠ some (.link target)) : Grows look look' := by
  constructor
  · intro x hx
    rw [hlook, if_neg (by rintro rfl; exact hfolder hx), hx]
  · intro x target hx
    rw [hlook, if_neg (by rintro rfl; exact hlink target hx), hx]

/-- Names that meet a link meet it in a tree that has grown. -/
lemma walkAt_link (h : Grows look look') (hlast : followsLast = true → followsLast' = true)
    (hw : walkAt look followsLast p names = .link q target rest) :
    walkAt look' followsLast' p names = .link q target rest := by
  induction names using names_induction generalizing p with
  | nil => cases hw
  | dot names ih =>
    rw [walkAt_dot] at hw ⊢
    exact ih hw
  | dots names ih =>
    rw [walkAt_dots] at hw ⊢
    exact ih hw
  | name n names hdot hdots ih =>
    rw [walkAt_name hdot hdots] at hw ⊢
    by_cases hlong : FileName.maxLength < n.length
    · rw [if_pos hlong] at hw
      cases hw
    rw [if_neg hlong] at hw ⊢
    rcases hl : look (p ++ [n]) with - | (contents | target' | -)
    · by_cases hnil : names = [] <;> simp [hl, hnil] at hw
    · by_cases hnil : names = [] <;> simp [hl, hnil] at hw
    · simp only [hl] at hw
      simp only [h.link _ _ hl]
      by_cases hend : names = [] ∧ ¬ followsLast = true
      · rw [if_pos hend] at hw
        cases hw
      · rw [if_neg hend] at hw
        rw [if_neg fun hend' => hend ⟨hend'.1, fun hfollow => hend'.2 (hlast hfollow)⟩]
        exact hw
    · simp only [hl] at hw
      simp only [h.folder _ hl]
      exact ih hw

/-- Names that arrive at a place that has no link, before and afterwards, arrive there in a tree that has
grown. -/
lemma walkAt_arrived (h : Grows look look') (hq : ∀ target, look q ≠ some (.link target))
    (hq' : ∀ target, look' q ≠ some (.link target)) (hw : walkAt look followsLast p names = .arrived q) :
    walkAt look' followsLast' p names = .arrived q := by
  induction names using names_induction generalizing p with
  | nil => exact hw
  | dot names ih =>
    rw [walkAt_dot] at hw ⊢
    exact ih hw
  | dots names ih =>
    rw [walkAt_dots] at hw ⊢
    exact ih hw
  | name n names hdot hdots ih =>
    rw [walkAt_name hdot hdots] at hw
    by_cases hlong : FileName.maxLength < n.length
    · rw [if_pos hlong] at hw
      cases hw
    rw [if_neg hlong] at hw
    rcases hl : look (p ++ [n]) with - | (contents | target | -)
    · simp only [hl] at hw
      split_ifs at hw with hnil
      cases hw
      rw [hnil]
      exact walkAt_last hdot hdots hlong hq'
    · simp only [hl] at hw
      split_ifs at hw with hnil
      cases hw
      rw [hnil]
      exact walkAt_last hdot hdots hlong hq'
    · simp only [hl] at hw
      split_ifs at hw
      cases hw
      exact absurd hl (hq target)
    · simp only [hl] at hw
      rw [walkAt_name hdot hdots, if_neg hlong]
      simp only [h.folder _ hl]
      exact ih hw

/-- Names that lead to a place that has no link, before and afterwards, lead there in a tree that has grown. -/
lemma followAt_eq (h : Grows look look') (hlast : followsLast = true → followsLast' = true)
    (hq : ∀ target, look landing.place ≠ some (.link target))
    (hq' : ∀ target, look' landing.place ≠ some (.link target))
    (hf : followAt look followsLast links p names slash = .ok landing) :
    followAt look' followsLast' links p names slash = .ok landing := by
  fun_induction followAt look followsLast links p names slash with
  | case1 links p names slash q hw =>
    cases hf
    exact followAt_of_arrived (h.walkAt_arrived hq hq' hw)
  | case2 => cases hf
  | case3 => cases hf
  | case4 p names slash q target rest hw links way start ih =>
    rw [followAt_of_link (h.walkAt_link hlast hw)]
    exact ih hf

end Grows

/-! ## Where something can be made -/

/-- Names that arrive at a place arrive at a folder or in one. -/
lemma IsTree.folder_of_walkAt (ht : IsTree look) (hp : look p = some .folder)
    (hw : walkAt look followsLast p names = .arrived q) :
    look q = some .folder ∨ ∃ outer n, q = outer ++ [n] ∧ look outer = some .folder := by
  fun_induction walkAt look followsLast p names with
  | case1 =>
    cases hw
    exact .inl hp
  | case2 p rest ih => exact ih hp hw
  | case3 p rest _ ih => exact ih (ht.dropLast hp) hw
  | case4 => cases hw
  | case5 =>
    cases hw
    exact .inr ⟨_, _, rfl, hp⟩
  | case6 => cases hw
  | case7 p n rest _ _ _ hl ih => exact ih hl hw
  | case8 =>
    cases hw
    exact .inr ⟨_, _, rfl, hp⟩
  | case9 => cases hw
  | case10 =>
    cases hw
    exact .inr ⟨_, _, rfl, hp⟩
  | case11 => cases hw

lemma IsTree.folder_of_followAt (ht : IsTree look) (hp : look p = some .folder)
    (hf : followAt look followsLast links p names slash = .ok landing) :
    look landing.place = some .folder ∨ ∃ outer n, landing.place = outer ++ [n] ∧ look outer = some .folder := by
  fun_induction followAt look followsLast links p names slash with
  | case1 links p names slash q hw =>
    cases hf
    exact ht.folder_of_walkAt hp hw
  | case2 => cases hf
  | case3 => cases hf
  | case4 p names slash q target rest hw links way start ih =>
    exact ih (look_linkStart target ht (look_of_walkAt ht hp hw)) hf

namespace Folder

variable {f f' : Folder} {path : FilePath} {node : FileNode} {around : Folder → Except FileFault Unit × Folder}

/-- Something can be put at a place that a path leads to, unless a folder is there. -/
lemma exists_outer (hres : f.resolve followsLast path = .ok landing) (hnot : f.look? landing.place ≠ some .folder) :
    ∃ outer n, landing.place = outer ++ [n] ∧ f.look? outer = some .folder := by
  obtain ⟨-, -, hf⟩ := resolve_eq_ok_iff.mp hres
  exact (f.isTree.folder_of_followAt look?_nil hf).resolve_left hnot

lemma isFolder_eq_true (hres : f.resolve true path = .ok landing) (hat : f.look? landing.place = some .folder) :
    f.isFolder path = true := by
  obtain ⟨g, hg⟩ := look?_eq_folder.mp hat
  rw [isFolder, readFolder, hres]
  dsimp only
  rw [hg]
  rfl

/-- The path of a folder that has been made leads to it. -/
lemma isFolder_of_makeFolder (h : f.makeFolder path = .ok f') : f'.isFolder path = true := by
  rw [makeFolder] at h
  cases hres : f.resolve false path with
  | error e =>
    rw [hres] at h
    cases h
  | ok landing =>
    rw [hres] at h
    dsimp only at h
    split at h
    case h_1 => cases h
    case h_2 hat =>
      cases h
      have hnone : f.look? landing.place = none := by
        rw [look?, hat, Option.map_none]
      obtain ⟨outer, n, hplace, houter⟩ := exists_outer hres (by simp [hnone])
      have hlook : ∀ x, (f.set landing.place (.folder .empty)).look? x =
          if x = landing.place then some .folder else f.look? x := by
        intro x
        rw [hplace] at hnone ⊢
        exact look?_set_folder houter hnone
      have hgrows : Grows f.look? (f.set landing.place (.folder .empty)).look? :=
        .of_place hlook (by simp [hnone]) (by simp [hnone])
      have hthere : (f.set landing.place (.folder .empty)).look? landing.place = some .folder := by
        rw [hlook, if_pos rfl]
      obtain ⟨hnul, hlong, hf⟩ := resolve_eq_ok_iff.mp hres
      have hfollow := hgrows.followAt_eq (fun _ => rfl) (by simp [hnone]) (by simp [hthere]) hf
      exact isFolder_eq_true (resolve_eq_ok_iff.mpr ⟨hnul, hlong, hfollow⟩) hthere

lemma isFolder_of_ensureFolder (h : f.ensureFolder path = .ok f') : f'.isFolder path = true := by
  rw [ensureFolder] at h
  split at h
  case h_1 hmake =>
    cases h
    exact isFolder_of_makeFolder hmake
  case h_2 =>
    split_ifs at h with hthere
    cases h
    exact hthere.2

lemma isFolder_of_ensureIn (h : f.ensureIn path around = (.ok (), f')) : f'.isFolder path = true := by
  rw [ensureIn] at h
  split at h
  case h_1 hmake =>
    cases h
    exact isFolder_of_ensureFolder hmake
  case h_2 =>
    split at h
    case h_1 => cases h
    case h_2 =>
      split at h
      case h_1 hmake =>
        cases h
        exact isFolder_of_ensureFolder hmake
      case h_2 => cases h
  case h_3 => cases h

/-- The path of folders that have been made leads to the innermost. -/
lemma isFolder_of_makeFolders (h : f.makeFolders path = (.ok (), f')) : f'.isFolder path = true :=
  isFolder_of_ensureIn h

end Folder

/-! ## The root -/

namespace FolderClient.Site

variable {c : FolderClient} {f f' : Folder} {root : Place}

/-- The path of the root leads there in a tree that has grown. -/
lemma grows (h : Site c f root) (hg : Grows f.look? f'.look?)
    (hlinks : ∀ q target, f'.look? (root ++ q) ≠ some (.link target)) : Site c f' root where
  nul := h.nul
  short := h.short
  found := by
    obtain ⟨slash, hf⟩ := h.found
    have hthere : f'.look? root = some .folder := hg.folder root h.folder
    exact ⟨slash, hg.followAt_eq id (by simp [h.folder]) (by simp [hthere]) hf⟩
  folder := hg.folder root h.folder
  links := hlinks

/-- A change below the root of what is at one place leaves the root where it is, if no folder was there and no
link comes there. -/
lemma of_place (h : Site c f root) (hlook : ∀ x, f'.look? x = if x = root ++ q ++ [n] then kind else f.look? x)
    (hnot : f.look? (root ++ q ++ [n]) ≠ some .folder) (hkind : ∀ target, kind ≠ some (.link target)) :
    Site c f' root := by
  apply h.grows
  · apply Grows.of_place hlook hnot
    intro target
    rw [List.append_assoc]
    exact h.links _ target
  · intro x target
    rw [hlook]
    split_ifs
    · exact hkind target
    · exact h.links x target

lemma set_folder (h : Site c f root) (hp : f.look? (root ++ q) = some .folder)
    (hnone : f.look? (root ++ q ++ [n]) = none) : Site c (f.set (root ++ q ++ [n]) (.folder .empty)) root :=
  h.of_place (fun _ => Folder.look?_set_folder hp hnone) (fun h => by rw [hnone] at h; cases h) (by simp)

lemma set_file (contents : ByteArray) (h : Site c f root) (hp : f.look? (root ++ q) = some .folder)
    (hn : f.look? (root ++ q ++ [n]) ≠ some .folder) : Site c (f.set (root ++ q ++ [n]) (.file contents)) root :=
  h.of_place (fun _ => Folder.look?_set_file contents hp hn) hn (by simp)

end FolderClient.Site

end StoreLock
