import StoreLock.Proofs.Folder.Name
import StoreLock.Proofs.Folder.Way
import StoreLock.Store.FolderClient

/-!
# The root of a store

What is below the root of a store that only the store has touched (`FolderClient.Rooted`): folders and
files with names of segments, and hidden files, each name once in a folder. Everything else is as it was
before, so the path of the root still leads there (`Opening.site`). Where it does and no links are below, a path
below the root leads to the place that its names say or nowhere (`Site.resolve`).

Of what is below the root, the objects are the files whose names are all segments (`FolderClient.object?`).
-/

namespace StoreLock

namespace FolderClient

/-- The name of a file of an object, or of a folder that one may be in. -/
def IsSegment (n : FileName) : Prop :=
  ∃ s, n = .text s ∧ ObjectName.Proper s ∧ ObjectName.separator ∉ s.toList

/-- What the object with these segments holds. -/
def object? (f : Folder) (root : Place) (segs : List String) : Option ByteArray :=
  match f.look? (root ++ segs.map .text) with
  | some (.file contents) => some contents
  | _ => none

/-- The root of a store is an empty folder at this place. -/
structure Opening (c : FolderClient) (f : Folder) (root : Place) : Prop where
  nul : c.root.pieces.any FileName.hasNul = false
  short : c.root.isTooLong = false
  found : ∃ slash, followAt f.look? true Folder.maxLinks [] c.root.names c.root.endsInSlash =
    .ok ⟨root, slash⟩
  empty : f.at? root = some (.folder .empty)

/-- What a store makes of the tree that it was opened in. -/
structure Rooted (f₀ : Folder) (root : Place) (f : Folder) : Prop where
  folder : f.look? root = some .folder
  outside : ∀ q, Apart root q → f.look? q = f₀.look? q
  links : ∀ q target, f.look? (root ++ q) ≠ some (.link target)
  named : ∀ q n, f.look? (root ++ (q ++ [n])) ≠ none →
    IsSegment n ∨
      (objectSegment? n = none ∧ ∃ contents, f.look? (root ++ (q ++ [n])) = some (.file contents))
  clear : ∀ g, f.at? root = some (.folder g) → g.Clear

/-- The path of the root leads to a folder at this place, and no links are below. -/
structure Site (c : FolderClient) (f : Folder) (root : Place) : Prop where
  nul : c.root.pieces.any FileName.hasNul = false
  short : c.root.isTooLong = false
  found : ∃ slash, followAt f.look? true Folder.maxLinks [] c.root.names c.root.endsInSlash =
    .ok ⟨root, slash⟩
  folder : f.look? root = some .folder
  links : ∀ q target, f.look? (root ++ q) ≠ some (.link target)

/-- The pieces that the paths of all objects begin with. -/
def base (c : FolderClient) : List FileName :=
  if c.root.endsInSlash then c.root.pieces.dropLast else c.root.pieces

/-- The path of the root without what follows its last name. -/
def home (c : FolderClient) : FilePath :=
  ⟨(c.base.reverse.dropWhile FilePath.stays).reverse⟩

/-- A path on which these names follow the root. -/
def Under (c : FolderClient) (path : FilePath) (names : List FileName) : Prop :=
  path.names = c.root.names ++ names ∨ path.names = c.home.names ++ names

variable {c : FolderClient} {f f₀ : Folder} {root q : Place} {n : FileName} {names : List FileName}
  {path : FilePath}

/-! ## Where the root is -/

lemma apart_self : Apart root root := by
  intro n r h
  simpa using congrArg List.length h

lemma not_apart {x : Place} (h : Apart root x) : x ≠ root ++ q ++ [n] := by
  intro he
  rw [he, Apart] at h
  cases q with
  | nil => exact h n [] (by simp)
  | cons m q => exact h m (q ++ [n]) (by simp)

namespace Opening

lemma of_readFolder (h : f.readFolder c.root = .ok .empty) : ∃ root, Opening c f root := by
  obtain ⟨hnul, hshort, landing, hf, hat⟩ := Folder.readFolder_eq_ok_iff.mp h
  exact ⟨landing.place, hnul, hshort, ⟨landing.slash, hf⟩, hat⟩

/-- Nothing is below the root. -/
lemma nothing (h : Opening c f root) (n : FileName) (r : Place) : f.look? (root ++ n :: r) = none := by
  rw [Folder.look?_append h.empty, Folder.look?_cons]
  rfl

lemma rooted (h : Opening c f root) : Rooted f root f where
  folder := Folder.look?_eq_folder.mpr ⟨_, h.empty⟩
  outside _ _ := rfl
  links q target hq := by
    cases q with
    | nil =>
      rw [List.append_nil, Folder.look?_eq_folder.mpr ⟨_, h.empty⟩] at hq
      cases hq
    | cons n q =>
      rw [h.nothing] at hq
      cases hq
  named q n hq := by
    obtain ⟨m, r, hm⟩ : ∃ m r, q ++ [n] = m :: r := List.exists_cons_of_ne_nil (by simp)
    rw [hm] at hq
    exact absurd (h.nothing m r) hq
  clear g hg := by
    cases h.empty.symm.trans hg
    trivial

/-- The path of the root leads there whatever the store has put below. -/
lemma site (h : Opening c f₀ root) (hr : Rooted f₀ root f) : Site c f root where
  nul := h.nul
  short := h.short
  found := by
    obtain ⟨slash, hf⟩ := h.found
    exact ⟨slash, followAt_eq_of_apart hr.outside h.nothing hf apart_self⟩
  folder := hr.folder
  links := hr.links

end Opening

namespace Site

lemma readFolder (h : Site c f root) :
    ∃ g, f.at? root = some (.folder g) ∧ f.readFolder c.root = .ok g := by
  obtain ⟨g, hg⟩ := Folder.look?_eq_folder.mp h.folder
  obtain ⟨slash, hf⟩ := h.found
  exact ⟨g, hg, Folder.readFolder_eq_ok_iff.mpr ⟨h.nul, h.short, ⟨root, slash⟩, hf, hg⟩⟩

lemma leads (h : Site c f root) : Leads f.look? c.root.names root := by
  obtain ⟨slash, hf⟩ := h.found
  exact Leads.of_follow f.isTree hf h.folder

end Site

/-! ## Names on paths -/

lemma names_base : c.base.filter (fun piece => piece ≠ .text "") = c.root.names := by
  rw [base, FilePath.names]
  split_ifs with h
  · rw [FilePath.endsInSlash, beq_iff_eq] at h
    obtain ⟨before, hb⟩ := List.getLast?_eq_some_iff.mp h
    rw [hb, List.dropLast_concat, List.filter_append]
    simp
  · rfl

/-- What follows the last name of a path can be left out. -/
lemma leads_dropWhile {look : Place → Option FileKind} {pieces : List FileName} (ht : IsTree look)
    (h : Leads look (pieces.reverse.filter fun piece => piece ≠ .text "") root) :
    Leads look
      (((pieces.dropWhile FilePath.stays).reverse).filter fun piece => piece ≠ .text "") root := by
  induction pieces with
  | nil => exact h
  | cons piece pieces ih =>
    by_cases hs : FilePath.stays piece = true
    case neg =>
      rw [List.dropWhile_cons_of_neg hs]
      exact h
    case pos =>
      rw [List.dropWhile_cons_of_pos hs]
      apply ih
      rw [List.reverse_cons, List.filter_append] at h
      rw [FilePath.stays, Bool.or_eq_true, decide_eq_true_eq, decide_eq_true_eq] at hs
      rcases hs with rfl | rfl
      · simpa using h
      · apply Leads.of_dot ht
        simpa using h

lemma leads_home (h : Leads f.look? c.root.names root) : Leads f.look? c.home.names root := by
  rw [← names_base, ← List.reverse_reverse c.base] at h
  exact leads_dropWhile f.isTree h

/-- Names that follow the root on a path are walked along from there. -/
lemma Under.followAt_eq (hu : c.Under path names) (h : Leads f.look? c.root.names root)
    (hne : names ≠ []) :
    ∃ links, ∀ followsLast slash,
      followAt f.look? followsLast Folder.maxLinks [] path.names slash =
        followAt f.look? followsLast links root names slash := by
  rcases hu with hu | hu
  · obtain ⟨-, links, hon⟩ := h
    exact ⟨links, fun _ _ => by rw [hu, hon _ _ _ hne]⟩
  · obtain ⟨-, links, hon⟩ := leads_home h
    exact ⟨links, fun _ _ => by rw [hu, hon _ _ _ hne]⟩

/-- A path below the root leads to the place that its names say, which is in a folder, or nowhere. If it
leads nowhere for want of something on the way, nothing is at that place. -/
lemma Site.resolve (followsLast : Bool) (h : Site c f root) (hu : c.Under path names) (hn : Plain names)
    (hne : names ≠ []) :
    (f.resolve followsLast path = .ok ⟨root ++ names, path.endsInSlash⟩ ∧
      f.look? (root ++ names.dropLast) = some .folder) ∨
    ∃ e, f.resolve followsLast path = .error e ∧ (e = .notFound → f.look? (root ++ names) = none) := by
  rw [Folder.resolve_eq]
  split_ifs
  · exact .inr ⟨_, rfl, nofun⟩
  · exact .inr ⟨_, rfl, nofun⟩
  · obtain ⟨links, hlead⟩ := hu.followAt_eq h.leads hne
    rw [hlead]
    exact followAt_plain links path.endsInSlash f.isTree h.folder hn hne h.links

end FolderClient

end StoreLock
