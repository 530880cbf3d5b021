import StoreLock.Proofs.Folder.Root

/-!
# What a store changes

A store puts files and empty folders below its root, where no folder is, and takes files away. What it
makes of the tree stays as it should be (`Rooted.set`, `Rooted.unset`), and each such step changes what is
at one place. So an object can be changed by a step at its own place only: the folders around objects and
the hidden files that are written first make no difference to any (`FolderClient.Keeps`).
-/

namespace StoreLock

namespace FolderClient

/-- A step that keeps the objects. -/
structure Keeps (f₀ : Folder) (root : Place) (f f' : Folder) : Prop where
  rooted : Rooted f₀ root f'
  objects : ∀ segs, (∀ s ∈ segs, ObjectName.Proper s) → object? f' root segs = object? f root segs

variable {c : FolderClient} {f f' f₁ f₂ f₀ : Folder} {root q : Place} {n : FileName}
  {names : List FileName} {node : FileNode} {path : FilePath} {segs : List String} {s name : String}
  {contents : ByteArray}

/-! ## Names of segments -/

lemma isSegment_text : IsSegment (.text s) ↔ ObjectName.Proper s ∧ ObjectName.separator ∉ s.toList := by
  constructor
  · rintro ⟨t, ht, hproper⟩
    exact (FileName.text.inj ht) ▸ hproper
  · intro hproper
    exact ⟨s, rfl, hproper⟩

lemma IsSegment.ne_empty (h : IsSegment n) : n ≠ .text "" := by
  obtain ⟨s, rfl, hp, -⟩ := h
  intro he
  cases he
  exact absurd hp.isObject (by decide)

lemma IsSegment.ne_dot (h : IsSegment n) : n ≠ .text "." := by
  obtain ⟨s, rfl, hp, -⟩ := h
  intro he
  cases he
  exact absurd hp.isObject (by decide)

lemma IsSegment.ne_dots (h : IsSegment n) : n ≠ .text ".." := by
  obtain ⟨s, rfl, hp, -⟩ := h
  intro he
  cases he
  exact absurd hp.isObject (by decide)

lemma IsSegment.not_stays (h : IsSegment n) : ¬ FilePath.stays n = true := by
  simp [FilePath.stays, h.ne_empty, h.ne_dot]

lemma plain_of_isSegment (h : ∀ n ∈ names, IsSegment n) : Plain names :=
  fun n hn => ⟨(h n hn).ne_dot, (h n hn).ne_dots⟩

lemma names_of_isSegment (h : ∀ n ∈ names, IsSegment n) :
    names.filter (fun piece => piece ≠ .text "") = names := by
  rw [List.filter_eq_self]
  intro n hn
  rw [decide_eq_true_eq]
  exact (h n hn).ne_empty

/-- The path that goes on from the root by segments. -/
lemma under_base (h : ∀ n ∈ names, IsSegment n) : c.Under ⟨c.base ++ names⟩ names := by
  left
  rw [FilePath.names, List.filter_append, names_base, names_of_isSegment h]

/-- A hidden file belongs to no object. -/
lemma objectSegment?_staged : objectSegment? (.text (ObjectName.staged s)) = none := by
  rw [objectSegment?, ObjectName.isObjectSegment_staged, if_neg Bool.false_ne_true]

lemma IsSegment.ne_staged (h : IsSegment n) : n ≠ .text (ObjectName.staged s) := by
  rintro rfl
  have hobject := (isSegment_text.mp h).1.isObject
  rw [ObjectName.isObjectSegment_staged] at hobject
  cases hobject

lemma staged_ne {t : String} (h : t.utf8ByteSize < 5) : FileName.text (ObjectName.staged s) ≠ .text t :=
  fun he => ObjectName.ne_staged h (FileName.text.inj he)

lemma plain_staged (h : ∀ n ∈ q, IsSegment n) : Plain (q ++ [.text (ObjectName.staged s)]) := by
  intro n hn
  rcases List.mem_append.mp hn with hn | hn
  · exact plain_of_isSegment h n hn
  · rw [List.mem_singleton.mp hn]
    exact ⟨staged_ne (by decide), staged_ne (by decide)⟩

/-! ## One place -/

namespace Rooted

/-- A change of what is at one place below the root, by which no link comes there. -/
lemma change {kind : Option FileKind} (hr : Rooted f₀ root f)
    (hlook : ∀ x, f'.look? x = if x = root ++ q ++ [n] then kind else f.look? x)
    (hlink : ∀ target, kind ≠ some (.link target))
    (hkind : kind ≠ none →
      IsSegment n ∨ (objectSegment? n = none ∧ ∃ contents, kind = some (.file contents)))
    (hclear : ∀ g, f'.at? root = some (.folder g) → g.Clear) : Rooted f₀ root f' := by
  refine ⟨?_, ?_, ?_, ?_, hclear⟩
  · rw [hlook, if_neg (not_apart apart_self)]
    exact hr.folder
  · intro x hx
    rw [hlook, if_neg (not_apart hx)]
    exact hr.outside x hx
  · intro x target
    rw [hlook]
    split_ifs
    · exact hlink target
    · exact hr.links x target
  · intro x m hm
    rw [hlook] at hm ⊢
    by_cases he : root ++ (x ++ [m]) = root ++ q ++ [n]
    case neg =>
      rw [if_neg he] at hm ⊢
      exact hr.named x m hm
    case pos =>
      have hmn : m = n := by
        rw [List.append_assoc, List.append_cancel_left_eq] at he
        simpa using congrArg List.getLast? he
      rw [if_pos he] at hm ⊢
      rw [hmn]
      exact hkind hm

/-- A change of one folder leaves one entry for every name if it does so there. -/
lemma clear_modify {change : Folder → Folder} (hr : Rooted f₀ root f)
    (hc : ∀ g : Folder, g.Clear → (change g).Clear) (g : Folder)
    (hg : (f.modify change (root ++ q)).at? root = some (.folder g)) : g.Clear := by
  obtain ⟨g₁, hg₁⟩ := Folder.look?_eq_folder.mp hr.folder
  rw [Folder.modify_append, Folder.at?_modify hg₁] at hg
  cases hg
  exact (hr.clear g₁ hg₁).modify hc

/-- A file or an empty folder is put below the root where no folder is. -/
lemma set (node : FileNode) (hr : Rooted f₀ root f) (hp : f.look? (root ++ q) = some .folder)
    (hn : f.look? (root ++ q ++ [n]) ≠ some .folder)
    (hnode : (node = .folder .empty ∧ IsSegment n) ∨
      ∃ contents, node = .file contents ∧ (IsSegment n ∨ objectSegment? n = none)) :
    Rooted f₀ root (f.set (root ++ q ++ [n]) node) ∧
      ∀ x, (f.set (root ++ q ++ [n]) node).look? x =
        if x = root ++ q ++ [n] then node.look? [] else f.look? x := by
  have hleaf : ∀ m r, node.look? (m :: r) = none := by
    intro m r
    rcases hnode with ⟨rfl, -⟩ | ⟨contents, rfl, -⟩
    · rw [FileNode.look?, Folder.look?_cons]
      rfl
    · rfl
  have hlook (x : Place) := Folder.look?_set_leaf (q := x) hp hn hleaf
  refine ⟨hr.change hlook ?_ ?_ ?_, hlook⟩
  · intro target
    rcases hnode with ⟨rfl, -⟩ | ⟨contents, rfl, -⟩
    · simp [FileNode.look?]
    · simp [FileNode.look?, FileNode.kind]
  · intro _
    rcases hnode with ⟨-, hseg⟩ | ⟨contents, rfl, hseg | hhidden⟩
    · exact .inl hseg
    · exact .inl hseg
    · exact .inr ⟨hhidden, contents, rfl⟩
  · rw [Folder.set_append]
    apply hr.clear_modify
    intro g hg
    apply hg.insert
    intro inside hin
    rcases hnode with ⟨rfl, -⟩ | ⟨contents, rfl, -⟩
    · cases hin
      trivial
    · cases hin

/-- An entry below the root that is no folder is taken away. -/
lemma unset (hr : Rooted f₀ root f) (hp : f.look? (root ++ q) = some .folder)
    (hn : f.look? (root ++ q ++ [n]) ≠ some .folder) :
    Rooted f₀ root (f.unset (root ++ q ++ [n])) ∧
      ∀ x, (f.unset (root ++ q ++ [n])).look? x =
        if x = root ++ q ++ [n] then none else f.look? x := by
  have hlook (x : Place) := Folder.look?_unset_leaf (q := x) hp hn
  refine ⟨hr.change hlook (by simp) (by simp) ?_, hlook⟩
  rw [Folder.unset_append]
  exact hr.clear_modify fun g hg => hg.erase

end Rooted

namespace Keeps

lemma refl (hr : Rooted f₀ root f) : Keeps f₀ root f f :=
  ⟨hr, fun _ _ => rfl⟩

lemma trans (h : Keeps f₀ root f f₁) (h' : Keeps f₀ root f₁ f₂) : Keeps f₀ root f f₂ :=
  ⟨h'.rooted, fun segs hs => (h'.objects segs hs).trans (h.objects segs hs)⟩

end Keeps

lemma map_text_inj {segs segs' : List String} :
    segs.map FileName.text = segs'.map FileName.text ↔ segs = segs' := by
  constructor
  · intro h
    exact List.map_injective_iff.mpr (fun _ _ he => FileName.text.inj he) h
  · intro h
    rw [h]

/-- A folder that is put where nothing was keeps the objects. -/
lemma Rooted.keeps_folder (hr : Rooted f₀ root f) (hp : f.look? (root ++ q) = some .folder)
    (hn : f.look? (root ++ q ++ [n]) = none) (hseg : IsSegment n) :
    Keeps f₀ root f (f.set (root ++ q ++ [n]) (.folder .empty)) := by
  obtain ⟨hr', hlook⟩ := hr.set _ hp (by rw [hn]; exact nofun) (.inl ⟨rfl, hseg⟩)
  refine ⟨hr', ?_⟩
  intro segs _
  rw [object?, object?, hlook]
  split_ifs with he
  · rw [he, hn, FileNode.look?, Folder.look?_nil]
  · rfl

lemma ne_of_hidden (hs : ∀ s ∈ segs, ObjectName.isObjectSegment s = true) (hhidden : objectSegment? n = none) :
    root ++ segs.map .text ≠ root ++ q ++ [n] := by
  intro he
  rw [List.append_assoc, List.append_cancel_left_eq] at he
  have hmem : n ∈ segs.map FileName.text := by
    rw [he]
    simp
  obtain ⟨s, hsmem, rfl⟩ := List.mem_map.mp hmem
  rw [objectSegment?, if_pos (hs s hsmem)] at hhidden
  cases hhidden

/-- A hidden file that is written keeps the objects. -/
lemma Rooted.keeps_hidden (hr : Rooted f₀ root f) (hp : f.look? (root ++ q) = some .folder)
    (hn : f.look? (root ++ q ++ [n]) ≠ some .folder) (hhidden : objectSegment? n = none) :
    Keeps f₀ root f (f.set (root ++ q ++ [n]) (.file contents)) := by
  obtain ⟨hr', hlook⟩ := hr.set (.file contents) hp hn (.inr ⟨contents, rfl, .inr hhidden⟩)
  refine ⟨hr', ?_⟩
  intro segs hs
  rw [object?, object?, hlook, if_neg (ne_of_hidden (fun s hmem => (hs s hmem).isObject) hhidden)]

/-- A hidden file that is taken away keeps the objects. -/
lemma Rooted.keeps_unset (hr : Rooted f₀ root f) (hp : f.look? (root ++ q) = some .folder)
    (hn : f.look? (root ++ q ++ [n]) ≠ some .folder) (hhidden : objectSegment? n = none) :
    Keeps f₀ root f (f.unset (root ++ q ++ [n])) := by
  obtain ⟨hr', hlook⟩ := hr.unset hp hn
  refine ⟨hr', ?_⟩
  intro segs hs
  rw [object?, object?, hlook, if_neg (ne_of_hidden (fun s hmem => (hs s hmem).isObject) hhidden)]

end FolderClient

end StoreLock
