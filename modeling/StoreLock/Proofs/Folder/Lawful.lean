import StoreLock.Proofs.Folder.Root

/-!
# Trees without links

A folder that a file system keeps, if no links are in it or below: every name stands for one entry, and is one that
the file system takes (`Folder.Lawful`). This is so of an empty folder, and stays so where an entry is added
(`Lawful.file`, `Lawful.folder`) and where what is at one place is changed (`Lawful.of_place`).
-/

namespace StoreLock

/-- Whether a separator is in a name. No entry has such a name. -/
def FileName.hasSeparator : FileName → Bool
  | .text name => name.toList.contains ObjectName.separator
  | .bytes name => name.contains 0x2F

/-- What a file system asks of the name of an entry. -/
structure FileName.IsEntry (n : FileName) : Prop where
  separator : n.hasSeparator = false
  nul : n.hasNul = false
  short : n.length ≤ FileName.maxLength

namespace Folder

/-- A tree without links in which every name stands for one entry and is lawful. -/
structure Lawful (lawful : FileName → Prop) (top : Folder) : Prop where
  clear : top.Clear
  links : ∀ q target, top.look? q ≠ some (.link target)
  named : ∀ q n, top.look? (q ++ [n]) ≠ none → lawful n

variable {lawful lawful' : FileName → Prop} {top top' inside rest : Folder} {n : FileName} {node : FileNode}
  {p q : Place} {kind : Option FileKind} {contents : ByteArray}

namespace Lawful

lemma imp (h : top.Lawful lawful) (himp : ∀ n, lawful n → lawful' n) : top.Lawful lawful' :=
  ⟨h.clear, h.links, fun q n hn => himp n (h.named q n hn)⟩

lemma at? (h : top.Lawful lawful) (hat : top.at? p = some (.folder inside)) : inside.Lawful lawful := by
  refine ⟨h.clear.at? hat, ?_, ?_⟩
  · intro q target
    rw [← look?_append hat]
    exact h.links _ _
  · intro q n hn
    rw [← look?_append hat, ← List.append_assoc] at hn
    exact h.named _ _ hn

/-- All names on the way to what is there are lawful. -/
lemma of_mem (h : top.Lawful lawful) (hq : top.look? q ≠ none) : ∀ n ∈ q, lawful n := by
  intro n hn
  obtain ⟨before, after, rfl⟩ := List.append_of_mem hn
  apply h.named before n
  cases after with
  | nil => exact hq
  | cons m after =>
    rw [List.append_cons] at hq
    rw [look?_of_append hq]
    exact Option.some_ne_none _

/-- No separator is in a segment on the way to what is there. -/
lemma separator_not_mem {rel : List String} (h : top.Lawful (·.hasSeparator = false))
    (hrel : top.look? (rel.map .text) ≠ none) : ∀ s ∈ rel, ObjectName.separator ∉ s.toList := by
  intro s hs
  have hname := h.of_mem hrel (.text s) (List.mem_map_of_mem hs)
  simpa [FileName.hasSeparator] using hname

lemma empty : Folder.empty.Lawful lawful := by
  refine ⟨trivial, ?_, ?_⟩
  · intro q target
    cases q with
    | nil => simp
    | cons n q => simp [look?_cons, Folder.find?]
  · intro q n hn
    obtain ⟨m, r, hm⟩ : ∃ m r, q ++ [n] = m :: r := List.exists_cons_of_ne_nil (by simp)
    simp [hm, look?_cons, Folder.find?] at hn

/-- One more entry that is lawful leaves a tree lawful. -/
lemma entry (node : FileNode) (h : rest.Lawful lawful) (hn : lawful n) (hclear : top.Clear)
    (hfind : ∀ m, top.find? m = if n = m then some node else rest.find? m)
    (hlinks : ∀ q target, node.look? q ≠ some (.link target))
    (hnamed : ∀ q m, node.look? (q ++ [m]) ≠ none → lawful m) : top.Lawful lawful := by
  refine ⟨hclear, ?_, ?_⟩
  · intro q target
    cases q with
    | nil => simp
    | cons m q =>
      rw [look?_cons, hfind]
      split_ifs
      · exact hlinks q target
      · rw [← look?_cons]
        exact h.links _ _
  · intro q m hm
    cases q with
    | nil =>
      rw [List.nil_append, look?_cons, hfind] at hm
      split_ifs at hm with hnm
      · exact hnm ▸ hn
      · rw [← look?_cons] at hm
        exact h.named [] m hm
    | cons m' q =>
      rw [List.cons_append, look?_cons, hfind] at hm
      split_ifs at hm with hnm
      · exact hnamed q m hm
      · rw [← look?_cons] at hm
        exact h.named (m' :: q) m hm

lemma file (h : rest.Lawful lawful) (hn : lawful n) (hnone : rest.find? n = none) :
    (Folder.file n contents rest).Lawful lawful := by
  refine entry (.file contents) h hn ⟨hnone, h.clear⟩ (fun _ => rfl) ?_ ?_
  · intro q target
    cases q <;> simp [FileNode.look?, FileNode.kind]
  · intro q m hm
    cases q <;> simp [FileNode.look?] at hm

lemma folder (h : rest.Lawful lawful) (hn : lawful n) (hnone : rest.find? n = none)
    (hinside : inside.Lawful lawful) : (Folder.folder n inside rest).Lawful lawful :=
  entry (.folder inside) h hn ⟨hnone, hinside.clear, h.clear⟩ (fun _ => rfl) hinside.links hinside.named

/-- A tree stays lawful if no link comes to the one place that is changed. -/
lemma of_place (h : top.Lawful lawful) (hn : lawful n) (hclear : top'.Clear)
    (hlook : ∀ x, top'.look? x = if x = q ++ [n] then kind else top.look? x)
    (hkind : ∀ target, kind ≠ some (.link target)) : top'.Lawful lawful := by
  refine ⟨hclear, ?_, ?_⟩
  · intro x target
    rw [hlook]
    split_ifs
    · exact hkind target
    · exact h.links x target
  · intro x m hm
    rw [hlook] at hm
    split_ifs at hm with hx
    · obtain ⟨-, hmn⟩ := List.append_inj' hx rfl
      exact List.singleton_inj.mp hmn ▸ hn
    · exact h.named x m hm

end Lawful

end Folder

/-- A store can be used where the path of its root leads to a lawful tree. -/
lemma FolderClient.Site.of_lawful {c : FolderClient} {f top : Folder} {root : Place} {slash : Bool}
    {lawful : FileName → Prop} (hroot : f.resolve true c.root = .ok ⟨root, slash⟩)
    (hat : f.at? root = some (.folder top)) (h : top.Lawful lawful) : Site c f root := by
  obtain ⟨hnul, hshort, hf⟩ := Folder.resolve_eq_ok_iff.mp hroot
  refine ⟨hnul, hshort, ⟨slash, hf⟩, Folder.look?_eq_folder.mpr ⟨top, hat⟩, ?_⟩
  intro q target
  rw [Folder.look?_append hat]
  exact h.links q target

end StoreLock
