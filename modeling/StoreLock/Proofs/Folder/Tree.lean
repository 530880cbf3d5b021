import Mathlib
import StoreLock.Store.Folder

/-!
# The tree of folders

What a change does to a tree, told place by place. All that steps on a tree depend on is what is at a
place (`Folder.look?`): a file and what it holds, a link and its target, or a folder. An entry that is
put at a place, or taken away there, changes what is at this place and below, and nothing else.
-/

namespace StoreLock

/-- What is at a place, but for what is in a folder. -/
inductive FileKind
  | file (contents : ByteArray)
  | link (target : String)
  | folder

/-- What an entry is, but for what is in a folder. -/
def FileNode.kind : FileNode → FileKind
  | .file contents => .file contents
  | .link target => .link target
  | .folder _ => .folder

namespace Folder

/-- What is at a place, but for what is in a folder. -/
def look? (f : Folder) (place : Place) : Option FileKind :=
  (f.at? place).map (·.kind)

end Folder

/-- What is at a place from an entry on. -/
def FileNode.look? : FileNode → Place → Option FileKind
  | .folder inside, place => inside.look? place
  | node, [] => some node.kind
  | _, _ :: _ => none

namespace Folder

/-- Every name stands for one entry, here and in all folders below. -/
def Clear : Folder → Prop
  | .empty => True
  | .file name _ rest => rest.find? name = none ∧ rest.Clear
  | .link name _ rest => rest.find? name = none ∧ rest.Clear
  | .folder name inside rest => rest.find? name = none ∧ inside.Clear ∧ rest.Clear

variable {f g inside : Folder} {n m : FileName} {p q : Place} {node : FileNode}
  {change : Folder → Folder}

/-! ## One folder -/

lemma find?_erase (f : Folder) (n m : FileName) :
    (f.erase n).find? m = if n = m then none else f.find? m := by
  induction f with
  | empty => simp [erase, find?]
  | file name contents rest ih => grind [erase, find?]
  | link name target rest ih => grind [erase, find?]
  | folder name inside rest _ ih => grind [erase, find?]

lemma find?_insert (f : Folder) (n m : FileName) (node : FileNode) :
    (f.insert n node).find? m = if n = m then some node else f.find? m := by
  cases node <;> grind [insert, find?, find?_erase]

lemma erase_erase (f : Folder) (n : FileName) : (f.erase n).erase n = f.erase n := by
  induction f with
  | empty => rfl
  | file name contents rest ih => grind [erase]
  | link name target rest ih => grind [erase]
  | folder name inside rest _ ih => grind [erase]

/-- Only the last entry that is put under a name matters. -/
lemma insert_insert (f : Folder) (n : FileName) (node node' : FileNode) :
    (f.insert n node).insert n node' = f.insert n node' := by
  have herase : (f.insert n node).erase n = f.erase n := by
    cases node <;> simp [insert, erase, erase_erase]
  cases node' with
  | file contents => exact congrArg (Folder.file n contents) herase
  | link target => exact congrArg (Folder.link n target) herase
  | folder inside => exact congrArg (Folder.folder n inside) herase

/-! ## What is at a place -/

@[simp] lemma at?_nil : f.at? [] = some (.folder f) := by
  rw [at?]

lemma at?_cons : f.at? (n :: m :: p) =
    match f.find? n with
    | some (.folder inside) => inside.at? (m :: p)
    | _ => none :=
  rfl

lemma at?_singleton : f.at? [n] = f.find? n := by
  rw [at?]

@[simp] lemma look?_nil : f.look? [] = some .folder := by
  rw [look?, at?_nil]
  rfl

/-- What is at a place is what is there from its first entry on. -/
lemma look?_cons : f.look? (n :: p) = (f.find? n).bind (·.look? p) := by
  cases p with
  | nil =>
    rw [look?, at?_singleton]
    rcases f.find? n with - | (c | t | inside)
    · rfl
    · rfl
    · rfl
    · exact look?_nil.symm
  | cons m p =>
    rw [look?, at?_cons]
    rcases f.find? n with - | (c | t | inside) <;> rfl

lemma look?_eq_folder : f.look? p = some .folder ↔ ∃ g, f.at? p = some (.folder g) := by
  rw [look?, Option.map_eq_some_iff]
  constructor
  · intro h
    obtain ⟨node, hat, hk⟩ := h
    cases node with
    | folder g => exact ⟨g, hat⟩
    | file => cases hk
    | link => cases hk
  · intro h
    obtain ⟨g, hat⟩ := h
    exact ⟨_, hat, rfl⟩

lemma look?_eq_file {contents : ByteArray} :
    f.look? p = some (.file contents) ↔ f.at? p = some (.file contents) := by
  rw [look?, Option.map_eq_some_iff]
  constructor
  · rintro ⟨node, hat, hk⟩
    cases node with
    | file => exact (FileKind.file.inj hk) ▸ hat
    | link => cases hk
    | folder => cases hk
  · intro hat
    exact ⟨_, hat, rfl⟩

lemma at?_cons_of_folder (h : f.find? n = some (.folder inside)) : f.at? (n :: p) = inside.at? p := by
  cases p with
  | nil => rw [at?_singleton, h, at?_nil]
  | cons m p => rw [at?_cons, h]

/-- What is at a place that leads through a folder. -/
lemma at?_append (h : f.at? p = some (.folder g)) : f.at? (p ++ q) = g.at? q := by
  induction p generalizing f with
  | nil =>
    rw [at?_nil, Option.some.injEq, FileNode.folder.injEq] at h
    rw [h, List.nil_append]
  | cons n p ih =>
    cases p with
    | nil =>
      rw [at?_singleton] at h
      exact at?_cons_of_folder h
    | cons m p =>
      rw [at?_cons] at h
      split at h
      case h_1 inside hf =>
        rw [List.cons_append, at?_cons_of_folder hf]
        exact ih h
      case h_2 => cases h

lemma look?_append (h : f.at? p = some (.folder g)) : f.look? (p ++ q) = g.look? q := by
  rw [look?, look?, at?_append h]

/-- What has something in it is a folder. -/
lemma look?_of_append (h : f.look? (p ++ n :: q) ≠ none) : f.look? p = some .folder := by
  induction p generalizing f with
  | nil => exact look?_nil
  | cons m p ih =>
    rw [List.cons_append, look?_cons] at h
    rw [look?_cons]
    cases hf : f.find? m with
    | none =>
      rw [hf] at h
      exact absurd rfl h
    | some node =>
      rw [hf, Option.bind_some] at h
      rw [Option.bind_some]
      cases node with
      | folder inside => exact ih h
      | file =>
        cases p <;> exact absurd rfl h
      | link =>
        cases p <;> exact absurd rfl h

/-! ## Changes -/

lemma modify_append (f : Folder) (change : Folder → Folder) (p q : Place) :
    f.modify change (p ++ q) = f.modify (·.modify change q) p := by
  induction p generalizing f with
  | nil => rfl
  | cons n p ih =>
    rw [List.cons_append, modify, modify]
    split
    case h_1 inside hf => simp only [ih]
    case h_2 => rfl

lemma modify_cons_of_folder (h : f.find? n = some (.folder inside)) :
    f.modify change (n :: p) = f.insert n (.folder (inside.modify change p)) := by
  rw [modify, h]

/-- The folder at a place is changed. -/
lemma at?_modify (h : f.at? p = some (.folder g)) :
    (f.modify change p).at? p = some (.folder (change g)) := by
  induction p generalizing f with
  | nil =>
    rw [at?_nil, Option.some.injEq, FileNode.folder.injEq] at h
    rw [modify, h, at?_nil]
  | cons n p ih =>
    have hf : ∃ inside, f.find? n = some (.folder inside) ∧ inside.at? p = some (.folder g) := by
      cases p with
      | nil =>
        rw [at?_singleton] at h
        exact ⟨g, h, at?_nil⟩
      | cons m p =>
        rw [at?_cons] at h
        split at h
        case h_1 inside hf => exact ⟨inside, hf, h⟩
        case h_2 => cases h
    obtain ⟨inside, hf, hg⟩ := hf
    have hfind : (f.insert n (.folder (inside.modify change p))).find? n =
        some (.folder (inside.modify change p)) := by
      rw [find?_insert, if_pos rfl]
    rw [modify_cons_of_folder hf, at?_cons_of_folder hfind]
    exact ih hg

/-- Nothing is changed but below the folder that is. -/
lemma look?_modify_of_not_prefix (h : ¬ p <+: q) : (f.modify change p).look? q = f.look? q := by
  induction p generalizing f q with
  | nil => exact absurd List.nil_prefix h
  | cons n p ih =>
    rw [modify]
    split
    case h_1 inside hf =>
      cases q with
      | nil => rw [look?_nil, look?_nil]
      | cons m q =>
        rw [look?_cons, look?_cons, find?_insert]
        by_cases hnm : n = m
        · subst hnm
          rw [List.cons_prefix_cons, not_and] at h
          rw [if_pos rfl, hf]
          exact ih (h rfl)
        · rw [if_neg hnm]
    case h_2 => rfl

lemma modify_modify (f : Folder) (change change' : Folder → Folder) (p : Place) :
    (f.modify change p).modify change' p = f.modify (fun g => change' (change g)) p := by
  induction p generalizing f with
  | nil => rfl
  | cons n p ih =>
    cases hf : f.find? n with
    | none => simp only [modify, hf]
    | some node =>
      cases node with
      | file contents => simp only [modify, hf]
      | link target => simp only [modify, hf]
      | folder inside =>
        have hfind : (f.insert n (.folder (inside.modify change p))).find? n =
            some (.folder (inside.modify change p)) := by
          rw [find?_insert, if_pos rfl]
        rw [modify_cons_of_folder hf, modify_cons_of_folder hfind, modify_cons_of_folder hf, insert_insert, ih]

/-- Only the last entry that is put at a place matters. -/
lemma set_set (f : Folder) (p : Place) (node node' : FileNode) :
    (f.set p node).set p node' = f.set p node' := by
  cases hl : p.getLast? with
  | none => simp only [set, hl]
  | some n => simp only [set, hl, modify_modify, insert_insert]

lemma set_append (f : Folder) (p : Place) (n : FileName) (node : FileNode) :
    f.set (p ++ [n]) node = f.modify (·.insert n node) p := by
  rw [set, List.getLast?_concat, List.dropLast_concat]

lemma unset_append (f : Folder) (p : Place) (n : FileName) :
    f.unset (p ++ [n]) = f.modify (·.erase n) p := by
  rw [unset, List.getLast?_concat, List.dropLast_concat]

/-- What is put at a place is there, with all that is in it. -/
lemma look?_set (h : f.look? p = some .folder) :
    (f.set (p ++ [n]) node).look? (p ++ n :: q) = node.look? q := by
  obtain ⟨g, h⟩ := look?_eq_folder.mp h
  rw [set_append, look?_append (at?_modify h), look?_cons, find?_insert, if_pos rfl,
    Option.bind_some]

/-- Nothing is at a place, or below, where the entry is taken away. -/
lemma look?_unset (h : f.look? p = some .folder) :
    (f.unset (p ++ [n])).look? (p ++ n :: q) = none := by
  obtain ⟨g, h⟩ := look?_eq_folder.mp h
  rw [unset_append, look?_append (at?_modify h), look?_cons, find?_erase, if_pos rfl,
    Option.bind_none]

/-- A change of one entry of a folder leaves every place that does not lead through it. -/
lemma look?_modify_entry (hc : ∀ g m, m ≠ n → (change g).find? m = g.find? m)
    (hp : f.look? p = some .folder) (h : ¬ p ++ [n] <+: q) :
    (f.modify change p).look? q = f.look? q := by
  obtain ⟨g, hg⟩ := look?_eq_folder.mp hp
  by_cases hpq : p <+: q
  case neg => exact look?_modify_of_not_prefix hpq
  case pos =>
    obtain ⟨r, rfl⟩ := hpq
    rw [look?_append (at?_modify hg), look?_append hg]
    cases r with
    | nil => rw [look?_nil, look?_nil]
    | cons m r =>
      have hne : m ≠ n := by
        intro hmn
        subst hmn
        exact h ⟨r, by simp⟩
      rw [look?_cons, look?_cons, hc g m hne]

lemma look?_set_of_ne (hp : f.look? p = some .folder) (h : ¬ p ++ [n] <+: q) :
    (f.set (p ++ [n]) node).look? q = f.look? q := by
  rw [set_append]
  apply look?_modify_entry _ hp h
  intro g m hm
  rw [find?_insert, if_neg (Ne.symm hm)]

lemma look?_unset_of_ne (hp : f.look? p = some .folder) (h : ¬ p ++ [n] <+: q) :
    (f.unset (p ++ [n])).look? q = f.look? q := by
  rw [unset_append]
  apply look?_modify_entry _ hp h
  intro g m hm
  rw [find?_erase, if_neg (Ne.symm hm)]

/-- A change at a place where no folder is, and after which nothing is below, changes nothing else. -/
lemma look?_leaf {f' : Folder} {there : Place → Option FileKind} (hn : f.look? (p ++ [n]) ≠ some .folder)
    (hother : ∀ q, ¬ p ++ [n] <+: q → f'.look? q = f.look? q)
    (hthere : ∀ q, f'.look? (p ++ n :: q) = there q) (hleaf : ∀ m r, there (m :: r) = none) :
    f'.look? q = if q = p ++ [n] then there [] else f.look? q := by
  by_cases hq : p ++ [n] <+: q
  case neg =>
    have hne : q ≠ p ++ [n] := by
      intro he
      exact hq ⟨[], by simp [he]⟩
    rw [hother q hq, if_neg hne]
  case pos =>
    obtain ⟨r, rfl⟩ := hq
    cases r with
    | nil => rw [List.append_nil, if_pos rfl, hthere]
    | cons m r =>
      have hold : f.look? (p ++ [n] ++ m :: r) = none := by
        by_contra h
        exact hn (look?_of_append h)
      rw [if_neg (by simp), hold, List.append_assoc, List.singleton_append, hthere, hleaf]

/-- Putting a file or an empty folder at a place where no folder is changes nothing else. -/
lemma look?_set_leaf (hp : f.look? p = some .folder) (hn : f.look? (p ++ [n]) ≠ some .folder)
    (hleaf : ∀ m r, node.look? (m :: r) = none) :
    (f.set (p ++ [n]) node).look? q = if q = p ++ [n] then node.look? [] else f.look? q :=
  look?_leaf hn (fun _ => look?_set_of_ne hp) (fun _ => look?_set hp) hleaf

lemma look?_set_folder (hp : f.look? p = some .folder) (hn : f.look? (p ++ [n]) = none) :
    (f.set (p ++ [n]) (.folder .empty)).look? q = if q = p ++ [n] then some .folder else f.look? q := by
  have hleaf : ∀ m r, (FileNode.folder .empty).look? (m :: r) = none := by
    intro m r
    rw [FileNode.look?, look?_cons]
    rfl
  rw [look?_set_leaf hp (by rw [hn]; exact nofun) hleaf, FileNode.look?, look?_nil]

lemma look?_set_file (contents : ByteArray) (hp : f.look? p = some .folder)
    (hn : f.look? (p ++ [n]) ≠ some .folder) :
    (f.set (p ++ [n]) (.file contents)).look? q =
      if q = p ++ [n] then some (.file contents) else f.look? q :=
  look?_set_leaf hp hn fun _ _ => rfl

/-- Taking an entry away that is no folder changes nothing else. -/
lemma look?_unset_leaf (hp : f.look? p = some .folder) (hn : f.look? (p ++ [n]) ≠ some .folder) :
    (f.unset (p ++ [n])).look? q = if q = p ++ [n] then none else f.look? q :=
  look?_leaf hn (fun _ => look?_unset_of_ne hp) (fun _ => look?_unset hp) fun _ _ => rfl

/-! ## One entry for every name -/

lemma Clear.find? (h : f.Clear) (hf : f.find? n = some (.folder inside)) : inside.Clear := by
  induction f with
  | empty => cases hf
  | file name contents rest ih => grind [Clear, Folder.find?]
  | link name target rest ih => grind [Clear, Folder.find?]
  | folder name inside' rest _ ih => grind [Clear, Folder.find?]

lemma Clear.erase (h : f.Clear) : (f.erase n).Clear := by
  induction f with
  | empty => exact h
  | file name contents rest ih => grind [Clear, Folder.erase, find?_erase]
  | link name target rest ih => grind [Clear, Folder.erase, find?_erase]
  | folder name inside rest _ ih => grind [Clear, Folder.erase, find?_erase]

lemma Clear.insert (h : f.Clear) (hn : ∀ inside, node = .folder inside → inside.Clear) :
    (f.insert n node).Clear := by
  have hnone : (f.erase n).find? n = none := by
    rw [find?_erase, if_pos rfl]
  cases node with
  | file contents => exact ⟨hnone, h.erase⟩
  | link target => exact ⟨hnone, h.erase⟩
  | folder inside => exact ⟨hnone, hn inside rfl, h.erase⟩

lemma Clear.at? (h : f.Clear) (hf : f.at? p = some (.folder g)) : g.Clear := by
  induction p generalizing f with
  | nil =>
    rw [at?_nil, Option.some.injEq, FileNode.folder.injEq] at hf
    exact hf ▸ h
  | cons n p ih =>
    cases p with
    | nil =>
      rw [at?_singleton] at hf
      exact h.find? hf
    | cons m p =>
      rw [at?_cons] at hf
      split at hf
      case h_1 inside hin => exact ih (h.find? hin) hf
      case h_2 => cases hf

lemma Clear.modify (h : f.Clear) (hc : ∀ g : Folder, g.Clear → (change g).Clear) :
    (f.modify change p).Clear := by
  induction p generalizing f with
  | nil => exact hc f h
  | cons n p ih =>
    rw [Folder.modify]
    split
    case h_1 inside hf =>
      apply h.insert
      intro inside' he
      cases he
      exact ih (h.find? hf)
    case h_2 => exact h

end Folder

end StoreLock
