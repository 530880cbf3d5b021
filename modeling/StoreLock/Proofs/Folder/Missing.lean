import StoreLock.Proofs.Folder.Refinement

/-!
# Deleting what is not there

A deletion changes nothing where there is no object of the name, but it is served only if an object could have
the name. The file system refuses a name on the way of which the file of an object stands, and one that a folder
has, even if the objects that it was made for are gone (`FolderClient.delete_missing`).

The proof follows the walk along the segments of a name. It arrives at the place of the object, or it ends at a
segment that nothing has, or at a file that stands on the way (`walkAt_cases`).
-/

namespace StoreLock

/-- A file stands on the way along names, before their end. -/
def Blocked (look : Place → Option FileKind) (place : Place) (names : List FileName) : Prop :=
  ∃ before rest contents, names = before ++ rest ∧ rest ≠ [] ∧
    look (place ++ before) = some (.file contents)

namespace FolderClient

/-- A tree that creations and deletions make of another. -/
inductive Made (c : FolderClient) (f₀ : Folder) : Folder → Prop where
  | start : Made c f₀ f₀
  | create {f} (name contents) :
    Made c f₀ f →
    Made c f₀ (create f c name contents).2
  | delete {f} (name) :
    Made c f₀ f →
    Made c f₀ (delete f c name).2

/-- Why the file system refuses to delete at the path of a name. -/
inductive Refuses (c : FolderClient) (f : Folder) (name : String) (path : FilePath) : FileFault → Prop where
  | long :
    path.isTooLong = true →
    Refuses c f name path .nameTooLong
  | folder :
    path.isTooLong = false →
    f.isFolder path = true →
    Refuses c f name path .isDirectory
  | below {above rest} :
    path.isTooLong = false →
    name = above ++ ObjectName.separator.toString ++ rest →
    c.contents? f above ≠ none →
    Refuses c f name path .notDirectory

end FolderClient

/-! ## Files on the way -/

variable {look : Place → Option FileKind} {followsLast : Bool} {p : Place} {n : FileName}
  {names : List FileName}

@[simp] lemma not_blocked_nil : ¬ Blocked look p [] := by
  intro h
  obtain ⟨before, rest, contents, he, hrest, -⟩ := h
  exact hrest (List.append_eq_nil_iff.mp he.symm).2

/-- Behind a folder, what is on the way is what is on the way from the next place on. -/
lemma blocked_cons (hp : look p = some .folder) :
    Blocked look p (n :: names) ↔ Blocked look (p ++ [n]) names := by
  constructor
  · intro h
    obtain ⟨before, rest, contents, he, hrest, hfile⟩ := h
    cases before with
    | nil =>
      rw [List.append_nil, hp] at hfile
      cases hfile
    | cons m before =>
      obtain ⟨rfl, rfl⟩ := List.cons_eq_cons.mp he
      refine ⟨before, rest, contents, rfl, hrest, ?_⟩
      rw [List.append_assoc]
      exact hfile
  · intro h
    obtain ⟨before, rest, contents, rfl, hrest, hfile⟩ := h
    refine ⟨n :: before, rest, contents, rfl, hrest, ?_⟩
    rw [List.append_assoc] at hfile
    exact hfile

/-- Nothing is on the way from a place where nothing is. -/
lemma not_blocked_of_none (ht : IsTree look) (hp : look p = none) : ¬ Blocked look p names := by
  intro h
  obtain ⟨before, rest, contents, -, -, hfile⟩ := h
  have hnone : look (p ++ before) = none := by
    by_cases hnil : before = []
    · rw [hnil, List.append_nil, hp]
    · exact ht.none_of_append (by simp [hp]) hnil
  rw [hnone] at hfile
  cases hfile

/-- Nothing is behind a file that is on the way. -/
lemma Blocked.none (ht : IsTree look) (h : Blocked look p names) : look (p ++ names) = none := by
  obtain ⟨before, rest, contents, rfl, hrest, hfile⟩ := h
  rw [← List.append_assoc]
  exact ht.none_of_append (by simp [hfile]) hrest

/-- Short names that stand for themselves and meet no link lead to the place they say. On the way, nothing may
be where one of them leads, or a file. -/
lemma walkAt_cases (ht : IsTree look) (hp : look p = some .folder) (hn : Plain names)
    (hshort : ∀ n ∈ names, n.length ≤ FileName.maxLength)
    (hlinks : ∀ q target, look (p ++ q) ≠ some (.link target)) :
    (walkAt look followsLast p names = .arrived (p ++ names) ∧ ¬ Blocked look p names) ∨
    (walkAt look followsLast p names = .lost .notFound ∧ ¬ Blocked look p names ∧
      look (p ++ names) = none) ∨
    (walkAt look followsLast p names = .lost .notDirectory ∧ Blocked look p names) := by
  induction names generalizing p with
  | nil => exact .inl ⟨by rw [List.append_nil, walkAt], not_blocked_nil⟩
  | cons n names ih =>
    obtain ⟨hdot, hdots⟩ := hn n List.mem_cons_self
    have hassoc : p ++ n :: names = p ++ [n] ++ names := List.append_cons p n names
    rw [walkAt_name hdot hdots, if_neg (not_lt.mpr (hshort n List.mem_cons_self)), blocked_cons hp, hassoc]
    cases hl : look (p ++ [n]) with
    | none =>
      have hnot : ¬ Blocked look (p ++ [n]) names := not_blocked_of_none ht hl
      by_cases hnil : names = []
      · exact .inl ⟨by simp [hnil], hnot⟩
      · refine .inr (.inl ⟨by simp [hnil], hnot, ?_⟩)
        exact ht.none_of_append (by simp [hl]) hnil
    | some kind =>
      cases kind with
      | file contents =>
        by_cases hnil : names = []
        · subst hnil
          exact .inl ⟨by simp, not_blocked_nil⟩
        · refine .inr (.inr ⟨by simp [hnil], [], names, contents, rfl, hnil, ?_⟩)
          rw [List.append_nil, hl]
      | link target => exact absurd hl (hlinks [n] target)
      | folder =>
        apply ih hl (fun m hm => hn m (List.mem_cons_of_mem _ hm))
          (fun m hm => hshort m (List.mem_cons_of_mem _ hm))
        intro q target
        rw [List.append_assoc]
        exact hlinks ([n] ++ q) target

namespace FolderClient

variable {c : FolderClient} {f f₀ : Folder} {root : Place} {name : String} {segs : List String}
  {path : FilePath}

/-! ## The trees of a store -/

lemma Rooted.create (h : Opening c f₀ root) (hr : Rooted f₀ root f) (name : String)
    (contents : ByteArray) : Rooted f₀ root (create f c name contents).2 := by
  cases hname : ObjectName.segments name with
  | error fault =>
    rw [FolderClient.create, FolderClient.path, hname]
    exact hr
  | ok segs =>
    rcases create_spec contents h hr hname with ⟨f', hc, hr', -⟩ | ⟨e, f', hc, hk⟩
    · rw [hc]
      exact hr'
    · rw [hc]
      exact hk.rooted

lemma Rooted.delete (h : Opening c f₀ root) (hr : Rooted f₀ root f) (name : String) :
    Rooted f₀ root (delete f c name).2 := by
  cases hname : ObjectName.segments name with
  | error fault =>
    rw [FolderClient.delete, FolderClient.path, hname]
    exact hr
  | ok segs =>
    rcases delete_spec h hr hname with ⟨f', hd, hr', -⟩ | ⟨e, hd⟩
    · rw [hd]
      exact hr'
    · rw [hd]
      exact hr

/-- The store has touched nothing but what is below its root. -/
lemma Made.rooted (h : Opening c f₀ root) (hm : Made c f₀ f) : Rooted f₀ root f := by
  induction hm with
  | start => exact h.rooted
  | create name contents _ ih => exact ih.create h name contents
  | delete name _ ih => exact ih.delete h name

/-! ## The path of an object -/

/-- The path of an object goes on from that of the root, by names that the file system takes. -/
structure Reaching (c : FolderClient) (segs : List String) (path : FilePath) : Prop where
  under : c.Under path (segs.map .text)
  plain : Plain (segs.map .text)
  short : ∀ n ∈ segs.map FileName.text, n.length ≤ FileName.maxLength
  nul : path.pieces.any FileName.hasNul = false
  slash : path.endsInSlash = false

lemma hasNul_base (hnul : c.root.pieces.any FileName.hasNul = false) :
    c.base.any FileName.hasNul = false := by
  rw [List.any_eq_false] at hnul ⊢
  intro piece hp
  apply hnul
  rw [base] at hp
  split_ifs at hp
  · exact List.mem_of_mem_dropLast hp
  · exact hp

lemma IsSegment.hasNul_eq_false {n : FileName} (h : IsSegment n) : n.hasNul = false := by
  obtain ⟨s, rfl, hproper, -⟩ := h
  have hallowed := hproper.allowed
  rw [List.any_eq_false] at hallowed
  rw [FileName.hasNul, ← Bool.not_eq_true, List.contains_iff_mem]
  intro hmem
  exact hallowed '\x00' hmem rfl

lemma endsInSlash_concat {pieces : List FileName} {n : FileName} (h : n ≠ .text "") :
    (FilePath.mk (pieces ++ [n])).endsInSlash = false := by
  rw [FilePath.endsInSlash, List.getLast?_concat]
  exact beq_eq_false_iff_ne.mpr fun he => h (Option.some.inj he)

lemma reaching (hnul : c.root.pieces.any FileName.hasNul = false)
    (hname : ObjectName.segments name = .ok segs) (hpath : c.path name = .ok path) : Reaching c segs path := by
  obtain ⟨init, s, rfl, hpath', hinit, hs⟩ := exists_path (c := c) hname
  obtain rfl := Except.ok.inj (hpath'.symm.trans hpath)
  have hproper := proper_of_segments hname
  obtain ⟨hunder, hplain⟩ := under_object (c := c) hinit hs
  have hmap : (init ++ [s]).map FileName.text = init.map .text ++ [FileName.text s] := by simp
  refine ⟨hmap ▸ hunder, hmap ▸ hplain, ?_, ?_, ?_⟩
  · intro n hn
    obtain ⟨t, ht, rfl⟩ := List.mem_map.mp hn
    exact (hproper t ht).short
  · rw [List.append_assoc, ← hmap, List.any_append, hasNul_base hnul, Bool.false_or, List.any_eq_false]
    intro n hn
    rw [hmap] at hn
    rw [Bool.not_eq_true]
    exact (isSegment_concat hinit hs n hn).hasNul_eq_false
  · exact endsInSlash_concat hs.ne_empty

/-- Where the path of an object leads, if there are no links below the root. -/
lemma Reaching.resolve_cases (followsLast : Bool) (hp : Reaching c segs path)
    (hlead : Leads f.look? c.root.names root)
    (hlinks : ∀ q target, f.look? (root ++ q) ≠ some (.link target)) (hne : segs ≠ [])
    (hlong : path.isTooLong = false) :
    (f.resolve followsLast path = .ok ⟨root ++ segs.map .text, false⟩ ∧
      ¬ Blocked f.look? root (segs.map .text)) ∨
    (f.resolve followsLast path = .error .notFound ∧ ¬ Blocked f.look? root (segs.map .text) ∧
      f.look? (root ++ segs.map .text) = none) ∨
    (f.resolve followsLast path = .error .notDirectory ∧ Blocked f.look? root (segs.map .text)) := by
  obtain ⟨links, hon⟩ := hp.under.followAt_eq hlead (by simpa using hne)
  rw [Folder.resolve_eq, hp.nul, hlong, hp.slash, if_neg Bool.false_ne_true, if_neg Bool.false_ne_true, hon]
  rcases walkAt_cases f.isTree hlead.1 hp.plain hp.short hlinks with
    ⟨hw, hnot⟩ | ⟨hw, hnot, hnone⟩ | ⟨hw, hblocked⟩
  · exact .inl ⟨followAt_of_arrived hw, hnot⟩
  · exact .inr (.inl ⟨followAt_of_lost hw, hnot, hnone⟩)
  · exact .inr (.inr ⟨followAt_of_lost hw, hblocked⟩)

/-- The path of a name leads to a folder if there is one at its place. -/
lemma isFolder_iff (h : Opening c f₀ root) (hr : Rooted f₀ root f) (hp : Reaching c segs path)
    (hne : segs ≠ []) (hlong : path.isTooLong = false) :
    f.isFolder path = true ↔ f.look? (root ++ segs.map .text) = some .folder := by
  rw [Folder.isFolder, Folder.readFolder, Folder.look?_eq_folder]
  rcases hp.resolve_cases true (h.site hr).leads hr.links hne hlong with
    ⟨hres, -⟩ | ⟨hres, -, hnone⟩ | ⟨hres, hblocked⟩
  · rw [hres]
    dsimp only
    split
    case h_1 hat => simp [hat, Except.isOk, Except.toBool]
    case h_2 inside hat => simp [hat, Except.isOk, Except.toBool]
    case h_3 node hnot hat =>
      rw [hat]
      simp only [Except.isOk, Except.toBool, Bool.false_eq_true, Option.some.injEq, false_iff]
      rintro ⟨g, rfl⟩
      exact hnot g rfl
  · rw [hres, ← Folder.look?_eq_folder, hnone]
    simp [Except.isOk, Except.toBool]
  · rw [hres, ← Folder.look?_eq_folder, hblocked.none f.isTree]
    simp [Except.isOk, Except.toBool]

/-- What stands on the way to the place of a name is the file of an object, of whose name this one is a
longer one. -/
lemma blocked_iff (h : Opening c f₀ root) (hr : Rooted f₀ root f)
    (hname : ObjectName.segments name = .ok segs) :
    Blocked f.look? root (segs.map .text) ↔
      ∃ above rest, name = above ++ ObjectName.separator.toString ++ rest ∧ c.contents? f above ≠ none := by
  constructor
  · intro hblocked
    obtain ⟨before, rest, contents, hsegs, hrest, hfile⟩ := hblocked
    obtain ⟨above, below, rfl, rfl, rfl⟩ := List.map_eq_append_iff.mp hsegs
    have habove : above ≠ [] := by
      intro hnil
      rw [hnil, List.map_nil, List.append_nil, hr.folder] at hfile
      cases hfile
    have hbelow : below ≠ [] := by simpa using hrest
    obtain ⟨hpieces, hproper⟩ := ObjectName.segments_eq_ok_iff.mp hname
    have hsegments : ObjectName.segments (ObjectName.spell above) = .ok above := by
      apply ObjectName.segments_spell _ habove
      intro s hs
      have hmem : s ∈ ObjectName.pieces name := hpieces ▸ List.mem_append_left _ hs
      exact ⟨hproper s (List.mem_append_left _ hs), ObjectName.separator_not_mem_of_mem_pieces hmem⟩
    refine ⟨ObjectName.spell above, ObjectName.spell below, ?_, ?_⟩
    · rw [← ObjectName.spell_append habove hbelow, hpieces, ObjectName.spell_pieces]
    · rw [contents?_eq h hr hsegments, object?, hfile]
      exact Option.some_ne_none _
  · intro hobject
    obtain ⟨above, rest, rfl, hobject⟩ := hobject
    obtain ⟨segs', habove, hfile⟩ := (isSome_contents? h hr).mp (Option.isSome_iff_ne_none.mpr hobject)
    have hpieces : segs = segs' ++ ObjectName.pieces rest := by
      have happend : above ++ ObjectName.separator.toString ++ rest =
          String.ofList (above.toList ++ ObjectName.separator :: rest.toList) := by
        apply String.toList_injective
        simp
      rw [(ObjectName.segments_eq_ok_iff.mp hname).1, (ObjectName.segments_eq_ok_iff.mp habove).1,
        happend, ObjectName.pieces_append, String.ofList_toList, String.ofList_toList]
    obtain ⟨contents, hlook⟩ : ∃ contents, f.look? (root ++ segs'.map .text) = some (.file contents) := by
      rw [object?] at hfile
      split at hfile
      case h_1 contents hlook => exact ⟨contents, hlook⟩
      case h_2 => exact absurd rfl hfile
    refine ⟨segs'.map .text, (ObjectName.pieces rest).map .text, contents, ?_, ?_, hlook⟩
    · rw [hpieces, List.map_append]
    · simpa using ObjectName.pieces_ne_nil

/-! ## Deletions -/

/-- What a deletion answers is what the file system says, and where nothing is there is nothing to do. -/
lemma delete_of_remove_error {fault : FileFault} (hpath : c.path name = .ok path)
    (hrem : f.remove path = .error fault) :
    delete f c name = (if fault = .notFound then .ok () else .error (.file fault), f) := by
  rw [delete, hpath]
  dsimp only
  rw [hrem]
  cases fault <;> rfl

lemma Refuses.ne_notFound {fault : FileFault} (href : Refuses c f name path fault) : fault ≠ .notFound := by
  cases href <;> simp

/-- What is refused is refused for one reason, which the file system gives. -/
lemma Refuses.remove_eq {fault : FileFault} (h : Opening c f₀ root) (hr : Rooted f₀ root f)
    (hname : ObjectName.segments name = .ok segs) (hp : Reaching c segs path) (hne : segs ≠ [])
    (href : Refuses c f name path fault) : f.remove path = .error fault := by
  rw [Folder.remove]
  cases href with
  | long hlong => rw [Folder.resolve_eq, hp.nul, hlong, if_neg Bool.false_ne_true, if_pos rfl]
  | folder hlong hfolder =>
    rw [isFolder_iff h hr hp hne hlong] at hfolder
    obtain ⟨g, hat⟩ := Folder.look?_eq_folder.mp hfolder
    rcases hp.resolve_cases false (h.site hr).leads hr.links hne hlong with
      ⟨hres, -⟩ | ⟨-, -, hnone⟩ | ⟨-, hblocked⟩
    · rw [hres]
      dsimp only
      rw [hat]
    · rw [hnone] at hfolder
      cases hfolder
    · rw [hblocked.none f.isTree] at hfolder
      cases hfolder
  | below hlong hspelled hobject =>
    have hblocked := (blocked_iff h hr hname).mpr ⟨_, _, hspelled, hobject⟩
    rcases hp.resolve_cases false (h.site hr).leads hr.links hne hlong with ⟨-, hnot⟩ | ⟨-, hnot, -⟩ | ⟨hres, -⟩
    · exact absurd hblocked hnot
    · exact absurd hblocked hnot
    · rw [hres]

/-- Where no object has a name that the file system does not refuse, nothing is at its path. -/
lemma remove_eq_error_notFound (h : Opening c f₀ root) (hr : Rooted f₀ root f)
    (hname : ObjectName.segments name = .ok segs) (hp : Reaching c segs path) (hne : segs ≠ [])
    (hmissing : c.contents? f name = none) (hallowed : ∀ fault, ¬ Refuses c f name path fault) :
    f.remove path = .error .notFound := by
  have hlong : path.isTooLong = false := by
    by_contra hlong
    exact hallowed _ (.long (Bool.eq_true_of_not_eq_false hlong))
  have hnot : ¬ Blocked f.look? root (segs.map .text) := by
    intro hblocked
    obtain ⟨above, rest, hspelled, hobject⟩ := (blocked_iff h hr hname).mp hblocked
    exact hallowed _ (.below hlong hspelled hobject)
  have hnone : f.look? (root ++ segs.map .text) = none := by
    cases hlook : f.look? (root ++ segs.map .text) with
    | none => rfl
    | some kind =>
      cases kind with
      | file contents =>
        rw [contents?_eq h hr hname, object?, hlook] at hmissing
        cases hmissing
      | link target => exact absurd hlook (hr.links _ _)
      | folder => exact absurd (.folder hlong ((isFolder_iff h hr hp hne hlong).mpr hlook)) (hallowed _)
  rw [Folder.remove]
  rcases hp.resolve_cases false (h.site hr).leads hr.links hne hlong with ⟨hres, -⟩ | ⟨hres, -⟩ | ⟨-, hblocked⟩
  · rw [hres]
    dsimp only
    rw [Option.map_eq_none_iff.mp hnone]
  · rw [hres]
  · exact absurd hblocked hnot

/-- A deletion changes no tree in which no object has the name. It is served if and only if the file system does
not refuse it, and otherwise it fails for the reason of the file system. -/
theorem delete_missing (hroot : f₀.readFolder c.root = .ok .empty) (hm : Made c f₀ f)
    (hpath : c.path name = .ok path) (hmissing : c.contents? f name = none) :
    (delete f c name).2 = f ∧
    ((delete f c name).1 = .ok () ↔ ∀ fault, ¬ Refuses c f name path fault) ∧
    ∀ fault, Refuses c f name path fault → (delete f c name).1 = .error (.file fault) := by
  obtain ⟨root, h⟩ := Opening.of_readFolder hroot
  have hr := hm.rooted h
  obtain ⟨segs, hname⟩ : ∃ segs, ObjectName.segments name = .ok segs := by
    rw [FolderClient.path] at hpath
    split at hpath
    case h_1 => cases hpath
    case h_2 segs hname => exact ⟨segs, hname⟩
  have hne : segs ≠ [] := by
    rw [(ObjectName.segments_eq_ok_iff.mp hname).1]
    exact ObjectName.pieces_ne_nil
  have hp := reaching h.nul hname hpath
  have hrefused : ∀ fault, Refuses c f name path fault →
      delete f c name = (.error (.file fault), f) := by
    intro fault href
    rw [delete_of_remove_error hpath (href.remove_eq h hr hname hp hne), if_neg href.ne_notFound]
  have hserved : (∀ fault, ¬ Refuses c f name path fault) → delete f c name = (.ok (), f) := by
    intro hallowed
    have hrem := remove_eq_error_notFound h hr hname hp hne hmissing hallowed
    rw [delete_of_remove_error hpath hrem, if_pos rfl]
  refine ⟨?_, ⟨?_, ?_⟩, ?_⟩
  · by_cases href : ∃ fault, Refuses c f name path fault
    · obtain ⟨fault, href⟩ := href
      rw [hrefused fault href]
    · rw [hserved (not_exists.mp href)]
  · intro hok fault href
    rw [hrefused fault href] at hok
    cases hok
  · intro hallowed
    rw [hserved hallowed]
  · intro fault href
    rw [hrefused fault href]

/-- A name below that of an object, as a case of the theorem. -/
theorem delete_missing_below :
    let c : FolderClient := ⟨⟨[.text "srv"]⟩⟩
    let f₀ : Folder := .folder (.text "srv") .empty .empty
    let path : FilePath := ⟨[.text "srv", .text "a", .text "b"]⟩
    ∃ f, f₀.readFolder c.root = .ok .empty ∧ Made c f₀ f ∧ c.path "a/b" = .ok path ∧
      c.contents? f "a/b" = none ∧ Refuses c f "a/b" path .notDirectory ∧
      delete f c "a/b" = (.error (.file .notDirectory), f) := by
  intro c f₀ path
  let f : Folder := .folder (.text "srv") (.file (.text "a") .empty .empty) .empty
  have hmade : Made c f₀ f := .create "a" .empty .start
  have hroot : f₀.readFolder c.root = .ok .empty := rfl
  have hpath : c.path "a/b" = .ok path := rfl
  have habove : c.contents? f "a" ≠ none := nofun
  have hspelled : "a/b" = "a" ++ ObjectName.separator.toString ++ "b" := rfl
  have href : Refuses c f "a/b" path .notDirectory := .below rfl hspelled habove
  obtain ⟨hsame, -, hfault⟩ := delete_missing hroot hmade hpath rfl
  exact ⟨f, hroot, hmade, hpath, rfl, href, Prod.ext (hfault _ href) hsame⟩

/-- Names that no object has and that cannot be deleted: one below the name of an object, and one that a folder
has kept although the object in it is gone. -/
theorem delete_missing_refused :
    let c : FolderClient := ⟨⟨[.text "srv"]⟩⟩
    let f₀ : Folder := .folder (.text "srv") .empty .empty
    (∃ f, f₀.readFolder c.root = .ok .empty ∧ Made c f₀ f ∧ (ObjectName.segments "a/b").isOk ∧
      c.contents? f "a/b" = none ∧ (delete f c "a/b").1 = .error (.file .notDirectory)) ∧
    ∃ f, f₀.readFolder c.root = .ok .empty ∧ Made c f₀ f ∧ (ObjectName.segments "c").isOk ∧
      list f c "" = .ok [] ∧ c.contents? f "c" = none ∧
      (delete f c "c").1 = .error (.file .isDirectory) := by
  dsimp only
  refine ⟨?_, ?_⟩
  · exact ⟨.folder (.text "srv") (.file (.text "a") .empty .empty) .empty, rfl, .create "a" .empty .start,
      rfl, rfl, rfl⟩
  · refine ⟨.folder (.text "srv") (.folder (.text "c") .empty .empty) .empty, rfl,
      .delete "c/d" (.create "c/d" .empty .start), rfl, ?_, rfl, rfl⟩
    show Except.ok (([] : List String).mergeSort _) = Except.ok []
    rw [List.mergeSort_nil]

end FolderClient

end StoreLock
