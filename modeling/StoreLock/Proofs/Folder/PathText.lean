import StoreLock.Proofs.Folder.ObjectPath
import StoreLock.Proofs.Folder.Write

/-!
# Paths that texts write

The path of an object is a text where a name is joined to a root that is a text (`ObjectName.path`), and a row of
pieces where it is looked up in a tree (`FolderClient.path`). The pieces of the one are the other
(`FolderClient.path_ofText`), and so it is with the hidden file, if the root is a path from the top
(`FolderClient.staging_ofText`).
-/

namespace StoreLock

namespace FilePath

/-- A piece between slashes as the name of an entry. -/
def namePiece (piece : List Char) : FileName :=
  .text (String.ofList piece)

variable {ps : List FileName} {n : FileName} {ns : List FileName} {path : FilePath} {p s : String}
  {pieces : List (List Char)} {l : List Char}

lemma ofText_eq (p : String) : ofText p = ofPieces ((Text.splitOn '/' p.toList).map namePiece) :=
  rfl

@[simp] lemma namePiece_toList : namePiece s.toList = .text s := by
  rw [namePiece, String.ofList_toList]

lemma namePiece_eq_iff : namePiece l = .text s ↔ l = s.toList := by
  rw [namePiece, FileName.text.injEq, ← String.toList_inj, String.toList_ofList]

lemma stays_namePiece : stays ∘ namePiece = ObjectName.isVoid := by
  funext piece
  rw [Bool.eq_iff_iff, ObjectName.isVoid]
  simp [stays, namePiece_eq_iff]

lemma ofPieces_of_ne (h : n ≠ .text "") : ofPieces (n :: ps) = ⟨n :: ps⟩ := by
  rw [ofPieces]
  rintro rest ⟨⟩
  exact h rfl

/-! ## A path with one more name -/

lemma child_of_slash (ps : List FileName) (n : FileName) : child ⟨ps ++ [.text ""]⟩ n = ⟨ps ++ [n]⟩ := by
  simp [child, descend, endsInSlash]

lemma child_of_ne (hlast : ps.getLast? ≠ some (.text "")) : child ⟨ps⟩ n = ⟨ps ++ [n]⟩ := by
  simp [child, descend, endsInSlash, hlast]

lemma child_descend (hn : n ≠ .text "") : (path.child n).descend ns = path.descend (n :: ns) := by
  simp [child, descend, endsInSlash, hn]

/-- A name behind a path that ends in a slash. -/
lemma ofPieces_slash (hne : ps ≠ []) : (ofPieces (ps ++ [.text ""])).child n = ofPieces (ps ++ [n]) := by
  obtain ⟨m, ps, rfl⟩ := List.exists_cons_of_ne_nil hne
  by_cases hm : m = .text ""
  · subst hm
    exact child_of_slash ps n
  · rw [List.cons_append, List.cons_append, ofPieces_of_ne hm, ofPieces_of_ne hm]
    exact child_of_slash (m :: ps) n

/-- A name behind a slash that is put between. -/
lemma ofPieces_plain (hne : ps ≠ []) (hlast : ps.getLast? ≠ some (.text "")) :
    (ofPieces ps).child n = ofPieces (ps ++ [n]) := by
  obtain ⟨m, ps, rfl⟩ := List.exists_cons_of_ne_nil hne
  by_cases hm : m = .text ""
  · subst hm
    refine child_of_ne fun hempty => hlast ?_
    rw [List.getLast?_cons, hempty]
    rfl
  · rw [List.cons_append, ofPieces_of_ne hm, ofPieces_of_ne hm]
    exact child_of_ne hlast

/-- The last piece of a text is empty only where a slash ends it. -/
lemma getLast?_splitOn_ne (hne : l ≠ []) (hlast : l.getLast? ≠ some '/') :
    (Text.splitOn '/' l).getLast? ≠ some [] := by
  intro hempty
  obtain ⟨init, hsplit⟩ := List.getLast?_eq_some_iff.mp hempty
  have hl : ['/'].intercalate (init ++ [[]]) = l := by rw [← hsplit, Text.intercalate_splitOn]
  by_cases hinit : init = []
  · subst hinit
    exact hne hl.symm
  · rw [Text.intercalate_append hinit (List.cons_ne_nil _ _)] at hl
    exact hlast (by simp [← hl])

/-- A segment that is joined to a path is one more name. -/
theorem ofText_join (p : String) (hs : ObjectName.separator ∉ s.toList) (hne : s ≠ "") :
    ofText (ObjectName.join p s) = (ofText p).child (.text s) := by
  have hone : (Text.splitOn '/' s.toList).map namePiece = [.text s] := by
    rw [Text.splitOn_of_not_mem (show '/' ∉ s.toList from hs), List.map_singleton, namePiece_toList]
  have hpieces : (Text.splitOn '/' p.toList).map namePiece ≠ [] :=
    fun h => Text.splitOn_ne_nil (List.map_eq_nil_iff.mp h)
  rw [ObjectName.join, ofText_eq, ofText_eq]
  split_ifs with hjoin
  · rw [Bool.or_eq_true, String.isEmpty_iff, beq_iff_eq] at hjoin
    rcases hjoin with rfl | hslash
    · rw [String.empty_append, hone, ofPieces_of_ne fun h => hne (FileName.text.inj h)]
      rfl
    · obtain ⟨before, hp⟩ := List.getLast?_eq_some_iff.mp hslash
      have hbefore : (Text.splitOn '/' before).map namePiece ≠ [] :=
        fun h => Text.splitOn_ne_nil (List.map_eq_nil_iff.mp h)
      have hslash' : (Text.splitOn '/' p.toList).map namePiece =
          (Text.splitOn '/' before).map namePiece ++ [.text ""] := by
        rw [hp, ObjectName.separator, Text.splitOn_append, List.map_append]
        rfl
      rw [hslash', ofPieces_slash hbefore, String.toList_append, hp, List.append_assoc, List.singleton_append,
        ObjectName.separator, Text.splitOn_append, List.map_append, hone]
  · rw [Bool.or_eq_true, String.isEmpty_iff, beq_iff_eq, not_or] at hjoin
    obtain ⟨hp, hslash⟩ := hjoin
    have hlast : ((Text.splitOn '/' p.toList).map namePiece).getLast? ≠ some (.text "") := by
      intro hlast
      rw [List.getLast?_map, Option.map_eq_some_iff] at hlast
      obtain ⟨piece, hpiece, hempty⟩ := hlast
      obtain rfl := namePiece_eq_iff.mp hempty
      exact getLast?_splitOn_ne (fun h => hp (String.toList_eq_nil_iff.mp h)) hslash hpiece
    have htext : (p ++ ObjectName.separator.toString ++ s).toList = p.toList ++ '/' :: s.toList := by
      simp [ObjectName.separator]
    rw [htext, Text.splitOn_append, List.map_append, hone, ofPieces_plain hpieces hlast]

/-- Segments that are joined to a root go on from it. -/
lemma ofText_foldl_join {segs : List String} (root : String)
    (hs : ∀ s ∈ segs, ObjectName.isObjectSegment s = true ∧ ObjectName.separator ∉ s.toList) (hne : segs ≠ []) :
    ofText (segs.foldl ObjectName.join root) = (ofText root).descend (segs.map .text) := by
  induction segs generalizing root with
  | nil => exact absurd rfl hne
  | cons s segs ih =>
    rw [List.forall_mem_cons] at hs
    obtain ⟨hempty, -, -⟩ := ObjectName.ne_of_isObject hs.1.1
    have hjoin := ofText_join root hs.1.2 hempty
    rw [List.foldl_cons]
    by_cases hnil : segs = []
    · subst hnil
      exact hjoin
    · rw [ih _ hs.2 hnil, hjoin, child_descend fun h => hempty (FileName.text.inj h), List.map_cons]

/-! ## The folder of a path from the top -/

lemma ofText_of_slash {body : List Char} (hp : p.toList = '/' :: body) :
    ofText p = ⟨(Text.splitOn '/' body).map namePiece⟩ := by
  have hsplit : Text.splitOn '/' p.toList = [] :: Text.splitOn '/' body := by
    rw [hp]
    exact Text.splitOn_append [] body
  rw [ofText_eq, hsplit]
  rfl

/-- The folder in which a path from the top has its last segment, without what stands for nothing. -/
lemma child_ofText_parent (hsep : ∀ piece ∈ pieces, '/' ∉ piece) (n : FileName) :
    (ofText (String.ofList ('/' :: ['/'].intercalate pieces))).child n = child ⟨pieces.map namePiece⟩ n := by
  rw [ofText_of_slash String.toList_ofList]
  by_cases hnil : pieces = []
  · subst hnil
    rfl
  · rw [Text.splitOn_intercalate hsep hnil]

end FilePath

namespace FolderClient

variable {root name p : String}

/-- The path of an object behind a root is the one that the text of both writes. -/
theorem path_ofText (root name : String) :
    path ⟨.ofText root⟩ name = match ObjectName.path root name with
      | .ok p => .ok (.ofText p)
      | .error fault => .error (.invalidName fault.detail) := by
  rw [path, ObjectName.path]
  cases hname : ObjectName.segments name with
  | error fault => rfl
  | ok segs =>
    obtain ⟨rfl, hproper⟩ := ObjectName.segments_eq_ok_iff.mp hname
    have hs : ∀ s ∈ ObjectName.pieces name,
        ObjectName.isObjectSegment s = true ∧ ObjectName.separator ∉ s.toList :=
      fun s hmem => ⟨(hproper s hmem).isObject, ObjectName.separator_not_mem_of_mem_pieces hmem⟩
    exact congrArg Except.ok (FilePath.ofText_foldl_join root hs ObjectName.pieces_ne_nil).symm

/-- The text of a path from the top, and its pieces, the last of which is the last segment of the name. -/
lemma exists_body (hroot : root.toList.head? = some '/') (hpath : ObjectName.path root name = .ok p) :
    ∃ body before s, p.toList = '/' :: body ∧ Text.splitOn '/' body = before ++ [s.toList] ∧
      ObjectName.isObjectSegment s = true ∧ ObjectName.separator ∉ s.toList := by
  obtain ⟨rfl, hs⟩ := ObjectName.path_eq_ok hpath
  obtain ⟨root', hroot'⟩ : ∃ root', root.toList = '/' :: root' := List.head?_eq_some_iff.mp hroot
  obtain ⟨init, s, hpieces⟩ : ∃ init s, ObjectName.pieces name = init ++ [s] := by
    rcases List.eq_nil_or_concat (ObjectName.pieces name) with hnil | ⟨init, s, he⟩
    · exact absurd hnil ObjectName.pieces_ne_nil
    · exact ⟨init, s, by rw [he, List.concat_eq_append]⟩
  obtain ⟨body, hbody⟩ : ∃ body, ((ObjectName.pieces name).foldl ObjectName.join root).toList = '/' :: body := by
    rw [ObjectName.foldl_join hs ObjectName.pieces_ne_nil, ObjectName.lead]
    split_ifs <;> simp [hroot']
  have htext := FilePath.ofText_foldl_join root hs ObjectName.pieces_ne_nil
  rw [FilePath.ofText_of_slash hbody, FilePath.descend, FilePath.mk.injEq, hpieces, List.map_append,
    ← List.append_assoc, List.map_eq_append_iff] at htext
  obtain ⟨before, last, hsplit, -, hlast⟩ := htext
  obtain ⟨piece, rfl, hpiece⟩ := List.map_eq_singleton_iff.mp hlast
  obtain rfl := FilePath.namePiece_eq_iff.mp hpiece
  exact ⟨body, before, s, hbody, hsplit, hs s (by simp [hpieces])⟩

/-- The hidden file of an object behind a root from the top is the one that the text of its path names. -/
theorem staging_ofText (hroot : root.toList.head? = some '/') (hpath : ObjectName.path root name = .ok p) :
    ∃ p', ObjectName.stagingPath p = .ok p' ∧ staging (.ofText p) = .ofText p' := by
  obtain ⟨body, before, s, hbody, hsplit, hobject, hsep⟩ := exists_body hroot hpath
  obtain ⟨hempty, hdot, hdots⟩ := ObjectName.ne_of_isObject hobject
  have hvoid := ObjectName.not_isVoid hempty hdot
  have hstays : ¬ FilePath.stays (.text s) = true := by
    rwa [← FilePath.namePiece_toList, ← Function.comp_apply (f := FilePath.stays), FilePath.stays_namePiece]
  have hfile : ObjectName.splitFile? p =
      some (String.ofList ('/' :: ['/'].intercalate (ObjectName.dropVoid before.reverse).reverse), s) := by
    have hdots' : s.toList ≠ ['.', '.'] := fun h => hdots (String.toList_injective h)
    have hlast : ObjectName.dropVoid (Text.splitOn '/' body).reverse = s.toList :: before.reverse := by
      rw [hsplit, List.reverse_concat, ObjectName.dropVoid_eq, List.dropWhile_cons_of_neg hvoid]
    have hhead : ObjectName.headLength ('/' :: body) = 1 := rfl
    rw [ObjectName.splitFile?, hbody, hhead]
    dsimp only [List.take, List.drop, ObjectName.separator]
    rw [hlast]
    dsimp only
    rw [if_neg hdots', String.ofList_toList]
    rfl
  have hpieces : ∀ piece ∈ (ObjectName.dropVoid before.reverse).reverse, '/' ∉ piece := by
    intro piece hmem
    have hbefore := (List.dropWhile_sublist _).subset (List.mem_reverse.mp hmem)
    apply Text.not_mem_of_mem_splitOn (l := body)
    rw [hsplit]
    exact List.mem_append_left _ (List.mem_reverse.mp hbefore)
  have hhidden : ObjectName.separator ∉ (ObjectName.staged s).toList := by
    rwa [ObjectName.mem_staged (by decide)]
  refine ⟨_, by rw [ObjectName.stagingPath, hfile], ?_⟩
  rw [FilePath.ofText_join _ hhidden (ObjectName.ne_staged (by decide)), FilePath.child_ofText_parent hpieces,
    FilePath.ofText_of_slash hbody, hsplit, List.map_append, List.map_singleton, FilePath.namePiece_toList,
    staging_concat, FilePath.parent_concat hstays, ObjectName.dropVoid_eq, ← FilePath.stays_namePiece,
    ← List.map_reverse, List.dropWhile_map, ← List.map_reverse]

end FolderClient

end StoreLock
