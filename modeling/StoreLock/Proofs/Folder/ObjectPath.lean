import StoreLock.Proofs.Folder.Name

/-!
# Paths of objects

A path is read as its components: where it starts, and the names and steps back behind that. Slashes that follow
each other and points behind the start count for nothing, so a path can be written in several ways.

Joining a segment to a path adds one component (`ObjectName.components_join`), and the file that is split off a path
is its last one (`ObjectName.splitFile?_eq_some`). So the components of an object's path are those of the root and
the segments of its name, and those of the hidden file differ from them in the last one, which no object has
(`ObjectName.paths_apart`).
-/

namespace StoreLock.ObjectName

/-- What a path consists of. -/
inductive Component
  /-- The top of the tree: a slash at the start. -/
  | top
  /-- The current folder: a point at the start. -/
  | here
  /-- The folder around: two points. -/
  | around
  | name (name : String)
deriving DecidableEq

/-- Whether a piece of a path stands for nothing. -/
def isVoid (piece : List Char) : Bool :=
  piece.isEmpty || piece == ['.']

/-- What a piece of a path stands for. -/
def component? (piece : List Char) : Option Component :=
  if isVoid piece then none
  else if piece = ['.', '.'] then some .around
  else some (.name (String.ofList piece))

/-- The component that a path starts with, beside those of its pieces. -/
def start? (path : List Char) : Option Component :=
  match path.take (headLength path) with
  | [] => none
  | '/' :: _ => some .top
  | _ :: _ => some .here

/-- The components of a path. -/
def components (path : String) : List Component :=
  (start? path.toList).toList ++
    (Text.splitOn separator (path.toList.drop (headLength path.toList))).filterMap component?

/-- A path up to where the names of objects begin behind it. -/
def lead (root : String) : String :=
  if root.isEmpty || root.toList.getLast? == some separator then root
  else root ++ separator.toString

variable {l t b piece : List Char} {ps : List (List Char)} {root name s p q m n : String}
  {segs : List String} {before : List Component}

/-! ## Segments -/

lemma ne_of_isObject (h : isObjectSegment s = true) : s ≠ "" ∧ s ≠ "." ∧ s ≠ ".." := by
  refine ⟨?_, ?_, ?_⟩
  · rintro rfl
    cases h
  · rintro rfl
    cases h
  · rintro rfl
    cases h

/-! ## Pieces -/

lemma component?_eq_none (h : isVoid piece = true) : component? piece = none := by
  rw [component?, if_pos h]

lemma component?_ne_none (h : ¬ isVoid piece = true) : component? piece ≠ none := by
  rw [component?, if_neg h]
  split_ifs
  · exact Option.some_ne_none _
  · exact Option.some_ne_none _

lemma not_isVoid (hempty : s ≠ "") (hdot : s ≠ ".") : ¬ isVoid s.toList = true := by
  rw [isVoid, Bool.or_eq_true, List.isEmpty_iff, beq_iff_eq, not_or]
  exact ⟨fun h => hempty (String.toList_injective h), fun h => hdot (String.toList_injective h)⟩

lemma component?_of_ne (hempty : s ≠ "") (hdot : s ≠ ".") (hdots : s ≠ "..") :
    component? s.toList = some (.name s) := by
  have haround : s.toList ≠ ['.', '.'] := fun h => hdots (String.toList_injective h)
  rw [component?, if_neg (not_isVoid hempty hdot), if_neg haround, String.ofList_toList]

/-- A piece that stands for a name is this name. -/
lemma eq_of_component? (h : component? piece = some (.name s)) :
    String.ofList piece = s ∧ piece ≠ ['.', '.'] := by
  rw [component?] at h
  split_ifs at h with hvoid haround
  · cases h
  · exact ⟨Component.name.inj (Option.some.inj h), haround⟩

lemma dropVoid_eq (ps : List (List Char)) : dropVoid ps = ps.dropWhile isVoid :=
  rfl

/-- Pieces that are dropped stand for nothing. -/
lemma filterMap_dropVoid (ps : List (List Char)) :
    (dropVoid ps).filterMap component? = ps.filterMap component? := by
  induction ps with
  | nil => rfl
  | cons p ps ih =>
    rw [dropVoid_eq] at ih ⊢
    by_cases hp : isVoid p = true
    · rw [List.dropWhile_cons_of_pos hp, ih, List.filterMap_cons_none (component?_eq_none hp)]
    · rw [List.dropWhile_cons_of_neg hp]

/-- A piece that follows behind a slash is one more. -/
lemma filterMap_splitOn (d : List Char) (hs : separator ∉ s.toList) :
    (Text.splitOn separator (d ++ separator :: s.toList)).filterMap component? =
      (Text.splitOn separator d).filterMap component? ++ (component? s.toList).toList := by
  rw [Text.splitOn_append, Text.splitOn_of_not_mem hs, List.filterMap_append, List.filterMap_cons]
  cases component? s.toList with
  | none => rfl
  | some => rfl

/-! ## Where a path starts -/

lemma headLength_eq (l : List Char) :
    headLength l =
      if l.head? = some '/' ∨ (l.head? = some '.' ∧ (l.tail = [] ∨ l.tail.head? = some '/')) then 1
      else 0 := by
  by_cases h : l.head? = some '/' ∨ (l.head? = some '.' ∧ (l.tail = [] ∨ l.tail.head? = some '/'))
  · rw [if_pos h]
    rcases h with h | ⟨h, htail | htail⟩
    · obtain ⟨rest, rfl⟩ := List.head?_eq_some_iff.mp h
      rfl
    · obtain ⟨rest, rfl⟩ := List.head?_eq_some_iff.mp h
      rw [List.tail_cons] at htail
      rw [htail]
      rfl
    · obtain ⟨rest, rfl⟩ := List.head?_eq_some_iff.mp h
      obtain ⟨rest', rfl⟩ := List.head?_eq_some_iff.mp htail
      rfl
  · rw [if_neg h, headLength]
    · rintro rest rfl
      exact h (.inl rfl)
    · rintro rfl
      exact h (.inr ⟨rfl, .inl rfl⟩)
    · rintro rest rfl
      exact h (.inr ⟨rfl, .inr rfl⟩)

lemma headLength_le (l : List Char) : headLength l ≤ l.length := by
  rw [headLength_eq]
  split_ifs with h
  · cases l with
    | nil => simp at h
    | cons => simp
  · exact Nat.zero_le _

/-- Where a path starts is settled before the first slash behind it. -/
lemma headLength_append (hl : l ≠ []) (h : t.head? = some '/' ∨ l.getLast? = some '/') :
    headLength (l ++ t) = headLength l := by
  obtain ⟨c, l, rfl⟩ := List.exists_cons_of_ne_nil hl
  rw [headLength_eq, headLength_eq]
  cases l with
  | nil =>
    rcases h with h | h
    · simp [h]
    · have hc : c = '/' := by simpa using h
      simp [hc]
  | cons d l => simp

/-- A path that is cut behind its start, at a slash or at once, starts in the same way. -/
lemma headLength_cut (h : l = l.take (headLength l) ++ b ++ t) (ht : t.head? = some '/' ∨ b = []) :
    headLength (l.take (headLength l) ++ b) = headLength l := by
  by_cases hnil : l.take (headLength l) ++ b = []
  · obtain ⟨htake, rfl⟩ := List.append_eq_nil_iff.mp hnil
    rw [List.take_eq_nil_iff] at htake
    rcases htake with hzero | rfl
    · rw [hzero]
      rfl
    · rfl
  by_cases hslash : t.head? = some '/'
  · have happend := headLength_append hnil (.inl hslash)
    rw [← h] at happend
    exact happend.symm
  -- The cut is at once, behind a slash or behind a point that is the whole path.
  obtain rfl := ht.resolve_left hslash
  rw [List.append_nil] at h hnil ⊢
  rw [headLength_eq l] at h hnil ⊢
  split_ifs at h hnil ⊢ with hstart
  · rcases hstart with hroot | ⟨hpoint, htail | htail⟩
    · obtain ⟨rest, rfl⟩ := List.head?_eq_some_iff.mp hroot
      rfl
    · obtain ⟨rest, rfl⟩ := List.head?_eq_some_iff.mp hpoint
      rfl
    · obtain ⟨rest, rfl⟩ := List.head?_eq_some_iff.mp hpoint
      rfl
  · rw [List.take_zero] at hnil
    exact absurd rfl hnil

lemma start?_ne_name (l : List Char) (s : String) : start? l ≠ some (.name s) := by
  rw [start?]
  split <;> simp

/-! ## Joining segments -/

/-- The pieces that follow where a path ends with a slash, or at its start. -/
lemma filterMap_splitOn_slash {d : List Char} (hs : separator ∉ s.toList)
    (hd : d = [] ∨ d.getLast? = some separator) :
    (Text.splitOn separator (d ++ s.toList)).filterMap component? =
      (Text.splitOn separator d).filterMap component? ++ (component? s.toList).toList := by
  rcases hd with rfl | hd
  · rw [List.nil_append, Text.splitOn_of_not_mem hs, List.filterMap_cons]
    cases component? s.toList with
    | none => rfl
    | some => rfl
  · obtain ⟨d, rfl⟩ := List.getLast?_eq_some_iff.mp hd
    have hvoid := filterMap_splitOn (s := "") d List.not_mem_nil
    rw [List.append_assoc, List.singleton_append, filterMap_splitOn d hs]
    have hnil : component? "".toList = none := rfl
    rw [hnil, Option.toList_none, List.append_nil] at hvoid
    rw [← hvoid]
    rfl

lemma start?_append (hl : l ≠ []) (h : t.head? = some '/' ∨ l.getLast? = some '/') :
    start? (l ++ t) = start? l := by
  rw [start?, start?, headLength_append hl h, List.take_append_of_le_length (headLength_le l)]

/-- A segment that is joined to a path is one more component. -/
theorem components_join (path : String) (hs : separator ∉ s.toList)
    (hname : component? s.toList = some (.name s)) :
    components (join path s) = components path ++ [.name s] := by
  have hone : [Component.name s] = (component? s.toList).toList := by
    rw [hname, Option.toList_some]
  by_cases hpath : path.toList = []
  · have hempty : path = "" := String.toList_injective hpath
    have hhead : headLength s.toList = 0 := by
      rw [headLength_eq, if_neg]
      rintro (h | ⟨h, htail | htail⟩)
      · exact hs (List.mem_of_mem_head? h)
      · obtain ⟨rest, hr⟩ := List.head?_eq_some_iff.mp h
        rw [hr, List.tail_cons] at htail
        rw [hr, htail] at hname
        cases hname
      · exact hs (List.mem_of_mem_tail (List.mem_of_mem_head? htail))
    have hstart : start? s.toList = none := by
      rw [start?, hhead, List.take_zero]
    have hjoin : join "" s = s := String.empty_append
    have hnone : components "" = [] := rfl
    rw [hempty, hjoin, hnone, components, hstart, hhead, List.drop_zero, hone]
    exact filterMap_splitOn_slash hs (.inl rfl)
  rw [join]
  split_ifs with hslash
  · have hlast : path.toList.getLast? = some separator := by
      simpa [String.isEmpty_iff, ← String.toList_eq_nil_iff, hpath] using hslash
    rw [components, components, String.toList_append, start?_append hpath (.inr hlast),
      headLength_append hpath (.inr hlast), List.drop_append_of_le_length (headLength_le _),
      filterMap_splitOn_slash hs, List.append_assoc, hone]
    by_cases hdrop : path.toList.drop (headLength path.toList) = []
    · exact .inl hdrop
    · right
      rw [List.getLast?_drop, if_neg (by simpa using hdrop), hlast]
  · have hhead : (separator :: s.toList).head? = some '/' := rfl
    have hlist : (path ++ separator.toString ++ s).toList = path.toList ++ separator :: s.toList := by
      simp
    rw [components, components, hlist, start?_append hpath (.inl hhead), headLength_append hpath (.inl hhead),
      List.drop_append_of_le_length (headLength_le _), filterMap_splitOn _ hs, List.append_assoc, hone]

/-! ## Splitting off the file -/

/-- The pieces of a text stand for the components of the text that is joined from them. -/
lemma filterMap_splitOn_intercalate (h : ∀ p ∈ ps, separator ∉ p) :
    (Text.splitOn separator ([separator].intercalate ps)).filterMap component? =
      ps.filterMap component? := by
  by_cases hnil : ps = []
  · rw [hnil]
    rfl
  · rw [Text.splitOn_intercalate h hnil]

/-- What stands before some pieces of a path, but for what is void at the end of it, starts as the path does. -/
lemma headLength_before {ps qs : List (List Char)} (hqs : qs ≠ [])
    (hsplit : Text.splitOn separator (l.drop (headLength l)) = ps ++ qs) :
    headLength (l.take (headLength l) ++ [separator].intercalate ps) = headLength l := by
  have hjoin : [separator].intercalate (ps ++ qs) = l.drop (headLength l) := by
    rw [← hsplit, Text.intercalate_splitOn]
  have hl : l = l.take (headLength l) ++ l.drop (headLength l) := (List.take_append_drop _ l).symm
  by_cases hnil : ps = []
  · subst hnil
    have hcut : l = l.take (headLength l) ++ [] ++ l.drop (headLength l) := by
      rw [List.append_nil]
      exact hl
    exact headLength_cut hcut (.inr rfl)
  · rw [Text.intercalate_append hnil hqs] at hjoin
    rw [← hjoin, ← List.append_assoc] at hl
    exact headLength_cut hl (.inl rfl)

/-- The file that is split off a path is its last component, and the rest are those of the folder. -/
theorem splitFile?_eq_some {path : String} (h : components path = before ++ [.name s]) :
    ∃ parent, splitFile? path = some (parent, s) ∧ components parent = before := by
  rw [components] at h
  rw [splitFile?]
  generalize path.toList = l at *
  have hsep : ∀ p ∈ Text.splitOn separator (l.drop (headLength l)), separator ∉ p :=
    fun p hp => Text.not_mem_of_mem_splitOn hp
  generalize hsplit : Text.splitOn separator (l.drop (headLength l)) = pieces at *
  rw [← List.reverse_reverse pieces, List.filterMap_reverse, ← filterMap_dropVoid] at h
  dsimp only
  cases hdrop : dropVoid pieces.reverse with
  | nil =>
    -- A path of void pieces has one component at most, which is no name.
    rw [hdrop, List.filterMap_nil, List.reverse_nil, List.append_nil] at h
    have hmem : Component.name s ∈ (start? l).toList := by
      rw [h]
      simp
    exact absurd (Option.mem_toList.mp hmem) (start?_ne_name l s)
  | cons p rest =>
    have hp : ¬ isVoid p = true := by
      have hhead := List.head?_dropWhile_not isVoid pieces.reverse
      rw [← dropVoid_eq, hdrop] at hhead
      simpa using hhead
    obtain ⟨x, hx⟩ := Option.ne_none_iff_exists'.mp (component?_ne_none hp)
    rw [hdrop, List.filterMap_cons_some hx, List.reverse_cons, ← List.append_assoc] at h
    obtain ⟨hbefore, hname⟩ := List.append_inj' h rfl
    cases hname
    obtain ⟨rfl, haround⟩ := eq_of_component? hx
    dsimp only
    rw [if_neg haround]
    refine ⟨_, rfl, ?_⟩
    have hpieces : pieces = (dropVoid rest).reverse ++
        ((rest.takeWhile isVoid).reverse ++ p :: (pieces.reverse.takeWhile isVoid).reverse) := by
      have houter := List.takeWhile_append_dropWhile (p := isVoid) (l := pieces.reverse)
      have hinner := List.takeWhile_append_dropWhile (p := isVoid) (l := rest)
      rw [← dropVoid_eq] at houter hinner
      rw [hdrop] at houter
      rw [← List.append_assoc, ← List.reverse_append, hinner]
      simpa using congrArg List.reverse houter.symm
    have hhead := headLength_before (by simp) (hsplit.trans hpieces)
    have hlen : (l.take (headLength l)).length = headLength l :=
      List.length_take_of_le (headLength_le l)
    rw [components, String.toList_ofList, start?, hhead, List.take_left' hlen, List.drop_left' hlen,
      filterMap_splitOn_intercalate, List.filterMap_reverse, filterMap_dropVoid, ← hbefore]
    · rfl
    · intro piece hmem
      apply hsep
      rw [hpieces]
      exact List.mem_append_left _ hmem

/-! ## Objects and their hidden files -/

lemma join_eq (root s : String) : join root s = lead root ++ s := by
  rw [join, lead]
  split_ifs
  · rfl
  · rfl

lemma lead_append (h : isObjectSegment s = true) (hs : separator ∉ s.toList) :
    lead (root ++ s) = root ++ s ++ separator.toString := by
  have hne : s.toList ≠ [] := fun he => (ne_of_isObject h).1 (String.toList_injective he)
  have hempty : (root ++ s).isEmpty = false := by
    simp [← String.toList_eq_nil_iff, hne]
  have hlast : (root ++ s).toList.getLast? ≠ some separator := by
    rw [String.toList_append, List.getLast?_append_of_ne_nil _ hne]
    exact fun he => hs (List.mem_of_getLast? he)
  rw [lead, hempty, Bool.false_or, if_neg (by simpa using hlast)]

/-- Segments that are joined to a root spell a name behind it. -/
lemma foldl_join (hs : ∀ s ∈ segs, isObjectSegment s = true ∧ separator ∉ s.toList) (hne : segs ≠ []) :
    segs.foldl join root = lead root ++ spell segs := by
  induction segs generalizing root with
  | nil => exact absurd rfl hne
  | cons s segs ih =>
    rw [List.forall_mem_cons] at hs
    rw [List.foldl_cons, join_eq]
    by_cases hnil : segs = []
    · rw [hnil, List.foldl_nil, spell_singleton]
    · rw [ih hs.2 hnil, lead_append hs.1.1 hs.1.2, spell_cons hnil]
      simp only [String.append_assoc]

lemma components_foldl_join (hs : ∀ s ∈ segs, isObjectSegment s = true ∧ separator ∉ s.toList) :
    components (segs.foldl join root) = components root ++ segs.map .name := by
  induction segs generalizing root with
  | nil => simp
  | cons s segs ih =>
    rw [List.forall_mem_cons] at hs
    obtain ⟨hempty, hdot, hdots⟩ := ne_of_isObject hs.1.1
    rw [List.foldl_cons, ih hs.2, components_join root hs.1.2 (component?_of_ne hempty hdot hdots),
      List.map_cons, List.append_assoc, List.singleton_append]

/-- A name that has a path is made of segments of objects. -/
lemma path_eq_ok (h : path root name = .ok p) :
    p = (pieces name).foldl join root ∧
      ∀ s ∈ pieces name, isObjectSegment s = true ∧ separator ∉ s.toList := by
  rw [ObjectName.path] at h
  cases hname : segments name with
  | error fault =>
    rw [hname] at h
    cases h
  | ok segs =>
    rw [hname] at h
    cases h
    obtain ⟨rfl, hproper⟩ := segments_eq_ok_iff.mp hname
    exact ⟨rfl, fun s hs => ⟨(hproper s hs).isObject, separator_not_mem_of_mem_pieces hs⟩⟩

/-- The hidden file of an object is in the same folder. -/
lemma exists_stagingPath (h : path root name = .ok p) :
    ∃ init s p', pieces name = init ++ [s] ∧ stagingPath p = .ok p' ∧
      components p' = components root ++ init.map .name ++ [.name (staged s)] := by
  obtain ⟨rfl, hs⟩ := path_eq_ok h
  obtain ⟨init, s, hpieces⟩ : ∃ init s, pieces name = init ++ [s] := by
    rcases List.eq_nil_or_concat (pieces name) with hnil | ⟨init, s, he⟩
    · exact absurd hnil pieces_ne_nil
    · exact ⟨init, s, by rw [he, List.concat_eq_append]⟩
  have hcomponents : components ((pieces name).foldl join root) = components root ++ (pieces name).map .name :=
    components_foldl_join hs
  rw [hpieces, List.map_append, List.map_singleton, ← List.append_assoc] at hcomponents
  obtain ⟨parent, hsplit, hparent⟩ := splitFile?_eq_some hcomponents
  have hsep : separator ∉ (staged s).toList := by
    rw [mem_staged (by decide)]
    exact (hs s (by simp [hpieces])).2
  have hname : component? (staged s).toList = some (.name (staged s)) :=
    component?_of_ne (ne_staged (by decide)) (ne_staged (by decide)) (ne_staged (by decide))
  refine ⟨init, s, join parent (staged s), hpieces, ?_, ?_⟩
  · rw [hpieces, stagingPath, hsplit]
  · rw [components_join parent hsep hname, hparent]

/-- The path of an object goes on from the root by the segments of its name, none of which leads back or is hidden,
and what stands behind the root is the name. Objects with different names have different paths, and so have their
hidden files, which are in the same folders under segments that belong to no object. -/
theorem paths_apart (hm : path root m = .ok p) (hn : path root n = .ok q) :
    (p = lead root ++ m ∧ spell (pieces m) = m ∧ pieces m ≠ [] ∧
      components p = components root ++ (pieces m).map .name ∧
      ∀ s ∈ pieces m, isObjectSegment s = true ∧ s ≠ "" ∧ s ≠ "." ∧ s ≠ ".." ∧ separator ∉ s.toList) ∧
    (m ≠ n → components p ≠ components q) ∧
    ∃ p' q' s, stagingPath p = .ok p' ∧ stagingPath q = .ok q' ∧
      (m ≠ n → components p' ≠ components q') ∧
      components p = (components p).dropLast ++ [.name s] ∧
      components p' = (components p).dropLast ++ [.name (staged s)] ∧
      isObjectSegment (staged s) = false ∧
      ∀ other k r, path other k = .ok r → components r ≠ components p' := by
  obtain ⟨hp, hs⟩ := path_eq_ok hm
  obtain ⟨hq, ht⟩ := path_eq_ok hn
  have hcomponents : components p = components root ++ (pieces m).map .name := by
    rw [hp, components_foldl_join hs]
  have hcomponents' : components q = components root ++ (pieces n).map .name := by
    rw [hq, components_foldl_join ht]
  have hinj : pieces m = pieces n → m = n := by
    intro he
    have hm : spell (pieces m) = m := spell_pieces
    rw [← hm, he, spell_pieces]
  have hmap : ∀ {xs ys : List String}, xs.map Component.name = ys.map Component.name → xs = ys :=
    fun h => List.map_injective_iff.mpr (fun _ _ he => Component.name.inj he) h
  obtain ⟨init, s, p', hpieces, hstaging, hstaged⟩ := exists_stagingPath hm
  obtain ⟨init', t, q', hpieces', hstaging', hstaged'⟩ := exists_stagingPath hn
  have hlast : components p = components root ++ init.map .name ++ [.name s] := by
    rw [hcomponents, hpieces, List.map_append, List.append_assoc]
    rfl
  refine ⟨⟨?_, spell_pieces, pieces_ne_nil, hcomponents, ?_⟩, ?_,
    p', q', s, hstaging, hstaging', ?_, ?_, ?_, isObjectSegment_staged s, ?_⟩
  · rw [hp, foldl_join hs pieces_ne_nil, spell_pieces]
  · intro s hmem
    obtain ⟨hempty, hdot, hdots⟩ := ne_of_isObject (hs s hmem).1
    exact ⟨(hs s hmem).1, hempty, hdot, hdots, (hs s hmem).2⟩
  · intro hne he
    rw [hcomponents, hcomponents', List.append_cancel_left_eq] at he
    exact hne (hinj (hmap he))
  · intro hne he
    rw [hstaged, hstaged', List.append_assoc, List.append_assoc, List.append_cancel_left_eq] at he
    obtain ⟨hinit, hlast⟩ := List.append_inj' he rfl
    have hst : s = t := staged_inj (Component.name.inj (List.singleton_inj.mp hlast))
    exact hne (hinj (by rw [hpieces, hpieces', hmap hinit, hst]))
  · rw [hlast, List.dropLast_concat]
  · rw [hlast, List.dropLast_concat, hstaged]
  · intro other k r hk he
    obtain ⟨init'', u, -, hpieces'', -, -⟩ := exists_stagingPath hk
    obtain ⟨rfl, hu⟩ := path_eq_ok hk
    rw [components_foldl_join hu, hstaged, hpieces'', List.map_append, List.map_singleton,
      ← List.append_assoc] at he
    obtain ⟨-, hlast⟩ := List.append_inj' he rfl
    have hobject := (hu u (by simp [hpieces''])).1
    rw [Component.name.inj (List.singleton_inj.mp hlast), isObjectSegment_staged] at hobject
    cases hobject

/-- A root that ends with a point, as a case of the theorem. -/
theorem paths_apart_behind_point :
    path "./srv/." "a/b" = .ok "./srv/./a/b" ∧ path "./srv/." "a" = .ok "./srv/./a" ∧
      components "./srv/./a/b" = [.here, .name "srv", .name "a", .name "b"] ∧
      components "./srv/./a/b" ≠ components "./srv/./a" ∧
      ∃ p', stagingPath "./srv/./a/b" = .ok p' ∧
        components p' = [.here, .name "srv", .name "a", .name ".b.tmp"] ∧
        ∀ other k r, path other k = .ok r → components r ≠ components p' := by
  have hm : path "./srv/." "a/b" = .ok "./srv/./a/b" := rfl
  have hn : path "./srv/." "a" = .ok "./srv/./a" := rfl
  obtain ⟨⟨-, -, -, hp, -⟩, hne, p', q', s, hstaging, -, -, hlast, hstaged, -, hother⟩ := paths_apart hm hn
  have hcomponents : components "./srv/./a/b" = [.here, .name "srv", .name "a", .name "b"] := rfl
  rw [hcomponents] at hlast hstaged
  obtain rfl : "b" = s := by simpa using hlast
  exact ⟨hm, hn, rfl, hne (by decide), p', hstaging, hstaged, hother⟩

end StoreLock.ObjectName
