import StoreLock.Proofs.Folder.Tree

/-!
# Ways through a tree

Where a path leads depends on nothing but what is at each place. `walkAt` and `followAt` walk from place
to place where the steps on a tree carry the folders they have reached with them, and arrive at the same
places (`Folder.follow_eq`).

Of a way that leads to a folder three things matter. It goes on in that folder with whatever names follow
(`Leads.of_follow`). It does not depend on what is in the folder, if that was empty when it was found
(`followAt_eq_of_apart`). And behind it, names that meet no link lead to the place they say, or nowhere
(`followAt_plain`).
-/

namespace StoreLock

/-- How far names lead without following a link, in terms of places. -/
inductive Way
  | arrived (place : Place)
  | link (place : Place) (target : String) (rest : List FileName)
  | lost (fault : FileFault)

/-- Walks along names from place to place. -/
def walkAt (look : Place → Option FileKind) (followsLast : Bool) (place : Place) :
    List FileName → Way
  | [] => .arrived place
  | name :: rest =>
    if name = .text "." then walkAt look followsLast place rest
    else if name = .text ".." then walkAt look followsLast place.dropLast rest
    else if FileName.maxLength < name.length then .lost .nameTooLong
    else
      match look (place ++ [name]) with
      | none => if rest = [] then .arrived (place ++ [name]) else .lost .notFound
      | some .folder => walkAt look followsLast (place ++ [name]) rest
      | some (.file _) => if rest = [] then .arrived (place ++ [name]) else .lost .notDirectory
      | some (.link target) =>
        if rest = [] ∧ ¬ followsLast then .arrived (place ++ [name]) else .link place target rest

/-- Walks along names from place to place and follows the links on the way. -/
def followAt (look : Place → Option FileKind) (followsLast : Bool) (links : Nat) (place : Place)
    (names : List FileName) (slash : Bool) : Except FileFault Folder.Landing :=
  match walkAt look followsLast place names with
  | .arrived place => .ok ⟨place, slash⟩
  | .lost fault => .error fault
  | .link place target rest =>
    match links with
    | 0 => .error .tooManyLinks
    | links + 1 =>
      let way := FilePath.ofText target
      let start := if target.toList.head? = some '/' then [] else place
      followAt look followsLast links start (way.names ++ rest)
        (slash || (rest.isEmpty && way.endsInSlash))

/-- How far names lead that follow where a walk has ended. -/
def Way.goOn (look : Place → Option FileKind) (followsLast : Bool) (more : List FileName) : Way → Way
  | .arrived place =>
    match look place with
    | some .folder => walkAt look followsLast place more
    | none => .lost .notFound
    | some _ => .lost .notDirectory
  | .link place target rest => .link place target (rest ++ more)
  | .lost fault => .lost fault

/-- What is at the places is a tree of folders. -/
structure IsTree (look : Place → Option FileKind) : Prop where
  top : look [] = some .folder
  inFolder : ∀ p n, look (p ++ [n]) ≠ none → look p = some .folder

/-- The names lead to a folder, and on from there. -/
def Leads (look : Place → Option FileKind) (names : List FileName) (place : Place) : Prop :=
  look place = some .folder ∧ ∃ links, ∀ followsLast more slash, more ≠ [] →
    followAt look followsLast Folder.maxLinks [] (names ++ more) slash =
      followAt look followsLast links place more slash

/-- A place is not below another. -/
def Apart (outer q : Place) : Prop :=
  ∀ n r, q ≠ outer ++ n :: r

/-- Names that stand for themselves on a path. -/
def Plain (names : List FileName) : Prop :=
  ∀ n ∈ names, n ≠ .text "." ∧ n ≠ .text ".."

namespace Folder

/-- A spot that has been reached from the top of a tree. -/
inductive Spot.Reached (f : Folder) : Spot → Prop where
  | top : Reached f ⟨f, []⟩
  | enter {s name inside} :
    Reached f s →
    s.here.find? name = some (.folder inside) →
    Reached f (s.enter name inside)

/-- Two walks have led to the same end. -/
inductive Walked.Agrees (f : Folder) : Walked → Way → Prop where
  | arrived {p} : Agrees f (.arrived p) (.arrived p)
  | link {s t l} :
    Spot.Reached f s →
    Agrees f (.link s t l) (.link s.place t l)
  | lost {e} : Agrees f (.lost e) (.lost e)

end Folder

variable {look look' : Place → Option FileKind} {f : Folder} {s : Folder.Spot}
  {followsLast slash : Bool} {links : Nat} {p q place : Place} {n : FileName}
  {names more rest : List FileName} {target : String} {w : Way} {landing : Folder.Landing}

/-- Names on a path are walked along one after another: a name stays in the folder that has been reached,
leaves it or stands for itself. -/
lemma names_induction {motive : List FileName → Prop} (names : List FileName) (nil : motive [])
    (dot : ∀ names, motive names → motive (.text "." :: names))
    (dots : ∀ names, motive names → motive (.text ".." :: names))
    (name : ∀ n names, n ≠ .text "." → n ≠ .text ".." → motive names → motive (n :: names)) :
    motive names := by
  induction names with
  | nil => exact nil
  | cons n names ih =>
    by_cases hdot : n = .text "."
    · subst hdot
      exact dot names ih
    by_cases hdots : n = .text ".."
    · subst hdots
      exact dots names ih
    exact name n names hdot hdots ih

/-- The folder around a folder is one. -/
lemma IsTree.dropLast (h : IsTree look) (hp : look p = some .folder) :
    look p.dropLast = some .folder := by
  rcases List.eq_nil_or_concat p with rfl | ⟨q, n, rfl⟩
  · exact h.top
  · rw [List.concat_eq_append] at hp ⊢
    rw [List.dropLast_concat]
    exact h.inFolder q n (by rw [hp]; exact Option.some_ne_none _)

namespace Folder

lemma isTree (f : Folder) : IsTree f.look? :=
  ⟨look?_nil, fun _ _ => look?_of_append⟩

/-! ## From folders to places -/

lemma Spot.place_enter (s : Spot) (name : FileName) (inside : Folder) :
    (s.enter name inside).place = s.place ++ [name] := by
  simp [place, enter]

namespace Spot.Reached

lemma at? (h : Reached f s) : f.at? s.place = some (.folder s.here) := by
  induction h with
  | top => exact at?_nil
  | enter _ hf ih => rw [place_enter, at?_append ih, at?_singleton, hf, Spot.enter]

lemma look? (h : Reached f s) (name : FileName) :
    f.look? (s.place ++ [name]) = (s.here.find? name).map (·.kind) := by
  rw [look?_append h.at?, Folder.look?, at?_singleton]

lemma leave (h : Reached f s) : Reached f s.leave ∧ s.leave.place = s.place.dropLast := by
  cases h with
  | top => exact ⟨.top, rfl⟩
  | enter h hf =>
    rw [place_enter, List.dropLast_concat]
    exact ⟨h, rfl⟩

end Spot.Reached

lemma walkFrom_agrees (followsLast : Bool) (names : List FileName) (h : Spot.Reached f s) :
    Walked.Agrees f (walkFrom followsLast s names) (walkAt f.look? followsLast s.place names) := by
  induction names using names_induction generalizing s with
  | nil => exact .arrived
  | dot rest ih =>
    rw [walkFrom, walkAt, if_pos rfl, if_pos rfl]
    exact ih h
  | dots rest ih =>
    rw [walkFrom, walkAt, if_neg (by decide), if_pos rfl, if_neg (by decide), if_pos rfl, ← h.leave.2]
    exact ih h.leave.1
  | name name rest hdot hdots ih =>
    rw [walkFrom, walkAt, h.look?]
    by_cases hlong : FileName.maxLength < name.length
    · rw [if_neg hdot, if_neg hdots, if_pos hlong, if_neg hdot, if_neg hdots, if_pos hlong]
      exact .lost
    rw [if_neg hdot, if_neg hdots, if_neg hlong, if_neg hdot, if_neg hdots, if_neg hlong]
    cases hf : s.here.find? name with
    | none =>
      dsimp only [Option.map_none]
      split_ifs
      · exact .arrived
      · exact .lost
    | some node =>
      cases node with
      | file contents =>
        dsimp only [Option.map_some, FileNode.kind]
        split_ifs
        · exact .arrived
        · exact .lost
      | link target =>
        dsimp only [Option.map_some, FileNode.kind]
        split_ifs
        · exact .arrived
        · exact .link h
      | folder inside =>
        dsimp only [Option.map_some, FileNode.kind]
        rw [← s.place_enter name inside]
        exact ih (h.enter hf)

theorem follow_eq (h : Spot.Reached f s) :
    f.follow followsLast links s names slash =
      followAt f.look? followsLast links s.place names slash := by
  induction links generalizing s names slash with
  | zero =>
    have hw := walkFrom_agrees followsLast names h
    rw [follow, followAt]
    generalize walkFrom followsLast s names = w at hw
    generalize walkAt f.look? followsLast s.place names = w' at hw
    cases hw <;> rfl
  | succ links ih =>
    have hw := walkFrom_agrees followsLast names h
    rw [follow, followAt]
    generalize walkFrom followsLast s names = w at hw
    generalize walkAt f.look? followsLast s.place names = w' at hw
    cases hw with
    | arrived => rfl
    | lost => rfl
    | link hr =>
      dsimp only
      split_ifs
      · exact ih .top
      · exact ih hr

/-- Where a path leads depends on what is at each place. -/
theorem resolve_eq (f : Folder) (followsLast : Bool) (path : FilePath) :
    f.resolve followsLast path =
      if path.pieces.any FileName.hasNul then .error .nulInPath
      else if path.isTooLong then .error .nameTooLong
      else followAt f.look? followsLast maxLinks [] path.names path.endsInSlash := by
  rw [resolve, follow_eq .top]
  rfl

lemma resolve_eq_ok_iff {path : FilePath} : f.resolve followsLast path = .ok landing ↔
    path.pieces.any FileName.hasNul = false ∧ path.isTooLong = false ∧
      followAt f.look? followsLast maxLinks [] path.names path.endsInSlash = .ok landing := by
  rw [resolve_eq]
  by_cases hnul : path.pieces.any FileName.hasNul = true
  · simp [hnul]
  by_cases hlong : path.isTooLong = true
  · simp [hnul, hlong]
  · simp [hnul, hlong]

/-- A path leads to a folder if and only if the system takes the path and its names lead there. -/
theorem readFolder_eq_ok_iff {path : FilePath} {inside : Folder} :
    f.readFolder path = .ok inside ↔
      path.pieces.any FileName.hasNul = false ∧ path.isTooLong = false ∧
        ∃ landing, followAt f.look? true maxLinks [] path.names path.endsInSlash = .ok landing ∧
          f.at? landing.place = some (.folder inside) := by
  have hread : f.readFolder path = .ok inside ↔
      ∃ landing, f.resolve true path = .ok landing ∧ f.at? landing.place = some (.folder inside) := by
    rw [readFolder]
    cases f.resolve true path with
    | error e => simp
    | ok landing =>
      simp only [Except.ok.injEq, exists_eq_left']
      rcases f.at? landing.place with - | (contents | target | g) <;> simp
  simp only [hread, resolve_eq_ok_iff, and_assoc, exists_and_left]

end Folder

/-! ## From place to place -/

@[simp] lemma walkAt_dot : walkAt look followsLast p (.text "." :: names) =
    walkAt look followsLast p names := by
  rw [walkAt, if_pos rfl]

@[simp] lemma walkAt_dots : walkAt look followsLast p (.text ".." :: names) =
    walkAt look followsLast p.dropLast names := by
  rw [walkAt, if_neg (by decide), if_pos rfl]

lemma walkAt_name (hdot : n ≠ .text ".") (hdots : n ≠ .text "..") :
    walkAt look followsLast p (n :: names) =
      if FileName.maxLength < n.length then .lost .nameTooLong
      else
        match look (p ++ [n]) with
        | none => if names = [] then .arrived (p ++ [n]) else .lost .notFound
        | some .folder => walkAt look followsLast (p ++ [n]) names
        | some (.file _) => if names = [] then .arrived (p ++ [n]) else .lost .notDirectory
        | some (.link target) =>
          if names = [] ∧ ¬ followsLast then .arrived (p ++ [n]) else .link p target names := by
  rw [walkAt, if_neg hdot, if_neg hdots]

/-- A walk that goes on behind some names does so where these lead. -/
lemma walkAt_append (followsLast : Bool) (names : List FileName) (ht : IsTree look)
    (hp : look p = some .folder) (hm : more ≠ []) :
    walkAt look followsLast p (names ++ more) =
      (walkAt look true p names).goOn look followsLast more := by
  induction names using names_induction generalizing p with
  | nil => rw [List.nil_append, walkAt, Way.goOn, hp]
  | dot names ih =>
    rw [List.cons_append, walkAt_dot, walkAt_dot]
    exact ih hp
  | dots names ih =>
    rw [List.cons_append, walkAt_dots, walkAt_dots]
    exact ih (ht.dropLast hp)
  | name n names hdot hdots ih =>
    rw [List.cons_append, walkAt_name hdot hdots, walkAt_name hdot hdots]
    by_cases hlong : FileName.maxLength < n.length
    · rw [if_pos hlong, if_pos hlong, Way.goOn]
    rw [if_neg hlong, if_neg hlong]
    rcases hl : look (p ++ [n]) with - | (contents | target | -)
    · by_cases hnil : names = [] <;> simp [hnil, hm, hl, Way.goOn]
    · by_cases hnil : names = [] <;> simp [hnil, hm, hl, Way.goOn]
    · simp [hm, Way.goOn]
    · exact ih hl

/-- Whether a last link is followed matters only for a walk that ends at one. -/
lemma walkAt_false (look : Place → Option FileKind) (p : Place) (names : List FileName) :
    walkAt look false p names = walkAt look true p names ∨
      ∃ q target, walkAt look false p names = .arrived q ∧ look q = some (.link target) := by
  induction names using names_induction generalizing p with
  | nil => exact .inl rfl
  | dot names ih =>
    rw [walkAt_dot, walkAt_dot]
    exact ih p
  | dots names ih =>
    rw [walkAt_dots, walkAt_dots]
    exact ih p.dropLast
  | name n names hdot hdots ih =>
    rw [walkAt_name hdot hdots, walkAt_name hdot hdots]
    by_cases hlong : FileName.maxLength < n.length
    · rw [if_pos hlong, if_pos hlong]
      exact .inl rfl
    rw [if_neg hlong, if_neg hlong]
    rcases hl : look (p ++ [n]) with - | (contents | target | -)
    · exact .inl rfl
    · exact .inl rfl
    · by_cases hnil : names = []
      · exact .inr ⟨p ++ [n], target, by simp [hnil], hl⟩
      · left
        simp [hnil]
    · exact ih (p ++ [n])

/-- A walk that does not end below a place in which nothing is does not depend on what is put there. -/
lemma walkAt_eq_of_apart {outer : Place} (hsame : ∀ q, Apart outer q → look' q = look q)
    (hnone : ∀ n r, look (outer ++ n :: r) = none)
    (hw : ∀ q, walkAt look followsLast p names = .arrived q → Apart outer q)
    (hlost : ∀ e, walkAt look followsLast p names ≠ .lost e) :
    walkAt look' followsLast p names = walkAt look followsLast p names := by
  induction names using names_induction generalizing p with
  | nil => rfl
  | dot names ih =>
    simp only [walkAt_dot] at hw hlost ⊢
    exact ih hw hlost
  | dots names ih =>
    simp only [walkAt_dots] at hw hlost ⊢
    exact ih hw hlost
  | name n names hdot hdots ih =>
    simp only [walkAt_name hdot hdots] at hw hlost ⊢
    by_cases hlong : FileName.maxLength < n.length
    · simp only [if_pos hlong]
    simp only [if_neg hlong] at hw hlost ⊢
    by_cases hap : Apart outer (p ++ [n])
    case neg =>
      -- The walk would end here, where nothing is.
      rw [Apart] at hap
      push Not at hap
      obtain ⟨n', r, he⟩ := hap
      rw [he, hnone] at hw hlost
      by_cases hnil : names = []
      · exact absurd rfl (hw (outer ++ n' :: r) (by simp [hnil]) n' r)
      · exact absurd (by simp [hnil]) (hlost .notFound)
    case pos =>
      rw [hsame _ hap]
      rcases hl : look (p ++ [n]) with - | (contents | target | -)
      · rfl
      · rfl
      · rfl
      · simp only [hl] at hw hlost
        exact ih hw hlost

/-- A link that a walk meets is in a folder. -/
lemma look_of_walkAt (ht : IsTree look) (hp : look p = some .folder)
    (h : walkAt look followsLast p names = .link q target rest) : look q = some .folder := by
  fun_induction walkAt look followsLast p names with
  | case1 => cases h
  | case2 p rest' ih => exact ih hp h
  | case3 p rest' _ ih => exact ih (ht.dropLast hp) h
  | case4 => cases h
  | case5 => cases h
  | case6 => cases h
  | case7 p n rest' _ _ _ hl ih => exact ih hl h
  | case8 => cases h
  | case9 => cases h
  | case10 => cases h
  | case11 =>
    cases h
    exact hp

/-! ## Through links -/

/-- Where a walk goes on behind a link. -/
def linkStart (target : String) (place : Place) : Place :=
  if target.toList.head? = some '/' then [] else place

lemma look_linkStart (target : String) (ht : IsTree look) (hp : look p = some .folder) :
    look (linkStart target p) = some .folder := by
  rw [linkStart]
  split_ifs
  · exact ht.top
  · exact hp

lemma followAt_of_arrived (h : walkAt look followsLast p names = .arrived q) :
    followAt look followsLast links p names slash = .ok ⟨q, slash⟩ := by
  rw [followAt, h]

lemma followAt_of_lost {e : FileFault} (h : walkAt look followsLast p names = .lost e) :
    followAt look followsLast links p names slash = .error e := by
  rw [followAt, h]

lemma followAt_of_link (h : walkAt look followsLast p names = .link q target rest) :
    followAt look followsLast (links + 1) p names slash =
      followAt look followsLast links (linkStart target q)
        ((FilePath.ofText target).names ++ rest)
        (slash || (rest.isEmpty && (FilePath.ofText target).endsInSlash)) := by
  rw [followAt, h]
  rfl

/-- What follows a link decides whether a slash at the end asks for a folder. -/
lemma followAt_of_link_append (h : walkAt look followsLast p names = .link q target (rest ++ more))
    (hm : more ≠ []) :
    followAt look followsLast (links + 1) p names slash =
      followAt look followsLast links (linkStart target q)
        ((FilePath.ofText target).names ++ rest ++ more) slash := by
  have hempty : (rest ++ more).isEmpty = false := by
    simp [hm]
  rw [followAt_of_link h, hempty, Bool.false_and, Bool.or_false, List.append_assoc]

lemma followAt_of_no_links (h : walkAt look followsLast p names = .link q target rest) :
    followAt look followsLast 0 p names slash = .error .tooManyLinks := by
  rw [followAt, h]

/-- What follows names that lead to a folder is looked for there. -/
lemma followAt_append (ht : IsTree look) (hp : look p = some .folder)
    (h : followAt look true links p names slash = .ok landing)
    (hl : look landing.place = some .folder) :
    ∃ links', ∀ followsLast more slash', more ≠ [] →
      followAt look followsLast links p (names ++ more) slash' =
        followAt look followsLast links' landing.place more slash' := by
  fun_induction followAt look true links p names slash with
  | case1 links p names slash q hw =>
    cases h
    refine ⟨links, ?_⟩
    intro followsLast more slash' hm
    rw [followAt, followAt, walkAt_append _ _ ht hp hm, hw, Way.goOn, hl]
  | case2 => cases h
  | case3 => cases h
  | case4 p names slash q target rest hw links way start ih =>
    obtain ⟨links', hon⟩ := ih (look_linkStart _ ht (look_of_walkAt ht hp hw)) h
    refine ⟨links', ?_⟩
    intro followsLast more slash' hm
    have hw' : walkAt look followsLast p (names ++ more) = .link q target (rest ++ more) := by
      rw [walkAt_append _ _ ht hp hm, hw, Way.goOn]
    rw [followAt_of_link_append hw' hm]
    exact hon followsLast more slash' hm

/-- A point between names changes nothing. -/
lemma followAt_dot (ht : IsTree look) (hp : look p = some .folder) (hm : more ≠ []) :
    followAt look followsLast links p (names ++ .text "." :: more) slash =
      followAt look followsLast links p (names ++ more) slash := by
  induction links generalizing p names with
  | zero =>
    rw [followAt, followAt, walkAt_append _ _ ht hp hm, walkAt_append _ _ ht hp (List.cons_ne_nil _ _)]
    cases hw : walkAt look true p names with
    | arrived q => simp only [Way.goOn, walkAt_dot]
    | link => rfl
    | lost => rfl
  | succ links ih =>
    have hdot := walkAt_append followsLast names ht hp (List.cons_ne_nil (FileName.text ".") more)
    have hmore := walkAt_append followsLast names ht hp hm
    cases hw : walkAt look true p names with
    | arrived q =>
      rw [followAt, followAt, hdot, hmore, hw]
      simp only [Way.goOn, walkAt_dot]
    | link q target rest =>
      rw [hw, Way.goOn] at hdot hmore
      rw [followAt_of_link_append hdot (List.cons_ne_nil _ _), followAt_of_link_append hmore hm]
      exact ih (look_linkStart _ ht (look_of_walkAt ht hp hw))
    | lost e =>
      rw [hw, Way.goOn] at hdot hmore
      rw [followAt_of_lost hdot, followAt_of_lost hmore]

/-- A walk that does not end at a link goes on as one that would follow it. -/
lemma walkAt_append_false (names : List FileName) (ht : IsTree look) (hp : look p = some .folder)
    (hm : more ≠ [])
    (h : ∀ q target, walkAt look false p names = .arrived q → look q ≠ some (.link target)) :
    walkAt look false p (names ++ more) = (walkAt look false p names).goOn look false more := by
  rcases walkAt_false look p names with hw | ⟨q, target, hw, hq⟩
  · rw [hw]
    exact walkAt_append false names ht hp hm
  · exact absurd hq (h q target hw)

/-- Something is where names lead that lead on to a folder. -/
lemma exists_of_followAt_dot {slash' : Bool} (ht : IsTree look) (hp : look p = some .folder)
    (h : followAt look false links p (names ++ [.text "."]) slash' = .ok landing) :
    ∃ landing', followAt look false links p names slash = .ok landing' ∧
      look landing'.place ≠ none := by
  have hm : [FileName.text "."] ≠ [] := List.cons_ne_nil _ _
  fun_induction followAt look false links p names slash generalizing slash' with
  | case1 links p names slash q hw =>
    refine ⟨_, rfl, ?_⟩
    intro hnone
    have hend : ∀ q' target, walkAt look false p names = .arrived q' → look q' ≠ some (.link target) := by
      intro q' target hw'
      cases hw.symm.trans hw'
      simp [hnone]
    have hdot := walkAt_append_false names ht hp hm hend
    rw [hw, Way.goOn, hnone] at hdot
    rw [followAt_of_lost hdot] at h
    cases h
  | case2 links p names slash e hw =>
    have hdot := walkAt_append_false names ht hp hm (by simp [hw])
    rw [hw, Way.goOn] at hdot
    rw [followAt_of_lost hdot] at h
    cases h
  | case3 p names slash q target rest hw =>
    have hdot := walkAt_append_false names ht hp hm (by simp [hw])
    rw [hw, Way.goOn] at hdot
    rw [followAt_of_no_links hdot] at h
    cases h
  | case4 p names slash q target rest hw links =>
    rename_i ih
    have hdot := walkAt_append_false names ht hp hm (by simp [hw])
    rw [hw, Way.goOn] at hdot
    rw [followAt_of_link_append hdot hm] at h
    exact ih (look_linkStart target ht (look_of_walkAt ht hp hw)) h

/-- Where names lead does not depend on what is put below a place in which nothing was. -/
lemma followAt_eq_of_apart {outer : Place} (hsame : ∀ q, Apart outer q → look' q = look q)
    (hnone : ∀ n r, look (outer ++ n :: r) = none)
    (h : followAt look followsLast links p names slash = .ok landing)
    (hl : Apart outer landing.place) :
    followAt look' followsLast links p names slash = .ok landing := by
  fun_induction followAt look followsLast links p names slash with
  | case1 links p names slash q hw =>
    cases h
    apply followAt_of_arrived
    rw [walkAt_eq_of_apart hsame hnone (by simp [hw, hl]) (by simp [hw]), hw]
  | case2 => cases h
  | case3 => cases h
  | case4 p names slash q target rest hw links way start ih =>
    have hw' : walkAt look' followsLast p names = .link q target rest := by
      rw [walkAt_eq_of_apart hsame hnone (by simp [hw]) (by simp [hw]), hw]
    rw [followAt_of_link hw']
    exact ih h

/-- Nothing is below what is no folder. -/
lemma IsTree.none_of_append (ht : IsTree look) (hp : look p ≠ some .folder) (hm : more ≠ []) :
    look (p ++ more) = none := by
  induction more using List.reverseRecOn with
  | nil => exact absurd rfl hm
  | append_singleton more n ih =>
    by_contra hnone
    rw [← List.append_assoc] at hnone
    have hfolder := ht.inFolder _ _ hnone
    by_cases hnil : more = []
    · rw [hnil, List.append_nil] at hfolder
      exact hp hfolder
    · rw [ih hnil] at hfolder
      cases hfolder

lemma walkAt_plain (ht : IsTree look) (hp : look p = some .folder) (hn : Plain names)
    (hne : names ≠ []) (hlinks : ∀ q target, look (p ++ q) ≠ some (.link target)) :
    (walkAt look followsLast p names = .arrived (p ++ names) ∧
      look (p ++ names.dropLast) = some .folder) ∨
    ∃ e, walkAt look followsLast p names = .lost e ∧
      (e = .notFound → look (p ++ names) = none) := by
  induction names generalizing p with
  | nil => exact absurd rfl hne
  | cons n names ih =>
    obtain ⟨hdot, hdots⟩ := hn n List.mem_cons_self
    rw [walkAt_name hdot hdots]
    by_cases hlong : FileName.maxLength < n.length
    · rw [if_pos hlong]
      exact .inr ⟨_, rfl, nofun⟩
    rw [if_neg hlong]
    rcases hl : look (p ++ [n]) with - | (contents | target | -)
    · by_cases hnil : names = []
      · left
        simp [hnil, hp]
      · refine .inr ⟨.notFound, by simp [hnil], ?_⟩
        intro _
        rw [List.append_cons]
        exact ht.none_of_append (by rw [hl]; exact nofun) hnil
    · by_cases hnil : names = []
      · left
        simp [hnil, hp]
      · exact .inr ⟨.notDirectory, by simp [hnil], nofun⟩
    · exact absurd hl (hlinks [n] target)
    · by_cases hnil : names = []
      · left
        simp [hnil, hp, walkAt]
      · have hlinks' : ∀ q target, look (p ++ [n] ++ q) ≠ some (.link target) := by
          intro q target
          rw [List.append_assoc]
          exact hlinks ([n] ++ q) target
        have hgo := ih hl (fun m hm => hn m (List.mem_cons_of_mem _ hm)) hnil hlinks'
        rw [List.dropLast_cons_of_ne_nil hnil]
        simpa only [List.append_assoc, List.singleton_append] using hgo

/-- Names that stand for themselves and meet no link lead to the place they say, which is in a folder, or
nowhere. If they lead nowhere for want of something on the way, nothing is at that place. -/
lemma followAt_plain (links : Nat) (slash : Bool) (ht : IsTree look) (hp : look p = some .folder)
    (hn : Plain names) (hne : names ≠ []) (hlinks : ∀ q target, look (p ++ q) ≠ some (.link target)) :
    (followAt look followsLast links p names slash = .ok ⟨p ++ names, slash⟩ ∧
      look (p ++ names.dropLast) = some .folder) ∨
    ∃ e, followAt look followsLast links p names slash = .error e ∧
      (e = .notFound → look (p ++ names) = none) := by
  rcases walkAt_plain ht hp hn hne hlinks with ⟨hw, hfolder⟩ | ⟨e, hw, hnone⟩
  · exact .inl ⟨followAt_of_arrived hw, hfolder⟩
  · exact .inr ⟨e, followAt_of_lost hw, hnone⟩

/-! ## Names that lead to a folder -/

lemma Leads.of_follow (ht : IsTree look)
    (h : followAt look true Folder.maxLinks [] names slash = .ok landing)
    (hl : look landing.place = some .folder) : Leads look names landing.place :=
  ⟨hl, followAt_append ht ht.top h hl⟩

lemma Leads.of_dot (ht : IsTree look) (h : Leads look (names ++ [.text "."]) place) :
    Leads look names place := by
  obtain ⟨hplace, links, hon⟩ := h
  refine ⟨hplace, links, ?_⟩
  intro followsLast more slash hm
  rw [← hon followsLast more slash hm, List.append_assoc, List.singleton_append,
    followAt_dot ht ht.top hm]

/-- Something is at the end of names that lead to a folder, even where a last link is not followed. -/
lemma Leads.exists (ht : IsTree look) (h : Leads look names place) (slash : Bool) :
    ∃ landing, followAt look false Folder.maxLinks [] names slash = .ok landing ∧
      look landing.place ≠ none := by
  obtain ⟨-, links, hon⟩ := h
  have hdot := hon false [.text "."] slash (List.cons_ne_nil _ _)
  have harrived : walkAt look false place [.text "."] = .arrived place := by
    rw [walkAt_dot, walkAt]
  rw [followAt_of_arrived harrived] at hdot
  exact exists_of_followAt_dot ht ht.top hdot

end StoreLock
