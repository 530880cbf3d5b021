import StoreLock.Proofs.Folder.Growth

/-!
# The single steps of a creation

A creation asks the file system for one thing after another, and whatever else happens may happen in between: it
tries to make folders from the inside out until one is there, makes the others, opens the hidden file, writes it
piece by piece and moves it (`FolderClient.Stage.step`). A file that is open stays the same file when it is
moved, and is written to by position wherever it is then (`FolderClient.Effect.follow`). Left alone, these steps
come to an end, and do what a creation does (`FolderClient.Stage.run_eq_create`).
-/

namespace StoreLock

namespace Folder

/-- Opens a file to write to, which loses what it held; if there is none, one is made. -/
def openFile (f : Folder) (path : FilePath) : Except FileFault (Place × Folder) :=
  match f.resolve true path with
  | .error e => .error e
  | .ok landing =>
    if landing.slash then .error .isDirectory
    else
      match f.at? landing.place with
      | some (.folder _) => .error .isDirectory
      | _ => .ok (landing.place, f.set landing.place (.file .empty))

/-- What a file holds after some bytes have been written from a position on. Zeros fill what lies before. -/
def overwrite (old : ByteArray) (position : Nat) (bytes : ByteArray) : ByteArray :=
  old.extract 0 position ++ ⟨Array.replicate (position - old.size) 0⟩ ++ bytes ++
    old.extract (position + bytes.size) old.size

/-- Writes to the file at a place, from a position on. -/
def writeAt (f : Folder) (place : Place) (position : Nat) (bytes : ByteArray) : Folder :=
  match f.at? place with
  | some (.file old) => f.set place (.file (overwrite old position bytes))
  | _ => f

end Folder

namespace FolderClient

/-- What a step does to files that are open. -/
inductive Effect
  | none
  | moved (source target : Place)
  | removed (place : Place)

/-- Where a file is afterwards that was open at a place, unless it is gone. -/
def Effect.follow : Effect → Place → Option Place
  | .none, p => some p
  | .moved source target, p => if p = source then some target else if p = target then Option.none else some p
  | .removed place, p => if p = place then Option.none else some p

/-- Whether a step moves a file. -/
def Effect.moves : Effect → Bool
  | .none => false
  | .moved .. => true
  | .removed _ => false

/-- What is done to open files where a file is moved. -/
def moving (f : Folder) (source target : FilePath) : Effect :=
  match f.resolve false source, f.resolve false target with
  | .ok source, .ok target => .moved source.place target.place
  | _, _ => .none

/-- What is done to open files where a file is taken away. -/
def removing (f : Folder) (path : FilePath) : Effect :=
  match f.resolve false path with
  | .ok landing => .removed landing.place
  | .error _ => .none

/-- How far a creation has come. -/
inductive Stage
  /-- Looks for the first of these folders that is there or can be made. Those that are missing are in it, one in
  the other. -/
  | seek (around missing : List FilePath)
  /-- Something has the path of a folder already. -/
  | check (path : FilePath) (missing : List FilePath)
  | make (missing : List FilePath)
  /-- The hidden file is open, and so many bytes have been written. -/
  | write (file : Option Place) (position : Nat)
  | move
  | clean (fault : FileFault)
  | ended (result : Except StoreError Unit)

namespace Stage

/-- A creation begins with the folders around its file. -/
def start (path : FilePath) : Stage :=
  .seek (path.parent :: path.parent.around) []

/-- Tries to make a folder, and goes on as told if it cannot be made, unless something is there. -/
def attempt (p : FilePath) (missing : List FilePath) (otherwise : FileFault → Stage) (f : Folder) :
    Effect × Folder × Stage :=
  match f.makeFolder p with
  | .ok f => (.none, f, .make missing)
  | .error .alreadyExists => (.none, f, .check p missing)
  | .error e => (.none, f, otherwise e)

/-- Does the next step, of a creation at this path. At most `count` bytes and one more are written. -/
def step (path : FilePath) (contents : ByteArray) (count : Nat) (f : Folder) : Stage → Effect × Folder × Stage
  | .seek [] missing => (.none, f, .make missing)
  | .seek (p :: around) missing =>
    attempt p missing (fun e => if e = .notFound then .seek around (p :: missing) else .ended (.error (.file e))) f
  | .check p missing =>
    if f.isFolder p then (.none, f, .make missing) else (.none, f, .ended (.error (.file .alreadyExists)))
  | .make (p :: missing) => attempt p missing (fun e => .ended (.error (.file e))) f
  | .make [] =>
    match f.openFile (staging path) with
    | .ok (place, f) => (.none, f, .write (some place) 0)
    | .error e => (.none, f, .ended (.error (.file e)))
  | .write file position =>
    if position < contents.size then
      let next := min (position + count + 1) contents.size
      match file with
      | some place => (.none, f.writeAt place position (contents.extract position next), .write file next)
      | none => (.none, f, .write file next)
    else (.none, f, .move)
  | .move =>
    match f.rename (staging path) path with
    | .ok f' => (moving f (staging path) path, f', .ended (.ok ()))
    | .error e => (.none, f, .clean e)
  | .clean e =>
    match f.remove (staging path) with
    | .ok f' => (removing f (staging path), f', .ended (.error (.file e)))
    | .error _ => (.none, f, .ended (.error (.file e)))
  | .ended result => (.none, f, .ended result)

/-- The stage after a call that fails for a reason of its own. -/
def fail (e : FileFault) : Stage → Stage
  | .move => .clean e
  | .clean e => .ended (.error (.file e))
  | .ended result => .ended result
  | _ => .ended (.error (.file e))

/-- Whether a creation has ended well. -/
def hasSucceeded : Stage → Bool
  | .ended (.ok ()) => true
  | _ => false

/-- The stage after something has been done to files that are open. -/
def follow (effect : Effect) : Stage → Stage
  | .write file position => .write (file.bind effect.follow) position
  | stage => stage

/-- Does steps one after another, with nothing in between. -/
def run (path : FilePath) (contents : ByteArray) (f : Folder) (stage : Stage) (counts : List Nat) :
    Folder × Stage :=
  counts.foldl (fun s count => (s.2.step path contents count s.1).2) (f, stage)

/-! ## What is left to do -/

/-- Takes the hidden file away that could not be moved. -/
def dispose (path : FilePath) (e : FileFault) (f : Folder) : Except StoreError Unit × Folder :=
  match f.remove (staging path) with
  | .ok f => (.error (.file e), f)
  | .error _ => (.error (.file e), f)

/-- Moves the hidden file to its place, or takes it away. -/
def publish (path : FilePath) (f : Folder) : Except StoreError Unit × Folder :=
  match f.rename (staging path) path with
  | .ok f => (.ok (), f)
  | .error e => dispose path e f

/-- Makes the folders that are missing and goes on from there. -/
def build (path : FilePath) (contents : ByteArray) : List FilePath → Folder → Except StoreError Unit × Folder
  | [], f =>
    match f.writeFile (staging path) contents with
    | .ok f => publish path f
    | .error e => (.error (.file e), f)
  | p :: missing, f =>
    match f.ensureFolder p with
    | .ok f => build path contents missing f
    | .error e => (.error (.file e), f)

/-- What comes of a stage if nothing else happens. -/
def finish (path : FilePath) (contents : ByteArray) (f : Folder) : Stage → Except StoreError Unit × Folder
  | .seek around missing =>
    match f.ensureWithin around with
    | (.ok (), f) => build path contents missing f
    | (.error e, f) => (.error (.file e), f)
  | .check p missing =>
    if f.isFolder p then build path contents missing f else (.error (.file .alreadyExists), f)
  | .make missing => build path contents missing f
  | .write (some place) _ => publish path (f.set place (.file contents))
  | .write none _ => publish path f
  | .move => publish path f
  | .clean e => dispose path e f
  | .ended result => (result, f)

/-- An open file holds what has been written. -/
def Written (contents : ByteArray) (f : Folder) : Stage → Prop
  | .write file position => position ≤ contents.size ∧ ∃ (f₀ : Folder) (place : Place), file = some place ∧
    f = f₀.set place (.file (contents.extract 0 position)) ∧
    ∀ x, (f₀.set place (.file x)).at? place = some (.file x)
  | _ => True

/-- A bound for the steps that are left. -/
def left (contents : ByteArray) : Stage → Nat
  | .seek around missing => 3 * around.length + 2 * missing.length + contents.size + 5
  | .check _ missing => 2 * missing.length + contents.size + 5
  | .make missing => 2 * missing.length + contents.size + 4
  | .write _ position => contents.size - position + 3
  | .move => 2
  | .clean _ => 1
  | .ended _ => 0

/-- What is left to do after a step is a part of what was left before. -/
structure Continues (path : FilePath) (contents : ByteArray) (f : Folder) (stage : Stage)
    (outcome : Effect × Folder × Stage) : Prop where
  finish : outcome.2.2.finish path contents outcome.2.1 = stage.finish path contents f
  written : outcome.2.2.Written contents outcome.2.1
  left : outcome.2.2.left contents ≤ stage.left contents - 1

end Stage

end FolderClient

/-! ## Files that are open -/

namespace Folder

variable {f f' : Folder} {path : FilePath} {place : Place} {e : FileFault} {contents : ByteArray}
  {position next : Nat}

/-- A file is written as it is when it is opened and filled. -/
lemma openFile_eq_ok (h : f.openFile path = .ok (place, f')) :
    f' = f.set place (.file .empty) ∧ (∀ x, (f.set place (.file x)).at? place = some (.file x)) ∧
      ∀ contents, f.writeFile path contents = .ok (f.set place (.file contents)) := by
  rw [openFile] at h
  cases hres : f.resolve true path with
  | error e =>
    rw [hres] at h
    cases h
  | ok landing =>
    rw [hres] at h
    dsimp only at h
    split_ifs at h with hslash
    split at h
    case h_1 => cases h
    case h_2 hnot =>
      cases h
      have hfolder : f.look? landing.place ≠ some .folder := by
        intro hlook
        obtain ⟨g, hg⟩ := look?_eq_folder.mp hlook
        exact hnot g hg
      obtain ⟨outer, n, hplace, houter⟩ := exists_outer hres hfolder
      refine ⟨rfl, ?_, ?_⟩
      · intro x
        rw [← look?_eq_file]
        rw [hplace] at hfolder ⊢
        rw [look?_set_file x houter hfolder, if_pos rfl]
      · intro contents
        rw [writeFile, hres]
        dsimp only
        rw [if_neg hslash]
        split
        case h_1 g hg => exact absurd hg (hnot g)
        case h_2 => rfl

lemma writeFile_of_openFile (h : f.openFile path = .error e) (contents : ByteArray) :
    f.writeFile path contents = .error e := by
  rw [openFile] at h
  rw [writeFile]
  cases hres : f.resolve true path with
  | error e' =>
    rw [hres] at h
    cases h
    rfl
  | ok landing =>
    rw [hres] at h
    dsimp only at h ⊢
    split_ifs at h ⊢
    · cases h
      rfl
    · cases hat : f.at? landing.place with
      | none =>
        rw [hat] at h
        cases h
      | some node =>
        rw [hat] at h
        cases node with
        | folder inside =>
          cases h
          rfl
        | _ => cases h

lemma overwrite_size (old bytes : ByteArray) : overwrite old old.size bytes = old ++ bytes := by
  have hbehind : old.extract (old.size + bytes.size) old.size = .empty := by
    rw [ByteArray.extract_eq_empty_iff]
    lia
  have hbefore : (⟨Array.replicate (old.size - old.size) 0⟩ : ByteArray) = .empty := by
    rw [Nat.sub_self]
    rfl
  rw [overwrite, hbehind, hbefore, ByteArray.extract_zero_size, ByteArray.append_empty, ByteArray.append_empty]

/-- What is written behind the first bytes makes them more. -/
lemma writeAt_extract (h : f.at? place = some (.file (contents.extract 0 position))) (hle : position ≤ next)
    (hsize : position ≤ contents.size) :
    f.writeAt place position (contents.extract position next) = f.set place (.file (contents.extract 0 next)) := by
  have hlength : (contents.extract 0 position).size = position := by
    rw [ByteArray.size_extract]
    lia
  have hover := overwrite_size (contents.extract 0 position) (contents.extract position next)
  rw [hlength, ByteArray.extract_append_extract, Nat.zero_min, max_eq_right hle] at hover
  rw [writeAt, h]
  dsimp only
  rw [hover]

end Folder

/-! ## Steps without anything in between -/

namespace FolderClient.Stage

variable {c : FolderClient} {f f' : Folder} {path p : FilePath} {contents : ByteArray}
  {around missing : List FilePath} {stage stage' : Stage} {effect : Effect} {name : String}
  {result : Except StoreError Unit}

/-- The first bytes of a file are all of them when no more are to be written. -/
lemma extract_of_not_lt {position : Nat} (hsize : position ≤ contents.size) (h : ¬ position < contents.size) :
    contents.extract 0 position = contents := by
  rw [Nat.le_antisymm hsize (not_lt.mp h), ByteArray.extract_zero_size]

/-- A folder is made, or is there, or has to wait for those around it. -/
lemma finish_seek : (Stage.seek (p :: around) missing).finish path contents f =
    match f.ensureFolder p with
    | .ok f => build path contents missing f
    | .error .notFound => (Stage.seek around (p :: missing)).finish path contents f
    | .error e => (.error (.file e), f) := by
  rw [finish, Folder.ensureWithin, Folder.ensureIn]
  cases f.ensureFolder p with
  | ok f => rfl
  | error e =>
    cases e with
    | notFound =>
      dsimp only
      rw [finish]
      rcases f.ensureWithin around with ⟨- | -, f'⟩
      · rfl
      · dsimp only
        rw [build]
        cases f'.ensureFolder p <;> rfl
    | _ => rfl

/-- A folder is made, something is there already, or it cannot be made. -/
lemma attempt_cases (p : FilePath) (missing : List FilePath) (otherwise : FileFault → Stage) (f : Folder) :
    (∃ f', f.makeFolder p = .ok f' ∧ attempt p missing otherwise f = (.none, f', .make missing)) ∨
    (f.makeFolder p = .error .alreadyExists ∧ attempt p missing otherwise f = (.none, f, .check p missing)) ∨
    ∃ e, f.makeFolder p = .error e ∧ e ≠ .alreadyExists ∧
      attempt p missing otherwise f = (.none, f, otherwise e) := by
  rw [attempt]
  cases f.makeFolder p with
  | ok f' => exact .inl ⟨f', rfl, rfl⟩
  | error e =>
    cases e with
    | alreadyExists => exact .inr (.inl ⟨rfl, rfl⟩)
    | _ => exact .inr (.inr ⟨_, rfl, by simp, rfl⟩)

lemma continues_seek (count : Nat) : Continues path contents f (.seek around missing)
    ((Stage.seek around missing).step path contents count f) := by
  cases around with
  | nil => exact ⟨rfl, trivial, by simp [step, left]⟩
  | cons p around =>
    rw [step]
    rcases attempt_cases p missing _ f with ⟨f', hmake, he⟩ | ⟨hmake, he⟩ | ⟨e, hmake, hne, he⟩
    · rw [he]
      refine ⟨?_, trivial, by simp [left]⟩
      rw [finish_seek, Folder.ensureFolder, hmake]
      rfl
    · rw [he]
      refine ⟨?_, trivial, by simp [left]⟩
      rw [finish_seek, Folder.ensureFolder, hmake]
      by_cases hthere : f.isFolder p = true <;> simp [finish, hthere]
    · rw [he]
      by_cases hmissing : e = .notFound
      · subst hmissing
        refine ⟨?_, trivial, by simp [left]; lia⟩
        rw [finish_seek, Folder.ensureFolder, hmake]
        rfl
      · rw [if_neg hmissing]
        refine ⟨?_, trivial, Nat.zero_le _⟩
        rw [finish_seek, Folder.ensureFolder, hmake]
        simp [hne, finish]

lemma continues_make (count : Nat) : Continues path contents f (.make (p :: missing))
    ((Stage.make (p :: missing)).step path contents count f) := by
  rw [step]
  rcases attempt_cases p missing _ f with ⟨f', hmake, he⟩ | ⟨hmake, he⟩ | ⟨e, hmake, hne, he⟩
  · rw [he]
    refine ⟨?_, trivial, by simp [left]⟩
    rw [finish, finish, build, Folder.ensureFolder, hmake]
  · rw [he]
    refine ⟨?_, trivial, by simp [left]; lia⟩
    rw [finish, finish, build, Folder.ensureFolder, hmake]
    by_cases hthere : f.isFolder p = true <;> simp [hthere]
  · rw [he]
    refine ⟨?_, trivial, Nat.zero_le _⟩
    rw [finish, finish, build, Folder.ensureFolder, hmake]
    simp [hne]

/-- The hidden file is opened when all folders are there. -/
lemma continues_open (path : FilePath) (contents : ByteArray) (count : Nat) (f : Folder) :
    Continues path contents f (.make []) ((Stage.make []).step path contents count f) := by
  rw [step]
  cases hopen : f.openFile (staging path) with
  | ok opened =>
    obtain ⟨place, f'⟩ := opened
    obtain ⟨rfl, hat, hwrite⟩ := Folder.openFile_eq_ok hopen
    have hempty : contents.extract 0 0 = .empty := by simp
    refine ⟨?_, ⟨Nat.zero_le _, f, place, rfl, by rw [hempty], hat⟩, by simp [left]⟩
    rw [finish, finish, build, hwrite, Folder.set_set]
  | error e =>
    refine ⟨?_, trivial, Nat.zero_le _⟩
    rw [finish, finish, build, Folder.writeFile_of_openFile hopen]

lemma continues_write {file : Option Place} {position : Nat} (path : FilePath) (count : Nat)
    (h : (Stage.write file position).Written contents f) :
    Continues path contents f (.write file position) ((Stage.write file position).step path contents count f) := by
  obtain ⟨hsize, f₀, place, rfl, rfl, hat⟩ := h
  rw [step]
  split_ifs with hmore
  · have hle : position ≤ min (position + count + 1) contents.size := by lia
    dsimp only
    rw [Folder.writeAt_extract (hat _) hle hsize, Folder.set_set]
    refine ⟨?_, ⟨min_le_right _ _, f₀, place, rfl, rfl, hat⟩, by simp [left]; lia⟩
    rw [finish, finish, Folder.set_set, Folder.set_set]
  · refine ⟨?_, trivial, by simp [left]⟩
    rw [finish, finish, Folder.set_set, extract_of_not_lt hsize hmore]

/-- Each step does a part of what is left to do. -/
lemma continues_step (path : FilePath) (count : Nat) (h : stage.Written contents f) :
    Continues path contents f stage (stage.step path contents count f) := by
  cases stage with
  | seek around missing => exact continues_seek count
  | check p missing =>
    rw [step]
    split_ifs with hthere
    · refine ⟨?_, trivial, by simp [left]⟩
      rw [finish, finish, if_pos hthere]
    · refine ⟨?_, trivial, Nat.zero_le _⟩
      rw [finish, finish, if_neg hthere]
  | make missing =>
    cases missing with
    | nil => exact continues_open path contents count f
    | cons p missing => exact continues_make count
  | write file position => exact continues_write path count h
  | move =>
    rw [step]
    cases hmove : f.rename (staging path) path with
    | ok f' =>
      refine ⟨?_, trivial, Nat.zero_le _⟩
      rw [finish, finish, publish, hmove]
    | error e =>
      refine ⟨?_, trivial, by simp [left]⟩
      rw [finish, finish, publish, hmove]
  | clean e =>
    rw [step]
    cases hremove : f.remove (staging path) with
    | ok f' =>
      refine ⟨?_, trivial, Nat.zero_le _⟩
      rw [finish, finish, dispose, hremove]
    | error e' =>
      refine ⟨?_, trivial, Nat.zero_le _⟩
      rw [finish, finish, dispose, hremove]
  | ended result => exact ⟨rfl, trivial, Nat.zero_le _⟩

lemma eq_ended (h : stage.left contents = 0) : ∃ result, stage = .ended result := by
  cases stage with
  | ended result => exact ⟨result, rfl⟩
  | _ => simp [left] at h

/-- Steps with nothing in between come to an end, and do all that is left to do. -/
lemma run_eq_finish (path : FilePath) (counts : List Nat) (h : stage.Written contents f)
    (hbound : stage.left contents ≤ counts.length) :
    run path contents f stage counts =
      ((stage.finish path contents f).2, .ended (stage.finish path contents f).1) := by
  induction counts generalizing f stage with
  | nil =>
    obtain ⟨result, rfl⟩ := eq_ended (Nat.le_zero.mp hbound)
    rfl
  | cons count counts ih =>
    obtain ⟨hfinish, hwritten, hleft⟩ := continues_step path count h
    have hbound' : (stage.step path contents count f).2.2.left contents ≤ counts.length := by
      rw [List.length_cons] at hbound
      lia
    rw [← hfinish]
    exact ih hwritten hbound'

lemma create_eq_finish (hpath : c.path name = .ok path) :
    create f c name contents = (start path).finish path contents f := by
  have hmake : f.makeFolders path.parent = f.ensureWithin (path.parent :: path.parent.around) := rfl
  rw [create, hpath, start, finish, ← hmake]
  dsimp only
  rcases f.makeFolders path.parent with ⟨- | -, f₁⟩
  · rfl
  dsimp only
  rw [build]
  cases f₁.writeFile (staging path) contents with
  | error e => rfl
  | ok f₂ =>
    dsimp only
    rw [publish]
    cases f₂.rename (staging path) path <;> rfl

/-- If nothing happens in between, the steps of a creation come to an end, in whatever pieces the file is
written, and do what the creation does. -/
theorem run_eq_create (hpath : c.path name = .ok path) (f : Folder) (contents : ByteArray) (counts : List Nat)
    (hbound : (start path).left contents ≤ counts.length) :
    run path contents f (start path) counts =
      ((create f c name contents).2, .ended (create f c name contents).1) := by
  rw [create_eq_finish hpath]
  exact run_eq_finish path counts trivial hbound

/-! ## Which step moves the file -/

lemma moves_moving {source target : FilePath} (h : f.rename source target = .ok f') :
    (moving f source target).moves = true := by
  rw [Folder.rename] at h
  rw [moving]
  cases hsource : f.resolve false source with
  | error e => simp [hsource] at h
  | ok source =>
    cases htarget : f.resolve false target with
    | error e => simp [hsource, htarget] at h
    | ok target => rfl

lemma moves_removing (f : Folder) (path : FilePath) : (removing f path).moves = false := by
  rw [removing]
  cases f.resolve false path <;> rfl

lemma eq_ended_of_hasSucceeded (h : stage.hasSucceeded = true) : stage = .ended (.ok ()) := by
  rcases stage with _ | _ | _ | _ | _ | _ | (_ | _) <;> first | rfl | cases h

lemma attempt_unmoved {otherwise : FileFault → Stage}
    (h : ∀ e, (otherwise e).hasSucceeded = false) (hattempt : attempt p missing otherwise f = (effect, f', stage')) :
    stage'.hasSucceeded = effect.moves := by
  rcases attempt_cases p missing otherwise f with ⟨_, -, he⟩ | ⟨-, he⟩ | ⟨e, -, -, he⟩ <;>
    rw [he] at hattempt <;> cases hattempt
  · rfl
  · rfl
  · exact h e

/-- A creation ends well with the step that moves its file. -/
lemma hasSucceeded_step {count : Nat} (h : stage.hasSucceeded = false)
    (hstep : stage.step path contents count f = (effect, f', stage')) : stage'.hasSucceeded = effect.moves := by
  cases stage with
  | seek around missing =>
    cases around with
    | nil =>
      cases hstep
      rfl
    | cons p around =>
      refine attempt_unmoved (fun e => ?_) hstep
      split_ifs <;> rfl
  | check p missing =>
    rw [step] at hstep
    split_ifs at hstep <;> cases hstep <;> rfl
  | make missing =>
    cases missing with
    | nil =>
      rw [step] at hstep
      split at hstep <;> cases hstep <;> rfl
    | cons p missing => exact attempt_unmoved (fun e => rfl) hstep
  | write file position =>
    rw [step] at hstep
    split_ifs at hstep
    · cases file <;> cases hstep <;> rfl
    · cases hstep
      rfl
  | move =>
    rw [step] at hstep
    cases hmove : f.rename (staging path) path with
    | ok f' =>
      rw [hmove] at hstep
      cases hstep
      rw [moves_moving hmove]
      rfl
    | error e =>
      rw [hmove] at hstep
      cases hstep
      rfl
  | clean e =>
    rw [step] at hstep
    split at hstep <;> cases hstep
    · rw [moves_removing]
      rfl
    · rfl
  | ended result =>
    cases hstep
    rw [h]
    rfl

/-- Where a creation has ended, nothing is moved. -/
lemma run_ended (counts : List Nat) :
    run path contents f (.ended result) counts = (f, .ended result) := by
  induction counts with
  | nil => rfl
  | cons count counts ih => exact ih

end FolderClient.Stage

end StoreLock
