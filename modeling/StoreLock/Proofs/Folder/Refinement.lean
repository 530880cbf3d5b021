import StoreLock.Proofs.Folder.Listing
import StoreLock.Proofs.Folder.Write
import StoreLock.Proofs.Lock.Circling
import StoreLock.Proofs.Store.Past
import StoreLock.Proofs.Store.Prompt
import StoreLock.Proofs.Text.Bytes

/-!
# Both stores are maps of names

Requests that are served one after another say what every object holds (`held`). A store in memory without a
lag holds what all requests to it say, and so does a store in a folder, if those that it refuses do not count.
So a store in memory that is asked all that a store in a folder serves gives the same answers, and holds the
same objects (`FolderClient.agrees_with_memory`).
-/

namespace StoreLock

/-- What a request that is served makes of what the object of a name holds. -/
def Request.revise (name : String) (before : Option ByteArray) : Request → Option ByteArray
  | .list => before
  | .create n contents => if name = n then some contents else before
  | .delete n => if name = n then none else before

/-- What the object of a name holds after these requests have been served, the latest first. -/
def held (name : String) : List Request → Option ByteArray
  | [] => none
  | request :: served => request.revise name (held name served)

namespace FolderClient

/-- What the object of a name holds, in the folder of the root. -/
def contents? (c : FolderClient) (f : Folder) (name : String) : Option ByteArray :=
  match ObjectName.segments name, f.readFolder c.root with
  | .ok segs, .ok inside => object? inside [] segs
  | _, _ => none

/-- A store in a folder, and one in memory that is asked all that the first serves, through any client and at
any time. The requests that have been served come with them, the latest first. -/
inductive Twin (c : FolderClient) (f₀ : Folder) : List Request → Folder → MemoryStore → Prop where
  | start : Twin c f₀ [] f₀ {}
  | served {past f m} (now now' client start request) :
    Twin c f₀ past f m →
    request.IsServed (ObjectStore.perform f c now start request).1 →
    Twin c f₀ (request :: past) (ObjectStore.perform f c now start request).2
      (ObjectStore.perform m client now' start request).2
  | refused {past f m} (now start request) :
    Twin c f₀ past f m →
    ¬ request.IsServed (ObjectStore.perform f c now start request).1 →
    Twin c f₀ past (ObjectStore.perform f c now start request).2 m

end FolderClient

/-! ## The store in memory -/

namespace MemoryStore

/-- Whether a store without a lag holds what requests say. -/
structure Holds (past : List Request) (s : MemoryStore) : Prop where
  prompt : s.Prompt
  sorted : s.objects.Pairwise fun p q => p.1 < q.1
  contents : ∀ n, s.contents? n = held n past

lemma Holds.nil : Holds [] {} where
  prompt := ⟨⟨rfl, fun kind => by cases kind <;> rfl⟩, rfl⟩
  sorted := List.Pairwise.nil
  contents _ := rfl

variable {s s' : MemoryStore} {past : List Request} {n name start : String} {o : ObjectRecord}
  {objects : List (String × ObjectRecord)} {contents x : ByteArray} {client : Nat} {now : Instant}
  {request : Request}

lemma lookup_eq_some_iff (h : objects.Pairwise fun p q => p.1 < q.1) :
    objects.lookup n = some o ↔ (n, o) ∈ objects := by
  induction objects with
  | nil => simp
  | cons p objects ih =>
    rw [List.pairwise_cons] at h
    obtain ⟨m, o'⟩ := p
    rw [List.lookup_cons, List.mem_cons]
    by_cases hm : n = m
    · subst hm
      have hmem : (n, o) ∉ objects := fun hmem => absurd (h.1 _ hmem) (lt_irrefl n)
      simp [hmem, eq_comm]
    · have hb : (n == m) = false := beq_eq_false_iff_ne.mpr hm
      simp [hb, hm, ih h.2]

/-- What an object holds is what is on record of it among the objects that exist. -/
lemma contents?_eq_some (h : s.objects.Pairwise fun p q => p.1 < q.1) :
    s.contents? n = some x ↔ ∃ o, (n, o) ∈ s.live ∧ o.contents = x := by
  simp only [contents?, find?, live, Option.map_eq_some_iff, Option.filter_eq_some_iff,
    lookup_eq_some_iff h, List.mem_filter]

namespace Holds

/-- A store goes on to hold what requests say if the objects that exist are those it has to hold. -/
lemma cons (h : s.Holds past) (hp : s'.Prompt) (hs : s'.objects.Pairwise fun p q => p.1 < q.1)
    (hl : ∀ n x, (∃ o, (n, o) ∈ s'.live ∧ o.contents = x) ↔
      request.revise n (s.contents? n) = some x) : s'.Holds (request :: past) := by
  refine ⟨hp, hs, ?_⟩
  intro n
  rw [held, ← h.contents]
  ext x
  rw [contents?_eq_some hs, hl]

lemma create (h : s.Holds past) (client : Nat) (now : Instant) (name : String) (contents : ByteArray) :
    ∃ s', s.create client now name contents = (.ok (), s') ∧
      s'.Holds (.create name contents :: past) := by
  obtain ⟨s', hs', hprompt, hlive⟩ := h.prompt.create client now name contents
  refine ⟨s', hs', h.cons hprompt ?_ ?_⟩
  · obtain ⟨-, ⟨e, he, -⟩ | ⟨-, ho⟩⟩ := create_cases hs'
    · cases he
    · rw [ho]
      exact sorted_insert h.sorted
  · intro n x
    rw [hlive, Request.revise]
    simp only [mem_insert]
    split_ifs with hn
    · simp [hn]
    · simp [hn, contents?_eq_some h.sorted]

lemma delete (h : s.Holds past) (client : Nat) (now : Instant) (name : String) :
    ∃ s', s.delete client now name = (.ok (), s') ∧ s'.Holds (.delete name :: past) := by
  obtain ⟨s', hs', hprompt, hlive⟩ := h.prompt.delete client now name
  refine ⟨s', hs', h.cons hprompt ?_ ?_⟩
  · obtain ⟨-, ⟨e, he, -⟩ | ⟨-, ho⟩⟩ := delete_cases hs'
    · cases he
    · rw [ho]
      apply sorted_map h.sorted
      intro p
      split <;> rfl
  · intro n x
    rw [hlive, Request.revise]
    simp only [List.mem_filter, decide_eq_true_eq]
    split_ifs with hn
    · simp [hn]
    · simp [hn, contents?_eq_some h.sorted]

lemma list (h : s.Holds past) (client : Nat) (now : Instant) (start : String) :
    ∃ s', s.list client now start = (.ok (s.shown start), s') ∧ s'.Holds (.list :: past) := by
  obtain ⟨s', hs', hprompt, hlive⟩ := h.prompt.list client now start
  refine ⟨s', hs', h.cons hprompt ?_ ?_⟩
  · obtain ⟨-, ⟨e, he, -⟩ | ⟨ho, -⟩⟩ := list_cases hs'
    · cases he
    · rw [ho]
      exact h.sorted.filter _
  · intro n x
    rw [hlive, Request.revise, contents?_eq_some h.sorted]

/-- Whatever is asked, the store goes on to hold what requests say. -/
lemma perform (h : s.Holds past) (client : Nat) (now : Instant) (start : String) (request : Request) :
    (ObjectStore.perform s client now start request).2.Holds (request :: past) := by
  cases request with
  | list =>
    obtain ⟨s', hs', h'⟩ := h.list client now start
    show (s.list client now start).2.Holds _
    rw [hs']
    exact h'
  | create name contents =>
    obtain ⟨s', hs', h'⟩ := h.create client now name contents
    show (s.create client now name contents).2.Holds _
    rw [hs']
    exact h'
  | delete name =>
    obtain ⟨s', hs', h'⟩ := h.delete client now name
    show (s.delete client now name).2.Holds _
    rw [hs']
    exact h'

lemma shown_sorted (h : s.Holds past) : (s.shown start).Pairwise (· < ·) := by
  rw [shown, live, List.pairwise_map]
  exact (h.sorted.filter _).filter _

/-- Everyone is shown the objects that start with the text. -/
lemma mem_shown (h : s.Holds past) :
    n ∈ s.shown start ↔ Text.startsWith n start = true ∧ (held n past).isSome := by
  rw [MemoryStore.mem_shown, and_comm, ← h.contents, Option.isSome_iff_exists]
  simp [contents?_eq_some h.sorted]

end Holds

end MemoryStore

/-! ## The store in a folder -/

namespace FolderClient

variable {c : FolderClient} {f f₀ f' : Folder} {root : Place} {past : List Request} {n name : String}
  {segs : List String} {contents : ByteArray} {now : Instant} {start : String} {request : Request}
  {m : MemoryStore} {names : List String}

/-- Whether a store in a folder holds what requests say. -/
structure Holds (c : FolderClient) (f₀ : Folder) (root : Place) (past : List Request) (f : Folder) :
    Prop where
  rooted : Rooted f₀ root f
  contents : ∀ n, c.contents? f n = held n past

lemma contents?_eq (h : Opening c f₀ root) (hr : Rooted f₀ root f) (hn : ObjectName.segments n = .ok segs) :
    c.contents? f n = object? f root segs := by
  obtain ⟨g, hat, hread⟩ := (h.site hr).readFolder
  rw [contents?, hn, hread]
  dsimp only
  rw [object?, object?, List.nil_append, Folder.look?_append hat]

lemma contents?_eq_none {fault : ObjectName.Fault} (hn : ObjectName.segments n = .error fault) :
    c.contents? f n = none := by
  rw [contents?, hn]

/-- A name with segments is that of an object if there is a file. -/
lemma isSome_contents? (h : Opening c f₀ root) (hr : Rooted f₀ root f) :
    (c.contents? f n).isSome ↔
      ∃ segs, ObjectName.segments n = .ok segs ∧ object? f root segs ≠ none := by
  cases hn : ObjectName.segments n with
  | error fault => simp [contents?_eq_none hn]
  | ok segs => simp [contents?_eq h hr hn, Option.isSome_iff_ne_none]

/-- A step that keeps the objects keeps what each name stands for. -/
lemma Keeps.contents? (h : Opening c f₀ root) (hr : Rooted f₀ root f) (hk : Keeps f₀ root f f')
    (n : String) : c.contents? f' n = c.contents? f n := by
  cases hn : ObjectName.segments n with
  | error fault => rw [contents?_eq_none hn, contents?_eq_none hn]
  | ok segs =>
    rw [contents?_eq h hk.rooted hn, contents?_eq h hr hn]
    exact hk.objects segs (proper_of_segments hn)

/-- A step that changes one object changes what its name stands for. -/
lemma contents?_change {x : Option ByteArray} (h : Opening c f₀ root) (hr : Rooted f₀ root f)
    (hr' : Rooted f₀ root f') (hname : ObjectName.segments name = .ok segs)
    (hobjects : ∀ segs', (∀ s ∈ segs', ObjectName.Proper s) →
      object? f' root segs' = if segs' = segs then x else object? f root segs') (n : String) :
    c.contents? f' n = if n = name then x else c.contents? f n := by
  cases hn : ObjectName.segments n with
  | error fault =>
    have hne : n ≠ name := by
      intro he
      rw [he, hname] at hn
      cases hn
    rw [if_neg hne, contents?_eq_none hn, contents?_eq_none hn]
  | ok segs' =>
    have he : segs' = segs ↔ n = name := by
      constructor
      · intro he
        subst he
        exact ObjectName.segments_inj hn hname
      · intro he
        subst he
        exact Except.ok.inj (hn.symm.trans hname)
    rw [contents?_eq h hr' hn, contents?_eq h hr hn, hobjects segs' (proper_of_segments hn)]
    simp only [he]

lemma Holds.nil (h : Opening c f₀ root) : Holds c f₀ root [] f₀ := by
  refine ⟨h.rooted, ?_⟩
  intro n
  cases hn : ObjectName.segments n with
  | error fault => exact contents?_eq_none hn
  | ok segs =>
    obtain ⟨segment, segs, rfl⟩ : ∃ segment more, segs = segment :: more := by
      apply List.exists_cons_of_ne_nil
      rw [(ObjectName.segments_eq_ok_iff.mp hn).1]
      exact ObjectName.pieces_ne_nil
    rw [contents?_eq h h.rooted hn, object?, List.map_cons, h.nothing]
    rfl

namespace Holds

lemma keeps (h : Opening c f₀ root) (hf : Holds c f₀ root past f) (hk : Keeps f₀ root f f') :
    Holds c f₀ root past f' :=
  ⟨hk.rooted, fun n => (hk.contents? h hf.rooted n).trans (hf.contents n)⟩

lemma create (h : Opening c f₀ root) (hf : Holds c f₀ root past f) (name : String)
    (contents : ByteArray) :
    (∃ f', create f c name contents = (.ok (), f') ∧
      Holds c f₀ root (.create name contents :: past) f') ∨
    ∃ e f', create f c name contents = (.error e, f') ∧ Holds c f₀ root past f' := by
  cases hname : ObjectName.segments name with
  | error fault =>
    right
    refine ⟨.invalidName fault.detail, f, ?_, hf⟩
    rw [FolderClient.create, path, hname]
  | ok segs =>
    rcases create_spec contents h hf.rooted hname with ⟨f', hc, hr', hobjects⟩ | ⟨e, f', hc, hk⟩
    · left
      refine ⟨f', hc, hr', ?_⟩
      intro n
      rw [contents?_change h hf.rooted hr' hname hobjects, hf.contents]
      rfl
    · right
      exact ⟨e, f', hc, hf.keeps h hk⟩

lemma delete (h : Opening c f₀ root) (hf : Holds c f₀ root past f) (name : String) :
    (∃ f', delete f c name = (.ok (), f') ∧ Holds c f₀ root (.delete name :: past) f') ∨
    ∃ e, delete f c name = (.error e, f) := by
  cases hname : ObjectName.segments name with
  | error fault =>
    right
    refine ⟨.invalidName fault.detail, ?_⟩
    rw [FolderClient.delete, path, hname]
  | ok segs =>
    rcases delete_spec h hf.rooted hname with ⟨f', hd, hr', hobjects⟩ | ⟨e, hd⟩
    · left
      refine ⟨f', hd, hr', ?_⟩
      intro n
      rw [contents?_change h hf.rooted hr' hname hobjects, hf.contents]
      rfl
    · right
      exact ⟨e, hd⟩

lemma list (h : Opening c f₀ root) (hf : Holds c f₀ root past f) (hl : list f c start = .ok names) :
    names.Pairwise (· < ·) ∧
      ∀ n, n ∈ names ↔ Text.startsWith n start = true ∧ (held n past).isSome := by
  obtain ⟨hsorted, hmem⟩ := list_spec h hf.rooted hl
  refine ⟨hsorted, ?_⟩
  intro n
  rw [hmem, ← hf.contents, isSome_contents? h hf.rooted]

/-- What is served goes on record, and what is refused changes no object. -/
lemma perform (h : Opening c f₀ root) (hf : Holds c f₀ root past f) (now : Instant) (start : String)
    (request : Request) :
    (request.IsServed (ObjectStore.perform f c now start request).1 →
      Holds c f₀ root (request :: past) (ObjectStore.perform f c now start request).2) ∧
    (¬ request.IsServed (ObjectStore.perform f c now start request).1 →
      Holds c f₀ root past (ObjectStore.perform f c now start request).2) := by
  cases request with
  | list => exact ⟨fun _ => ⟨hf.rooted, hf.contents⟩, fun _ => hf⟩
  | create name contents =>
    rcases hf.create h name contents with ⟨f', hc, h'⟩ | ⟨e, f', hc, h'⟩
    · have hp : ObjectStore.perform f c now start (.create name contents) = (Except.ok (), f') := hc
      rw [hp]
      exact ⟨fun _ => h', fun hn => absurd trivial hn⟩
    · have hp : ObjectStore.perform f c now start (.create name contents) = (Except.error e, f') := hc
      rw [hp]
      exact ⟨False.elim, fun _ => h'⟩
  | delete name =>
    rcases hf.delete h name with ⟨f', hd, h'⟩ | ⟨e, hd⟩
    · have hp : ObjectStore.perform f c now start (.delete name) = (Except.ok (), f') := hd
      rw [hp]
      exact ⟨fun _ => h', fun hn => absurd trivial hn⟩
    · have hp : ObjectStore.perform f c now start (.delete name) = (Except.error e, f) := hd
      rw [hp]
      exact ⟨False.elim, fun _ => hf⟩

end Holds

/-! ## Both stores -/

/-- Whatever a store in a folder is asked, one after another, it has a twin. -/
lemma exists_twin (c : FolderClient) (f₀ : Folder) (asked : List (Instant × String × Request)) :
    ∃ past m, Twin c f₀ past
      (asked.foldl (fun f a => (ObjectStore.perform f c a.1 a.2.1 a.2.2).2) f₀) m := by
  induction asked using List.reverseRecOn with
  | nil => exact ⟨[], {}, .start⟩
  | append_singleton asked a ih =>
    obtain ⟨past, m, ht⟩ := ih
    rw [List.foldl_append, List.foldl_cons, List.foldl_nil]
    by_cases hs : a.2.2.IsServed (ObjectStore.perform
      (asked.foldl (fun f a => (ObjectStore.perform f c a.1 a.2.1 a.2.2).2) f₀) c a.1 a.2.1 a.2.2).1
    · exact ⟨_, _, ht.served a.1 a.1 0 a.2.1 a.2.2 hs⟩
    · exact ⟨_, _, ht.refused a.1 a.2.1 a.2.2 hs⟩

/-- Both stores hold what the requests say that have been served. -/
lemma Twin.holds (h : Opening c f₀ root) (ht : Twin c f₀ past f m) :
    Holds c f₀ root past f ∧ m.Holds past := by
  induction ht with
  | start => exact ⟨.nil h, .nil⟩
  | served now now' client start request _ hok ih =>
    exact ⟨(ih.1.perform h now start request).1 hok, ih.2.perform client now' start request⟩
  | refused now start request _ hno ih =>
    exact ⟨(ih.1.perform h now start request).2 hno, ih.2⟩

/-- What a store in a folder serves, a store in memory that holds the same answers in the same way. -/
lemma Holds.answer_eq (h : Opening c f₀ root) (hf : Holds c f₀ root past f) (hm : m.Holds past)
    (now now' : Instant) (client : Nat) (start : String) (request : Request)
    (hs : request.IsServed (ObjectStore.perform f c now start request).1) :
    (ObjectStore.perform m client now' start request).1 =
      (ObjectStore.perform f c now start request).1 := by
  cases request with
  | list =>
    show (m.list client now' start).1 = FolderClient.list f c start
    obtain ⟨m', hm', -⟩ := hm.list client now' start
    rw [hm']
    cases hl : FolderClient.list f c start with
    | error e =>
      have hs' : Request.IsServed .list (FolderClient.list f c start) := hs
      rw [hl] at hs'
      exact hs'.elim
    | ok names =>
      obtain ⟨hsorted, hmem⟩ := hf.list h hl
      -- Both lists are in their order and have the same members.
      have he : m.shown start = names := by
        apply hm.shown_sorted.eq_of_mem_iff hsorted
        intro n
        rw [hm.mem_shown, hmem]
      rw [he]
  | create name contents =>
    obtain ⟨m', hm', -⟩ := hm.create client now' name contents
    show (m.create client now' name contents).1 = (FolderClient.create f c name contents).1
    rcases hf.create h name contents with ⟨f', hc, -⟩ | ⟨e, f', hc, -⟩
    · rw [hm', hc]
    · have hs' : Request.IsServed (.create name contents) (FolderClient.create f c name contents).1 := hs
      rw [hc] at hs'
      exact hs'.elim
  | delete name =>
    obtain ⟨m', hm', -⟩ := hm.delete client now' name
    show (m.delete client now' name).1 = (FolderClient.delete f c name).1
    rcases hf.delete h name with ⟨f', hd, -⟩ | ⟨e, hd⟩
    · rw [hm', hd]
    · have hs' : Request.IsServed (.delete name) (FolderClient.delete f c name).1 := hs
      rw [hd] at hs'
      exact hs'.elim

/-- A store in a folder that is empty at first holds what the requests say that it has served, as does a store
in memory that has been asked the same. Whatever the folder serves next, the answer of the memory is the same,
and the objects are afterwards; whatever it refuses changes no object. A listing that is served gives the names
of the objects that start with the text, in the order of their bytes. -/
theorem agrees_with_memory (hroot : f₀.readFolder c.root = .ok .empty) (ht : Twin c f₀ past f m) :
    (∀ name, c.contents? f name = held name past ∧ m.contents? name = held name past) ∧
    (∀ now now' client start request,
      request.IsServed (ObjectStore.perform f c now start request).1 →
        (ObjectStore.perform m client now' start request).1 =
          (ObjectStore.perform f c now start request).1 ∧
        ∀ name, c.contents? (ObjectStore.perform f c now start request).2 name =
          (ObjectStore.perform m client now' start request).2.contents? name) ∧
    (∀ now start request, ¬ request.IsServed (ObjectStore.perform f c now start request).1 →
      ∀ name, c.contents? (ObjectStore.perform f c now start request).2 name = c.contents? f name) ∧
    ∀ start names, list f c start = .ok names →
      names.Pairwise (fun a b => Text.toUtf8 a < Text.toUtf8 b) ∧
        ∀ name, name ∈ names ↔ Text.startsWith name start = true ∧ (held name past).isSome := by
  obtain ⟨root, h⟩ := Opening.of_readFolder hroot
  obtain ⟨hf, hm⟩ := ht.holds h
  refine ⟨?_, ?_, ?_, ?_⟩
  · intro name
    exact ⟨hf.contents name, hm.contents name⟩
  · intro now now' client start request hs
    refine ⟨hf.answer_eq h hm now now' client start request hs, ?_⟩
    intro name
    rw [((hf.perform h now start request).1 hs).contents,
      (hm.perform client now' start request).contents]
  · intro now start request hn name
    rw [((hf.perform h now start request).2 hn).contents, hf.contents]
  · intro start names hl
    simp only [Text.toUtf8_lt_toUtf8_iff]
    exact hf.list h hl

/-- A file in a folder keeps any object out that has the name of this folder. -/
theorem agrees_with_memory_of_refused :
    let c : FolderClient := ⟨⟨[.text "srv"]⟩⟩
    let f₀ : Folder := .folder (.text "srv") .empty .empty
    ∃ f m, f₀.readFolder c.root = .ok .empty ∧ Twin c f₀ [.create "a/b" .empty] f m ∧
      (create f c "a" .empty).1 = .error (.file .isDirectory) ∧
      c.contents? f "a/b" = some .empty ∧ list f c "a" = .ok ["a/b"] ∧
      (m.list 1 7 "a").1 = .ok ["a/b"] := by
  intro c f₀
  let f : Folder :=
    .folder (.text "srv") (.folder (.text "a") (.file (.text "b") .empty .empty) .empty) .empty
  have hcreate : ObjectStore.perform f₀ c 0 "" (.create "a/b" .empty) = (Except.ok (), f) := by rfl
  have hrefuse : ObjectStore.perform f c 1 "" (.create "a" .empty) =
      (Except.error (.file .isDirectory), f) := by rfl
  have hlist : list f c "a" = .ok ["a/b"] := by
    show Except.ok (["a/b"].mergeSort _) = Except.ok ["a/b"]
    rw [List.mergeSort_singleton]
  have hstart : Twin c f₀ [] f₀ {} := .start
  have hserved := hstart.served 0 0 0 "" (.create "a/b" .empty) (by rw [hcreate]; trivial)
  rw [hcreate] at hserved
  have htwin := hserved.refused 1 "" (.create "a" .empty) (by rw [hrefuse]; exact id)
  rw [hrefuse] at htwin
  have hlisted : Request.IsServed .list (ObjectStore.perform f c 7 "a" .list).1 := by
    show Request.IsServed .list (list f c "a")
    rw [hlist]
    trivial
  obtain ⟨hheld, hanswer, -, -⟩ := agrees_with_memory rfl htwin
  refine ⟨f, _, rfl, htwin, congrArg Prod.fst hrefuse, (hheld "a/b").1, hlist, ?_⟩
  exact (hanswer 7 7 1 "a" .list hlisted).1.trans hlist

end FolderClient

end StoreLock
