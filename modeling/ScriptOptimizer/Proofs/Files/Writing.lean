import Mathlib.Data.List.Induction
import ScriptOptimizer.FileTree

/-!
Writing files. A file that is written changes no folder and where no path leads, so of several texts
written one after another each stands where its path leads, unless a later one goes there too.
-/

namespace ScriptOptimizer.FileTree

variable {t t' : FileTree} {path text : Bytes} {place folder : PathParts}

/-- The path leads to a place where a file stands or can be put. -/
structure Takes (t : FileTree) (path : Bytes) (place : PathParts) : Prop where
  located : t.locate path = .ok place
  noFolder : t.isFolder place = false

theorem Takes.unique {other : PathParts} (h : t.Takes path place) (h' : t.Takes path other) :
    place = other := by
  have hSame := h.located.symm.trans h'.located
  exact Except.ok.inj hSame

/-- The tree with a text at a place. -/
def put (t : FileTree) (place : PathParts) (text : Bytes) : FileTree :=
  { t with files := (place, text) :: t.files.filter fun f => f.1 ≠ place }

theorem write_of_takes (h : t.Takes path place) : t.write path text = .ok (t.put place text) := by
  rw [write, h.located]
  simp [h.noFolder, put]

theorem takes_of_write (h : t.write path text = .ok t') : ∃ place, t.Takes path place := by
  unfold write at h
  split at h
  · cases h
  · rename_i place hLocated
    split at h
    · cases h
    · rename_i hFolder
      exact ⟨place, hLocated, by simpa using hFolder⟩

theorem takes_of_read (h : t.read path = .ok text) : ∃ place, t.Takes path place := by
  unfold read at h
  split at h
  · cases h
  · rename_i place hLocated
    split at h
    · cases h
    · rename_i hFolder
      exact ⟨place, hLocated, by simpa using hFolder⟩

theorem content_put_self : (t.put place text).content? place = some text := by
  simp [content?, put]

theorem content_put_ne {other : PathParts} (h : place ≠ other) :
    (t.put place text).content? other = t.content? other := by
  have hFilter : (t.files.filter fun f => f.1 ≠ place).find? (fun f => f.1 = other) =
      t.files.find? fun f => f.1 = other := by
    rw [List.find?_filter]
    refine congrArg (t.files.find? ·) (funext fun f => ?_)
    by_cases hEq : f.1 = other
    · simp [hEq, Ne.symm h]
    · simp [hEq]
  rw [content?, put, List.find?_cons_of_neg (by simpa using h), hFilter, content?]

/-! ### Folders around a place -/

theorem isFolder_iff : t.isFolder folder = true ↔ folder = [PathParts.root] ∨
    (∀ part ∈ folder, part = Bytes.ofString "..") ∨ (∃ f ∈ t.folders, folder <+: f) ∨
    ∃ f ∈ t.files, folder <+: f.1 ∧ f.1 ≠ folder := by
  simp [isFolder, or_assoc]

theorem isFolder_of_prefix {front : PathParts} (h : front <+: folder)
    (hFolder : t.isFolder folder = true) : t.isFolder front = true := by
  rw [isFolder_iff] at hFolder ⊢
  rcases hFolder with rfl | hAll | ⟨f, hf, hPrefix⟩ | ⟨f, hf, hPrefix, hNe⟩
  · rcases List.prefix_cons_iff.1 h with rfl | ⟨rest, rfl, hRest⟩
    · exact .inr (.inl (by simp))
    · rw [List.prefix_nil.1 hRest]
      exact .inl rfl
  · exact .inr (.inl fun part hPart => hAll part (h.subset hPart))
  · exact .inr (.inr (.inl ⟨f, hf, h.trans hPrefix⟩))
  · refine .inr (.inr (.inr ⟨f, hf, h.trans hPrefix, fun hEq => hNe ?_⟩))
    exact (hPrefix.eq_of_length_le (hEq ▸ h.length_le)).symm

/-- Everything around the place is a folder. -/
def Around (t : FileTree) (place : PathParts) : Prop :=
  ∀ front, front <+: place → front ≠ place → t.isFolder front = true

theorem Around.of_isFolder (h : t.isFolder folder = true) : t.Around folder :=
  fun _ hPrefix _ => isFolder_of_prefix hPrefix h

theorem Around.concat (h : t.isFolder folder = true) (part : Bytes) :
    t.Around (folder ++ [part]) := by
  intro front hPrefix hNe
  rcases List.prefix_concat_iff.1 hPrefix with hEq | hPrefix
  · exact absurd hEq hNe
  · exact isFolder_of_prefix hPrefix h

theorem isFolder_parent (h : t.isFolder folder = true) :
    t.isFolder (PathParts.parent folder) = true := by
  unfold PathParts.parent
  split
  · exact h
  · split
    · rename_i hAll
      rw [isFolder_iff]
      have hUp : ∀ part ∈ folder, part = Bytes.ofString ".." := by simpa using hAll
      refine .inr (.inl fun part hPart => ?_)
      exact (List.mem_append.1 hPart).elim (hUp part) List.mem_singleton.1
    · exact isFolder_of_prefix (List.dropLast_prefix _) h

/-- One part of a path from a folder. -/
def enter (t : FileTree) (folder : PathParts) (part : Bytes) : Except FileFault PathParts :=
  if !t.isFolder folder then
    .error (if (t.content? folder).isSome then .notFolder else .missing)
  else if part = [] || part = Bytes.ofString "." then .ok folder
  else if part = Bytes.ofString ".." then .ok (PathParts.parent folder)
  else if part.length > nameLimit then .error .longName
  else .ok (folder ++ [part])

/-- The part names a file or folder, and is none of those that lead along a path. -/
def IsPlain (part : Bytes) : Prop := part ∉ ([[], ".", ".."] : List Bytes)

/-- Where one part can lead from a folder. -/
inductive Enters (folder : PathParts) : Bytes → PathParts → Prop
  | stay {part : Bytes} : part = [] ∨ part = Bytes.ofString "." → Enters folder part folder
  | up : Enters folder (Bytes.ofString "..") (PathParts.parent folder)
  | down {part : Bytes} : IsPlain part → Enters folder part (folder ++ [part])

theorem enters_of_enter {part : Bytes} (h : t.enter folder part = .ok place) :
    t.isFolder folder = true ∧ Enters folder part place := by
  unfold enter at h
  split at h
  · cases h
  · rename_i hFolder
    refine ⟨by simpa using hFolder, ?_⟩
    split at h
    · rename_i hStay
      obtain rfl := Except.ok.inj h
      exact .stay (by simpa using hStay)
    · split at h
      · rename_i hUp
        obtain rfl := Except.ok.inj h
        exact hUp ▸ .up
      · split at h
        · cases h
        · rename_i hStay hUp _
          obtain rfl := Except.ok.inj h
          refine .down ?_
          simp only [Bool.or_eq_true, decide_eq_true_eq, not_or] at hStay
          simp [IsPlain, hStay.1, hStay.2, hUp]

theorem Enters.eq_concat {part : Bytes} (h : Enters folder part place) (hPlain : IsPlain part) :
    place = folder ++ [part] := by
  cases h with
  | stay hStay => exact absurd hPlain (by rcases hStay with rfl | rfl <;> simp [IsPlain])
  | up => exact absurd hPlain (by simp [IsPlain])
  | down => rfl

theorem Enters.eq_folder (h : Enters folder [] place) : place = folder := by
  cases h with
  | stay => rfl
  | down hPlain => exact absurd hPlain (by simp [IsPlain])

theorem follow_cons (part : Bytes) (rest : List Bytes) :
    t.follow folder (part :: rest) = (t.enter folder part).bind fun f => t.follow f rest := by
  rw [follow, enter]
  repeat' split
  all_goals rfl

theorem follow_append (front back : List Bytes) :
    t.follow folder (front ++ back) = (t.follow folder front).bind fun f => t.follow f back := by
  induction front generalizing folder with
  | nil => rfl
  | cons part front ih =>
    rw [List.cons_append, follow_cons, follow_cons]
    cases t.enter folder part with
    | error fault => rfl
    | ok next => exact ih

/-- A path that can be followed ends with a step to its last part. -/
theorem enter_of_follow_concat {parts : List Bytes} {part : Bytes}
    (h : t.follow folder (parts ++ [part]) = .ok place) :
    ∃ last, t.enter last part = .ok place := by
  rw [follow_append] at h
  cases hFront : t.follow folder parts with
  | error fault => rw [hFront] at h; cases h
  | ok last =>
    rw [hFront, Except.bind, follow_cons] at h
    cases hLast : t.enter last part with
    | error fault => rw [hLast] at h; cases h
    | ok next =>
      rw [hLast] at h
      exact ⟨last, hLast.trans h⟩

theorem around_of_enter {part : Bytes} (h : t.enter folder part = .ok place) : t.Around place := by
  obtain ⟨hFolder, hEnters⟩ := enters_of_enter h
  cases hEnters with
  | stay => exact .of_isFolder hFolder
  | up => exact .of_isFolder (isFolder_parent hFolder)
  | down => exact .concat hFolder part

theorem around_of_follow {parts : List Bytes} (h : t.follow folder parts = .ok place)
    (hFolder : t.Around folder) : t.Around place := by
  induction parts generalizing folder with
  | nil => exact Except.ok.inj h ▸ hFolder
  | cons part parts ih =>
    rw [follow_cons] at h
    cases hEnter : t.enter folder part with
    | error fault => rw [hEnter] at h; cases h
    | ok next =>
      rw [hEnter] at h
      exact ih h (around_of_enter hEnter)

theorem Takes.follow (h : t.Takes path place) :
    t.follow (PathParts.origin path) (Bytes.splitOn 47 path) = .ok place := by
  have hLocated := h.located
  unfold locate at hLocated
  split at hLocated
  · cases hLocated
  · split at hLocated
    · cases hLocated
    · split at hLocated
      · cases hLocated
      · exact hLocated

/-- A file has a name: the path to it does not end with a slash. -/
theorem Takes.last_ne_nil (h : t.Takes path place) {parts : List Bytes} {part : Bytes}
    (hParts : Bytes.splitOn 47 path = parts ++ [part]) : part ≠ [] := by
  rintro rfl
  obtain ⟨last, hLast⟩ := enter_of_follow_concat (hParts ▸ h.follow)
  obtain ⟨hFolder, hEnters⟩ := enters_of_enter hLast
  have hPlace := h.noFolder
  rw [hEnters.eq_folder, hFolder] at hPlace
  cases hPlace

/-- A file is in its place under the name that the path ends with. -/
theorem Takes.getLast?_eq (h : t.Takes path place) {parts : List Bytes} {part : Bytes}
    (hParts : Bytes.splitOn 47 path = parts ++ [part]) (hPlain : IsPlain part) :
    place.getLast? = some part := by
  obtain ⟨last, hLast⟩ := enter_of_follow_concat (hParts ▸ h.follow)
  rw [(enters_of_enter hLast).2.eq_concat hPlain, List.getLast?_concat]

theorem Takes.around (h : t.Takes path place) : t.Around place := by
  refine around_of_follow h.follow (.of_isFolder ?_)
  unfold PathParts.origin
  split
  · rfl
  · rw [isFolder_iff]
    exact .inr (.inl (by simp))

/-! ### What a written file leaves as it was -/

theorem isFolder_put (h : t.Around place) :
    (t.put place text).isFolder folder = t.isFolder folder := by
  rw [Bool.eq_iff_iff, isFolder_iff]
  constructor
  · rintro (hRoot | hAll | hFolders | ⟨f, hf, hPrefix, hNe⟩)
    · exact isFolder_iff.2 (.inl hRoot)
    · exact isFolder_iff.2 (.inr (.inl hAll))
    · exact isFolder_iff.2 (.inr (.inr (.inl hFolders)))
    · rcases List.mem_cons.1 hf with rfl | hf
      · exact h folder hPrefix (Ne.symm hNe)
      · have hOld := (List.mem_filter.1 hf).1
        exact isFolder_iff.2 (.inr (.inr (.inr ⟨f, hOld, hPrefix, hNe⟩)))
  · intro hFolder
    rcases isFolder_iff.1 hFolder with hRoot | hAll | hFolders | ⟨f, hf, hPrefix, hNe⟩
    · exact .inl hRoot
    · exact .inr (.inl hAll)
    · exact .inr (.inr (.inl hFolders))
    · refine .inr (.inr (.inr ?_))
      by_cases hEq : f.1 = place
      · exact ⟨(place, text), List.mem_cons_self, hEq ▸ hPrefix, hEq ▸ hNe⟩
      · exact ⟨f, List.mem_cons_of_mem _ (List.mem_filter.2 ⟨hf, by simpa using hEq⟩), hPrefix, hNe⟩

theorem enter_put (h : t.Around place) {part : Bytes} {next : PathParts} :
    (t.put place text).enter folder part = .ok next ↔ t.enter folder part = .ok next := by
  cases hFolder : t.isFolder folder with
  | false => simp [enter, isFolder_put h, hFolder]
  | true => simp [enter, isFolder_put h, hFolder]

theorem follow_put (h : t.Around place) {parts : List Bytes} {last : PathParts} :
    (t.put place text).follow folder parts = .ok last ↔ t.follow folder parts = .ok last := by
  induction parts generalizing folder with
  | nil => rfl
  | cons part parts ih =>
    rw [follow_cons, follow_cons]
    cases hNew : (t.put place text).enter folder part with
    | ok next => rw [(enter_put h).1 hNew]; exact ih
    | error fault =>
      cases hOld : t.enter folder part with
      | ok next => rw [(enter_put h).2 hOld] at hNew; cases hNew
      | error other => simp [Except.bind]

/-- A written file changes nothing about where paths lead. -/
theorem takes_put (h : t.Around place) {other : Bytes} {p : PathParts} :
    (t.put place text).Takes other p ↔ t.Takes other p := by
  have hLocate : (t.put place text).locate other = .ok p ↔ t.locate other = .ok p := by
    unfold locate
    split
    · rfl
    · split
      · rfl
      · split
        · rfl
        · exact follow_put h
  constructor
  · intro hNew
    exact ⟨hLocate.1 hNew.located, isFolder_put h ▸ hNew.noFolder⟩
  · intro hOld
    exact ⟨hLocate.2 hOld.located, (isFolder_put h).trans hOld.noFolder⟩

/-! ### Several files -/

/-- The tree with a text written to a path, as far as that can be done. -/
def store (t : FileTree) (path text : Bytes) : FileTree :=
  match t.write path text with
  | .ok t' => t'
  | .error _ => t

theorem store_of_takes (h : t.Takes path place) : t.store path text = t.put place text := by
  rw [store, write_of_takes h]

theorem store_of_not_takes (h : ∀ place, ¬t.Takes path place) : t.store path text = t := by
  unfold store
  split
  · rename_i hWrite
    obtain ⟨place, hTakes⟩ := takes_of_write hWrite
    exact absurd hTakes (h place)
  · rfl

theorem takes_store {other : Bytes} {p : PathParts} :
    (t.store path text).Takes other p ↔ t.Takes other p := by
  by_cases h : ∃ place, t.Takes path place
  · obtain ⟨place, hTakes⟩ := h
    rw [store_of_takes hTakes, takes_put hTakes.around]
  · rw [store_of_not_takes (not_exists.1 h)]

section

variable {α : Type} (path text : α → Bytes)

/-- The tree with several texts written one after another. -/
def storeAll (t : FileTree) (list : List α) : FileTree :=
  list.foldl (fun t a => t.store (path a) (text a)) t

variable {path text}

theorem takes_storeAll {list : List α} {other : Bytes} {p : PathParts} :
    (storeAll path text t list).Takes other p ↔ t.Takes other p := by
  induction list generalizing t with
  | nil => rfl
  | cons a list ih => exact ih.trans takes_store

/-- A text is where its path leads, if no other path leads there. -/
theorem content_storeAll {list : List α} {a : α} (hMem : a ∈ list) (hTakes : t.Takes (path a) place)
    (hAlone : ∀ b ∈ list, b ≠ a → ¬t.Takes (path b) place) :
    (storeAll path text t list).content? place = some (text a) := by
  induction list using List.reverseRecOn with
  | nil => cases hMem
  | append_singleton list b ih =>
    rw [storeAll, List.foldl_append]
    change ((storeAll path text t list).store (path b) (text b)).content? place = some (text a)
    by_cases hEq : b = a
    · rw [hEq, store_of_takes (takes_storeAll.2 hTakes), content_put_self]
    · have hBefore := ih ((List.mem_append.1 hMem).resolve_right fun h =>
        hEq (List.mem_singleton.1 h).symm) fun c hc => hAlone c (List.mem_append_left _ hc)
      have hApart := hAlone b (by simp) hEq
      by_cases hStored : ∃ p, (storeAll path text t list).Takes (path b) p
      · obtain ⟨p, hp⟩ := hStored
        have hNe : p ≠ place := fun h => hApart (takes_storeAll.1 (h ▸ hp))
        rw [store_of_takes hp, content_put_ne hNe, hBefore]
      · rw [store_of_not_takes (not_exists.1 hStored), hBefore]

end

end ScriptOptimizer.FileTree
