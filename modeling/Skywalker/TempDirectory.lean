import Mathlib.Data.List.Basic

/-!
# Emptying the temporary checkpoint directory

`DeleteTempCheckpoint` of `machine/machine_manager.cc` on any tree of files, with the functions of
`FileManager` that it calls. Which of the system calls fail is an input.

The function deletes the regular files of the directories in the temporary directory, and then these
directories. It notices only that a file was not deleted. `deleteTempCheckpoint_empties_iff` says
when its result can be relied on: there must be nothing but directories of regular files, and no
call may fail that it does not look at.
-/

namespace Skywalker

/-! ## The file system -/

/-- A file or a directory. What is known of a file is of type `α`. -/
inductive FileNode (α : Type*) where
  /-- A regular file with its content. -/
  | file (content : α)
  /-- A directory, with the names in it. -/
  | dir (entries : List (String × FileNode α))

variable {α : Type*}

/-- Whether the type of the entry is `DT_REG`. -/
def FileNode.isRegular : FileNode α → Bool
  | .file _ => true
  | .dir _ => false

/-- What is under a name in a directory. -/
def FileNode.entry (name : String) : FileNode α → Option (FileNode α)
  | .file _ => none
  | .dir entries => (entries.find? fun e => e.1 == name).map Prod.snd

/-- The results of the system calls below the temporary directory. -/
structure DirEnv where
  /-- `opendir` succeeds on the temporary directory. -/
  opensTemp : Bool := true
  /-- `opendir` succeeds on a directory in it. -/
  opens : String → Bool := fun _ => true
  /-- `unlink` succeeds on a file in such a directory. -/
  unlinks : String → String → Bool := fun _ _ => true
  /-- `rmdir` succeeds on such a directory, if it is empty. -/
  removes : String → Bool := fun _ => true
  /-- `mkdir` succeeds on the temporary directory, if there is none. -/
  creates : Bool := true

/-- `GetChildren` for the regular files of a directory, and nothing where it fails. -/
def getFiles (opens : Bool) : FileNode α → List String
  | .file _ => []
  | .dir entries =>
    if opens then (entries.filter fun e => e.2.isRegular).map Prod.fst else []

/-- `DeleteFile` in a directory, when it succeeds. -/
def unlink (name : String) (entries : List (String × FileNode α)) : List (String × FileNode α) :=
  entries.filter fun e => !(e.2.isRegular && e.1 == name)

/-- The loop over the files of a directory, which stops at a failure. -/
def deleteFiles (unlinks : String → Bool) :
    List String → List (String × FileNode α) → Bool × List (String × FileNode α)
  | [], entries => (true, entries)
  | name :: names, entries =>
    if unlinks name then deleteFiles unlinks names (unlink name entries) else (false, entries)

/-- A pass of the loop over the temporary directory: the result, and what is left under the name.
`DeleteDir` succeeds on empty directories only. -/
def deleteChild (E : DirEnv) (name : String) (node : FileNode α) : Bool × Option (FileNode α) :=
  match node with
  | .file content => (true, some (.file content))
  | .dir entries =>
    let r := deleteFiles (E.unlinks name) (getFiles (E.opens name) node) entries
    (r.1, if r.2.isEmpty && E.removes name then none else some (.dir r.2))

/-- The loop over the temporary directory. -/
def deleteChildren (E : DirEnv) :
    List (String × FileNode α) → Bool × List (String × FileNode α)
  | [] => (true, [])
  | e :: l =>
    let r := deleteChild E e.1 e.2
    let rest := deleteChildren E l
    (r.1 && rest.1, (r.2.map fun node => (e.1, node)).toList ++ rest.2)

/-- `DeleteTempCheckpoint` on what is at the path of the temporary directory: the result, and what
is there afterwards. -/
def deleteTempCheckpoint (E : DirEnv) (temp : Option (FileNode α)) :
    Bool × Option (FileNode α) :=
  match temp with
  | none => (true, if E.creates then some (.dir []) else none)
  | some (.file content) => (true, some (.file content))
  | some (.dir entries) =>
    if E.opensTemp then
      let r := deleteChildren E entries
      (r.1, some (.dir r.2))
    else (true, some (.dir entries))

/-! ## What is left -/

/-- The pass of the loop for a name leaves nothing, unless a file is not deleted: there is a
directory of regular files, and it can be listed and removed. -/
def FileNode.Clears (E : DirEnv) (name : String) : FileNode α → Prop
  | .file _ => False
  | .dir entries => E.removes name = true ∧
      (entries = [] ∨ E.opens name = true ∧ ∀ e ∈ entries, e.2.isRegular = true)

/-- `DeleteTempCheckpoint` leaves an empty directory, unless a file is not deleted. -/
def Clears (E : DirEnv) : Option (FileNode α) → Prop
  | none => E.creates = true
  | some (.file _) => False
  | some (.dir entries) =>
    entries = [] ∨ E.opensTemp = true ∧ ∀ e ∈ entries, e.2.Clears E e.1

variable {E : DirEnv} {entries : List (String × FileNode α)}

/-- A loop that succeeds has deleted the files that it was given. -/
theorem deleteFiles_of_true {unlinks : String → Bool} {names : List String}
    (h : (deleteFiles unlinks names entries).1 = true) :
    (deleteFiles unlinks names entries).2 =
      entries.filter fun e => !(e.2.isRegular && names.contains e.1) := by
  induction names generalizing entries with
  | nil => simp [deleteFiles]
  | cons name names ih =>
    unfold deleteFiles at h ⊢
    split_ifs at h ⊢ with hunlink
    rw [ih h, unlink, List.filter_filter]
    refine List.filter_congr fun e _ => ?_
    cases e.2.isRegular with
    | false => rfl
    | true =>
      rw [Bool.true_and, Bool.true_and, Bool.true_and, List.contains_cons, Bool.not_or,
        Bool.and_comm]

/-- The files that `GetChildren` finds are the regular ones, so that what is left of a directory is
what is not. -/
theorem deleteFiles_getFiles {unlinks : String → Bool}
    (h : (deleteFiles unlinks (getFiles true (.dir entries)) entries).1 = true) :
    (deleteFiles unlinks (getFiles true (.dir entries)) entries).2 =
      entries.filter fun e => !e.2.isRegular := by
  rw [deleteFiles_of_true h]
  refine List.filter_congr fun e he => ?_
  cases hreg : e.2.isRegular with
  | false => rfl
  | true =>
    have hmem : e.1 ∈ getFiles true (.dir entries) :=
      List.mem_map_of_mem (List.mem_filter.mpr ⟨he, hreg⟩)
    simpa using hmem

/-- A loop over the files of a directory that succeeds leaves nothing just if there was nothing, or
the directory could be listed and had regular files only. -/
theorem deleteFiles_eq_nil_iff {unlinks : String → Bool} {opens : Bool}
    (h : (deleteFiles unlinks (getFiles opens (.dir entries)) entries).1 = true) :
    (deleteFiles unlinks (getFiles opens (.dir entries)) entries).2 = [] ↔
      entries = [] ∨ opens = true ∧ ∀ e ∈ entries, e.2.isRegular = true := by
  cases opens with
  | false =>
    -- No file is found, and none is deleted.
    simp [getFiles, deleteFiles]
  | true =>
    rw [deleteFiles_getFiles h, List.filter_eq_nil_iff]
    constructor
    · intro hall
      exact .inr ⟨rfl, fun e he => by simpa using hall e he⟩
    · rintro (rfl | ⟨-, hall⟩) e he
      · exact absurd he List.not_mem_nil
      · simp [hall e he]

/-- A pass of the loop over the temporary directory. -/
theorem deleteChild_eq_none_iff {name : String} {node : FileNode α}
    (h : (deleteChild E name node).1 = true) :
    (deleteChild E name node).2 = none ↔ node.Clears E name := by
  cases node with
  | file content => simp [deleteChild, FileNode.Clears]
  | dir entries =>
    have hdone : (deleteFiles (E.unlinks name) (getFiles (E.opens name) (.dir entries)) entries).1 =
        true := h
    have hleft := deleteFiles_eq_nil_iff hdone
    simp only [deleteChild, FileNode.Clears]
    rw [← hleft]
    cases hremoves : E.removes name with
    | false | true => simp

/-- Where only directories of regular files are in the temporary directory, and those that are not
empty can be listed, a loop that succeeds leaves no more than empty directories. -/
theorem deleteChildren_of_regular (h : (deleteChildren E entries).1 = true)
    (hregular : ∀ e ∈ entries, ∃ files, e.2 = .dir files ∧
      (files = [] ∨ E.opens e.1 = true ∧ ∀ f ∈ files, f.2.isRegular = true)) :
    ∀ e ∈ (deleteChildren E entries).2, e.2 = .dir [] := by
  induction entries with
  | nil => exact fun e he => absurd he List.not_mem_nil
  | cons a l ih =>
    obtain ⟨name, node⟩ := a
    rw [List.forall_mem_cons] at hregular
    obtain ⟨⟨files, rfl, hfiles⟩, hrest⟩ := hregular
    obtain ⟨hchild, htail⟩ := Bool.and_eq_true_iff.mp h
    have hleft := (deleteFiles_eq_nil_iff hchild).mpr hfiles
    intro e he
    rcases List.mem_append.mp he with he | he
    · simp only [deleteChild, hleft, Option.mem_toList, Option.map_eq_some_iff] at he
      obtain ⟨node, hnode, rfl⟩ := he
      exact (Option.some.inj (Option.ite_none_left_eq_some.mp hnode).2).symm
    · exact ih htail hrest e he

/-- Where the loop over the temporary directory succeeds, it leaves nothing exactly when each entry
is cleared. -/
theorem deleteChildren_eq_nil_iff (h : (deleteChildren E entries).1 = true) :
    (deleteChildren E entries).2 = [] ↔ ∀ e ∈ entries, e.2.Clears E e.1 := by
  induction entries with
  | nil => simp [deleteChildren]
  | cons e l ih =>
    obtain ⟨hchild, hrest⟩ := Bool.and_eq_true_iff.mp h
    simp only [deleteChildren, List.append_eq_nil_iff, Option.toList_eq_nil_iff,
      Option.map_eq_none_iff, List.forall_mem_cons]
    rw [deleteChild_eq_none_iff hchild, ih hrest]

/-- When `DeleteTempCheckpoint` returns true, there is an empty temporary directory just if there
were only directories of regular files in it, all of which could be listed and removed, or if there
was nothing and the directory could be created. -/
theorem deleteTempCheckpoint_empties_iff {temp : Option (FileNode α)}
    (hres : (deleteTempCheckpoint E temp).1 = true) :
    (deleteTempCheckpoint E temp).2 = some (.dir []) ↔ Clears E temp := by
  cases temp with
  | none => cases hcreates : E.creates <;> simp [deleteTempCheckpoint, Clears, hcreates]
  | some node =>
    cases node with
    | file content => simp [deleteTempCheckpoint, Clears]
    | dir entries =>
      cases hopens : E.opensTemp with
      | false => simp [deleteTempCheckpoint, Clears, hopens]
      | true =>
        simp only [deleteTempCheckpoint, hopens, if_true] at hres
        simp only [deleteTempCheckpoint, Clears, hopens, if_true, Option.some.injEq,
          FileNode.dir.injEq, true_and]
        rw [deleteChildren_eq_nil_iff hres]
        constructor
        · exact .inr
        · rintro (rfl | hall)
          · exact fun e he => absurd he List.not_mem_nil
          · exact hall

/-- Of a subdirectory with two files nothing is left. -/
theorem deleteTempCheckpoint_two_files :
    (deleteTempCheckpoint {} (some (.dir [("m1", .dir [("a", FileNode.file [1]),
      ("b", .file ([] : List UInt8))])]))).2 = some (.dir []) := by
  refine (deleteTempCheckpoint_empties_iff rfl).mpr (.inr ⟨rfl, fun e he => ?_⟩)
  obtain rfl := List.mem_singleton.mp he
  refine ⟨rfl, .inr ⟨rfl, fun e he => ?_⟩⟩
  simp only [List.mem_cons, List.not_mem_nil, or_false] at he
  obtain rfl | rfl := he
  · rfl
  · rfl

/-- A directory that a machine has made in its own stays, though no call fails that the function
looks at, and the result is true. -/
theorem deleteTempCheckpoint_nested :
    deleteTempCheckpoint {} (some (.dir [("m3", .dir [("a", .file ([1] : List UInt8)),
      ("sub", .dir [])])])) = (true, some (.dir [("m3", .dir [("sub", .dir [])])])) := by
  rfl

end Skywalker
