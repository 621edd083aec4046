/-
  Paths and files, as `pathlib` uses them.

  A path is the list of its components.  The file system has no symbolic links:
  distinct paths are distinct files.  A use of it may fail, with a `ValueError`
  for a path that has a U+0000, or with an `OSError`: because of what is there, or
  for a reason of the system (`Faults`).

  * `split_join`, `split_eq_pair`: what `str.split` gives of two texts with a
    separator between them;
  * `mkdir_some`, `writeBytes_of_ne`, `unlink_of_ne`: no file changes but the one
    that is written or unlinked.
-/
import Mathlib.Data.List.Infix
import OcrService.Lib.PyStr

namespace PyFiles

open PyStr

/-! ## Splitting at a separator -/

/-- `s.split(sep)`, for one character. -/
def split (sep : Char) (s : String) : List String := (s.toList.splitOn sep).map String.ofList

section
variable {sep : Char} {s a b : String}

theorem split_ne_nil : split sep s ≠ [] := by
  rw [split, ne_eq, List.map_eq_nil_iff]
  exact List.splitOn_ne_nil sep _

theorem split_join (sep : Char) (a b : String) :
    split sep (a ++ String.singleton sep ++ b) = split sep a ++ split sep b := by
  have hlist : (a ++ String.singleton sep ++ b).toList = a.toList ++ sep :: b.toList := by simp
  rw [split, hlist, List.splitOn_append_cons_self, List.map_append, split, split]

/-- A text that is not split is its only part. -/
theorem eq_of_split_singleton (h : split sep s = [a]) : a = s := by
  obtain ⟨l, hl, rfl⟩ := List.map_eq_singleton_iff.1 h
  have hjoin : [sep].intercalate (s.toList.splitOn sep) = s.toList := List.intercalate_splitOn sep
  rw [hl] at hjoin
  rw [← String.ofList_toList (s := s), ← hjoin]
  simp

theorem split_eq_self_iff : split sep s = [s] ↔ sep ∉ s.toList := by
  constructor
  · intro h hmem
    obtain ⟨u, v, huv⟩ := List.append_of_mem hmem
    have hlength := congrArg List.length h
    rw [split, huv, List.splitOn_append_cons_self, List.map_append, List.length_append,
      List.length_map, List.length_map, List.length_singleton] at hlength
    have hu := List.length_pos_iff.2 (List.splitOn_ne_nil sep u)
    have hv := List.length_pos_iff.2 (List.splitOn_ne_nil sep v)
    omega
  · intro h
    rw [split, List.splitOn_eq_singleton h, List.map_singleton, String.ofList_toList]

/-- Both parts of a pair are split no further. -/
theorem split_join_eq_pair {x y : String} (h : split sep (a ++ String.singleton sep ++ b) = [x, y]) :
    split sep a = [a] ∧ split sep b = [b] ∧ x = a ∧ y = b := by
  rw [split_join] at h
  rcases List.append_eq_cons_iff.1 h with ⟨ha, -⟩ | ⟨l, ha, hl⟩
  · exact absurd ha split_ne_nil
  · rcases List.append_eq_cons_iff.1 hl.symm with ⟨rfl, hb⟩ | ⟨l', -, hl'⟩
    · obtain rfl := eq_of_split_singleton ha
      obtain rfl := eq_of_split_singleton hb
      exact ⟨ha, hb, rfl, rfl⟩
    · exact absurd (List.append_eq_nil_iff.1 hl'.symm).2 split_ne_nil

/-- A text that is split in two is the two with the separator between them. -/
theorem split_eq_pair (h : split sep s = [a, b]) :
    s = a ++ String.singleton sep ++ b ∧ split sep a = [a] ∧ split sep b = [b] := by
  have hs : s = a ++ String.singleton sep ++ b := by
    obtain ⟨l, _, hl, rfl, hrest⟩ := List.map_eq_cons_iff.1 h
    obtain ⟨l', rfl, rfl⟩ := List.map_eq_singleton_iff.1 hrest
    have hjoin : [sep].intercalate (s.toList.splitOn sep) = s.toList := List.intercalate_splitOn sep
    rw [hl] at hjoin
    rw [← String.toList_inj, ← hjoin]
    simp
  subst hs
  obtain ⟨ha, hb, -, -⟩ := split_join_eq_pair h
  exact ⟨rfl, ha, hb⟩

end

/-! ## Paths -/

/-- A path, by its components. -/
abbrev PosixPath := List String

/-- `path / part`, for a relative `part`. -/
def slash (path : PosixPath) (part : String) : PosixPath :=
  path ++ (split '/' part).filter fun c => c ≠ "" ∧ c ≠ "."

/-- A part that is one component. -/
theorem slash_eq {path : PosixPath} {part : String} (hsplit : split '/' part = [part])
    (hne : part ≠ "" ∧ part ≠ ".") : slash path part = path ++ [part] := by
  have hkept : decide (part ≠ "" ∧ part ≠ ".") = true := decide_eq_true hne
  rw [slash, hsplit, List.filter_singleton, hkept, cond_true]

/-! ## Files -/

/-- What a path leads to; `α` is what a file can hold. -/
inductive Node (α : Type) where
  | dir
  | file (content : α)

abbrev Files (α : Type) := PosixPath → Option (Node α)

/-- An exception, by its text. -/
inductive FileError where
  | valueError (text : String)
  | osError (text : String)

/-- A use of the file system. -/
inductive FileCall (α : Type) where
  | mkdir (path : PosixPath)
  | write (path : PosixPath) (content : α)
  | read (path : PosixPath)
  | unlink (path : PosixPath)

def FileCall.path {α : Type} : FileCall α → PosixPath
  | mkdir path | write path _ | read path | unlink path => path

/-- What fails of the uses of the file system, by the text of the `OSError`: a
    `mkdir` may have made some of the directories before, and a write may leave
    something else in the file. -/
structure Faults (α : Type) where
  mkdir : Option (String × ℕ) := none
  write : Option (String × Option α) := none
  read : Option String := none
  unlink : Option String := none

section
variable {α : Type} (files : Files α) (path : PosixPath)

def set (node : Option (Node α)) : Files α := fun q => if q = path then node else files q

/-- The system refuses a name that has a U+0000. -/
def hasNul : Bool := path.any fun c => !decide (NulFree c)

/-- The path is a file, or leads through one. -/
def blocked : Bool := path.inits.any fun q =>
  match files q with
  | some (.file _) => true
  | _ => false

/-- The directories up to the path. -/
def makeDirs : Files α := fun q =>
  match files q with
  | none => if q <+: path then some .dir else none
  | some node => some node

/-- `path.mkdir(parents=True, exist_ok=True)`. -/
def mkdir (faults : Faults α) : Except FileError Unit × Files α :=
  if hasNul path then (.error (.valueError "mkdir: embedded null character in path"), files)
  else if blocked files path then (.error (.osError "Not a directory"), files)
  else match faults.mkdir with
    | some (text, made) => (.error (.osError text), makeDirs files (path.take made))
    | none => (.ok (), makeDirs files path)

/-- `path.write_bytes(content)`. -/
def writeBytes (faults : Faults α) (content : α) : Except FileError Unit × Files α :=
  if hasNul path then (.error (.valueError "embedded null byte"), files)
  else match files path.dropLast, files path with
    | some .dir, some .dir => (.error (.osError "Is a directory"), files)
    | some .dir, _ =>
      match faults.write with
      | some (text, none) => (.error (.osError text), files)
      | some (text, some left) => (.error (.osError text), set files path (some (.file left)))
      | none => (.ok (), set files path (some (.file content)))
    | _, _ => (.error (.osError "No such file or directory"), files)

/-- `path.read_bytes()`. -/
def readBytes (faults : Faults α) : Except FileError α :=
  if hasNul path then .error (.valueError "embedded null byte")
  else match faults.read, files path with
    | some text, _ => .error (.osError text)
    | none, some (.file content) => .ok content
    | none, some .dir => .error (.osError "Is a directory")
    | none, none => .error (.osError "No such file or directory")

/-- `path.unlink(missing_ok=True)`. -/
def unlink (faults : Faults α) : Except FileError Unit × Files α :=
  if hasNul path then (.error (.valueError "unlink: embedded null character in path"), files)
  else match faults.unlink, files path with
    | some text, _ => (.error (.osError text), files)
    | none, some (.file _) => (.ok (), set files path none)
    | none, some .dir => (.error (.osError "Is a directory"), files)
    | none, none =>
      if blocked files path.dropLast then (.error (.osError "Not a directory"), files)
      else (.ok (), files)

end

section
variable {α : Type} {files : Files α} {path q : PosixPath} {faults : Faults α} {content : α}

@[simp] theorem set_self (node : Option (Node α)) : set files path node path = node := by
  rw [set, if_pos rfl]

theorem set_of_ne (node : Option (Node α)) (h : q ≠ path) : set files path node q = files q := by
  rw [set, if_neg h]

theorem makeDirs_some {node : Node α} (h : files q = some node) :
    makeDirs files path q = some node := by
  rw [makeDirs, h]

/-- Making directories changes nothing that is there. -/
theorem mkdir_some {node : Node α} (h : files q = some node) :
    (mkdir files path faults).2 q = some node := by
  unfold mkdir
  split_ifs
  · exact h
  · exact h
  · cases faults.mkdir with
    | none => exact makeDirs_some h
    | some f => exact makeDirs_some h

/-- A write changes nothing but its file. -/
theorem writeBytes_of_ne (h : q ≠ path) : (writeBytes files path faults content).2 q = files q := by
  unfold writeBytes
  split_ifs
  · rfl
  · split
    · rfl
    · split
      · rfl
      · exact set_of_ne _ h
      · exact set_of_ne _ h
    · rfl

/-- A write that does not fail has written its file. -/
theorem writeBytes_ok (h : (writeBytes files path faults content).1 = .ok ()) :
    (writeBytes files path faults content).2 path = some (.file content) ∧ hasNul path = false := by
  unfold writeBytes at h ⊢
  split_ifs at h ⊢ with hnul
  refine ⟨?_, Bool.eq_false_iff.2 hnul⟩
  split at h
  · cases h
  · split at h
    · cases h
    · cases h
    · simp_all
  · cases h

/-- Unlinking changes nothing but its file. -/
theorem unlink_of_ne (h : q ≠ path) : (unlink files path faults).2 q = files q := by
  unfold unlink
  split
  · rfl
  · split
    · rfl
    · exact set_of_ne _ h
    · rfl
    · split <;> rfl

/-- A path that can be made a directory. -/
theorem mkdir_eq (hnul : hasNul path = false) (hfree : blocked files path = false) :
    mkdir files path faults =
      match faults.mkdir with
      | some (text, made) => (.error (.osError text), makeDirs files (path.take made))
      | none => (.ok (), makeDirs files path) := by
  rw [mkdir, if_neg (by simp [hnul]), if_neg (by simp [hfree])]

/-- A file whose directory is there. -/
theorem writeBytes_eq (hnul : hasNul path = false) (hdir : files path.dropLast = some .dir)
    (hfile : files path ≠ some .dir) :
    writeBytes files path faults content =
      match faults.write with
      | some (text, none) => (.error (.osError text), files)
      | some (text, some left) => (.error (.osError text), set files path (some (.file left)))
      | none => (.ok (), set files path (some (.file content))) := by
  rw [writeBytes, if_neg (by simp [hnul]), hdir]
  cases hnode : files path with
  | none => rfl
  | some node =>
    cases node with
    | dir => exact absurd hnode hfile
    | file content' => rfl

/-- Unlinking leaves the files, or takes one away. -/
theorem unlink_cases (files : Files α) (path : PosixPath) (faults : Faults α) :
    (unlink files path faults).2 = files ∨
      faults.unlink = none ∧ (unlink files path faults).2 = set files path none := by
  unfold unlink
  split
  · exact Or.inl rfl
  · split
    · exact Or.inl rfl
    · next hfault hfile => exact Or.inr ⟨hfault, rfl⟩
    · exact Or.inl rfl
    · split <;> exact Or.inl rfl

/-- A file that is unlinked is gone. -/
theorem unlink_self (hnul : hasNul path = false) (hfault : faults.unlink = none)
    (hdir : files path ≠ some .dir) : (unlink files path faults).2 path = none := by
  rw [unlink, if_neg (by simp [hnul]), hfault]
  cases hnode : files path with
  | none =>
    dsimp only
    split <;> exact hnode
  | some node =>
    cases node with
    | dir => exact absurd hnode hdir
    | file content => exact set_self none

theorem readBytes_file (hnul : hasNul path = false) (hread : faults.read = none)
    (h : files path = some (.file content)) : readBytes files path faults = .ok content := by
  rw [readBytes, if_neg (by simp [hnul]), hread, h]

end

end PyFiles
