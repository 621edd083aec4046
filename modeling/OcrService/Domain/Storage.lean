/-
  Document blob storage on the local file system (`app/domain/storage.py`).

  * `path_eq_ok_iff`: the keys that `_path` accepts, and their paths;
  * `runs_file`: a blob stays until its own pair is saved again or deleted;
  * `keys_confined`: keys are injective, and no key leads out of its directory.
-/
import OcrService.Lib.Files
import OcrService.Domain.UuidText
import OcrService.Services.Ingest

namespace OcrService

open PyStr PyFiles

/-- `LocalFileStorage`; `printable` is `str.isprintable`, for the text of an error. -/
structure LocalFileStorage where
  root : PosixPath
  printable : Char → Bool

/-- What an operation did: its uses of the file system, what it returned or
    raised, and the files it left. -/
structure StorageRun (β : Type) where
  calls : List (FileCall Bytes)
  result : Except FileError β
  files : Files Bytes

namespace LocalFileStorage

/-- `_key`. -/
def key (tenantId documentId : String) : String := tenantId ++ "/" ++ documentId

variable (L : LocalFileStorage)

def invalidKey (storageKey : String) : FileError :=
  .valueError ("invalid storage key: " ++ String.ofList (repr L.printable storageKey.toList))

/-- `_path`. -/
def path (storageKey : String) : Except FileError PosixPath :=
  match split '/' storageKey with
  | [a, b] =>
    if a ∈ ["", ".", ".."] ∨ b ∈ ["", ".", ".."] then .error (L.invalidKey storageKey)
    else .ok (slash (slash L.root a) b)
  | _ => .error (L.invalidKey storageKey)

variable (faults : Faults Bytes) (files : Files Bytes)

/-- `save`. -/
def save (tenantId documentId : String) (content : Bytes) : StorageRun String :=
  match L.path (key tenantId documentId) with
  | .error e => { calls := [], result := .error e, files }
  | .ok path =>
    match mkdir files path.dropLast faults with
    | (.error e, made) => { calls := [.mkdir path.dropLast], result := .error e, files := made }
    | (.ok (), made) =>
      { calls := [.mkdir path.dropLast, .write path content]
        result := (writeBytes made path faults content).1.map fun _ => key tenantId documentId
        files := (writeBytes made path faults content).2 }

/-- `load`. -/
def load (storageKey : String) : StorageRun Bytes :=
  match L.path storageKey with
  | .error e => { calls := [], result := .error e, files }
  | .ok path => { calls := [.read path], result := readBytes files path faults, files }

/-- `delete`. -/
def delete (storageKey : String) : StorageRun Unit :=
  match L.path storageKey with
  | .error e => { calls := [], result := .error e, files }
  | .ok path =>
    { calls := [.unlink path]
      result := (unlink files path faults).1
      files := (unlink files path faults).2 }

end LocalFileStorage

/-- An operation of the storage. -/
inductive StorageOp where
  | save (tenantId documentId : String) (content : Bytes)
  | load (storageKey : String)
  | delete (storageKey : String)

/-- The operation saves or deletes the blob of a pair. -/
def StorageOp.Rewrites (tenantId documentId : String) : StorageOp → Prop
  | save tenantId' documentId' _ => tenantId' = tenantId ∧ documentId' = documentId
  | load _ => False
  | delete storageKey => storageKey = LocalFileStorage.key tenantId documentId

namespace LocalFileStorage
variable (L : LocalFileStorage)

/-- What an operation leaves. -/
def step (faults : Faults Bytes) (files : Files Bytes) : StorageOp → Files Bytes
  | .save tenantId documentId content => (L.save faults files tenantId documentId content).files
  | .load storageKey => (L.load faults files storageKey).files
  | .delete storageKey => (L.delete faults files storageKey).files

/-- What a sequence of operations leaves, each with what fails in it. -/
def runs (ops : List (StorageOp × Faults Bytes)) (files : Files Bytes) : Files Bytes :=
  ops.foldl (fun files op => L.step op.2 files op.1) files

/-- A name of one component, which stays where it is. -/
structure IsName (name : String) : Prop where
  noSlash : '/' ∉ name.toList
  notSpecial : name ∉ ["", ".", ".."]

variable {L} {storageKey a b tenantId documentId : String} {p : PosixPath} {faults : Faults Bytes}
  {files : Files Bytes} {content : Bytes}

theorem slash_name (hname : IsName a) (p : PosixPath) : slash p a = p ++ [a] := by
  have hne : a ≠ "" ∧ a ≠ "." := by
    have h := hname.notSpecial
    simp only [List.mem_cons, not_or] at h
    exact ⟨h.1, h.2.1⟩
  exact slash_eq (split_eq_self_iff.2 hname.noSlash) hne

/-- **What `_path` accepts**: two names with a slash between them. -/
theorem path_eq_ok_iff : L.path storageKey = .ok p ↔
    ∃ a b, IsName a ∧ IsName b ∧ storageKey = a ++ "/" ++ b ∧ p = L.root ++ [a, b] := by
  constructor
  · intro h
    unfold path at h
    split at h
    · next a b hsplit =>
      split_ifs at h with hspecial
      obtain ⟨hkey, ha, hb⟩ := split_eq_pair hsplit
      rw [not_or] at hspecial
      have hna : IsName a := ⟨split_eq_self_iff.1 ha, hspecial.1⟩
      have hnb : IsName b := ⟨split_eq_self_iff.1 hb, hspecial.2⟩
      refine ⟨a, b, hna, hnb, hkey, ?_⟩
      rw [← Except.ok.inj h, slash_name hna, slash_name hnb, List.append_assoc]
      rfl
    · cases h
  · rintro ⟨a, b, ha, hb, rfl, rfl⟩
    have hsplit : split '/' (a ++ "/" ++ b) = [a, b] := by
      rw [show ("/" : String) = String.singleton '/' from rfl, split_join,
        split_eq_self_iff.2 ha.noSlash, split_eq_self_iff.2 hb.noSlash]
      rfl
    have hspecial : ¬ (a ∈ ["", ".", ".."] ∨ b ∈ ["", ".", ".."]) :=
      not_or.2 ⟨ha.notSpecial, hb.notSpecial⟩
    simp only [path, hsplit]
    rw [if_neg hspecial, slash_name ha, slash_name hb, List.append_assoc]
    rfl

theorem split_key (ha : IsName a) (hb : IsName b) : split '/' (key a b) = [a, b] := by
  rw [key, show ("/" : String) = String.singleton '/' from rfl, split_join,
    split_eq_self_iff.2 ha.noSlash, split_eq_self_iff.2 hb.noSlash]
  rfl

/-- The pairs whose key is accepted, and its path. -/
theorem path_key_iff : L.path (key tenantId documentId) = .ok p ↔
    IsName tenantId ∧ IsName documentId ∧ p = L.root ++ [tenantId, documentId] := by
  rw [path_eq_ok_iff]
  constructor
  · rintro ⟨a, b, ha, hb, hkey, rfl⟩
    -- the key splits into the two names, so neither half of it is split
    have hsplit : split '/' (tenantId ++ String.singleton '/' ++ documentId) = [a, b] :=
      (congrArg (split '/') hkey).trans (split_key ha hb)
    obtain ⟨-, -, rfl, rfl⟩ := split_join_eq_pair hsplit
    exact ⟨ha, hb, rfl⟩
  · rintro ⟨ht, hd, rfl⟩
    exact ⟨tenantId, documentId, ht, hd, rfl, rfl⟩

/-- A UUID is a name. -/
theorem isName_uuid (u : Uuid) : IsName u.str where
  noSlash := u.not_mem_str (by decide) (by decide)
  notSpecial hmem := by
    have hlength := u.length_str
    simp only [List.mem_cons, List.not_mem_nil, or_false] at hmem
    rcases hmem with h | h | h <;> (rw [h] at hlength; revert hlength; decide)

/-- The key that ingest gives a document leads to its file in the directory of
    the tenant. -/
theorem path_storageKey (tenantId documentId : Uuid) :
    L.path (OcrService.storageKey tenantId documentId) = .ok (L.root ++ [tenantId.str, documentId.str]) :=
  path_key_iff.2 ⟨isName_uuid tenantId, isName_uuid documentId, rfl⟩

/-! ## One operation -/

theorem dropLast_path (root : PosixPath) (a b : String) : (root ++ [a, b]).dropLast = root ++ [a] := by
  rw [show [a, b] = [a] ++ [b] from rfl, ← List.append_assoc, List.dropLast_concat]

/-- What `save` does when it does not raise. -/
theorem save_ok {storageKey : String}
    (h : (L.save faults files tenantId documentId content).result = .ok storageKey) :
    storageKey = key tenantId documentId ∧ IsName tenantId ∧ IsName documentId ∧
      (L.save faults files tenantId documentId content).calls =
        [.mkdir (L.root ++ [tenantId]), .write (L.root ++ [tenantId, documentId]) content] ∧
      (L.save faults files tenantId documentId content).files (L.root ++ [tenantId, documentId]) =
        some (.file content) ∧ hasNul (L.root ++ [tenantId, documentId]) = false := by
  unfold save at h ⊢
  cases hpath : L.path (key tenantId documentId) with
  | error e => rw [hpath] at h; cases h
  | ok p =>
    obtain ⟨ht, hd, rfl⟩ := path_key_iff.1 hpath
    rw [hpath] at h
    rcases hmade : mkdir files (L.root ++ [tenantId, documentId]).dropLast faults with ⟨e | _, made⟩
    · simp only [hmade] at h
      cases h
    · simp only [hmade] at h ⊢
      have hwritten : (writeBytes made (L.root ++ [tenantId, documentId]) faults content).1 = .ok () := by
        cases hw : (writeBytes made (L.root ++ [tenantId, documentId]) faults content).1 with
        | error e => rw [hw] at h; cases h
        | ok u => rfl
      rw [hwritten] at h
      obtain ⟨hfile, hnul⟩ := writeBytes_ok hwritten
      exact ⟨(Except.ok.inj h).symm, ht, hd, by rw [dropLast_path], hfile, hnul⟩

/-- An operation leaves the blob of a pair that it does not save or delete. -/
theorem step_file {op : StorageOp} (hop : ¬ op.Rewrites tenantId documentId)
    (hfile : files (L.root ++ [tenantId, documentId]) = some (.file content)) :
    L.step faults files op (L.root ++ [tenantId, documentId]) = some (.file content) := by
  have hother {a b : String} (hne : ¬ (a = tenantId ∧ b = documentId)) :
      L.root ++ [tenantId, documentId] ≠ L.root ++ [a, b] := by
    intro h
    have hpair := List.append_cancel_left h
    simp only [List.cons.injEq, and_true] at hpair
    exact hne ⟨hpair.1.symm, hpair.2.symm⟩
  cases op with
  | save tenantId' documentId' content' =>
    simp only [step, save]
    cases hpath : L.path (key tenantId' documentId') with
    | error e => exact hfile
    | ok p =>
      obtain ⟨-, -, rfl⟩ := path_key_iff.1 hpath
      have hmkdir : (mkdir files (L.root ++ [tenantId', documentId']).dropLast faults).2 _ = _ :=
        mkdir_some hfile
      rcases hmade : mkdir files (L.root ++ [tenantId', documentId']).dropLast faults with ⟨e | _, made⟩
      all_goals
        rw [hmade] at hmkdir
        simp only [hmade]
      · exact hmkdir
      · rw [writeBytes_of_ne (hother hop)]
        exact hmkdir
  | load storageKey =>
    simp only [step, load]
    cases L.path storageKey <;> exact hfile
  | delete storageKey =>
    simp only [step, delete]
    cases hpath : L.path storageKey with
    | error e => exact hfile
    | ok p =>
      obtain ⟨a, b, -, -, rfl, rfl⟩ := path_eq_ok_iff.1 hpath
      have hne : ¬ (a = tenantId ∧ b = documentId) := by
        rintro ⟨rfl, rfl⟩
        exact hop rfl
      rw [← hfile]
      exact unlink_of_ne (hother hne)

/-- **A blob stays** until its own pair is saved again or deleted. -/
theorem runs_file {ops : List (StorageOp × Faults Bytes)}
    (hops : ∀ op ∈ ops, ¬ op.1.Rewrites tenantId documentId)
    (hfile : files (L.root ++ [tenantId, documentId]) = some (.file content)) :
    L.runs ops files (L.root ++ [tenantId, documentId]) = some (.file content) := by
  induction ops generalizing files with
  | nil => exact hfile
  | cons op ops ih =>
    obtain ⟨hop, hops⟩ := List.forall_mem_cons.1 hops
    exact ih hops (step_file hop hfile)

/-! ## Every sequence of operations -/

/-- `save` does not raise on the pair, for some content, on some file system. -/
def Accepts (L : LocalFileStorage) (tenantId documentId : String) : Prop :=
  ∃ faults files content storageKey,
    (L.save faults files tenantId documentId content).result = .ok storageKey

/-- The operation on `storageKey` raised a `ValueError` and touched nothing, or it
    touched one file two names below the root. -/
def Confined (L : LocalFileStorage) (storageKey : String) (files : Files Bytes) {β : Type}
    (run : StorageRun β) : Prop :=
  (∃ text, run.result = .error (.valueError text) ∧ run.calls = [] ∧ run.files = files) ∨
    ∃ a b, IsName a ∧ IsName b ∧ storageKey = a ++ "/" ++ b ∧
      (∀ call ∈ run.calls, call.path = L.root ++ [a, b]) ∧
      ∀ q, q ≠ L.root ++ [a, b] → run.files q = files q

theorem path_error {e : FileError} (h : L.path storageKey = .error e) :
    ∃ text, e = .valueError text := by
  unfold path at h
  split at h
  · split_ifs at h
    exact ⟨_, (Except.error.inj h).symm⟩
  · exact ⟨_, (Except.error.inj h).symm⟩

theorem confined_load : L.Confined storageKey files (L.load faults files storageKey) := by
  unfold load
  cases hpath : L.path storageKey with
  | error e =>
    obtain ⟨text, rfl⟩ := path_error hpath
    exact Or.inl ⟨text, rfl, rfl, rfl⟩
  | ok p =>
    obtain ⟨a, b, ha, hb, hkey, rfl⟩ := path_eq_ok_iff.1 hpath
    exact Or.inr ⟨a, b, ha, hb, hkey, by simp [FileCall.path], fun _ _ => rfl⟩

theorem confined_delete : L.Confined storageKey files (L.delete faults files storageKey) := by
  unfold delete
  cases hpath : L.path storageKey with
  | error e =>
    obtain ⟨text, rfl⟩ := path_error hpath
    exact Or.inl ⟨text, rfl, rfl, rfl⟩
  | ok p =>
    obtain ⟨a, b, ha, hb, hkey, rfl⟩ := path_eq_ok_iff.1 hpath
    exact Or.inr ⟨a, b, ha, hb, hkey, by simp [FileCall.path], fun _ hq => unlink_of_ne hq⟩

/-- **Blob keys are injective and confined.** -/
theorem keys_confined (L : LocalFileStorage) :
    (∀ (faults : Faults Bytes) (files : Files Bytes) (tenantId documentId : String) (content : Bytes)
        (storageKey : String),
      (L.save faults files tenantId documentId content).result = .ok storageKey →
      (IsName tenantId ∧ IsName documentId ∧
        (L.save faults files tenantId documentId content).calls =
          [.mkdir (L.root ++ [tenantId]), .write (L.root ++ [tenantId, documentId]) content]) ∧
      ∀ (ops : List (StorageOp × Faults Bytes)) (later : Faults Bytes),
        (∀ op ∈ ops, ¬ op.1.Rewrites tenantId documentId) → later.read = none →
        (L.load later (L.runs ops (L.save faults files tenantId documentId content).files)
          storageKey).result = .ok content) ∧
    (∀ tenantId documentId tenantId' documentId', L.Accepts tenantId documentId →
      L.Accepts tenantId' documentId' →
      L.path (key tenantId documentId) = L.path (key tenantId' documentId') →
      tenantId = tenantId' ∧ documentId = documentId') ∧
    ∀ (storageKey : String) (faults : Faults Bytes) (files : Files Bytes),
      L.Confined storageKey files (L.load faults files storageKey) ∧
        L.Confined storageKey files (L.delete faults files storageKey) := by
  refine ⟨?_, ?_, fun storageKey faults files => ⟨confined_load, confined_delete⟩⟩
  · intro faults files tenantId documentId content storageKey h
    obtain ⟨rfl, ht, hd, hcalls, hfile, hnul⟩ := save_ok h
    refine ⟨⟨ht, hd, hcalls⟩, fun ops later hops hread => ?_⟩
    have hpath : L.path (key tenantId documentId) = .ok (L.root ++ [tenantId, documentId]) :=
      path_key_iff.2 ⟨ht, hd, rfl⟩
    simp only [load, hpath]
    exact readBytes_file hnul hread (runs_file hops hfile)
  · rintro t d t' d' ⟨_, _, _, _, h⟩ ⟨_, _, _, _, h'⟩ hsame
    obtain ⟨-, ht, hd, -⟩ := save_ok h
    obtain ⟨-, ht', hd', -⟩ := save_ok h'
    rw [path_key_iff.2 ⟨ht, hd, rfl⟩, path_key_iff.2 ⟨ht', hd', rfl⟩] at hsame
    have hpair := List.append_cancel_left (Except.ok.inj hsame)
    simpa using hpair

end LocalFileStorage

namespace Sample

def blobs : LocalFileStorage where
  root := ["blobs"]
  printable _ := true

/-- A file system with the root and nothing below it. -/
def emptyDisk : PyFiles.Files Bytes := fun p => if p = ["blobs"] then some .dir else none

end Sample

open LocalFileStorage in
theorem keys_confined_sample :
    (Sample.blobs.load {} (Sample.blobs.runs [(.save "t" "e" [2], {}), (.delete "t/e", {})]
      (Sample.blobs.save {} Sample.emptyDisk "t" "d" [1]).files) "t/d").result = .ok [1] := by
  refine ((keys_confined Sample.blobs).1 {} Sample.emptyDisk "t" "d" [1] "t/d" rfl).2 _ {} ?_ rfl
  intro op hop hrewrites
  simp only [List.mem_cons, List.not_mem_nil, or_false] at hop
  rcases hop with rfl | rfl
  · exact absurd hrewrites.2 (by decide)
  · exact absurd (show "t/e" = key "t" "d" from hrewrites) (by decide)

end OcrService
