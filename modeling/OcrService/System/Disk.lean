/-
  The blobs of the service on the local file system.

  The world keeps blobs by key, and `LocalFileStorage` keeps them in files.  On a
  disk that holds the blobs of the world (`OnDisk`), every use of the storage does
  to the files what the step of its task does to the blobs, whatever fails in it:
  a save that raises may have left a part of the content, an unlink that raises has
  left everything.  So along every run of the service the disk follows the world
  (`onDisk_run`), and what is loaded for a document is what was uploaded
  (`upload_on_disk`).
-/
import OcrService.Domain.Storage
import OcrService.System.Changes
import OcrService.System.Pins

namespace OcrService

open Trans PyData PyStr PyFiles

/-! ## Blobs by key -/

namespace World
variable (w : World)

/-- The content of the blob of a key. -/
def blob? (key : String) : Option Bytes := (Rows.find Blob.key w.blobs key).map Blob.content

variable {w} {key key' : String}

theorem blob?_saveBlob (content : Bytes) :
    (w.apply (.saveBlob ⟨key, content⟩)).blob? key' = if key' = key then some content else w.blob? key' := by
  simp only [blob?]
  rw [show (w.apply (.saveBlob ⟨key, content⟩)).blobs = Rows.delete Blob.key w.blobs key ++ [⟨key, content⟩] from rfl]
  by_cases h : key' = key
  · subst h
    simp [Rows.find_append_one, Rows.find_delete_self]
  · rw [Rows.find_append_other _ (Ne.symm h), Rows.find_delete_other _ (Ne.symm h), if_neg h]

theorem blob?_deleteBlob : (w.apply (.deleteBlob key)).blob? key' = if key' = key then none else w.blob? key' := by
  simp only [blob?]
  rw [show (w.apply (.deleteBlob key)).blobs = Rows.delete Blob.key w.blobs key from rfl]
  by_cases h : key' = key
  · subst h
    simp [Rows.find_delete_self]
  · rw [Rows.find_delete_other _ (Ne.symm h), if_neg h]

/-- The blobs change by the storage only. -/
theorem blob?_apply {c : Change} (hsave : ∀ b, c ≠ .saveBlob b) (hdelete : ∀ k, c ≠ .deleteBlob k) :
    (w.apply c).blob? key = w.blob? key := by
  cases c with
  | commit ws => rw [apply_commit]; rfl
  | saveBlob b => exact absurd rfl (hsave b)
  | deleteBlob k => exact absurd rfl (hdelete k)
  | _ => rfl

end World

/-! ## A disk that holds the blobs -/

namespace LocalFileStorage
variable (L : LocalFileStorage)

/-- The file of a document. -/
def file (tenantId documentId : Uuid) : PosixPath := L.root ++ [tenantId.str, documentId.str]

/-- The files hold the blobs of the world, and nothing stands in the way of saving more. -/
structure OnDisk (files : Files Bytes) (w : World) : Prop where
  noNul : hasNul L.root = false
  free : ∀ q, q <+: L.root → ∀ content, files q ≠ some (.file content)
  tenant : ∀ t : Uuid, ∀ content, files (L.root ++ [t.str]) ≠ some (.file content)
  blob : ∀ t d : Uuid, files (L.file t d) = (w.blob? (OcrService.storageKey t d)).map Node.file

/-- What a save leaves in its file, if it writes to it. -/
def left (faults : Faults Bytes) (content : Bytes) : Option Bytes :=
  match faults.mkdir, faults.write with
  | some _, _ => none
  | none, some (_, left) => left
  | none, none => some content

variable {L} {files : Files Bytes} {w w' : World} {faults : Faults Bytes} {t d t' d' : Uuid} {content : Bytes}

theorem file_inj : L.file t d = L.file t' d' ↔ t = t' ∧ d = d' := by
  rw [file, file, List.append_cancel_left_eq]
  simp [Uuid.str_injective.eq_iff]

theorem storageKey_inj : OcrService.storageKey t d = OcrService.storageKey t' d' ↔ t = t' ∧ d = d' := by
  constructor
  · intro h
    have hpath : path Sample.blobs (OcrService.storageKey t d) = path Sample.blobs (OcrService.storageKey t' d') := by
      rw [h]
    rw [path_storageKey, path_storageKey] at hpath
    exact file_inj.1 (Except.ok.inj hpath)
  · rintro ⟨rfl, rfl⟩
    rfl

/-- The directories up to that of a tenant. -/
theorem prefix_tenant {q : PosixPath} (h : q <+: L.root ++ [t.str]) : q <+: L.root ∨ q = L.root ++ [t.str] := by
  rcases List.prefix_concat_iff.1 h with h | h
  · exact Or.inr h
  · exact Or.inl h

theorem ne_file {q : PosixPath} (h : q <+: L.root ++ [t'.str]) : q ≠ L.file t d := by
  rintro rfl
  have hlength := h.length_le
  simp [file] at hlength

theorem OnDisk.congr (h : L.OnDisk files w) (hblob : ∀ key, w'.blob? key = w.blob? key) : L.OnDisk files w' :=
  ⟨h.noNul, h.free, h.tenant, fun t d => by rw [hblob]; exact h.blob t d⟩

/-- Nothing is in the way of the directory of a tenant. -/
theorem OnDisk.mkdir_tenant (h : L.OnDisk files w) (t : Uuid) :
    hasNul (L.root ++ [t.str]) = false ∧ blocked files (L.root ++ [t.str]) = false := by
  constructor
  · have hroot := h.noNul
    have ht : NulFree t.str := Uuid.not_mem_str _ (by decide) (by decide)
    rw [hasNul] at hroot ⊢
    rw [List.any_append, hroot]
    simp [ht]
  · rw [blocked, List.any_eq_false]
    intro q hq
    split
    · next content hfile =>
      rcases prefix_tenant ((List.mem_inits _ _).1 hq) with hq | rfl
      · exact absurd hfile (h.free q hq content)
      · exact absurd hfile (h.tenant t content)
    · exact Bool.false_ne_true

/-- Making the directory of a tenant, or a part of it. -/
theorem OnDisk.makeDirs (h : L.OnDisk files w) {q : PosixPath} (hq : q <+: L.root ++ [t.str]) :
    L.OnDisk (makeDirs files q) w := by
  have hfile {p : PosixPath} {content : Bytes} (hp : files p ≠ some (.file content)) :
      PyFiles.makeDirs files q p ≠ some (.file content) := by
    unfold PyFiles.makeDirs
    split
    · split_ifs <;> simp
    · next node hnode => rwa [hnode] at hp
  refine ⟨h.noNul, fun p hp content => hfile (h.free p hp content), fun t content => hfile (h.tenant t content),
    fun t d => ?_⟩
  rw [← h.blob t d, PyFiles.makeDirs]
  split
  · next hnone =>
    rw [if_neg fun hp => ne_file (hp.trans hq) rfl, hnone]
  · next node hnode => exact hnode.symm

/-- Writing the file of a document. -/
theorem OnDisk.set (h : L.OnDisk files w) (t d : Uuid) (content : Bytes) :
    L.OnDisk (PyFiles.set files (L.file t d) (some (.file content)))
      (w.apply (.saveBlob ⟨OcrService.storageKey t d, content⟩)) := by
  refine ⟨h.noNul, fun p hp content' => ?_, fun t' content' => ?_, fun t' d' => ?_⟩
  · rw [set_of_ne _ (ne_file (hp.trans (List.prefix_append _ [t.str])))]
    exact h.free p hp content'
  · rw [set_of_ne _ (ne_file List.prefix_rfl)]
    exact h.tenant t' content'
  · rw [World.blob?_saveBlob]
    by_cases hkey : t' = t ∧ d' = d
    · obtain ⟨rfl, rfl⟩ := hkey
      rw [set_self, if_pos rfl, Option.map_some]
    · rw [set_of_ne _ (fun hfile => hkey (file_inj.1 hfile)), if_neg (fun hk => hkey (storageKey_inj.1 hk)),
        h.blob]

/-- The name of the file of a document can be used. -/
theorem OnDisk.file_noNul (h : L.OnDisk files w) (t d : Uuid) : hasNul (L.file t d) = false := by
  have hroot := h.noNul
  have ht : NulFree t.str := Uuid.not_mem_str _ (by decide) (by decide)
  have hd : NulFree d.str := Uuid.not_mem_str _ (by decide) (by decide)
  rw [hasNul] at hroot ⊢
  rw [file, List.any_append, hroot]
  simp [ht, hd]

/-- What a save does to the files. -/
theorem OnDisk.save_eq (h : L.OnDisk files w) (t d : Uuid) (faults : Faults Bytes) (content : Bytes) :
    (L.save faults files t.str d.str content).files =
      match faults.mkdir, left faults content with
      | some (_, made), _ => PyFiles.makeDirs files ((L.root ++ [t.str]).take made)
      | none, none => PyFiles.makeDirs files (L.root ++ [t.str])
      | none, some content =>
        PyFiles.set (PyFiles.makeDirs files (L.root ++ [t.str])) (L.file t d) (some (.file content)) := by
  have hpath : L.path (key t.str d.str) = .ok (L.file t d) :=
    path_key_iff.2 ⟨isName_uuid t, isName_uuid d, rfl⟩
  have hparent : (L.file t d).dropLast = L.root ++ [t.str] := dropLast_path _ _ _
  obtain ⟨hnul, hfree⟩ := h.mkdir_tenant t
  have hmade := h.makeDirs (t := t) List.prefix_rfl
  have hdir : PyFiles.makeDirs files (L.root ++ [t.str]) (L.file t d).dropLast = some .dir := by
    rw [hparent, PyFiles.makeDirs]
    split
    · rw [if_pos List.prefix_rfl]
    · next node hnode =>
      cases node with
      | dir => rfl
      | file content => exact absurd hnode (h.tenant t content)
  have hfile : PyFiles.makeDirs files (L.root ++ [t.str]) (L.file t d) ≠ some .dir := by
    rw [hmade.blob t d]
    cases w.blob? (OcrService.storageKey t d) <;> simp
  simp only [LocalFileStorage.save, hpath, hparent, mkdir_eq hnul hfree, left]
  cases hm : faults.mkdir with
  | some fault => rfl
  | none =>
    dsimp only
    rw [writeBytes_eq (h.file_noNul t d) hdir hfile]
    cases hw : faults.write with
    | none => rfl
    | some fault =>
      obtain ⟨text, _ | content⟩ := fault <;> rfl

/-- **A save**, whatever fails in it. -/
theorem OnDisk.save (h : L.OnDisk files w) (t d : Uuid) (faults : Faults Bytes) (content : Bytes) :
    L.OnDisk (L.save faults files t.str d.str content).files
      ((left faults content).elim w fun content =>
        w.apply (.saveBlob ⟨OcrService.storageKey t d, content⟩)) := by
  rw [h.save_eq]
  cases hm : faults.mkdir with
  | some fault =>
    simp only [left, hm]
    exact h.makeDirs (List.take_prefix _ _)
  | none =>
    have hmade := h.makeDirs (t := t) List.prefix_rfl
    cases left faults content with
    | none => exact hmade
    | some content => exact hmade.set t d content

/-- Taking a file away leaves the others. -/
theorem OnDisk.unset (h : L.OnDisk files w) {p : PosixPath} (hblob : ∀ t d,
      (if L.file t d = p then none else w.blob? (OcrService.storageKey t d)) =
        w'.blob? (OcrService.storageKey t d)) : L.OnDisk (PyFiles.set files p none) w' := by
  have hnone {q : PosixPath} {content : Bytes} (hq : files q ≠ some (.file content)) :
      PyFiles.set files p none q ≠ some (.file content) := by
    rw [PyFiles.set]
    split_ifs
    · simp
    · exact hq
  refine ⟨h.noNul, fun q hq content => hnone (h.free q hq content), fun t content => hnone (h.tenant t content),
    fun t d => ?_⟩
  rw [← hblob, PyFiles.set]
  split_ifs
  · rfl
  · exact h.blob t d

/-- **A deletion**, whatever fails in it, and whatever the key. -/
theorem OnDisk.delete (h : L.OnDisk files w) (storageKey : String) (faults : Faults Bytes) :
    L.OnDisk (L.delete faults files storageKey).files
      (if faults.unlink.isSome then w else w.apply (.deleteBlob storageKey)) := by
  have hkept (hkey : ∀ t d, w.blob? (OcrService.storageKey t d) ≠ none →
      OcrService.storageKey t d ≠ storageKey) : L.OnDisk files (w.apply (.deleteBlob storageKey)) := by
    refine ⟨h.noNul, h.free, h.tenant, fun t d => ?_⟩
    rw [h.blob, World.blob?_deleteBlob]
    split_ifs with hk
    · by_contra hne
      refine hkey t d ?_ hk
      rintro hnone
      exact hne (by rw [hnone])
    · rfl
  have hpaths {p : PosixPath} (hp : L.path storageKey = .ok p) (t d : Uuid) :
      L.file t d = p ↔ OcrService.storageKey t d = storageKey := by
    obtain ⟨a, b, ha, hb, rfl, rfl⟩ := path_eq_ok_iff.1 hp
    constructor
    · intro hfile
      rw [file, List.append_cancel_left_eq] at hfile
      simp only [List.cons.injEq, and_true] at hfile
      rw [OcrService.storageKey, hfile.1, hfile.2]
    · intro hk
      rw [← hk, path_storageKey] at hp
      exact Except.ok.inj hp
  unfold LocalFileStorage.delete
  cases hpath : L.path storageKey with
  | error e =>
    split_ifs
    · exact h
    · refine hkept fun t d _ hk => ?_
      rw [← hk, path_storageKey] at hpath
      cases hpath
  | ok p =>
    dsimp only
    cases hfault : faults.unlink with
    | some text =>
      rcases unlink_cases files p faults with hfiles | ⟨hnone, -⟩
      · rw [hfiles]
        exact h
      · rw [hfault] at hnone
        cases hnone
    | none =>
      have hblob (t d : Uuid) : (if L.file t d = p then none else w.blob? (OcrService.storageKey t d)) =
          (w.apply (.deleteBlob storageKey)).blob? (OcrService.storageKey t d) := by
        simp only [World.blob?_deleteBlob, hpaths hpath]
      rcases unlink_cases files p faults with hfiles | ⟨-, hfiles⟩
      · refine hfiles.symm ▸ hkept fun t d hsome hk => hsome ?_
        have hfile := (hpaths hpath t d).2 hk
        have hdir : files (L.file t d) ≠ some .dir := by
          rw [h.blob t d]
          cases w.blob? (OcrService.storageKey t d) <;> simp
        have hgone := unlink_self (h.file_noNul t d) hfault hdir
        rw [hfile, hfiles, ← hfile, h.blob t d] at hgone
        simpa using hgone
      · rw [hfiles]
        exact h.unset hblob

end LocalFileStorage

/-! ## What the tasks do in the storage -/

deriving instance DecidableEq for StorageOp

/-- What fails of the save of a request; `text` is that of the `OSError`. -/
def ExtractRequest.faults (text : String) (x : ExtractRequest) : Faults Bytes :=
  if x.raises .saveBlob then { write := some (text, x.leftover) } else {}

/-- What fails of the deletion of an erasure. -/
def EraseTask.faults (text : String) (e : EraseTask) : Faults Bytes :=
  if e.raises .deleteBlob then { unlink := some text } else {}

/-- What the next step of a task does in the storage. -/
def Task.storageOps (text : String) : Task → List (StorageOp × Faults Bytes)
  | .extract x =>
    match x.pc with
    | .saveBlob _ => [(.save x.tenantId.str x.documentId.str x.upload.content, x.faults text)]
    | _ => []
  | .erase e =>
    match e.pc with
    | .deleteBlob (some storageKey) =>
      if storageKey = "" then [] else [(.delete storageKey, e.faults text)]
    | _ => []
  | _ => []

/-- What step `i` of the service does in the storage. -/
def System.storageOps (text : String) (q : System) (i : ℕ) : List (StorageOp × Faults Bytes) :=
  match q.tasks[i]? with
  | some x => x.storageOps text
  | none => []

section
variable {S : Site} {L : LocalFileStorage} {files : Files Bytes} {w : World} {x : Task} {text : String}

theorem ExtractRequest.pc_of_saveBlob {x : ExtractRequest} {blob : Blob}
    (h : (x.move S w).change = .saveBlob blob) :
    (∃ document, x.pc = .saveBlob document) ∧ blob.key = storageKey x.tenantId x.documentId := by
  cases hpc : x.pc <;> simp only [ExtractRequest.move, hpc] at h
  case saveBlob document =>
    refine ⟨⟨document, rfl⟩, ?_⟩
    split_ifs at h
    · unfold ExtractRequest.torn at h
      cases hleft : x.leftover with
      | none =>
        rw [hleft] at h
        cases h
      | some content =>
        rw [hleft] at h
        exact (congrArg Blob.key (Change.saveBlob.inj h)).symm
    · exact (congrArg Blob.key (Change.saveBlob.inj h)).symm
  all_goals
    repeat' split at h
    all_goals cases h

theorem EraseTask.pc_of_deleteBlob {e : EraseTask} {key : String}
    (h : (e.move S w).change = .deleteBlob key) : e.pc = .deleteBlob (some key) ∧ key ≠ "" := by
  cases hpc : e.pc <;> simp only [EraseTask.move, hpc] at h
  case deleteBlob storageKey =>
    split at h
    · cases h
    · cases h
    · next hne =>
      split_ifs at h
      cases h
      exact ⟨rfl, fun hempty => hne (by rw [hempty])⟩
  all_goals
    repeat' split at h
    all_goals cases h

theorem EraseTask.change_deleteBlob {e : EraseTask} {key : String} (hpc : e.pc = .deleteBlob (some key))
    (hne : key ≠ "") : (e.move S w).change = if e.raises .deleteBlob then .idle else .deleteBlob key := by
  unfold EraseTask.move
  rw [hpc]
  simp only

/-- A step that does nothing in the storage leaves the blobs. -/
theorem blob?_move (h : x.storageOps text = []) (key : String) :
    (w.apply (x.move S w).change).blob? key = w.blob? key := by
  refine World.blob?_apply (fun blob hc => ?_) fun key' hc => ?_
  · have hmakes := x.makes (S := S) (w := w)
    rw [hc] at hmakes
    cases hmakes with
    | @saveBlob x _ =>
      obtain ⟨⟨document, hpc⟩, -⟩ := ExtractRequest.pc_of_saveBlob hc
      simp [Task.storageOps, hpc] at h
  · have hmakes := x.makes (S := S) (w := w)
    rw [hc] at hmakes
    cases hmakes with
    | @deleteBlob e _ =>
      obtain ⟨hpc, hne⟩ := EraseTask.pc_of_deleteBlob hc
      simp [Task.storageOps, hpc, hne] at h

/-- **A step** does to the files what it does to the blobs. -/
theorem onDisk_move (h : L.OnDisk files w) :
    L.OnDisk (L.runs (x.storageOps text) files) (w.apply (x.move S w).change) := by
  by_cases hnil : x.storageOps text = []
  · rw [hnil]
    exact h.congr (blob?_move hnil)
  cases x with
  | extract x =>
    cases hpc : x.pc
    case saveBlob document =>
      have hsave := h.save x.tenantId x.documentId (x.faults text) x.upload.content
      simp only [Task.storageOps, hpc, LocalFileStorage.runs, List.foldl_cons, List.foldl_nil,
        LocalFileStorage.step, Task.move, ExtractRequest.move]
      by_cases hraise : x.raises .saveBlob = true
      · simp only [ExtractRequest.faults, hraise, if_true, LocalFileStorage.left] at hsave ⊢
        unfold ExtractRequest.torn
        cases hleft : x.leftover with
        | none =>
          simp only [hleft, Option.elim_none] at hsave
          exact hsave
        | some content => simpa only [hleft, Option.elim_some] using hsave
      · simp only [ExtractRequest.faults, hraise, LocalFileStorage.left] at hsave ⊢
        exact hsave
    all_goals exact absurd (by simp only [Task.storageOps, hpc]) hnil
  | erase e =>
    cases hpc : e.pc
    case deleteBlob storageKey =>
      obtain _ | storageKey := storageKey
      · exact absurd (by simp only [Task.storageOps, hpc]) hnil
      by_cases hne : storageKey = ""
      · exact absurd (by simp only [Task.storageOps, hpc, hne, if_true]) hnil
      have hdelete := h.delete storageKey (e.faults text)
      simp only [Task.storageOps, hpc, hne, if_false, LocalFileStorage.runs, List.foldl_cons,
        List.foldl_nil, LocalFileStorage.step, Task.move]
      rw [EraseTask.change_deleteBlob hpc hne]
      by_cases hraise : e.raises .deleteBlob = true
      · simp only [EraseTask.faults, hraise, if_true, Option.isSome_some] at hdelete ⊢
        exact hdelete
      · simp only [EraseTask.faults, hraise] at hdelete ⊢
        exact hdelete
    all_goals exact absurd (by simp only [Task.storageOps, hpc]) hnil
  | _ => exact absurd rfl hnil

/-- **Along every run** the disk follows the world. -/
theorem onDisk_run (text : String) {q q' : System} {l : List ℕ} (h : L.OnDisk files q.shared)
    (hrun : exec (System.step S) q l = some q') :
    L.OnDisk (L.runs (gather (System.step S) (System.storageOps text) q l) files) q'.shared := by
  induction l generalizing q files with
  | nil =>
    rw [exec_nil, Option.some.injEq] at hrun
    exact hrun ▸ h
  | cons i l ih =>
    rw [exec_cons] at hrun
    obtain ⟨p, hstep, hrun⟩ := Option.bind_eq_some_iff.1 hrun
    rw [gather_cons hstep, LocalFileStorage.runs, List.foldl_append]
    refine ih ?_ hrun
    obtain ⟨x, hx, hshared, -⟩ := Pool.step_eq_some hstep
    rw [show p.shared = q.shared.apply (x.move S q.shared).change from hshared, System.storageOps, hx]
    exact onDisk_move h

end

/-! ## From the upload on -/

/-- Where a document says its content is, and how much of it there is. -/
def Document.content (row : Document) : Option String × ℕ := (row.fileStorageKey, row.fileSizeBytes)

namespace ExtractRequest
variable (x : ExtractRequest)

/-- The content of the request's document. -/
def content : Option String × ℕ := (some (storageKey x.tenantId x.documentId), x.upload.content.length)

/-- The row that the request inserts. -/
def Inserted (document : Document) : Prop :=
  document.id = x.documentId ∧ document.tenantId = x.tenantId ∧
    document.fileSizeBytes = x.upload.content.length

/-- What has been done of an upload. -/
def Uploading (w : World) : Prop :=
  match x.pc with
  | .readTenant | .acquire _ | .create => x.documentId ∉ w.db.issued
  | .saveBlob document => x.documentId ∉ w.db.issued ∧ x.Inserted document
  | .commit document => x.documentId ∉ w.db.issued ∧ x.Inserted document ∧
      w.blob? (storageKey x.tenantId x.documentId) = some x.upload.content
  | .enqueue | .release _ | .done _ => True

/-- The document of the request has its content. -/
structure Stored (w : World) : Prop where
  row : ∀ row ∈ w.db.documents, row.id = x.documentId → row.content = x.content
  blob : (∃ row ∈ w.db.documents, row.id = x.documentId) →
    w.blob? (storageKey x.tenantId x.documentId) = some x.upload.content

/-- What tasks know of the document of the request. -/
def known : Known :=
  .documents (fun row => row.id = x.documentId → row.content = x.content)
    (fun row => row.id = x.documentId → row.content = x.content)

end ExtractRequest

section
variable {S : Site} {w w' : World} {db db' : Db} {ws : List Write} {x : ExtractRequest} {u : Task}
  {text : String}

/-- An update of a document that is known leaves its content, but for the key that
    ingest gives it. -/
theorem Prepared.keepsContent {κ : Known} (h : Prepared S κ u ws) :
    (∃ document, ws = createWrites document) ∨
      ∀ old new, .updateDocument old new ∈ ws →
        new.content = old.content ∧ (κ.document old ∨ κ.reset old) := by
  refine or_iff_not_imp_left.2 fun hcreate old new hw => ?_
  cases h.written hw with
  | persist hdoc _ _ _ _ h =>
    cases h
    exact ⟨rfl, Or.inl hdoc⟩
  | webhook h => exact h.elim
  | cancel hdoc => exact ⟨rfl, Or.inl hdoc⟩
  | reviewDocument _ hdoc => exact ⟨rfl, Or.inr hdoc⟩
  | retryDocument _ hdoc => exact ⟨rfl, Or.inr hdoc⟩
  | storageKey =>
    cases h
    exact absurd ⟨_, rfl⟩ hcreate

/-- The transaction of an ingest. -/
theorem create_content {document : Document} (hi : db.Issued) (h : db.commit (createWrites document) = .ok db') :
    document.id ∉ db.issued ∧ ∀ row ∈ db'.documents, row.id = document.id →
      row.content = (some (storageKey document.tenantId document.id), document.fileSizeBytes) := by
  obtain ⟨db₁, hinsert, h⟩ := Db.commit_cons_ok.1 h
  obtain ⟨hrefused, rfl⟩ := Write.apply_ok.1 hinsert
  obtain ⟨-, rfl⟩ := updateDocument_ok.1 (commit_one.1 h)
  simp only [Write.refused] at hrefused
  split_ifs at hrefused with hissued
  refine ⟨hissued, fun row hrow hid => ?_⟩
  simp only [Write.perform] at hrow
  split_ifs at hrow with hsame
  · -- the key was there before
    rcases List.mem_append.1 hrow with hrow | hrow
    · exact absurd (hid ▸ hi row hrow) hissued
    · rw [List.mem_singleton.1 hrow]
      exact congrArg Document.content hsame.symm
  · rw [Rows.mem_replace_key hrow hid]
    rfl

/-- What a write of another task leaves of the document of the request. -/
theorem content_apply {wr : Write}
    (hrows : ∀ row ∈ db.documents, row.id = x.documentId → row.content = x.content)
    (hkeep : wr.KeepsId) (hinsert : ∀ row, wr = .insertDocument row → row.id ≠ x.documentId)
    (hupd : ∀ old new, wr = .updateDocument old new → old.id = x.documentId → new.content = x.content)
    (h : wr.apply db = .ok db') :
    (x.documentId ∈ db'.issued → x.documentId ∈ db.issued) ∧
      (∀ row ∈ db'.documents, row.id = x.documentId → row.content = x.content) ∧
        ((∃ row ∈ db'.documents, row.id = x.documentId) → ∃ row ∈ db.documents, row.id = x.documentId) := by
  cases documents_apply h with
  | same hdocs hissued =>
    rw [hdocs, hissued]
    exact ⟨id, hrows, id⟩
  | @updated old new row hne hrow hv hdocs hissued =>
    rw [hissued, hdocs]
    have hid := hkeep old new rfl
    have hmem := Rows.mem_of_find hrow
    have hkey : row.id = old.id := Rows.key_of_find hrow
    refine ⟨id, fun r hr hr' => ?_, ?_⟩
    · rcases Rows.mem_replace hr with rfl | hr
      · exact hupd old new rfl (hid.symm.trans hr')
      · exact hrows r hr hr'
    · rintro ⟨r, hr, hr'⟩
      rcases Rows.mem_replace hr with rfl | hr
      · exact ⟨row, hmem, hkey.trans (hid.symm.trans hr')⟩
      · exact ⟨r, hr, hr'⟩
  | @inserted row hnew hdocs hissued =>
    rw [hissued, hdocs]
    have hne := hinsert row rfl
    refine ⟨fun hmem => ?_, fun r hr hr' => ?_, ?_⟩
    · rcases List.mem_cons.1 hmem with hmem | hmem
      · exact absurd hmem.symm hne
      · exact hmem
    · rcases List.mem_append.1 hr with hr | hr
      · exact hrows r hr hr'
      · rw [List.mem_singleton.1 hr] at hr'
        exact absurd hr' hne
    · rintro ⟨r, hr, hr'⟩
      rcases List.mem_append.1 hr with hr | hr
      · exact ⟨r, hr, hr'⟩
      · rw [List.mem_singleton.1 hr] at hr'
        exact absurd hr' hne
  | deleted hrow hdocs hissued =>
    rw [hissued, hdocs]
    refine ⟨id, fun r hr hr' => hrows r (Rows.mem_delete.1 hr).1 hr', ?_⟩
    rintro ⟨r, hr, hr'⟩
    exact ⟨r, (Rows.mem_delete.1 hr).1, hr'⟩

/-- What a database has of the document of the request, compared with an earlier one. -/
structure ExtractRequest.Keeps (x : ExtractRequest) (db db' : Db) : Prop where
  issued : db'.Issued
  mine : x.documentId ∈ db'.issued → x.documentId ∈ db.issued
  rows : ∀ row ∈ db'.documents, row.id = x.documentId → row.content = x.content
  exist : (∃ row ∈ db'.documents, row.id = x.documentId) → ∃ row ∈ db.documents, row.id = x.documentId

/-- **The transaction of another task.** -/
theorem content_commit (hi : db.Issued)
    (hrows : ∀ row ∈ db.documents, row.id = x.documentId → row.content = x.content)
    (hother : ∀ document, ws = createWrites document → document.id ≠ x.documentId)
    (hws : Prepared S x.known u ws) (h : db.commit ws = .ok db') : x.Keeps db db' := by
  refine Db.commit_induction (P := x.Keeps db) h ⟨hi, id, hrows, id⟩ ?_
  intro wr hwr db₁ db₂ hkeeps happly
  have hkeep := (hws.written hwr).keepsId
  have hinsert (row : Document) (hw : wr = .insertDocument row) : row.id ≠ x.documentId := by
    subst hw
    exact hother row (hws.create_of_insert hwr).2
  have hupd (old new : Document) (hw : wr = .updateDocument old new) (hid : old.id = x.documentId) :
      new.content = x.content := by
    subst hw
    rcases hws.keepsContent with ⟨document, rfl⟩ | hupdates
    · simp only [createWrites, List.mem_cons, reduceCtorEq, Write.updateDocument.injEq, List.not_mem_nil,
        or_false, false_or] at hwr
      exact absurd (hwr.1 ▸ hid) (hother document rfl)
    · obtain ⟨hcontent, hold | hold⟩ := hupdates old new hwr
      · exact hcontent.trans (hold hid)
      · exact hcontent.trans (hold hid)
  obtain ⟨hmine, hrows', hexist⟩ := content_apply hkeeps.rows hkeep hinsert hupd happly
  exact ⟨issued_apply hkeeps.issued hkeep happly, fun hd => hkeeps.mine (hmine hd), hrows',
    fun hr => hkeeps.exist (hexist hr)⟩

/-- While the id of the request's document has not been given out, there is no row of it. -/
theorem ExtractRequest.stored_of_new (hi : w.db.Issued) (hnew : x.documentId ∉ w.db.issued) : x.Stored w where
  row row hrow hid := absurd (hid ▸ hi row hrow) hnew
  blob := by
    rintro ⟨row, hrow, hid⟩
    exact absurd (hid ▸ hi row hrow) hnew

theorem ExtractRequest.Uploading.mono (h : x.Uploading w)
    (hmine : x.documentId ∈ w'.db.issued → x.documentId ∈ w.db.issued)
    (hblob : w'.blob? (storageKey x.tenantId x.documentId) = w.blob? (storageKey x.tenantId x.documentId)) :
    x.Uploading w' := by
  unfold ExtractRequest.Uploading at h ⊢
  cases hpc : x.pc <;> simp only [hpc] at h ⊢
  case saveBlob document => exact ⟨fun hd => h.1 (hmine hd), h.2⟩
  case commit document => exact ⟨fun hd => h.1 (hmine hd), h.2.1, hblob.trans h.2.2⟩
  all_goals exact fun hd => h (hmine hd)

theorem createDocument_inserted {document : Document}
    (h : createDocument S db x.tenantId x.documentId x.upload = .ok document) : x.Inserted document := by
  unfold createDocument at h
  split at h
  · cases h
  · cases hschema : resolveActiveSchema db x.tenantId x.upload.schemaName with
    | error e => rw [hschema] at h; cases h
    | ok schema =>
      rw [hschema] at h
      cases h
      exact ⟨rfl, rfl, rfl⟩

/-- **The steps of the request.** -/
theorem ExtractRequest.move_uploading {pc : ExtractPc} (h : (x.goto pc).Uploading w) (hi : w.db.Issued)
    (hs : x.Stored w) :
    ∃ pc', ((x.goto pc).move S w).task = x.goto pc' ∧
      (x.goto pc').Uploading (w.apply ((x.goto pc).move S w).change) ∧
        x.Stored (w.apply ((x.goto pc).move S w).change) := by
  have hstored {c : Change} (hdb : (w.apply c).db = w.db) (hnew : x.documentId ∉ w.db.issued) :
      x.Stored (w.apply c) := by
    refine stored_of_new ?_ ?_
    · rw [hdb]; exact hi
    · rw [hdb]; exact hnew
  cases pc with
  | readTenant =>
    rw [move_readTenant]
    split_ifs
    · exact ⟨.done .failed, rfl, trivial, hs⟩
    · exact ⟨.acquire _, rfl, h, hs⟩
  | acquire limit =>
    rw [move_acquire]
    split_ifs
    · exact ⟨.done .queueFull, rfl, trivial, hs⟩
    · exact ⟨.create, rfl, h, hstored rfl h⟩
  | create =>
    rw [move_create]
    cases hdoc : createDocument S w.db x.tenantId x.documentId x.upload with
    | error e => exact ⟨.release (.refused e), rfl, trivial, hs⟩
    | ok document =>
      dsimp only
      split_ifs
      · exact ⟨.release .failed, rfl, trivial, hs⟩
      · exact ⟨.saveBlob document, rfl, ⟨h, createDocument_inserted hdoc⟩, hs⟩
  | saveBlob document =>
    obtain ⟨hnew, hinserted⟩ := h
    rw [move_saveBlob]
    split_ifs
    · refine ⟨.release .failed, rfl, trivial, hstored ?_ hnew⟩
      rcases x.torn_cases with htorn | ⟨blob, htorn⟩ <;> rw [htorn] <;> rfl
    · refine ⟨.commit document, rfl, ⟨hnew, hinserted, ?_⟩, hstored rfl hnew⟩
      rw [World.blob?_saveBlob]
      exact if_pos rfl
  | commit document =>
    obtain ⟨-, ⟨hid, htenant, hsize⟩, hblob⟩ := h
    rw [move_commit]
    split_ifs
    · exact ⟨.release .failed, rfl, trivial, hs⟩
    · cases hdb : w.db.commit (createWrites document) with
      | error e => exact ⟨.release .failed, rfl, trivial, hs⟩
      | ok db =>
        refine ⟨.enqueue, rfl, trivial, ?_⟩
        rw [World.apply_commit_ok hdb]
        refine ⟨fun row hrow hrow' => ?_, fun _ => hblob⟩
        rw [(create_content hi hdb).2 row hrow (hrow'.trans hid.symm), htenant, hid, hsize]
        rfl
  | enqueue => exact ⟨.done .accepted, rfl, trivial, hs⟩
  | release result => exact ⟨.done result, rfl, trivial, ⟨hs.row, hs.blob⟩⟩
  | done result => exact ⟨.done result, rfl, trivial, hs⟩

/-- The state of a run in which task `j` is the request. -/
structure ExtractRequest.Traced (S : Site) (x : ExtractRequest) (j : ℕ) (p : System) : Prop where
  issued : p.shared.db.Issued
  stored : x.Stored p.shared
  holds : ∀ u ∈ p.tasks, u.Holds S x.known
  own : ∃ pc, p.tasks[j]? = some (.extract (x.goto pc)) ∧ (x.goto pc).Uploading p.shared
  others : ∀ i y, p.tasks[i]? = some (.extract y) → i ≠ j → y.documentId ≠ x.documentId

/-- A step of another task leaves the document of the request. -/
theorem ExtractRequest.Traced.other {j : ℕ} {p : System} (h : x.Traced S j p)
    (hu : ∀ y, u = .extract y → y.documentId ≠ x.documentId)
    (hkeep : ∀ op ∈ u.storageOps text, op.1 ≠ .delete (storageKey x.tenantId x.documentId))
    (hcommit : ∀ ws, (u.move S p.shared).change = .commit ws → Prepared S x.known u ws) :
    x.Keeps p.shared.db (p.shared.apply (u.move S p.shared).change).db ∧
      (p.shared.apply (u.move S p.shared).change).blob? (storageKey x.tenantId x.documentId) =
        p.shared.blob? (storageKey x.tenantId x.documentId) := by
  constructor
  · rcases World.db_apply (w := p.shared) (u.move S p.shared).change with hdb | ⟨ws, hc, hdb⟩
    · rw [hdb]
      exact ⟨h.issued, id, h.stored.row, id⟩
    · refine content_commit h.issued h.stored.row (fun document hws hid => ?_) (hcommit ws hc) hdb
      have hinsert : .insertDocument document ∈ ws := hws ▸ List.mem_cons_self
      obtain ⟨⟨y, rfl⟩, -⟩ := (hcommit ws hc).create_of_insert hinsert
      have hmine : document.id = y.documentId := by
        have hwritten := (hcommit ws hc).written hinsert
        cases hwritten with
        | createDocument hid => exact hid
      exact hu y rfl (hmine ▸ hid)
  · have hmakes := u.makes (S := S) (w := p.shared)
    generalize hc : (u.move S p.shared).change = c at hmakes
    cases hmakes with
    | @saveBlob y blob =>
      obtain ⟨-, hkey⟩ := ExtractRequest.pc_of_saveBlob hc
      obtain ⟨key, content⟩ := blob
      rw [World.blob?_saveBlob, if_neg]
      rw [show key = storageKey y.tenantId y.documentId from hkey]
      exact fun hsame => hu y rfl (LocalFileStorage.storageKey_inj.1 hsame).2.symm
    | @deleteBlob e key =>
      obtain ⟨hpc, hne⟩ := EraseTask.pc_of_deleteBlob hc
      rw [World.blob?_deleteBlob, if_neg]
      rintro rfl
      have hop : (.delete (storageKey x.tenantId x.documentId), e.faults text) ∈
          (Task.erase e).storageOps text := by
        simp [Task.storageOps, hpc, hne]
      exact hkeep _ hop rfl
    | commit => rw [World.apply_commit]; rfl
    | _ => rfl

/-- A request stays the request of its document, and none is scheduled by another task. -/
theorem Task.extract_of_move {y : ExtractRequest} (h : (u.move S w).task = .extract y) :
    ∃ x, u = .extract x ∧ x.documentId = y.documentId := by
  cases u with
  | extract x =>
    refine ⟨x, rfl, ?_⟩
    cases h
    cases hpc : x.pc <;> simp only [ExtractRequest.move, hpc]
    all_goals
      repeat' split
      all_goals rfl
  | _ => cases h

theorem Task.extract_notMem_spawned {y : ExtractRequest} : .extract y ∉ (u.move S w).spawned := by
  cases u with
  | run r => simp [Task.move]
  | extract x => simp [Task.move]
  | retry y => simp [Task.move]
  | webhook | erase | review | schema => exact List.not_mem_nil

theorem ExtractRequest.Traced.step {j i : ℕ} {p p' : System} (h : x.Traced S j p)
    (hkeep : ∀ op ∈ System.storageOps text p i, op.1 ≠ .delete (storageKey x.tenantId x.documentId))
    (hs : System.step S p i = some p') : x.Traced S j p' := by
  obtain ⟨u, hu, hshared, htasks⟩ := Pool.step_eq_some hs
  replace hshared : p'.shared = p.shared.apply (u.move S p.shared).change := hshared
  have hreads : u.Reads x.known p.shared :=
    reads_documents (fun _ _ row hrow => h.stored.row row (mem_of_document? hrow))
      (fun _ _ row _ hrow => h.stored.row row (mem_of_document? hrow))
  obtain ⟨hholds, hcommit⟩ := Task.move_holds (h.holds u (List.mem_of_getElem? hu)) hreads
  rw [System.storageOps, hu] at hkeep
  have hissued : p'.shared.db.Issued := by
    rw [hshared]
    refine World.db_induction (P := Db.Issued) h.issued ?_
    intro ws hc _ wr hwr db₁ db₂ hi happly
    exact issued_apply hi ((hcommit ws hc).written hwr).keepsId happly
  have hall : ∀ v ∈ p'.tasks, v.Holds S x.known := by
    intro v hv
    rcases Pool.mem_of_step hs hu hv with rfl | hv | hv
    · exact hholds
    · exact (Task.spawned_fresh hv).holds
    · exact h.holds v hv
  have hothers : ∀ k y, p'.tasks[k]? = some (.extract y) → k ≠ j → y.documentId ≠ x.documentId := by
    intro k y hy hk
    rcases lt_or_ge k p.tasks.length with hlt | hge
    · have hv := List.getElem?_eq_getElem hlt
      have hmoved := Pool.getElem?_step hs hu hv
      rw [hy, Option.some.injEq] at hmoved
      split_ifs at hmoved with hik
      · subst hik
        obtain ⟨z, rfl, hz⟩ := Task.extract_of_move hmoved.symm
        exact hz ▸ h.others i z hu hk
      · exact h.others k y (by rw [hv, hmoved]) hk
    · rw [htasks, List.getElem?_append_right (by simpa using hge)] at hy
      exact absurd (List.mem_of_getElem? hy) Task.extract_notMem_spawned
  obtain ⟨pc, hpc, huploading⟩ := h.own
  have hown := Pool.getElem?_step hs hu hpc
  by_cases hij : i = j
  · subst hij
    rw [if_pos rfl] at hown
    cases Option.some.inj (hu.symm.trans hpc)
    obtain ⟨pc', htask, huploading', hstored⟩ := ExtractRequest.move_uploading (S := S) huploading h.issued h.stored
    refine ⟨hissued, ?_, hall, ⟨pc', ?_, ?_⟩, hothers⟩
    · rw [hshared]
      exact hstored
    · rw [hown]
      exact congrArg (some ∘ Task.extract) htask
    · rw [hshared]
      exact huploading'
  · rw [if_neg hij] at hown
    obtain ⟨hkeeps, hblob⟩ := h.other (fun y hy => h.others i y (hy ▸ hu) hij) hkeep hcommit
    rw [← hshared] at hkeeps hblob
    refine ⟨hissued, ⟨hkeeps.rows, fun hr => hblob.trans (h.stored.blob (hkeeps.exist hr))⟩, hall,
      ⟨pc, hown, huploading.mono hkeeps.mine hblob⟩, hothers⟩

theorem ExtractRequest.Traced.run {j : ℕ} {q q' : System} {l : List ℕ} (h : x.Traced S j q)
    (hkeep : ∀ op ∈ gather (System.step S) (System.storageOps text) q l,
      op.1 ≠ .delete (storageKey x.tenantId x.documentId))
    (hrun : exec (System.step S) q l = some q') : x.Traced S j q' := by
  induction l generalizing q with
  | nil =>
    rw [exec_nil, Option.some.injEq] at hrun
    exact hrun ▸ h
  | cons i l ih =>
    rw [exec_cons] at hrun
    obtain ⟨p, hstep, hrun⟩ := Option.bind_eq_some_iff.1 hrun
    rw [gather_cons hstep] at hkeep
    obtain ⟨hfirst, hrest⟩ := List.forall_mem_append.1 hkeep
    exact ih (h.step hfirst hstep) hrest hrun

/-- A load from a disk that holds the blobs. -/
theorem LocalFileStorage.OnDisk.load {L : LocalFileStorage} {files : Files Bytes} (h : L.OnDisk files w)
    (t d : Uuid) (content : Bytes) : (L.load {} files (storageKey t d)).result = .ok content ↔
      w.blob? (storageKey t d) = some content := by
  simp only [LocalFileStorage.load, LocalFileStorage.path_storageKey]
  have hfile := h.blob t d
  rw [LocalFileStorage.file] at hfile
  have hnul := h.file_noNul t d
  rw [LocalFileStorage.file] at hnul
  rw [readBytes, if_neg (by simp [hnul]), hfile]
  cases w.blob? (storageKey t d) <;> simp

/-- **What is loaded for a document is what was uploaded.**  Along every run of the
    service, whatever fails in it, the files hold the blobs of the world; and the
    document of a request, from its row on, has a key under which the content of the
    upload is loaded, until that key is deleted. -/
theorem upload_on_disk (text : String) {L : LocalFileStorage} {files : Files Bytes} {q q' : System}
    {l : List ℕ} {j : ℕ}
    (hdisk : L.OnDisk files q.shared) (hissued : q.shared.db.Issued) (hfresh : ∀ u ∈ q.tasks, u.Fresh)
    (hx : q.tasks[j]? = some (.extract x)) (hnew : x.documentId ∉ q.shared.db.issued)
    (hothers : ∀ i y, q.tasks[i]? = some (.extract y) → i ≠ j → y.documentId ≠ x.documentId)
    (hrun : exec (System.step S) q l = some q') :
    (∀ t d content, (L.load {} (L.runs (gather (System.step S) (System.storageOps text) q l) files)
      (storageKey t d)).result = .ok content ↔ q'.shared.blob? (storageKey t d) = some content) ∧
      ((∀ op ∈ gather (System.step S) (System.storageOps text) q l,
        op.1 ≠ .delete (storageKey x.tenantId x.documentId)) →
        ∀ row ∈ q'.shared.db.documents, row.id = x.documentId → ∃ key, row.fileStorageKey = some key ∧
          (L.load {} (L.runs (gather (System.step S) (System.storageOps text) q l) files) key).result =
            .ok x.upload.content ∧ row.fileSizeBytes = x.upload.content.length) := by
  have hdisk' := onDisk_run text hdisk hrun
  refine ⟨hdisk'.load, fun hkeep row hrow hid => ?_⟩
  have hpc : x.pc = .readTenant := hfresh _ (List.mem_of_getElem? hx)
  have htraced : x.Traced S j q :=
    { issued := hissued
      stored := ExtractRequest.stored_of_new hissued hnew
      holds := fun u hu => (hfresh u hu).holds
      own := ⟨.readTenant, by rw [hx, ← hpc]; rfl, hnew⟩
      others := hothers }
  have hstored := (htraced.run hkeep hrun).stored
  have hcontent := hstored.row row hrow hid
  refine ⟨storageKey x.tenantId x.documentId, congrArg Prod.fst hcontent, ?_, congrArg Prod.snd hcontent⟩
  exact (hdisk'.load _ _ _).2 (hstored.blob ⟨row, hrow, hid⟩)

end

/-! ## On the small deployment -/

namespace Sample

/-- The disk with nothing below the root, for the world without blobs. -/
theorem emptyDisk_onDisk : blobs.OnDisk emptyDisk (world []) where
  noNul := by decide
  free q _ content := by
    simp only [emptyDisk]
    split_ifs <;> simp
  tenant t content := by
    simp only [emptyDisk]
    split_ifs <;> simp
  blob t d := by
    have hne : blobs.file t d ≠ ["blobs"] := by simp [LocalFileStorage.file, blobs]
    rw [emptyDisk, if_neg hne]
    rfl

/-- An upload, and an erasure of the document that was there before. -/
def uploads : System where
  shared := world []
  tasks := [.extract extract, .erase erase]

end Sample

theorem upload_on_disk_sample :
    ∃ q', exec (System.step Sample.site) Sample.uploads [0, 1, 0, 1, 0, 1, 0, 1, 0] = some q' ∧
      ∃ row ∈ q'.shared.db.documents, ∃ key, row.fileStorageKey = some key ∧
        (Sample.blobs.load {} (Sample.blobs.runs (gather (System.step Sample.site) (System.storageOps "")
          Sample.uploads [0, 1, 0, 1, 0, 1, 0, 1, 0]) Sample.emptyDisk) key).result = .ok [73] := by
  have hrun : (exec (System.step Sample.site) Sample.uploads [0, 1, 0, 1, 0, 1, 0, 1, 0]).map
      (fun q => q.shared.db.documents.any fun r => r.id = Sample.extract.documentId) = some true := by
    decide +kernel
  obtain ⟨q', hq', hany⟩ := Option.map_eq_some_iff.1 hrun
  obtain ⟨row, hrow, hid⟩ := List.any_eq_true.1 hany
  have hfresh : ∀ u ∈ Sample.uploads.tasks, u.Fresh := by
    intro u hu
    simp only [Sample.uploads, List.mem_cons, List.not_mem_nil, or_false] at hu
    rcases hu with rfl | rfl <;> rfl
  have hothers : ∀ i y, Sample.uploads.tasks[i]? = some (.extract y) → i ≠ 0 →
      y.documentId ≠ Sample.extract.documentId := by
    intro i y hy hi
    obtain _ | _ | i := i
    · exact absurd rfl hi
    · cases hy
    · cases hy
  obtain ⟨-, hload⟩ := upload_on_disk "" Sample.emptyDisk_onDisk (by decide) hfresh rfl
    (by decide) hothers hq'
  refine ⟨q', hq', row, hrow, ?_⟩
  obtain ⟨key, hkey, hcontent, -⟩ := hload (by decide +kernel) row hrow (of_decide_eq_true hid)
  exact ⟨key, hkey, hcontent⟩

end OcrService
