import Mathlib.Algebra.Group.Nat.Defs
import Catapulte.Async.ReadBuf
import Catapulte.Domain.Port

namespace Catapulte.Fs

open Async

inductive Node
  | file (bytes : List UInt8)
  | directory

/-- The root directory of the store, and the directory `.tmp` in it. -/
structure Files where
  root : List (String × Node)
  tmp : List (String × List UInt8)

namespace Files

def create (fs : Files) (name : String) : Files :=
  { fs with tmp := fs.tmp.filter (fun f => f.1 ≠ name) ++ [(name, [])] }

def write (fs : Files) (name : String) (bytes : List UInt8) : Files :=
  { fs with tmp := fs.tmp.map fun f => if f.1 = name then (name, bytes) else f }

/-- Moves a tempfile into the root, over any file of that name. -/
def rename (fs : Files) (name key : String) : Files :=
  match fs.tmp.lookup name with
  | none => fs
  | some bytes => ⟨fs.root.filter (fun f => f.1 ≠ key) ++ [(key, .file bytes)], fs.tmp.filter (fun f => f.1 ≠ name)⟩

def removeFile (fs : Files) (name : String) : Files := { fs with tmp := fs.tmp.filter (fun f => f.1 ≠ name) }

end Files

inductive PutStep
  | create
  | flush
  | syncFile
  | rename
  | openRoot
  | syncRoot
  | removeFile
  deriving DecidableEq

/-- The steps that fail. A failing `create` may leave an empty file all the same, and a
write beyond the capacity fails after it has written up to there. -/
structure Faults where
  fails : PutStep → Bool
  created : Bool
  capacity : Option Nat

/-- `Uuid::simple`: thirty-two hexadecimal digits. -/
def simple (uuid : Nat) : String :=
  String.ofList ((List.range 32).map fun i => Nat.digitChar (uuid / 16 ^ (31 - i) % 16))

def isHidden (name : String) : Bool := name.toList.head? = some '.'

def isDangerousKey (key : String) : Bool := isHidden key || key.toList.contains '/' || key.toList.contains '\\'

def fits (capacity : Option Nat) (bytes : List UInt8) : Bool := capacity.all fun capacity => bytes.length ≤ capacity

/-- `tokio::io::copy` into the tempfile: what it holds then, and the number of bytes. -/
def copy (capacity : Option Nat) : List ReadEvent → List UInt8 → List UInt8 × Except AttachmentStoreError Nat
  | [], written => (written, .ok written.length)
  | .pending :: reader, written => copy capacity reader written
  | .failure _ :: _, written => (written, .error (.io "failed to write to tmp file"))
  | .chunk b bs :: reader, written =>
      if fits capacity (written ++ b :: bs) then copy capacity reader (written ++ b :: bs)
      else ((written ++ b :: bs).take (capacity.getD 0), .error (.io "failed to write to tmp file"))

def writeCommitted (fs : Files) (faults : Faults) (tmpName : String) (reader : List ReadEvent) (key : String) :
    Files × Except AttachmentStoreError Nat :=
  if faults.fails .create then
    (if faults.created then fs.create tmpName else fs, .error (.io "failed to create tmp file"))
  else
    let fs := fs.create tmpName
    let (written, copied) := copy faults.capacity reader []
    let fs := fs.write tmpName written
    match copied with
    | .error e => (fs, .error e)
    | .ok sizeBytes =>
        if faults.fails .flush then (fs, .error (.io "failed to flush tmp file"))
        else if faults.fails .syncFile then (fs, .error (.io "failed to fsync tmp file"))
        else if faults.fails .rename then (fs, .error (.io "failed to rename tmp file to final path"))
        else
          let fs := fs.rename tmpName key
          if faults.fails .openRoot then (fs, .error (.io "failed to open root dir for fsync"))
          else if faults.fails .syncRoot then (fs, .error (.io "failed to fsync root directory"))
          else (fs, .ok sizeBytes)

/-- `keyUuid` and `tmpUuid` are the two fresh uuids. -/
def put (fs : Files) (faults : Faults) (keyUuid tmpUuid : Nat) (reader : List ReadEvent) :
    Files × Except AttachmentStoreError PutResult :=
  let key := simple keyUuid
  let tmpName := simple tmpUuid
  match writeCommitted fs faults tmpName reader key with
  | (fs, .error e) => (if faults.fails .removeFile then fs else fs.removeFile tmpName, .error e)
  | (fs, .ok sizeBytes) => (fs, .ok ⟨⟨"fs", key⟩, sizeBytes⟩)

def listKeys (fs : Files) : List String :=
  fs.root.filterMap fun (name, node) =>
    match node with
    | .file _ => if isHidden name then none else some name
    | .directory => none

def get (fs : Files) (blob : BlobRef) : Except AttachmentStoreError Node :=
  if isDangerousKey blob.key then .error .notFound
  else if blob.key = "" then .ok .directory -- joined to an empty key the root stays the root
  else
    match fs.root.lookup blob.key with
    | some file => .ok file
    | none => .error .notFound

/-- Every step up to the rename succeeds, and the reader comes to its end. -/
structure Commits (faults : Faults) (reader : List ReadEvent) : Prop where
  create : faults.fails .create = false
  reads : ∀ e, .failure e ∉ reader
  writes : fits faults.capacity (reader.flatMap ReadEvent.bytes) = true
  flush : faults.fails .flush = false
  syncFile : faults.fails .syncFile = false
  rename : faults.fails .rename = false

/-- A failed put leaves the keys as they were and, if the tempfile can be removed, the
tempfiles too. A put that succeeds adds one key with the bytes of the reader. -/
structure AllOrNothing (fs fs' : Files) (faults : Faults) (reader : List ReadEvent)
    (result : Except AttachmentStoreError PutResult) : Prop where
  failed : ∀ e, result = .error e → listKeys fs' = listKeys fs ∧
    (faults.fails .removeFile = false → fs'.tmp.map Prod.fst = fs.tmp.map Prod.fst)
  stored : ∀ stored, result = .ok stored →
    listKeys fs' = listKeys fs ++ [stored.blob.key] ∧ stored.blob.key ∉ listKeys fs ∧
    get fs' stored.blob = .ok (.file (reader.flatMap ReadEvent.bytes)) ∧
    stored.sizeBytes = (reader.flatMap ReadEvent.bytes).length ∧
    ∀ blob, blob.key ≠ stored.blob.key → get fs' blob = get fs blob

variable {fs : Files} {faults : Faults} {reader : List ReadEvent} {capacity : Option Nat} {name key : String}
  {bytes written : List UInt8}

theorem simple_ne_empty (uuid : Nat) : simple uuid ≠ "" := by
  intro h
  have hlength := congrArg (fun s => s.toList.length) h
  simp [simple] at hlength

theorem isDangerousKey_simple (uuid : Nat) : isDangerousKey (simple uuid) = false ∧ isHidden (simple uuid) = false := by
  have hdigit : ∀ c ∈ (simple uuid).toList, c ≠ '.' ∧ c ≠ '/' ∧ c ≠ '\\' := by
    intro c hc
    rw [simple, String.toList_ofList, List.mem_map] at hc
    obtain ⟨i, -, rfl⟩ := hc
    have hall : ∀ d < 16, Nat.digitChar d ≠ '.' ∧ Nat.digitChar d ≠ '/' ∧ Nat.digitChar d ≠ '\\' := by decide
    exact hall _ (Nat.mod_lt _ (by decide))
  have hhidden : isHidden (simple uuid) = false := by
    rw [isHidden, decide_eq_false_iff_not]
    exact fun hhead => (hdigit '.' (List.mem_of_mem_head? hhead)).1 rfl
  refine ⟨?_, hhidden⟩
  rw [isDangerousKey, hhidden, Bool.false_or, Bool.or_eq_false_iff]
  constructor
  · exact Bool.eq_false_iff.mpr fun hslash => (hdigit '/' (List.contains_iff_mem.mp hslash)).2.1 rfl
  · exact Bool.eq_false_iff.mpr fun hslash => (hdigit '\\' (List.contains_iff_mem.mp hslash)).2.2 rfl

theorem lookup_filter_eq {α : Type} (files : List (String × α)) :
    (files.filter fun f => f.1 ≠ name).lookup name = none := by
  rw [List.lookup_eq_none_iff]
  intro f hf
  rw [List.mem_filter, decide_eq_true_iff] at hf
  exact bne_iff_ne.mpr (Ne.symm hf.2)

theorem filter_eq_self_of_notMem {α : Type} {files : List (String × α)} (h : name ∉ files.map Prod.fst) :
    (files.filter fun f => f.1 ≠ name) = files := by
  rw [List.filter_eq_self]
  exact fun f hf => decide_eq_true fun hname => h (hname ▸ List.mem_map_of_mem hf)

namespace Files

def withTemp (fs : Files) (name : String) (bytes : List UInt8) : Files := { fs with tmp := fs.tmp ++ [(name, bytes)] }

def withBlob (fs : Files) (key : String) (bytes : List UInt8) : Files :=
  { fs with root := fs.root ++ [(key, .file bytes)] }

theorem create_eq (htmp : name ∉ fs.tmp.map Prod.fst) : fs.create name = fs.withTemp name [] := by
  rw [create, filter_eq_self_of_notMem htmp, withTemp]

theorem write_withTemp (htmp : name ∉ fs.tmp.map Prod.fst) :
    (fs.withTemp name written).write name bytes = fs.withTemp name bytes := by
  have hold : fs.tmp.map (fun f => if f.1 = name then (name, bytes) else f) = fs.tmp := by
    have hsame : ∀ f ∈ fs.tmp, (if f.1 = name then (name, bytes) else f) = id f :=
      fun f hf => if_neg fun (hname : f.1 = name) => htmp (hname ▸ List.mem_map_of_mem hf)
    rw [List.map_congr_left hsame, List.map_id]
  rw [write, withTemp, withTemp, List.map_append, hold, List.map_singleton, if_pos rfl]

theorem removeFile_withTemp (htmp : name ∉ fs.tmp.map Prod.fst) : (fs.withTemp name bytes).removeFile name = fs := by
  have hnew : ([(name, bytes)].filter fun f : String × List UInt8 => f.1 ≠ name) = [] :=
    List.filter_cons_of_neg fun h => of_decide_eq_true h rfl
  rw [removeFile, withTemp, List.filter_append, filter_eq_self_of_notMem htmp, hnew, List.append_nil]

theorem removeFile_eq (htmp : name ∉ fs.tmp.map Prod.fst) : fs.removeFile name = fs := by
  rw [removeFile, filter_eq_self_of_notMem htmp]

theorem rename_withTemp (htmp : name ∉ fs.tmp.map Prod.fst) (hkey : key ∉ fs.root.map Prod.fst) :
    (fs.withTemp name bytes).rename name key = fs.withBlob key bytes := by
  have hlookup : (fs.withTemp name bytes).tmp.lookup name = some bytes := by
    have hold : fs.tmp.lookup name = none := by
      rw [← filter_eq_self_of_notMem htmp]
      exact lookup_filter_eq fs.tmp
    rw [withTemp, List.lookup_append, hold, Option.none_or, List.lookup_cons_self]
  have hremove : ((fs.withTemp name bytes).tmp.filter fun f => f.1 ≠ name) = fs.tmp :=
    congrArg Files.tmp (removeFile_withTemp htmp)
  rw [rename, hlookup]
  simp only [hremove]
  rw [withTemp, filter_eq_self_of_notMem hkey, withBlob]

end Files

theorem fits_of_append (h : fits capacity (written ++ bytes) = true) : fits capacity written = true := by
  cases capacity with
  | none => rfl
  | some capacity =>
      have hle := of_decide_eq_true h
      rw [List.length_append] at hle
      exact decide_eq_true (Nat.le_trans (Nat.le_add_right _ _) hle)

theorem copy_ok (hreads : ∀ e, .failure e ∉ reader)
    (hfits : fits capacity (written ++ reader.flatMap ReadEvent.bytes) = true) :
    copy capacity reader written = (written ++ reader.flatMap ReadEvent.bytes,
      .ok (written ++ reader.flatMap ReadEvent.bytes).length) := by
  induction reader generalizing written with
  | nil => rw [List.flatMap_nil, List.append_nil, copy]
  | cons event reader ih =>
      have hrest : ∀ e, .failure e ∉ reader := fun e he => hreads e (List.mem_cons_of_mem _ he)
      cases event with
      | pending => exact ih hrest hfits
      | failure e => exact absurd List.mem_cons_self (hreads e)
      | chunk b bs =>
          rw [List.flatMap_cons, ReadEvent.bytes, ← List.append_assoc] at hfits ⊢
          rw [copy, if_pos (fits_of_append hfits), ih hrest hfits]

theorem copy_error (hwritten : fits capacity written = true)
    (h : ¬ ((∀ e, .failure e ∉ reader) ∧ fits capacity (written ++ reader.flatMap ReadEvent.bytes) = true)) :
    ∃ written' e, copy capacity reader written = (written', .error e) := by
  induction reader generalizing written with
  | nil =>
      rw [List.flatMap_nil, List.append_nil] at h
      exact absurd ⟨fun e => List.not_mem_nil, hwritten⟩ h
  | cons event reader ih =>
      cases event with
      | pending =>
          refine ih hwritten fun ⟨hreads, hfits⟩ => h ⟨fun e he => ?_, hfits⟩
          cases he with
          | tail _ he => exact hreads e he
      | failure e => exact ⟨_, _, rfl⟩
      | chunk b bs =>
          rw [List.flatMap_cons, ReadEvent.bytes, ← List.append_assoc] at h
          rw [copy]
          split
          · rename_i hfit
            refine ih hfit fun ⟨hreads, hfits⟩ => h ⟨fun e he => ?_, hfits⟩
            cases he with
            | tail _ he => exact hreads e he
          · exact ⟨_, _, rfl⟩

theorem writeCommitted_of_not_commits (key : String) (htmp : name ∉ fs.tmp.map Prod.fst) (h : ¬ Commits faults reader) :
    ∃ e, (writeCommitted fs faults name reader key).2 = .error e ∧
      ((writeCommitted fs faults name reader key).1 = fs ∨
        ∃ bytes, (writeCommitted fs faults name reader key).1 = fs.withTemp name bytes) := by
  rw [writeCommitted]
  split
  · refine ⟨_, rfl, ?_⟩
    dsimp only
    split
    · exact .inr ⟨[], Files.create_eq htmp⟩
    · exact .inl rfl
  · rename_i hcreate
    rw [Bool.not_eq_true] at hcreate
    rw [Files.create_eq htmp]
    by_cases hcopy : (∀ e, .failure e ∉ reader) ∧ fits faults.capacity ([] ++ reader.flatMap ReadEvent.bytes) = true
    · rw [copy_ok hcopy.1 hcopy.2]
      dsimp only
      rw [Files.write_withTemp htmp]
      split
      · exact ⟨_, rfl, .inr ⟨_, rfl⟩⟩
      split
      · exact ⟨_, rfl, .inr ⟨_, rfl⟩⟩
      split
      · exact ⟨_, rfl, .inr ⟨_, rfl⟩⟩
      · rename_i hflush hsync hrename
        rw [Bool.not_eq_true] at hflush hsync hrename
        exact absurd ⟨hcreate, hcopy.1, hcopy.2, hflush, hsync, hrename⟩ h
    · obtain ⟨written, e, hcopied⟩ := copy_error (by cases faults.capacity <;> rfl) hcopy
      rw [hcopied]
      exact ⟨e, rfl, .inr ⟨written, Files.write_withTemp htmp⟩⟩

theorem writeCommitted_of_commits (htmp : name ∉ fs.tmp.map Prod.fst) (hkey : key ∉ fs.root.map Prod.fst)
    (h : Commits faults reader) :
    (writeCommitted fs faults name reader key).1 = fs.withBlob key (reader.flatMap ReadEvent.bytes) ∧
    (writeCommitted fs faults name reader key).2 =
      if faults.fails .openRoot then .error (.io "failed to open root dir for fsync")
      else if faults.fails .syncRoot then .error (.io "failed to fsync root directory")
      else .ok (reader.flatMap ReadEvent.bytes).length := by
  obtain ⟨hcreate, hreads, hwrites, hflush, hsync, hrename⟩ := h
  rw [writeCommitted, hcreate, if_neg Bool.false_ne_true, Files.create_eq htmp, copy_ok hreads hwrites]
  dsimp only
  rw [Files.write_withTemp htmp, hflush, hsync, hrename]
  simp only [Bool.false_eq_true, if_false]
  rw [Files.rename_withTemp htmp hkey]
  split
  · exact ⟨rfl, rfl⟩
  · split
    · exact ⟨rfl, rfl⟩
    · exact ⟨rfl, rfl⟩

theorem put_of_not_commits (keyUuid : Nat) {tmpUuid : Nat} (htmp : simple tmpUuid ∉ fs.tmp.map Prod.fst)
    (h : ¬ Commits faults reader) :
    (∃ e, (put fs faults keyUuid tmpUuid reader).2 = .error e) ∧
    (put fs faults keyUuid tmpUuid reader).1.root = fs.root ∧
    (faults.fails .removeFile = false → (put fs faults keyUuid tmpUuid reader).1 = fs) := by
  obtain ⟨e, herror, hleft⟩ := writeCommitted_of_not_commits (simple keyUuid) htmp h
  have hput : put fs faults keyUuid tmpUuid reader =
      (if faults.fails .removeFile then (writeCommitted fs faults (simple tmpUuid) reader (simple keyUuid)).1
        else (writeCommitted fs faults (simple tmpUuid) reader (simple keyUuid)).1.removeFile (simple tmpUuid),
      .error e) := by
    rw [put]
    generalize writeCommitted fs faults (simple tmpUuid) reader (simple keyUuid) = written at herror
    obtain ⟨fs', result⟩ := written
    rw [show result = .error e from herror]
  have hroot : (writeCommitted fs faults (simple tmpUuid) reader (simple keyUuid)).1.root = fs.root := by
    rcases hleft with hleft | ⟨bytes, hleft⟩
    · rw [hleft]
    · rw [hleft, Files.withTemp]
  rw [hput]
  refine ⟨⟨e, rfl⟩, ?_, fun hremove => ?_⟩
  · dsimp only
    split
    · exact hroot
    · exact hroot
  · rw [hremove, if_neg Bool.false_ne_true]
    rcases hleft with hleft | ⟨bytes, hleft⟩
    · rw [hleft, Files.removeFile_eq htmp]
    · rw [hleft, Files.removeFile_withTemp htmp]

theorem put_of_commits {keyUuid tmpUuid : Nat} (htmp : simple tmpUuid ∉ fs.tmp.map Prod.fst)
    (hkey : simple keyUuid ∉ fs.root.map Prod.fst) (h : Commits faults reader) :
    (put fs faults keyUuid tmpUuid reader).1 = fs.withBlob (simple keyUuid) (reader.flatMap ReadEvent.bytes) ∧
    ((faults.fails .openRoot = false ∧ faults.fails .syncRoot = false) →
      (put fs faults keyUuid tmpUuid reader).2 =
        .ok ⟨⟨"fs", simple keyUuid⟩, (reader.flatMap ReadEvent.bytes).length⟩) ∧
    (¬ (faults.fails .openRoot = false ∧ faults.fails .syncRoot = false) →
      ∃ e, (put fs faults keyUuid tmpUuid reader).2 = .error e) := by
  obtain ⟨hfiles, hresult⟩ := writeCommitted_of_commits htmp hkey h
  rw [put]
  generalize writeCommitted fs faults (simple tmpUuid) reader (simple keyUuid) = written at hfiles hresult
  obtain ⟨fs', result⟩ := written
  dsimp only at hfiles hresult
  have hremove : fs'.removeFile (simple tmpUuid) = fs' := Files.removeFile_eq (by rw [hfiles]; exact htmp)
  cases hopen : faults.fails .openRoot with
  | true =>
      rw [hopen, if_pos rfl] at hresult
      simp only [hresult, hremove, ite_self]
      exact ⟨hfiles, fun hroot => (by cases hroot.1), fun _ => ⟨_, rfl⟩⟩
  | false =>
      cases hsync : faults.fails .syncRoot with
      | true =>
          rw [hopen, hsync, if_neg Bool.false_ne_true, if_pos rfl] at hresult
          simp only [hresult, hremove, ite_self]
          exact ⟨hfiles, fun hroot => (by cases hroot.2), fun _ => ⟨_, rfl⟩⟩
      | false =>
          rw [hopen, hsync, if_neg Bool.false_ne_true, if_neg Bool.false_ne_true] at hresult
          subst hresult
          exact ⟨hfiles, fun _ => rfl, fun hroot => absurd ⟨rfl, rfl⟩ hroot⟩

theorem listKeys_withBlob (hvisible : isHidden key = false) :
    listKeys (fs.withBlob key bytes) = listKeys fs ++ [key] := by
  have hnew : listKeys ⟨[(key, .file bytes)], []⟩ = [key] := by
    simp only [listKeys, List.filterMap_cons, List.filterMap_nil, hvisible, Bool.false_eq_true, if_false]
  rw [listKeys, Files.withBlob, List.filterMap_append]
  exact congrArg (listKeys fs ++ ·) hnew

theorem listKeys_subset : listKeys fs ⊆ fs.root.map Prod.fst := by
  intro key hkey
  rw [listKeys, List.mem_filterMap] at hkey
  obtain ⟨⟨name, node⟩, hmem, hlisted⟩ := hkey
  cases node with
  | directory => cases hlisted
  | file bytes =>
      dsimp only at hlisted
      split at hlisted
      · cases hlisted
      · cases hlisted
        exact List.mem_map_of_mem hmem

theorem get_withBlob_self {backend : String} (hsafe : isDangerousKey key = false) (hne : key ≠ "")
    (hkey : key ∉ fs.root.map Prod.fst) : get (fs.withBlob key bytes) ⟨backend, key⟩ = .ok (.file bytes) := by
  have hold : fs.root.lookup key = none := by
    rw [← filter_eq_self_of_notMem hkey]
    exact lookup_filter_eq fs.root
  rw [get, hsafe, if_neg Bool.false_ne_true, if_neg hne, Files.withBlob, List.lookup_append, hold, Option.none_or,
    List.lookup_cons_self]

theorem get_withBlob_other {blob : BlobRef} (hblob : blob.key ≠ key) : get (fs.withBlob key bytes) blob = get fs blob := by
  have hnew : List.lookup blob.key [(key, Node.file bytes)] = none := by
    rw [List.lookup_eq_none_iff]
    intro f hf
    rw [List.mem_singleton.mp hf]
    exact bne_iff_ne.mpr hblob
  rw [get, get, Files.withBlob, List.lookup_append, hnew, Option.or_none]

variable {keyUuid tmpUuid : Nat}

theorem not_allOrNothing_of_commits (htmp : simple tmpUuid ∉ fs.tmp.map Prod.fst)
    (hkey : simple keyUuid ∉ fs.root.map Prod.fst) (hcommits : Commits faults reader)
    (hroot : ¬ (faults.fails .openRoot = false ∧ faults.fails .syncRoot = false)) :
    ¬ AllOrNothing fs (put fs faults keyUuid tmpUuid reader).1 faults reader (put fs faults keyUuid tmpUuid reader).2 := by
  intro hput
  obtain ⟨hfiles, -, hfailed⟩ := put_of_commits htmp hkey hcommits
  obtain ⟨e, he⟩ := hfailed hroot
  have hlisted := (hput.failed e he).1
  rw [hfiles, listKeys_withBlob (isDangerousKey_simple keyUuid).2] at hlisted
  have hlength := congrArg List.length hlisted
  rw [List.length_append, List.length_singleton] at hlength
  omega

/-- A put is all or nothing just when the directory can be opened and fsynced after a
rename. Otherwise it answers with an error and the blob stays. -/
theorem allOrNothing_iff (htmp : simple tmpUuid ∉ fs.tmp.map Prod.fst) (hkey : simple keyUuid ∉ fs.root.map Prod.fst) :
    AllOrNothing fs (put fs faults keyUuid tmpUuid reader).1 faults reader (put fs faults keyUuid tmpUuid reader).2 ↔
      (Commits faults reader → faults.fails .openRoot = false ∧ faults.fails .syncRoot = false) := by
  obtain ⟨hsafe, hvisible⟩ := isDangerousKey_simple keyUuid
  have hunlisted : simple keyUuid ∉ listKeys fs := fun h => hkey (listKeys_subset h)
  constructor
  · intro hput hcommits
    by_contra hroot
    exact not_allOrNothing_of_commits htmp hkey hcommits hroot hput
  · intro hroot
    by_cases hcommits : Commits faults reader
    · obtain ⟨hfiles, hstored, -⟩ := put_of_commits htmp hkey hcommits
      have hok := hstored (hroot hcommits)
      rw [hfiles, hok]
      refine ⟨fun e he => (by cases he), fun stored hresult => ?_⟩
      cases hresult
      exact ⟨listKeys_withBlob hvisible, hunlisted, get_withBlob_self hsafe (simple_ne_empty keyUuid) hkey, rfl,
        fun blob hblob => get_withBlob_other hblob⟩
    · obtain ⟨⟨e, he⟩, hsame, hremoved⟩ := put_of_not_commits keyUuid htmp hcommits
      rw [he]
      refine ⟨fun e' _ => ⟨?_, fun hremove => ?_⟩, fun stored hresult => (by cases hresult)⟩
      · rw [listKeys, hsame, listKeys]
      · rw [hremoved hremove]

/-- A store with one blob, and a reader of three bytes that pauses once. -/
theorem allOrNothing_iff_kept :
    AllOrNothing ⟨[(simple 1, .file [7])], []⟩ (put ⟨[(simple 1, .file [7])], []⟩ ⟨fun _ => false, false, some 9⟩ 2 3
      [.chunk 1 [2], .pending, .chunk 3 []]).1 ⟨fun _ => false, false, some 9⟩ [.chunk 1 [2], .pending, .chunk 3 []]
      (put ⟨[(simple 1, .file [7])], []⟩ ⟨fun _ => false, false, some 9⟩ 2 3 [.chunk 1 [2], .pending, .chunk 3 []]).2 :=
  (allOrNothing_iff (by simp) (by decide)).mpr fun _ => ⟨rfl, rfl⟩

/-- A disk on which the directory cannot be fsynced. -/
theorem not_allOrNothing :
    ¬ ∀ fs faults reader keyUuid tmpUuid, simple tmpUuid ∉ fs.tmp.map Prod.fst → simple keyUuid ∉ fs.root.map Prod.fst →
      AllOrNothing fs (put fs faults keyUuid tmpUuid reader).1 faults reader
        (put fs faults keyUuid tmpUuid reader).2 := by
  intro h
  have hput := h ⟨[], []⟩ ⟨fun step => step = .syncRoot, false, none⟩ [.chunk 1 []] 2 3 List.not_mem_nil List.not_mem_nil
  refine not_allOrNothing_of_commits List.not_mem_nil List.not_mem_nil ⟨rfl, ?_, rfl, rfl, rfl, rfl⟩ ?_ hput
  · intro e he
    rw [List.mem_singleton] at he
    cases he
  · intro hroot
    cases hroot.2

end Catapulte.Fs
