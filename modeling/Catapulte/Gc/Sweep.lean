import Catapulte.Domain.Port

namespace Catapulte

structure AttachmentGc (M : Type → Type) where
  repository : EmailRepository M
  store : AttachmentStore M
  isCancelled : M Bool
  gracePeriod : Duration

inductive SweepError
  | repository (e : EmailRepositoryError)
  | store (source : String)
  deriving DecidableEq, Repr

namespace AttachmentGc

variable {M : Type → Type} [Monad M]

def liveKeys (backend : String) (liveBlobs : List BlobRef) : List String :=
  (liveBlobs.filter (fun b => b.backend = backend)).map BlobRef.key

def removeOrphans (gc : AttachmentGc M) (live : List String) :
    List String → M (Except SweepError Unit)
  | [] => return .ok ()
  | key :: onDisk => do
      if ← gc.isCancelled then return .ok ()
      else if live.contains key then gc.removeOrphans live onDisk
      else do
        let _ ← gc.store.delete ⟨gc.store.backendName, key⟩
        gc.removeOrphans live onDisk

def sweepOnce (gc : AttachmentGc M) : M (Except SweepError Unit) := do
  if ← gc.isCancelled then return .ok ()
  else
    match ← gc.repository.listAllAttachmentBlobs with
    | .error e => return .error (.repository e)
    | .ok liveBlobs =>
        match ← gc.store.listKeysOlderThan gc.gracePeriod with
        | .error e => return .error (.store e)
        | .ok onDisk => gc.removeOrphans (liveKeys gc.store.backendName liveBlobs) onDisk

end AttachmentGc

end Catapulte
