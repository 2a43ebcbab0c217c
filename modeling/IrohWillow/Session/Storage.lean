import IrohWillow.Store.Traits
import IrohWillow.Store.SplitRange
import IrohWillow.Session.Basic

/-!
# What a session needs of a store

The session is generic over `Storage` (`store/traits.rs`): an entry store with
fingerprints, range splits and iterators, whose items may fail one by one, and
a payload store. A chunk is one item of the pipe that `send_payload_chunked`
reads a blob through; a failure of the blob store is reported before the first
chunk.
-/

namespace IrohWillow

/-- A piece of a payload. -/
abbrev Chunk := List Byte

/-- How a call ends when it does not return a value. -/
inductive Failure where
  /-- The function returns an error. -/
  | error (e : Error)
  /-- An `unwrap`, an `expect` or an arithmetic check fails. -/
  | panic
  deriving DecidableEq, Repr

/-- `Storage`: the entry store and the payload store. -/
class Storage (σ : Type) [Meadowcap] where
  /-- `EntryReader::fingerprint`. -/
  fingerprint : σ → NamespaceId → Range3d → Except Error Fingerprint
  /-- `EntryReader::split_range`; a failing call is a failing first item. -/
  splitRange : σ → NamespaceId → Range3d → SplitOpts → List (Except Error (Range3d × SplitAction))
  /-- `EntryReader::get_authorised_entries`. -/
  getAuthorisedEntries : σ → NamespaceId → Range3d →
    Except Error (List (Except Error AuthorisedEntry))
  /-- `EntryStorage::ingest_entry`. -/
  ingestEntry : σ → AuthorisedEntry → EntryOrigin → Except Error Bool × σ
  /-- The chunks of a blob, or `none` when the blob is not found. -/
  payloadChunks : σ → PayloadDigest → Except Error (Option (List Chunk))
  /-- `import_verifiable_stream` of all received chunks. -/
  importChunks : σ → PayloadDigest → U64 → List Chunk → Except Error Unit × σ

/-! ## What reading promises -/

/-- The entries that a store returns for a range are entries of the namespace
in the range, and the parts of a split lie inside the range. -/
structure Storage.ReadsInRange (σ : Type) [Meadowcap] [Storage σ] : Prop where
  entries : ∀ (store : σ) ns range entries a,
    Storage.getAuthorisedEntries store ns range = .ok entries → .ok a ∈ entries →
      a.entry.namespaceId = ns ∧ range.IncludesEntry a.entry
  split : ∀ (store : σ) ns range part,
    .ok part ∈ Storage.splitRange store ns range {} → part.1.Within range

/-- No operation fails: reads return their items, a split has at least one
part, and the payload that a peer sends for one of its entries can be
imported. -/
structure Storage.NeverFails (σ : Type) [Meadowcap] [Storage σ] : Prop where
  fingerprint : ∀ (store : σ) ns range, ∃ fp, Storage.fingerprint store ns range = .ok fp
  split : ∀ (store : σ) ns range, ∃ parts, parts ≠ [] ∧
    Storage.splitRange store ns range {} = parts.map .ok
  entries : ∀ (store : σ) ns range, ∃ as : List AuthorisedEntry,
    Storage.getAuthorisedEntries store ns range = .ok (as.map .ok)
  ingest : ∀ (store : σ) a origin, ∃ inserted, (Storage.ingestEntry store a origin).1 = .ok inserted
  payload : ∀ (store : σ) digest, ∃ chunks, Storage.payloadChunks store digest = .ok chunks
  importPayload : ∀ (store store' : σ) ns range entries a chunks,
    Storage.getAuthorisedEntries store ns range = .ok entries → .ok a ∈ entries →
    Storage.payloadChunks store a.entry.payloadDigest = .ok (some chunks) →
    (Storage.importChunks store' a.entry.payloadDigest a.entry.payloadLength chunks).1 = .ok ()

/-- Whether a stream can be imported does not depend on what the store holds: it
is verified against the digest and the length. -/
def Storage.ImportsByContent (σ : Type) [Meadowcap] [Storage σ] : Prop :=
  ∀ (store store' : σ) digest length chunks,
    (Storage.importChunks store digest length chunks).1 = .ok () →
      (Storage.importChunks store' digest length chunks).1 = .ok ()

/-! ## What writing promises -/

/-- The store keeps exactly the entries that no other entry prunes, where
`contents` are the entries of a namespace: reads return them all, ingesting
adds an entry and takes out what is pruned, and the parts of a split cover the
range and are announced by their own fingerprint or as empty. -/
structure Storage.KeepsFrontier {σ : Type} [Meadowcap] [Storage σ]
    (contents : σ → NamespaceId → Set Entry) : Prop where
  finite : ∀ store ns, (contents store ns).Finite
  namespaceId : ∀ store ns, ∀ e ∈ contents store ns, e.namespaceId = ns
  entries : ∀ (store : σ) ns range (as : List AuthorisedEntry),
    Storage.getAuthorisedEntries store ns range = .ok (as.map .ok) →
    ∀ e, (∃ a ∈ as, a.entry = e) ↔ e ∈ contents store ns ∧ range.IncludesEntry e
  ingest : ∀ (store : σ) a origin, (∀ ns, Frontier.frontier Entry.Prunes (contents store ns) =
      contents store ns) →
    ∀ ns, contents (Storage.ingestEntry store a origin).2 ns =
      if a.entry.namespaceId = ns then
        Frontier.frontier Entry.Prunes (insert a.entry (contents store ns))
      else contents store ns
  importChunks : ∀ (store : σ) digest length chunks,
    contents (Storage.importChunks store digest length chunks).2 = contents store
  split_covers : ∀ (store : σ) ns range (parts : List (Range3d × SplitAction)),
    Storage.splitRange store ns range {} = parts.map .ok →
    ∀ e, range.IncludesEntry e → ∃ part ∈ parts, part.1.IncludesEntry e
  split_fingerprint : ∀ (store : σ) ns range (parts : List (Range3d × SplitAction)),
    Storage.splitRange store ns range {} = parts.map .ok →
    ∀ r fp, (r, .sendFingerprint fp) ∈ parts → Storage.fingerprint store ns r = .ok fp
  split_empty : ∀ (store : σ) ns range (parts : List (Range3d × SplitAction)),
    Storage.splitRange store ns range {} = parts.map .ok →
    ∀ r, (r, .sendEntries 0) ∈ parts → ∀ e ∈ contents store ns, ¬ r.IncludesEntry e

end IrohWillow
