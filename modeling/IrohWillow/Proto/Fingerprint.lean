import IrohWillow.Proto.DataModel

/-!
# Fingerprints

`proto/wgps/fingerprint.rs`: the fingerprint of a set of entries is the
exclusive or of a BLAKE3 hash of each entry. The hash is a parameter. It reads
the stored point of an entry (subspace, timestamp and path), its payload
digest and its payload length.
-/

namespace IrohWillow

/-- The key under which `willow_store` stores an entry. -/
structure Point where
  x : SubspaceId
  y : Timestamp
  z : Path
  deriving DecidableEq

/-- The point of an entry. -/
def Entry.point (e : Entry) : Point := ⟨e.subspaceId, e.timestamp, e.path⟩

/-- 32 bytes. -/
abbrev Fingerprint := BitVec 256

/-- The hash function behind fingerprints. -/
class Blake3 where
  /-- `Fingerprint::lift_stored_entry`. -/
  liftStoredEntry : Point → PayloadDigest → U64 → Fingerprint

namespace Fingerprint

variable [Blake3]

/-- `Fingerprint::lift_entry`. -/
def liftEntry (e : Entry) : Fingerprint :=
  Blake3.liftStoredEntry e.point e.payloadDigest e.payloadLength

/-- `Fingerprint::add_entry`. -/
def addEntry (fp : Fingerprint) (e : Entry) : Fingerprint := fp ^^^ liftEntry e

/-- `Fingerprint::from_entries`. -/
def fromEntries (l : List Entry) : Fingerprint := l.foldl addEntry 0

end Fingerprint

/-- `Fingerprint::is_empty`. -/
def Fingerprint.isEmpty (fp : Fingerprint) : Bool := fp == 0

/-- A hash for concrete runs: it tells points with different timestamps apart
and is never zero. -/
@[reducible] def Sample.timestampHash : Blake3 where
  liftStoredEntry point _ _ := BitVec.ofNat 256 (2 ^ point.y.val)

end IrohWillow
