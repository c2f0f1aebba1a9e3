import AutonomiWebrtc.Basic
import AutonomiWebrtc.Library.Fetching

/-!
# The crates the client and the proxy build on

`self_encryption`, `rmp_serde` and `blake3` are not part of the repository.  The
functions that are called from them are the fields of `Upstream`; what a result
relies on is a named property of these fields and appears as a hypothesis where
it is used.

`get_root_data_map` takes a fetcher, so it is a `Fetching` computation: it may
ask for any addresses, in any order, depending on the answers it got so far.
-/

namespace AutonomiWebrtc

/-- `self_encryption::Error`.  The client builds only the `Generic` variant. -/
inductive SelfEncryptionError
  | generic (message : String)
  | other (message : String)
  deriving DecidableEq

/-- `self_encryption::EncryptedChunk`. -/
structure EncryptedChunk where
  content : Bytes
  deriving DecidableEq

/-- `self_encryption::ChunkInfo`, of which only the address of the encrypted
chunk is read. -/
structure ChunkInfo where
  dstHash : XorName
  deriving DecidableEq

/-- The third-party functions called by the two crates, over the crate's type of
data maps. -/
structure Upstream (DataMap : Type) where
  /-- `blake3::hash`, the content address of a blob. -/
  blake3 : Bytes → XorName
  /-- `DataMap::infos`. -/
  infos : DataMap → List ChunkInfo
  /-- `DataMap::is_child`. -/
  isChild : DataMap → Bool
  /-- `self_encryption::verify_chunk`. -/
  verifyChunk : XorName → Bytes → Except SelfEncryptionError EncryptedChunk
  /-- `rmp_serde::from_slice`, failing with a displayed error. -/
  fromSlice : Bytes → Except String DataMap
  /-- `rmp_serde::to_vec`. -/
  toVec : DataMap → Except String Bytes
  /-- `self_encryption::get_root_data_map`. -/
  getRootDataMap : DataMap → Fetching XorName Bytes SelfEncryptionError DataMap
  /-- `self_encryption::encrypt`. -/
  encrypt : Bytes → Except SelfEncryptionError (DataMap × List EncryptedChunk)
  /-- `self_encryption::decrypt`. -/
  decrypt : DataMap → List EncryptedChunk → Except SelfEncryptionError Bytes
  /-- `Display` of the crate's errors. -/
  display : SelfEncryptionError → String

namespace Upstream

variable {DataMap : Type} (lib : Upstream DataMap)

/-- The addresses a data map refers to, one for each of its infos. -/
def dstHashes (map : DataMap) : List XorName :=
  (lib.infos map).map ChunkInfo.dstHash

@[simp] theorem length_dstHashes (map : DataMap) :
    (lib.dstHashes map).length = (lib.infos map).length := by
  simp [dstHashes]

/-- `verify_chunk(a, b)` succeeds, with content `b`, exactly when `b` hashes to
`a`. -/
def VerifiesByHash : Prop :=
  ∀ address bytes chunk, lib.verifyChunk address bytes = .ok chunk ↔
    chunk = ⟨bytes⟩ ∧ lib.blake3 bytes = address

/-- `get_root_data_map` returns only maps that are not child maps. -/
def ResolvesToRoot : Prop :=
  ∀ map fetcher root, (lib.getRootDataMap map).run fetcher = .ok root → lib.isChild root = false

/-- `get_root_data_map` fails if any call of its fetcher fails. -/
def FailsWithFetcher : Prop :=
  ∀ map, (lib.getRootDataMap map).FailFast

/-- `get_root_data_map` by recursion on the shrinking: a map that is not a child
map is its own root; otherwise every chunk of the map is fetched, the contents are
decrypted into the next map by `unwrap`, and the recursion goes on there.  A fetch
that fails ends it with the error of that fetch. -/
structure ResolvesByUnwrapping
    (unwrap : DataMap → List Bytes → Except SelfEncryptionError DataMap) : Prop where
  flat : ∀ map fetcher, lib.isChild map = false → (lib.getRootDataMap map).run fetcher = .ok map
  wrapped : ∀ map fetcher contents, lib.isChild map = true →
    (lib.dstHashes map).map fetcher = contents.map .ok →
    (lib.getRootDataMap map).run fetcher =
      match unwrap map contents with
      | .error e => .error e
      | .ok next => (lib.getRootDataMap next).run fetcher
  failed : ∀ map fetcher, lib.isChild map = true →
    (∃ name ∈ lib.dstHashes map, ∃ cause, fetcher name = .error cause) →
    ∃ name ∈ lib.dstHashes map, ∃ cause, fetcher name = .error cause ∧
      (lib.getRootDataMap map).run fetcher = .error cause

/-- Decryption fails on a map that repeats an address: `encrypt` gives equal blocks of a
content different addresses, and a chunk that is put in another place does not decrypt.
`get_root_data_map` decrypts each level of a child map in the same way. -/
structure RefusesRepeats : Prop where
  decrypt : ∀ map chunks content, lib.decrypt map chunks = .ok content →
    (lib.dstHashes map).Nodup
  getRootDataMap : ∀ map fetcher root, lib.isChild map = true →
    (lib.getRootDataMap map).run fetcher = .ok root → (lib.dstHashes map).Nodup

/-- Exactly one chunk of the list has this address. -/
def Provides (chunks : List EncryptedChunk) (address : XorName) (chunk : EncryptedChunk) : Prop :=
  ∀ other, other ∈ chunks ∧ lib.blake3 other.content = address ↔ other = chunk

/-- `decrypt` looks the chunks of a flat map up by their hash, so their order and
other chunks in between do not matter. -/
def DecryptsByHash : Prop :=
  ∀ map first second, lib.isChild map = false →
    (∀ address ∈ lib.dstHashes map, ∃ chunk,
      lib.Provides first address chunk ∧ lib.Provides second address chunk) →
    lib.decrypt map first = lib.decrypt map second

/-- What `encrypt` gives for a content whose data map is flat or shrunk once: `root`
is the flat map.  The hash of every address is that of a chunk, the map can be
serialized and read back, `get_root_data_map` makes the flat map of the wrapper
chunks of a shrunk one, and `decrypt` undoes `encrypt`. -/
structure Encrypts (content : Bytes) (map : DataMap) (chunks : List EncryptedChunk)
    (root : DataMap) : Prop where
  encrypt_eq : lib.encrypt content = .ok (map, chunks)
  fromSlice_toVec : ∀ bytes, lib.toVec map = .ok bytes → lib.fromSlice bytes = .ok map
  hashed : ∀ address, address ∈ lib.dstHashes map ∨ address ∈ lib.dstHashes root →
    ∃ chunk ∈ chunks, lib.blake3 chunk.content = address
  isChild_root : lib.isChild root = false
  flat : lib.isChild map = false → root = map
  shrunk : lib.isChild map = true → ∀ fetcher,
    (∀ address ∈ lib.dstHashes map, ∃ chunk ∈ chunks,
      lib.blake3 chunk.content = address ∧ fetcher address = .ok chunk.content) →
    (lib.getRootDataMap map).run fetcher = .ok root
  decrypt_eq : lib.decrypt root chunks = .ok content

end Upstream

end AutonomiWebrtc
