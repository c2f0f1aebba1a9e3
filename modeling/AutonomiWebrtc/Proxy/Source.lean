import AutonomiWebrtc.Upstream
import AutonomiWebrtc.Library.Addressed

/-!
# Where the proxy gets chunk bytes from

`FixtureSource` self-encrypts a file and serves the chunks, and the serialized data
map, from one table keyed by their hashes.
-/

namespace AutonomiWebrtc.Proxy

variable {DataMap : Type}

/-- `address_of`. -/
def addressOf (lib : Upstream DataMap) (bytes : Bytes) : XorName :=
  lib.blake3 bytes

structure FixtureSource where
  /-- The `HashMap` of chunks. -/
  chunks : XorName → Option Bytes
  /-- The address of the serialized data map. -/
  dataMapAddress : XorName
  plaintextLen : ℕ
  chunkCount : ℕ

namespace FixtureSource

/-- `FixtureSource::new`. -/
def new (lib : Upstream DataMap) (content : Bytes) : Except String FixtureSource :=
  let plaintextLen := content.length
  match lib.encrypt content with
  | .error e => .error s!"self-encryption failed: {lib.display e}"
  | .ok (dataMap, encrypted) =>
      let chunks :=
        Addressed.insertAll (addressOf lib) (fun _ => none) (encrypted.map EncryptedChunk.content)
      match lib.toVec dataMap with
      | .error _ => .error "failed to serialize the data map"
      | .ok serialized =>
          let dataMapAddress := addressOf lib serialized
          .ok {
            chunks := Function.update chunks dataMapAddress (some serialized)
            dataMapAddress := dataMapAddress
            plaintextLen := plaintextLen
            chunkCount := (lib.infos dataMap).length }

/-- `FixtureSource::get`. -/
def get (fixture : FixtureSource) (address : XorName) : Except String (Option Bytes) :=
  .ok (fixture.chunks address)

/-! ## What the table holds -/

section New

variable {lib : Upstream DataMap} {content : Bytes} {map : DataMap}
  {encrypted : List EncryptedChunk} {fixture : FixtureSource}

/-- Everything that is inserted: the chunks and the serialized data map. -/
def blobs (encrypted : List EncryptedChunk) (serialized : Bytes) : List Bytes :=
  encrypted.map EncryptedChunk.content ++ [serialized]

theorem new_eq_ok (hencrypt : lib.encrypt content = .ok (map, encrypted))
    (hnew : new lib content = .ok fixture) :
    ∃ serialized, lib.toVec map = .ok serialized ∧
      fixture.dataMapAddress = lib.blake3 serialized ∧
      fixture.chunks =
        Addressed.insertAll lib.blake3 (fun _ => none) (blobs encrypted serialized) := by
  simp only [new, hencrypt] at hnew
  split at hnew
  · cases hnew
  · rename_i serialized hserialized
    cases hnew
    refine ⟨serialized, hserialized, rfl, ?_⟩
    rw [blobs, Addressed.insertAll_concat]
    rfl

end New

end FixtureSource

end AutonomiWebrtc.Proxy
