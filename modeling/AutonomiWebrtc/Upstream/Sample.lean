import AutonomiWebrtc.Upstream
import AutonomiWebrtc.Library.Addressed
import Mathlib.Data.List.Nodup

/-!
# A small instance of the crates

The properties of `self_encryption`, `rmp_serde` and `blake3` that the results
rely on hold together in a toy instance that computes: a blob is its own hash,
cut or filled up to 32 bytes; a chunk holds one byte of content; a data map is
its shrinking level followed by one byte for each address; a wrapper chunk holds
the byte of the address one level below it, minus 100.

A chunk of the toy does not say which block of the content it is.  So the toy refuses to
encrypt a content that repeats a byte, and like the crate it refuses to decrypt a map that
repeats an address.
-/

namespace AutonomiWebrtc.Sample

/-- A data map: how often it was shrunk, and the addresses it refers to. -/
structure Map where
  level : ℕ
  names : List XorName
  deriving DecidableEq

/-- The toy hash: the bytes, filled up with zeros and cut to 32. -/
def name (bytes : Bytes) : XorName where
  bytes := (bytes ++ List.replicate addressLen 0).take addressLen
  length_bytes := by simp

/-- The refusal of what is repeated. -/
def repeated : SelfEncryptionError :=
  .other "repeated"

/-- The map that a level of wrapper chunks decrypts to. -/
def unwrap (map : Map) (contents : List Bytes) : Except SelfEncryptionError Map :=
  if map.names.Nodup then
    .ok ⟨map.level - 1, contents.flatten.map fun byte => name [byte + 100]⟩
  else .error repeated

/-- The toy `get_root_data_map`, by recursion on the level. -/
def getRootDataMap : ℕ → List XorName → Fetching XorName Bytes SelfEncryptionError Map
  | 0, names => .done (.ok ⟨0, names⟩)
  | level + 1, names =>
      Fetching.collect names fun contents =>
        match unwrap ⟨level + 1, names⟩ contents with
        | .error e => .done (.error e)
        | .ok next => getRootDataMap level next.names

/-- Content of at most three bytes gets a flat map, longer content one that is
shrunk once. -/
def encrypt (content : Bytes) : Except SelfEncryptionError (Map × List EncryptedChunk) :=
  if ¬ content.Nodup then .error repeated
  else if content.length ≤ 3 then
    .ok (⟨0, content.map fun byte => name [byte]⟩, content.map fun byte => ⟨[byte]⟩)
  else
    .ok (⟨1, content.map fun byte => name [byte - 100]⟩,
      (content.map fun byte => ⟨[byte]⟩) ++ content.map fun byte => ⟨[byte - 100]⟩)

/-- Look every address of the map up among the chunks and join what they hold. -/
def decrypt (map : Map) (chunks : List EncryptedChunk) : Except SelfEncryptionError Bytes :=
  if ¬ map.names.Nodup then .error repeated
  else
    match map.names.mapM fun address => chunks.find? fun chunk => name chunk.content = address with
    | none => .error (.other "chunk not found")
    | some found => .ok (found.flatMap EncryptedChunk.content)

/-- The toy instance. -/
def lib : Upstream Map where
  blake3 := name
  infos map := map.names.map fun address => ⟨address⟩
  isChild map := 0 < map.level
  verifyChunk address bytes :=
    if name bytes = address then .ok ⟨bytes⟩ else .error (.other "hash mismatch")
  fromSlice
    | [] => .error "end of input"
    | level :: names => .ok ⟨level.toNat, names.map fun byte => name [byte]⟩
  toVec map := .ok (UInt8.ofNat map.level :: map.names.map fun address => address.bytes.headD 0)
  getRootDataMap map := getRootDataMap map.level map.names
  encrypt := encrypt
  decrypt := decrypt
  display
    | .generic message => message
    | .other message => message

/-! ## The properties hold -/

@[simp] theorem dstHashes_lib (map : Map) : lib.dstHashes map = map.names := by
  show (map.names.map fun address => ⟨address⟩).map ChunkInfo.dstHash = map.names
  rw [List.map_map]
  exact List.map_id map.names

theorem verifiesByHash : lib.VerifiesByHash := by
  intro address bytes chunk
  simp only [lib]
  split
  · rename_i hname
    simp only [Except.ok.injEq, hname, and_true]
    exact eq_comm
  · rename_i hname
    simp [hname]

theorem failsWithFetcher : lib.FailsWithFetcher := by
  rintro ⟨level, names⟩
  show (getRootDataMap level names).FailFast
  induction level generalizing names with
  | zero =>
      intro fetcher result _ address hasked
      simp [getRootDataMap, Fetching.asked] at hasked
  | succ level ih =>
      refine Fetching.failFast_collect names fun contents => ?_
      cases unwrap ⟨level + 1, names⟩ contents with
      | error e =>
          intro fetcher result _ address hasked
          simp [Fetching.asked] at hasked
      | ok next => exact ih next.names

/-- One level: the wrapper chunks are fetched and decrypted, or a fetch has failed. -/
theorem run_getRootDataMap_succ (level : ℕ) (names : List XorName)
    (fetcher : XorName → Except SelfEncryptionError Bytes) :
    (∃ contents, names.map fetcher = contents.map .ok ∧
      (getRootDataMap (level + 1) names).run fetcher =
        match unwrap ⟨level + 1, names⟩ contents with
        | .error e => .error e
        | .ok next => (getRootDataMap level next.names).run fetcher) ∨
    ∃ name ∈ names, ∃ cause, fetcher name = .error cause ∧
      (getRootDataMap (level + 1) names).run fetcher = .error cause := by
  rw [getRootDataMap]
  rcases Fetching.run_collect_cases fetcher names (fun contents =>
    match unwrap ⟨level + 1, names⟩ contents with
    | .error e => .done (.error e)
    | .ok next => getRootDataMap level next.names) with ⟨contents, hcontents, hrun⟩ | hfailed
  · refine .inl ⟨contents, hcontents, ?_⟩
    rw [hrun]
    cases unwrap ⟨level + 1, names⟩ contents <;> rfl
  · exact .inr hfailed

theorem unwrap_eq_ok {map next : Map} {contents : List Bytes}
    (hunwrap : unwrap map contents = .ok next) :
    map.names.Nodup ∧
      next = ⟨map.level - 1, contents.flatten.map fun byte => name [byte + 100]⟩ := by
  unfold unwrap at hunwrap
  split at hunwrap
  · rename_i hnodup
    exact ⟨hnodup, (Except.ok.inj hunwrap).symm⟩
  · cases hunwrap

theorem resolvesToRoot : lib.ResolvesToRoot := by
  rintro ⟨level, names⟩ fetcher root hrun
  replace hrun : (getRootDataMap level names).run fetcher = .ok root := hrun
  induction level generalizing names with
  | zero =>
      obtain rfl : ⟨0, names⟩ = root := by simpa [getRootDataMap, Fetching.run] using hrun
      rfl
  | succ level ih =>
      rcases run_getRootDataMap_succ level names fetcher with
        ⟨contents, _, hnext⟩ | ⟨_, _, _, _, hfails⟩
      · rw [hnext] at hrun
        split at hrun
        · cases hrun
        · exact ih _ hrun
      · rw [hfails] at hrun
        cases hrun

theorem resolvesByUnwrapping : lib.ResolvesByUnwrapping unwrap := by
  refine ⟨?_, ?_, ?_⟩
  · rintro ⟨level, names⟩ fetcher hflat
    obtain rfl : level = 0 := by simpa [lib] using hflat
    rfl
  · rintro ⟨level, names⟩ fetcher contents hchild hcontents
    cases level with
    | zero => simp [lib] at hchild
    | succ level =>
        rw [dstHashes_lib] at hcontents
        rcases run_getRootDataMap_succ level names fetcher with
          ⟨found, hfound, hrun⟩ | ⟨name, hname, cause, hcause, _⟩
        · rw [hcontents] at hfound
          have hsame : contents = found :=
            List.map_injective_iff.mpr (fun _ _ heq => Except.ok.inj heq) hfound
          rw [← hsame] at hrun
          show (getRootDataMap (level + 1) names).run fetcher = _
          rw [hrun]
          cases hunwrap : unwrap ⟨level + 1, names⟩ contents with
          | error e => rfl
          | ok next =>
              obtain ⟨-, rfl⟩ := unwrap_eq_ok hunwrap
              rfl
        · have hmem : fetcher name ∈ contents.map .ok := hcontents ▸ List.mem_map_of_mem hname
          simp [hcause] at hmem
  · rintro ⟨level, names⟩ fetcher hchild ⟨name, hname, cause, hcause⟩
    cases level with
    | zero => simp [lib] at hchild
    | succ level =>
        rw [dstHashes_lib] at hname ⊢
        rcases run_getRootDataMap_succ level names fetcher with ⟨found, hfound, _⟩ | hfailed
        · have hmem : fetcher name ∈ found.map .ok := hfound ▸ List.mem_map_of_mem hname
          simp [hcause] at hmem
        · exact hfailed

theorem refusesRepeats : lib.RefusesRepeats := by
  constructor
  · intro map chunks content hdecrypt
    rw [dstHashes_lib]
    by_contra hrepeated
    have hrefused : lib.decrypt map chunks = .error repeated := if_pos hrepeated
    rw [hrefused] at hdecrypt
    cases hdecrypt
  · rintro ⟨level, names⟩ fetcher root hchild hrun
    rw [dstHashes_lib]
    cases level with
    | zero => simp [lib] at hchild
    | succ level =>
        replace hrun : (getRootDataMap (level + 1) names).run fetcher = .ok root := hrun
        rcases run_getRootDataMap_succ level names fetcher with
          ⟨contents, _, hnext⟩ | ⟨_, _, _, _, hfails⟩
        · rw [hnext] at hrun
          split at hrun
          · cases hrun
          · rename_i next hunwrap
            exact (unwrap_eq_ok hunwrap).1
        · rw [hfails] at hrun
          cases hrun

/-! ## Encrypting and decrypting -/

theorem name_singleton_injective : Function.Injective fun byte => name [byte] := by
  intro first second hname
  have hbytes := congrArg (fun address : XorName => address.bytes.headD 0) hname
  simpa [name, addressLen] using hbytes

/-- Among chunks of one byte, the one with a given address is found. -/
theorem find?_singleton {chunks : List EncryptedChunk}
    (hbytes : ∀ chunk ∈ chunks, ∃ byte, chunk = ⟨[byte]⟩) {byte : UInt8}
    (hmem : ⟨[byte]⟩ ∈ chunks) :
    chunks.find? (fun chunk => name chunk.content = name [byte]) = some ⟨[byte]⟩ := by
  obtain ⟨found, hfound⟩ : ∃ found,
      chunks.find? (fun chunk => name chunk.content = name [byte]) = some found := by
    apply Option.isSome_iff_exists.mp
    rw [List.find?_isSome]
    exact ⟨_, hmem, by simp⟩
  obtain ⟨other, rfl⟩ := hbytes found (List.mem_of_find?_eq_some hfound)
  have hname : name [other] = name [byte] := by simpa using List.find?_some hfound
  rw [hfound, name_singleton_injective hname]

theorem mapM_find?_singleton {chunks : List EncryptedChunk}
    (hbytes : ∀ chunk ∈ chunks, ∃ byte, chunk = ⟨[byte]⟩) {content : Bytes}
    (hmem : ∀ byte ∈ content, ⟨[byte]⟩ ∈ chunks) :
    ((content.map fun byte => name [byte]).mapM fun address =>
      chunks.find? fun chunk => name chunk.content = address) =
        some (content.map fun byte => ⟨[byte]⟩) := by
  apply Addressed.mapM_eq_some_of_map
  rw [List.map_map, List.map_map]
  apply List.map_congr_left
  intro byte hbyte
  exact find?_singleton hbytes (hmem byte hbyte)

theorem decryptsByHash : lib.DecryptsByHash := by
  rintro ⟨level, names⟩ first second _ hprovides
  rw [dstHashes_lib] at hprovides
  have hfind : ∀ (chunks : List EncryptedChunk) (address : XorName) (chunk : EncryptedChunk),
      lib.Provides chunks address chunk →
      chunks.find? (fun chunk => name chunk.content = address) = some chunk := by
    intro chunks address chunk hchunk
    obtain ⟨hmem, hname⟩ := (hchunk chunk).mpr rfl
    obtain ⟨found, hfound⟩ : ∃ found,
        chunks.find? (fun chunk => name chunk.content = address) = some found := by
      apply Option.isSome_iff_exists.mp
      rw [List.find?_isSome]
      exact ⟨chunk, hmem, by simpa [lib] using hname⟩
    have hsame := (hchunk found).mp ⟨List.mem_of_find?_eq_some hfound, by
      simpa [lib] using List.find?_some hfound⟩
    rw [hfound, hsame]
  have hmapM : names.mapM (fun address => first.find? fun chunk => name chunk.content = address) =
      names.mapM fun address => second.find? fun chunk => name chunk.content = address := by
    have hmap : names.map (fun address => first.find? fun chunk => name chunk.content = address) =
        names.map fun address => second.find? fun chunk => name chunk.content = address := by
      apply List.map_congr_left
      intro address haddress
      obtain ⟨chunk, hfirst, hsecond⟩ := hprovides address haddress
      rw [hfind first address chunk hfirst, hfind second address chunk hsecond]
    exact Addressed.mapM_congr_of_map hmap
  show decrypt _ first = decrypt _ second
  simp only [decrypt, hmapM]

/-- The flat map of a content. -/
def flatMap (content : Bytes) : Map :=
  ⟨0, content.map fun byte => name [byte]⟩

theorem fromSlice_toVec {level : ℕ} (hlevel : level < 256) (content bytes : Bytes)
    (hbytes : lib.toVec ⟨level, content.map fun byte => name [byte]⟩ = .ok bytes) :
    lib.fromSlice bytes = .ok ⟨level, content.map fun byte => name [byte]⟩ := by
  have hheads : (content.map fun byte => name [byte]).map (fun address => address.bytes.headD 0) =
      content := by
    rw [List.map_map]
    exact List.map_id content
  obtain rfl : UInt8.ofNat level :: content = bytes := by
    rw [← hheads]
    exact Except.ok.inj hbytes
  simp [lib, Nat.mod_eq_of_lt hlevel]

/-- The chunk of a byte. -/
def chunk (byte : UInt8) : EncryptedChunk :=
  ⟨[byte]⟩

theorem unwrap_shrunk {content : Bytes} (hnodup : content.Nodup) :
    unwrap ⟨1, (content.map (· - 100)).map fun byte => name [byte]⟩
      (content.map fun byte => [byte - 100]) = .ok (flatMap content) := by
  have hlower : Function.Injective fun byte : UInt8 => byte - 100 :=
    fun first second heq => (UInt8.sub_left_inj 100).mp heq
  have hnames : ((content.map (· - 100)).map fun byte => name [byte]).Nodup :=
    (hnodup.map hlower).map name_singleton_injective
  have hcontents : (content.map fun byte => [byte - 100]).flatten.map
      (fun byte => name [byte + 100]) = content.map fun byte => name [byte] := by
    induction content with
    | nil => rfl
    | cons byte rest ih => simp_all
  rw [unwrap, if_pos hnames, hcontents]
  rfl

theorem encrypts_shrunk {content : Bytes} (hlength : 3 < content.length) (hnodup : content.Nodup) :
    lib.Encrypts content ⟨1, (content.map (· - 100)).map fun byte => name [byte]⟩
      ((content ++ content.map (· - 100)).map chunk) (flatMap content) := by
  refine ⟨?_, fun bytes => fromSlice_toVec (by decide) _ bytes, ?_, rfl, ?_, ?_, ?_⟩
  · show encrypt content = _
    rw [encrypt, if_neg (not_not_intro hnodup), if_neg (Nat.not_le_of_lt hlength), List.map_append,
      List.map_map, List.map_map]
    rfl
  · intro address haddress
    obtain ⟨byte, hbyte, rfl⟩ : ∃ byte ∈ content ++ content.map (· - 100),
        name [byte] = address := by
      rcases haddress with haddress | haddress
      · obtain ⟨byte, hbyte, rfl⟩ := List.mem_map.mp (dstHashes_lib _ ▸ haddress)
        exact ⟨byte, List.mem_append_right _ hbyte, rfl⟩
      · obtain ⟨byte, hbyte, rfl⟩ := List.mem_map.mp (dstHashes_lib _ ▸ haddress)
        exact ⟨byte, List.mem_append_left _ hbyte, rfl⟩
    exact ⟨chunk byte, List.mem_map_of_mem hbyte, rfl⟩
  · intro hflat
    simp [lib] at hflat
  · intro hchild fetcher hfetcher
    rw [dstHashes_lib] at hfetcher
    -- The fetcher gives out the wrapper chunks, and these hold the bytes one level below.
    have hcontents : (lib.dstHashes
        ⟨1, (content.map (· - 100)).map fun byte => name [byte]⟩).map fetcher =
        (content.map fun byte => [byte - 100]).map .ok := by
      rw [dstHashes_lib, List.map_map, List.map_map, List.map_map]
      apply List.map_congr_left
      intro byte hbyte
      obtain ⟨found, hfound, hname, hok⟩ := hfetcher (name [byte - 100])
        (List.mem_map_of_mem (List.mem_map_of_mem hbyte))
      obtain ⟨other, _, rfl⟩ := List.mem_map.mp hfound
      have hsame : other = byte - 100 := name_singleton_injective hname
      rw [Function.comp_apply, Function.comp_apply, Function.comp_apply, hok, hsame]
      rfl
    rw [resolvesByUnwrapping.wrapped _ fetcher _ hchild hcontents, unwrap_shrunk hnodup]
    exact resolvesByUnwrapping.flat _ fetcher rfl
  · show decrypt _ _ = _
    have hnames : (flatMap content).names.Nodup := hnodup.map name_singleton_injective
    rw [decrypt, if_neg (not_not_intro hnames), flatMap, mapM_find?_singleton]
    · simp [List.flatMap_map]
    · intro found hfound
      obtain ⟨byte, _, rfl⟩ := List.mem_map.mp hfound
      exact ⟨byte, rfl⟩
    · intro byte hbyte
      exact List.mem_map_of_mem (List.mem_append_left _ hbyte)

end AutonomiWebrtc.Sample
