import AutonomiWebrtc.Upstream
import Mathlib.Logic.Function.Basic

/-!
# The `Retrieval` object of the WASM client

`lib.rs` inverts control: JavaScript asks a `Retrieval` which addresses it still
needs, supplies the bytes whenever they arrive, and calls `advance`; the
synchronous parts run over the cache of verified chunks.  This file translates
the object's methods one by one and gives each of them one specification lemma,
so that later proofs never unfold a method.

A method that takes `&mut self` returns its result together with the state it
leaves behind, also when the result is an error.
-/

namespace AutonomiWebrtc

/-- An in-progress retrieval of one piece of content. -/
structure Retrieval (DataMap : Type) where
  /-- The data map being worked on: the decoded one, later its root form. -/
  map : DataMap
  /-- Whether `map` is already the root (flat) map. -/
  rootResolved : Bool
  /-- Verified chunks by content address, a `HashMap<XorName, EncryptedChunk>`. -/
  cache : XorName → Option EncryptedChunk

namespace Retrieval

variable {DataMap : Type} (lib : Upstream DataMap)

/-! ## The methods -/

/-- `Retrieval::begin`. -/
def begin (address bytes : Bytes) : Except Error (Retrieval DataMap) :=
  match parseAddress address with
  | .error e => .error e
  | .ok address =>
      match lib.verifyChunk address bytes with
      | .error e => .error ⟨"data map chunk failed verification: " ++ lib.display e⟩
      | .ok _ =>
          match lib.fromSlice bytes with
          | .error e =>
              .error ⟨"address does not hold a data map (MessagePack decode failed: " ++ e ++ ")"⟩
          | .ok map =>
              .ok { map := map, rootResolved := !lib.isChild map, cache := fun _ => none }

/-- `Retrieval::required_addresses`: the records of the infos not yet cached,
repeated when an address is repeated in the map. -/
def requiredAddresses (self : Retrieval DataMap) : Bytes :=
  (lib.infos self.map).flatMap fun info =>
    if (self.cache info.dstHash).isSome then [] else info.dstHash.bytes

/-- `Retrieval::supply`. -/
def supply (address bytes : Bytes) (self : Retrieval DataMap) :
    Except Error Unit × Retrieval DataMap :=
  match parseAddress address with
  | .error e => (.error e, self)
  | .ok address =>
      match lib.verifyChunk address bytes with
      | .error e =>
          (.error ⟨"chunk " ++ hex address.bytes ++ " failed verification: " ++ lib.display e⟩,
            self)
      | .ok chunk =>
          (.ok (), { self with cache := Function.update self.cache address (some chunk) })

/-- The fetcher that `advance` hands to `get_root_data_map`: the cache and
nothing else. -/
def fetch (self : Retrieval DataMap) (address : XorName) : Except SelfEncryptionError Bytes :=
  match self.cache address with
  | some chunk => .ok chunk.content
  | none => .error (.generic ("missing wrapper chunk " ++ hex address.bytes))

/-- `Retrieval::advance`. -/
def advance (self : Retrieval DataMap) : Except Error Unit × Retrieval DataMap :=
  if self.rootResolved || !(self.requiredAddresses lib).isEmpty then (.ok (), self)
  else
    match (lib.getRootDataMap self.map).run self.fetch with
    | .error e => (.error ⟨"failed to resolve the root data map: " ++ lib.display e⟩, self)
    | .ok root => (.ok (), { self with map := root, rootResolved := true })

/-- `Retrieval::is_complete`. -/
def isComplete (self : Retrieval DataMap) : Bool :=
  self.rootResolved && (self.requiredAddresses lib).isEmpty

/-- `Retrieval::chunk_count`. -/
def chunkCount (self : Retrieval DataMap) : ℕ :=
  (lib.infos self.map).length

/-- `Retrieval::chunks_held`. -/
def chunksHeld (self : Retrieval DataMap) : ℕ :=
  ((lib.infos self.map).filter fun info => (self.cache info.dstHash).isSome).length

/-- The error of `finish` before the retrieval is complete. -/
def cannotFinish : Error :=
  ⟨"cannot finish: chunks are still missing or the root map is unresolved"⟩

/-- The error of `finish` for a chunk that is not in the cache. -/
def missingChunk (address : XorName) : Error :=
  ⟨"missing chunk " ++ hex address.bytes⟩

/-- The chunk `finish` passes to `decrypt` for one info. -/
def chunkOf (self : Retrieval DataMap) (info : ChunkInfo) : Except Error EncryptedChunk :=
  match self.cache info.dstHash with
  | some chunk => .ok chunk
  | none => .error (missingChunk info.dstHash)

/-- `Retrieval::finish`. -/
def finish (self : Retrieval DataMap) : Except Error Bytes :=
  if !self.isComplete lib then .error cannotFinish
  else
    match (lib.infos self.map).mapM self.chunkOf with
    | .error e => .error e
    | .ok chunks =>
        match lib.decrypt self.map chunks with
        | .error e => .error ⟨"decryption failed: " ++ lib.display e⟩
        | .ok plaintext => .ok plaintext

/-- The same retrieval over another cache. -/
def withCache (self : Retrieval DataMap) (cache : XorName → Option EncryptedChunk) :
    Retrieval DataMap :=
  { self with cache := cache }

/-! ## What is still missing -/

/-- The addresses of the current map that are not cached, as `required_addresses`
lists them. -/
def missing (self : Retrieval DataMap) : List XorName :=
  (lib.dstHashes self.map).filter fun address => (self.cache address).isNone

variable {lib} {self : Retrieval DataMap}

theorem mem_missing {address : XorName} :
    address ∈ self.missing lib ↔ address ∈ lib.dstHashes self.map ∧ self.cache address = none := by
  simp [missing]

theorem missing_eq_nil :
    self.missing lib = [] ↔ ∀ address ∈ lib.dstHashes self.map, (self.cache address).isSome := by
  simp [missing, Option.isSome_iff_ne_none]

theorem length_missing_le : (self.missing lib).length ≤ (lib.infos self.map).length := by
  rw [← lib.length_dstHashes]
  exact List.length_filter_le _ _

/-- `required_addresses` is the concatenation of the missing records. -/
theorem requiredAddresses_eq :
    self.requiredAddresses lib = ((self.missing lib).map XorName.bytes).flatten := by
  unfold requiredAddresses missing Upstream.dstHashes
  induction lib.infos self.map with
  | nil => rfl
  | cons info rest ih =>
      cases hcache : self.cache info.dstHash <;> simp [hcache, ih]

theorem requiredAddresses_isEmpty :
    (self.requiredAddresses lib).isEmpty = true ↔ self.missing lib = [] := by
  rw [requiredAddresses_eq]
  cases hmissing : self.missing lib with
  | nil => simp
  | cons address rest =>
      have hlength : 0 < address.bytes.length := by
        rw [address.length_bytes]
        decide
      simp [List.ne_nil_of_length_pos hlength]

theorem length_requiredAddresses :
    (self.requiredAddresses lib).length = addressLen * (self.missing lib).length := by
  rw [requiredAddresses_eq]
  induction self.missing lib with
  | nil => rfl
  | cons address rest ih =>
      simp only [List.map_cons, List.flatten_cons, List.length_append, ih, address.length_bytes,
        List.length_cons, Nat.mul_succ, Nat.add_comm]

/-- Every info of the map is held or missing. -/
theorem chunkCount_eq : self.chunkCount lib = self.chunksHeld lib + (self.missing lib).length := by
  unfold chunkCount chunksHeld missing Upstream.dstHashes
  induction lib.infos self.map with
  | nil => rfl
  | cons info rest ih =>
      cases hcache : self.cache info.dstHash <;> simp [hcache, ih] <;> omega

/-- More chunks in the cache, more chunks held. -/
theorem chunksHeld_mono {cache : XorName → Option EncryptedChunk}
    (hgrows : ∀ address, (self.cache address).isSome → (cache address).isSome) :
    self.chunksHeld lib ≤ (self.withCache cache).chunksHeld lib := by
  refine List.Sublist.length_le (List.monotone_filter_right (lib.infos self.map) ?_)
  intro info hinfo
  exact hgrows info.dstHash hinfo

/-- A cached chunk of the current map is held. -/
theorem one_le_chunksHeld {address : XorName} (hmem : address ∈ lib.dstHashes self.map)
    (hcache : (self.cache address).isSome) : 1 ≤ self.chunksHeld lib := by
  obtain ⟨info, hinfo, rfl⟩ := List.mem_map.mp hmem
  exact List.length_pos_of_mem (List.mem_filter.mpr ⟨hinfo, hcache⟩)

theorem chunksHeld_le : self.chunksHeld lib ≤ self.chunkCount lib :=
  List.length_filter_le _ _

theorem isComplete_iff :
    self.isComplete lib = true ↔ self.rootResolved = true ∧ self.missing lib = [] := by
  rw [isComplete, Bool.and_eq_true, requiredAddresses_isEmpty]

theorem isComplete_eq_false_iff :
    self.isComplete lib = false ↔ self.rootResolved = false ∨ self.missing lib ≠ [] := by
  rw [← Bool.not_eq_true, isComplete_iff]
  cases self.rootResolved <;> simp

/-! ## One specification for each method -/

theorem begin_eq_ok {address bytes : Bytes} {start : Retrieval DataMap}
    (hbegin : begin lib address bytes = .ok start) :
    ∃ name chunk, address = name.bytes ∧ lib.verifyChunk name bytes = .ok chunk ∧
      lib.fromSlice bytes = .ok start.map ∧ start.rootResolved = !lib.isChild start.map ∧
      start.cache = fun _ => none := by
  unfold begin at hbegin
  split at hbegin
  · cases hbegin
  · rename_i name hname
    split at hbegin
    · cases hbegin
    · rename_i chunk hchunk
      split at hbegin
      · cases hbegin
      · rename_i map hmap
        cases hbegin
        exact ⟨name, chunk, parseAddress_eq_ok.mp hname, hchunk, hmap, rfl, rfl⟩

/-- A fresh retrieval misses every address of its map. -/
theorem missing_of_begin {address bytes : Bytes} {start : Retrieval DataMap}
    (hbegin : begin lib address bytes = .ok start) :
    start.missing lib = lib.dstHashes start.map := by
  obtain ⟨_, _, _, _, _, _, hcache⟩ := begin_eq_ok hbegin
  simp [missing, hcache]

/-- `supply` inserts a verified chunk under its address, or changes nothing. -/
theorem supply_cases (hverify : lib.VerifiesByHash) (address bytes : Bytes)
    (self : Retrieval DataMap) :
    (∃ name, address = name.bytes ∧ lib.blake3 bytes = name ∧
      self.supply lib address bytes =
        (.ok (), { self with cache := Function.update self.cache name (some ⟨bytes⟩) })) ∨
    ∃ e, self.supply lib address bytes = (.error e, self) := by
  unfold supply
  cases hname : parseAddress address with
  | error e => exact .inr ⟨e, rfl⟩
  | ok name =>
      cases hchunk : lib.verifyChunk name bytes with
      | error e =>
          simp only [hchunk]
          exact .inr ⟨_, rfl⟩
      | ok chunk =>
          obtain ⟨rfl, hhash⟩ := (hverify name bytes chunk).mp hchunk
          simp only [hchunk]
          exact .inl ⟨name, parseAddress_eq_ok.mp hname, hhash, rfl⟩

/-- Bytes that hash to the address they are supplied under are accepted. -/
theorem supply_of_hash (hverify : lib.VerifiesByHash) {name : XorName} {bytes : Bytes}
    (hhash : lib.blake3 bytes = name) (self : Retrieval DataMap) :
    self.supply lib name.bytes bytes =
      (.ok (), { self with cache := Function.update self.cache name (some ⟨bytes⟩) }) := by
  have hchunk := (hverify name bytes ⟨bytes⟩).mpr ⟨rfl, hhash⟩
  simp [supply, hchunk]

theorem advance_of_resolved (hresolved : self.rootResolved = true) :
    self.advance lib = (.ok (), self) := by
  simp [advance, hresolved]

theorem advance_of_missing (hmissing : self.missing lib ≠ []) :
    self.advance lib = (.ok (), self) := by
  have : (self.requiredAddresses lib).isEmpty = false := by
    rw [← Bool.not_eq_true, requiredAddresses_isEmpty]
    exact hmissing
  simp [advance, this]

/-- With nothing missing and the root unresolved, `advance` runs
`get_root_data_map` over the cache. -/
theorem advance_of_unresolved (hresolved : self.rootResolved = false)
    (hmissing : self.missing lib = []) :
    self.advance lib =
      match (lib.getRootDataMap self.map).run self.fetch with
      | .error e => (.error ⟨"failed to resolve the root data map: " ++ lib.display e⟩, self)
      | .ok root => (.ok (), { self with map := root, rootResolved := true }) := by
  simp [advance, hresolved, requiredAddresses_isEmpty.mpr hmissing]

/-- `advance` does nothing, fails without a change, or replaces the map by the
root it resolved. -/
theorem advance_cases (lib : Upstream DataMap) (self : Retrieval DataMap) :
    ((self.rootResolved = true ∨ self.missing lib ≠ []) ∧ self.advance lib = (.ok (), self)) ∨
    (self.rootResolved = false ∧ self.missing lib = [] ∧
      ∃ e, (lib.getRootDataMap self.map).run self.fetch = .error e ∧
        self.advance lib =
          (.error ⟨"failed to resolve the root data map: " ++ lib.display e⟩, self)) ∨
    (self.rootResolved = false ∧ self.missing lib = [] ∧
      ∃ root, (lib.getRootDataMap self.map).run self.fetch = .ok root ∧
        self.advance lib = (.ok (), { self with map := root, rootResolved := true })) := by
  cases hresolved : self.rootResolved with
  | true => exact .inl ⟨.inl rfl, advance_of_resolved hresolved⟩
  | false =>
      by_cases hmissing : self.missing lib = []
      · have hadvance := advance_of_unresolved hresolved hmissing
        cases hroot : (lib.getRootDataMap self.map).run self.fetch with
        | error e =>
            rw [hroot] at hadvance
            exact .inr (.inl ⟨rfl, hmissing, e, rfl, hadvance⟩)
        | ok root =>
            rw [hroot] at hadvance
            exact .inr (.inr ⟨rfl, hmissing, root, rfl, hadvance⟩)
      · exact .inl ⟨.inr hmissing, advance_of_missing hmissing⟩

theorem cache_advance : ((self.advance lib).2).cache = self.cache := by
  rcases advance_cases lib self with ⟨_, h⟩ | ⟨_, _, _, _, h⟩ | ⟨_, _, _, _, h⟩ <;> simp [h]

/-- The fetcher of `advance` gives out the cached contents. -/
theorem fetch_eq_ok {address : XorName} {content : Bytes} :
    self.fetch address = .ok content ↔ self.cache address = some ⟨content⟩ := by
  unfold fetch
  cases hcache : self.cache address with
  | none => simp
  | some chunk =>
      rcases chunk with ⟨bytes⟩
      simp

theorem finish_of_incomplete (hincomplete : self.isComplete lib = false) :
    self.finish lib = .error cannotFinish := by
  simp [finish, hincomplete]

/-- The chunks `finish` decrypts, when none is missing. -/
theorem mapM_chunkOf (self : Retrieval DataMap) {infos : List ChunkInfo}
    (hheld : ∀ info ∈ infos, (self.cache info.dstHash).isSome) :
    ∃ chunks, infos.mapM self.chunkOf = .ok chunks ∧
      infos.map (fun info => self.cache info.dstHash) = chunks.map some := by
  induction infos with
  | nil => exact ⟨[], rfl, rfl⟩
  | cons info rest ih =>
      rw [List.forall_mem_cons] at hheld
      obtain ⟨chunk, hchunk⟩ := Option.isSome_iff_exists.mp hheld.1
      obtain ⟨chunks, hmapM, hmap⟩ := ih hheld.2
      refine ⟨chunk :: chunks, ?_, by simp [hchunk, hmap]⟩
      simp [List.mapM_cons, chunkOf, hchunk, hmapM, bind, Except.bind, pure, Except.pure]

/-- A complete retrieval decrypts the cached chunks in the order of the infos. -/
theorem finish_of_complete (hcomplete : self.isComplete lib = true) :
    ∃ chunks, (lib.dstHashes self.map).map self.cache = chunks.map some ∧
      self.finish lib =
        match lib.decrypt self.map chunks with
        | .error e => .error ⟨"decryption failed: " ++ lib.display e⟩
        | .ok plaintext => .ok plaintext := by
  have hheld := missing_eq_nil.mp (isComplete_iff.mp hcomplete).2
  obtain ⟨chunks, hmapM, hmap⟩ :=
    mapM_chunkOf self (fun info hinfo => hheld _ (List.mem_map_of_mem hinfo))
  refine ⟨chunks, ?_, ?_⟩
  · rw [Upstream.dstHashes, List.map_map]
    exact hmap
  · simp [finish, hcomplete, hmapM]

/-! ## Calls in any order -/

/-- A call JavaScript may make on the object at any time. -/
inductive Call
  | supply (address bytes : Bytes)
  | advance
  deriving DecidableEq

/-- The result of one call and the state after it. -/
def call (lib : Upstream DataMap) (self : Retrieval DataMap) :
    Call → Except Error Unit × Retrieval DataMap
  | .supply address bytes => self.supply lib address bytes
  | .advance => self.advance lib

/-- The state after a sequence of calls, failing ones included. -/
def calls (lib : Upstream DataMap) (self : Retrieval DataMap) (sequence : List Call) :
    Retrieval DataMap :=
  sequence.foldl (fun current next => (current.call lib next).2) self

@[simp] theorem calls_nil : self.calls lib [] = self :=
  rfl

@[simp] theorem calls_cons (head : Call) (rest : List Call) :
    self.calls lib (head :: rest) = ((self.call lib head).2).calls lib rest :=
  rfl

theorem calls_append (first second : List Call) :
    self.calls lib (first ++ second) = (self.calls lib first).calls lib second := by
  simp [calls]

/-- **Invariant rule.**  What every call preserves, every sequence of calls
preserves. -/
theorem calls_invariant (Inv : Retrieval DataMap → Prop)
    (hcall : ∀ state next, Inv state → Inv (state.call lib next).2)
    (hstart : Inv self) (sequence : List Call) : Inv (self.calls lib sequence) := by
  induction sequence generalizing self with
  | nil => exact hstart
  | cons head rest ih => exact ih (hcall self head hstart)

end Retrieval

end AutonomiWebrtc
