import AutonomiWebrtc.Retrieve.Process

/-!
# What a run of `retrieve` can reach

The round loop is written for sixteen rounds, but only two of them can do any
work: the first fetches every chunk of the decoded map, and if that map is a
child map, `advance` replaces it by a root map, which the second round completes.
`Inv` says so for every state of every run:

* before the data map arrives nothing has happened;
* in a round, the pool works through the addresses that were missing at the
  `Opening` of the round, and what it has completed is cached (`Filled`);
* a run that resolved went through a flat map, or through the root of a child
  map whose wrapper chunks, and nothing else, were cached (`Resolved`);
* a run that threw has someone to `Blame`, and it is never one of the two guards
  of the loop.

All of it refers to the answers of `getChunk` through the trace only, so nothing
is assumed of them.
-/

namespace AutonomiWebrtc.Retrieve

variable {DataMap : Type}

/-! ## Traces -/

section Traces

variable {first second : List Action}

@[simp] theorem calls_append : calls (first ++ second) = calls first ++ calls second :=
  List.filterMap_append

@[simp] theorem calls_map_getChunk (addresses : List Bytes) :
    calls (addresses.map .getChunk) = addresses := by
  induction addresses with
  | nil => rfl
  | cons address rest ih => simp [calls] at ih ⊢

@[simp] theorem roundCount_append :
    roundCount (first ++ second) = roundCount first + roundCount second :=
  List.count_append

@[simp] theorem roundCount_map_getChunk (addresses : List Bytes) :
    roundCount (addresses.map .getChunk) = 0 :=
  List.count_eq_zero.mpr (by simp)

theorem splitAddresses_required {lib : Upstream DataMap} {retrieval : Retrieval DataMap} :
    splitAddresses (retrieval.requiredAddresses lib) =
      (retrieval.missing lib).map XorName.bytes := by
  rw [splitAddresses, Retrieval.requiredAddresses_eq]
  refine Octets.chunks_flatten (by decide) ?_
  intro record hrecord
  obtain ⟨name, _, rfl⟩ := List.mem_map.mp hrecord
  exact name.length_bytes

end Traces

/-! ## Where the maps and the cached chunks come from -/

section Provenance

variable (lib : Upstream DataMap) (address : Bytes) (trace : List Action)

/-- `begin` made `start` of an answer to the request of the data map. -/
def Begun (start : Retrieval DataMap) : Prop :=
  ∃ bytes, .answered address (.bytes bytes) ∈ trace ∧
    Retrieval.begin lib address bytes = .ok start

/-- Every cached chunk was answered for its address, and hashes to it. -/
def Held (cache : XorName → Option EncryptedChunk) : Prop :=
  ∀ key chunk, cache key = some chunk →
    lib.blake3 chunk.content = key ∧ .answered key.bytes (.bytes chunk.content) ∈ trace

/-- A child map whose wrapper chunks are cached, and no other chunk: the state in
which `advance` resolves the root. -/
structure Wrapped (start : Retrieval DataMap) (cache : XorName → Option EncryptedChunk) : Prop where
  begun : Begun lib address trace start
  unresolved : start.rootResolved = false
  held : Held lib trace cache
  keys : ∀ key, (cache key).isSome ↔ key ∈ lib.dstHashes start.map

/-- The retrieval right after `advance` resolved its root. -/
def rooted (root : DataMap) (cache : XorName → Option EncryptedChunk) : Retrieval DataMap :=
  ⟨root, true, cache⟩

/-- The retrieval at the top of a round that fetches something, the number of
rounds left after it, and the addresses asked for in earlier rounds. -/
inductive Opening : Retrieval DataMap → ℕ → List XorName → Prop
  | first {start : Retrieval DataMap} (hbegun : Begun lib address trace start) :
      Opening start 15 []
  | second {start : Retrieval DataMap} {cache : XorName → Option EncryptedChunk} {root : DataMap}
      (hwrapped : Wrapped lib address trace start cache)
      (hroot : (lib.getRootDataMap start.map).run (start.withCache cache).fetch = .ok root) :
      Opening (rooted root cache) 14 (lib.dstHashes start.map)

/-- A complete retrieval, and all the chunk addresses it asked for. -/
inductive Resolved (final : Retrieval DataMap) : List XorName → Prop
  | flat {start : Retrieval DataMap} (hbegun : Begun lib address trace start)
      (hresolved : start.rootResolved = true) (hmap : final.map = start.map)
      (hcomplete : final.isComplete lib = true) (hheld : Held lib trace final.cache) :
      Resolved final (lib.dstHashes start.map)
  | root {start : Retrieval DataMap} {cache : XorName → Option EncryptedChunk}
      (hwrapped : Wrapped lib address trace start cache)
      (hroot : (lib.getRootDataMap start.map).run (start.withCache cache).fetch = .ok final.map)
      (hcomplete : final.isComplete lib = true) (hheld : Held lib trace final.cache) :
      Resolved final (lib.dstHashes start.map ++ (rooted final.map cache).missing lib)

/-- Why a run threw: an answer of `getChunk`, or a method of the retrieval. -/
inductive Blame : Failure → Prop
  | getChunk {addr : Bytes} {message : String}
      (hanswer : .answered addr (.exception message) ∈ trace) (hcalled : addr ∈ calls trace) :
      Blame (.getChunk message)
  | noData (hanswer : .answered address .null ∈ trace) : Blame .noData
  | missingChunk {addr : Bytes} (hanswer : .answered addr .null ∈ trace)
      (hcalled : addr ∈ (calls trace).tail) : Blame (.missingChunk addr)
  | begin {bytes : Bytes} {error : Error} (hanswer : .answered address (.bytes bytes) ∈ trace)
      (hbegin : Retrieval.begin lib address bytes = .error error) : Blame (.begin error)
  | supply {addr bytes : Bytes} {error : Error} {retrieval : Retrieval DataMap}
      (hanswer : .answered addr (.bytes bytes) ∈ trace) (hcalled : addr ∈ (calls trace).tail)
      (hsupply : (retrieval.supply lib addr bytes).1 = .error error) : Blame (.supply error)
  | advance {start : Retrieval DataMap} {cache : XorName → Option EncryptedChunk}
      {cause : SelfEncryptionError} (hwrapped : Wrapped lib address trace start cache)
      (hroot : (lib.getRootDataMap start.map).run (start.withCache cache).fetch = .error cause) :
      Blame (.advance ⟨"failed to resolve the root data map: " ++ lib.display cause⟩)
  | finish {final : Retrieval DataMap} {asked : List XorName} {error : Error}
      (hresolved : Resolved lib address trace final asked)
      (hfinish : final.finish lib = .error error) : Blame (.finish error)

/-- The addresses of earlier rounds and those of the last pool. -/
inductive Asked : List XorName → List XorName → Prop
  | none : Asked [] []
  | first {start : Retrieval DataMap} (hbegun : Begun lib address trace start) :
      Asked [] (lib.dstHashes start.map)
  | second {start : Retrieval DataMap} {cache : XorName → Option EncryptedChunk} {root : DataMap}
      (hwrapped : Wrapped lib address trace start cache)
      (hroot : (lib.getRootDataMap start.map).run (start.withCache cache).fetch = .ok root) :
      Asked (lib.dstHashes start.map) ((rooted root cache).missing lib)

end Provenance

variable {lib : Upstream DataMap} {address : Bytes} {trace : List Action}

/-! ### All of this survives a longer trace -/

theorem Begun.append {start : Retrieval DataMap} (hbegun : Begun lib address trace start)
    (more : List Action) : Begun lib address (trace ++ more) start := by
  obtain ⟨bytes, hanswer, hbegin⟩ := hbegun
  exact ⟨bytes, List.mem_append_left _ hanswer, hbegin⟩

theorem Held.append {cache : XorName → Option EncryptedChunk} (hheld : Held lib trace cache)
    (more : List Action) : Held lib (trace ++ more) cache := by
  intro key chunk hchunk
  exact ⟨(hheld key chunk hchunk).1, List.mem_append_left _ (hheld key chunk hchunk).2⟩

theorem Wrapped.append {start : Retrieval DataMap} {cache : XorName → Option EncryptedChunk}
    (hwrapped : Wrapped lib address trace start cache) (more : List Action) :
    Wrapped lib address (trace ++ more) start cache :=
  ⟨hwrapped.begun.append more, hwrapped.unresolved, hwrapped.held.append more, hwrapped.keys⟩

theorem Opening.append {opening : Retrieval DataMap} {left : ℕ} {earlier : List XorName}
    (hopening : Opening lib address trace opening left earlier) (more : List Action) :
    Opening lib address (trace ++ more) opening left earlier := by
  cases hopening with
  | first hbegun => exact .first (hbegun.append more)
  | second hwrapped hroot => exact .second (hwrapped.append more) hroot

theorem Resolved.append {final : Retrieval DataMap} {asked : List XorName}
    (hresolved : Resolved lib address trace final asked) (more : List Action) :
    Resolved lib address (trace ++ more) final asked := by
  cases hresolved with
  | flat hbegun hflag hmap hcomplete hheld =>
      exact .flat (hbegun.append more) hflag hmap hcomplete (hheld.append more)
  | root hwrapped hroot hcomplete hheld =>
      exact .root (hwrapped.append more) hroot hcomplete (hheld.append more)

theorem mem_tail_calls_append {addr : Bytes} (hcalled : addr ∈ (calls trace).tail)
    (more : List Action) : addr ∈ (calls (trace ++ more)).tail := by
  cases htrace : calls trace with
  | nil => simp [htrace] at hcalled
  | cons head rest =>
      rw [htrace] at hcalled
      rw [calls_append, htrace]
      exact List.mem_append_left _ hcalled

theorem Blame.append {failure : Failure} (hblame : Blame lib address trace failure)
    (more : List Action) : Blame lib address (trace ++ more) failure := by
  cases hblame with
  | getChunk hanswer hcalled =>
      refine .getChunk (List.mem_append_left _ hanswer) ?_
      rw [calls_append]
      exact List.mem_append_left _ hcalled
  | noData hanswer => exact .noData (List.mem_append_left _ hanswer)
  | missingChunk hanswer hcalled =>
      exact .missingChunk (List.mem_append_left _ hanswer) (mem_tail_calls_append hcalled more)
  | begin hanswer hbegin => exact .begin (List.mem_append_left _ hanswer) hbegin
  | supply hanswer hcalled hsupply =>
      exact .supply (List.mem_append_left _ hanswer) (mem_tail_calls_append hcalled more) hsupply
  | advance hwrapped hroot => exact .advance (hwrapped.append more) hroot
  | finish hresolved hfinish => exact .finish (hresolved.append more) hfinish

theorem Asked.append {earlier items : List XorName} (hasked : Asked lib address trace earlier items)
    (more : List Action) : Asked lib address (trace ++ more) earlier items := by
  cases hasked with
  | none => exact .none
  | first hbegun => exact .first (hbegun.append more)
  | second hwrapped hroot => exact .second (hwrapped.append more) hroot

/-- The addresses of a round, seen from its opening. -/
theorem Opening.asked {opening : Retrieval DataMap} {left : ℕ} {earlier : List XorName}
    (hopening : Opening lib address trace opening left earlier) :
    Asked lib address trace earlier (opening.missing lib) := by
  cases hopening with
  | first hbegun =>
      obtain ⟨bytes, hanswer, hbegin⟩ := hbegun
      rw [Retrieval.missing_of_begin hbegin]
      exact .first ⟨bytes, hanswer, hbegin⟩
  | second hwrapped hroot => exact .second hwrapped hroot

/-! ## The pool of a round -/

/-- The pool is consistent, works through `items`, and together with the earlier
rounds accounts for every call of `getChunk`. -/
structure Fetches (address : Bytes) (earlier items : List XorName) (process : Process DataMap) :
    Prop where
  inv : process.pool.Inv
  items_eq : process.pool.items = items.map XorName.bytes
  calls_eq : calls process.trace =
    address :: (earlier ++ items.take process.pool.next).map XorName.bytes

section Fetches

variable {earlier items : List XorName} {process : Process DataMap}

/-- The trace may grow by anything but calls of `getChunk`. -/
theorem Fetches.log (hfetches : Fetches address earlier items process) {more : List Action}
    (hmore : calls more = []) : Fetches address earlier items (process.log more) :=
  ⟨hfetches.inv, hfetches.items_eq, by simp [Process.log, hfetches.calls_eq, hmore]⟩

/-- A busy worker waits for the answer to one of the addresses of the round. -/
theorem Fetches.busy (hfetches : Fetches address earlier items process) {worker index : ℕ}
    {addr : Bytes} (hbusy : process.pool.workers[worker]? = some (.busy index addr)) :
    ∃ name, items[index]? = some name ∧ addr = name.bytes ∧
      addr ∈ (calls process.trace).tail := by
  obtain ⟨hnext, hitem⟩ := hfetches.inv.busy worker index addr hbusy
  rw [hfetches.items_eq, List.getElem?_map] at hitem
  obtain ⟨name, hname, rfl⟩ := Option.map_eq_some_iff.mp hitem
  refine ⟨name, hname, rfl, ?_⟩
  rw [hfetches.calls_eq, List.tail_cons]
  apply List.mem_map_of_mem
  apply List.mem_append_right
  exact List.mem_of_getElem? (by rwa [List.getElem?_take_of_lt hnext])

theorem Fetches.reject (hfetches : Fetches address earlier items process) {worker index : ℕ}
    {addr : Bytes} (hbusy : process.pool.workers[worker]? = some (.busy index addr))
    (failure : Failure) : Fetches address earlier items (process.rejectTask worker failure) :=
  ⟨Pool.inv_reject hfetches.inv hbusy failure, hfetches.items_eq,
    by simpa [Process.rejectTask, Pool.reject, calls] using hfetches.calls_eq⟩

theorem Fetches.resume (hfetches : Fetches address earlier items process) {worker : ℕ}
    {pool : Pool Bytes Failure} {started : Option Bytes}
    (hresume : process.pool.resume worker = some (pool, started)) :
    Fetches address earlier items { process with
      pool := pool, trace := process.trace ++ started.toList.map .getChunk } := by
  have hitems : pool.items = process.pool.items := by
    obtain ⟨_, _, ⟨_, rfl⟩ | ⟨_, _, rfl⟩⟩ := Pool.resume_cases hresume <;> rfl
  refine ⟨Pool.inv_resume hfetches.inv hresume, hitems.trans hfetches.items_eq, ?_⟩
  have htake := Pool.take_next_resume hresume
  rw [hitems, hfetches.items_eq, ← List.map_take, ← List.map_take] at htake
  simp only [calls_append, calls_map_getChunk, hfetches.calls_eq, List.map_append, htake,
    List.cons_append, List.append_assoc]

end Fetches

/-- What the current retrieval has gained since the round opened: the completed
items of the pool, and nothing that was not asked for. -/
structure Filled (lib : Upstream DataMap) (trace : List Action)
    (opening current : Retrieval DataMap) (pool : Pool Bytes Failure) : Prop where
  map : current.map = opening.map
  resolved : current.rootResolved = opening.rootResolved
  held : Held lib trace current.cache
  kept : ∀ key, (opening.cache key).isSome → (current.cache key).isSome
  only : ∀ key, (current.cache key).isSome →
    (opening.cache key).isSome ∨ key ∈ opening.missing lib
  completed : ∀ index ∈ pool.completed, ∀ key, (opening.missing lib)[index]? = some key →
    (current.cache key).isSome

/-- A verified chunk for one of the addresses of the round is added. -/
theorem Filled.insert {opening current : Retrieval DataMap} {pool : Pool Bytes Failure}
    (hfilled : Filled lib trace opening current pool) (worker : ℕ) {index : ℕ} {name : XorName}
    {bytes : Bytes} (hname : (opening.missing lib)[index]? = some name)
    (hhash : lib.blake3 bytes = name) (hanswer : .answered name.bytes (.bytes bytes) ∈ trace) :
    Filled lib trace opening
      { current with cache := Function.update current.cache name (some ⟨bytes⟩) }
      (pool.complete worker index) := by
  have hgrows : ∀ key, (current.cache key).isSome →
      (Function.update current.cache name (some ⟨bytes⟩) key).isSome := by
    intro key hkey
    rw [Function.update_apply]
    split
    · rfl
    · exact hkey
  refine ⟨hfilled.map, hfilled.resolved, ?_, fun key hkey => hgrows key (hfilled.kept key hkey),
    ?_, ?_⟩
  · intro key chunk hchunk
    by_cases hkey : key = name
    · subst hkey
      simp only [Function.update_self, Option.some.injEq] at hchunk
      rw [← hchunk]
      exact ⟨hhash, hanswer⟩
    · simp only [Function.update_of_ne hkey] at hchunk
      exact hfilled.held key chunk hchunk
  · intro key hsome
    by_cases hkey : key = name
    · subst hkey
      exact .inr (List.mem_of_getElem? hname)
    · simp only [Function.update_of_ne hkey] at hsome
      exact hfilled.only key hsome
  · intro other hother key hkey
    rcases List.mem_append.mp hother with hother | hother
    · exact hgrows key (hfilled.completed other hother key hkey)
    · obtain rfl : other = index := by simpa using hother
      rw [hname] at hkey
      cases hkey
      simp

/-- Once the pool has resolved, nothing is missing. -/
theorem Filled.missing_eq_nil {opening current : Retrieval DataMap} {pool : Pool Bytes Failure}
    (hfilled : Filled lib trace opening current pool)
    (hdone : ∀ index, index < (opening.missing lib).length → index ∈ pool.completed) :
    current.missing lib = [] := by
  rw [Retrieval.missing_eq_nil, hfilled.map]
  intro key hkey
  cases hcache : opening.cache key with
  | some chunk => exact hfilled.kept key (by simp [hcache])
  | none =>
      obtain ⟨index, hindex⟩ :=
        List.mem_iff_getElem?.mp (Retrieval.mem_missing.mpr ⟨hkey, hcache⟩)
      have hlt := (List.getElem?_eq_some_iff.mp hindex).1
      exact hfilled.completed index (hdone index hlt) key hindex

end AutonomiWebrtc.Retrieve
