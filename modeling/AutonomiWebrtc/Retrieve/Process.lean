import AutonomiWebrtc.Retrieval.State
import AutonomiWebrtc.Retrieve.Pool
import AutonomiWebrtc.Library.Machine
import AutonomiWebrtc.Library.Octets

/-!
# The retrieval loop `retrieve`

`retrieve.js` drives a `Retrieval`: fetch the data map, then in rounds fetch what
`required_addresses` reports and `advance`.  It suspends in two places, at the
`await getChunk(address)` of the data map and at the `await
forEachConcurrently(…)` of a round; everything between two suspensions is one
step here.  The events are

* `dataMap`: the first `getChunk` call settles;
* `chunk w`: the `getChunk` call of worker `w` settles;
* `resume w`: worker `w` goes on after its task and takes the next index;
* `join`: the promise of the pool settles and the round loop goes on.

The answers of `getChunk` and the order of the events are arbitrary: a list of
events is one behaviour of the proxy and the network.  What the loop does is
recorded in `trace`.
-/

namespace AutonomiWebrtc.Retrieve

/-- What a call of `getChunk` settles with. -/
inductive Answer
  | bytes (bytes : Bytes)
  | null
  | exception (message : String)
  deriving DecidableEq

/-- Why `retrieve`, or a task of its pool, throws. -/
inductive Failure
  | getChunk (message : String)
  | noData
  | missingChunk (address : Bytes)
  | begin (error : Error)
  | supply (error : Error)
  | advance (error : Error)
  | finish (error : Error)
  /-- A method called on the object that `finally` has freed. -/
  | freed
  | stalled
  | unresolved
  deriving DecidableEq

/-- `MAX_ROUNDS`. -/
def maxRounds : ℕ := 16

/-- `DEFAULT_CONCURRENCY`, the limit at the call site. -/
def defaultConcurrency : ℕ := 1

/-- The message of the thrown `Error`. -/
def Failure.message : Failure → String
  | .getChunk message => message
  | .noData => "no data stored at that address"
  | .missingChunk address => "chunk " ++ hex address ++ " is missing from the network"
  | .begin error => error.message
  | .supply error => error.message
  | .advance error => error.message
  | .finish error => error.message
  | .freed => "null pointer passed to rust"
  | .stalled => "retrieval stalled: nothing left to fetch but not complete"
  | .unresolved => s!"data map did not resolve within {maxRounds} rounds"

/-- What `retrieve` does that can be seen from outside, and what it is answered. -/
inductive Action
  | getChunk (address : Bytes)
  | answered (address : Bytes) (answer : Answer)
  /-- Passed the `is_complete` check at the top of the round loop. -/
  | round
  | supply (address : Bytes)
  | onProgress (held total : ℕ)
  | taskFailed (failure : Failure)
  | free
  deriving DecidableEq

/-- Where `retrieve` is suspended. -/
inductive Phase
  | fetchingDataMap
  /-- Awaiting the pool of a round, with so many rounds left after it. -/
  | awaitingPool (roundsLeft : ℕ)
  | settled (outcome : Except Failure Bytes)
  deriving DecidableEq

/-- One call of `retrieve`. -/
structure Process (DataMap : Type) where
  phase : Phase
  retrieval : Option (Retrieval DataMap)
  pool : Pool Bytes Failure
  trace : List Action

/-- What the environment lets happen next. -/
inductive Event
  | dataMap (answer : Answer)
  | chunk (worker : ℕ) (answer : Answer)
  | resume (worker : ℕ)
  | join
  deriving DecidableEq

/-- `splitAddresses`: the 32-byte records of the flat encoding. -/
def splitAddresses (flat : Bytes) : List Bytes :=
  Octets.chunks addressLen flat

variable {DataMap : Type}

/-- Append to the trace. -/
def Process.log (process : Process DataMap) (actions : List Action) : Process DataMap :=
  { process with trace := process.trace ++ actions }

/-- Leave the `try` block: `finally` frees the object and the promise settles. -/
def Process.leave (process : Process DataMap) (outcome : Except Failure Bytes) :
    Process DataMap :=
  { process with phase := .settled outcome, trace := process.trace ++ [.free] }

/-- The task of a worker throws. -/
def Process.rejectTask (process : Process DataMap) (worker : ℕ) (failure : Failure) :
    Process DataMap :=
  { process with
    pool := process.pool.reject worker failure
    trace := process.trace ++ [.taskFailed failure] }

variable (lib : Upstream DataMap) (limit : ℕ) (address : Bytes)

/-- What follows the round loop. -/
def conclude (retrieval : Retrieval DataMap) (process : Process DataMap) : Process DataMap :=
  if !retrieval.isComplete lib then process.leave (.error .unresolved)
  else
    match retrieval.finish lib with
    | .error e => process.leave (.error (.finish e))
    | .ok plaintext => process.leave (.ok plaintext)

/-- The end of a round: `advance` and the stall check, then the `next` round. -/
def endRound (next : Retrieval DataMap → Process DataMap → Process DataMap)
    (retrieval : Retrieval DataMap) (process : Process DataMap) : Process DataMap :=
  match retrieval.advance lib with
  | (.error e, retrieval) =>
      { process with retrieval := some retrieval }.leave (.error (.advance e))
  | (.ok (), retrieval) =>
      if !retrieval.isComplete lib && (retrieval.requiredAddresses lib).length == 0 then
        { process with retrieval := some retrieval }.leave (.error .stalled)
      else next retrieval { process with retrieval := some retrieval }

/-- The round loop with so many rounds left, up to its next suspension. -/
def rounds : ℕ → Retrieval DataMap → Process DataMap → Process DataMap
  | 0, retrieval, process => conclude lib retrieval process
  | left + 1, retrieval, process =>
      if retrieval.isComplete lib then conclude lib retrieval process
      else
        let required := splitAddresses (retrieval.requiredAddresses lib)
        if required.length > 0 then
          { process with
            phase := .awaitingPool left
            pool := Pool.start required limit
            trace := process.trace ++
              .round :: (required.take (min limit required.length)).map .getChunk }
        else endRound lib (rounds left) retrieval (process.log [.round])

/-- The data map arrives: check, `begin`, enter the round loop. -/
def dataMapArrived (answer : Answer) (process : Process DataMap) : Process DataMap :=
  match answer with
  | .exception message => { process with phase := .settled (.error (.getChunk message)) }
  | .null => { process with phase := .settled (.error .noData) }
  | .bytes bytes =>
      match Retrieval.begin lib address bytes with
      | .error e => { process with phase := .settled (.error (.begin e)) }
      | .ok retrieval =>
          rounds lib limit maxRounds retrieval { process with retrieval := some retrieval }

/-- The rest of the task of a worker, once its `getChunk` call has settled. -/
def chunkArrived (worker index : ℕ) (addr : Bytes) (answer : Answer)
    (process : Process DataMap) : Process DataMap :=
  match answer with
  | .exception message => process.rejectTask worker (.getChunk message)
  | .null => process.rejectTask worker (.missingChunk addr)
  | .bytes bytes =>
      match process.phase, process.retrieval with
      | .awaitingPool _, some retrieval =>
          match retrieval.supply lib addr bytes with
          | (.error e, retrieval) =>
              ({ process with retrieval := some retrieval }.log [.supply addr]).rejectTask worker
                (.supply e)
          | (.ok (), retrieval) =>
              { process with
                retrieval := some retrieval
                pool := process.pool.complete worker index
                trace := process.trace ++ [.supply addr,
                  .onProgress (retrieval.chunksHeld lib) (retrieval.chunkCount lib)] }
      -- Once `retrieve` has settled the object is freed, but its siblings still run.
      | _, _ => (process.log [.supply addr]).rejectTask worker .freed

/-- `retrieve` at its first suspension. -/
def start : Process DataMap where
  phase := .fetchingDataMap
  retrieval := none
  pool := Pool.empty
  trace := [.getChunk address]

/-- One step of `retrieve`, or of a worker that outlives it. -/
def step (process : Process DataMap) : Event → Option (Process DataMap)
  | .dataMap answer =>
      match process.phase with
      | .fetchingDataMap =>
          some (dataMapArrived lib limit address answer (process.log [.answered address answer]))
      | _ => none
  | .chunk worker answer =>
      match process.pool.workers[worker]? with
      | some (.busy index addr) =>
          some (chunkArrived lib worker index addr answer (process.log [.answered addr answer]))
      | _ => none
  | .resume worker =>
      match process.pool.resume worker with
      | some (pool, started) =>
          some { process with
            pool := pool, trace := process.trace ++ started.toList.map .getChunk }
      | none => none
  | .join =>
      match process.phase, process.retrieval with
      | .awaitingPool left, some retrieval =>
          match process.pool.rejected with
          | some failure => some (process.leave (.error failure))
          | none =>
              if process.pool.resolved then
                some (endRound lib (rounds lib limit left) retrieval process)
              else none
      | _, _ => none

/-- The transitions, one by one: every way in which `step` gives a next state. -/
inductive Steps (process : Process DataMap) : Event → Process DataMap → Prop
  | dataMap (answer : Answer) (hphase : process.phase = .fetchingDataMap) :
      Steps process (.dataMap answer)
        (dataMapArrived lib limit address answer (process.log [.answered address answer]))
  | chunk {worker index : ℕ} {addr : Bytes} (answer : Answer)
      (hbusy : process.pool.workers[worker]? = some (.busy index addr)) :
      Steps process (.chunk worker answer)
        (chunkArrived lib worker index addr answer (process.log [.answered addr answer]))
  | resume {worker : ℕ} {pool : Pool Bytes Failure} {started : Option Bytes}
      (hresume : process.pool.resume worker = some (pool, started)) :
      Steps process (.resume worker)
        { process with pool := pool, trace := process.trace ++ started.toList.map .getChunk }
  | rejected {left : ℕ} {retrieval : Retrieval DataMap} {failure : Failure}
      (hphase : process.phase = .awaitingPool left)
      (hretrieval : process.retrieval = some retrieval)
      (hrejected : process.pool.rejected = some failure) :
      Steps process .join (process.leave (.error failure))
  | joined {left : ℕ} {retrieval : Retrieval DataMap}
      (hphase : process.phase = .awaitingPool left)
      (hretrieval : process.retrieval = some retrieval)
      (hrejected : process.pool.rejected = none) (hresolved : process.pool.resolved = true) :
      Steps process .join (endRound lib (rounds lib limit left) retrieval process)

/-- **Inversion.**  A step is one of the transitions. -/
theorem steps_of_step {lib : Upstream DataMap} {limit : ℕ} {address : Bytes}
    {process next : Process DataMap} {event : Event}
    (hstep : step lib limit address process event = some next) :
    Steps lib limit address process event next := by
  cases event with
  | dataMap answer =>
      simp only [step] at hstep
      split at hstep
      · rename_i hphase
        cases hstep
        exact .dataMap answer hphase
      · cases hstep
  | chunk worker answer =>
      simp only [step] at hstep
      split at hstep
      · rename_i index addr hbusy
        cases hstep
        exact .chunk answer hbusy
      · cases hstep
  | resume worker =>
      simp only [step] at hstep
      split at hstep
      · rename_i pool started hresume
        cases hstep
        exact .resume hresume
      · cases hstep
  | join =>
      simp only [step] at hstep
      split at hstep
      · rename_i left retrieval hphase hretrieval
        split at hstep
        · rename_i failure hrejected
          cases hstep
          exact .rejected hphase hretrieval hrejected
        · rename_i hrejected
          obtain ⟨hresolved, ⟨⟩⟩ := Option.ite_none_right_eq_some.mp hstep
          exact .joined hphase hretrieval hrejected hresolved
      · cases hstep

/-! ## Between two suspensions -/

/-- What the loop can have done when it next suspends: it has left the `try` block,
or it awaits the pool of a round.  Before that come the rounds without a fetch. -/
inductive Stretch (process : Process DataMap) : Process DataMap → Prop
  | left (idle : ℕ) (retrieval : Option (Retrieval DataMap)) (outcome : Except Failure Bytes) :
      Stretch process { process with
        phase := .settled outcome
        retrieval := retrieval
        trace := process.trace ++ List.replicate idle .round ++ [.free] }
  | fetching (idle left : ℕ) (retrieval : Retrieval DataMap) {required : List Bytes}
      (hrequired : splitAddresses (retrieval.requiredAddresses lib) = required)
      (hlength : 0 < required.length) :
      Stretch process { process with
        phase := .awaitingPool left
        retrieval := some retrieval
        pool := Pool.start required limit
        trace := process.trace ++ List.replicate idle .round ++
          .round :: (required.take (min limit required.length)).map .getChunk }

section Stretch

variable {lib limit} {process next : Process DataMap}

/-- A round without a fetch in front of a stretch. -/
theorem Stretch.of_log (hstretch : Stretch lib limit (process.log [.round]) next) :
    Stretch lib limit process next := by
  have hreplicate : ∀ idle : ℕ, process.trace ++ [.round] ++ List.replicate idle Action.round =
      process.trace ++ List.replicate (idle + 1) .round := by
    intro idle
    rw [List.append_assoc, List.replicate_succ, List.singleton_append]
  cases hstretch with
  | left idle retrieval outcome =>
      have hleft : Stretch lib limit process _ := .left (idle + 1) retrieval outcome
      rw [← hreplicate idle] at hleft
      exact hleft
  | fetching idle left retrieval hrequired hlength =>
      have hfetching : Stretch lib limit process _ :=
        .fetching (idle + 1) left retrieval hrequired hlength
      rw [← hreplicate idle] at hfetching
      exact hfetching

/-- The object may change before a stretch. -/
theorem Stretch.of_retrieval {retrieval : Option (Retrieval DataMap)}
    (hstretch : Stretch lib limit { process with retrieval := retrieval } next) :
    Stretch lib limit process next := by
  cases hstretch with
  | left idle retrieval outcome => exact .left idle retrieval outcome
  | fetching idle left retrieval hrequired hlength =>
      exact .fetching idle left retrieval hrequired hlength

theorem stretch_leave (process : Process DataMap) (outcome : Except Failure Bytes) :
    Stretch lib limit process (process.leave outcome) := by
  have hleft : Stretch lib limit process _ := .left 0 process.retrieval outcome
  simpa [Process.leave] using hleft

theorem stretch_conclude (retrieval : Retrieval DataMap) (process : Process DataMap) :
    Stretch lib limit process (conclude lib retrieval process) := by
  unfold conclude
  split
  · exact stretch_leave process _
  · split <;> exact stretch_leave process _

theorem stretch_endRound {continuation : Retrieval DataMap → Process DataMap → Process DataMap}
    (hnext : ∀ retrieval (process : Process DataMap), process.retrieval = some retrieval →
      Stretch lib limit process (continuation retrieval process))
    (retrieval : Retrieval DataMap) (process : Process DataMap) :
    Stretch lib limit process (endRound lib continuation retrieval process) := by
  unfold endRound
  split
  · exact (stretch_leave { process with retrieval := some _ } _).of_retrieval
  · split
    · exact (stretch_leave { process with retrieval := some _ } _).of_retrieval
    · exact (hnext _ { process with retrieval := some _ } rfl).of_retrieval

/-- The round loop runs a stretch. -/
theorem stretch_rounds (left : ℕ) (retrieval : Retrieval DataMap) (process : Process DataMap)
    (hretrieval : process.retrieval = some retrieval) :
    Stretch lib limit process (rounds lib limit left retrieval process) := by
  induction left generalizing retrieval process with
  | zero => exact stretch_conclude retrieval process
  | succ left ih =>
      rw [rounds]
      split
      · exact stretch_conclude retrieval process
      · simp only
        split
        · rename_i hlength
          have hfetching : Stretch lib limit process _ := .fetching 0 left retrieval rfl hlength
          rw [← hretrieval] at hfetching
          simpa using hfetching
        · exact (stretch_endRound ih retrieval (process.log [.round])).of_log

/-- The end of an awaited round begins a stretch. -/
theorem stretch_joined (left : ℕ) (retrieval : Retrieval DataMap) (process : Process DataMap) :
    Stretch lib limit process (endRound lib (rounds lib limit left) retrieval process) :=
  stretch_endRound (stretch_rounds left) retrieval process

end Stretch

/-- A run of `retrieve` under a behaviour of the environment. -/
def run (events : List Event) : Option (Process DataMap) :=
  Machine.run (step lib limit address) (start address) events

/-! ## Reading a trace -/

/-- The addresses passed to `getChunk`, in order. -/
def calls (trace : List Action) : List Bytes :=
  trace.filterMap fun
    | .getChunk address => some address
    | _ => none

/-- How often the round loop got past its `is_complete` check. -/
def roundCount (trace : List Action) : ℕ :=
  trace.count .round

/-- The byte strings `getChunk` answered with. -/
def seen (trace : List Action) : List Bytes :=
  trace.filterMap fun
    | .answered _ (.bytes bytes) => some bytes
    | _ => none

end AutonomiWebrtc.Retrieve
