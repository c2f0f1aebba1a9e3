import AutonomiWebrtc.Basic
import AutonomiWebrtc.Library.Octets

/-!
# The fetch protocol, proxy side

One request of 32 bytes and one response for each stream.  `write_found` and
`write_status` are sequences of operations on the stream, and a stream can break
between any two of them, so they are given as lists of operations; what a
completed list has put on the wire is `written`.

`respond` is the middle of `handle_request`: what it writes for the result of the
lookup, or the error it returns before it has written anything.
-/

namespace AutonomiWebrtc.Wire

/-- `STATUS_OK`. -/
def statusOk : UInt8 := 0x00

/-- `STATUS_NOT_FOUND`. -/
def statusNotFound : UInt8 := 0x01

/-- `STATUS_REFUSED`. -/
def statusRefused : UInt8 := 0x02

/-- `MAX_MESSAGE_PAYLOAD`. -/
def maxMessagePayload : ℕ := 16 * 1024 - 64

/-- `MAX_RESPONSE_LEN`, the same constant in `protocol.rs` and `fetch-client.js`. -/
def maxResponseLen : ℕ := 8 * 1024 * 1024

/-- An operation of the proxy on its stream. -/
inductive StreamOp
  | write (bytes : Bytes)
  | flush
  | close
  deriving DecidableEq

/-- `write_found`: the operations in order, or the error returned instead. -/
def writeFound (data : Bytes) : Except String (List StreamOp) :=
  if 2 ^ 32 ≤ data.length then .error "chunk exceeds u32 length"
  else if maxResponseLen < data.length then .error "chunk exceeds maximum response length"
  else
    .ok ([.write [statusOk], .write (Octets.toBeBytes data.length)] ++
      (Octets.chunks maxMessagePayload data).flatMap (fun piece => [.write piece, .flush]) ++
      [.close])

/-- `write_status`. -/
def writeStatus (status : UInt8) : List StreamOp :=
  [.write [status], .close]

/-- What `handle_request` does with the result of `source.get`. -/
def respond (found : Except String (Option Bytes)) : Except String (List StreamOp) :=
  match found with
  | .error e => .error e
  | .ok (some bytes) => writeFound bytes
  | .ok none => .ok (writeStatus statusNotFound)

/-! ## What is put on the wire -/

/-- The bytes that a list of operations writes. -/
def written (ops : List StreamOp) : Bytes :=
  ops.flatMap fun
    | .write bytes => bytes
    | .flush => []
    | .close => []

@[simp] theorem written_nil : written [] = [] :=
  rfl

theorem written_cons (op : StreamOp) (ops : List StreamOp) :
    written (op :: ops) = written [op] ++ written ops := by
  simp [written]

/-- The response of a chunk: status, length, data. -/
def frame (data : Bytes) : Bytes :=
  statusOk :: (Octets.toBeBytes data.length ++ data)

/-- However many messages it takes, `write_found` writes one frame. -/
theorem written_writeFound {data : Bytes} {ops : List StreamOp} (hops : writeFound data = .ok ops) :
    data.length ≤ maxResponseLen ∧ written ops = frame data := by
  unfold writeFound at hops
  split at hops
  · cases hops
  · split at hops
    · cases hops
    · rename_i hlength
      cases hops
      refine ⟨by omega, ?_⟩
      have hpieces : ∀ pieces : List Bytes,
          (pieces.flatMap fun piece => [StreamOp.write piece, .flush]).flatMap (fun
            | .write bytes => bytes
            | .flush => []
            | .close => []) = pieces.flatten := by
        intro pieces
        induction pieces with
        | nil => rfl
        | cons piece rest ih => simp [ih]
      simp only [written, List.flatMap_append, hpieces, Octets.flatten_chunks]
      simp [frame]

theorem writeFound_of_le {data : Bytes} (hlength : data.length ≤ maxResponseLen) :
    ∃ ops, writeFound data = .ok ops := by
  have hlimit : maxResponseLen < 2 ^ 32 := by decide
  unfold writeFound
  rw [if_neg (by omega), if_neg (by omega)]
  exact ⟨_, rfl⟩

/-- Everything `respond` can put on the wire. -/
theorem respond_cases {found : Except String (Option Bytes)} {ops : List StreamOp}
    (hops : respond found = .ok ops) :
    (∃ data, found = .ok (some data) ∧ data.length ≤ maxResponseLen ∧
      written ops = frame data) ∨
    (found = .ok none ∧ written ops = [statusNotFound]) := by
  unfold respond at hops
  split at hops
  · cases hops
  · rename_i data
    exact .inl ⟨data, rfl, written_writeFound hops⟩
  · cases hops
    exact .inr ⟨rfl, rfl⟩

end AutonomiWebrtc.Wire
