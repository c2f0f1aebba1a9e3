import AutonomiWebrtc.Basic

/-!
# The buffering reader `exactReader`

A libp2p stream delivers pieces of any size, empty ones included.  `exactReader`
keeps the pieces in a queue and hands out exactly the number of bytes it is asked
for.  Both of its loops are here: the one that pulls pieces from the iterator
until enough bytes are queued (`fill`), and the one that copies them out of the
queue (`copy`).

A call of `read` that runs out of delivered pieces is suspended at `await
iterator.next()`.  All it has done until then is to move pieces into the queue,
so going on with it once more pieces are there is the same as entering the loop
again: `pending` is the answer for now, and the reader is ready for the next try.

What a reader stands for is the plain byte string it has not handed out yet
(`unread`); the two lemmas `read_of_le` and `read_of_lt` give `read` in these terms
alone.
-/

namespace AutonomiWebrtc.Wire

/-- What the iterator of a stream does after the pieces delivered so far. -/
inductive Ending
  /-- Waits for more. -/
  | waiting
  /-- Reports `done`. -/
  | done
  /-- Throws. -/
  | reset (message : String)
  deriving DecidableEq

/-- What a call of `read` has come to. -/
inductive ReadResult
  | resolved (out : Bytes)
  | rejected (message : String)
  | pending
  deriving DecidableEq

/-- The closure of `exactReader`, together with the stream it reads from. -/
structure Reader where
  queue : List Bytes
  queued : ℕ
  /-- Delivered pieces that the iterator has not handed out yet. -/
  incoming : List Bytes
  ending : Ending
  deriving DecidableEq

namespace Reader

/-! ## The two loops -/

/-- `while (queued < wanted)`: pull pieces from the iterator into the queue. -/
def fill (wanted : ℕ) (queue : List Bytes) (queued : ℕ) : List Bytes → List Bytes × ℕ × List Bytes
  | [] => (queue, queued, [])
  | piece :: incoming =>
      if queued < wanted then fill wanted (queue ++ [piece]) (queued + piece.length) incoming
      else (queue, queued, piece :: incoming)

/-- `while (filled < wanted)`: copy the missing bytes out of the queue.  `none` is
the `TypeError` of reading the length of `queue[0]` in an empty queue. -/
def copy : ℕ → List Bytes → Option (Bytes × List Bytes)
  | 0, queue => some ([], queue)
  | _ + 1, [] => none
  | missing + 1, piece :: rest =>
      if piece.length ≤ missing + 1 then
        (copy (missing + 1 - piece.length) rest).map fun (out, queue) => (piece ++ out, queue)
      else some (piece.take (missing + 1), piece.drop (missing + 1) :: rest)

/-- `read(wanted)`, as far as the delivered pieces allow. -/
def read (wanted : ℕ) (reader : Reader) : ReadResult × Reader :=
  let (queue, queued, incoming) := fill wanted reader.queue reader.queued reader.incoming
  let filled : Reader := { reader with queue := queue, queued := queued, incoming := incoming }
  if queued < wanted then
    match reader.ending with
    | .waiting => (.pending, filled)
    | .done => (.rejected s!"stream ended after {queued} of {wanted} bytes", filled)
    | .reset message => (.rejected message, filled)
  else
    match copy wanted queue with
    | none => (.rejected "Cannot read properties of undefined (reading 'length')", filled)
    | some (out, queue) =>
        (.resolved out, { filled with queue := queue, queued := queued - wanted })

/-- A reader on a fresh stream. -/
def start : Reader :=
  ⟨[], 0, [], .waiting⟩

/-- The stream delivers one more piece. -/
def deliver (reader : Reader) (piece : Bytes) : Reader :=
  { reader with incoming := reader.incoming ++ [piece] }

/-! ## The byte string behind the pieces -/

/-- `queued` counts the queued bytes. -/
def Counted (reader : Reader) : Prop :=
  reader.queued = reader.queue.flatten.length

/-- The bytes that were delivered and not handed out. -/
def unread (reader : Reader) : Bytes :=
  reader.queue.flatten ++ reader.incoming.flatten

theorem counted_start : start.Counted :=
  rfl

theorem unread_deliver (reader : Reader) (piece : Bytes) :
    (reader.deliver piece).unread = reader.unread ++ piece := by
  simp [unread, deliver]

/-- What the first loop preserves, and when it stops. -/
theorem fill_spec (wanted : ℕ) (queue : List Bytes) (queued : ℕ) (incoming : List Bytes)
    (hcounted : queued = queue.flatten.length) :
    ∃ queue' queued' incoming', fill wanted queue queued incoming = (queue', queued', incoming') ∧
      queued' = queue'.flatten.length ∧
      queue'.flatten ++ incoming'.flatten = queue.flatten ++ incoming.flatten ∧
      (queued' < wanted → incoming' = []) := by
  induction incoming generalizing queue queued with
  | nil => exact ⟨queue, queued, [], rfl, hcounted, rfl, fun _ => rfl⟩
  | cons piece incoming ih =>
      unfold fill
      split
      · obtain ⟨queue', queued', incoming', hfill, hcounted', hbytes, hstop⟩ :=
          ih (queue ++ [piece]) (queued + piece.length) (by simp [hcounted])
        refine ⟨queue', queued', incoming', hfill, hcounted', ?_, hstop⟩
        rw [hbytes]
        simp
      · rename_i henough
        exact ⟨queue, queued, piece :: incoming, rfl, hcounted, rfl, fun h => absurd h henough⟩

/-- The second loop takes the bytes off the front of the queue; it never looks into
an empty one. -/
theorem copy_spec (wanted : ℕ) (queue : List Bytes) (hle : wanted ≤ queue.flatten.length) :
    ∃ rest, copy wanted queue = some (queue.flatten.take wanted, rest) ∧
      rest.flatten = queue.flatten.drop wanted := by
  induction queue generalizing wanted with
  | nil =>
      obtain rfl : wanted = 0 := by simpa using hle
      exact ⟨[], rfl, rfl⟩
  | cons piece queue ih =>
      cases wanted with
      | zero => exact ⟨piece :: queue, rfl, rfl⟩
      | succ missing =>
          rw [List.flatten_cons, List.length_append] at hle
          unfold copy
          split
          · -- The whole piece is copied and shifted off the queue.
            rename_i hpiece
            obtain ⟨rest, hcopy, hrest⟩ := ih (missing + 1 - piece.length) (by omega)
            refine ⟨rest, ?_, ?_⟩
            · rw [hcopy, List.flatten_cons, List.take_append, List.take_of_length_le hpiece]
              rfl
            · rw [hrest, List.flatten_cons, List.drop_append, List.drop_of_length_le hpiece,
                List.nil_append]
          · rename_i hpiece
            have hshort : missing + 1 ≤ piece.length := by omega
            refine ⟨piece.drop (missing + 1) :: queue, ?_, ?_⟩
            · rw [List.flatten_cons, List.take_append_of_le_length hshort]
            · rw [List.flatten_cons, List.flatten_cons, List.drop_append_of_le_length hshort]

/-! ## `read` in terms of the byte string -/

/-- Enough bytes: `read` resolves with the next ones. -/
theorem read_of_le {reader : Reader} (hcounted : reader.Counted) {wanted : ℕ}
    (hle : wanted ≤ reader.unread.length) :
    ∃ next, reader.read wanted = (.resolved (reader.unread.take wanted), next) ∧
      next.Counted ∧ next.unread = reader.unread.drop wanted ∧ next.ending = reader.ending := by
  obtain ⟨queue, queued, incoming, hfill, hqueued, hbytes, hstop⟩ :=
    fill_spec wanted reader.queue reader.queued reader.incoming hcounted
  have henough : ¬ queued < wanted := by
    intro hlt
    rw [hstop hlt, List.flatten_nil, List.append_nil] at hbytes
    unfold unread at hle
    rw [← hbytes] at hle
    omega
  have hwanted : wanted ≤ queue.flatten.length := by omega
  obtain ⟨rest, hcopy, hrest⟩ := copy_spec wanted queue hwanted
  refine ⟨{ reader with queue := rest, queued := queued - wanted, incoming := incoming },
    ?_, ?_, ?_, rfl⟩
  · simp only [read, hfill, henough, if_false, hcopy]
    rw [unread, ← hbytes, List.take_append_of_le_length hwanted]
  · show queued - wanted = rest.flatten.length
    rw [hrest, List.length_drop, hqueued]
  · show rest.flatten ++ incoming.flatten = _
    rw [unread, ← hbytes, List.drop_append_of_le_length hwanted, hrest]

/-- What `read` comes to when the stream does not hold enough bytes. -/
def shortResult (ending : Ending) (available wanted : ℕ) : ReadResult :=
  match ending with
  | .waiting => .pending
  | .done => .rejected s!"stream ended after {available} of {wanted} bytes"
  | .reset message => .rejected message

/-- Not enough bytes: `read` waits or rejects, and consumes nothing. -/
theorem read_of_lt {reader : Reader} (hcounted : reader.Counted) {wanted : ℕ}
    (hlt : reader.unread.length < wanted) :
    ∃ next, reader.read wanted =
        (shortResult reader.ending reader.unread.length wanted, next) ∧
      next.Counted ∧ next.unread = reader.unread ∧ next.ending = reader.ending := by
  obtain ⟨queue, queued, incoming, hfill, hqueued, hbytes, hstop⟩ :=
    fill_spec wanted reader.queue reader.queued reader.incoming hcounted
  have hlength : queue.flatten.length ≤ reader.unread.length := by
    unfold unread
    rw [← hbytes, List.length_append]
    omega
  have hshort : queued < wanted := by omega
  have hcount : queued = reader.unread.length := by
    unfold unread
    rw [← hbytes, hstop hshort, List.flatten_nil, List.append_nil, hqueued]
  refine ⟨{ reader with queue := queue, queued := queued, incoming := incoming },
    ?_, hqueued, hbytes, rfl⟩
  simp only [read, hfill, hshort, if_true, shortResult, ← hcount]
  cases reader.ending <;> rfl

end Reader

end AutonomiWebrtc.Wire
