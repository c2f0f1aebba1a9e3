import Mathlib.Algebra.Ring.Nat
import AutonomiWebrtc.Library.Machine
import AutonomiWebrtc.Wire.Reader

/-!
# `exactReader` as a plain byte stream

The abstract stream is one byte string, read from the front: `read(n)` takes the next
`n` bytes, or fails and takes nothing when there are fewer (`Plain.reads`).  A reader
on a real stream knows neither the whole string nor when it will arrive: pieces are
delivered before, between and during the calls, and the end is one more event.
`Session` interleaves all of this in any order, and the refinement says that the
interleaving cannot be seen: the results are those of the abstract stream on the
concatenation of the pieces.

The copy loop is also stated iteration by iteration (`Copying`), as the source has
it, to say that it ends and never looks into an empty queue.
-/

namespace AutonomiWebrtc.Wire

/-! ## The copy loop, one iteration at a time -/

/-- The queue and the filled part of `out`. -/
structure Copying where
  queue : List Bytes
  out : Bytes
  deriving DecidableEq

namespace Copying

/-- The body of `while (filled < wanted)`; `none` is the `TypeError` of reading the
length of `queue[0]` in an empty queue. -/
def iterate (wanted : ℕ) (state : Copying) : Option Copying :=
  match state.queue with
  | [] => none
  | piece :: rest =>
      let taken := min piece.length (wanted - state.out.length)
      if taken = piece.length then some ⟨rest, state.out ++ piece.take taken⟩
      else some ⟨piece.drop taken :: rest, state.out ++ piece.take taken⟩

/-- At most so many iterations of the loop. -/
def loop (wanted : ℕ) : ℕ → Copying → Option Copying
  | 0, state => some state
  | count + 1, state =>
      if state.out.length < wanted then
        match iterate wanted state with
        | none => none
        | some next => loop wanted count next
      else some state

/-- A loop whose test has failed stays where it is. -/
theorem loop_of_full {wanted : ℕ} {state : Copying} (hfull : ¬ state.out.length < wanted)
    (count : ℕ) : loop wanted count state = some state := by
  cases count with
  | zero => rfl
  | succ count => simp [loop, hfull]

/-- A piece that is wanted whole is copied and shifted off the queue, also an empty
one. -/
theorem iterate_of_le {wanted : ℕ} {piece out : Bytes} {queue : List Bytes}
    (hle : piece.length ≤ wanted - out.length) :
    iterate wanted ⟨piece :: queue, out⟩ = some ⟨queue, out ++ piece⟩ := by
  simp only [iterate, Nat.min_eq_left hle, if_true, List.take_length]

/-- A piece that holds more than is wanted is cut. -/
theorem iterate_of_lt {wanted : ℕ} {piece out : Bytes} {queue : List Bytes}
    (hlt : wanted - out.length < piece.length) :
    iterate wanted ⟨piece :: queue, out⟩ =
      some ⟨piece.drop (wanted - out.length) :: queue,
        out ++ piece.take (wanted - out.length)⟩ := by
  simp only [iterate, Nat.min_eq_right (Nat.le_of_lt hlt)]
  exact if_neg (Nat.ne_of_lt hlt)

/-- **The copy loop ends.**  With enough bytes queued it stops by itself, after at
most one iteration for each piece, and it has computed what `copy` computes.  An
empty piece fills nothing, but leaves the queue. -/
theorem loop_eq_copy {missing : ℕ} {queue : List Bytes} (out : Bytes)
    (hle : missing ≤ queue.flatten.length) :
    ∃ bytes rest, Reader.copy missing queue = some (bytes, rest) ∧ bytes.length = missing ∧
      ∀ count, queue.length ≤ count →
        loop (out.length + missing) count ⟨queue, out⟩ = some ⟨rest, out ++ bytes⟩ := by
  induction queue generalizing missing out with
  | nil =>
      obtain rfl : missing = 0 := by simpa using hle
      refine ⟨[], [], rfl, rfl, fun count _ => ?_⟩
      rw [loop_of_full (by simp), List.append_nil]
  | cons piece queue ih =>
      rw [List.flatten_cons, List.length_append] at hle
      by_cases hzero : missing = 0
      · subst hzero
        refine ⟨[], piece :: queue, by simp [Reader.copy], rfl, fun count _ => ?_⟩
        rw [loop_of_full (by simp), List.append_nil]
      · obtain ⟨needed, rfl⟩ := Nat.exists_eq_add_one_of_ne_zero hzero
        have htest : out.length < out.length + (needed + 1) := by omega
        by_cases hpiece : piece.length ≤ needed + 1
        · -- The whole piece is copied and shifted off the queue.
          obtain ⟨bytes, rest, hcopy, hlength, hloop⟩ :=
            @ih (needed + 1 - piece.length) (out ++ piece) (by omega)
          refine ⟨piece ++ bytes, rest, ?_, ?_, fun count hcount => ?_⟩
          · simp [Reader.copy, hpiece, hcopy]
          · rw [List.length_append, hlength]
            omega
          · simp only [List.length_cons] at hcount
            obtain ⟨fewer, rfl⟩ : ∃ fewer, count = fewer + 1 := ⟨count - 1, by omega⟩
            have hrest := hloop fewer (by omega)
            have hwanted : (out ++ piece).length + (needed + 1 - piece.length) =
                out.length + (needed + 1) := by
              rw [List.length_append]
              omega
            rw [hwanted, List.append_assoc] at hrest
            simp only [loop, htest, if_true]
            rw [iterate_of_le (by omega)]
            exact hrest
        · -- The piece holds enough: the loop ends with its front.
          refine ⟨piece.take (needed + 1), piece.drop (needed + 1) :: queue, ?_, ?_,
            fun count hcount => ?_⟩
          · simp [Reader.copy, hpiece]
          · rw [List.length_take]
            omega
          · simp only [List.length_cons] at hcount
            obtain ⟨fewer, rfl⟩ : ∃ fewer, count = fewer + 1 := ⟨count - 1, by omega⟩
            simp only [loop, htest, if_true]
            rw [iterate_of_lt (by omega), Nat.add_sub_cancel_left]
            refine loop_of_full ?_ fewer
            simp only [List.length_append, List.length_take]
            omega

end Copying

/-! ## The abstract stream -/

/-- One read of a plain byte string: the bytes it gives, if there are enough, and
what is left. -/
def Plain.read (bytes : Bytes) (wanted : ℕ) : Option Bytes × Bytes :=
  if wanted ≤ bytes.length then (some (bytes.take wanted), bytes.drop wanted) else (none, bytes)

/-- What is left of a byte string after some reads. -/
def Plain.rest (bytes : Bytes) (calls : List ℕ) : Bytes :=
  calls.foldl (fun left wanted => (Plain.read left wanted).2) bytes

/-- The results of reading from a byte string again and again. -/
def Plain.reads (bytes : Bytes) : List ℕ → List (Option Bytes)
  | [] => []
  | wanted :: calls =>
      (Plain.read bytes wanted).1 :: Plain.reads (Plain.read bytes wanted).2 calls

theorem Plain.rest_concat (bytes : Bytes) (calls : List ℕ) (wanted : ℕ) :
    Plain.rest bytes (calls ++ [wanted]) = (Plain.read (Plain.rest bytes calls) wanted).2 := by
  simp [Plain.rest]

theorem Plain.reads_concat (bytes : Bytes) (calls : List ℕ) (wanted : ℕ) :
    Plain.reads bytes (calls ++ [wanted]) =
      Plain.reads bytes calls ++ [(Plain.read (Plain.rest bytes calls) wanted).1] := by
  induction calls generalizing bytes with
  | nil => rfl
  | cons first calls ih => exact congrArg _ (ih _)

/-! ## Calls and deliveries in any order -/

/-- One reader in use. -/
structure Session where
  reader : Reader
  /-- The call of `read` that is being awaited. -/
  awaited : Option ℕ
  /-- The pieces delivered so far, a history. -/
  delivered : List Bytes
  /-- The calls that have settled, with their results, a history. -/
  results : List (ℕ × ReadResult)
  deriving DecidableEq

namespace Session

/-- What happens next. -/
inductive Event
  /-- `read(wanted)` is called, once the previous call has settled. -/
  | call (wanted : ℕ)
  /-- The stream delivers a piece. -/
  | deliver (piece : Bytes)
  /-- The stream ends. -/
  | finish
  /-- The awaited call goes on. -/
  | wake
  deriving DecidableEq

/-- A fresh reader on a fresh stream. -/
def start : Session :=
  ⟨.start, none, [], []⟩

/-- `read(wanted)` goes as far as the delivered pieces allow. -/
def attempt (wanted : ℕ) (session : Session) : Session :=
  match session.reader.read wanted with
  | (.pending, reader) => { session with reader := reader, awaited := some wanted }
  | (result, reader) =>
      { session with
        reader := reader, awaited := none, results := session.results ++ [(wanted, result)] }

/-- One step of the reader or of its stream. -/
def step (session : Session) : Event → Option Session
  | .call wanted =>
      match session.awaited with
      | none => some (attempt wanted session)
      | some _ => none
  | .deliver piece =>
      match session.reader.ending with
      | .waiting =>
          some { session with
            reader := session.reader.deliver piece
            delivered := session.delivered ++ [piece] }
      | _ => none
  | .finish =>
      match session.reader.ending with
      | .waiting => some { session with reader := { session.reader with ending := .done } }
      | _ => none
  | .wake =>
      match session.awaited with
      | none => none
      | some wanted => some (attempt wanted session)

/-- A session under some order of calls and deliveries. -/
def run (events : List Event) : Option Session :=
  Machine.run step start events

/-- The bytes a result gives. -/
def out : ReadResult → Option Bytes
  | .resolved bytes => some bytes
  | _ => none

/-- What a call can settle with: its bytes, or the error of a stream that has ended. -/
def Settled (session : Session) (wanted : ℕ) (result : ReadResult) : Prop :=
  (∃ bytes, result = .resolved bytes ∧ bytes.length = wanted) ∨
    session.reader.ending = .done ∧ ∃ available, available < wanted ∧
      result = .rejected s!"stream ended after {available} of {wanted} bytes"

/-- What holds of a session at any time. -/
structure Inv (session : Session) : Prop where
  counted : session.reader.Counted
  ending : session.reader.ending = .waiting ∨ session.reader.ending = .done
  settled : ∀ wanted result, (wanted, result) ∈ session.results → Settled session wanted result
  /-- The results are those of the abstract stream, whatever may still come. -/
  refines : ∀ rest, (session.reader.ending = .done → rest = []) →
    session.results.map (fun entry => out entry.2) =
      Plain.reads (session.delivered.flatten ++ rest) (session.results.map Prod.fst) ∧
    Plain.rest (session.delivered.flatten ++ rest) (session.results.map Prod.fst) =
      session.reader.unread ++ rest

theorem inv_start : start.Inv :=
  ⟨Reader.counted_start, .inl rfl, by simp [start], fun rest _ => ⟨rfl, rfl⟩⟩

variable {session next : Session} {event : Event}

/-! ### One attempt -/

/-- Enough bytes: the call resolves with the next ones. -/
theorem attempt_of_le (hinv : session.Inv) {wanted : ℕ}
    (hle : wanted ≤ session.reader.unread.length) :
    ∃ reader, attempt wanted session = { session with
        reader := reader, awaited := none,
        results := session.results ++ [(wanted, .resolved (session.reader.unread.take wanted))] } ∧
      reader.Counted ∧ reader.unread = session.reader.unread.drop wanted ∧
      reader.ending = session.reader.ending := by
  obtain ⟨reader, hread, hcounted, hunread, hending⟩ := Reader.read_of_le hinv.counted hle
  exact ⟨reader, by simp [attempt, hread], hcounted, hunread, hending⟩

/-- Too few bytes before the end: the call goes on waiting. -/
theorem attempt_of_waiting (hinv : session.Inv) {wanted : ℕ}
    (hlt : session.reader.unread.length < wanted) (hending : session.reader.ending = .waiting) :
    ∃ reader, attempt wanted session = { session with reader := reader, awaited := some wanted } ∧
      reader.Counted ∧ reader.unread = session.reader.unread ∧
      reader.ending = session.reader.ending := by
  obtain ⟨reader, hread, hcounted, hunread, hsame⟩ := Reader.read_of_lt hinv.counted hlt
  rw [hending, Reader.shortResult] at hread
  exact ⟨reader, by simp [attempt, hread], hcounted, hunread, hsame⟩

/-- Too few bytes at the end: the call rejects and consumes nothing. -/
theorem attempt_of_done (hinv : session.Inv) {wanted : ℕ}
    (hlt : session.reader.unread.length < wanted) (hending : session.reader.ending = .done) :
    ∃ reader, attempt wanted session = { session with
        reader := reader, awaited := none,
        results := session.results ++ [(wanted, .rejected
          s!"stream ended after {session.reader.unread.length} of {wanted} bytes")] } ∧
      reader.Counted ∧ reader.unread = session.reader.unread ∧
      reader.ending = session.reader.ending := by
  obtain ⟨reader, hread, hcounted, hunread, hsame⟩ := Reader.read_of_lt hinv.counted hlt
  rw [hending, Reader.shortResult] at hread
  exact ⟨reader, by simp [attempt, hread], hcounted, hunread, hsame⟩

/-- A settled result stays settled as long as the stream does not start again. -/
theorem Settled.of_ending {wanted : ℕ} {result : ReadResult}
    (hsettled : Settled session wanted result)
    (hending : session.reader.ending = .done → next.reader.ending = .done) :
    Settled next wanted result := by
  rcases hsettled with hresolved | ⟨hdone, hrejected⟩
  · exact .inl hresolved
  · exact .inr ⟨hending hdone, hrejected⟩

/-- A call that settles extends the results by what the abstract stream gives. -/
theorem Inv.settle (hinv : session.Inv) {wanted : ℕ} {result : ReadResult} {reader : Reader}
    (hcounted : reader.Counted) (hending : reader.ending = session.reader.ending)
    (hsettled : Settled session wanted result)
    (hread : ∀ rest, (session.reader.ending = .done → rest = []) →
      Plain.read (session.reader.unread ++ rest) wanted = (out result, reader.unread ++ rest)) :
    Inv { session with
      reader := reader, awaited := none, results := session.results ++ [(wanted, result)] } := by
  refine ⟨hcounted, ?_, ?_, ?_⟩
  · rw [hending]
    exact hinv.ending
  · intro other found hmem
    rcases List.mem_append.mp hmem with hmem | hmem
    · exact (hinv.settled other found hmem).of_ending fun hdone => hending.trans hdone
    · obtain ⟨rfl, rfl⟩ : other = wanted ∧ found = result := by simpa using hmem
      exact hsettled.of_ending fun hdone => hending.trans hdone
  · intro rest hrest
    replace hrest : session.reader.ending = .done → rest = [] :=
      fun hdone => hrest (hending.trans hdone)
    obtain ⟨hresults, hleft⟩ := hinv.refines rest hrest
    have hlast := hread rest hrest
    simp only [List.map_append, List.map_cons, List.map_nil, Plain.reads_concat, Plain.rest_concat,
      hresults, hleft, hlast, and_self]

theorem inv_attempt (hinv : session.Inv) (wanted : ℕ) : (attempt wanted session).Inv := by
  by_cases hle : wanted ≤ session.reader.unread.length
  · obtain ⟨reader, hattempt, hcounted, hunread, hending⟩ := attempt_of_le hinv hle
    rw [hattempt]
    refine hinv.settle hcounted hending (.inl ⟨_, rfl, ?_⟩) fun rest _ => ?_
    · rw [List.length_take]
      omega
    · have hmore : wanted ≤ (session.reader.unread ++ rest).length := by
        rw [List.length_append]
        omega
      rw [Plain.read, if_pos hmore, List.take_append_of_le_length hle,
        List.drop_append_of_le_length hle, hunread]
      rfl
  · replace hle : session.reader.unread.length < wanted := by omega
    rcases hinv.ending with hwaiting | hdone
    · obtain ⟨reader, hattempt, hcounted, hunread, hending⟩ := attempt_of_waiting hinv hle hwaiting
      rw [hattempt]
      refine ⟨hcounted, by rw [hending]; exact hinv.ending, ?_, ?_⟩
      · intro other found hmem
        exact (hinv.settled other found hmem).of_ending fun hdone => hending.trans hdone
      · intro rest hrest
        rw [hunread]
        exact hinv.refines rest fun hdone => hrest (hending.trans hdone)
    · obtain ⟨reader, hattempt, hcounted, hunread, hending⟩ := attempt_of_done hinv hle hdone
      rw [hattempt]
      refine hinv.settle hcounted hending (.inr ⟨hdone, _, hle, rfl⟩) fun rest hrest => ?_
      rw [hrest hdone, List.append_nil, List.append_nil, Plain.read, if_neg (by omega), hunread]
      rfl

/-- **Step lemma.** -/
theorem inv_step (hinv : session.Inv) (hstep : step session event = some next) : next.Inv := by
  cases event with
  | call wanted =>
      simp only [step] at hstep
      split at hstep
      · obtain rfl := Option.some.inj hstep
        exact inv_attempt hinv wanted
      · simp at hstep
  | wake =>
      simp only [step] at hstep
      split at hstep
      · simp at hstep
      · obtain rfl := Option.some.inj hstep
        exact inv_attempt hinv _
  | deliver piece =>
      simp only [step] at hstep
      split at hstep
      · rename_i hwaiting
        obtain rfl := Option.some.inj hstep
        refine ⟨hinv.counted, hinv.ending, hinv.settled, ?_⟩
        intro rest _
        have hmore := hinv.refines (piece ++ rest) (by simp [hwaiting])
        simpa [Reader.unread_deliver] using hmore
      · simp at hstep
  | finish =>
      simp only [step] at hstep
      split at hstep
      · rename_i hwaiting
        obtain rfl := Option.some.inj hstep
        refine ⟨hinv.counted, .inr rfl, ?_, ?_⟩
        · intro wanted result hmem
          exact (hinv.settled wanted result hmem).of_ending (by simp [hwaiting])
        · intro rest _
          exact hinv.refines rest (by simp [hwaiting])
      · simp at hstep

/-- **Run lemma.** -/
theorem inv_run {events : List Event} (hrun : run events = some session) : session.Inv :=
  Machine.run_invariant Inv (fun _ _ _ hinv hstep => inv_step hinv hstep) inv_start hrun

/-- **`exactReader` refines a plain byte stream.**  Whatever the pieces and whenever
they arrive, the settled calls have the results of the abstract stream, on the bytes
delivered so far and any that may follow; an awaited call settles as soon as there
are enough bytes or no more to come; `queued` counts the queued bytes; and the copy
loop ends by itself, without looking into an empty queue. -/
theorem exactReader_refines {events : List Event} (hrun : run events = some session) :
    (∀ rest, (session.reader.ending = .done → rest = []) →
      session.results.map (fun entry => out entry.2) =
        Plain.reads (session.delivered.flatten ++ rest) (session.results.map Prod.fst)) ∧
    (∀ wanted result, (wanted, result) ∈ session.results → Settled session wanted result) ∧
    (∀ wanted, session.awaited = some wanted →
      session.reader.ending = .done ∨ wanted ≤
        (Plain.rest session.delivered.flatten (session.results.map Prod.fst)).length →
        ∃ next result, step session .wake = some next ∧ next.awaited = none ∧
          next.results = session.results ++ [(wanted, result)]) ∧
    session.reader.queued = (session.reader.queue.map List.length).sum ∧
    (∀ wanted ≤ session.reader.queued, ∃ bytes queue, bytes.length = wanted ∧
      Reader.copy wanted session.reader.queue = some (bytes, queue) ∧
      ∀ count ≥ session.reader.queue.length,
        Copying.loop wanted count ⟨session.reader.queue, []⟩ = some ⟨queue, bytes⟩) := by
  have hinv := inv_run hrun
  refine ⟨fun rest hrest => (hinv.refines rest hrest).1, hinv.settled, ?_, ?_, ?_⟩
  · intro wanted hawaited henough
    have hwake : step session .wake = some (attempt wanted session) := by
      simp only [step, hawaited]
    have hleft := (hinv.refines [] fun _ => rfl).2
    rw [List.append_nil, List.append_nil] at hleft
    rw [hleft] at henough
    by_cases hle : wanted ≤ session.reader.unread.length
    · obtain ⟨reader, hattempt, _⟩ := attempt_of_le hinv hle
      exact ⟨_, _, hwake, by rw [hattempt], by rw [hattempt]⟩
    · have hlt : session.reader.unread.length < wanted := by omega
      obtain ⟨reader, hattempt, _⟩ := attempt_of_done hinv hlt (henough.resolve_right hle)
      exact ⟨_, _, hwake, by rw [hattempt], by rw [hattempt]⟩
  · rw [hinv.counted, List.length_flatten]
  · intro wanted hwanted
    rw [hinv.counted] at hwanted
    obtain ⟨bytes, queue, hcopy, hlength, hloop⟩ := Copying.loop_eq_copy [] hwanted
    refine ⟨bytes, queue, hlength, hcopy, fun count hcount => ?_⟩
    simpa using hloop count hcount

/-- A read that spans an empty piece, one that fails, and a smaller one after it. -/
theorem exactReader_refines_pieces :
    ∃ session, run [.deliver [1], .call 2, .deliver [], .wake, .deliver [2, 3], .wake, .finish,
        .call 4, .call 1] = some session ∧
      session.results.map (fun entry => out entry.2) = [some [1, 2], none, some [3]] := by
  obtain ⟨session, hrun, hresult⟩ := Option.map_eq_some_iff.mp (show
    (run [.deliver [1], .call 2, .deliver [], .wake, .deliver [2, 3], .wake, .finish, .call 4,
      .call 1]).map (fun session => (session.delivered, session.results.map Prod.fst)) =
        some ([[1], [], [2, 3]], [2, 4, 1]) by decide)
  obtain ⟨hdelivered, hcalls⟩ := Prod.mk.inj hresult
  have hrefines := (exactReader_refines hrun).1 [] fun _ => rfl
  rw [hdelivered, hcalls] at hrefines
  exact ⟨session, hrun, hrefines⟩

end Session

end AutonomiWebrtc.Wire
