import AutonomiWebrtc.Wire.Protocol
import AutonomiWebrtc.Wire.Reader

/-!
# The fetch protocol, client side

`getChunk` sends the address and reads the response through `exactReader`: one
status byte, four bytes of length, the data.  It is suspended in one of the three
reads until it settles, and goes on as far as the delivered pieces allow
(`advance`).

`plain` is the same program over a plain byte string, without pieces, queues or
suspensions.  `Tracks` connects the two: at any time the client, on what it has
not read, stands where the plain program, on all that was delivered, stands.
-/

namespace AutonomiWebrtc.Wire

/-- What a settled call of `getChunk` has come to: bytes, `null`, or an error. -/
abbrev Result := Except String (Option Bytes)

/-- Where a call of `getChunk` is suspended. -/
inductive Point
  /-- In `read(1)`. -/
  | status
  /-- In `read(4)`. -/
  | header
  /-- In `read(length)`. -/
  | body (length : ℕ)
  | settled (result : Result)
  deriving DecidableEq

/-- A call of `getChunk` whose request is sent. -/
structure Client where
  reader : Reader
  point : Point
  deriving DecidableEq

/-- What the status byte leads to. -/
def afterStatus : Bytes → Point
  | [] => .settled (.error "Cannot read properties of undefined (reading 'toString')")
  | status :: _ =>
      if status = statusNotFound then .settled (.ok none)
      else if status = statusRefused then
        .settled (.error "proxy refused the address (not on its allowlist)")
      else if status ≠ statusOk then
        .settled (.error ("proxy returned an unknown status byte: 0x" ++
          String.ofList (Nat.toDigits 16 status.toNat)))
      else .header

/-- What the length leads to. -/
def afterHeader (header : Bytes) : Point :=
  if maxResponseLen < Octets.ofBeBytes header then
    .settled (.error s!"proxy announced an oversized chunk: {Octets.ofBeBytes header} bytes")
  else .body (Octets.ofBeBytes header)

namespace Client

/-- `await read(wanted)`, then go on with what was read. -/
def await (client : Client) (wanted : ℕ) (next : Bytes → Point) : Client :=
  match client.reader.read wanted with
  | (.pending, reader) => ⟨reader, client.point⟩
  | (.rejected message, reader) => ⟨reader, .settled (.error message)⟩
  | (.resolved out, reader) => ⟨reader, next out⟩

def readStatus (client : Client) : Client :=
  match client.point with
  | .status => client.await 1 afterStatus
  | _ => client

def readHeader (client : Client) : Client :=
  match client.point with
  | .header => client.await 4 afterHeader
  | _ => client

def readBody (client : Client) : Client :=
  match client.point with
  | .body length => client.await length fun out => .settled (.ok (some out))
  | _ => client

/-- Go on with `getChunk` as far as the delivered pieces allow. -/
def advance (client : Client) : Client :=
  client.readStatus.readHeader.readBody

/-- `getChunk` right after `send`. -/
def start : Client :=
  ⟨Reader.start, .status⟩

end Client

/-! ## The same over a plain byte string -/

/-- What becomes of a read that wants more bytes than there are. -/
def shortOutcome (ending : Ending) (available wanted : ℕ) : Option Result :=
  match ending with
  | .waiting => none
  | .done => some (.error s!"stream ended after {available} of {wanted} bytes")
  | .reset message => some (.error message)

/-- Read from a byte string, then go on with what was read and what is left. -/
def plainRead (ending : Ending) (wanted : ℕ) (next : Bytes → Bytes → Option Result)
    (bytes : Bytes) : Option Result :=
  if bytes.length < wanted then shortOutcome ending bytes.length wanted
  else next (bytes.take wanted) (bytes.drop wanted)

def plainBody (ending : Ending) : Point → Bytes → Option Result
  | .body length, bytes => plainRead ending length (fun out _ => some (.ok (some out))) bytes
  | .settled result, _ => some result
  | _, _ => none

def plainHeader (ending : Ending) : Point → Bytes → Option Result
  | .header, bytes =>
      plainRead ending 4 (fun out rest => plainBody ending (afterHeader out) rest) bytes
  | point, bytes => plainBody ending point bytes

/-- The result of `getChunk` from a point on, over the bytes still to be read and
what the stream does after them; `none` while it waits. -/
def plain (ending : Ending) : Point → Bytes → Option Result
  | .status, bytes =>
      plainRead ending 1 (fun out rest => plainHeader ending (afterStatus out) rest) bytes
  | point, bytes => plainHeader ending point bytes

/-- What the plain program makes of the rest of the client's stream, as it is. -/
def Client.verdict (client : Client) : Option Result :=
  plain client.reader.ending client.point client.reader.unread

/-- The client stands where the plain program stands, for all that may still come;
or the stream is over, and it has settled as the plain program does. -/
structure Tracks (delivered : Bytes) (client : Client) : Prop where
  counted : client.reader.Counted
  follows : (∀ ending more, plain ending .status (delivered ++ more) =
      plain ending client.point (client.reader.unread ++ more)) ∨
    (client.reader.ending ≠ .waiting ∧ ∃ result, client.point = .settled result ∧
      plain client.reader.ending .status delivered = some result)

theorem tracks_start : Tracks [] Client.start :=
  ⟨Reader.counted_start, .inl fun _ _ => rfl⟩

/-- The stream delivers a piece to the client. -/
def Client.deliver (client : Client) (piece : Bytes) : Client :=
  { client with reader := client.reader.deliver piece }

/-- The stream ends, or breaks. -/
def Client.setEnding (client : Client) (ending : Ending) : Client :=
  { client with reader := { client.reader with ending := ending } }

section Tracks

variable {delivered : Bytes} {client : Client}

theorem Tracks.deliver (htracks : Tracks delivered client)
    (hending : client.reader.ending = .waiting) (piece : Bytes) :
    Tracks (delivered ++ piece) (client.deliver piece) := by
  have hfollows := htracks.follows.resolve_right fun hover => hover.1 hending
  refine ⟨htracks.counted, .inl ?_⟩
  intro ending more
  show _ = plain ending client.point ((client.reader.deliver piece).unread ++ more)
  rw [Reader.unread_deliver, List.append_assoc, List.append_assoc]
  exact hfollows ending (piece ++ more)

theorem Tracks.setEnding (htracks : Tracks delivered client)
    (hending : client.reader.ending = .waiting) (ending : Ending) :
    Tracks delivered (client.setEnding ending) :=
  ⟨htracks.counted, .inl (htracks.follows.resolve_right fun hover => hover.1 hending)⟩

theorem Tracks.verdict_eq (htracks : Tracks delivered client) :
    client.verdict = plain client.reader.ending .status delivered := by
  rcases htracks.follows with hfollows | ⟨_, result, hpoint, hplain⟩
  · have hnow := hfollows client.reader.ending []
    rw [List.append_nil, List.append_nil] at hnow
    exact hnow.symm
  · rw [hplain, Client.verdict, hpoint]
    rfl

/-- A settled client has settled as the plain program does on what was delivered. -/
theorem Tracks.plain_of_settled (htracks : Tracks delivered client) {result : Result}
    (hpoint : client.point = .settled result) :
    plain client.reader.ending .status delivered = some result := by
  rw [← htracks.verdict_eq, Client.verdict, hpoint]
  rfl

end Tracks

/-! ### One read -/

section Await

variable {delivered : Bytes} {client : Client} {wanted : ℕ} {next : Bytes → Point}

/-- Everything a read can come to. -/
theorem await_cases (hcounted : client.reader.Counted) (wanted : ℕ) (next : Bytes → Point) :
    ∃ reader, reader.Counted ∧ reader.ending = client.reader.ending ∧
      ((wanted ≤ client.reader.unread.length ∧
          reader.unread = client.reader.unread.drop wanted ∧
          client.await wanted next = ⟨reader, next (client.reader.unread.take wanted)⟩) ∨
        (client.reader.unread.length < wanted ∧ reader.unread = client.reader.unread ∧
          client.await wanted next = ⟨reader,
            match shortOutcome client.reader.ending client.reader.unread.length wanted with
            | none => client.point
            | some result => .settled result⟩)) := by
  by_cases hle : wanted ≤ client.reader.unread.length
  · obtain ⟨reader, hread, hcounted', hunread, hending⟩ := Reader.read_of_le hcounted hle
    refine ⟨reader, hcounted', hending, .inl ⟨hle, hunread, ?_⟩⟩
    simp [Client.await, hread]
  · have hlt : client.reader.unread.length < wanted := by omega
    obtain ⟨reader, hread, hcounted', hunread, hending⟩ := Reader.read_of_lt hcounted hlt
    refine ⟨reader, hcounted', hending, .inr ⟨hlt, hunread, ?_⟩⟩
    simp only [Client.await, hread, Reader.shortResult, shortOutcome]
    cases client.reader.ending <;> rfl

/-- The plain program does the same read. -/
def Reads (point : Point) (wanted : ℕ) (next : Bytes → Point) : Prop :=
  ∀ ending bytes, plain ending point bytes =
    plainRead ending wanted (fun out rest => plain ending (next out) rest) bytes

/-- With the bytes of a read there, the plain program goes on behind them. -/
theorem Reads.plain_append {point : Point} (hreads : Reads point wanted next) (bytes : Bytes)
    (hle : wanted ≤ bytes.length) (ending : Ending) (more : Bytes) :
    plain ending point (bytes ++ more) =
      plain ending (next (bytes.take wanted)) (bytes.drop wanted ++ more) := by
  rw [hreads, plainRead, if_neg (by rw [List.length_append]; omega),
    List.take_append_of_le_length hle, List.drop_append_of_le_length hle]

theorem plain_settled (ending : Ending) (result : Result) (bytes : Bytes) :
    plain ending (.settled result) bytes = some result :=
  rfl

/-- A read does not change what the rest of the stream leads to. -/
theorem verdict_await (hcounted : client.reader.Counted)
    (hreads : Reads client.point wanted next) :
    (client.await wanted next).verdict = client.verdict := by
  obtain ⟨reader, _, hending, ⟨hle, hunread, hawait⟩ | ⟨hlt, hunread, hawait⟩⟩ :=
    await_cases hcounted wanted next
  · have hgo := hreads.plain_append _ hle client.reader.ending []
    rw [List.append_nil, List.append_nil] at hgo
    rw [hawait, Client.verdict, Client.verdict, hgo, ← hunread, ← hending]
  · have hshort : client.verdict =
        shortOutcome client.reader.ending client.reader.unread.length wanted := by
      rw [Client.verdict, hreads, plainRead, if_pos hlt]
    rw [hawait, hshort]
    cases hkind : shortOutcome client.reader.ending client.reader.unread.length wanted with
    | none =>
        show plain reader.ending client.point reader.unread = none
        rw [hending, hunread]
        exact hshort.trans hkind
    | some result => rfl

/-- A read keeps the client on the track of the plain program. -/
theorem tracks_await (htracks : Tracks delivered client)
    (hpoint : ∀ result, client.point ≠ .settled result)
    (hreads : Reads client.point wanted next) : Tracks delivered (client.await wanted next) := by
  have hfollows := htracks.follows.resolve_right fun ⟨_, result, h, _⟩ => hpoint result h
  have hverdict := (verdict_await htracks.counted hreads).trans htracks.verdict_eq
  obtain ⟨reader, hcounted, hending, ⟨hle, hunread, hawait⟩ | ⟨_, hunread, hawait⟩⟩ :=
    await_cases htracks.counted wanted next
  · rw [hawait]
    refine ⟨hcounted, .inl ?_⟩
    intro ending more
    rw [hfollows, hreads.plain_append _ hle, hunread]
  · rw [hawait] at hverdict ⊢
    refine ⟨hcounted, ?_⟩
    unfold shortOutcome at hverdict ⊢
    rw [← hending] at hverdict ⊢
    cases hkind : reader.ending with
    | waiting =>
        left
        intro ending more
        rw [hfollows, hunread]
    | done =>
        simp only [hkind] at hverdict
        exact .inr ⟨by simp, _, rfl, hverdict.symm⟩
    | reset message =>
        simp only [hkind] at hverdict
        exact .inr ⟨by simp, _, rfl, hverdict.symm⟩

/-- Where a read leaves the client: where it was, without a result; given up; or
at the next point. -/
theorem point_await (hcounted : client.reader.Counted) (hreads : Reads client.point wanted next) :
    ((client.await wanted next).point = client.point ∧ client.verdict = none) ∨
    (∃ message, (client.await wanted next).point = .settled (.error message)) ∨
    ∃ out, (client.await wanted next).point = next out := by
  obtain ⟨reader, _, _, ⟨_, _, hawait⟩ | ⟨hlt, _, hawait⟩⟩ := await_cases hcounted wanted next
  · exact .inr (.inr ⟨_, by rw [hawait]⟩)
  · have hshort : client.verdict =
        shortOutcome client.reader.ending client.reader.unread.length wanted := by
      rw [Client.verdict, hreads, plainRead, if_pos hlt]
    rw [hawait, hshort]
    unfold shortOutcome
    cases client.reader.ending with
    | waiting => exact .inl ⟨rfl, rfl⟩
    | done => exact .inr (.inl ⟨_, rfl⟩)
    | reset message => exact .inr (.inl ⟨_, rfl⟩)

end Await

/-! ### The whole call -/

theorem reads_status : Reads .status 1 afterStatus := by
  intro ending bytes
  have hpoint : ∀ out rest,
      plainHeader ending (afterStatus out) rest = plain ending (afterStatus out) rest := by
    intro out rest
    unfold afterStatus
    repeat' split
    all_goals rfl
  show plainRead ending 1 (fun out rest => plainHeader ending (afterStatus out) rest) bytes = _
  simp only [hpoint]

theorem reads_header : Reads .header 4 afterHeader := by
  intro ending bytes
  have hpoint : ∀ out rest,
      plainBody ending (afterHeader out) rest = plain ending (afterHeader out) rest := by
    intro out rest
    unfold afterHeader
    split <;> rfl
  show plainRead ending 4 (fun out rest => plainBody ending (afterHeader out) rest) bytes = _
  simp only [hpoint]

theorem reads_body (length : ℕ) :
    Reads (.body length) length fun out => .settled (.ok (some out)) := by
  intro ending bytes
  rfl

/-- The points behind a point, in the order of the program. -/
def Point.rank : Point → ℕ
  | .status => 0
  | .header => 1
  | .body _ => 2
  | .settled _ => 3

theorem one_le_rank_afterStatus (out : Bytes) : 1 ≤ (afterStatus out).rank := by
  unfold afterStatus
  repeat' split
  all_goals simp [Point.rank]

theorem two_le_rank_afterHeader (out : Bytes) : 2 ≤ (afterHeader out).rank := by
  unfold afterHeader
  split <;> simp [Point.rank]

section Advance

variable {delivered : Bytes} {client : Client}

/-- What each of the three stages of `advance` preserves: the track, the verdict,
and that a client which is not past the stage has no verdict. -/
structure Staged (delivered : Bytes) (client after : Client) (rank : ℕ) : Prop where
  tracks : Tracks delivered after
  ending_eq : after.reader.ending = client.reader.ending
  verdict_eq : after.verdict = client.verdict
  waits : after.point.rank < rank → after.verdict = none

theorem ending_await (hcounted : client.reader.Counted) (wanted : ℕ) (next : Bytes → Point) :
    (client.await wanted next).reader.ending = client.reader.ending := by
  obtain ⟨reader, _, hending, ⟨_, _, hawait⟩ | ⟨_, _, hawait⟩⟩ := await_cases hcounted wanted next
  · rw [hawait]
    exact hending
  · rw [hawait]
    exact hending

/-- A stage that reads. -/
theorem staged_await (htracks : Tracks delivered client) {wanted rank : ℕ} {next : Bytes → Point}
    (hpoint : ∀ result, client.point ≠ .settled result)
    (hreads : Reads client.point wanted next) (hnext : ∀ out, rank ≤ (next out).rank)
    (hrank : rank ≤ 3) : Staged delivered client (client.await wanted next) rank := by
  refine ⟨tracks_await htracks hpoint hreads, ending_await htracks.counted wanted next,
    verdict_await htracks.counted hreads, ?_⟩
  intro hlt
  rw [verdict_await htracks.counted hreads]
  rcases point_await htracks.counted hreads with ⟨_, hnone⟩ | ⟨message, hgiven⟩ | ⟨out, hout⟩
  · exact hnone
  · rw [hgiven] at hlt
    have : (Point.settled (.error message)).rank = 3 := rfl
    omega
  · rw [hout] at hlt
    have := hnext out
    omega

theorem staged_readStatus (htracks : Tracks delivered client) :
    Staged delivered client client.readStatus 1 := by
  unfold Client.readStatus
  split
  · rename_i hpoint
    exact staged_await htracks (by simp [hpoint]) (hpoint ▸ reads_status) one_le_rank_afterStatus
      (by decide)
  · refine ⟨htracks, rfl, rfl, ?_⟩
    intro hlt
    cases hpoint : client.point <;> simp_all [Point.rank]

theorem staged_readHeader {before : Client} (hstaged : Staged delivered before client 1) :
    Staged delivered before client.readHeader 2 := by
  unfold Client.readHeader
  split
  · rename_i hpoint
    have hnext := staged_await hstaged.tracks (by simp [hpoint]) (hpoint ▸ reads_header)
      two_le_rank_afterHeader (by decide)
    exact ⟨hnext.tracks, hnext.ending_eq.trans hstaged.ending_eq,
      hnext.verdict_eq.trans hstaged.verdict_eq, hnext.waits⟩
  · refine ⟨hstaged.tracks, hstaged.ending_eq, hstaged.verdict_eq, ?_⟩
    intro hlt
    apply hstaged.waits
    cases hpoint : client.point <;> simp_all [Point.rank]

theorem staged_readBody {before : Client} (hstaged : Staged delivered before client 2) :
    Staged delivered before client.readBody 3 := by
  unfold Client.readBody
  split
  · rename_i length hpoint
    have hnext := staged_await hstaged.tracks (by simp [hpoint]) (hpoint ▸ reads_body length)
      (fun out => Nat.le_refl 3) (Nat.le_refl 3)
    exact ⟨hnext.tracks, hnext.ending_eq.trans hstaged.ending_eq,
      hnext.verdict_eq.trans hstaged.verdict_eq, hnext.waits⟩
  · refine ⟨hstaged.tracks, hstaged.ending_eq, hstaged.verdict_eq, ?_⟩
    intro hlt
    apply hstaged.waits
    cases hpoint : client.point <;> simp_all [Point.rank]

theorem staged_advance (htracks : Tracks delivered client) :
    Staged delivered client client.advance 3 :=
  staged_readBody (staged_readHeader (staged_readStatus htracks))

/-- **The client settles as the plain program does**: exactly when the bytes that
are there, and what the stream does after them, decide the outcome. -/
theorem advance_settled_iff (htracks : Tracks delivered client) (result : Result) :
    client.advance.point = .settled result ↔ client.verdict = some result := by
  have hstaged := staged_advance htracks
  have hverdict : ∀ result, client.advance.point = .settled result →
      client.verdict = some result := by
    intro result hsettled
    rw [← hstaged.verdict_eq, Client.verdict, hsettled]
    rfl
  constructor
  · exact hverdict result
  · intro hresult
    cases hpoint : client.advance.point with
    | settled other =>
        have := hverdict other hpoint
        rw [hresult] at this
        cases this
        rfl
    | _ =>
        -- Not settled means waiting, and then there is no verdict.
        have hnone := hstaged.waits (by simp [hpoint, Point.rank])
        rw [hstaged.verdict_eq, hresult] at hnone
        cases hnone

end Advance

/-! ## The grammar of responses -/

theorem shortOutcome_ne_ok (ending : Ending) (available wanted : ℕ) (answer : Option Bytes) :
    shortOutcome ending available wanted ≠ some (.ok answer) := by
  unfold shortOutcome
  cases ending <;> simp

/-- A frame is read to its end, whatever follows it. -/
theorem plain_frame (ending : Ending) {data : Bytes} (hlength : data.length ≤ maxResponseLen)
    (rest : Bytes) : plain ending .status (frame data ++ rest) = some (.ok (some data)) := by
  have hvalue : Octets.ofBeBytes (Octets.toBeBytes data.length) = data.length :=
    Octets.ofBeBytes_toBeBytes (Nat.lt_of_le_of_lt hlength (by decide))
  have hheader : afterHeader (Octets.toBeBytes data.length) = .body data.length := by
    rw [afterHeader, hvalue, if_neg (by omega)]
  calc plain ending .status (frame data ++ rest)
      = plain ending .status ([statusOk] ++ (Octets.toBeBytes data.length ++ (data ++ rest))) := by
        simp [frame]
    _ = plain ending .header (Octets.toBeBytes data.length ++ (data ++ rest)) :=
        reads_status.plain_append [statusOk] (Nat.le_refl 1) ending _
    _ = plain ending (.body data.length) (data ++ rest) := by
        have hgo := reads_header.plain_append _
          (Nat.le_of_eq (Octets.length_toBeBytes data.length).symm) ending (data ++ rest)
        rw [hgo, List.take_of_length_le (Nat.le_of_eq (Octets.length_toBeBytes _)),
          List.drop_of_length_le (Nat.le_of_eq (Octets.length_toBeBytes _)), hheader]
        rfl
    _ = some (.ok (some data)) := by
        have hgo := (reads_body data.length).plain_append data (Nat.le_refl _) ending rest
        rw [hgo, List.take_of_length_le (Nat.le_refl _)]
        rfl

theorem plain_notFound (ending : Ending) (rest : Bytes) :
    plain ending .status (statusNotFound :: rest) = some (.ok none) :=
  reads_status.plain_append [statusNotFound] (Nat.le_refl 1) ending rest

/-- The body: its length was announced, and the data is followed by anything. -/
theorem plain_header_eq_ok {ending : Ending} {bytes : Bytes} {answer : Option Bytes}
    (hplain : plain ending .header bytes = some (.ok answer)) :
    ∃ data rest, answer = some data ∧ data.length ≤ maxResponseLen ∧
      bytes = Octets.toBeBytes data.length ++ (data ++ rest) := by
  rw [reads_header, plainRead] at hplain
  split at hplain
  · exact absurd hplain (shortOutcome_ne_ok _ _ _ _)
  · rename_i hheader
    unfold afterHeader at hplain
    split at hplain
    · cases hplain
    · rename_i hlength
      rw [reads_body, plainRead] at hplain
      split at hplain
      · exact absurd hplain (shortOutcome_ne_ok _ _ _ _)
      · rename_i hbody
        set length := Octets.ofBeBytes (bytes.take 4) with hvalue
        have hdata : ((bytes.drop 4).take length).length = length := by
          rw [List.length_take]
          omega
        have hoctets : Octets.toBeBytes length = bytes.take 4 := by
          rw [hvalue]
          exact Octets.toBeBytes_ofBeBytes (by rw [List.length_take]; omega)
        refine ⟨(bytes.drop 4).take length, (bytes.drop 4).drop length, ?_, by omega, ?_⟩
        · have := Option.some.inj hplain
          exact (Except.ok.inj this).symm
        · rw [hdata, hoctets, List.take_append_drop, List.take_append_drop]

/-- **The grammar.**  What the plain program resolves with, and over which bytes. -/
theorem plain_status_eq_ok {ending : Ending} {bytes : Bytes} {answer : Option Bytes} :
    plain ending .status bytes = some (.ok answer) ↔
      (∃ data rest, answer = some data ∧ data.length ≤ maxResponseLen ∧
        bytes = frame data ++ rest) ∨
      (∃ rest, answer = none ∧ bytes = statusNotFound :: rest) := by
  constructor
  · intro hplain
    cases bytes with
    | nil => exact absurd hplain (shortOutcome_ne_ok ending 0 1 answer)
    | cons status rest =>
        have hgo : plain ending (afterStatus [status]) rest = some (.ok answer) := by
          rw [← hplain]
          exact (reads_status.plain_append [status] (Nat.le_refl 1) ending rest).symm
        simp only [afterStatus] at hgo
        split at hgo
        · rename_i hstatus
          cases hgo
          exact .inr ⟨rest, rfl, by rw [hstatus]⟩
        · split at hgo
          · cases hgo
          · split at hgo
            · cases hgo
            · rename_i hstatus
              obtain ⟨data, more, hanswer, hlength, hbytes⟩ := plain_header_eq_ok hgo
              refine .inl ⟨data, more, hanswer, hlength, ?_⟩
              rw [hbytes, not_ne_iff.mp hstatus]
              simp [frame]
  · rintro (⟨data, rest, rfl, hlength, rfl⟩ | ⟨rest, rfl, rfl⟩)
    · exact plain_frame ending hlength rest
    · exact plain_notFound ending rest

/-- Only a stream that may still deliver leaves the outcome open. -/
theorem plain_isSome {ending : Ending} (hending : ending ≠ .waiting) (bytes : Bytes) :
    (plain ending .status bytes).isSome := by
  have hshort : ∀ available wanted, (shortOutcome ending available wanted).isSome := by
    intro available wanted
    unfold shortOutcome
    cases ending <;> simp_all
  have hread : ∀ point wanted next, Reads point wanted next →
      (∀ out rest, (plain ending (next out) rest).isSome) →
        ∀ bytes, (plain ending point bytes).isSome := by
    intro point wanted next hreads hnext bytes
    rw [hreads, plainRead]
    split
    · exact hshort _ _
    · exact hnext _ _
  have hheader : ∀ bytes, (plain ending .header bytes).isSome := by
    apply hread _ _ _ reads_header
    intro out rest
    unfold afterHeader
    split
    · rfl
    · exact hread _ _ _ (reads_body _) (fun _ _ => rfl) rest
  apply hread _ _ _ reads_status
  intro out rest
  unfold afterStatus
  repeat' split
  all_goals first | rfl | exact hheader rest

/-! ## The decoder -/

/-- How the request went out: `newStream` rejected, or `send` was accepted at once,
after a `drain` event, or not before the stream was closed. -/
inductive Sending
  | noStream (message : String)
  | accepted
  | drained
  | closed
  deriving DecidableEq

/-- `getChunk` over a stream that delivers the given pieces; `none` while it waits. -/
def getChunk (addr : Bytes) (sending : Sending) (pieces : List Bytes) (ending : Ending) :
    Option Result :=
  if addr.length ≠ addressLen then
    some (.error s!"address must be {addressLen} bytes, got {addr.length}")
  else
    match sending with
    | .noStream message => some (.error message)
    | .closed => some (.error "stream closed while sending")
    | .accepted | .drained =>
        match (Client.mk ⟨[], 0, pieces, ending⟩ .status).advance.point with
        | .settled result => some result
        | _ => none

theorem getChunk_eq_plain (address : XorName) {sending : Sending}
    (hsent : sending = .accepted ∨ sending = .drained) (pieces : List Bytes) (ending : Ending) :
    getChunk address.bytes sending pieces ending = plain ending .status pieces.flatten := by
  have htracks : Tracks pieces.flatten (Client.mk ⟨[], 0, pieces, ending⟩ .status) :=
    ⟨rfl, .inl fun _ _ => rfl⟩
  have hverdict : (Client.mk ⟨[], 0, pieces, ending⟩ .status).verdict =
      plain ending .status pieces.flatten := rfl
  have hadvance : getChunk address.bytes sending pieces ending =
      match (Client.mk ⟨[], 0, pieces, ending⟩ .status).advance.point with
      | .settled result => some result
      | _ => none := by
    rcases hsent with rfl | rfl <;> simp [getChunk, address.length_bytes]
  rw [hadvance]
  cases hplain : plain ending .status pieces.flatten with
  | some result => rw [(advance_settled_iff htracks result).mpr (hverdict.trans hplain)]
  | none =>
      split
      · rename_i result hsettled
        have hsome := (advance_settled_iff htracks result).mp hsettled
        rw [hverdict, hplain] at hsome
        cases hsome
      · rfl

/-- **The response decoder.**  Once the request is out, and for every string of
bytes that a proxy sends before it ends the stream, in whatever pieces: `getChunk`
resolves with data exactly for a frame of it, resolves with `null` exactly for the
not-found status, rejects everything else, and takes no notice of the cutting. -/
theorem getChunk_grammar (address : XorName) {sending : Sending}
    (hsent : sending = .accepted ∨ sending = .drained) (pieces : List Bytes) :
    (∀ data, getChunk address.bytes sending pieces .done = some (.ok (some data)) ↔
      data.length ≤ maxResponseLen ∧ ∃ rest, pieces.flatten =
        statusOk :: (Octets.toBeBytes data.length ++ data ++ rest)) ∧
    (getChunk address.bytes sending pieces .done = some (.ok none) ↔
      ∃ rest, pieces.flatten = statusNotFound :: rest) ∧
    ((¬ ∃ data rest, data.length ≤ maxResponseLen ∧ pieces.flatten =
        statusOk :: (Octets.toBeBytes data.length ++ data ++ rest)) →
      (¬ ∃ rest, pieces.flatten = statusNotFound :: rest) →
      ∃ message, getChunk address.bytes sending pieces .done = some (.error message)) ∧
    (∀ pieces', pieces'.flatten = pieces.flatten →
      getChunk address.bytes sending pieces' .done =
        getChunk address.bytes sending pieces .done) := by
  have hplain := getChunk_eq_plain address hsent pieces .done
  have hfound : ∀ data, getChunk address.bytes sending pieces .done = some (.ok (some data)) ↔
      data.length ≤ maxResponseLen ∧ ∃ rest, pieces.flatten =
        statusOk :: (Octets.toBeBytes data.length ++ data ++ rest) := by
    intro data
    rw [hplain, plain_status_eq_ok]
    simp [frame]
  have hnotFound : getChunk address.bytes sending pieces .done = some (.ok none) ↔
      ∃ rest, pieces.flatten = statusNotFound :: rest := by
    rw [hplain, plain_status_eq_ok]
    simp
  refine ⟨hfound, hnotFound, ?_, ?_⟩
  · intro hnoFrame hnoStatus
    obtain ⟨result, hresult⟩ := Option.isSome_iff_exists.mp
      (plain_isSome (show Ending.done ≠ .waiting by decide) pieces.flatten)
    rw [← hplain] at hresult
    cases result with
    | error message => exact ⟨message, hresult⟩
    | ok answer =>
        cases answer with
        | none => exact absurd (hnotFound.mp hresult) hnoStatus
        | some data =>
            obtain ⟨hlength, rest, hbytes⟩ := (hfound data).mp hresult
            exact absurd ⟨data, rest, hlength, hbytes⟩ hnoFrame
  · intro pieces' hsame
    rw [getChunk_eq_plain address hsent, hplain, hsame]

theorem getChunk_grammar_in_pieces :
    getChunk (XorName.mk (List.replicate 32 7) rfl).bytes .drained
      [[], [0, 0, 0], [], [0, 2, 8], [9, 1, 1]] .done = some (.ok (some [8, 9])) := by
  refine ((getChunk_grammar _ (.inr rfl) _).1 [8, 9]).mpr ⟨by decide, [1, 1], ?_⟩
  rfl

end AutonomiWebrtc.Wire
