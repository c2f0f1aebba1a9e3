import AutonomiWebrtc.Dtls.Message

/-!
# The fragment buffer

`FragmentBuffer` keeps the handshake fragments of a peer until a whole message can be put
together.  `push` takes a record apart, `pop` returns the message that is next in order.

The map from message numbers to fragments is kept as one list: a fragment is stored under
the number in its own header, an entry is made only to be pushed to, and `pop` removes a
whole entry.  So the entry of a number is the fragments of that number, in the order of
their arrival, and there are no empty entries.

Message numbers count in `u16` and wrap.
-/

namespace AutonomiWebrtc.Dtls

open Readers

/-- `FRAGMENT_BUFFER_MAX_SIZE`. -/
def fragmentBufferMaxSize : ℕ := 2000000

/-- `Fragment`. -/
structure Fragment where
  recordLayerHeader : RecordLayerHeader
  handshakeHeader : HandshakeHeader
  data : Bytes
  deriving DecidableEq

/-- The number of fragments from an offset on. -/
def remaining (frags : List Fragment) (offset : ℕ) : ℕ :=
  (frags.filter fun f => offset ≤ f.handshakeHeader.fragmentOffset).length

theorem remaining_lt {frags : List Fragment} {offset next : ℕ} {f : Fragment} (hf : f ∈ frags)
    (hoffset : f.handshakeHeader.fragmentOffset = offset) (hnext : offset < next) :
    remaining frags next < remaining frags offset := by
  have hsub : (frags.filter fun f => next ≤ f.handshakeHeader.fragmentOffset) =
      (frags.filter fun f => offset ≤ f.handshakeHeader.fragmentOffset).filter
        fun f => next ≤ f.handshakeHeader.fragmentOffset := by
    rw [List.filter_filter]
    apply List.filter_congr
    intro g _
    rw [Bool.eq_iff_iff]
    simp only [decide_eq_true_eq, Bool.and_eq_true]
    omega
  rw [remaining, remaining, hsub]
  refine List.length_filter_lt_length_iff_exists.mpr ⟨f, ?_, ?_⟩
  · simp [hf, hoffset]
  · simp only [decide_eq_true_eq]
    omega

/-- `append_message`: the data from an offset to the end of the message, or nothing when a
fragment is missing.  Only the first fragment at an offset is tried. -/
def appendMessage (frags : List Fragment) (targetOffset : ℕ) : Option Bytes :=
  match _hfind : frags.find? fun f => f.handshakeHeader.fragmentOffset = targetOffset with
  | none => none
  | some f =>
      let fragmentEnd := f.handshakeHeader.fragmentOffset + f.handshakeHeader.fragmentLength
      if _hgoes : fragmentEnd ≠ f.handshakeHeader.length ∧ f.handshakeHeader.fragmentLength ≠ 0 then
        (appendMessage frags fragmentEnd).map fun rawMessage => f.data ++ rawMessage
      else some f.data
termination_by remaining frags targetOffset
decreasing_by
  have hoffset : f.handshakeHeader.fragmentOffset = targetOffset := by
    simpa using List.find?_some _hfind
  exact remaining_lt (List.mem_of_find?_eq_some _hfind) hoffset (by omega)

/-- `FragmentBuffer`. -/
structure FragmentBuffer where
  cache : List Fragment
  currentMessageSequenceNumber : UInt16
  deriving DecidableEq

namespace FragmentBuffer

/-- `FragmentBuffer::new`. -/
def new : FragmentBuffer := ⟨[], 0⟩

/-- `FragmentBuffer::size`. -/
def size (buffer : FragmentBuffer) : ℕ :=
  (buffer.cache.map fun f => f.data.length).sum

/-- The entry of a message number. -/
def fragments (buffer : FragmentBuffer) (sequence : UInt16) : List Fragment :=
  buffer.cache.filter fun f => f.handshakeHeader.messageSequence = sequence

/-- The entries of other numbers stay when one is removed. -/
theorem fragments_filter (buffer : FragmentBuffer) (next : UInt16) {number other : UInt16}
    (hne : number ≠ other) :
    (FragmentBuffer.mk (buffer.cache.filter fun f => f.handshakeHeader.messageSequence ≠ other)
      next).fragments number = buffer.fragments number := by
  simp only [fragments, List.filter_filter]
  apply List.filter_congr
  intro f _
  by_cases hnumber : f.handshakeHeader.messageSequence = number
  · simp [hnumber, hne]
  · simp [hnumber]

/-- The loop of `push` over the handshake fragments of one record.  What it has stored
before an error stays. -/
def pushFragments (record : RecordLayerHeader) (buffer : FragmentBuffer) (buf : Bytes) :
    FragmentBuffer × Except (Fault Error) Bool :=
  if buf = [] then (buffer, .ok true)
  else
    match _hread : HandshakeHeader.unmarshal.run buf with
    | .error fault => (buffer, .error fault)
    | .ok (header, _) =>
        let endIndex := min (handshakeHeaderLength + header.length) buf.length
        let data := (buf.take endIndex).drop handshakeHeaderLength
        pushFragments record { buffer with cache := buffer.cache ++ [⟨record, header, data⟩] }
          (buf.drop endIndex)
termination_by buf.length
decreasing_by
  have htake := (HandshakeHeader.takes_unmarshal _ _ _ _hread).1
  simp only [handshakeHeaderLength] at htake
  simp only [List.length_drop, handshakeHeaderLength]
  omega

/-- `FragmentBuffer::push`: whether the record was a handshake record and is stored. -/
def push (buffer : FragmentBuffer) (buf : Bytes) : FragmentBuffer × Except (Fault Error) Bool :=
  if fragmentBufferMaxSize ≤ buffer.size + buf.length then
    (buffer, .error (.err
      (.errFragmentBufferOverflow (buffer.size + buf.length) fragmentBufferMaxSize)))
  else
    match RecordLayerHeader.unmarshal.run buf with
    | .error fault => (buffer, .error fault)
    | .ok (header, _) =>
        if header.contentType ≠ .handshake then (buffer, .ok false)
        else pushFragments header buffer (buf.drop recordLayerHeaderSize)

/-- `FragmentBuffer::pop`: the next message with its header, and the epoch of the record
that brought its first fragment. -/
def pop (buffer : FragmentBuffer) :
    FragmentBuffer × Except (Fault Error) (Bytes × UInt16) :=
  let seqNum := buffer.currentMessageSequenceNumber
  match buffer.fragments seqNum with
  | [] => (buffer, .error (.err .errEmptyFragment))
  | first :: frags =>
      match appendMessage (first :: frags) 0 with
      | none => (buffer, .error (.err .errEmptyFragment))
      | some rawMessage =>
          let firstHeader :=
            { first.handshakeHeader with
              fragmentOffset := 0
              fragmentLength := first.handshakeHeader.length }
          match firstHeader.marshal with
          | .error .panic => (buffer, .error .panic)
          | .error (.err _) => (buffer, .error (.err .errEmptyFragment))
          | .ok rawHeader =>
              (⟨buffer.cache.filter fun f => f.handshakeHeader.messageSequence ≠ seqNum,
                  seqNum + 1⟩,
                .ok (rawHeader ++ rawMessage, first.recordLayerHeader.epoch))

/-- A message that was popped leaves the buffer. -/
theorem length_cache_pop {buffer next : FragmentBuffer} {out : Bytes × UInt16}
    (hpop : buffer.pop = (next, .ok out)) : next.cache.length < buffer.cache.length := by
  unfold pop at hpop
  simp only at hpop
  split at hpop
  · cases hpop
  · rename_i first frags hfrags
    split at hpop
    · cases hpop
    · split at hpop
      · cases hpop
      · cases hpop
      · cases hpop
        have hmem : first ∈ buffer.fragments buffer.currentMessageSequenceNumber := by
          rw [hfrags]
          exact List.mem_cons_self
        obtain ⟨hcache, hsequence⟩ := List.mem_filter.mp hmem
        refine List.length_filter_lt_length_iff_exists.mpr ⟨first, hcache, ?_⟩
        simpa using hsequence

/-- The loop `while let Ok((out, epoch)) = pop()`: every message that is complete and in
order. -/
def drain (buffer : FragmentBuffer) : FragmentBuffer × List (Bytes × UInt16) :=
  match _hpop : buffer.pop with
  | (_, .error _) => (buffer, [])
  | (next, .ok out) => ((drain next).1, out :: (drain next).2)
termination_by buffer.cache.length
decreasing_by all_goals exact length_cache_pop _hpop

theorem drain_of_error {buffer same : FragmentBuffer} {fault : Fault Error}
    (hpop : buffer.pop = (same, .error fault)) : buffer.drain = (buffer, []) := by
  rw [drain]
  split
  · rfl
  · rename_i next out hok
    rw [hpop] at hok
    cases hok

theorem drain_of_ok {buffer next : FragmentBuffer} {out : Bytes × UInt16}
    (hpop : buffer.pop = (next, .ok out)) :
    buffer.drain = (next.drain.1, out :: next.drain.2) := by
  rw [drain]
  split
  · rename_i same fault herror
    rw [hpop] at herror
    cases herror
  · rename_i later found hok
    rw [hpop] at hok
    cases hok
    rfl

end FragmentBuffer

end AutonomiWebrtc.Dtls
