import AutonomiWebrtc.Dtls.Fragments
import AutonomiWebrtc.Library.Tiles
import Mathlib.Algebra.Order.BigOperators.Group.List

/-!
# Fragmentation and reassembly

The sending side of handshake messages, `fragment_handshake`, against the fragment buffer
of the receiving side.  A datagram network may lose, repeat and reorder records, and a
flight is sent again when no answer comes, so the buffer sees the fragments of the peer's
messages in any order, any number of times, and some of them not at all.

The result is `arrivals_reassemble`: whatever records of the peer arrive, the messages that
come out are the peer's first messages, whole and in order, and as many as can be put
together from what the buffer has accepted.
-/

namespace AutonomiWebrtc.Dtls

open Readers Tiles

/-! ## The sending side -/

/-- The loop of `fragment_handshake`: each piece behind a header with its own offset. -/
def fragmentPieces (header : HandshakeHeader) (offset : ℕ) :
    List Bytes → Except (Fault Error) (List Bytes)
  | [] => .ok []
  | contentFragment :: rest => do
      let raw ← HandshakeHeader.marshal
        { header with
          fragmentOffset := offset % 2 ^ 32
          fragmentLength := contentFragment.length % 2 ^ 32 }
      let fragments ← fragmentPieces header (offset + contentFragment.length) rest
      pure ((raw ++ contentFragment) :: fragments)

/-- `split_bytes`, which panics when it is to step by nothing. -/
def splitBytes (bytes : Bytes) (splitLen : ℕ) : Except (Fault Error) (List Bytes) :=
  if splitLen = 0 then .error .panic else .ok (Octets.chunks splitLen bytes)

/-- One empty piece when there is nothing to split. -/
def orEmptyPiece : List Bytes → List Bytes
  | [] => [[]]
  | pieces => pieces

/-- `fragment_handshake`. -/
def fragmentHandshake (maximumTransmissionUnit : ℕ) (h : Handshake) :
    Except (Fault Error) (List Bytes) := do
  let content ← h.handshakeMessage.marshal
  let splits ← splitBytes content maximumTransmissionUnit
  fragmentPieces h.handshakeHeader 0 (orEmptyPiece splits)

/-- The pieces of a message. -/
def contentFragments (maximumTransmissionUnit : ℕ) (content : Bytes) : List Bytes :=
  orEmptyPiece (Octets.chunks maximumTransmissionUnit content)

theorem flatten_contentFragments (mtu : ℕ) (content : Bytes) :
    (contentFragments mtu content).flatten = content := by
  have hflatten := Octets.flatten_chunks mtu content
  unfold contentFragments orEmptyPiece
  split
  · rename_i hnil
    rw [hnil] at hflatten
    simpa using hflatten
  · exact hflatten

theorem proper_contentFragments (mtu : ℕ) (content : Bytes) :
    Proper (contentFragments mtu content) := by
  unfold contentFragments orEmptyPiece
  split
  · exact .inl rfl
  · rename_i hne
    exact .inr ⟨hne, chunks_ne_nil mtu content⟩

theorem length_le_of_mem_contentFragments {mtu : ℕ} (hmtu : 0 < mtu) (content : Bytes) :
    ∀ piece ∈ contentFragments mtu content, piece.length ≤ mtu := by
  unfold contentFragments orEmptyPiece
  split
  · simp
  · exact length_le_of_mem_chunks hmtu content

/-- The header of the fragment of a message at an offset. -/
def fragmentHeader (header : HandshakeHeader) (offset : ℕ) (piece : Bytes) : HandshakeHeader :=
  { header with fragmentOffset := offset, fragmentLength := piece.length }

theorem valid_fragmentHeader {header : HandshakeHeader} {offset : ℕ} {piece : Bytes}
    {pieces : List Bytes} (hlength : header.length = pieces.flatten.length)
    (hlt : header.length < 2 ^ 24) (hmem : (offset, piece) ∈ tiles 0 pieces) :
    (fragmentHeader header offset piece).Valid := by
  have hle := le_length_of_mem_tiles hmem
  refine ⟨hlt, ?_, ?_⟩ <;> simp only [fragmentHeader] <;> omega

/-- Each piece is sent behind the header of its offset. -/
theorem fragmentPieces_eq {header : HandshakeHeader} (offset : ℕ) (pieces : List Bytes)
    (hlt : offset + pieces.flatten.length < 2 ^ 24) (hlength : header.length < 2 ^ 24) :
    fragmentPieces header offset pieces = .ok ((tiles offset pieces).map fun tile =>
      (fragmentHeader header tile.1 tile.2).octets ++ tile.2) := by
  induction pieces generalizing offset with
  | nil => rfl
  | cons piece pieces ih =>
      rw [List.flatten_cons, List.length_append] at hlt
      have hmarshal : HandshakeHeader.marshal
          { header with fragmentOffset := offset % 2 ^ 32, fragmentLength := piece.length % 2 ^ 32 } =
          .ok (fragmentHeader header offset piece).octets := by
        rw [Nat.mod_eq_of_lt (by omega), Nat.mod_eq_of_lt (by omega)]
        refine HandshakeHeader.marshal_of_valid ⟨hlength, ?_, ?_⟩ <;> dsimp only <;> omega
      rw [fragmentPieces, hmarshal, ih _ (by omega)]
      rfl

/-! ## Putting a message together -/

theorem appendMessage_of_find_none {frags : List Fragment} {offset : ℕ}
    (hfind : (frags.find? fun f => f.handshakeHeader.fragmentOffset = offset) = none) :
    appendMessage frags offset = none := by
  rw [appendMessage]
  split
  · rfl
  · rename_i f hsome
    rw [hfind] at hsome
    cases hsome

theorem appendMessage_of_find_some {frags : List Fragment} {offset : ℕ} {f : Fragment}
    (hfind : (frags.find? fun f => f.handshakeHeader.fragmentOffset = offset) = some f) :
    appendMessage frags offset =
      if f.handshakeHeader.fragmentOffset + f.handshakeHeader.fragmentLength ≠
          f.handshakeHeader.length ∧ f.handshakeHeader.fragmentLength ≠ 0 then
        (appendMessage frags
          (f.handshakeHeader.fragmentOffset + f.handshakeHeader.fragmentLength)).map
            fun rawMessage => f.data ++ rawMessage
      else some f.data := by
  rw [appendMessage]
  split
  · rename_i hnone
    rw [hfind] at hnone
    cases hnone
  · rename_i g hsome
    rw [hfind] at hsome
    cases hsome
    rfl

/-- The fragment carries a piece of a message cut into `pieces`. -/
structure Carries (pieces : List Bytes) (f : Fragment) : Prop where
  mem : (f.handshakeHeader.fragmentOffset, f.data) ∈ tiles 0 pieces
  fragmentLength : f.handshakeHeader.fragmentLength = f.data.length
  length : f.handshakeHeader.length = pieces.flatten.length

/-- Some fragment of the list starts at the offset. -/
def Starts (frags : List Fragment) (offset : ℕ) : Prop :=
  ∃ f ∈ frags, f.handshakeHeader.fragmentOffset = offset

/-- A message of several pieces, from one of them on.  The induction is on the pieces that
are still to come; `before` are those that lie in front. -/
theorem appendMessage_from {frags : List Fragment} {pieces : List Bytes}
    (before after : List Bytes) (hpieces : pieces = before ++ after) (hafter : after ≠ [])
    (hne : ∀ piece ∈ pieces, piece ≠ []) (hfrags : ∀ f ∈ frags, Carries pieces f) (raw : Bytes) :
    appendMessage frags before.flatten.length = some raw ↔
      raw = after.flatten ∧ ∀ tile ∈ tiles before.flatten.length after, Starts frags tile.1 := by
  induction after generalizing before raw with
  | nil => exact absurd rfl hafter
  | cons piece rest ih =>
      have hproper : Proper pieces := .inr ⟨by rw [hpieces]; simp, hne⟩
      have hpiece : piece ≠ [] := hne piece (by rw [hpieces]; simp)
      have htile : (before.flatten.length, piece) ∈ tiles 0 pieces := by
        rw [hpieces, tiles_append]
        simp [tiles]
      cases hfind : frags.find? fun f => f.handshakeHeader.fragmentOffset = before.flatten.length with
      | none =>
          rw [appendMessage_of_find_none hfind]
          refine iff_of_false (by simp) ?_
          rintro ⟨-, hstarts⟩
          obtain ⟨f, hf, hoffset⟩ := hstarts (before.flatten.length, piece) List.mem_cons_self
          simpa [hoffset] using List.find?_eq_none.mp hfind f hf
      | some f =>
          have hf := List.mem_of_find?_eq_some hfind
          have hoffset : f.handshakeHeader.fragmentOffset = before.flatten.length := by
            simpa using List.find?_some hfind
          have hcarries := hfrags f hf
          have hdata : f.data = piece :=
            eq_of_mem_tiles hproper (hoffset ▸ hcarries.mem) htile
          have hstarts : Starts frags before.flatten.length := ⟨f, hf, hoffset⟩
          have htotal : f.handshakeHeader.length =
              before.flatten.length + (piece.length + rest.flatten.length) := by
            rw [hcarries.length, hpieces]
            simp
          have hnext : f.handshakeHeader.fragmentOffset + f.handshakeHeader.fragmentLength =
              (before ++ [piece]).flatten.length := by
            rw [hoffset, hcarries.fragmentLength, hdata]
            simp
          have hflatten : (before ++ [piece]).flatten.length =
              before.flatten.length + piece.length := by simp
          rw [appendMessage_of_find_some hfind, hnext, htotal, hcarries.fragmentLength, hdata]
          simp only [tiles, List.forall_mem_cons]
          cases rest with
          | nil =>
              rw [if_neg (by rw [hflatten]; simp)]
              simp only [Option.some.injEq, List.flatten_cons, List.flatten_nil, List.append_nil,
                tiles, List.not_mem_nil, false_implies, implies_true, and_true, hstarts]
              exact eq_comm
          | cons second rest =>
              have hsecond : 0 < second.length :=
                List.length_pos_iff.mpr (hne second (by rw [hpieces]; simp))
              have hgoes : (before ++ [piece]).flatten.length ≠
                  before.flatten.length + (piece.length + (second :: rest).flatten.length) ∧
                    piece.length ≠ 0 := by
                refine ⟨?_, fun hzero => hpiece (List.length_eq_zero_iff.mp hzero)⟩
                rw [hflatten, List.flatten_cons, List.length_append]
                omega
              have hrest := fun raw => ih (before ++ [piece]) (by rw [hpieces]; simp)
                (List.cons_ne_nil _ _) raw
              rw [if_pos hgoes, Option.map_eq_some_iff]
              rw [← hflatten, List.flatten_cons]
              constructor
              · rintro ⟨tail, htail, rfl⟩
                obtain ⟨rfl, hall⟩ := (hrest tail).mp htail
                exact ⟨rfl, hstarts, hall⟩
              · rintro ⟨rfl, -, hall⟩
                exact ⟨_, (hrest _).mpr ⟨rfl, hall⟩, rfl⟩

/-- **One message.**  From fragments of one message, `append_message` makes the message if
a fragment starts at each of its offsets, and nothing otherwise. -/
theorem appendMessage_eq_some {frags : List Fragment} {pieces : List Bytes}
    (hproper : Proper pieces) (hfrags : ∀ f ∈ frags, Carries pieces f) (raw : Bytes) :
    appendMessage frags 0 = some raw ↔
      raw = pieces.flatten ∧ ∀ tile ∈ tiles 0 pieces, Starts frags tile.1 := by
  rcases hproper with rfl | ⟨hpieces, hne⟩
  · -- the one empty piece of an empty message
    simp only [tiles, List.forall_mem_singleton]
    cases hfind : frags.find? fun f => f.handshakeHeader.fragmentOffset = 0 with
    | none =>
        rw [appendMessage_of_find_none hfind]
        refine iff_of_false (by simp) ?_
        rintro ⟨-, f, hf, hoffset⟩
        simpa [hoffset] using List.find?_eq_none.mp hfind f hf
    | some f =>
        have hf := List.mem_of_find?_eq_some hfind
        have hoffset : f.handshakeHeader.fragmentOffset = 0 := by
          simpa using List.find?_some hfind
        have hcarries := hfrags f hf
        have hdata : f.data = [] := by
          have := hcarries.mem
          simp only [tiles, List.mem_singleton, Prod.mk.injEq] at this
          exact this.2
        rw [appendMessage_of_find_some hfind,
          if_neg (by rw [hcarries.fragmentLength, hdata]; simp), hdata]
        simp only [Option.some.injEq, List.flatten_cons, List.flatten_nil, List.append_nil]
        constructor
        · rintro rfl
          exact ⟨rfl, f, hf, hoffset⟩
        · rintro ⟨rfl, -⟩
          rfl
  · have hall := appendMessage_from [] pieces rfl hpieces hne hfrags raw
    simpa using hall

/-! ## The messages of a peer -/

/-- A message as it is sent: its header and the pieces it is cut into. -/
structure Message where
  header : HandshakeHeader
  pieces : List Bytes
  proper : Proper pieces
  fragmentOffset : header.fragmentOffset = 0
  fragmentLength : header.fragmentLength = header.length
  length : header.length = pieces.flatten.length
  fits : header.length < 2 ^ 24

namespace Message

/-- The piece at an offset behind its header. -/
def wire (message : Message) (tile : ℕ × Bytes) : Bytes :=
  (fragmentHeader message.header tile.1 tile.2).octets ++ tile.2

/-- The whole message behind its header. -/
def whole (message : Message) : Bytes :=
  message.header.octets ++ message.pieces.flatten

/-- The fragment is one of the message's. -/
structure Belongs (message : Message) (f : Fragment) : Prop where
  mem : (f.handshakeHeader.fragmentOffset, f.data) ∈ tiles 0 message.pieces
  header : f.handshakeHeader =
    fragmentHeader message.header f.handshakeHeader.fragmentOffset f.data

theorem Belongs.carries {message : Message} {f : Fragment} (hbelongs : message.Belongs f) :
    Carries message.pieces f where
  mem := hbelongs.mem
  fragmentLength := by
    rw [hbelongs.header]
    rfl
  length := by
    rw [hbelongs.header]
    exact message.length

theorem Belongs.messageSequence {message : Message} {f : Fragment}
    (hbelongs : message.Belongs f) :
    f.handshakeHeader.messageSequence = message.header.messageSequence := by
  rw [hbelongs.header]
  rfl

theorem valid_of_mem (message : Message) {tile : ℕ × Bytes}
    (htile : tile ∈ tiles 0 message.pieces) :
    (fragmentHeader message.header tile.1 tile.2).Valid :=
  valid_fragmentHeader message.length message.fits htile

/-- What is on the wire names the message's number and the offset. -/
theorem wire_inj {first second : Message} {tile other : ℕ × Bytes}
    (htile : tile ∈ tiles 0 first.pieces) (hother : other ∈ tiles 0 second.pieces)
    (hwire : first.wire tile = second.wire other) :
    first.header.messageSequence = second.header.messageSequence ∧ tile.1 = other.1 := by
  have hfirst := HandshakeHeader.reads_unmarshal (first.valid_of_mem htile) tile.2
  have hsecond := HandshakeHeader.reads_unmarshal (second.valid_of_mem hother) other.2
  rw [← wire, hwire, wire, hsecond] at hfirst
  have hheader : fragmentHeader second.header other.1 other.2 =
      fragmentHeader first.header tile.1 tile.2 := by
    simp only [Except.ok.injEq, Prod.mk.injEq] at hfirst
    exact hfirst.1
  simp only [fragmentHeader, HandshakeHeader.mk.injEq] at hheader
  exact ⟨hheader.2.2.1.symm, hheader.2.2.2.1.symm⟩

end Message

namespace FragmentBuffer

/-- A record with one piece of a message is stored, unless the buffer is full. -/
theorem push_wire (buffer : FragmentBuffer) {record : RecordLayerHeader} {message : Message}
    {tile : ℕ × Bytes} (hvalid : record.Valid) (htype : record.contentType = .handshake)
    (htile : tile ∈ tiles 0 message.pieces) :
    buffer.push (record.octets ++ message.wire tile) =
      if fragmentBufferMaxSize ≤ buffer.size + (record.octets ++ message.wire tile).length then
        (buffer, .error (.err (.errFragmentBufferOverflow
          (buffer.size + (record.octets ++ message.wire tile).length) fragmentBufferMaxSize)))
      else
        (⟨buffer.cache ++ [⟨record, fragmentHeader message.header tile.1 tile.2, tile.2⟩],
          buffer.currentMessageSequenceNumber⟩, .ok true) := by
  have hrecord := RecordLayerHeader.reads_unmarshal hvalid (message.wire tile)
  have hheader := HandshakeHeader.reads_unmarshal (message.valid_of_mem htile) tile.2
  have hlength : tile.2.length ≤ (fragmentHeader message.header tile.1 tile.2).length := by
    have hle := le_length_of_mem_tiles htile
    have htotal := message.length
    simp only [fragmentHeader]
    omega
  have hdrop : (record.octets ++ message.wire tile).drop recordLayerHeaderSize =
      message.wire tile := List.drop_left' record.length_octets
  unfold push
  split
  · rfl
  · rw [hrecord]
    simp only [htype, ne_eq, not_true_eq_false, if_false, hdrop]
    rw [pushFragments, if_neg (by simp [Message.wire, HandshakeHeader.octets])]
    split
    · rename_i fault herror
      rw [← Message.wire, herror] at hheader
      cases hheader
    · rename_i header rest hok
      rw [← Message.wire, hok] at hheader
      cases hheader
      have hend : min (handshakeHeaderLength +
          (fragmentHeader message.header tile.1 tile.2).length) (message.wire tile).length =
          (message.wire tile).length := by
        rw [Message.wire, List.length_append, HandshakeHeader.length_octets]
        omega
      simp only [hend, List.take_length, List.drop_length]
      rw [pushFragments, if_pos rfl, Message.wire,
        List.drop_left' (HandshakeHeader.length_octets _)]

end FragmentBuffer

/-- The messages of a peer, each under its place as its number. -/
structure Peer where
  messages : List Message
  numbered : ∀ {index message}, messages[index]? = some message →
    message.header.messageSequence = UInt16.ofNat index
  fits : messages.length < 2 ^ 16

theorem ofNat_inj {first second : ℕ} (hfirst : first < 2 ^ 16) (hsecond : second < 2 ^ 16)
    (heq : UInt16.ofNat first = UInt16.ofNat second) : first = second := by
  have htoNat := congrArg UInt16.toNat heq
  rw [UInt16.toNat_ofNat', UInt16.toNat_ofNat'] at htoNat
  omega

/-- A number below `2 ^ 16` names one message. -/
theorem Peer.lt_of_getElem? {peer : Peer} {index : ℕ} {message : Message}
    (hmessage : peer.messages[index]? = some message) : index < 2 ^ 16 :=
  (List.getElem?_eq_some_iff.mp hmessage).1.trans peer.fits

/-! ## The receiving side -/

/-- The buffer, the records it has taken, and the messages that came out with the epochs of
the records that brought them. -/
structure Arrivals where
  buffer : FragmentBuffer
  taken : List Bytes
  delivered : List (Bytes × UInt16)

namespace Arrivals

/-- The buffer of a new connection. -/
def new : Arrivals := ⟨.new, [], []⟩

/-- A record of the peer, as `handle_incoming_packet` treats it: `push`, and after a
handshake record all that can be popped. -/
def arrive (state : Arrivals) (record : Bytes) : Arrivals :=
  match state.buffer.push record with
  | (buffer, .ok true) =>
      ⟨buffer.drain.1, state.taken ++ [record], state.delivered ++ buffer.drain.2⟩
  | (buffer, _) => { state with buffer := buffer }

/-- Some record with these contents was taken. -/
def Taken (state : Arrivals) (contents : Bytes) : Prop :=
  ∃ header : RecordLayerHeader, header.octets ++ contents ∈ state.taken

/-- After `next` messages have come out: they are the peer's first ones, what is in the
buffer is the peer's and was taken, and of the messages to come nothing taken is lost.  The
buffer holds no more than what was taken. -/
structure Inv (peer : Peer) (state : Arrivals) (next : ℕ) : Prop where
  current : state.buffer.currentMessageSequenceNumber = UInt16.ofNat next
  next_le : next ≤ peer.messages.length
  delivered : state.delivered.map Prod.fst = (peer.messages.take next).map Message.whole
  cached : ∀ f ∈ state.buffer.cache, ∃ (index : ℕ) (message : Message),
    peer.messages[index]? = some message ∧ message.Belongs f ∧
      state.Taken (message.wire (f.handshakeHeader.fragmentOffset, f.data))
  waiting : ∀ (index : ℕ) (message : Message) (tile : ℕ × Bytes), next ≤ index →
    peer.messages[index]? = some message → tile ∈ tiles 0 message.pieces →
      state.Taken (message.wire tile) →
        Starts (state.buffer.fragments (UInt16.ofNat index)) tile.1
  complete : ∀ (index : ℕ) (message : Message) (tile : ℕ × Bytes), index < next →
    peer.messages[index]? = some message → tile ∈ tiles 0 message.pieces →
      state.Taken (message.wire tile)
  size_le : state.buffer.size ≤ (state.taken.map List.length).sum

variable {peer : Peer} {state : Arrivals} {next : ℕ}

/-- The entry of a number holds the pieces of the message of that number. -/
theorem Inv.belongs (hinv : Inv peer state next) {index : ℕ} (hindex : index < 2 ^ 16)
    {f : Fragment} (hf : f ∈ state.buffer.fragments (UInt16.ofNat index)) :
    ∃ message, peer.messages[index]? = some message ∧ message.Belongs f ∧
      state.Taken (message.wire (f.handshakeHeader.fragmentOffset, f.data)) := by
  obtain ⟨hcache, hsequence⟩ := List.mem_filter.mp hf
  obtain ⟨other, message, hmessage, hbelongs, htaken⟩ := hinv.cached f hcache
  have hsame : other = index := by
    apply ofNat_inj (Peer.lt_of_getElem? hmessage) hindex
    rw [← peer.numbered hmessage, ← hbelongs.messageSequence]
    exact of_decide_eq_true hsequence
  exact ⟨message, hsame ▸ hmessage, hbelongs, htaken⟩

/-- A piece of the next message that is in the buffer was taken. -/
theorem Inv.taken_of_starts (hinv : Inv peer state next) {message : Message}
    (hmessage : peer.messages[next]? = some message) {tile : ℕ × Bytes}
    (htile : tile ∈ tiles 0 message.pieces)
    (hstarts : Starts (state.buffer.fragments (UInt16.ofNat next)) tile.1) :
    state.Taken (message.wire tile) := by
  obtain ⟨f, hf, hoffset⟩ := hstarts
  obtain ⟨other, hother, hbelongs, htaken⟩ := hinv.belongs (Peer.lt_of_getElem? hmessage) hf
  obtain rfl : message = other := Option.some.inj (hmessage.symm.trans hother)
  have hmem := hbelongs.mem
  rw [hoffset] at hmem htaken
  rwa [← eq_of_mem_tiles message.proper htile hmem] at htaken

/-- The next message can be put together when each of its pieces was taken. -/
theorem Inv.appendMessage (hinv : Inv peer state next) {message : Message}
    (hmessage : peer.messages[next]? = some message) (raw : Bytes) :
    appendMessage (state.buffer.fragments (UInt16.ofNat next)) 0 = some raw ↔
      raw = message.pieces.flatten ∧
        ∀ tile ∈ tiles 0 message.pieces, state.Taken (message.wire tile) := by
  have hcarries : ∀ f ∈ state.buffer.fragments (UInt16.ofNat next), Carries message.pieces f := by
    intro f hf
    obtain ⟨other, hother, hbelongs, -⟩ := hinv.belongs (Peer.lt_of_getElem? hmessage) hf
    obtain rfl : message = other := Option.some.inj (hmessage.symm.trans hother)
    exact hbelongs.carries
  rw [appendMessage_eq_some message.proper hcarries]
  constructor
  · rintro ⟨rfl, hstarts⟩
    exact ⟨rfl, fun tile htile => hinv.taken_of_starts hmessage htile (hstarts tile htile)⟩
  · rintro ⟨rfl, htaken⟩
    exact ⟨rfl, fun tile htile => hinv.waiting next message tile (Nat.le_refl _) hmessage htile
      (htaken tile htile)⟩

/-- Each piece of the next message was taken. -/
def NextComplete (peer : Peer) (state : Arrivals) (next : ℕ) : Prop :=
  ∃ message, peer.messages[next]? = some message ∧
    ∀ tile ∈ tiles 0 message.pieces, state.Taken (message.wire tile)

/-- The state after the next message has come out. -/
def popped (state : Arrivals) (next : ℕ) (message : Message) (epoch : UInt16) : Arrivals where
  buffer :=
    ⟨state.buffer.cache.filter fun f => f.handshakeHeader.messageSequence ≠ UInt16.ofNat next,
      UInt16.ofNat (next + 1)⟩
  taken := state.taken
  delivered := state.delivered ++ [(message.whole, epoch)]

theorem Inv.popped (hinv : Inv peer state next) {message : Message}
    (hmessage : peer.messages[next]? = some message)
    (hall : ∀ tile ∈ tiles 0 message.pieces, state.Taken (message.wire tile)) (epoch : UInt16) :
    Inv peer (state.popped next message epoch) (next + 1) where
  current := rfl
  next_le := (List.getElem?_eq_some_iff.mp hmessage).1
  delivered := by
    rw [Arrivals.popped, List.map_append, hinv.delivered, List.take_add_one, hmessage]
    simp
  cached f hf := hinv.cached f (List.mem_of_mem_filter hf)
  waiting index other tile hindex hother htile htaken := by
    have hne : UInt16.ofNat index ≠ UInt16.ofNat next := by
      intro heq
      have := ofNat_inj (Peer.lt_of_getElem? hother) (Peer.lt_of_getElem? hmessage) heq
      omega
    rw [Arrivals.popped, state.buffer.fragments_filter _ hne]
    exact hinv.waiting index other tile (by omega) hother htile htaken
  complete index other tile hindex hother htile := by
    rcases Nat.lt_succ_iff_lt_or_eq.mp hindex with hlt | rfl
    · exact hinv.complete index other tile hlt hother htile
    · obtain rfl : message = other := Option.some.inj (hmessage.symm.trans hother)
      exact hall tile htile
  size_le := by
    exact Nat.le_trans (List.Sublist.sum_le_sum (List.filter_sublist.map _) (by simp)) hinv.size_le

/-- `pop` returns the next message when it is complete. -/
theorem Inv.pop_of_complete (hinv : Inv peer state next) {message : Message}
    (hmessage : peer.messages[next]? = some message)
    (hall : ∀ tile ∈ tiles 0 message.pieces, state.Taken (message.wire tile)) :
    ∃ epoch, state.buffer.pop =
      ((state.popped next message epoch).buffer, .ok (message.whole, epoch)) := by
  have happend := (hinv.appendMessage hmessage _).mpr ⟨rfl, hall⟩
  unfold FragmentBuffer.pop
  simp only [hinv.current]
  cases hfrags : state.buffer.fragments (UInt16.ofNat next) with
  | nil =>
      rw [hfrags, appendMessage_of_find_none List.find?_nil] at happend
      cases happend
  | cons first frags =>
      have hfirst : first ∈ state.buffer.fragments (UInt16.ofNat next) := by
        rw [hfrags]
        exact List.mem_cons_self
      obtain ⟨other, hother, hbelongs, -⟩ := hinv.belongs (Peer.lt_of_getElem? hmessage) hfirst
      obtain rfl : message = other := Option.some.inj (hmessage.symm.trans hother)
      have hheader : { first.handshakeHeader with
          fragmentOffset := 0, fragmentLength := first.handshakeHeader.length } =
            message.header := by
        rw [hbelongs.header]
        simp only [fragmentHeader]
        rw [← message.fragmentOffset]
        nth_rewrite 2 [← message.fragmentLength]
        rfl
      have hvalid : message.header.Valid :=
        ⟨message.fits, by rw [message.fragmentOffset]; omega,
          by rw [message.fragmentLength]; exact message.fits⟩
      rw [hfrags] at happend
      simp only [happend, hheader, HandshakeHeader.marshal_of_valid hvalid]
      refine ⟨first.recordLayerHeader.epoch, ?_⟩
      simp only [Arrivals.popped, Message.whole, Prod.mk.injEq, FragmentBuffer.mk.injEq, true_and,
        and_true]
      exact (UInt16.ofNat_add next 1).symm

/-- `pop` fails while a piece of the next message is missing. -/
theorem Inv.pop_of_incomplete (hinv : Inv peer state next)
    (hincomplete : ¬ NextComplete peer state next) :
    ∃ fault, state.buffer.pop = (state.buffer, .error fault) := by
  unfold FragmentBuffer.pop
  simp only [hinv.current]
  cases hfrags : state.buffer.fragments (UInt16.ofNat next) with
  | nil => exact ⟨_, rfl⟩
  | cons first frags =>
      cases happend : Dtls.appendMessage (first :: frags) 0 with
      | none => exact ⟨.err .errEmptyFragment, by simp only [happend]⟩
      | some raw =>
          have hlt : next < 2 ^ 16 := hinv.next_le.trans_lt peer.fits
          obtain ⟨message, hmessage, -⟩ := hinv.belongs hlt (hfrags ▸ List.mem_cons_self)
          rw [← hfrags, hinv.appendMessage hmessage] at happend
          exact absurd ⟨message, hmessage, happend.2⟩ hincomplete

/-- **Draining.**  All complete messages come out, and the next one is not complete. -/
theorem Inv.drain {state : Arrivals} {next : ℕ} (hinv : Inv peer state next) :
    ∃ later, Inv peer ⟨state.buffer.drain.1, state.taken,
      state.delivered ++ state.buffer.drain.2⟩ later ∧
        ¬ NextComplete peer ⟨state.buffer.drain.1, state.taken,
          state.delivered ++ state.buffer.drain.2⟩ later := by
  -- each round leaves fewer messages to come
  by_cases hcomplete : NextComplete peer state next
  · obtain ⟨message, hmessage, hall⟩ := hcomplete
    obtain ⟨epoch, hpop⟩ := hinv.pop_of_complete hmessage hall
    have hlt : next < peer.messages.length := (List.getElem?_eq_some_iff.mp hmessage).1
    obtain ⟨later, hlater, hstop⟩ := Inv.drain (hinv.popped hmessage hall epoch)
    rw [FragmentBuffer.drain_of_ok hpop]
    simp only [Arrivals.popped, List.append_assoc, List.singleton_append] at hlater hstop
    exact ⟨later, hlater, hstop⟩
  · obtain ⟨fault, hpop⟩ := hinv.pop_of_incomplete hcomplete
    rw [FragmentBuffer.drain_of_error hpop, List.append_nil]
    exact ⟨next, hinv, hcomplete⟩
termination_by peer.messages.length - next

/-- The record carries a piece of one of the peer's messages. -/
structure Sent (peer : Peer) (record : Bytes) (header : RecordLayerHeader) (index : ℕ)
    (message : Message) (tile : ℕ × Bytes) : Prop where
  valid : header.Valid
  contentType : header.contentType = .handshake
  getElem? : peer.messages[index]? = some message
  mem : tile ∈ tiles 0 message.pieces
  eq : record = header.octets ++ message.wire tile

/-- The state after the buffer has stored a piece. -/
def stored (state : Arrivals) (record : Bytes) (f : Fragment) : Arrivals where
  buffer := ⟨state.buffer.cache ++ [f], state.buffer.currentMessageSequenceNumber⟩
  taken := state.taken ++ [record]
  delivered := state.delivered

theorem Taken.stored {contents : Bytes} (htaken : state.Taken contents) (record : Bytes)
    (f : Fragment) : (state.stored record f).Taken contents := by
  obtain ⟨header, hmem⟩ := htaken
  exact ⟨header, List.mem_append_left _ hmem⟩

theorem Starts.mono {frags more : List Fragment} {offset : ℕ} (hstarts : Starts frags offset)
    (hsub : frags ⊆ more) : Starts more offset := by
  obtain ⟨f, hf, hoffset⟩ := hstarts
  exact ⟨f, hsub hf, hoffset⟩

theorem Inv.stored (hinv : Inv peer state next) {record : Bytes} {header : RecordLayerHeader}
    {index : ℕ} {message : Message} {tile : ℕ × Bytes}
    (hsent : Sent peer record header index message tile) :
    Inv peer (state.stored record
      ⟨header, fragmentHeader message.header tile.1 tile.2, tile.2⟩) next where
  current := hinv.current
  next_le := hinv.next_le
  delivered := hinv.delivered
  cached f hf := by
    rcases List.mem_append.mp hf with hold | hnew
    · obtain ⟨other, found, hfound, hbelongs, htaken⟩ := hinv.cached f hold
      exact ⟨other, found, hfound, hbelongs, htaken.stored _ _⟩
    · obtain rfl := List.mem_singleton.mp hnew
      refine ⟨index, message, hsent.getElem?, ⟨hsent.mem, rfl⟩, header, ?_⟩
      rw [Arrivals.stored, hsent.eq]
      exact List.mem_append_right _ List.mem_cons_self
  waiting other found piece hle hfound hpiece htaken := by
    obtain ⟨recordHeader, hmem⟩ := htaken
    rcases List.mem_append.mp hmem with hold | hnew
    · refine Starts.mono (hinv.waiting other found piece hle hfound hpiece ⟨_, hold⟩) ?_
      simp [FragmentBuffer.fragments, Arrivals.stored]
    · -- the record just stored: its contents name the message and the offset
      have hrecord := (List.mem_singleton.mp hnew).trans hsent.eq
      obtain ⟨-, hwire⟩ := List.append_inj hrecord (by simp)
      obtain ⟨hsequence, hoffset⟩ := Message.wire_inj hpiece hsent.mem hwire
      refine ⟨⟨header, fragmentHeader message.header tile.1 tile.2, tile.2⟩, ?_, hoffset.symm⟩
      rw [peer.numbered hfound] at hsequence
      simp [FragmentBuffer.fragments, Arrivals.stored, fragmentHeader, hsequence]
  complete other found piece hlt hfound hpiece :=
    (hinv.complete other found piece hlt hfound hpiece).stored _ _
  size_le := by
    have hsize := hinv.size_le
    have hlength : tile.2.length ≤ record.length := by
      rw [hsent.eq, Message.wire]
      simp only [List.length_append]
      omega
    simp only [FragmentBuffer.size, Arrivals.stored, List.map_append, List.sum_append,
      List.map_cons, List.map_nil, List.sum_cons, List.sum_nil] at hsize ⊢
    omega

/-- Between two records nothing is left to pop. -/
def Settled (peer : Peer) (state : Arrivals) : Prop :=
  ∃ next, Inv peer state next ∧ ¬ NextComplete peer state next

theorem settled_new (peer : Peer) : Settled peer new := by
  refine ⟨0, ⟨rfl, Nat.zero_le _, rfl, ?_, ?_, ?_, Nat.le_refl _⟩, ?_⟩
  · rintro f hf
    cases hf
  · rintro index message tile - - - ⟨header, hmem⟩
    cases hmem
  · intro index message tile hlt
    omega
  · rintro ⟨message, -, hall⟩
    obtain ⟨first, rest, hpieces⟩ := List.exists_cons_of_ne_nil message.proper.ne_nil
    obtain ⟨header, hmem⟩ := hall (0, first) (by rw [hpieces]; exact List.mem_cons_self)
    cases hmem

/-- **One record.**  A record of the peer is taken unless the buffer is full, and what is
complete afterwards comes out. -/
theorem Settled.arrive (hsettled : Settled peer state) {record : Bytes}
    (hsent : ∃ header index message tile, Sent peer record header index message tile) :
    Settled peer (state.arrive record) ∧
      (state.arrive record).taken =
        if fragmentBufferMaxSize ≤ state.buffer.size + record.length then state.taken
        else state.taken ++ [record] := by
  obtain ⟨header, index, message, tile, hsent⟩ := hsent
  obtain ⟨next, hinv, hstop⟩ := hsettled
  have hpush := state.buffer.push_wire hsent.valid hsent.contentType hsent.mem
  rw [← hsent.eq] at hpush
  unfold Arrivals.arrive
  by_cases hfull : fragmentBufferMaxSize ≤ state.buffer.size + record.length
  · rw [hpush, if_pos hfull, if_pos hfull]
    exact ⟨⟨next, hinv, hstop⟩, rfl⟩
  · rw [hpush, if_neg hfull, if_neg hfull]
    exact ⟨(hinv.stored hsent).drain, rfl⟩

/-- The records that arrive one after another. -/
def run (records : List Bytes) : Arrivals := records.foldl arrive new

/-- **Many records.**  The invariant at the end of a run, and, when there is room for all of
them, that all records were taken. -/
theorem Settled.foldl {records : List Bytes} (hsettled : Settled peer state)
    (hsent : ∀ record ∈ records, ∃ header index message tile,
      Sent peer record header index message tile) :
    Settled peer (records.foldl Arrivals.arrive state) ∧
      ((state.taken.map List.length).sum + (records.map List.length).sum < fragmentBufferMaxSize →
        (records.foldl Arrivals.arrive state).taken = state.taken ++ records) := by
  induction records generalizing state with
  | nil => exact ⟨hsettled, fun _ => by simp⟩
  | cons record rest ih =>
      rw [List.forall_mem_cons] at hsent
      obtain ⟨harrive, htaken⟩ := hsettled.arrive hsent.1
      obtain ⟨hrest, hall⟩ := ih harrive hsent.2
      refine ⟨hrest, fun hroom => ?_⟩
      obtain ⟨next, hinv, -⟩ := hsettled
      have hsize := hinv.size_le
      simp only [List.map_cons, List.sum_cons] at hroom
      rw [if_neg (by omega)] at htaken
      rw [List.foldl_cons, hall, htaken]
      · simp
      · rw [htaken]
        simp only [List.map_append, List.sum_append, List.map_cons, List.map_nil, List.sum_cons,
          List.sum_nil]
        omega

end Arrivals

/-! ## The messages as they are sent -/

section Sending

variable {mtu : ℕ}

/-- A handshake message with the pieces that `fragment_handshake` cuts. -/
def Message.ofHandshake (mtu : ℕ) (message : HandshakeMessage) (sequence : UInt16)
    (content : Bytes) (hcontent : message.marshal = .ok content) (hsize : message.size < 2 ^ 24) :
    Message where
  header := (Handshake.numbered message sequence).handshakeHeader
  pieces := contentFragments mtu content
  proper := proper_contentFragments mtu content
  fragmentOffset := rfl
  fragmentLength := rfl
  length := by
    rw [flatten_contentFragments, HandshakeMessage.length_of_marshal hcontent]
    exact Nat.mod_eq_of_lt (by omega)
  fits := (Handshake.valid_numbered hsize sequence).length

theorem fragmentHandshake_eq (hmtu : 0 < mtu) {message : HandshakeMessage} {sequence : UInt16}
    {content : Bytes} (hcontent : message.marshal = .ok content) (hsize : message.size < 2 ^ 24) :
    fragmentHandshake mtu (Handshake.numbered message sequence) =
      .ok ((tiles 0 (contentFragments mtu content)).map
        (Message.ofHandshake mtu message sequence content hcontent hsize).wire) := by
  have hlength := HandshakeMessage.length_of_marshal hcontent
  have hmessage : (Handshake.numbered message sequence).handshakeMessage.marshal = .ok content :=
    hcontent
  have hsplit : splitBytes content mtu = .ok (Octets.chunks mtu content) :=
    if_neg (Nat.pos_iff_ne_zero.mp hmtu)
  have hpieces := fragmentPieces_eq 0 (contentFragments mtu content)
    (by rw [flatten_contentFragments]; omega) (Handshake.valid_numbered hsize sequence).length
  rw [fragmentHandshake, hmessage]
  show (splitBytes content mtu >>= fun splits => fragmentPieces
    (Handshake.numbered message sequence).handshakeHeader 0 (orEmptyPiece splits)) = _
  rw [hsplit]
  exact hpieces

theorem marshal_ofHandshake {message : HandshakeMessage} {sequence : UInt16} {content : Bytes}
    (hcontent : message.marshal = .ok content) (hsize : message.size < 2 ^ 24) :
    (Handshake.numbered message sequence).marshal =
      .ok (Message.ofHandshake mtu message sequence content hcontent hsize).whole := by
  rw [Handshake.marshal_numbered hcontent hsize, Message.whole, Message.ofHandshake,
    flatten_contentFragments]

/-- How a handshake message is sent under its place as its number. -/
structure SentAs (mtu : ℕ) (message : HandshakeMessage) (index : ℕ) (sent : Message) : Prop where
  marshal : (Handshake.numbered message (UInt16.ofNat index)).marshal = .ok sent.whole
  fragments : fragmentHandshake mtu (Handshake.numbered message (UInt16.ofNat index)) =
    .ok ((tiles 0 sent.pieces).map sent.wire)
  header : sent.header = (Handshake.numbered message (UInt16.ofNat index)).handshakeHeader
  length_le : ∀ piece ∈ sent.pieces, piece.length ≤ mtu

/-- The peer that sends these messages, numbered from zero. -/
theorem exists_peer (hmtu : 0 < mtu) {messages : List HandshakeMessage}
    (hmarshal : ∀ message ∈ messages, ∃ content, message.marshal = .ok content)
    (hsize : ∀ message ∈ messages, message.size < 2 ^ 24) (hlength : messages.length < 2 ^ 16) :
    ∃ peer : Peer, peer.messages.length = messages.length ∧
      ∀ index message, messages[index]? = some message →
        ∃ sent, peer.messages[index]? = some sent ∧ SentAs mtu message index sent := by
  choose content hcontent using hmarshal
  let send (index : Fin messages.length) : Message :=
    .ofHandshake mtu messages[index] (UInt16.ofNat index) (content _ (List.getElem_mem _))
      (hcontent _ (List.getElem_mem _)) (hsize _ (List.getElem_mem _))
  refine ⟨⟨List.ofFn send, ?_, by rw [List.length_ofFn]; exact hlength⟩, List.length_ofFn, ?_⟩
  · intro index message hmessage
    obtain ⟨hlt, rfl⟩ := List.getElem?_eq_some_iff.mp hmessage
    rw [List.getElem_ofFn]
    rfl
  · intro index message hmessage
    obtain ⟨hlt, rfl⟩ := List.getElem?_eq_some_iff.mp hmessage
    refine ⟨send ⟨index, hlt⟩, ?_, ⟨marshal_ofHandshake _ _, fragmentHandshake_eq hmtu _ _, rfl,
      length_le_of_mem_contentFragments hmtu _⟩⟩
    rw [List.getElem?_ofFn, dif_pos hlt]

/-- What is said of the first messages of the peer is said of the messages it sends. -/
theorem map_take_eq_mapIdx {β : Type} {peer : Peer} {messages : List HandshakeMessage}
    (hpeer : peer.messages.length = messages.length)
    (hsends : ∀ index message, messages[index]? = some message →
      ∃ sent, peer.messages[index]? = some sent ∧ SentAs mtu message index sent)
    {view : Message → β} {view' : ℕ → HandshakeMessage → β}
    (hview : ∀ {index message sent}, SentAs mtu message index sent →
      view sent = view' index message) (count : ℕ) :
    (peer.messages.take count).map view = (messages.take count).mapIdx view' := by
  apply List.ext_getElem?
  intro index
  rw [List.getElem?_map, List.getElem?_mapIdx, List.getElem?_take, List.getElem?_take]
  by_cases hcount : index < count
  · rw [if_pos hcount, if_pos hcount]
    cases hmessage : messages[index]? with
    | none =>
        rw [List.getElem?_eq_none_iff, ← hpeer, ← List.getElem?_eq_none_iff] at hmessage
        rw [hmessage]
        rfl
    | some message =>
        obtain ⟨sent, hget, hsent⟩ := hsends index message hmessage
        rw [hget, Option.map_some, Option.map_some, hview hsent]
  · rw [if_neg hcount, if_neg hcount]
    rfl

/-- A record with a fragment of one of the messages, numbered from zero. -/
def Sends (mtu : ℕ) (messages : List HandshakeMessage) (record : Bytes) : Prop :=
  ∃ (header : RecordLayerHeader) (index : ℕ) (message : HandshakeMessage)
    (fragments : List Bytes) (fragment : Bytes),
    header.Valid ∧ header.contentType = .handshake ∧ messages[index]? = some message ∧
      fragmentHandshake mtu (Handshake.numbered message (UInt16.ofNat index)) = .ok fragments ∧
      fragment ∈ fragments ∧ record = header.octets ++ fragment

/-- **Reassembly.**  Records with fragments of a peer's messages arrive in any order, any
number of times, and some not at all.  The messages that come out are the first `count` of
the peer, whole and in order; every fragment of them was taken, and of the next message one
was not.  Records are refused only when there are too many octets. -/
theorem arrivals_reassemble (hmtu : 0 < mtu) {messages : List HandshakeMessage}
    (hmarshal : ∀ message ∈ messages, ∃ content, message.marshal = .ok content)
    (hsize : ∀ message ∈ messages, message.size < 2 ^ 24) (hlength : messages.length < 2 ^ 16)
    {records : List Bytes} (hrecords : ∀ record ∈ records, Sends mtu messages record) :
    ∃ count ≤ messages.length,
      (Arrivals.run records).delivered.map (fun out => Except.ok out.1) =
        (messages.take count).mapIdx (fun index message =>
          (Handshake.numbered message (UInt16.ofNat index)).marshal) ∧
      (∀ index message, messages[index]? = some message → ∃ fragments,
        fragmentHandshake mtu (Handshake.numbered message (UInt16.ofNat index)) = .ok fragments ∧
        (index < count → ∀ fragment ∈ fragments, (Arrivals.run records).Taken fragment) ∧
        (index = count → ∃ fragment ∈ fragments, ¬ (Arrivals.run records).Taken fragment)) ∧
      ((records.map List.length).sum < fragmentBufferMaxSize →
        (Arrivals.run records).taken = records) := by
  obtain ⟨peer, hpeer, hsends⟩ := exists_peer hmtu hmarshal hsize hlength
  have hsent : ∀ record ∈ records, ∃ header index message tile,
      Arrivals.Sent peer record header index message tile := by
    intro record hrecord
    obtain ⟨header, index, message, fragments, fragment, hvalid, htype, hmessage, hfragments,
      hfragment, rfl⟩ := hrecords record hrecord
    obtain ⟨sent, hget, hsent⟩ := hsends index message hmessage
    rw [hsent.fragments, Except.ok.injEq] at hfragments
    rw [← hfragments] at hfragment
    obtain ⟨tile, htile, rfl⟩ := List.mem_map.mp hfragment
    exact ⟨header, index, sent, tile, hvalid, htype, hget, htile, rfl⟩
  obtain ⟨⟨count, hinv, hstop⟩, htaken⟩ := (Arrivals.settled_new peer).foldl hsent
  refine ⟨count, hpeer ▸ hinv.next_le, ?_, ?_, ?_⟩
  · calc (Arrivals.run records).delivered.map (fun out => Except.ok out.1)
        = ((Arrivals.run records).delivered.map Prod.fst).map Except.ok := by
          rw [List.map_map]
          rfl
      _ = ((peer.messages.take count).map Message.whole).map Except.ok := by
          rw [Arrivals.run, hinv.delivered]
      _ = _ := by
          rw [List.map_map]
          exact map_take_eq_mapIdx hpeer hsends (fun hsent => hsent.marshal.symm) count
  · intro index message hmessage
    obtain ⟨sent, hget, hsent⟩ := hsends index message hmessage
    refine ⟨_, hsent.fragments, ?_, ?_⟩
    · intro hlt fragment hfragment
      obtain ⟨tile, htile, rfl⟩ := List.mem_map.mp hfragment
      exact hinv.complete index sent tile hlt hget htile
    · rintro rfl
      by_contra hnone
      refine hstop ⟨sent, hget, fun tile htile => ?_⟩
      by_contra hmissing
      exact hnone ⟨_, List.mem_map_of_mem htile, hmissing⟩
  · intro hroom
    rw [Arrivals.run, htaken (by simpa [Arrivals.new] using hroom)]
    rfl

/-- The pieces of a `Finished` of three octets, cut at two. -/
def sampleFragments : List Bytes :=
  [[20, 0, 0, 3, 0, 0, 0, 0, 0, 0, 0, 2, 1, 2], [20, 0, 0, 3, 0, 0, 0, 0, 2, 0, 0, 1, 3]]

/-- The second piece first and the first one twice. -/
def sampleRecords : List Bytes :=
  [(8, sampleFragments[1]), (7, sampleFragments[0]), (9, sampleFragments[0])].map
    fun (sequenceNumber, fragment) => RecordLayerHeader.octets
      ⟨.handshake, protocolVersion12, 0, sequenceNumber, UInt16.ofNat fragment.length⟩ ++ fragment

theorem fragmentHandshake_sample :
    fragmentHandshake 2 (Handshake.numbered (.finished [1, 2, 3]) 0) = .ok sampleFragments := by
  rw [fragmentHandshake_eq (by decide) rfl (by decide)]
  simp only [contentFragments, Octets.chunks, List.take, List.drop]
  rfl

/-- All of it came, in that order: one message comes out, whole. -/
theorem arrivals_reassemble_finished :
    (Arrivals.run sampleRecords).delivered.map (fun out => Except.ok out.1) =
        [(Handshake.numbered (.finished [1, 2, 3]) 0).marshal] ∧
      (Arrivals.run sampleRecords).taken = sampleRecords := by
  have hcut := fragmentHandshake_sample
  have hrecords : ∀ record ∈ sampleRecords, Sends 2 [.finished [1, 2, 3]] record := by
    simp only [sampleRecords, List.map_cons, List.map_nil, List.forall_mem_cons]
    refine ⟨?_, ?_, ?_, by simp⟩
    · exact ⟨_, 0, _, _, sampleFragments[1], ⟨.inr rfl, by decide⟩, rfl, rfl, hcut, by simp, rfl⟩
    · exact ⟨_, 0, _, _, sampleFragments[0], ⟨.inr rfl, by decide⟩, rfl, rfl, hcut, by simp, rfl⟩
    · exact ⟨_, 0, _, _, sampleFragments[0], ⟨.inr rfl, by decide⟩, rfl, rfl, hcut, by simp, rfl⟩
  have hmarshal : ∀ message ∈ [HandshakeMessage.finished [1, 2, 3]], ∃ content,
      message.marshal = .ok content := by
    intro message hmessage
    obtain rfl := List.mem_singleton.mp hmessage
    exact ⟨_, rfl⟩
  obtain ⟨count, hcount, hdelivered, hpieces, htaken⟩ :=
    arrivals_reassemble (by decide) hmarshal (by decide) (by decide) hrecords
  have hall := htaken (by decide)
  obtain ⟨fragments, hfragments, -, hmissing⟩ := hpieces 0 _ rfl
  -- a count of zero would leave a piece that was not taken
  have hcount : count = 1 := by
    refine le_antisymm hcount (Nat.one_le_iff_ne_zero.mpr fun hzero => ?_)
    obtain ⟨fragment, hfragment, hnot⟩ := hmissing hzero.symm
    obtain rfl : sampleFragments = fragments := Except.ok.inj (hcut.symm.trans hfragments)
    refine hnot ?_
    rw [Arrivals.Taken, hall]
    simp only [sampleFragments, List.mem_cons, List.not_mem_nil, or_false] at hfragment
    obtain rfl | rfl := hfragment
    · exact ⟨⟨.handshake, protocolVersion12, 0, 7, 14⟩, by decide⟩
    · exact ⟨⟨.handshake, protocolVersion12, 0, 8, 13⟩, by decide⟩
  exact ⟨by rw [hdelivered, hcount]; rfl, hall⟩

end Sending

end AutonomiWebrtc.Dtls
