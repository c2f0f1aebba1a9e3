import AutonomiWebrtc.Dtls.Reassembly
import Mathlib.Algebra.Order.BigOperators.Group.List
import Mathlib.Data.List.Induction

/-!
# Fragments that stay in the buffer

`pop` removes the fragments of the message it returns and of no other.  A fragment that
arrives after its message was returned, such as one of a flight that is sent again, stays
until its number comes up once more, and that is 65535 messages later.  (Numbers wrap in a
build without overflow checks; with them the `pop` that would wrap panics.)  Until then the
fragment counts against the limit of the buffer, which holds for every record, not only for
handshakes.  The headers of a fragment are not counted, so that the buffer itself never comes
nearer to the limit than the length of two of them.
-/

namespace AutonomiWebrtc.Dtls

open Readers Tiles

namespace FragmentBuffer

/-- The loop of `push` only adds fragments. -/
theorem pushFragments_prefix (record : RecordLayerHeader) (buffer : FragmentBuffer) (buf : Bytes) :
    buffer.cache <+: (pushFragments record buffer buf).1.cache ∧
      (pushFragments record buffer buf).1.currentMessageSequenceNumber =
        buffer.currentMessageSequenceNumber := by
  fun_induction pushFragments record buffer buf with
  | case1 => exact ⟨List.prefix_rfl, rfl⟩
  | case2 => exact ⟨List.prefix_rfl, rfl⟩
  | case3 buffer buf hne header rest hread endIndex data ih =>
      exact ⟨(List.prefix_append _ _).trans ih.1, ih.2⟩

theorem push_prefix (buffer : FragmentBuffer) (buf : Bytes) :
    buffer.cache <+: (buffer.push buf).1.cache ∧
      (buffer.push buf).1.currentMessageSequenceNumber = buffer.currentMessageSequenceNumber := by
  unfold push
  split
  · exact ⟨List.prefix_rfl, rfl⟩
  · split
    · exact ⟨List.prefix_rfl, rfl⟩
    · split
      · exact ⟨List.prefix_rfl, rfl⟩
      · exact pushFragments_prefix _ _ _

/-- `pop` fails and changes nothing, or removes the entry of the current number. -/
theorem pop_cases (buffer : FragmentBuffer) :
    (buffer.pop.1 = buffer ∧ buffer.pop.2.isOk = false) ∨
      (buffer.pop.1 = ⟨buffer.cache.filter fun f =>
        f.handshakeHeader.messageSequence ≠ buffer.currentMessageSequenceNumber,
          buffer.currentMessageSequenceNumber + 1⟩ ∧ buffer.pop.2.isOk = true) := by
  unfold pop
  dsimp only
  split
  · exact .inl ⟨rfl, rfl⟩
  · split
    · exact .inl ⟨rfl, rfl⟩
    · split
      · exact .inl ⟨rfl, rfl⟩
      · exact .inl ⟨rfl, rfl⟩
      · exact .inr ⟨rfl, rfl⟩

/-- The other entries stay. -/
theorem fragments_pop {buffer : FragmentBuffer} {number : UInt16}
    (hne : number ≠ buffer.currentMessageSequenceNumber) :
    buffer.pop.1.fragments number = buffer.fragments number := by
  rcases buffer.pop_cases with ⟨hsame, -⟩ | ⟨hpopped, -⟩
  · rw [hsame]
  · rw [hpopped]
    exact buffer.fragments_filter _ hne

/-- A use of the buffer. -/
inductive Op
  | push (buf : Bytes)
  | pop

/-- The buffer after an operation. -/
def Op.apply (buffer : FragmentBuffer) : Op → FragmentBuffer
  | .push buf => (buffer.push buf).1
  | .pop => buffer.pop.1

/-- How many messages must be returned before the number comes up. -/
def turns (buffer : FragmentBuffer) (number : UInt16) : ℕ :=
  (number - buffer.currentMessageSequenceNumber).toNat

/-- The number of messages that are returned in the course of the operations. -/
def returned (buffer : FragmentBuffer) : List Op → ℕ
  | [] => 0
  | .push buf :: ops => returned (buffer.push buf).1 ops
  | .pop :: ops => (if buffer.pop.2.isOk then 1 else 0) + returned buffer.pop.1 ops

/-- A message that is returned is not the one waited for, and it takes one turn. -/
theorem turns_pop {buffer : FragmentBuffer} {number : UInt16} {more : ℕ}
    (hturns : (if buffer.pop.2.isOk then 1 else 0) + more ≤ buffer.turns number) :
    buffer.pop.1.fragments number = buffer.fragments number ∧
      more ≤ buffer.pop.1.turns number := by
  rcases buffer.pop_cases with ⟨hsame, -⟩ | ⟨hpopped, hok⟩
  · rw [hsame]
    exact ⟨rfl, by omega⟩
  · rw [hok, if_pos rfl] at hturns
    have hne : number ≠ buffer.currentMessageSequenceNumber := by
      rintro rfl
      simp only [turns, UInt16.sub_self] at hturns
      have hzero : (0 : UInt16).toNat = 0 := rfl
      omega
    refine ⟨fragments_pop hne, ?_⟩
    rw [hpopped]
    have hone : (1 : UInt16).toNat = 1 := rfl
    have hnumber := number.toNat_lt
    have hcurrent := buffer.currentMessageSequenceNumber.toNat_lt
    simp only [turns, UInt16.toNat_sub, UInt16.toNat_add, hone] at hturns ⊢
    omega

/-- The fragments of a number stay as long as its turn has not come. -/
theorem fragments_prefix {buffer : FragmentBuffer} {number : UInt16} (ops : List Op)
    (hreturned : buffer.returned ops ≤ buffer.turns number) :
    buffer.fragments number <+: (ops.foldl Op.apply buffer).fragments number := by
  induction ops generalizing buffer with
  | nil => exact List.prefix_rfl
  | cons op ops ih =>
      rw [List.foldl_cons]
      cases op with
      | push buf =>
          obtain ⟨hcache, hcurrent⟩ := buffer.push_prefix buf
          have hturns : (buffer.push buf).1.turns number = buffer.turns number := by
            rw [turns, hcurrent, turns]
          exact (hcache.filter _).trans (ih (hturns ▸ hreturned))
      | pop =>
          obtain ⟨hsame, hturns⟩ := turns_pop hreturned
          rw [← hsame]
          exact ih hturns

/-! ## The room that is left -/

/-- A handshake record is stored without its headers. -/
theorem size_pushFragments (record : RecordLayerHeader) (buffer : FragmentBuffer) (buf : Bytes) :
    (pushFragments record buffer buf).1.size = buffer.size ∨
      (pushFragments record buffer buf).1.size + handshakeHeaderLength ≤
        buffer.size + buf.length := by
  fun_induction pushFragments record buffer buf with
  | case1 => exact .inl rfl
  | case2 => exact .inl rfl
  | case3 buffer buf hne header rest hread endIndex data ih =>
      have htake := (HandshakeHeader.takes_unmarshal _ _ _ hread).1
      have hsize : (FragmentBuffer.mk (buffer.cache ++ [⟨record, header, data⟩])
          buffer.currentMessageSequenceNumber).size = buffer.size + data.length := by
        simp [size]
      have hend : endIndex ≤ buf.length := Nat.min_le_right _ _
      have hdata : data.length + handshakeHeaderLength = endIndex := by
        have hheader : handshakeHeaderLength ≤ endIndex := by
          simp only [endIndex, handshakeHeaderLength] at htake ⊢
          omega
        simp only [data, List.length_drop, List.length_take, Nat.min_eq_left hend]
        omega
      have hrest : (buf.drop endIndex).length = buf.length - endIndex := List.length_drop
      rw [hsize, hrest] at ih
      omega

/-- Two headers always stay free. -/
theorem size_push_lt {buffer : FragmentBuffer}
    (hroom : buffer.size + recordLayerHeaderSize + handshakeHeaderLength < fragmentBufferMaxSize)
    (buf : Bytes) :
    (buffer.push buf).1.size + recordLayerHeaderSize + handshakeHeaderLength <
      fragmentBufferMaxSize := by
  unfold push
  split
  · exact hroom
  · rename_i hfits
    split
    · exact hroom
    · rename_i header rest hread
      split
      · exact hroom
      · have htake := (RecordLayerHeader.takes_unmarshal _ _ _ hread).1
        have hsize := size_pushFragments header buffer (buf.drop recordLayerHeaderSize)
        rw [List.length_drop] at hsize
        rcases hsize with hsame | hless
        · rw [hsame]
          exact hroom
        · omega

theorem size_pop_le (buffer : FragmentBuffer) : buffer.pop.1.size ≤ buffer.size := by
  rcases buffer.pop_cases with ⟨hsame, -⟩ | ⟨hpopped, -⟩
  · rw [hsame]
  · rw [hpopped]
    exact List.Sublist.sum_le_sum (List.filter_sublist.map _) (by simp)

/-- The limit is never reached by what is stored. -/
theorem size_lt_of_ops (ops : List Op) :
    (ops.foldl Op.apply new).size + recordLayerHeaderSize + handshakeHeaderLength <
      fragmentBufferMaxSize := by
  induction ops using List.reverseRecOn with
  | nil => decide
  | append_singleton ops op ih =>
      rw [List.foldl_append, List.foldl_cons, List.foldl_nil]
      cases op with
      | push buf => exact size_push_lt ih buf
      | pop =>
          have hle := size_pop_le (ops.foldl Op.apply new)
          simp only [Op.apply]
          omega

/-- The octets of a list of fragments. -/
def dataLength (frags : List Fragment) : ℕ := (frags.map fun f => f.data.length).sum

theorem dataLength_le_size (buffer : FragmentBuffer) (number : UInt16) :
    dataLength (buffer.fragments number) ≤ buffer.size :=
  List.Sublist.sum_le_sum (List.filter_sublist.map _) (by simp)

theorem dataLength_mono {first second : List Fragment} (hgrows : first <+: second) :
    dataLength first ≤ dataLength second :=
  List.Sublist.sum_le_sum (hgrows.sublist.map _) (by simp)

/-- **Late fragments are kept.**  However a new buffer has been used and is used further, the
fragments of a message number stay in it until as many messages have been returned as it
takes for the number to come up.  As long as they stay, every record that would reach the
limit together with them is refused, of whatever kind it is; a record that is no longer than
two headers is never refused for its length. -/
theorem late_fragments_kept {before after : List Op} {buffer final : FragmentBuffer}
    (hbuffer : before.foldl Op.apply new = buffer) (hfinal : after.foldl Op.apply buffer = final)
    {number : UInt16} (hreturned : buffer.returned after ≤ buffer.turns number) :
    buffer.fragments number <+: final.fragments number ∧
      (∀ buf : Bytes,
        fragmentBufferMaxSize ≤ dataLength (buffer.fragments number) + buf.length →
          final.push buf = (final, .error (.err (.errFragmentBufferOverflow
            (final.size + buf.length) fragmentBufferMaxSize)))) ∧
      ∀ buf : Bytes, buf.length ≤ recordLayerHeaderSize + handshakeHeaderLength →
        final.size + buf.length < fragmentBufferMaxSize := by
  subst hfinal
  have hgrows := fragments_prefix after hreturned
  refine ⟨hgrows, fun buf hfull => ?_, fun buf hshort => ?_⟩
  · have hheld := dataLength_mono hgrows
    have hsize := dataLength_le_size (after.foldl Op.apply buffer) number
    rw [push, if_pos (by omega)]
  · have hroom := size_lt_of_ops (before ++ after)
    rw [List.foldl_append, hbuffer] at hroom
    omega

/-! A message of one large fragment that arrives again and again. -/

/-- The contents of the message. -/
@[irreducible] def sampleContents : Bytes := List.replicate 16000 7

@[simp] theorem length_sampleContents : sampleContents.length = 16000 := by
  rw [sampleContents]
  exact List.length_replicate

theorem sampleContents_ne_nil : sampleContents ≠ [] :=
  List.ne_nil_of_length_pos (by rw [length_sampleContents]; decide)

def sampleMessage : Message where
  header := ⟨.finished, 16000, 0, 0, 16000⟩
  pieces := [sampleContents]
  proper := .inr ⟨by simp, by simp [sampleContents_ne_nil]⟩
  fragmentOffset := rfl
  fragmentLength := rfl
  length := by simp
  fits := by decide

/-- The header of the record that brings it. -/
def sampleRecordHeader : RecordLayerHeader := ⟨.handshake, protocolVersion12, 0, 3, 16012⟩

/-- The record. -/
def sampleLate : Bytes := sampleRecordHeader.octets ++ sampleMessage.wire (0, sampleContents)

/-- What is stored of it. -/
def sampleFragment : Fragment :=
  ⟨sampleRecordHeader, fragmentHeader sampleMessage.header 0 sampleContents, sampleContents⟩

theorem push_sampleLate {buffer : FragmentBuffer} (hroom : buffer.size + 16025 < fragmentBufferMaxSize) :
    buffer.push sampleLate =
      (⟨buffer.cache ++ [sampleFragment], buffer.currentMessageSequenceNumber⟩, .ok true) := by
  have hlength : sampleLate.length = 16025 := by
    simp [sampleLate, Message.wire, RecordLayerHeader.length_octets,
      HandshakeHeader.length_octets, recordLayerHeaderSize, handshakeHeaderLength]
  have hvalid : sampleRecordHeader.Valid := ⟨.inr rfl, by decide⟩
  have htile : (0, sampleContents) ∈ tiles 0 sampleMessage.pieces := by simp [sampleMessage, tiles]
  have hpush := buffer.push_wire hvalid rfl htile
  rw [← sampleLate, hlength, if_neg (by omega)] at hpush
  exact hpush

theorem size_replicate (count : ℕ) (current : UInt16) :
    (FragmentBuffer.mk (List.replicate count sampleFragment) current).size = count * 16000 := by
  simp [size, sampleFragment]

/-- The message arrives, is returned, and arrives again. -/
theorem foldl_sampleLate {count : ℕ} (hcount : count ≤ 124) :
    (.push sampleLate :: .pop :: List.replicate count (.push sampleLate)).foldl Op.apply new =
      ⟨List.replicate count sampleFragment, 1⟩ := by
  induction count with
  | zero =>
      have hfirst : (new.push sampleLate).1 = ⟨[sampleFragment], 0⟩ := by
        rw [push_sampleLate (by decide)]
        rfl
      have happend : appendMessage [sampleFragment] 0 = some sampleContents := by
        have hcarries : ∀ f ∈ [sampleFragment], Carries sampleMessage.pieces f := by
          rw [List.forall_mem_singleton]
          exact ⟨by simp [sampleMessage, sampleFragment, fragmentHeader, tiles], rfl,
            sampleMessage.length⟩
        have hall := appendMessage_eq_some sampleMessage.proper hcarries sampleContents
        exact hall.mpr ⟨by simp [sampleMessage], by simp [sampleMessage, tiles, Starts,
          sampleFragment, fragmentHeader]⟩
      have hheader : HandshakeHeader.marshal
          { sampleFragment.handshakeHeader with
            fragmentOffset := 0, fragmentLength := sampleFragment.handshakeHeader.length } =
          .ok _ := HandshakeHeader.marshal_of_valid ⟨by decide, by decide, by decide⟩
      show (FragmentBuffer.pop (new.push sampleLate).1).1 = _
      rw [hfirst, pop]
      have hfragments : (FragmentBuffer.mk [sampleFragment] 0).fragments 0 = [sampleFragment] := rfl
      dsimp only
      rw [hfragments]
      dsimp only
      rw [happend]
      dsimp only
      rw [hheader]
      rfl
  | succ count ih =>
      rw [List.replicate_succ', ← List.cons_append, ← List.cons_append, List.foldl_append,
        ih (by omega)]
      show (FragmentBuffer.push _ sampleLate).1 = _
      rw [push_sampleLate (by rw [size_replicate, fragmentBufferMaxSize]; omega)]
      rw [List.replicate_succ']

/-- After 124 repetitions no record of 16000 octets is taken any more, whatever is popped
next. -/
theorem late_fragments_kept_repeated :
    ∃ buffer, (.push sampleLate :: .pop :: List.replicate 124 (.push sampleLate)).foldl Op.apply
        new = buffer ∧ buffer.turns 0 = 65535 ∧
      buffer.fragments 0 <+: ([.pop, .push [], .pop].foldl Op.apply buffer).fragments 0 ∧
      (∀ buf : Bytes, 16000 ≤ buf.length →
        ([.pop, .push [], .pop].foldl Op.apply buffer).push buf =
          ([.pop, .push [], .pop].foldl Op.apply buffer, .error (.err (.errFragmentBufferOverflow
            (([.pop, .push [], .pop].foldl Op.apply buffer).size + buf.length)
              fragmentBufferMaxSize)))) ∧
      ∀ buf : Bytes, buf.length ≤ 25 →
        ([.pop, .push [], .pop].foldl Op.apply buffer).size + buf.length <
          fragmentBufferMaxSize := by
  have hbuffer := foldl_sampleLate (Nat.le_refl 124)
  have hreturned : (FragmentBuffer.mk (List.replicate 124 sampleFragment) 1).returned
      [.pop, .push [], .pop] ≤ (FragmentBuffer.mk (List.replicate 124 sampleFragment) 1).turns 0 := by
    have hturns : (FragmentBuffer.mk (List.replicate 124 sampleFragment) 1).turns 0 = 65535 := rfl
    simp only [returned, hturns]
    split <;> split <;> omega
  have hheld : dataLength ((FragmentBuffer.mk (List.replicate 124 sampleFragment) 1).fragments 0) =
      1984000 := by
    have hall : (FragmentBuffer.mk (List.replicate 124 sampleFragment) 1).fragments 0 =
        List.replicate 124 sampleFragment :=
      List.filter_eq_self.mpr fun f hf => by
        rw [List.eq_of_mem_replicate hf]
        rfl
    rw [hall, dataLength]
    simp [sampleFragment]
  obtain ⟨hkept, hrefused, hshort⟩ := late_fragments_kept hbuffer rfl hreturned
  refine ⟨_, hbuffer, rfl, hkept, fun buf hlong => hrefused buf ?_, hshort⟩
  rw [hheld, fragmentBufferMaxSize]
  omega

end FragmentBuffer

end AutonomiWebrtc.Dtls
