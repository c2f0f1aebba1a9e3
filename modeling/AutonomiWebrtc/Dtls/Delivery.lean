import AutonomiWebrtc.Dtls.Outgoing
import AutonomiWebrtc.Dtls.Reassembly
import AutonomiWebrtc.Dtls.Replay
import Mathlib.Data.List.Nodup

/-!
# What a reader has of its peer

The reader of one side when nothing but plaintext of the other side arrives: handshake
messages that are numbered from zero, in records that are lost, repeated and reordered, and
alerts between them.

What the reader puts into its cache are the first messages of the peer, in order and octet
for octet.  If the detector and the buffer have room for what arrives, no record is lost at
the reader itself, so that the first message missing from the cache has not arrived whole.
-/

namespace AutonomiWebrtc.Dtls

open Readers Tiles ConnReaderContext

/-- The item of a message in the cache. -/
def Message.item (message : Message) (isClient : Bool) : HandshakeCacheItem where
  typ := message.header.handshakeType
  isClient := isClient
  epoch := 0
  messageSequence := message.header.messageSequence
  data := message.whole

/-- The message can be read back. -/
def Message.Readable (message : Message) : Prop :=
  ∃ handshake rest, Handshake.unmarshal.run message.whole = .ok (handshake, rest) ∧
    handshake.handshakeHeader = message.header

/-! ## The reader -/

/-- The messages that come out of the buffer are pushed to the cache one after another. -/
theorem pushHandshakes_eq {isClient : Bool} {cache : HandshakeCache} {outs : List (Bytes × UInt16)}
    {messages : List Message} (houts : outs.map Prod.fst = messages.map Message.whole)
    (hepoch : ∀ out ∈ outs, out.2 = 0) (hread : ∀ message ∈ messages, message.Readable)
    (hkeys : ((cache ++ messages.map fun message => message.item !isClient).map
      HandshakeCache.key).Nodup) :
    pushHandshakes isClient cache outs =
      (cache ++ messages.map (fun message => message.item !isClient), false) := by
  induction messages generalizing cache outs with
  | nil =>
      obtain rfl : outs = [] := by simpa using houts
      simp [pushHandshakes]
  | cons message messages ih =>
      cases outs with
      | nil => simp at houts
      | cons out outs =>
          obtain ⟨bytes, epoch⟩ := out
          rw [List.map_cons, List.map_cons, List.cons.injEq] at houts
          rw [List.forall_mem_cons] at hepoch hread
          obtain rfl : bytes = message.whole := houts.1
          obtain rfl : epoch = 0 := hepoch.1
          obtain ⟨handshake, rest, hrun, hheader⟩ := hread.1
          have hitem : (⟨handshake.handshakeHeader.handshakeType, !isClient, 0,
              handshake.handshakeHeader.messageSequence, message.whole⟩ : HandshakeCacheItem) =
                message.item !isClient := by
            rw [hheader]
            rfl
          have hsplit : cache ++ (message :: messages).map (fun message => message.item !isClient) =
              (cache ++ [message.item !isClient]) ++
                messages.map fun message => message.item !isClient := by simp
          have hnew : HandshakeCache.key (message.item !isClient) ∉ cache.map HandshakeCache.key := by
            rw [List.map_append] at hkeys
            intro hmem
            exact (List.nodup_append.mp hkeys).2.2 _ hmem _ List.mem_cons_self rfl
          rw [pushHandshakes, hrun]
          dsimp only
          rw [hitem, HandshakeCache.push_fst, if_neg hnew, hsplit]
          rw [hsplit] at hkeys
          exact ih houts.2 hepoch.2 hread.2 hkeys

/-- A popped message has the epoch of a fragment of the buffer. -/
theorem FragmentBuffer.epoch_of_pop {buffer next : FragmentBuffer} {out : Bytes × UInt16}
    (hpop : buffer.pop = (next, .ok out)) :
    (∃ f ∈ buffer.cache, f.recordLayerHeader.epoch = out.2) ∧ next.cache ⊆ buffer.cache := by
  unfold pop at hpop
  dsimp only at hpop
  split at hpop
  · cases hpop
  · rename_i first frags hfrags
    have hfirst : first ∈ buffer.cache := by
      apply List.mem_of_mem_filter
      rw [fragments] at hfrags
      rw [hfrags]
      exact List.mem_cons_self
    split at hpop
    · cases hpop
    · split at hpop
      · cases hpop
      · cases hpop
      · cases hpop
        exact ⟨⟨first, hfirst, rfl⟩, List.filter_subset_self _⟩

theorem FragmentBuffer.epoch_of_drain {buffer : FragmentBuffer}
    (hepoch : ∀ f ∈ buffer.cache, f.recordLayerHeader.epoch = 0) :
    (∀ out ∈ buffer.drain.2, out.2 = 0) ∧
      ∀ f ∈ buffer.drain.1.cache, f.recordLayerHeader.epoch = 0 := by
  fun_induction drain buffer with
  | case1 buffer same fault hpop => exact ⟨by simp, hepoch⟩
  | case2 buffer next out hpop ih =>
      obtain ⟨⟨f, hf, hout⟩, hsub⟩ := epoch_of_pop hpop
      obtain ⟨houts, hrest⟩ := ih fun f hf => hepoch f (hsub hf)
      rw [List.forall_mem_cons]
      exact ⟨⟨hout ▸ hepoch f hf, houts⟩, hrest⟩

/-- The messages of a peer have different keys. -/
theorem Peer.nodup_keys (peer : Peer) (isClient : Bool) (count : ℕ) :
    (((peer.messages.take count).map fun message => message.item isClient).map
      HandshakeCache.key).Nodup := by
  have hnumbers : peer.messages.map (fun message => message.header.messageSequence) =
      (List.range peer.messages.length).map UInt16.ofNat := by
    apply List.ext_getElem?
    intro index
    rw [List.getElem?_map, List.getElem?_map]
    cases hmessage : peer.messages[index]? with
    | none =>
        rw [List.getElem?_eq_none_iff] at hmessage
        rw [List.getElem?_eq_none (by simpa using hmessage)]
        rfl
    | some message =>
        have hlt := (List.getElem?_eq_some_iff.mp hmessage).1
        rw [List.getElem?_range hlt, Option.map_some, Option.map_some, peer.numbered hmessage]
  have hnodup : (peer.messages.map fun message => message.header.messageSequence).Nodup := by
    rw [hnumbers]
    refine List.Nodup.map_on ?_ List.nodup_range
    intro first hfirst second hsecond heq
    rw [List.mem_range] at hfirst hsecond
    exact ofNat_inj (hfirst.trans peer.fits) (hsecond.trans peer.fits) heq
  rw [List.map_map, List.Nodup, List.pairwise_map]
  have hpairwise := List.Pairwise.sublist (List.take_sublist count _) (List.pairwise_map.mp hnodup)
  refine hpairwise.imp fun hne hkey => hne ?_
  exact (Prod.mk.inj hkey).1

section Receiving

variable {Suite Detector : Type} (suites : CipherSuites Suite)
  (detectors : ReplayDetectors Detector) {peer : Peer} {isClient : Bool}

/-- The reader's context after `next` messages of the peer: the buffer is settled, the cache
holds these messages, and nothing but plaintext has come in. -/
structure Synced (peer : Peer) (isClient : Bool) (arrivals : Arrivals) (next : ℕ)
    (ctx : ConnReaderContext Suite Detector) : Prop where
  buffer : arrivals.buffer = ctx.fragmentBuffer
  inv : arrivals.Inv peer next
  settled : ¬ arrivals.NextComplete peer next
  cache : ctx.cache = (peer.messages.take next).map fun message => message.item isClient
  side : ctx.isClient = !isClient
  queue : ctx.encryptedPackets = []
  epoch : ∀ f ∈ ctx.fragmentBuffer.cache, f.recordLayerHeader.epoch = 0

theorem Synced.frame {arrivals : Arrivals} {next : ℕ} {ctx other : ConnReaderContext Suite Detector}
    (hsynced : Synced peer isClient arrivals next ctx)
    (hbuffer : other.fragmentBuffer = ctx.fragmentBuffer) (hcache : other.cache = ctx.cache)
    (hside : other.isClient = ctx.isClient) (hqueue : other.encryptedPackets = []) :
    Synced peer isClient arrivals next other where
  buffer := hbuffer ▸ hsynced.buffer
  inv := hsynced.inv
  settled := hsynced.settled
  cache := hcache ▸ hsynced.cache
  side := hside ▸ hsynced.side
  queue := hqueue
  epoch := hbuffer ▸ hsynced.epoch

/-- The messages that come out between two settled states. -/
theorem map_fst_outs {arrivals : Arrivals} {buffer : FragmentBuffer} {taken : List Bytes}
    {outs : List (Bytes × UInt16)} {next later : ℕ} (hinv : arrivals.Inv peer next)
    (hlater : Arrivals.Inv peer ⟨buffer, taken, arrivals.delivered ++ outs⟩ later) :
    peer.messages.take later =
        peer.messages.take next ++ (peer.messages.take later).drop next ∧
      outs.map Prod.fst = ((peer.messages.take later).drop next).map Message.whole := by
  have hboth := hlater.delivered
  rw [List.map_append, hinv.delivered] at hboth
  have hle : next ≤ later := by
    have hlength := congrArg List.length hboth
    have hnext := hinv.next_le
    have hlater := hlater.next_le
    simp only [List.length_append, List.length_map, List.length_take] at hlength
    omega
  have hsplit : peer.messages.take later =
      peer.messages.take next ++ (peer.messages.take later).drop next := by
    have htake := List.take_append_drop next (peer.messages.take later)
    rw [List.take_take, Nat.min_eq_left hle] at htake
    exact htake.symm
  refine ⟨hsplit, ?_⟩
  rw [hsplit, List.map_append] at hboth
  exact List.append_cancel_left hboth

/-- The reader stores a piece and pushes what is complete to the cache. -/
theorem Synced.stored {arrivals : Arrivals} {next : ℕ} {ctx : ConnReaderContext Suite Detector}
    (hsynced : Synced peer isClient arrivals next ctx)
    (hread : ∀ message ∈ peer.messages, message.Readable) {record : Bytes}
    {header : RecordLayerHeader} {index : ℕ} {message : Message} {tile : ℕ × Bytes}
    (hsent : Arrivals.Sent peer record header index message tile) (hepoch : header.epoch = 0)
    {buffer : FragmentBuffer}
    (hbuffer : buffer = ⟨ctx.fragmentBuffer.cache ++
      [⟨header, fragmentHeader message.header tile.1 tile.2, tile.2⟩],
        ctx.fragmentBuffer.currentMessageSequenceNumber⟩) :
    (pushHandshakes ctx.isClient ctx.cache buffer.drain.2).2 = false ∧
      ∃ arrivals' later, Synced peer isClient arrivals' later
        { ctx.accept detectors header.epoch with
          fragmentBuffer := buffer.drain.1
          cache := (pushHandshakes ctx.isClient ctx.cache buffer.drain.2).1 } ∧
        arrivals'.taken = arrivals.taken ++ [record] := by
  obtain ⟨later, hinv, hstop⟩ := (hsynced.inv.stored hsent).drain
  have hsame : (arrivals.stored record
      ⟨header, fragmentHeader message.header tile.1 tile.2, tile.2⟩).buffer = buffer := by
    rw [hbuffer, Arrivals.stored, hsynced.buffer]
  rw [hsame] at hinv hstop
  obtain ⟨hsplit, houts⟩ := map_fst_outs hsynced.inv hinv
  have hzero : ∀ f ∈ buffer.cache, f.recordLayerHeader.epoch = 0 := by
    rw [hbuffer]
    exact List.forall_mem_append.mpr
      ⟨hsynced.epoch, List.forall_mem_singleton.mpr hepoch⟩
  obtain ⟨hepochs, hrest⟩ := FragmentBuffer.epoch_of_drain hzero
  have hside : isClient = !ctx.isClient := by rw [hsynced.side, Bool.not_not]
  have hpushed : pushHandshakes ctx.isClient ctx.cache buffer.drain.2 =
      ((peer.messages.take later).map (fun message => message.item isClient), false) := by
    have hcache : ctx.cache ++ ((peer.messages.take later).drop next).map
        (fun message => message.item isClient) =
          (peer.messages.take later).map fun message => message.item isClient := by
      rw [hsynced.cache, ← List.map_append, ← hsplit]
    have hkeys := peer.nodup_keys isClient later
    rw [← hcache, hside] at hkeys
    rw [pushHandshakes_eq houts hepochs (fun message hmessage =>
      hread message (List.mem_of_mem_take (List.mem_of_mem_drop hmessage))) hkeys, ← hside, hcache]
  rw [hpushed]
  exact ⟨rfl, ⟨buffer.drain.1, arrivals.taken ++ [record], arrivals.delivered ++ buffer.drain.2⟩,
    later, ⟨rfl, hinv, hstop, rfl, hsynced.side, hsynced.queue, hrest⟩, rfl⟩

/-! ## What has become of the records -/

/-- What a replay detector promises to a number that is not too late. -/
structure AcceptsNew {Detector : Type} (detectors : ReplayDetectors Detector)
    (Accepted : Detector → ℕ → Prop) (windowSize : ℕ) : Prop where
  new : ∀ n, ¬ Accepted detectors.new n
  check_eq_true : ∀ {detector n}, n ≤ maxSequenceNumber → ¬ Accepted detector n →
    (∀ m, Accepted detector m → m < n + windowSize) → (detectors.check detector n).2 = true
  check : ∀ {detector m n}, Accepted (detectors.check detector m).1 n → Accepted detector n
  accept : ∀ {detector m n}, (detectors.check detector m).2 = true →
    Accepted (detectors.accept (detectors.check detector m).1) n → Accepted detector n ∨ n = m

/-- The record is one of plaintext with a piece of one of the peer's messages. -/
def Ships (peer : Peer) (record : Bytes) : Prop :=
  ∃ header index message tile, Arrivals.Sent peer record header index message tile ∧
    header.epoch = 0

/-- The record is an alert in plaintext. -/
def Warns (record : Bytes) : Prop :=
  ∃ (header : RecordLayerHeader) (alert : Alert), header.Valid ∧ header.contentType = .alert ∧
    header.epoch = 0 ∧ record = header.octets ++ alert.marshal

theorem Warns.not_ships {record : Bytes} (hwarns : Warns record) : ¬ Ships peer record := by
  obtain ⟨header, alert, hvalid, htype, -, hrecord⟩ := hwarns
  rintro ⟨other, index, message, tile, hsent, -⟩
  have hread := RecordLayerHeader.reads_unmarshal hvalid alert.marshal
  rw [← hrecord, hsent.eq, RecordLayerHeader.reads_unmarshal hsent.valid] at hread
  obtain ⟨rfl, -⟩ := Prod.mk.inj (Except.ok.inj hread)
  rw [hsent.contentType] at htype
  cases htype

/-- The records fit into the buffer together, and none comes later than its detector allows:
no number is behind an earlier one by the window. -/
structure InTime (windowSize : ℕ) (received : List Bytes) : Prop where
  room : (received.map List.length).sum < fragmentBufferMaxSize
  order : (received.filterMap recordNumber).Pairwise fun earlier later =>
    earlier.2 < later.2 + windowSize

instance (windowSize : ℕ) (received : List Bytes) : Decidable (InTime windowSize received) :=
  decidable_of_iff
    ((received.map List.length).sum < fragmentBufferMaxSize ∧
      (received.filterMap recordNumber).Pairwise fun earlier later =>
        earlier.2 < later.2 + windowSize)
    ⟨fun ⟨room, order⟩ => ⟨room, order⟩, fun ⟨room, order⟩ => ⟨room, order⟩⟩

/-- A number names one record. -/
def Distinct (received : List Bytes) : Prop :=
  ∀ first ∈ received, ∀ second ∈ received, ∀ number, recordNumber first = some number →
    recordNumber second = some number → first = second

theorem InTime.before {windowSize : ℕ} {past more : List Bytes}
    (hintime : InTime windowSize (past ++ more)) : InTime windowSize past where
  room := by
    have hroom := hintime.room
    rw [List.map_append, List.sum_append] at hroom
    omega
  order := by
    have horder := hintime.order
    rw [List.filterMap_append] at horder
    exact (List.pairwise_append.mp horder).1

theorem Distinct.before {past more : List Bytes} (hdistinct : Distinct (past ++ more)) :
    Distinct past :=
  fun first hfirst second hsecond => hdistinct first (List.mem_append_left _ hfirst) second
    (List.mem_append_left _ hsecond)

/-- The records of the peer's messages that the buffer has taken were received, the detector
has accepted no others, and all are taken if they come in time. -/
structure Accounts (detectors : ReplayDetectors Detector) (Accepted : Detector → ℕ → Prop)
    (windowSize : ℕ) (peer : Peer) (past : List Bytes) (arrivals : Arrivals)
    (ctx : ConnReaderContext Suite Detector) : Prop where
  taken : arrivals.taken.Sublist past
  accepted : ∀ n, Accepted (ctx.detector detectors 0) n → ∃ record ∈ past,
    recordNumber record = some (0, n) ∧ (Ships peer record → record ∈ arrivals.taken)
  all : Distinct past → InTime windowSize past → ∀ record ∈ past, Ships peer record →
    record ∈ arrivals.taken

section Accounts

variable {detectors} {Accepted : Detector → ℕ → Prop} {windowSize : ℕ} {past : List Bytes}
  {arrivals later : Arrivals} {ctx next : ConnReaderContext Suite Detector} {record : Bytes}

theorem Accounts.step (haccounts : Accounts detectors Accepted windowSize peer past arrivals ctx)
    (htaken : later.taken = arrivals.taken ∨ later.taken = arrivals.taken ++ [record])
    (haccepted : ∀ n, Accepted (next.detector detectors 0) n →
      Accepted (ctx.detector detectors 0) n ∨
        recordNumber record = some (0, n) ∧ (Ships peer record → record ∈ later.taken))
    (hall : Distinct (past ++ [record]) → InTime windowSize (past ++ [record]) →
      Ships peer record → record ∈ later.taken) :
    Accounts detectors Accepted windowSize peer (past ++ [record]) later next := by
  have hgrows : ∀ other ∈ arrivals.taken, other ∈ later.taken := by
    rcases htaken with hsame | hmore
    · rw [hsame]
      exact fun _ hother => hother
    · rw [hmore]
      exact fun _ hother => List.mem_append_left _ hother
  refine ⟨?_, fun n hn => ?_, fun hdistinct hintime => ?_⟩
  · rcases htaken with hsame | hmore
    · rw [hsame]
      exact haccounts.taken.trans (List.sublist_append_left _ _)
    · rw [hmore]
      exact haccounts.taken.append (List.Sublist.refl _)
  · rcases haccepted n hn with hold | hnew
    · obtain ⟨other, hother, hnumber, hships⟩ := haccounts.accepted n hold
      exact ⟨other, List.mem_append_left _ hother, hnumber,
        fun hpiece => hgrows other (hships hpiece)⟩
    · exact ⟨record, by simp, hnew⟩
  · rw [List.forall_mem_append, List.forall_mem_singleton]
    exact ⟨fun other hother hpiece => hgrows other
      (haccounts.all hdistinct.before hintime.before other hother hpiece),
      hall hdistinct hintime⟩

/-- A record that the detector refuses was taken before, if it comes in time. -/
theorem Accounts.mem_of_refused (hlaw : AcceptsNew detectors Accepted windowSize)
    (haccounts : Accounts detectors Accepted windowSize peer past arrivals ctx)
    {header : RecordLayerHeader} (hvalid : header.Valid)
    (hnumber : recordNumber record = some (0, header.sequenceNumber))
    (hrefused : (detectors.check (ctx.detector detectors 0) header.sequenceNumber).2 = false)
    (hdistinct : Distinct (past ++ [record])) (hintime : InTime windowSize (past ++ [record]))
    (hships : Ships peer record) : record ∈ arrivals.taken := by
  have hold : Accepted (ctx.detector detectors 0) header.sequenceNumber := by
    by_contra hnew
    rw [hlaw.check_eq_true hvalid.sequenceNumber hnew fun m hm => ?_] at hrefused
    · cases hrefused
    · obtain ⟨other, hother, hother', -⟩ := haccounts.accepted m hm
      have horder := hintime.order
      rw [List.filterMap_append] at horder
      exact (List.pairwise_append.mp horder).2.2 (0, m)
        (List.mem_filterMap.mpr ⟨other, hother, hother'⟩) (0, header.sequenceNumber)
        (List.mem_filterMap.mpr ⟨record, List.mem_singleton_self _, hnumber⟩)
  obtain ⟨other, hother, hsame, htaken⟩ := haccounts.accepted _ hold
  obtain rfl := hdistinct other (List.mem_append_left _ hother) record (by simp) _ hsame hnumber
  exact htaken hships

end Accounts

theorem recordNumber_append {header : RecordLayerHeader} (hvalid : header.Valid) (body : Bytes) :
    recordNumber (header.octets ++ body) = some (header.epoch, header.sequenceNumber) := by
  rw [recordNumber, RecordLayerHeader.reads_unmarshal hvalid body]

section Records

variable {Accepted : Detector → ℕ → Prop} {windowSize : ℕ}
  (hlaw : AcceptsNew detectors Accepted windowSize) {past : List Bytes} {arrivals : Arrivals}
  {next : ℕ} {ctx : ConnReaderContext Suite Detector}

include hlaw

/-- **One record at the reader.**  A piece of one of the peer's messages leaves the reader in
step with the peer; the record is dropped or a handshake record. -/
theorem Synced.handleIncomingPacket (hsynced : Synced peer isClient arrivals next ctx)
    (haccounts : Accounts detectors Accepted windowSize peer past arrivals ctx)
    (hread : ∀ message ∈ peer.messages, message.Readable) {record : Bytes}
    {header : RecordLayerHeader} {index : ℕ} {message : Message} {tile : ℕ × Bytes}
    (hsent : Arrivals.Sent peer record header index message tile) (hepoch : header.epoch = 0)
    (again : Bool) :
    ∃ arrivals' later hs,
      Synced peer isClient arrivals' later
        (ctx.handleIncomingPacket suites detectors record again).1 ∧
      Accounts detectors Accepted windowSize peer (past ++ [record]) arrivals'
        (ctx.handleIncomingPacket suites detectors record again).1 ∧
      (ctx.handleIncomingPacket suites detectors record again).2 = .returned hs none none := by
  have hheader : RecordLayerHeader.unmarshal.run record = .ok (header, message.wire tile) := by
    rw [hsent.eq]
    exact RecordLayerHeader.reads_unmarshal hsent.valid (message.wire tile)
  have hnumber : recordNumber record = some (0, header.sequenceNumber) := by
    rw [hsent.eq, recordNumber_append hsent.valid, hepoch]
  have hpush := ctx.fragmentBuffer.push_wire hsent.valid hsent.contentType hsent.mem
  rw [← hsent.eq] at hpush
  have hchecked : Synced peer isClient arrivals next (ctx.check detectors header).1 :=
    hsynced.frame rfl rfl rfl hsynced.queue
  have hdetector : (ctx.check detectors header).1.detector detectors 0 =
      (detectors.check (ctx.detector detectors 0) header.sequenceNumber).1 := by
    rw [ConnReaderContext.check, detector_setDetector, hepoch, if_pos rfl]
  unfold ConnReaderContext.handleIncomingPacket
  simp only [hheader, hepoch, show ¬ ctx.remoteEpoch < 0 from UInt16.not_lt_zero, if_false]
  cases hcheck : ctx.check detectors header with
  | mk checked fresh =>
      have hfresh : (detectors.check (ctx.detector detectors 0) header.sequenceNumber).2 = fresh := by
        have := congrArg Prod.snd hcheck
        rwa [ConnReaderContext.check, hepoch] at this
      rw [hcheck] at hchecked hdetector
      cases fresh with
      | false =>
          refine ⟨arrivals, next, false, hchecked, haccounts.step (.inl rfl) (fun n hn => ?_) ?_, rfl⟩
          · rw [hdetector] at hn
            exact .inl (hlaw.check hn)
          · exact haccounts.mem_of_refused hlaw hsent.valid hnumber hfresh
      | true =>
          have hbuffer : checked.fragmentBuffer = ctx.fragmentBuffer := by
            rw [← hchecked.buffer, hsynced.buffer]
          simp only [handleFresh, hepoch, if_true, handlePlain, hbuffer]
          rw [hpush]
          by_cases hfull : fragmentBufferMaxSize ≤ ctx.fragmentBuffer.size + record.length
          · rw [if_pos hfull]
            refine ⟨arrivals, next, false, hchecked.frame hbuffer.symm rfl rfl hchecked.queue,
              haccounts.step (.inl rfl) (fun n hn => ?_) (fun _ hintime _ => ?_), rfl⟩
            · have hsame : Accepted (checked.detector detectors 0) n := hn
              rw [hdetector] at hsame
              exact .inl (hlaw.check hsame)
            · -- the buffer is not full when all records fit into it
              have hsize := hsynced.inv.size_le
              have htaken := List.Sublist.sum_le_sum (haccounts.taken.map List.length) (by simp)
              have hroom := hintime.room
              rw [hsynced.buffer] at hsize
              rw [List.map_append, List.sum_append, List.map_singleton, List.sum_singleton] at hroom
              omega
          · rw [if_neg hfull]
            obtain ⟨hcalm, arrivals', later, hsynced', htaken⟩ :=
              hchecked.stored detectors hread hsent hepoch (by rw [hbuffer])
            dsimp only
            rw [hcalm]
            rw [hepoch] at hsynced'
            refine ⟨arrivals', later, true, hsynced', haccounts.step (.inr htaken) (fun n hn => ?_)
              (fun _ _ _ => ?_), rfl⟩
            · have hsame : Accepted ((checked.accept detectors 0).detector detectors 0) n := hn
              rw [ConnReaderContext.accept, detector_setDetector, if_pos rfl, hdetector] at hsame
              rcases hlaw.accept hfresh hsame with hold | rfl
              · exact .inl hold
              · exact .inr ⟨hnumber, fun _ => by rw [htaken]; simp⟩
            · rw [htaken]
              simp

/-- What an alert leaves as it was, and that its number is the only one accepted. -/
structure Warned (detectors : ReplayDetectors Detector) (Accepted : Detector → ℕ → Prop)
    (header : RecordLayerHeader) (ctx next : ConnReaderContext Suite Detector) : Prop where
  fragmentBuffer : next.fragmentBuffer = ctx.fragmentBuffer
  cache : next.cache = ctx.cache
  isClient : next.isClient = ctx.isClient
  encryptedPackets : next.encryptedPackets = ctx.encryptedPackets
  accepted : ∀ n, Accepted (next.detector detectors 0) n →
    Accepted (ctx.detector detectors 0) n ∨ n = header.sequenceNumber

/-- An alert is refused, or its number is accepted. -/
theorem warned_handleIncomingPacket {header : RecordLayerHeader} (hvalid : header.Valid)
    (htype : header.contentType = .alert) (hepoch : header.epoch = 0) (alert : Alert)
    (ctx : ConnReaderContext Suite Detector) (again : Bool) :
    Warned detectors Accepted header ctx
      (ctx.handleIncomingPacket suites detectors (header.octets ++ alert.marshal) again).1 := by
  have hheader := RecordLayerHeader.reads_unmarshal hvalid alert.marshal
  have hrecord : RecordLayer.unmarshal.run (header.octets ++ alert.marshal) =
      .ok (⟨header, .alert alert⟩, []) := by
    rw [RecordLayer.unmarshal, run_bind_of_ok hheader, htype, Content.unmarshal]
    rw [← List.append_nil alert.marshal, bind_assoc, run_bind_of_ok (Alert.reads_unmarshal alert [])]
    rfl
  have hdetector : (ctx.check detectors header).1.detector detectors 0 =
      (detectors.check (ctx.detector detectors 0) header.sequenceNumber).1 := by
    rw [ConnReaderContext.check, detector_setDetector, hepoch, if_pos rfl]
  have hrefused : Warned detectors Accepted header ctx (ctx.check detectors header).1 := by
    refine ⟨rfl, rfl, rfl, rfl, fun n hn => ?_⟩
    rw [hdetector] at hn
    exact .inl (hlaw.check hn)
  unfold ConnReaderContext.handleIncomingPacket
  simp only [hheader, hepoch, show ¬ ctx.remoteEpoch < 0 from UInt16.not_lt_zero, if_false]
  cases hcheck : ctx.check detectors header with
  | mk checked fresh =>
      have hfresh : (detectors.check (ctx.detector detectors 0) header.sequenceNumber).2 = fresh := by
        have := congrArg Prod.snd hcheck
        rwa [ConnReaderContext.check, hepoch] at this
      rw [hcheck] at hrefused hdetector
      cases fresh with
      | false => exact hrefused
      | true =>
          have hplain : ¬ header.contentType ≠ .handshake → False := by simp [htype]
          simp only [handleFresh, hepoch, if_true, handlePlain, FragmentBuffer.push, hheader]
          by_cases hfull : fragmentBufferMaxSize ≤
              checked.fragmentBuffer.size + (header.octets ++ alert.marshal).length
          · rw [if_pos hfull]
            exact hrefused
          · rw [if_neg hfull, if_pos fun hno => hplain fun hother => hother hno, hrecord]
            refine ⟨hrefused.fragmentBuffer, hrefused.cache, hrefused.isClient,
              hrefused.encryptedPackets, fun n hn => ?_⟩
            have hsame : Accepted ((checked.accept detectors 0).detector detectors 0) n := by
              simpa [handleContent, hepoch] using hn
            rw [ConnReaderContext.accept, detector_setDetector, if_pos rfl, hdetector] at hsame
            exact hlaw.accept hfresh hsame

/-- An alert changes neither the buffer nor the cache. -/
theorem Synced.handleAlert (hsynced : Synced peer isClient arrivals next ctx)
    (haccounts : Accounts detectors Accepted windowSize peer past arrivals ctx) {record : Bytes}
    (hwarns : Warns record) (again hasHandshake : Bool) :
    Synced peer isClient arrivals next
        (handlePackets suites detectors again ctx hasHandshake [record]).1 ∧
      Accounts detectors Accepted windowSize peer (past ++ [record]) arrivals
        (handlePackets suites detectors again ctx hasHandshake [record]).1 := by
  have hother : ¬ Ships peer record := hwarns.not_ships
  obtain ⟨header, alert, hvalid, htype, hepoch, rfl⟩ := hwarns
  have hnumber : recordNumber (header.octets ++ alert.marshal) =
      some (0, header.sequenceNumber) := by
    rw [recordNumber_append hvalid, hepoch]
  have hwarned := warned_handleIncomingPacket suites detectors hlaw hvalid htype hepoch alert ctx
    again
  have hkept : ∀ {other : ConnReaderContext Suite Detector},
      Warned detectors Accepted header ctx other → Synced peer isClient arrivals next other ∧
        Accounts detectors Accepted windowSize peer (past ++ [header.octets ++ alert.marshal])
          arrivals other := by
    intro other hwarned
    refine ⟨hsynced.frame hwarned.fragmentBuffer hwarned.cache hwarned.isClient
      (hwarned.encryptedPackets.trans hsynced.queue), haccounts.step (.inl rfl) (fun n hn => ?_)
      fun _ _ hships => absurd hships hother⟩
    rcases hwarned.accepted n hn with hold | rfl
    · exact .inl hold
    · exact .inr ⟨hnumber, fun hships => absurd hships hother⟩
  rw [Dtls.handlePackets]
  cases hhandle : ctx.handleIncomingPacket suites detectors (header.octets ++ alert.marshal) again with
  | mk handled outcome =>
      rw [hhandle] at hwarned
      obtain ⟨hbuffer, hcache, hside, hqueue, haccepted⟩ := hwarned
      have hmore : Warned detectors Accepted header ctx handled :=
        ⟨hbuffer, hcache, hside, hqueue, haccepted⟩
      cases outcome with
      | panicked => exact hkept hmore
      | returned hs alert err =>
          cases alert with
          | none =>
              cases err with
              | none => exact hkept hmore
              | some err => exact hkept hmore
          | some alert =>
              have hnoted : Warned detectors Accepted header ctx
                  { handled with alerts := handled.alerts ++ [alert] } :=
                ⟨hbuffer, hcache, hside, hqueue, haccepted⟩
              dsimp only
              split
              · exact hkept hnoted
              · cases err with
                | none => exact hkept hnoted
                | some err => exact hkept hnoted

/-- A row of records with pieces of the peer's messages. -/
theorem Synced.handlePackets (hsynced : Synced peer isClient arrivals next ctx)
    (haccounts : Accounts detectors Accepted windowSize peer past arrivals ctx)
    (hread : ∀ message ∈ peer.messages, message.Readable) {pkts : List Bytes}
    (hpkts : ∀ pkt ∈ pkts, Ships peer pkt) (again hasHandshake : Bool) :
    ∃ arrivals' later,
      Synced peer isClient arrivals' later
        (handlePackets suites detectors again ctx hasHandshake pkts).1 ∧
      Accounts detectors Accepted windowSize peer (past ++ pkts) arrivals'
        (handlePackets suites detectors again ctx hasHandshake pkts).1 := by
  induction pkts generalizing past arrivals next ctx hasHandshake with
  | nil =>
      rw [List.append_nil]
      exact ⟨arrivals, next, hsynced, haccounts⟩
  | cons pkt pkts ih =>
      rw [List.forall_mem_cons] at hpkts
      obtain ⟨header, index, message, tile, hsent, hepoch⟩ := hpkts.1
      obtain ⟨middle, later, hs, hmiddle, hcounted, houtcome⟩ :=
        hsynced.handleIncomingPacket suites detectors hlaw haccounts hread hsent hepoch again
      obtain ⟨arrivals', last, hlast, hcounted'⟩ :=
        ih hmiddle hcounted hpkts.2 (hasHandshake || hs)
      rw [List.append_assoc, List.singleton_append] at hcounted'
      rw [Dtls.handlePackets]
      cases hhandle : ctx.handleIncomingPacket suites detectors pkt again with
      | mk handled outcome =>
          rw [hhandle] at houtcome hlast hcounted'
          dsimp only at houtcome
          subst houtcome
          exact ⟨arrivals', last, hlast, hcounted'⟩

/-- The state of the task: in step with the peer, and all records accounted for. -/
def InStep (detectors : ReplayDetectors Detector) (Accepted : Detector → ℕ → Prop) (windowSize : ℕ)
    (peer : Peer) (isClient : Bool) (records : List Bytes)
    (state : ReaderState Suite Detector) : Prop :=
  (∀ record ∈ state.received, record ∈ records) ∧ ∃ arrivals next,
    Synced peer isClient arrivals next state.ctx ∧
      Accounts detectors Accepted windowSize peer state.received arrivals state.ctx

/-- The event brings records that were sent: some pieces of messages, or an alert. -/
def Brings (peer : Peer) (records : List Bytes) : ReaderEvent Suite → Prop
  | .datagram buf => ∃ pkts, unpackDatagram buf = .ok pkts ∧ (∀ pkt ∈ pkts, pkt ∈ records) ∧
      ((∀ pkt ∈ pkts, Ships peer pkt) ∨ ∃ pkt, pkts = [pkt] ∧ Warns pkt)
  | _ => True

theorem InStep.readerStep {records : List Bytes} {state next : ReaderState Suite Detector}
    (hinstep : InStep detectors Accepted windowSize peer isClient records state)
    (hread : ∀ message ∈ peer.messages, message.Readable) {event : ReaderEvent Suite}
    (hevent : Brings peer records event)
    (hstep : readerStep suites detectors state event = some next) :
    InStep detectors Accepted windowSize peer isClient records next := by
  obtain ⟨hreceived, arrivals, count, hsynced, haccounts⟩ := hinstep
  cases event with
  | datagram buf =>
      obtain ⟨pkts, hunpack, hpkts, hkind⟩ := hevent
      rw [Dtls.readerStep] at hstep
      split at hstep
      · rw [hunpack] at hstep
        cases hstep
        refine ⟨List.forall_mem_append.mpr ⟨hreceived, hpkts⟩, ?_⟩
        rcases hkind with hships | ⟨pkt, rfl, hwarns⟩
        · exact hsynced.handlePackets suites detectors hlaw haccounts hread hships true false
        · exact ⟨arrivals, count,
            hsynced.handleAlert suites detectors hlaw haccounts hwarns true false⟩
      · cases hstep
  | handleQueue =>
      rw [Dtls.readerStep] at hstep
      split at hstep
      · cases hstep
        rw [hsynced.queue]
        exact ⟨hreceived, arrivals, count, hsynced.frame rfl rfl rfl rfl,
          haccounts.taken, haccounts.accepted, haccounts.all⟩
      · cases hstep
  | done =>
      rw [Dtls.readerStep] at hstep
      split at hstep
      · cases hstep
        exact ⟨hreceived, arrivals, count, hsynced, haccounts⟩
      · cases hstep
  | setCipherSuite cipherSuite =>
      cases hstep
      exact ⟨hreceived, arrivals, count, hsynced.frame rfl rfl rfl hsynced.queue,
        haccounts.taken, haccounts.accepted, haccounts.all⟩
  | close =>
      cases hstep
      exact ⟨hreceived, arrivals, count, hsynced, haccounts⟩

theorem InStep.run {records : List Bytes} {state final : ReaderState Suite Detector}
    (hinstep : InStep detectors Accepted windowSize peer isClient records state)
    (hread : ∀ message ∈ peer.messages, message.Readable) {events : List (ReaderEvent Suite)}
    (hevents : ∀ event ∈ events, Brings peer records event)
    (hrun : Machine.run (Dtls.readerStep suites detectors) state events = some final) :
    InStep detectors Accepted windowSize peer isClient records final := by
  induction events generalizing state with
  | nil =>
      obtain rfl : state = final := by simpa using hrun
      exact hinstep
  | cons event events ih =>
      rw [List.forall_mem_cons] at hevents
      obtain ⟨next, hstep, hrest⟩ := Machine.run_cons_eq_some.mp hrun
      exact ih (hinstep.readerStep suites detectors hlaw hread hevents.1 hstep) hevents.2 hrest

end Records

end Receiving

end AutonomiWebrtc.Dtls
