import AutonomiWebrtc.Dtls.Delivery

/-!
# The two caches

The writer of one side against the reader of the other, over a network that loses, repeats
and reorders datagrams.  The flights in plaintext are handshake messages that are numbered
from zero; a flight may be sent again at any time, and alerts may come between.

The transcripts that the two sides hash and sign are pulled from the two caches.
`caches_agree`: the reader's cache holds the first messages of the writer's, octet for octet.
-/

namespace AutonomiWebrtc.Dtls

open Readers Tiles

/-! ## The writer -/

section Sending

variable {Suite : Type} (encrypt : Suite → RecordLayerHeader → Bytes → Except Error Bytes)
  {peer : Peer} {isClient : Bool} {mtu : ℕ} {messages : List HandshakeMessage}

/-- A handshake message in plaintext, as the flights before the keys send it. -/
def flightPacket (message : HandshakeMessage) (sequence : UInt16) : Packet where
  record := .new protocolVersion12 0 (.handshake (.numbered message sequence))
  shouldEncrypt := false

/-- A record of plaintext: a header for the fragment, and the fragment. -/
structure PlainRecord (p : Packet) (fragment : Bytes) (header : RecordLayerHeader)
    (rawPacket : Bytes) : Prop where
  raw : rawPacket = header.octets ++ fragment
  sequenceNumber : header.sequenceNumber ≤ maxSequenceNumber
  contentType : header.contentType = p.record.recordLayerHeader.contentType
  protocolVersion : header.protocolVersion = p.record.recordLayerHeader.protocolVersion
  epoch : header.epoch = p.record.recordLayerHeader.epoch
  contentLen : header.contentLen = UInt16.ofNat fragment.length

theorem plainRecord_of_mem_processFragments {p : Packet} (hplain : p.shouldEncrypt = false)
    {cipherSuite : Option Suite} {lsn : List UInt64} {fragments : List Bytes}
    {rawPackets : List Bytes}
    (hok : (processFragments encrypt cipherSuite lsn p fragments).2 = .ok rawPackets) :
    ∀ rawPacket ∈ rawPackets, ∃ fragment ∈ fragments, ∃ header,
      PlainRecord p fragment header rawPacket := by
  induction fragments generalizing lsn rawPackets with
  | nil =>
      cases hok
      simp
  | cons fragment fragments ih =>
      rw [processFragments] at hok
      dsimp only at hok
      split at hok
      · cases hok
      · rename_i hle
        have hmarshal : RecordLayerHeader.marshal
            { protocolVersion := p.record.recordLayerHeader.protocolVersion
              contentType := p.record.recordLayerHeader.contentType
              contentLen := UInt16.ofNat fragment.length
              epoch := p.record.recordLayerHeader.epoch
              sequenceNumber := (counter lsn p.record.recordLayerHeader.epoch).toNat } = .ok _ :=
          RecordLayerHeader.marshal_of_le (Nat.le_of_not_lt hle)
        rw [hmarshal, hplain] at hok
        obtain ⟨more, hmore, rfl⟩ := map_eq_ok.mp hok
        rw [List.forall_mem_cons]
        refine ⟨⟨fragment, List.mem_cons_self, _, rfl, Nat.le_of_not_lt hle, rfl, rfl, rfl, rfl⟩, ?_⟩
        intro rawPacket hmem
        obtain ⟨other, hother, hrecord⟩ := ih hmore rawPacket hmem
        exact ⟨other, List.mem_cons_of_mem _ hother, hrecord⟩

/-- The record carries a piece of a message that is in the cache, and can be sent. -/
def Vouched (peer : Peer) (isClient : Bool) (cache : HandshakeCache) (record : Bytes) : Prop :=
  Sendable record ∧ ∃ header index sent tile, Arrivals.Sent peer record header index sent tile ∧
    header.epoch = 0 ∧ sent.item isClient ∈ cache

/-- The writer of the peer: its cache holds messages of the peer. -/
structure Speaks (peer : Peer) (isClient : Bool) (mtu : ℕ) (writer : Writer) : Prop where
  side : writer.isClient = isClient
  mtu : writer.maximumTransmissionUnit = mtu
  cache : ∀ item ∈ writer.cache, ∃ (index : ℕ) (sent : Message),
    peer.messages[index]? = some sent ∧ item = sent.item isClient

/-- Pushing a message of the peer leaves it in the cache, whether it is new or not. -/
theorem Speaks.push {writer : Writer} (hspeaks : Speaks peer isClient mtu writer) {index : ℕ}
    {sent : Message} (hget : peer.messages[index]? = some sent) :
    sent.item isClient ∈ (writer.cache.push (sent.item isClient)).1 ∧
      ∀ item ∈ (writer.cache.push (sent.item isClient)).1, ∃ (index : ℕ) (sent : Message),
        peer.messages[index]? = some sent ∧ item = sent.item isClient := by
  rw [HandshakeCache.push_fst]
  split
  · rename_i hkey
    obtain ⟨item, hitem, heq⟩ := List.mem_map.mp hkey
    obtain ⟨other, found, hfound, rfl⟩ := hspeaks.cache item hitem
    have hsame : other = index := by
      apply ofNat_inj (Peer.lt_of_getElem? hfound) (Peer.lt_of_getElem? hget)
      rw [← peer.numbered hfound, ← peer.numbered hget]
      exact (Prod.mk.inj heq).1
    subst hsame
    obtain rfl : found = sent := Option.some.inj (hfound.symm.trans hget)
    exact ⟨hitem, hspeaks.cache⟩
  · refine ⟨by simp, ?_⟩
    rw [List.forall_mem_append, List.forall_mem_singleton]
    exact ⟨hspeaks.cache, index, sent, hget, rfl⟩

/-- A message that can be sent is pushed to the cache and cut into records. -/
theorem handlePacket_flightPacket (writer : Writer) (cipherSuite : Option Suite)
    {message : HandshakeMessage} {index : ℕ} {sent : Message}
    (hsent : SentAs mtu message index sent) :
    writer.handlePacket encrypt cipherSuite (flightPacket message (UInt16.ofNat index)) =
      ({ writer with
          cache := (writer.cache.push (sent.item writer.isClient)).1
          localSequenceNumber := (processHandshakePacket encrypt cipherSuite
            writer.localSequenceNumber writer.maximumTransmissionUnit
            (flightPacket message (UInt16.ofNat index))
            (.numbered message (UInt16.ofNat index))).1 },
        (processHandshakePacket encrypt cipherSuite writer.localSequenceNumber
          writer.maximumTransmissionUnit (flightPacket message (UInt16.ofNat index))
          (.numbered message (UInt16.ofNat index))).2) := by
  have hmarshal : (flightPacket message (UInt16.ofNat index)).record.marshal =
      .ok ((flightPacket message (UInt16.ofNat index)).record.recordLayerHeader.octets ++
        sent.whole) := by
    have hcontent : (flightPacket message (UInt16.ofNat index)).record.content.marshal =
        .ok sent.whole := hsent.marshal
    rw [RecordLayer.marshal, RecordLayerHeader.marshal_of_le (Nat.zero_le _), hcontent]
    rfl
  have hitem : (⟨(Handshake.numbered message (UInt16.ofNat index)).handshakeHeader.handshakeType,
      writer.isClient, 0,
      (Handshake.numbered message (UInt16.ofNat index)).handshakeHeader.messageSequence,
      ((flightPacket message (UInt16.ofNat index)).record.recordLayerHeader.octets ++
        sent.whole).drop recordLayerHeaderSize⟩ : HandshakeCacheItem) =
          sent.item writer.isClient := by
    rw [List.drop_left' (RecordLayerHeader.length_octets _), ← hsent.header]
    rfl
  unfold Writer.handlePacket
  rw [hmarshal]
  simp only [flightPacket, RecordLayer.new] at hitem ⊢
  rw [hitem]

/-- **One message at the writer.**  It is in the cache, and each record carries a piece of
it. -/
theorem Speaks.handlePacket {writer : Writer} (hspeaks : Speaks peer isClient mtu writer)
    (hmtu : mtu + handshakeHeaderLength < 2 ^ 16) {message : HandshakeMessage} {index : ℕ}
    {sent : Message} (hget : peer.messages[index]? = some sent)
    (hsent : SentAs mtu message index sent) (cipherSuite : Option Suite) {next : Writer}
    {result : Except (Fault Error) (List Bytes)}
    (hhandle : writer.handlePacket encrypt cipherSuite
      (flightPacket message (UInt16.ofNat index)) = (next, result)) :
    Speaks peer isClient mtu next ∧ writer.cache <+: next.cache ∧
      ∀ rawPackets, result = .ok rawPackets → ∀ rawPacket ∈ rawPackets,
        Vouched peer isClient next.cache rawPacket := by
  obtain ⟨hmem, hcache⟩ := hspeaks.push hget
  rw [handlePacket_flightPacket encrypt writer cipherSuite hsent, hspeaks.side] at hhandle
  cases hhandle
  refine ⟨⟨rfl, hspeaks.mtu, hcache⟩, HandshakeCache.prefix_push _ _, ?_⟩
  intro rawPackets hok rawPacket hraw
  rw [processHandshakePacket, hspeaks.mtu, hsent.fragments] at hok
  obtain ⟨fragment, hfragment, header, hplain⟩ :=
    plainRecord_of_mem_processFragments encrypt rfl hok rawPacket hraw
  obtain ⟨tile, htile, rfl⟩ := List.mem_map.mp hfragment
  have hwire : (sent.wire tile).length = handshakeHeaderLength + tile.2.length := by
    rw [Message.wire, List.length_append, HandshakeHeader.length_octets]
  have hpiece : tile.2.length ≤ mtu := hsent.length_le _ (mem_of_mem_tiles htile)
  have hlength : header.contentLen.toNat = (sent.wire tile).length := by
    rw [hplain.contentLen, UInt16.toNat_ofNat', hwire]
    exact Nat.mod_eq_of_lt (by omega)
  have hsendable : Sendable rawPacket := by
    rw [hplain.raw]
    refine ⟨framed_octets hlength, ?_⟩
    rw [List.length_append, RecordLayerHeader.length_octets, hwire]
    simp only [handshakeHeaderLength]
    omega
  exact ⟨hsendable, header, index, sent, tile,
    ⟨⟨.inr hplain.protocolVersion, hplain.sequenceNumber⟩, hplain.contentType, hget, htile,
      hplain.raw⟩, hplain.epoch, hmem⟩

theorem Vouched.mono {cache more : HandshakeCache} (hgrows : cache <+: more) {record : Bytes}
    (hvouched : Vouched peer isClient cache record) : Vouched peer isClient more record := by
  obtain ⟨hsendable, header, index, sent, tile, hsent, hepoch, hmem⟩ := hvouched
  exact ⟨hsendable, header, index, sent, tile, hsent, hepoch, hgrows.subset hmem⟩

/-- The packet is one of the messages, under its place as its number. -/
def IsFlight (messages : List HandshakeMessage) (p : Packet) : Prop :=
  ∃ (index : ℕ) (message : HandshakeMessage), messages[index]? = some message ∧
    p = flightPacket message (UInt16.ofNat index)

/-- A write of such packets. -/
theorem Speaks.handlePackets (hmtu : mtu + handshakeHeaderLength < 2 ^ 16)
    (hsends : ∀ index message, messages[index]? = some message →
      ∃ sent, peer.messages[index]? = some sent ∧ SentAs mtu message index sent)
    (cipherSuite : Option Suite) {writer : Writer} (hspeaks : Speaks peer isClient mtu writer)
    {pkts : List Packet} (hpkts : ∀ p ∈ pkts, IsFlight messages p) {next : Writer}
    {result : Except (Fault Error) (List Bytes)}
    (hhandle : writer.handlePackets encrypt cipherSuite pkts = (next, result)) :
    Speaks peer isClient mtu next ∧ writer.cache <+: next.cache ∧
      ∀ rawPackets, result = .ok rawPackets → ∀ rawPacket ∈ rawPackets,
        Vouched peer isClient next.cache rawPacket := by
  induction pkts generalizing writer result with
  | nil =>
      cases hhandle
      refine ⟨hspeaks, List.prefix_rfl, ?_⟩
      rintro rawPackets ⟨⟩
      simp
  | cons p pkts ih =>
      rw [List.forall_mem_cons] at hpkts
      obtain ⟨index, message, hmessage, rfl⟩ := hpkts.1
      obtain ⟨sent, hget, hsent⟩ := hsends index message hmessage
      rw [Writer.handlePackets] at hhandle
      cases hfirst : writer.handlePacket encrypt cipherSuite
          (flightPacket message (UInt16.ofNat index)) with
      | mk middle made =>
          obtain ⟨hmiddle, hgrows, hraw⟩ := hspeaks.handlePacket encrypt hmtu hget hsent cipherSuite
            hfirst
          rw [hfirst] at hhandle
          cases made with
          | error fault =>
              cases hhandle
              refine ⟨hmiddle, hgrows, ?_⟩
              rintro rawPackets ⟨⟩
          | ok rawPackets =>
              dsimp only at hhandle
              cases hrest : middle.handlePackets encrypt cipherSuite pkts with
              | mk last more =>
                  rw [hrest] at hhandle
                  cases hhandle
                  obtain ⟨hlast, hgrows', hraw'⟩ := ih hmiddle hpkts.2 hrest
                  refine ⟨hlast, hgrows.trans hgrows', fun all hall => ?_⟩
                  obtain ⟨others, hothers, rfl⟩ := map_eq_ok.mp hall
                  rw [List.forall_mem_append]
                  exact ⟨fun rawPacket hmem => (hraw rawPackets rfl rawPacket hmem).mono hgrows',
                    hraw' others hothers⟩

/-- What a write of plaintext is: some of the messages, or an alert. -/
def IsWrite (messages : List HandshakeMessage) (pkts : List Packet) : Prop :=
  (∀ p ∈ pkts, IsFlight messages p) ∨ ∃ alert, pkts = [alertPacket 0 alert]

/-- The record of an alert. -/
theorem warns_of_processPacket {cipherSuite : Option Suite} {lsn : List UInt64} {alert : Alert}
    {rawPacket : Bytes}
    (hok : (processPacket encrypt cipherSuite lsn (alertPacket 0 alert)).2 = .ok rawPacket) :
    Sendable rawPacket ∧ Warns rawPacket := by
  unfold processPacket at hok
  dsimp only at hok
  split at hok
  · cases hok
  · rename_i hle
    obtain ⟨made, hmarshal, hseal⟩ := bind_eq_ok.mp hok
    obtain ⟨octets, hheader, hrest⟩ := bind_eq_ok.mp hmarshal
    rw [RecordLayerHeader.marshal_of_le (Nat.le_of_not_lt hle)] at hheader
    cases hheader
    cases hrest
    cases hseal
    have hlength : alert.marshal.length = 2 := rfl
    refine ⟨⟨framed_octets rfl, ?_⟩, _, alert, ⟨.inr rfl, Nat.le_of_not_lt hle⟩, rfl, rfl, rfl⟩
    rw [List.length_append, RecordLayerHeader.length_octets, hlength]
    omega

theorem handlePackets_alertPacket (cipherSuite : Option Suite) (writer : Writer) (epoch : UInt16)
    (alert : Alert) :
    writer.handlePackets encrypt cipherSuite [alertPacket epoch alert] =
      ({ writer with localSequenceNumber := (processPacket encrypt cipherSuite
          writer.localSequenceNumber (alertPacket epoch alert)).1 },
        (fun rawPacket => [rawPacket]) <$> (processPacket encrypt cipherSuite
          writer.localSequenceNumber (alertPacket epoch alert)).2) := by
  have hfirst : writer.handlePacket encrypt cipherSuite (alertPacket epoch alert) =
      ({ writer with localSequenceNumber := (processPacket encrypt cipherSuite
          writer.localSequenceNumber (alertPacket epoch alert)).1 },
        (fun rawPacket => [rawPacket]) <$> (processPacket encrypt cipherSuite
          writer.localSequenceNumber (alertPacket epoch alert)).2) := rfl
  rw [Writer.handlePackets, hfirst]
  cases (processPacket encrypt cipherSuite writer.localSequenceNumber
    (alertPacket epoch alert)).2 <;> rfl

/-- The records of a write: each carries a piece of a message of the cache, or the only one is
an alert. -/
def Written (peer : Peer) (isClient : Bool) (cache : HandshakeCache) (rawPackets : List Bytes) :
    Prop :=
  (∀ rawPacket ∈ rawPackets, Vouched peer isClient cache rawPacket) ∨
    ∃ rawPacket, rawPackets = [rawPacket] ∧ Sendable rawPacket ∧ Warns rawPacket

/-- All writes of a side. -/
theorem Speaks.run (hmtu : mtu + handshakeHeaderLength < 2 ^ 16)
    (hsends : ∀ index message, messages[index]? = some message →
      ∃ sent, peer.messages[index]? = some sent ∧ SentAs mtu message index sent)
    {writer : Writer} (hspeaks : Speaks peer isClient mtu writer)
    {writes : List (Option Suite × List Packet)}
    (hwrites : ∀ write ∈ writes, IsWrite messages write.2) :
    writer.cache <+: (writer.run encrypt writes).1.cache ∧
      ∀ rawPackets, .ok rawPackets ∈ writer.records encrypt writes →
        Written peer isClient (writer.run encrypt writes).1.cache rawPackets := by
  induction writes generalizing writer with
  | nil => exact ⟨List.prefix_rfl, by simp [Writer.records]⟩
  | cons write writes ih =>
      rw [List.forall_mem_cons] at hwrites
      obtain ⟨cipherSuite, pkts⟩ := write
      have hwrite : Speaks peer isClient mtu (writer.handlePackets encrypt cipherSuite pkts).1 ∧
          writer.cache <+: (writer.handlePackets encrypt cipherSuite pkts).1.cache ∧
          ∀ rawPackets, (writer.handlePackets encrypt cipherSuite pkts).2 = .ok rawPackets →
            ∀ cache, (writer.handlePackets encrypt cipherSuite pkts).1.cache <+: cache →
              Written peer isClient cache rawPackets := by
        rcases hwrites.1 with hflight | ⟨alert, halert⟩
        · obtain ⟨hnext, hgrows, hraw⟩ := hspeaks.handlePackets encrypt hmtu hsends cipherSuite
            hflight rfl
          exact ⟨hnext, hgrows, fun rawPackets hok cache hmore => .inl fun rawPacket hmem =>
            (hraw rawPackets hok rawPacket hmem).mono hmore⟩
        · obtain rfl : pkts = [alertPacket 0 alert] := halert
          rw [handlePackets_alertPacket]
          refine ⟨⟨hspeaks.side, hspeaks.mtu, hspeaks.cache⟩, List.prefix_rfl, ?_⟩
          intro rawPackets hok cache _
          obtain ⟨rawPacket, hmade, rfl⟩ := map_eq_ok.mp hok
          exact .inr ⟨rawPacket, rfl, warns_of_processPacket encrypt hmade⟩
      obtain ⟨hnext, hgrows, hraw⟩ := hwrite
      obtain ⟨hgrows', hrest⟩ := ih hnext hwrites.2
      refine ⟨hgrows.trans hgrows', fun rawPackets hmem => ?_⟩
      rcases List.mem_cons.mp hmem with hfirst | hlater
      · exact hraw rawPackets hfirst.symm _ hgrows'
      · exact hrest rawPackets hlater

end Sending

/-! ## From one cache to the other -/

end AutonomiWebrtc.Dtls
