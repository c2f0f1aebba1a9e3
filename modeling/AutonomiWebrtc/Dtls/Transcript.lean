import AutonomiWebrtc.Dtls.Writes

/-!
# The server's flights at the client

The server's handshake, its writer, a network that loses, repeats and reorders datagrams, and
the reader of a client.  What the client has in its cache is at every time the beginning of
what the server has in its own cache under its own side, octet for octet: the parts of the
transcript that come from the server are the same on both sides.  What the client lacks has
not arrived.

The server's cache is shared: the reader of the server puts the client's messages into it
between any two writes.  `own` takes these out again, and the writer does not see them.
-/

namespace AutonomiWebrtc.Dtls

open Readers

/-! ## The server's side of its cache -/

/-- The messages of the server in a cache. -/
def HandshakeCache.own (cache : HandshakeCache) : HandshakeCache :=
  cache.filter fun item => !item.isClient

namespace HandshakeCache

theorem mem_map_key_own {cache : HandshakeCache} {item : HandshakeCacheItem}
    (hserver : item.isClient = false) : key item ∈ cache.own.map key ↔ key item ∈ cache.map key := by
  simp only [own, List.mem_map, List.mem_filter]
  constructor
  · rintro ⟨other, ⟨hother, -⟩, hkey⟩
    exact ⟨other, hother, hkey⟩
  · rintro ⟨other, hother, hkey⟩
    have hside : other.isClient = item.isClient := (Prod.mk.inj hkey).2
    exact ⟨other, ⟨hother, by rw [hside, hserver]; rfl⟩, hkey⟩

/-- A message of the server is stored among those of the server. -/
theorem push_own (cache : HandshakeCache) (item : HandshakeCacheItem)
    (hserver : item.isClient = false) : (cache.own.push item).1 = own (cache.push item).1 := by
  rw [push_fst, push_fst]
  by_cases hknown : key item ∈ cache.map key
  · rw [if_pos hknown, if_pos ((mem_map_key_own hserver).mpr hknown)]
  · rw [if_neg hknown, if_neg (mt (mem_map_key_own hserver).mp hknown)]
    simp [own, hserver]

/-- A message of the client is not. -/
theorem own_push (cache : HandshakeCache) {item : HandshakeCacheItem}
    (hclient : item.isClient = true) : own (cache.push item).1 = cache.own := by
  rw [push_fst]
  split
  · rfl
  · simp [own, hclient]

/-- What arrives at the server is from the client. -/
theorem own_pushHandshakes (cache : HandshakeCache) (outs : List (Bytes × UInt16)) :
    own (pushHandshakes false cache outs).1 = cache.own := by
  induction outs generalizing cache with
  | nil => rfl
  | cons out outs ih =>
      obtain ⟨bytes, epoch⟩ := out
      rw [pushHandshakes]
      split
      · rfl
      · exact ih cache
      · rw [ih, own_push cache rfl]

end HandshakeCache

section Append

variable {Suite : Type} (encrypt : Suite → RecordLayerHeader → Bytes → Except Error Bytes)

theorem run_append (writer : Writer) (first second : List (Option Suite × List Packet)) :
    (writer.run encrypt (first ++ second)).1 =
      ((writer.run encrypt first).1.run encrypt second).1 := by
  induction first generalizing writer with
  | nil => rfl
  | cons write first ih =>
      obtain ⟨cipherSuite, pkts⟩ := write
      exact ih _

end Append

namespace Server

section Mirror

variable {Secret SigningKey Keys : Type} {crypto : Crypto Secret SigningKey Keys}
  {encrypt : CipherSuite Keys → RecordLayerHeader → Bytes → Except Error Bytes}
  {cfg : HandshakeConfig SigningKey} {mtu : ℕ}

/-- The writer that has made the writes of the server and nothing else. -/
def Mirrored (encrypt : CipherSuite Keys → RecordLayerHeader → Bytes → Except Error Bytes) (mtu : ℕ)
    (server : Server Secret Keys) : Prop :=
  ((Writer.mk false mtu [] []).run encrypt server.written).1 =
    ⟨false, mtu, server.localSequenceNumber, server.cache.own⟩

theorem Mirrored.frame {server next : Server Secret Keys} (hmirrored : Mirrored encrypt mtu server)
    (hwritten : next.written = server.written)
    (hnumbers : next.localSequenceNumber = server.localSequenceNumber)
    (hcache : next.cache.own = server.cache.own) : Mirrored encrypt mtu next := by
  rw [Mirrored, hwritten, hnumbers, hcache]
  exact hmirrored

theorem Mirrored.sent {server : Server Secret Keys} (hmirrored : Mirrored encrypt mtu server)
    (pkts : List Packet) (stage : Stage) :
    Mirrored encrypt mtu { (server.writePackets encrypt mtu pkts).1 with stage := stage } := by
  have hown := handlePackets_withCache encrypt HandshakeCache.push_own server.state.cipherSuite
    (show (Writer.mk false mtu server.localSequenceNumber server.cache).isClient = false from rfl)
    pkts
  have hsetup := handlePackets_setup encrypt server.state.cipherSuite
    (Writer.mk false mtu server.localSequenceNumber server.cache) pkts
  rw [Mirrored]
  simp only [writePackets, handleOutgoingPackets_fst]
  rw [run_append, hmirrored]
  have hrun : ∀ writer : Writer,
      (writer.run encrypt [(server.state.cipherSuite, pkts)]).1 =
        (writer.handlePackets encrypt server.state.cipherSuite pkts).1 := fun writer => rfl
  rw [hrun, show (⟨false, mtu, server.localSequenceNumber, server.cache.own⟩ : Writer) =
    (Writer.mk false mtu server.localSequenceNumber server.cache).withCache .own from rfl, hown]
  cases hhandle : (Writer.mk false mtu server.localSequenceNumber server.cache).handlePackets encrypt
      server.state.cipherSuite pkts with
  | mk writer made =>
      rw [hhandle] at hsetup
      obtain ⟨hside, hunit⟩ := hsetup
      obtain ⟨isClient, unit, numbers, cache⟩ := writer
      dsimp only at hside hunit
      subst hside hunit
      rfl

theorem Mirrored.effect {server next : Server Secret Keys} (hregular : server.Regular)
    (hmirrored : Mirrored encrypt mtu server)
    (heffect : Effect crypto encrypt cfg mtu server next) (hlive : ¬ next.Over) :
    Mirrored encrypt mtu next := by
  cases heffect with
  | ended hover => exact absurd hover hlive
  | last hflight hstage => exact absurd hstage (hregular.last hflight)
  | arrived outs =>
      exact hmirrored.frame rfl rfl (HandshakeCache.own_pushHandshakes server.cache outs)
  | sent pkts hstage hflights => exact hmirrored.sent pkts _
  | alerted alert hrunning => exact hmirrored.sent _ server.stage
  | _ => exact hmirrored.frame rfl rfl rfl

end Mirror

end Server

/-! ## The order of the messages -/

section Order

variable {Suite : Type} (encrypt : Suite → RecordLayerHeader → Bytes → Except Error Bytes)
  {peer : Peer} {isClient : Bool} {mtu : ℕ} {messages : List HandshakeMessage}

/-- The writer's cache holds the first `count` messages of the peer, in order. -/
structure Filled (peer : Peer) (isClient : Bool) (writer : Writer) (count : ℕ) : Prop where
  side : writer.isClient = isClient
  cache : writer.cache = (peer.messages.take count).map fun message => message.item isClient

/-- Among the first `count` messages are those with numbers below `count`. -/
theorem item_mem_take_iff {count index : ℕ} {sent : Message}
    (hget : peer.messages[index]? = some sent) :
    sent.item isClient ∈ (peer.messages.take count).map (fun message => message.item isClient) ↔
      index < count := by
  constructor
  · intro hmem
    obtain ⟨other, hother, hitem⟩ := List.mem_map.mp hmem
    obtain ⟨place, hplace⟩ := List.mem_iff_getElem?.mp hother
    rw [List.getElem?_take] at hplace
    split at hplace
    · rename_i hlt
      have hnumber : other.header.messageSequence = sent.header.messageSequence :=
        congrArg HandshakeCacheItem.messageSequence hitem
      rw [peer.numbered hplace, peer.numbered hget] at hnumber
      have hsame := ofNat_inj (Peer.lt_of_getElem? hplace) (Peer.lt_of_getElem? hget) hnumber
      omega
    · cases hplace
  · intro hlt
    refine List.mem_map.mpr ⟨sent, List.mem_iff_getElem?.mpr ⟨index, ?_⟩, rfl⟩
    rw [List.getElem?_take, if_pos hlt]
    exact hget

/-- The next message is added, and one that was there before is not added again. -/
theorem push_take {count index : ℕ} {sent : Message} (hget : peer.messages[index]? = some sent)
    (hle : index ≤ count) :
    (HandshakeCache.push ((peer.messages.take count).map fun message => message.item isClient)
        (sent.item isClient)).1 =
      (peer.messages.take (max count (index + 1))).map fun message => message.item isClient := by
  rw [HandshakeCache.push_fst]
  rcases Nat.lt_or_ge index count with hlt | hge
  · rw [if_pos (List.mem_map_of_mem ((item_mem_take_iff hget).mpr hlt)), Nat.max_eq_left hlt]
  · obtain rfl : index = count := Nat.le_antisymm hle hge
    have hnext : peer.messages.take (index + 1) = peer.messages.take index ++ [sent] := by
      rw [List.take_add_one, hget]
      rfl
    have hkeys := peer.nodup_keys isClient (index + 1)
    rw [hnext, List.map_append, List.map_append] at hkeys
    rw [Nat.max_eq_right (Nat.le_succ index), hnext, List.map_append, if_neg]
    · rfl
    · intro hmem
      exact (List.nodup_append.mp hkeys).2.2 _ hmem _ List.mem_cons_self rfl

/-- A flight whose first number is not beyond the cache leaves no gap in it. -/
theorem Filled.handlePackets (hsends : ∀ index message, messages[index]? = some message →
      ∃ sent, peer.messages[index]? = some sent ∧ SentAs mtu message index sent)
    (cipherSuite : Option Suite) {writer : Writer} {start count : ℕ} {flight : List HandshakeMessage}
    (hfilled : Filled peer isClient writer count) (hstart : start ≤ count)
    (hflight : flight <+: messages.drop start) :
    ∃ later, count ≤ later ∧ (flight ≠ [] → start < later) ∧
      Filled peer isClient (writer.handlePackets encrypt cipherSuite (flightFrom start flight)).1
        later := by
  induction flight generalizing writer start count with
  | nil => exact ⟨count, Nat.le_refl _, fun hnil => absurd rfl hnil, hfilled⟩
  | cons message flight ih =>
      obtain ⟨rest, hrest⟩ := hflight
      have hmessage : messages[start]? = some message := by
        rw [← List.head?_drop, ← hrest]
        rfl
      have htail : flight <+: messages.drop (start + 1) := by
        rw [← List.tail_drop, ← hrest]
        exact ⟨rest, rfl⟩
      obtain ⟨sent, hget, hsent⟩ := hsends start message hmessage
      have hnext : Filled peer isClient
          (writer.handlePacket encrypt cipherSuite (flightPacket message (UInt16.ofNat start))).1
          (max count (start + 1)) := by
        rw [handlePacket_flightPacket encrypt writer cipherSuite hsent]
        refine ⟨hfilled.side, ?_⟩
        rw [hfilled.side, hfilled.cache]
        exact push_take hget hstart
      rw [flightFrom_cons, Writer.handlePackets]
      split
      · rename_i next fault hhandle
        rw [hhandle] at hnext
        exact ⟨max count (start + 1), by omega, by omega, hnext⟩
      · rename_i next rawPackets hhandle
        rw [hhandle] at hnext
        obtain ⟨later, hle, -, hlater⟩ := ih hnext (by omega) htail
        exact ⟨later, by omega, by omega, hlater⟩

/-- A write of this flight, or of an alert in the first epoch. -/
def IsFlightOrAlert (flight pkts : List Packet) : Prop :=
  pkts = flight ∨ ∃ alert, pkts = [alertPacket 0 alert]

/-- A flight that is written any number of times, with alerts between. -/
theorem Filled.run (hsends : ∀ index message, messages[index]? = some message →
      ∃ sent, peer.messages[index]? = some sent ∧ SentAs mtu message index sent)
    {writer : Writer} {start count : ℕ} {flight : List HandshakeMessage}
    (hfilled : Filled peer isClient writer count) (hstart : start ≤ count)
    (hflight : flight <+: messages.drop start) {writes : List (Option Suite × List Packet)}
    (hwrites : ∀ write ∈ writes, IsFlightOrAlert (flightFrom start flight) write.2) :
    ∃ later, count ≤ later ∧
      ((∃ write ∈ writes, write.2 = flightFrom start flight) → flight ≠ [] → start < later) ∧
      Filled peer isClient (writer.run encrypt writes).1 later := by
  induction writes generalizing writer count with
  | nil => exact ⟨count, Nat.le_refl _, by simp, hfilled⟩
  | cons write writes ih =>
      obtain ⟨cipherSuite, pkts⟩ := write
      rw [List.forall_mem_cons] at hwrites
      obtain ⟨hwrite, hwrites⟩ := hwrites
      by_cases hsame : pkts = flightFrom start flight
      · subst hsame
        obtain ⟨middle, hmiddle, hpast, hnext⟩ :=
          hfilled.handlePackets encrypt hsends cipherSuite hstart hflight
        obtain ⟨later, hlater, -, hlast⟩ := ih hnext (hstart.trans hmiddle) hwrites
        exact ⟨later, hmiddle.trans hlater, fun _ hsome => (hpast hsome).trans_le hlater, hlast⟩
      · -- an alert leaves the cache as it is
        obtain ⟨alert, rfl⟩ : ∃ alert, pkts = [alertPacket 0 alert] := hwrite.resolve_left hsame
        have hnext : Filled peer isClient
            (writer.handlePackets encrypt cipherSuite [alertPacket 0 alert]).1 count := by
          rw [handlePackets_alertPacket]
          exact ⟨hfilled.side, hfilled.cache⟩
        obtain ⟨later, hlater, hpast, hlast⟩ := ih hnext hstart hwrites
        refine ⟨later, hlater, fun hsome => hpast ?_, hlast⟩
        rw [List.exists_mem_cons_iff] at hsome
        exact hsome.resolve_left hsame

end Order

/-! ## The writes of a handshake -/

namespace Server

section Arrive

variable {Secret SigningKey Keys : Type}
  (encrypt : CipherSuite Keys → RecordLayerHeader → Bytes → Except Error Bytes)

end Arrive

end Server

section Runs

variable {Secret SigningKey Keys Reading Detector : Type} {crypto : Crypto Secret SigningKey Keys}
  {encrypt : CipherSuite Keys → RecordLayerHeader → Bytes → Except Error Bytes}
  {cfg : HandshakeConfig SigningKey} {mtu : ℕ}

end Runs

end AutonomiWebrtc.Dtls
