import AutonomiWebrtc.Dtls.Cache
import AutonomiWebrtc.Dtls.Datagram
import AutonomiWebrtc.Dtls.Reassembly
import AutonomiWebrtc.Dtls.Record
import AutonomiWebrtc.Library.Tables

/-!
# The writer of a connection

The task that sends: `handle_outgoing_packets` numbers the records of a write, keeps the
handshake messages in the cache, cuts them into fragments and packs the records into
datagrams.  An error anywhere in a write sends nothing of it, but the numbers it has used
stay used.

The numbers are read back from the records as a peer would read them.  An encrypted record
has its header in the clear; of the encryption this needs that it changes no more of the
header than the length.
-/

namespace AutonomiWebrtc.Dtls

open Readers

/-- `Packet`. -/
structure Packet where
  record : RecordLayer
  shouldEncrypt : Bool
  deriving DecidableEq

/-- The packet of an alert while there are no keys. -/
def alertPacket (epoch : UInt16) (alert : Alert) : Packet where
  record := .new protocolVersion12 epoch (.alert alert)
  shouldEncrypt := false

/-- The counter of an epoch in `local_sequence_number`. -/
def counter (lsn : List UInt64) (epoch : UInt16) : UInt64 := Tables.get 0 lsn epoch.toNat

/-- `lsn[epoch] += 1`, which wraps in a build without overflow checks. -/
def advance (lsn : List UInt64) (epoch : UInt16) : List UInt64 :=
  Tables.put 0 lsn epoch.toNat (counter lsn epoch + 1)

section Outgoing

variable {Suite : Type} (encrypt : Suite → RecordLayerHeader → Bytes → Except Error Bytes)

/-- The encryption of a record, if it is asked for and there is a cipher suite. -/
def sealRecord (cipherSuite : Option Suite) (shouldEncrypt : Bool) (header : RecordLayerHeader)
    (rawPacket : Bytes) : Except (Fault Error) Bytes :=
  if shouldEncrypt then
    match cipherSuite with
    | none => .ok rawPacket
    | some cipherSuite =>
        match encrypt cipherSuite header rawPacket with
        | .ok rawPacket => .ok rawPacket
        | .error err => .error (.err err)
  else .ok rawPacket

/-- `process_packet`. -/
def processPacket (cipherSuite : Option Suite) (lsn : List UInt64) (p : Packet) :
    List UInt64 × Except (Fault Error) Bytes :=
  let epoch := p.record.recordLayerHeader.epoch
  let seq := (counter lsn epoch).toNat
  let lsn := advance lsn epoch
  if maxSequenceNumber < seq then (lsn, .error (.err .errSequenceNumberOverflow))
  else
    let header := { p.record.recordLayerHeader with sequenceNumber := seq }
    (lsn, do
      let rawPacket ← RecordLayer.marshal { p.record with recordLayerHeader := header }
      sealRecord encrypt cipherSuite p.shouldEncrypt header rawPacket)

/-- The loop of `process_handshake_packet` over the fragments. -/
def processFragments (cipherSuite : Option Suite) (lsn : List UInt64) (p : Packet) :
    List Bytes → List UInt64 × Except (Fault Error) (List Bytes)
  | [] => (lsn, .ok [])
  | fragment :: fragments =>
      let epoch := p.record.recordLayerHeader.epoch
      let seq := (counter lsn epoch).toNat
      let lsn := advance lsn epoch
      if maxSequenceNumber < seq then (lsn, .error (.err .errSequenceNumberOverflow))
      else
        let header : RecordLayerHeader :=
          { protocolVersion := p.record.recordLayerHeader.protocolVersion
            contentType := p.record.recordLayerHeader.contentType
            contentLen := UInt16.ofNat fragment.length
            epoch := p.record.recordLayerHeader.epoch
            sequenceNumber := seq }
        let made := do
          let headerBytes ← header.marshal
          sealRecord encrypt cipherSuite p.shouldEncrypt header (headerBytes ++ fragment)
        match made with
        | .error fault => (lsn, .error fault)
        | .ok rawPacket =>
            let (lsn, rest) := processFragments cipherSuite lsn p fragments
            (lsn, (rawPacket :: ·) <$> rest)

/-- `process_handshake_packet`. -/
def processHandshakePacket (cipherSuite : Option Suite) (lsn : List UInt64)
    (maximumTransmissionUnit : ℕ) (p : Packet) (h : Handshake) :
    List UInt64 × Except (Fault Error) (List Bytes) :=
  match fragmentHandshake maximumTransmissionUnit h with
  | .error fault => (lsn, .error fault)
  | .ok fragments =>
      processFragments encrypt cipherSuite
        (Tables.grow 0 lsn p.record.recordLayerHeader.epoch.toNat) p fragments

/-- The writer: the counters, the cache and what it was set up with. -/
structure Writer where
  isClient : Bool
  maximumTransmissionUnit : ℕ
  localSequenceNumber : List UInt64
  cache : HandshakeCache

/-- One packet of a write. -/
def Writer.handlePacket (cipherSuite : Option Suite) (writer : Writer) (p : Packet) :
    Writer × Except (Fault Error) (List Bytes) :=
  match p.record.content with
  | .handshake h =>
      match p.record.marshal with
      | .error fault => (writer, .error fault)
      | .ok handshakeRaw =>
          let cache := (writer.cache.push
            { typ := h.handshakeHeader.handshakeType
              isClient := writer.isClient
              epoch := p.record.recordLayerHeader.epoch
              messageSequence := h.handshakeHeader.messageSequence
              data := handshakeRaw.drop recordLayerHeaderSize }).1
          let (lsn, made) := processHandshakePacket encrypt cipherSuite writer.localSequenceNumber
            writer.maximumTransmissionUnit p h
          ({ writer with cache := cache, localSequenceNumber := lsn }, made)
  | _ =>
      let (lsn, made) := processPacket encrypt cipherSuite writer.localSequenceNumber p
      ({ writer with localSequenceNumber := lsn }, (fun rawPacket => [rawPacket]) <$> made)

/-- The loop of `handle_outgoing_packets` over the packets. -/
def Writer.handlePackets (cipherSuite : Option Suite) (writer : Writer) :
    List Packet → Writer × Except (Fault Error) (List Bytes)
  | [] => (writer, .ok [])
  | p :: pkts =>
      match writer.handlePacket encrypt cipherSuite p with
      | (writer, .error fault) => (writer, .error fault)
      | (writer, .ok rawPackets) =>
          let (writer, rest) := writer.handlePackets cipherSuite pkts
          (writer, (rawPackets ++ ·) <$> rest)

/-- The datagrams of the records of a write. -/
def datagrams (maximumTransmissionUnit : ℕ) (rawPackets : List Bytes) : List Bytes :=
  if rawPackets = [] then [] else compactRawPackets rawPackets maximumTransmissionUnit

/-- `handle_outgoing_packets`: the datagrams are sent only if every packet went through. -/
def Writer.handleOutgoingPackets (cipherSuite : Option Suite) (writer : Writer)
    (pkts : List Packet) : Writer × Except (Fault Error) (List Bytes) :=
  let (next, made) := writer.handlePackets encrypt cipherSuite pkts
  (next, datagrams writer.maximumTransmissionUnit <$> made)

/-- The writes of a connection one after another, each with the cipher suite of its time, and
the datagrams of each of them. -/
def Writer.run (writer : Writer) :
    List (Option Suite × List Packet) → Writer × List (Except (Fault Error) (List Bytes))
  | [] => (writer, [])
  | (cipherSuite, pkts) :: writes =>
      let (next, made) := writer.handleOutgoingPackets encrypt cipherSuite pkts
      let (final, more) := next.run writes
      (final, made :: more)

/-- The records of each of the writes. -/
def Writer.records (writer : Writer) :
    List (Option Suite × List Packet) → List (Except (Fault Error) (List Bytes))
  | [] => []
  | (cipherSuite, pkts) :: writes =>
      let (next, made) := writer.handlePackets encrypt cipherSuite pkts
      made :: next.records writes

/-- What is sent: that of the writes that went through. -/
def sent (results : List (Except (Fault Error) (List Bytes))) : List Bytes :=
  results.flatMap fun
    | .ok parts => parts
    | .error _ => []

end Outgoing

section Setup

variable {Suite : Type} (encrypt : Suite → RecordLayerHeader → Bytes → Except Error Bytes)

/-- A write changes neither the side nor the size of the datagrams. -/
theorem handlePacket_setup (cipherSuite : Option Suite) (writer : Writer) (p : Packet) :
    (writer.handlePacket encrypt cipherSuite p).1.isClient = writer.isClient ∧
      (writer.handlePacket encrypt cipherSuite p).1.maximumTransmissionUnit =
        writer.maximumTransmissionUnit := by
  unfold Writer.handlePacket
  split
  · split <;> exact ⟨rfl, rfl⟩
  · exact ⟨rfl, rfl⟩

theorem handlePackets_setup (cipherSuite : Option Suite) (writer : Writer) (pkts : List Packet) :
    (writer.handlePackets encrypt cipherSuite pkts).1.isClient = writer.isClient ∧
      (writer.handlePackets encrypt cipherSuite pkts).1.maximumTransmissionUnit =
        writer.maximumTransmissionUnit := by
  induction pkts generalizing writer with
  | nil => exact ⟨rfl, rfl⟩
  | cons p pkts ih =>
      obtain ⟨hside, hunit⟩ := handlePacket_setup encrypt cipherSuite writer p
      rw [Writer.handlePackets]
      split
      · rename_i next fault hhandle
        rw [hhandle] at hside hunit
        exact ⟨hside, hunit⟩
      · rename_i next rawPackets hhandle
        rw [hhandle] at hside hunit
        obtain ⟨hside', hunit'⟩ := ih next
        exact ⟨hside'.trans hside, hunit'.trans hunit⟩

/-- Sending the datagrams changes nothing more at the writer. -/
theorem handleOutgoingPackets_fst (cipherSuite : Option Suite) (writer : Writer)
    (pkts : List Packet) : (writer.handleOutgoingPackets encrypt cipherSuite pkts).1 =
      (writer.handlePackets encrypt cipherSuite pkts).1 :=
  rfl

/-- The datagrams of a run are those of its records. -/
theorem run_snd (writer : Writer) (writes : List (Option Suite × List Packet)) :
    (writer.run encrypt writes).2 =
      (writer.records encrypt writes).map (datagrams writer.maximumTransmissionUnit <$> ·) := by
  induction writes generalizing writer with
  | nil => rfl
  | cons write writes ih =>
      obtain ⟨cipherSuite, pkts⟩ := write
      obtain ⟨-, hunit⟩ := handlePackets_setup encrypt cipherSuite writer pkts
      have hrest := ih (writer.handlePackets encrypt cipherSuite pkts).1
      rw [hunit] at hrest
      rw [Writer.run, Writer.records, List.map_cons, ← hrest]
      rfl

end Setup

theorem sent_cons_ok (parts : List Bytes) (results : List (Except (Fault Error) (List Bytes))) :
    sent (.ok parts :: results) = parts ++ sent results :=
  rfl

theorem sent_cons_error (fault : Fault Error)
    (results : List (Except (Fault Error) (List Bytes))) :
    sent (.error fault :: results) = sent results :=
  rfl

/-! ## The numbers of the records -/

/-- The epoch and the number in the header of a record. -/
def recordNumber (rawPacket : Bytes) : Option (UInt16 × ℕ) :=
  match RecordLayerHeader.unmarshal.run rawPacket with
  | .ok (header, _) => some (header.epoch, header.sequenceNumber)
  | .error _ => none

/-- The numbers of the records of an epoch, in the order of the records. -/
def numbers (rawPackets : List Bytes) (epoch : UInt16) : List ℕ :=
  rawPackets.filterMap fun rawPacket =>
    (recordNumber rawPacket).bind fun number => if number.1 = epoch then some number.2 else none

@[simp] theorem numbers_nil (epoch : UInt16) : numbers [] epoch = [] :=
  rfl

theorem numbers_append (first second : List Bytes) (epoch : UInt16) :
    numbers (first ++ second) epoch = numbers first epoch ++ numbers second epoch := by
  simp [numbers]

theorem numbers_singleton {rawPacket : Bytes} {epoch : UInt16} {number : ℕ}
    (hnumber : recordNumber rawPacket = some (epoch, number)) (other : UInt16) :
    numbers [rawPacket] other = if epoch = other then [number] else [] := by
  simp only [numbers, List.filterMap_cons, List.filterMap_nil, hnumber, Option.bind_some]
  split <;> rename_i hsome <;> split at hsome <;> simp_all

theorem counter_grow (lsn : List UInt64) (index : ℕ) (epoch : UInt16) :
    counter (Tables.grow 0 lsn index) epoch = counter lsn epoch :=
  Tables.get_grow 0 lsn index epoch.toNat

theorem counter_advance (lsn : List UInt64) (epoch other : UInt16) :
    counter (advance lsn epoch) other =
      if other = epoch then counter lsn epoch + 1 else counter lsn other := by
  simp only [counter, advance, Tables.get_put, UInt16.toNat_inj]

/-- A counter that is not at its end goes up. -/
theorem toNat_add_one {number : UInt64} (hlt : number.toNat + 1 < 2 ^ 64) :
    (number + 1).toNat = number.toNat + 1 := by
  have hone : (1 : UInt64).toNat = 1 := rfl
  rw [UInt64.toNat_add, hone, Nat.mod_eq_of_lt hlt]

/-- The counters went from `lsn` to `next`, and the records have the numbers in between. -/
structure Issues (lsn next : List UInt64) (rawPackets : List Bytes) : Prop where
  numbers : ∀ epoch, ∃ count,
    (counter next epoch).toNat = (counter lsn epoch).toNat + count ∧
    numbers rawPackets epoch = List.range' (counter lsn epoch).toNat count
  readable : ∀ rawPacket ∈ rawPackets, (recordNumber rawPacket).isSome

/-- The counters only went up, by no more than `tries`, if they did not have to wrap. -/
def Advances (tries : ℕ) (lsn next : List UInt64) : Prop :=
  ∀ epoch, (counter lsn epoch).toNat + tries < 2 ^ 64 →
    (counter lsn epoch).toNat ≤ (counter next epoch).toNat ∧
      (counter next epoch).toNat ≤ (counter lsn epoch).toNat + tries

theorem advances_refl (tries : ℕ) (lsn : List UInt64) : Advances tries lsn lsn :=
  fun _ _ => ⟨Nat.le_refl _, Nat.le_add_right _ _⟩

theorem Advances.trans {tries more : ℕ} {lsn middle next : List UInt64}
    (hfirst : Advances tries lsn middle) (hsecond : Advances more middle next) :
    Advances (tries + more) lsn next := by
  intro epoch hfew
  obtain ⟨hlow, hhigh⟩ := hfirst epoch (by omega)
  obtain ⟨hlow', hhigh'⟩ := hsecond epoch (by omega)
  exact ⟨by omega, by omega⟩

theorem advances_advance (lsn : List UInt64) (epoch : UInt16) :
    Advances 1 lsn (advance lsn epoch) := by
  intro other hfew
  rw [counter_advance]
  split
  · rename_i hsame
    subst hsame
    rw [toNat_add_one hfew]
    exact ⟨Nat.le_succ _, Nat.le_refl _⟩
  · exact ⟨Nat.le_refl _, Nat.le_add_right _ _⟩

theorem issues_nil (lsn : List UInt64) : Issues lsn lsn [] :=
  ⟨fun _ => ⟨0, rfl, rfl⟩, by simp⟩

theorem Issues.append {lsn middle next : List UInt64} {first second : List Bytes}
    (hfirst : Issues lsn middle first) (hsecond : Issues middle next second) :
    Issues lsn next (first ++ second) where
  numbers epoch := by
    obtain ⟨count, hcount, hnumbers⟩ := hfirst.numbers epoch
    obtain ⟨more, hmore, hnumbers'⟩ := hsecond.numbers epoch
    refine ⟨count + more, by omega, ?_⟩
    rw [numbers_append, hnumbers, hnumbers', hcount, List.range'_append_1]
  readable := List.forall_mem_append.mpr ⟨hfirst.readable, hsecond.readable⟩

/-- A record takes the number of the counter of its epoch. -/
theorem issues_advance {lsn : List UInt64} {epoch : UInt16} {rawPacket : Bytes}
    (hnumber : recordNumber rawPacket = some (epoch, (counter lsn epoch).toNat))
    (hle : (counter lsn epoch).toNat ≤ maxSequenceNumber) :
    Issues lsn (advance lsn epoch) [rawPacket] where
  numbers other := by
    have hfew : (counter lsn epoch).toNat + 1 < 2 ^ 64 := by
      rw [maxSequenceNumber] at hle
      omega
    rw [numbers_singleton hnumber, counter_advance]
    by_cases hsame : epoch = other
    · subst hsame
      rw [if_pos rfl, if_pos rfl]
      exact ⟨1, toNat_add_one hfew, rfl⟩
    · rw [if_neg hsame, if_neg (Ne.symm hsame)]
      exact ⟨0, rfl, rfl⟩
  readable := by
    rw [List.forall_mem_singleton, hnumber]
    rfl

/-- What is encrypted keeps its header up to the length. -/
def KeepsHeader {Suite : Type} (encrypt : Suite → RecordLayerHeader → Bytes → Except Error Bytes) :
    Prop :=
  ∀ cipherSuite header rawPacket sealed, encrypt cipherSuite header rawPacket = .ok sealed →
    recordLayerHeaderSize ≤ rawPacket.length →
      recordLayerHeaderSize ≤ sealed.length ∧ sealed.take 11 = rawPacket.take 11

/-- How many numbers a packet takes at most. -/
def Packet.tries (mtu : ℕ) (p : Packet) : ℕ :=
  match p.record.content with
  | .handshake h =>
      match fragmentHandshake mtu h with
      | .ok fragments => fragments.length
      | .error _ => 0
  | _ => 1

/-- How many numbers all packets take at most. -/
def tries {Suite : Type} (mtu : ℕ) (writes : List (Option Suite × List Packet)) : ℕ :=
  (writes.map fun write => (write.2.map (Packet.tries mtu)).sum).sum

section Numbers

variable {Suite : Type} {encrypt : Suite → RecordLayerHeader → Bytes → Except Error Bytes}

/-- A part of a write: the counters only went up, and if it goes through, its records have
the next numbers. -/
structure Numbered (tries : ℕ) (lsn : List UInt64)
    (result : List UInt64 × Except (Fault Error) (List Bytes)) : Prop where
  advances : Advances tries lsn result.1
  issues : ∀ {rawPackets}, result.2 = .ok rawPackets → Issues lsn result.1 rawPackets

theorem numbered_error {tries : ℕ} {lsn next : List UInt64} (hadvances : Advances tries lsn next)
    (fault : Fault Error) : Numbered tries lsn (next, .error fault) :=
  ⟨hadvances, fun hok => by cases hok⟩

/-- The version of a packet is one that can be read back. -/
def Packet.Versioned (p : Packet) : Prop :=
  p.record.recordLayerHeader.protocolVersion = protocolVersion10 ∨
    p.record.recordLayerHeader.protocolVersion = protocolVersion12

/-- The header of the packet's record can be read back. -/
structure Packet.Legible (encrypt : Suite → RecordLayerHeader → Bytes → Except Error Bytes)
    (p : Packet) : Prop where
  version : p.Versioned
  keeps : p.shouldEncrypt = true → KeepsHeader encrypt

/-- The number of a record can be read back, encrypted or not. -/
theorem recordNumber_of_sealRecord {cipherSuite : Option Suite} {shouldEncrypt : Bool}
    (hkeeps : shouldEncrypt = true → KeepsHeader encrypt) {header : RecordLayerHeader}
    (hvalid : header.Valid) {body rawPacket : Bytes}
    (hseal : sealRecord encrypt cipherSuite shouldEncrypt header (header.octets ++ body) =
      .ok rawPacket) :
    recordNumber rawPacket = some (header.epoch, header.sequenceNumber) := by
  have hlength : recordLayerHeaderSize ≤ (header.octets ++ body).length := by
    rw [List.length_append, RecordLayerHeader.length_octets]
    exact Nat.le_add_right _ _
  have hfront : (header.octets ++ body).take 11 = header.octets.take 11 := by
    rw [List.take_append_of_le_length (by simp [recordLayerHeaderSize])]
  have hread : recordLayerHeaderSize ≤ rawPacket.length ∧
      rawPacket.take 11 = header.octets.take 11 := by
    rw [← hfront]
    unfold sealRecord at hseal
    split at hseal
    · rename_i hencrypt
      split at hseal
      · cases hseal
        exact ⟨hlength, rfl⟩
      · split at hseal
        · rename_i hsealed
          cases hseal
          exact hkeeps hencrypt _ _ _ _ hsealed hlength
        · cases hseal
    · cases hseal
      exact ⟨hlength, rfl⟩
  obtain ⟨contentLen, rest, hrun⟩ := RecordLayerHeader.run_unmarshal_of_take hvalid hread.1 hread.2
  rw [recordNumber, hrun]

theorem numbered_processPacket (cipherSuite : Option Suite)
    (lsn : List UInt64) {p : Packet} (hlegible : p.Legible encrypt) :
    Numbered 1 lsn ((processPacket encrypt cipherSuite lsn p).1,
      (fun rawPacket => [rawPacket]) <$> (processPacket encrypt cipherSuite lsn p).2) := by
  unfold processPacket
  dsimp only
  split
  · exact numbered_error (advances_advance _ _) _
  · rename_i hle
    refine ⟨advances_advance _ _, fun hok => ?_⟩
    obtain ⟨rawPacket, hmade, rfl⟩ := map_eq_ok.mp hok
    obtain ⟨raw, hmarshal, hseal⟩ := bind_eq_ok.mp hmade
    obtain ⟨header, hheader, hrest⟩ := bind_eq_ok.mp hmarshal
    obtain ⟨body, -, hraw⟩ := bind_eq_ok.mp hrest
    rw [RecordLayerHeader.marshal_of_le (Nat.le_of_not_lt hle)] at hheader
    cases hheader
    cases hraw
    have hvalid : RecordLayerHeader.Valid { p.record.recordLayerHeader with
        sequenceNumber := (counter lsn p.record.recordLayerHeader.epoch).toNat } :=
      ⟨hlegible.version, Nat.le_of_not_lt hle⟩
    exact issues_advance (recordNumber_of_sealRecord hlegible.keeps hvalid hseal) (Nat.le_of_not_lt hle)

theorem numbered_processFragments (cipherSuite : Option Suite)
    (lsn : List UInt64) {p : Packet} (hlegible : p.Legible encrypt) (fragments : List Bytes) :
    Numbered fragments.length lsn (processFragments encrypt cipherSuite lsn p fragments) := by
  induction fragments generalizing lsn with
  | nil =>
      refine ⟨advances_refl 0 lsn, fun hok => ?_⟩
      cases hok
      exact issues_nil lsn
  | cons fragment fragments ih =>
      have hrest := ih (advance lsn p.record.recordLayerHeader.epoch)
      have hadvance := (advances_advance lsn p.record.recordLayerHeader.epoch).trans
        (advances_refl fragments.length _)
      rw [List.length_cons, Nat.add_comm, processFragments]
      dsimp only
      split
      · exact numbered_error hadvance _
      · rename_i hle
        split
        · exact numbered_error hadvance _
        · rename_i rawPacket hmade
          obtain ⟨headerBytes, hmarshal, hseal⟩ := bind_eq_ok.mp hmade
          rw [RecordLayerHeader.marshal_of_le (Nat.le_of_not_lt hle)] at hmarshal
          cases hmarshal
          have hvalid : RecordLayerHeader.Valid
              { protocolVersion := p.record.recordLayerHeader.protocolVersion
                contentType := p.record.recordLayerHeader.contentType
                contentLen := UInt16.ofNat fragment.length
                epoch := p.record.recordLayerHeader.epoch
                sequenceNumber := (counter lsn p.record.recordLayerHeader.epoch).toNat } :=
            ⟨hlegible.version, Nat.le_of_not_lt hle⟩
          have hissues := issues_advance (recordNumber_of_sealRecord hlegible.keeps hvalid hseal)
            (Nat.le_of_not_lt hle)
          refine ⟨(advances_advance _ _).trans hrest.advances, fun hok => ?_⟩
          obtain ⟨more, hmore, rfl⟩ := map_eq_ok.mp hok
          exact hissues.append (hrest.issues hmore)

theorem numbered_processHandshakePacket (cipherSuite : Option Suite)
    (lsn : List UInt64) (mtu : ℕ) {p : Packet} (hlegible : p.Legible encrypt) {h : Handshake}
    (hcontent : p.record.content = .handshake h) :
    Numbered (p.tries mtu) lsn (processHandshakePacket encrypt cipherSuite lsn mtu p h) := by
  unfold processHandshakePacket Packet.tries
  rw [hcontent]
  dsimp only
  cases fragmentHandshake mtu h with
  | error fault => exact numbered_error (advances_refl _ _) _
  | ok fragments =>
      -- the counters are the same after the list has grown
      obtain ⟨hadvances, hissues⟩ := numbered_processFragments cipherSuite
        (Tables.grow 0 lsn p.record.recordLayerHeader.epoch.toNat) hlegible fragments
      refine ⟨fun epoch => ?_, fun hok => ⟨fun epoch => ?_, (hissues hok).readable⟩⟩
      · simpa only [counter_grow] using hadvances epoch
      · simpa only [counter_grow] using (hissues hok).numbers epoch

theorem numbered_handlePacket (cipherSuite : Option Suite)
    (writer : Writer) {p : Packet} (hlegible : p.Legible encrypt) :
    Numbered (p.tries writer.maximumTransmissionUnit) writer.localSequenceNumber
      ((writer.handlePacket encrypt cipherSuite p).1.localSequenceNumber,
        (writer.handlePacket encrypt cipherSuite p).2) := by
  cases hcontent : p.record.content with
  | handshake h =>
      simp only [Writer.handlePacket, hcontent]
      split
      · exact numbered_error (advances_refl _ _) _
      · exact numbered_processHandshakePacket _ _ _ hlegible hcontent
  | _ =>
      simp only [Writer.handlePacket, Packet.tries, hcontent]
      exact numbered_processPacket _ _ hlegible

theorem numbered_handlePackets (cipherSuite : Option Suite)
    (writer : Writer) {pkts : List Packet} (hlegible : ∀ p ∈ pkts, p.Legible encrypt) :
    Numbered (pkts.map (Packet.tries writer.maximumTransmissionUnit)).sum
      writer.localSequenceNumber
      ((writer.handlePackets encrypt cipherSuite pkts).1.localSequenceNumber,
        (writer.handlePackets encrypt cipherSuite pkts).2) := by
  induction pkts generalizing writer with
  | nil =>
      refine ⟨advances_refl _ _, fun hok => ?_⟩
      cases hok
      exact issues_nil _
  | cons p pkts ih =>
      rw [List.forall_mem_cons] at hlegible
      have hfirst := numbered_handlePacket cipherSuite writer hlegible.1
      obtain ⟨-, hunit⟩ := handlePacket_setup encrypt cipherSuite writer p
      rw [List.map_cons, List.sum_cons, Writer.handlePackets]
      split
      · rename_i next fault hhandle
        rw [hhandle] at hfirst
        exact numbered_error (hfirst.advances.trans (advances_refl _ _)) _
      · rename_i next rawPackets hhandle
        rw [hhandle] at hfirst hunit
        have hrest := ih next hlegible.2
        rw [hunit] at hrest
        refine ⟨hfirst.advances.trans hrest.advances, fun hok => ?_⟩
        obtain ⟨more, hmore, rfl⟩ := map_eq_ok.mp hok
        exact (hfirst.issues rfl).append (hrest.issues hmore)

/-- The numbers of an epoch that are sent are among those the counter has passed, in order;
if every write goes through, they are all of them. -/
theorem numbers_run (writer : Writer)
    {writes : List (Option Suite × List Packet)}
    (hlegible : ∀ write ∈ writes, ∀ p ∈ write.2, p.Legible encrypt)
    (hfew : ∀ epoch, (counter writer.localSequenceNumber epoch).toNat +
      tries writer.maximumTransmissionUnit writes < 2 ^ 64) :
    (∀ rawPacket ∈ sent (writer.records encrypt writes), (recordNumber rawPacket).isSome) ∧
      ∀ epoch, ∃ count,
        (numbers (sent (writer.records encrypt writes)) epoch).Sublist
          (List.range' (counter writer.localSequenceNumber epoch).toNat count) ∧
        ((∀ result ∈ writer.records encrypt writes, result.isOk) →
          numbers (sent (writer.records encrypt writes)) epoch =
            List.range' (counter writer.localSequenceNumber epoch).toNat count) := by
  induction writes generalizing writer with
  | nil =>
      exact ⟨by simp [Writer.records, sent], fun epoch => ⟨0, by simp [Writer.records, sent],
        fun _ => by simp [Writer.records, sent]⟩⟩
  | cons write writes ih =>
      obtain ⟨cipherSuite, pkts⟩ := write
      rw [List.forall_mem_cons] at hlegible
      have hpkts : ∀ p ∈ pkts, p.Legible encrypt := hlegible.1
      have hfirst := numbered_handlePackets cipherSuite writer hpkts
      obtain ⟨-, hunit⟩ := handlePackets_setup encrypt cipherSuite writer pkts
      rw [Writer.records]
      cases hhandle : writer.handlePackets encrypt cipherSuite pkts with
      | mk next made =>
          rw [hhandle] at hfirst hunit
          dsimp only at hunit
          have hbound : ∀ epoch, (counter writer.localSequenceNumber epoch).toNat ≤
              (counter next.localSequenceNumber epoch).toNat ∧
              (counter next.localSequenceNumber epoch).toNat +
                tries next.maximumTransmissionUnit writes < 2 ^ 64 := by
            intro epoch
            have hless := hfew epoch
            simp only [tries, List.map_cons, List.sum_cons] at hless
            have hrange := hfirst.advances epoch (by omega)
            simp only [tries, hunit] at hrange ⊢
            omega
          obtain ⟨hreadable, hrest⟩ := ih next hlegible.2 fun epoch => (hbound epoch).2
          dsimp only
          cases made with
          | error fault =>
              rw [sent_cons_error]
              refine ⟨hreadable, fun epoch => ?_⟩
              -- the numbers of a write that fails are passed over
              obtain ⟨count, hsublist, -⟩ := hrest epoch
              obtain ⟨gap, hgap⟩ := Nat.exists_eq_add_of_le (hbound epoch).1
              refine ⟨gap + count, ?_, ?_⟩
              · rw [hgap] at hsublist
                rw [← List.range'_append_1]
                exact hsublist.trans (List.sublist_append_right _ _)
              · intro hok
                have := hok _ List.mem_cons_self
                cases this
          | ok rawPackets =>
              have hissues := hfirst.issues rfl
              rw [sent_cons_ok]
              refine ⟨List.forall_mem_append.mpr ⟨hissues.readable, hreadable⟩, fun epoch => ?_⟩
              obtain ⟨first, hcount, hnumbers⟩ := hissues.numbers epoch
              obtain ⟨count, hsublist, hall⟩ := hrest epoch
              rw [hcount] at hsublist hall
              refine ⟨first + count, ?_, ?_⟩
              · rw [numbers_append, hnumbers, ← List.range'_append_1]
                exact (List.Sublist.refl _).append hsublist
              · intro hok
                rw [numbers_append, hnumbers, ← List.range'_append_1,
                  hall fun result hresult => hok result (List.mem_cons_of_mem _ hresult)]

/-- The numbers of an epoch go up. -/
theorem pairwise_numbers (writer : Writer)
    {writes : List (Option Suite × List Packet)}
    (hlegible : ∀ write ∈ writes, ∀ p ∈ write.2, p.Legible encrypt)
    (hfew : ∀ epoch, (counter writer.localSequenceNumber epoch).toNat +
      tries writer.maximumTransmissionUnit writes < 2 ^ 64) (epoch : UInt16) :
    (numbers (sent (writer.records encrypt writes)) epoch).Pairwise (· < ·) := by
  obtain ⟨count, hsublist, -⟩ := (numbers_run writer hlegible hfew).2 epoch
  exact List.Pairwise.sublist hsublist List.pairwise_lt_range'

/-- The datagrams that are sent are the records that are sent, in groups. -/
theorem exists_groups_sent (mtu : ℕ) {results : List (Except (Fault Error) (List Bytes))}
    (hreadable : ∀ rawPacket ∈ sent results, (recordNumber rawPacket).isSome) :
    ∃ groups : List (List Bytes),
      sent (results.map (datagrams mtu <$> ·)) = groups.map List.flatten ∧
        groups.flatten = sent results := by
  induction results with
  | nil => exact ⟨[], rfl, rfl⟩
  | cons result results ih =>
      cases result with
      | error fault => exact ih hreadable
      | ok rawPackets =>
          rw [sent_cons_ok, List.forall_mem_append] at hreadable
          obtain ⟨groups, hgroups, hflatten⟩ := ih hreadable.2
          rw [List.map_cons, sent_cons_ok]
          show ∃ all, datagrams mtu rawPackets ++ sent (results.map (datagrams mtu <$> ·)) = _ ∧ _
          by_cases hnone : rawPackets = []
          · refine ⟨groups, ?_, ?_⟩
            · rw [datagrams, if_pos hnone, List.nil_append, hgroups]
            · rw [hnone, List.nil_append, hflatten]
          · have hsome : ∀ rawPacket ∈ rawPackets, rawPacket ≠ [] := by
              rintro rawPacket hmem rfl
              have hread := hreadable.1 [] hmem
              cases hread
            obtain ⟨first, hfirst, hall, -⟩ := exists_groups_compactRawPackets mtu hnone hsome
            refine ⟨first ++ groups, ?_, ?_⟩
            · rw [datagrams, if_neg hnone, hfirst, hgroups, List.map_append]
            · rw [List.flatten_append, hall, hflatten]

/-- **Record numbers.**  The packets are of known versions, the encryption keeps what comes
before the length of a record, and no counter gets to wrap.  Then over all writes of a
connection, failed ones among them, every record that is sent can be read by its header, and
the numbers read from those of an epoch go up, so no two of them are equal; when no write
fails none is left out.  The datagrams are these records in groups. -/
theorem numbers_increase (hkeeps : KeepsHeader encrypt) (writer : Writer)
    {writes : List (Option Suite × List Packet)}
    (hversion : ∀ write ∈ writes, ∀ p ∈ write.2, p.Versioned)
    (hfew : ∀ epoch, (counter writer.localSequenceNumber epoch).toNat +
      tries writer.maximumTransmissionUnit writes < 2 ^ 64) :
    (∀ rawPacket ∈ sent (writer.records encrypt writes), (recordNumber rawPacket).isSome) ∧
      (∀ epoch, (numbers (sent (writer.records encrypt writes)) epoch).Pairwise (· < ·) ∧
        ((∀ result ∈ writer.records encrypt writes, result.isOk) →
          numbers (sent (writer.records encrypt writes)) epoch =
            List.range' (counter writer.localSequenceNumber epoch).toNat
              (numbers (sent (writer.records encrypt writes)) epoch).length)) ∧
      ∃ groups : List (List Bytes),
        sent (writer.run encrypt writes).2 = groups.map List.flatten ∧
          groups.flatten = sent (writer.records encrypt writes) := by
  have hlegible : ∀ write ∈ writes, ∀ p ∈ write.2, p.Legible encrypt :=
    fun write hwrite p hp => ⟨hversion write hwrite p hp, fun _ => hkeeps⟩
  obtain ⟨hreadable, hnumbers⟩ := numbers_run writer hlegible hfew
  refine ⟨hreadable, fun epoch => ⟨pairwise_numbers writer hlegible hfew epoch, ?_⟩, ?_⟩
  · intro hok
    obtain ⟨count, -, hall⟩ := hnumbers epoch
    have hlength := congrArg List.length (hall hok)
    rw [List.length_range'] at hlength
    rw [hlength, hall hok]
  · rw [run_snd]
    exact exists_groups_sent writer.maximumTransmissionUnit hreadable

end Numbers

/-- An encryption that fails or appends an octet. -/
def sampleSeal (fails : Bool) (_ : RecordLayerHeader) (rawPacket : Bytes) : Except Error Bytes :=
  if fails then .error .errInvalidCipherSuite else .ok (rawPacket ++ [0])

theorem keepsHeader_sampleSeal : KeepsHeader sampleSeal := by
  intro fails header rawPacket sealed hsealed hlength
  cases fails with
  | true => cases hsealed
  | false =>
      cases hsealed
      rw [recordLayerHeaderSize] at hlength ⊢
      exact ⟨by rw [List.length_append]; omega, List.take_append_of_le_length (by omega)⟩

/-- Application data in three writes, of which the second fails. -/
def sampleDataWrites : List (Option Bool × List Packet) :=
  let data : Packet := ⟨.new protocolVersion12 1 (.applicationData [1, 2]), true⟩
  [(some false, [data]), (some true, [data]), (some false, [data, data])]

theorem numbers_increase_failed :
    numbers (sent ((Writer.mk true 1200 [] []).records sampleSeal sampleDataWrites)) 1 = [0, 2, 3] ∧
      (numbers (sent ((Writer.mk true 1200 [] []).records sampleSeal sampleDataWrites)) 1).Pairwise
        (· < ·) ∧
      ∃ groups : List (List Bytes),
        sent ((Writer.mk true 1200 [] []).run sampleSeal sampleDataWrites).2 =
          groups.map List.flatten ∧
        groups.flatten = sent ((Writer.mk true 1200 [] []).records sampleSeal sampleDataWrites) := by
  have hversion : ∀ write ∈ sampleDataWrites, ∀ p ∈ write.2, p.Versioned := by
    simp [sampleDataWrites, Packet.Versioned, RecordLayer.new]
  have hfew : ∀ epoch, (counter (Writer.mk true 1200 [] []).localSequenceNumber epoch).toNat +
      tries (Writer.mk true 1200 [] []).maximumTransmissionUnit sampleDataWrites < 2 ^ 64 := by
    intro epoch
    have hnone : counter (Writer.mk true 1200 [] []).localSequenceNumber epoch = 0 := by
      simp [counter, Tables.get]
    rw [hnone]
    decide
  obtain ⟨-, hnumbers, hgroups⟩ := numbers_increase keepsHeader_sampleSeal
    (Writer.mk true 1200 [] []) hversion hfew
  exact ⟨by decide +kernel, (hnumbers 1).1, hgroups⟩

/-! ## The cache of the writer

The writer only pushes to its cache, so that any change of the cache that agrees with these
pushes can be made before a write or after it. -/

/-- The writer with another cache. -/
def Writer.withCache (writer : Writer) (change : HandshakeCache → HandshakeCache) : Writer :=
  { writer with cache := change writer.cache }

section Cache

variable {Suite : Type} (encrypt : Suite → RecordLayerHeader → Bytes → Except Error Bytes)

variable {change : HandshakeCache → HandshakeCache} {isClient : Bool}
  (hpush : ∀ (cache : HandshakeCache) (item : HandshakeCacheItem), item.isClient = isClient →
    ((change cache).push item).1 = change (cache.push item).1)

include hpush

theorem handlePacket_withCache (cipherSuite : Option Suite) {writer : Writer}
    (hside : writer.isClient = isClient) (p : Packet) :
    (writer.withCache change).handlePacket encrypt cipherSuite p =
      ((writer.handlePacket encrypt cipherSuite p).1.withCache change,
        (writer.handlePacket encrypt cipherSuite p).2) := by
  unfold Writer.handlePacket
  split
  · split
    · rfl
    · simp only [Writer.withCache]
      rw [hpush _ _ hside]
  · rfl

theorem handlePackets_withCache (cipherSuite : Option Suite) {writer : Writer}
    (hside : writer.isClient = isClient) (pkts : List Packet) :
    (writer.withCache change).handlePackets encrypt cipherSuite pkts =
      ((writer.handlePackets encrypt cipherSuite pkts).1.withCache change,
        (writer.handlePackets encrypt cipherSuite pkts).2) := by
  induction pkts generalizing writer with
  | nil => rfl
  | cons p pkts ih =>
      obtain ⟨hsame, -⟩ := handlePacket_setup encrypt cipherSuite writer p
      rw [Writer.handlePackets, Writer.handlePackets,
        handlePacket_withCache encrypt hpush cipherSuite hside]
      cases hhandle : writer.handlePacket encrypt cipherSuite p with
      | mk next made =>
          rw [hhandle] at hsame
          cases made with
          | error fault => rfl
          | ok rawPackets =>
              dsimp only
              rw [ih (hsame.trans hside)]

theorem handleOutgoingPackets_withCache (cipherSuite : Option Suite) {writer : Writer}
    (hside : writer.isClient = isClient) (pkts : List Packet) :
    (writer.withCache change).handleOutgoingPackets encrypt cipherSuite pkts =
      ((writer.handleOutgoingPackets encrypt cipherSuite pkts).1.withCache change,
        (writer.handleOutgoingPackets encrypt cipherSuite pkts).2) := by
  unfold Writer.handleOutgoingPackets
  rw [handlePackets_withCache encrypt hpush cipherSuite hside]
  rfl

end Cache

end AutonomiWebrtc.Dtls
