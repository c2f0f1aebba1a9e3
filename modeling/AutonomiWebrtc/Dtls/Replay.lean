import AutonomiWebrtc.Dtls.Incoming

/-!
# What reaches the application

Application data is delivered only from a record that was received, is of an epoch after the
first and was decrypted by the cipher suite that the handshake had set by then, and no record
number is delivered twice, whatever arrives and whenever the handshake interferes.

Of the replay detectors this needs that a number that was accepted is refused from then on.
-/

namespace AutonomiWebrtc.Dtls

open Readers ConnReaderContext

/-- What a replay detector promises, in terms of the numbers it has accepted. -/
structure RefusesReplays {Detector : Type} (detectors : ReplayDetectors Detector)
    (Accepted : Detector → ℕ → Prop) : Prop where
  check_eq_false : ∀ {detector n}, Accepted detector n → (detectors.check detector n).2 = false
  check : ∀ {detector n} m, Accepted detector n → Accepted (detectors.check detector m).1 n
  accept : ∀ {detector n}, Accepted detector n → Accepted (detectors.accept detector) n
  accept_check : ∀ {detector n}, (detectors.check detector n).2 = true →
    Accepted (detectors.accept (detectors.check detector n).1) n

/-- The data is what this cipher suite, which has keys, made of the record. -/
structure Delivery.Genuine {Suite : Type} (suites : CipherSuites Suite) (cipherSuite : Suite)
    (d : Delivery) : Prop where
  header : ∃ rest, RecordLayerHeader.unmarshal.run d.record = .ok (d.header, rest)
  epoch : d.header.epoch ≠ 0
  initialized : suites.isInitialized cipherSuite = true
  decrypted : ∃ plain r rest, suites.decrypt cipherSuite d.record = .ok plain ∧
    RecordLayer.unmarshal.run plain = .ok (r, rest) ∧ r.content = .applicationData d.data

/-- The cipher suite after some events: the one that was set last. -/
def installed {Suite : Type} (start : Option Suite) (events : List (ReaderEvent Suite)) :
    Option Suite :=
  events.foldl (fun cipherSuite event =>
    match event with
    | .setCipherSuite other => other
    | _ => cipherSuite) start

/-- The epoch and the number of the record that brought the data. -/
def Delivery.number (d : Delivery) : UInt16 × ℕ := (d.header.epoch, d.header.sequenceNumber)

section Guarded

variable {Suite Detector : Type} {suites : CipherSuites Suite}
  {detectors : ReplayDetectors Detector} {Accepted : Detector → ℕ → Prop}
  {Opened : Delivery → Prop}

/-- The invariant of the reader's context: what is delivered is `Opened`, as is all that the
cipher suite makes of a record, it is received and accepted by its detector, and delivered
once; what is queued was received. -/
structure Guarded (suites : CipherSuites Suite) (detectors : ReplayDetectors Detector)
    (Accepted : Detector → ℕ → Prop) (Opened : Delivery → Prop) (received : List Bytes)
    (ctx : ConnReaderContext Suite Detector) : Prop where
  opened : ∀ d ∈ ctx.decrypted, Opened d
  opens : ∀ cipherSuite d, ctx.cipherSuite = some cipherSuite → d.Genuine suites cipherSuite →
    Opened d
  record : ∀ d ∈ ctx.decrypted, d.record ∈ received
  accepted : ∀ d ∈ ctx.decrypted,
    Accepted (ctx.detector detectors d.header.epoch) d.header.sequenceNumber
  nodup : (ctx.decrypted.map Delivery.number).Nodup
  queued : ∀ pkt ∈ ctx.encryptedPackets, pkt ∈ received

variable {received : List Bytes} {ctx : ConnReaderContext Suite Detector}

/-- Only the detector of the epoch changes. -/
theorem detector_setDetector (detectors : ReplayDetectors Detector)
    (ctx : ConnReaderContext Suite Detector) (epoch other : UInt16) (detector : Detector) :
    (ctx.setDetector detectors epoch detector).detector detectors other =
      if other = epoch then detector else ctx.detector detectors other := by
  simp only [ConnReaderContext.detector, setDetector, Tables.get_put, UInt16.toNat_inj]

/-- The invariant reads only the detectors, the queue, the cipher suite and the deliveries. -/
theorem Guarded.frame (hguarded : Guarded suites detectors Accepted Opened received ctx)
    {next : ConnReaderContext Suite Detector} (hdetector : next.replayDetector = ctx.replayDetector)
    (hqueue : ∀ pkt ∈ next.encryptedPackets, pkt ∈ received)
    (hsuite : next.cipherSuite = ctx.cipherSuite) (hdecrypted : next.decrypted = ctx.decrypted) :
    Guarded suites detectors Accepted Opened received next where
  opened := hdecrypted ▸ hguarded.opened
  opens := hsuite ▸ hguarded.opens
  record := hdecrypted ▸ hguarded.record
  accepted d hd := by
    rw [ConnReaderContext.detector, hdetector]
    exact hguarded.accepted d (hdecrypted ▸ hd)
  nodup := hdecrypted ▸ hguarded.nodup
  queued := hqueue

/-- A detector may be replaced by one that has accepted no less. -/
theorem Guarded.setDetector (hguarded : Guarded suites detectors Accepted Opened received ctx)
    {epoch : UInt16} {detector : Detector}
    (hmono : ∀ n, Accepted (ctx.detector detectors epoch) n → Accepted detector n) :
    Guarded suites detectors Accepted Opened received (ctx.setDetector detectors epoch detector) where
  opened := hguarded.opened
  opens := hguarded.opens
  record := hguarded.record
  accepted d hd := by
    rw [detector_setDetector]
    split
    · rename_i hsame
      exact hmono _ (hsame ▸ hguarded.accepted d hd)
    · exact hguarded.accepted d hd
  nodup := hguarded.nodup
  queued := hguarded.queued

theorem Guarded.accept (hlaw : RefusesReplays detectors Accepted)
    (hguarded : Guarded suites detectors Accepted Opened received ctx) (epoch : UInt16) :
    Guarded suites detectors Accepted Opened received (ctx.accept detectors epoch) :=
  hguarded.setDetector fun _ => hlaw.accept

theorem Guarded.enqueue (hguarded : Guarded suites detectors Accepted Opened received ctx) {pkt : Bytes}
    (hpkt : pkt ∈ received) (again : Bool) :
    Guarded suites detectors Accepted Opened received (ctx.enqueue again pkt) := by
  unfold ConnReaderContext.enqueue
  split
  · refine hguarded.frame rfl ?_ rfl rfl
    intro queued hqueued
    rcases List.mem_append.mp hqueued with hold | hnew
    · exact hguarded.queued queued hold
    · rw [List.mem_singleton.mp hnew]
      exact hpkt
  · exact hguarded

/-- The record number is new and would be accepted. -/
structure Fresh (detectors : ReplayDetectors Detector) (Accepted : Detector → ℕ → Prop)
    (ctx : ConnReaderContext Suite Detector) (h : RecordLayerHeader) : Prop where
  new : (h.epoch, h.sequenceNumber) ∉ ctx.decrypted.map Delivery.number
  accept : Accepted (detectors.accept (ctx.detector detectors h.epoch)) h.sequenceNumber

/-- A number that passes `check` was not delivered before. -/
theorem Guarded.check (hlaw : RefusesReplays detectors Accepted)
    (hguarded : Guarded suites detectors Accepted Opened received ctx) (h : RecordLayerHeader) :
    Guarded suites detectors Accepted Opened received (ctx.check detectors h).1 ∧
      ((ctx.check detectors h).2 = true → Fresh detectors Accepted (ctx.check detectors h).1 h) := by
  refine ⟨hguarded.setDetector fun _ => hlaw.check _, fun hcheck => ⟨?_, ?_⟩⟩
  · intro hmem
    obtain ⟨d, hd, hnumber⟩ := List.mem_map.mp hmem
    simp only [Delivery.number, Prod.mk.injEq] at hnumber
    have hfalse := hlaw.check_eq_false (hguarded.accepted d hd)
    rw [hnumber.1, hnumber.2] at hfalse
    rw [ConnReaderContext.check, hfalse] at hcheck
    cases hcheck
  · simp only [ConnReaderContext.check, detector_setDetector, if_pos]
    exact hlaw.accept_check hcheck

/-- Data of a new record number is delivered. -/
theorem Guarded.deliver (hlaw : RefusesReplays detectors Accepted)
    (hguarded : Guarded suites detectors Accepted Opened received ctx) {h : RecordLayerHeader}
    (hfresh : Fresh detectors Accepted ctx h) {record data : Bytes}
    (hopened : Opened ⟨record, h, data⟩) (hrecord : record ∈ received) :
    Guarded suites detectors Accepted Opened received
      { ctx.accept detectors h.epoch with decrypted := ctx.decrypted ++ [⟨record, h, data⟩] } where
  opened := by
    rw [List.forall_mem_append, List.forall_mem_singleton]
    exact ⟨hguarded.opened, hopened⟩
  opens := hguarded.opens
  record := by
    rw [List.forall_mem_append, List.forall_mem_singleton]
    exact ⟨hguarded.record, hrecord⟩
  accepted := by
    rw [List.forall_mem_append, List.forall_mem_singleton]
    refine ⟨fun d hd => (hguarded.accept hlaw h.epoch).accepted d hd, ?_⟩
    have hsame := detector_setDetector detectors ctx h.epoch h.epoch
      (detectors.accept (ctx.detector detectors h.epoch))
    rw [if_pos rfl] at hsame
    simp only [ConnReaderContext.accept, ConnReaderContext.detector] at hsame ⊢
    rw [hsame]
    exact hfresh.accept
  nodup := by
    rw [List.map_append, List.map_cons, List.map_nil]
    refine List.nodup_append.mpr ⟨hguarded.nodup, by simp, ?_⟩
    rintro first hfirst second hsecond rfl
    rw [List.mem_singleton.mp hsecond] at hfirst
    exact hfresh.new hfirst
  queued := hguarded.queued

/-! ## The steps of the reader -/

theorem Guarded.handleContent (hlaw : RefusesReplays detectors Accepted)
    (hguarded : Guarded suites detectors Accepted Opened received ctx) {h : RecordLayerHeader}
    (hfresh : Fresh detectors Accepted ctx h) {record pkt : Bytes} (again : Bool)
    {content : Content} (hrecord : record ∈ received)
    (hpkt : ctx.invalidCipherSuite suites = true → pkt ∈ received)
    (hopened : h.epoch ≠ 0 → ∀ data, content = .applicationData data →
      Opened ⟨record, h, data⟩) :
    Guarded suites detectors Accepted Opened received
      (ctx.handleContent suites detectors h record pkt again content).1 := by
  cases content with
  | alert a => exact hguarded.accept hlaw h.epoch
  | handshake message => exact hguarded
  | changeCipherSpec =>
      rw [ConnReaderContext.handleContent]
      split
      · rename_i hinvalid
        exact hguarded.enqueue (hpkt hinvalid) again
      · split
        · have hepoch : Guarded suites detectors Accepted Opened received
              { ctx with remoteEpoch := h.epoch + 1 } := hguarded.frame rfl hguarded.queued rfl rfl
          exact hepoch.accept hlaw h.epoch
        · exact hguarded
  | applicationData data =>
      rw [ConnReaderContext.handleContent]
      split
      · exact hguarded
      · rename_i hepoch
        exact hguarded.deliver hlaw hfresh (hopened hepoch data rfl) hrecord

theorem Guarded.handlePlain (hlaw : RefusesReplays detectors Accepted)
    (hguarded : Guarded suites detectors Accepted Opened received ctx) {h : RecordLayerHeader}
    (hfresh : Fresh detectors Accepted ctx h) {record pkt : Bytes} (again : Bool)
    (hrecord : record ∈ received) (hpkt : ctx.invalidCipherSuite suites = true → pkt ∈ received)
    (hopened : h.epoch ≠ 0 → ∀ data r rest, RecordLayer.unmarshal.run pkt = .ok (r, rest) →
      r.content = .applicationData data → Opened ⟨record, h, data⟩) :
    Guarded suites detectors Accepted Opened received
      (ctx.handlePlain suites detectors h record pkt again).1 := by
  have hbuffer : ∀ buffer, Guarded suites detectors Accepted Opened received
      { ctx with fragmentBuffer := buffer } := fun _ => hguarded.frame rfl hguarded.queued rfl rfl
  unfold ConnReaderContext.handlePlain
  split
  · exact hbuffer _
  · exact hbuffer _
  · have haccept := hguarded.accept hlaw h.epoch
    exact haccept.frame rfl haccept.queued rfl rfl
  · rename_i buffer _
    dsimp only
    split
    · exact hbuffer _
    · exact hbuffer _
    · rename_i r rest hread
      exact (hbuffer buffer).handleContent hlaw ⟨hfresh.new, hfresh.accept⟩ again hrecord hpkt
        fun hepoch data hdata => hopened hepoch data r rest hread hdata

theorem Guarded.handleFresh (hlaw : RefusesReplays detectors Accepted)
    (hguarded : Guarded suites detectors Accepted Opened received ctx) {h : RecordLayerHeader}
    (hfresh : Fresh detectors Accepted ctx h) {pkt : Bytes} (again : Bool)
    (hheader : ∃ rest, RecordLayerHeader.unmarshal.run pkt = .ok (h, rest))
    (hpkt : pkt ∈ received) :
    Guarded suites detectors Accepted Opened received
      (ctx.handleFresh suites detectors h pkt again).1 := by
  unfold ConnReaderContext.handleFresh
  split
  · rename_i hepoch
    exact hguarded.handlePlain hlaw hfresh again hpkt (fun _ => hpkt)
      fun hne => absurd hepoch hne
  · rename_i hepoch
    split
    · exact hguarded.enqueue hpkt again
    · rename_i hvalid
      split
      · rename_i hnone
        rw [invalidCipherSuite, hnone] at hvalid
        exact absurd rfl hvalid
      · rename_i cipherSuite hsome
        split
        · rename_i plain hdecrypt
          refine hguarded.handlePlain hlaw hfresh again hpkt (fun hinvalid => absurd hinvalid hvalid) ?_
          intro hne data r rest hread hdata
          have hinitialized : suites.isInitialized cipherSuite = true := by
            rw [invalidCipherSuite, hsome] at hvalid
            simpa using hvalid
          exact hguarded.opens cipherSuite _ hsome
            ⟨hheader, hne, hinitialized, plain, r, rest, hdecrypt, hread, hdata⟩
        · split <;> exact hguarded

/-- **One record.** -/
theorem Guarded.handleIncomingPacket (hlaw : RefusesReplays detectors Accepted)
    (hguarded : Guarded suites detectors Accepted Opened received ctx) {pkt : Bytes}
    (hpkt : pkt ∈ received) (again : Bool) :
    Guarded suites detectors Accepted Opened received
      (ctx.handleIncomingPacket suites detectors pkt again).1 := by
  unfold ConnReaderContext.handleIncomingPacket
  split
  · exact hguarded
  · rename_i h rest hread
    split
    · split
      · exact hguarded
      · exact hguarded.enqueue hpkt again
    · obtain ⟨hchecked, hfresh⟩ := hguarded.check hlaw h
      split
      · rename_i next hcheck
        rw [hcheck] at hchecked
        exact hchecked
      · rename_i next hcheck
        rw [hcheck] at hchecked hfresh
        exact hchecked.handleFresh hlaw (hfresh rfl) again ⟨rest, hread⟩ hpkt

/-- A row of records. -/
theorem Guarded.handlePackets (hlaw : RefusesReplays detectors Accepted)
    (hguarded : Guarded suites detectors Accepted Opened received ctx) {pkts : List Bytes}
    (hpkts : ∀ pkt ∈ pkts, pkt ∈ received) (again hasHandshake : Bool) :
    Guarded suites detectors Accepted Opened received
      (handlePackets suites detectors again ctx hasHandshake pkts).1 := by
  induction pkts generalizing ctx hasHandshake with
  | nil => exact hguarded
  | cons pkt pkts ih =>
      rw [List.forall_mem_cons] at hpkts
      have hnext := hguarded.handleIncomingPacket hlaw hpkts.1 again
      rw [Dtls.handlePackets]
      cases hhandle : ctx.handleIncomingPacket suites detectors pkt again with
      | mk next outcome =>
          rw [hhandle] at hnext
          cases outcome with
          | panicked => exact hnext
          | returned hs alert err =>
              cases alert with
              | none =>
                  cases err with
                  | none => exact ih hnext hpkts.2 _
                  | some err => exact hnext
              | some alert =>
                  have halert : Guarded suites detectors Accepted Opened received
                      { next with alerts := next.alerts ++ [alert] } :=
                    hnext.frame rfl hnext.queued rfl rfl
                  dsimp only
                  split
                  · exact halert
                  · cases err with
                    | none => exact ih halert hpkts.2 _
                    | some err => exact halert

/-- **One event.**  What has been delivered by it is a delivery from before, or what the
cipher suite of the state made of a record. -/
theorem Guarded.readerStep (hlaw : RefusesReplays detectors Accepted)
    {state next : ReaderState Suite Detector} {event : ReaderEvent Suite}
    (hguarded : Guarded suites detectors Accepted (fun _ => True) state.received state.ctx)
    (hstep : readerStep suites detectors state event = some next) :
    Guarded suites detectors Accepted (fun _ => True) next.received next.ctx ∧
      ∀ d ∈ next.ctx.decrypted, d ∈ state.ctx.decrypted ∨
        ∃ cipherSuite, state.ctx.cipherSuite = some cipherSuite ∧
          d.Genuine suites cipherSuite := by
  let Opened := fun d : Delivery => d ∈ state.ctx.decrypted ∨
    ∃ cipherSuite, state.ctx.cipherSuite = some cipherSuite ∧ d.Genuine suites cipherSuite
  have hopened : Guarded suites detectors Accepted Opened state.received state.ctx :=
    { hguarded with
      opened := fun d hd => .inl hd
      opens := fun cipherSuite d hsuite hgenuine => .inr ⟨cipherSuite, hsuite, hgenuine⟩ }
  have hforget : ∀ {received : List Bytes} {ctx : ConnReaderContext Suite Detector},
      Guarded suites detectors Accepted Opened received ctx →
        Guarded suites detectors Accepted (fun _ => True) received ctx ∧
          ∀ d ∈ ctx.decrypted, Opened d :=
    fun hctx => ⟨{ hctx with opened := fun _ _ => trivial, opens := fun _ _ _ _ => trivial },
      hctx.opened⟩
  cases event with
  | datagram buf =>
      rw [Dtls.readerStep] at hstep
      split at hstep
      · split at hstep
        · cases hstep
          exact hforget hopened
        · rename_i pkts _
          cases hstep
          have hmore : Guarded suites detectors Accepted Opened (state.received ++ pkts) state.ctx :=
            { hopened with
              record := fun d hd => List.mem_append_left _ (hopened.record d hd)
              queued := fun pkt hpkt => List.mem_append_left _ (hopened.queued pkt hpkt) }
          exact hforget (hmore.handlePackets hlaw (fun pkt hpkt => List.mem_append_right _ hpkt)
            true false)
      · cases hstep
  | handleQueue =>
      rw [Dtls.readerStep] at hstep
      split at hstep
      · cases hstep
        have hempty : Guarded suites detectors Accepted Opened state.received
            { state.ctx with encryptedPackets := [] } := hopened.frame rfl (by simp) rfl rfl
        exact hforget (hempty.handlePackets hlaw hopened.queued false false)
      · cases hstep
  | done =>
      rw [Dtls.readerStep] at hstep
      split at hstep
      · cases hstep
        exact hforget hopened
      · cases hstep
  | setCipherSuite cipherSuite =>
      cases hstep
      exact ⟨{ hguarded with opens := fun _ _ _ _ => trivial }, fun d hd => .inl hd⟩
  | close =>
      cases hstep
      exact hforget hopened

end Guarded

section Installed

variable {Suite Detector : Type} (suites : CipherSuites Suite) (detectors : ReplayDetectors Detector)

theorem cipherSuite_enqueue (ctx : ConnReaderContext Suite Detector) (pkt : Bytes) (again : Bool) :
    (ctx.enqueue again pkt).cipherSuite = ctx.cipherSuite := by
  unfold enqueue
  split <;> rfl

theorem cipherSuite_handleContent (ctx : ConnReaderContext Suite Detector) (h : RecordLayerHeader)
    (record pkt : Bytes) (again : Bool) (content : Content) :
    (ctx.handleContent suites detectors h record pkt again content).1.cipherSuite =
      ctx.cipherSuite := by
  cases content with
  | changeCipherSpec =>
      rw [handleContent]
      split
      · exact cipherSuite_enqueue ctx pkt again
      · split <;> rfl
  | applicationData data =>
      rw [handleContent]
      split <;> rfl
  | _ => rfl

theorem cipherSuite_handlePlain (ctx : ConnReaderContext Suite Detector) (h : RecordLayerHeader)
    (record pkt : Bytes) (again : Bool) :
    (ctx.handlePlain suites detectors h record pkt again).1.cipherSuite = ctx.cipherSuite := by
  unfold handlePlain
  split
  · rfl
  · rfl
  · rfl
  · dsimp only
    split
    · rfl
    · rfl
    · exact cipherSuite_handleContent _ _ _ _ _ _ _ _

theorem cipherSuite_handleFresh (ctx : ConnReaderContext Suite Detector) (h : RecordLayerHeader)
    (pkt : Bytes) (again : Bool) :
    (ctx.handleFresh suites detectors h pkt again).1.cipherSuite = ctx.cipherSuite := by
  unfold handleFresh
  split
  · exact cipherSuite_handlePlain _ _ _ _ _ _ _
  · split
    · exact cipherSuite_enqueue _ _ _
    · split
      · exact cipherSuite_handlePlain _ _ _ _ _ _ _
      · split
        · exact cipherSuite_handlePlain _ _ _ _ _ _ _
        · split <;> rfl

/-- Handling records does not touch the cipher suite. -/
theorem cipherSuite_handleIncomingPacket (ctx : ConnReaderContext Suite Detector) (pkt : Bytes)
    (again : Bool) :
    (ctx.handleIncomingPacket suites detectors pkt again).1.cipherSuite = ctx.cipherSuite := by
  unfold handleIncomingPacket
  split
  · rfl
  · split
    · split
      · rfl
      · exact cipherSuite_enqueue ctx pkt again
    · cases hcheck : ctx.check detectors _ with
      | mk checked fresh =>
          have hsame : checked.cipherSuite = ctx.cipherSuite := by
            have := congrArg (fun result => result.1.cipherSuite) hcheck
            exact this.symm
          cases fresh with
          | false => exact hsame
          | true =>
              dsimp only
              rw [← hsame]
              exact cipherSuite_handleFresh _ _ _ _ _ _

theorem cipherSuite_handlePackets (again : Bool) (ctx : ConnReaderContext Suite Detector)
    (hasHandshake : Bool) (pkts : List Bytes) :
    (handlePackets suites detectors again ctx hasHandshake pkts).1.cipherSuite =
      ctx.cipherSuite := by
  induction pkts generalizing ctx hasHandshake with
  | nil => rfl
  | cons pkt pkts ih =>
      have hfirst := cipherSuite_handleIncomingPacket suites detectors ctx pkt again
      rw [handlePackets]
      cases hhandle : ctx.handleIncomingPacket suites detectors pkt again with
      | mk next outcome =>
          rw [hhandle] at hfirst
          cases outcome with
          | panicked => exact hfirst
          | returned hs alert err =>
              cases alert with
              | none =>
                  cases err with
                  | none => exact (ih next _).trans hfirst
                  | some err => exact hfirst
              | some alert =>
                  dsimp only
                  split
                  · exact hfirst
                  · cases err with
                    | none => exact (ih _ _).trans hfirst
                    | some err => exact hfirst

/-- The reader has the cipher suite that was set last. -/
theorem cipherSuite_of_run {state final : ReaderState Suite Detector}
    {events : List (ReaderEvent Suite)}
    (hrun : Machine.run (readerStep suites detectors) state events = some final) :
    final.ctx.cipherSuite = installed state.ctx.cipherSuite events := by
  induction events generalizing state with
  | nil =>
      obtain rfl : state = final := by simpa using hrun
      rfl
  | cons event events ih =>
      obtain ⟨next, hstep, hrest⟩ := Machine.run_cons_eq_some.mp hrun
      rw [ih hrest, installed, installed, List.foldl_cons]
      congr 1
      cases event with
      | datagram buf =>
          rw [readerStep] at hstep
          split at hstep
          · split at hstep
            · cases hstep
              rfl
            · cases hstep
              exact cipherSuite_handlePackets suites detectors true state.ctx false _
          · cases hstep
      | handleQueue =>
          rw [readerStep] at hstep
          split at hstep
          · cases hstep
            exact cipherSuite_handlePackets suites detectors false
              { state.ctx with encryptedPackets := [] } false state.ctx.encryptedPackets
          · cases hstep
      | done =>
          rw [readerStep] at hstep
          split at hstep
          · cases hstep
            rfl
          · cases hstep
      | setCipherSuite cipherSuite =>
          cases hstep
          rfl
      | close =>
          cases hstep
          rfl

end Installed

/-- **No replay and nothing unprotected.**  In every run of the reader, with a detector that
refuses the numbers it has accepted, whatever datagrams come and whatever the handshake
does: the data delivered to the application came about in an event, in which the cipher
suite set last before it, which has keys, decrypted it from a record of a later epoch, which
was received; and no two deliveries come from records of the same epoch and number. -/
theorem delivered_once {Suite Detector : Type} {suites : CipherSuites Suite}
    {detectors : ReplayDetectors Detector} {Accepted : Detector → ℕ → Prop}
    (hlaw : RefusesReplays detectors Accepted) (isClient : Bool)
    {events : List (ReaderEvent Suite)} {final : ReaderState Suite Detector}
    (hrun : Machine.run (readerStep suites detectors) (.new isClient) events = some final) :
    (∀ d ∈ final.ctx.decrypted, d.record ∈ final.received ∧
      ∃ before event after state next, events = before ++ event :: after ∧
        Machine.run (readerStep suites detectors) (.new isClient) before = some state ∧
        readerStep suites detectors state event = some next ∧
        d ∉ state.ctx.decrypted ∧ d ∈ next.ctx.decrypted ∧
        ∃ cipherSuite, installed none before = some cipherSuite ∧
          d.Genuine suites cipherSuite) ∧
      (final.ctx.decrypted.map Delivery.number).Nodup := by
  have hguard : ∀ {past : List (ReaderEvent Suite)} {state : ReaderState Suite Detector},
      Machine.run (readerStep suites detectors) (.new isClient) past = some state →
        Guarded suites detectors Accepted (fun _ => True) state.received state.ctx := by
    intro past state hpast
    exact Machine.run_invariant
      (fun state => Guarded suites detectors Accepted (fun _ => True) state.received state.ctx)
      (fun _ _ _ hguarded hstep => (hguarded.readerStep hlaw hstep).1)
      ⟨fun _ _ => trivial, fun _ _ _ _ => trivial, by simp [ReaderState.new],
        by simp [ReaderState.new], by simp [ReaderState.new], by simp [ReaderState.new]⟩ hpast
  refine ⟨fun d hd => ⟨(hguard hrun).record d hd, ?_⟩, (hguard hrun).nodup⟩
  obtain ⟨before, event, after, state, next, hevents, hbefore, hstep, hnew, hdelivered⟩ :=
    Machine.exists_step_of_run (fun state => d ∈ state.ctx.decrypted) hrun
      (by simp [ReaderState.new]) hd
  refine ⟨before, event, after, state, next, hevents, hbefore, hstep, hnew, hdelivered, ?_⟩
  rcases ((hguard hbefore).readerStep hlaw hstep).2 d hdelivered with hold | hopened
  · exact absurd hold hnew
  · rwa [cipherSuite_of_run suites detectors hbefore] at hopened

/-- A sliding window: the greatest number, the numbers that were accepted, and the number
that was checked last. -/
structure SlidingWindow where
  latestSeq : ℕ
  seen : List ℕ
  checked : Option ℕ

/-- Detectors that refuse what was accepted and what lies behind the window. -/
def slidingWindows (windowSize : ℕ) : ReplayDetectors SlidingWindow where
  new := ⟨0, [], none⟩
  check detector n :=
    if maxSequenceNumber < n ∨ windowSize + n ≤ detector.latestSeq ∨ n ∈ detector.seen then
      ({ detector with checked := none }, false)
    else ({ detector with checked := some n }, true)
  accept detector :=
    match detector.checked with
    | none => detector
    | some n => { detector with latestSeq := max detector.latestSeq n, seen := n :: detector.seen }

theorem refusesReplays_slidingWindows (windowSize : ℕ) :
    RefusesReplays (slidingWindows windowSize) fun detector n => n ∈ detector.seen where
  check_eq_false hseen := by simp [slidingWindows, hseen]
  check m hseen := by
    simp only [slidingWindows]
    split <;> exact hseen
  accept hseen := by
    simp only [slidingWindows]
    split
    · exact hseen
    · exact List.mem_cons_of_mem _ hseen
  accept_check hcheck := by
    simp only [slidingWindows] at hcheck ⊢
    split at hcheck
    · cases hcheck
    · rename_i hnew
      rw [if_neg hnew]
      exact List.mem_cons_self

/-- A cipher suite that leaves records as they are. -/
def plainSuites : CipherSuites Unit where
  isInitialized _ := true
  isPsk _ := false
  decrypt _ pkt := .ok pkt

/-- A change of the cipher spec, and data of the next epoch. -/
def sampleSpec : Bytes := [20, 254, 253, 0, 0, 0, 0, 0, 0, 0, 0, 0, 1, 1]

def sampleData : Bytes := [23, 254, 253, 0, 1, 0, 0, 0, 0, 0, 0, 0, 2, 104, 105]

theorem unpackDatagram_sample :
    unpackDatagram sampleSpec = .ok [sampleSpec] ∧ unpackDatagram sampleData = .ok [sampleData] :=
  ⟨unpackDatagram_singleton ⟨by decide, by decide⟩ (by decide),
    unpackDatagram_singleton ⟨by decide, by decide⟩ (by decide)⟩

/-- The datagram with the data comes twice and is delivered once. -/
theorem delivered_once_repeated :
    ∃ final, Machine.run (readerStep plainSuites (slidingWindows 64)) (.new false)
        [.setCipherSuite (some ()), .datagram sampleSpec, .datagram sampleData,
          .datagram sampleData] = some final ∧
      final.ctx.decrypted.map Delivery.data = [[104, 105]] ∧
      (final.ctx.decrypted.map Delivery.number).Nodup := by
  have hrun : ∃ final, Machine.run (readerStep plainSuites (slidingWindows 64)) (.new false)
        [.setCipherSuite (some ()), .datagram sampleSpec, .datagram sampleData,
          .datagram sampleData] = some final ∧
      final.ctx.decrypted.map Delivery.data = [[104, 105]] := by
    simp only [Machine.run, readerStep, unpackDatagram_sample]
    exact ⟨_, rfl, rfl⟩
  obtain ⟨final, hfinal, hdata⟩ := hrun
  exact ⟨final, hfinal, hdata,
    (delivered_once (refusesReplays_slidingWindows 64) false hfinal).2⟩

end AutonomiWebrtc.Dtls
