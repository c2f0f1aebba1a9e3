import AutonomiWebrtc.Dtls.Server

/-!
# Whom the server lets in

* `cookie_before_answer`: nothing but the request for a cookie and the alerts of the reader is
  written before the cookie has come back;
* `client_authenticated`: a handshake that has returned has checked the client as its
  configuration demands.

Both are about every run that has not ended with an error.
-/

namespace AutonomiWebrtc.Dtls

open Readers

namespace Server

section Cookie

variable {Secret SigningKey Keys : Type} {crypto : Crypto Secret SigningKey Keys}
  {encrypt : CipherSuite Keys → RecordLayerHeader → Bytes → Except Error Bytes}
  {cfg : HandshakeConfig SigningKey} {mtu : ℕ}

/-- A hello of the client has brought the cookie back. -/
def Returned (server : Server Secret Keys) : Prop :=
  ∃ number hello, server.cache.Says number (.clientHello hello) ∧
    hello.cookie = server.state.cookie ∧ hello.cookie ≠ []

theorem Returned.mono {server next : Server Secret Keys} (hreturned : server.Returned)
    (hgrows : server.cache <+: next.cache) (hcookie : next.state.cookie = server.state.cookie) :
    next.Returned := by
  obtain ⟨number, hello, hheard, hsame, hsome⟩ := hreturned
  exact ⟨number, hello, hheard.mono hgrows, hsame.trans hcookie.symm, hsome⟩

/-- Before the cookie is back there is only the request for it, beside alerts. -/
structure Cookied (server : Server Secret Keys) : Prop where
  fresh : server.currentFlight = .flight0 → ∀ p ∈ server.packets, p.IsAlert
  length : server.currentFlight ≠ .flight0 ∨ server.stage ≠ .preparing →
    server.state.cookie.length = cookieLength
  returned : server.currentFlight = .flight4 ∨ server.currentFlight = .flight6 → server.Returned
  packets : ∀ p ∈ server.packets, p.IsAlert ∨
    p.Carries (.helloVerifyRequest protocolVersion12 server.state.cookie) ∨ server.Returned

theorem cookied_new : (Server.new : Server Secret Keys).Cookied where
  fresh := by simp [Server.packets, Server.new]
  length := by simp [Server.new]
  returned := by simp [Server.new]
  packets := by simp [Server.packets, Server.new]

theorem Cookied.frame {server next : Server Secret Keys} (hcookied : server.Cookied)
    (hgrows : server.cache <+: next.cache) (hflight : next.currentFlight = server.currentFlight)
    (hstage : server.stage ≠ .preparing) (hcookie : next.state.cookie = server.state.cookie)
    (hpackets : ∀ p ∈ next.packets, p ∈ server.packets) : next.Cookied where
  fresh hzero p hp := hcookied.fresh (hflight.symm.trans hzero) p (hpackets p hp)
  length _ := by
    rw [hcookie]
    exact hcookied.length (.inr hstage)
  returned hlate := by
    rw [hflight] at hlate
    exact (hcookied.returned hlate).mono hgrows hcookie
  packets p hp := by
    rw [hcookie]
    exact (hcookied.packets p (hpackets p hp)).imp_right (Or.imp_right fun hback =>
      hback.mono hgrows hcookie)

/-- Only flight 0 draws a cookie, and only flight 2 sends one before it is back. -/
theorem Cookied.prepared {server : Server Secret Keys} (hcookied : server.Cookied)
    {drawn : Drawn Secret SigningKey} {state : State Secret Keys} {pkts : List Packet}
    (hgenerates : Generates cfg server drawn state pkts) {next : Server Secret Keys}
    (hcache : next.cache = server.cache) (hflight : next.currentFlight = server.currentFlight)
    (hcookie : next.state.cookie = state.cookie)
    (hflights : next.flights =
      some (numberPackets cfg.initialEpoch state.handshakeSendSequence pkts).2)
    (hwritten : next.written = server.written) : next.Cookied := by
  have hgrows : server.cache <+: next.cache := by simp [hcache]
  have hlater : server.currentFlight ≠ .flight0 → state.cookie = server.state.cookie →
      (∀ q ∈ pkts, q.Carries (.helloVerifyRequest protocolVersion12 server.state.cookie) ∨
        server.Returned) → next.Cookied := by
    intro hlater hsame hpkts
    have hback : server.Returned → next.Returned :=
      fun hback => hback.mono hgrows (hcookie.trans hsame)
    refine ⟨fun hzero => absurd (hflight.symm.trans hzero) hlater, fun _ => ?_, fun hlate => ?_,
      fun p hp => ?_⟩
    · rw [hcookie, hsame]
      exact hcookied.length (.inl hlater)
    · rw [hflight] at hlate
      exact hback (hcookied.returned hlate)
    · rw [hcookie, hsame]
      rcases packets_prepared hflights hwritten hp with hnew | hold
      · obtain ⟨q, hq, hcarry⟩ := exists_of_mem_numberPackets hnew
        exact .inr ((hpkts q hq).imp (hcarry _).mpr hback)
      · exact (hcookied.packets p hold).imp_right (Or.imp_right hback)
  cases hgenerates with
  | flight0 hzero =>
      have hnone : ∀ p ∈ next.packets, p.IsAlert := by
        intro p hp
        rcases packets_prepared hflights hwritten hp with hnew | hold
        · cases hnew
        · exact hcookied.fresh hzero p hold
      refine ⟨fun _ => hnone, fun _ => ?_, fun hlate => ?_, fun p hp => .inl (hnone p hp)⟩
      · rw [hcookie]
        exact drawn.cookie.length_toList
      · rw [hflight, hzero] at hlate
        simp at hlate
  | flight2 htwo =>
      refine hlater (by rw [htwo]; simp) rfl ?_
      rw [List.forall_mem_singleton]
      exact .inl ⟨_, rfl, rfl⟩
  | flight4 hfour signature messages hlength hmessages hhello =>
      exact hlater (by rw [hfour]; simp) rfl fun _ _ => .inr (hcookied.returned (.inl hfour))
  | flight6 hsix data =>
      exact hlater (by rw [hsix]; simp) rfl fun _ _ => .inr (hcookied.returned (.inr hsix))

theorem Cookied.effect {server next : Server Secret Keys} (hgrows : server.cache <+: next.cache)
    (hregular : server.Regular) (hcookied : server.Cookied)
    (heffect : Effect crypto encrypt cfg mtu server next) (hlive : ¬ next.Over) :
    next.Cookied := by
  cases heffect with
  | ended hover => exact absurd hover hlive
  | last hflight hstage => exact absurd hstage (hregular.last hflight)
  | skipped hstage hflights => exact absurd hflights (hregular.flights (by rw [hstage]; simp))
  | arrived outs =>
      exact ⟨hcookied.fresh, hcookied.length, fun hlate => (hcookied.returned hlate).mono hgrows rfl,
        fun p hp => (hcookied.packets p hp).imp_right (Or.imp_right fun hback =>
          hback.mono hgrows rfl)⟩
  | prepared drawn state pkts hstage hgenerate =>
      exact hcookied.prepared (generates_of_generate hgenerate) rfl rfl rfl rfl rfl
  | sent pkts hstage hflights =>
      exact hcookied.frame hgrows rfl (by rw [hstage]; simp) rfl
        fun p hp => packets_sent hflights hp rfl rfl
  | ticked hstage => exact hcookied.frame hgrows rfl (by rw [hstage]; simp) rfl fun _ hp => hp
  | idle hstage =>
      refine hcookied.frame hgrows rfl ?_ rfl fun _ hp => hp
      rcases hstage with hwaiting | ⟨seq, hqueue⟩
      · rw [hwaiting]
        simp
      · rw [hqueue]
        simp
  | greeted drawn hello state hflight hstage hheard hhandle =>
      obtain ⟨middle, keypair, hchooses, hspares, -⟩ := handleClientHello_spec hhandle
      have hcookie : state.cookie = server.state.cookie :=
        (hspares.after hchooses.spares).cookie
      refine ⟨by simp, fun _ => ?_, by simp, fun p hp => ?_⟩
      · dsimp only
        rw [hcookie]
        exact hcookied.length (.inr (by rw [hstage]; simp))
      · dsimp only
        rw [hcookie]
        exact (hcookied.packets p hp).imp_right (Or.imp_right fun hback =>
          hback.mono hgrows hcookie)
  | unanswered hflight hstage =>
      exact hcookied.frame hgrows rfl (by rw [hstage]; simp) rfl fun _ hp => hp
  | answered number hello hflight hstage hheard hcookie hsame =>
      have hback : server.Returned := ⟨number, hello, hheard, hsame.symm, hcookie⟩
      exact ⟨by simp, fun _ => hcookied.length (.inl (by rw [hflight]; simp)),
        fun _ => hback.mono hgrows rfl, fun p hp => .inr (.inr (hback.mono hgrows rfl))⟩
  | certified state hflight hstage hcertified =>
      exact hcookied.frame hgrows rfl (by rw [hstage]; simp) hcertified.cookie fun _ hp => hp
  | queued state seq hflight hstage hcertified hauthenticated =>
      exact hcookied.frame hgrows rfl (by rw [hstage]; simp) hcertified.cookie fun _ hp => hp
  | finished seq verifyData hstage hheard hauth =>
      have hfour := hregular.queue seq hstage
      have hback := hcookied.returned (.inl hfour)
      exact ⟨by simp, fun _ => hcookied.length (.inl (by rw [hfour]; simp)),
        fun _ => hback.mono hgrows rfl, fun p hp => .inr (.inr (hback.mono hgrows rfl))⟩
  | alerted alert hrunning =>
      have hpackets : ∀ p ∈ (server.writePackets encrypt mtu
          [alertPacket server.state.localEpoch alert]).1.packets, p ∈ server.packets ∨ p.IsAlert :=
        fun p hp => (mem_packets_alerted hp).imp_right fun heq => ⟨_, _, heq⟩
      refine ⟨fun hzero p hp => ?_, hcookied.length, fun hlate => ?_, fun p hp => ?_⟩
      · exact (hpackets p hp).elim (hcookied.fresh hzero p) id
      · exact (hcookied.returned hlate).mono hgrows rfl
      · rcases hpackets p hp with hold | halert
        · exact (hcookied.packets p hold).imp_right (Or.imp_right fun hback =>
            hback.mono hgrows rfl)
        · exact .inl halert

end Cookie

/-! ## The certificates -/

section Certificates

variable {Secret SigningKey Keys : Type} {crypto : Crypto Secret SigningKey Keys}
  {encrypt : CipherSuite Keys → RecordLayerHeader → Bytes → Except Error Bytes}
  {cfg : HandshakeConfig SigningKey} {mtu : ℕ}

variable (crypto cfg) in
/-- The client was authenticated against the cache of that time. -/
def Vetted (server : Server Secret Keys) : Prop :=
  ∃ cache, cache <+: server.cache ∧ Authenticated crypto cfg cache server.state

theorem Vetted.mono {server next : Server Secret Keys} (hvetted : Vetted crypto cfg server)
    (hgrows : server.cache <+: next.cache)
    (hcertificates : next.state.peerCertificates = server.state.peerCertificates)
    (hverified : next.state.peerCertificatesVerified = server.state.peerCertificatesVerified) :
    Vetted crypto cfg next := by
  obtain ⟨cache, hearlier, hauthenticated⟩ := hvetted
  refine ⟨cache, hearlier.trans hgrows, ?_⟩
  unfold Authenticated
  rw [hcertificates, hverified]
  exact hauthenticated

variable (crypto cfg) in
/-- The certificates are the client's own, and flight 6 comes after the checks. -/
structure Admitted (server : Server Secret Keys) : Prop where
  certificates : server.state.peerCertificates = [] ∨
    ∃ number, server.cache.Says number (.certificate server.state.peerCertificates)
  queue : ∀ seq, server.stage = .handlingQueue seq → Vetted crypto cfg server
  last : server.currentFlight = .flight6 →
    Vetted crypto cfg server ∧ checkClientAuth cfg server.state = .ok .flight6

theorem admitted_new : Admitted crypto cfg (Server.new : Server Secret Keys) where
  certificates := .inl rfl
  queue := by simp [Server.new]
  last := by simp [Server.new]

theorem checkClientAuth_congr {state next : State Secret Keys}
    (hcertificates : next.peerCertificates = state.peerCertificates)
    (hverified : next.peerCertificatesVerified = state.peerCertificatesVerified) :
    checkClientAuth cfg next = checkClientAuth cfg state := by
  unfold checkClientAuth
  rw [hcertificates, hverified]

/-- A step that leaves the certificates alone. -/
theorem Admitted.frame {server next : Server Secret Keys} (hadmitted : Admitted crypto cfg server)
    (hgrows : server.cache <+: next.cache) (hflight : next.currentFlight = server.currentFlight)
    (hstage : ∀ seq, next.stage = .handlingQueue seq → server.stage = .handlingQueue seq)
    (hcertificates : next.state.peerCertificates = server.state.peerCertificates)
    (hverified : next.state.peerCertificatesVerified = server.state.peerCertificatesVerified) :
    Admitted crypto cfg next where
  certificates := by
    rw [hcertificates]
    exact hadmitted.certificates.imp_right fun ⟨number, hheard⟩ => ⟨number, hheard.mono hgrows⟩
  queue seq hqueue :=
    (hadmitted.queue seq (hstage seq hqueue)).mono hgrows hcertificates hverified
  last hlast := by
    rw [hflight] at hlast
    obtain ⟨hvetted, hauth⟩ := hadmitted.last hlast
    rw [checkClientAuth_congr hcertificates hverified]
    exact ⟨hvetted.mono hgrows hcertificates hverified, hauth⟩

theorem Admitted.certified {server : Server Secret Keys} (hadmitted : Admitted crypto cfg server)
    {state : State Secret Keys} (hcertified : Certified server.cache server.state state) :
    state.peerCertificates = [] ∨
      ∃ number, server.cache.Says number (.certificate state.peerCertificates) := by
  rcases hcertified.peerCertificates with hsame | hnew
  · rw [hsame]
    exact hadmitted.certificates
  · exact .inr hnew

theorem Admitted.effect {server next : Server Secret Keys} (hgrows : server.cache <+: next.cache)
    (hregular : server.Regular) (hadmitted : Admitted crypto cfg server)
    (heffect : Effect crypto encrypt cfg mtu server next) (hlive : ¬ next.Over) :
    Admitted crypto cfg next := by
  cases heffect with
  | ended hover => exact absurd hover hlive
  | last hflight hstage => exact absurd hstage (hregular.last hflight)
  | skipped hstage hflights => exact absurd hflights (hregular.flights (by rw [hstage]; simp))
  | arrived outs => exact hadmitted.frame hgrows rfl (fun _ hqueue => hqueue) rfl rfl
  | prepared drawn state pkts hstage hgenerate =>
      cases generates_of_generate hgenerate with
      | flight0 hzero => exact hadmitted.frame hgrows rfl (by simp) rfl rfl
      | flight2 htwo => exact hadmitted.frame hgrows rfl (by simp) rfl rfl
      | flight4 hfour signature messages hlength hmessages hhello =>
          exact hadmitted.frame hgrows rfl (by simp) rfl rfl
      | flight6 hsix data => exact hadmitted.frame hgrows rfl (by simp) rfl rfl
  | sent pkts hstage hflights =>
      refine hadmitted.frame hgrows rfl (fun seq hqueue => ?_) rfl rfl
      dsimp only at hqueue
      split at hqueue <;> cases hqueue
  | ticked hstage =>
      refine hadmitted.frame hgrows rfl (fun seq hqueue => ?_) rfl rfl
      dsimp only at hqueue
      split at hqueue <;> cases hqueue
  | idle hstage => exact hadmitted.frame hgrows rfl (by simp) rfl rfl
  | greeted drawn hello state hflight hstage hheard hhandle =>
      obtain ⟨middle, keypair, hchooses, hspares, -⟩ := handleClientHello_spec hhandle
      have hsame : state.peerCertificates = server.state.peerCertificates :=
        (hspares.after hchooses.spares).peerCertificates
      refine ⟨?_, by simp, by simp⟩
      dsimp only
      rw [hsame]
      exact hadmitted.certificates
  | unanswered hflight hstage => exact hadmitted.frame hgrows rfl (by simp) rfl rfl
  | answered number hello hflight hstage hheard hcookie hsame =>
      exact ⟨hadmitted.certificates, by simp, by simp⟩
  | certified state hflight hstage hcertified =>
      refine ⟨hadmitted.certified hcertified, by simp, fun hsix => ?_⟩
      exact absurd hstage (hregular.last hsix)
  | queued state seq hflight hstage hcertified hauthenticated =>
      refine ⟨hadmitted.certified hcertified, fun _ _ => ⟨server.cache, hgrows, hauthenticated⟩,
        fun hsix => ?_⟩
      exact absurd hstage (hregular.last hsix)
  | finished seq verifyData hstage hheard hauth =>
      refine ⟨hadmitted.certificates, by simp, fun _ => ⟨?_, ?_⟩⟩
      · exact (hadmitted.queue seq hstage).mono hgrows rfl rfl
      · exact hauth
  | alerted alert hrunning => exact hadmitted.frame hgrows rfl (fun _ hqueue => hqueue) rfl rfl

end Certificates

end Server

/-- What a `CertificateVerify` that passes has been checked for. -/
theorem checkCertificateVerify_eq_ok {Secret SigningKey Keys : Type}
    {crypto : Crypto Secret SigningKey Keys} {cfg : HandshakeConfig SigningKey}
    {cache : HandshakeCache} {peerCertificates : List Bytes} {algorithm : SignatureHashAlgorithm}
    {signature : Bytes} {verified : Bool}
    (hcheck : checkCertificateVerify crypto cfg cache peerCertificates algorithm signature =
      .ok verified) :
    algorithm ∈ cfg.localSignatureSchemes ∧
      crypto.verifyCertificateVerify
        (cache.pullAndMerge (certificateVerifyRules cfg.initialEpoch)) algorithm signature
        peerCertificates cfg.insecureVerification = .ok () ∧
      (ClientAuthType.verifyClientCertIfGiven.toNat ≤ cfg.clientAuth.toNat →
        ∃ verifier chains, cfg.clientCertVerifier = some verifier ∧
          verifier peerCertificates = .ok chains) ∧
      ∀ verify, cfg.verifyPeerCertificate = some verify →
        ∃ chains, verify peerCertificates chains = .ok () := by
  unfold checkCertificateVerify at hcheck
  split at hcheck
  · cases hcheck
  · dsimp only at hcheck
    split at hcheck
    · cases hcheck
    · rename_i halgorithm
      split at hcheck
      · cases hcheck
      · rename_i hsignature
        split at hcheck
        · cases hcheck
        · rename_i chains checked hchain
          refine ⟨not_not.mp halgorithm, hsignature, fun hdemanded => ?_, fun verify hverify => ?_⟩
          · rw [verifyChain, if_pos hdemanded] at hchain
            split at hchain
            · cases hchain
            · rename_i verifier hverifier
              split at hchain
              · cases hchain
              · rename_i found hfound
                exact ⟨verifier, found, hverifier, hfound⟩
          · rw [hverify] at hcheck
            dsimp only at hcheck
            split at hcheck
            · cases hcheck
            · rename_i hfound
              exact ⟨chains, hfound⟩

section Runs

variable {Secret SigningKey Keys : Type} {crypto : Crypto Secret SigningKey Keys}
  {encrypt : CipherSuite Keys → RecordLayerHeader → Bytes → Except Error Bytes}
  {cfg : HandshakeConfig SigningKey} {mtu : ℕ}

/-- **The cookie comes first.**  In every run that has not ended with an error, each packet that
was written is an alert, or the server's cookie is of twenty octets and the packet is the
request for it or a hello of the client has brought it back. -/
theorem cookie_before_answer {events : List (ServerEvent Secret SigningKey)}
    {final : Server Secret Keys}
    (hrun : Machine.run (Server.step crypto encrypt cfg mtu) .new events = some final)
    (hlive : ¬ final.Over) :
    ∀ write ∈ final.written, ∀ p ∈ write.2, p.IsAlert ∨
      final.state.cookie.length = cookieLength ∧
        (p.Carries (.helloVerifyRequest protocolVersion12 final.state.cookie) ∨
          ∃ number hello, final.cache.Says number (.clientHello hello) ∧
            hello.cookie = final.state.cookie) := by
  obtain ⟨-, -, hcookied⟩ := Server.run_effect Server.Cookied Server.cookied_new
    (fun _ _ hgrows hregular hcookied => hcookied.effect hgrows hregular) hrun hlive
  intro write hwrite p hp
  have hmem : p ∈ final.packets :=
    List.mem_append_right _ (List.mem_flatMap.mpr ⟨write, hwrite, hp⟩)
  by_cases halert : p.IsAlert
  · exact .inl halert
  · refine .inr ⟨hcookied.length (.inl fun hzero => halert (hcookied.fresh hzero p hmem)), ?_⟩
    refine ((hcookied.packets p hmem).resolve_left halert).imp_right ?_
    rintro ⟨number, hello, hheard, hsame, -⟩
    exact ⟨number, hello, hheard, hsame⟩

/-- The sample handshake up to the second request, which no hello has answered. -/
theorem cookie_before_answer_asked :
    ∃ final, Machine.run (Server.step sampleCrypto (fun _ _ raw => .ok raw) sampleConfig 1200) .new
        (sampleHandshake.take 12) = some final ∧
      final.written.length = 5 ∧ final.state.cookie = List.replicate 20 9 ∧
      ∀ write ∈ final.written, ∀ p ∈ write.2, p.IsAlert ∨
        final.state.cookie.length = cookieLength ∧
          (p.Carries (.helloVerifyRequest protocolVersion12 final.state.cookie) ∨
            ∃ number hello, final.cache.Says number (.clientHello hello) ∧
              hello.cookie = final.state.cookie) := by
  have hasked : (Machine.run (Server.step sampleCrypto (fun _ _ raw => .ok raw) sampleConfig 1200)
      .new (sampleHandshake.take 12)).map
        (fun server => (server.stage, server.written.length, server.state.cookie)) =
          some (.waiting, 5, List.replicate 20 9) := by
    decide +kernel
  obtain ⟨final, hrun, hview⟩ := Option.map_eq_some_iff.mp hasked
  obtain ⟨hstage, hrest⟩ := Prod.mk.inj hview
  obtain ⟨hwritten, hcookie⟩ := Prod.mk.inj hrest
  exact ⟨final, hrun, hwritten, hcookie,
    cookie_before_answer hrun (by simp [Server.Over, hstage])⟩

/-- **The client is checked.**  In every run whose handshake has returned: without certificates
the configuration does not require any; with certificates, they are those of a message of the
client, who has signed the transcript of that time with an algorithm the server lists, and
the verifier and the callback of the configuration have accepted them. -/
theorem client_authenticated {events : List (ServerEvent Secret SigningKey)}
    {final : Server Secret Keys}
    (hrun : Machine.run (Server.step crypto encrypt cfg mtu) .new events = some final)
    (hreturned : final.stage = .returned) :
    (final.state.peerCertificates = [] →
      cfg.clientAuth ≠ .requireAnyClientCert ∧ cfg.clientAuth ≠ .requireAndVerifyClientCert) ∧
    (final.state.peerCertificates ≠ [] →
      (∃ number, final.cache.Says number (.certificate final.state.peerCertificates)) ∧
      ∃ (cache : HandshakeCache) (number : UInt16) (algorithm : SignatureHashAlgorithm)
        (signature : Bytes), cache <+: final.cache ∧
        cache.Says number (.certificateVerify algorithm signature) ∧
        algorithm ∈ cfg.localSignatureSchemes ∧
        crypto.verifyCertificateVerify
          (cache.pullAndMerge (certificateVerifyRules cfg.initialEpoch)) algorithm signature
          final.state.peerCertificates cfg.insecureVerification = .ok () ∧
        (ClientAuthType.verifyClientCertIfGiven.toNat ≤ cfg.clientAuth.toNat →
          ∃ verifier chains, cfg.clientCertVerifier = some verifier ∧
            verifier final.state.peerCertificates = .ok chains) ∧
        ∀ verify, cfg.verifyPeerCertificate = some verify →
          ∃ chains, verify final.state.peerCertificates chains = .ok ()) := by
  have hlive : ¬ final.Over := by simp [Server.Over, hreturned]
  obtain ⟨-, hregular, hadmitted⟩ := Server.run_effect (Server.Admitted crypto cfg)
    Server.admitted_new
    (fun _ _ hgrows hregular hadmitted => hadmitted.effect hgrows hregular) hrun hlive
  obtain ⟨⟨cache, hearlier, hauthenticated⟩, hauth⟩ := hadmitted.last (hregular.returned hreturned)
  refine ⟨fun hnone => ?_, fun hsome => ⟨hadmitted.certificates.resolve_left hsome, ?_⟩⟩
  · constructor
    · intro hany
      rw [checkClientAuth, hany] at hauth
      dsimp only at hauth
      rw [if_pos hnone] at hauth
      cases hauth
    · intro hboth
      rw [checkClientAuth, hboth] at hauth
      dsimp only at hauth
      rw [if_pos hnone] at hauth
      cases hauth
  · obtain ⟨number, algorithm, signature, hheard, hcheck⟩ := hauthenticated.resolve_left hsome
    exact ⟨cache, number, algorithm, signature, hearlier, hheard,
      checkCertificateVerify_eq_ok hcheck⟩

theorem client_authenticated_returned :
    ∃ final, Machine.run (Server.step sampleCrypto (fun _ _ raw => .ok raw) sampleConfig 1200) .new
        sampleHandshake = some final ∧ final.state.peerCertificates = [[1, 2]] ∧
      (∃ number, final.cache.Says number (.certificate [[1, 2]])) ∧
      ∃ (cache : HandshakeCache) (number : UInt16) (algorithm : SignatureHashAlgorithm)
        (signature : Bytes), cache <+: final.cache ∧
        cache.Says number (.certificateVerify algorithm signature) ∧
        algorithm ∈ sampleConfig.localSignatureSchemes ∧
        sampleCrypto.verifyCertificateVerify
          (cache.pullAndMerge (certificateVerifyRules sampleConfig.initialEpoch)) algorithm
          signature [[1, 2]] sampleConfig.insecureVerification = .ok () ∧
        (∃ verifier chains, sampleConfig.clientCertVerifier = some verifier ∧
          verifier [[1, 2]] = .ok chains) ∧
        ∀ verify, sampleConfig.verifyPeerCertificate = some verify →
          ∃ chains, verify [[1, 2]] chains = .ok () := by
  obtain ⟨final, hrun, hview⟩ := Option.map_eq_some_iff.mp sampleHandshake_returns
  obtain ⟨hstage, -⟩ := Prod.mk.inj hview
  have hgiven : (Machine.run (Server.step sampleCrypto (fun _ _ raw => .ok raw) sampleConfig 1200)
      .new sampleHandshake).map (fun server => server.state.peerCertificates) = some [[1, 2]] := by
    decide +kernel
  rw [hrun] at hgiven
  have hcertificates : final.state.peerCertificates = [[1, 2]] := Option.some.inj hgiven
  obtain ⟨-, hsome⟩ := client_authenticated hrun hstage
  rw [hcertificates] at hsome
  obtain ⟨hgave, cache, number, algorithm, signature, hearlier, hheard, hlisted, hverified, hchain,
    hcallback⟩ := hsome (by simp)
  exact ⟨final, hrun, hcertificates, hgave, cache, number, algorithm, signature, hearlier, hheard,
    hlisted, hverified, hchain (by decide), hcallback⟩

end Runs

end AutonomiWebrtc.Dtls
