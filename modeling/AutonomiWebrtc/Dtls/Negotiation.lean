import AutonomiWebrtc.Dtls.Server

/-!
# The cipher suite and the SRTP profile

Like the curve, the cipher suite and the protection profile for SRTP are those of the client's
first hello: the first of the client's list that the server has in its own list.  The
client's order decides, so that what the server does not list is never chosen.

The transport over this crate lists two profiles, `settingEngineProfiles`, and leaves out the
one with keys of 256 bits, whose session cannot be set up.
-/

namespace AutonomiWebrtc.Dtls

open Readers

/-- The profiles that `setting_engine` sets. -/
def settingEngineProfiles : List SrtpProtectionProfile :=
  [.aeadAes128Gcm, .aes128CmHmacSha180]

/-- The list of profiles in an extension. -/
def Extension.profiles : Extension → Option (List SrtpProtectionProfile)
  | .useSrtp protectionProfiles => some protectionProfiles
  | _ => none

/-- The profile for a hello: without a list there is none, and of several lists the last
counts. -/
def ClientHello.profile (hello : ClientHello) (supported : List SrtpProtectionProfile) :
    Option SrtpProtectionProfile :=
  match (hello.extensions.filterMap Extension.profiles).getLast? with
  | none => some .unsupported
  | some protectionProfiles => findMatching protectionProfiles supported

theorem mem_of_findMatching {α : Type} [DecidableEq α] {a b : List α} {x : α}
    (hfind : findMatching a b = some x) : x ∈ b := by
  simpa using List.find?_some hfind

theorem profile_cases {hello : ClientHello} {supported : List SrtpProtectionProfile}
    {profile : SrtpProtectionProfile} (hprofile : hello.profile supported = some profile) :
    profile = .unsupported ∨ profile ∈ supported := by
  unfold ClientHello.profile at hprofile
  split at hprofile
  · cases hprofile
    exact .inl rfl
  · exact .inr (mem_of_findMatching hprofile)

section Hello

variable {Secret SigningKey Keys : Type} {cfg : HandshakeConfig SigningKey}
  {drawn : Drawn Secret SigningKey}

/-- The extensions choose a profile and leave the cipher suite alone. -/
structure Picks (cfg : HandshakeConfig SigningKey) (extensions : List Extension)
    (state next : State Secret Keys) : Prop where
  cipherSuite : next.cipherSuite = state.cipherSuite
  profile :
    match (extensions.filterMap Extension.profiles).getLast? with
    | none => next.srtpProtectionProfile = state.srtpProtectionProfile
    | some protectionProfiles =>
        findMatching protectionProfiles cfg.localSrtpProtectionProfiles =
          some next.srtpProtectionProfile

theorem profiles_eq_none {extension : Extension}
    (hprofiles : ∀ protectionProfiles, extension ≠ .useSrtp protectionProfiles) :
    extension.profiles = none := by
  cases extension with
  | useSrtp protectionProfiles => exact absurd rfl (hprofiles protectionProfiles)
  | _ => rfl

theorem picks_applyExtensions {state next : State Secret Keys} {extensions : List Extension}
    (happly : applyExtensions cfg state extensions = (next, .ok ())) :
    Picks cfg extensions state next := by
  induction extensions generalizing state with
  | nil =>
      cases happly
      exact ⟨rfl, rfl⟩
  | cons extension extensions ih =>
      obtain ⟨middle, happlies, hrest⟩ := exists_applies happly
      obtain ⟨hsuite, hprofile⟩ := ih hrest
      cases happlies with
      | profiles hfind =>
          refine ⟨hsuite, ?_⟩
          rw [List.filterMap_cons, Extension.profiles, List.getLast?_cons]
          split at hprofile
          · rename_i hnone
            simp only [hnone, Option.getD_none]
            rw [hfind, hprofile]
          · rename_i later hsome
            simp only [hsome, Option.getD_some]
            exact hprofile
      | other hcurves hprofiles =>
          refine ⟨hsuite, ?_⟩
          rw [List.filterMap_cons_none (profiles_eq_none hprofiles)]
          exact hprofile
      | _ => exact ⟨hsuite, hprofile⟩

/-- What a hello negotiates. -/
theorem negotiates_handleClientHello (hknown : .unsupported ∉ cfg.localCipherSuites)
    {state next : State Secret Keys} {hello : ClientHello}
    (hhandle : handleClientHello cfg drawn state hello = (next, .ok .flight2)) :
    ∃ suite, findMatching hello.cipherSuites cfg.localCipherSuites = some suite ∧
      next.cipherSuite.map CipherSuite.id = some suite ∧
      (match (hello.extensions.filterMap Extension.profiles).getLast? with
        | none => next.srtpProtectionProfile = state.srtpProtectionProfile
        | some protectionProfiles =>
            findMatching protectionProfiles cfg.localSrtpProtectionProfiles =
              some next.srtpProtectionProfile) := by
  unfold handleClientHello at hhandle
  split at hhandle
  · cases hhandle
  · dsimp only at hhandle
    split at hhandle
    · cases hhandle
    · rename_i suite hfind
      have hsuite : cipherSuiteForId suite = .ok (⟨suite, none⟩ : CipherSuite Keys) := by
        have hmem := mem_of_findMatching hfind
        cases suite with
        | unsupported => exact absurd hmem hknown
        | _ => rfl
      rw [hsuite] at hhandle
      split at hhandle
      · cases hhandle
      · rename_i middle happly
        obtain ⟨hsame, hprofile⟩ := picks_applyExtensions happly
        have hend : next.cipherSuite = middle.cipherSuite ∧
            next.srtpProtectionProfile = middle.srtpProtectionProfile := by
          unfold prepareKeypair at hhandle
          split at hhandle
          · cases hhandle
          · split at hhandle
            · cases hhandle
              exact ⟨rfl, rfl⟩
            · split at hhandle
              · cases hhandle
              · cases hhandle
                exact ⟨rfl, rfl⟩
        refine ⟨suite, hfind, ?_, ?_⟩
        · rw [hend.1, hsame]
          rfl
        · rw [hend.2]
          exact hprofile

end Hello

namespace Server

section Negotiation

variable {Secret SigningKey Keys : Type} {crypto : Crypto Secret SigningKey Keys}
  {encrypt : CipherSuite Keys → RecordLayerHeader → Bytes → Except Error Bytes}
  {cfg : HandshakeConfig SigningKey} {mtu : ℕ}

/-- The answer names the cipher suite and the profile of the state, if there is one. -/
def Names (state : State Secret Keys) (message : HandshakeMessage) : Prop :=
  ∀ answer, message = .serverHello answer →
    state.cipherSuite.map CipherSuite.id = some answer.cipherSuite ∧
    answer.extensions.filterMap Extension.profiles =
      if state.srtpProtectionProfile = .unsupported then [] else [[state.srtpProtectionProfile]]

theorem names_serverHello {state : State Secret Keys} {suite : CipherSuiteId}
    (hsuite : state.cipherSuite.map CipherSuite.id = some suite) :
    Names state (.serverHello (serverHello cfg state)) := by
  rintro answer ⟨⟩
  obtain ⟨cipherSuite, hsome, rfl⟩ := Option.map_eq_some_iff.mp hsuite
  refine ⟨?_, ?_⟩
  · rw [hsome]
    simp [serverHello, hsome]
  · -- of the four parts of the extensions only the third has profiles
    simp only [serverHello, serverExtensions, List.filterMap_append,
      apply_ite (List.filterMap Extension.profiles), List.filterMap_cons, List.filterMap_nil,
      Extension.profiles, ite_self, List.nil_append, List.append_nil]
    by_cases hprofile : state.srtpProtectionProfile = .unsupported
    · simp [hprofile]
    · simp [hprofile]

theorem Names.congr {state next : State Secret Keys} {message : HandshakeMessage}
    (hnames : Names state message)
    (hsuite : next.cipherSuite.map CipherSuite.id = state.cipherSuite.map CipherSuite.id)
    (hprofile : next.srtpProtectionProfile = state.srtpProtectionProfile) :
    Names next message := by
  unfold Names
  rw [hsuite, hprofile]
  exact hnames

/-- Without a cipher suite there is no answer, so that any other state will do. -/
theorem Names.of_none {state next : State Secret Keys} {message : HandshakeMessage}
    (hnames : Names state message) (hnone : state.cipherSuite = none) : Names next message := by
  intro answer hmessage
  obtain ⟨hsuite, -⟩ := hnames answer hmessage
  rw [hnone] at hsuite
  cases hsuite

/-- The cipher suite and the profile are those of the client's first hello, and every answer
names them. -/
structure Negotiated (cfg : HandshakeConfig SigningKey) (server : Server Secret Keys) : Prop where
  fresh : server.currentFlight = .flight0 → server.state.cipherSuite = none ∧
    server.state.srtpProtectionProfile = .unsupported
  chosen : server.currentFlight ≠ .flight0 → ∃ hello suite,
    server.cache.Says 0 (.clientHello hello) ∧
    server.state.cipherSuite.map CipherSuite.id = some suite ∧
    findMatching hello.cipherSuites cfg.localCipherSuites = some suite ∧
    hello.profile cfg.localSrtpProtectionProfiles = some server.state.srtpProtectionProfile
  names : ∀ p ∈ server.packets, ∀ message, p.Carries message → Names server.state message

theorem negotiated_new : Negotiated cfg (Server.new : Server Secret Keys) where
  fresh _ := ⟨rfl, rfl⟩
  chosen := by simp [Server.new]
  names := by simp [packets, Server.new]

theorem Negotiated.frame {server next : Server Secret Keys} (hnegotiated : Negotiated cfg server)
    (hgrows : server.cache <+: next.cache) (hflight : next.currentFlight = server.currentFlight)
    (hsuite : next.state.cipherSuite.map CipherSuite.id =
      server.state.cipherSuite.map CipherSuite.id)
    (hprofile : next.state.srtpProtectionProfile = server.state.srtpProtectionProfile)
    (hpackets : ∀ p ∈ next.packets, p ∈ server.packets) : Negotiated cfg next where
  fresh hzero := by
    obtain ⟨hnone, hunsupported⟩ := hnegotiated.fresh (hflight.symm.trans hzero)
    rw [hnone, Option.map_none, Option.map_eq_none_iff] at hsuite
    exact ⟨hsuite, hprofile.trans hunsupported⟩
  chosen hlater := by
    rw [hflight] at hlater
    obtain ⟨hello, suite, hheard, hsome, hfind, hpicked⟩ := hnegotiated.chosen hlater
    exact ⟨hello, suite, hheard.mono hgrows, hsuite.trans hsome, hfind, hprofile ▸ hpicked⟩
  names p hp message hcarries :=
    (hnegotiated.names p (hpackets p hp) message hcarries).congr hsuite hprofile

/-- The hello that is read again negotiates the same. -/
theorem Negotiated.greeted (hknown : .unsupported ∉ cfg.localCipherSuites)
    {server : Server Secret Keys} (hnegotiated : Negotiated cfg server)
    (hsound : server.cache.Sound) {drawn : Drawn Secret SigningKey} {hello : ClientHello}
    {next : State Secret Keys} (hheard : server.cache.Says 0 (.clientHello hello))
    (hhandle : handleClientHello cfg drawn { server.state with handshakeRecvSequence := 1 } hello =
      (next, .ok .flight2)) :
    Negotiated cfg { server with state := next, currentFlight := .flight2, stage := .preparing } := by
  obtain ⟨suite, hfind, hsuite, hprofile⟩ := negotiates_handleClientHello hknown hhandle
  by_cases hflight : server.currentFlight = .flight0
  · obtain ⟨hnone, hunsupported⟩ := hnegotiated.fresh hflight
    refine ⟨by simp, fun _ => ⟨hello, suite, hheard, hsuite, hfind, ?_⟩, fun p hp message hcarries =>
      (hnegotiated.names p hp message hcarries).of_none hnone⟩
    unfold ClientHello.profile
    split at hprofile
    · have hsame : next.srtpProtectionProfile = server.state.srtpProtectionProfile := hprofile
      rw [hsame, hunsupported]
    · exact hprofile
  · obtain ⟨first, old, hfirst, hold, hfound, hpicked⟩ := hnegotiated.chosen hflight
    obtain ⟨⟩ := hsound.says_unique hfirst hheard
    obtain rfl : old = suite := Option.some.inj (hfound.symm.trans hfind)
    have hkept : next.srtpProtectionProfile = server.state.srtpProtectionProfile := by
      unfold ClientHello.profile at hpicked
      split at hprofile
      · exact hprofile
      · rename_i protectionProfiles hlists
        rw [hlists] at hpicked
        exact Option.some.inj (hprofile.symm.trans hpicked)
    refine ⟨by simp, fun _ => ⟨hello, old, hfirst, hsuite, hfind, ?_⟩, fun p hp message hcarries =>
      (hnegotiated.names p hp message hcarries).congr (hsuite.trans hold.symm) hkept⟩
    rw [hkept]
    exact hpicked

theorem Negotiated.prepared {server : Server Secret Keys} (hnegotiated : Negotiated cfg server)
    {drawn : Drawn Secret SigningKey} {state : State Secret Keys} {pkts : List Packet}
    (hgenerates : Generates cfg server drawn state pkts) {next : Server Secret Keys}
    (hcache : next.cache = server.cache) (hflight : next.currentFlight = server.currentFlight)
    (hsuite : next.state.cipherSuite = state.cipherSuite)
    (hprofile : next.state.srtpProtectionProfile = state.srtpProtectionProfile)
    (hflights : next.flights =
      some (numberPackets cfg.initialEpoch state.handshakeSendSequence pkts).2)
    (hwritten : next.written = server.written) : Negotiated cfg next := by
  have hsame : state.cipherSuite = server.state.cipherSuite ∧
      state.srtpProtectionProfile = server.state.srtpProtectionProfile := by
    cases hgenerates <;> exact ⟨rfl, rfl⟩
  rw [hsame.1] at hsuite
  rw [hsame.2] at hprofile
  have hmade : ∀ q ∈ pkts, ∀ message, q.Carries message → Names server.state message := by
    cases hgenerates with
    | flight0 hzero => simp
    | flight2 htwo =>
        rw [List.forall_mem_singleton]
        intro message hcarries
        rw [carries_plainPacket hcarries]
        rintro answer ⟨⟩
    | flight4 hfour signature messages hlength hmessages hhello =>
        intro q hq message hcarries
        obtain ⟨made, hmem, rfl⟩ := List.mem_map.mp hq
        rw [carries_plainPacket hcarries]
        rintro answer rfl
        obtain ⟨hello, suite, -, hsome, -⟩ := hnegotiated.chosen (by rw [hfour]; simp)
        rw [hhello answer hmem]
        exact names_serverHello hsome _ rfl
    | flight6 hsix data =>
        rw [List.forall_mem_cons, List.forall_mem_singleton]
        constructor
        · rintro message ⟨h, hcontent, -⟩
          cases hcontent
        · rintro message ⟨h, hcontent, rfl⟩
          cases hcontent
          rintro answer ⟨⟩
  refine ⟨fun hzero => ?_, fun hlater => ?_, fun p hp message hcarries => ?_⟩
  · rw [hsuite, hprofile]
    exact hnegotiated.fresh (hflight.symm.trans hzero)
  · rw [hcache, hsuite, hprofile]
    exact hnegotiated.chosen fun hzero => hlater (hflight.trans hzero)
  · refine Names.congr ?_ (congrArg (Option.map CipherSuite.id) hsuite) hprofile
    rcases packets_prepared hflights hwritten hp with hnew | hold
    · obtain ⟨q, hq, hcarry⟩ := exists_of_mem_numberPackets hnew
      exact hmade q hq message ((hcarry message).mp hcarries)
    · exact hnegotiated.names p hold message hcarries

theorem Negotiated.effect (hknown : .unsupported ∉ cfg.localCipherSuites)
    {server next : Server Secret Keys} (hsound : server.cache.Sound)
    (hgrows : server.cache <+: next.cache) (hregular : server.Regular)
    (hnegotiated : Negotiated cfg server)
    (heffect : Effect crypto encrypt cfg mtu server next) (hlive : ¬ next.Over) :
    Negotiated cfg next := by
  cases heffect with
  | ended hover => exact absurd hover hlive
  | last hflight hstage => exact absurd hstage (hregular.last hflight)
  | skipped hstage hflights => exact absurd hflights (hregular.flights (by rw [hstage]; simp))
  | prepared drawn state pkts hstage hgenerate =>
      exact hnegotiated.prepared (generates_of_generate hgenerate) rfl rfl rfl rfl rfl rfl
  | sent pkts hstage hflights =>
      exact hnegotiated.frame hgrows rfl rfl rfl fun p hp => packets_sent hflights hp rfl rfl
  | greeted drawn hello state hflight hstage hheard hhandle =>
      exact hnegotiated.greeted hknown hsound hheard hhandle
  | answered number hello hflight hstage hheard hcookie hsame =>
      exact ⟨by simp, fun _ => hnegotiated.chosen (by rw [hflight]; simp), hnegotiated.names⟩
  | certified state hflight hstage hcertified =>
      exact hnegotiated.frame hgrows rfl hcertified.cipherSuite hcertified.srtpProtectionProfile
        fun _ hp => hp
  | queued state seq hflight hstage hcertified hauthenticated =>
      exact hnegotiated.frame hgrows rfl hcertified.cipherSuite hcertified.srtpProtectionProfile
        fun _ hp => hp
  | finished seq verifyData hstage hheard hauth =>
      refine ⟨by simp, fun _ => hnegotiated.chosen ?_, hnegotiated.names⟩
      rw [hregular.queue seq hstage]
      simp
  | alerted alert hrunning =>
      refine ⟨hnegotiated.fresh, fun hlater => ?_, fun p hp message hcarries => ?_⟩
      · obtain ⟨hello, suite, hheard, hrest⟩ := hnegotiated.chosen hlater
        exact ⟨hello, suite, hheard.mono hgrows, hrest⟩
      · rcases mem_packets_alerted hp with hold | rfl
        · exact hnegotiated.names p hold message hcarries
        · exact absurd hcarries not_carries_alertPacket
  | _ => exact hnegotiated.frame hgrows rfl rfl rfl fun _ hp => hp

end Negotiation

end Server

/-- **The negotiation.**  The server lists only cipher suites that it knows, as the parsing of
its configuration ensures.  In every run of the handshake that has not ended with an error and
is past flight 0: the cipher suite is the first of the client's first hello that the server
lists; so is the profile for SRTP, or there is none if the hello has no list; and every answer
written names the cipher suite, and in one extension the profile, or has no such extension if
there is none.  With the profiles that the transport sets, the profile with keys of 256 bits is
never chosen. -/
theorem server_negotiation {Secret SigningKey Keys : Type} {crypto : Crypto Secret SigningKey Keys}
    {encrypt : CipherSuite Keys → RecordLayerHeader → Bytes → Except Error Bytes}
    {cfg : HandshakeConfig SigningKey} {mtu : ℕ} (hknown : .unsupported ∉ cfg.localCipherSuites)
    {events : List (ServerEvent Secret SigningKey)} {final : Server Secret Keys}
    (hrun : Machine.run (Server.step crypto encrypt cfg mtu) .new events = some final)
    (hlive : ¬ final.Over) (hflight : final.currentFlight ≠ .flight0) :
    ∃ hello suite, final.cache.Says 0 (.clientHello hello) ∧
      final.state.cipherSuite.map CipherSuite.id = some suite ∧
      findMatching hello.cipherSuites cfg.localCipherSuites = some suite ∧
      hello.profile cfg.localSrtpProtectionProfiles = some final.state.srtpProtectionProfile ∧
      (cfg.localSrtpProtectionProfiles = settingEngineProfiles →
        final.state.srtpProtectionProfile ≠ .aeadAes256Gcm) ∧
      ∀ write ∈ final.written, ∀ p ∈ write.2, ∀ answer, p.Carries (.serverHello answer) →
        answer.cipherSuite = suite ∧
        answer.extensions.filterMap Extension.profiles =
          if final.state.srtpProtectionProfile = .unsupported then []
          else [[final.state.srtpProtectionProfile]] := by
  obtain ⟨-, -, hnegotiated⟩ := Server.run_effect (Server.Negotiated cfg) Server.negotiated_new
    (fun hsound _ hgrows hregular hnegotiated =>
      hnegotiated.effect hknown hsound hgrows hregular) hrun hlive
  obtain ⟨hello, suite, hheard, hsome, hfind, hprofile⟩ := hnegotiated.chosen hflight
  refine ⟨hello, suite, hheard, hsome, hfind, hprofile, ?_, ?_⟩
  · intro hset hlarge
    have hcases := profile_cases hprofile
    rw [hlarge, hset] at hcases
    revert hcases
    decide
  · intro write hwrite p hp answer hcarries
    have hmem : p ∈ final.packets :=
      List.mem_append_right _ (List.mem_flatMap.mpr ⟨write, hwrite, hp⟩)
    obtain ⟨hsuite, hprofiles⟩ := hnegotiated.names p hmem _ hcarries answer rfl
    exact ⟨Option.some.inj (hsuite.symm.trans hsome), hprofiles⟩

/-- The profiles of the hellos of the server in the sample handshake. -/
theorem sampleHandshake_profiles :
    (Machine.run (Server.step sampleCrypto (fun _ _ raw => .ok raw) sampleConfig 1200) .new
      sampleHandshake).map (fun server => (server.state.srtpProtectionProfile,
        server.written.flatMap fun write => write.2.filterMap fun p =>
          match p.message with
          | some (.serverHello answer) => some (answer.extensions.filterMap Extension.profiles)
          | _ => none)) =
      some (.aeadAes128Gcm, List.replicate 2 [[.aeadAes128Gcm]]) := by
  decide +kernel

/-- Of the two profiles of the client, the first is not listed by the server. -/
theorem server_negotiation_returned :
    ∃ final, Machine.run (Server.step sampleCrypto (fun _ _ raw => .ok raw) sampleConfig 1200) .new
        sampleHandshake = some final ∧ final.state.srtpProtectionProfile = .aeadAes128Gcm ∧
      ∃ hello suite, final.cache.Says 0 (.clientHello hello) ∧
        final.state.cipherSuite.map CipherSuite.id = some suite ∧
        findMatching hello.cipherSuites sampleConfig.localCipherSuites = some suite ∧
        hello.profile settingEngineProfiles = some .aeadAes128Gcm ∧
        ∀ write ∈ final.written, ∀ p ∈ write.2, ∀ answer, p.Carries (.serverHello answer) →
          answer.cipherSuite = suite ∧
            answer.extensions.filterMap Extension.profiles = [[.aeadAes128Gcm]] := by
  obtain ⟨final, hrun, hview⟩ := Option.map_eq_some_iff.mp sampleHandshake_returns
  obtain ⟨hstage, hflight⟩ := Prod.mk.inj hview
  have hprofiles := sampleHandshake_profiles
  rw [hrun] at hprofiles
  obtain ⟨hprofile, -⟩ := Prod.mk.inj (Option.some.inj hprofiles)
  obtain ⟨hello, suite, hheard, hsome, hfind, hchosen, -, hnames⟩ :=
    server_negotiation (by decide) hrun (by simp [Server.Over, hstage]) (by rw [hflight]; simp)
  rw [hprofile] at hchosen hnames
  exact ⟨final, hrun, hprofile, hello, suite, hheard, hsome, hfind, hchosen, hnames⟩

end AutonomiWebrtc.Dtls
