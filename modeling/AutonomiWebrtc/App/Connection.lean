import AutonomiWebrtc.App.Download
import AutonomiWebrtc.Library.Segments

/-!
# Which connection a download gets

`ensureConnected` promises a connection to the proxy it is called for, and reuses the one
it has.  Whether what it reuses is still open is not asked: the test is on the multiaddr
alone.
-/

namespace AutonomiWebrtc.App

variable {Target DataMap : Type}

/-! ## The promise -/

/-- A call of `ensureConnected`. -/
def Action.IsCall (action : Action Target) : Prop :=
  ∃ address, action = .called address

/-- A return from one. -/
def Action.IsReturn (action : Action Target) : Prop :=
  ∃ client, action = .returned client

/-- The client that `ensureConnected` returned last. -/
def LastReturned (trace : List (Action Target)) (client : Client) : Prop :=
  ∃ before after, trace = before ++ .returned client :: after ∧
    ∀ other, .returned other ∉ after

/-- What a call, after `before` and with `during` until it returns, owes: a client dialled
to its multiaddr, over a connection that had not closed when the call was made; and if the
connection returned last had closed, one that the call has dialled itself. -/
def Owed (multiaddr : String → Except String Target) (before : List (Action Target))
    (address : String) (during : List (Action Target)) (client : Client) : Prop :=
  client.multiaddr = address ∧
    (∃ target, multiaddr address = .ok target ∧
      .dialled target client.connection ∈ before ++ during) ∧
    .closed client.connection ∉ before ∧
    (∀ earlier, LastReturned before earlier → .closed earlier.connection ∈ before →
      ∃ target, .dialled target client.connection ∈ during)

/-- The last call of a trace may return this client. -/
def MayReturn (multiaddr : String → Except String Target) (trace : List (Action Target))
    (client : Client) : Prop :=
  ∀ before address during, trace = before ++ .called address :: during →
    (∀ action ∈ during, ¬ action.IsCall) → Owed multiaddr before address during client

/-- **The promise.**  Whatever `ensureConnected` returned along a trace, it owed. -/
def NeverStale (multiaddr : String → Except String Target) (trace : List (Action Target)) :
    Prop :=
  ∀ before client after, trace = before ++ .returned client :: after →
    MayReturn multiaddr before client

/-- What keeps the promise: no call finds a client for its multiaddr whose connection has
closed. -/
def findsOpen (page : Page Target) : Event → Bool
  | .wasmLoaded =>
      match page.phase, page.client with
      | .loadingWasm address _, some client =>
          client.multiaddr ≠ address || !page.closed.contains client.connection
      | _, _ => true
  | _ => true

variable {multiaddr : String → Except String Target} {lib : Upstream DataMap}

/-! ## Traces that grow -/

theorem neverStale_of_append {trace more : List (Action Target)}
    (hnever : NeverStale multiaddr (trace ++ more)) : NeverStale multiaddr trace := by
  rintro before client after rfl
  apply hnever before client (after ++ more)
  rw [List.append_assoc, List.cons_append]

theorem neverStale_concat {trace : List (Action Target)} {action : Action Target}
    (hnever : NeverStale multiaddr trace)
    (hreturn : ∀ client, action = .returned client → MayReturn multiaddr trace client) :
    NeverStale multiaddr (trace ++ [action]) := by
  intro before client after heq
  -- the return is the new action, or one of the old trace
  rcases List.eq_nil_or_concat after with rfl | ⟨after, last, rfl⟩
  · obtain ⟨rfl, hlast⟩ := List.append_inj' heq rfl
    exact hreturn client (List.cons.inj hlast).1
  · have hsplit : trace ++ [action] = before ++ .returned client :: after ++ [last] := by
      rw [heq]
      simp
    exact hnever before client after (List.append_inj_left' hsplit rfl)

/-- Only a return can break the promise. -/
theorem neverStale_append_of_notMem {trace more : List (Action Target)}
    (hnever : NeverStale multiaddr trace) (hmore : ∀ client, .returned client ∉ more) :
    NeverStale multiaddr (trace ++ more) := by
  induction more generalizing trace with
  | nil => rwa [List.append_nil]
  | cons action more ih =>
      rw [List.append_cons]
      apply ih
      · apply neverStale_concat hnever
        rintro client rfl
        exact absurd List.mem_cons_self (hmore client)
      · intro client hmem
        exact hmore client (List.mem_cons_of_mem _ hmem)

/-- The last call tells what may be returned. -/
theorem mayReturn_iff {before during : List (Action Target)} {address : String} {client : Client}
    (hduring : ∀ action ∈ during, ¬ action.IsCall) :
    MayReturn multiaddr (before ++ .called address :: during) client ↔
      Owed multiaddr before address during client := by
  constructor
  · intro hmay
    exact hmay before address during rfl hduring
  · -- a trace has one last call
    intro howed other again rest heq hrest
    obtain ⟨rfl, hcall, rfl⟩ :=
      Segments.eq_of_last heq ⟨_, rfl⟩ ⟨_, rfl⟩ hduring hrest
    cases hcall
    exact howed

/-! ## What the page knows of its connections -/

/-- The multiaddr of the call of `ensureConnected` under way, past its reuse test. -/
def Phase.callee : Phase Target → Option String
  | .stopping address _ => some address
  | .creating address _ => some address
  | .dialing address _ _ _ => some address
  | _ => none

/-- What holds of every page, reused connections apart. -/
structure Inv (multiaddr : String → Except String Target) (page : Page Target) : Prop where
  /-- The client was dialled to its multiaddr. -/
  cached : ∀ client, page.client = some client →
    ∃ target, multiaddr client.multiaddr = .ok target ∧
      .dialled target client.connection ∈ page.trace
  closed_iff : ∀ connection, .closed connection ∈ page.trace ↔ connection ∈ page.closed
  closed_lt : ∀ connection ∈ page.closed, connection < page.connections
  dialing : ∀ address args target node, page.phase = .dialing address args target node →
    multiaddr address = .ok target
  /-- The call under way is the last of the trace. -/
  calling : ∀ address, page.phase.callee = some address →
    ∃ before during, page.trace = before ++ .called address :: during ∧
      ∀ action ∈ during, ¬ action.IsCall

theorem inv_start : Inv multiaddr (start : Page Target) where
  cached := by simp [start]
  closed_iff := by simp [start]
  closed_lt := by simp [start]
  dialing := by simp [start]
  calling := by simp [start, Phase.callee]

/-- Between calls, and without news from the network, the trace only grows. -/
theorem Inv.grow {page next : Page Target} (hinv : Inv multiaddr page)
    {more : List (Action Target)} (htrace : next.trace = page.trace ++ more)
    (hmore : ∀ connection, .closed connection ∉ more) (hclient : next.client = page.client)
    (hclosed : next.closed = page.closed) (hconnections : next.connections = page.connections)
    (hphase : next.phase.callee = none) : Inv multiaddr next where
  cached := by
    intro client hcached
    obtain ⟨target, haddress, hmem⟩ := hinv.cached client (hclient ▸ hcached)
    rw [htrace]
    exact ⟨target, haddress, List.mem_append_left _ hmem⟩
  closed_iff := by
    intro connection
    rw [htrace, List.mem_append, hclosed, ← hinv.closed_iff connection]
    simp [hmore connection]
  closed_lt := by
    rw [hclosed, hconnections]
    exact hinv.closed_lt
  dialing := by
    intro address args target node hdialing
    rw [hdialing] at hphase
    cases hphase
  calling := by
    intro address hcallee
    rw [hphase] at hcallee
    cases hcallee

theorem inv_finish {page : Page Target} (hinv : Inv multiaddr page)
    (outcome : Except String Bytes) : Inv multiaddr (page.finish outcome) :=
  hinv.grow rfl (by simp) rfl rfl rfl rfl

theorem inv_useClient {page : Page Target} (hinv : Inv multiaddr page) (args : DownloadArgs)
    (client : Client) : Inv multiaddr (page.useClient args client) := by
  rcases useClient_cases page args client with ⟨address, alive, heq⟩ | ⟨message, heq⟩
  · rw [heq]
    exact hinv.grow rfl (by simp) rfl rfl rfl rfl
  · rw [heq]
    exact hinv.grow (List.append_assoc _ _ _) (by simp) rfl rfl rfl rfl

/-- A call that goes past the reuse test. -/
theorem inv_called {page : Page Target} (hinv : Inv multiaddr page) (address : String)
    {phase : Phase Target} (hcallee : phase.callee = some address)
    (hdialing : ∀ other args target node, phase ≠ .dialing other args target node) :
    Inv multiaddr { page.log [.called address] with phase := phase } where
  cached := by
    intro client hclient
    obtain ⟨target, haddress, hmem⟩ := hinv.cached client hclient
    exact ⟨target, haddress, List.mem_append_left _ hmem⟩
  closed_iff := by
    intro connection
    simpa [Page.log] using hinv.closed_iff connection
  closed_lt := hinv.closed_lt
  dialing := by
    intro other args target node hphase
    exact absurd hphase (hdialing other args target node)
  calling := by
    intro other hother
    obtain rfl : address = other := Option.some.inj (hcallee.symm.trans hother)
    exact ⟨page.trace, [], rfl, by simp⟩

theorem inv_ensureConnected {page : Page Target} (hinv : Inv multiaddr page)
    (hphase : page.phase.callee = none) (args : DownloadArgs) (address : String) :
    Inv multiaddr (page.ensureConnected args address) := by
  rcases ensureConnected_cases page args address with
    ⟨client, _, _, heq⟩ | ⟨client, _, _, heq⟩ | ⟨_, heq⟩
  · rw [heq]
    have hlog : Inv multiaddr (page.log [.called address]) :=
      hinv.grow rfl (by simp) rfl rfl rfl hphase
    exact inv_useClient hlog args client
  · rw [heq]
    exact inv_called hinv address rfl (by simp)
  · rw [heq]
    exact inv_called hinv address rfl (by simp)

theorem exists_call_append {trace more : List (Action Target)} {address : String}
    (hcall : ∃ before during, trace = before ++ .called address :: during ∧
      ∀ action ∈ during, ¬ action.IsCall)
    (hmore : ∀ action ∈ more, ¬ action.IsCall) :
    ∃ before during, trace ++ more = before ++ .called address :: during ∧
      ∀ action ∈ during, ¬ action.IsCall := by
  obtain ⟨before, during, rfl, hduring⟩ := hcall
  refine ⟨before, during ++ more, by simp, ?_⟩
  intro action hmem
  rcases List.mem_append.mp hmem with hmem | hmem
  · exact hduring action hmem
  · exact hmore action hmem

/-- A dial that succeeds: the new connection has the next number, so it is not among those
that have closed. -/
theorem inv_dialled {page : Page Target} (hinv : Inv multiaddr page) {address : String}
    {args : DownloadArgs} {target : Target} {node : ℕ}
    (hphase : page.phase = .dialing address args target node) (peerId : String) :
    Inv multiaddr (({ page with
      client := some ⟨address, node, page.connections, peerId⟩
      connections := page.connections + 1 } : Page Target).log
        [.dialled target page.connections]) where
  cached := by
    intro client hclient
    cases hclient
    exact ⟨target, hinv.dialing _ _ _ _ hphase, by simp [Page.log]⟩
  closed_iff := by
    intro connection
    simpa [Page.log] using hinv.closed_iff connection
  closed_lt := by
    intro connection hmem
    exact Nat.lt_succ_of_lt (hinv.closed_lt connection hmem)
  dialing := hinv.dialing
  calling := by
    intro other hother
    exact exists_call_append (hinv.calling other hother) (by simp [Action.IsCall])

/-- A connection closes, at any time. -/
theorem inv_closes {page : Page Target} (hinv : Inv multiaddr page) {connection : ℕ}
    (hlt : connection < page.connections) :
    Inv multiaddr { page.log [.closed connection] with
      closed := page.closed ++ [connection] } where
  cached := by
    intro client hclient
    obtain ⟨target, haddress, hmem⟩ := hinv.cached client hclient
    exact ⟨target, haddress, List.mem_append_left _ hmem⟩
  closed_iff := by
    intro other
    simp [Page.log, hinv.closed_iff other]
  closed_lt := by
    intro other hmem
    rcases List.mem_append.mp hmem with hmem | hmem
    · exact hinv.closed_lt other hmem
    · rw [List.mem_singleton.mp hmem]
      exact hlt
  dialing := hinv.dialing
  calling := by
    intro other hother
    exact exists_call_append (hinv.calling other hother) (by simp [Action.IsCall])

theorem inv_steps {page next : Page Target} {event : Event} (hinv : Inv multiaddr page)
    (hstep : Steps multiaddr lib page event next) : Inv multiaddr next := by
  cases hstep with
  | refused hphase hproxy => exact hinv
  | click hphase hproxy =>
      exact hinv.grow (List.append_nil _).symm (by simp) rfl rfl rfl rfl
  | @wasmLoaded address args hphase =>
      have hready : Inv multiaddr { page with wasmReady := true } :=
        ⟨hinv.cached, hinv.closed_iff, hinv.closed_lt, hinv.dialing, hinv.calling⟩
      apply inv_ensureConnected hready
      simp [hphase, Phase.callee]
  | wasmFailed message hphase hready => exact inv_finish hinv _
  | @stopped address args client hphase hclient =>
      refine ⟨by simp, hinv.closed_iff, hinv.closed_lt, by simp, ?_⟩
      intro other hother
      apply hinv.calling other
      rw [hphase]
      exact hother
  | malformed hphase haddress =>
      apply inv_finish
      exact ⟨hinv.cached, hinv.closed_iff, hinv.closed_lt, hinv.dialing, hinv.calling⟩
  | @created address args target hphase haddress =>
      refine ⟨hinv.cached, hinv.closed_iff, hinv.closed_lt, ?_, ?_⟩
      · intro other again aim node hdialing
        cases hdialing
        exact haddress
      · intro other hother
        apply hinv.calling other
        rw [hphase]
        exact hother
  | createFailed message hphase => exact inv_finish hinv _
  | @dialled address args target node peerId hphase =>
      exact inv_useClient (inv_dialled hinv hphase peerId) args _
  | dialFailed message hphase => exact inv_finish hinv _
  | retrieved hphase hadmits houtcome => exact inv_finish hinv _
  | @closes connection hlt hopen =>
      exact inv_closes hinv hlt

/-! ## The client is the one returned last -/

theorem lastReturned_append {trace more : List (Action Target)} {client : Client}
    (hlast : LastReturned trace client) (hmore : ∀ other, .returned other ∉ more) :
    LastReturned (trace ++ more) client := by
  obtain ⟨before, after, rfl, hafter⟩ := hlast
  refine ⟨before, after ++ more, by simp, ?_⟩
  intro other hmem
  rcases List.mem_append.mp hmem with hmem | hmem
  · exact hafter other hmem
  · exact hmore other hmem

theorem lastReturned_unique {trace : List (Action Target)} {client other : Client}
    (hlast : LastReturned trace client) (hother : LastReturned trace other) : client = other := by
  obtain ⟨before, after, rfl, hafter⟩ := hlast
  obtain ⟨_, rest, heq, hrest⟩ := hother
  have hkind : ∀ {actions : List (Action Target)}, (∀ other, .returned other ∉ actions) →
      ∀ action ∈ actions, ¬ action.IsReturn := by
    rintro actions hactions action hmem ⟨other, rfl⟩
    exact hactions other hmem
  obtain ⟨_, hsame, _⟩ :=
    Segments.eq_of_last heq ⟨_, rfl⟩ ⟨_, rfl⟩ (hkind hafter) (hkind hrest)
  cases hsame
  rfl

/-- Another client is being made. -/
def Phase.making : Phase Target → Bool
  | .creating _ _ => true
  | .dialing _ _ _ _ => true
  | _ => false

/-- The client of a page: none while another one is made, and the one returned last
outside the calls of `ensureConnected`. -/
structure Held (page : Page Target) : Prop where
  making : page.phase.making = true → page.client = none
  last : page.phase.callee = none → ∀ client, page.client = some client →
    LastReturned page.trace client

/-! ## Step by step -/

theorem exists_trace_useClient (page : Page Target) (args : DownloadArgs) (client : Client) :
    ∃ more, (page.useClient args client).trace = page.trace ++ .returned client :: more ∧
      ∀ other, .returned other ∉ more := by
  rcases useClient_cases page args client with ⟨address, alive, heq⟩ | ⟨message, heq⟩
  · rw [heq]
    exact ⟨[], rfl, by simp⟩
  · rw [heq]
    exact ⟨[.finished (.error message)], List.append_assoc _ _ _, by simp⟩

/-- **What a step adds to the trace.**  No return; a call that reuses the client; or the
return of a client just dialled. -/
theorem trace_of_steps {page next : Page Target} {event : Event}
    (hstep : Steps multiaddr lib page event next) :
    ∃ more, (∀ other, .returned other ∉ more) ∧
      ((next.trace = page.trace ++ more ∧ findsOpen page event = true) ∨
      (∃ client args, page.phase = .loadingWasm client.multiaddr args ∧
        page.client = some client ∧
        next.trace = page.trace ++ .called client.multiaddr :: .returned client :: more ∧
        findsOpen page event = !page.closed.contains client.connection) ∨
      (∃ address args target node peerId,
        page.phase = .dialing address args target node ∧
        next.trace = page.trace ++ .dialled target page.connections ::
          .returned ⟨address, node, page.connections, peerId⟩ :: more ∧
        findsOpen page event = true)) := by
  cases hstep with
  | refused hphase hproxy => exact ⟨[], by simp, .inl ⟨(List.append_nil _).symm, rfl⟩⟩
  | click hphase hproxy => exact ⟨[], by simp, .inl ⟨(List.append_nil _).symm, rfl⟩⟩
  | @wasmLoaded address args hphase =>
      rcases ensureConnected_cases { page with wasmReady := true } args address with
        ⟨client, hclient, rfl, heq⟩ | ⟨client, hclient, hother, heq⟩ | ⟨hclient, heq⟩
      · obtain ⟨more, htrace, hmore⟩ := exists_trace_useClient
          (({ page with wasmReady := true } : Page Target).log [.called client.multiaddr]) args
          client
        refine ⟨more, hmore, .inr (.inl ⟨client, args, hphase, hclient, ?_, ?_⟩)⟩
        · rw [heq, htrace]
          exact List.append_assoc _ _ _
        · have : page.client = some client := hclient
          simp [findsOpen, hphase, this]
      · refine ⟨[.called address], by simp, .inl ⟨by rw [heq]; rfl, ?_⟩⟩
        have : page.client = some client := hclient
        simp [findsOpen, hphase, this, hother]
      · refine ⟨[.called address], by simp, .inl ⟨by rw [heq]; rfl, ?_⟩⟩
        have : page.client = none := hclient
        simp [findsOpen, hphase, this]
  | wasmFailed message hphase hready => exact ⟨[.finished _], by simp, .inl ⟨rfl, rfl⟩⟩
  | stopped hphase hclient => exact ⟨[], by simp, .inl ⟨(List.append_nil _).symm, rfl⟩⟩
  | malformed hphase haddress => exact ⟨[.finished _], by simp, .inl ⟨rfl, rfl⟩⟩
  | created hphase haddress => exact ⟨[], by simp, .inl ⟨(List.append_nil _).symm, rfl⟩⟩
  | createFailed message hphase => exact ⟨[.finished _], by simp, .inl ⟨rfl, rfl⟩⟩
  | @dialled address args target node peerId hphase =>
      obtain ⟨more, htrace, hmore⟩ := exists_trace_useClient
        (({ page with
          client := some ⟨address, node, page.connections, peerId⟩
          connections := page.connections + 1 } : Page Target).log
            [.dialled target page.connections]) args ⟨address, node, page.connections, peerId⟩
      refine ⟨more, hmore, .inr (.inr ⟨address, args, target, node, peerId, hphase, ?_, rfl⟩)⟩
      rw [htrace]
      exact List.append_assoc _ _ _
  | dialFailed message hphase => exact ⟨[.finished _], by simp, .inl ⟨rfl, rfl⟩⟩
  | retrieved hphase hadmits houtcome => exact ⟨[.finished _], by simp, .inl ⟨rfl, rfl⟩⟩
  | closes hlt hopen => exact ⟨[.closed _], by simp, .inl ⟨rfl, rfl⟩⟩

/-- Outside the calls, the trace grows without a return. -/
theorem Held.grow {page next : Page Target} (hheld : Held page) {more : List (Action Target)}
    (htrace : next.trace = page.trace ++ more) (hmore : ∀ other, .returned other ∉ more)
    (hclient : next.client = page.client) (hphase : next.phase.making = false)
    (hbefore : page.phase.callee = none ∨ page.client = none) : Held next where
  making := by
    intro hmaking
    rw [hphase] at hmaking
    cases hmaking
  last := by
    intro _ client hcached
    rw [hclient] at hcached
    rw [htrace]
    rcases hbefore with hcallee | hnone
    · exact lastReturned_append (hheld.last hcallee client hcached) hmore
    · cases hnone.symm.trans hcached

theorem held_useClient {page : Page Target} {client : Client} (hclient : page.client = some client)
    (args : DownloadArgs) : Held (page.useClient args client) := by
  have hlast : ∀ other, page.client = some other →
      LastReturned (page.trace ++ [.returned client]) other := by
    intro other hother
    obtain rfl : client = other := Option.some.inj (hclient.symm.trans hother)
    exact ⟨page.trace, [], rfl, by simp⟩
  rcases useClient_cases page args client with ⟨address, alive, heq⟩ | ⟨message, heq⟩
  · rw [heq]
    refine ⟨by simp [Phase.making], ?_⟩
    intro _ other hother
    exact hlast other hother
  · rw [heq]
    refine ⟨by simp [Page.finish, Phase.making], ?_⟩
    intro _ other hother
    exact lastReturned_append (hlast other hother) (by simp)

theorem held_steps {page next : Page Target} {event : Event} (hheld : Held page)
    (hstep : Steps multiaddr lib page event next) : Held next := by
  cases hstep with
  | refused hphase hproxy => exact hheld
  | click hphase hproxy =>
      exact hheld.grow (List.append_nil _).symm (by simp) rfl rfl (.inl (by rw [hphase]; rfl))
  | @wasmLoaded address args hphase =>
      rcases ensureConnected_cases { page with wasmReady := true } args address with
        ⟨client, hclient, _, heq⟩ | ⟨client, _, _, heq⟩ | ⟨hclient, heq⟩
      · rw [heq]
        have hlog : (({ page with wasmReady := true } : Page Target).log
            [.called address]).client = some client := hclient
        exact held_useClient hlog args
      · rw [heq]
        exact ⟨by simp [Phase.making], by simp [Phase.callee]⟩
      · rw [heq]
        exact ⟨fun _ => hclient, by simp [Phase.callee]⟩
  | wasmFailed message hphase hready =>
      exact hheld.grow rfl (by simp) rfl rfl (.inl (by rw [hphase]; rfl))
  | stopped hphase hclient => exact ⟨fun _ => rfl, by simp [Phase.callee]⟩
  | malformed hphase haddress =>
      exact hheld.grow rfl (by simp) rfl rfl (.inr (hheld.making (by rw [hphase]; rfl)))
  | created hphase haddress =>
      exact ⟨fun _ => hheld.making (by rw [hphase]; rfl), by simp [Phase.callee]⟩
  | createFailed message hphase =>
      exact hheld.grow rfl (by simp) rfl rfl (.inr (hheld.making (by rw [hphase]; rfl)))
  | dialled peerId hphase => exact held_useClient rfl _
  | dialFailed message hphase =>
      exact hheld.grow rfl (by simp) rfl rfl (.inr (hheld.making (by rw [hphase]; rfl)))
  | retrieved hphase hadmits houtcome =>
      exact hheld.grow rfl (by simp) rfl rfl (.inl (by rw [hphase]; rfl))
  | closes hlt hopen =>
      refine ⟨hheld.making, ?_⟩
      intro hcallee client hclient
      exact lastReturned_append (hheld.last hcallee client hclient) (by simp)

theorem prefix_of_steps {page next : Page Target} {event : Event}
    (hstep : Steps multiaddr lib page event next) : page.trace <+: next.trace := by
  obtain ⟨more, _, ⟨htrace, _⟩ | ⟨_, _, _, _, htrace, _⟩ | ⟨_, _, _, _, _, _, htrace, _⟩⟩ :=
    trace_of_steps hstep
  all_goals
    rw [htrace]
    exact List.prefix_append _ _

/-- A reused client keeps the promise exactly if its connection is open. -/
theorem mayReturn_reused_iff {page : Page Target} (hinv : Inv multiaddr page) (hheld : Held page)
    {client : Client} {args : DownloadArgs}
    (hphase : page.phase = .loadingWasm client.multiaddr args)
    (hclient : page.client = some client) :
    MayReturn multiaddr (page.trace ++ [.called client.multiaddr]) client ↔
      client.connection ∉ page.closed := by
  rw [mayReturn_iff (by simp), ← hinv.closed_iff]
  constructor
  · intro howed
    exact howed.2.2.1
  · intro hopen
    refine ⟨rfl, ?_, hopen, ?_⟩
    · rw [List.append_nil]
      exact hinv.cached client hclient
    · -- the client returned last is this one
      intro earlier hearlier hclosed
      have hlast : LastReturned page.trace client := by
        apply hheld.last _ client hclient
        rw [hphase]
        rfl
      rw [lastReturned_unique hearlier hlast] at hclosed
      exact absurd hclosed hopen

/-- A client just dialled keeps the promise: its connection is a new one. -/
theorem mayReturn_dialled {page : Page Target} (hinv : Inv multiaddr page) {address : String}
    {args : DownloadArgs} {target : Target} {node : ℕ}
    (hphase : page.phase = .dialing address args target node) (peerId : String) :
    MayReturn multiaddr (page.trace ++ [.dialled target page.connections])
      ⟨address, node, page.connections, peerId⟩ := by
  obtain ⟨before, during, htrace, hduring⟩ := hinv.calling address (by rw [hphase]; rfl)
  -- numbers are given in order, so nothing with this one has closed
  have hnew : .closed page.connections ∉ before := by
    intro hmem
    have hclosed : .closed page.connections ∈ page.trace := by
      rw [htrace]
      exact List.mem_append_left _ hmem
    exact Nat.lt_irrefl _ (hinv.closed_lt _ ((hinv.closed_iff _).mp hclosed))
  rw [htrace, List.append_assoc, List.cons_append, mayReturn_iff]
  · exact ⟨rfl, ⟨target, hinv.dialing _ _ _ _ hphase, by simp⟩, hnew,
      fun _ _ _ => ⟨target, by simp⟩⟩
  · intro action hmem
    rcases List.mem_append.mp hmem with hmem | hmem
    · exact hduring action hmem
    · rw [List.mem_singleton.mp hmem]
      rintro ⟨_, hcall⟩
      cases hcall

/-- **A step under the condition** keeps the promise. -/
theorem neverStale_steps {page next : Page Target} {event : Event} (hinv : Inv multiaddr page)
    (hheld : Held page) (hnever : NeverStale multiaddr page.trace) (hfinds : findsOpen page event = true)
    (hstep : Steps multiaddr lib page event next) : NeverStale multiaddr next.trace := by
  -- both kinds of return come right after another action
  have hconcat : ∀ action client more,
      (∀ other, action ≠ .returned other) → (∀ other, .returned other ∉ more) →
      MayReturn multiaddr (page.trace ++ [action]) client →
      NeverStale multiaddr (page.trace ++ action :: .returned client :: more) := by
    intro action client more haction hmore hmay
    rw [List.append_cons, List.append_cons]
    apply neverStale_append_of_notMem _ hmore
    apply neverStale_concat
    · apply neverStale_concat hnever
      intro other heq
      exact absurd heq (haction other)
    · intro other heq
      cases heq
      exact hmay
  obtain ⟨more, hmore, ⟨htrace, _⟩ | ⟨client, _, hloading, hclient, htrace, hfound⟩ |
    ⟨address, args, target, node, peerId, hphase, htrace, _⟩⟩ := trace_of_steps hstep
  · rw [htrace]
    exact neverStale_append_of_notMem hnever hmore
  · rw [htrace]
    apply hconcat _ _ _ (by simp) hmore
    rw [mayReturn_reused_iff hinv hheld hloading hclient]
    rw [hfound] at hfinds
    simpa using hfinds
  · rw [htrace]
    exact hconcat _ _ _ (by simp) hmore (mayReturn_dialled hinv hphase peerId)

/-- **A step against the condition** breaks it. -/
theorem not_neverStale_of_steps {page next : Page Target} {event : Event}
    (hinv : Inv multiaddr page) (hheld : Held page) (hfinds : findsOpen page event = false)
    (hstep : Steps multiaddr lib page event next) : ¬ NeverStale multiaddr next.trace := by
  obtain ⟨more, _, ⟨_, hfound⟩ | ⟨client, _, hloading, hclient, htrace, hfound⟩ |
    ⟨_, _, _, _, _, _, _, hfound⟩⟩ := trace_of_steps hstep
  · rw [hfinds] at hfound
    cases hfound
  · intro hnever
    have hmay := hnever (page.trace ++ [.called client.multiaddr]) client more (by simp [htrace])
    rw [mayReturn_reused_iff hinv hheld hloading hclient] at hmay
    rw [hfinds] at hfound
    simp [hmay] at hfound
  · rw [hfinds] at hfound
    cases hfound

/-! ## Whole histories -/

theorem held_start : Held (start : Page Target) :=
  ⟨by simp [start, Phase.making], by simp [start]⟩

theorem inv_run {final : Page Target} {events : List Event}
    (hrun : Machine.run (step multiaddr lib) start events = some final) :
    Inv multiaddr final ∧ Held final := by
  refine Machine.run_invariant (fun page => Inv multiaddr page ∧ Held page) ?_
    ⟨inv_start, held_start⟩ hrun
  rintro page event next ⟨hinv, hheld⟩ hstep
  have hsteps := steps_of_step multiaddr lib hstep
  exact ⟨inv_steps hinv hsteps, held_steps hheld hsteps⟩

theorem prefix_run {state final : Page Target} {events : List Event}
    (hrun : Machine.run (step multiaddr lib) state events = some final) :
    state.trace <+: final.trace :=
  Machine.run_invariant (fun page => state.trace <+: page.trace)
    (fun _ _ _ hstarts hstep =>
      hstarts.trans (prefix_of_steps (steps_of_step multiaddr lib hstep)))
    (List.prefix_refl _) hrun

/-- **Connections that are reused.**  Along every history of downloads and closures,
whatever `ensureConnected` returns is connected to its multiaddr and had not closed when it
was called, exactly if no call finds a client for its multiaddr whose connection has
closed. -/
theorem ensureConnected_never_stale_iff (multiaddr : String → Except String Target)
    (lib : Upstream DataMap) {events : List Event} {final : Page Target}
    (hrun : run multiaddr lib events = some final) :
    NeverStale multiaddr final.trace ↔
      Machine.run (Machine.guard findsOpen (step multiaddr lib)) start events = some final := by
  constructor
  · intro hnever
    by_contra hguard
    -- the first call that finds a closed connection returns it, and the trace keeps that
    obtain ⟨first, event, rest, page, next, _, hfirst, hfinds, hstep, hrest⟩ :=
      Machine.exists_refused_of_run hrun hguard
    obtain ⟨hinv, hheld⟩ := inv_run (Machine.run_of_guard hfirst)
    apply not_neverStale_of_steps hinv hheld hfinds (steps_of_step multiaddr lib hstep)
    obtain ⟨more, hmore⟩ := prefix_run hrest
    rw [← hmore] at hnever
    exact neverStale_of_append hnever
  · intro hguard
    have hall : (Inv multiaddr final ∧ Held final) ∧ NeverStale multiaddr final.trace := by
      refine Machine.run_invariant
        (fun page => (Inv multiaddr page ∧ Held page) ∧ NeverStale multiaddr page.trace) ?_ ?_
        hguard
      · rintro page event next ⟨⟨hinv, hheld⟩, hnever⟩ hstep
        obtain ⟨hfinds, hstep⟩ := Machine.guard_eq_some.mp hstep
        have hsteps := steps_of_step multiaddr lib hstep
        exact ⟨⟨inv_steps hinv hsteps, held_steps hheld hsteps⟩,
          neverStale_steps hinv hheld hnever hfinds hsteps⟩
      · refine ⟨⟨inv_start, held_start⟩, ?_⟩
        intro before client after heq
        simp [start] at heq
    exact hall.2

/-- Two downloads over one connection. -/
def reusedOpen : List Event :=
  [sampleClick "/first", .wasmLoaded, .created, .dialled "peer", sampleRetrieved,
    sampleClick "/first", .wasmLoaded, sampleRetrieved, .closes 0]

theorem ensureConnected_never_stale_iff_reused :
    ∃ final, run sampleMultiaddr Sample.lib reusedOpen = some final ∧
      NeverStale sampleMultiaddr final.trace := by
  obtain ⟨final, hguard⟩ := Option.isSome_iff_exists.mp (show
    (Machine.run (Machine.guard findsOpen (step sampleMultiaddr Sample.lib)) start
      reusedOpen).isSome = true by decide +kernel)
  have hrun : run sampleMultiaddr Sample.lib reusedOpen = some final := Machine.run_of_guard hguard
  exact ⟨final, hrun, (ensureConnected_never_stale_iff sampleMultiaddr Sample.lib hrun).mpr hguard⟩

/-- The proxy closes the connection between two downloads. -/
def closedBetween : List Event :=
  [sampleClick "/first", .wasmLoaded, .created, .dialled "peer", sampleRetrieved, .closes 0,
    sampleClick "/first", .wasmLoaded, .retrieved [.dataMap (.exception "connection closed")]]

/-- The client of the first download. -/
def firstClient : Client :=
  ⟨"/first", 0, 0, "peer"⟩

/-- The second download is handed the closed connection, and fails without a dial. -/
theorem closed_connection_reused :
    ∃ final, run sampleMultiaddr Sample.lib closedBetween = some final ∧
      final.trace = [.called "/first", .dialled "/first" 0, .returned firstClient,
        .finished (.ok [105]), .closed 0, .called "/first", .returned firstClient,
        .finished (.error "connection closed")] ∧
      ¬ NeverStale sampleMultiaddr final.trace := by
  obtain ⟨final, hrun, htrace⟩ := Option.map_eq_some_iff.mp (show
    (run sampleMultiaddr Sample.lib closedBetween).map Page.trace =
      some [.called "/first", .dialled "/first" 0, .returned firstClient,
        .finished (.ok [105]), .closed 0, .called "/first", .returned firstClient,
        .finished (.error "connection closed")] by decide +kernel)
  refine ⟨final, hrun, htrace, ?_⟩
  intro hnever
  obtain ⟨_, _, hopen, _⟩ := hnever
    [.called "/first", .dialled "/first" 0, .returned firstClient, .finished (.ok [105]),
      .closed 0, .called "/first"] firstClient [.finished (.error "connection closed")] htrace
    [.called "/first", .dialled "/first" 0, .returned firstClient, .finished (.ok [105]),
      .closed 0] "/first" [] rfl (by simp)
  exact hopen (by decide)

end AutonomiWebrtc.App
