import AutonomiWebrtc.Address
import AutonomiWebrtc.Library.Machine
import AutonomiWebrtc.Retrieve.Process
import AutonomiWebrtc.Upstream.Sample

/-!
# The page: connecting and downloading

`app.js` keeps at most one client, the handle of a connection it dialled, and reuses it
for every download from the same proxy.  A download is a chain of awaits, `ensureWasm`,
`ensureConnected` (which may stop one libp2p node, create another and dial) and
`retrieve`; while it is under way `setBusy` keeps the buttons disabled, so downloads do
not overlap.  The events are

* `click`: a download button, with what the proxy field holds;
* `wasmLoaded`, `wasmFailed`: `init` settles;
* `stopped`: the `stop` of the node behind the client settles, either way;
* `created`, `createFailed`: `createLibp2p` settles;
* `dialled`, `dialFailed`: `dial` settles;
* `retrieved`: `retrieve` settles, after the behaviour of the proxy given with it;
* `closes`: the remote or the network closes a connection.

Nodes and connections are numbered in the order in which they come up.
-/

namespace AutonomiWebrtc.App

/-- What `connect` returns, with the multiaddr `ensureConnected` adds.  `getChunk` opens
its streams on the connection, `close` stops the node. -/
structure Client where
  multiaddr : String
  node : ℕ
  connection : ℕ
  peerId : String
  deriving DecidableEq

/-- Where the download under way is suspended. -/
inductive Phase (Target : Type)
  | idle
  | loadingWasm (multiaddr : String) (args : DownloadArgs)
  | stopping (multiaddr : String) (args : DownloadArgs)
  | creating (multiaddr : String) (args : DownloadArgs)
  | dialing (multiaddr : String) (args : DownloadArgs) (target : Target) (node : ℕ)
  /-- Inside `retrieve`; `alive` if the connection was open at its first `newStream`. -/
  | retrieving (address : Bytes) (alive : Bool)
  deriving DecidableEq

/-- What the page does that the network can see, and how its downloads end. -/
inductive Action (Target : Type)
  | called (multiaddr : String)
  | dialled (target : Target) (connection : ℕ)
  | returned (client : Client)
  | closed (connection : ℕ)
  | finished (outcome : Except String Bytes)
  deriving DecidableEq

/-- `state` of `app.js`, the download under way, and the world around it. -/
structure Page (Target : Type) where
  client : Option Client
  wasmReady : Bool
  phase : Phase Target
  /-- The nodes that run. -/
  running : List ℕ
  /-- The connections that have closed. -/
  closed : List ℕ
  nodes : ℕ
  connections : ℕ
  trace : List (Action Target)

/-- What the user and the environment let happen next. -/
inductive Event
  | click (args : DownloadArgs) (proxy : String)
  | wasmLoaded
  | wasmFailed (message : String)
  | stopped
  | created
  | createFailed (message : String)
  | dialled (peerId : String)
  | dialFailed (message : String)
  | retrieved (events : List Retrieve.Event)
  | closes (connection : ℕ)

variable {Target DataMap : Type}

/-- The page when it has loaded. -/
def start : Page Target where
  client := none
  wasmReady := false
  phase := .idle
  running := []
  closed := []
  nodes := 0
  connections := 0
  trace := []

/-- Append to the trace. -/
def Page.log (page : Page Target) (actions : List (Action Target)) : Page Target :=
  { page with trace := page.trace ++ actions }

/-- The end of `download`: the `catch` and `finally` blocks. -/
def Page.finish (page : Page Target) (outcome : Except String Bytes) : Page Target :=
  { page with phase := .idle, trace := page.trace ++ [.finished outcome] }

/-- `ensureConnected` returns, and `download` goes on to the first suspension of
`retrieve`. -/
def Page.useClient (page : Page Target) (args : DownloadArgs) (client : Client) : Page Target :=
  match (parseHexAddress args.address).run with
  | some (.ok address) =>
      { page.log [.returned client] with
        phase := .retrieving address (!page.closed.contains client.connection) }
  | some (.error error) => (page.log [.returned client]).finish (.error error.message)
  -- A panic traps the WASM module.
  | none => (page.log [.returned client]).finish (.error "unreachable")

/-- `ensureConnected`, up to its first suspension. -/
def Page.ensureConnected (page : Page Target) (args : DownloadArgs) (multiaddr : String) :
    Page Target :=
  match page.client with
  | some client =>
      -- the only test: whether the connection is open is not looked at
      if client.multiaddr = multiaddr then (page.log [.called multiaddr]).useClient args client
      else { page.log [.called multiaddr] with phase := .stopping multiaddr args }
  | none => { page.log [.called multiaddr] with phase := .creating multiaddr args }

/-- A behaviour of the proxy that the connection allows: on a closed one `newStream`
fails, and so does the first call of `getChunk`. -/
def admits (alive : Bool) : List Retrieve.Event → Bool
  | .dataMap (.exception _) :: _ => true
  | _ => alive

/-- How `retrieve` settles under a behaviour of the proxy, if it does. -/
def retrieveOutcome (lib : Upstream DataMap) (address : Bytes) (events : List Retrieve.Event) :
    Option (Except Retrieve.Failure Bytes) :=
  match Retrieve.run lib Retrieve.defaultConcurrency address events with
  | some process =>
      match process.phase with
      | .settled outcome => some outcome
      | _ => none
  | none => none

variable (multiaddr : String → Except String Target) (lib : Upstream DataMap)

/-- One step of the page, over the parser of multiaddrs and the library under the WASM
client. -/
def step (page : Page Target) : Event → Option (Page Target)
  | .click args proxy =>
      match page.phase with
      | .idle =>
          let address := jsTrim proxy
          -- Nothing starts without a multiaddr: an error is shown.
          if address = "" then some page
          else some { page with phase := .loadingWasm address args }
      | _ => none
  | .wasmLoaded =>
      match page.phase with
      | .loadingWasm address args =>
          some ({ page with wasmReady := true }.ensureConnected args address)
      | _ => none
  | .wasmFailed message =>
      match page.phase with
      | .loadingWasm _ _ => if page.wasmReady then none else some (page.finish (.error message))
      | _ => none
  | .stopped =>
      match page.phase, page.client with
      | .stopping address args, some client =>
          -- `.catch(() => {})`: a rejected `stop` is not told from a resolved one
          some { page with
            client := none
            running := page.running.erase client.node
            phase := .creating address args }
      | _, _ => none
  | .created =>
      match page.phase with
      | .creating address args =>
          -- `multiaddr(address)` throws after the node is up
          match multiaddr address with
          | .error message =>
              some ({ page with
                nodes := page.nodes + 1
                running := page.running ++ [page.nodes] }.finish (.error message))
          | .ok target =>
              some { page with
                nodes := page.nodes + 1
                running := page.running ++ [page.nodes]
                phase := .dialing address args target page.nodes }
      | _ => none
  | .createFailed message =>
      match page.phase with
      | .creating _ _ => some (page.finish (.error message))
      | _ => none
  | .dialled peerId =>
      match page.phase with
      | .dialing address args target node =>
          let client : Client := ⟨address, node, page.connections, peerId⟩
          some (({ page with
            client := some client
            connections := page.connections + 1 }.log
              [.dialled target page.connections]).useClient args client)
      | _ => none
  | .dialFailed message =>
      match page.phase with
      -- `connect` has no handler of its own: the node stays up
      | .dialing _ _ _ _ => some (page.finish (.error message))
      | _ => none
  | .retrieved events =>
      match page.phase with
      | .retrieving address alive =>
          if admits alive events then
            match retrieveOutcome lib address events with
            | some (.ok plaintext) => some (page.finish (.ok plaintext))
            | some (.error failure) => some (page.finish (.error failure.message))
            | none => none
          else none
      | _ => none
  | .closes connection =>
      if connection < page.connections ∧ connection ∉ page.closed then
        some { page.log [.closed connection] with closed := page.closed ++ [connection] }
      else none

/-- The transitions, one by one: every way in which `step` gives a next state. -/
inductive Steps (page : Page Target) : Event → Page Target → Prop
  | refused {args : DownloadArgs} {proxy : String} (hphase : page.phase = .idle)
      (hproxy : jsTrim proxy = "") : Steps page (.click args proxy) page
  | click {args : DownloadArgs} {proxy : String} (hphase : page.phase = .idle)
      (hproxy : jsTrim proxy ≠ "") :
      Steps page (.click args proxy) { page with phase := .loadingWasm (jsTrim proxy) args }
  | wasmLoaded {address : String} {args : DownloadArgs}
      (hphase : page.phase = .loadingWasm address args) :
      Steps page .wasmLoaded ({ page with wasmReady := true }.ensureConnected args address)
  | wasmFailed {address : String} {args : DownloadArgs} (message : String)
      (hphase : page.phase = .loadingWasm address args) (hready : page.wasmReady = false) :
      Steps page (.wasmFailed message) (page.finish (.error message))
  | stopped {address : String} {args : DownloadArgs} {client : Client}
      (hphase : page.phase = .stopping address args) (hclient : page.client = some client) :
      Steps page .stopped
        { page with
          client := none
          running := page.running.erase client.node
          phase := .creating address args }
  | malformed {address : String} {args : DownloadArgs} {message : String}
      (hphase : page.phase = .creating address args)
      (haddress : multiaddr address = .error message) :
      Steps page .created
        ({ page with
          nodes := page.nodes + 1
          running := page.running ++ [page.nodes] }.finish (.error message))
  | created {address : String} {args : DownloadArgs} {target : Target}
      (hphase : page.phase = .creating address args) (haddress : multiaddr address = .ok target) :
      Steps page .created
        { page with
          nodes := page.nodes + 1
          running := page.running ++ [page.nodes]
          phase := .dialing address args target page.nodes }
  | createFailed {address : String} {args : DownloadArgs} (message : String)
      (hphase : page.phase = .creating address args) :
      Steps page (.createFailed message) (page.finish (.error message))
  | dialled {address : String} {args : DownloadArgs} {target : Target} {node : ℕ}
      (peerId : String) (hphase : page.phase = .dialing address args target node) :
      Steps page (.dialled peerId)
        (({ page with
          client := some ⟨address, node, page.connections, peerId⟩
          connections := page.connections + 1 }.log
            [.dialled target page.connections]).useClient args
              ⟨address, node, page.connections, peerId⟩)
  | dialFailed {address : String} {args : DownloadArgs} {target : Target} {node : ℕ}
      (message : String) (hphase : page.phase = .dialing address args target node) :
      Steps page (.dialFailed message) (page.finish (.error message))
  | retrieved {address : Bytes} {alive : Bool} {events : List Retrieve.Event}
      {outcome : Except Retrieve.Failure Bytes} (hphase : page.phase = .retrieving address alive)
      (hadmits : admits alive events = true)
      (houtcome : retrieveOutcome lib address events = some outcome) :
      Steps page (.retrieved events) (page.finish (outcome.mapError Retrieve.Failure.message))
  | closes {connection : ℕ} (hlt : connection < page.connections)
      (hopen : connection ∉ page.closed) :
      Steps page (.closes connection)
        { page.log [.closed connection] with closed := page.closed ++ [connection] }

theorem steps_of_step {page next : Page Target} {event : Event}
    (hstep : step multiaddr lib page event = some next) : Steps multiaddr lib page event next := by
  cases event with
  | click args proxy =>
      simp only [step] at hstep
      split at hstep
      case h_1 hphase =>
        split at hstep
        case isTrue hproxy =>
          obtain rfl := Option.some.inj hstep
          exact .refused hphase hproxy
        case isFalse hproxy =>
          obtain rfl := Option.some.inj hstep
          exact .click hphase hproxy
      case h_2 => cases hstep
  | wasmLoaded =>
      simp only [step] at hstep
      split at hstep
      case h_1 address args hphase =>
        obtain rfl := Option.some.inj hstep
        exact .wasmLoaded hphase
      case h_2 => cases hstep
  | wasmFailed message =>
      simp only [step] at hstep
      split at hstep
      case h_1 address args hphase =>
        split at hstep
        case isTrue => cases hstep
        case isFalse hready =>
          obtain rfl := Option.some.inj hstep
          exact .wasmFailed message hphase (by simpa using hready)
      case h_2 => cases hstep
  | stopped =>
      simp only [step] at hstep
      split at hstep
      case h_1 address args client hphase hclient =>
        obtain rfl := Option.some.inj hstep
        exact .stopped hphase hclient
      case h_2 => cases hstep
  | created =>
      simp only [step] at hstep
      split at hstep
      case h_1 address args hphase =>
        split at hstep
        case h_1 message haddress =>
          obtain rfl := Option.some.inj hstep
          exact .malformed hphase haddress
        case h_2 target haddress =>
          obtain rfl := Option.some.inj hstep
          exact .created hphase haddress
      case h_2 => cases hstep
  | createFailed message =>
      simp only [step] at hstep
      split at hstep
      case h_1 address args hphase =>
        obtain rfl := Option.some.inj hstep
        exact .createFailed message hphase
      case h_2 => cases hstep
  | dialled peerId =>
      simp only [step] at hstep
      split at hstep
      case h_1 address args target node hphase =>
        obtain rfl := Option.some.inj hstep
        exact .dialled peerId hphase
      case h_2 => cases hstep
  | dialFailed message =>
      simp only [step] at hstep
      split at hstep
      case h_1 address args target node hphase =>
        obtain rfl := Option.some.inj hstep
        exact .dialFailed message hphase
      case h_2 => cases hstep
  | retrieved events =>
      simp only [step] at hstep
      split at hstep
      case h_1 address alive hphase =>
        split at hstep
        case isTrue hadmits =>
          split at hstep
          case h_1 plaintext houtcome =>
            obtain rfl := Option.some.inj hstep
            exact .retrieved hphase hadmits houtcome
          case h_2 failure houtcome =>
            obtain rfl := Option.some.inj hstep
            exact .retrieved hphase hadmits houtcome
          case h_3 => cases hstep
        case isFalse => cases hstep
      case h_2 => cases hstep
  | closes connection =>
      simp only [step] at hstep
      split at hstep
      case isTrue hopen =>
        obtain rfl := Option.some.inj hstep
        exact .closes hopen.1 hopen.2
      case isFalse => cases hstep

/-- A run of the page. -/
def run (events : List Event) : Option (Page Target) :=
  Machine.run (step multiaddr lib) start events

/-! ## The parts of a download, case by case -/

section Cases

variable (page : Page Target) (args : DownloadArgs)

/-- A use of a client ends in `retrieve`, or at once if the address is not one. -/
theorem useClient_cases (client : Client) :
    (∃ address alive, page.useClient args client =
      { page.log [.returned client] with phase := .retrieving address alive }) ∨
    (∃ message, page.useClient args client =
      (page.log [.returned client]).finish (.error message)) := by
  unfold Page.useClient
  split
  · exact .inl ⟨_, _, rfl⟩
  · exact .inr ⟨_, rfl⟩
  · exact .inr ⟨_, rfl⟩

/-- `ensureConnected` reuses its client, stops it, or has none. -/
theorem ensureConnected_cases (address : String) :
    (∃ client, page.client = some client ∧ client.multiaddr = address ∧
      page.ensureConnected args address = (page.log [.called address]).useClient args client) ∨
    (∃ client, page.client = some client ∧ client.multiaddr ≠ address ∧
      page.ensureConnected args address =
        { page.log [.called address] with phase := .stopping address args }) ∨
    (page.client = none ∧
      page.ensureConnected args address =
        { page.log [.called address] with phase := .creating address args }) := by
  unfold Page.ensureConnected
  split
  case h_1 client hclient =>
    split
    case isTrue hsame => exact .inl ⟨client, hclient, hsame, rfl⟩
    case isFalse hother => exact .inr (.inl ⟨client, hclient, hother, rfl⟩)
  case h_2 hclient => exact .inr (.inr ⟨hclient, rfl⟩)

end Cases

/-! ## A small page -/

/-- A parser that takes the multiaddrs of two proxies. -/
def sampleMultiaddr (address : String) : Except String String :=
  if address = "/first" ∨ address = "/second" then .ok address else .error "invalid multiaddr"

/-- A click for one file of the toy network, at the given proxy. -/
def sampleClick (proxy : String) : Event :=
  .click ⟨hex (Sample.name [0, 105]).bytes, "file.bin", ""⟩ proxy

/-- The file arrives. -/
def sampleRetrieved : Event :=
  .retrieved [.dataMap (.bytes [0, 105]), .chunk 0 (.bytes [105]), .resume 0, .join]

end AutonomiWebrtc.App
