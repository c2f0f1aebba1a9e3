import AutonomiWebrtc.App.Connection

/-!
# Which nodes run

`connect` creates a libp2p node, parses the multiaddr and dials; the node is stopped
through the client that `connect` returns.  Where `connect` throws there is no client, and
nobody is left to stop the node.
-/

namespace AutonomiWebrtc.App

variable {Target DataMap : Type}

/-- The nodes somebody can still stop: the one behind the client, or the one `connect` is
dialling with. -/
def owned : Phase Target → Option Client → List ℕ
  | .creating _ _, _ => []
  | .dialing _ _ _ node, _ => [node]
  | _, client => client.toList.map Client.node

/-- Nothing is left behind: between downloads, the nodes that run are exactly the one
behind the client, if there is one. -/
def LeavesNothing (page : Page Target) : Prop :=
  page.phase = .idle → page.running = page.client.toList.map Client.node

/-- What keeps it so: `connect` does not throw once it has created its node, neither over
the multiaddr nor at the dial. -/
def connects (multiaddr : String → Except String Target) (page : Page Target) : Event → Bool
  | .created =>
      match page.phase with
      | .creating address _ => (multiaddr address).isOk
      | _ => true
  | .dialFailed _ => false
  | _ => true

variable {multiaddr : String → Except String Target} {lib : Upstream DataMap}

theorem owned_useClient (page : Page Target) (args : DownloadArgs) (client : Client) :
    (page.useClient args client).running = page.running ∧
      owned (page.useClient args client).phase (page.useClient args client).client =
        page.client.toList.map Client.node := by
  rcases useClient_cases page args client with ⟨address, alive, heq⟩ | ⟨message, heq⟩
  · rw [heq]
    exact ⟨rfl, rfl⟩
  · rw [heq]
    exact ⟨rfl, rfl⟩

theorem running_ensureConnected {page : Page Target}
    (howned : page.running = page.client.toList.map Client.node) (args : DownloadArgs)
    (address : String) :
    (page.ensureConnected args address).running =
      owned (page.ensureConnected args address).phase
        (page.ensureConnected args address).client := by
  rcases ensureConnected_cases page args address with
    ⟨client, _, _, heq⟩ | ⟨client, _, _, heq⟩ | ⟨hclient, heq⟩
  · obtain ⟨hrunning, hafter⟩ := owned_useClient (page.log [.called address]) args client
    rw [heq, hrunning, hafter]
    exact howned
  · rw [heq]
    exact howned
  · rw [hclient] at howned
    rw [heq]
    exact howned

/-- **A step under the condition** loses no node. -/
theorem running_steps {page next : Page Target} {event : Event} (hheld : Held page)
    (howned : page.running = owned page.phase page.client)
    (hconnects : connects multiaddr page event = true)
    (hstep : Steps multiaddr lib page event next) :
    next.running = owned next.phase next.client := by
  cases hstep with
  | refused hphase hproxy => exact howned
  | click hphase hproxy =>
      rw [hphase] at howned
      exact howned
  | @wasmLoaded address args hphase =>
      rw [hphase] at howned
      exact @running_ensureConnected _ { page with wasmReady := true } howned args address
  | wasmFailed message hphase hready =>
      rw [hphase] at howned
      exact howned
  | @stopped address args client hphase hclient =>
      rw [hphase, hclient] at howned
      show page.running.erase client.node = []
      rw [howned]
      simp [owned]
  | malformed hphase haddress =>
      simp [connects, hphase, haddress, Except.isOk, Except.toBool] at hconnects
  | created hphase haddress =>
      rw [hphase] at howned
      show page.running ++ [page.nodes] = [page.nodes]
      rw [howned]
      rfl
  | createFailed message hphase =>
      have hclient : page.client = none := hheld.making (by rw [hphase]; rfl)
      rw [hphase] at howned
      show page.running = page.client.toList.map Client.node
      rw [hclient]
      exact howned
  | @dialled address args target node peerId hphase =>
      obtain ⟨hrunning, hafter⟩ := owned_useClient
        (({ page with
          client := some ⟨address, node, page.connections, peerId⟩
          connections := page.connections + 1 } : Page Target).log
            [.dialled target page.connections]) args ⟨address, node, page.connections, peerId⟩
      rw [hphase] at howned
      rw [hrunning, hafter]
      exact howned
  | dialFailed message hphase => cases hconnects
  | retrieved hphase hadmits houtcome =>
      rw [hphase] at howned
      exact howned
  | closes hlt hopen => exact howned

/-- **A step against the condition** ends the download and leaves the node. -/
theorem not_leavesNothing_of_steps {page next : Page Target} {event : Event} (hheld : Held page)
    (howned : page.running = owned page.phase page.client)
    (hconnects : connects multiaddr page event = false)
    (hstep : Steps multiaddr lib page event next) : ¬ LeavesNothing next := by
  cases hstep with
  | malformed hphase haddress =>
      have hclient : page.client = none := hheld.making (by rw [hphase]; rfl)
      rw [hphase] at howned
      intro hleaves
      have hrunning : page.running ++ [page.nodes] = page.client.toList.map Client.node :=
        hleaves rfl
      rw [hclient, howned] at hrunning
      cases hrunning
  | dialFailed message hphase =>
      have hclient : page.client = none := hheld.making (by rw [hphase]; rfl)
      rw [hphase] at howned
      intro hleaves
      have hrunning : page.running = page.client.toList.map Client.node := hleaves rfl
      rw [hclient, howned] at hrunning
      cases hrunning
  | created hphase haddress =>
      simp [connects, hphase, haddress, Except.isOk, Except.toBool] at hconnects
  | _ => cases hconnects

/-! ## Whole histories -/

theorem owned_run {final : Page Target} {events : List Event}
    (hrun : Machine.run (Machine.guard (connects multiaddr) (step multiaddr lib)) start events =
      some final) : Held final ∧ final.running = owned final.phase final.client := by
  refine Machine.run_invariant
    (fun page => Held page ∧ page.running = owned page.phase page.client) ?_
    ⟨held_start, rfl⟩ hrun
  rintro page event next ⟨hheld, howned⟩ hstep
  obtain ⟨hconnects, hstep⟩ := Machine.guard_eq_some.mp hstep
  have hsteps := steps_of_step multiaddr lib hstep
  exact ⟨held_steps hheld hsteps, running_steps hheld howned hconnects hsteps⟩

/-- **Nodes that are left behind.**  Along every history of downloads, each download leaves
exactly the node behind the client running, and none without a client, exactly if every
`connect` that creates a node goes on to return: no malformed multiaddr and no failed
dial. -/
theorem download_leaves_nothing_iff (multiaddr : String → Except String Target)
    (lib : Upstream DataMap) {events : List Event} {final : Page Target}
    (hrun : run multiaddr lib events = some final) :
    (∀ first rest page, events = first ++ rest → run multiaddr lib first = some page →
      LeavesNothing page) ↔
    Machine.run (Machine.guard (connects multiaddr) (step multiaddr lib)) start events =
      some final := by
  constructor
  · intro hleaves
    by_contra hguard
    -- the first `connect` that throws too late ends its download with the node running
    obtain ⟨first, event, rest, page, next, hevents, hfirst, hconnects, hstep, _⟩ :=
      Machine.exists_refused_of_run hrun hguard
    obtain ⟨hheld, howned⟩ := owned_run hfirst
    apply not_leavesNothing_of_steps hheld howned hconnects (steps_of_step multiaddr lib hstep)
    apply hleaves (first ++ [event]) rest
    · rw [hevents, List.append_assoc]
      rfl
    · apply Machine.run_append (Machine.run_of_guard hfirst)
      exact Machine.run_cons_eq_some.mpr ⟨next, hstep, rfl⟩
  · -- a beginning of a run under the condition is one too
    rintro hguard first rest page rfl hpage hphase
    obtain ⟨middle, hmiddle, _⟩ := Machine.exists_of_run_append hguard
    obtain rfl : middle = page := by
      have hsame : run multiaddr lib first = some middle := Machine.run_of_guard hmiddle
      rw [hpage] at hsame
      exact (Option.some.inj hsame).symm
    obtain ⟨_, howned⟩ := owned_run hmiddle
    rw [hphase] at howned
    exact howned

/-- Two proxies in turn: the node of the first is stopped. -/
def switchedProxy : List Event :=
  [sampleClick "/first", .wasmLoaded, .created, .dialled "peer", sampleRetrieved,
    sampleClick "/second", .wasmLoaded, .stopped, .created, .dialled "other", sampleRetrieved]

theorem download_leaves_nothing_iff_switched :
    ∃ final, run sampleMultiaddr Sample.lib switchedProxy = some final ∧
      ∀ first rest page, switchedProxy = first ++ rest →
        run sampleMultiaddr Sample.lib first = some page → LeavesNothing page := by
  obtain ⟨final, hguard⟩ := Option.isSome_iff_exists.mp (show
    (Machine.run (Machine.guard (connects sampleMultiaddr) (step sampleMultiaddr Sample.lib)) start
      switchedProxy).isSome = true by decide +kernel)
  have hrun : run sampleMultiaddr Sample.lib switchedProxy = some final :=
    Machine.run_of_guard hguard
  exact ⟨final, hrun, (download_leaves_nothing_iff sampleMultiaddr Sample.lib hrun).mpr hguard⟩

/-- One multiaddr that is none, and one proxy that does not answer. -/
def failedConnects : List Event :=
  [sampleClick "no multiaddr", .wasmLoaded, .created,
    sampleClick "/first", .wasmLoaded, .created, .dialFailed "dial failed"]

/-- Each leaves a node running that nothing refers to. -/
theorem failed_connects_leave_nodes :
    ∃ final, run sampleMultiaddr Sample.lib failedConnects = some final ∧
      final.phase = .idle ∧ final.client = none ∧ final.running = [0, 1] ∧
      ¬ LeavesNothing final := by
  obtain ⟨final, hrun, hfinal⟩ := Option.map_eq_some_iff.mp (show
    (run sampleMultiaddr Sample.lib failedConnects).map
      (fun page => (page.phase, page.client, page.running)) = some (.idle, none, [0, 1]) by
        decide +kernel)
  simp only [Prod.mk.injEq] at hfinal
  obtain ⟨hphase, hclient, hrunning⟩ := hfinal
  refine ⟨final, hrun, hphase, hclient, hrunning, ?_⟩
  intro hleaves
  have hnone := hleaves hphase
  rw [hclient, hrunning] at hnone
  cases hnone

end AutonomiWebrtc.App
