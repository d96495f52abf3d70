import Mathlib.Data.List.Sort
import Exo.Lib.Sequence
import Exo.Master.Hosts
import Exo.Shared.Apply

/-!
# Where the prefill of a decode instance is sent

The master picks a runner of a linked instance that has announced a prefill server. What it goes by
is `prefill_server_ports`, a mapping beside the statuses of the runners: a runner is entered when
it becomes ready with a port and removed when it shuts down. It points to live servers as long as
nothing else happens to a runner that is entered than that it runs, or is ready again with a port.
-/

namespace Exo

open Lib

/-- The endpoint, and the runner it was built from. -/
structure PrefillEndpoint where
  runnerId : RunnerId
  ip : String
  port : Nat
  deriving DecidableEq, Repr

/-- The string that is sent. -/
def PrefillEndpoint.url (e : PrefillEndpoint) : String := e.ip ++ ":" ++ toString e.port

/-! ## The choice of an endpoint -/

section Choice

variable (lib : GraphLibrary) (topology : Topology) (nodeNetwork : Dict NodeId NodeNetworkInfo)

/-- The first runner with a port and an address. -/
def firstEndpoint (prefillServerPorts : Dict RunnerId Nat) (decodeNode : NodeId) :
    List (NodeId × RunnerId) → Except PlacementError (Option PrefillEndpoint)
  | [] => .ok none
  | (nodeId, runnerId) :: rest =>
      match prefillServerPorts.get? runnerId with
      | none => firstEndpoint prefillServerPorts decodeNode rest
      | some port =>
          match findIpPrioritised lib decodeNode nodeId topology nodeNetwork true with
          | .error e => .error e
          | .ok none => firstEndpoint prefillServerPorts decodeNode rest
          | .ok (some ip) => .ok (some ⟨runnerId, ip, port⟩)

/-- The instances that prefill for another one. -/
def prefillSources (state : State) (decodeInstanceId : InstanceId) : List InstanceId :=
  ((state.instanceLinks.values.filter fun link => decodeInstanceId ∈ link.decodeInstances).flatMap
    (·.prefillInstances)).dedup.filter (· ≠ decodeInstanceId)

/-- `task_counts`. -/
def inFlightTasks (state : State) (srcId : InstanceId) : Nat :=
  state.tasks.values.countP fun task => task.instanceId = srcId ∧ task.taskStatus.inFlight

/-- `_prefill_endpoint_for`; `setOrder` is the order in which the set of sources is listed. -/
def prefillEndpointFor (setOrder : List InstanceId → List InstanceId) (state : State)
    (decodeInstanceId : InstanceId) : Except PlacementError (Option PrefillEndpoint) :=
  match state.instances.get? decodeInstanceId with
  | none => .ok none
  | some decode =>
      match decode.shardAssignments.nodeToRunner.keys.head? with
      | none => .ok none
      | some decodeNode =>
          let sources := (setOrder (prefillSources state decodeInstanceId)).insertionSort
            fun a b => inFlightTasks state a ≤ inFlightTasks state b
          firstEndpoint lib topology nodeNetwork state.prefillServerPorts decodeNode
            (sources.flatMap fun srcId =>
              match state.instances.get? srcId with
              | none => []
              | some inst => inst.shardAssignments.nodeToRunner.entries)

variable {lib topology nodeNetwork}

theorem firstEndpoint_port {ports : Dict RunnerId Nat} {decodeNode : NodeId}
    {candidates : List (NodeId × RunnerId)} {e : PrefillEndpoint}
    (h : firstEndpoint lib topology nodeNetwork ports decodeNode candidates = .ok (some e)) :
    ports.get? e.runnerId = some e.port := by
  induction candidates with
  | nil => cases h
  | cons candidate rest ih =>
      obtain ⟨nodeId, runnerId⟩ := candidate
      rw [firstEndpoint] at h
      cases hport : ports.get? runnerId with
      | none =>
          rw [hport] at h
          exact ih h
      | some port =>
          rw [hport] at h
          cases hip : findIpPrioritised lib decodeNode nodeId topology nodeNetwork true with
          | error err =>
              rw [hip] at h
              cases h
          | ok ip =>
              rw [hip] at h
              cases ip with
              | none => exact ih h
              | some ip =>
                  obtain rfl := Option.some.inj (Except.ok.inj h)
                  exact hport

/-- The endpoint is that of a runner with an entry. -/
theorem prefillEndpointFor_port {setOrder : List InstanceId → List InstanceId} {state : State}
    {decodeInstanceId : InstanceId} {e : PrefillEndpoint}
    (h : prefillEndpointFor lib topology nodeNetwork setOrder state decodeInstanceId
      = .ok (some e)) :
    state.prefillServerPorts.get? e.runnerId = some e.port := by
  unfold prefillEndpointFor at h
  cases hdecode : state.instances.get? decodeInstanceId with
  | none =>
      rw [hdecode] at h
      cases h
  | some decode =>
      rw [hdecode] at h
      dsimp only at h
      cases hnode : decode.shardAssignments.nodeToRunner.keys.head? with
      | none =>
          rw [hnode] at h
          cases h
      | some decodeNode =>
          rw [hnode] at h
          exact firstEndpoint_port h

end Choice

/-! ## The history of a runner -/

/-- What the most recent `RunnerReady` of a runner carried. -/
def lastReady (runnerId : RunnerId) (events : List Event) : Option (Option Nat) :=
  (events.filterMap fun e =>
    match e.body with
    | .runnerStatusUpdated rid (.ready port) => if rid = runnerId then some port else none
    | _ => none).getLast?

/-- The runner is ready or running, and said it has this port when it last became ready. -/
structure Serves (events : List Event) (runnerId : RunnerId) (port : Nat) : Prop where
  status : (∃ p, (foldEvents events).runners.get? runnerId = some (.ready p))
    ∨ (foldEvents events).runners.get? runnerId = some .running
  announced : lastReady runnerId events = some (some port)

/-- Every entry is that of a live server. -/
def PortsLive (events : List Event) : Prop :=
  ∀ runnerId port, (foldEvents events).prefillServerPorts.get? runnerId = some port →
    Serves events runnerId port

/--
A runner that is entered runs, becomes ready with a port, or shuts down. Any other status is for
runners that are not entered.
-/
def KeepsPorts (state : State) (e : Event) : Prop :=
  match e.body with
  | .runnerStatusUpdated _ (.ready (some _)) => True
  | .runnerStatusUpdated _ .running => True
  | .runnerStatusUpdated _ .shutdown => True
  | .runnerStatusUpdated runnerId _ => state.prefillServerPorts.get? runnerId = none
  | _ => True

/-- Only a status says anything about a runner. -/
theorem apply_runners (state : State) {body : EventBody}
    (h : ∀ runnerId status, body ≠ .runnerStatusUpdated runnerId status) :
    (body.apply state).runners = state.runners
      ∧ (body.apply state).prefillServerPorts = state.prefillServerPorts := by
  cases body with
  | runnerStatusUpdated runnerId status => exact absurd rfl (h runnerId status)
  | taskStatusUpdated taskId status =>
      simp only [EventBody.apply, applyTaskStatusUpdated]
      split <;> exact ⟨rfl, rfl⟩
  | taskFailed taskId errorType errorMessage =>
      simp only [EventBody.apply, applyTaskFailed]
      split <;> exact ⟨rfl, rfl⟩
  | _ => exact ⟨rfl, rfl⟩

variable {runnerId : RunnerId}

theorem lastReady_snoc_of_ne {events : List Event} {e : Event}
    (h : ∀ port, e.body ≠ .runnerStatusUpdated runnerId (.ready port)) :
    lastReady runnerId (events ++ [e]) = lastReady runnerId events := by
  have hnone : (match e.body with
      | .runnerStatusUpdated rid (.ready port) => if rid = runnerId then some port else none
      | _ => none) = none := by
    split
    · rename_i rid port hbody
      refine if_neg fun heq => ?_
      subst heq
      exact h port hbody
    · rfl
  rw [lastReady, List.filterMap_append, List.filterMap_cons, hnone, List.filterMap_nil,
    List.append_nil, lastReady]

theorem lastReady_snoc {events : List Event} {e : Event}
    {port : Option Nat} (h : e.body = .runnerStatusUpdated runnerId (.ready port)) :
    lastReady runnerId (events ++ [e]) = some port := by
  simp [lastReady, h]

section Step

variable {events : List Event} {e : Event}

variable {status : RunnerStatus}

/-- What happens to one runner leaves the others alone. -/
theorem portsLive_snoc_status_iff
    (he : e.body = .runnerStatusUpdated runnerId status) (h : PortsLive events) :
    PortsLive (events ++ [e]) ↔
      ∀ port, (applyRunnerStatusUpdated runnerId status (foldEvents events)).prefillServerPorts.get?
        runnerId = some port → Serves (events ++ [e]) runnerId port := by
  have hfold : foldEvents (events ++ [e])
      = applyRunnerStatusUpdated runnerId status (foldEvents events) := by
    rw [foldEvents_append, eventApply, he, EventBody.apply]
  constructor
  · intro h' port hport
    exact h' runnerId port (by rw [hfold]; exact hport)
  · intro hone rid port hport
    rw [hfold] at hport
    by_cases hrid : rid = runnerId
    · subst hrid
      exact hone port hport
    · have hothers : (applyRunnerStatusUpdated runnerId status (foldEvents events)).runners.get? rid
            = (foldEvents events).runners.get? rid
          ∧ (applyRunnerStatusUpdated runnerId status
              (foldEvents events)).prefillServerPorts.get? rid
            = (foldEvents events).prefillServerPorts.get? rid := by
        unfold applyRunnerStatusUpdated
        split
        · exact ⟨Dict.get?_erase_ne _ hrid, Dict.get?_erase_ne _ hrid⟩
        · exact ⟨Dict.get?_set_ne _ _ hrid, Dict.get?_set_ne _ _ hrid⟩
        · exact ⟨Dict.get?_set_ne _ _ hrid, rfl⟩
      obtain ⟨hstatus, hannounced⟩ := h rid port (by rw [← hothers.2]; exact hport)
      refine ⟨?_, ?_⟩
      · rw [hfold, hothers.1]
        exact hstatus
      · rw [lastReady_snoc_of_ne, hannounced]
        intro p hbody
        rw [he, EventBody.runnerStatusUpdated.injEq] at hbody
        exact hrid hbody.1.symm

/-- A status that leaves the port of a runner, and is neither ready nor running. -/
theorem portsLive_snoc_idle_iff
    (he : e.body = .runnerStatusUpdated runnerId status) (h : PortsLive events)
    (hready : ∀ port, status ≠ .ready (some port)) (hrunning : status ≠ .running)
    (hshutdown : status ≠ .shutdown) :
    PortsLive (events ++ [e]) ↔ (foldEvents events).prefillServerPorts.get? runnerId = none := by
  have happly : applyRunnerStatusUpdated runnerId status (foldEvents events)
      = { foldEvents events with
          runners := (foldEvents events).runners.set runnerId status } := by
    unfold applyRunnerStatusUpdated
    split
    · exact absurd rfl hshutdown
    · exact absurd rfl (hready _)
    · rfl
  rw [portsLive_snoc_status_iff he h, happly]
  dsimp only
  constructor
  · intro hone
    cases hport : (foldEvents events).prefillServerPorts.get? runnerId with
    | none => rfl
    | some port =>
        exfalso
        obtain ⟨hstatus, hannounced⟩ := hone port hport
        rw [foldEvents_append, eventApply, he, EventBody.apply, happly] at hstatus
        simp only [Dict.get?_set_self, Option.some.injEq, hrunning, or_false] at hstatus
        -- it is ready, without a port
        obtain ⟨p, rfl⟩ := hstatus
        rw [lastReady_snoc he] at hannounced
        exact hready port (by rw [Option.some.inj hannounced])
  · intro hnone port hport
    rw [hnone] at hport
    cases hport

/-- **An event keeps all entries live exactly when it leaves no entry behind.** -/
theorem portsLive_snoc_iff (h : PortsLive events) :
    PortsLive (events ++ [e]) ↔ KeepsPorts (foldEvents events) e := by
  by_cases hbody : ∀ runnerId status, e.body ≠ .runnerStatusUpdated runnerId status
  · -- the event is not about a runner
    obtain ⟨hrunners, hports⟩ := apply_runners (foldEvents events) hbody
    have hkeeps : KeepsPorts (foldEvents events) e := by
      unfold KeepsPorts
      split <;> first | trivial | (rename_i hb; exact absurd hb (hbody _ _))
    refine iff_of_true (fun rid port hport => ?_) hkeeps
    rw [foldEvents_append, eventApply, hports] at hport
    obtain ⟨hstatus, hannounced⟩ := h rid port hport
    refine ⟨?_, ?_⟩
    · rw [foldEvents_append, eventApply, hrunners]
      exact hstatus
    · rw [lastReady_snoc_of_ne fun p => hbody rid (.ready p), hannounced]
  · obtain ⟨runnerId, status, he⟩ : ∃ runnerId status,
        e.body = .runnerStatusUpdated runnerId status := by
      simpa only [ne_eq, not_forall, not_not] using hbody
    cases status with
    | shutdown =>
        rw [portsLive_snoc_status_iff he h]
        refine iff_of_true (fun port hport => ?_) (by rw [KeepsPorts, he]; trivial)
        simp [applyRunnerStatusUpdated] at hport
    | running =>
        rw [portsLive_snoc_status_iff he h]
        refine iff_of_true (fun port hport => ⟨.inr ?_, ?_⟩) (by rw [KeepsPorts, he]; trivial)
        · rw [foldEvents_append, eventApply, he]
          exact Dict.get?_set_self _ _ _
        · rw [lastReady_snoc_of_ne (by rw [he]; exact fun p hp => by cases hp)]
          exact (h runnerId port hport).announced
    | ready port =>
        cases port with
        | some port =>
            rw [portsLive_snoc_status_iff he h]
            refine iff_of_true (fun p hp => ?_) (by rw [KeepsPorts, he]; trivial)
            have hport : port = p := by simpa [applyRunnerStatusUpdated] using hp
            refine ⟨.inl ⟨some port, ?_⟩, ?_⟩
            · rw [foldEvents_append, eventApply, he]
              exact Dict.get?_set_self _ _ _
            · rw [lastReady_snoc he, hport]
        | none =>
            rw [portsLive_snoc_idle_iff he h (by simp) (by simp) (by simp), KeepsPorts, he]
    | _ => rw [portsLive_snoc_idle_iff he h (by simp) (by simp) (by simp), KeepsPorts, he]

end Step

/-- **Every entry is that of a live server exactly as long as no event leaves one behind.** -/
theorem portsLive_throughout_iff (events : List Event) :
    (∀ k, PortsLive (events.take k)) ↔
      ∀ k e, events[k]? = some e → KeepsPorts (foldEvents (events.take k)) e := by
  have hnil : PortsLive [] := fun _ _ h => by cases h
  exact forall_take_iff hnil (fun _ _ => portsLive_snoc_iff) events

/--
**Prefill is only sent to live servers**, in every state of a log whose events leave no entry
behind.
-/
theorem prefillEndpointFor_serves {events : List Event}
    (hkeeps : ∀ k e, events[k]? = some e → KeepsPorts (foldEvents (events.take k)) e)
    {k : Nat} {lib : GraphLibrary} {topology : Topology}
    {nodeNetwork : Dict NodeId NodeNetworkInfo} {setOrder : List InstanceId → List InstanceId}
    {decodeInstanceId : InstanceId} {endpoint : PrefillEndpoint}
    (h : prefillEndpointFor lib topology nodeNetwork setOrder (foldEvents (events.take k))
      decodeInstanceId = .ok (some endpoint)) :
    Serves (events.take k) endpoint.runnerId endpoint.port :=
  (portsLive_throughout_iff events).mpr hkeeps k _ _ (prefillEndpointFor_port h)

/-- An instance of one runner, which has the number of the instance and its node. -/
def loneRunner (n : Nat) : Instance where
  instanceId := n
  shardAssignments :=
    { modelId := 7
      runnerToShard := (Dict.empty).set n ⟨7, 0, 1, 0, 2⟩
      nodeToRunner := (Dict.empty).set n n
      runnersExist := by
        intro r hr
        rw [Dict.values_set_of_new (by simp [Dict.keys]), Dict.values_empty, List.nil_append,
          List.mem_singleton] at hr
        rw [hr, Dict.get?_set_self]
        rfl }

/-- Instance 2 prefills for instance 1, and its runner serves on port 5000. -/
def servingLog : List Event :=
  [⟨0, .instanceCreated (loneRunner 1)⟩, ⟨1, .instanceCreated (loneRunner 2)⟩,
    ⟨2, .instanceLinkCreated ⟨1, [2], [1]⟩⟩, ⟨3, .runnerStatusUpdated 2 .warmingUp⟩,
    ⟨4, .runnerStatusUpdated 2 (.ready (some 5000))⟩, ⟨5, .runnerStatusUpdated 2 .running⟩]

/-- Node 1 reaches node 2. -/
def reaching : Topology where
  nodes := [1, 2]
  connections := [⟨1, 2, .socket ⟨.ip4, "10.0.0.2", ""⟩⟩]
  nodup := by decide
  endpoints := by decide

theorem prefillEndpointFor_serves_servingLog :
    prefillEndpointFor .search reaching .empty id (foldEvents servingLog) 1
        = .ok (some ⟨2, "10.0.0.2", 5000⟩)
      ∧ Serves servingLog 2 5000 := by
  have hchosen : prefillEndpointFor .search reaching .empty id (foldEvents servingLog) 1
      = .ok (some ⟨2, "10.0.0.2", 5000⟩) := by decide
  refine ⟨hchosen, ?_⟩
  have hkeeps : ∀ k e, servingLog[k]? = some e → KeepsPorts (foldEvents (servingLog.take k)) e := by
    intro k e hk
    match k with
    | 0 | 1 | 2 | 4 | 5 =>
        obtain rfl := Option.some.inj hk
        trivial
    | 3 =>
        obtain rfl := Option.some.inj hk
        exact rfl
    | k + 6 => cases hk
  exact prefillEndpointFor_serves (k := 6) hkeeps hchosen

/-- A runner that failed is still sent to. -/
theorem not_serves_failed : ¬ ∀ (events : List Event) (lib : GraphLibrary) (topology : Topology)
    (nodeNetwork : Dict NodeId NodeNetworkInfo) (setOrder : List InstanceId → List InstanceId)
    (decodeInstanceId : InstanceId) (endpoint : PrefillEndpoint),
    (∀ l, (setOrder l).Perm l) →
    prefillEndpointFor lib topology nodeNetwork setOrder (foldEvents events) decodeInstanceId
      = .ok (some endpoint) → Serves events endpoint.runnerId endpoint.port := by
  intro h
  have hchosen : prefillEndpointFor .search reaching .empty id
      (foldEvents (servingLog ++ [⟨6, .runnerStatusUpdated 2 (.failed none)⟩])) 1
      = .ok (some ⟨2, "10.0.0.2", 5000⟩) := by decide
  obtain ⟨hready | hrunning, -⟩ := h _ _ _ _ _ _ _ (fun l => .refl l) hchosen
  · obtain ⟨p, hready⟩ := hready
    cases hready
  · cases hrunning

end Exo
