import Exo.Cluster.Ledger
import Exo.Master.PrefillRouting

/-!
# Links between instances

A link is set by a client, and pruned when one of its instances goes. The pruning keeps every link
well formed. Setting one does when the instances it names are there, on both sides, by the time the
event of the link is logged: the master only removes what is named twice.
-/

namespace Exo

open Lib (Dict Machine)

/-- Both sides of a link are non-empty, without duplicates, and name instances there are. -/
structure InstanceLink.WellFormed (instances : Dict InstanceId Instance) (link : InstanceLink) :
    Prop where
  prefillSome : link.prefillInstances ≠ []
  decodeSome : link.decodeInstances ≠ []
  prefillNodup : link.prefillInstances.Nodup
  decodeNodup : link.decodeInstances.Nodup
  present : ∀ i ∈ link.prefillInstances ++ link.decodeInstances, (instances.get? i).isSome

def State.LinksWellFormed (state : State) : Prop :=
  ∀ linkId link, state.instanceLinks.get? linkId = some link → link.WellFormed state.instances

/-- A link that is created names no instance twice. -/
def EventBody.LinksOnce : EventBody → Prop
  | .instanceLinkCreated link => link.prefillInstances.Nodup ∧ link.decodeInstances.Nodup
  | _ => True

/-- A link that is created has both sides, with instances there are. -/
def EventBody.LinksPresent (instances : Dict InstanceId Instance) : EventBody → Prop
  | .instanceLinkCreated link => link.prefillInstances ≠ [] ∧ link.decodeInstances ≠ []
      ∧ ∀ i ∈ link.prefillInstances ++ link.decodeInstances, (instances.get? i).isSome
  | _ => True

instance (instances : Dict InstanceId Instance) :
    (body : EventBody) → Decidable (body.LinksPresent instances)
  | .instanceLinkCreated link =>
      inferInstanceAs (Decidable (link.prefillInstances ≠ [] ∧ link.decodeInstances ≠ []
        ∧ ∀ i ∈ link.prefillInstances ++ link.decodeInstances, (instances.get? i).isSome))
  | .testEvent | .taskCreated .. | .taskStatusUpdated .. | .taskFailed .. | .taskDeleted _
  | .taskAcknowledged _ | .instanceCreated _ | .instanceDeleted _ | .instanceLinkDeleted _
  | .runnerStatusUpdated .. | .nodeTimedOut _ | .nodeGatheredInfo .. | .nodeDownloadProgress _
  | .chunkGenerated _ | .inputChunkReceived .. | .tracesCollected .. | .tracesMerged _ =>
      isTrue trivial

namespace State

variable {state : State}

/-- What is pruned stays well formed. -/
theorem LinksWellFormed.deleted (h : state.LinksWellFormed) (instanceId : InstanceId) :
    (applyInstanceDeleted instanceId state).LinksWellFormed := by
  intro linkId link hlink
  simp only [applyInstanceDeleted] at hlink ⊢
  rw [Dict.get?_filter, Dict.get?_mapValues, Option.filter_eq_some_iff, Option.map_eq_some_iff]
    at hlink
  obtain ⟨⟨whole, hwhole, rfl⟩, hsome⟩ := hlink
  obtain ⟨hprefill, hdecode⟩ := of_decide_eq_true hsome
  obtain ⟨-, -, hprefillNodup, hdecodeNodup, hpresent⟩ := h linkId whole hwhole
  refine ⟨hprefill, hdecode, hprefillNodup.filter _, hdecodeNodup.filter _, fun i hi => ?_⟩
  have hi : i ∈ whole.prefillInstances ++ whole.decodeInstances ∧ i ≠ instanceId := by
    simpa [InstanceLink.without, or_and_right] using hi
  rw [Dict.get?_erase_ne _ hi.2]
  exact hpresent i hi.1

/-- **An event keeps the links well formed exactly when the links it creates are.** -/
theorem linksWellFormed_apply_iff {body : EventBody} (h : state.LinksWellFormed)
    (honce : body.LinksOnce) :
    (body.apply state).LinksWellFormed ↔ body.LinksPresent state.instances := by
  cases body with
  | instanceLinkCreated link =>
      constructor
      · intro h'
        have hlink := h' link.linkId link (Dict.get?_set_self _ _ _)
        exact ⟨hlink.prefillSome, hlink.decodeSome, hlink.present⟩
      · intro ⟨hprefill, hdecode, hpresent⟩ linkId link' hget
        simp only [EventBody.apply, applyInstanceLinkCreated, Dict.get?_set] at hget
        split at hget
        · obtain rfl := Option.some.inj hget
          exact ⟨hprefill, hdecode, honce.1, honce.2, hpresent⟩
        · exact h linkId link' hget
  | instanceLinkDeleted linkId =>
      refine iff_of_true (fun linkId' link hget => ?_) trivial
      simp only [EventBody.apply, applyInstanceLinkDeleted, Dict.get?_erase] at hget
      split at hget
      · cases hget
      · exact h linkId' link hget
  | instanceCreated inst =>
      refine iff_of_true (fun linkId link hget => ?_) trivial
      obtain ⟨h1, h2, h3, h4, hpresent⟩ := h linkId link hget
      refine ⟨h1, h2, h3, h4, fun i hi => ?_⟩
      simp only [EventBody.apply, applyInstanceCreated, Dict.get?_set]
      split
      · rfl
      · exact hpresent i hi
  | instanceDeleted instanceId => exact iff_of_true (h.deleted instanceId) trivial
  | runnerStatusUpdated runnerId status =>
      refine iff_of_true ?_ trivial
      simp only [EventBody.apply, applyRunnerStatusUpdated]
      split <;> exact h
  | taskStatusUpdated taskId status =>
      refine iff_of_true ?_ trivial
      simp only [EventBody.apply, applyTaskStatusUpdated]
      split <;> exact h
  | taskFailed taskId errorType errorMessage =>
      refine iff_of_true ?_ trivial
      simp only [EventBody.apply, applyTaskFailed]
      split <;> exact h
  | _ => exact iff_of_true h trivial

end State

namespace Cluster

variable {s s' : Cluster}

/-- Nobody has a link on its way that names an instance twice. -/
structure LinksOnce (s : Cluster) : Prop where
  sound : Sound s
  outbox : ∀ e ∈ s.outbox, e.LinksOnce
  workers : ∀ n w, s.workers.get? n = some w → ∀ e ∈ w.outbox, e.LinksOnce

theorem linksOnce_execute (m : CommandProcessor) (taskId : TaskId) (command : Command) :
    ∀ e ∈ (m.execute taskId command).2, e.LinksOnce := by
  have htask : ∀ (commandId : CommandId) (instanceId : Option InstanceId) (kind : TaskKind),
      ∀ e ∈ (m.createTask commandId taskId instanceId kind).2, e.LinksOnce := by
    intro commandId instanceId kind e he
    obtain ⟨-, hnone | ⟨i, hone⟩⟩ := m.createTask_cases taskId commandId instanceId kind
    · rw [hnone] at he
      cases he
    · rw [hone] at he
      rw [List.mem_singleton.mp he]
      trivial
  intro e he
  cases command with
  | textGeneration commandId model imageHashes => exact htask _ _ _ e he
  | imageGeneration commandId model => exact htask _ _ _ e he
  | imageEdits commandId model total => exact htask _ _ _ e he
  | setInstanceLink link =>
      obtain rfl := List.mem_singleton.mp he
      exact ⟨Lib.nodup_eraseDups _, Lib.nodup_eraseDups _⟩
  | createInstance inst =>
      simp only [CommandProcessor.execute] at he
      split at he
      · cases he
      · rw [List.mem_singleton.mp he]
        trivial
  | deleteInstance instanceId =>
      simp only [CommandProcessor.execute] at he
      split at he
      · rcases List.mem_append.mp he with he | he
        · obtain ⟨task, -, rfl⟩ := List.mem_map.mp he
          trivial
        · rw [List.mem_singleton.mp he]
          trivial
      · cases he
  | taskCancelled commandId | taskFinished commandId =>
      simp only [CommandProcessor.execute] at he
      split at he
      · rw [List.mem_singleton.mp he]
        trivial
      · cases he
  | sendInputChunk _ | deleteInstanceLink _ =>
      rw [List.mem_singleton.mp he]
      trivial

/-- Workers say nothing about links. -/
theorem linksOnce_worker {w : Worker} {a : Worker.Action} {e : EventBody}
    (hreports : ∀ sup ∈ w.supervisors, ∀ m ∈ sup.messages, m.isReport) (h : w.EventOrigin a e) :
    e.LinksOnce := by
  cases h with
  | planned _ _ _ _ _ he => rw [he]; trivial
  | acted _ _ _ he _ => rw [he]; trivial
  | downloaded _ he => rw [he]; trivial
  | timedOut _ he => rw [he]; trivial
  | reported sup _ _ hsup _ hev hm =>
      have hreport := hev.sent (hreports sup hsup) e hm
      cases e with
      | instanceLinkCreated link => cases hreport
      | _ => trivial

variable {sha256 : Base64Image → Base64ImageHash}

variable {a : Action}

theorem linksOnce_step (h : LinksOnce s)
    (hs : s.step sha256 a = some s') : LinksOnce s' := by
  have hsound := sound_step h.sound hs
  cases step_cases hs with
  | quiet _ hout _ _ hw _ =>
      refine ⟨hsound, by rw [hout]; exact h.outbox, fun n w' hw' e he => ?_⟩
      obtain ⟨w, hget, hsame⟩ := hw n w' hw'
      exact h.workers n w hget e (hsame.outbox ▸ he)
  | executed i taskId command _ _ he =>
      rw [he] at hsound ⊢
      refine ⟨hsound, fun e hmem => ?_, fun n w hw => h.workers n w (by simpa using hw)⟩
      rw [issue_outbox] at hmem
      rcases List.mem_append.mp hmem with hmem | hmem
      · exact h.outbox e hmem
      · exact linksOnce_execute _ _ _ e hmem
  | logged source body _ _ he =>
      rw [he] at hsound ⊢
      refine ⟨hsound, fun e hmem => h.outbox e (mem_takeNext_outbox hmem),
        fun n w' hw' e hmem => ?_⟩
      obtain ⟨w, hw, hl⟩ := loggedTo hw'
      exact h.workers n w hw e (hl.outbox e hmem)
  | applied n w body _ hw _ _ he =>
      rw [he] at hsound ⊢
      refine ⟨hsound, h.outbox, fun m w' hw' e hmem => ?_⟩
      rcases setWorker_cases hw' with ⟨rfl, rfl⟩ | ⟨-, hw'⟩
      · obtain ⟨-, -, -, -, hout, -⟩ := applyEvent_books sha256 w body
        rw [hout] at hmem
        exact h.workers m w hw e hmem
      · exact h.workers m w' hw' e hmem
  | worked n b w w' _ _ hw hm he =>
      rw [he] at hsound ⊢
      refine ⟨hsound, fun e hmem => h.outbox e (by rw [issue_outbox] at hmem; exact hmem),
        fun m v hv e hmem => ?_⟩
      rw [issue_workers] at hv
      rcases setWorker_cases hv with ⟨rfl, rfl⟩ | ⟨-, hv⟩
      · obtain ⟨events, hout, horigin⟩ := hm.outbox
        rw [hout] at hmem
        rcases List.mem_append.mp hmem with hmem | hmem
        · exact h.workers m w hw e hmem
        · exact linksOnce_worker (h.sound.workers m w hw).reports (horigin e hmem)
      · exact h.workers m v hv e hmem

/-- The link that a step logs, if it logs one, has both sides, with instances there are. -/
def LinksPresent (s : Cluster) : Action → Prop
  | .log source => ∀ body ∈ s.next? source, body.LinksPresent s.processor.state.instances
  | _ => True

instance (s : Cluster) : (a : Action) → Decidable (s.LinksPresent a)
  | .log source => inferInstanceAs
      (Decidable (∀ body ∈ s.next? source, body.LinksPresent s.processor.state.instances))
  | .request _ | .cancelCommand _ | .streamEnd _ | .streamCancelled _ | .submit _ | .deletion _
  | .execute .. | .apply _ | .worker .. => isTrue trivial

/-- Only what is logged changes the state of the master. -/
theorem processor_of_step
    (hs : s.step sha256 a = some s') (ha : ∀ source, a ≠ .log source) :
    s'.processor.state = s.processor.state := by
  cases step_cases hs with
  | quiet _ _ _ hproc _ _ => rw [hproc]
  | executed i taskId command _ _ he =>
      rw [he, issue_processor]
      exact (s.processor.execute_cases taskId command).1
  | logged source _ heq _ _ => exact absurd heq (ha source)
  | applied n w body _ _ _ _ he => rw [he]; rfl
  | worked n b w w' _ _ _ _ he => rw [he, issue_processor]; rfl

/-- **A step keeps the links well formed exactly when the link it logs is.** -/
theorem linksWellFormed_step_iff
    (h : LinksOnce s) (hlinks : s.processor.state.LinksWellFormed)
    (hs : s.step sha256 a = some s') :
    s'.processor.state.LinksWellFormed ↔ s.LinksPresent a := by
  by_cases hlog : ∃ source, a = .log source
  · obtain ⟨source, rfl⟩ := hlog
    have hs' : (s.next? source).map (fun body => (s.takeNext source).append body) = some s' := by
      simpa [step, Action.draws?] using hs
    obtain ⟨body, hn, rfl⟩ := Option.map_eq_some_iff.mp hs'
    have honce : body.LinksOnce := by
      rcases next_cases hn with hmem | ⟨n, w, hw, hmem⟩ | hother
      · exact h.outbox body hmem
      · exact h.workers n w hw body hmem
      · cases body with
        | instanceLinkCreated link => cases hother
        | _ => trivial
    simp only [append, takeNext_processor]
    rw [State.linksWellFormed_apply_iff hlinks honce]
    constructor
    · intro hpresent body' hn'
      rw [← Option.some.inj (hn.symm.trans hn')]
      exact hpresent
    · exact fun hpresent => hpresent body hn
  · have ha : ∀ source, a ≠ .log source := fun source heq => hlog ⟨source, heq⟩
    rw [processor_of_step hs ha]
    refine iff_of_true hlinks ?_
    cases a with
    | log source => exact absurd rfl (ha source)
    | _ => trivial

theorem linksOnce_init (nodeIds : List NodeId) : LinksOnce (init nodeIds) where
  sound := sound_init nodeIds
  outbox := fun _ he => by cases he
  workers := fun n w hw e he => by
    rw [init_workers hw] at he
    cases he

/--
**The links stay well formed exactly as long as every link, when it is logged, has both sides,
with instances there are.**
-/
theorem linksWellFormed_throughout_iff (sha256 : Base64Image → Base64ImageHash)
    (nodeIds : List NodeId) {as : List Action} {s : Cluster}
    (h : (machine sha256 nodeIds).run (init nodeIds) as = some s) :
    (∀ k t, (machine sha256 nodeIds).run (init nodeIds) (as.take k) = some t →
        t.processor.state.LinksWellFormed)
      ↔ ∀ k a t, as[k]? = some a →
        (machine sha256 nodeIds).run (init nodeIds) (as.take k) = some t → t.LinksPresent a := by
  exact Machine.throughout_iff_of_invariant (B := LinksOnce)
    (P := fun s => s.processor.state.LinksWellFormed) (fun _ _ _ hi hs => linksOnce_step hi hs)
    (fun _ _ _ hi hlinks hs => linksWellFormed_step_iff hi hlinks hs) (linksOnce_init nodeIds)
    (fun _ _ h => by cases h) h

/-- A command that the master executes and that has one event. -/
def once (command : Command) (taskId : TaskId) : List Action :=
  [.submit command, .execute 0 taskId, .log .master]

/-- Two instances are linked, one of them twice; then one goes. -/
def linking : List Action :=
  once (.createInstance (loneRunner 1)) 3000 ++ once (.createInstance (loneRunner 2)) 3001
  ++ once (.setInstanceLink ⟨1, [2], [1, 2, 1]⟩) 3002 ++ once (.deleteInstance 1) 3003

theorem linksWellFormed_throughout_linking : ∃ s,
    (machine (fun _ => 0) []).run (init []) linking = some s ∧ ∀ k t,
      (machine (fun _ => 0) []).run (init []) (linking.take k) = some t →
        t.processor.state.LinksWellFormed := by
  have hrun : ((machine (fun _ => 0) []).runWhen LinksPresent (init []) linking).isSome := by
    decide +kernel
  obtain ⟨s, hs⟩ := Option.isSome_iff_exists.mp hrun
  obtain ⟨h, hall⟩ := Machine.runWhen_eq_some.mp hs
  exact ⟨s, h, (linksWellFormed_throughout_iff (fun _ => 0) [] h).mpr hall⟩

/-- A link is set to an instance that is gone. -/
def linkingLate : List Action :=
  once (.createInstance (loneRunner 1)) 3000 ++ once (.createInstance (loneRunner 2)) 3001
  ++ once (.deleteInstance 2) 3002 ++ once (.setInstanceLink ⟨1, [2], [1]⟩) 3003

theorem linksWellFormed_fails : ¬ ∀ (sha256 : Base64Image → Base64ImageHash)
    (nodeIds : List NodeId) (s : Cluster),
    (machine sha256 nodeIds).Reachable s → s.processor.state.LinksWellFormed := by
  intro h
  have hrun : ((machine (fun _ => 0) []).run (init []) linkingLate).map (fun s =>
      (s.processor.state.instanceLinks.get? 1, (s.processor.state.instances.get? 2).isSome))
      = some (some ⟨1, [2], [1]⟩, false) := by
    decide +kernel
  obtain ⟨s, hs, hstate⟩ := Option.map_eq_some_iff.mp hrun
  obtain ⟨hlink, hgone⟩ := Prod.mk.inj hstate
  have hpresent := (h _ _ s (Machine.reachable_of_run hs) 1 _ hlink).present 2 (by decide)
  rw [hgone] at hpresent
  cases hpresent

end Cluster

end Exo
