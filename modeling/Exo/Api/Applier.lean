import Exo.Api.ChunkDelivery

/-!
# What ends the applier of an API

`_apply_state` asserts of each chunk that it is of the type of the channel it goes into. What the
engines make is, but for one: an `ErrorChunk` can be for a command for images, and the channel of
such a command, whose type has errors in it, is taken for one of images alone.
-/

namespace Exo

open Lib (Dict Machine)

/-- The entry can be applied: it is not an error for the channel of a stream of images. -/
def ChunkApi.Spares (a : ChunkApi) : LogEntry → Prop
  | .chunk c (.text (.error _)) => a.imageHeld c = false
  | _ => True

instance (a : ChunkApi) (e : LogEntry) : Decidable (a.Spares e) := by
  unfold ChunkApi.Spares
  split <;> infer_instance

namespace Streams

variable {lib : GraphLibrary} {s s' : Streams} {c : CommandId}

variable {x : StreamChunk}

/-- Texts that are not errors are sent for texts. -/
theorem sends_error {source : ChunkSource}
    (h : source.sends .image (.text x)) : ∃ message, x = .error message := by
  cases x with
  | error message => exact ⟨message, rfl⟩
  | _ => cases source <;> cases h

theorem Base.drawn_textHeld (h : Base s) (hheld : s.api.textHeld c) :
    s.drawn.get? c = some .text := by
  unfold ChunkApi.textHeld at hheld
  cases hq : s.api.textQueues.get? c with
  | none => simp [hq] at hheld
  | some q => exact (h.texts c q hq).1

/-- What was logged of a command is of its kind. -/
theorem Base.sent (h : Base s) {chunk : GeneratedChunk} {kind : GenerationKind}
    (he : s.log[s.api.applied]? = some (.chunk c chunk)) (hkind : s.drawn.get? c = some kind) :
    ∃ source, ChunkSource.sends source kind chunk := by
  obtain ⟨source, kind', hdrawn, hsends⟩ := h.chunks c chunk (List.mem_of_getElem? he)
  obtain rfl := Option.some.inj (hkind.symm.trans hdrawn)
  exact ⟨source, hsends⟩

section Routes

variable {a' : ChunkApi} (hsame : Applies s.api a') (h : Base s) (halive : s.api.failed = false)
include hsame h halive

/-- An image is for no stream of text. -/
theorem failed_route_image {x : ImageChunk}
    (he : s.log[s.api.applied]? = some (.chunk c (.image x))) :
    (a'.route c (.image x)).failed = false := by
  unfold ChunkApi.route
  dsimp only
  split
  · rename_i hheld
    have hheld : s.api.textHeld c := by
      rw [ChunkApi.textHeld, ← hsame.textQueues]
      exact hheld
    obtain ⟨source, hsends⟩ := h.sent he (h.drawn_textHeld hheld)
    cases sends_text hsends
  · exact hsame.failed.trans halive

/-- A text is for a stream of images if it is an error. -/
theorem failed_route_text
    (he : s.log[s.api.applied]? = some (.chunk c (.text x))) :
    (a'.route c (.text x)).failed = false ↔ s.api.Spares (.chunk c (.text x)) := by
  have hsameHeld : a'.imageHeld c = s.api.imageHeld c := by
    rw [ChunkApi.imageHeld, ChunkApi.imageHeld, hsame.imageQueues]
  by_cases hheld : s.api.imageHeld c
  · obtain ⟨source, hsends⟩ := h.sent he (h.drawn_imageHeld hheld)
    obtain ⟨message, rfl⟩ := sends_error hsends
    have hfailed : (a'.route c (.text (.error message))).failed = true := by
      unfold ChunkApi.route
      exact (congrArg ChunkApi.failed (if_pos (hsameHeld.trans hheld))).trans rfl
    rw [hfailed, ChunkApi.Spares, hheld]
  · have hfailed : (a'.route c (.text x)).failed = false := by
      unfold ChunkApi.route
      rw [← hsameHeld] at hheld
      exact (congrArg ChunkApi.failed (if_neg hheld)).trans (hsame.failed.trans halive)
    refine iff_of_true hfailed ?_
    unfold ChunkApi.Spares
    split
    · rename_i heq
      cases heq
      simpa using hheld
    · trivial

end Routes

/-- One round, in which `apply` itself does not raise. -/
theorem failed_applyEvent (h : Base s) (halive : s.api.failed = false) {e : LogEntry}
    (he : s.log[s.api.applied]? = some e) :
    (s.api.applyEvent lib s.api.applied e).failed = false ↔ s.api.Spares e := by
  obtain ⟨a', ha', hsame⟩ := applies_applyState lib h he
  have hfailed : a'.failed = false := hsame.failed.trans halive
  unfold ChunkApi.applyEvent
  rw [ha']
  cases e with
  | plain body =>
      refine iff_of_true ?_ trivial
      cases body <;> exact hfailed
  | node e => exact iff_of_true hfailed trivial
  | chunk c chunk =>
      cases chunk with
      | image x => exact iff_of_true (failed_route_image hsame h halive he) trivial
      | text x => exact failed_route_text hsame h halive he

/-- What is applied next can be applied. -/
def SparesImages (s : Streams) : Action → Prop
  | .apply => ∀ e ∈ s.log[s.api.applied]?, s.api.Spares e
  | _ => True

instance (s : Streams) (a : Action) : Decidable (s.SparesImages a) := by
  unfold SparesImages
  split <;> infer_instance

theorem failed_step_iff {a : Action} (h : Base s) (halive : s.api.failed = false)
    (hs : s.step lib a = some s') : s'.api.failed = false ↔ s.SparesImages a := by
  by_cases ha : a = .apply
  · subst ha
    obtain ⟨e, he, hs⟩ := Option.bind_eq_some_iff.mp hs
    rw [if_neg (by simp [halive])] at hs
    obtain rfl := Option.some.inj hs
    rw [setApi, failed_applyEvent h halive he, SparesImages, he]
    exact ⟨fun hspares e' he' => Option.some.inj he' ▸ hspares, fun hspares => hspares e rfl⟩
  · have hguard : s.SparesImages a := by
      unfold SparesImages
      split
      · exact absurd rfl ha
      · trivial
    refine iff_of_true ?_ hguard
    cases took_of_step hs with
    | drew _ _ _ hapi =>
        rcases hapi with hapi | hapi
        · rw [hapi]
          exact halive
        · rw [hapi]
          exact halive
    | applied => exact absurd rfl ha
    | _ => exact halive

/--
**The applier lives exactly as long as no error is applied for a command whose stream is one of
images.**
-/
theorem failed_throughout_iff (lib : GraphLibrary) {as : List Action} {s : Streams}
    (h : (machine lib).run {} as = some s) :
    (∀ k t, (machine lib).run {} (as.take k) = some t → t.api.failed = false)
      ↔ ∀ k a t, as[k]? = some a → (machine lib).run {} (as.take k) = some t →
        t.SparesImages a :=
  Machine.throughout_iff_of_invariant (B := Base) (P := fun s => s.api.failed = false)
    (fun _ _ _ hi hs => base_step hi hs) (fun _ _ _ hi halive hs => failed_step_iff hi halive hs)
    base_init rfl h

/-- A runner of text dies, and one of images when its stream is over. -/
def failing : List Action :=
  [.sendCommand 1 .text, .stream 1 .text, .sendCommand 2 .image, .stream 2 .image,
    .logChunk .imageEngine 2 (.image ⟨"a", 0, 1, 0, false⟩), .apply,
    .logChunk .supervisor 1 (.text (.error "Runner shutdown before completing command")), .apply,
    .read 1, .imagesOver 2,
    .logChunk .supervisor 2 (.text (.error "Runner shutdown before completing command")), .apply]

theorem failed_throughout_failing : ∃ s, (machine .search).run {} failing = some s
    ∧ ∀ k t, (machine .search).run {} (failing.take k) = some t → t.api.failed = false := by
  have hrun : ((machine .search).runWhen SparesImages {} failing).isSome := by decide +kernel
  obtain ⟨s, hs⟩ := Option.isSome_iff_exists.mp hrun
  obtain ⟨h, hall⟩ := Machine.runWhen_eq_some.mp hs
  exact ⟨s, h, (failed_throughout_iff .search h).mpr hall⟩

/-- A runner of images dies with the task in progress. -/
def failingImage : List Action :=
  [.sendCommand 1 .image, .stream 1 .image,
    .logChunk .supervisor 1 (.text (.error "Runner shutdown before completing command")), .apply]

theorem failed_image : ¬ ∀ (lib : GraphLibrary) (s : Streams),
    (machine lib).Reachable s → s.api.failed = false := by
  intro h
  have hrun : ((machine .search).run {} failingImage).map (·.api.failed) = some true := by
    decide +kernel
  obtain ⟨s, hs, hfailed⟩ := Option.map_eq_some_iff.mp hrun
  cases hfailed.symm.trans (h _ s (Machine.reachable_of_run hs))

end Streams

end Exo
