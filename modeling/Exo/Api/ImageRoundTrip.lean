import Exo.Api.ImageChunks

/-!
# Images there and back

The requests of an API are sent one after the other, and a worker gets their chunks in any order
and any number of times. Afterwards it can start the task of a request with exactly the images of
the request, if none of them is empty and none has the hash of a different image sent before it.
-/

namespace Exo

open Lib (Dict enumerate map_snd_enumerate)
open Worker (assembleImages Numbered ImageInv Received imageInv_init)

variable {sha256 : Base64Image → Base64ImageHash} {sent : List Base64ImageHash}
  {requests : List (CommandId × List Base64Image)} {c : CommandId} {img : Base64Image}
  {images : List Base64Image} {events : List EventBody}

/-! ## What was sent -/

/-- The images of the requests that did not raise. -/
def sentImages (requests : List (CommandId × List Base64Image)) : List Base64Image :=
  (requests.filter fun request => request.2.all isAscii).flatMap Prod.snd

theorem sendRequests_cons (sent : List Base64ImageHash) (c : CommandId)
    (images : List Base64Image) (requests : List (CommandId × List Base64Image)) :
    sendRequests sha256 sent ((c, images) :: requests)
      = if images.all isAscii then
          { commandId := c
            imageHashes := images.map sha256
            newImages := (markNewImages sha256 sent (enumerate images)).2 }
            :: sendRequests sha256 (markNewImages sha256 sent (enumerate images)).1 requests
        else sendRequests sha256 sent requests := by
  rw [sendRequests, ImageRequest.create]
  by_cases hascii : images.all isAscii
  · rw [if_pos hascii, if_pos hascii]
  · rw [if_neg hascii, if_neg hascii]

theorem sentImages_cons (c : CommandId) (images : List Base64Image)
    (requests : List (CommandId × List Base64Image)) :
    sentImages ((c, images) :: requests)
      = if images.all isAscii then images ++ sentImages requests else sentImages requests := by
  unfold sentImages
  rw [List.filter_cons]
  split <;> rfl

/-- **The new images are those whose hash comes for the first time.** -/
theorem mem_newImages_sendRequests :
    (∃ r ∈ sendRequests sha256 sent requests, ∃ idx, (idx, img) ∈ r.newImages) ↔
      sha256 img ∉ sent
        ∧ (sentImages requests).find? (fun img' => sha256 img' = sha256 img) = some img := by
  induction requests generalizing sent with
  | nil => simp [sendRequests, sentImages]
  | cons request requests ih =>
      obtain ⟨c, images⟩ := request
      rw [sendRequests_cons, sentImages_cons]
      by_cases hascii : images.all isAscii
      · rw [if_pos hascii, if_pos hascii, List.find?_append]
        simp only [List.mem_cons, exists_eq_or_imp]
        rw [ih, mem_markNewImages_snd, mem_markNewImages_fst, map_snd_enumerate]
        cases hfind : images.find? (fun img' => sha256 img' = sha256 img) with
        | some img' =>
            have hknown : ∃ e ∈ enumerate images, sha256 e.2 = sha256 img := by
              have hmem := List.mem_of_find?_eq_some hfind
              rw [← map_snd_enumerate images] at hmem
              obtain ⟨e, he, rfl⟩ := List.mem_map.mp hmem
              have hsame := List.find?_some hfind
              exact ⟨e, he, of_decide_eq_true hsame⟩
            rw [Option.some_or]
            constructor
            · rintro (h | ⟨hnot, -⟩)
              · exact h
              · exact absurd (.inr hknown) hnot
            · exact .inl
        | none =>
            have hnew : ¬ ∃ e ∈ enumerate images, sha256 e.2 = sha256 img := by
              intro ⟨e, he, hsame⟩
              have hmem : e.2 ∈ images := by
                rw [← map_snd_enumerate images]
                exact List.mem_map_of_mem he
              exact absurd (decide_eq_true hsame) (List.find?_eq_none.mp hfind e.2 hmem)
            rw [Option.none_or, or_iff_left hnew]
            constructor
            · rintro (⟨-, hnone⟩ | h)
              · cases hnone
              · exact h
            · exact .inr
      · rw [if_neg hascii, if_neg hascii, ih]

/-- The requests that are sent are among those that were made. -/
theorem sublist_sendRequests :
    ((sendRequests sha256 sent requests).map (·.commandId)).Sublist (requests.map Prod.fst) := by
  induction requests generalizing sent with
  | nil => exact .slnil
  | cons request requests ih =>
      obtain ⟨c, images⟩ := request
      rw [sendRequests_cons]
      split
      · exact ih.cons_cons _
      · exact ih.cons _

variable {r : ImageRequest}

theorem nodup_newImages (hr : r ∈ sendRequests sha256 sent requests) :
    (r.newImages.map Prod.fst).Nodup := by
  induction requests generalizing sent with
  | nil => cases hr
  | cons request requests ih =>
      obtain ⟨c, images⟩ := request
      rw [sendRequests_cons] at hr
      split at hr
      · rcases List.mem_cons.mp hr with rfl | hr
        · exact nodup_markNewImages
        · exact ih hr
      · exact ih hr

/-! ## What a worker gets -/

/-- The event does not carry a chunk of anything else. -/
def IsSent (requests : List ImageRequest) : EventBody → Prop
  | .inputChunkReceived c ch => ∃ r ∈ requests, r.commandId = c ∧ ch ∈ r.chunks
  | _ => True

instance (requests : List ImageRequest) (e : EventBody) : Decidable (IsSent requests e) := by
  unfold IsSent
  split <;> infer_instance

/-- The events have all chunks of the requests, in any order and any number of times. -/
structure Delivers (requests : List ImageRequest) (events : List EventBody) : Prop where
  all : ∀ r ∈ requests, ∀ ch ∈ r.chunks, .inputChunkReceived r.commandId ch ∈ events
  only : ∀ e ∈ events, IsSent requests e

/-- The chunks of each command. -/
def chunksFor (requests : List ImageRequest) (c : CommandId) : List InputImageChunk :=
  (requests.find? (·.commandId = c)).elim [] (·.chunks)

variable {rs : List ImageRequest}

theorem chunksFor_eq
    (hids : (rs.map (·.commandId)).Nodup) (hr : r ∈ rs) : chunksFor rs r.commandId = r.chunks := by
  have hfind : rs.find? (·.commandId = r.commandId) = some r := by
    induction rs with
    | nil => cases hr
    | cons r' rs ih =>
        rw [List.map_cons, List.nodup_cons] at hids
        rw [List.find?_cons]
        by_cases heq : r'.commandId = r.commandId
        · rcases List.mem_cons.mp hr with rfl | hr
          · rw [decide_eq_true rfl]
          · exact absurd (heq ▸ List.mem_map_of_mem hr) hids.1
        · rw [decide_eq_false heq]
          rcases List.mem_cons.mp hr with rfl | hr
          · exact absurd rfl heq
          · exact ih hids.2 hr
  rw [chunksFor, hfind]
  rfl

/-- Each has none, or those of a request. -/
theorem chunksFor_cases (rs : List ImageRequest) (c : CommandId) :
    chunksFor rs c = [] ∨ ∃ r ∈ rs, r.commandId = c ∧ chunksFor rs c = r.chunks := by
  cases hfind : rs.find? (·.commandId = c) with
  | none => exact .inl (by rw [chunksFor, hfind]; rfl)
  | some r =>
      refine .inr ⟨r, List.mem_of_find?_eq_some hfind, ?_, by rw [chunksFor, hfind]; rfl⟩
      have hsame := List.find?_some hfind
      exact of_decide_eq_true hsame

theorem numbered_of_inputChunks {spec : CommandId → List InputImageChunk}
    (h : ∀ c, spec c = [] ∨ ∃ c' new, spec c = inputChunks c' new) : Numbered spec where
  index := fun c i ch hi => by
    rcases h c with hnone | ⟨c', new, hspec⟩
    · rw [hnone] at hi
      cases hi
    · rw [hspec] at hi
      exact (getElem?_inputChunks hi).2.1
  total := fun c ch hch => by
    rcases h c with hnone | ⟨c', new, hspec⟩
    · rw [hnone] at hch
      cases hch
    · rw [hspec] at hch ⊢
      obtain ⟨i, hi⟩ := List.mem_iff_getElem?.mp hch
      exact (getElem?_inputChunks hi).2.2.1

theorem numbered_chunksFor (rs : List ImageRequest) : Numbered (chunksFor rs) := by
  refine numbered_of_inputChunks fun c => ?_
  rcases chunksFor_cases rs c with hnone | ⟨r, -, -, hspec⟩
  · exact .inl hnone
  · exact .inr ⟨r.commandId, r.newImages, hspec⟩

/-- The worker has the images of a request and starts its task with them. -/
structure Restored (sha256 : Base64Image → Base64ImageHash) (w : Worker) (c : CommandId)
    (images : List Base64Image) : Prop where
  cached : ∀ img ∈ images, w.imageCache.get? (sha256 img) = some img
  planned : ∀ now freshTaskId task imgs, task.kind = .textGeneration c (images.map sha256) imgs →
    (w.planInput now freshTaskId).hasInputs task
  dispatched : ∀ task, w.actTextGeneration task c (images.map sha256)
    = (w.dropChunks c).startRunnerTask
        { task with kind := .textGeneration c (images.map sha256) images }

theorem Restored.of_cached {w : Worker}
    (h : ∀ img ∈ images, w.imageCache.get? (sha256 img) = some img) :
    Restored sha256 w c images where
  cached := h
  planned := fun now freshTaskId task imgs hkind => by
    rw [PlanInput.hasInputs, hkind]
    dsimp only
    rw [List.all_map, List.all_eq_true]
    intro img himg
    rw [Function.comp_apply, show (w.planInput now freshTaskId).imageCache = w.imageCache from rfl,
      h img himg]
    rfl
  dispatched := fun task => by
    have himages : (images.map sha256).mapM w.imageCache.get? = some images := by
      rw [List.mapM_map]
      induction images with
      | nil => rfl
      | cons img images ih =>
          rw [List.mapM_cons, Function.comp_apply, h img List.mem_cons_self,
            ih fun img' himg' => h img' (List.mem_cons_of_mem _ himg')]
          rfl
    rw [Worker.actTextGeneration, himages]

/-- The worker has seen the chunks of the requests. -/
theorem imageInv_delivered (hids : (rs.map (·.commandId)).Nodup)
    (hevents : Delivers rs events) {w : Worker} (hbuffer : w.inputChunkBuffer = .empty)
    (hcache : w.imageCache = .empty) :
    (w.applyEvents sha256 events).ImageInv sha256 (chunksFor rs) (Received events) := by
  have hinit : w.ImageInv sha256 (chunksFor rs) (Received []) :=
    (imageInv_init hbuffer hcache).congr fun _ _ => iff_of_false not_false List.not_mem_nil
  refine hinit.applyEvents (numbered_chunksFor rs) fun c ch hmem => ?_
  obtain ⟨r, hr, rfl, hch⟩ := hevents.only _ hmem
  rw [chunksFor_eq hids hr]
  exact hch

/--
**The round trip.** After all chunks of the requests of an API, in any order and any number of
times, a worker has the images of a request and starts its task with them exactly if none of them is
empty and each is the first image sent with its hash.
-/
theorem restored_iff (sha256 : Base64Image → Base64ImageHash)
    (hids : (requests.map Prod.fst).Nodup)
    (hevents : Delivers (sendRequests sha256 [] requests) events) {w : Worker}
    (hbuffer : w.inputChunkBuffer = .empty) (hcache : w.imageCache = .empty)
    (c : CommandId) (images : List Base64Image) :
    Restored sha256 (w.applyEvents sha256 events) c images ↔ ∀ img ∈ images, img ≠ ""
      ∧ (sentImages requests).find? (fun img' => sha256 img' = sha256 img) = some img := by
  have hnodup : ((sendRequests sha256 [] requests).map (·.commandId)).Nodup :=
    hids.sublist sublist_sendRequests
  have hinv : (w.applyEvents sha256 events).ImageInv sha256
      (chunksFor (sendRequests sha256 [] requests)) (Received events) :=
    imageInv_delivered hnodup hevents hbuffer hcache
  have hfirst : ∀ img, (∃ r ∈ sendRequests sha256 [] requests, ∃ idx, (idx, img) ∈ r.newImages) ↔
      (sentImages requests).find? (fun img' => sha256 img' = sha256 img) = some img := fun img =>
    mem_newImages_sendRequests.trans (and_iff_right List.not_mem_nil)
  -- what is in the cache was put together from a request
  have hcached : ∀ k img, (w.applyEvents sha256 events).imageCache.get? k = some img →
      img ≠ "" ∧ (sentImages requests).find? (fun img' => sha256 img' = sha256 img) = some img := by
    intro k img himg
    obtain ⟨-, c', hin, -⟩ := hinv.cached k img himg
    rcases chunksFor_cases (sendRequests sha256 [] requests) c' with hnone | ⟨r, hr, -, hspec⟩
    · rw [hnone] at hin
      cases hin
    · rw [hspec] at hin
      obtain ⟨hne, hnew⟩ := (mem_assembleImages_inputChunks (nodup_newImages hr)).mp hin
      exact ⟨hne, (hfirst img).mp ⟨r, hr, hnew⟩⟩
  constructor
  · exact fun h img himg => hcached _ img (h.cached img himg)
  · intro h
    refine .of_cached fun img himg => ?_
    obtain ⟨hne, hfind⟩ := h img himg
    obtain ⟨r, hr, hnew⟩ := (hfirst img).mpr hfind
    have hin : img ∈ assembleImages (chunksFor (sendRequests sha256 [] requests) r.commandId) := by
      rw [chunksFor_eq hnodup hr]
      exact (mem_assembleImages_inputChunks (nodup_newImages hr)).mpr ⟨hne, hnew⟩
    have hall : ∀ ch ∈ chunksFor (sendRequests sha256 [] requests) r.commandId,
        Received events r.commandId ch := by
      rw [chunksFor_eq hnodup hr]
      exact fun ch hch => hevents.all r hr ch hch
    obtain ⟨img', himg'⟩ := Option.isSome_iff_exists.mp
      (hinv.hasImages (numbered_chunksFor _) hall img hin)
    -- and there is but one image under a hash
    have hsame := (hcached _ img' himg').2
    rw [(hinv.cached _ img' himg').1, hfind] at hsame
    rw [himg', Option.some.inj hsame]

/-- A hash that tells short strings apart. -/
def codeOf (img : Base64Image) : Base64ImageHash :=
  img.toList.foldl (fun n c => 256 * n + c.toNat) 1

/-- An image comes twice in a request, and one of it again in the next one. -/
def imageRequests : List (CommandId × List Base64Image) :=
  [(1, ["aa", "b", "aa"]), (2, ["b", "c"])]

/-- The chunks come out of order, and one of them twice. -/
def imageEvents : List EventBody :=
  [.inputChunkReceived 2 ⟨2, 0, 1, 1, "c"⟩, .inputChunkReceived 1 ⟨1, 1, 2, 1, "b"⟩,
    .inputChunkReceived 1 ⟨1, 0, 2, 0, "aa"⟩, .inputChunkReceived 1 ⟨1, 1, 2, 1, "b"⟩]

theorem restored_imageEvents :
    Restored codeOf (({ nodeId := 1 } : Worker).applyEvents codeOf imageEvents) 1 ["aa", "b", "aa"]
      ∧ Restored codeOf (({ nodeId := 1 } : Worker).applyEvents codeOf imageEvents) 2
        ["b", "c"] := by
  have hids : (imageRequests.map Prod.fst).Nodup := by decide
  have hevents : Delivers (sendRequests codeOf [] imageRequests) imageEvents :=
    ⟨by decide +kernel, by decide +kernel⟩
  exact ⟨(restored_iff codeOf hids hevents rfl rfl 1 _).mpr (by decide +kernel),
    (restored_iff codeOf hids hevents rfl rfl 2 _).mpr (by decide +kernel)⟩

/-- An empty image has no chunks. -/
theorem not_restored_empty : ¬ ∀ (sha256 : Base64Image → Base64ImageHash)
    (requests : List (CommandId × List Base64Image)) (events : List EventBody) (nodeId : NodeId),
    (requests.map Prod.fst).Nodup → Delivers (sendRequests sha256 [] requests) events →
    ∀ request ∈ requests, Restored sha256
      (({ nodeId } : Worker).applyEvents sha256 events) request.1 request.2 := by
  intro h
  have hevents : Delivers (sendRequests codeOf [] [(1, [""])]) [] :=
    ⟨by decide +kernel, by decide +kernel⟩
  have hrestored := h codeOf [(1, [""])] [] 1 (by decide) hevents (1, [""]) List.mem_cons_self
  cases hrestored.cached "" List.mem_cons_self

end Exo
