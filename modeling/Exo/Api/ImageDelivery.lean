import Exo.Api.ImageRoundTrip

/-!
# Images of requests that are aborted

A hash is in `_sent_image_hashes` before the first chunk of its image is sent. If the request that
put it there is aborted, or is not done with its chunks, a later one relies on an image that the
workers do not have. What a worker has, once it applied the log, are the images of the requests that
sent all of their chunks.
-/

namespace Exo

open Lib (Dict Machine)
open Worker (assembleImages Numbered ImageInv Received received_snoc received_snoc_of_ne
  imageInv_init)

namespace Imaging

variable {sha256 : Base64Image → Base64ImageHash} {s s' : Imaging} {c : CommandId} {n : NodeId}
  {r r' : ImageRequest}

/-! ## The invariant -/

/-- The chunks of each command. -/
def chunksOf (s : Imaging) (c : CommandId) : List InputImageChunk :=
  ((s.requests.get? c).map (·.chunks)).getD []

theorem chunksOf_eq (hr : s.requests.get? c = some r) : s.chunksOf c = r.chunks := by
  rw [chunksOf, hr]
  rfl

/-- A request and what it sends. -/
structure RequestOk (sha256 : Base64Image → Base64ImageHash) (c : CommandId) (r : ImageRequest) :
    Prop where
  commandId : r.commandId = c
  nodup : (r.newImages.map Prod.fst).Nodup
  named : ∀ e ∈ r.newImages, sha256 e.2 ∈ r.imageHashes
  within : r.sent ≤ r.chunks.length

/-- What holds of requests, log and workers, whoever is aborted. -/
structure Base (sha256 : Base64Image → Base64ImageHash) (s : Imaging) : Prop where
  requests : ∀ c r, s.requests.get? c = some r → RequestOk sha256 c r
  logged : ∀ c ch, Received s.log c ch ↔
    ∃ r, s.requests.get? c = some r ∧ ch ∈ r.chunks.take r.sent
  workers : ∀ n w, s.workers.get? n = some w → w.applied ≤ s.log.length
    ∧ w.ImageInv sha256 s.chunksOf (Received (s.log.take w.applied))
  staffed : ∃ n w, s.workers.get? n = some w

theorem numbered_chunksOf (s : Imaging) : Numbered s.chunksOf := by
  refine numbered_of_inputChunks fun c => ?_
  cases hr : s.requests.get? c with
  | none => exact .inl (by rw [chunksOf, hr]; rfl)
  | some r => exact .inr ⟨r.commandId, r.newImages, chunksOf_eq hr⟩

variable {ch : InputImageChunk}

/-- What is in the log is a chunk of its command. -/
theorem Base.sound (h : Base sha256 s) {c : CommandId}
    (hch : Received s.log c ch) : ch ∈ s.chunksOf c := by
  obtain ⟨r, hr, hmem⟩ := (h.logged c ch).mp hch
  rw [chunksOf_eq hr]
  exact List.mem_of_mem_take hmem

variable {w : Worker}

variable {nodeIds : List NodeId}

theorem get?_init_workers
    (h : (init nodeIds).workers.get? n = some w) : w = { nodeId := n } := by
  have hfold : ∀ (ids : List NodeId) (d : Dict NodeId Worker),
      (∀ n w, d.get? n = some w → w = { nodeId := n }) → ∀ n w,
        (ids.foldl (fun workers nodeId => workers.set nodeId { nodeId }) d).get? n = some w →
          w = { nodeId := n } := by
    intro ids
    induction ids with
    | nil => exact fun d hd => hd
    | cons id ids ih =>
        intro d hd
        refine ih _ fun n w hget => ?_
        by_cases heq : n = id
        · subst heq
          exact (Option.some.inj ((Dict.get?_set_self _ _ _).symm.trans hget)).symm
        · exact hd n w ((Dict.get?_set_ne _ _ heq).symm.trans hget)
  exact hfold nodeIds .empty (fun n w hget => by cases hget) n w h

theorem base_init (hne : nodeIds ≠ []) : Base sha256 (init nodeIds) where
  requests := fun c r h => by cases h
  logged := fun c ch => iff_of_false List.not_mem_nil fun ⟨r, hr, _⟩ => by cases hr
  workers := fun n w h => by
    obtain rfl := get?_init_workers h
    exact ⟨Nat.le_refl 0,
      (imageInv_init rfl rfl).congr fun _ _ => iff_of_false not_false List.not_mem_nil⟩
  staffed := by
    have hkept : ∀ (ids : List NodeId) (d : Dict NodeId Worker) (n : NodeId), (d.get? n).isSome →
        ((ids.foldl (fun workers nodeId => workers.set nodeId { nodeId }) d).get? n).isSome := by
      intro ids
      induction ids with
      | nil => exact fun d n hd => hd
      | cons id ids ih =>
          intro d n hd
          refine ih _ n ?_
          rw [Dict.get?_set]
          split
          · rfl
          · exact hd
    obtain ⟨n, ids, rfl⟩ := List.exists_cons_of_ne_nil hne
    have hfirst := hkept ids ((Dict.empty).set n { nodeId := n }) n
      (by rw [Dict.get?_set_self]; rfl)
    exact ⟨n, Option.isSome_iff_exists.mp hfirst⟩

/-! ## Steps -/

theorem Base.requests_set (h : Base sha256 s) (hok : RequestOk sha256 c r) {c' : CommandId}
    (hr' : (s.requests.set c r).get? c' = some r') : RequestOk sha256 c' r' := by
  rw [Dict.get?_set] at hr'
  split at hr'
  · rename_i heq
    subst heq
    obtain rfl := Option.some.inj hr'
    exact hok
  · exact h.requests c' r' hr'

/-- A request changes, but not in what it sends. -/
theorem Base.changing (h : Base sha256 s) (hr : s.requests.get? c = some r)
    (hok : RequestOk sha256 c r') (hchunks : r'.chunks = r.chunks) (hsent : r'.sent = r.sent) :
    Base sha256 (s.setRequest c r') := by
  have hspec : (s.setRequest c r').chunksOf = s.chunksOf := by
    funext c'
    rw [chunksOf, setRequest, Dict.get?_set]
    split
    · rename_i heq
      rw [heq, chunksOf_eq hr, ← hchunks]
      rfl
    · rfl
  refine ⟨fun c' q hq => h.requests_set hok hq, fun c' ch => ?_, fun n w hw => ?_, h.staffed⟩
  · refine (h.logged c' ch).trans ?_
    rw [setRequest]
    dsimp only
    by_cases heq : c' = c
    · subst heq
      rw [hr, Dict.get?_set_self]
      simp only [Option.some.injEq, exists_eq_left']
      rw [hchunks, hsent]
    · rw [Dict.get?_set_ne _ _ heq]
  · rw [hspec]
    exact h.workers n w hw

/-- A request that begins. -/
theorem requestOk_create {images : List Base64Image} {sent sent' : List Base64ImageHash}
    (hcreate : ImageRequest.create sha256 sent c images = some (sent', r)) :
    RequestOk sha256 c r ∧ r.sent = 0 ∧ r.completed = false := by
  unfold ImageRequest.create at hcreate
  split at hcreate
  · obtain ⟨-, rfl⟩ := Prod.mk.inj (Option.some.inj hcreate)
    refine ⟨⟨rfl, nodup_markNewImages, fun e he => ?_, Nat.zero_le _⟩, rfl, rfl⟩
    have hmem := (sublist_markNewImages).subset he
    refine List.mem_map_of_mem ?_
    rw [← Lib.map_snd_enumerate images]
    exact List.mem_map_of_mem hmem
  · cases hcreate

/-- A request begins. -/
theorem Base.beginning (h : Base sha256 s) (hnew : c ∉ s.requests.keys) (hok : RequestOk sha256 c r)
    (hsent : r.sent = 0) (sentImageHashes : Dict NodeId (List Base64ImageHash)) :
    Base sha256 { s.setRequest c r with sentImageHashes := sentImageHashes } := by
  have hnone : s.requests.get? c = none := by
    cases hget : s.requests.get? c with
    | none => rfl
    | some r' => exact absurd (Dict.mem_keys.2 (by rw [hget]; rfl)) hnew
  have hspec : ∀ c', s.chunksOf c' ≠ [] → (s.setRequest c r).chunksOf c' = s.chunksOf c' := by
    intro c' hne
    have hne' : c' ≠ c := by
      intro heq
      subst heq
      rw [chunksOf, hnone] at hne
      exact hne rfl
    rw [chunksOf, setRequest, Dict.get?_set_ne _ _ hne']
    rfl
  refine ⟨fun c' q hq => h.requests_set hok hq, fun c' ch => ?_, fun n w hw => ?_, h.staffed⟩
  · refine (h.logged c' ch).trans ?_
    show _ ↔ ∃ r', (s.requests.set c r).get? c' = some r' ∧ ch ∈ r'.chunks.take r'.sent
    by_cases heq : c' = c
    · -- nothing of it was logged
      subst heq
      rw [hnone, Dict.get?_set_self]
      simp [hsent]
    · rw [Dict.get?_set_ne _ _ heq]
  · obtain ⟨hle, hinv⟩ := h.workers n w hw
    exact ⟨hle, hinv.extend hspec⟩

/-- What a worker applied is a matter of the first entries of the log. -/
theorem Base.worker_logging (h : Base sha256 s) (hw : s.workers.get? n = some w)
    (body : EventBody) : w.applied ≤ (s.log ++ [body]).length
      ∧ w.ImageInv sha256 s.chunksOf (Received ((s.log ++ [body]).take w.applied)) := by
  obtain ⟨hle, hinv⟩ := h.workers n w hw
  rw [List.take_append_of_le_length hle]
  refine ⟨?_, hinv⟩
  rw [List.length_append]
  omega

/-- A request sends a chunk. -/
theorem Base.sending (h : Base sha256 s) (hr : s.requests.get? c = some r)
    (hch : r.chunks[r.sent]? = some ch) :
    Base sha256 { s.setRequest c { r with sent := r.sent + 1 } with
      log := s.log ++ [.inputChunkReceived ch.commandId ch] } := by
  have hok := h.requests c r hr
  have hlt : r.sent < r.chunks.length := (List.getElem?_eq_some_iff.mp hch).1
  have hid : ch.commandId = c := (getElem?_inputChunks hch).1.trans hok.commandId
  have hspec : (s.setRequest c { r with sent := r.sent + 1 }).chunksOf = s.chunksOf := by
    funext c'
    rw [chunksOf, setRequest, Dict.get?_set]
    split
    · rename_i heq
      rw [heq, chunksOf_eq hr]
      rfl
    · rfl
  have hok' : RequestOk sha256 c { r with sent := r.sent + 1 } :=
    ⟨hok.commandId, hok.nodup, hok.named, hlt⟩
  refine ⟨fun c' q hq => h.requests_set hok' hq, fun c' ch' => ?_, fun n w hw => ?_, h.staffed⟩
  · show Received (s.log ++ [.inputChunkReceived ch.commandId ch]) c' ch' ↔ ∃ r',
      (s.requests.set c { r with sent := r.sent + 1 }).get? c' = some r'
        ∧ ch' ∈ r'.chunks.take r'.sent
    rw [received_snoc, h.logged, hid]
    by_cases heq : c' = c
    · subst heq
      rw [hr, Dict.get?_set_self]
      simp only [Option.some.injEq, exists_eq_left', true_and]
      have hnext : r.chunks.take (r.sent + 1) = r.chunks.take r.sent ++ [ch] :=
        Lib.take_succ_of_getElem? hch
      rw [show ({ r with sent := r.sent + 1 } : ImageRequest).chunks = r.chunks from rfl, hnext,
        List.mem_append, List.mem_singleton]
    · rw [Dict.get?_set_ne _ _ heq]
      exact or_iff_left fun hsame => heq hsame.1
  · show _ ∧ w.ImageInv sha256 (s.setRequest c { r with sent := r.sent + 1 }).chunksOf _
    rw [hspec]
    exact h.worker_logging hw _

/-- An event is logged that does not carry a chunk. -/
theorem Base.logging (h : Base sha256 s) {body : EventBody}
    (hbody : ∀ c ch, body ≠ .inputChunkReceived c ch) :
    Base sha256 { s with log := s.log ++ [body] } where
  requests := h.requests
  logged := fun c ch => (received_snoc_of_ne hbody).trans (h.logged c ch)
  workers := fun _ _ hw => h.worker_logging hw body
  staffed := h.staffed

/-- A worker changes. -/
theorem Base.working (h : Base sha256 s) (hle : w.applied ≤ s.log.length)
    (hinv : w.ImageInv sha256 s.chunksOf (Received (s.log.take w.applied))) :
    Base sha256 { s with workers := s.workers.set n w } where
  requests := h.requests
  logged := h.logged
  workers := fun n' w' hw => by
    have hw : (s.workers.set n w).get? n' = some w' := hw
    rw [Dict.get?_set] at hw
    split at hw
    · obtain rfl := Option.some.inj hw
      exact ⟨hle, hinv⟩
    · exact h.workers n' w' hw
  staffed := ⟨n, w, Dict.get?_set_self _ _ _⟩

/-- A worker applies an event. -/
theorem Base.applying (h : Base sha256 s) (hw : s.workers.get? n = some w)
    {body : EventBody} (hbody : s.log[w.applied]? = some body) :
    Base sha256 { s with workers := s.workers.set n (w.applyEvent sha256 body) } := by
  obtain ⟨-, hinv⟩ := h.workers n w hw
  have hlt : w.applied < s.log.length := (List.getElem?_eq_some_iff.mp hbody).1
  have hnext : s.log.take (w.applied + 1) = s.log.take w.applied ++ [body] :=
    Lib.take_succ_of_getElem? hbody
  refine h.working ?_ ?_
  · rw [Worker.applyEvent_applied]
    exact hlt
  · rw [Worker.applyEvent_applied, hnext]
    refine hinv.applyEvent s.numbered_chunksOf fun c ch heq => h.sound ?_
    subst heq
    exact List.mem_of_getElem? hbody

/-- A worker starts a task. -/
theorem Base.dispatching (h : Base sha256 s) (hw : s.workers.get? n = some w)
    (hr : s.requests.get? c = some r)
    (himages : ∀ k ∈ r.imageHashes, (w.imageCache.get? k).isSome) (task : Task) :
    Base sha256
      { s with workers := s.workers.set n (w.actTextGeneration task c r.imageHashes) } := by
  obtain ⟨hle, hinv⟩ := h.workers n w hw
  have hok := h.requests c r hr
  have hhas : w.HasImages sha256 s.chunksOf c := by
    intro img himg
    rw [chunksOf_eq hr] at himg
    obtain ⟨-, idx, hmem⟩ := (mem_assembleImages_inputChunks hok.nodup).mp himg
    exact himages _ (hok.named _ hmem)
  refine h.working ?_ ?_
  · rw [Worker.actTextGeneration_applied]
    exact hle
  · rw [Worker.actTextGeneration_applied]
    exact hinv.actTextGeneration hhas task r.imageHashes

variable {a : Action}

theorem base_step (h : Base sha256 s) (hs : s.step sha256 a = some s') :
    Base sha256 s' := by
  cases a with
  | begin nodeId c images =>
      obtain ⟨⟨sent, r⟩, hcreate, hs⟩ := Option.bind_eq_some_iff.mp hs
      dsimp only at hs
      split at hs
      · cases hs
      · rename_i hnew
        obtain rfl := Option.some.inj hs
        obtain ⟨hok, hsent, -⟩ := requestOk_create hcreate
        exact h.beginning hnew hok hsent _
  | send c =>
      obtain ⟨r, hr, hs⟩ := Option.bind_eq_some_iff.mp hs
      obtain ⟨ch, hch, hs⟩ := Option.bind_eq_some_iff.mp hs
      split at hs
      · obtain rfl := Option.some.inj hs
        exact h.sending hr hch
      · cases hs
  | finish c | abort c =>
      obtain ⟨r, hr, hs⟩ := Option.bind_eq_some_iff.mp hs
      split at hs
      · obtain rfl := Option.some.inj hs
        obtain ⟨hid, hnodup, hnamed, hwithin⟩ := h.requests c r hr
        exact h.changing hr ⟨hid, hnodup, hnamed, hwithin⟩ rfl rfl
      · cases hs
  | log body =>
      dsimp only [step] at hs
      split at hs
      · cases hs
      · rename_i hbody
        obtain rfl := Option.some.inj hs
        exact h.logging hbody
  | apply n =>
      obtain ⟨w, hw, hs⟩ := Option.bind_eq_some_iff.mp hs
      obtain ⟨body, hbody, hs⟩ := Option.bind_eq_some_iff.mp hs
      obtain rfl := Option.some.inj hs
      exact h.applying hw hbody
  | dispatch n c task =>
      obtain ⟨w, hw, hs⟩ := Option.bind_eq_some_iff.mp hs
      obtain ⟨r, hr, hs⟩ := Option.bind_eq_some_iff.mp hs
      split at hs
      · rename_i hready
        obtain rfl := Option.some.inj hs
        exact h.dispatching hw hr (List.all_eq_true.mp hready.2) task
      · cases hs

/-! ## What the workers have -/

/-- The worker after it applied the rest of the log. -/
def caughtUp (sha256 : Base64Image → Base64ImageHash) (s : Imaging) (w : Worker) : Worker :=
  w.applyEvents sha256 (s.log.drop w.applied)

/-- A request that sent all its chunks has put the hash into `_sent_image_hashes`. -/
def Sent (sha256 : Base64Image → Base64ImageHash) (s : Imaging) (k : Base64ImageHash) : Prop :=
  ∃ r ∈ s.requests.values, r.sent = r.chunks.length
    ∧ ∃ e ∈ r.newImages, e.2 ≠ "" ∧ sha256 e.2 = k

instance (s : Imaging) (k : Base64ImageHash) : Decidable (s.Sent sha256 k) := by
  unfold Sent
  infer_instance

variable {k : Base64ImageHash}

theorem sent_iff : s.Sent sha256 k ↔ ∃ c r, s.requests.get? c = some r
    ∧ r.sent = r.chunks.length ∧ ∃ e ∈ r.newImages, e.2 ≠ "" ∧ sha256 e.2 = k := by
  unfold Sent
  constructor
  · intro ⟨r, hr, hrest⟩
    obtain ⟨c, hget⟩ := Dict.mem_values.1 hr
    exact ⟨c, r, hget, hrest⟩
  · intro ⟨c, r, hget, hrest⟩
    exact ⟨r, Dict.mem_values.2 ⟨c, hget⟩, hrest⟩

theorem Base.caughtUp (h : Base sha256 s) (hw : s.workers.get? n = some w) :
    (s.caughtUp sha256 w).ImageInv sha256 s.chunksOf (Received s.log) := by
  obtain ⟨-, hinv⟩ := h.workers n w hw
  have hevents : ∀ c ch, Received (s.log.drop w.applied) c ch → ch ∈ s.chunksOf c :=
    fun _ _ hmem => h.sound (List.mem_of_mem_drop hmem)
  have hrest := hinv.applyEvents s.numbered_chunksOf hevents
  rwa [List.take_append_drop] at hrest

/-- All chunks of a request are in the log exactly when it sent all. -/
theorem Base.allReceived_iff (h : Base sha256 s) (hr : s.requests.get? c = some r) :
    (∀ ch ∈ r.chunks, Received s.log c ch) ↔ r.sent = r.chunks.length := by
  have hreceived : ∀ ch, Received s.log c ch ↔ ch ∈ r.chunks.take r.sent := by
    intro ch
    rw [h.logged, hr]
    simp only [Option.some.injEq, exists_eq_left']
  constructor
  · intro hall
    by_contra hne
    have hwithin := (h.requests c r hr).within
    have hlt : r.sent < r.chunks.length := by omega
    -- the next chunk has a number that none before it has
    have hnext : r.chunks[r.sent]? = some r.chunks[r.sent] := List.getElem?_eq_getElem hlt
    have hmem := (hreceived _).mp (hall _ (List.getElem_mem hlt))
    obtain ⟨i, hi⟩ := List.mem_iff_getElem?.mp hmem
    rw [List.getElem?_take] at hi
    split at hi
    · have hindex := (getElem?_inputChunks hi).2.1
      rw [(getElem?_inputChunks hnext).2.1] at hindex
      omega
    · cases hi
  · intro heq ch hch
    rw [hreceived, heq, List.take_length]
    exact hch

/-- **A worker that applied the log has an image exactly if it was sent.** -/
theorem Base.isSome_caughtUp (h : Base sha256 s) (hw : s.workers.get? n = some w)
    :
    ((s.caughtUp sha256 w).imageCache.get? k).isSome ↔ s.Sent sha256 k := by
  rw [(h.caughtUp hw).isSome_iff s.numbered_chunksOf, sent_iff]
  constructor
  · intro ⟨c, ⟨img, hin, hkey⟩, hall⟩
    cases hr : s.requests.get? c with
    | none =>
        rw [chunksOf, hr] at hin
        cases hin
    | some r =>
        rw [chunksOf_eq hr] at hin hall
        obtain ⟨hne, idx, hmem⟩ :=
          (mem_assembleImages_inputChunks (h.requests c r hr).nodup).mp hin
        exact ⟨c, r, hr, (h.allReceived_iff hr).mp hall, (idx, img), hmem, hne, hkey⟩
  · intro ⟨c, r, hr, hsent, ⟨idx, img⟩, hmem, hne, hkey⟩
    refine ⟨c, ⟨img, ?_, hkey⟩, ?_⟩
    · rw [chunksOf_eq hr]
      exact (mem_assembleImages_inputChunks (h.requests c r hr).nodup).mpr ⟨hne, idx, hmem⟩
    · rw [chunksOf_eq hr]
      exact (h.allReceived_iff hr).mpr hsent

/-! ## Requests that rely on images -/

/-- Every worker that applied the log has the images of every request that sent its command. -/
def Served (sha256 : Base64Image → Base64ImageHash) (s : Imaging) : Prop :=
  ∀ n w, s.workers.get? n = some w → ∀ c r, s.requests.get? c = some r → r.completed →
    ∀ k ∈ r.imageHashes, ((s.caughtUp sha256 w).imageCache.get? k).isSome

/-- The images of such requests were sent. -/
def Backed (sha256 : Base64Image → Base64ImageHash) (s : Imaging) : Prop :=
  ∀ c r, s.requests.get? c = some r → r.completed → ∀ k ∈ r.imageHashes, s.Sent sha256 k

theorem Base.served_iff (h : Base sha256 s) : s.Served sha256 ↔ s.Backed sha256 := by
  constructor
  · intro hserved c r hr hcompleted k hk
    obtain ⟨n, w, hw⟩ := h.staffed
    exact (h.isSome_caughtUp hw).mp (hserved n w hw c r hr hcompleted k hk)
  · intro hbacked n w hw c r hr hcompleted k hk
    exact (h.isSome_caughtUp hw).mpr (hbacked c r hr hcompleted k hk)

/-- No image is taken back, and no request sends its command. -/
structure Keeps (s s' : Imaging) : Prop where
  sent : ∀ c r, s.requests.get? c = some r → r.sent = r.chunks.length →
    ∃ r', s'.requests.get? c = some r' ∧ r'.sent = r'.chunks.length
      ∧ r'.newImages = r.newImages
  completed : ∀ c r', s'.requests.get? c = some r' → r'.completed →
    ∃ r, s.requests.get? c = some r ∧ r.completed ∧ r'.imageHashes = r.imageHashes

theorem Keeps.backed (hk : s.Keeps s') (h : s.Backed sha256) : s'.Backed sha256 := by
  intro c r' hr' hcompleted k hmem
  obtain ⟨r, hr, hdone, hsame⟩ := hk.completed c r' hr' hcompleted
  obtain ⟨c₁, r₁, hr₁, hsent, hnew⟩ := sent_iff.1 (h c r hr hdone k (hsame ▸ hmem))
  obtain ⟨r₂, hr₂, hsent₂, hsame₂⟩ := hk.sent c₁ r₁ hr₁ hsent
  exact sent_iff.2 ⟨c₁, r₂, hr₂, hsent₂, by rw [hsame₂]; exact hnew⟩

/-- The requests stay. -/
theorem keeps_of_requests (h : s'.requests = s.requests) : s.Keeps s' where
  sent := fun c r hr hsent => ⟨r, by rw [h]; exact hr, hsent, rfl⟩
  completed := fun c r' hr' hcompleted => ⟨r', by rw [← h]; exact hr', hcompleted, rfl⟩

/-- One of them changes. -/
theorem keeps_of_set (h : s'.requests = s.requests.set c r')
    (hsent : ∀ r, s.requests.get? c = some r → r.sent = r.chunks.length →
      r'.sent = r'.chunks.length ∧ r'.newImages = r.newImages)
    (hcompleted : r'.completed → ∃ r, s.requests.get? c = some r ∧ r.completed
      ∧ r'.imageHashes = r.imageHashes) : s.Keeps s' where
  sent := fun c' q hq hall => by
    rw [h]
    by_cases heq : c' = c
    · subst heq
      exact ⟨r', Dict.get?_set_self _ _ _, hsent q hq hall⟩
    · exact ⟨q, (Dict.get?_set_ne _ _ heq).trans hq, hall, rfl⟩
  completed := fun c' q hq hdone => by
    rw [h] at hq
    by_cases heq : c' = c
    · subst heq
      obtain rfl := Option.some.inj ((Dict.get?_set_self _ _ _).symm.trans hq)
      exact hcompleted hdone
    · exact ⟨q, (Dict.get?_set_ne _ _ heq).symm.trans hq, hdone, rfl⟩

theorem keeps_step (hs : s.step sha256 a = some s') (ha : ∀ c, a ≠ .finish c) :
    s.Keeps s' := by
  cases a with
  | begin nodeId c images =>
      obtain ⟨⟨sent, r⟩, hcreate, hs⟩ := Option.bind_eq_some_iff.mp hs
      dsimp only at hs
      split at hs
      · cases hs
      · rename_i hnew
        obtain rfl := Option.some.inj hs
        refine keeps_of_set rfl (fun q hq => ?_) fun hcompleted => ?_
        · exact absurd (Dict.mem_keys.2 (by rw [hq]; rfl)) hnew
        · rw [(requestOk_create hcreate).2.2] at hcompleted
          cases hcompleted
  | send c =>
      obtain ⟨r, hr, hs⟩ := Option.bind_eq_some_iff.mp hs
      obtain ⟨ch, hch, hs⟩ := Option.bind_eq_some_iff.mp hs
      have hlt : r.sent < r.chunks.length := (List.getElem?_eq_some_iff.mp hch).1
      split at hs
      · obtain rfl := Option.some.inj hs
        refine keeps_of_set rfl (fun q hq hall => ?_) fun hcompleted => ⟨r, hr, hcompleted, rfl⟩
        obtain rfl := Option.some.inj (hr.symm.trans hq)
        omega
      · cases hs
  | finish c => exact absurd rfl (ha c)
  | abort c =>
      obtain ⟨r, hr, hs⟩ := Option.bind_eq_some_iff.mp hs
      split at hs
      · obtain rfl := Option.some.inj hs
        refine keeps_of_set rfl (fun q hq hall => ?_) fun hcompleted => ⟨r, hr, hcompleted, rfl⟩
        obtain rfl := Option.some.inj (hr.symm.trans hq)
        exact ⟨hall, rfl⟩
      · cases hs
  | log body =>
      dsimp only [step] at hs
      split at hs
      · cases hs
      · obtain rfl := Option.some.inj hs
        exact keeps_of_requests rfl
  | apply n =>
      obtain ⟨w, -, hs⟩ := Option.bind_eq_some_iff.mp hs
      obtain ⟨body, -, hs⟩ := Option.bind_eq_some_iff.mp hs
      obtain rfl := Option.some.inj hs
      exact keeps_of_requests rfl
  | dispatch n c task =>
      obtain ⟨w, -, hs⟩ := Option.bind_eq_some_iff.mp hs
      obtain ⟨r, -, hs⟩ := Option.bind_eq_some_iff.mp hs
      split at hs
      · obtain rfl := Option.some.inj hs
        exact keeps_of_requests rfl
      · cases hs

/-- What a request relies on when it sends its command was sent. -/
def SentBefore (sha256 : Base64Image → Base64ImageHash) (s : Imaging) : Action → Prop
  | .finish commandId => ∀ r ∈ s.requests.get? commandId, ∀ k ∈ r.imageHashes, s.Sent sha256 k
  | _ => True

instance (s : Imaging) (a : Action) : Decidable (s.SentBefore sha256 a) := by
  unfold SentBefore
  split <;> infer_instance

/-- A request sends its command. -/
theorem backed_finish (h : s.Backed sha256) (hr : s.requests.get? c = some r) :
    (s.setRequest c { r with completed := true }).Backed sha256
      ↔ ∀ k ∈ r.imageHashes, s.Sent sha256 k := by
  have hsent : ∀ k, (s.setRequest c { r with completed := true }).Sent sha256 k
      ↔ s.Sent sha256 k := by
    intro k
    rw [sent_iff, sent_iff]
    have hget : ∀ c', (s.setRequest c { r with completed := true }).requests.get? c'
        = if c' = c then some { r with completed := true } else s.requests.get? c' := fun c' =>
      Dict.get?_set _ _ _ _
    constructor
    · intro ⟨c', q, hq, hrest⟩
      rw [hget] at hq
      by_cases heq : c' = c
      · rw [if_pos heq] at hq
        obtain rfl := Option.some.inj hq
        exact ⟨c, r, hr, hrest⟩
      · rw [if_neg heq] at hq
        exact ⟨c', q, hq, hrest⟩
    · intro ⟨c', q, hq, hrest⟩
      by_cases heq : c' = c
      · subst heq
        obtain rfl := Option.some.inj (hr.symm.trans hq)
        exact ⟨c', _, (hget c').trans (if_pos rfl), hrest⟩
      · exact ⟨c', q, (hget c').trans ((if_neg heq).trans hq), hrest⟩
  constructor
  · intro hbacked k hk
    exact (hsent k).mp (hbacked c _ (Dict.get?_set_self _ _ _) rfl k hk)
  · intro hall c' q hq hcompleted k hk
    rw [hsent]
    have hq : (s.requests.set c { r with completed := true }).get? c' = some q := hq
    rw [Dict.get?_set] at hq
    by_cases heq : c' = c
    · rw [if_pos heq] at hq
      obtain rfl := Option.some.inj hq
      exact hall k hk
    · rw [if_neg heq] at hq
      exact h c' q hq hcompleted k hk

theorem backed_step_iff (h : s.Backed sha256) (hs : s.step sha256 a = some s') :
    s'.Backed sha256 ↔ s.SentBefore sha256 a := by
  by_cases ha : ∃ c, a = .finish c
  · obtain ⟨c, rfl⟩ := ha
    obtain ⟨r, hr, hs⟩ := Option.bind_eq_some_iff.mp hs
    split at hs
    · obtain rfl := Option.some.inj hs
      rw [backed_finish h hr, SentBefore, hr]
      simp only [Option.mem_def, Option.some.injEq, forall_eq']
    · cases hs
  · have ha : ∀ c, a ≠ .finish c := fun c heq => ha ⟨c, heq⟩
    refine iff_of_true ((keeps_step hs ha).backed h) ?_
    unfold SentBefore
    split
    · exact absurd rfl (ha _)
    · trivial

/--
**The workers get the images of all requests exactly as long as each request, when it sends its
command, relies on images that are not empty and were sent to the end.**
-/
theorem served_throughout_iff (sha256 : Base64Image → Base64ImageHash) {nodeIds : List NodeId}
    (hne : nodeIds ≠ []) {as : List Action} {s : Imaging}
    (h : (machine sha256 nodeIds).run (init nodeIds) as = some s) :
    (∀ k t, (machine sha256 nodeIds).run (init nodeIds) (as.take k) = some t → t.Served sha256)
      ↔ ∀ k a t, as[k]? = some a →
        (machine sha256 nodeIds).run (init nodeIds) (as.take k) = some t →
          t.SentBefore sha256 a := by
  have hbase : ∀ k t, (machine sha256 nodeIds).run (init nodeIds) (as.take k) = some t →
      Base sha256 t := fun k t ht =>
    Machine.invariant_of_run (P := Base sha256) (fun _ _ _ hi hs => base_step hi hs)
      (base_init hne) ht
  have hinit : (init nodeIds).Backed sha256 := fun c r hr => by cases hr
  rw [← Machine.throughout_iff (P := Backed sha256) (fun _ _ _ hi hs => backed_step_iff hi hs)
    hinit h]
  constructor
  · exact fun hall k t ht => (hbase k t ht).served_iff.mp (hall k t ht)
  · exact fun hall k t ht => (hbase k t ht).served_iff.mpr (hall k t ht)

/-- A request is aborted before it sent a chunk, and others share images. -/
def sharing : List Action :=
  [.begin 1 1 ["a", "b"], .send 1, .begin 1 2 ["c"], .abort 2, .send 1, .apply 1, .finish 1,
    .begin 1 3 ["b", "d"], .send 3, .finish 3, .begin 2 4 ["c", "a"], .send 4, .apply 2, .send 4,
    .apply 1, .finish 4]

theorem served_throughout_sharing : ∃ s,
    (machine codeOf [1, 2]).run (init [1, 2]) sharing = some s ∧ ∀ k t,
      (machine codeOf [1, 2]).run (init [1, 2]) (sharing.take k) = some t → t.Served codeOf := by
  have hrun : ((machine codeOf [1, 2]).runWhen (SentBefore codeOf) (init [1, 2])
      sharing).isSome := by
    decide +kernel
  obtain ⟨s, hs⟩ := Option.isSome_iff_exists.mp hrun
  obtain ⟨h, hall⟩ := Machine.runWhen_eq_some.mp hs
  exact ⟨s, h, (served_throughout_iff codeOf (List.cons_ne_nil _ _) h).mpr hall⟩

/-- A request relies on an image of one that was aborted. -/
def sharingAborted : List Action :=
  [.begin 1 1 ["a"], .abort 1, .begin 1 2 ["a"], .finish 2]

theorem not_served_aborted : ¬ ∀ (sha256 : Base64Image → Base64ImageHash) (nodeIds : List NodeId)
    (s : Imaging), (machine sha256 nodeIds).Reachable s → s.Served sha256 := by
  intro h
  have hrun : ((machine codeOf [1]).run (init [1]) sharingAborted).map (fun s =>
      (s.workers.get? 1, s.log, (s.requests.get? 2).map fun r => (r.completed, r.imageHashes)))
      = some (some { nodeId := 1 }, [], some (true, [codeOf "a"])) := by
    decide +kernel
  obtain ⟨s, hs, hstate⟩ := Option.map_eq_some_iff.mp hrun
  obtain ⟨hw, hrest⟩ := Prod.mk.inj hstate
  obtain ⟨hlog, hrequest⟩ := Prod.mk.inj hrest
  obtain ⟨r, hr, hfields⟩ := Option.map_eq_some_iff.mp hrequest
  obtain ⟨hcompleted, hhashes⟩ := Prod.mk.inj hfields
  have hserved := h codeOf [1] s (Machine.reachable_of_run hs) 1 _ hw 2 r hr hcompleted (codeOf "a")
    (by rw [hhashes]; exact List.mem_singleton_self _)
  rw [caughtUp, hlog] at hserved
  cases hserved

end Imaging

end Exo
