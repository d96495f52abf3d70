import Exo.Lib.Pieces
import Exo.Worker.Main

/-!
# The images a worker has put together

The chunks of a command are numbered, and each says how many there are. `ImageInv` is about what a
worker makes of them in whatever order they come and however often: it has the images of a command
when all chunks of it were applied, and what it has was put together from all chunks of a command.
-/

namespace Exo

open Lib (Dict mergeSort_eq_of_perm values_perm_of_numbered length_of_numbered)

namespace Worker

/-! ## Putting images together -/

section Assembly

variable {chunks all : List InputImageChunk} {img : Base64Image}

/-- One of the images of `assembleImages`. -/
def assembleImage (chunks : List InputImageChunk) (imageIndex : Nat) : Base64Image :=
  String.join ((((chunks.filter (·.imageIndex = imageIndex)).mergeSort
    fun a b => a.chunkIndex ≤ b.chunkIndex)).map (·.data))

theorem mem_assembleImages :
    img ∈ assembleImages chunks ↔ ∃ ch ∈ chunks, assembleImage chunks ch.imageIndex = img := by
  have hdef : assembleImages chunks
      = ((chunks.map (·.imageIndex)).eraseDups).map (assembleImage chunks) := rfl
  rw [hdef, List.mem_map]
  constructor
  · intro ⟨i, hi, himg⟩
    obtain ⟨ch, hch, rfl⟩ := List.mem_map.mp (List.mem_eraseDups.mp hi)
    exact ⟨ch, hch, himg⟩
  · intro ⟨ch, hch, himg⟩
    exact ⟨ch.imageIndex, List.mem_eraseDups.mpr (List.mem_map_of_mem hch), himg⟩

/-- The chunks come in the order of their numbers. -/
def Ascending (chunks : List InputImageChunk) : Prop :=
  chunks.Pairwise fun a b => a.chunkIndex < b.chunkIndex

theorem assembleImage_of_perm (hperm : chunks.Perm all) (hall : Ascending all) (imageIndex : Nat) :
    assembleImage chunks imageIndex
      = String.join ((all.filter (·.imageIndex = imageIndex)).map (·.data)) := by
  unfold assembleImage
  rw [mergeSort_eq_of_perm (hperm.filter _) (hall.filter _)]

/-- The order in which the chunks came is of no matter. -/
theorem mem_assembleImages_of_perm (hperm : chunks.Perm all) (hall : Ascending all) :
    img ∈ assembleImages chunks ↔ img ∈ assembleImages all := by
  have hsame : ∀ imageIndex, assembleImage chunks imageIndex = assembleImage all imageIndex :=
    fun imageIndex => (assembleImage_of_perm hperm hall imageIndex).trans
      (assembleImage_of_perm (.refl all) hall imageIndex).symm
  rw [mem_assembleImages, mem_assembleImages]
  constructor
  · intro ⟨ch, hch, himg⟩
    exact ⟨ch, hperm.mem_iff.mp hch, (hsame _).symm.trans himg⟩
  · intro ⟨ch, hch, himg⟩
    exact ⟨ch, hperm.mem_iff.mpr hch, (hsame _).trans himg⟩

end Assembly

/-! ## The buffer and the cache -/

section Cache

variable {sha256 : Base64Image → Base64ImageHash} {spec : CommandId → List InputImageChunk}
  {applied applied' : CommandId → InputImageChunk → Prop} {w w' : Worker} {c : CommandId}
  {ch : InputImageChunk}

/-- The chunks of every command are numbered, and say how many there are. -/
structure Numbered (spec : CommandId → List InputImageChunk) : Prop where
  index : ∀ c i (ch : InputImageChunk), (spec c)[i]? = some ch → ch.chunkIndex = i
  total : ∀ c, ∀ ch ∈ spec c, ch.totalChunks = (spec c).length

theorem Numbered.ascending (h : Numbered spec) (c : CommandId) : Ascending (spec c) := by
  refine List.pairwise_iff_getElem.mpr fun i j hi hj hlt => ?_
  rw [h.index c i _ (List.getElem?_eq_getElem hi), h.index c j _ (List.getElem?_eq_getElem hj)]
  exact hlt

theorem Numbered.getElem? (h : Numbered spec) (hmem : ch ∈ spec c) :
    (spec c)[ch.chunkIndex]? = some ch := by
  obtain ⟨i, hi⟩ := List.mem_iff_getElem?.mp hmem
  rw [h.index c i ch hi]
  exact hi

/-- The worker has all images that the chunks of the command make up. -/
def HasImages (sha256 : Base64Image → Base64ImageHash) (spec : CommandId → List InputImageChunk)
    (w : Worker) (c : CommandId) : Prop :=
  ∀ img ∈ assembleImages (spec c), (w.imageCache.get? (sha256 img)).isSome

/-- The chunks that were applied, and what the worker has of them. -/
structure ImageInv (sha256 : Base64Image → Base64ImageHash)
    (spec : CommandId → List InputImageChunk) (applied : CommandId → InputImageChunk → Prop)
    (w : Worker) : Prop where
  sound : ∀ c ch, applied c ch → ch ∈ spec c
  known : ∀ c d, w.inputChunkBuffer.get? c = some d → spec c ≠ []
  counted : ∀ c d, w.inputChunkBuffer.get? c = some d →
    w.inputChunkCounts.get? c = some (spec c).length
  /-- A buffer has chunks that were applied, under their numbers. -/
  filed : ∀ c d, w.inputChunkBuffer.get? c = some d →
    ∀ i ch, d.get? i = some ch → (spec c)[i]? = some ch ∧ applied c ch
  /-- What was applied is in the buffer as long as it is of use. -/
  kept : ∀ c ch, applied c ch → w.HasImages sha256 spec c ∨
    ∃ d, w.inputChunkBuffer.get? c = some d ∧ d.get? ch.chunkIndex = some ch
  full : ∀ c d, w.inputChunkBuffer.get? c = some d → d.entries.length = (spec c).length →
    w.HasImages sha256 spec c
  /-- An image was put together from all chunks of a command. -/
  cached : ∀ h img, w.imageCache.get? h = some img → sha256 img = h ∧
    ∃ c, img ∈ assembleImages (spec c) ∧ ∀ ch ∈ spec c, applied c ch

/-- Nothing was applied yet. -/
theorem imageInv_init (hbuffer : w.inputChunkBuffer = .empty) (hcache : w.imageCache = .empty) :
    w.ImageInv sha256 spec fun _ _ => False where
  sound := fun _ _ h => h.elim
  known := fun c d hd => by
    rw [hbuffer] at hd
    cases hd
  counted := fun c d hd => by
    rw [hbuffer] at hd
    cases hd
  filed := fun c d hd => by
    rw [hbuffer] at hd
    cases hd
  kept := fun _ _ h => h.elim
  full := fun c d hd => by
    rw [hbuffer] at hd
    cases hd
  cached := fun h img himg => by
    rw [hcache] at himg
    cases himg

theorem HasImages.mono (h : w.HasImages sha256 spec c)
    (hcache : ∀ h, (w.imageCache.get? h).isSome → (w'.imageCache.get? h).isSome) :
    w'.HasImages sha256 spec c :=
  fun img himg => hcache _ (h img himg)

/-- The part of a worker that is about images stays, but for chunks that are of no use any more. -/
theorem ImageInv.same (h : w.ImageInv sha256 spec applied)
    (hcache : w'.imageCache = w.imageCache) (hcounts : w'.inputChunkCounts = w.inputChunkCounts)
    (hbuffer : w'.inputChunkBuffer = w.inputChunkBuffer) : w'.ImageInv sha256 spec applied where
  sound := h.sound
  known := by
    rw [hbuffer]
    exact h.known
  counted := by
    rw [hcounts, hbuffer]
    exact h.counted
  filed := by
    rw [hbuffer]
    exact h.filed
  kept := fun c ch hch => by
    rw [hbuffer, HasImages, hcache]
    exact h.kept c ch hch
  full := fun c d hd => by
    rw [hbuffer] at hd
    rw [HasImages, hcache]
    exact h.full c d hd
  cached := by
    rw [hcache]
    exact h.cached

/-- A command that has no chunks yet gets some. -/
theorem ImageInv.extend {spec' : CommandId → List InputImageChunk}
    (h : w.ImageInv sha256 spec applied) (hspec : ∀ c, spec c ≠ [] → spec' c = spec c) :
    w.ImageInv sha256 spec' applied where
  sound := fun c ch hch => by
    rw [hspec c (List.ne_nil_of_mem (h.sound c ch hch))]
    exact h.sound c ch hch
  known := fun c d hd => by
    rw [hspec c (h.known c d hd)]
    exact h.known c d hd
  counted := fun c d hd => by
    rw [hspec c (h.known c d hd)]
    exact h.counted c d hd
  filed := fun c d hd => by
    rw [hspec c (h.known c d hd)]
    exact h.filed c d hd
  kept := fun c ch hch => by
    rw [HasImages, hspec c (List.ne_nil_of_mem (h.sound c ch hch))]
    exact h.kept c ch hch
  full := fun c d hd => by
    rw [HasImages, hspec c (h.known c d hd)]
    exact h.full c d hd
  cached := fun k img himg => by
    obtain ⟨hkey, c, hin, hall⟩ := h.cached k img himg
    obtain ⟨ch, hch, -⟩ := mem_assembleImages.1 hin
    have heq := hspec c (List.ne_nil_of_mem hch)
    exact ⟨hkey, c, by rw [heq]; exact hin, by rw [heq]; exact hall⟩

/-- The buffer of a command whose images are there is dropped. -/
theorem ImageInv.dropChunks (h : w.ImageInv sha256 spec applied)
    (himages : w.HasImages sha256 spec c) :
    (w.dropChunks c).ImageInv sha256 spec applied := by
  have hother : ∀ c' d, (w.dropChunks c).inputChunkBuffer.get? c' = some d →
      c' ≠ c ∧ w.inputChunkBuffer.get? c' = some d := by
    intro c' d hd
    have hne : c' ≠ c := by
      intro heq
      subst heq
      exact absurd ((Dict.get?_erase_self _ _).symm.trans hd) (by simp)
    exact ⟨hne, (Dict.get?_erase_ne _ hne).symm.trans hd⟩
  refine ⟨h.sound, fun c' d hd => ?_, fun c' d hd => ?_, fun c' d hd => ?_, fun c' ch hch => ?_,
    fun c' d hd => ?_, h.cached⟩
  · exact h.known c' d (hother c' d hd).2
  · obtain ⟨hne, hd⟩ := hother c' d hd
    exact (Dict.get?_erase_ne _ hne).trans (h.counted c' d hd)
  · exact h.filed c' d (hother c' d hd).2
  · by_cases heq : c' = c
    · subst heq
      exact .inl himages
    · rcases h.kept c' ch hch with hhas | ⟨d, hd, hget⟩
      · exact .inl hhas
      · exact .inr ⟨d, (Dict.get?_erase_ne _ heq).trans hd, hget⟩
  · exact h.full c' d (hother c' d hd).2

/-- What was put together is in the cache, and what was there before under another key. -/
theorem isSome_foldl_set {imgs : List Base64Image} {cache : Dict Base64ImageHash Base64Image}
    {h : Base64ImageHash} :
    ((imgs.foldl (fun cache img => cache.set (sha256 img) img) cache).get? h).isSome
      ↔ (∃ img ∈ imgs, sha256 img = h) ∨ (cache.get? h).isSome := by
  rw [Dict.get?_foldl_set sha256, Option.isSome_or, Bool.or_eq_true, List.getLast?_isSome,
    ← List.length_pos_iff, List.length_filter_pos_iff]
  simp only [decide_eq_true_eq]

/-- The buffer of a command with one more chunk. -/
def bufferedWith (w : Worker) (c : CommandId) (ch : InputImageChunk) : Dict Nat InputImageChunk :=
  ((w.inputChunkBuffer.get? c).getD .empty).set ch.chunkIndex ch

variable {c' : CommandId}

theorem get?_bufferChunk :
    (w.bufferChunk sha256 c ch).inputChunkBuffer.get? c'
      = if c' = c then some (w.bufferedWith c ch) else w.inputChunkBuffer.get? c' :=
  Dict.get?_set _ _ _ _

theorem counts_bufferChunk_ne (hne : c' ≠ c) :
    (w.bufferChunk sha256 c ch).inputChunkCounts.get? c' = w.inputChunkCounts.get? c' := by
  unfold Worker.bufferChunk
  dsimp only
  split
  · rfl
  · exact Dict.get?_set_ne _ _ hne

/-- The first chunk says how many there are. -/
theorem ImageInv.counts_bufferChunk (h : w.ImageInv sha256 spec applied) (hspec : Numbered spec)
    (hmem : ch ∈ spec c) :
    (w.bufferChunk sha256 c ch).inputChunkCounts.get? c = some (spec c).length := by
  unfold Worker.bufferChunk
  dsimp only
  split
  · rename_i hknown
    obtain ⟨d, hd⟩ := Option.isSome_iff_exists.mp hknown
    exact h.counted c d hd
  · rw [← hspec.total c ch hmem]
    exact Dict.get?_set_self _ _ _

/-- The cache changes when the last chunk comes, or one comes again after it. -/
theorem ImageInv.cache_bufferChunk (h : w.ImageInv sha256 spec applied) (hspec : Numbered spec)
    (hmem : ch ∈ spec c) :
    (w.bufferChunk sha256 c ch).imageCache
      = if (w.bufferedWith c ch).entries.length = (spec c).length then
          (assembleImages (w.bufferedWith c ch).values).foldl
            (fun cache img => cache.set (sha256 img) img) w.imageCache
        else w.imageCache := by
  have hdef : (w.bufferChunk sha256 c ch).imageCache
      = if (w.bufferChunk sha256 c ch).inputChunkCounts.get? c
            = some (w.bufferedWith c ch).entries.length then
          (assembleImages (w.bufferedWith c ch).values).foldl
            (fun cache img => cache.set (sha256 img) img) w.imageCache
        else w.imageCache := rfl
  rw [hdef, h.counts_bufferChunk hspec hmem]
  simp only [Option.some.injEq, eq_comm]

variable {ch' : InputImageChunk}

/-- What is in the buffer then. -/
theorem ImageInv.filed_bufferedWith (h : w.ImageInv sha256 spec applied) (hspec : Numbered spec)
    (hmem : ch ∈ spec c) {i : Nat}
    (hget : (w.bufferedWith c ch).get? i = some ch') :
    (spec c)[i]? = some ch' ∧ (applied c ch' ∨ ch' = ch) := by
  rw [bufferedWith, Dict.get?_set] at hget
  by_cases hi : i = ch.chunkIndex
  · rw [if_pos hi] at hget
    obtain rfl := Option.some.inj hget
    rw [hi]
    exact ⟨hspec.getElem? hmem, .inr rfl⟩
  · rw [if_neg hi] at hget
    cases hd : w.inputChunkBuffer.get? c with
    | none =>
        rw [hd] at hget
        cases hget
    | some d =>
        rw [hd] at hget
        obtain ⟨hspec', happlied⟩ := h.filed c d hd i ch' hget
        exact ⟨hspec', .inl happlied⟩

/-- A chunk is applied. -/
theorem ImageInv.bufferChunk (h : w.ImageInv sha256 spec applied) (hspec : Numbered spec)
    (hmem : ch ∈ spec c) :
    (w.bufferChunk sha256 c ch).ImageInv sha256 spec
      fun c' ch' => applied c' ch' ∨ (c' = c ∧ ch' = ch) := by
  have hcache := h.cache_bufferChunk hspec hmem
  have hfiled : ∀ i ch', (w.bufferedWith c ch).get? i = some ch' → (spec c)[i]? = some ch' :=
    fun i ch' hget => (h.filed_bufferedWith hspec hmem hget).1
  have hmono : ∀ h, (w.imageCache.get? h).isSome →
      ((w.bufferChunk sha256 c ch).imageCache.get? h).isSome := by
    intro h hsome
    rw [hcache]
    split
    · exact isSome_foldl_set.2 (.inr hsome)
    · exact hsome
  have hfull : (w.bufferedWith c ch).entries.length = (spec c).length →
      (w.bufferChunk sha256 c ch).HasImages sha256 spec c := by
    intro hlen img himg
    have hperm := values_perm_of_numbered hfiled hlen
    rw [hcache, if_pos hlen]
    exact isSome_foldl_set.2
      (.inl ⟨img, (mem_assembleImages_of_perm hperm (hspec.ascending c)).mpr himg, rfl⟩)
  refine ⟨fun c' ch' hch => ?_, fun c' d hd => ?_, fun c' d hd => ?_, fun c' d hd i ch' hget => ?_,
    fun c' ch' hch => ?_, fun c' d hd hlen => ?_, fun k img himg => ?_⟩
  · rcases hch with hch | ⟨rfl, rfl⟩
    · exact h.sound c' ch' hch
    · exact hmem
  · rw [get?_bufferChunk] at hd
    by_cases heq : c' = c
    · subst heq
      exact List.ne_nil_of_mem hmem
    · rw [if_neg heq] at hd
      exact h.known c' d hd
  · rw [get?_bufferChunk] at hd
    by_cases heq : c' = c
    · subst heq
      exact h.counts_bufferChunk hspec hmem
    · rw [if_neg heq] at hd
      rw [counts_bufferChunk_ne heq]
      exact h.counted c' d hd
  · rw [get?_bufferChunk] at hd
    by_cases heq : c' = c
    · subst heq
      rw [if_pos rfl] at hd
      obtain rfl := Option.some.inj hd
      obtain ⟨hget', happlied⟩ := h.filed_bufferedWith hspec hmem hget
      exact ⟨hget', happlied.imp_right fun heq => ⟨rfl, heq⟩⟩
    · rw [if_neg heq] at hd
      obtain ⟨hget', happlied⟩ := h.filed c' d hd i ch' hget
      exact ⟨hget', .inl happlied⟩
  · -- what was in the buffer is still there, at its number
    rw [get?_bufferChunk]
    by_cases heq : c' = c
    · subst heq
      rw [if_pos rfl]
      by_cases hindex : ch'.chunkIndex = ch.chunkIndex
      · have hmem' : ch' ∈ spec c' := by
          rcases hch with hch | ⟨-, rfl⟩
          · exact h.sound c' ch' hch
          · exact hmem
        have hsame : ch' = ch := by
          have hget := hspec.getElem? hmem'
          rw [hindex, hspec.getElem? hmem] at hget
          exact (Option.some.inj hget).symm
        subst hsame
        exact .inr ⟨_, rfl, Dict.get?_set_self _ _ _⟩
      · rcases hch with hch | ⟨-, rfl⟩
        · rcases h.kept c' ch' hch with hhas | ⟨d, hd, hget⟩
          · exact .inl (hhas.mono hmono)
          · refine .inr ⟨_, rfl, ?_⟩
            rw [bufferedWith, hd, Dict.get?_set_ne _ _ hindex]
            exact hget
        · exact absurd rfl hindex
    · rw [if_neg heq]
      rcases hch with hch | ⟨hc, -⟩
      · exact (h.kept c' ch' hch).imp_left fun hhas => hhas.mono hmono
      · exact absurd hc heq
  · rw [get?_bufferChunk] at hd
    by_cases heq : c' = c
    · subst heq
      rw [if_pos rfl] at hd
      obtain rfl := Option.some.inj hd
      exact hfull hlen
    · rw [if_neg heq] at hd
      exact (h.full c' d hd hlen).mono hmono
  · -- an image is of before, or was put together now
    have hold : w.imageCache.get? k = some img → sha256 img = k ∧
        ∃ c', img ∈ assembleImages (spec c') ∧
          ∀ ch' ∈ spec c', applied c' ch' ∨ (c' = c ∧ ch' = ch) := by
      intro himg
      obtain ⟨hkey, c', hin, hall⟩ := h.cached k img himg
      exact ⟨hkey, c', hin, fun ch' hch' => .inl (hall ch' hch')⟩
    rw [hcache] at himg
    by_cases hlen : (w.bufferedWith c ch).entries.length = (spec c).length
    · rw [if_pos hlen, Dict.get?_foldl_set sha256] at himg
      rcases Option.or_eq_some_iff.mp himg with himg | ⟨-, himg⟩
      · have hin := List.mem_of_getLast? himg
        rw [List.mem_filter, decide_eq_true_eq] at hin
        have hperm := values_perm_of_numbered hfiled hlen
        refine ⟨hin.2, c, (mem_assembleImages_of_perm hperm (hspec.ascending c)).mp hin.1, ?_⟩
        intro ch' hch'
        obtain ⟨i, hi⟩ := Dict.mem_values.1 (hperm.mem_iff.mpr hch')
        exact (h.filed_bufferedWith hspec hmem hi).2.imp_right fun heq => ⟨rfl, heq⟩
      · exact hold himg
    · rw [if_neg hlen] at himg
      exact hold himg

/-- **All images of a command are there when all its chunks were applied.** -/
theorem ImageInv.hasImages (h : w.ImageInv sha256 spec applied) (hspec : Numbered spec)
    (hall : ∀ ch ∈ spec c, applied c ch) : w.HasImages sha256 spec c := by
  intro img himg
  by_contra hnone
  have hnot : ¬ w.HasImages sha256 spec c := fun hhas => hnone (hhas img himg)
  have hkept : ∀ ch ∈ spec c, ∃ d, w.inputChunkBuffer.get? c = some d
      ∧ d.get? ch.chunkIndex = some ch := fun ch hch =>
    (h.kept c ch (hall ch hch)).resolve_left hnot
  obtain ⟨ch, hch, -⟩ := mem_assembleImages.1 himg
  obtain ⟨d, hd, -⟩ := hkept ch hch
  have hnumbered : ∀ i ch', (spec c)[i]? = some ch' → d.get? i = some ch' := by
    intro i ch' hi
    obtain ⟨d', hd', hget⟩ := hkept ch' (List.mem_of_getElem? hi)
    obtain rfl := Option.some.inj (hd.symm.trans hd')
    rw [hspec.index c i ch' hi] at hget
    exact hget
  exact hnot (h.full c d hd (length_of_numbered (fun i ch' hi => (h.filed c d hd i ch' hi).1)
    hnumbered))

/-- **The cache has an image under a key exactly when all chunks of one were applied.** -/
theorem ImageInv.isSome_iff (h : w.ImageInv sha256 spec applied) (hspec : Numbered spec)
    {k : Base64ImageHash} :
    (w.imageCache.get? k).isSome ↔ ∃ c, (∃ img ∈ assembleImages (spec c), sha256 img = k)
      ∧ ∀ ch ∈ spec c, applied c ch := by
  constructor
  · intro hsome
    obtain ⟨img, himg⟩ := Option.isSome_iff_exists.mp hsome
    obtain ⟨hkey, c, hin, hall⟩ := h.cached k img himg
    exact ⟨c, ⟨img, hin, hkey⟩, hall⟩
  · intro ⟨c, ⟨img, hin, hkey⟩, hall⟩
    exact hkey ▸ h.hasImages hspec hall img hin

/-! ## Steps of a worker -/

variable {log events : List EventBody} {body : EventBody}

theorem ImageInv.congr (h : w.ImageInv sha256 spec applied)
    (hiff : ∀ c ch, applied c ch ↔ applied' c ch) : w.ImageInv sha256 spec applied' := by
  have heq : applied = applied' := funext fun c => funext fun ch => propext (hiff c ch)
  exact heq ▸ h

/-- The chunk is in the events. -/
def Received (events : List EventBody) (c : CommandId) (ch : InputImageChunk) : Prop :=
  .inputChunkReceived c ch ∈ events

theorem received_snoc :
    Received (log ++ [.inputChunkReceived c ch]) c' ch'
      ↔ Received log c' ch' ∨ c' = c ∧ ch' = ch := by
  rw [Received, Received, List.mem_append, List.mem_singleton, EventBody.inputChunkReceived.injEq]

theorem received_snoc_of_ne (hbody : ∀ c ch, body ≠ .inputChunkReceived c ch) :
    Received (log ++ [body]) c ch ↔ Received log c ch := by
  rw [Received, Received, List.mem_append, List.mem_singleton, or_iff_left (hbody c ch).symm]

/-- What is not about chunks leaves the images alone. -/
theorem applyEvent_images (w : Worker) (hbody : ∀ c ch, body ≠ .inputChunkReceived c ch) :
    (w.applyEvent sha256 body).imageCache = w.imageCache
      ∧ (w.applyEvent sha256 body).inputChunkCounts = w.inputChunkCounts
      ∧ (w.applyEvent sha256 body).inputChunkBuffer = w.inputChunkBuffer := by
  cases body with
  | inputChunkReceived c ch => exact absurd rfl (hbody c ch)
  | _ => exact ⟨rfl, rfl, rfl⟩

theorem applyEvent_applied (w : Worker) (body : EventBody) :
    (w.applyEvent sha256 body).applied = w.applied + 1 := by
  cases body <;> rfl

/-- The next event of a log. -/
theorem ImageInv.applyEvent (h : w.ImageInv sha256 spec (Received log)) (hspec : Numbered spec)
    (hbody : ∀ c ch, body = .inputChunkReceived c ch → ch ∈ spec c) :
    (w.applyEvent sha256 body).ImageInv sha256 spec (Received (log ++ [body])) := by
  by_cases hchunk : ∃ c ch, body = .inputChunkReceived c ch
  · obtain ⟨c, ch, rfl⟩ := hchunk
    have hstate : { w with
        state := (EventBody.inputChunkReceived c ch).apply w.state
        applied := w.applied + 1 }.ImageInv sha256 spec (Received log) := h.same rfl rfl rfl
    exact (hstate.bufferChunk hspec (hbody c ch rfl)).congr fun _ _ => (received_snoc).symm
  · have hother : ∀ c ch, body ≠ .inputChunkReceived c ch := fun c ch heq => hchunk ⟨c, ch, heq⟩
    obtain ⟨hcache, hcounts, hbuffer⟩ := applyEvent_images w hother
    exact (h.same hcache hcounts hbuffer).congr fun _ _ => (received_snoc_of_ne hother).symm

/-- Any events, one after the other. -/
def applyEvents (sha256 : Base64Image → Base64ImageHash) (w : Worker) (events : List EventBody) :
    Worker :=
  events.foldl (Worker.applyEvent sha256) w

theorem ImageInv.applyEvents (h : w.ImageInv sha256 spec (Received log)) (hspec : Numbered spec)
    (hevents : ∀ c ch, Received events c ch → ch ∈ spec c) :
    (w.applyEvents sha256 events).ImageInv sha256 spec (Received (log ++ events)) := by
  induction events generalizing log w with
  | nil => simpa [Worker.applyEvents] using h
  | cons body events ih =>
      have hbody : ∀ c ch, body = .inputChunkReceived c ch → ch ∈ spec c := by
        rintro c ch rfl
        exact hevents c ch List.mem_cons_self
      have hfirst := h.applyEvent hspec hbody
      have hrest := ih hfirst fun c ch hmem => hevents c ch (List.mem_cons_of_mem _ hmem)
      rwa [List.append_assoc, List.singleton_append] at hrest

theorem startRunnerTask_images (w : Worker) (task : Task) :
    (w.startRunnerTask task).imageCache = w.imageCache
      ∧ (w.startRunnerTask task).inputChunkCounts = w.inputChunkCounts
      ∧ (w.startRunnerTask task).inputChunkBuffer = w.inputChunkBuffer
      ∧ (w.startRunnerTask task).applied = w.applied := by
  unfold startRunnerTask
  split
  · exact ⟨rfl, rfl, rfl, rfl⟩
  · split
    · exact ⟨rfl, rfl, rfl, rfl⟩
    · unfold startOn
      split
      · exact ⟨rfl, rfl, rfl, rfl⟩
      · dsimp only
        split <;> exact ⟨rfl, rfl, rfl, rfl⟩

theorem actTextGeneration_applied (w : Worker) (task : Task) (c : CommandId)
    (imageHashes : List Base64ImageHash) :
    (w.actTextGeneration task c imageHashes).applied = w.applied := by
  unfold actTextGeneration
  split
  · rfl
  · exact (startRunnerTask_images _ _).2.2.2

/-- A task whose images are there is started. -/
theorem ImageInv.actTextGeneration (h : w.ImageInv sha256 spec applied)
    (himages : w.HasImages sha256 spec c) (task : Task) (imageHashes : List Base64ImageHash) :
    (w.actTextGeneration task c imageHashes).ImageInv sha256 spec applied := by
  unfold Worker.actTextGeneration
  split
  · exact h.same rfl rfl rfl
  · obtain ⟨hcache, hcounts, hbuffer, -⟩ := startRunnerTask_images (w.dropChunks c) _
    exact (h.dropChunks himages).same hcache hcounts hbuffer

end Cache

end Worker

end Exo
