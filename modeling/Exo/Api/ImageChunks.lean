import Exo.Api.Images
import Exo.Worker.ImageCache

/-!
# The chunks of a request

What a worker puts together from the chunks of a request are its new images, but for empty ones,
which have no chunks.
-/

namespace Exo

open Lib (Dict slices enumerate flatten_slices slices_eq_nil map_snd_enumerate mem_enumerate
  getElem?_enumerate)
open Worker (assembleImage assembleImages mem_assembleImages assembleImage_of_perm Ascending)

variable {commandId : CommandId} {new : List (Nat × Base64Image)} {img : Base64Image} {idx : Nat}
  {ch : InputImageChunk}

/-! ## Cutting and numbering -/

theorem exoMaxChunkSize_pos : 0 < exoMaxChunkSize := by decide

/-- The slices of an image make it up. -/
theorem join_slices (img : Base64Image) :
    String.join ((slices exoMaxChunkSize img.toList).map String.ofList) = img := by
  rw [← String.toList_inj, String.toList_join, List.flatMap_map]
  simp only [String.toList_ofList]
  rw [List.flatMap_id', flatten_slices exoMaxChunkSize_pos]

/-- The `i`-th chunk. -/
theorem getElem?_inputChunks {i : Nat} (h : (inputChunks commandId new)[i]? = some ch) :
    ch.commandId = commandId ∧ ch.chunkIndex = i
      ∧ ch.totalChunks = (inputChunks commandId new).length
      ∧ (allChunks new)[i]? = some (ch.imageIndex, ch.data) := by
  rw [inputChunks, List.getElem?_map, getElem?_enumerate, Option.map_map] at h
  obtain ⟨chunk, hchunk, rfl⟩ := Option.map_eq_some_iff.mp h
  refine ⟨rfl, rfl, ?_, hchunk⟩
  rw [inputChunks, List.length_map, Lib.enumerate_length]
  rfl

theorem ascending_inputChunks : Ascending (inputChunks commandId new) := by
  refine List.pairwise_iff_getElem.mpr fun i j hi hj hlt => ?_
  rw [(getElem?_inputChunks (List.getElem?_eq_getElem hi)).2.1,
    (getElem?_inputChunks (List.getElem?_eq_getElem hj)).2.1]
  exact hlt

/-- The data of the chunks with an image index. -/
theorem data_inputChunks (commandId : CommandId) (new : List (Nat × Base64Image)) (idx : Nat) :
    ((inputChunks commandId new).filter (·.imageIndex = idx)).map (·.data)
      = ((allChunks new).filter (·.1 = idx)).map Prod.snd := by
  unfold inputChunks
  rw [List.filter_map, List.map_map]
  conv_rhs => rw [← map_snd_enumerate (allChunks new), List.filter_map, List.map_map]
  rfl

theorem filter_allChunks_of_notMem (h : idx ∉ new.map Prod.fst) :
    (allChunks new).filter (·.1 = idx) = [] := by
  rw [List.filter_eq_nil_iff]
  intro chunk hchunk
  obtain ⟨e, he, hin⟩ := List.mem_flatMap.mp hchunk
  obtain ⟨part, -, rfl⟩ := List.mem_map.mp hin
  have hne : e.1 ≠ idx := fun heq => h (heq ▸ List.mem_map_of_mem he)
  simpa using hne

/-- Those of one image. -/
theorem filter_allChunks (hnd : (new.map Prod.fst).Nodup) (hmem : (idx, img) ∈ new) :
    ((allChunks new).filter (·.1 = idx)).map Prod.snd
      = (slices exoMaxChunkSize img.toList).map String.ofList := by
  induction new with
  | nil => cases hmem
  | cons e new ih =>
      rw [List.map_cons, List.nodup_cons] at hnd
      obtain ⟨hfresh, hnd⟩ := hnd
      have hcons : allChunks (e :: new)
          = (slices exoMaxChunkSize e.2.toList).map (fun part => (e.1, String.ofList part))
            ++ allChunks new := rfl
      rw [hcons, List.filter_append, List.map_append]
      rcases List.mem_cons.mp hmem with rfl | hmem
      · rw [filter_allChunks_of_notMem hfresh, List.filter_eq_self.mpr, List.map_map]
        · simp [Function.comp_def]
        · intro chunk hchunk
          obtain ⟨part, -, rfl⟩ := List.mem_map.mp hchunk
          exact decide_eq_true rfl
      · have hne : e.1 ≠ idx := fun heq => hfresh (heq ▸ List.mem_map_of_mem hmem)
        rw [ih hnd hmem, List.filter_eq_nil_iff.mpr, List.map_nil, List.nil_append]
        intro chunk hchunk
        obtain ⟨part, -, rfl⟩ := List.mem_map.mp hchunk
        simpa using hne

/-- **What the chunks of a request make up are its new images that are not empty.** -/
theorem mem_assembleImages_inputChunks (hnd : (new.map Prod.fst).Nodup) :
    img ∈ assembleImages (inputChunks commandId new) ↔ img ≠ "" ∧ ∃ idx, (idx, img) ∈ new := by
  have himage : ∀ idx img, (idx, img) ∈ new →
      assembleImage (inputChunks commandId new) idx = img := by
    intro idx img hmem
    rw [assembleImage_of_perm (.refl _) ascending_inputChunks, data_inputChunks,
      filter_allChunks hnd hmem, join_slices]
  rw [mem_assembleImages]
  constructor
  · intro ⟨ch, hch, himg⟩
    obtain ⟨i, hi⟩ := List.mem_iff_getElem?.mp hch
    have hchunk := List.mem_of_getElem? (getElem?_inputChunks hi).2.2.2
    obtain ⟨⟨idx, img'⟩, hmem, hin⟩ := List.mem_flatMap.mp hchunk
    obtain ⟨part, hpart, heq⟩ := List.mem_map.mp hin
    obtain ⟨hidx, -⟩ := Prod.mk.inj heq
    rw [← hidx, himage idx img' hmem] at himg
    subst himg
    refine ⟨fun hempty => ?_, idx, hmem⟩
    have hnone := (slices_eq_nil exoMaxChunkSize_pos).mpr (String.toList_eq_nil_iff.mpr hempty)
    rw [hnone] at hpart
    cases hpart
  · intro ⟨hne, idx, hmem⟩
    have hslices : slices exoMaxChunkSize img.toList ≠ [] := fun hnone =>
      hne (String.toList_eq_nil_iff.mp ((slices_eq_nil exoMaxChunkSize_pos).mp hnone))
    obtain ⟨part, hpart⟩ := List.exists_mem_of_ne_nil _ hslices
    have hchunk : (idx, String.ofList part) ∈ allChunks new :=
      List.mem_flatMap.mpr ⟨(idx, img), hmem, List.mem_map_of_mem hpart⟩
    obtain ⟨i, hi⟩ := List.mem_iff_getElem?.mp hchunk
    refine ⟨_, List.mem_map_of_mem (mem_enumerate.2 hi), ?_⟩
    exact himage idx img hmem

/-! ## New images -/

section New

variable {sha256 : Base64Image → Base64ImageHash} {sent : List Base64ImageHash}
  {images : List (Nat × Base64Image)}

theorem markNewImages_cons (sent : List Base64ImageHash) (idx : Nat) (img : Base64Image)
    (images : List (Nat × Base64Image)) :
    markNewImages sha256 sent ((idx, img) :: images)
      = if sha256 img ∈ sent then markNewImages sha256 sent images
        else ((markNewImages sha256 (sha256 img :: sent) images).1,
          (idx, img) :: (markNewImages sha256 (sha256 img :: sent) images).2) := rfl

theorem sublist_markNewImages : (markNewImages sha256 sent images).2.Sublist images := by
  induction images generalizing sent with
  | nil => exact .slnil
  | cons e images ih =>
      rw [markNewImages_cons]
      split
      · exact ih.cons _
      · exact ih.cons_cons _

theorem nodup_markNewImages {images : List Base64Image} :
    ((markNewImages sha256 sent (enumerate images)).2.map Prod.fst).Nodup := by
  have hkeys : ((enumerate images).map Prod.fst).Nodup := by
    have hrange : (enumerate images).map Prod.fst = List.range images.length := by
      simp [enumerate, Function.comp_def, List.zipIdx_map_snd, List.range_eq_range']
    rw [hrange]
    exact List.nodup_range
  exact hkeys.sublist (sublist_markNewImages.map _)

/-- The hashes that were sent, and those of the images. -/
theorem mem_markNewImages_fst {h : Base64ImageHash} :
    h ∈ (markNewImages sha256 sent images).1 ↔ h ∈ sent ∨ ∃ e ∈ images, sha256 e.2 = h := by
  induction images generalizing sent with
  | nil => simp [markNewImages]
  | cons e images ih =>
      rw [markNewImages_cons]
      split
      · rename_i hsent
        rw [ih]
        constructor
        · exact fun hor => hor.imp_right fun ⟨e', he', heq⟩ => ⟨e', List.mem_cons_of_mem _ he', heq⟩
        · rintro (hin | ⟨e', he', rfl⟩)
          · exact .inl hin
          · rcases List.mem_cons.mp he' with rfl | he'
            · exact .inl hsent
            · exact .inr ⟨e', he', rfl⟩
      · rw [ih, List.mem_cons]
        constructor
        · rintro ((rfl | hin) | ⟨e', he', rfl⟩)
          · exact .inr ⟨e, List.mem_cons_self, rfl⟩
          · exact .inl hin
          · exact .inr ⟨e', List.mem_cons_of_mem _ he', rfl⟩
        · rintro (hin | ⟨e', he', rfl⟩)
          · exact .inl (.inr hin)
          · rcases List.mem_cons.mp he' with rfl | he'
            · exact .inl (.inl rfl)
            · exact .inr ⟨e', he', rfl⟩

/-- An image is new if its hash was not sent and none before it has the hash. -/
theorem mem_markNewImages_snd :
    (∃ idx, (idx, img) ∈ (markNewImages sha256 sent images).2) ↔ sha256 img ∉ sent
      ∧ (images.map Prod.snd).find? (fun img' => sha256 img' = sha256 img) = some img := by
  induction images generalizing sent with
  | nil => simp [markNewImages]
  | cons e images ih =>
      obtain ⟨idx, img'⟩ := e
      rw [markNewImages_cons, List.map_cons, List.find?_cons]
      by_cases heq : sha256 img' = sha256 img
      · rw [decide_eq_true heq]
        by_cases hsent : sha256 img' ∈ sent
        · rw [if_pos hsent, ih, ← heq]
          exact iff_of_false (fun h => h.1 hsent) fun h => h.1 hsent
        · rw [if_neg hsent]
          dsimp only
          constructor
          · intro ⟨idx', hmem⟩
            rcases List.mem_cons.mp hmem with hmem | hmem
            · obtain ⟨-, rfl⟩ := Prod.mk.inj hmem
              exact ⟨hsent, rfl⟩
            · have hfresh := (ih.mp ⟨idx', hmem⟩).1
              exact absurd (heq ▸ List.mem_cons_self) hfresh
          · intro ⟨_, hsame⟩
            obtain rfl := Option.some.inj hsame
            exact ⟨idx, List.mem_cons_self⟩
      · rw [decide_eq_false heq]
        by_cases hsent : sha256 img' ∈ sent
        · rw [if_pos hsent, ih]
        · rw [if_neg hsent]
          have hne : ∀ idx', (idx', img) ≠ (idx, img') := by
            intro idx' hsame
            exact heq (congrArg sha256 (Prod.mk.inj hsame).2.symm)
          have hfresh : sha256 img ∉ sha256 img' :: sent ↔ sha256 img ∉ sent := by
            rw [List.mem_cons, not_or, and_iff_right (fun h => heq h.symm)]
          simp only [List.mem_cons, hne, false_or]
          rw [ih, hfresh]

end New

end Exo
