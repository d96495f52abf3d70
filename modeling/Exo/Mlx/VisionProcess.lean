import Exo.Mlx.VisionPlacement

/-!
# Whose features a position gets

Features are given out by counting image tokens, and regions are runs of image tokens; what a token was
written for is not looked at. That is right when the placeholders of the template are all the image
tokens there are, no two of them are next to each other, and every image has features. The cache tells
lists of images apart by their pixels in a row, without their sizes.
-/

namespace Exo.Vision

open Lib

variable {Token F : Type} [DecidableEq Token]

/-! ## What is right -/

/-- What the positions with the marks of an image get, and its media region. -/
structure Places (marks : List (Option Nat)) (result : Pipeline.Result Token) (counts : List Nat)
    (contentHash : String) (image : Nat) : Prop where
  /-- The positions of the image get its features, in order. -/
  features : rowsAt image (marks.zip result.embeddings)
    = (List.range' (featureOffset counts image) (counts.getD image 0)).map Row.image
  /-- No other position gets one of them. -/
  only : ∀ w ∈ marks.zip result.embeddings, ∀ feature, w.2 = .image feature →
    featureOffset counts image ≤ feature → feature < featureOffset counts image + counts.getD image 0 →
      w.1 = some image
  region : ∃ region, result.mediaRegions.toList[image]? = some region
    ∧ region.contentHash = contentHash ∧ ∀ p, region.Covers p ↔ marks[p]? = some (some image)

namespace Pipeline

variable (v : Pipeline Token F)

/-- What a call of `process` finds in the cache, and where the features go. -/
structure Right (cache : FeatureCache F) (images : List Image) (template : Template) : Prop where
  /-- Stored features are those of the same images. -/
  cached : ∀ cached, cache.get? (v.imageCacheKey images) = some cached → cached.images = images
  placed : ∀ i image, images[i]? = some image →
    Places ((v.markedTokens ((v.encodeImages images).map List.length) template).map Prod.snd)
      (v.process (v.lookup cache images).1 images
        ((template.render v.imageToken).map Prod.fst))
      ((v.encodeImages images).map List.length) (v.sha256 image.pixels) i

/-- When the features go where they belong. -/
structure Fits (images : List Image) (template : Template) : Prop where
  positive : ∀ features ∈ v.encodeImages images, features ≠ []
  clean : images ≠ [] → Clean v.imageToken template.first template.shown
  apart : ∀ t ∈ template.shown.dropLast, v.encodeBetween t ≠ []

end Pipeline

/-- No features are cached for other images with the same pixels in a row. -/
def Unmistaken (cache : FeatureCache F) (images : List Image) : Prop :=
  ∀ cacheKey cached, cache.get? cacheKey = some cached →
    cached.images.flatMap (·.pixels) = images.flatMap (·.pixels) → cached.images = images

variable {v : Pipeline Token F} {cache : FeatureCache F} {images : List Image} {template : Template}

/-! ## The cache -/

/-- An entry is stored under the key of its images, with their features. -/
structure Stored (v : Pipeline Token F) (cacheKey : String) (cached : CachedFeatures F) : Prop where
  key : v.imageCacheKey cached.images = cacheKey
  features : cached.perImage = v.encodeImages cached.images

omit [DecidableEq Token] in
theorem get?_evict {cacheKey : String} {cached : CachedFeatures F}
    (h : (evict cache).get? cacheKey = some cached) : cache.get? cacheKey = some cached :=
  Dict.mem_entries.1 (List.mem_of_mem_drop (Dict.mem_entries.2 h))

omit [DecidableEq Token] in
/-- A call of `process` stores features under the key of their images. -/
theorem stored_lookup
    (hstored : ∀ cacheKey cached, cache.get? cacheKey = some cached → Stored v cacheKey cached)
    (images : List Image) (cacheKey : String) (cached : CachedFeatures F)
    (h : (v.lookup cache images).2.get? cacheKey = some cached) : Stored v cacheKey cached := by
  rw [Pipeline.lookup] at h
  cases hget : cache.get? (v.imageCacheKey images) with
  | some found =>
      simp only [hget, Dict.get?_set, Dict.get?_erase] at h
      split at h
      · next hkey =>
        injection h with h
        subst h hkey
        exact hstored _ _ hget
      · next hkey => exact hstored _ _ (by simpa [hkey] using h)
  | none =>
      simp only [hget] at h
      replace h := get?_evict h
      rw [Dict.get?_set] at h
      split at h
      · next hkey =>
        injection h with h
        subst h hkey
        exact ⟨rfl, rfl⟩
      · exact hstored _ _ h

omit [DecidableEq Token] in
theorem stored_of_reachable (hreach : v.machine.Reachable cache) (cacheKey : String)
    (cached : CachedFeatures F) (h : cache.get? cacheKey = some cached) : Stored v cacheKey cached := by
  refine Machine.Reachable.invariant (P := fun cache => ∀ cacheKey cached,
    cache.get? cacheKey = some cached → Stored v cacheKey cached) ?_ ?_ hreach cacheKey cached h
  · exact fun _ _ h => nomatch h
  · intro cache images cache' hstored hstep
    injection hstep with hstep
    subst hstep
    exact stored_lookup hstored images

omit [DecidableEq Token] in
/-- What is found is right as long as no other images have the same pixels in a row. -/
theorem cached_iff (hv : v.Documented) (hreach : v.machine.Reachable cache) :
    (∀ cached, cache.get? (v.imageCacheKey images) = some cached → cached.images = images)
      ↔ Unmistaken cache images := by
  constructor
  · intro hcached cacheKey cached hget hpixels
    have hkey := (stored_of_reachable hreach cacheKey cached hget).key
    rw [Pipeline.imageCacheKey, hpixels] at hkey
    refine hcached cached ?_
    rw [Pipeline.imageCacheKey, hkey]
    exact hget
  · intro hunmistaken cached hget
    exact hunmistaken _ cached hget
      (hv.sha256 (stored_of_reachable hreach _ cached hget).key)

omit [DecidableEq Token] in
/-- The features of a call whose images are not mistaken. -/
theorem lookup_features (hreach : v.machine.Reachable cache)
    (hcached : ∀ cached, cache.get? (v.imageCacheKey images) = some cached → cached.images = images) :
    (v.lookup cache images).1.perImage = v.encodeImages images := by
  rw [Pipeline.lookup]
  cases hget : cache.get? (v.imageCacheKey images) with
  | some cached =>
      rw [(stored_of_reachable hreach _ cached hget).features, hcached cached hget]
  | none => rfl

/-! ## A result by its marked tokens -/

section Result

variable {features : CachedFeatures F} {counts : List Nat}

theorem zip_embeddings (images : List Image) (template : Template) (hv : v.Documented) (hcounts : features.perImage.map List.length = counts) :
    ((v.markedTokens counts template).map Prod.snd).zip
        (v.process features images ((template.render v.imageToken).map Prod.fst)).embeddings
      = placed v.imageTokenId counts.sum 0 (v.markedTokens counts template) := by
  subst hcounts
  rw [← zip_createVisionEmbeddings, map_fst_markedTokens hv features images, ← List.length_flatten]
  rfl

theorem mediaRegions_eq (hv : v.Documented) (hcounts : features.perImage.map List.length = counts) :
    (v.process features images ((template.render v.imageToken).map Prod.fst)).mediaRegions.toList
      = (MediaRegions.findRuns 0 none
          (pads v.imageTokenId (v.markedTokens counts template))).zipIdx.map fun q =>
        { q.1 with contentHash := (images.map fun image => v.sha256 image.pixels).getD q.2 "" } := by
  subst hcounts
  have hpads : ∀ tokens : List (Marked Token), pads v.imageTokenId tokens
      = (tokens.map Prod.fst).map fun t => decide (t = v.imageTokenId) := fun tokens => by
    rw [List.map_map]
    rfl
  rw [hpads, map_fst_markedTokens hv features images]
  rfl

/-- A region of a result is a run of image tokens. -/
theorem getElem?_mediaRegions (hv : v.Documented)
    (hcounts : features.perImage.map List.length = counts) (i : Nat) :
    (v.process features images
        ((template.render v.imageToken).map Prod.fst)).mediaRegions.toList[i]?
      = (MediaRegions.findRuns 0 none (pads v.imageTokenId (v.markedTokens counts template)))[i]?.map
        fun run => { run with contentHash := (images.map fun image => v.sha256 image.pixels).getD i "" } := by
  rw [mediaRegions_eq hv hcounts, List.getElem?_map, List.getElem?_zipIdx, Option.map_map, Nat.zero_add]
  rfl

end Result

/-! ## The prompt of a clean template -/

section Laid

variable {counts : List Nat} {s : List Token} {segs : List (Nat × List Token)}

/-- The tokens of a template are those of `s` and of the images, with tokens between two images where
the template has a text that gives any. -/
structure Laid (v : Pipeline Token F) (counts : List Nat) (template : Template) (s : List Token)
    (segs : List (Nat × List Token)) : Prop where
  tokens : v.markedTokens counts template = plain s ++ laidFrom v.imageTokenId 0 segs
  free : v.imageTokenId ∉ s
  counts : segs.map Prod.fst = counts
  between_free : ∀ seg ∈ segs, v.imageTokenId ∉ seg.2
  between : ∀ (j : Nat) (t : Text), template.shown[j]? = some t →
    ∃ n between, segs[j]? = some (n, between) ∧ (between = [] ↔ v.encodeBetween t = [])

omit [DecidableEq Token] in
theorem getElem?_segments (count : Nat → Nat) (image : Nat) (shown : List Text) (j : Nat) :
    (v.segments count image shown)[j]?
      = shown[j]?.map fun t => (count (image + j), v.encodeBetween t) := by
  induction shown generalizing image j with
  | nil => rfl
  | cons t shown ih =>
      cases j with
      | zero => rfl
      | succ j =>
          rw [Pipeline.segments, List.getElem?_cons_succ, ih, List.getElem?_cons_succ,
            Nat.add_right_comm, Nat.add_assoc]

omit [DecidableEq Token] in
theorem map_fst_segments {shown : List Text} (h : shown.length = counts.length) :
    (v.segments (fun image => counts.getD image 1) 0 shown).map Prod.fst = counts := by
  refine List.ext_getElem? fun j => ?_
  rw [List.getElem?_map, getElem?_segments, Option.map_map, Nat.zero_add]
  by_cases hj : j < shown.length
  · rw [List.getElem?_eq_getElem hj, List.getElem?_eq_getElem (h ▸ hj), Option.map_some,
      Function.comp_apply, List.getD_eq_getElem?_getD, List.getElem?_eq_getElem (h ▸ hj)]
    rfl
  · rw [List.getElem?_eq_none (Nat.le_of_not_lt hj), List.getElem?_eq_none (h ▸ Nat.le_of_not_lt hj)]
    rfl

theorem getD_pos (hpositive : ∀ n ∈ counts, 0 < n) (image : Nat) : 0 < counts.getD image 1 := by
  rw [List.getD_eq_getElem?_getD]
  by_cases himage : image < counts.length
  · rw [List.getElem?_eq_getElem himage]
    exact hpositive _ (List.getElem_mem himage)
  · rw [List.getElem?_eq_none (Nat.le_of_not_lt himage)]
    exact Nat.one_pos

theorem exists_laid (hv : v.Documented) (hpositive : ∀ n ∈ counts, 0 < n)
    (hshown : template.shown.length = counts.length)
    (hclean : Pipeline.Clean v.imageToken template.first template.shown) :
    ∃ s segs, Laid v counts template s segs := by
  obtain ⟨s, segs, htokens, hfree, halike⟩ := markedTokens_eq hv (getD_pos hpositive) hclean
  have hbefore : ∀ seg ∈ v.segments (fun image => counts.getD image 1) 0 template.shown,
      v.imageTokenId ∉ seg.2 := fun seg hseg => by
    obtain ⟨j, hj⟩ := List.getElem?_of_mem hseg
    rw [getElem?_segments, Option.map_eq_some_iff] at hj
    obtain ⟨t, -, rfl⟩ := hj
    show v.imageTokenId ∉ v.encodeBetween t
    rw [Pipeline.encodeBetween]
    split
    · exact List.not_mem_nil
    · exact hv.encodeText t
  have hlength := halike.length_eq
  refine ⟨s, segs, htokens, hfree, ?_, ?_, ?_⟩
  · rw [← map_fst_segments (v := v) hshown]
    refine List.ext_getElem (by simpa using hlength.symm) fun j hj hj' => ?_
    rw [List.length_map] at hj hj'
    rw [List.getElem_map, List.getElem_map]
    exact (halike.get hj' hj).count
  · intro seg hseg
    obtain ⟨j, hj, rfl⟩ := List.mem_iff_getElem.mp hseg
    exact (halike.get (hlength ▸ hj) hj).free (hbefore _ (List.getElem_mem _))
  · intro j t hj
    have hseg := getElem?_segments (v := v) (fun image => counts.getD image 1) 0 template.shown j
    rw [hj, Option.map_some, Nat.zero_add] at hseg
    obtain ⟨hj', heq⟩ := List.getElem?_eq_some_iff.mp hseg
    have hempty := (halike.get hj' (hlength ▸ hj')).empty
    rw [List.get_eq_getElem, List.get_eq_getElem, heq] at hempty
    exact ⟨_, _, List.getElem?_eq_getElem (hlength ▸ hj'), hempty⟩

namespace Laid

theorem length_segs (hlaid : Laid v counts template s segs) : segs.length = counts.length := by
  rw [← hlaid.counts, List.length_map]

/-- There are tokens behind every image but the last one. -/
theorem apart (hlaid : Laid v counts template s segs)
    (hshown : template.shown.length = counts.length)
    (hapart : ∀ t ∈ template.shown.dropLast, v.encodeBetween t ≠ []) :
    ∀ seg ∈ segs.dropLast, seg.2 ≠ [] := by
  intro seg hseg
  obtain ⟨j, hj, rfl⟩ := List.mem_iff_getElem.mp hseg
  rw [List.length_dropLast, hlaid.length_segs, ← hshown] at hj
  obtain ⟨n, between, hget, hempty⟩ := hlaid.between j _ (List.getElem?_eq_getElem (by omega))
  rw [List.getElem?_eq_some_iff] at hget
  obtain ⟨hlt, heq⟩ := hget
  rw [List.getElem_dropLast, heq]
  refine fun hnil => hapart template.shown[j] ?_ (hempty.mp hnil)
  rw [List.mem_iff_getElem]
  exact ⟨j, by rw [List.length_dropLast]; exact hj, by rw [List.getElem_dropLast]⟩

/-- The rows of the tokens that no image is marked on are no features. -/
theorem placed_eq (hlaid : Laid v counts template s segs) :
    placed v.imageTokenId counts.sum 0 (v.markedTokens counts template)
      = (s.map fun t => (none, Row.text t))
        ++ placed v.imageTokenId counts.sum 0 (laidFrom v.imageTokenId 0 segs) := by
  rw [hlaid.tokens, placed_plain hlaid.free]

theorem rowsAt_eq (hlaid : Laid v counts template s segs) (image : Nat) :
    rowsAt image (placed v.imageTokenId counts.sum 0 (v.markedTokens counts template))
      = (List.range' (featureOffset counts image) (counts.getD image 0)).map Row.image := by
  have htotal : 0 + (segs.map Prod.fst).sum ≤ counts.sum := by rw [hlaid.counts, Nat.zero_add]
  have hlaidRows := rowsAt_laidFrom hlaid.between_free 0 0 image htotal
  rw [Nat.zero_add, Nat.zero_add, hlaid.counts] at hlaidRows
  have hplain : rowsAt image (s.map fun t => (none, Row.text t)) = [] := rowsAt_eq_nil fun w hw => by
    obtain ⟨t, -, rfl⟩ := List.mem_map.mp hw
    exact fun h => nomatch h
  rw [hlaid.placed_eq, rowsAt, List.filterMap_append]
  show rowsAt image _ ++ rowsAt image _ = _
  rw [hplain, hlaidRows, List.nil_append]

theorem only (hlaid : Laid v counts template s segs) {image feature : Nat}
    {w : Option Nat × Row Token}
    (hw : w ∈ placed v.imageTokenId counts.sum 0 (v.markedTokens counts template))
    (hrow : w.2 = .image feature) (hle : featureOffset counts image ≤ feature)
    (hlt : feature < featureOffset counts image + counts.getD image 0) : w.1 = some image := by
  have htotal : 0 + (segs.map Prod.fst).sum ≤ counts.sum := by rw [hlaid.counts, Nat.zero_add]
  rw [hlaid.placed_eq, List.mem_append, List.mem_map] at hw
  obtain ⟨t, -, rfl⟩ | hw := hw
  · exact nomatch hrow
  · obtain ⟨t, rfl⟩ | ⟨j, feature', rfl, hle', hlt'⟩ :=
      mem_placed_laidFrom hlaid.between_free 0 0 htotal hw
    · exact nomatch hrow
    · injection hrow with hrow
      subst hrow
      rw [hlaid.counts, Nat.zero_add] at hle' hlt'
      rw [eq_of_featureOffset hle hlt hle' hlt', Nat.zero_add]

/-- The run of an image. -/
theorem exists_run (hlaid : Laid v counts template s segs) (hpositive : ∀ n ∈ counts, 0 < n)
    (hshown : template.shown.length = counts.length)
    (hapart : ∀ t ∈ template.shown.dropLast, v.encodeBetween t ≠ []) {image : Nat}
    (himage : image < counts.length) : ∃ run,
      (MediaRegions.findRuns 0 none
        (pads v.imageTokenId (v.markedTokens counts template)))[image]? = some run
      ∧ ∀ p, run.Covers p ↔ ((v.markedTokens counts template).map Prod.snd)[p]? = some (some image) := by
  have hcount : ∀ seg ∈ segs, 0 < seg.1 := fun seg hseg =>
    hpositive _ (hlaid.counts ▸ List.mem_map_of_mem hseg)
  have hbounds := bounds_laidFrom hlaid.between_free hcount (hlaid.apart hshown hapart) 0 s.length
  have hpads : pads v.imageTokenId (v.markedTokens counts template)
      = List.replicate s.length false ++ pads v.imageTokenId (laidFrom v.imageTokenId 0 segs) := by
    rw [← pads_plain hlaid.free, hlaid.tokens]
    exact List.map_append
  rw [hpads, findRuns_false, Nat.zero_add]
  have hlt : image < (MediaRegions.findRuns s.length none
      (pads v.imageTokenId (laidFrom v.imageTokenId 0 segs))).length := by
    rw [← List.length_map (f := bounds), hbounds, length_boundsFrom, hlaid.length_segs]
    exact himage
  refine ⟨_, List.getElem?_eq_getElem hlt, fun p => ?_⟩
  have hget := congrArg (fun l : List (Nat × Nat) => l[image]?) hbounds
  simp only [List.getElem?_map, List.getElem?_eq_getElem hlt, Option.map_some] at hget
  obtain ⟨hstart, hcovers⟩ := boundsFrom_covers v.imageTokenId 0 s.length hget.symm
  rw [hlaid.tokens, List.map_append, map_snd_plain, List.getElem?_append, List.length_replicate]
  split
  · next hp =>
    -- the tokens before the first image
    rw [List.getElem?_replicate, if_pos hp]
    exact ⟨fun h => absurd h.1 (by omega), fun h => nomatch h⟩
  · next hp =>
    have hrest := hcovers (p - s.length)
    rw [Nat.add_sub_cancel' (Nat.le_of_not_lt hp), Nat.zero_add] at hrest
    exact hrest

end Laid

end Laid

/-! ## What placed features need -/

section Places

variable {features : CachedFeatures F} {counts : List Nat} {contentHash : String} {i : Nat}

/-- An image with a region has features. -/
theorem Places.count_pos (hv : v.Documented) (hcounts : features.perImage.map List.length = counts)
    (h : Places ((v.markedTokens counts template).map Prod.snd)
      (v.process features images ((template.render v.imageToken).map Prod.fst)) counts contentHash i) :
    0 < counts.getD i 0 := by
  obtain ⟨region, -, -, hcovers⟩ := h.region
  have hfeatures := h.features
  rw [zip_embeddings images template hv hcounts] at hfeatures
  -- the first position of the region
  have hmark := (hcovers region.startPos).mp ⟨Nat.le_refl _, region.nonempty⟩
  rw [← map_fst_placed v.imageTokenId counts.sum 0] at hmark
  obtain ⟨w, hw, hwi⟩ := List.mem_map.mp (List.mem_of_getElem? hmark)
  have hrow : w.2 ∈ rowsAt i
      (placed v.imageTokenId counts.sum 0 (v.markedTokens counts template)) :=
    List.mem_filterMap.mpr ⟨w, hw, if_pos hwi⟩
  rw [hfeatures] at hrow
  obtain ⟨feature, hfeature, -⟩ := List.mem_map.mp hrow
  rw [List.mem_range'_1] at hfeature
  omega

/-- An image token in a text gets a feature of some image. -/
theorem clean_of_places (hv : v.Documented) (hcounts : features.perImage.map List.length = counts)
    (hpositive : ∀ n ∈ counts, 0 < n) (hne : counts ≠ [])
    (h : ∀ i < counts.length, ∃ contentHash, Places ((v.markedTokens counts template).map Prod.snd)
      (v.process features images ((template.render v.imageToken).map Prod.fst)) counts contentHash i) :
    Pipeline.Clean v.imageToken template.first template.shown := by
  refine Classical.byContradiction fun hclean => ?_
  have hmem := mem_markedTokens hv (getD_pos hpositive) hclean
  have htotal : 0 < counts.sum := by
    obtain ⟨n, rest, rfl⟩ := List.exists_cons_of_ne_nil hne
    rw [List.sum_cons]
    exact Nat.add_pos_left (hpositive n List.mem_cons_self) _
  obtain ⟨feature, hlt, hrow⟩ := exists_mem_placed htotal hmem 0
  obtain ⟨i, hi, hle, hend⟩ := exists_featureOffset hlt
  obtain ⟨contentHash, hplaces⟩ := h i hi
  rw [← zip_embeddings images template hv hcounts] at hrow
  exact nomatch hplaces.only _ hrow feature rfl hle hend

/-- Images without tokens between them are in one run. -/
theorem apart_of_places (hv : v.Documented) (hcounts : features.perImage.map List.length = counts)
    (hpositive : ∀ n ∈ counts, 0 < n) (hshown : template.shown.length = counts.length)
    (hclean : Pipeline.Clean v.imageToken template.first template.shown)
    (h : ∀ i < counts.length, ∃ contentHash, Places ((v.markedTokens counts template).map Prod.snd)
      (v.process features images ((template.render v.imageToken).map Prod.fst)) counts contentHash i) :
    ∀ t ∈ template.shown.dropLast, v.encodeBetween t ≠ [] := by
  intro t ht hnil
  obtain ⟨j, hj, rfl⟩ := List.mem_iff_getElem.mp ht
  rw [List.length_dropLast] at hj
  rw [List.getElem_dropLast] at hnil
  obtain ⟨s, segs, hlaid⟩ := exists_laid hv hpositive hshown hclean
  obtain ⟨n, between, hget, hempty⟩ := hlaid.between j _ (List.getElem?_eq_getElem (by omega))
  rw [hempty.mpr hnil] at hget
  have hlt : j + 1 < segs.length := by rw [hlaid.length_segs]; omega
  have hcount : ∀ seg ∈ segs, 0 < seg.1 := fun seg hseg =>
    hpositive _ (hlaid.counts ▸ List.mem_map_of_mem hseg)
  obtain ⟨p, hp, hp'⟩ := adjacent_laidFrom v.imageTokenId hget
    (List.getElem?_eq_getElem hlt) (hcount _ (List.mem_of_getElem? hget))
    (hcount _ (List.getElem_mem hlt)) 0
  -- the last token of the image, and the token behind it
  have htoken : ∀ q, (v.markedTokens counts template)[s.length + q]?
      = (laidFrom v.imageTokenId 0 segs)[q]? := fun q => by
    have hlength : (plain s).length = s.length := List.length_map _
    rw [hlaid.tokens, List.getElem?_append_right (by omega), hlength, Nat.add_sub_cancel_left]
  obtain ⟨contentHash, hplaces⟩ := h j (by omega)
  obtain ⟨region, hregion, -, hcovers⟩ := hplaces.region
  have hlast := (hcovers (s.length + p)).mpr (by
    rw [List.getElem?_map, htoken, hp, Option.map_some, Nat.zero_add])
  have hnext : ¬ region.Covers (s.length + (p + 1)) := fun hcover => by
    have hmark := (hcovers _).mp hcover
    rw [List.getElem?_map, htoken, hp', Option.map_some, Nat.zero_add] at hmark
    injection hmark with hmark
    injection hmark with hmark
    omega
  have hend : region.endPos = s.length + (p + 1) := by
    have hstart := hlast.1
    have hbefore := hlast.2
    rw [MediaRegion.Covers] at hnext
    omega
  rw [getElem?_mediaRegions hv hcounts, Option.map_eq_some_iff] at hregion
  obtain ⟨run, hrun, rfl⟩ := hregion
  refine (findRuns_endPos _ 0 none run (List.mem_of_getElem? hrun)).2 ?_
  rw [Nat.sub_zero, show run.endPos = s.length + (p + 1) from hend, pads, List.getElem?_map, htoken, hp',
    Option.map_some, decide_eq_true rfl]

end Places

/-! ## Every call -/

omit [DecidableEq Token] in
theorem positive_iff : (∀ features ∈ v.encodeImages images, features ≠ [])
    ↔ ∀ n ∈ (v.encodeImages images).map List.length, 0 < n := by
  rw [List.forall_mem_map]
  exact forall₂_congr fun _ _ => List.length_pos_iff.symm

/-- A call of `process` on images that fit the template. -/
theorem placed_of_fits (hv : v.Documented) (hreach : v.machine.Reachable cache)
    (hshown : template.shown.length = images.length) (hfits : v.Fits images template)
    (hunmistaken : Unmistaken cache images) {i : Nat} {image : Image} (hi : images[i]? = some image) :
    Places ((v.markedTokens ((v.encodeImages images).map List.length) template).map Prod.snd)
      (v.process (v.lookup cache images).1 images ((template.render v.imageToken).map Prod.fst))
      ((v.encodeImages images).map List.length) (v.sha256 image.pixels) i := by
  have hperImage := lookup_features hreach ((cached_iff hv hreach).mpr hunmistaken)
  have hcounts := congrArg (List.map List.length) hperImage
  have hlength : ((v.encodeImages images).map List.length).length = images.length := by
    rw [List.length_map, hv.encodeImages]
  have hlt : i < images.length := (List.getElem?_eq_some_iff.mp hi).1
  have hne : images ≠ [] := List.ne_nil_of_length_pos (Nat.zero_lt_of_lt hlt)
  have hpositive := positive_iff.1 hfits.positive
  obtain ⟨s, segs, hlaid⟩ := exists_laid hv hpositive (hshown.trans hlength.symm) (hfits.clean hne)
  obtain ⟨run, hrun, hcovers⟩ := hlaid.exists_run hpositive (hshown.trans hlength.symm) hfits.apart
    (hlength ▸ hlt)
  have hzip := zip_embeddings images template hv hcounts
  refine ⟨?_, ?_, ?_⟩
  · rw [hzip, hlaid.rowsAt_eq]
  · rw [hzip]
    exact fun w hw feature hrow hle hend => hlaid.only hw hrow hle hend
  · rw [getElem?_mediaRegions hv hcounts, hrun]
    refine ⟨_, rfl, ?_, hcovers⟩
    show ((images.map fun image => v.sha256 image.pixels)).getD i "" = _
    rw [List.getD_eq_getElem?_getD, List.getElem?_map, hi]
    rfl

/-- Whatever was processed before, a call gives the features to the images they belong to, marks each
image by its own region and takes stored features only for the same images, exactly when no image token
begins in a text of the template, there are tokens between any two images, every image has features,
and no features are stored for other images with the same pixels in a row. -/
theorem right_iff (hv : v.Documented) (hreach : v.machine.Reachable cache)
    (hshown : template.shown.length = images.length) :
    v.Right cache images template ↔ v.Fits images template ∧ Unmistaken cache images := by
  constructor
  · intro hright
    have hperImage := lookup_features hreach hright.cached
    have hcounts := congrArg (List.map List.length) hperImage
    have hlength : ((v.encodeImages images).map List.length).length = images.length := by
      rw [List.length_map, hv.encodeImages]
    have hplaces := fun i (hi : i < ((v.encodeImages images).map List.length).length) =>
      hright.placed i _ (List.getElem?_eq_getElem (hlength ▸ hi))
    have hpositive : ∀ n ∈ (v.encodeImages images).map List.length, 0 < n := fun n hn => by
      obtain ⟨i, hi, rfl⟩ := List.mem_iff_getElem.mp hn
      have hpos := (hplaces i hi).count_pos hv hcounts
      rw [List.getD_eq_getElem?_getD, List.getElem?_eq_getElem hi] at hpos
      exact hpos
    have hclean : images ≠ [] → Pipeline.Clean v.imageToken template.first template.shown :=
      fun hne => clean_of_places hv hcounts hpositive
        (List.ne_nil_of_length_pos (hlength ▸ List.length_pos_iff.mpr hne))
        fun i hi => ⟨_, hplaces i hi⟩
    refine ⟨⟨positive_iff.mpr hpositive, hclean, fun t ht => ?_⟩, (cached_iff hv hreach).mp hright.cached⟩
    have hne : images ≠ [] := fun hnil => by
      rw [hnil, List.length_nil, List.length_eq_zero_iff] at hshown
      rw [hshown] at ht
      exact absurd ht List.not_mem_nil
    exact apart_of_places hv hcounts hpositive (hshown.trans hlength.symm) (hclean hne)
      (fun i hi => ⟨_, hplaces i hi⟩) t ht
  · intro ⟨hfits, hunmistaken⟩
    exact ⟨(cached_iff hv hreach).mpr hunmistaken,
      fun i image hi => placed_of_fits hv hreach hshown hfits hunmistaken hi⟩

/-! ## A small model -/

def byteChar (b : Fin 256) : Char := Char.ofNat b.val

theorem byteChar_injective : Function.Injective byteChar := by
  have htoNat : ∀ b : Fin 256, (byteChar b).toNat = b.val := fun b => by
    have hvalid : b.val.isValidChar := .inl (by omega)
    rw [byteChar, Char.ofNat, dif_pos hvalid]
    rfl
  intro b b' h
  have hval := congrArg Char.toNat h
  rw [htoNat, htoNat] at hval
  exact Fin.ext hval

/-- A tokenizer of single characters; an image has a feature for each pixel, and a hash is what is
hashed. -/
def charModel : Pipeline (Option CodePoint) Unit where
  imageToken := Text.of "<i>"
  imageTokenId := none
  encode prompt := (piecesFrom id (Text.of "<i>") 0 [] prompt).flatMap fun
    | .text chars => chars.map some
    | .occurrence _ => [none]
  encodeText t := t.map some
  think := none
  encodeImages images := images.map fun image => List.replicate (image.width * image.height) ()
  sha256 bytes := String.ofList (bytes.map byteChar)

theorem charModel_documented : charModel.Documented where
  imageToken_ne_nil := by decide
  encode prompt := List.flatMap_congr fun piece _ => by
    cases piece with
    | text chars => exact (congrArg (List.map some) (List.map_id chars)).symm
    | occurrence first => rfl
  encodeText t h := by
    obtain ⟨c, -, hc⟩ := List.mem_map.mp h
    exact nomatch hc
  think := fun _ h => nomatch h
  encodeImages images := List.length_map _
  sha256 _ _ h := List.map_injective_iff.mpr byteChar_injective (String.ofList_injective h)

/-- One black pixel. -/
def blackPixel : Image := ⟨1, 1, [0, 0, 0], rfl⟩

theorem right_iff_onePixel :
    charModel.Right .empty [blackPixel] ⟨Text.of "see ", [Text.of "!"]⟩
      ↔ charModel.Fits [blackPixel] ⟨Text.of "see ", [Text.of "!"]⟩ ∧ Unmistaken (F := Unit) .empty [blackPixel] :=
  right_iff charModel_documented .init rfl

/-- Somebody writes the image token in a message: it gets the first feature. -/
theorem not_forall_right : ¬ ∀ (v : Pipeline (Option CodePoint) Unit) (cache : FeatureCache Unit)
    (images : List Image) (template : Template), v.Documented → v.machine.Reachable cache →
      template.shown.length = images.length → v.Right cache images template := by
  intro h
  have hplaces := (h charModel .empty [blackPixel] ⟨Text.of "<i> is ", [[]]⟩ charModel_documented .init
    rfl).placed 0 blackPixel rfl
  exact nomatch hplaces.only (none, .image 0) (by decide) 0 rfl (by decide) (by decide)

end Exo.Vision
