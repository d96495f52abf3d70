import Exo.Agent.Store
import Mathlib.Data.List.TakeWhile
import Mathlib.Data.List.Infix

/-!
# The headings of a chat

A chat is a text for a reader, and it is read back when a session has no records yet. What is found
in it goes from one heading to the next one. A text that ends with its line can be read apart from
what comes after it, as long as that begins with a heading of its own.
-/

namespace Exo.Agent

open Lib
open scoped List

/-- What every heading begins with. -/
def mark : Text := Text.of "## "

/-- What is found in a text, which begins a line or does not. -/
def parse (atStart : Bool) (t : Text) : List (Text × Text × Text) := findAll t.length atStart t

/-- Nothing but a mark, or nothing at all. -/
def Marked (t : Text) : Prop := t = [] ∨ mark <+: t

/-- The text ends with its line. -/
def EndsLine (t : Text) : Prop := t.getLast? = some 0x0A

variable {t u role createdAt body : Text} {atStart : Bool} {c : CodePoint}

/-! ## A heading -/

theorem noFeed_of_mem_roles (h : role ∈ roles) : (0x0A : CodePoint) ∉ role := by
  simp only [roles, List.mem_cons, List.not_mem_nil, or_false] at h
  rcases h with rfl | rfl | rfl | rfl <;> decide

/-- The first line of a message. -/
def headingLine (role createdAt : Text) : Text := mark ++ role ++ Text.of " - " ++ createdAt

theorem noFeed_headingLine (hrole : role ∈ roles) (hcreated : (0x0A : CodePoint) ∉ createdAt) :
    (0x0A : CodePoint) ∉ headingLine role createdAt := by
  have hmark : (0x0A : CodePoint) ∉ mark := by decide
  have hdash : (0x0A : CodePoint) ∉ Text.of " - " := by decide
  simp only [headingLine, List.mem_append, not_or]
  exact ⟨⟨⟨hmark, noFeed_of_mem_roles hrole⟩, hdash⟩, hcreated⟩

/-- No heading of another role begins alike. -/
theorem eq_of_lead_le : ∀ a ∈ roles, ∀ b ∈ roles,
    mark ++ a ++ Text.of " - " <+: mark ++ b ++ Text.of " - " → a = b := by
  decide

/-- **What a heading is**: a role, a time on the same line, and an empty line below. -/
theorem matchHeading_iff : matchHeading t = some (role, createdAt, body) ↔
    role ∈ roles ∧ createdAt ≠ [] ∧ (0x0A : CodePoint) ∉ createdAt ∧
      t = headingLine role createdAt ++ 0x0A :: 0x0A :: body := by
  constructor
  · intro h
    obtain ⟨r, hr, h⟩ := List.exists_of_findSome?_eq_some h
    dsimp only at h
    split at h
    · rename_i hlead
      obtain ⟨line, rfl⟩ := List.isPrefixOf_iff_prefix.mp hlead
      rw [List.drop_left] at h
      split at h
      · rename_i d ds rest htake hdrop
        obtain ⟨rfl, rfl, rfl⟩ : r = role ∧ d :: ds = createdAt ∧ rest = body := by
          simpa using h
        have hline : line = (d :: ds) ++ 0x0A :: 0x0A :: rest := by
          rw [← htake, ← hdrop, List.takeWhile_append_dropWhile]
        refine ⟨hr, List.cons_ne_nil _ _, fun hmem => ?_, ?_⟩
        · have hne := List.mem_takeWhile_imp (htake ▸ hmem)
          simp at hne
        · rw [hline, headingLine, mark]
          simp
      · cases h
    · cases h
  · rintro ⟨hrole, hcreated, hfeed, rfl⟩
    obtain ⟨before, after, hroles, hnot⟩ := List.eq_append_cons_of_mem hrole
    have hlead : headingLine role createdAt ++ 0x0A :: 0x0A :: body
        = (mark ++ role ++ Text.of " - ") ++ (createdAt ++ 0x0A :: 0x0A :: body) := by
      simp [headingLine]
    rw [hlead]
    refine List.findSome?_eq_some_iff.mpr ⟨before, role, after, hroles, ?_, fun r hr => ?_⟩
    · have hprefix : (mark ++ role ++ Text.of " - ").isPrefixOf
          ((mark ++ role ++ Text.of " - ") ++ (createdAt ++ 0x0A :: 0x0A :: body)) = true :=
        List.isPrefixOf_iff_prefix.mpr (List.prefix_append _ _)
      have hall : ∀ d ∈ createdAt, decide (d ≠ 0x0A) = true := fun d hd =>
        decide_eq_true fun he => hfeed (he ▸ hd)
      obtain ⟨d, ds, rfl⟩ := List.exists_cons_of_ne_nil hcreated
      have hmark : Text.of "## " = mark := rfl
      simp only [hmark, hprefix, if_true, List.drop_left]
      rw [List.takeWhile_append_of_pos hall, List.dropWhile_append_of_pos hall]
      simp
    · -- a role that stands before this one is another one
      have hmem : r ∈ roles := hroles ▸ List.mem_append_left _ hr
      rw [if_neg]
      intro hp
      have hprefix := List.isPrefixOf_iff_prefix.mp hp
      rcases List.prefix_or_prefix_of_prefix hprefix (List.prefix_append _ _) with h | h
      · exact hnot (eq_of_lead_le r hmem role hrole h ▸ hr)
      · exact hnot ((eq_of_lead_le role hrole r hmem h).symm ▸ hr)

/-! ## Up to the next heading -/

theorem untilHeading_join (atStart : Bool) (t : Text) :
    (untilHeading atStart t).1 ++ (untilHeading atStart t).2 = t := by
  induction t generalizing atStart with
  | nil => rfl
  | cons c t ih =>
      rw [untilHeading]
      split
      · rfl
      · rw [List.cons_append, ih]

/-- Where a heading begins a text, nothing comes before it. -/
theorem untilHeading_of_marked (h : Marked t) : untilHeading true t = ([], t) := by
  rcases h with rfl | h
  · rfl
  · cases t with
    | nil => rfl
    | cons c t =>
        have hp : (Text.of "## ").isPrefixOf (c :: t) = true := List.isPrefixOf_iff_prefix.mpr h
        rw [untilHeading, Bool.true_and, if_pos hp]

/-- A mark does not reach over the end of a line. -/
theorem mark_prefix_append (h : EndsLine t) : mark <+: t ++ u ↔ mark <+: t := by
  refine ⟨fun hp => ?_, fun hp => hp.trans (List.prefix_append _ _)⟩
  rcases List.prefix_or_prefix_of_prefix hp (List.prefix_append _ _) with hp | hp
  · exact hp
  · have hmem : (0x0A : CodePoint) ∈ mark := hp.subset (List.mem_of_mem_getLast? h)
    exact absurd hmem (by decide)

/-- The rest of a text that ends with its line does so too, or the line has just begun. -/
theorem EndsLine.tail (h : EndsLine (c :: t)) : EndsLine t ∨ t = [] ∧ c = 0x0A := by
  cases t with
  | nil => exact .inr ⟨rfl, by simpa [EndsLine] using h⟩
  | cons d t => exact .inl (by simpa [EndsLine] using h)

/-- The text is over at the end of a line. -/
def Ended (atStart : Bool) (t : Text) : Prop := EndsLine t ∨ t = [] ∧ atStart = true

theorem Ended.tail (h : Ended atStart (c :: t)) : Ended (decide (c = 0x0A)) t := by
  rcases h with h | ⟨h, -⟩
  · exact (h.tail).imp id fun ht => ⟨ht.1, decide_eq_true ht.2⟩
  · exact absurd h (List.cons_ne_nil _ _)

theorem Ended.rest (h : Ended atStart t) : Ended true (untilHeading atStart t).2 := by
  rcases h with h | ⟨rfl, -⟩
  · cases hrest : (untilHeading atStart t).2 with
    | nil => exact .inr ⟨rfl, rfl⟩
    | cons d rest =>
        have hjoin := untilHeading_join atStart t
        rw [hrest] at hjoin
        rw [EndsLine, ← hjoin, List.getLast?_append_of_ne_nil _ (List.cons_ne_nil _ _)] at h
        exact .inl h
  · exact .inr ⟨rfl, rfl⟩

theorem untilHeading_append (h : Ended atStart t) (hu : Marked u) :
    untilHeading atStart (t ++ u)
      = ((untilHeading atStart t).1, (untilHeading atStart t).2 ++ u) := by
  induction t generalizing atStart with
  | nil =>
      obtain ⟨-, rfl⟩ := h.resolve_left (by simp [EndsLine])
      exact untilHeading_of_marked hu
  | cons c t ih =>
      have hends : EndsLine (c :: t) := h.resolve_right fun he => List.cons_ne_nil _ _ he.1
      have hmark : (Text.of "## ").isPrefixOf (c :: (t ++ u))
          = (Text.of "## ").isPrefixOf (c :: t) := by
        rw [Bool.eq_iff_iff, List.isPrefixOf_iff_prefix, List.isPrefixOf_iff_prefix]
        exact mark_prefix_append hends
      rw [List.cons_append, untilHeading, hmark, untilHeading]
      split
      · rfl
      · rw [ih h.tail]

/-! ## All that is found -/

/-- There are steps enough for a text if there is one for each of its characters. -/
theorem findAll_of_le {n m : Nat} (hn : t.length ≤ n) (hm : t.length ≤ m) :
    findAll n atStart t = findAll m atStart t := by
  induction n generalizing m atStart t with
  | zero =>
      obtain rfl := List.eq_nil_of_length_eq_zero (Nat.le_zero.mp hn)
      cases m <;> rfl
  | succ n ih =>
      cases t with
      | nil => cases m <;> rfl
      | cons c t =>
          cases m with
          | zero => cases hm
          | succ m =>
              have ht : t.length ≤ n := Nat.le_of_succ_le_succ hn
              have ht' : t.length ≤ m := Nat.le_of_succ_le_succ hm
              rw [findAll, findAll]
              split
              · rename_i role createdAt body hmatch
                have hbody : body.length ≤ t.length := by
                  split at hmatch
                  · obtain ⟨-, -, -, heq⟩ := matchHeading_iff.1 hmatch
                    have hlen := congrArg List.length heq
                    simp only [List.length_cons, List.length_append] at hlen
                    omega
                  · cases hmatch
                have hrest : (untilHeading true body).2.length ≤ body.length := by
                  have hlen := congrArg List.length (untilHeading_join true body)
                  simp only [List.length_append] at hlen
                  omega
                rw [ih (hrest.trans (hbody.trans ht)) (hrest.trans (hbody.trans ht'))]
              · exact ih ht ht'

theorem parse_heading (h : matchHeading t = some (role, createdAt, body)) :
    parse true t
      = (role, createdAt, (untilHeading true body).1) :: parse true (untilHeading true body).2 := by
  obtain ⟨-, -, -, heq⟩ := matchHeading_iff.1 h
  have hbody : body.length + 2 ≤ t.length := by
    rw [heq]
    simp only [List.length_append, List.length_cons]
    omega
  have hrest : (untilHeading true body).2.length ≤ body.length := by
    have hlen := congrArg List.length (untilHeading_join true body)
    simp only [List.length_append] at hlen
    omega
  cases t with
  | nil => cases hbody
  | cons c t =>
      rw [parse, List.length_cons, findAll]
      simp only [if_true, h]
      rw [parse, findAll_of_le (n := t.length) _ le_rfl]
      simp only [List.length_cons] at hbody
      omega

theorem parse_skip (h : atStart = true → matchHeading (c :: t) = none) :
    parse atStart (c :: t) = parse (decide (c = 0x0A)) t := by
  rw [parse, List.length_cons, findAll]
  cases atStart with
  | false => rfl
  | true => simp only [if_true, h rfl]; rfl

/-- A heading is found or not, whatever comes after the line that ends the text. -/
theorem matchHeading_append_none (h : EndsLine t) (hu : Marked u) (hnone : matchHeading t = none) :
    matchHeading (t ++ u) = none := by
  by_contra hsome
  obtain ⟨⟨role, createdAt, body⟩, hmatch⟩ := Option.ne_none_iff_exists'.mp hsome
  obtain ⟨hrole, hcreated, hfeed, heq⟩ := matchHeading_iff.1 hmatch
  have hline := noFeed_headingLine hrole hfeed
  rcases List.append_eq_append_iff.mp heq with ⟨more, hmore, -⟩ | ⟨more, ht, hbody⟩
  · -- the text ends within the heading's line
    exact hline (hmore ▸ List.mem_append_left _ (List.mem_of_mem_getLast? h))
  · match more with
    | [] =>
        rw [List.append_nil] at ht
        exact hline (ht ▸ List.mem_of_mem_getLast? h)
    | [d] =>
        -- the heading's line ends the text
        rw [List.singleton_append] at hbody
        obtain ⟨-, hu'⟩ := List.cons.inj hbody
        rcases hu with rfl | hu
        · cases hu'
        · rw [← hu'] at hu
          exact absurd (List.cons_prefix_cons.mp hu).1 (by decide)
    | d :: e :: more =>
        obtain ⟨rfl, hrest⟩ := List.cons.inj hbody
        obtain ⟨rfl, -⟩ := List.cons.inj hrest
        have hmatch' : matchHeading t = some (role, createdAt, more) :=
          matchHeading_iff.2 ⟨hrole, hcreated, hfeed, ht⟩
        rw [hnone] at hmatch'
        cases hmatch'

/-- A text is read to its end: past a character that begins no heading, or past all that belongs
to the heading it begins with. -/
theorem parse_induction {motive : Bool → Text → Prop} (nil : ∀ atStart, motive atStart [])
    (skip : ∀ atStart c t, (atStart = true → matchHeading (c :: t) = none) →
      motive (decide (c = 0x0A)) t → motive atStart (c :: t))
    (heading : ∀ t role createdAt body, matchHeading t = some (role, createdAt, body) →
      motive true (untilHeading true body).2 → motive true t)
    (atStart : Bool) (t : Text) : motive atStart t := by
  induction hn : t.length using Nat.strong_induction_on generalizing t atStart with
  | _ n ih =>
      cases t with
      | nil => exact nil atStart
      | cons c t =>
          have htail : motive (decide (c = 0x0A)) t :=
            ih t.length (by rw [← hn]; exact Nat.lt_succ_self _) _ _ rfl
          cases atStart with
          | false => exact skip false c t nofun htail
          | true =>
              cases hmatch : matchHeading (c :: t) with
              | none => exact skip true c t (fun _ => hmatch) htail
              | some found =>
                  obtain ⟨role, createdAt, body⟩ := found
                  refine heading _ role createdAt body hmatch (ih _ ?_ _ _ rfl)
                  obtain ⟨-, -, -, heq⟩ := matchHeading_iff.1 hmatch
                  have hjoin := congrArg List.length (untilHeading_join true body)
                  have hlength := congrArg List.length heq
                  simp only [List.length_append, List.length_cons] at hjoin hlength hn
                  omega

/-- **A text that is over at the end of a line is read apart from what comes after it.** -/
theorem parse_append (h : Ended atStart t) (hu : Marked u) :
    parse atStart (t ++ u) = parse atStart t ++ parse true u := by
  induction atStart, t using parse_induction with
  | nil atStart =>
      obtain ⟨-, rfl⟩ := h.resolve_left (by simp [EndsLine])
      rfl
  | skip atStart c t hnone ih =>
      have hends : EndsLine (c :: t) := h.resolve_right fun he => List.cons_ne_nil _ _ he.1
      have hnone' : atStart = true → matchHeading (c :: (t ++ u)) = none := fun hs =>
        matchHeading_append_none hends hu (hnone hs)
      rw [parse_skip hnone, List.cons_append, parse_skip hnone']
      exact ih h.tail
  | heading t role createdAt body hmatch ih =>
      obtain ⟨hrole, hcreated, hfeed, heq⟩ := matchHeading_iff.1 hmatch
      have hmatch' : matchHeading (t ++ u) = some (role, createdAt, body ++ u) :=
        matchHeading_iff.2 ⟨hrole, hcreated, hfeed, by rw [heq]; simp⟩
      have hbody : Ended true body := by
        cases body with
        | nil => exact .inr ⟨rfl, rfl⟩
        | cons d body =>
            have hends : EndsLine t := h.resolve_right fun he => by
              rw [he.1] at heq
              simp at heq
            rw [EndsLine, heq] at hends
            exact .inl (by simpa [EndsLine] using hends)
      rw [parse_heading hmatch', parse_heading hmatch, untilHeading_append hbody hu,
        List.cons_append, ih hbody.rest]

/-- What is found has the shape of a heading, and is made of what is in the text. -/
theorem mem_parse {content : Text} (h : (role, createdAt, content) ∈ parse atStart t) :
    role ∈ roles ∧ createdAt ≠ [] ∧ (0x0A : CodePoint) ∉ createdAt ∧
      createdAt ⊆ t ∧ content ⊆ t := by
  induction atStart, t using parse_induction with
  | nil atStart => cases h
  | skip atStart c t hnone ih =>
      rw [parse_skip hnone] at h
      obtain ⟨hrole, hne, hfeed, hcreated, hcontent⟩ := ih h
      exact ⟨hrole, hne, hfeed, List.subset_cons_of_subset _ hcreated,
        List.subset_cons_of_subset _ hcontent⟩
  | heading t r time body hmatch ih =>
      obtain ⟨hrole, hne, hfeed, heq⟩ := matchHeading_iff.1 hmatch
      have hjoin := untilHeading_join true body
      have hbody : body ⊆ t := by
        intro d hd
        rw [heq]
        exact List.mem_append_right _ (by simp [hd])
      have hfirst : (untilHeading true body).1 ⊆ t := fun d hd =>
        hbody (hjoin ▸ List.mem_append_left _ hd)
      have hrest : (untilHeading true body).2 ⊆ t := fun d hd =>
        hbody (hjoin ▸ List.mem_append_right _ hd)
      rw [parse_heading hmatch] at h
      rcases List.mem_cons.mp h with he | h
      · obtain ⟨rfl, rfl, rfl⟩ : role = r ∧ createdAt = time ∧
            content = (untilHeading true body).1 := by simpa using he
        have hcreated : createdAt ⊆ t := by
          intro d hd
          rw [heq, headingLine]
          simp [hd]
        exact ⟨hrole, hne, hfeed, hcreated, hfirst⟩
      · obtain ⟨hrole', hne', hfeed', hcreated, hcontent⟩ := ih h
        exact ⟨hrole', hne', hfeed', List.Subset.trans hcreated hrest,
          List.Subset.trans hcontent hrest⟩

end Exo.Agent
