import Exo.Agent.Headings
import Exo.Agent.StoreRoundTrip

/-!
# When a chat says again what was written into it

A session from before the records has nothing but its chat. What is read back from it are headings
and what stands below each, without the blanks around it: a content that has a heading of its own is
cut there, whatever it was, and one with blanks around it loses them. Nothing in a chat is escaped.
-/

namespace Exo.Agent

open Lib
open scoped List

/-- What a chat shows of a message. -/
def Message.shown (m : Message) : Text × Text × Text := (m.role, m.createdAt, m.content)

/-- The chat before the first message. -/
def chatTitle (title : Text) : Text := Text.of "# " ++ title ++ Text.of "\n\n"

/-- **What a chat can say**: a message of one of the four roles, with a time on one line, and a
content without returns, without blanks around it and with no line that begins like a heading. -/
structure Message.Sayable (m : Message) : Prop where
  role : m.role ∈ roles
  createdAt : m.createdAt ≠ [] ∧ (0x0A : CodePoint) ∉ m.createdAt ∧ (0x0D : CodePoint) ∉ m.createdAt
  content : (0x0D : CodePoint) ∉ m.content
  stripped : m.content.strip = m.content
  first : ¬ mark <+: m.content
  others : ¬ (0x0A :: mark) <:+: m.content

/-- The messages are written into the chat of the session, and are what its records say when it is
migrated. -/
def Migrates (clock : Clock) (s : Session) (ms : List Message) : Prop :=
  ∃ s' migrated, rebuildChat s ms = (s', true) ∧
    migrateMessages clock s' = ({ s' with messages := some (jsonl migrated) }, true) ∧
    migrated.map Message.shown = ms.map Message.shown

variable {clock : Clock} {s : Session} {m : Message} {ms : List Message} {t u : Text}
  {atStart : Bool}

/-! ## One record after the other -/

theorem noFeed_record (m : Message) : (0x0A : CodePoint) ∉ record m := fun h =>
  absurd (Json.dumps_printable ⟨1, 1⟩ m.toDict _ h) (by decide)

theorem record_injective {m' : Message} (h : record m = record m') : m = m' := by
  have hload : some m.toDict = some m'.toDict := by
    rw [← Json.loads_dumps ⟨1, 1⟩ m.toDict, ← Json.loads_dumps ⟨1, 1⟩ m'.toDict]
    exact congrArg Json.loads h
  have hread := fromDict_toDict ⟨[], fun _ => []⟩ 0 m
  rw [Option.some.inj hload, fromDict_toDict] at hread
  exact (Option.some.inj hread).symm

/-- What comes before the first line feed of a text, and what comes after it. -/
theorem append_feed_inj {a b : Text} (ha : (0x0A : CodePoint) ∉ a) (hb : (0x0A : CodePoint) ∉ b)
    (h : a ++ 0x0A :: t = b ++ 0x0A :: u) : a = b ∧ t = u := by
  have htake : ∀ {x y : Text}, (0x0A : CodePoint) ∉ x →
      (x ++ 0x0A :: y).takeWhile (fun c => decide (c ≠ 0x0A)) = x := by
    intro x y hx
    have hall : ∀ c ∈ x, decide (c ≠ 0x0A) = true := fun c hc =>
      decide_eq_true fun he => hx (he ▸ hc)
    rw [List.takeWhile_append_of_pos hall]
    simp
  have hab : a = b := by rw [← htake (y := t) ha, h, htake hb]
  subst hab
  exact ⟨rfl, (List.cons.inj (List.append_cancel_left h)).2⟩

/-- Different messages make different files. -/
theorem jsonl_injective {ms' : List Message} (h : jsonl ms = jsonl ms') : ms = ms' := by
  have hcons : ∀ (m : Message) (ms : List Message),
      jsonl (m :: ms) = record m ++ 0x0A :: jsonl ms := by simp [jsonl, dumpsLine, record]
  induction ms generalizing ms' with
  | nil =>
      cases ms' with
      | nil => rfl
      | cons m' ms' =>
          rw [hcons] at h
          cases (List.append_eq_nil_iff.mp h.symm).2
  | cons m ms ih =>
      cases ms' with
      | nil =>
          rw [hcons] at h
          cases (List.append_eq_nil_iff.mp h).2
      | cons m' ms' =>
          rw [hcons, hcons] at h
          obtain ⟨hrecord, hrest⟩ := append_feed_inj (noFeed_record m) (noFeed_record m') h
          rw [record_injective hrecord, ih hrest]

/-! ## Texts without headings -/

/-- A mark stays on its line. -/
theorem mark_prefix_feed : mark <+: t ++ [0x0A] ↔ mark <+: t := by
  refine ⟨fun hp => ?_, fun hp => hp.trans (List.prefix_append _ _)⟩
  rcases List.prefix_concat_iff.mp hp with he | hp
  · have hmem : (0x0A : CodePoint) ∈ mark := he ▸ List.mem_append_right _ (List.mem_singleton.mpr rfl)
    exact absurd hmem (by decide)
  · exact hp

/-- There is no heading in a text exactly if no line of it begins like one. -/
theorem untilHeading_nil_iff : (untilHeading atStart t).2 = [] ↔
    (atStart = true → ¬ mark <+: t) ∧ ¬ (0x0A :: mark) <:+: t := by
  induction t generalizing atStart with
  | nil =>
      refine iff_of_true rfl ⟨fun _ h => ?_, fun h => ?_⟩
      · exact absurd (List.prefix_nil.mp h) (by decide)
      · exact absurd (List.infix_nil.mp h) (by decide)
  | cons c t ih =>
      have hmark' : (atStart && (Text.of "## ").isPrefixOf (c :: t)) = true ↔
          atStart = true ∧ mark <+: c :: t := by
        rw [Bool.and_eq_true, List.isPrefixOf_iff_prefix]
        rfl
      have hcons : (0x0A :: mark) <:+: c :: t ↔ (c = 0x0A ∧ mark <+: t) ∨ (0x0A :: mark) <:+: t := by
        rw [List.infix_cons_iff, List.cons_prefix_cons, eq_comm]
      rw [untilHeading]
      split
      · rename_i hstart
        rw [hmark'] at hstart
        exact iff_of_false (List.cons_ne_nil _ _) fun h => h.1 hstart.1 hstart.2
      · rename_i hstart
        rw [hmark'] at hstart
        rw [ih, hcons, decide_eq_true_iff]
        tauto

/-- With one more line end a text is cut where it was. -/
theorem untilHeading_feed (atStart : Bool) (t : Text) : untilHeading atStart (t ++ [0x0A])
    = if (untilHeading atStart t).2 = [] then (t ++ [0x0A], [])
      else ((untilHeading atStart t).1, (untilHeading atStart t).2 ++ [0x0A]) := by
  induction t generalizing atStart with
  | nil => cases atStart <;> rfl
  | cons c t ih =>
      have hmark : (Text.of "## ").isPrefixOf (c :: (t ++ [0x0A]))
          = (Text.of "## ").isPrefixOf (c :: t) := by
        rw [Bool.eq_iff_iff, List.isPrefixOf_iff_prefix, List.isPrefixOf_iff_prefix]
        exact mark_prefix_feed (t := c :: t)
      rw [List.cons_append, untilHeading, hmark, untilHeading]
      split
      · rfl
      · rw [ih]
        split <;> rfl

theorem untilHeading_feeds (atStart : Bool) (t : Text) :
    untilHeading atStart (t ++ Text.of "\n\n")
      = if (untilHeading atStart t).2 = [] then (t ++ Text.of "\n\n", [])
        else ((untilHeading atStart t).1, (untilHeading atStart t).2 ++ Text.of "\n\n") := by
  have hfeeds : ∀ t : Text, t ++ Text.of "\n\n" = t ++ [0x0A] ++ [0x0A] := by
    intro t
    rw [List.append_assoc]
    rfl
  rw [hfeeds, untilHeading_feed, untilHeading_feed]
  split
  · rw [if_pos rfl]
  · rw [if_neg (List.append_ne_nil_of_right_ne_nil _ (List.cons_ne_nil _ _)), hfeeds]

/-- A content that has no heading and no blanks around it comes back, another one does not. -/
theorem strip_untilHeading_iff (t : Text) :
    (untilHeading true (t ++ Text.of "\n\n")).1.strip = t ↔
      (untilHeading true t).2 = [] ∧ t.strip = t := by
  rw [untilHeading_feeds]
  split
  · rename_i hclean
    have hblank : ∀ c ∈ Text.of "\n\n", CodePoint.isSpace c = true := by
      have hfeed : CodePoint.isSpace 0x0A = true := rfl
      simp [Text.of, CodePoint.ofChar, hfeed]
    rw [Text.strip_append_blank t hblank, and_iff_right hclean]
  · rename_i hcut
    refine iff_of_false (fun h => ?_) fun h => hcut h.1
    -- what is left of it is shorter than it was
    have hshort := Text.length_strip_le (untilHeading true t).1
    have hjoin := congrArg List.length (untilHeading_join true t)
    have hpos := List.length_pos_iff.mpr hcut
    simp only [h, List.length_append] at hshort hjoin
    omega

/-! ## A message in the chat -/

/-- What is read back of what a chat shows. -/
def reread (found : List (Text × Text × Text)) : List (Text × Text × Text) :=
  found.map fun (role, createdAt, content) => (role, createdAt, content.strip)

theorem reread_cons (role createdAt content : Text) (found : List (Text × Text × Text)) :
    reread ((role, createdAt, content) :: found)
      = (role, createdAt, content.strip) :: reread found := rfl

theorem chatEntry_eq (m : Message) : chatEntry m
    = headingLine m.role m.createdAt ++ 0x0A :: 0x0A :: (m.content ++ Text.of "\n\n") := by
  have hfeeds : Text.of "\n\n" = [0x0A, 0x0A] := rfl
  simp [chatEntry, headingLine, mark, hfeeds]

theorem chatEntry_marked (m : Message) (t : Text) : Marked (chatEntry m ++ t) :=
  .inr ⟨m.role ++ Text.of " - " ++ m.createdAt ++ Text.of "\n\n" ++ m.content ++ Text.of "\n\n" ++ t,
    by simp [chatEntry, mark]⟩

theorem chatEntry_ended (m : Message) : Ended true (chatEntry m) := by
  refine .inl ?_
  have hfeeds : Text.of "\n\n" = [0x0A, 0x0A] := rfl
  rw [EndsLine, chatEntry, hfeeds, List.getLast?_append]
  rfl

theorem flatMap_marked (ms : List Message) : Marked (ms.flatMap chatEntry) := by
  cases ms with
  | nil => exact .inl rfl
  | cons m ms => exact chatEntry_marked m _

/-- The entries of a chat are read one by one. -/
theorem parse_flatMap (ms : List Message) :
    parse true (ms.flatMap chatEntry) = ms.flatMap fun m => parse true (chatEntry m) := by
  induction ms with
  | nil => rfl
  | cons m ms ih =>
      rw [List.flatMap_cons, parse_append (chatEntry_ended m) (flatMap_marked ms), ih,
        List.flatMap_cons]

/-- Role and time of a message are fit for a heading. -/
def Message.Headed (m : Message) : Prop :=
  m.role ∈ roles ∧ m.createdAt ≠ [] ∧ (0x0A : CodePoint) ∉ m.createdAt

theorem parse_chatEntry (h : m.Headed) : parse true (chatEntry m)
    = (m.role, m.createdAt, (untilHeading true (m.content ++ Text.of "\n\n")).1) ::
      parse true (untilHeading true (m.content ++ Text.of "\n\n")).2 :=
  parse_heading (matchHeading_iff.2 ⟨h.1, h.2.1, h.2.2, chatEntry_eq m⟩)

/-- **A message comes back from its entry** exactly if its content has no heading in it and no blanks
around it. -/
theorem reread_chatEntry_iff (h : m.Headed) :
    reread (parse true (chatEntry m)) = [m.shown] ↔
      (untilHeading true m.content).2 = [] ∧ m.content.strip = m.content := by
  rw [parse_chatEntry h, reread_cons, Message.shown]
  constructor
  · intro heq
    have hcontent := (List.cons.inj heq).1
    simp only [Prod.mk.injEq, true_and] at hcontent
    exact (strip_untilHeading_iff _).mp hcontent
  · intro hclean
    rw [(strip_untilHeading_iff _).mpr hclean, untilHeading_feeds, if_pos hclean.1]
    rfl

/-! ## A chat -/

/-- Pieces that are never empty, and that are one for each after all, are the ones. -/
theorem eq_singletons {α β : Type} {f : α → List β} {g : α → β} {before : List β} {l : List α}
    (hf : ∀ a ∈ l, f a ≠ []) (h : before ++ l.flatMap f = l.map g) :
    before = [] ∧ ∀ a ∈ l, f a = [g a] := by
  have hlong : ∀ {l : List α}, (∀ a ∈ l, f a ≠ []) → l.length ≤ (l.flatMap f).length := by
    intro l hf
    induction l with
    | nil => exact Nat.le_refl _
    | cons a l ih =>
        have ha := List.length_pos_iff.mpr (hf a List.mem_cons_self)
        have hl := ih fun b hb => hf b (List.mem_cons_of_mem _ hb)
        rw [List.flatMap_cons, List.length_append, List.length_cons]
        omega
  have hbefore : before = [] := by
    have hlen := congrArg List.length h
    have hge := hlong hf
    rw [List.length_append, List.length_map] at hlen
    exact List.eq_nil_of_length_eq_zero (by omega)
  refine ⟨hbefore, ?_⟩
  subst hbefore
  rw [List.nil_append] at h
  induction l with
  | nil => exact fun a ha => absurd ha List.not_mem_nil
  | cons a l ih =>
      have hl : ∀ b ∈ l, f b ≠ [] := fun b hb => hf b (List.mem_cons_of_mem _ hb)
      have hone : f a = [g a] := by
        have hlen := congrArg List.length h
        have hge := hlong hl
        have ha := List.length_pos_iff.mpr (hf a List.mem_cons_self)
        rw [List.flatMap_cons, List.length_append, List.length_map, List.length_cons] at hlen
        obtain ⟨b, hb⟩ := List.length_eq_one_iff.mp (show (f a).length = 1 by omega)
        rw [List.flatMap_cons, hb, List.map_cons] at h
        rw [hb, (List.cons.inj h).1]
      rw [List.flatMap_cons, hone, List.map_cons] at h
      intro b hb
      rcases List.mem_cons.mp hb with rfl | hb
      · exact hone
      · exact ih hl (List.cons.inj h).2 b hb

theorem chatTitle_ended (title : Text) : Ended true (Text.universalNewlines (chatTitle title)) := by
  refine .inl (Text.getLast?_universalNewlines ?_)
  have hfeeds : Text.of "\n\n" = [0x0A, 0x0A] := rfl
  rw [chatTitle, hfeeds, List.getLast?_append]
  rfl

/-- A chat is read as its title and its entries. -/
theorem reread_chat (title : Text) (h : (0x0D : CodePoint) ∉ ms.flatMap chatEntry) :
    reread (parse true (Text.universalNewlines (chatTitle title ++ ms.flatMap chatEntry)))
      = reread (parse true (Text.universalNewlines (chatTitle title))) ++
        ms.flatMap fun m => reread (parse true (chatEntry m)) := by
  have hbegin : ∀ rest, ms.flatMap chatEntry ≠ 0x0A :: rest := by
    intro rest he
    rcases flatMap_marked ms with hnil | hmark
    · rw [hnil] at he
      cases he
    · rw [he] at hmark
      exact absurd (List.cons_prefix_cons.mp hmark).1 (by decide)
  rw [Text.universalNewlines_append _ hbegin, Text.universalNewlines_eq h,
    parse_append (chatTitle_ended title) (flatMap_marked ms), parse_flatMap]
  simp only [reread, List.map_append, List.map_flatMap]

/-- Whatever is read back of a chat is fit for a chat, but for the headings in it. -/
theorem mem_reread {found : Text × Text × Text}
    (h : found ∈ reread (parse true (Text.universalNewlines t))) :
    found.1 ∈ roles ∧ found.2.1 ≠ [] ∧ (0x0A : CodePoint) ∉ found.2.1 ∧
      (0x0D : CodePoint) ∉ found.2.1 ∧ (0x0D : CodePoint) ∉ found.2.2 ∧
      found.2.2.strip = found.2.2 := by
  obtain ⟨⟨role, createdAt, content⟩, hmem, rfl⟩ := List.mem_map.mp h
  obtain ⟨hrole, hne, hfeed, hcreated, hcontent⟩ := mem_parse hmem
  have hreturn := Text.return_notMem_universalNewlines t
  exact ⟨hrole, hne, hfeed, fun hc => hreturn (hcreated hc),
    fun hc => hreturn (hcontent (Text.strip_subset _ hc)), Text.strip_strip _⟩

theorem return_notMem_chatEntry (hrole : m.role ∈ roles)
    (hcreated : (0x0D : CodePoint) ∉ m.createdAt) (hcontent : (0x0D : CodePoint) ∉ m.content) :
    (0x0D : CodePoint) ∉ chatEntry m := by
  have hr : (0x0D : CodePoint) ∉ m.role := by
    simp only [roles, List.mem_cons, List.not_mem_nil, or_false] at hrole
    rcases hrole with h | h | h | h <;> rw [h] <;> decide
  have hmark : (0x0D : CodePoint) ∉ Text.of "## " := by decide
  have hdash : (0x0D : CodePoint) ∉ Text.of " - " := by decide
  have hfeeds : (0x0D : CodePoint) ∉ Text.of "\n\n" := by decide
  simp only [chatEntry, List.mem_append, not_or]
  exact ⟨⟨⟨⟨⟨⟨hmark, hr⟩, hdash⟩, hcreated⟩, hfeeds⟩, hcontent⟩, hfeeds⟩

theorem Message.Sayable.headed (h : m.Sayable) : m.Headed :=
  ⟨h.role, h.createdAt.1, h.createdAt.2.1⟩

/-- **A chat says again what was written into it** exactly if nothing in its title looks like a
message and each message is one that a chat can say. -/
theorem reread_chat_iff (title : Text) (ms : List Message) :
    reread (parse true (Text.universalNewlines (chatTitle title ++ ms.flatMap chatEntry)))
        = ms.map Message.shown ↔
      NoMessages (chatTitle title) ∧ ∀ m ∈ ms, m.Sayable := by
  have htitle : reread (parse true (Text.universalNewlines (chatTitle title))) = [] ↔
      NoMessages (chatTitle title) := List.map_eq_nil_iff
  constructor
  · intro h
    have hshape : ∀ m ∈ ms, m.shown.1 ∈ roles ∧ m.shown.2.1 ≠ [] ∧
        (0x0A : CodePoint) ∉ m.shown.2.1 ∧ (0x0D : CodePoint) ∉ m.shown.2.1 ∧
        (0x0D : CodePoint) ∉ m.shown.2.2 ∧ m.shown.2.2.strip = m.shown.2.2 :=
      fun m hm => mem_reread (h ▸ List.mem_map_of_mem hm)
    have hreturn : (0x0D : CodePoint) ∉ ms.flatMap chatEntry := by
      intro hmem
      obtain ⟨m, hm, hmem⟩ := List.mem_flatMap.mp hmem
      obtain ⟨hrole, -, -, hcreated, hcontent, -⟩ := hshape m hm
      exact return_notMem_chatEntry hrole hcreated hcontent hmem
    have hheaded : ∀ m ∈ ms, m.Headed := fun m hm =>
      ⟨(hshape m hm).1, (hshape m hm).2.1, (hshape m hm).2.2.1⟩
    rw [reread_chat title hreturn] at h
    obtain ⟨hnone, hall⟩ := eq_singletons
      (fun m hm => by rw [parse_chatEntry (hheaded m hm)]; exact List.cons_ne_nil _ _) h
    refine ⟨htitle.mp hnone, fun m hm => ?_⟩
    obtain ⟨hrole, hne, hfeed, hcreated, hcontent, hstrip⟩ := hshape m hm
    obtain ⟨hclean, -⟩ := (reread_chatEntry_iff (hheaded m hm)).mp (hall m hm)
    obtain ⟨hfirst, hothers⟩ := untilHeading_nil_iff.1 hclean
    exact ⟨hrole, ⟨hne, hfeed, hcreated⟩, hcontent, hstrip, hfirst rfl, hothers⟩
  · rintro ⟨hnone, hall⟩
    have hreturn : (0x0D : CodePoint) ∉ ms.flatMap chatEntry := by
      intro hmem
      obtain ⟨m, hm, hmem⟩ := List.mem_flatMap.mp hmem
      exact return_notMem_chatEntry (hall m hm).role (hall m hm).createdAt.2.2
        (hall m hm).content hmem
    rw [reread_chat title hreturn, htitle.mpr hnone, List.nil_append, List.map_eq_flatMap]
    refine List.flatMap_congr fun m hm => ?_
    exact (reread_chatEntry_iff (hall m hm).headed).mpr
      ⟨untilHeading_nil_iff.2 ⟨fun _ => (hall m hm).first, (hall m hm).others⟩,
        (hall m hm).stripped⟩

/-! ## The migration -/

theorem chatMessages_shown (clock : Clock) (t : Text) :
    (chatMessages clock t).map Message.shown = reread (parse true t) := by
  rw [chatMessages, reread, parse]
  refine List.ext_getElem? fun i => ?_
  simp only [List.getElem?_map, List.getElem?_mapIdx, Option.map_map]
  rfl

/-- The records of a chat that could be written can be written. -/
theorem encodable_chatMessages (hclock : ∀ i, (clock.newId i).Encodable) (ht : t.Encodable) :
    (jsonl (chatMessages clock t)).Encodable := by
  rw [encodable_jsonl]
  intro m hm
  obtain ⟨i, hi, rfl⟩ := List.mem_mapIdx.mp hm
  obtain ⟨hrole, -, -, hcreated, hcontent⟩ := mem_parse (List.getElem_mem hi)
  have hroles : ∀ r ∈ roles, Text.Encodable r := by decide
  rw [encodable_record]
  intro u hu
  simp only [Message.texts, Option.toList, List.mem_append, List.mem_cons, List.not_mem_nil,
    or_false] at hu
  rcases hu with (rfl | rfl) | rfl | rfl
  · exact hroles _ hrole
  · exact fun c hc => ht c (hcontent (Text.strip_subset _ hc))
  · exact fun c hc => ht c (hcreated hc)
  · exact hclock i

theorem migrateMessages_chat (hclock : ∀ i, (clock.newId i).Encodable) (hs : s.messages = none)
    (hchat : s.chat.Encodable) : migrateMessages clock s = ({ s with
      messages := some (jsonl (chatMessages clock (Text.universalNewlines s.chat))) }, true) := by
  have hfile := encodable_chatMessages hclock (Text.encodable_universalNewlines hchat)
  simp only [migrateMessages, hs, writeText, if_pos hfile]

theorem rebuildChat_eq (s : Session) (ms : List Message) : rebuildChat s ms
    = ({ s with chat := (writeText (chatTitle s.title ++ ms.flatMap chatEntry)).1 },
      (writeText (chatTitle s.title ++ ms.flatMap chatEntry)).2) := rfl

/-- The migration leaves what is read back of the chat. -/
theorem migrates_reread_iff (hclock : ∀ i, (clock.newId i).Encodable) (hs : s.messages = none)
    (ms : List Message) : Migrates clock s ms ↔
      (chatTitle s.title ++ ms.flatMap chatEntry).Encodable ∧
        reread (parse true (Text.universalNewlines (chatTitle s.title ++ ms.flatMap chatEntry)))
          = ms.map Message.shown := by
  by_cases hwritten : (chatTitle s.title ++ ms.flatMap chatEntry).Encodable
  · have hrebuilt : rebuildChat s ms
        = ({ s with chat := chatTitle s.title ++ ms.flatMap chatEntry }, true) := by
      rw [rebuildChat_eq, writeText, if_pos hwritten]
    have hmigrated := migrateMessages_chat
      (s := { s with chat := chatTitle s.title ++ ms.flatMap chatEntry }) hclock hs hwritten
    rw [and_iff_right hwritten, ← chatMessages_shown clock]
    constructor
    · rintro ⟨s', migrated, hs', hfile, hshown⟩
      rw [hrebuilt, Prod.mk.injEq] at hs'
      obtain ⟨rfl, -⟩ := hs'
      rw [hmigrated, Prod.mk.injEq, Session.mk.injEq] at hfile
      rw [jsonl_injective (Option.some.inj hfile.1.2.2), hshown]
    · exact fun hshown => ⟨_, _, hrebuilt, hmigrated, hshown⟩
  · refine iff_of_false ?_ fun h => hwritten h.1
    rintro ⟨s', migrated, hs', -⟩
    rw [rebuildChat_eq, writeText, if_neg hwritten, Prod.mk.injEq] at hs'
    cases hs'.2

/--
**A session is migrated to what was written into its chat** exactly if it could be written, nothing
in its title looks like a message, and each message is one that a chat can say.
-/
theorem migrates_iff (hclock : ∀ i, (clock.newId i).Encodable) (hs : s.messages = none)
    (ms : List Message) : Migrates clock s ms ↔
      (chatTitle s.title ++ ms.flatMap chatEntry).Encodable ∧ NoMessages (chatTitle s.title) ∧
        ∀ m ∈ ms, m.Sayable := by
  rw [migrates_reread_iff hclock hs, reread_chat_iff]

/-- A user's question, and an answer with a heading in it. -/
def planned : List Message :=
  [{ role := Text.of "user", content := Text.of "What next?", reasoning := none,
     createdAt := Text.of "2026-01-01T00:00:00+00:00", messageId := Text.of "msg_0" },
   { role := Text.of "assistant", content := Text.of "Done.\n## Next",
     reasoning := none, createdAt := Text.of "2026-01-01T00:00:01+00:00",
     messageId := Text.of "msg_1" }]

theorem migrates_planned :
    Migrates ⟨[], fun _ => []⟩ notes planned ↔
      (chatTitle notes.title ++ planned.flatMap chatEntry).Encodable ∧
        NoMessages (chatTitle notes.title) ∧ ∀ m ∈ planned, m.Sayable :=
  migrates_iff (fun _ => Text.encodable_nil) rfl planned

/-- The answer comes back without what is next. -/
theorem not_forall_migrates :
    ¬ ∀ (clock : Clock) (s : Session) (ms : List Message), (∀ i, (clock.newId i).Encodable) →
      s.messages = none → s.title.Encodable →
      (∀ m ∈ ms, ∀ t ∈ m.texts, Text.Encodable t) → Migrates clock s ms := by
  intro h
  have htexts : ∀ m ∈ planned, ∀ t ∈ m.texts, Text.Encodable t := by
    simp [planned, Message.texts, Text.encodable_of]
  have hmigrates := h ⟨[], fun _ => []⟩ notes planned (fun _ => Text.encodable_nil) rfl
    (Text.encodable_of _) htexts
  obtain ⟨-, hreread⟩ := (migrates_reread_iff (fun _ => Text.encodable_nil) rfl planned).mp hmigrates
  obtain ⟨-, hall⟩ := (reread_chat_iff _ _).mp hreread
  exact (hall _ (List.mem_cons_of_mem _ List.mem_cons_self)).others (by decide)

end Exo.Agent
