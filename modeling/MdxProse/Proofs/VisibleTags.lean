import MdxProse.Proofs.FirstPartner
import MdxProse.Proofs.TextMatching

/-!
# The tags that a search in running text sees

The search for the closing tag of an element in running text goes over the text unit by unit.  An
escaped character, a code span and an expression are one unit each, and so is a tag; what stands in
them is not looked at.

* `TextUnit.Standing`: what stands at an offset.  `TextUnit.Standing.unique`: it is one unit only.
* `Splits`: the units of a text from the left.  `exists_splits`, `Splits.unique`: **every text is
  split into units in exactly one way.**
* `Splits.closer?_eq`: the search counts the tags among the units.  `Splits.closer?_eq_some_iff`,
  `Splits.closer?_eq_none_iff`: which one it finds, and when there is none.
* `closing_tag_found_iff`: **it finds the first tag among them that is left over**, and none exactly
  if there is none.
-/

namespace MdxProse

/-- What the search for a closing tag takes a piece of running text for. -/
inductive UnitKind
  /-- A backslash and the character after it. -/
  | escaped
  /-- A code span, or a run of grave accents without a partner. -/
  | code
  | expression
  | tag (t : Tag)
  /-- Any other character. -/
  | character
  deriving DecidableEq, Repr

/-- A piece of running text that the search for a closing tag goes over at once. -/
structure TextUnit where
  kind : UnitKind
  span : Span
  deriving DecidableEq, Repr

namespace TextUnit

/-- The unit that is a tag. -/
def ofTag (t : Tag) : TextUnit :=
  ⟨.tag t, t.span⟩

/-- The tag that a unit is. -/
def tag? (u : TextUnit) : Option Tag :=
  match u.kind with
  | .tag t => some t
  | _ => none

/-- The tags among the units. -/
def tags (us : List TextUnit) : List Tag :=
  us.filterMap tag?

/-- The unit stands in the text, which is looked at up to a limit. -/
inductive Standing (src : Source) (limit : Nat) : TextUnit → Prop
  | escaped {pos : Nat} : src.has '\\' pos = true → Standing src limit ⟨.escaped, ⟨pos, pos + 2⟩⟩
  | code {pos : Nat} : src.has '\x60' pos = true →
      Standing src limit ⟨.code, ⟨pos, CodeSpan.skip src pos limit⟩⟩
  | expression {pos stop : Nat} : src.has '\x7b' pos = true →
      Expression.stop? src pos limit = some stop → Standing src limit ⟨.expression, ⟨pos, stop⟩⟩
  | tag {t : Tag} : Tag.scan? src t.span.start limit = some t → Standing src limit (.ofTag t)
  | character {pos : Nat} : src.has '\\' pos = false → src.has '\x60' pos = false →
      (src.has '\x7b' pos = true → Expression.stop? src pos limit = none) →
      Tag.scan? src pos limit = none → Standing src limit ⟨.character, ⟨pos, pos + 1⟩⟩

end TextUnit

/-- The units of the text from an offset up to the limit, from the left. Only the last one may reach
beyond the limit, if it is an escaped character. -/
inductive Splits (src : Source) (limit : Nat) : Nat → List TextUnit → Prop
  | nil {pos : Nat} : limit ≤ pos → Splits src limit pos []
  | cons {u : TextUnit} {us : List TextUnit} : u.span.start < limit → u.Standing src limit →
      Splits src limit u.span.stop us → Splits src limit u.span.start (u :: us)

variable {src : Source} {limit pos : Nat} {u v : TextUnit} {us vs : List TextUnit}

theorem Source.has_eq_false {c d : Char} (h : src.has c pos = true) (hd : c ≠ d) :
    src.has d pos = false := by
  obtain ⟨e, he, hc⟩ := Source.test_iff.mp h
  rw [beq_iff_eq] at hc
  subst hc
  simp [Source.has, Source.test, he, hd]

theorem Tag.closer?_of_scan? {t : Tag} (h : Tag.scan? src pos limit = some t)
    (name : Option String) (inner : Nat) : Tag.closer? src name inner pos limit =
      match Tag.pass? name inner t with
      | none => some t
      | some n => Tag.closer? src name n t.span.stop limit := by
  obtain ⟨m, span, form⟩ := t
  rw [Piece.closer?_tag h]
  simp only [Tag.pass?]
  by_cases hname : m = name
  · simp only [if_pos hname]
    cases form with
    | opening | selfClosing => rfl
    | closing => cases inner <;> rfl
  · simp only [if_neg hname]

theorem Tag.has_of_scan? {t : Tag} (h : Tag.scan? src pos limit = some t) :
    src.has '<' pos = true :=
  Source.test_iff.mpr ⟨'<', Tag.has_lt_of_scan? h, rfl⟩

namespace TextUnit

theorem tags_cons_ofTag (t : Tag) (us : List TextUnit) : tags (ofTag t :: us) = t :: tags us :=
  rfl

theorem tags_append (us vs : List TextUnit) : tags (us ++ vs) = tags us ++ tags vs :=
  List.filterMap_append

namespace Standing

theorem eq_ofTag {t : Tag} (h : u.Standing src limit) (ht : u.tag? = some t) :
    u = ofTag t ∧ Tag.scan? src u.span.start limit = some t := by
  cases h with
  | tag hscan =>
    cases ht
    exact ⟨rfl, hscan⟩
  | escaped | code | expression | character => cases ht

theorem start_lt_stop (h : u.Standing src limit) (hlt : u.span.start < limit) :
    u.span.start < u.span.stop := by
  cases h with
  | escaped => exact Nat.lt_add_of_pos_right Nat.two_pos
  | code hmark => exact CodeSpan.lt_skip hlt hmark
  | expression _ hstop => exact Expression.lt_of_stop? hstop
  | tag hscan => exact (Tag.stop_of_scan? hscan).1
  | character => exact Nat.lt_succ_self _

theorem mark (h : u.Standing src limit) :
    match u.kind with
    | .escaped => src.has '\\' u.span.start = true
    | .code => src.has '\x60' u.span.start = true
    | .expression => src.has '\x7b' u.span.start = true
    | .tag _ => src.has '<' u.span.start = true
    | .character => True := by
  cases h with
  | escaped hmark | code hmark => exact hmark
  | expression hmark _ => exact hmark
  | tag hscan => exact Tag.has_of_scan? hscan
  | character => trivial

/-- Where a character stands by itself, nothing else does. -/
theorem eq_of_character (h : u.Standing src limit) (h' : v.Standing src limit)
    (hstart : u.span.start = v.span.start) (hkind : u.kind = .character) : u = v := by
  cases h with
  | escaped | code | expression | tag => cases hkind
  | character hb hg he hnone =>
    cases h' with
    | character =>
      cases hstart
      rfl
    | escaped hb' =>
      cases hstart
      rw [hb] at hb'
      cases hb'
    | code hg' =>
      cases hstart
      rw [hg] at hg'
      cases hg'
    | expression he' hstop =>
      cases hstart
      rw [he he'] at hstop
      cases hstop
    | @tag t hscan =>
      have hstart : _ = t.span.start := hstart
      rw [← hstart, hnone] at hscan
      cases hscan

/-- **One unit only stands at an offset.** -/
theorem unique (h : u.Standing src limit) (h' : v.Standing src limit)
    (hstart : u.span.start = v.span.start) : u = v := by
  by_cases hu : u.kind = .character
  · exact h.eq_of_character h' hstart hu
  by_cases hv : v.kind = .character
  · exact (h'.eq_of_character h hstart.symm hv).symm
  have hmark := h.mark
  have hmark' := h'.mark
  rw [hstart] at hmark
  -- two units with different marks would have two characters at the offset
  have hno {c d : Char} (hc : src.has c v.span.start = true) (hcd : c ≠ d)
      (hd : src.has d v.span.start = true) : False := by
    rw [Source.has_eq_false hc hcd] at hd
    cases hd
  cases h with
  | character => exact absurd rfl hu
  | escaped =>
    cases h' with
    | character => exact absurd rfl hv
    | escaped =>
      cases hstart
      rfl
    | code | expression | tag => exact (hno hmark (by decide) hmark').elim
  | code =>
    cases h' with
    | character => exact absurd rfl hv
    | code =>
      cases hstart
      rfl
    | escaped | expression | tag => exact (hno hmark (by decide) hmark').elim
  | expression _ hstop =>
    cases h' with
    | character => exact absurd rfl hv
    | expression _ hstop' =>
      cases hstart
      rw [hstop, Option.some.injEq] at hstop'
      rw [hstop']
    | escaped | code | tag => exact (hno hmark (by decide) hmark').elim
  | @tag t hscan =>
    cases h' with
    | character => exact absurd rfl hv
    | @tag t' hscan' =>
      have hstart : t.span.start = t'.span.start := hstart
      rw [hstart, hscan', Option.some.injEq] at hscan
      rw [hscan]
    | escaped | code | expression => exact (hno hmark (by decide) hmark').elim

theorem exists_standing (src : Source) (limit pos : Nat) :
    ∃ u : TextUnit, u.span.start = pos ∧ u.Standing src limit := by
  by_cases hb : src.has '\\' pos = true
  · exact ⟨_, rfl, .escaped hb⟩
  by_cases hg : src.has '\x60' pos = true
  · exact ⟨_, rfl, .code hg⟩
  have hb : src.has '\\' pos = false := by simpa using hb
  have hg : src.has '\x60' pos = false := by simpa using hg
  cases hscan : Tag.scan? src pos limit with
  | some t =>
    have hstart := Tag.start_of_scan? hscan
    exact ⟨ofTag t, hstart, .tag (by rw [hstart]; exact hscan)⟩
  | none =>
    by_cases he : src.has '\x7b' pos = true
    · cases hstop : Expression.stop? src pos limit with
      | some stop => exact ⟨_, rfl, .expression he hstop⟩
      | none => exact ⟨_, rfl, .character hb hg (fun _ => hstop) hscan⟩
    · exact ⟨_, rfl, .character hb hg (fun he' => absurd he' he) hscan⟩

end Standing

end TextUnit

/-! ### The units of a text -/

open TextUnit (tags)

/-- **Every text is split into units.** -/
theorem exists_splits (src : Source) (limit pos : Nat) : ∃ us, Splits src limit pos us := by
  induction hn : limit - pos using Nat.strongRecOn generalizing pos with
  | ind n ih =>
    by_cases hlt : pos < limit
    · obtain ⟨u, rfl, hu⟩ := TextUnit.Standing.exists_standing src limit pos
      have hstop := hu.start_lt_stop hlt
      obtain ⟨us, hus⟩ := ih (limit - u.span.stop) (by omega) u.span.stop rfl
      exact ⟨u :: us, .cons hlt hu hus⟩
    · exact ⟨[], .nil (Nat.le_of_not_lt hlt)⟩

namespace Splits

/-- **It is split in one way only.** -/
theorem unique (h : Splits src limit pos us) (h' : Splits src limit pos vs) : us = vs := by
  induction h generalizing vs with
  | nil hle =>
    cases h' with
    | nil => rfl
    | cons hlt => omega
  | @cons u us hlt hu _ ih =>
    generalize hpos : u.span.start = pos at h'
    cases h' with
    | nil hle => omega
    | @cons v vs _ hv hvs =>
      obtain rfl := hu.unique hv hpos
      rw [ih hvs]

theorem right (h : Splits src limit pos (us ++ vs)) : ∃ mid, pos ≤ mid ∧
    (∀ u ∈ us, u.span.stop ≤ mid) ∧ Splits src limit mid vs := by
  induction us generalizing pos with
  | nil => exact ⟨pos, Nat.le_refl _, nofun, h⟩
  | cons u us ih =>
    cases h with
    | cons hlt hu hus =>
      obtain ⟨mid, hle, hall, hvs⟩ := ih hus
      have hstop := hu.start_lt_stop hlt
      exact ⟨mid, by omega, List.forall_mem_cons.mpr ⟨hle, hall⟩, hvs⟩

theorem le_start (h : Splits src limit pos us) : ∀ u ∈ us, pos ≤ u.span.start := by
  induction h with
  | nil => nofun
  | @cons u us hlt hu _ ih =>
    have hstop := hu.start_lt_stop hlt
    refine List.forall_mem_cons.mpr ⟨Nat.le_refl _, ?_⟩
    intro v hv
    exact Nat.le_trans (Nat.le_of_lt hstop) (ih v hv)

theorem of_tags_eq (h : Splits src limit pos us) {ts ts' : List Tag} {t : Tag}
    (hts : tags us = ts ++ t :: ts') :
    ∃ before after, us = before ++ .ofTag t :: after ∧ tags before = ts ∧ tags after = ts' := by
  induction h generalizing ts with
  | nil => exact absurd hts (by simp [tags])
  | @cons u us _ hu _ ih =>
    cases hu? : u.tag? with
    | none =>
      have hskip : tags (u :: us) = tags us := List.filterMap_cons_none hu?
      obtain ⟨before, after, rfl, hbefore, hafter⟩ := ih (hskip.symm.trans hts)
      exact ⟨u :: before, after, rfl, (List.filterMap_cons_none hu?).trans hbefore, hafter⟩
    | some t' =>
      obtain ⟨rfl, -⟩ := hu.eq_ofTag hu?
      rw [TextUnit.tags_cons_ofTag] at hts
      cases ts with
      | nil =>
        obtain ⟨rfl, rfl⟩ := List.cons.inj hts
        exact ⟨[], us, rfl, rfl, rfl⟩
      | cons s ts =>
        obtain ⟨rfl, hrest⟩ := List.cons.inj hts
        obtain ⟨before, after, rfl, rfl, rfl⟩ := ih hrest
        exact ⟨.ofTag t' :: before, after, rfl, rfl, rfl⟩

/-- **A tag among the units is kept apart from all other units.** -/
theorem bounds {before after : List TextUnit} {t : Tag}
    (h : Splits src limit pos (before ++ .ofTag t :: after)) :
    pos ≤ t.span.start ∧ t.span.stop ≤ limit ∧ (∀ u ∈ before, u.span.stop ≤ t.span.start) ∧
      ∀ u ∈ after, t.span.stop ≤ u.span.start := by
  obtain ⟨mid, hle, hall, hrest⟩ := h.right
  generalize hu : TextUnit.ofTag t = u at hrest
  cases hrest with
  | cons hlt hstanding hafter =>
    subst hu
    obtain ⟨-, hscan⟩ := hstanding.eq_ofTag (t := t) rfl
    exact ⟨hle, (Tag.stop_of_scan? hscan).2, hall, hafter.le_start⟩

/-! ### The search -/

open Block.Element (findIn findIn_cons findIn_eq_inl_iff findIn_eq_inr_iff)

/-- **The search counts the tags among the units.** -/
theorem closer?_eq (h : Splits src limit pos us) (name : Option String) (inner : Nat) :
    Tag.closer? src name inner pos limit =
      match findIn name inner (tags us) with
      | .inl (_, t, _) => some t
      | .inr _ => none := by
  induction h generalizing inner with
  | nil hle =>
    rw [Tag.closer?, dif_neg (by omega)]
    rfl
  | @cons u us hlt hu _ ih =>
    cases hu with
    | escaped hb =>
      rw [Tag.closer?, dif_pos hlt, if_pos hb]
      exact ih inner
    | code hg =>
      have hb := Source.has_eq_false hg (d := '\\') (by decide)
      rw [Tag.closer?, dif_pos hlt, if_neg (by simp [hb]), dif_pos hg]
      exact ih inner
    | expression he hstop =>
      have hb := Source.has_eq_false he (d := '\\') (by decide)
      have hg := Source.has_eq_false he (d := '\x60') (by decide)
      rw [Tag.closer?, dif_pos hlt, if_neg (by simp [hb]), dif_neg (by simp [hg]), if_pos he]
      split
      · next stop hstop' =>
        rw [hstop, Option.some.injEq] at hstop'
        subst hstop'
        exact ih inner
      · next hnone =>
        rw [hstop] at hnone
        cases hnone
    | @tag t hscan =>
      rw [TextUnit.tags_cons_ofTag, findIn_cons]
      refine (Tag.closer?_of_scan? hscan name inner).trans ?_
      cases Tag.pass? name inner t with
      | none => rfl
      | some n =>
        refine (ih n).trans ?_
        dsimp only
        cases findIn name n (tags us) <;> rfl
    | character hb hg he hscan =>
      rw [Tag.closer?, dif_pos hlt, if_neg (by simp [hb]), dif_neg (by simp [hg])]
      split
      · next hbrace =>
        split
        · next stop hstop =>
          rw [he hbrace] at hstop
          cases hstop
        · exact ih inner
      · split
        · exact ih inner
        · next t ht =>
          rw [hscan] at ht
          cases ht

/-- **The search finds the first tag among the units that is left over.** -/
theorem closer?_eq_some_iff (h : Splits src limit pos us) {name : Option String} {inner : Nat}
    {t : Tag} : Tag.closer? src name inner pos limit = some t ↔
      ∃ before after, us = before ++ .ofTag t :: after ∧
        Tag.Partner name inner (tags before) t := by
  rw [h.closer?_eq name inner]
  constructor
  · intro hsearch
    cases hfind : findIn name inner (tags us) with
    | inr n =>
      rw [hfind] at hsearch
      cases hsearch
    | inl found =>
      obtain ⟨ts, c, ts'⟩ := found
      rw [hfind] at hsearch
      cases hsearch
      obtain ⟨hts, hpartner⟩ := findIn_eq_inl_iff.mp hfind
      obtain ⟨before, after, heq, rfl, -⟩ := h.of_tags_eq hts
      exact ⟨before, after, heq, hpartner⟩
  · rintro ⟨before, after, rfl, hpartner⟩
    rw [TextUnit.tags_append, TextUnit.tags_cons_ofTag, findIn_eq_inl_iff.mpr ⟨rfl, hpartner⟩]

/-- **It finds none exactly if none is left over.** -/
theorem closer?_eq_none_iff (h : Splits src limit pos us) {name : Option String} {inner : Nat} :
    Tag.closer? src name inner pos limit = none ↔
      ∀ before t after, us = before ++ .ofTag t :: after →
        ¬ Tag.Settles name inner (tags before) t := by
  constructor
  · intro hnone before t after heq
    rw [h.closer?_eq name inner] at hnone
    cases hfind : findIn name inner (tags us) with
    | inl found =>
      rw [hfind] at hnone
      cases hnone
    | inr n =>
      apply (findIn_eq_inr_iff.mp hfind).1 (tags before) t (tags after)
      rw [heq, TextUnit.tags_append, TextUnit.tags_cons_ofTag]
  · intro hno
    cases hsearch : Tag.closer? src name inner pos limit with
    | none => rfl
    | some t =>
      obtain ⟨before, after, heq, hpartner⟩ := h.closer?_eq_some_iff.mp hsearch
      exact absurd hpartner.toSettles (hno before t after heq)

end Splits

/-- **The closing tag found in running text is the first one that is left over** among the units
that the text after the opening tag is split into: a closing tag of its name before which, of the
tags of that name, as many open an element as close one.  None is found exactly if no unit is such a
tag.  The tag found stands between the opening tag and the limit and in no other unit, and the tags
of its name between the two are balanced. -/
theorem closing_tag_found_iff (src : Source) (opener : Tag) (limit : Nat) :
    ∃ us, Splits src limit opener.span.stop us ∧
      (∀ vs, Splits src limit opener.span.stop vs → vs = us) ∧
      (∀ t, Tag.partner? src opener limit = some t ↔
        ∃ before after, us = before ++ .ofTag t :: after ∧
          Tag.Partner opener.name 0 (tags before) t) ∧
      (Tag.partner? src opener limit = none ↔
        ∀ before t after, us = before ++ .ofTag t :: after →
          ¬ Tag.Settles opener.name 0 (tags before) t) ∧
      ∀ before t after, us = before ++ .ofTag t :: after →
        opener.span.stop ≤ t.span.start ∧ t.span.stop ≤ limit ∧
        (∀ u ∈ before, u.span.stop ≤ t.span.start) ∧ (∀ u ∈ after, t.span.stop ≤ u.span.start) ∧
        (Tag.Partner opener.name 0 (tags before) t →
          Tag.balanced ((tags before).filter (·.name == opener.name)) = true) := by
  obtain ⟨us, hus⟩ := exists_splits src limit opener.span.stop
  refine ⟨us, hus, fun vs hvs => hvs.unique hus, fun t => hus.closer?_eq_some_iff,
    hus.closer?_eq_none_iff, ?_⟩
  rintro before t after rfl
  obtain ⟨hstart, hstop, hbefore, hafter⟩ := hus.bounds
  exact ⟨hstart, hstop, hbefore, hafter, Tag.Partner.balanced⟩

/-- Tags that are escaped, in code or in an expression do not count, and neither do inner ones. -/
example : Tag.partner? (Source.ofString "<A>\\</A>\x60</A>\x60\x7b'</A>'\x7d<A></A></A>")
    ⟨some "A", ⟨0, 3⟩, .opening⟩ 33 = some ⟨some "A", ⟨29, 33⟩, .closing⟩ := by
  decide +kernel

end MdxProse
