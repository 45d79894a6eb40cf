import MdxProse.Proofs.TagRun

/-!
# Lines that tags fill

A run of tags fills its line.  What that means is said here by looking at one tag and the next one,
without going over the line from the left: each tag is what is scanned at the first character after
the spaces behind the one before it, and behind the last one there are only spaces up to the end.

* `Source.SpacesBetween`: only spaces stand between two offsets.
  `Source.SpacesBetween.eq_skipWhile`: they end where skipping ends.
* `Tag.Fills`: the tags fill the line.  `Tag.fills_singleton_iff`, `Tag.fills_cons_iff`: one tag
  does, or a tag and a run after it.  `Tag.fills_iff`: which of the two is told by the character
  after the spaces behind the first tag.
* `Tag.run?_eq_some_iff`: **a run is found exactly if its tags fill the line.**
* `Tag.Fills.increasing`: the tags stand one after the other.
* `tag_run_found_iff`: all this in one statement.  **At most one run fills a line**, and if none
  does, none is found.
-/

namespace MdxProse

variable {src : Source} {pos limit stop stop' lo mid hi : Nat} {t u : Tag} {ts ts' us : List Tag}

/-- Nothing but spaces and tabs stands between the two offsets. -/
structure Source.SpacesBetween (src : Source) (lo hi : Nat) : Prop where
  le : lo ≤ hi
  space : ∀ i, lo ≤ i → i < hi → src.test Text.isSpace i = true

theorem Source.spacesBetween_skipWhile (src : Source) (lo limit : Nat) :
    src.SpacesBetween lo (src.skipWhile Text.isSpace lo limit) := by
  refine ⟨src.le_skipWhile Text.isSpace lo limit, ?_⟩
  intro i hlo hi
  exact test_of_lt_skipWhile hlo hi

/-- **Spaces that cannot be continued end where skipping ends.** -/
theorem Source.SpacesBetween.eq_skipWhile (h : src.SpacesBetween lo hi) (hle : hi ≤ limit)
    (hend : hi = limit ∨ src.test Text.isSpace hi = false) :
    hi = src.skipWhile Text.isSpace lo limit := by
  have hskip : src.skipWhile Text.isSpace lo limit ≤ limit := skipWhile_le (Nat.le_trans h.le hle)
  rcases Nat.lt_trichotomy hi (src.skipWhile Text.isSpace lo limit) with hlt | heq | hgt
  · -- skipping goes over the character at `hi`, so that is a space below the limit
    have hspace := test_of_lt_skipWhile h.le hlt
    rcases hend with rfl | hend
    · omega
    · rw [hend] at hspace
      cases hspace
  · exact heq
  · have hspace := h.space _ (src.le_skipWhile Text.isSpace lo limit) hgt
    rw [test_skipWhile (Nat.lt_of_lt_of_le hgt hle)] at hspace
    cases hspace

theorem Source.test_isSpace_of_getElem? {c : Char} (h : src[pos]? = some c)
    (hc : Text.isSpace c = false) : src.test Text.isSpace pos = false := by
  simp [test, h, hc]

namespace Tag

/-! ### Tags that fill a line -/

/-- The tags fill the line from `pos` to `stop`, of which nothing at the limit or beyond counts: the
first one starts at `pos`, each further one at the first character that is no space after the one
before it, and only spaces come between the last one and `stop`, where the line ends or the limit
is. -/
structure Fills (src : Source) (limit pos : Nat) (ts : List Tag) (stop : Nat) : Prop where
  first : ∃ t us, ts = t :: us ∧ scan? src pos limit = some t
  next : ∀ k t u, ts[k]? = some t → ts[k + 1]? = some u → ∃ mid,
    src.SpacesBetween t.span.stop mid ∧ src.test Text.isSpace mid = false ∧
      scan? src mid limit = some u
  last : ∀ t, ts.getLast? = some t → src.SpacesBetween t.span.stop stop
  le_limit : stop ≤ limit
  ends : stop = limit ∨ src[stop]? = some '\n'

theorem fills_singleton_iff : Fills src limit pos [t] stop ↔
    scan? src pos limit = some t ∧ src.SpacesBetween t.span.stop stop ∧ stop ≤ limit ∧
      (stop = limit ∨ src[stop]? = some '\n') := by
  constructor
  · intro h
    obtain ⟨t', us, hts, hscan⟩ := h.first
    obtain ⟨rfl, -⟩ := List.cons.inj hts
    exact ⟨hscan, h.last t rfl, h.le_limit, h.ends⟩
  · rintro ⟨hscan, hspaces, hle, hends⟩
    refine ⟨⟨t, [], rfl, hscan⟩, ?_, ?_, hle, hends⟩
    · intro k t' u' _ hu
      simp at hu
    · intro t' ht
      simp only [List.getLast?_singleton, Option.some.injEq] at ht
      rwa [← ht]

theorem fills_cons_iff : Fills src limit pos (t :: u :: us) stop ↔
    scan? src pos limit = some t ∧ ∃ mid, src.SpacesBetween t.span.stop mid ∧
      src.test Text.isSpace mid = false ∧ Fills src limit mid (u :: us) stop := by
  constructor
  · intro h
    obtain ⟨t', us', hts, hscan⟩ := h.first
    obtain ⟨rfl, -⟩ := List.cons.inj hts
    obtain ⟨mid, hspaces, hend, hscan'⟩ := h.next 0 t u rfl rfl
    refine ⟨hscan, mid, hspaces, hend, ⟨u, us, rfl, hscan'⟩, ?_, ?_, h.le_limit, h.ends⟩
    · intro k a b ha hb
      exact h.next (k + 1) a b ha hb
    · intro a ha
      apply h.last a
      rw [List.getLast?_cons_cons]
      exact ha
  · rintro ⟨hscan, mid, hspaces, hend, h⟩
    obtain ⟨u', us', hus, hscan'⟩ := h.first
    obtain ⟨rfl, -⟩ := List.cons.inj hus
    refine ⟨⟨t, u :: us, rfl, hscan⟩, ?_, ?_, h.le_limit, h.ends⟩
    · intro k a b ha hb
      cases k with
      | zero =>
        obtain rfl : t = a := Option.some.inj ha
        obtain rfl : u = b := Option.some.inj hb
        exact ⟨mid, hspaces, hend, hscan'⟩
      | succ k => exact h.next k a b ha hb
    · intro a ha
      rw [List.getLast?_cons_cons] at ha
      exact h.last a ha

/-- The spaces before the next tag end where skipping ends, and there a bracket stands. -/
theorem eq_skipWhile_of_scan? (h : src.SpacesBetween lo mid)
    (hend : src.test Text.isSpace mid = false) (hscan : scan? src mid limit = some u) :
    mid = src.skipWhile Text.isSpace lo limit ∧ mid < limit ∧ src[mid]? = some '<' := by
  have hbounds := stop_of_scan? hscan
  have hlt : mid < limit := by omega
  exact ⟨h.eq_skipWhile (Nat.le_of_lt hlt) (.inr hend), hlt, has_lt_of_scan? hscan⟩

/-- **Where spaces end after the first tag, either the line ends or the next tag starts.** -/
theorem fills_iff (hscan : scan? src pos limit = some t)
    (hnext : src.skipWhile Text.isSpace t.span.stop limit = mid) :
    Fills src limit pos ts stop ↔
      (ts = [t] ∧ stop = mid ∧ (mid = limit ∨ src[mid]? = some '\n')) ∨
      ∃ us, ts = t :: us ∧ mid < limit ∧ src[mid]? = some '<' ∧ Fills src limit mid us stop := by
  have hspaces : src.SpacesBetween t.span.stop mid := hnext ▸ src.spacesBetween_skipWhile _ _
  have hmid : mid ≤ limit := hnext ▸ Source.skipWhile_le (stop_of_scan? hscan).2
  constructor
  · intro h
    obtain ⟨t', us, rfl, hscan'⟩ := h.first
    obtain rfl : t = t' := Option.some.inj (hscan.symm.trans hscan')
    cases us with
    | nil =>
      obtain ⟨-, hspaces', hle, hends⟩ := fills_singleton_iff.mp h
      have hstop : stop = mid := by
        rw [← hnext]
        apply hspaces'.eq_skipWhile hle
        exact hends.imp_right fun hbreak => Source.test_isSpace_of_getElem? hbreak rfl
      exact .inl ⟨rfl, hstop, hstop ▸ hends⟩
    | cons u us =>
      obtain ⟨-, mid', hspaces', hend', h'⟩ := fills_cons_iff.mp h
      obtain ⟨v, vs, -, hv⟩ := h'.first
      obtain ⟨heq, hlt, hbracket⟩ := eq_skipWhile_of_scan? hspaces' hend' hv
      obtain rfl : mid' = mid := heq.trans hnext
      exact .inr ⟨u :: us, rfl, hlt, hbracket, h'⟩
  · rintro (⟨rfl, rfl, hends⟩ | ⟨us, rfl, -, hbracket, h⟩)
    · exact fills_singleton_iff.mpr ⟨hscan, hspaces, hmid, hends⟩
    · obtain ⟨u, us, rfl, -⟩ := h.first
      refine fills_cons_iff.mpr ⟨hscan, mid, hspaces, ?_, h⟩
      exact Source.test_isSpace_of_getElem? hbracket rfl

/-- **The tags of a run stand one after the other**, from its first offset to its end. -/
theorem Fills.increasing (h : Fills src limit pos ts stop) :
    (∀ t ∈ ts, pos ≤ t.span.start ∧ t.span.start < t.span.stop ∧ t.span.stop ≤ stop) ∧
      ts.Pairwise fun t u => t.span.start < u.span.start ∧ t.span.stop < u.span.stop := by
  induction ts generalizing pos with
  | nil =>
    obtain ⟨t, us, hts, -⟩ := h.first
    cases hts
  | cons t ts ih =>
    cases ts with
    | nil =>
      obtain ⟨hscan, hspaces, -, -⟩ := fills_singleton_iff.mp h
      have hstart := start_of_scan? hscan
      have hlt := (stop_of_scan? hscan).1
      have hle := hspaces.le
      refine ⟨?_, List.pairwise_singleton _ t⟩
      intro t' ht'
      obtain rfl := List.mem_singleton.mp ht'
      omega
    | cons u us =>
      obtain ⟨hscan, mid, hspaces, -, hus⟩ := fills_cons_iff.mp h
      obtain ⟨hbounds, hpairs⟩ := ih hus
      have hstart := start_of_scan? hscan
      have hlt := (stop_of_scan? hscan).1
      have hle := hspaces.le
      constructor
      · intro t' ht'
        rcases List.mem_cons.mp ht' with rfl | hmem
        · have := hbounds u List.mem_cons_self
          omega
        · have := hbounds t' hmem
          omega
      · refine List.pairwise_cons.mpr ⟨?_, hpairs⟩
        intro v hv
        have := hbounds v hv
        omega

/-! ### The run that is found -/

theorem ends_line_iff (h : mid ≤ limit) :
    (limit ≤ mid || src.has '\n' mid) = true ↔ mid = limit ∨ src[mid]? = some '\n' := by
  rw [Bool.or_eq_true, decide_eq_true_eq, Source.has_iff]
  constructor
  · intro hends
    exact hends.imp_left (Nat.le_antisymm h)
  · intro hends
    exact hends.imp_left fun heq => Nat.le_of_eq heq.symm

/-- **A run is found exactly if its tags fill the line.** -/
theorem run?_eq_some_iff :
    run? src pos limit = some (ts, stop) ↔ Fills src limit pos ts stop := by
  fun_induction run? src pos limit generalizing ts stop with
  | case1 pos hnone =>
    constructor
    · intro h
      cases h
    · intro h
      obtain ⟨t, us, -, hscan⟩ := h.first
      rw [hnone] at hscan
      cases hscan
  | case2 pos t hscan next =>
    rename_i hend
    have hends := (ends_line_iff (Source.skipWhile_le (stop_of_scan? hscan).2)).mp hend
    rw [fills_iff hscan rfl]
    constructor
    · intro h
      obtain ⟨rfl, rfl⟩ := Prod.mk.inj (Option.some.inj h)
      exact .inl ⟨rfl, rfl, hends⟩
    · rintro (⟨rfl, rfl, -⟩ | ⟨us, -, hlt, hbracket, -⟩)
      · rfl
      · -- the line ends here, so no tag starts here
        rcases hends with heq | hbreak
        · exact absurd hlt (Nat.not_lt.mpr (Nat.le_of_eq heq.symm))
        · cases hbracket.symm.trans hbreak
  | case3 pos t hscan next =>
    rename_i hend hbracket ih
    have hle : next ≤ limit := Source.skipWhile_le (stop_of_scan? hscan).2
    rw [ends_line_iff hle, not_or] at hend
    rw [fills_iff hscan rfl, Option.map_eq_some_iff]
    constructor
    · rintro ⟨⟨us, stop'⟩, hrun, heq⟩
      obtain ⟨rfl, rfl⟩ := Prod.mk.inj heq
      exact .inr ⟨us, rfl, Nat.lt_of_le_of_ne hle hend.1, Source.has_iff.mp hbracket, ih.mp hrun⟩
    · rintro (⟨-, -, hends⟩ | ⟨us, rfl, -, -, h⟩)
      · exact absurd hends (not_or.mpr hend)
      · exact ⟨(us, stop), ih.mpr h, rfl⟩
  | case4 pos t hscan next =>
    rename_i hend hno
    rw [ends_line_iff (Source.skipWhile_le (stop_of_scan? hscan).2)] at hend
    rw [fills_iff hscan rfl]
    constructor
    · intro h
      cases h
    · rintro (⟨-, -, hends⟩ | ⟨us, -, -, hbracket, -⟩)
      · exact absurd hends hend
      · exact absurd (Source.has_iff.mpr hbracket) hno

theorem Fills.unique (h : Fills src limit pos ts stop) (h' : Fills src limit pos ts' stop') :
    ts = ts' ∧ stop = stop' := by
  have hrun := (run?_eq_some_iff.mpr h).symm.trans (run?_eq_some_iff.mpr h')
  exact Prod.mk.inj (Option.some.inj hrun)

theorem run?_eq_none_iff :
    run? src pos limit = none ↔ ∀ ts stop, ¬ Fills src limit pos ts stop := by
  rw [Option.eq_none_iff_forall_ne_some]
  constructor
  · intro h ts stop hfills
    exact h (ts, stop) (run?_eq_some_iff.mpr hfills)
  · rintro h ⟨ts, stop⟩ hrun
    exact h ts stop (run?_eq_some_iff.mp hrun)

end Tag

/-- **A run of tags is found exactly where tags fill the line**, with these tags and the end of the
line.  There is at most one such run, its tags stand one after the other within the line, and where
there is none, none is found. -/
theorem tag_run_found_iff (src : Source) (pos limit : Nat) :
    (∀ ts stop, Tag.run? src pos limit = some (ts, stop) ↔ Tag.Fills src limit pos ts stop) ∧
    (∀ ts stop ts' stop', Tag.Fills src limit pos ts stop → Tag.Fills src limit pos ts' stop' →
      ts = ts' ∧ stop = stop') ∧
    (∀ ts stop, Tag.Fills src limit pos ts stop → stop ≤ limit ∧
      (∀ t ∈ ts, pos ≤ t.span.start ∧ t.span.start < t.span.stop ∧ t.span.stop ≤ stop) ∧
      ts.Pairwise fun t u => t.span.start < u.span.start ∧ t.span.stop < u.span.stop) ∧
    (Tag.run? src pos limit = none ↔ ∀ ts stop, ¬ Tag.Fills src limit pos ts stop) := by
  refine ⟨?_, ?_, ?_, Tag.run?_eq_none_iff⟩
  · intro ts stop
    exact Tag.run?_eq_some_iff
  · intro ts stop ts' stop' h h'
    exact h.unique h'
  · intro ts stop h
    exact ⟨h.le_limit, h.increasing⟩

/-- A tag over two lines, and the end of the line on which the last tag ends. -/
example : Tag.run? (Source.ofString "<A\n b>\t</A> <B/> \nx") 0 19 =
    some ([⟨some "A", ⟨0, 6⟩, .opening⟩, ⟨some "A", ⟨7, 11⟩, .closing⟩,
      ⟨some "B", ⟨12, 16⟩, .selfClosing⟩], 17) := by
  decide +kernel

end MdxProse
