import MdxProse.Proofs.ExpressionGrammar
import MdxProse.Proofs.TagLocality

/-!
# The grammar of tags

A tag is one of two fragments, or a name, attributes and an end.  Names are read as far as they go,
so the grammar says of each name that no longer one stands there.

* `Longest`, `Greedy`: the longest match of a pattern, and a reader that goes at least as far as any
  match does.  `Greedy.eq_some_iff`: **such a reader takes exactly the longest match.**
* `Name.Written`, `Attribute.IsName`, `Attribute.Value`: the patterns.  `Name.greedy`,
  `Attribute.greedy`, `Attribute.value?_eq_some_iff`: their readers.
* `Attribute.Before`, `Tag.Rest`, `Tag.Written`: the grammar.
* `Tag.tail?_iff`: **what comes after the name of an element is read by the grammar**, attribute by
  attribute.
* `tag_found_iff`: **the scanner finds exactly the tags of the grammar**, with the name and the form
  that the grammar gives them.
-/

namespace MdxProse

/-! ### Longest matches -/

/-- The text `u` matches the pattern, and no more of what follows it belongs to a match. -/
def Longest (p : List Char → Prop) (u r : List Char) : Prop :=
  p u ∧ ∀ x, x <+: r → p (u ++ x) → x = []

/-- A reader of a pattern that goes at least to the end of every match at the start of its text. -/
structure Greedy (f : List Char → Option (List Char)) (p : List Char → Prop) : Prop where
  sound : ∀ w r, f w = some r → ∃ u, p u ∧ w = u ++ r
  reach : ∀ u y, p u → ∃ x r, y = x ++ r ∧ f (u ++ y) = some r

/-- **A greedy reader takes the longest match.** -/
theorem Greedy.eq_some_iff {f : List Char → Option (List Char)} {p : List Char → Prop}
    (h : Greedy f p) {w r : List Char} : f w = some r ↔ ∃ u, Longest p u r ∧ w = u ++ r := by
  constructor
  · intro hf
    obtain ⟨u, hu, rfl⟩ := h.sound w r hf
    refine ⟨u, ⟨hu, ?_⟩, rfl⟩
    rintro x ⟨y, rfl⟩ hx
    -- what is left after the longer match is at least as long as what is left after this one
    obtain ⟨x', r', rfl, hr⟩ := h.reach (u ++ x) y hx
    rw [List.append_assoc, hf, Option.some.injEq] at hr
    have hlen := congrArg List.length hr
    rw [List.length_append, List.length_append] at hlen
    exact List.eq_nil_of_length_eq_zero (by omega)
  · rintro ⟨u, ⟨hu, hlongest⟩, rfl⟩
    obtain ⟨x, r', rfl, hf⟩ := h.reach u r hu
    obtain ⟨v, hv, he⟩ := h.sound _ _ hf
    rw [← List.append_assoc] at he
    obtain rfl := List.append_cancel_right he
    obtain rfl := hlongest x (List.prefix_append x r') hv
    exact hf

/-! ### Names -/

namespace Name

/-- A part of a name: a character that may start one, and characters that continue it. -/
def Part (u : List Char) : Prop :=
  ∃ c v, isStart c = true ∧ (∀ d ∈ v, isPart d = true) ∧ u = c :: v

/-- A name: parts, joined by dots or colons. -/
inductive Written : List Char → Prop
  | part {u : List Char} : Part u → Written u
  | member {u v : List Char} {c : Char} : Part u → joins c = true → Written v →
    Written (u ++ c :: v)

variable {u w y : List Char}

theorem Part.part?_append (h : Part u) (y : List Char) :
    part? (u ++ y) = some (y.dropWhile isPart) := by
  obtain ⟨c, v, hc, hv, rfl⟩ := h
  rw [List.cons_append, part?, if_pos hc, List.dropWhile_append_of_pos hv]

theorem isPart_of_joins {c : Char} (h : joins c = true) : isPart c = false := by
  simp only [joins, Bool.or_eq_true, beq_iff_eq] at h
  rcases h with rfl | rfl <;> decide

theorem Part.part?_joins (h : Part u) {c : Char} (hc : joins c = true) (y : List Char) :
    part? (u ++ c :: y) = some (c :: y) := by
  rw [h.part?_append, List.dropWhile_cons_of_neg]
  rw [isPart_of_joins hc]
  exact Bool.false_ne_true

theorem greedy_part : Greedy part? Part := by
  constructor
  · intro w r h
    cases w with
    | nil => cases h
    | cons c w =>
      rw [part?, Option.ite_none_right_eq_some, Option.some.injEq] at h
      obtain ⟨hc, rfl⟩ := h
      refine ⟨c :: w.takeWhile isPart, ⟨c, _, hc, ?_, rfl⟩, ?_⟩
      · exact List.all_eq_true.mp List.all_takeWhile
      · rw [List.cons_append, List.takeWhile_append_dropWhile]
  · intro u y hu
    exact ⟨y.takeWhile isPart, _, List.takeWhile_append_dropWhile.symm, hu.part?_append y⟩

/-- What the further parts of a name take: nothing, or a mark that joins them and a name. -/
theorem members_sound (w : List Char) : ∃ m, w = m ++ members w ∧
    (m = [] ∨ ∃ c v, joins c = true ∧ Written v ∧ m = c :: v) := by
  fun_induction members w with
  | case1 => exact ⟨[], rfl, .inl rfl⟩
  | case2 c w hc w' hp ih =>
    obtain ⟨u, hu, rfl⟩ := greedy_part.sound _ _ hp
    obtain ⟨m, hm, hmembers⟩ := ih
    refine ⟨c :: (u ++ m), ?_, .inr ⟨c, u ++ m, hc, ?_, rfl⟩⟩
    · rw [List.cons_append, List.append_assoc, ← hm]
    · rcases hmembers with rfl | ⟨d, v, hd, hv, rfl⟩
      · rw [List.append_nil]
        exact .part hu
      · exact .member hu hd hv
  | case3 | case4 => exact ⟨[], rfl, .inl rfl⟩

theorem members_suffix (w : List Char) : ∃ x, w = x ++ members w := by
  obtain ⟨m, hm, -⟩ := members_sound w
  exact ⟨m, hm⟩

/-- **The name of a tag is read as far as it goes.** -/
theorem greedy : Greedy rest? Written := by
  constructor
  · intro w r h
    rw [rest?, Option.map_eq_some_iff] at h
    obtain ⟨w', hp, rfl⟩ := h
    obtain ⟨u, hu, rfl⟩ := greedy_part.sound _ _ hp
    obtain ⟨m, hm, hmembers⟩ := members_sound w'
    refine ⟨u ++ m, ?_, by rw [List.append_assoc, ← hm]⟩
    rcases hmembers with rfl | ⟨c, v, hc, hv, rfl⟩
    · rw [List.append_nil]
      exact .part hu
    · exact .member hu hc hv
  · intro u y hu
    induction hu with
    | part hu =>
      obtain ⟨x, hx⟩ := members_suffix (y.dropWhile isPart)
      refine ⟨y.takeWhile isPart ++ x, members (y.dropWhile isPart), ?_, ?_⟩
      · rw [List.append_assoc, ← hx, List.takeWhile_append_dropWhile]
      · rw [rest?, hu.part?_append, Option.map_some]
    | @member u v c hu hc _ ih =>
      obtain ⟨x, r, rfl, hr⟩ := ih
      refine ⟨x, r, rfl, ?_⟩
      rw [List.append_assoc, List.cons_append, rest?, hu.part?_joins hc, Option.map_some,
        members_joins hc]
      rw [rest?] at hr
      rw [hr, Option.getD_some]

end Name

/-! ### Attributes -/

/-- White space between the parts of a tag. -/
def Text.Gap (w : List Char) : Prop :=
  ∀ c ∈ w, isGap c = true

instance (w : List Char) : Decidable (Text.Gap w) :=
  decidable_of_iff _ List.all_eq_true

theorem Text.gap_takeWhile (w : List Char) : Gap (w.takeWhile isGap) :=
  List.all_eq_true.mp List.all_takeWhile

theorem Text.Gap.dropWhile_append {g : List Char} (hg : Gap g) (w : List Char) :
    (g ++ w).dropWhile isGap = w.dropWhile isGap :=
  List.dropWhile_append_of_pos hg

theorem Expression.Braced.exists_cons {u : List Char} (h : Braced u) : ∃ v, u = '\x7b' :: v := by
  obtain ⟨v, -, rfl⟩ := h
  exact ⟨_, rfl⟩

theorem Expression.rest?_iff_braced {w r : List Char} (hw : w.head? = some '\x7b') :
    rest? 0 w = some r ↔ ∃ u, Braced u ∧ w = u ++ r := by
  constructor
  · intro h
    obtain ⟨u, rfl, hne, hu⟩ := rest?_local 0 w r h
    obtain ⟨c, v, rfl⟩ := List.exists_cons_of_ne_nil hne
    exact ⟨c :: v, braced_iff.mpr ⟨hw, hu⟩, rfl⟩
  · rintro ⟨u, hu, rfl⟩
    exact (braced_iff.mp hu).2 r

namespace Attribute

/-- The name of an attribute: one part, or two joined by a colon. -/
def IsName (u : List Char) : Prop :=
  Name.Part u ∨ ∃ v w, Name.Part v ∧ Name.Part w ∧ u = v ++ ':' :: w

/-- The value of an attribute: a text in quotes that holds no such quote, or an expression. -/
inductive Value : List Char → Prop
  | quoted {q : Char} {u : List Char} : q = '"' ∨ q = '\'' → q ∉ u → Value (q :: (u ++ [q]))
  | braced {u : List Char} : Expression.Braced u → Value u

/-- The text `u` is an attribute when `r` follows it: an expression, or a name as long as possible,
which may have a value. -/
inductive Before : (u r : List Char) → Prop
  | braced {u r : List Char} : Expression.Braced u → Before u r
  | bare {n r : List Char} : Longest IsName n r → Before n r
  | valued {n g h v r : List Char} : Longest IsName n (g ++ '=' :: (h ++ (v ++ r))) →
    Text.Gap g → Text.Gap h → Value v → Before (n ++ (g ++ '=' :: (h ++ v))) r

variable {w r : List Char}

/-- **The name of an attribute is read as far as it goes.** -/
theorem greedy : Greedy name? IsName := by
  constructor
  · intro w r h
    rw [name?, Option.map_eq_some_iff] at h
    obtain ⟨w', hp, hr⟩ := h
    obtain ⟨u, hu, rfl⟩ := Name.greedy_part.sound _ _ hp
    split at hr
    · next w' =>
      cases hs : Name.part? w' with
      | none =>
        rw [hs, Option.getD_none] at hr
        exact ⟨u, .inl hu, by rw [hr]⟩
      | some s =>
        rw [hs, Option.getD_some] at hr
        obtain ⟨v, hv, rfl⟩ := Name.greedy_part.sound _ _ hs
        exact ⟨u ++ ':' :: v, .inr ⟨u, v, hu, hv, rfl⟩, by rw [hr, List.append_assoc]; rfl⟩
    · exact ⟨u, .inl hu, by rw [hr]⟩
  · rintro u y (hu | ⟨v, w, hv, hw, rfl⟩)
    · have hy := (List.takeWhile_append_dropWhile (p := Name.isPart) (l := y)).symm
      rw [name?, hu.part?_append, Option.map_some]
      split
      · next w' he =>
        rw [he] at hy
        cases hs : Name.part? w' with
        | none => exact ⟨_, _, hy, by rw [Option.getD_none, he]⟩
        | some s =>
          obtain ⟨v, -, rfl⟩ := Name.greedy_part.sound _ _ hs
          exact ⟨y.takeWhile Name.isPart ++ ':' :: v, s, by rw [List.append_assoc]; exact hy, rfl⟩
      · exact ⟨_, _, hy, rfl⟩
    · refine ⟨y.takeWhile Name.isPart, _, List.takeWhile_append_dropWhile.symm, ?_⟩
      rw [List.append_assoc, List.cons_append, name?, hv.part?_joins rfl, Option.map_some]
      simp only [hw.part?_append, Option.getD_some]

theorem quoted?_eq_some_iff {q : Char} :
    quoted? q w = some r ↔ ∃ u, q ∉ u ∧ w = u ++ q :: r := by
  constructor
  · intro h
    induction w with
    | nil => cases h
    | cons c w ih =>
      rw [quoted?] at h
      split at h
      · next hc =>
        cases h
        exact ⟨[], by simp, by rw [beq_iff_eq.mp hc]; rfl⟩
      · next hc =>
        obtain ⟨u, hu, rfl⟩ := ih h
        refine ⟨c :: u, ?_, rfl⟩
        rw [List.mem_cons, not_or]
        exact ⟨fun he => hc (beq_iff_eq.mpr he.symm), hu⟩
  · rintro ⟨u, hu, rfl⟩
    induction u with
    | nil => rw [List.nil_append, quoted?, if_pos (beq_self_eq_true q)]
    | cons c u ih =>
      rw [List.mem_cons, not_or] at hu
      rw [List.cons_append, quoted?, if_neg (by simpa using Ne.symm hu.1), ih hu.2]

/-- **Just a value is read.** -/
theorem value?_eq_some_iff : value? w = some r ↔ ∃ u, Value u ∧ w = u ++ r := by
  constructor
  · intro h
    cases w with
    | nil => cases h
    | cons c w =>
      rw [value?] at h
      split at h
      · next hc =>
        obtain ⟨u, hu, rfl⟩ := quoted?_eq_some_iff.mp h
        refine ⟨c :: (u ++ [c]), .quoted ?_ hu, by simp⟩
        simpa only [Bool.or_eq_true, beq_iff_eq] using hc
      · split at h
        · next hc =>
          obtain ⟨u, hu, hw⟩ :=
            (Expression.rest?_iff_braced (by rw [beq_iff_eq.mp hc]; rfl)).mp h
          exact ⟨u, .braced hu, hw⟩
        · cases h
  · rintro ⟨u, hu, rfl⟩
    cases hu with
    | @quoted q u hq hu =>
      have hread := (quoted?_eq_some_iff (r := r)).mpr ⟨u, hu, rfl⟩
      rw [List.cons_append, List.append_assoc, List.singleton_append, value?, if_pos, hread]
      simpa only [Bool.or_eq_true, beq_iff_eq] using hq
    | braced hu =>
      have hread := (Expression.rest?_iff_braced (r := r) (w := u ++ r) (by
        obtain ⟨v, rfl⟩ := hu.exists_cons
        rfl)).mpr ⟨u, hu, rfl⟩
      obtain ⟨v, rfl⟩ := hu.exists_cons
      exact hread

theorem Value.dropWhile_append {v : List Char} (h : Value v) (r : List Char) :
    (v ++ r).dropWhile Text.isGap = v ++ r := by
  cases h with
  | quoted hq => rcases hq with rfl | rfl <;> rfl
  | braced hu =>
    obtain ⟨u, rfl⟩ := hu.exists_cons
    rfl

/-- What the reader of attributes takes is an attribute, with the white space after it if it has no
value. -/
theorem rest?_sound (h : rest? w = some r) :
    ∃ u v, Before u v ∧ w = u ++ v ∧ (r = v ∨ r = v.dropWhile Text.isGap) := by
  rw [rest?] at h
  split at h
  · cases h
  · next v hn =>
    obtain ⟨n, hlongest, rfl⟩ := greedy.eq_some_iff.mp hn
    split at h
    · next w' hd =>
      obtain ⟨u, hu, hw'⟩ := value?_eq_some_iff.mp h
      have hv : v = v.takeWhile Text.isGap ++ '=' :: (w'.takeWhile Text.isGap ++ (u ++ r)) := by
        rw [← hw', List.takeWhile_append_dropWhile, ← hd, List.takeWhile_append_dropWhile]
      refine ⟨n ++ (v.takeWhile Text.isGap ++ '=' :: (w'.takeWhile Text.isGap ++ u)), r,
        .valued (hv ▸ hlongest) (Text.gap_takeWhile v) (Text.gap_takeWhile w') hu, ?_, .inl rfl⟩
      conv => lhs; rw [hv]
      simp
    · cases h
      exact ⟨n, v, .bare hlongest, rfl, .inr rfl⟩

/-- An attribute that is no expression is read, if no value follows it. -/
theorem Before.rest?_append {u : List Char} (h : Before u r) (hu : u.head? ≠ some '\x7b')
    (hr : (r.dropWhile Text.isGap).head? ≠ some '=') :
    ∃ v, rest? (u ++ r) = some v ∧ (v = r ∨ v = r.dropWhile Text.isGap) := by
  cases h with
  | braced hb =>
    obtain ⟨v, rfl⟩ := hb.exists_cons
    exact absurd rfl hu
  | bare hlongest =>
    rw [rest?, greedy.eq_some_iff.mpr ⟨u, hlongest, rfl⟩]
    dsimp only
    split
    · next hd =>
      rw [hd] at hr
      exact absurd rfl hr
    · exact ⟨_, rfl, .inr rfl⟩
  | @valued n g h v _ hlongest hg hh hv =>
    refine ⟨r, ?_, .inl rfl⟩
    have hn := greedy.eq_some_iff.mpr ⟨n, hlongest, rfl⟩
    have hd : (g ++ '=' :: (h ++ (v ++ r))).dropWhile Text.isGap = '=' :: (h ++ (v ++ r)) :=
      hg.dropWhile_append _
    have hvalue := (value?_eq_some_iff (r := r)).mpr ⟨v, hv, rfl⟩
    rw [List.append_assoc, List.append_assoc, List.cons_append, List.append_assoc, rest?, hn]
    simp only [hd, hh.dropWhile_append, hv.dropWhile_append, hvalue]

theorem not_gap_of_isStart {c : Char} (h : Name.isStart c = true) : Text.isGap c = false := by
  rw [Bool.eq_false_iff]
  intro hgap
  simp only [Text.isGap, Text.isSpace, Bool.or_eq_true, beq_iff_eq] at hgap
  rcases hgap with (rfl | rfl) | rfl <;> cases h

theorem Before.exists_cons {u : List Char} (h : Before u r) : ∃ c v, u = c :: v ∧
    (c = '\x7b' ∧ Expression.Braced u ∨ Name.isStart c = true) := by
  have hname {n : List Char} (hn : IsName n) : ∃ c v, n = c :: v ∧ Name.isStart c = true := by
    rcases hn with ⟨c, v, hc, -, rfl⟩ | ⟨_, w, ⟨c, v, hc, -, rfl⟩, -, rfl⟩
    · exact ⟨c, v, rfl, hc⟩
    · exact ⟨c, v ++ ':' :: w, rfl, hc⟩
  cases h with
  | braced hb =>
    obtain ⟨v, rfl⟩ := hb.exists_cons
    exact ⟨_, v, rfl, .inl ⟨rfl, hb⟩⟩
  | bare hlongest =>
    obtain ⟨c, v, rfl, hc⟩ := hname hlongest.1
    exact ⟨c, v, rfl, .inr hc⟩
  | valued hlongest =>
    obtain ⟨c, v, rfl, hc⟩ := hname hlongest.1
    exact ⟨c, _, rfl, .inr hc⟩

end Attribute

/-! ### The grammar -/

namespace Tag

/-- What follows the name of an element in its tag: attributes, and then the end of the tag, which
tells the form of it. -/
inductive Rest : TagForm → List Char → Prop
  | gt {g : List Char} : Text.Gap g → Rest .opening (g ++ ['>'])
  | slash {g h : List Char} : Text.Gap g → Text.Gap h →
    Rest .selfClosing (g ++ '/' :: (h ++ ['>']))
  | cons {f : TagForm} {g u w : List Char} : Text.Gap g → Attribute.Before u w → Rest f w →
    Rest f (g ++ (u ++ w))

/-- The text is a tag of this name and form: half of a fragment, the closing tag of an element, or
a tag that starts one. -/
inductive Written : Option String → TagForm → List Char → Prop
  | fragmentStart : Written none .opening ['<', '>']
  | fragmentEnd : Written none .closing ['<', '/', '>']
  | closing {n g : List Char} : Longest Name.Written n (g ++ ['>']) → Text.Gap g →
    Written (some (String.ofList n)) .closing ('<' :: '/' :: (n ++ (g ++ ['>'])))
  | element {f : TagForm} {n w : List Char} : Longest Name.Written n w → Rest f w →
    Written (some (String.ofList n)) f ('<' :: (n ++ w))

variable {f : TagForm} {closing bare : Bool} {n : Option String} {w : List Char}

theorem Rest.gap_append {g : List Char} (hg : Text.Gap g) (h : Rest f w) : Rest f (g ++ w) := by
  have happend {g' : List Char} (hg' : Text.Gap g') : Text.Gap (g ++ g') := fun c hc =>
    (List.mem_append.mp hc).elim (hg c) (hg' c)
  cases h with
  | gt hg' =>
    rw [← List.append_assoc]
    exact .gt (happend hg')
  | slash hg' hh =>
    rw [← List.append_assoc]
    exact .slash (happend hg') hh
  | cons hg' hu hw =>
    rw [← List.append_assoc]
    exact .cons (happend hg') hu hw

theorem tail?_dropWhile (w : List Char) :
    tail? closing bare (w.dropWhile Text.isGap) = tail? closing bare w := by
  have hidem := (Text.gap_takeWhile w).dropWhile_append (w.dropWhile Text.isGap)
  rw [List.takeWhile_append_dropWhile] at hidem
  rw [tail?.eq_def, tail?.eq_def closing bare w, ← hidem]

theorem head?_ne_of_tail? {r : List Char} (h : tail? closing bare w = some (f, r)) :
    (w.dropWhile Text.isGap).head? ≠ some '=' := by
  intro he
  obtain ⟨v, hd⟩ := List.head?_eq_some_iff.mp he
  rw [tail?_attribute hd (by decide) (by decide)] at h
  split at h <;> cases h

theorem Rest.of_tail? (h : tail? false false w = some (f, [])) : Rest f w := by
  fun_induction tail? false false w with
  | case1 | case3 | case5 | case6 | case8 => cases h
  | case2 w r hd =>
    obtain ⟨rfl, rfl⟩ := Prod.mk.inj (Option.some.inj h)
    rw [takeWhile_append_of_dropWhile hd]
    exact .gt (Text.gap_takeWhile w)
  | case4 w r hd _ r' hd' =>
    obtain ⟨rfl, rfl⟩ := Prod.mk.inj (Option.some.inj h)
    rw [takeWhile_append_of_dropWhile hd, takeWhile_append_of_dropWhile hd']
    exact .slash (Text.gap_takeWhile w) (Text.gap_takeWhile r)
  | case7 w c r _ _ hd _ r' hread ih =>
    rw [takeWhile_append_of_dropWhile hd]
    split at hread
    · next hc =>
      obtain ⟨u, hu, hw⟩ := (Expression.rest?_iff_braced (by rw [beq_iff_eq.mp hc]; rfl)).mp hread
      rw [hw]
      exact .cons (Text.gap_takeWhile w) (.braced hu) (ih h)
    · obtain ⟨u, v, hu, hw, hr⟩ := Attribute.rest?_sound hread
      rw [hw]
      refine .cons (Text.gap_takeWhile w) hu ?_
      rcases hr with rfl | rfl
      · exact ih h
      · -- the reader took the white space after the attribute, too
        rw [← List.takeWhile_append_dropWhile (p := Text.isGap) (l := v)]
        exact (ih h).gap_append (Text.gap_takeWhile v)

theorem Rest.tail?_eq (h : Rest f w) : tail? false false w = some (f, []) := by
  induction h with
  | gt hg =>
    rw [tail?_gt (hg.dropWhile_append _)]
    rfl
  | slash hg hh =>
    rw [tail?_slash (hg.dropWhile_append _), hh.dropWhile_append]
    rfl
  | @cons f g u w hg hu _ ih =>
    obtain ⟨c, v, rfl, hc⟩ := hu.exists_cons
    have hstart : Text.isGap c = false ∧ c ≠ '>' ∧ c ≠ '/' := by
      rcases hc with ⟨rfl, -⟩ | hc
      · decide
      · refine ⟨Attribute.not_gap_of_isStart hc, ?_, ?_⟩ <;> rintro rfl <;> cases hc
    have hd : (g ++ (c :: v ++ w)).dropWhile Text.isGap = c :: (v ++ w) := by
      rw [hg.dropWhile_append, List.cons_append, List.dropWhile_cons_of_neg (by simp [hstart.1])]
    rw [tail?_attribute hd hstart.2.1 hstart.2.2, if_neg (by decide)]
    rcases hc with ⟨rfl, hb⟩ | hc
    · have hread := (Expression.rest?_iff_braced (r := w) rfl).mpr ⟨_, hb, rfl⟩
      rw [if_pos (beq_self_eq_true _), ← List.cons_append, hread, Option.bind_some, ih]
    · have hne : c ≠ '\x7b' := by
        rintro rfl
        cases hc
      obtain ⟨v', hread, hv'⟩ := hu.rest?_append (by simpa using hne) (head?_ne_of_tail? ih)
      rw [if_neg (by simpa using hne), ← List.cons_append, hread, Option.bind_some]
      rcases hv' with rfl | rfl
      · exact ih
      · rw [tail?_dropWhile, ih]

/-- **What follows the name of an element is read by the grammar.** -/
theorem tail?_iff : tail? false false w = some (f, []) ↔ Rest f w :=
  ⟨.of_tail?, Rest.tail?_eq⟩

theorem tail?_closing_iff :
    tail? true bare w = some (f, []) ↔ f = .closing ∧ ∃ g, Text.Gap g ∧ w = g ++ ['>'] := by
  constructor
  · intro h
    cases hd : w.dropWhile Text.isGap with
    | nil =>
      rw [tail?.eq_def] at h
      split at h <;> simp_all
    | cons c r =>
      by_cases hgt : c = '>'
      · rw [hgt] at hd
        rw [tail?_gt hd] at h
        obtain ⟨rfl, rfl⟩ := Prod.mk.inj (Option.some.inj h)
        exact ⟨rfl, _, Text.gap_takeWhile w, takeWhile_append_of_dropWhile hd⟩
      · by_cases hs : c = '/'
        · rw [hs] at hd
          rw [tail?_slash hd] at h
          cases h
        · rw [tail?_attribute hd hgt hs] at h
          cases h
  · rintro ⟨rfl, g, hg, rfl⟩
    rw [tail?_gt (hg.dropWhile_append _)]
    rfl

theorem take_append_left (u r : List Char) : (u ++ r).take ((u ++ r).length - r.length) = u := by
  rw [List.length_append, Nat.add_sub_cancel, List.take_left]

/-- After its first bracket, or after the slash that follows that, a tag goes on with a name, or it
is half of a fragment and ends. -/
theorem body?_iff : body? closing w = some (n, f, []) ↔
    (∃ u v, Longest Name.Written u v ∧ w = u ++ v ∧ tail? closing false v = some (f, []) ∧
      n = some (String.ofList u)) ∨
    w = ['>'] ∧ n = none ∧ f = if closing then .closing else .opening := by
  unfold body?
  cases hn : Name.rest? w with
  | some v =>
    obtain ⟨u, hlongest, rfl⟩ := Name.greedy.eq_some_iff.mp hn
    simp only [Option.map_eq_some_iff, Prod.mk.injEq, Prod.exists, take_append_left]
    constructor
    · rintro ⟨f', r, ht, rfl, rfl, rfl⟩
      exact .inl ⟨u, v, hlongest, rfl, ht, rfl⟩
    · rintro (⟨u', v', hlongest', he, ht, rfl⟩ | ⟨he, -, -⟩)
      · have hn' := Name.greedy.eq_some_iff.mpr ⟨u', hlongest', he⟩
        obtain rfl := Option.some.inj (hn.symm.trans hn')
        rw [List.append_cancel_right he]
        exact ⟨f, [], ht, rfl, rfl, rfl⟩
      · rw [he] at hn
        cases hn
  | none =>
    have hno : ¬ ∃ u v, Longest Name.Written u v ∧ w = u ++ v ∧
        tail? closing false v = some (f, []) ∧ n = some (String.ofList u) := by
      rintro ⟨u, v, hlongest, he, -⟩
      rw [Name.greedy.eq_some_iff.mpr ⟨u, hlongest, he⟩] at hn
      cases hn
    rw [or_iff_right hno]
    dsimp only
    split
    · next r =>
      rw [tail?_gt rfl]
      simp only [Option.map_some, Option.some.injEq, Prod.mk.injEq, List.cons.injEq, true_and]
      constructor <;> rintro ⟨rfl, rfl, rfl⟩ <;> exact ⟨rfl, rfl, rfl⟩
    · next hne =>
      constructor
      · intro h
        cases h
      · rintro ⟨rfl, -, -⟩
        exact absurd rfl (hne [])

theorem Written.of_read? (h : read? w = some (n, f, [])) : Written n f w := by
  rw [read?.eq_def] at h
  split at h
  · rcases body?_iff.mp h with ⟨u, v, hlongest, rfl, ht, rfl⟩ | ⟨rfl, rfl, rfl⟩
    · obtain ⟨rfl, g, hg, rfl⟩ := tail?_closing_iff.mp ht
      exact .closing hlongest hg
    · exact .fragmentEnd
  · rcases body?_iff.mp h with ⟨u, v, hlongest, rfl, ht, rfl⟩ | ⟨rfl, rfl, rfl⟩
    · exact .element hlongest (tail?_iff.mp ht)
    · exact .fragmentStart
  · cases h

theorem head?_ne_slash {u v : List Char} (h : Name.Written u) : ∀ r, u ++ v ≠ '/' :: r := by
  have hpart {u v : List Char} (hu : Name.Part u) : ∀ r, u ++ v ≠ '/' :: r := by
    obtain ⟨c, u, hc, -, rfl⟩ := hu
    intro r he
    rw [(List.cons.inj he).1] at hc
    cases hc
  cases h with
  | part hu => exact hpart hu
  | member hu =>
    rw [List.append_assoc]
    exact hpart hu

theorem Written.read?_eq (h : Written n f w) : read? w = some (n, f, []) := by
  cases h with
  | fragmentStart =>
    rw [read?.eq_2 _ (by simp)]
    exact body?_iff.mpr (.inr ⟨rfl, rfl, rfl⟩)
  | fragmentEnd => exact body?_iff.mpr (.inr ⟨rfl, rfl, rfl⟩)
  | closing hlongest hg =>
    exact body?_iff.mpr
      (.inl ⟨_, _, hlongest, rfl, tail?_closing_iff.mpr ⟨rfl, _, hg, rfl⟩, rfl⟩)
  | element hlongest hrest =>
    rw [read?.eq_2 _ (head?_ne_slash hlongest.1)]
    exact body?_iff.mpr (.inl ⟨_, _, hlongest, rfl, hrest.tail?_eq, rfl⟩)

theorem Written.name_eq_none_iff (h : Written n f w) :
    n = none ↔ w = ['<', '>'] ∨ w = ['<', '/', '>'] := by
  constructor
  · rintro rfl
    cases h with
    | fragmentStart => exact .inl rfl
    | fragmentEnd => exact .inr rfl
  · have hread := h.read?_eq
    rintro (rfl | rfl)
    · rw [Written.fragmentStart.read?_eq] at hread
      exact (congrArg Prod.fst (Option.some.inj hread)).symm
    · rw [Written.fragmentEnd.read?_eq] at hread
      exact (congrArg Prod.fst (Option.some.inj hread)).symm

/-- **The tags of the grammar are the texts that are read as a tag whatever comes after them.** -/
theorem spells_iff : Spells w n f ↔ Written n f w := by
  constructor
  · rintro ⟨-, h⟩
    have h := h []
    rw [List.append_nil] at h
    exact .of_read? h
  · intro h
    obtain ⟨u, hu, hlast, hread⟩ := read?_local h.read?_eq
    rw [List.append_nil] at hu
    subst hu
    exact ⟨hlast, hread⟩

end Tag

open Tag

/-- **A tag is found exactly where one of the grammar stands.**  The scanner answers with a tag if
and only if what its span covers is one of the grammar, with its name and its form, and stays below
the limit.  There is at most one such text, only the two fragments have no name, and where there is
no such text, the scanner answers with nothing. -/
theorem tag_found_iff {src : Source} {pos limit : Nat} (hlimit : limit ≤ src.size) :
    (∀ t, scan? src pos limit = some t ↔ t.span.start = pos ∧ t.span.stop ≤ limit ∧
      Written t.name t.form (src.window pos t.span.stop)) ∧
    (∀ n n' f f' stop stop', stop ≤ limit → stop' ≤ limit → Written n f (src.window pos stop) →
      Written n' f' (src.window pos stop') → stop = stop' ∧ n = n' ∧ f = f') ∧
    (∀ t, scan? src pos limit = some t → (t.name = none ↔
      src.window pos t.span.stop = ['<', '>'] ∨ src.window pos t.span.stop = ['<', '/', '>'])) ∧
    (scan? src pos limit = none ↔
      ∀ n f stop, stop ≤ limit → ¬ Written n f (src.window pos stop)) := by
  have hfound (t : Tag) : scan? src pos limit = some t ↔ t.span.start = pos ∧
      t.span.stop ≤ limit ∧ Written t.name t.form (src.window pos t.span.stop) := by
    rw [scan?_eq_some_iff]
    constructor
    · rintro ⟨u, hu, hat, hle, hspan⟩
      rw [hspan]
      refine ⟨rfl, hle, ?_⟩
      rw [hat.window_eq]
      exact spells_iff.mp hu
    · rintro ⟨hstart, hle, hwritten⟩
      have hspells := spells_iff.mpr hwritten
      have hpos := List.length_pos_iff.mpr hspells.ne_nil
      have hlen := src.length_window pos t.span.stop
      have hstop : pos + (src.window pos t.span.stop).length = t.span.stop := by omega
      exact ⟨_, hspells, src.hasAt_window pos t.span.stop, by omega, by rw [hstop, ← hstart]⟩
  refine ⟨hfound, ?_, ?_, ?_⟩
  · intro n n' f f' stop stop' hle hle' h h'
    have hscan := (hfound ⟨n, ⟨pos, stop⟩, f⟩).mpr ⟨rfl, hle, h⟩
    have hscan' := (hfound ⟨n', ⟨pos, stop'⟩, f'⟩).mpr ⟨rfl, hle', h'⟩
    cases Option.some.inj (hscan.symm.trans hscan')
    exact ⟨rfl, rfl, rfl⟩
  · intro t ht
    exact ((hfound t).mp ht).2.2.name_eq_none_iff
  · constructor
    · intro hnone n f stop hle h
      rw [(hfound ⟨n, ⟨pos, stop⟩, f⟩).mpr ⟨rfl, hle, h⟩] at hnone
      cases hnone
    · intro hno
      rw [Option.eq_none_iff_forall_ne_some]
      intro t ht
      obtain ⟨-, hle, hwritten⟩ := (hfound t).mp ht
      exact hno _ _ _ hle hwritten

/-- A name with a member, attributes of each kind, a value with a bracket in it, and a limit that
cuts the tag off. -/
theorem tag_found_iff_attributes : ∃ src : Source,
    src.window 2 33 = "<N.b c=\">\"d:e \x7b'\x7d'\x7d f\n= 'g' / >".toList ∧
      Tag.scan? src 2 src.size = some ⟨some "N.b", ⟨2, 33⟩, .selfClosing⟩ ∧
      Tag.scan? src 2 32 = none := by
  let src := Source.ofString "a <N.b c=\">\"d:e \x7b'\x7d'\x7d f\n= 'g' / > b"
  have hwindow : src.window 2 33 = "<N.b c=\">\"d:e \x7b'\x7d'\x7d f\n= 'g' / >".toList := by
    decide +kernel
  have hlongest {g : List Char → Option (List Char)} {p : List Char → Prop} (hg : Greedy g p)
      {u r : List Char} (h : g (u ++ r) = some r) : Longest p u r := by
    obtain ⟨v, hv, he⟩ := hg.eq_some_iff.mp h
    rwa [List.append_cancel_right he]
  have hslash : Rest .selfClosing " / >".toList :=
    .slash (g := [' ']) (h := [' ']) (by decide) (by decide)
  have hf : Rest .selfClosing " f\n= 'g' / >".toList :=
    .cons (g := [' ']) (by decide) (.valued (n := ['f']) (g := ['\n']) (h := [' '])
      (v := "'g'".toList) (hlongest Attribute.greedy (by decide +kernel)) (by decide) (by decide)
      (.quoted (u := ['g']) (.inr rfl) (by decide))) hslash
  have hliteral : Expression.Braced "\x7b'\x7d'\x7d".toList :=
    ⟨"'\x7d'".toList, .literal (u := ['\x7d']) rfl
      (.plain (by decide) (by decide) (by decide) .nil) .nil, rfl⟩
  have hbraced : Rest .selfClosing " \x7b'\x7d'\x7d f\n= 'g' / >".toList :=
    .cons (g := [' ']) (by decide) (.braced hliteral) hf
  have hbare : Rest .selfClosing "d:e \x7b'\x7d'\x7d f\n= 'g' / >".toList :=
    .cons (g := []) (u := "d:e".toList) (by decide)
      (.bare (hlongest Attribute.greedy (by decide +kernel))) hbraced
  have hc : Rest .selfClosing " c=\">\"d:e \x7b'\x7d'\x7d f\n= 'g' / >".toList :=
    .cons (g := [' ']) (by decide) (.valued (n := ['c']) (g := []) (h := [])
      (v := "\">\"".toList) (hlongest Attribute.greedy (by decide +kernel)) (by decide) (by decide)
      (.quoted (u := ['>']) (.inl rfl) (by decide))) hbare
  have hwritten : Written (some "N.b") .selfClosing (src.window 2 33) := by
    rw [hwindow]
    exact .element (n := "N.b".toList) (hlongest Name.greedy (by decide +kernel)) hc
  have hsize : 33 ≤ src.size := by decide +kernel
  obtain ⟨hfound, hunique, -, -⟩ := @tag_found_iff src 2 src.size (Nat.le_refl _)
  obtain ⟨-, -, -, hnone⟩ := @tag_found_iff src 2 32 (by decide)
  refine ⟨src, hwindow, (hfound ⟨_, ⟨2, 33⟩, _⟩).mpr ⟨rfl, hsize, hwritten⟩, hnone.mpr ?_⟩
  intro n f stop hle h
  have hstop := (hunique _ _ _ _ _ _ (by omega) hsize h hwritten).1
  omega

end MdxProse
