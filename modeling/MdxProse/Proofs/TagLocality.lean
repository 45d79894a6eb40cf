import MdxProse.Proofs.Locality
import MdxProse.Tag

/-!
# Tags are local

A name is read as far as it goes, so what stands after it matters: `Name.Ends` says which texts do
not go on with a name.  A tag ends in `>`, so whatever stands after a name in it is part of the
tag, and `Tag.read?_local` says that a tag is the same before every text.

`Tag.scan?_eq_some_iff` turns this into offsets: a tag is found exactly where a text stands that
spells one.  So it is found, with the same end, under every limit that leaves it whole
(`Tag.scan?_of_stop_le`).
-/

namespace MdxProse

/-! ### Names -/

namespace Name

theorem part?_split {w r : List Char} (h : part? w = some r) :
    ∃ u, w = u ++ r ∧ u ≠ [] ∧ (∀ c ∈ r.head?, isPart c = false) ∧
      ∀ x, (∀ c ∈ x.head?, isPart c = false) → part? (u ++ x) = some x := by
  cases w with
  | nil => simp [part?] at h
  | cons c w =>
    simp only [part?, Option.ite_none_right_eq_some, Option.some.injEq] at h
    obtain ⟨hc, rfl⟩ := h
    refine ⟨c :: w.takeWhile isPart, by simp, by simp, fun d hd => ?_, fun x hx => ?_⟩
    · have := List.head?_dropWhile_not isPart w
      rw [Option.mem_def.mp hd] at this
      simpa using this
    · rw [List.cons_append, part?, if_pos hc, List.dropWhile_append_of_pos fun a ha => by
        simpa using List.all_eq_true.mp List.all_takeWhile a ha]
      cases x with
      | nil => rfl
      | cons d x => rw [List.dropWhile_cons_of_neg (by simpa using hx d rfl)]

/-- A dot or a colon joins another part to a name. -/
def joins (c : Char) : Bool :=
  c == '.' || c == ':'

/-- The text does not go on with the name before it: its first character neither belongs to a part
of a name nor joins another part. -/
def Ends (x : List Char) : Prop :=
  ∀ c ∈ x.head?, isPart c = false ∧ joins c = false

theorem members_of_ends {x : List Char} (h : Ends x) : members x = x := by
  cases x with
  | nil => rw [members]
  | cons c x =>
    rw [members, if_neg]
    simpa [joins] using (h c rfl).2

theorem members_joins {c : Char} (hc : joins c = true) (r : List Char) :
    members (c :: r) = ((part? r).map members).getD (c :: r) := by
  rw [members, if_pos (by simpa [joins] using hc)]
  split <;> simp_all

theorem members_split {w r : List Char} (h : members w = r) (hr : Ends r)
    (hw : ∀ c ∈ w.head?, isPart c = false) :
    ∃ u, w = u ++ r ∧
      ∀ x, Ends x → (∀ c ∈ (u ++ x).head?, isPart c = false) ∧ members (u ++ x) = x := by
  fun_induction members w with
  | case1 =>
    subst h
    exact ⟨[], rfl, fun x hx => ⟨fun c hc => (hx c hc).1, members_of_ends hx⟩⟩
  | case2 c w hc w' hp ih =>
    obtain ⟨v, rfl, -, hw', hv⟩ := part?_split hp
    obtain ⟨u, rfl, hu⟩ := ih h hw'
    refine ⟨c :: (v ++ u), by simp, fun x hx => ⟨by simpa using hw, ?_⟩⟩
    rw [List.cons_append, List.append_assoc, members_joins hc, hv _ (hu x hx).1]
    simp [(hu x hx).2]
  | case3 c w hc _ =>
    subst h
    have hj : joins c = true := hc
    rw [(hr c rfl).2] at hj
    cases hj
  | case4 c w _ =>
    subst h
    exact ⟨[], rfl, fun x hx => ⟨fun c hc => (hx c hc).1, members_of_ends hx⟩⟩

theorem isPart_of_members {w r : List Char} (h : members w = r)
    (hw : ∀ c ∈ w.head?, isPart c = false) : ∀ c ∈ r.head?, isPart c = false := by
  fun_induction members w with
  | case1 => subst h; exact hw
  | case2 c w hc w' hp ih =>
    obtain ⟨-, -, -, hw', -⟩ := part?_split hp
    exact ih h hw'
  | case3 | case4 => subst h; exact hw

theorem isPart_of_rest? {w r : List Char} (h : rest? w = some r) :
    ∀ c ∈ r.head?, isPart c = false := by
  simp only [rest?, Option.map_eq_some_iff] at h
  obtain ⟨w', hp, hm⟩ := h
  obtain ⟨-, -, -, hw', -⟩ := part?_split hp
  exact isPart_of_members hm hw'

theorem rest?_split {w r : List Char} (h : rest? w = some r) (hr : Ends r) :
    ∃ u, w = u ++ r ∧ u ≠ [] ∧ ∀ x, Ends x → rest? (u ++ x) = some x := by
  simp only [rest?, Option.map_eq_some_iff] at h
  obtain ⟨w', hp, hm⟩ := h
  obtain ⟨v, rfl, hne, hw', hv⟩ := part?_split hp
  obtain ⟨u, rfl, hu⟩ := members_split hm hr hw'
  refine ⟨v ++ u, by simp, by simp [hne], fun x hx => ?_⟩
  rw [List.append_assoc, rest?, hv _ (hu x hx).1, Option.map_some, (hu x hx).2]

end Name

/-! ### Attributes -/

namespace Attribute

theorem quoted?_local (q : Char) : Local (quoted? q) := by
  intro w r h
  induction w with
  | nil => simp [quoted?] at h
  | cons c w ih =>
    rw [quoted?] at h
    by_cases hc : (c == q) = true
    · rw [if_pos hc, Option.some.injEq] at h
      subst h
      exact ⟨[c], rfl, by simp, fun x => by rw [List.singleton_append, quoted?, if_pos hc]⟩
    · rw [if_neg hc] at h
      obtain ⟨u, rfl, -, hu⟩ := ih h
      exact ⟨c :: u, rfl, by simp, fun x => by rw [List.cons_append, quoted?, if_neg hc, hu]⟩

theorem value?_local : Local value? := by
  intro w r h
  cases w with
  | nil => simp [value?] at h
  | cons c w =>
    rw [value?] at h
    by_cases hq : (c == '"' || c == '\'') = true
    · rw [if_pos hq] at h
      obtain ⟨u, rfl, -, hu⟩ := quoted?_local c _ _ h
      exact ⟨c :: u, rfl, by simp, fun x => by rw [List.cons_append, value?, if_pos hq, hu]⟩
    · rw [if_neg hq] at h
      by_cases ho : (c == '{') = true
      · rw [if_pos ho] at h
        obtain ⟨u, hw, hne, hu⟩ := Expression.rest?_local 0 _ _ h
        obtain ⟨d, v, rfl⟩ := List.exists_cons_of_ne_nil hne
        obtain ⟨rfl, rfl⟩ := List.cons.inj hw
        exact ⟨c :: v, rfl, by simp, fun x => by
          rw [List.cons_append, value?, if_neg hq, if_pos ho]; exact hu x⟩
      · rw [if_neg ho] at h
        cases h

theorem ends_of_isGap {c : Char} (h : Text.isGap c = true) (x : List Char) :
    Name.Ends (c :: x) := by
  intro d hd
  obtain rfl : c = d := by simpa using hd
  simp only [Text.isGap, Text.isSpace, Bool.or_eq_true, beq_iff_eq] at h
  rcases h with (rfl | rfl) | rfl <;> exact ⟨by decide, by decide⟩

theorem name?_split {w r : List Char} (h : name? w = some r) :
    ∃ u, w = u ++ r ∧ u ≠ [] ∧ (∀ c ∈ r.head?, Name.isPart c = false) ∧
      ∀ x, Name.Ends x → name? (u ++ x) = some x := by
  simp only [name?, Option.map_eq_some_iff] at h
  obtain ⟨w', hp, hm⟩ := h
  obtain ⟨v, rfl, hne, hw', hv⟩ := Name.part?_split hp
  have first : ∀ x, Name.Ends x → name? (v ++ x) = some x := by
    intro x hx
    rw [name?, hv x fun c hc => (hx c hc).1, Option.map_some]
    split
    · exact absurd (hx ':' rfl).2 (by decide)
    · rfl
  split at hm
  · next w'' =>
    cases hs : Name.part? w'' with
    | none =>
      rw [hs, Option.getD_none] at hm
      exact ⟨v, by rw [hm], hne, hm ▸ hw', first⟩
    | some s =>
      rw [hs, Option.getD_some] at hm
      subst hm
      obtain ⟨v', rfl, -, hs', hv'⟩ := Name.part?_split hs
      refine ⟨v ++ ':' :: v', by simp, by simp, hs', fun x hx => ?_⟩
      rw [List.append_assoc, List.cons_append, name?, hv _ (by simpa using hw'), Option.map_some]
      simp only [hv' x fun c hc => (hx c hc).1, Option.getD_some]
  · exact ⟨v, by rw [hm], hne, hm ▸ hw', first⟩

/-- White space ends a name, and so does what comes after it if there is none. -/
theorem ends_gaps_append {w x : List Char} (h : w.takeWhile Text.isGap = [] → Name.Ends x) :
    Name.Ends (w.takeWhile Text.isGap ++ x) := by
  cases hg : w.takeWhile Text.isGap with
  | nil => exact h hg
  | cons c g =>
    have hc : c ∈ w.takeWhile Text.isGap := by rw [hg]; exact List.mem_cons_self
    exact ends_of_isGap (List.all_eq_true.mp List.all_takeWhile c hc) _

/-- An attribute is the same before every text that starts as the one that follows it, unless that
joins another part to its name. -/
theorem rest?_split {w r : List Char} (h : rest? w = some r)
    (hj : ∀ c ∈ r.head?, Name.joins c = false) :
    ∃ u, w = u ++ r ∧ u ≠ [] ∧ ∀ x, x.head? = r.head? → rest? (u ++ x) = some x := by
  rw [rest?] at h
  cases hn : name? w with
  | none => rw [hn] at h; cases h
  | some w' =>
    obtain ⟨v, rfl, hne, hw', hv⟩ := name?_split hn
    rw [hn] at h
    simp only at h
    split at h
    · next w'' hd =>
      obtain ⟨u, hu, hune, hux⟩ := value?_local _ _ h
      refine ⟨v ++ (w'.takeWhile Text.isGap ++ '=' :: (w''.takeWhile Text.isGap ++ u)), ?_,
        by simp, fun x _ => ?_⟩
      · rw [List.append_assoc, List.append_assoc, List.cons_append, List.append_assoc, ← hu,
          List.takeWhile_append_dropWhile, ← hd, List.takeWhile_append_dropWhile]
      · have hx := hv (w'.takeWhile Text.isGap ++ '=' :: (w''.takeWhile Text.isGap ++ (u ++ x)))
          (ends_gaps_append fun _ c hc => by
            obtain rfl : '=' = c := by simpa using hc
            exact ⟨by decide, by decide⟩)
        rw [List.append_assoc, List.append_assoc, List.cons_append, List.append_assoc, rest?, hx]
        simp only [dropWhile_resume (w := w') (p := Text.isGap)
          (x := '=' :: (w''.takeWhile Text.isGap ++ (u ++ x))) (by rw [hd]; rfl)]
        rw [dropWhile_resume (hu ▸ head?_append_congr hune _ _), hux]
    · next hd =>
      rw [Option.some.injEq] at h
      subst h
      refine ⟨v ++ w'.takeWhile Text.isGap, ?_, by simp [hne], fun x hx => ?_⟩
      · rw [List.append_assoc, List.takeWhile_append_dropWhile]
      · have hends : w'.takeWhile Text.isGap = [] → Name.Ends x := by
          intro hg c hc
          rw [hx] at hc
          refine ⟨hw' c ?_, hj c hc⟩
          rwa [← List.takeWhile_append_dropWhile (p := Text.isGap) (l := w'), hg]
        rw [List.append_assoc, rest?, hv _ (ends_gaps_append hends)]
        simp only [dropWhile_resume hx]
        split
        · next x' =>
          obtain ⟨r', hr'⟩ := List.head?_eq_some_iff.mp hx.symm
          exact absurd hr' (hd r')
        · rfl

end Attribute

/-! ### Tags -/

namespace Tag

variable {closing bare : Bool} {w r : List Char} {f : TagForm}

theorem tail?_gt (h : w.dropWhile Text.isGap = '>' :: r) :
    tail? closing bare w = some (if closing then .closing else .opening, r) := by
  rw [tail?]
  split
  · next hd => exact absurd (hd.symm.trans h) (by simp)
  · next r' hd => rw [(List.cons.inj (hd.symm.trans h)).2]
  · next r' hd => exact absurd (List.cons.inj (hd.symm.trans h)).1 (by decide)
  · next c r' hg _ hd => exact absurd (List.cons.inj (hd.symm.trans h)).1 hg

theorem tail?_slash (h : w.dropWhile Text.isGap = '/' :: r) :
    tail? closing bare w = if closing then none
      else match r.dropWhile Text.isGap with
        | '>' :: r' => some (.selfClosing, r')
        | _ => none := by
  rw [tail?]
  split
  · next hd => exact absurd (hd.symm.trans h) (by simp)
  · next r' hd => exact absurd (List.cons.inj (hd.symm.trans h)).1 (by decide)
  · next r' hd =>
    obtain ⟨-, rfl⟩ := List.cons.inj (hd.symm.trans h)
    rfl
  · next c r' _ hs hd => exact absurd (List.cons.inj (hd.symm.trans h)).1 hs

theorem tail?_attribute {c : Char} (h : w.dropWhile Text.isGap = c :: r) (hg : c ≠ '>')
    (hs : c ≠ '/') :
    tail? closing bare w = if closing || bare then none
      else (if c == '{' then Expression.rest? 0 (c :: r) else Attribute.rest? (c :: r)).bind
        (tail? closing bare) := by
  rw [tail?]
  split
  · next hd => exact absurd (hd.symm.trans h) (by simp)
  · next r' hd => exact absurd (List.cons.inj (hd.symm.trans h)).1.symm hg
  · next r' hd => exact absurd (List.cons.inj (hd.symm.trans h)).1.symm hs
  · next c' r' _ _ hd =>
    obtain ⟨rfl, rfl⟩ := List.cons.inj (hd.symm.trans h)
    split
    · rfl
    · split <;> simp_all

theorem joins_of_tail? (h : tail? closing bare w = some (f, r)) :
    ∀ c ∈ w.head?, Name.joins c = false := by
  intro c hc
  obtain ⟨w', rfl⟩ := List.head?_eq_some_iff.mp hc
  cases hj : Name.joins c with
  | false => rfl
  | true =>
    have hj : c = '.' ∨ c = ':' := by simpa [Name.joins] using hj
    have hd : (c :: w').dropWhile Text.isGap = c :: w' := by
      rcases hj with rfl | rfl <;> rfl
    have hn : (if c == '{' then Expression.rest? 0 (c :: w') else Attribute.rest? (c :: w'))
        = none := by
      rcases hj with rfl | rfl <;> rfl
    rw [tail?_attribute hd (by rcases hj with rfl | rfl <;> decide)
      (by rcases hj with rfl | rfl <;> decide), hn] at h
    split at h <;> cases h

/-- **What comes after the name of a tag is the same before every text.** -/
theorem tail?_local (h : tail? closing bare w = some (f, r)) :
    ∃ u, w = u ++ r ∧ u.getLast? = some '>' ∧ ∀ x, tail? closing bare (u ++ x) = some (f, x) := by
  fun_induction tail? closing bare w with
  | case1 | case3 | case5 | case6 | case8 => cases h
  | case2 w r' hd =>
    obtain ⟨rfl, rfl⟩ := Prod.mk.inj (Option.some.inj h)
    refine ⟨w.takeWhile Text.isGap ++ ['>'], ?_, by simp, fun x => ?_⟩
    · rw [List.append_assoc, List.singleton_append, ← hd, List.takeWhile_append_dropWhile]
    · rw [List.append_assoc, List.singleton_append,
        tail?_gt (dropWhile_resume (by rw [hd]; rfl))]
  | case4 w r' hd hc r'' hd' =>
    obtain ⟨rfl, rfl⟩ := Prod.mk.inj (Option.some.inj h)
    refine ⟨w.takeWhile Text.isGap ++ '/' :: (r'.takeWhile Text.isGap ++ ['>']), ?_,
      by simp [List.getLast?_append, List.getLast?_cons], fun x => ?_⟩
    · rw [List.append_assoc, List.cons_append, List.append_assoc, List.singleton_append, ← hd',
        List.takeWhile_append_dropWhile, ← hd, List.takeWhile_append_dropWhile]
    · rw [List.append_assoc, List.cons_append, List.append_assoc, List.singleton_append,
        tail?_slash (dropWhile_resume (by rw [hd]; rfl)), if_neg hc,
        dropWhile_resume (by rw [hd']; rfl)]
      rfl
  | case7 w c r' hg hs hd hb r'' h' ih =>
    obtain ⟨u, rfl, hlast, hu⟩ := ih h
    have hne : u ≠ [] := by rintro rfl; cases hlast
    have hread : ∃ v, c :: r' = v ++ (u ++ r) ∧ v ≠ [] ∧ ∀ x,
        (if c == '{' then Expression.rest? 0 (v ++ (u ++ x))
          else Attribute.rest? (v ++ (u ++ x))) = some (u ++ x) := by
      by_cases ho : (c == '{') = true
      · rw [dif_pos ho] at h'
        obtain ⟨v, hv, hvne, hvx⟩ := Expression.rest?_local 0 _ _ h'
        exact ⟨v, hv, hvne, fun x => by rw [if_pos ho, hvx]⟩
      · rw [dif_neg ho] at h'
        obtain ⟨v, hv, hvne, hvx⟩ := Attribute.rest?_split h' (joins_of_tail? h)
        exact ⟨v, hv, hvne, fun x => by rw [if_neg ho, hvx _ (head?_append_congr hne _ _)]⟩
    obtain ⟨v, hv, hvne, hvx⟩ := hread
    obtain ⟨c', v, rfl⟩ := List.exists_cons_of_ne_nil hvne
    rw [List.cons_append, List.cons.injEq] at hv
    obtain ⟨rfl, rfl⟩ := hv
    refine ⟨w.takeWhile Text.isGap ++ (c :: v ++ u), ?_,
      by simp [List.getLast?_append, List.getLast?_cons, hlast], fun x => ?_⟩
    · rw [List.append_assoc, List.append_assoc, List.cons_append, ← hd,
        List.takeWhile_append_dropWhile]
    · have hdx : (w.takeWhile Text.isGap ++ (c :: v ++ u) ++ x).dropWhile Text.isGap =
          c :: (v ++ (u ++ x)) := by
        rw [List.append_assoc, List.append_assoc, dropWhile_resume (by rw [hd]; rfl)]
        rfl
      have hgt : c ≠ '>' := fun e => hg e
      have hsl : c ≠ '/' := fun e => hs e
      rw [tail?_attribute hdx hgt hsl, if_neg hb, ← List.cons_append, hvx, Option.bind_some, hu]

theorem body?_local {n : Option String} (h : body? closing w = some (n, f, r)) :
    ∃ u, w = u ++ r ∧ u.getLast? = some '>' ∧ ∀ x, body? closing (u ++ x) = some (n, f, x) := by
  unfold body? at h
  cases hn : Name.rest? w with
  | some w' =>
    rw [hn] at h
    simp only [Option.map_eq_some_iff, Prod.mk.injEq, Prod.exists] at h
    obtain ⟨f', r', ht, rfl, rfl, rfl⟩ := h
    have hends : Name.Ends w' := fun c hc => ⟨Name.isPart_of_rest? hn c hc, joins_of_tail? ht c hc⟩
    obtain ⟨v, rfl, hvne, hvx⟩ := Name.rest?_split hn hends
    obtain ⟨u, rfl, hlast, hux⟩ := tail?_local ht
    have hune : u ≠ [] := by rintro rfl; cases hlast
    refine ⟨v ++ u, by simp, by simp [List.getLast?_append, hlast], fun x => ?_⟩
    have hx : Name.Ends (u ++ x) := fun c hc => hends c (head?_append_congr hune x r' ▸ hc)
    unfold body?
    rw [List.append_assoc, hvx _ hx]
    simp [hux]
  | none =>
    rw [hn] at h
    cases w with
    | nil => cases h
    | cons c w =>
      by_cases hc : c = '>'
      · subst hc
        simp only [Option.map_eq_some_iff, Prod.mk.injEq, Prod.exists] at h
        obtain ⟨f', r', ht, rfl, rfl, rfl⟩ := h
        obtain ⟨u, hu, hlast, hux⟩ := tail?_local ht
        have hune : u ≠ [] := by rintro rfl; cases hlast
        obtain ⟨c', v, rfl⟩ := List.exists_cons_of_ne_nil hune
        rw [List.cons_append, List.cons.injEq] at hu
        obtain ⟨rfl, rfl⟩ := hu
        refine ⟨'>' :: v, rfl, hlast, fun x => ?_⟩
        have hnx : Name.rest? ('>' :: (v ++ x)) = none := rfl
        unfold body?
        rw [List.cons_append, hnx]
        simpa using hux x
      · simp only at h
        split at h
        · next e => exact absurd (List.cons.inj e).1 hc
        · cases h

/-- **A tag is the same before every text.** -/
theorem read?_local {n : Option String} (h : read? w = some (n, f, r)) :
    ∃ u, w = u ++ r ∧ u.getLast? = some '>' ∧ ∀ x, read? (u ++ x) = some (n, f, x) := by
  unfold read? at h
  split at h
  · next w' =>
    obtain ⟨u, rfl, hlast, hu⟩ := body?_local h
    exact ⟨'<' :: '/' :: u, rfl, by simp [List.getLast?_cons, hlast], fun x => hu x⟩
  · next w' hw =>
    obtain ⟨u, rfl, hlast, hu⟩ := body?_local h
    have hne : u ≠ [] := by rintro rfl; cases hlast
    obtain ⟨d, v, rfl⟩ := List.exists_cons_of_ne_nil hne
    refine ⟨'<' :: d :: v, rfl, by rw [List.getLast?_cons_cons]; exact hlast, fun x => ?_⟩
    have hd : d ≠ '/' := fun e => hw (v ++ r) (by rw [e]; rfl)
    rw [List.cons_append, List.cons_append, read?]
    · exact hu x
    · simp [hd]
  · cases h

/-- The text `u` is a tag of this name and form, whatever comes after it. -/
def Spells (u : List Char) (n : Option String) (f : TagForm) : Prop :=
  u.getLast? = some '>' ∧ ∀ x, read? (u ++ x) = some (n, f, x)

theorem Spells.ne_nil {u : List Char} {n : Option String} (h : Spells u n f) : u ≠ [] := by
  rintro rfl
  cases h.1

/-- **The scanner finds a tag exactly where a text stands that is one.** -/
theorem scan?_eq_some_iff {src : Source} {pos limit : Nat} {t : Tag} :
    scan? src pos limit = some t ↔ ∃ u, Spells u t.name t.form ∧ src.HasAt pos u ∧
      pos + u.length ≤ limit ∧ t.span = ⟨pos, pos + u.length⟩ := by
  obtain ⟨n, s, f⟩ := t
  simp only [scan?, Option.map_eq_some_iff, Prod.exists, Tag.mk.injEq]
  constructor
  · rintro ⟨n', f', r, hr, rfl, rfl, rfl⟩
    obtain ⟨u, hu, hlast, hux⟩ := read?_local hr
    have hspells : Spells u n' f' := ⟨hlast, hux⟩
    have hpre : u <+: src.window pos limit := ⟨r, hu.symm⟩
    have hat := Source.prefix_window_iff.mp hpre
    have hpos := List.length_pos_iff.mpr hspells.ne_nil
    refine ⟨u, hspells, hat.1, by omega, ?_⟩
    rw [hu, List.length_append, Nat.add_sub_cancel]
  · rintro ⟨u, hu, hat, hle, rfl⟩
    have hpre : u <+: src.window pos limit := Source.prefix_window_iff.mpr ⟨hat, by omega⟩
    obtain ⟨r, hr⟩ := hpre
    refine ⟨n, f, r, hr ▸ hu.2 r, rfl, ?_, rfl⟩
    rw [← hr, List.length_append, Nat.add_sub_cancel]

/-- **A tag is found under every limit that leaves it whole.** -/
theorem scan?_of_stop_le {src : Source} {pos limit limit' : Nat} {t : Tag}
    (h : scan? src pos limit = some t) (hl : t.span.stop ≤ limit') :
    scan? src pos limit' = some t := by
  obtain ⟨u, hu, hat, hle, hs⟩ := scan?_eq_some_iff.mp h
  exact scan?_eq_some_iff.mpr ⟨u, hu, hat, by rw [hs] at hl; exact hl, hs⟩

theorem stop_le_size {src : Source} {pos limit : Nat} {t : Tag}
    (h : scan? src pos limit = some t) : t.span.stop ≤ src.size := by
  obtain ⟨u, hu, hat, hle, hs⟩ := scan?_eq_some_iff.mp h
  rw [hs]
  exact hat.le_size hu.ne_nil

theorem scan?_size {src : Source} {pos limit : Nat} {t : Tag}
    (h : scan? src pos limit = some t) : scan? src pos src.size = some t :=
  scan?_of_stop_le h (stop_le_size h)

theorem has_gt_of_scan? {src : Source} {pos limit : Nat} {t : Tag}
    (h : scan? src pos limit = some t) : src[t.span.stop - 1]? = some '>' := by
  obtain ⟨u, hu, hat, hle, hs⟩ := scan?_eq_some_iff.mp h
  have hpos := List.length_pos_iff.mpr hu.ne_nil
  rw [hs, show pos + u.length - 1 = pos + (u.length - 1) by omega, hat.getElem? (by omega),
    ← List.getLast?_eq_getElem?]
  exact hu.1

theorem has_lt_of_scan? {src : Source} {pos limit : Nat} {t : Tag}
    (h : scan? src pos limit = some t) : src[pos]? = some '<' := by
  obtain ⟨u, hu, hat, hle, hs⟩ := scan?_eq_some_iff.mp h
  obtain ⟨c, v, rfl⟩ := List.exists_cons_of_ne_nil hu.ne_nil
  have hr := hu.2 []
  have hc : c = '<' := by
    by_cases hc : c = '<'
    · exact hc
    · rw [List.append_nil, read?.eq_3 _ (by simp [hc]) (by simp [hc])] at hr
      cases hr
  have := hat.getElem? (i := 0) (by simp)
  simpa [hc] using this

end Tag

end MdxProse
