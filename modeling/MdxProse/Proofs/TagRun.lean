import MdxProse.Proofs.Layout

/-!
# Runs of tags

* `Tag.InRow`: tags that stand in the source one after the other.  `Tag.run?_spec`: a run is a row
  of tags from its first offset to the end of a line.
* `Tag.Matched`: runs in which opening and closing tags match like brackets.
  `Tag.matched_of_balanced`: **a balanced run matches.**
* `Tag.Matched.laid`: the events of a matching run walk through elements that stand where their
  tags do.
* `Block.Element.findIn_inl`: a closing tag that is found in a run is one of it.
-/

namespace MdxProse

variable {src : Source} {lo mid hi : Nat} {ts ts' : List Tag}

namespace Tag

/-! ### Rows -/

/-- The tags stand in the source between two offsets, one after the other. -/
def InRow (src : Source) : (lo hi : Nat) → List Tag → Prop
  | lo, hi, [] => lo ≤ hi
  | lo, hi, t :: ts => lo ≤ t.span.start ∧ scan? src t.span.start src.size = some t ∧
      InRow src t.span.stop hi ts

theorem InRow.le (h : InRow src lo hi ts) : lo ≤ hi := by
  induction ts generalizing lo with
  | nil => exact h
  | cons t ts ih =>
    have := (stop_of_scan? h.2.1).1
    have := ih h.2.2
    have := h.1
    omega

theorem InRow.split (h : InRow src lo hi (ts ++ ts')) :
    ∃ mid, InRow src lo mid ts ∧ InRow src mid hi ts' := by
  induction ts generalizing lo with
  | nil => exact ⟨lo, Nat.le_refl lo, h⟩
  | cons t ts ih =>
    obtain ⟨mid, h₁, h₂⟩ := ih h.2.2
    exact ⟨mid, ⟨h.1, h.2.1, h₁⟩, h₂⟩

/-- **A run is a row of tags** that starts at its first offset and ends at the end of a line. -/
theorem run?_spec {pos limit stop : Nat} (h : run? src pos limit = some (ts, stop)) :
    (∃ t ts', ts = t :: ts' ∧ t.span.start = pos) ∧ InRow src pos stop ts ∧ stop ≤ limit ∧
      (stop = limit ∨ src.has '\n' stop = true) := by
  fun_induction run? src pos limit generalizing ts stop with
  | case1 => cases h
  | case2 pos t ht next =>
    rename_i hend
    obtain ⟨rfl, rfl⟩ := Prod.mk.inj (Option.some.inj h)
    have hlt := stop_of_scan? ht
    have hstart := start_of_scan? ht
    have hnext := src.skipWhile_le hlt.2 (p := Text.isSpace)
    refine ⟨⟨t, [], rfl, hstart⟩, ⟨Nat.le_of_eq hstart.symm, ?_, src.le_skipWhile _ _ _⟩, hnext, ?_⟩
    · rw [hstart]
      exact scan?_size ht
    · rcases Bool.or_eq_true_iff.mp hend with hl | hn
      · have := of_decide_eq_true hl
        omega
      · exact .inr hn
  | case3 pos t ht next =>
    rename_i ih
    rw [Option.map_eq_some_iff] at h
    obtain ⟨⟨us, stop'⟩, hus, he⟩ := h
    obtain ⟨rfl, rfl⟩ := Prod.mk.inj he
    obtain ⟨⟨u, us', rfl, hu⟩, hrow, hle, hstop⟩ := ih hus
    have hstart := start_of_scan? ht
    have hskip := src.le_skipWhile Text.isSpace t.span.stop limit
    refine ⟨⟨t, u :: us', rfl, hstart⟩, ⟨Nat.le_of_eq hstart.symm, ?_, ?_, hrow.2⟩, hle, hstop⟩
    · rw [hstart]
      exact scan?_size ht
    · omega
  | case4 => cases h

/-! ### Matching -/

/-- Every tag finds its partner in the run, as brackets do. -/
inductive Matched : List Tag → Prop
  | nil : Matched []
  | single {t : Tag} {ts : List Tag} : t.form = .selfClosing → Matched ts → Matched (t :: ts)
  | pair {o c : Tag} {inside ts : List Tag} : o.form = .opening → c.form = .closing →
      c.name = o.name → Matched inside → Matched ts → Matched (o :: (inside ++ c :: ts))

theorem Matched.append (h : Matched ts) (h' : Matched ts') : Matched (ts ++ ts') := by
  induction h with
  | nil => exact h'
  | single hf _ ih => exact .single hf ih
  | pair ho hc hn hi _ _ ih =>
    rw [List.cons_append, List.append_assoc, List.cons_append]
    exact .pair ho hc hn hi ih

/-- The run closes exactly the elements named, innermost first, and all that it opens itself. -/
inductive Closes : List (Option String) → List Tag → Prop
  | nil {ts : List Tag} : Matched ts → Closes [] ts
  | cons {c : Tag} {names : List (Option String)} {inside ts : List Tag} : Matched inside →
      c.form = .closing → Closes names ts → Closes (c.name :: names) (inside ++ c :: ts)

theorem Closes.prepend {names : List (Option String)} (hm : Matched ts) (h : Closes names ts') :
    Closes names (ts ++ ts') := by
  cases h with
  | nil h => exact .nil (hm.append h)
  | cons hi hc h =>
    rw [← List.append_assoc]
    exact .cons (hm.append hi) hc h

theorem closes_of_balancedFrom {names : List (Option String)} (h : balancedFrom names ts = true) :
    Closes names ts := by
  induction ts generalizing names with
  | nil =>
    rw [balancedFrom, List.isEmpty_iff] at h
    rw [h]
    exact .nil .nil
  | cons t ts ih =>
    cases hf : t.form with
    | opening =>
      simp only [balancedFrom, hf] at h
      have hc := ih h
      generalize hn : t.name :: names = ns at hc
      cases hc with
      | nil => cases hn
      | @cons c names' inside rest hi hcl hrest =>
        obtain ⟨hname, rfl⟩ := List.cons.inj hn
        have hm : Matched (t :: (inside ++ [c])) := .pair hf hcl hname.symm hi .nil
        have := hrest.prepend hm
        rwa [List.cons_append, List.append_assoc, List.singleton_append] at this
    | selfClosing =>
      simp only [balancedFrom, hf] at h
      exact (ih h).prepend (.single hf .nil)
    | closing =>
      cases names with
      | nil => simp [balancedFrom, hf] at h
      | cons n names =>
        simp only [balancedFrom, hf, Bool.and_eq_true, beq_iff_eq] at h
        rw [h.1]
        exact Closes.cons .nil hf (ih h.2)

/-- **A balanced run matches.** -/
theorem matched_of_balanced (h : balanced ts = true) : Matched ts := by
  cases closes_of_balancedFrom h with
  | nil h => exact h

/-! ### The events of a run -/

open Block (Element.closeStop Element.runEvents)

theorem Matched.closeStop (h : Matched ts) (dflt inner : Nat) (rest : List Tag) :
    Element.closeStop dflt inner (ts ++ rest) = Element.closeStop dflt inner rest := by
  induction h generalizing inner rest with
  | nil => rfl
  | single hf _ ih => simp only [List.cons_append, Element.closeStop, hf, ih]
  | pair ho hc _ _ _ ihi ih =>
    simp only [List.cons_append, List.append_assoc, Element.closeStop, ho, ihi, hc, ih]

theorem Matched.runEvents_pair {o c : Tag} (ho : o.form = .opening) (hc : c.form = .closing)
    (h : Matched ts) (lines : LineRange) (rest : List Tag) :
    Element.runEvents lines (o :: (ts ++ c :: rest)) =
      .enter (.flowElement o.name ⟨o.span.start, c.span.stop⟩) (some lines) ::
        Element.runEvents lines (ts ++ c :: rest) := by
  simp only [Element.runEvents, ho, h.closeStop, Element.closeStop, hc]

theorem Matched.runEvents_append (h : Matched ts) (lines : LineRange) (rest : List Tag) :
    Element.runEvents lines (ts ++ rest) =
      Element.runEvents lines ts ++ Element.runEvents lines rest := by
  induction h generalizing rest with
  | nil => rfl
  | single hf _ ih => simp only [List.cons_append, Element.runEvents, hf, ih]
  | @pair o c inside ts ho hc _ hi _ ihi ih =>
    rw [List.cons_append, List.append_assoc, List.cons_append, hi.runEvents_pair ho hc,
      hi.runEvents_pair ho hc, ihi, ihi]
    simp only [List.cons_append, List.append_assoc, Element.runEvents, hc, ih]

/-- **The events of a matching run walk through elements that stand where their tags do.** -/
theorem Matched.laid (h : Matched ts) (hrow : InRow src lo hi ts) (lines : LineRange) :
    ∃ ns, Walk (Element.runEvents lines ts) ns ∧ ∀ top, Laid src top lo hi ns := by
  induction h generalizing lo hi with
  | nil => exact ⟨[], .nil, fun _ => .nil hrow⟩
  | @single t ts hf _ ih =>
    obtain ⟨hle, hscan, hrest⟩ := hrow
    obtain ⟨ns, hwalk, hlaid⟩ := ih hrest
    refine ⟨.mk (.flowElement t.name t.span) (some lines) [] :: ns, ?_, fun top => ?_⟩
    · simp only [Element.runEvents, hf]
      exact Walk.around .nil hwalk
    · exact .single hle ⟨hscan, hf⟩ (hlaid top)
  | @pair o c inside ts ho hc hn hm _ ihi ih =>
    obtain ⟨hle, hscan, hrest⟩ := hrow
    obtain ⟨_, hin, hle', hscan', hrest⟩ := hrest.split
    obtain ⟨cs, hwalkc, hlaidc⟩ := ihi hin
    obtain ⟨ns, hwalk, hlaid⟩ := ih hrest
    have hmid := hin.le
    refine ⟨.mk (.flowElement o.name ⟨o.span.start, c.span.stop⟩) (some lines) cs :: ns, ?_,
      fun top => ?_⟩
    · rw [hm.runEvents_pair ho hc, hm.runEvents_append]
      have := Walk.around (k := .flowElement o.name ⟨o.span.start, c.span.stop⟩)
        (l := some lines) hwalkc hwalk
      simpa [Event.around, Event.leaving, Kind.type, Kind.elementName?, Element.runEvents, hc, hn]
        using this
    · exact .pair hle ⟨hscan, ho, hscan', hc, hn, by omega⟩
        ((hlaidc false).widen (Nat.le_refl _) hle') (hlaid top)

end Tag

theorem Block.Element.findIn_inl {name : Option String} {inner : Nat} {before after : List Tag}
    {c : Tag} (h : findIn name inner ts = .inl (before, c, after)) :
    ts = before ++ c :: after ∧ c.form = .closing ∧ c.name = name := by
  induction ts generalizing inner before with
  | nil => cases h
  | cons t ts ih =>
    have hkeep {n : Nat} {before' after' : List Tag} {c' : Tag}
        (hf : findIn name n ts = .inl (before', c', after'))
        (hk : (.inl (t :: before', c', after') : (List Tag × Tag × List Tag) ⊕ Nat) =
          .inl (before, c, after)) :
        t :: ts = before ++ c :: after ∧ c.form = .closing ∧ c.name = name := by
      cases hk
      obtain ⟨hts, hc⟩ := ih hf
      exact ⟨by rw [hts, List.cons_append], hc⟩
    simp only [findIn] at h
    by_cases hn : t.name = name
    · rw [if_pos hn] at h
      split at h
      · split at h
        · next hf => exact hkeep hf h
        · cases h
      · split at h
        · next hf => exact hkeep hf h
        · cases h
      · next hf =>
        cases h
        exact ⟨rfl, hf, hn⟩
      · split at h
        · next hf => exact hkeep hf h
        · cases h
    · rw [if_neg hn] at h
      split at h
      · next hf => exact hkeep hf h
      · cases h

end MdxProse
