import MdxProse.Proofs.TextInPlace

/-!
# What the content of an element is read from

The content of an element in running text is the text from its opening tag up to its closing tag.
The search for the closing tag knows code spans and expressions, but no mathematics, and within its
own limit only; the reader of the content finds code and mathematics in the whole text. So what is
read as the content of an element may end after its closing tag has begun.

* `Passage.Overruns`: code or mathematics that ends beyond a limit.
* `State.Passes`: what a reader in place does to a state.  `State.tokenize_passes`: **it passes
  within the limit, but for what overruns it.**
* `element_content_within_iff`: **the content of an element is read from what stands between its
  tags exactly if nothing in it overruns.**
* `element_content_overruns`: mathematics and code that do.
-/

namespace MdxProse.Inline

/-- Code or mathematics that ends beyond the limit, with one of its marks. -/
structure Passage.Overruns (src : Source) (limit : Nat) (p : Passage) : Prop where
  verbatim : p.construct.isVerbatim = true
  beyond : limit < p.span.stop
  mark : src.has '$' (p.span.stop - 1) = true ∨ src.has '\x60' (p.span.stop - 1) = true

namespace State

/-- Reading leads from one state to the other by the passages `ps`. -/
structure Passes (src : Source) (st st' : State) (ps : List Passage) : Prop where
  limit_eq : st'.limit = st.limit
  pos_le : st.pos ≤ st'.pos
  passages_eq : st'.passages = st.passages ++ ps
  start_le : ∀ p ∈ ps, st.pos ≤ p.span.start
  /-- What does not overrun ends within the limit, at this level and further in. -/
  within : ∀ p ∈ ps, p.span.stop ≤ st.limit ∨ p.Overruns src st.limit
  /-- The position is within the limit too, or just after what overruns. -/
  reach : st'.pos ≤ st.limit ∨ ∃ p ∈ ps, p.Overruns src st.limit ∧ p.span.stop = st'.pos

namespace Passes

variable {src : Source} {st st₁ st₂ : State} {ps qs : List Passage}

theorem refl (src : Source) (h : st.pos ≤ st.limit) : Passes src st st [] :=
  ⟨rfl, Nat.le_refl _, (List.append_nil _).symm, nofun, nofun, .inl h⟩

theorem trans (h₁ : Passes src st st₁ ps) (h₂ : Passes src st₁ st₂ qs) :
    Passes src st st₂ (ps ++ qs) := by
  have hlimit := h₁.limit_eq
  have hpos := h₁.pos_le
  refine ⟨h₂.limit_eq.trans hlimit, Nat.le_trans hpos h₂.pos_le, ?_, ?_, ?_, ?_⟩
  · rw [h₂.passages_eq, h₁.passages_eq, List.append_assoc]
  · intro p hp
    rcases List.mem_append.mp hp with hp | hp
    · exact h₁.start_le p hp
    · exact Nat.le_trans hpos (h₂.start_le p hp)
  · intro p hp
    rcases List.mem_append.mp hp with hp | hp
    · exact h₁.within p hp
    · rw [← hlimit]
      exact h₂.within p hp
  · rw [← hlimit]
    rcases h₂.reach with hle | ⟨p, hp, hover, hstop⟩
    · exact .inl hle
    · exact .inr ⟨p, List.mem_append_right _ hp, hover, hstop⟩

end Passes

/-- A reader in place that comes to the limit, and goes beyond it only by what overruns it. -/
def Keeps (src : Source) (nested : InPlace) : Prop :=
  ∀ st st', IsLimit src st.limit → st.pos ≤ st.limit → nested st = .ok st' →
    st.limit ≤ st'.pos ∧ ∃ ps, Passes src st st' ps

variable {s : Setting} {search : LabelSearch} {nested : InPlace}
  {label : Source → Except SyntaxError (List Event)} {st st' : State}

theorem found_within (hsearch : search.Within s.src st.limit) (hpos : st.pos < st.limit) :
    (st.found s search).Within s.src st.limit st.pos := by
  rw [found]
  cases hrec : (recognize s search st.limit st.pos st.progress.memo).1 with
  | none => exact .of_stop_le (fun _ => hpos) rfl rfl
  | some f => exact recognize_within hsearch hpos hrec

theorem passage_within {f : Found} (hf : f.Within s.src st.limit st.pos)
    (hlimit : IsLimit s.src st.limit) (hpos : st.pos < st.limit) {stop : Nat}
    (hstop : max f.stop (st.pos + 1) = stop) :
    stop ≤ st.limit ∨ Passage.Overruns s.src st.limit ⟨f.construct, ⟨st.pos, stop⟩⟩ := by
  by_cases hle : stop ≤ st.limit
  · exact .inl hle
  · have hlt := Nat.lt_of_not_le hle
    obtain rfl : f.stop = stop := by omega
    have hverbatim : f.construct.isVerbatim = true := by
      cases hv : f.construct.isVerbatim with
      | true => rfl
      | false => exact absurd (hf.stop_le hv hlimit) hle
    exact .inr ⟨hverbatim, hlt, hf.mark hverbatim hlt⟩

/-- **A step passes within the limit**, but for what overruns it. -/
theorem Steps.passes (hnested : Keeps s.src nested) (hsearch : search.Within s.src st.limit)
    (hlimit : IsLimit s.src st.limit) (hpos : st.pos < st.limit)
    (h : Steps s search nested st st') : ∃ ps, Passes s.src st st' ps := by
  have hwithin := found_within hsearch hpos
  cases h with
  | @pass f stop progress hfound hstop hcontent =>
    rw [hfound] at hwithin
    have hpassage := passage_within hwithin hlimit hpos hstop
    refine ⟨[⟨f.construct, ⟨st.pos, stop⟩⟩], rfl, ?_, rfl, ?_, ?_, ?_⟩
    · show st.pos ≤ stop
      omega
    · intro p hp
      obtain rfl := List.mem_singleton.mp hp
      exact Nat.le_refl _
    · intro p hp
      obtain rfl := List.mem_singleton.mp hp
      exact hpassage
    · exact hpassage.imp_right fun hover => ⟨_, List.mem_singleton_self _, hover, rfl⟩
  | @nest f stop progress k l _ hfound hstop hcontent hnest =>
    rw [hfound] at hwithin
    obtain ⟨hstart, hspan, hbelow, hinner⟩ := hwithin.content l hcontent
    have hle : stop ≤ st.limit := by
      have hv : f.construct.isVerbatim = false := by
        cases hc : f.construct <;> first | rfl | (rw [hc] at hcontent; cases hcontent)
      have := hwithin.stop_le hv hlimit
      omega
    obtain ⟨inside, hinside, hpos', hlimit', hpassages⟩ := nest_inv hnest
    obtain ⟨-, ps, hps⟩ := hnested _ _ hinner hspan hinside
    refine ⟨⟨f.construct, ⟨st.pos, stop⟩⟩ :: ps, hlimit', by omega, ?_, ?_, ?_, ?_⟩
    · rw [hpassages, hps.passages_eq, List.append_cons]
      rfl
    · intro p hp
      rcases List.mem_cons.mp hp with rfl | hp
      · exact Nat.le_refl _
      · exact Nat.le_trans (Nat.le_of_lt hstart) (hps.start_le p hp)
    · intro p hp
      rcases List.mem_cons.mp hp with rfl | hp
      · exact .inl hle
      · -- What overruns the content may still end within the limit.
        by_cases hlt : st.limit < p.span.stop
        · rcases hps.within p hp with hin | hover
          · have hin : p.span.stop ≤ l.stop := hin
            omega
          · exact .inr ⟨hover.verbatim, hlt, hover.mark⟩
        · exact .inl (Nat.le_of_not_lt hlt)
    · rw [hpos']
      exact .inl hle

/-- **A run passes within the limit**, but for what overruns it. -/
theorem run_passes (hnested : Keeps s.src nested) {limit : Nat} (hst : st.limit = limit)
    (hsearch : search.Within s.src limit) (hlimit : IsLimit s.src limit) (hpos : st.pos ≤ limit)
    (h : run s search nested label limit st = .ok st') :
    limit ≤ st'.pos ∧ ∃ ps, Passes s.src st st' ps := by
  induction hn : limit - st.pos using Nat.strongRecOn generalizing st with
  | ind n ih =>
    subst hst
    rw [run] at h
    split at h
    · next hlt =>
      obtain ⟨st₁, hstep, hrest⟩ := Except.bind_eq_ok.mp h
      have hsteps := steps_of_step hsearch hlt hstep
      obtain ⟨hlimit₁, hpos₁⟩ := hsteps.limit_pos
      obtain ⟨ps, hps⟩ := hsteps.passes hnested hsearch hlimit hlt
      rw [dif_pos hpos₁] at hrest
      by_cases hle : st₁.pos ≤ st.limit
      · obtain ⟨hreach, qs, hqs⟩ := ih _ (by omega) hlimit₁ hle hrest rfl
        exact ⟨hreach, ps ++ qs, hps.trans hqs⟩
      · -- Beyond the limit nothing more is read.
        rw [run, if_neg (by omega)] at hrest
        cases hrest
        exact ⟨by omega, ps, hps⟩
    · next hge =>
      cases h
      exact ⟨Nat.le_of_not_lt hge, [], .refl _ hpos⟩

/-- **Reading in place comes to the limit**, and goes beyond it only by what overruns it. -/
theorem tokenize_keeps (s : Setting) (label : Source → Except SyntaxError (List Event))
    (room : Nat) : Keeps s.src (tokenize s label room) := by
  induction room with
  | zero =>
    intro st st' _ hpos h
    cases h
    have hmax : max st.pos st.limit = st.limit := Nat.max_eq_right hpos
    refine ⟨Nat.le_max_right _ _, [⟨.plain, ⟨st.pos, max st.pos st.limit⟩⟩], rfl,
      Nat.le_max_left _ _, rfl, ?_, ?_, .inl (Nat.le_of_eq hmax)⟩
    · intro p hp
      obtain rfl := List.mem_singleton.mp hp
      exact Nat.le_refl _
    · intro p hp
      obtain rfl := List.mem_singleton.mp hp
      exact .inl (Nat.le_of_eq hmax)
  | succ n ih =>
    intro st st' hlimit hpos h
    exact run_passes ih rfl (labelSearch_within s st.limit (n + 1)) hlimit hpos h

end State

/-- **The content of an element** is read from the text between its tags, up to its closing tag,
exactly if nothing in it overruns; and nothing can where no mark of code and none of mathematics
stands in or after the closing tag. -/
theorem element_content_within_iff (s : Setting)
    (label : Source → Except SyntaxError (List Event)) (room : Nat) {st read : State}
    {t closer : Tag} (ht : Tag.scan? s.src st.pos st.limit = some t) (hform : t.form = .opening)
    (hcloser : Tag.partner? s.src t st.limit = some closer)
    (h : State.tokenize s label room (st.inside (.pair t closer) closer.span.stop t.span.stop
      closer.span.start) = .ok read) :
    (∃ st', TextRule.element.call s.src (State.tokenize s label room) st false = .ok (true, st') ∧
      st'.pos = closer.span.stop ∧ st'.passages = read.passages) ∧
    Inline.read s label room closer.span.start t.span.stop st.progress.memo =
      .ok read.progress.finish ∧
    ∃ ps, read.passages = st.passages ++ ⟨.pair t closer, ⟨st.pos, closer.span.stop⟩⟩ :: ps ∧
      ((read.pos = closer.span.start ∧ ∀ p ∈ ps,
          t.span.stop ≤ p.span.start ∧ p.span.stop ≤ closer.span.start) ↔
        ∀ p ∈ ps, ¬ p.Overruns s.src closer.span.start) ∧
      ((∀ k, closer.span.start ≤ k → s.src.has '$' k = false ∧ s.src.has '\x60' k = false) →
        ∀ p ∈ ps, ¬ p.Overruns s.src closer.span.start) := by
  obtain ⟨hspan, hscan, -⟩ := Tag.closer?_spec hcloser
  have hlt : s.src.has '<' st.pos = true :=
    Source.test_iff.mpr ⟨_, Tag.has_lt_of_scan? ht, rfl⟩
  have hlimit : IsLimit s.src closer.span.start :=
    .inr (.inl (Source.test_iff.mpr ⟨_, Tag.has_lt_of_scan? hscan, rfl⟩))
  obtain ⟨hreach, ps, hps⟩ := State.tokenize_keeps s label room _ _ hlimit hspan h
  refine ⟨?_, ?_, ps, ?_, ⟨?_, ?_⟩, ?_⟩
  · have hnest : ∃ st', st.nest (State.tokenize s label room) (.pair t closer) closer.span.stop
        (.textElement t.name ⟨t.span.start, closer.span.stop⟩) t.span.stop closer.span.start =
          .ok st' ∧ st'.pos = closer.span.stop ∧ st'.passages = read.passages := by
      rw [State.nest, h]
      exact ⟨_, rfl, rfl, rfl⟩
    obtain ⟨st', hst', hpos, hpassages⟩ := hnest
    refine ⟨st', ?_, hpos, hpassages⟩
    rw [TextRule.call.eq_def, if_pos hlt, ht]
    simp only [hform, hcloser, hst']
    rfl
  · have hread := State.tokenize_erases s label room (st.inside (.pair t closer) closer.span.stop
      t.span.stop closer.span.start) st.progress.memo rfl
    rw [h] at hread
    exact hread.symm
  · rw [hps.passages_eq, List.append_cons]
    rfl
  · rintro ⟨-, hwithin⟩ p hp hover
    exact Nat.not_lt_of_le (hwithin p hp).2 hover.beyond
  · intro hno
    constructor
    · rcases hps.reach with hle | ⟨p, hp, hover, -⟩
      · exact Nat.le_antisymm hle hreach
      · exact absurd hover (hno p hp)
    · intro p hp
      refine ⟨hps.start_le p hp, ?_⟩
      exact (hps.within p hp).resolve_right (hno p hp)
  · intro hmarks p hp hover
    obtain ⟨hdollar, hgrave⟩ := hmarks (p.span.stop - 1) (Nat.le_sub_one_of_lt hover.beyond)
    rcases hover.mark with hmark | hmark
    · exact Bool.false_ne_true (hdollar.symm.trans hmark)
    · exact Bool.false_ne_true (hgrave.symm.trans hmark)

theorem exists_ok_of_any {ε α : Type} {x : Except ε α} {p : α → Bool}
    (h : x.toOption.any p = true) : ∃ a, x = .ok a ∧ p a = true := by
  cases x with
  | error e => cases h
  | ok a => exact ⟨a, rfl, h⟩

/-- An element that holds an expression and code, in a text with mathematics after it. -/
theorem element_content_within_iff_code : ∃ (s : Setting) (st read : State) (t closer : Tag),
    Tag.scan? s.src st.pos st.limit = some t ∧ t.form = .opening ∧
    Tag.partner? s.src t st.limit = some closer ∧
    State.tokenize s (fun _ => .ok []) 5 (st.inside (.pair t closer) closer.span.stop t.span.stop
      closer.span.start) = .ok read ∧
    read.pos = closer.span.start ∧ ∀ p ∈ read.passages, p.span.stop ≤ closer.span.stop := by
  let s : Setting := ⟨Source.ofString "a <A>\x7bx\x7d\x60y\x60</A> $z$", []⟩
  let st : State := ⟨2, s.src.size, .start (.empty s.src), []⟩
  let t : Tag := ⟨some "A", ⟨2, 5⟩, .opening⟩
  let closer : Tag := ⟨some "A", ⟨11, 15⟩, .closing⟩
  have ht : Tag.scan? s.src st.pos st.limit = some t := by decide +kernel
  have hcloser : Tag.partner? s.src t st.limit = some closer := by decide +kernel
  obtain ⟨read, hread, hall⟩ := exists_ok_of_any (x := State.tokenize s (fun _ => .ok []) 5
    (st.inside (.pair t closer) closer.span.stop t.span.stop closer.span.start)) (p := fun read =>
      read.passages.all fun p => p.span.stop ≤ closer.span.start || !p.construct.isVerbatim)
      (by decide +kernel)
  obtain ⟨-, -, ps, hps, hiff, -⟩ :=
    element_content_within_iff s (fun _ => .ok []) 5 ht rfl hcloser hread
  have hnone : ∀ p ∈ ps, ¬ p.Overruns s.src closer.span.start := by
    intro p hp hover
    have hmem : p ∈ read.passages := by
      rw [hps]
      exact List.mem_append_right _ (List.mem_cons_of_mem _ hp)
    have hle := List.all_eq_true.mp hall p hmem
    rw [hover.verbatim, Bool.not_true, Bool.or_false, decide_eq_true_eq] at hle
    exact Nat.not_lt_of_le hle hover.beyond
  obtain ⟨hpos, hwithin⟩ := hiff.mpr hnone
  refine ⟨s, st, read, t, closer, ht, rfl, hcloser, hread, hpos, ?_⟩
  intro p hp
  rw [hps] at hp
  rcases List.mem_cons.mp hp with rfl | hp
  · exact Nat.le_refl _
  · exact Nat.le_trans (hwithin p hp).2 (by decide)

/-- **What is read as the content of an element may end after its closing tag**: here mathematics
that takes in the closing tag, and a dollar after it. -/
theorem element_content_overruns : ∃ (s : Setting) (st read : State) (t closer : Tag),
    s.src = Source.ofString "a <A>$x</A>$" ∧ Tag.scan? s.src st.pos st.limit = some t ∧
    t.form = .opening ∧ Tag.partner? s.src t st.limit = some closer ∧ closer.span = ⟨7, 11⟩ ∧
    State.tokenize s (fun _ => .ok []) 5 (st.inside (.pair t closer) closer.span.stop t.span.stop
      closer.span.start) = .ok read ∧
    read.pos = 12 ∧ read.passages.map Passage.span = [⟨2, 11⟩, ⟨5, 12⟩] := by
  let s : Setting := ⟨Source.ofString "a <A>$x</A>$", []⟩
  let st : State := ⟨2, s.src.size, .start (.empty s.src), []⟩
  let t : Tag := ⟨some "A", ⟨2, 5⟩, .opening⟩
  let closer : Tag := ⟨some "A", ⟨7, 11⟩, .closing⟩
  obtain ⟨read, hread, hpassages⟩ := exists_ok_of_any (x := State.tokenize s (fun _ => .ok []) 5
    (st.inside (.pair t closer) closer.span.stop t.span.stop closer.span.start)) (p := fun read =>
      read.pos == 12 && read.passages.map Passage.span == [⟨2, 11⟩, ⟨5, 12⟩]) (by decide +kernel)
  obtain ⟨hpos, hspans⟩ := Bool.and_eq_true_iff.mp hpassages
  exact ⟨s, st, read, t, closer, rfl, by decide +kernel, rfl, by decide +kernel, rfl, hread,
    beq_iff_eq.mp hpos, beq_iff_eq.mp hspans⟩

/-- Code may end there too: a run of grave accents after the limit counts mark by mark. -/
example :
    let src := Source.ofString "a <A>\x60x</A> \x60\x60"
    (State.tokenize ⟨src, []⟩ (fun _ => .ok []) 5
      ⟨5, 7, .start (.empty src), []⟩).toOption.map State.pos = some 13 := by
  decide +kernel

end MdxProse.Inline
