import MdxProse.Proofs.ElementBlocks

/-!
# Reading blocks

Containers hand their content a sound region, so what readers of content report holds of them too,
level by level, and in the end of the whole document.

* `Quote.reads`, `Items.reads`: what the readers of the two containers report.
* `readBlock_reads`, `readBlocks_reads`: what is reported of one block, and of a row of blocks.
* `read_correct`: **every reader of content keeps to what readers report.**
* `readSource_spec`: the blocks of a whole document.
-/

namespace MdxProse.Block

variable {src : Source} {r : Region} {i past : Nat}

/-- The region `r'` is sound, and shows no more of each line than `r`, but all up to its end. -/
structure Region.Within (src : Source) (r' r : Region) : Prop where
  sound : r'.Sound src
  height_le : r'.height ≤ r.height
  line : ∀ k, (r.line k).first ≤ (r'.line k).first ∧ (r'.line k).stop = (r.line k).stop

namespace Region

variable {r' : Region}

theorem Within.refl (h : r.Sound src) : r.Within src r :=
  ⟨h, Nat.le_refl _, fun _ => ⟨Nat.le_refl _, rfl⟩⟩

theorem Within.trans {r'' : Region} (h : r''.Within src r') (h' : r'.Within src r) :
    r''.Within src r :=
  ⟨h.sound, Nat.le_trans h.height_le h'.height_le, fun k =>
    ⟨Nat.le_trans (h'.line k).1 (h.line k).1, (h.line k).2.trans (h'.line k).2⟩⟩

theorem Within.between {j lo hi : Nat} (h : r'.Within src r) (hb : r.Between i j lo hi) :
    r'.Between i j lo hi := by
  refine ⟨hb.1, fun k hk hkj hkh => ?_⟩
  have := hb.2 k hk hkj (Nat.lt_of_lt_of_le hkh h.height_le)
  have := h.line k
  omega

theorem Sound.within_setLine (hr : r.Sound src) (hi : i < r.height) {l : Line}
    (hl : ∀ s body, (r.line i).Inside src s body →
      l.Inside src s body ∧ l.stop = (r.line i).stop ∧ (r.line i).first ≤ l.first) :
    (r.setLine i l).Within src r := by
  refine ⟨hr.setLine fun s body hin => ⟨(hl s body hin).1, fun _ => (hl s body hin).2.1⟩,
    Nat.le_refl _, fun k => ?_⟩
  rw [line_setLine]
  split
  · next hik =>
    obtain ⟨rfl, -⟩ := hik
    obtain ⟨s, body, _, hin⟩ := hr.inside hi
    obtain ⟨_, hstop, hfirst⟩ := hl s body hin
    exact ⟨hfirst, hstop⟩
  · exact ⟨Nat.le_refl _, rfl⟩

end Region

/-! ### Quotes -/

namespace Quote

theorem mark_of_starts (hr : r.Sound src) (hi : i < r.height) (h : starts r i = true) :
    src[(r.line i).start]? = some '>' ∧ (r.line i).start < (r.line i).stop ∧ HasQuote src := by
  have hsrc := hr.src_eq
  subst hsrc
  rw [starts, beq_iff_eq, List.head?_eq_getElem?] at h
  obtain ⟨hlt, hc⟩ := Region.getElem?_of_lineText h
  obtain ⟨_, _, _, hin⟩ := hr.inside hi
  exact ⟨hc, hlt, _, hc, hin.before hlt⟩

theorem within_mark (hr : r.Sound src) (hi : i < r.height) (h : starts r i = true) :
    (r.setLine i (inner r (r.line i))).Within src r := by
  obtain ⟨hmark, hlt, _⟩ := mark_of_starts hr hi h
  exact hr.within_setLine hi fun _ _ hin => inside_inner hr.src_eq hin hmark hlt

theorem within_lazy (hr : r.Sound src) (hi : i < r.height) (hq : HasQuote src) :
    (r.setLine i { r.line i with indent := -1 }).Within src r :=
  hr.within_setLine hi fun _ _ hin =>
    ⟨⟨hin.first, hin.start, hin.stop, hin.le_size, hin.margin, hin.before, hin.text, hin.tail,
      Int.le_refl _, fun _ => hq⟩, rfl, Nat.le_refl _⟩

/-- **The region of a quote is sound**, and shows no more of each line than the region around it. -/
theorem gather_spec (afterEmpty : Bool) (hr : r.Sound src) (hp : past ≤ r.height)
    (hi : i ≤ past) (hq : HasQuote src) :
    (gather r past afterEmpty i).1.Within src r ∧ i ≤ (gather r past afterEmpty i).2 ∧
      (gather r past afterEmpty i).2 ≤ (gather r past afterEmpty i).1.height := by
  fun_induction gather r past afterEmpty i with
  | case1 | case3 | case6 => exact ⟨.refl hr, Nat.le_refl _, by dsimp only; omega⟩
  | case2 =>
    rename_i r _ i hlt _ _ hstarts _ ih
    have hwithin := within_mark hr (Nat.lt_of_lt_of_le hlt hp) (Bool.and_eq_true_iff.mp hstarts).1
    obtain ⟨h, hle, hheight⟩ := ih hwithin.sound hp hlt
    exact ⟨h.trans hwithin, Nat.le_of_succ_le hle, hheight⟩
  | case4 =>
    exact ⟨⟨hr.narrow (by omega) hr.indent hr.quoted, Nat.le_trans hi hp,
      fun k => ⟨Nat.le_refl _, rfl⟩⟩, Nat.le_refl _, Nat.le_refl _⟩
  | case5 =>
    rename_i r _ i hlt _ _ _ _ _ ih
    have hwithin := within_lazy hr (Nat.lt_of_lt_of_le hlt hp) hq
    obtain ⟨h, hle, hheight⟩ := ih hwithin.sound hp hlt
    exact ⟨h.trans hwithin, Nat.le_of_succ_le hle, hheight⟩

/-- The content of a quote is read in a region of its own. -/
theorem exists_inside (hr : r.Ready src past) (hi : i < past) (hstarts : starts r i = true) :
    ∃ r' stop, r'.Ready src stop ∧ r'.isTop = false ∧
      (∀ j lo hi, r.Between i j lo hi → r'.Between i j lo hi) ∧
      ∀ content o, read content r i past = .ok o ↔ ∃ c, content r' i stop = .ok c ∧
        o = ⟨Event.around .blockquote (some ⟨i, c.next⟩) c.events, c.definitions, c.next⟩ := by
  have hheight := Nat.lt_of_lt_of_le hi hr.past_le
  have hwithin := within_mark hr.sound hheight hstarts
  obtain ⟨_, _, hq⟩ := mark_of_starts hr.sound hheight hstarts
  obtain ⟨hg, _, hstop⟩ := gather_spec (inner r (r.line i)).isEmpty hwithin.sound hr.past_le hi hq
  simp only [read, Except.bind_eq_ok]
  generalize gather (r.setLine i (inner r (r.line i))) past (inner r (r.line i)).isEmpty (i + 1) = g
    at *
  refine ⟨{ g.1 with indent := 0, isTop := false }, g.2,
    ⟨hg.sound.narrow (Nat.le_refl _) (by decide) nofun, hstop, nofun⟩, rfl,
    fun j lo hi hb => (hg.trans hwithin).between hb, fun content o => ?_⟩
  constructor
  · rintro ⟨c, hc, ho⟩
    cases ho
    exact ⟨c, hc, rfl⟩
  · rintro ⟨c, hc, rfl⟩
    exact ⟨c, hc, rfl⟩

theorem reads {content : Reader} (hcontent : content.Correct src) (hr : r.Ready src past)
    (hi : i < past) (hstarts : starts r i = true) {o : Outcome}
    (h : read content r i past = .ok o) : Reads src r i o.events o.next := by
  obtain ⟨r', stop, hready, htop, hbetween, hread⟩ := exists_inside hr hi hstarts
  obtain ⟨c, hc, rfl⟩ := (hread content o).mp h
  exact .around rfl ⟨rfl, rfl⟩ htop (hcontent _ _ _ c hready hc) fun lo hi hb =>
    hbetween _ lo hi hb

end Quote

/-! ### Lists -/

namespace Items

theorem marker_of_ofLine? {m : Marker} (h : Marker.ofLine? r i = some m) :
    Marker.read? (r.lineText i) = some m := by
  rw [Marker.ofLine?] at h
  split at h
  · cases h
  · exact h

theorem within_inside {m : Marker} (hr : r.Sound src) (hi : i < r.height)
    (hm : Marker.read? (r.lineText i) = some m) : (inside r m i).1.Within src r := by
  refine ⟨sound_inside hr hi hm, Nat.le_refl _, fun k => ?_⟩
  change (r.line k).first ≤ ((r.setLine i _).line k).first ∧ ((r.setLine i _).line k).stop = _
  rw [Region.line_setLine]
  split
  · next hik =>
    rw [hik.1]
    exact ⟨Nat.le_refl _, rfl⟩
  · exact ⟨Nat.le_refl _, rfl⟩

theorem readContent_reads {content : Reader} (hcontent : content.Correct src)
    (hr : r.Ready src past) (hi : i < past) {m : Marker}
    (hm : Marker.read? (r.lineText i) = some m) {c : Content}
    (h : readContent content r m i past = .ok c) :
    Reads src { r with isTop := false } i (Event.around .listItem (some ⟨i, c.next⟩) c.events)
      c.next := by
  have hwithin := within_inside hr.sound (Nat.lt_of_lt_of_le hi hr.past_le) hm
  simp only [readContent] at h
  split at h
  · cases h
    have hnil : Reads src { r with isTop := false } i [] (min (i + 2) past) := .nil (by omega)
    exact .around rfl ⟨rfl, rfl⟩ rfl hnil fun _ _ hb => hb
  · exact .around rfl ⟨rfl, rfl⟩ rfl (hcontent _ _ _ c ⟨hwithin.sound, hr.past_le, nofun⟩ h)
      fun _ _ hb => hwithin.between hb

/-- **What is reported of the items of a list.** -/
theorem readFrom_reads {content : Reader} (hcontent : content.Correct src) (hr : r.Ready src past)
    {m : Marker} {afterEmpty : Bool} {i : Nat} (hi : i < past)
    (hm : Marker.read? (r.lineText i) = some m) {o : Series}
    (h : readFrom content r m past afterEmpty i = .ok o) :
    Reads src { r with isTop := false } i o.events o.next := by
  rw [readFrom, Except.bind_eq_ok] at h
  obtain ⟨c, hc, h⟩ := h
  have hitem := readContent_reads hcontent hr hi hm hc
  dsimp only at h
  split at h
  · next hlt =>
    split at h
    · cases h
      exact hitem
    · split at h
      · cases h
        exact hitem
      · next m' hm' =>
        split at h
        · rw [Except.bind_eq_ok] at h
          obtain ⟨rest, hrest, h⟩ := h
          cases h
          have hsound : Region.Sound src { r with isTop := false } :=
            hr.sound.narrow (Nat.le_refl _) hr.sound.indent hr.sound.quoted
          exact hitem.append hsound (readFrom_reads hcontent hr hlt.2 hm' hrest)
        · cases h
          exact hitem
  · cases h
    exact hitem
termination_by past - i

theorem tighten_plain {es : List Event} (h : ∀ e ∈ es, IsPlain src e) (depth : Nat) :
    ∀ e ∈ tighten depth es, IsPlain src e := by
  induction es generalizing depth with
  | nil => nofun
  | cons e es ih =>
    have hes := ih fun e he => h e (List.mem_cons_of_mem _ he)
    intro e' he'
    cases e with
    | enter k l =>
      rw [tighten_enter] at he'
      rcases List.mem_cons.mp he' with rfl | he'
      · obtain ⟨hlayer, hholds⟩ := h _ List.mem_cons_self
        exact ⟨(Kind.layer_tightened depth k).trans hlayer,
          (Kind.holdsNodes_tightened depth k).trans hholds⟩
      · exact hes _ _ he'
    | leave t n =>
      rw [tighten] at he'
      rcases List.mem_cons.mp he' with rfl | he'
      · trivial
      · exact hes _ _ he'
    | leaf k l inner =>
      rw [tighten] at he'
      rcases List.mem_cons.mp he' with rfl | he'
      · exact h _ List.mem_cons_self
      · exact hes _ _ he'

theorem reads_tighten {es : List Event} {j : Nat} (h : Reads src r i es j) :
    Reads src r i (tighten 0 es) j := by
  obtain ⟨ns, hwalk, hlaid⟩ := h.walk
  obtain ⟨ns', _, hwalk', _, hlaid'⟩ := @Walk.tighten src _ _ hwalk 0
  exact ⟨h.le, tighten_plain h.plain 0, ns', hwalk', fun lo hi hb => hlaid' _ _ _ (hlaid lo hi hb)⟩

theorem reads {content : Reader} (hcontent : content.Correct src) (hr : r.Ready src past)
    (hi : i < past) {m : Marker} (hm : Marker.ofLine? r i = some m) {o : Outcome}
    (h : read content r m i past = .ok o) : Reads src r i o.events o.next := by
  rw [read, Except.bind_eq_ok] at h
  obtain ⟨items, hitems, h⟩ := h
  cases h
  have hreads := readFrom_reads hcontent hr hi (marker_of_ofLine? hm) hitems
  have hk : (kind m).isBlockCode = false := by
    rw [kind]
    split <;> rfl
  have henter : (kind m).layer = .block ∧ (kind m).holdsNodes = true := by
    rw [kind]
    split <;> exact ⟨rfl, rfl⟩
  have hitems' : Reads src { r with isTop := false } i
      (if items.tight then tighten 0 items.events else items.events) items.next := by
    split
    · exact reads_tighten hreads
    · exact hreads
  exact .around hk henter rfl hitems' fun _ _ hb => hb

end Items

/-! ### Rows of blocks -/

/-- **What is reported of one block.** -/
theorem readBlock_reads {one two : Reader} (hone : one.Correct src) (htwo : two.Correct src)
    (hr : r.Ready src past) (hi : i < past) (he : r.isEmpty i = false) {o : Outcome}
    (h : readBlock one two r i past = .ok o) : Reads src r i o.events o.next := by
  have hheight := Nat.lt_of_lt_of_le hi hr.past_le
  rw [readBlock] at h
  split at h
  · next o' ho =>
    cases h
    simp only [Option.orElse_eq_orElse, Option.orElse_eq_or, Option.or_eq_some_iff] at ho
    rcases ho with ho | ⟨_, ho | ⟨_, ho | ⟨_, ho⟩⟩⟩
    · exact FrontMatter.reads ho
    · exact MathBlock.reads ho
    · exact Esm.reads hr.top hi ho
    · exact FlowExpression.reads hr.sound hr.past_le hi ho
  · split at h
    · next shape hshape => exact Element.reads hone hr hi hshape h
    · split at h
      · next o' ho =>
        cases h
        exact Fence.reads ho
      · split at h
        · next hq => exact Quote.reads hone hr hi hq h
        · split at h
          · next o' ho =>
            cases h
            exact ThematicBreak.reads ho
          · split at h
            · next m hm => exact Items.reads htwo hr hi hm h
            · cases h
              generalize ho : (Definition.ofLine? r i <|> Heading.read? r i <|>
                Underline.read? r i past) = o'
              cases o' with
              | none => exact Paragraph.reads hr.sound hheight he
              | some o' =>
                simp only [Option.orElse_eq_orElse, Option.orElse_eq_or,
                  Option.or_eq_some_iff] at ho
                rcases ho with ho | ⟨_, ho | ⟨_, ho⟩⟩
                · exact Definition.reads ho
                · exact Heading.reads hr.sound hheight ho
                · exact Underline.reads hr.sound hr.past_le he ho

theorem le_passEmpty (r : Region) (past i : Nat) : i ≤ passEmpty r past i := by
  rw [passEmpty]
  split <;> omega

/-- **What is reported of a row of blocks.** -/
theorem readBlocks_reads {one two : Reader} (hone : one.Correct src) (htwo : two.Correct src)
    (hr : r.Ready src past) {blank tight : Bool} {i : Nat} {c : Content}
    (h : readBlocks (readBlock one two) r past blank tight i = .ok c) :
    Reads src r i c.events c.next := by
  rw [readBlocks] at h
  split at h
  · obtain ⟨hle, he⟩ := r.skipEmpty_spec i
    dsimp only at h
    split at h
    · cases h
      exact .nil hle
    · next hstart =>
      rw [Bool.or_eq_true, decide_eq_true_iff, not_or] at hstart
      have hlt : r.skipEmpty i < past := by omega
      rw [Except.bind_eq_ok] at h
      obtain ⟨o, ho, h⟩ := h
      have hblock := (readBlock_reads hone htwo hr hlt
        (he (Nat.lt_of_lt_of_le hlt hr.past_le)) ho).mono hle (le_passEmpty r past o.next)
      split at h
      · next hnext =>
        rw [Except.bind_eq_ok] at h
        obtain ⟨c', hc', h⟩ := h
        cases h
        exact hblock.append hr.sound (readBlocks_reads hone htwo hr hc')
      · cases h
        have hblock := readBlock_reads hone htwo hr hlt (he (Nat.lt_of_lt_of_le hlt hr.past_le)) ho
        exact hblock.mono hle (Nat.le_refl _)
  · cases h
    exact .nil (Nat.le_refl _)
termination_by past - i

/-- **Every reader of content keeps to what readers report.** -/
theorem read_correct (src : Source) : ∀ room, (read room).Correct src
  | 0 => by
    intro r i past c hr h
    rw [read] at h
    cases h
    have hle := (r.skipEmpty_spec i).1
    refine .nil ?_
    dsimp only
    split
    · exact hle
    · next hlt =>
      rw [Bool.or_eq_true, decide_eq_true_iff, not_or] at hlt
      omega
  | 1 => by
    intro r i past c hr h
    rw [read] at h
    exact readBlocks_reads (read_correct src 0) (read_correct src 0) hr h
  | n + 2 => by
    intro r i past c hr h
    rw [read] at h
    exact readBlocks_reads (read_correct src (n + 1)) (read_correct src n) hr h

/-- **The blocks of a whole document** are laid out between its start and its end. -/
theorem readSource_spec {o : Outcome} (h : readSource src = .ok o) :
    (∀ e ∈ o.events, IsPlain src e) ∧
      ∃ ns, Walk o.events ns ∧ Laid src true 0 src.size ns := by
  rw [readSource, Except.bind_eq_ok] at h
  obtain ⟨c, hc, h⟩ := h
  cases h
  have hsound := Region.sound_ofSource src
  have hreads := read_correct src maxDepth _ _ _ c
    ⟨hsound, Nat.le_refl _, fun _ => ⟨rfl, rfl⟩⟩ hc
  obtain ⟨ns, hwalk, hlaid⟩ := hreads.walk
  refine ⟨hreads.plain, ns, hwalk, hlaid 0 src.size ⟨Nat.zero_le _, fun k _ _ hk => ?_⟩⟩
  obtain ⟨_, _, _, hin⟩ := hsound.inside hk
  exact ⟨Nat.zero_le _, hin.le_size⟩

end MdxProse.Block
