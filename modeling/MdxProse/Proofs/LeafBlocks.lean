import MdxProse.Proofs.Layout
import MdxProse.Proofs.RunningText

/-!
# What readers of blocks report

`Reads src r i es next` is what every reader of blocks keeps to: the events `es`, read from line `i`
of the region `r` up to line `next`, are a walk through nodes whose block code stands on these
lines, and the running text among them is made of rows of the document.

* `Reads.append`, `Reads.around`: one reader after the other, and a container around a reader.
* `Reads.leaf`, `Heading.reads`, `Paragraph.reads`, …: the blocks that hold no other blocks.
* `Esm.isStatement_span`: **a module statement runs to the last line before an empty one.**
* `FlowExpression.reads`: an expression that stands alone ends where it would end in the whole text.
-/

namespace MdxProse

namespace Block

variable {src : Source} {r : Region} {i j past : Nat} {es es' : List Event}

/-! ### Lines and offsets -/

/-- The lines from `i` to just before `j` are between two offsets. -/
def Region.Between (r : Region) (i j lo hi : Nat) : Prop :=
  lo ≤ hi ∧ ∀ k, i ≤ k → k < j → k < r.height → lo ≤ (r.line k).first ∧ (r.line k).stop ≤ hi

theorem Region.Between.mono {i' j' lo hi : Nat} (h : r.Between i j lo hi) (hi' : i ≤ i')
    (hj : j' ≤ j) : r.Between i' j' lo hi :=
  ⟨h.1, fun k hk hkj hkh => h.2 k (Nat.le_trans hi' hk) (Nat.lt_of_lt_of_le hkj hj) hkh⟩

/-- Between two lines there is an offset that parts them. -/
theorem Region.Between.split {m lo hi : Nat} (hr : r.Sound src) (h : r.Between i j lo hi)
    (him : i ≤ m) (hmj : m ≤ j) :
    ∃ mid, r.Between i m lo mid ∧ r.Between m j mid hi := by
  by_cases hm : m < j ∧ m < r.height
  · obtain ⟨hlo, hhi⟩ := h.2 m him hm.1 hm.2
    have hfs := hr.first_le_stop hm.2
    refine ⟨(r.line m).first, ⟨hlo, fun k hk hkm hkh => ?_⟩, by omega, fun k hk hkj hkh => ?_⟩
    · exact ⟨(h.2 k hk (by omega) hkh).1, Nat.le_of_lt (hr.line_lt hkm hm.2)⟩
    · refine ⟨?_, (h.2 k (by omega) hkj hkh).2⟩
      rcases Nat.eq_or_lt_of_le hk with rfl | hlt
      · exact Nat.le_refl _
      · have := hr.line_lt hlt hkh
        omega
  · refine ⟨hi, h.mono (Nat.le_refl i) hmj, Nat.le_refl hi, fun k hk hkj hkh => ?_⟩
    omega

/-! ### Streams of blocks -/

/-- An event of a stream of blocks: running text comes from lines of the document, everything else
is a block, only blocks that hold others are entered, and nothing is inside an event yet. -/
def IsPlain (src : Source) : Event → Prop
  | .enter k _ => k.layer = .block ∧ k.holdsNodes = true
  | .leave .. => True
  | .leaf (.inline content) lines inner => inner = [] ∧
    ∃ range, lines = some range ∧ Running src content.toList range.first
  | .leaf k _ inner => inner = [] ∧ k.layer = .block

/-- **What a reader of blocks keeps to**: the events from line `i` to just before `next` walk
through nodes whose block code is on these lines. -/
structure Reads (src : Source) (r : Region) (i : Nat) (es : List Event) (next : Nat) : Prop where
  le : i ≤ next
  plain : ∀ e ∈ es, IsPlain src e
  walk : ∃ ns, Walk es ns ∧ ∀ lo hi, r.Between i next lo hi → Laid src r.isTop lo hi ns

namespace Reads

theorem nil (h : i ≤ j) : Reads src r i [] j :=
  ⟨h, nofun, [], .nil, fun _ _ hb => .nil hb.1⟩

theorem append {m : Nat} (hr : r.Sound src) (h : Reads src r i es m) (h' : Reads src r m es' j) :
    Reads src r i (es ++ es') j := by
  obtain ⟨ns, hwalk, hlaid⟩ := h.walk
  obtain ⟨ns', hwalk', hlaid'⟩ := h'.walk
  refine ⟨Nat.le_trans h.le h'.le, fun e he => ?_, ns ++ ns', hwalk.append hwalk',
    fun lo hi hb => ?_⟩
  · rcases List.mem_append.mp he with he | he
    · exact h.plain e he
    · exact h'.plain e he
  · obtain ⟨mid, hb, hb'⟩ := hb.split hr h.le h'.le
    exact (hlaid _ _ hb).append (hlaid' _ _ hb')

theorem mono {i' j' : Nat} (h : Reads src r i es j) (hi : i' ≤ i) (hj : j ≤ j') :
    Reads src r i' es j' := by
  obtain ⟨ns, hwalk, hlaid⟩ := h.walk
  have := h.le
  exact ⟨by omega, h.plain, ns, hwalk, fun lo hi' hb => hlaid lo hi' (hb.mono hi hj)⟩

theorem leaf {k : Kind} {l : Option LineRange} (hk : k.isBlockCode = false)
    (hplain : IsPlain src (.leaf k l [])) (h : i ≤ j) : Reads src r i [.leaf k l []] j :=
  ⟨h, by simpa using hplain, [.mk k l []], .atom k l,
    fun _ _ hb => .other hk (.nil (Nat.le_refl _)) (.nil hb.1)⟩

theorem around {r' : Region} {k : Kind} {l : Option LineRange} (hk : k.isBlockCode = false)
    (henter : k.layer = .block ∧ k.holdsNodes = true) (htop : r'.isTop = false)
    (h : Reads src r' i es j)
    (hb : ∀ lo hi, r.Between i j lo hi → r'.Between i j lo hi) :
    Reads src r i (Event.around k l es) j := by
  obtain ⟨ns, hwalk, hlaid⟩ := h.walk
  refine ⟨h.le, fun e he => ?_, [.mk k l ns], hwalk.single, fun lo hi hbetween => ?_⟩
  · simp only [Event.around, List.mem_cons, List.mem_append, List.not_mem_nil, or_false] at he
    rcases he with (rfl | he) | rfl
    · exact henter
    · exact h.plain e he
    · trivial
  · have := hlaid lo hi (hb lo hi hbetween)
    rw [htop] at this
    exact .other hk this (.nil (Nat.le_refl _))

theorem running {k : Kind} {l : Option LineRange} {range : LineRange} {content : String}
    (hk : k.isBlockCode = false) (henter : k.layer = .block ∧ k.holdsNodes = true)
    (hrun : Running src content.toList range.first) (h : i ≤ j) :
    Reads src r i (Event.around k l [.running content range]) j := by
  refine ⟨h, fun e he => ?_, [.mk k l [.mk (.inline content) (some range) []]],
    (Walk.atom _ _).single, fun lo hi hb => ?_⟩
  · simp only [Event.around, Event.leaving, Event.running, List.mem_cons, List.mem_append,
      List.not_mem_nil, or_false] at he
    rcases he with (rfl | rfl) | rfl
    · exact henter
    · exact ⟨rfl, range, rfl, hrun⟩
    · trivial
  · exact .other hk (.other rfl (.nil (Nat.le_refl _)) (.nil (Nat.le_refl _))) (.nil hb.1)

end Reads

/-! ### Leaf blocks -/

theorem FrontMatter.reads {o : Outcome} (h : FrontMatter.read? r i past = some o) :
    Reads src r i o.events o.next := by
  rw [FrontMatter.read?] at h
  split at h
  · next h0 =>
    have hi : i = 0 := of_decide_eq_true (Bool.and_eq_true_iff.mp h0).1
    dsimp only at h
    split at h
    · rw [Option.map_eq_some_iff] at h
      obtain ⟨⟨last, closed⟩, _, rfl⟩ := h
      exact .leaf rfl ⟨rfl, rfl⟩ (by omega)
    · cases h
  · cases h

theorem MathBlock.le_of_closing? {last stop : Nat} {labelled : Bool}
    (h : MathBlock.closing? r past i = some (last, stop, labelled)) : i ≤ last := by
  fun_induction MathBlock.closing? r past i with
  | case1 i hi stop labelled he =>
    cases h
    exact Nat.le_refl _
  | case2 i hi he ih =>
    have := ih h
    omega
  | case3 i hi => cases h

theorem MathBlock.reads {o : Outcome} (h : MathBlock.read? r i past = some o) :
    Reads src r i o.events o.next := by
  rw [MathBlock.read?] at h
  split at h
  · rw [Option.map_eq_some_iff] at h
    obtain ⟨⟨last, stop, labelled⟩, hend, rfl⟩ := h
    have hle : i ≤ last := by
      rw [MathBlock.ending?] at hend
      split at hend
      · cases hend
        exact Nat.le_refl _
      · split at hend
        · cases hend
        · exact Nat.le_of_succ_le (MathBlock.le_of_closing? hend)
    cases labelled with
    | true => exact .leaf rfl ⟨rfl, rfl⟩ (Nat.le_succ_of_le hle)
    | false => exact .leaf rfl ⟨rfl, rfl⟩ (Nat.le_succ_of_le hle)
  · cases h

theorem Fence.le_closing (r : Region) (c : Char) (n past i : Nat) :
    i ≤ (Fence.closing r c n past i).1 := by
  fun_induction Fence.closing r c n past i with
  | case1 | case2 | case3 | case5 => exact Nat.le_refl _
  | case4 => omega

theorem Fence.reads {o : Outcome} (h : Fence.read? r i past = some o) :
    Reads src r i o.events o.next := by
  rw [Fence.read?, Option.map_eq_some_iff] at h
  obtain ⟨⟨c, n⟩, _, rfl⟩ := h
  have hle := Fence.le_closing r c n past (i + 1)
  refine .leaf rfl ⟨rfl, rfl⟩ ?_
  show i ≤ if (Fence.closing r c n past (i + 1)).2 = true then _ else _
  split <;> omega

theorem ThematicBreak.reads {o : Outcome} (h : ThematicBreak.read? r i = some o) :
    Reads src r i o.events o.next := by
  rw [ThematicBreak.read?] at h
  split at h
  · cases h
    exact .leaf rfl ⟨rfl, rfl⟩ (Nat.le_succ i)
  · cases h

theorem Definition.reads {o : Outcome} (h : Definition.ofLine? r i = some o) :
    Reads src r i o.events o.next := by
  rw [Definition.ofLine?, Option.map_eq_some_iff] at h
  obtain ⟨⟨d, rest⟩, _, rfl⟩ := h
  exact .nil (Nat.le_trans (Nat.le_succ i) (Nat.le_add_right _ _))

/-! ### Running text -/

theorem Heading.reads (hr : r.Sound src) (hi : i < r.height) {o : Outcome}
    (h : Heading.read? r i = some o) : Reads src r i o.events o.next := by
  rw [Heading.read?, Option.map_eq_some_iff] at h
  obtain ⟨n, _, rfl⟩ := h
  refine .running rfl ⟨rfl, rfl⟩ ?_ (Nat.le_succ i)
  rw [String.toList_ofList]
  exact Heading.running_title hr hi n

theorem Paragraph.stop_spec (r : Region) (i : Nat) :
    i ≤ Paragraph.stop r i ∧ (i ≤ r.height → Paragraph.stop r i ≤ r.height) := by
  fun_induction Paragraph.stop r i with
  | case1 | case3 | case5 => exact ⟨Nat.le_refl _, id⟩
  | case2 | case4 => omega

theorem Paragraph.reads (hr : r.Sound src) (hi : i < r.height) (he : r.isEmpty i = false) :
    Reads src r i (Paragraph.read r i).events (Paragraph.read r i).next := by
  obtain ⟨hle, hheight⟩ := Paragraph.stop_spec r (i + 1)
  exact .running rfl ⟨rfl, rfl⟩ (hr.running (hheight hi) hle he) (Nat.le_of_succ_le hle)

theorem Underline.find?_spec {line n : Nat} (h : Underline.find? r past i = some (line, n)) :
    i ≤ line ∧ line < past := by
  fun_induction Underline.find? r past i with
  | case1 | case5 | case7 => cases h
  | case2 i hi l he hdeep ih => exact ⟨Nat.le_of_succ_le (ih h).1, (ih h).2⟩
  | case3 i hi l he hdeep m hm =>
    cases h
    exact ⟨Nat.le_refl _, hi⟩
  | case4 i hi l he hdeep hm hneg ih => exact ⟨Nat.le_of_succ_le (ih h).1, (ih h).2⟩
  | case6 i hi l he hdeep hm hneg hno ih => exact ⟨Nat.le_of_succ_le (ih h).1, (ih h).2⟩

theorem Underline.reads (hr : r.Sound src) (hp : past ≤ r.height)
    (he : r.isEmpty i = false) {o : Outcome} (h : Underline.read? r i past = some o) :
    Reads src r i o.events o.next := by
  rw [Underline.read?, Option.map_eq_some_iff] at h
  obtain ⟨⟨line, n⟩, hfind, rfl⟩ := h
  obtain ⟨hle, hlt⟩ := Underline.find?_spec hfind
  exact .running rfl ⟨rfl, rfl⟩ (hr.running (by omega) hle he) (by dsimp only; omega)

/-! ### Module statements -/

theorem Esm.stop_spec (r : Region) (past i : Nat) (h : i ≤ past) :
    i ≤ Esm.stop r past i ∧ Esm.stop r past i ≤ past ∧
      (∀ k, i ≤ k → k < Esm.stop r past i → r.isEmpty k = false) ∧
      (Esm.stop r past i < past → r.isEmpty (Esm.stop r past i) = true) := by
  fun_induction Esm.stop r past i with
  | case1 i hi he => exact ⟨Nat.le_refl _, h, fun k h₁ h₂ => by omega, fun _ => he⟩
  | case2 i hi he ih =>
    obtain ⟨h₁, h₂, h₃, h₄⟩ := ih hi
    refine ⟨by omega, h₂, fun k hik hk => ?_, h₄⟩
    rcases Nat.eq_or_lt_of_le hik with rfl | hik
    · simpa using he
    · exact h₃ k hik hk
  | case3 i hi => exact ⟨Nat.le_refl _, h, fun k h₁ h₂ => by omega, fun h => by omega⟩

theorem Line.isEmpty_ofBody (s : Nat) (body : List Char) :
    (Line.ofBody s body).isEmpty = true ↔ body.all Text.isSpace = true := by
  have hpre := List.takeWhile_prefix Text.isSpace (l := body)
  have hiff : (Line.ofBody s body).isEmpty = true ↔
      s + body.length ≤ s + (body.takeWhile Text.isSpace).length := decide_eq_true_iff
  rw [hiff]
  constructor
  · intro hle
    have := hpre.eq_of_length (Nat.le_antisymm hpre.length_le (by omega))
    rw [← this]
    exact List.all_takeWhile
  · intro hall
    have hwhole := (Line.takeWhile_of_all (List.all_eq_true.mp hall)).1
    exact Nat.le_of_eq (congrArg (s + List.length ·) hwhole.symm)

theorem Region.line_ofSource (src : Source) {k : Nat} (hk : k < (ofSource src).height) :
    ∃ s body, (Anchor.lines src)[k]? = some (s, body) ∧
      (ofSource src).line k = Line.ofBody s body :=
  Line.table_getElem? (line_of_lt (r := ofSource src) hk)

theorem Region.isEmpty_ofSource {k s : Nat} {body : List Char}
    (h : (Anchor.lines src)[k]? = some (s, body)) :
    (k < (ofSource src).height → (ofSource src).isEmpty k = true) ↔
      body.all Text.isSpace = true := by
  constructor
  · intro he
    rcases Line.lt_size_table h with hk | ⟨_, hall⟩
    · obtain ⟨s', body', hline, hl⟩ := line_ofSource src hk
      rw [h, Option.some.injEq, Prod.mk.injEq] at hline
      rw [hline.2]
      exact (Line.isEmpty_ofBody s' body').mp (hl ▸ he hk)
    · exact hall
  · intro hall hk
    obtain ⟨s', body', hline, hl⟩ := line_ofSource src hk
    rw [h, Option.some.injEq, Prod.mk.injEq] at hline
    rw [isEmpty, hl, Line.isEmpty_ofBody, ← hline.2]
    exact hall

theorem Esm.length_of_isStatement {text : List Char} (h : Esm.isStatement text = true) :
    6 ≤ text.length := by
  simp only [Esm.isStatement, Bool.and_eq_true, Bool.or_eq_true, beq_iff_eq] at h
  have hlen : (text.take 6).length = 6 := by
    rcases h.1 with he | he <;> rw [he] <;> rfl
  rw [List.length_take] at hlen
  omega

theorem Esm.line_of_starts (hi : i < (Region.ofSource src).height)
    (h : Esm.starts (Region.ofSource src) i = true) :
    ∃ body, (Anchor.lines src)[i]? = some (((Region.ofSource src).line i).start, body) ∧
      ((Region.ofSource src).line i).start + 6 ≤ ((Region.ofSource src).line i).stop := by
  simp only [Esm.starts, Bool.and_eq_true, beq_iff_eq] at h
  obtain ⟨⟨_, hindent⟩, hstmt⟩ := h
  obtain ⟨s, body, hline, hl⟩ := Region.line_ofSource src hi
  -- the line is not indented, so its text starts where the line starts
  have hlead : (body.takeWhile Text.isSpace).length = 0 := by
    have := Line.columns_ge 0 0 (body.takeWhile Text.isSpace)
    rw [hl] at hindent
    have hcols : Line.columns 0 0 (body.takeWhile Text.isSpace) = 0 := hindent
    omega
  have hstart : ((Region.ofSource src).line i).start = s := by
    rw [hl]
    show s + (body.takeWhile Text.isSpace).length = s
    omega
  have hlen : 6 ≤ (src.window ((Region.ofSource src).line i).start
      ((Region.ofSource src).line i).stop).length := Esm.length_of_isStatement hstmt
  have hwin := src.length_window_le ((Region.ofSource src).line i).start
    ((Region.ofSource src).line i).stop
  exact ⟨body, by rw [hstart]; exact hline, by omega⟩

/-- **A module statement runs to the last line before an empty one**, or before the end. -/
theorem Esm.isStatement_span (hi : i < (Region.ofSource src).height)
    (h : Esm.starts (Region.ofSource src) i = true) :
    IsStatement src ⟨((Region.ofSource src).line i).start, ((Region.ofSource src).line
      (Esm.stop (Region.ofSource src) (Region.ofSource src).height (i + 1) - 1)).stop⟩ := by
  obtain ⟨body, hline, hlong⟩ := Esm.line_of_starts hi h
  obtain ⟨hge, hle, hfull, hend⟩ :=
    Esm.stop_spec (Region.ofSource src) (Region.ofSource src).height (i + 1) hi
  generalize Esm.stop (Region.ofSource src) (Region.ofSource src).height (i + 1) = last at *
  obtain ⟨t, body', hline', hl'⟩ := Region.line_ofSource src (k := last - 1) (by omega)
  have hstop : ((Region.ofSource src).line (last - 1)).stop = t + body'.length := by
    rw [hl']
    rfl
  have hle' := (Region.sound_ofSource src).stop_le (j := i) (k := last - 1) (by omega) (by omega)
  rw [hstop] at hle' ⊢
  refine ⟨show _ < _ by dsimp only; omega, (Anchor.lines_isLine hline').le_size,
    (Anchor.lines_isLine hline).start, ?_⟩
  dsimp only
  rw [Anchor.splitOn_window hline hline' (by omega), Anchor.splitOn_rest hline, List.map_take]
  -- the lines before `last` hold text; the one after them, if there is one, does not
  have hbody : ∀ n x, (((Anchor.lines src).drop i).map (·.2))[n]? = some x →
      ∃ p, (Anchor.lines src)[i + n]? = some (p, x) := by
    intro n x hx
    rw [List.getElem?_map, List.getElem?_drop, Option.map_eq_some_iff] at hx
    obtain ⟨⟨p, x'⟩, hp, rfl⟩ := hx
    exact ⟨p, hp⟩
  refine (takeWhile_eq_take (fun n x hn hx => ?_) fun x hx => ?_).symm
  · obtain ⟨p, hp⟩ := hbody n x hx
    have hne : (Region.ofSource src).isEmpty (i + n) = false := by
      rcases Nat.eq_zero_or_pos n with rfl | hpos
      · exact decide_eq_false (by rw [Nat.add_zero]; omega)
      · exact hfull _ (by omega) (by omega)
    cases hx : x.all Text.isSpace with
    | false => rfl
    | true =>
      rw [(Region.isEmpty_ofSource hp).mpr hx (by omega)] at hne
      cases hne
  · obtain ⟨p, hp⟩ := hbody _ x hx
    rw [show i + (last - 1 + 1 - i) = last by omega] at hp
    rw [(Region.isEmpty_ofSource hp).mp hend]
    rfl

theorem Esm.reads (htop : r.isTop = true → r = Region.ofSource src ∧ past = r.height)
    (hi : i < past) {o : Outcome} (h : Esm.read? r i past = some o) :
    Reads src r i o.events o.next := by
  rw [Esm.read?] at h
  split at h
  · next hstarts =>
    have ht : r.isTop = true := by
      simp only [Esm.starts, Bool.and_eq_true] at hstarts
      exact hstarts.1.1
    obtain ⟨rfl, rfl⟩ := htop ht
    cases h
    have hstmt := Esm.isStatement_span hi hstarts
    obtain ⟨hge, hle, -, -⟩ :=
      Esm.stop_spec (Region.ofSource src) (Region.ofSource src).height (i + 1) hi
    refine ⟨Nat.le_of_succ_le hge, ?_, [.mk (.esm _ _) _ []], .atom _ _, fun lo hi' hb => ?_⟩
    · intro e he
      cases List.mem_singleton.mp he
      exact ⟨rfl, rfl⟩
    · have hlo := (hb.2 i (Nat.le_refl i) hge hi).1
      have hhi := (hb.2 (Esm.stop (Region.ofSource src) (Region.ofSource src).height (i + 1) - 1)
        (by omega) (Nat.sub_lt (by omega) Nat.one_pos) (by omega)).2
      exact .statement (Nat.le_trans hlo (Nat.le_add_right _ _)) hstmt (.nil hhi)
  · cases h

/-! ### Expressions that stand alone -/

theorem FlowExpression.stop?_spec {stop : Nat} (h : stop? r i past = some stop) :
    (r.line i).isEmpty = false ∧ r.src.has '\x7b' (r.line i).start = true ∧
      Expression.stop? r.src (r.line i).start (r.limit past) = some stop := by
  rw [stop?] at h
  dsimp only at h
  split at h
  · next hcond =>
    obtain ⟨hempty, hbrace⟩ := Bool.and_eq_true_iff.mp hcond
    rw [Bool.not_eq_true'] at hempty
    split at h
    · cases h
    · next he =>
      split at h
      · cases h
        exact ⟨hempty, hbrace, he⟩
      · cases h
  · cases h

/-- **An expression that stands alone ends where it would end in the whole text**, and on the line
up to which it is read. -/
theorem FlowExpression.reads (hr : r.Sound src) (hp : past ≤ r.height) (hi : i < past)
    {o : Outcome} (h : FlowExpression.read? r i past = some o) :
    Reads src r i o.events o.next := by
  rw [FlowExpression.read?, Option.map_eq_some_iff] at h
  obtain ⟨stop, hstop, rfl⟩ := h
  have hsrc := hr.src_eq
  subst hsrc
  obtain ⟨-, -, hscan⟩ := stop?_spec hstop
  have hle := Expression.stop_le_limit hscan
  obtain ⟨hge, hlast, hreach, -⟩ := r.lineReaching_spec (i := i) (j := past - 1) (by omega)
    (Nat.lt_of_lt_of_le (by omega) hr.height) hle
  refine ⟨Nat.le_succ_of_le hge, ?_, [.mk (.flowExpression _ _) _ []], .atom _ _,
    fun lo hi hb => ?_⟩
  · intro e he
    cases List.mem_singleton.mp he
    exact ⟨rfl, rfl⟩
  · have hlo := (hb.2 i (Nat.le_refl i) (Nat.lt_succ_of_le hge) (by omega)).1
    have hhi := (hb.2 _ hge (Nat.lt_succ_self _) (by omega)).2
    refine .expression ?_ (Expression.stop?_size hscan) (.nil (Nat.le_trans hreach hhi))
    exact Nat.le_trans hlo (Nat.le_add_right _ _)

end Block

end MdxProse
