import MdxProse.Proofs.BlockKinds
import MdxProse.Proofs.MovedBlocks

/-!
# Documents of paragraphs

A document of which the tree is made of paragraphs has blocks of two kinds: paragraphs, and
definitions, which leave nothing in the tree.  Both are read further down as they are read in the
document.

* `Region.Moved.readBlock`: a definition or paragraph is read further down as it is in the document.
  `Region.Moved.readBlocks_ends`: where no text is left, nothing is read.
* `Region.Moved.readBlocks`: **so is a document of such blocks**, by induction on the lines that are
  left.
-/

namespace MdxProse

/-- The lines further down. -/
def LineRange.moved (k : Nat) (l : LineRange) : LineRange :=
  ⟨l.first + k, l.past + k⟩

/-- The event further down. -/
def Event.moved (k : Nat) : Event → Event
  | enter kind l => enter kind (l.map (·.moved k))
  | leave t n => leave t n
  | leaf kind l inner => leaf kind (l.map (·.moved k)) inner

namespace Block

variable {r r' : Region} {i past : Nat} {o : Outcome} {one two : Reader}

/-! ### Further down -/

namespace Region.Moved

variable {d k : Nat}

theorem quiet (h : r.Moved r' d k) (hi : i < r.height) (hq : r.Quiet i r.height) :
    r'.Quiet (i + k) r'.height := by
  have hpos := h.isTop.1
  refine ⟨?_, ?_, ?_, ?_, (h.element hi).trans hq.element, (h.fence hi).trans hq.fence,
    (h.quote hi).trans hq.quote, (h.thematicBreak hi).trans hq.thematicBreak,
    (h.marker hi).trans hq.marker⟩
  · have hne : i + k ≠ 0 := by omega
    rw [FrontMatter.read?, decide_eq_false hne]
    rfl
  · have hmath := h.mathBlock hi
    rwa [hq.mathBlock, Option.isSome_none, Option.isSome_eq_false_iff,
      Option.isNone_iff_eq_none] at hmath
  · rw [Esm.starts, h.isTop.2, Bool.false_and, Bool.false_and]
  · rw [h.flowExpression hi, hq.flowExpression, Option.map_none]

theorem paragraph (h : r.Moved r' d k) (hi : i < r.height) : Paragraph.read r' (i + k) =
    ⟨(Paragraph.read r i).events.map (Event.moved k), [], (Paragraph.read r i).next + k⟩ := by
  obtain ⟨hle, hheight⟩ := Paragraph.stop_spec r (i + 1)
  rw [Paragraph.read, Paragraph.read, Nat.add_right_comm, h.paragraph_stop hi]
  dsimp only
  rw [h.runningText (Nat.le_of_succ_le hle) (hheight hi)]
  rfl

/-- **A definition or paragraph is read further down as it is in the document.** -/
theorem readBlock (h : r.Moved r' d k) (hi : i < r.height)
    (ho : r.OpensText i r.height o) (one' two' : Reader) :
    Block.readBlock one' two' r' (i + k) r'.height =
      .ok ⟨o.events.map (Event.moved k), o.definitions, o.next + k⟩ := by
  rw [(h.quiet hi ho.quiet).readBlock, h.definition hi]
  rcases ho.cases with hdefinition | ⟨hdefinition, hheading, hunderline, rfl⟩
  · have hevents := Definition.events_eq_nil hdefinition
    simp only [hdefinition, Option.map_some, hevents, List.map_nil]
    rfl
  · have hheading' : Heading.read? r' (i + k) = none := by
      rw [Heading.read?, h.lineText hi, Option.map_eq_none_iff]
      exact Option.map_eq_none_iff.mp hheading
    have hunderline' : Underline.read? r' (i + k) r'.height = none := by
      rw [Underline.read?, Nat.add_right_comm, h.underline_find? hi,
        Option.map_eq_none_iff.mp hunderline]
      rfl
    rw [hdefinition, hheading', hunderline', h.paragraph hi]
    rfl

/-- Where no text is left, the same is read further down: nothing. -/
theorem readBlocks_ends {block block' : Region → Nat → Nat → Except SyntaxError Outcome} {j : Nat}
    {c : Content} {blank tight : Bool}
    (hread : Block.readBlocks block r r.height blank tight i = .ok c)
    (hdone : i < r.height → r.height ≤ r.skipEmpty i)
    (hdone' : j < r'.height → r'.height ≤ r'.skipEmpty j) (k : Nat) (blank' tight' : Bool) :
    ∃ next tight'', Block.readBlocks block' r' r'.height blank' tight' j =
      .ok ⟨⟨c.events.map (Event.moved k), c.definitions, next⟩, tight''⟩ := by
  obtain ⟨p, hp⟩ := @readBlocks_done block r r.height i hdone blank tight
  obtain ⟨p', hp'⟩ := @readBlocks_done block' r' r'.height j hdone' blank' tight'
  cases hread.symm.trans hp
  exact ⟨p', tight', hp'⟩

/-- **A document of paragraphs is read further down as it is by itself.** -/
theorem readBlocks {c : Content} {blank tight : Bool} {ns : List Node} (h : r.Moved r' d k)
    (hone : one.Correct r.src) (htwo : two.Correct r.src)
    (hread : Block.readBlocks (Block.readBlock one two) r r.height blank tight i = .ok c)
    (hwalk : Walk c.events ns) (hprose : ∀ n ∈ ns, n.type = .paragraph)
    (one' two' : Reader) (blank' tight' : Bool) : ∃ next tight'',
      Block.readBlocks (Block.readBlock one' two') r' r'.height blank' tight' (i + k) =
        .ok ⟨⟨c.events.map (Event.moved k), c.definitions, next⟩, tight''⟩ := by
  induction hn : r.height - i using Nat.strongRecOn
    generalizing i c blank tight ns blank' tight' with
  | ind n ih =>
  subst hn
  have hle := (r.skipEmpty_spec i).1
  by_cases hlt : r.skipEmpty i < r.height
  · have hskip : r'.skipEmpty (i + k) = r.skipEmpty i + k := by
      rw [h.skipEmpty (by omega), if_pos hlt]
    have hindent : r.indent ≤ (r.line (r.skipEmpty i)).indent := h.indent.1 ▸ h.nonneg _ hlt
    have hindent' : r'.indent ≤ (r'.line (r'.skipEmpty (i + k))).indent := by
      rw [hskip, h.line_indent hlt, h.indent.2]
      exact h.nonneg _ hlt
    -- the first block
    obtain ⟨o, rest, ho, hevents⟩ := exists_block hlt hindent hread
    have htext : r.OpensText (r.skipEmpty i) r.height o := by
      refine (readBlock_cases ho).resolve_left ?_
      rintro ⟨t, hfirst, hne⟩
      exact hne ((hevents ▸ hwalk).eq_of_firstType? hprose hfirst)
    have hnext := htext.lt_next
    obtain ⟨blank₁, tight₁, c', ns₁, ns₂, hc', rfl, -, hwalk₂, rfl⟩ :=
      exists_rest hlt hindent hone htwo h.ready ho hnext hread hwalk
    have hblock := h.readBlock hlt htext one' two'
    rw [← hskip] at hblock
    obtain ⟨blank₂, tight₂, hfirst'⟩ := readBlocks_block (hskip ▸ h.lt hlt) hindent' hblock
      (by rw [hskip]; exact Nat.add_lt_add_right hnext k) blank' tight'
    -- the blocks that follow it
    have hpass := le_passEmpty r r.height o.next
    obtain ⟨next, tight₃, hrest⟩ : ∃ next tight₃, Block.readBlocks (Block.readBlock one' two') r'
        r'.height blank₂ tight₂ (Block.passEmpty r' r'.height (o.next + k)) =
          .ok ⟨⟨c'.events.map (Event.moved k), c'.definitions, next⟩, tight₃⟩ := by
      by_cases hin : o.next < r.height
      · rw [h.passEmpty hin]
        exact ih (r.height - Block.passEmpty r r.height o.next) (by omega) hc' hwalk₂
          (fun n hn => hprose n (List.mem_append_right ns₁ hn)) blank₂ tight₂ rfl
      · have hend := h.passEmpty_end (Nat.le_of_not_lt hin)
        exact readBlocks_ends hc' (fun hlt => by omega) (fun hlt => by omega) k blank₂ tight₂
    refine ⟨next, tight₃, ?_⟩
    rw [hfirst', hrest, List.map_append]
    rfl
  · refine readBlocks_ends hread (fun _ => Nat.le_of_not_lt hlt) (fun hi => ?_) k blank' tight'
    have hi' : i ≤ r.height := by
      rcases h.height with heq | ⟨heq, -⟩ <;> omega
    have hskip := h.skipEmpty hi'
    rw [if_neg hlt] at hskip
    exact Nat.le_of_eq hskip.symm

end Region.Moved

end Block

end MdxProse
