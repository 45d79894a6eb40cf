import MdxProse.Proofs.BlockDepth
import MdxProse.Proofs.PlainLines

/-!
# Documents of elements in regions that are alike

A document of which the tree is made of elements has blocks of two kinds: elements, and definitions,
which leave nothing in the tree.  Both are read alike in a container of another document, although
that has room for one level less, and ends after more empty lines.

* `Region.Alike.skipEmpty_ends`: the same empty lines are skipped, up to the end of either region.
* `Region.Alike.quiet`: where a definition starts, nothing else does.
* `Region.Alike.readElement`: **an element or definition is read alike**, if its levels fit.
* `Region.Alike.readElements`: **so is a document of such blocks**, by induction on the lines that
  are left.
-/

namespace MdxProse.Block

variable {m : Carrying} {r r' : Region} {i past n : Nat} {o : Outcome} {one two one' : Reader}

/-! ### Elements and definitions -/

theorem Region.le_lineReaching (r : Region) (offset i : Nat) : i ≤ r.lineReaching offset i := by
  fun_induction Region.lineReaching r offset i with
  | case1 i _ _ ih => exact Nat.le_of_succ_le ih
  | case2 | case3 => exact Nat.le_refl _

theorem Element.lt_next {shape : Shape} (h : read one r i past shape = .ok o) : i < o.next := by
  cases shape with
  | stray t => cases h
  | run ts lineStop =>
    cases h
    exact Nat.lt_succ_of_le (r.le_lineReaching _ _)
  | open_ t lineStop =>
    rw [read] at h
    split at h
    · cases h
    · next run hrun =>
      obtain ⟨-, -, -, hnext⟩ := readClosed_inv h
      have hstart := r.le_lineReaching lineStop i
      have hrun := (closingRun?_spec hrun).1
      have hclose := r.le_lineReaching run.closer.span.start run.line
      have hlast := r.le_lineReaching run.stop (r.lineReaching run.closer.span.start run.line)
      omega

theorem Definition.exists_lineText (hr : r.Ready m.src past) (hi : i < r.height)
    (he : r.isEmpty i = false) (h : ofLine? r i = some o) : ∃ u, r.lineText i = '[' :: u := by
  obtain ⟨_, _, _, hin⟩ := hr.sound.inside hi
  have hlt : (r.line i).start < (r.line i).stop := by
    simpa [Region.isEmpty, Line.isEmpty] using he
  have hsize : (r.line i).start < r.src.size := by
    rw [hr.sound.src_eq]
    exact Nat.lt_of_lt_of_le hlt hin.le_size
  have hc := Array.getElem?_eq_getElem hsize
  have hbracket : r.src[(r.line i).start] = '[' := Decidable.byContradiction fun hne => by
    rw [ofLine?_eq_none hc (Nat.le_of_lt hlt) hne] at h
    cases h
  rw [hbracket] at hc
  exact ⟨_, r.src.window_cons hc hlt⟩

/-! ### Regions that end after more empty lines -/

theorem Region.height_le_skipEmpty (h : ∀ k, i ≤ k → k < r.height → r.isEmpty k = true) :
    r.height ≤ r.skipEmpty i := by
  refine Nat.le_of_not_lt fun hlt => ?_
  obtain ⟨hle, hempty⟩ := r.skipEmpty_spec i
  have hempty := hempty hlt
  rw [h _ hle hlt] at hempty
  cases hempty

/-- The same content was read, but for where code stands, and up to the end of a container. -/
structure Content.AlikeUpTo (m : Carrying) (height : Nat) (c c' : Content) : Prop where
  events : Event.EachAlike m c.events c'.events
  definitions : c'.definitions = c.definitions
  next : height ≤ c'.next

/-- Where no text is left, the same is read in both regions: nothing. -/
theorem readBlocks_ends {block block' : Region → Nat → Nat → Except SyntaxError Outcome} {j : Nat}
    {c : Content} {blank tight : Bool} (hread : readBlocks block r past blank tight i = .ok c)
    (h : i < past → past ≤ r.skipEmpty i) (h' : j < r'.height → r'.height ≤ r'.skipEmpty j)
    (blank' tight' : Bool) : ∃ c', readBlocks block' r' r'.height blank' tight' j = .ok c' ∧
      c.AlikeUpTo m r'.height c' := by
  obtain ⟨next, hnone⟩ : ∃ next,
      readBlocks block r past blank tight i = .ok ⟨⟨[], [], next⟩, tight⟩ :=
    readBlocks_done h blank tight
  obtain ⟨next', hle, hnone'⟩ : ∃ next', r'.height ≤ next' ∧
      readBlocks block' r' r'.height blank' tight' j = .ok ⟨⟨[], [], next'⟩, tight'⟩ :=
    readBlocks_end h' blank' tight'
  cases hread.symm.trans hnone
  exact ⟨_, hnone', .nil, rfl, hle⟩

namespace Region.Alike

section Document

variable (h : r.Alike m r') (hends : r.EndsAlike m r' r.height r'.height)

include h hends

/-- **The same empty lines are skipped**, up to the end of either region. -/
theorem skipEmpty_ends (hi : m.first ≤ i) :
    (r.skipEmpty i < r.height → r'.skipEmpty i = r.skipEmpty i) ∧
      (r.height ≤ r.skipEmpty i → r'.height ≤ r'.skipEmpty i) := by
  fun_induction Region.skipEmpty r i with
  | case1 i hlt hempty ih =>
    have hskip : r'.skipEmpty i = r'.skipEmpty (i + 1) := by
      rw [Region.skipEmpty, if_pos (Nat.lt_of_lt_of_le hlt h.height), h.isEmpty hi hlt,
        if_pos hempty]
    rw [hskip]
    exact ih (Nat.le_succ_of_le hi)
  | case2 i hlt hempty =>
    refine ⟨fun _ => ?_, fun hle => by omega⟩
    rw [Region.skipEmpty, if_pos (Nat.lt_of_lt_of_le hlt h.height), h.isEmpty hi hlt, if_neg hempty]
  | case3 i hlt =>
    refine ⟨fun hlt' => by omega, fun hle => ?_⟩
    exact height_le_skipEmpty fun k hk hkh => hends.below k (Nat.le_trans hle hk) hkh

section Block

variable (hr : r.Ready m.src r.height) (htop : r'.isTop = false) (hi : m.first ≤ i)
  (hlt : i < r.height)

include hr htop hi hlt

/-- **Where a definition starts, nothing else does.** -/
theorem quiet (hq : r.Quiet i r.height) (he : r.isEmpty i = false)
    (hdefinition : Definition.ofLine? r i = some o) : r'.Quiet i r'.height := by
  have hdash : r'.src.has '-' 0 = false := h.src ▸ m.noDash.2
  refine ⟨FrontMatter.read?_eq_none hdash, ?_, ?_, ?_, ?_, (h.fence hi hlt).trans hq.fence,
    (h.quote hi hlt).trans hq.quote, (h.thematicBreak hi hlt).trans hq.thematicBreak,
    (h.marker hi hlt).trans hq.marker⟩
  · obtain ⟨u, htext⟩ := Definition.exists_lineText hr hlt he hdefinition
    rw [MathBlock.read?, h.lineText hi hlt, htext, if_neg (by simp)]
  · rw [Esm.starts, htop, Bool.false_and, Bool.false_and]
  · rw [h.flowExpression hends hi hlt, hq.flowExpression, Option.map_none]
  · rw [Element.starts, h.shape? hends hi hlt, Option.isSome_map]
    exact hq.element

/-- **An element or definition is read alike**, if the content of elements is. -/
theorem readElement (hone : ∀ k < n, one.AgreesBelow m.src k one') (hkeeps : one'.Keeps m)
    (he : r.isEmpty i = false) (ho : Block.readBlock one two r i r.height = .ok o)
    (hfits : Event.Fits n o.events)
    (hfirst : ∀ t, Event.firstType? o.events = some t → t = .flowElement) (two' : Reader) :
    i < o.next ∧ ∃ o', Block.readBlock one' two' r' i r'.height = .ok o' ∧ o.Alike m o' := by
  have hdash : r'.src.has '-' 0 = false := h.src ▸ m.noDash.2
  rcases readBlock_element_cases ho hfirst with ⟨shape, hshape, hread⟩ | ⟨hquiet, hdefinition⟩
  · have hshape' : Element.shape? r' i r'.height = some (shape.carried m.carry) := by
      rw [h.shape? hends hi hlt, hshape]
      rfl
    have halike := Element.read_alike hkeeps h hr hends hi hlt hshape
    rw [Element.read_agrees hone hr hread hfits] at halike
    rw [readBlock_tags hdash hshape']
    generalize Element.read one' r' i r'.height (shape.carried m.carry) = y at halike
    cases halike with
    | ok hab => exact ⟨Element.lt_next hread, _, rfl, hab⟩
  · have hquiet' := h.quiet hends hr htop hi hlt hquiet he hdefinition
    have hnext := OpensText.lt_next ⟨hquiet, .inl hdefinition⟩
    refine ⟨hnext, o, ?_, .refl o⟩
    rw [hquiet'.readBlock, h.definition hends hi hlt, hdefinition]
    rfl

end Block

/-- **A document of elements is read alike**, if the content of its elements is. -/
theorem readElements (hr : r.Ready m.src r.height) (htop : r'.isTop = false)
    (hindent : ∀ k, k < r.height → r.indent ≤ (r.line k).indent) (hcorrect : one.Correct m.src)
    (hcorrect' : two.Correct m.src) (hone : ∀ k < n, one.AgreesBelow m.src k one')
    (hkeeps : one'.Keeps m) {c : Content} {blank tight : Bool} {ns : List Node} (hi : m.first ≤ i)
    (hread : readBlocks (Block.readBlock one two) r r.height blank tight i = .ok c)
    (hwalk : Walk c.events ns) (helements : ∀ e ∈ ns, e.type = .flowElement)
    (hfits : Event.Fits n c.events) (two' : Reader) (blank' tight' : Bool) :
    ∃ c', readBlocks (Block.readBlock one' two') r' r'.height blank' tight' i = .ok c' ∧
      c.AlikeUpTo m r'.height c' := by
  induction hn : r.height - i using Nat.strongRecOn
    generalizing i c blank tight ns blank' tight' with
  | ind k ih =>
  subst hn
  obtain ⟨hskip, hskip_end⟩ := h.skipEmpty_ends hends hi
  obtain ⟨hle, htext⟩ := r.skipEmpty_spec i
  by_cases hlt : r.skipEmpty i < r.height
  · have hskip := hskip hlt
    have hstart := Nat.le_trans hi hle
    have hlt' : r'.skipEmpty i < r'.height := hskip ▸ Nat.lt_of_lt_of_le hlt h.height
    have hline := hindent _ hlt
    have hline' : r'.indent ≤ (r'.line (r'.skipEmpty i)).indent := by
      obtain ⟨-, hless, -⟩ := h.line_indent hstart hlt
      rw [hskip]
      omega
    -- the first block
    obtain ⟨o, rest, ho, hevents⟩ := exists_block hlt hline hread
    have hfirst : ∀ t, Event.firstType? o.events = some t → t = .flowElement := fun t =>
      (hevents ▸ hwalk).eq_of_firstType? helements
    have hfits₁ : Event.Fits n o.events := Event.Fits.left (hevents ▸ hfits)
    obtain ⟨hnext, o', ho', halike⟩ := h.readElement hends hr htop hstart hlt hone hkeeps
      (htext hlt) ho hfits₁ hfirst two'
    obtain ⟨blank₁, tight₁, c₁, ns₁, ns₂, hc₁, rfl, hwalk₁, hwalk₂, rfl⟩ :=
      exists_rest hlt hline hcorrect hcorrect' hr ho hnext hread hwalk
    rw [← hskip] at ho'
    obtain ⟨blank₂, tight₂, hrest'⟩ := readBlocks_block hlt' hline' ho'
      (by rw [hskip, halike.next]; exact hnext) blank' tight'
    rw [halike.next] at hrest'
    -- the blocks that follow it
    have hpass := le_passEmpty r r.height o.next
    have hpass' := le_passEmpty r' r'.height o.next
    have hfollow : ∃ c₂, readBlocks (Block.readBlock one' two') r' r'.height blank₂ tight₂
        (Block.passEmpty r' r'.height o.next) = .ok c₂ ∧ c₁.AlikeUpTo m r'.height c₂ := by
      by_cases hin : o.next < r.height
      · have hsame : Block.passEmpty r' r'.height o.next = Block.passEmpty r r.height o.next := by
          rw [Block.passEmpty, Block.passEmpty, h.isEmpty_all, decide_eq_true hin,
            decide_eq_true (Nat.lt_of_lt_of_le hin h.height)]
        rw [hsame]
        exact ih (r.height - Block.passEmpty r r.height o.next) (by omega) (by omega) hc₁ hwalk₂
          (fun e he => helements e (List.mem_append_right ns₁ he))
          ((hwalk₁.fits_append _ n).mp hfits).2 blank₂ tight₂ rfl
      · refine readBlocks_ends hc₁ (fun hlt => by omega) (fun _ => ?_) blank₂ tight₂
        exact height_le_skipEmpty fun k hk hkh => hends.below k (by omega) hkh
    obtain ⟨c₂, hc₂, hfollow⟩ := hfollow
    refine ⟨_, hrest'.trans (congrArg (Except.bind · _) hc₂), ?_⟩
    exact ⟨List.rel_append halike.events hfollow.events, by
      rw [halike.definitions, hfollow.definitions], hfollow.next⟩
  · have hge := Nat.le_of_not_lt hlt
    exact readBlocks_ends hread (fun _ => hge) (fun _ => hskip_end hge) blank' tight'

end Document

end Region.Alike

end MdxProse.Block
