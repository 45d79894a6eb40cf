import MdxProse.Proofs.AlikeBlocks
import MdxProse.Proofs.BlockKinds

/-!
# How deep blocks are nested

A reader of content has room for so many levels of containers.  Where blocks are not nested as deep
as that, it does not matter how much room there is.

* `Node.levels`: how many levels of blocks a node has.  `Event.Fits`: a stream enters no more levels
  than that.  `Walk.fits`: **the stream of a tree fits if the tree does.**
* `Reader.AgreesBelow`: what one reader of content reads, another one reads too, if it fits.
* `Quote.read_agrees`, `Items.read_agrees`, `Element.read_agrees`: a container is then read the
  same, at one level more, or two for lists.
* `read_agrees`: **readers with more room than there are levels of blocks read the same.**
-/

namespace MdxProse

/-! ### Levels of blocks -/

mutual
/-- How many levels of blocks there are from the node down, itself included. -/
def Node.levels : Node → Nat
  | .mk k _ cs => if k.layer = .block then levelsEach cs + 1 else 0
/-- The most levels of blocks that one of the nodes has. -/
def Node.levelsEach : List Node → Nat
  | [] => 0
  | c :: cs => max c.levels (levelsEach cs)
end

theorem Node.levelsEach_le_iff {ns : List Node} {n : Nat} :
    levelsEach ns ≤ n ↔ ∀ c ∈ ns, c.levels ≤ n := by
  induction ns with
  | nil =>
    rw [levelsEach]
    exact ⟨fun _ => nofun, fun _ => Nat.zero_le _⟩
  | cons c cs ih => rw [levelsEach, Nat.max_le, ih, List.forall_mem_cons]

/-- The stream enters blocks at most `n` levels deep. -/
def Event.Fits : Nat → List Event → Prop
  | _, [] => True
  | n, .enter _ _ :: es => ∃ m, n = m + 1 ∧ Fits m es
  | n, .leave _ _ :: es => Fits (n + 1) es
  | n, .leaf k _ _ :: es => (k.layer = .block → 0 < n) ∧ Fits n es

namespace Event

variable {n : Nat} {es es' : List Event}

theorem Fits.left (h : Fits n (es ++ es')) : Fits n es := by
  induction es generalizing n with
  | nil => trivial
  | cons e es ih =>
    cases e with
    | enter k l =>
      obtain ⟨m, hm, h⟩ := h
      exact ⟨m, hm, ih h⟩
    | leave t name => exact @ih (n + 1) h
    | leaf k l inner => exact ⟨h.1, ih h.2⟩

theorem Fits.inside {k : Kind} {l : Option LineRange} (h : Fits n (around k l es)) :
    ∃ m, n = m + 1 ∧ Fits m es := by
  obtain ⟨m, hm, h⟩ := h
  exact ⟨m, hm, Fits.left h⟩

theorem fits_tighten (depth : Nat) : Fits n (Block.Items.tighten depth es) ↔ Fits n es := by
  induction es generalizing n depth with
  | nil => exact Iff.rfl
  | cons e es ih =>
    cases e with
    | enter k l =>
      rw [Block.Items.tighten_enter]
      constructor
      · rintro ⟨m, hm, h⟩
        exact ⟨m, hm, (ih _).mp h⟩
      · rintro ⟨m, hm, h⟩
        exact ⟨m, hm, (ih _).mpr h⟩
    | leave t name => exact ih _
    | leaf k l inner => exact and_congr_right fun _ => ih _

end Event

/-- **A walk fits on its own, and leaves the room for what follows.** -/
theorem Walk.fits_append {es : List Event} {ns : List Node} (h : Walk es ns) (rest : List Event)
    (n : Nat) : Event.Fits n (es ++ rest) ↔ Event.Fits n es ∧ Event.Fits n rest := by
  induction h generalizing rest n with
  | nil => exact (Iff.of_eq (true_and _)).symm
  | leaf _ _ ih =>
    show _ ∧ Event.Fits n (_ ++ rest) ↔ (_ ∧ Event.Fits n _) ∧ _
    rw [ih, and_assoc]
  | @around k l inside es cs ns _ _ ihi ih =>
    have hsplit (tail : List Event) : Event.Fits n (Event.around k l inside ++ tail) ↔
        (∃ m, n = m + 1 ∧ Event.Fits m inside) ∧ Event.Fits n tail := by
      rw [Event.around, List.cons_append, List.cons_append, List.append_assoc]
      constructor
      · rintro ⟨m, rfl, h⟩
        obtain ⟨hinside, htail⟩ := (ihi _ m).mp h
        exact ⟨⟨m, rfl, hinside⟩, htail⟩
      · rintro ⟨⟨m, rfl, hinside⟩, htail⟩
        exact ⟨m, rfl, (ihi _ m).mpr ⟨hinside, htail⟩⟩
    rw [List.append_assoc, hsplit, hsplit, ih, and_assoc]

/-- **The stream of a tree fits if the tree does.** -/
theorem Walk.fits {es : List Event} {ns : List Node} (h : Walk es ns)
    (hblocks : ∀ k l, Event.enter k l ∈ es → k.layer = .block) {n : Nat}
    (hlevels : ∀ c ∈ ns, c.levels ≤ n) : Event.Fits n es := by
  induction h generalizing n with
  | nil => trivial
  | @leaf k l inner es cs ns _ _ ih =>
    obtain ⟨hfirst, hrest⟩ := List.forall_mem_cons.mp hlevels
    refine ⟨?_, ih (fun k l hm => hblocks k l (List.mem_cons_of_mem _ hm)) hrest⟩
    intro hk
    rw [Node.levels, if_pos hk] at hfirst
    exact Nat.lt_of_lt_of_le (Nat.succ_pos _) hfirst
  | @around k l inside es cs ns hinside hes ihi ih =>
    obtain ⟨hfirst, hrest⟩ := List.forall_mem_cons.mp hlevels
    have hk : k.layer = .block := hblocks k l (List.mem_append_left _ List.mem_cons_self)
    rw [Node.levels, if_pos hk] at hfirst
    obtain ⟨m, rfl⟩ : ∃ m, n = m + 1 :=
      Nat.exists_eq_succ_of_ne_zero (Nat.ne_of_gt (Nat.lt_of_lt_of_le (Nat.succ_pos _) hfirst))
    have hin : Event.Fits m inside := by
      refine ihi (fun k l hm => hblocks k l (List.mem_append_left _ (List.mem_cons_of_mem _
        (List.mem_append_left _ hm)))) ?_
      exact Node.levelsEach_le_iff.mp (Nat.le_of_succ_le_succ hfirst)
    have haround : Event.Fits (m + 1) (Event.around k l inside) :=
      ⟨m, rfl, (hinside.fits_append _ m).mpr ⟨hin, trivial⟩⟩
    have hwalk : Walk (Event.around k l inside) [.mk k l cs] := hinside.single
    exact (hwalk.fits_append es _).mpr ⟨haround,
      ih (fun k l hm => hblocks k l (List.mem_append_right _ hm)) hrest⟩

/-! ### Readers with more or less room -/

namespace Block

variable {src : Source} {r : Region} {i past n : Nat} {content content' : Reader}

/-- What `content` reads, `content'` reads too, if there are at most `n` levels of blocks in it. -/
def Reader.AgreesBelow (src : Source) (n : Nat) (content content' : Reader) : Prop :=
  ∀ r i past c, r.Ready src past → content r i past = .ok c → Event.Fits n c.events →
    content' r i past = .ok c

theorem Quote.read_agrees (h : ∀ m < n, content.AgreesBelow src m content')
    (hr : r.Ready src past) (hi : i < past) (hstarts : starts r i = true) {o : Outcome}
    (hread : read content r i past = .ok o) (hfits : Event.Fits n o.events) :
    read content' r i past = .ok o := by
  obtain ⟨r', stop, hready, -, -, hinside⟩ := exists_inside hr hi hstarts
  obtain ⟨c, hc, rfl⟩ := (hinside content o).mp hread
  obtain ⟨m, rfl, hcontent⟩ := hfits.inside
  exact (hinside content' _).mpr ⟨c, h m (Nat.lt_succ_self m) r' i stop c hready hc hcontent, rfl⟩

namespace Items

theorem readContent_agrees (h : content.AgreesBelow src n content') (hr : r.Ready src past)
    (hi : i < past) {m : Marker} (hm : Marker.read? (r.lineText i) = some m) {c : Content}
    (hread : readContent content r m i past = .ok c) (hfits : Event.Fits n c.events) :
    readContent content' r m i past = .ok c := by
  have hwithin := within_inside hr.sound (Nat.lt_of_lt_of_le hi hr.past_le) hm
  simp only [readContent] at hread ⊢
  split
  · next hbare =>
    rw [if_pos hbare] at hread
    exact hread
  · next hbare =>
    rw [if_neg hbare] at hread
    exact h _ _ _ c ⟨hwithin.sound, hr.past_le, fun h => absurd h Bool.false_ne_true⟩ hread hfits

theorem readFrom_agrees (hcorrect : content.Correct src) (h : content.AgreesBelow src n content')
    (hr : r.Ready src past) {m : Marker} {afterEmpty : Bool} {i : Nat} (hi : i < past)
    (hm : Marker.read? (r.lineText i) = some m) {s : Series}
    (hread : readFrom content r m past afterEmpty i = .ok s)
    (hfits : Event.Fits (n + 1) s.events) : readFrom content' r m past afterEmpty i = .ok s := by
  rw [readFrom, Except.bind_eq_ok] at hread
  obtain ⟨c, hc, hread⟩ := hread
  -- the first item is read the same
  have hitem (hfits : Event.Fits (n + 1) (Event.around .listItem (some ⟨i, c.next⟩) c.events)) :
      readContent content' r m i past = .ok c := by
    obtain ⟨k, hk, hfits⟩ := hfits.inside
    cases hk
    exact readContent_agrees h hr hi hm hc hfits
  rw [readFrom, Except.bind_eq_ok]
  dsimp only at hread ⊢
  by_cases hnext : i < c.next ∧ c.next < past
  · rw [dif_pos hnext] at hread
    by_cases hends : ((decide ((r.line c.next).indent < r.indent) ||
        interrupts r .list c.next past) = true)
    · rw [if_pos hends] at hread
      cases hread
      exact ⟨c, hitem hfits, by rw [dif_pos hnext, if_pos hends]; rfl⟩
    · rw [if_neg hends] at hread
      cases hm' : Marker.read? (r.lineText c.next) with
      | none =>
        rw [hm'] at hread
        cases hread
        exact ⟨c, hitem hfits, by rw [dif_pos hnext, if_neg hends, hm']; rfl⟩
      | some m' =>
        rw [hm'] at hread
        dsimp only at hread
        by_cases hsame : m.sameList m' = true
        · rw [if_pos hsame, Except.bind_eq_ok] at hread
          obtain ⟨rest, hrest, hread⟩ := hread
          cases hread
          obtain ⟨ns, hwalk, -⟩ := (readContent_reads hcorrect hr hi hm hc).walk
          obtain ⟨hfirst, hfits⟩ := (hwalk.fits_append _ _).mp hfits
          have ih := readFrom_agrees hcorrect h hr hnext.2 hm' hrest hfits
          refine ⟨c, hitem hfirst, ?_⟩
          rw [dif_pos hnext, if_neg hends, hm']
          dsimp only
          rw [if_pos hsame, ih]
          rfl
        · rw [if_neg hsame] at hread
          cases hread
          refine ⟨c, hitem hfits, ?_⟩
          rw [dif_pos hnext, if_neg hends, hm']
          dsimp only
          rw [if_neg hsame]
          rfl
  · rw [dif_neg hnext] at hread
    cases hread
    exact ⟨c, hitem hfits, by rw [dif_neg hnext]; rfl⟩
termination_by past - i

/-- A list has an item, so there is room for one. -/
theorem exists_of_fits {m : Marker} {afterEmpty : Bool} {s : Series}
    (hread : readFrom content r m past afterEmpty i = .ok s) (hfits : Event.Fits n s.events) :
    ∃ k, n = k + 1 := by
  rw [readFrom, Except.bind_eq_ok] at hread
  obtain ⟨c, -, hread⟩ := hread
  have hitem (h : Event.Fits n (Event.around .listItem (some ⟨i, c.next⟩) c.events)) :
      ∃ k, n = k + 1 := by
    obtain ⟨k, hk, -⟩ := h.inside
    exact ⟨k, hk⟩
  dsimp only at hread
  split at hread
  · split at hread
    · cases hread
      exact hitem hfits
    · split at hread
      · cases hread
        exact hitem hfits
      · split at hread
        · obtain ⟨rest, -, hread⟩ := Except.bind_eq_ok.mp hread
          cases hread
          exact hitem hfits.left
        · cases hread
          exact hitem hfits
  · cases hread
    exact hitem hfits

theorem read_agrees (hcorrect : content.Correct src)
    (h : ∀ m, m + 1 < n → content.AgreesBelow src m content') (hr : r.Ready src past)
    (hi : i < past) {m : Marker} (hm : Marker.ofLine? r i = some m) {o : Outcome}
    (hread : read content r m i past = .ok o) (hfits : Event.Fits n o.events) :
    read content' r m i past = .ok o := by
  rw [read, Except.bind_eq_ok] at hread
  obtain ⟨s, hs, hread⟩ := hread
  cases hread
  obtain ⟨k, rfl, hitems⟩ := hfits.inside
  have hseries : Event.Fits k s.events := by
    split at hitems
    · exact (Event.fits_tighten 0).mp hitems
    · exact hitems
  obtain ⟨k, rfl⟩ := exists_of_fits hs hseries
  rw [read, readFrom_agrees hcorrect (h k (Nat.lt_succ_self _)) hr hi (marker_of_ofLine? hm) hs
    hseries]
  rfl

end Items

namespace Element

theorem children_agrees (h : content.AgreesBelow src n content') (hr : r.Ready src past)
    {name : Option String} {run : ClosingRun} {start line : Nat}
    (hc : Closed src r past name run line) {o : Outcome}
    (hread : children content r start line (if run.before.isEmpty then run.line else line + 1) run =
      .ok o) (hfits : Event.Fits n o.events) :
    children content' r start line (if run.before.isEmpty then run.line else line + 1) run =
      .ok o := by
  have hheight := hr.past_le
  have hlt := hc.run_lt
  have hlt' := hc.lt_past
  rw [children] at hread ⊢
  cases hleast : leastIndent? r start (if run.before.isEmpty then run.line else line + 1) with
  | none =>
    rw [hleast] at hread
    exact hread
  | some a =>
    rw [hleast] at hread
    obtain ⟨c, hcontent, hread⟩ := Except.bind_eq_ok.mp hread
    cases hread
    obtain ⟨ha, hq⟩ := leastIndent?_spec hr.sound (by split <;> omega) hleast
    have hready := ready_inside hr.sound hr.past_le hc ha hq
    exact Except.bind_eq_ok.mpr ⟨c, h _ _ _ c hready hcontent hfits, rfl⟩

theorem read_agrees (h : ∀ m < n, content.AgreesBelow src m content') (hr : r.Ready src past)
    {shape : Shape} {o : Outcome} (hread : read content r i past shape = .ok o)
    (hfits : Event.Fits n o.events) : read content' r i past shape = .ok o := by
  cases shape with
  | stray t => cases hread
  | run ts stop => exact hread
  | open_ t lineStop =>
    rw [read] at hread ⊢
    cases hrun : closingRun? r t.name past 0 none (r.lineReaching lineStop i + 1) with
    | none =>
      rw [hrun] at hread
      cases hread
    | some run =>
      rw [hrun] at hread
      dsimp only at hread ⊢
      rw [readClosed_eq_bind _ _ _ _ rfl rfl rfl, Except.bind_eq_ok] at hread ⊢
      obtain ⟨o, ho, hread⟩ := hread
      cases hread
      obtain ⟨k, rfl, hinside⟩ := (Event.Fits.left hfits).inside
      have hclosed := closed_of_closingRun? hr.sound hr.past_le hrun
      exact ⟨o, children_agrees (h k (Nat.lt_succ_self k)) hr hclosed ho hinside, rfl⟩

end Element

/-! ### Rows of blocks -/

variable {one two one' two' : Reader}

/-- **A block is read the same**, if the content of containers is. -/
theorem readBlock_agrees (hcorrect : two.Correct src)
    (hone : ∀ m < n, one.AgreesBelow src m one')
    (htwo : ∀ m, m + 1 < n → two.AgreesBelow src m two') (hr : r.Ready src past) (hi : i < past)
    {o : Outcome} (hread : readBlock one two r i past = .ok o) (hfits : Event.Fits n o.events) :
    readBlock one' two' r i past = .ok o := by
  cases r.opens i past with
  | leaf o' t _ _ hopens => exact (hopens one' two').trans ((hopens one two).symm.trans hread)
  | text hquiet =>
    exact (hquiet.readBlock one' two').trans ((hquiet.readBlock one two).symm.trans hread)
  | element shape _ hopens =>
    rw [hopens] at hread ⊢
    exact Element.read_agrees hone hr hread hfits
  | quote hstarts hopens =>
    rw [hopens] at hread ⊢
    exact Quote.read_agrees hone hr hi hstarts hread hfits
  | list m hstarts hopens =>
    rw [hopens] at hread ⊢
    exact Items.read_agrees hcorrect htwo hr hi hstarts hread hfits

/-- **A row of blocks is read the same**, if each block is. -/
theorem readBlocks_agrees (hone : one.Correct src) (htwo : two.Correct src)
    (hr : r.Ready src past)
    (hblock : ∀ i o, i < past → readBlock one two r i past = .ok o → Event.Fits n o.events →
      readBlock one' two' r i past = .ok o) {blank tight : Bool} {i : Nat} {c : Content}
    (hread : readBlocks (readBlock one two) r past blank tight i = .ok c)
    (hfits : Event.Fits n c.events) :
    readBlocks (readBlock one' two') r past blank tight i = .ok c := by
  rw [readBlocks] at hread ⊢
  by_cases hlt : i < past
  · rw [if_pos hlt] at hread ⊢
    dsimp only at hread ⊢
    by_cases hends : (decide (past ≤ r.skipEmpty i) ||
        decide ((r.line (r.skipEmpty i)).indent < r.indent)) = true
    · rw [if_pos hends] at hread ⊢
      exact hread
    · rw [if_neg hends, Except.bind_eq_ok] at hread
      rw [if_neg hends, Except.bind_eq_ok]
      obtain ⟨o, ho, hread⟩ := hread
      rw [Bool.or_eq_true, decide_eq_true_iff, not_or, Nat.not_le] at hends
      by_cases hnext : i < passEmpty r past o.next
      · rw [dif_pos hnext, Except.bind_eq_ok] at hread
        obtain ⟨c', hc', hread⟩ := hread
        cases hread
        have hempty := (r.skipEmpty_spec i).2 (Nat.lt_of_lt_of_le hends.1 hr.past_le)
        obtain ⟨ns, hwalk, -⟩ := (readBlock_reads hone htwo hr hends.1 hempty ho).walk
        obtain ⟨hfirst, hrest⟩ := (hwalk.fits_append _ _).mp hfits
        have ih := readBlocks_agrees hone htwo hr hblock hc' hrest
        refine ⟨o, hblock _ o hends.1 ho hfirst, ?_⟩
        rw [dif_pos hnext, ih]
        rfl
      · rw [dif_neg hnext] at hread
        cases hread
        refine ⟨o, hblock _ o hends.1 ho hfits, ?_⟩
        rw [dif_neg hnext]
        rfl
  · rw [if_neg hlt] at hread ⊢
    exact hread
termination_by past - i

/-- The content of a container is a row of blocks, of which the content is read with less room. -/
theorem read_succ_eq (room : Nat) : read (room + 1) = fun r i past =>
    readBlocks (readBlock (read room) (read (room - 1))) r past false true i := by
  cases room with
  | zero => rfl
  | succ room => rfl

/-- **Readers with more room than there are levels of blocks read the same.** -/
theorem read_agrees (src : Source) {n room room' : Nat} (h : n < room) (h' : n < room') :
    (read room).AgreesBelow src n (read room') := by
  induction room using Nat.strongRecOn generalizing n room' with
  | ind room ih =>
  obtain ⟨room, rfl⟩ := Nat.exists_eq_succ_of_ne_zero (Nat.ne_of_gt (Nat.zero_lt_of_lt h))
  obtain ⟨room', rfl⟩ := Nat.exists_eq_succ_of_ne_zero (Nat.ne_of_gt (Nat.zero_lt_of_lt h'))
  intro r i past c hr hread hfits
  rw [Nat.succ_eq_add_one, read_succ_eq] at hread ⊢
  refine readBlocks_agrees (read_correct src room) (read_correct src (room - 1)) hr
    (fun i o hi ho hfits => ?_) hread hfits
  refine readBlock_agrees (read_correct src (room - 1)) (fun m hm => ?_) (fun m hm => ?_) hr hi ho
    hfits
  · exact ih room (Nat.lt_succ_self _) (by omega) (by omega)
  · exact ih (room - 1) (by omega) (by omega) (by omega)

end Block

end MdxProse
