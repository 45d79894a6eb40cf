import MdxProse.Proofs.DocumentTree

/-!
# The line that an error reports

A syntax error of a block is raised below containers that have taken the front off lines, and below
elements that have cut off the end of one.  Still the number of a line in a region is the number of
the line of the document that it is a part of, so the line that is reported is the one on which the
tag stands.

* `FailsAs`: a result that, if it is an error, is one of a kind; `FailsAs.bind`, `FailsAs.mapM`.
* `Anchor.count_breaks`: **as many line breaks stand before an offset on a line as lines do.**
* `SyntaxError.Blames`: the error is about a tag of the source, and reports the line of that tag.
* `Element.read_blames`, `Quote.read_blames`, `Items.read_blames`: if the readers of the content
  blame tags of the source, so do those of elements, quotes and lists.
* `read_blames`: **every reader of content blames tags of the source.**
* `Inline.events_unplaced`: errors in running text report no line.
* `reported_line`: the errors of a document.
-/

namespace MdxProse

variable {src : Source}

/-! ### Errors of a kind -/

/-- If the result is an error, it is one of which `P` holds. -/
def FailsAs {α : Type} (P : SyntaxError → Prop) (x : Except SyntaxError α) : Prop :=
  ∀ e, x = .error e → P e

namespace FailsAs

variable {α β : Type} {P : SyntaxError → Prop} {x : Except SyntaxError α}
  {f : α → Except SyntaxError β}

theorem ok (a : α) : FailsAs P (.ok a) := by
  intro e h
  cases h

theorem error {e : SyntaxError} (he : P e) : FailsAs P (.error e : Except SyntaxError α) := by
  intro e' h
  cases h
  exact he

theorem bind (hx : FailsAs P x) (hf : ∀ a, FailsAs P (f a)) : FailsAs P (x >>= f) := by
  intro e h
  cases x with
  | error e' =>
    cases h
    exact hx e rfl
  | ok a => exact hf a e h

theorem mapM {f : α → Except SyntaxError β} (hf : ∀ a, FailsAs P (f a)) (as : List α) :
    FailsAs P (as.mapM f) := by
  induction as with
  | nil => exact .ok []
  | cons a as ih =>
    rw [List.mapM_cons]
    apply (hf a).bind
    intro b
    apply ih.bind
    intro bs
    exact .ok (b :: bs)

end FailsAs

/-! ### Line breaks before an offset -/

namespace Anchor

/-- **As many line breaks stand before an offset on a line as lines do.** -/
theorem count_breaks {k s p : Nat} {body : List Char} (h : (lines src)[k]? = some (s, body))
    (hs : s ≤ p) (hp : p ≤ s + body.length) : (src.window 0 p).count '\n' = k := by
  have hline : (src.window s p).count '\n' = 0 := by
    have hpre : src.window s p <+: body := by
      rw [← (lines_isLine h).hasAt.window_eq]
      exact ⟨_, Source.window_append hs hp⟩
    exact List.count_eq_zero_of_not_mem fun hmem => (lines_isLine h).noBreak (hpre.mem hmem)
  rw [← Source.window_append (Nat.zero_le s) hs, List.count_append, hline]
  cases k with
  | zero =>
    obtain ⟨body', h0⟩ := linesFrom_zero 0 src.toList
    have h0 : (lines src)[0]? = some (0, body') := h0
    rw [h] at h0
    cases h0
    rw [Source.window_eq_nil_of_le src (Nat.le_refl 0)]
    rfl
  | succ k =>
    have hlt := (List.getElem?_eq_some_iff.mp h).1
    have hprev : ∃ t u, (lines src)[k]? = some (t, u) :=
      ⟨_, _, List.getElem?_eq_getElem (Nat.lt_of_succ_lt hlt)⟩
    obtain ⟨t, u, hprev⟩ := hprev
    have hbreak := break_of_next hprev h
    obtain rfl := lines_succ hprev h
    have ih := count_breaks hprev (Nat.le_add_right t u.length) (Nat.le_refl _)
    rw [← Source.window_append (Nat.zero_le (t + u.length)) (Nat.le_succ _), List.count_append, ih,
      Source.window_cons src hbreak (Nat.lt_succ_self _),
      Source.window_eq_nil_of_le src (Nat.le_refl _)]
    rfl

end Anchor

/-! ### Blaming a tag -/

/-- **The error is about a tag of the source**: a closing tag that closes nothing or an opening tag
that nothing closes, and the line is the one on which the tag starts. -/
def SyntaxError.Blames (src : Source) (e : SyntaxError) : Prop :=
  ∃ t : Tag, Tag.scan? src t.span.start src.size = some t ∧
    e.line = some ((src.window 0 t.span.start).count '\n' + 1) ∧
    (t.form = .closing ∧ e.fault = .strayClosingTag (src.cover t.span) ∨
      t.form = .opening ∧ e.fault = .unclosedTag (src.cover t.span))

namespace Block

variable {r : Region} {i past : Nat}

/-- **In every sound region the reader blames tags of the source**, if it fails. -/
def Reader.Blames (src : Source) (content : Reader) : Prop :=
  ∀ r i past, r.Sound src → past ≤ r.height → FailsAs (SyntaxError.Blames src) (content r i past)

/-- As many line breaks stand before the text of a line as its number says. -/
theorem Region.Sound.count_breaks (hr : r.Sound src) (hi : i < r.height) :
    (src.window 0 (r.line i).start).count '\n' = i := by
  obtain ⟨s, body, hline, hin⟩ := hr.inside hi
  have hfirst : (r.line i).first ≤ (r.line i).start := Nat.le_add_right _ _
  exact Anchor.count_breaks hline (Nat.le_trans hin.first hfirst) (Nat.le_trans hin.start hin.stop)

namespace Element

theorem ofRun?_stray {ts : List Tag} {stop : Nat} {t : Tag}
    (h : Shape.ofRun? (ts, stop) = some (.stray t)) : ts = [t] ∧ t.form = .closing := by
  rw [Shape.ofRun?.eq_def] at h
  split at h
  · next t' stop' he =>
    obtain ⟨rfl, rfl⟩ := Prod.mk.inj he
    split at h
    · next hf =>
      cases h
      exact ⟨rfl, hf⟩
    · cases h
    · cases h
  · split at h <;> cases h

theorem readClosed_blames {content : Reader} (hcontent : content.Blames src) (hr : r.Sound src)
    (hpast : past ≤ r.height) {opener : Tag} {start : Nat} {run : ClosingRun}
    (hclosing : closingRun? r opener.name past 0 none start = some run) :
    FailsAs (SyntaxError.Blames src) (readClosed content r opener i start run) := by
  have hclosed := closed_of_closingRun? hr hpast hclosing
  have hlt := hclosed.run_lt
  have hlt' := hclosed.lt_past
  rw [readClosed]
  split
  · exact .ok _
  · next m hm =>
    obtain ⟨hge, hq⟩ := leastIndent?_spec hr (by split <;> omega) hm
    have hready := ready_inside hr hpast hclosed hge hq
    apply (hcontent _ start _ hready.sound hready.past_le).bind
    intro c
    exact .ok _

/-- **An element blames its own tag**, or fails for its content. -/
theorem read_blames {content : Reader} (hcontent : content.Blames src) (hr : r.Sound src)
    (hi : i < past) (hpast : past ≤ r.height) {shape : Shape}
    (hshape : shape? r i past = some shape) :
    FailsAs (SyntaxError.Blames src) (read content r i past shape) := by
  obtain ⟨ts, stop, hrun, hof⟩ := shape?_spec hshape
  have hsrc := hr.src_eq
  have hcount := hr.count_breaks (Nat.lt_of_lt_of_le hi hpast)
  subst hsrc
  obtain ⟨⟨t₀, ts₀, hts, hfirst⟩, hrow, -⟩ := Tag.run?_spec hrun
  cases shape with
  | run ts' lineStop => exact .ok _
  | stray t =>
    obtain ⟨rfl, hform⟩ := ofRun?_stray hof
    obtain ⟨rfl, -⟩ := List.cons.inj hts
    refine .error ⟨t, hrow.2.1, ?_, .inl ⟨hform, rfl⟩⟩
    rw [hfirst, hcount]
  | open_ t lineStop =>
    obtain ⟨rfl, rfl, hform⟩ := ofRun?_open hof
    obtain ⟨rfl, -⟩ := List.cons.inj hts
    rw [read]
    cases hclosing : closingRun? r t.name past 0 none (r.lineReaching stop i + 1) with
    | none =>
      refine .error ⟨t, hrow.2.1, ?_, .inr ⟨hform, rfl⟩⟩
      rw [hfirst, hcount]
    | some run => exact readClosed_blames hcontent hr hpast hclosing

end Element

namespace Quote

theorem read_blames {content : Reader} (hcontent : content.Blames src) (hr : r.Sound src)
    (hi : i < past) (hpast : past ≤ r.height) (hstarts : starts r i = true) :
    FailsAs (SyntaxError.Blames src) (read content r i past) := by
  have hheight := Nat.lt_of_lt_of_le hi hpast
  have hwithin := within_mark hr hheight hstarts
  obtain ⟨-, -, hq⟩ := mark_of_starts hr hheight hstarts
  obtain ⟨hg, -, hstop⟩ :=
    gather_spec (inner r (r.line i)).isEmpty hwithin.sound hpast hi hq
  rw [read]
  apply FailsAs.bind
  · exact hcontent _ i _ (hg.sound.narrow (Nat.le_refl _) (by decide)
      fun h => absurd h (Int.lt_irrefl 0)) hstop
  · intro c
    exact .ok _

end Quote

namespace Items

theorem readContent_blames {content : Reader} (hcontent : content.Blames src) (hr : r.Sound src)
    (hi : i < past) (hpast : past ≤ r.height) {m : Marker}
    (hm : Marker.read? (r.lineText i) = some m) :
    FailsAs (SyntaxError.Blames src) (readContent content r m i past) := by
  have hwithin := within_inside hr (Nat.lt_of_lt_of_le hi hpast) hm
  simp only [readContent]
  split
  · exact .ok _
  · exact hcontent _ i past hwithin.sound hpast

theorem readFrom_blames {content : Reader} (hcontent : content.Blames src) (hr : r.Sound src)
    (hpast : past ≤ r.height) {m : Marker} {afterEmpty : Bool} {i : Nat} (hi : i < past)
    (hm : Marker.read? (r.lineText i) = some m) :
    FailsAs (SyntaxError.Blames src) (readFrom content r m past afterEmpty i) := by
  rw [readFrom]
  apply (readContent_blames hcontent hr hi hpast hm).bind
  intro c
  dsimp only
  split
  · next hlt =>
    split
    · exact .ok _
    · split
      · exact .ok _
      · next m' hm' =>
        split
        · apply (readFrom_blames hcontent hr hpast hlt.2 hm').bind
          intro rest
          exact .ok _
        · exact .ok _
  · exact .ok _
termination_by past - i

theorem read_blames {content : Reader} (hcontent : content.Blames src) (hr : r.Sound src)
    (hi : i < past) (hpast : past ≤ r.height) {m : Marker} (hm : Marker.ofLine? r i = some m) :
    FailsAs (SyntaxError.Blames src) (read content r m i past) := by
  rw [read]
  apply (readFrom_blames hcontent hr hpast hi (marker_of_ofLine? hm)).bind
  intro items
  exact .ok _

end Items

/-! ### Rows of blocks -/

theorem readBlock_blames {one two : Reader} (hone : one.Blames src) (htwo : two.Blames src)
    (hr : r.Sound src) (hi : i < past) (hpast : past ≤ r.height) :
    FailsAs (SyntaxError.Blames src) (readBlock one two r i past) := by
  rw [readBlock]
  split
  · exact .ok _
  · split
    · next shape hshape => exact Element.read_blames hone hr hi hpast hshape
    · split
      · exact .ok _
      · split
        · next hstarts => exact Quote.read_blames hone hr hi hpast hstarts
        · split
          · exact .ok _
          · split
            · next m hm => exact Items.read_blames htwo hr hi hpast hm
            · exact .ok _

theorem readBlocks_blames {one two : Reader} (hone : one.Blames src) (htwo : two.Blames src)
    (hr : r.Sound src) (hpast : past ≤ r.height) {blank tight : Bool} {i : Nat} :
    FailsAs (SyntaxError.Blames src) (readBlocks (readBlock one two) r past blank tight i) := by
  rw [readBlocks]
  split
  · dsimp only
    split
    · exact .ok _
    · next hstart =>
      rw [Bool.or_eq_true, decide_eq_true_iff, not_or] at hstart
      apply (readBlock_blames hone htwo hr (Nat.lt_of_not_le hstart.1) hpast).bind
      intro o
      split
      · next hnext =>
        apply (readBlocks_blames hone htwo hr hpast).bind
        intro c
        exact .ok _
      · exact .ok _
  · exact .ok _
termination_by past - i

/-- **Every reader of content blames tags of the source.** -/
theorem read_blames (src : Source) : ∀ room, (read room).Blames src
  | 0 => by
    intro r i past hr hpast
    exact .ok _
  | 1 => by
    intro r i past hr hpast
    exact readBlocks_blames (read_blames src 0) (read_blames src 0) hr hpast
  | n + 2 => by
    intro r i past hr hpast
    exact readBlocks_blames (read_blames src (n + 1)) (read_blames src n) hr hpast

theorem readSource_blames (src : Source) : FailsAs (SyntaxError.Blames src) (readSource src) := by
  rw [readSource]
  apply (read_blames src maxDepth _ 0 _ (Region.sound_ofSource src) (Nat.le_refl _)).bind
  intro c
  exact .ok _

end Block

/-! ### Running text -/

/-- The error reports no line. -/
def SyntaxError.Unplaced (e : SyntaxError) : Prop :=
  e.line = none

namespace Inline

open SyntaxError (Unplaced)

variable {s : Setting} {inner : Reader} {label : Source → Except SyntaxError (List Event)}

theorem constructEvents_unplaced
    (hinner : ∀ limit pos memo, FailsAs Unplaced (inner limit pos memo))
    (hlabel : ∀ content, FailsAs Unplaced (label content)) (pos stop : Nat) (memo : Memo)
    (c : Construct) : FailsAs Unplaced (constructEvents src inner label pos stop memo c) := by
  cases c with
  | link l href title =>
    apply (hinner l.stop l.start memo).bind
    intro found
    exact .ok _
  | image l target title =>
    apply (hlabel (src.extract l.start l.stop)).bind
    intro es
    exact .ok _
  | pair opener closer =>
    apply (hinner closer.span.start opener.span.stop memo).bind
    intro found
    exact .ok _
  | fault f => exact .error rfl
  | _ => exact .ok _

theorem readFrom_unplaced {search : LabelSearch}
    (hinner : ∀ limit pos memo, FailsAs Unplaced (inner limit pos memo))
    (hlabel : ∀ content, FailsAs Unplaced (label content)) (limit pos : Nat) (p : Progress) :
    FailsAs Unplaced (readFrom s search inner label limit pos p) := by
  rw [readFrom]
  split
  · dsimp only
    split
    · exact readFrom_unplaced hinner hlabel limit _ _
    · next f hf =>
      split
      · exact readFrom_unplaced hinner hlabel limit _ _
      · exact readFrom_unplaced hinner hlabel limit _ _
      · exact readFrom_unplaced hinner hlabel limit _ _
      · apply (constructEvents_unplaced hinner hlabel pos f.stop _ _).bind
        intro found
        exact readFrom_unplaced hinner hlabel limit _ _
  · exact .ok _
termination_by limit - pos

theorem read_unplaced (hlabel : ∀ content, FailsAs Unplaced (label content)) (n : Nat)
    (limit pos : Nat) (memo : Memo) : FailsAs Unplaced (read s label n limit pos memo) := by
  induction n generalizing limit pos memo with
  | zero => exact .ok _
  | succ n ih =>
    apply (readFrom_unplaced ih hlabel limit pos (Progress.start memo)).bind
    intro p
    exact .ok _

/-- **Errors in running text report no line.** -/
theorem events_unplaced (definitions : List Block.Definition) (src : Source) :
    FailsAs Unplaced (events definitions src) := by
  rw [events]
  apply FailsAs.bind
  · apply read_unplaced
    intro content
    split
    · exact events_unplaced definitions content
    · exact .ok _
  · intro found
    exact .ok _
termination_by src.size

end Inline

/-! ### Documents -/

theorem Document.fill_unplaced (lines : List (Nat × List Char))
    (definitions : List Block.Definition) (e : Event) :
    FailsAs SyntaxError.Unplaced (fill lines definitions e) := by
  rw [fill.eq_def]
  split
  · apply (Inline.events_unplaced definitions _).bind
    intro es
    exact .ok _
  · exact .ok _

/-- **An error of a document blames a tag of it, or reports no line.** -/
theorem Document.read_blames (d : Document) :
    FailsAs (fun e => e.Blames d.source ∨ e.Unplaced) d.read := by
  have hevents : FailsAs (fun e => e.Blames d.source ∨ e.Unplaced) d.events := by
    rw [events]
    apply FailsAs.bind
    · intro e he
      exact .inl (Block.readSource_blames d.source e he)
    · intro o
      apply FailsAs.mapM
      intro event e he
      exact .inr (fill_unplaced _ _ event e he)
  rw [read]
  apply hevents.bind
  intro es
  exact .ok _

theorem SyntaxError.message_of_line {e : SyntaxError} {line : Nat} (h : e.line = some line) :
    e.message = e.fault.message ++ " (line " ++ toString line ++ ")" := by
  obtain ⟨fault, _⟩ := e
  cases h
  rfl

/-- **The line that an error reports is right.**  If the error of a text reports a line, the tag
that its message quotes is found at an offset before which there is one line break less.  It is a
closing tag if it was not expected, and an opening tag if its closing tag was. -/
theorem reported_line (text : String) (e : SyntaxError) (line : Nat)
    (h : (Document.ofString text).read = .error e) (hline : e.line = some line) :
    ∃ p t, ((Document.ofString text).source.window 0 p).count '\n' + 1 = line ∧
      Tag.scan? (Document.ofString text).source p (Document.ofString text).source.size = some t ∧
      (t.form = .closing ∧ e.message = "Unexpected closing tag \x60" ++
          (Document.ofString text).source.slice p t.span.stop ++ "\x60" ++
            " (line " ++ toString line ++ ")" ∨
        t.form = .opening ∧ e.message = "Expected a closing tag for \x60" ++
          (Document.ofString text).source.slice p t.span.stop ++ "\x60" ++
            " (line " ++ toString line ++ ")") := by
  rcases Document.read_blames _ e h with ⟨t, hscan, hcount, hfault⟩ | hnone
  · rw [hline, Option.some.injEq] at hcount
    refine ⟨t.span.start, t, hcount.symm, hscan, ?_⟩
    rw [SyntaxError.message_of_line hline]
    rcases hfault with ⟨hform, hfault⟩ | ⟨hform, hfault⟩
    · left
      rw [hfault]
      exact ⟨hform, rfl⟩
    · right
      rw [hfault]
      exact ⟨hform, rfl⟩
  · rw [SyntaxError.Unplaced, hline] at hnone
    cases hnone

/-- In a list in a quote in an element, a closing tag is not expected whose line is cut off at the
next one. -/
theorem reported_line_nested : ∃ text e,
    text = "<N>\r\n\r\n> - <D>\r\n>\r\n>   </C></D>\r\n\r\n</N>" ∧
    (Document.ofString text).read = .error e ∧ e.line = some 5 ∧
    e.message = "Unexpected closing tag \x60</C>\x60 (line 5)" ∧
    ∃ p t, ((Document.ofString text).source.window 0 p).count '\n' + 1 = 5 ∧
      Tag.scan? (Document.ofString text).source p (Document.ofString text).source.size =
        some t := by
  let text := "<N>\r\n\r\n> - <D>\r\n>\r\n>   </C></D>\r\n\r\n</N>"
  have herror : (Document.ofString text).read = .error ⟨.strayClosingTag "</C>", some 5⟩ :=
    Document.read_of_error? (by decide +kernel)
  obtain ⟨p, t, hcount, hscan, -⟩ := reported_line text _ 5 herror rfl
  exact ⟨text, _, rfl, herror, rfl, by decide +kernel, p, t, hcount, hscan⟩

end MdxProse
