import MdxProse.Proofs.Matching
import MdxProse.Proofs.PlainTags
import MdxProse.Proofs.DocumentTree

/-!
# Elements in plain running text

Plain running text is made of characters that mean themselves, line breaks, and tags without
attributes.  It is read from left to right.  At an opening tag the reader looks ahead for the
partner by name, reads what is between the two with one level less, and goes on after it; it has no
stack.

* `Node.Outlined`: what nodes enclose is what outlines say.  `Inline.Traces`: the same of a stream
  of events, and `Inline.Progress.Tracing` of what has been read so far.
* `Piece.Occupy`: the pieces stand at a place and end where the limit is.
* `Piece.closer?_eq`: the closing tag that is looked for is the partner by name.
* `Piece.Answers`: the reader, wherever it starts, does with the pieces what the stack does with
  their tags.  One lemma a first piece (`Answers.char`, `Answers.lineBreak`, `Answers.tag`) gives
  `Piece.answers`: **all pieces are read so.**
* `Piece.answered_events`: **a text is read as the stack matches its tags.**
-/

namespace MdxProse

/-! ### Trees and outlines -/

/-- **What the nodes enclose is what the outlines say.**  An element of the outlines is a node of
kind `element` that holds what is inside it, and `plain` says what every other node shows. -/
inductive Node.Outlined (element : Option String → Span → Kind)
    (plain : Node → List Outline → Prop) : List Node → List Outline → Prop
  | nil : Outlined element plain [] []
  | plain {n : Node} {ns : List Node} {os os' : List Outline} : plain n os' →
      Outlined element plain ns os → Outlined element plain (n :: ns) (os' ++ os)
  | element {name : Option String} {span : Span} {l : Option LineRange} {cs ns : List Node}
      {os os' : List Outline} : Outlined element plain cs os' → Outlined element plain ns os →
      Outlined element plain (.mk (element name span) l cs :: ns) (.element name span os' :: os)

/-- Text and line breaks, which enclose nothing. -/
def Kind.isPlainText : Kind → Bool
  | .text _ | .softBreak | .hardBreak => true
  | _ => false

/-- The node is text or a line break and shows nothing. -/
def Node.IsText (n : Node) (os : List Outline) : Prop :=
  n.kind.isPlainText = true ∧ n.children = [] ∧ os = []

namespace Inline

/-- The stream tells of text, line breaks and elements, which enclose what the outlines say. -/
inductive Traces : List Event → List Outline → Prop
  | nil : Traces [] []
  | atom {k : Kind} {es : List Event} {os : List Outline} : k.isPlainText = true → Traces es os →
      Traces (.atom k :: es) os
  | element {name : Option String} {span : Span} {inside es : List Event}
      {os os' : List Outline} : Traces inside os' → Traces es os →
      Traces (Event.around (.textElement name span) none inside ++ es)
        (.element name span os' :: os)

namespace Traces

variable {es es' : List Event} {os os' : List Outline}

theorem append (h : Traces es os) (h' : Traces es' os') : Traces (es ++ es') (os ++ os') := by
  induction h with
  | nil => exact h'
  | atom hk _ ih => exact .atom hk ih
  | element hi _ _ ih =>
    rw [List.append_assoc]
    exact .element hi ih

/-- **A stream that traces an outline walks through nodes that enclose what it says.** -/
theorem exists_walk (h : Traces es os) :
    ∃ ns, Walk es ns ∧ Node.Outlined .textElement Node.IsText ns os := by
  induction h with
  | nil => exact ⟨[], .nil, .nil⟩
  | @atom k _ _ hk _ ih =>
    obtain ⟨ns, hw, ho⟩ := ih
    have htext : Node.IsText (.mk k none []) [] := ⟨hk, rfl, rfl⟩
    exact ⟨_, (Walk.atom k none).append hw, .plain htext ho⟩
  | element _ _ ihi ih =>
    obtain ⟨cs, hwi, hoi⟩ := ihi
    obtain ⟨ns, hw, ho⟩ := ih
    exact ⟨_, .around hwi hw, .element hoi ho⟩

/-! ### Joining texts -/

theorem map_plainEscape (h : Traces es os) : es.map plainEscape = es := by
  induction h with
  | nil => rfl
  | @atom k _ _ hk _ ih =>
    rw [List.map_cons, ih]
    cases k <;> first | rfl | cases hk
  | element _ _ ihi ih => simp [Event.around, plainEscape, Event.leaving, ihi, ih]

theorem joinTexts_leave (es es' : List Event) (t : NodeType) (name : Option String) :
    joinTexts (es ++ .leave t name :: es') = joinTexts es ++ .leave t name :: joinTexts es' := by
  fun_induction joinTexts es with
  | case1 => rfl
  | case2 a l i es b l' i' rest hrest ih =>
    rw [List.cons_append, joinTexts, ih, hrest]
    rfl
  | case3 a l i es hno ih =>
    rw [List.cons_append, joinTexts, ih]
    split
    · next b l' i' rest heq =>
      cases hj : joinTexts es with
      | nil =>
        rw [hj] at heq
        cases heq
      | cons e es'' =>
        rw [hj] at heq
        exact absurd (hj.trans (by rw [(List.cons.inj heq).1])) (hno b l' i' es'')
    · rfl
  | case4 e es hno ih =>
    rw [List.cons_append, joinTexts, ih]
    · rfl
    · exact hno

theorem joinTexts_around (k : Kind) (l : Option LineRange) (inside es : List Event) :
    joinTexts (Event.around k l inside ++ es) =
      Event.around k l (joinTexts inside) ++ joinTexts es := by
  have hsplit (inside es : List Event) : Event.around k l inside ++ es =
      .enter k l :: (inside ++ .leave k.type k.elementName? :: es) := by
    simp [Event.around, Event.leaving]
  rw [hsplit, hsplit, joinTexts, joinTexts_leave]
  intro a l i h
  cases h

theorem tail {k : Kind} {l : Option LineRange} {i : List Event}
    (h : Traces (.leaf k l i :: es) os) : Traces es os := by
  generalize hes : Event.leaf k l i :: es = es' at h
  cases h with
  | nil => cases hes
  | atom _ h =>
    cases hes
    exact h
  | element => cases hes

theorem joinTexts (h : Traces es os) : Traces (joinTexts es) os := by
  induction h with
  | nil => exact .nil
  | @atom k es os hk h ih =>
    by_cases htext : ∃ a, k = .text a
    · obtain ⟨a, rfl⟩ := htext
      rw [Event.atom, Inline.joinTexts]
      split
      · next b l i rest heq =>
        rw [heq] at ih
        exact .atom rfl ih.tail
      · exact .atom rfl ih
    · rw [Event.atom, Inline.joinTexts]
      · exact .atom hk ih
      · rintro a l i ⟨⟩
        exact htext ⟨a, rfl⟩
  | element _ _ ihi ih =>
    rw [joinTexts_around]
    exact .element ihi ih

theorem joinEscapes (h : Traces es os) : Traces (joinEscapes es) os := by
  rw [Inline.joinEscapes, h.map_plainEscape]
  exact h.joinTexts

end Traces

/-! ### The text so far -/

/-- What has been read so far tells of elements that enclose what the outlines say, and has no marks
of emphasis in it. -/
structure Progress.Tracing (p : Progress) (os : List Outline) : Prop where
  delimiters : p.delimiters = []
  traces : Traces p.events.toList os

namespace Progress.Tracing

variable {p : Progress} {os os' : List Outline} {es : List Event}

theorem start (memo : Memo) : (Progress.start memo).Tracing [] :=
  ⟨rfl, .nil⟩

theorem of_eq {q : Progress} (h : p.Tracing os) (he : q.events = p.events)
    (hd : q.delimiters = p.delimiters) : q.Tracing os :=
  ⟨hd.trans h.delimiters, by rw [he]; exact h.traces⟩

theorem flush (h : p.Tracing os) : p.flush.Tracing os := by
  rw [Progress.flush]
  split
  · exact h
  · refine ⟨h.delimiters, ?_⟩
    rw [Array.toList_push]
    have := h.traces.append (.atom (k := .text (String.ofList p.pending.reverse)) rfl .nil)
    rwa [List.append_nil] at this

theorem add (h : p.Tracing os) (hes : Traces es os') : (p.add es).Tracing (os ++ os') := by
  refine ⟨h.flush.delimiters, ?_⟩
  rw [Progress.add, Array.toList_appendList]
  exact h.flush.traces.append hes

theorem addBreak (h : p.Tracing os) : p.addBreak.Tracing os := by
  have hadd {q : Progress} {k : Kind} (hq : q.Tracing os) (hk : k.isPlainText = true) :
      (q.add [.atom k]).Tracing os := by
    have := hq.add (.atom hk .nil)
    rwa [List.append_nil] at this
  rw [Progress.addBreak]
  split
  · exact hadd (h.of_eq rfl rfl) rfl
  · exact hadd (h.of_eq rfl rfl) rfl
  · exact hadd h rfl

theorem addElement (h : p.Tracing os) (hes : Traces es os') (name : Option String) (span : Span)
    (memo : Memo) :
    { p.add (Event.around (.textElement name span) none es) with memo }.Tracing
      (os ++ [Outline.element name span os']) := by
  have hes : Traces (Event.around (.textElement name span) none es ++ []) _ := .element hes .nil
  rw [List.append_nil] at hes
  exact (h.add hes).of_eq rfl rfl

theorem finish (h : p.Tracing os) : Traces p.finish.1 os := by
  have hresolve (es : Array Event) : Delimiter.resolve [] es = es := by
    simp [Delimiter.resolve, Delimiter.pairs, Delimiter.roles]
  rw [Progress.finish, h.flush.delimiters, hresolve]
  exact h.flush.traces

end Progress.Tracing

end Inline

/-- A piece of plain running text: a character that means itself, a line break, or a tag without
attributes. -/
inductive Piece
  | char (c : Char) (h : c.isAlpha = true ∨ c = ' ' ∨ c = '\n')
  | tag (s : Sign)

namespace Piece

/-- How the piece is written. -/
def spell : Piece → List Char
  | char c _ => [c]
  | tag s => s.spell

theorem length_spell_pos (p : Piece) : 0 < p.spell.length := by
  cases p with
  | char c h => exact Nat.zero_lt_one
  | tag s => exact s.length_spell_pos

/-- How the pieces are written, one after the other. -/
def spellAll (ps : List Piece) : List Char :=
  ps.flatMap spell

/-- The tags of the pieces, which start at `pos`. -/
def items (pos : Nat) : List Piece → List Item
  | [] => []
  | .char _ _ :: ps => items (pos + 1) ps
  | .tag s :: ps => .tag (s.tagAt pos) :: items (pos + s.spell.length) ps

variable {ps ps' : List Piece} {pos limit : Nat} {src : Source}

theorem spellAll_cons (p : Piece) (ps : List Piece) : spellAll (p :: ps) = p.spell ++ spellAll ps :=
  rfl

theorem spellAll_append (ps ps' : List Piece) :
    spellAll (ps ++ ps') = spellAll ps ++ spellAll ps' :=
  List.flatMap_append

theorem items_append (pos : Nat) (ps ps' : List Piece) :
    items pos (ps ++ ps') = items pos ps ++ items (pos + (spellAll ps).length) ps' := by
  induction ps generalizing pos with
  | nil => rfl
  | cons p ps ih =>
    rw [spellAll_cons, List.length_append, ← Nat.add_assoc]
    cases p with
    | char c h => exact ih (pos + 1)
    | tag s => exact congrArg _ (ih (pos + s.spell.length))

theorem split_of_items {a b : List Item} {c : Tag} (h : items pos ps = a ++ .tag c :: b) :
    ∃ ps₁ s ps₂, ps = ps₁ ++ .tag s :: ps₂ ∧ a = items pos ps₁ ∧
      c = s.tagAt (pos + (spellAll ps₁).length) ∧ b = items c.span.stop ps₂ := by
  induction ps generalizing pos a with
  | nil => exact absurd h (by simp [items])
  | cons p ps ih =>
    cases p with
    | char ch hch =>
      obtain ⟨ps₁, s, ps₂, rfl, rfl, rfl, rfl⟩ := ih h
      refine ⟨.char ch hch :: ps₁, s, ps₂, rfl, rfl, ?_, rfl⟩
      rw [spellAll_cons, List.length_append, ← Nat.add_assoc]
      rfl
    | tag s =>
      cases a with
      | nil =>
        obtain ⟨hc, rfl⟩ := List.cons.inj h
        cases hc
        exact ⟨[], s, ps, rfl, rfl, rfl, rfl⟩
      | cons i a =>
        obtain ⟨rfl, hrest⟩ := List.cons.inj h
        obtain ⟨ps₁, s', ps₂, rfl, rfl, rfl, rfl⟩ := ih hrest
        refine ⟨.tag s :: ps₁, s', ps₂, rfl, rfl, ?_, rfl⟩
        rw [spellAll_cons, List.length_append, ← Nat.add_assoc]
        rfl

theorem isPlain_of_mem {c : Char} (h : c ∈ spellAll ps) : Text.isPlain c = true := by
  obtain ⟨p, -, hc⟩ := List.mem_flatMap.mp h
  cases p with
  | char d hd =>
    obtain rfl := List.mem_singleton.mp hc
    rcases hd with hd | rfl | rfl
    · rw [Text.isPlain, hd, Bool.true_or]
    · decide
    · decide
  | tag s => exact Sign.isPlain_of_mem hc

theorem exists_of_chars {w : List Char}
    (h : ∀ c ∈ w, c.isAlpha = true ∨ c = ' ' ∨ c = '\n') :
    ∃ ps, w = spellAll ps ∧ ∀ k, items k ps = [] := by
  induction w with
  | nil => exact ⟨[], rfl, fun _ => rfl⟩
  | cons c w ih =>
    obtain ⟨hc, hw⟩ := List.forall_mem_cons.mp h
    obtain ⟨ps, rfl, hps⟩ := ih hw
    exact ⟨.char c hc :: ps, rfl, fun k => hps (k + 1)⟩

theorem isSpecial_eq_false {c : Char} (h : c.isAlpha = true ∨ c = ' ') :
    Inline.isSpecial c = false := by
  rcases h with h | rfl
  · have := @Text.of_isAlpha (!Inline.isSpecial ·) (by decide +kernel) c h
    simpa using this
  · decide

/-- The pieces stand at `pos` and end where the limit is. -/
structure Occupy (src : Source) (pos limit : Nat) (ps : List Piece) : Prop where
  hasAt : src.HasAt pos (spellAll ps)
  limit_eq : pos + (spellAll ps).length = limit

namespace Occupy

variable {p : Piece} {s : Sign}

theorem split (h : Occupy src pos limit (ps ++ ps')) :
    src.HasAt pos (spellAll ps) ∧ Occupy src (pos + (spellAll ps).length) limit ps' := by
  obtain ⟨hat, hlimit⟩ := h
  rw [spellAll_append] at hat hlimit
  rw [List.length_append, ← Nat.add_assoc] at hlimit
  obtain ⟨hat, hat'⟩ := Source.hasAt_append.mp hat
  exact ⟨hat, hat', hlimit⟩

theorem head (h : Occupy src pos limit (p :: ps)) : src.HasAt pos p.spell :=
  (Source.hasAt_append.mp h.hasAt).1

theorem tail (h : Occupy src pos limit (p :: ps)) :
    Occupy src (pos + p.spell.length) limit ps := by
  refine ⟨(Source.hasAt_append.mp h.hasAt).2, ?_⟩
  rw [Nat.add_assoc, ← List.length_append]
  exact h.limit_eq

theorem lt (h : Occupy src pos limit (p :: ps)) : pos < limit := by
  have hpos := p.length_spell_pos
  have hle := h.tail.limit_eq
  omega

theorem scan?_eq (h : Occupy src pos limit (.tag s :: ps)) :
    Tag.scan? src pos limit = some (s.tagAt pos) :=
  s.scan?_eq h.head (Nat.le.intro h.tail.limit_eq)

end Occupy

/-! ### The closing tag -/

theorem closer?_char {c : Char} (hat : src[pos]? = some c) (hc : c ≠ '\\') (hgrave : c ≠ '\x60')
    (hbrace : c ≠ '\x7b') (htag : c ≠ '<') (name : Option String) (inner : Nat)
    (hlt : pos < limit) :
    Tag.closer? src name inner pos limit = Tag.closer? src name inner (pos + 1) limit := by
  have hno {d : Char} (hd : c ≠ d) : src.has d pos = false := by
    simp [Source.has, Source.test, hat, hd]
  rw [Tag.closer?, dif_pos hlt, hno hc, hno hgrave, hno hbrace]
  simp only [Bool.false_eq_true, if_false, dif_neg, not_false_eq_true]
  split
  · rfl
  · next t ht =>
    rw [Tag.has_lt_of_scan? ht] at hat
    exact absurd (Option.some.inj hat).symm htag

theorem closer?_tag {t : Tag} (ht : Tag.scan? src pos limit = some t) (name : Option String)
    (inner : Nat) : Tag.closer? src name inner pos limit =
      if t.name = name then
        match t.form, inner with
        | .opening, _ => Tag.closer? src name (inner + 1) t.span.stop limit
        | .selfClosing, _ => Tag.closer? src name inner t.span.stop limit
        | .closing, 0 => some t
        | .closing, i + 1 => Tag.closer? src name i t.span.stop limit
      else Tag.closer? src name inner t.span.stop limit := by
  have hlt := Tag.stop_of_scan? ht
  have hno {d : Char} (hd : '<' ≠ d) : src.has d pos = false := by
    simp [Source.has, Source.test, Tag.has_lt_of_scan? ht, hd]
  rw [Tag.closer?, dif_pos (by omega), hno (by decide), hno (by decide), hno (by decide)]
  simp only [Bool.false_eq_true, if_false, dif_neg, not_false_eq_true]
  split
  · next hnone =>
    rw [ht] at hnone
    cases hnone
  · next u hu =>
    rw [ht] at hu
    cases hu
    rfl

/-- **The closing tag that is looked for is the partner by name.** -/
theorem closer?_eq (h : Occupy src pos limit ps) (name : Option String) (inner : Nat) :
    Tag.closer? src name inner pos limit =
      (Item.partner? name inner (items pos ps)).map fun found => found.2.1 := by
  induction ps generalizing pos inner with
  | nil =>
    have hlimit : pos = limit := h.limit_eq
    rw [Tag.closer?, dif_neg (by omega)]
    rfl
  | cons p ps ih =>
    cases p with
    | char c hc =>
      have hne {d : Char} (hd : ¬(d.isAlpha = true ∨ d = ' ' ∨ d = '\n')) : c ≠ d := by
        rintro rfl
        exact hd hc
      rw [closer?_char (Source.hasAt_singleton.mp h.head) (hne (by decide)) (hne (by decide))
        (hne (by decide)) (hne (by decide)) name inner h.lt]
      exact ih h.tail inner
    | tag s =>
      have ih (inner : Nat) : Tag.closer? src name inner (s.tagAt pos).span.stop limit =
          (Item.partner? name inner (items (pos + s.spell.length) ps)).map (·.2.1) :=
        ih h.tail inner
      rw [closer?_tag h.scan?_eq, items]
      by_cases hname : (s.tagAt pos).name = name
      · cases hf : (s.tagAt pos).form with
        | opening => simp [Item.partner?, hname, hf, ih, Function.comp_def]
        | selfClosing => simp [Item.partner?, hname, hf, ih, Function.comp_def]
        | closing => cases inner <;> simp [Item.partner?, hname, hf, ih, Function.comp_def]
      · simp [Item.partner?, hname, ih, Function.comp_def]

/-! ### Runs of characters -/

theorem skip_spec {f : Char → Bool} (hf : f '<' = false) (h : Occupy src pos limit ps) :
    ∃ run rest, ps = run ++ rest ∧ (∀ k, items k run = []) ∧
      src.skipWhile f pos limit = pos + (spellAll run).length := by
  induction ps generalizing pos with
  | nil =>
    refine ⟨[], [], rfl, fun _ => rfl, ?_⟩
    have hlimit : pos = limit := h.limit_eq
    have hle : src.skipWhile f pos limit ≤ limit := src.skipWhile_le (Nat.le_of_eq hlimit)
    have hge := src.le_skipWhile f pos limit
    show src.skipWhile f pos limit = pos
    omega
  | cons p ps ih =>
    have hstop (h : src.test f pos = false) : ∃ run rest, p :: ps = run ++ rest ∧
        (∀ k, items k run = []) ∧ src.skipWhile f pos limit = pos + (spellAll run).length :=
      ⟨[], p :: ps, rfl, fun _ => rfl, Source.skipWhile_of_not_test h limit⟩
    cases p with
    | char c hc =>
      have htest : src.test f pos = f c := by
        simp [Source.test, Source.hasAt_singleton.mp h.head]
      cases hfc : f c with
      | false => exact hstop (htest.trans hfc)
      | true =>
        obtain ⟨run, rest, rfl, hrun, hskip⟩ := ih h.tail
        refine ⟨.char c hc :: run, rest, rfl, fun k => hrun (k + 1), ?_⟩
        rw [Source.skipWhile_of_test (htest.trans hfc) h.lt, spellAll_cons, List.length_append,
          ← Nat.add_assoc]
        exact hskip
    | tag s =>
      have hlt : src[pos]? = some '<' := Tag.has_lt_of_scan? h.scan?_eq
      exact hstop (by simp [Source.test, hlt, hf])

end Piece

/-! ### Recognition -/

namespace Inline

variable {s : Setting} {search : LabelSearch} {limit pos : Nat}

theorem recognize_char {c : Char} (hat : s.src[pos]? = some c) (hc : isSpecial c = false)
    (memo : Memo) : recognize s search limit pos memo = (plain? s.src pos limit, memo) := by
  rw [recognize, hat]
  dsimp only
  split
  all_goals first
    | rfl
    | exact absurd hc (by decide)

theorem recognize_break (hat : s.src[pos]? = some '\n') (memo : Memo) :
    recognize s search limit pos memo =
      (some ⟨.lineBreak, s.src.skipWhile Text.isSpace (pos + 1) limit⟩, memo) := by
  rw [recognize, hat]
  rfl

section Tag

variable {inner : Reader} {label : Source → Except SyntaxError (List Event)} {t closer : Tag}
  (ht : Tag.scan? s.src pos limit = some t)

include ht

theorem readFrom_single (hf : t.form = .selfClosing) (p : Progress) :
    readFrom s search inner label limit pos p = readFrom s search inner label limit t.span.stop
      { p.add (Event.around (.textElement t.name t.span) none []) with memo := p.memo } := by
  obtain ⟨hlt, hle⟩ := Tag.stop_of_scan? ht
  rw [readFrom, if_pos (by omega), recognize, Tag.has_lt_of_scan? ht]
  simp only [tag?, ht, Option.map_some, hf]
  show readFrom s search inner label limit (max t.span.stop (pos + 1)) _ = _
  rw [Nat.max_eq_left hlt]

theorem readFrom_stray (hf : t.form = .closing) (p : Progress) :
    ∃ e, readFrom s search inner label limit pos p = .error e := by
  obtain ⟨hlt, hle⟩ := Tag.stop_of_scan? ht
  rw [readFrom, if_pos (by omega), recognize, Tag.has_lt_of_scan? ht]
  simp only [tag?, ht, Option.map_some, hf]
  exact ⟨_, rfl⟩

theorem readFrom_unclosed (hf : t.form = .opening) (hp : Tag.partner? s.src t limit = none)
    (p : Progress) : ∃ e, readFrom s search inner label limit pos p = .error e := by
  obtain ⟨hlt, hle⟩ := Tag.stop_of_scan? ht
  rw [readFrom, if_pos (by omega), recognize, Tag.has_lt_of_scan? ht]
  simp only [tag?, ht, Option.map_some, hf, hp]
  exact ⟨_, rfl⟩

theorem readFrom_pair (hf : t.form = .opening) (hp : Tag.partner? s.src t limit = some closer)
    (hlt : pos < closer.span.stop) (p : Progress) : readFrom s search inner label limit pos p =
      (inner closer.span.start t.span.stop p.memo).bind fun r =>
        readFrom s search inner label limit closer.span.stop
          { p.add (Event.around (.textElement t.name ⟨t.span.start, closer.span.stop⟩) none r.1)
            with memo := r.2 } := by
  obtain ⟨_, hle⟩ := Tag.stop_of_scan? ht
  rw [readFrom, if_pos (by omega), recognize, Tag.has_lt_of_scan? ht]
  simp only [tag?, ht, Option.map_some, hf, hp]
  cases hx : inner closer.span.start t.span.stop p.memo with
  | error e =>
    simp only [constructEvents, hx]
    rfl
  | ok r =>
    simp only [constructEvents, hx]
    show readFrom s search inner label limit (max closer.span.stop (pos + 1)) _ = _
    rw [Nat.max_eq_left hlt]
    rfl

end Tag

end Inline

namespace Piece

open Inline

variable {ps : List Piece} {s : Setting} {label : Source → Except SyntaxError (List Event)}

theorem plain?_spec {src : Source} {c : Char} {hc : c.isAlpha = true ∨ c = ' ' ∨ c = '\n'}
    {pos limit : Nat} (hspecial : isSpecial c = false)
    (h : Occupy src pos limit (.char c hc :: ps))
    (hend : src.test (!isSpecial ·) limit = false) :
    ∃ run rest, .char c hc :: ps = run ++ rest ∧ run ≠ [] ∧ (∀ k, items k run = []) ∧
      plain? src pos limit = some ⟨.plain, pos + (spellAll run).length⟩ := by
  obtain ⟨run, rest, hsplit, hrun, hskip⟩ := skip_spec (f := (!isSpecial ·)) rfl h
  have hsize : limit ≤ src.size := by
    rw [← h.limit_eq]
    exact h.hasAt.le_size (List.cons_ne_nil _ _)
  have hlt := h.lt
  have htest : src.test (!isSpecial ·) pos = true := by
    simp [Source.test, Source.hasAt_singleton.mp h.head, hspecial]
  have hpast : pos < pos + (spellAll run).length := by
    rw [← hskip, Source.skipWhile_of_test htest hlt]
    exact src.le_skipWhile _ _ _
  have hle : src.skipWhile (!isSpecial ·) pos limit ≤ limit :=
    src.skipWhile_le (Nat.le_of_lt hlt)
  rw [hskip] at hle
  refine ⟨run, rest, hsplit, ?_, hrun, ?_⟩
  · rintro rfl
    exact absurd hpast (Nat.lt_irrefl pos)
  · rw [plain?, Source.skipWhile_of_limit (Nat.le_of_lt hlt) hsize hend, hskip]
    rw [if_neg (Nat.ne_of_gt hpast)]
    split
    · rfl
    · rw [show limit = pos + (spellAll run).length by omega]

/-- The pieces are read as the stack matches their tags, wherever they stand and whatever has been
read before. -/
def Answers (s : Setting) (label : Source → Except SyntaxError (List Event)) (ps : List Piece) :
    Prop :=
  ∀ (n limit pos : Nat) (search : LabelSearch) (p : Progress) (os : List Outline),
    Occupy s.src pos limit ps → s.src.test (!isSpecial ·) limit = false →
    Tag.Within n (Item.tags (items pos ps)) → p.Tracing os →
    Item.Answered (items pos ps) (readFrom s search (Inline.read s label n) label limit pos p)
      fun q os' => q.Tracing (os ++ os')

namespace Answers

variable {run : List Piece} {g : Sign} {n limit pos : Nat} {search : LabelSearch} {p : Progress}
  {os : List Outline}

theorem nil : Answers s label [] := by
  intro n limit pos search p os h _ _ hp
  have hlimit : pos = limit := h.limit_eq
  rw [readFrom, if_neg (by omega)]
  exact .nil rfl (by rwa [List.append_nil])

theorem passed (hps : Answers s label ps) (hrun : ∀ k, items k run = [])
    (h : Occupy s.src pos limit (run ++ ps)) (hend : s.src.test (!isSpecial ·) limit = false)
    (hn : Tag.Within n (Item.tags (items pos (run ++ ps)))) (hp : p.Tracing os) :
    Item.Answered (items pos (run ++ ps)) (readFrom s search (Inline.read s label n) label limit
      (pos + (spellAll run).length) p) fun q os' => q.Tracing (os ++ os') := by
  rw [items_append, hrun, List.nil_append] at hn ⊢
  exact hps _ _ _ _ _ _ h.split.2 hend hn hp

/-- A line break takes the spaces after it along. -/
theorem lineBreak {hc : '\n'.isAlpha = true ∨ '\n' = ' ' ∨ '\n' = '\n'}
    (ih : ∀ rest, rest.length ≤ ps.length → Answers s label rest) :
    Answers s label (.char '\n' hc :: ps) := by
  intro n limit pos search p os h hend hn hp
  obtain ⟨run, rest, rfl, hrun, hskip⟩ := skip_spec (f := Text.isSpace) rfl h.tail
  have hrest : Answers s label rest := ih rest (by simp)
  have hnext := @passed _ _ _ (.char '\n' hc :: run) _ _ _ search _ _ hrest
    (fun k => hrun (k + 1)) h hend hn hp.addBreak
  have hmax : max (s.src.skipWhile Text.isSpace (pos + 1) limit) (pos + 1) =
      pos + (spellAll (.char '\n' hc :: run)).length := by
    rw [spellAll_cons, List.length_append, ← Nat.add_assoc]
    simp only [spell, List.length_singleton] at hskip ⊢
    omega
  rw [readFrom, if_pos h.lt, recognize_break (Source.hasAt_singleton.mp h.head)]
  simp only [pure_bind, hmax]
  exact hnext

theorem char {c : Char} {hc : c.isAlpha = true ∨ c = ' ' ∨ c = '\n'}
    (hspecial : isSpecial c = false)
    (ih : ∀ rest, rest.length ≤ ps.length → Answers s label rest) :
    Answers s label (.char c hc :: ps) := by
  intro n limit pos search p os h hend hn hp
  obtain ⟨run, rest, hsplit, hne, hrun, hplain⟩ := plain?_spec hspecial h hend
  obtain ⟨r, run, rfl⟩ := List.exists_cons_of_ne_nil hne
  have hrest : Answers s label rest := by
    apply ih
    have := congrArg List.length hsplit
    simp only [List.length_cons, List.length_append] at this
    omega
  have hpos := r.length_spell_pos
  have hmax : max (pos + (spellAll (r :: run)).length) (pos + 1) =
      pos + (spellAll (r :: run)).length := by
    rw [spellAll_cons, List.length_append]
    omega
  rw [readFrom, if_pos h.lt, recognize_char (Source.hasAt_singleton.mp h.head) hspecial, hplain]
  simp only [pure_bind, hmax]
  rw [hsplit] at h hn ⊢
  exact hrest.passed hrun h hend hn (hp.of_eq rfl rfl)

theorem after {e : Outline} (hps : Answers s label ps) (h : Occupy s.src pos limit ps)
    (hend : s.src.test (!isSpecial ·) limit = false)
    (hn : Tag.Within n (Item.tags (items pos ps))) (hp : p.Tracing (os ++ [e])) :
    Item.Answered (items pos ps) (readFrom s search (Inline.read s label n) label limit pos p)
      fun q os' => q.Tracing (os ++ e :: os') := by
  have := hps n limit pos search p _ h hend hn hp
  simpa only [List.append_assoc, List.singleton_append] using this

theorem inside (hps : Answers s label ps) (h : Occupy s.src pos limit ps)
    (hend : s.src.test (!isSpecial ·) limit = false)
    (hn : Tag.Within n (Item.tags (items pos ps))) (memo : Memo) :
    Item.Answered (items pos ps) (Inline.read s label (n + 1) limit pos memo)
      fun r os => Traces r.1 os := by
  have := hps n limit pos (labelSearch s limit (n + 1)) (.start memo) [] h hend hn (.start memo)
  exact this.andThen (f := (· >>= fun q => pure q.finish)) (fun e => ⟨e, rfl⟩)
    fun q os hq => ⟨_, rfl, hq.finish⟩

/-- An opening tag is followed by what is inside, up to its partner by name, and then by what is
after. -/
theorem opened (ih : ∀ rest, rest.length ≤ ps.length → Answers s label rest)
    (h : Occupy s.src pos limit (.tag g :: ps)) (hend : s.src.test (!isSpecial ·) limit = false)
    (hn : Tag.Within n (Item.tags (items pos (.tag g :: ps)))) (hp : p.Tracing os)
    (hf : (g.tagAt pos).form = .opening) :
    Item.Answered (items pos (.tag g :: ps))
      (readFrom s search (Inline.read s label n) label limit pos p)
      fun q os' => q.Tracing (os ++ os') := by
  have hpartner : Tag.partner? s.src (g.tagAt pos) limit = (Item.partner? (g.tagAt pos).name 0
      (items (pos + g.spell.length) ps)).map (·.2.1) := closer?_eq h.tail _ 0
  cases hfound : Item.partner? (g.tagAt pos).name 0 (items (pos + g.spell.length) ps) with
  | none =>
    rw [hfound] at hpartner
    exact .unclosed hf hfound (readFrom_unclosed h.scan?_eq hf hpartner p)
  | some found =>
    obtain ⟨inside, c, after⟩ := found
    rw [hfound] at hpartner
    obtain ⟨hsplit, hc, hname⟩ := Item.of_partner? hfound
    obtain ⟨ps₁, g', ps₂, rfl, rfl, rfl, rfl⟩ := split_of_items hsplit
    have hitems : items pos (.tag g :: (ps₁ ++ .tag g' :: ps₂)) = .tag (g.tagAt pos) ::
        (items (pos + g.spell.length) ps₁ ++ .tag (g'.tagAt _) :: items _ ps₂) :=
      congrArg _ hsplit
    rw [hitems] at hn
    obtain ⟨m, rfl, hm⟩ := Item.within_inside hn hf
    obtain ⟨hat₁, hrest⟩ : s.src.HasAt (pos + g.spell.length) (spellAll ps₁) ∧
      Occupy s.src (pos + g.spell.length + (spellAll ps₁).length) limit (.tag g' :: ps₂) :=
        h.tail.split
    generalize hmid : pos + g.spell.length + (spellAll ps₁).length = mid at *
    have hend₁ : s.src.test (!isSpecial ·) mid = false := by
      rw [Source.test, Tag.has_lt_of_scan? hrest.scan?_eq]
      rfl
    have hpast : pos < (g'.tagAt mid).span.stop := by
      have hlt := (Tag.stop_of_scan? hrest.scan?_eq).1
      omega
    have hstep : readFrom s search (Inline.read s label (m + 1)) label limit pos p =
        (Inline.read s label (m + 1) mid (pos + g.spell.length) p.memo).bind _ :=
      readFrom_pair h.scan?_eq hf hpartner hpast p
    have hps₁ : Answers s label ps₁ := ih ps₁ (by simp)
    have hps₂ : Answers s label ps₂ := ih ps₂ (by simp; omega)
    apply Item.Answered.pair hf hfound (hps₁.inside ⟨hat₁, hmid⟩ hend₁ hm p.memo)
    · intro e he
      rw [hstep, he]
      exact ⟨e, rfl⟩
    · intro r os₁ hos₁ hr htraces
      have hdeep := hos₁.within_after hn hf hc hname
      rw [hstep, hr]
      exact hps₂.after hrest.tail hend hdeep (hp.addElement htraces _ _ _)

/-- **A tag is read as the stack matches it.** -/
theorem tag (ih : ∀ rest, rest.length ≤ ps.length → Answers s label rest) :
    Answers s label (.tag g :: ps) := by
  intro n limit pos search p os h hend hn hp
  cases hf : (g.tagAt pos).form with
  | selfClosing =>
    apply Item.Answered.single hf
    rw [readFrom_single h.scan?_eq hf]
    have hps : Answers s label ps := ih ps (Nat.le_refl _)
    exact hps.after h.tail hend (hn.tail hf) (hp.addElement .nil _ _ _)
  | closing => exact .stray hf (readFrom_stray h.scan?_eq hf p)
  | opening => exact opened ih h hend hn hp hf

end Answers

/-- **Pieces are read as the stack matches their tags.** -/
theorem answers (s : Setting) (label : Source → Except SyntaxError (List Event))
    (ps : List Piece) : Answers s label ps := by
  -- on the number of pieces: an element takes pieces from the middle, so its inside is no tail
  induction hk : ps.length using Nat.strongRecOn generalizing ps with
  | ind k ih =>
  cases ps with
  | nil => exact .nil
  | cons q ps =>
    have ih (rest : List Piece) (h : rest.length ≤ ps.length) : Answers s label rest := by
      apply ih rest.length ?_ rest rfl
      rw [← hk]
      exact Nat.lt_succ_of_le h
    cases q with
    | char c hc =>
      by_cases hbreak : c = '\n'
      · subst hbreak
        exact .lineBreak ih
      · exact .char (isSpecial_eq_false (hc.imp_right fun h => h.resolve_right hbreak)) ih
    | tag g => exact .tag ih

/-- **A text is read as the stack matches its tags**, if they do not nest too deep. -/
theorem answered_events {src : Source} (hsrc : src.toList = spellAll ps)
    (hn : Tag.Within 19 (Item.tags (items 0 ps))) (definitions : List Block.Definition) :
    Item.Answered (items 0 ps) (Inline.events definitions src) Traces := by
  have h : Occupy src 0 src.size ps := by
    constructor
    · exact Source.hasAt_of_toList_eq hsrc
    · rw [← hsrc, Array.length_toList, Nat.zero_add]
  have hend : src.test (!isSpecial ·) src.size = false := by
    simp [Source.test]
  rw [Inline.events]
  generalize (fun content : Source => if _h : content.size < src.size then
    Inline.events definitions content else .ok []) = label
  have hread := (answers ⟨src, definitions⟩ label ps).inside h hend hn (Memo.empty src)
  exact hread.andThen (f := (· >>= fun r => pure (Inline.joinTexts r.1))) (fun e => ⟨e, rfl⟩)
    fun r os hr => ⟨_, rfl, hr.joinTexts⟩

end Piece

end MdxProse
