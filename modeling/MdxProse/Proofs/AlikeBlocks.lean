import Mathlib.Data.List.Forall2
import MdxProse.Proofs.AlikeContainers
import MdxProse.Proofs.Blocks

/-!
# Reading blocks in regions that are alike

Each reader of blocks does the same in two regions that are alike: it fails in both or in none, and
reports the same events on the same lines.  Only tags and expressions stand elsewhere, and errors
that show a tag show it as it stands.

* `Event.Alike`, `Block.Outcome.Alike`: the events, and what is read.
* `Carrying.Agree`: two readings that fail alike or succeed alike.
* `Quote.read_alike`, `Items.read_alike`, `Element.read_alike`: **the containers are read alike** if
  their content is.
* `read_keeps`: **every reader of content reads alike what is alike.**
-/

namespace MdxProse

/-- A tag or an expression of the text may be a block. -/
def Carrying.HasCode (m : Carrying) : Prop :=
  ∃ p, m.code p

/-- The same kind of node, but code may stand elsewhere. -/
inductive Kind.Alike (m : Carrying) : Kind → Kind → Prop
  | refl (k : Kind) : Alike m k k
  | element (name : Option String) (s s' : Span) :
      m.HasCode → Alike m (.flowElement name s) (.flowElement name s')
  | expression (c c' : String) (s s' : Span) :
      m.HasCode → Alike m (.flowExpression c s) (.flowExpression c' s')

theorem Kind.Alike.leaving {m : Carrying} {k k' : Kind} (h : k.Alike m k') :
    Event.leaving k' = Event.leaving k := by
  cases h <;> rfl

theorem Kind.Alike.tightened {m : Carrying} {k k' : Kind} (h : k.Alike m k') (depth : Nat) :
    (k.tightened depth).Alike m (k'.tightened depth) := by
  cases h with
  | refl k => exact .refl _
  | element name s s' hcode => exact .element name s s' hcode
  | expression c c' s s' hcode => exact .expression c c' s s' hcode

/-- The same event, but for where code stands. -/
inductive Event.Alike (m : Carrying) : Event → Event → Prop
  | enter {k k' : Kind} (h : k.Alike m k') (l : Option LineRange) :
      Alike m (.enter k l) (.enter k' l)
  | leave (t : NodeType) (n : Option String) : Alike m (.leave t n) (.leave t n)
  | leaf {k k' : Kind} (h : k.Alike m k') (l : Option LineRange) (inner : List Event) :
      Alike m (.leaf k l inner) (.leaf k' l inner)

/-- The streams tell of the same nodes, but for where code stands. -/
abbrev Event.EachAlike (m : Carrying) : List Event → List Event → Prop :=
  List.Forall₂ (Event.Alike m)

namespace Event

variable {m : Carrying} {es es' : List Event}

theorem Alike.refl (e : Event) : e.Alike m e := by
  cases e with
  | enter k l => exact .enter (.refl k) l
  | leave t n => exact .leave t n
  | leaf k l inner => exact .leaf (.refl k) l inner

theorem EachAlike.refl (es : List Event) : EachAlike m es es :=
  List.forall₂_same.mpr fun e _ => Alike.refl e

theorem EachAlike.around {k k' : Kind} (hk : k.Alike m k') (h : EachAlike m es es')
    (l : Option LineRange) : EachAlike m (around k l es) (around k' l es') := by
  rw [Event.around, Event.around, hk.leaving]
  exact .cons (.enter hk l) (List.rel_append h (.cons (Alike.refl _) .nil))

theorem EachAlike.tighten (h : EachAlike m es es') (depth : Nat) :
    EachAlike m (Block.Items.tighten depth es) (Block.Items.tighten depth es') := by
  induction h generalizing depth with
  | nil => exact .nil
  | cons he _ ih =>
    cases he with
    | enter hk l =>
      rw [Block.Items.tighten_enter, Block.Items.tighten_enter]
      exact .cons (.enter (hk.tightened depth) l) (ih _)
    | leave t n => exact .cons (.leave t n) (ih _)
    | leaf hk l inner => exact .cons (.leaf hk l inner) (ih _)

end Event

/-- **Two readings agree**: both succeed, with results that are related, or both fail.  They fail
with the same error unless it may show code. -/
inductive Carrying.Agree (m : Carrying) {α : Type} (R : α → α → Prop) :
    Except SyntaxError α → Except SyntaxError α → Prop
  | ok {a b : α} : R a b → Agree m R (.ok a) (.ok b)
  | error {e e' : SyntaxError} : e = e' ∨ m.HasCode → Agree m R (.error e) (.error e')

/-- What follows on readings that agree may only depend on what they have in common. -/
theorem Carrying.Agree.bind {m : Carrying} {α β : Type} {R : α → α → Prop} {S : β → β → Prop}
    {x y : Except SyntaxError α} {f g : α → Except SyntaxError β} (h : m.Agree R x y)
    (hfg : ∀ a b, R a b → m.Agree S (f a) (g b)) : m.Agree S (x >>= f) (y >>= g) := by
  cases h with
  | ok hab => exact hfg _ _ hab
  | error he => exact .error he

namespace Block

variable {m : Carrying} {r r' : Region} {i past past' : Nat}

/-- The same was read, but for where code stands. -/
structure Outcome.Alike (m : Carrying) (o o' : Outcome) : Prop where
  events : Event.EachAlike m o.events o'.events
  definitions : o'.definitions = o.definitions
  next : o'.next = o.next

/-- The same content was read, but for where code stands. -/
structure Content.Alike (m : Carrying) (c c' : Content) : Prop extends
    c.toOutcome.Alike m c'.toOutcome where
  tight : c'.tight = c.tight

theorem Outcome.Alike.refl (o : Outcome) : o.Alike m o :=
  ⟨Event.EachAlike.refl _, rfl, rfl⟩

/-- **The reader reads alike what is alike.** -/
def Reader.Keeps (m : Carrying) (content : Reader) : Prop :=
  ∀ r r' i past, r.Twin m r' → m.first ≤ i → past ≤ r.height →
    m.Agree (Content.Alike m) (content r i past) (content r' i past)

theorem Region.Twin.ready (h : r.Twin m r') (hpast : past ≤ r.height) : r.Ready m.src past :=
  ⟨h.sound, hpast, fun htop => absurd (h.isTop.1.symm.trans htop) Bool.false_ne_true⟩

theorem Region.Twin.endsAlike_height (h : r.Twin m r') (hfirst : m.first < r.height) :
    r.EndsAlike m r' r.height r'.height := by
  rw [h.height_eq]
  exact h.endsAlike hfirst (Nat.le_refl _)

/-! ### Quotes -/

theorem Quote.read_alike {content : Reader} (hcontent : content.Keeps m) (h : r.Twin m r')
    (hi : m.first ≤ i) (hlt : i < past) (hpast : past ≤ r.height) (hq : starts r i = true) :
    m.Agree (Outcome.Alike m) (read content r i past) (read content r' i past) := by
  have hheight := Nat.lt_of_lt_of_le hlt hpast
  have hflush := flush_of_starts h.toAlike hi hheight hq
  obtain ⟨-, -, hhas⟩ := mark_of_starts h.sound hheight hq
  have hsound := (within_mark h.sound hheight hq).sound
  have hfirst := h.toAlike.setLine hi hheight hsound (inner_alike h.toAlike hi hheight hq)
  rw [read, read, isEmpty_inner_alike h.toAlike hi hheight hq]
  obtain ⟨hg, hh, hstop⟩ := gather_alike (i := i + 1) hfirst h.height_eq hflush hpast
    (Nat.le_succ_of_le hi) hhas (inner r (r.line i)).isEmpty
  obtain ⟨hwithin, -, hle⟩ := gather_spec (inner r (r.line i)).isEmpty hsound hpast hlt hhas
  generalize gather (r.setLine i (inner r (r.line i))) past (inner r (r.line i)).isEmpty (i + 1) = g
    at *
  generalize
    gather (r'.setLine i (inner r' (r'.line i))) past (inner r (r.line i)).isEmpty (i + 1) = g' at *
  obtain ⟨r₁, stop⟩ := g
  obtain ⟨r₁', stop'⟩ := g'
  obtain rfl : stop' = stop := hstop
  have hzero : Deeper m 0 0 := ⟨by rw [hflush]; rfl, .inl hflush⟩
  have hnarrow : Region.Alike m { r₁ with indent := 0, isTop := false }
      { r₁' with indent := 0, isTop := false } :=
    hg.narrow (Nat.le_refl _) hh (hwithin.sound.narrow (Nat.le_refl _) (by decide)
      fun hpos => absurd hpos (Int.lt_irrefl 0)) hzero hg.listIndent
  refine (hcontent _ _ i stop' ⟨hnarrow, hh, rfl, rfl⟩ hi hle).bind fun c c' hc => .ok ?_
  rw [hc.next]
  exact ⟨.around (.refl _) hc.events _, hc.definitions, rfl⟩

/-! ### Lists -/

namespace Items

/-- The same items were read, but for where code stands. -/
structure Series.Alike (m : Carrying) (s s' : Series) : Prop where
  events : Event.EachAlike m s.events s'.events
  definitions : s'.definitions = s.definitions
  next : s'.next = s.next
  tight : s'.tight = s.tight

theorem readContent_alike {content : Reader} (hcontent : content.Keeps m) (h : r.Twin m r')
    (hi : m.first ≤ i) (hlt : i < past) (hpast : past ≤ r.height) {mk : Marker}
    (hm : Marker.read? (r.lineText i) = some mk) :
    m.Agree (Content.Alike m) (readContent content r mk i past)
      (readContent content r' mk i past) := by
  obtain ⟨hinside, hbare⟩ :=
    inside_alike h.toAlike h.height_eq hi (Nat.lt_of_lt_of_le hlt hpast) hm
  rw [readContent, readContent]
  dsimp only
  rw [hbare, hinside.isEmpty_all]
  split
  · exact .ok ⟨Outcome.Alike.refl _, rfl⟩
  · exact hcontent _ _ i past hinside hi hpast

theorem readFrom_alike {content : Reader} (hcontent : content.Keeps m) (h : r.Twin m r')
    (hpast : past ≤ r.height) {mk : Marker} {afterEmpty : Bool} {i : Nat} (hi : m.first ≤ i)
    (hlt : i < past) (hm : Marker.read? (r.lineText i) = some mk) :
    m.Agree (Series.Alike m) (readFrom content r mk past afterEmpty i)
      (readFrom content r' mk past afterEmpty i) := by
  rw [readFrom, readFrom]
  refine (readContent_alike hcontent h hi hlt hpast hm).bind fun c c' hc => ?_
  have hitem := hc.events.around (.refl .listItem) (some ⟨i, c.next⟩)
  dsimp only
  rw [hc.next, hc.definitions, hc.tight, h.isEmpty_all]
  have hlast : Series.Alike m
      ⟨Event.around .listItem (some ⟨i, c.next⟩) c.events, c.definitions, c.next,
        c.tight && !afterEmpty⟩
      ⟨Event.around .listItem (some ⟨i, c.next⟩) c'.events, c.definitions, c.next,
        c.tight && !afterEmpty⟩ := ⟨hitem, rfl, rfl, rfl⟩
  split
  · next hnext =>
    have hci : m.first ≤ c.next := by omega
    have hheight := Nat.lt_of_lt_of_le hnext.2 hpast
    have hless : decide ((r'.line c.next).indent < r'.indent) =
        decide ((r.line c.next).indent < r.indent) :=
      decide_eq_decide.mpr (h.line_indent hci hheight).2.1
    have hends := h.endsAlike (Nat.lt_of_le_of_lt hi hlt) hpast
    rw [hless, h.interrupts hends hci hheight, h.lineText hci hheight]
    split
    · exact .ok hlast
    · split
      · exact .ok hlast
      · next mk' hm' =>
        split
        · refine (readFrom_alike hcontent h hpast hci hnext.2 hm').bind fun s s' hs => .ok ?_
          rw [hs.definitions, hs.next, hs.tight]
          exact ⟨List.rel_append hitem hs.events, rfl, rfl, rfl⟩
        · exact .ok hlast
  · exact .ok hlast
termination_by past - i

theorem read_alike {content : Reader} (hcontent : content.Keeps m) (h : r.Twin m r')
    (hpast : past ≤ r.height) (hi : m.first ≤ i) (hlt : i < past) {mk : Marker}
    (hm : Marker.ofLine? r i = some mk) :
    m.Agree (Outcome.Alike m) (read content r mk i past) (read content r' mk i past) := by
  rw [read, read]
  refine (readFrom_alike hcontent h hpast hi hlt (marker_of_ofLine? hm)).bind fun s s' hs => .ok ?_
  rw [hs.next, hs.tight, hs.definitions]
  refine ⟨.around (.refl _) ?_ _, rfl, rfl⟩
  split
  · exact hs.events.tighten 0
  · exact hs.events

end Items

/-! ### Elements -/

namespace Element

theorem runEvents_alike (hcode : m.HasCode) (f : Nat → Nat) (lines : LineRange) (ts : List Tag) :
    Event.EachAlike m (runEvents lines ts) (runEvents lines (ts.map (Tag.carried f))) := by
  induction ts with
  | nil => exact .nil
  | cons t ts ih =>
    obtain ⟨name, span, form⟩ := t
    cases form with
    | opening => exact .cons (.enter (.element _ _ _ hcode) _) ih
    | selfClosing => exact .cons (.enter (.element _ _ _ hcode) _) (.cons (.leave _ _) ih)
    | closing => exact .cons (.leave _ _) ih

theorem hasCode_of_shape? (h : r.Alike m r') (hi : m.first ≤ i) (hlt : i < r.height)
    {shape : Shape} (hs : shape? r i past = some shape) : m.HasCode := by
  obtain ⟨ts, stop, hrun, -⟩ := shape?_spec hs
  obtain ⟨⟨t, ts', rfl, hstart⟩, ⟨-, hscan, -⟩, -, -⟩ := Tag.run?_spec hrun
  rw [shape?] at hs
  split at hs
  · cases hs
  · next he =>
    rw [Line.isEmpty, decide_eq_true_iff, Nat.not_le] at he
    rw [h.src_eq, hstart] at hscan
    exact ⟨_, h.code hi hlt (Tag.has_lt_of_scan? hscan) (.inl rfl) he⟩

/-- What is read inside an element: nothing, if its lines are empty. -/
def children (content : Reader) (r : Region) (start line past : Nat) (run : ClosingRun) :
    Except SyntaxError Outcome :=
  match leastIndent? r start past with
  | none => .ok ⟨[], [], past⟩
  | some indent => content (inside r line past indent run) start past >>= fun c => .ok c.toOutcome

theorem readClosed_eq_bind (content : Reader) (opener : Tag) (i start : Nat) {run : ClosingRun}
    {line last stop : Nat} (hline : r.lineReaching run.closer.span.start run.line = line)
    (hlast : r.lineReaching run.stop line = last)
    (hstop : (if run.before.isEmpty then run.line else line + 1) = stop) :
    readClosed content r opener i start run =
      children content r start line stop run >>= fun o => .ok
        ⟨Event.around (.flowElement opener.name ⟨opener.span.start, run.closer.span.stop⟩)
            (some ⟨i, last + 1⟩) o.events ++ runEvents ⟨line, last + 1⟩ run.after,
          o.definitions, last + 1⟩ := by
  rw [readClosed, children]
  dsimp only
  rw [hline, hlast, hstop]
  cases leastIndent? r start stop with
  | none => rfl
  | some indent =>
    dsimp only
    cases content (inside r line stop indent run) start stop <;> rfl

theorem children_alike {content : Reader} (hcontent : content.Keeps m) (h : r.Alike m r')
    (hr : r.Ready m.src past) {name : Option String} {run : ClosingRun} {start line stop : Nat}
    (hi : m.first ≤ start) (hstart : start ≤ run.line) (hc : Closed m.src r past name run line)
    (hstop : (if run.before.isEmpty then run.line else line + 1) = stop) :
    m.Agree (Outcome.Alike m) (children content r start line stop run)
      (children content r' start line stop (run.carried m.carry)) := by
  have hheight := hr.past_le
  have hlt := hc.run_lt
  have hlt' := hc.lt_past
  have hle : stop ≤ r.height := by
    subst hstop
    split <;> omega
  obtain ⟨hleast, hdeep⟩ := leastIndent?_alike h hi hle
  rw [children, children, hleast]
  cases hindent : leastIndent? r start stop with
  | none => exact .ok (Outcome.Alike.refl _)
  | some a =>
    obtain ⟨ha, hq⟩ := leastIndent?_spec hr.sound hle hindent
    have htwin := inside_alike h hr hc (by omega) ha hq (hdeep a hindent)
    have hready := (ready_inside hr.sound hr.past_le hc ha hq).past_le
    rw [hstop] at htwin hready
    exact (hcontent _ _ start stop htwin hi hready).bind fun c c' hc => .ok hc.toAlike

theorem readClosed_alike {content : Reader} (hcontent : content.Keeps m) (hcode : m.HasCode)
    (h : r.Alike m r') (hr : r.Ready m.src past) {opener : Tag} {run : ClosingRun}
    {start : Nat} (hi : m.first ≤ start) (hstart : start ≤ run.line)
    (hc : Closed m.src r past opener.name run (r.lineReaching run.closer.span.start run.line)) :
    m.Agree (Outcome.Alike m) (readClosed content r opener i start run)
      (readClosed content r' (opener.carried m.carry) i start (run.carried m.carry)) := by
  have hheight := hr.past_le
  have hlt' := hc.lt_past
  have hle := hc.run_le
  have hclose : r'.lineReaching (m.carry run.closer.span.start) run.line =
      r.lineReaching run.closer.span.start run.line :=
    h.lineReaching (by omega) hle (by omega) hc.le_stop
  have hlast : r'.lineReaching (m.carry run.stop)
        (r.lineReaching run.closer.span.start run.line) =
      r.lineReaching run.stop (r.lineReaching run.closer.span.start run.line) :=
    h.lineReaching (j := past - 1) (by omega) (by omega) (by omega) hc.stop_le
  have hbefore : (if (run.carried m.carry).before.isEmpty then run.line
        else r.lineReaching run.closer.span.start run.line + 1) =
      if run.before.isEmpty then run.line
        else r.lineReaching run.closer.span.start run.line + 1 := by
    rw [ClosingRun.carried, List.isEmpty_map]
  rw [readClosed_eq_bind content opener i start rfl rfl rfl,
    readClosed_eq_bind content _ i start hclose hlast hbefore]
  exact (children_alike hcontent h hr hi hstart hc rfl).bind fun o o' ho =>
    .ok ⟨List.rel_append (ho.events.around (.element _ _ _ hcode) _)
      (runEvents_alike hcode m.carry _ run.after), ho.definitions, rfl⟩

theorem read_alike {content : Reader} (hcontent : content.Keeps m) (h : r.Alike m r')
    (hr : r.Ready m.src past) (hends : r.EndsAlike m r' past past') (hi : m.first ≤ i)
    (hlt : i < past) {shape : Shape} (hs : shape? r i past = some shape) :
    m.Agree (Outcome.Alike m) (read content r i past shape)
      (read content r' i past' (shape.carried m.carry)) := by
  have hheight := hr.past_le
  have hcode := hasCode_of_shape? h hi (by omega) hs
  obtain ⟨ts, stop, hrun, hof⟩ := shape?_spec hs
  obtain ⟨-, -, hstop, -⟩ := Tag.run?_spec hrun
  have hreach : r'.lineReaching (m.carry stop) i = r.lineReaching stop i :=
    h.lineReaching (j := past - 1) hi (by omega) (by omega) hstop
  obtain ⟨hge, -, -, -⟩ := r.lineReaching_spec (i := i) (j := past - 1) (by omega)
    (Nat.lt_of_lt_of_le (by omega) hr.sound.height) hstop
  cases shape with
  | stray t => exact .error (.inr hcode)
  | run ts' lineStop =>
    obtain ⟨rfl, rfl, -⟩ := ofRun?_run hof
    rw [Shape.carried, read, read, hreach]
    exact .ok ⟨runEvents_alike hcode m.carry _ _, rfl, rfl⟩
  | open_ t lineStop =>
    obtain ⟨rfl, rfl, -⟩ := ofRun?_open hof
    have hclosing : closingRun? r' t.name past' 0 none (r.lineReaching stop i + 1) =
        (closingRun? r t.name past 0 none (r.lineReaching stop i + 1)).map
          (ClosingRun.carried m.carry) :=
      closingRun?_alike h hends hheight (by omega)
    rw [Shape.carried, read, read]
    dsimp only [Tag.carried]
    rw [hreach, hclosing]
    cases hfound : closingRun? r t.name past 0 none (r.lineReaching stop i + 1) with
    | none => exact .error (.inr hcode)
    | some run =>
      exact readClosed_alike hcontent hcode h hr (by omega) (closingRun?_spec hfound).1
        (closed_of_closingRun? hr.sound hr.past_le hfound)

end Element

/-! ### Rows of blocks -/

theorem FlowExpression.read?_alike (h : r.Alike m r') (hends : r.EndsAlike m r' past past')
    (hi : m.first ≤ i) (hlt : i < past) (hpast : past ≤ r.height) :
    Option.Rel (Outcome.Alike m) (read? r i past) (read? r' i past') := by
  have hheight := Nat.lt_of_lt_of_le hlt hpast
  rw [read?, read?, h.flowExpression hends hi hheight]
  cases hstop : stop? r i past with
  | none => exact .none
  | some stop =>
    obtain ⟨hempty, hbrace, hscan⟩ := stop?_spec hstop
    have hle : stop ≤ (r.line (past - 1)).stop := Expression.stop_le_limit hscan
    have hcode : m.HasCode := by
      obtain ⟨c, hc, hbrace⟩ := Source.test_iff.mp hbrace
      obtain rfl := beq_iff_eq.mp hbrace
      rw [Line.isEmpty, decide_eq_false_iff_not, Nat.not_le] at hempty
      rw [h.src_eq] at hc
      exact ⟨_, h.code hi hheight hc (.inr rfl) hempty⟩
    have hreach : r'.lineReaching (m.carry stop) i = r.lineReaching stop i :=
      h.lineReaching (j := past - 1) hi (by omega) (by omega) hle
    dsimp only [Option.map_some]
    rw [hreach]
    exact .some ⟨.cons (.leaf (.expression _ _ _ _ hcode) _ _) .nil, rfl, rfl⟩

theorem FrontMatter.read?_eq_none (hno : r.src.has '-' 0 = false) : read? r i past = none := by
  rw [read?, hno, Bool.and_false, if_neg Bool.false_ne_true]

/-- Inside containers there are no module statements. -/
theorem Esm.read?_eq_none (htop : r.isTop = false) : read? r i past = none := by
  rw [read?, starts, htop, Bool.false_and, Bool.false_and, if_neg Bool.false_ne_true]

/-- **A block is read alike.** -/
theorem readBlock_alike {one two : Reader} (hone : one.Keeps m) (htwo : two.Keeps m)
    (h : r.Twin m r') (hi : m.first ≤ i) (hlt : i < past) (hpast : past ≤ r.height) :
    m.Agree (Outcome.Alike m) (readBlock one two r i past) (readBlock one two r' i past) := by
  have hheight := Nat.lt_of_lt_of_le hlt hpast
  have hends := h.endsAlike (Nat.lt_of_le_of_lt hi hlt) hpast
  have hdash : r.src.has '-' 0 = false := h.src_eq ▸ m.noDash.1
  have hdash' : r'.src.has '-' 0 = false := h.src ▸ m.noDash.2
  rw [readBlock, readBlock, FrontMatter.read?_eq_none hdash, FrontMatter.read?_eq_none hdash',
    Esm.read?_eq_none h.isTop.1, Esm.read?_eq_none h.isTop.2, h.math_read? hpast hi hlt]
  have hexpression := FlowExpression.read?_alike h.toAlike hends hi hlt hpast
  generalize MathBlock.read? r i past = o
  cases o with
  | some o => exact .ok (Outcome.Alike.refl o)
  | none =>
    generalize FlowExpression.read? r i past = o, FlowExpression.read? r' i past = o' at hexpression
    cases hexpression with
    | some ho => exact .ok ho
    | none =>
      have hnone : ((none : Option Outcome) <|> none <|> none <|> none) = none := rfl
      rw [hnone, h.shape? hends hi hheight]
      dsimp only
      cases hshape : Element.shape? r i past with
      | some shape =>
        exact Element.read_alike hone h.toAlike (h.ready hpast) hends hi hlt hshape
      | none =>
        dsimp only [Option.map_none]
        rw [h.fence_read? hpast hi hlt, h.quote hi hheight, h.thematicBreak_read? hi hheight,
          h.marker hi hheight, h.text_read (h.endsAlike_height (by omega)) hpast hi hlt]
        split
        · exact .ok (Outcome.Alike.refl _)
        · split
          · next hq => exact Quote.read_alike hone h hi hlt hpast hq
          · split
            · exact .ok (Outcome.Alike.refl _)
            · split
              · next mk hm => exact Items.read_alike htwo h hpast hi hlt hm
              · exact .ok (Outcome.Alike.refl _)

theorem Region.Alike.starts_before (h : r.Alike m r') (hi : m.first ≤ i) (hpast : past ≤ r.height) :
    (decide (past ≤ i) || decide ((r'.line i).indent < r'.indent)) =
      (decide (past ≤ i) || decide ((r.line i).indent < r.indent)) := by
  by_cases hlt : past ≤ i
  · rw [decide_eq_true hlt, Bool.true_or, Bool.true_or]
  · rw [decide_eq_decide.mpr (h.line_indent hi (by omega)).2.1]

theorem readBlocks_alike {block : Region → Nat → Nat → Except SyntaxError Outcome}
    (h : r.Twin m r') (hpast : past ≤ r.height)
    (hblock : ∀ i, m.first ≤ i → i < past →
      m.Agree (Outcome.Alike m) (block r i past) (block r' i past)) {blank tight : Bool} {i : Nat}
    (hi : m.first ≤ i) :
    m.Agree (Content.Alike m) (readBlocks block r past blank tight i)
      (readBlocks block r' past blank tight i) := by
  rw [readBlocks, readBlocks.eq_def block r']
  split
  · next hlt =>
    have hskip := (r.skipEmpty_spec i).1
    dsimp only
    rw [h.skipEmpty h.height_eq hi, h.starts_before (Nat.le_trans hi hskip) hpast]
    split
    · exact .ok ⟨Outcome.Alike.refl _, rfl⟩
    · next hstart =>
      rw [Bool.or_eq_true, decide_eq_true_iff, not_or, Nat.not_le] at hstart
      refine (hblock _ (Nat.le_trans hi hskip) hstart.1).bind fun o o' ho => ?_
      rw [ho.next, h.passEmpty, h.isEmpty_all]
      split
      · next hnext =>
        refine (readBlocks_alike h hpast hblock (Nat.le_trans hi (Nat.le_of_lt hnext))).bind
          fun c c' hc => .ok ?_
        rw [hc.next, hc.tight, hc.definitions, ho.definitions]
        exact ⟨⟨List.rel_append ho.events hc.events, rfl, rfl⟩, rfl⟩
      · exact .ok ⟨ho, rfl⟩
  · exact .ok ⟨Outcome.Alike.refl _, rfl⟩
termination_by past - i

/-- **Every reader of content reads alike what is alike.** -/
theorem read_keeps (m : Carrying) : ∀ room, (read room).Keeps m
  | 0 => by
    intro r r' i past h hi hpast
    have hskip := (r.skipEmpty_spec i).1
    rw [read]
    dsimp only
    rw [h.skipEmpty h.height_eq hi, h.starts_before (Nat.le_trans hi hskip) hpast]
    exact .ok ⟨Outcome.Alike.refl _, rfl⟩
  | 1 => by
    intro r r' i past h hi hpast
    rw [read]
    exact readBlocks_alike h hpast (fun k hk hkp =>
      readBlock_alike (read_keeps m 0) (read_keeps m 0) h hk hkp hpast) hi
  | n + 2 => by
    intro r r' i past h hi hpast
    rw [read]
    exact readBlocks_alike h hpast (fun k hk hkp =>
      readBlock_alike (read_keeps m (n + 1)) (read_keeps m n) h hk hkp hpast) hi

end Block

/-! ### Texts without code -/

section Equal

variable {m : Carrying} (hcode : ¬ m.HasCode)

include hcode

theorem Kind.Alike.eq {k k' : Kind} (h : k.Alike m k') : k' = k := by
  cases h with
  | refl => rfl
  | element _ _ _ h | expression _ _ _ _ h => exact absurd h hcode

theorem Event.EachAlike.eq {es es' : List Event} (h : EachAlike m es es') : es' = es := by
  induction h with
  | nil => rfl
  | cons he _ ih =>
    rw [ih]
    cases he with
    | enter hk | leaf hk => rw [hk.eq hcode]
    | leave => rfl

/-- **Where no code is, readings that agree are the same.** -/
theorem Block.Content.Alike.eq {x y : Except SyntaxError Block.Content}
    (h : m.Agree (Block.Content.Alike m) x y) : y = x := by
  cases h with
  | error he => exact congrArg Except.error (he.resolve_right hcode).symm
  | @ok c c' hc =>
    obtain ⟨⟨events, definitions, next⟩, tight⟩ := c
    obtain ⟨⟨events', definitions', next'⟩, tight'⟩ := c'
    obtain ⟨⟨hevents, rfl, rfl⟩, rfl⟩ := hc
    obtain rfl : events' = events := hevents.eq hcode
    rfl

end Equal

end MdxProse
