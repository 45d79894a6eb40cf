import MdxProse.Inline.Content
import MdxProse.Proofs.EmphasisNesting
import MdxProse.Proofs.Layout

/-!
# Code in running text

`Inline.Reads src es` is what every reader of running text keeps to: the events are neutral, what
they hold inside is nested too, and an expression or element covers exactly its code.

* `Tag.closer?_spec`: the partner of an opening tag is a closing tag of its name further on.
* `Construct.Stands`, `recognize_stands`: **a construct of code is recognised where it stands.**
* `Progress.Sound`: the same for a text that is read only in part; every step keeps it.
* `events_reads`: **what is reported of a running text.**
-/

namespace MdxProse

/-! ### Code in a text -/

/-- The kind of node is code in running text, and its span covers exactly that piece. -/
inductive Kind.Embedded (src : Source) : Kind → Prop
  | expression {s : Span} : Expression.stop? src s.start src.size = some s.stop →
      Embedded src (.textExpression (src.cover s) s)
  | single {t : Tag} : IsSingle src t → Embedded src (.textElement t.name t.span)
  | pair {o c : Tag} : IsPair src o c →
      Embedded src (.textElement o.name ⟨o.span.start, c.span.stop⟩)

theorem Kind.Embedded.bounds {src : Source} {k : Kind} {s : Span} (h : k.Embedded src)
    (hs : k.span? = some s) : s.start < s.stop ∧ s.stop ≤ src.size := by
  cases h with
  | expression h =>
    cases hs
    exact ⟨Expression.lt_of_stop? h, Expression.stop_le_size h⟩
  | single h =>
    cases hs
    exact h.bounds
  | pair h =>
    cases hs
    exact h.bounds

/-- Is the node code inside running text? -/
def Kind.isTextCode : Kind → Bool
  | .textExpression .. | .textElement .. => true
  | _ => false

/-- Is the node an image? What its label holds has offsets of its own. -/
def Kind.isImage : Kind → Bool
  | .image .. => true
  | _ => false

/-- A kind of node as running text reports it: code stands where it says. -/
def Kind.IsInline (src : Source) (k : Kind) : Prop :=
  k.isTextCode = true → k.Embedded src

/-- **What is reported of a running text**, event by event: all belongs to running text, code is
where it says, only nodes that hold others are entered, and only an image holds something inside,
which is nested. -/
structure Event.IsInline (src : Source) (e : Event) : Prop where
  layer : e.Each (fun _ => false) fun k => k.layer = .text
  code : ∀ k, e.kind? = some k → k.IsInline src
  holds : ∀ k l, e = .enter k l → k.holdsNodes = true
  inner : ∀ k l i, e = .leaf k l i → (Node.ofEvents? i).isSome ∧ (k.isImage = false → i = [])

namespace Event.IsInline

variable {src : Source} {k k' : Kind} {l : Option LineRange}

theorem enter (hk : k.layer = .text) (hc : k.IsInline src) (hh : k.holdsNodes = true) :
    (Event.enter k l).IsInline src := by
  refine ⟨hk, ?_, ?_, nofun⟩
  · rintro _ ⟨⟩
    exact hc
  · rintro _ _ ⟨⟩
    exact hh

theorem leave (t : NodeType) (n : Option String) : (Event.leave t n).IsInline src :=
  ⟨trivial, nofun, nofun, nofun⟩

theorem leaf (hk : k.layer = .text) (hc : k.IsInline src) : (Event.leaf k l []).IsInline src := by
  refine ⟨⟨hk, fun _ => trivial⟩, ?_, nofun, ?_⟩
  · rintro _ ⟨⟩
    exact hc
  · rintro _ _ _ ⟨⟩
    exact ⟨by rw [Node.ofEvents?, Node.build?]; rfl, fun _ => rfl⟩

/-- An event that is no image may tell of something else. -/
theorem rename {i : List Event} (h : (Event.leaf k l i).IsInline src) (hi : k.isImage = false)
    (hk : k'.layer = .text) (hc : k'.IsInline src) : (Event.leaf k' l i).IsInline src := by
  rw [(h.inner k l i rfl).2 hi]
  exact leaf hk hc

end Event.IsInline

/-! ### The closing tag -/

/-- **The partner of an opening tag** is a closing tag of its name further on. -/
theorem Tag.closer?_spec {src : Source} {name : Option String} {inner pos limit : Nat} {t : Tag}
    (h : closer? src name inner pos limit = some t) :
    pos ≤ t.span.start ∧ scan? src t.span.start src.size = some t ∧ t.form = .closing ∧
      t.name = name := by
  fun_induction closer? src name inner pos limit with
  | case1 inner pos hp hb ih =>
    have := ih h
    exact ⟨by omega, this.2⟩
  | case2 inner pos hp hb hm ih =>
    have := ih h
    have := CodeSpan.lt_skip hp hm
    exact ⟨by omega, (ih h).2⟩
  | case3 inner pos hp hb hm hbrace stop he ih =>
    have := ih h
    have := Expression.lt_of_stop? he
    exact ⟨by omega, (ih h).2⟩
  | case4 inner pos hp hb hm hbrace he ih =>
    have := ih h
    exact ⟨by omega, this.2⟩
  | case5 inner pos hp hb hm hbrace ht ih =>
    have := ih h
    exact ⟨by omega, this.2⟩
  | case6 inner pos hp hb hm hbrace u ht hname hf ih =>
    have := ih h
    have := stop_of_scan? ht
    exact ⟨by omega, (ih h).2⟩
  | case7 inner pos hp hb hm hbrace u ht hname hf ih =>
    have := ih h
    have := stop_of_scan? ht
    exact ⟨by omega, (ih h).2⟩
  | case8 pos hp hb hm hbrace u ht hname hf =>
    cases h
    have hstart := start_of_scan? ht
    refine ⟨Nat.le_of_eq hstart.symm, ?_, hf, hname⟩
    rw [hstart]
    exact scan?_size ht
  | case9 pos hp hb hm hbrace u ht hname inner hf ih =>
    have := ih h
    have := stop_of_scan? ht
    exact ⟨by omega, (ih h).2⟩
  | case10 inner pos hp hb hm hbrace u ht hname ih =>
    have := ih h
    have := stop_of_scan? ht
    exact ⟨by omega, (ih h).2⟩
  | case11 => cases h

namespace Inline

variable {s : Setting} {search : LabelSearch} {limit pos : Nat} {memo memo' : Memo}

/-! ### Constructs -/

/-- A construct of code is just what stands between the two offsets. -/
def Construct.Stands (src : Source) (pos stop : Nat) : Construct → Prop
  | .expression => Expression.stop? src pos src.size = some stop
  | .element t => IsSingle src t
  | .pair o c => IsPair src o c
  | _ => True

/-- A found construct is where it was found. -/
def Found.Stands (src : Source) (pos : Nat) (f : Found) : Prop :=
  f.construct.Stands src pos f.stop

theorem tag?_stands {src : Source} {f : Found} (h : tag? src pos limit = some f) :
    f.Stands src pos := by
  rw [tag?, Option.map_eq_some_iff] at h
  obtain ⟨t, ht, rfl⟩ := h
  have hstart := Tag.start_of_scan? ht
  have hscan : Tag.scan? src t.span.start src.size = some t := by
    rw [hstart]
    exact Tag.scan?_size ht
  cases hf : t.form with
  | selfClosing => exact ⟨hscan, hf⟩
  | closing => trivial
  | opening =>
    dsimp only
    cases hp : Tag.partner? src t limit with
    | none => trivial
    | some c =>
      obtain ⟨hle, hcloser, hform, hname⟩ := Tag.closer?_spec hp
      exact ⟨hscan, hf, hcloser, hform, hname, hle⟩

theorem expression_stands (src : Source) (pos limit : Nat) :
    (expression src pos limit).Stands src pos := by
  rw [expression]
  split
  · next stop h => exact Expression.stop?_size h
  · trivial

theorem plain?_stands {src : Source} {f : Found} (h : plain? src pos limit = some f) :
    f.Stands src pos := by
  simp only [plain?] at h
  split at h <;> cases h
  trivial

theorem escape?_stands {src : Source} {f : Found} (h : escape? src pos limit = some f) :
    f.Stands src pos := by
  rw [escape?] at h
  repeat' split at h
  all_goals cases h
  all_goals trivial

theorem reference?_stands {src : Source} {f : Found} (h : reference? src pos limit = some f) :
    f.Stands src pos := by
  rw [reference?] at h
  split at h
  · cases h
  · simp only [Option.bind_eq_bind, Option.bind_eq_some_iff] at h
    obtain ⟨_, _, _, _, hf⟩ := h
    cases hf
    trivial

theorem math?_stands {src : Source} {f : Found} (h : math? src pos = some f) :
    f.Stands src pos := by
  rw [math?] at h
  repeat' split at h
  all_goals cases h
  trivial

theorem code?_stands {src : Source} {f : Found} (h : (code? src pos limit memo).1 = some f) :
    f.Stands src pos := by
  simp only [code?] at h
  repeat' split at h
  all_goals cases h
  all_goals trivial

theorem link?_stands {f : Found} (h : (link? s search pos limit memo).1 = some f) :
    f.Stands s.src pos := by
  simp only [link?] at h
  repeat' split at h
  all_goals first
    | cases h
      done
    | simp only [Option.map_eq_some_iff] at h
      obtain ⟨_, _, rfl⟩ := h
      trivial

theorem image?_stands {f : Found} (h : (image? s search pos limit memo).1 = some f) :
    f.Stands s.src pos := by
  simp only [image?] at h
  repeat' split at h
  all_goals first
    | cases h
      done
    | simp only [Option.map_eq_some_iff] at h
      obtain ⟨_, _, rfl⟩ := h
      trivial

/-- **A construct of code is recognised where it stands.** -/
theorem recognize_stands {f : Found} (h : recognize s search limit pos memo = (some f, memo')) :
    f.Stands s.src pos := by
  have h : (recognize s search limit pos memo).1 = some f := by rw [h]
  rw [recognize] at h
  split at h
  · cases h
  · split at h
    · cases h
      trivial
    · exact math?_stands h
    · exact escape?_stands h
    · exact code?_stands h
    · cases h
      trivial
    · cases h
      trivial
    · exact link?_stands h
    · exact image?_stands h
    · exact tag?_stands h
    · cases h
      exact expression_stands _ _ _
    · exact reference?_stands h
    · exact plain?_stands h

/-! ### Streams -/

/-- **What a reader of running text keeps to**: it closes what it opens, and every event is as it
should be. -/
structure Reads (src : Source) (es : List Event) : Prop where
  neutral : Neutral es
  each : ∀ e ∈ es, e.IsInline src

namespace Reads

variable {src : Source} {es es' : List Event}

theorem nil : Reads src [] :=
  ⟨.nil, nofun⟩

theorem append (h : Reads src es) (h' : Reads src es') : Reads src (es ++ es') := by
  refine ⟨h.neutral.append h'.neutral, fun e he => ?_⟩
  rcases List.mem_append.mp he with he | he
  · exact h.each e he
  · exact h'.each e he

theorem single {k : Kind} {l : Option LineRange} {i : List Event}
    (h : (Event.leaf k l i).IsInline src) : Reads src [.leaf k l i] :=
  ⟨.leaf k l i, by simpa using h⟩

theorem atom {k : Kind} (hk : k.layer = .text) (hc : k.IsInline src) :
    Reads src [.atom k] :=
  single (.leaf hk hc)

theorem around {k : Kind} (h : Reads src es) (hk : k.layer = .text) (hc : k.IsInline src)
    (hh : k.holdsNodes = true) : Reads src (Event.around k none es) := by
  refine ⟨h.neutral.around k none, fun e he => ?_⟩
  simp only [Event.around, List.mem_cons, List.mem_append, List.not_mem_nil, or_false] at he
  rcases he with (rfl | he) | rfl
  · exact .enter hk hc hh
  · exact h.each e he
  · exact .leave _ _

/-- **What is reported of a running text is a walk.** -/
theorem ofEvents? (h : Reads src es) : ∃ ns, Node.ofEvents? es = some ns :=
  Node.ofEvents?_of_settle? (fun k l i he => ((h.each _ he).inner k l i rfl).1) (h.neutral [])

/-- The label of an image holds what is reported of its own text. -/
theorem image {label : Source} (h : Reads label es) (target title content : String) :
    Reads src [.leaf (.image target title content) none es] := by
  refine single ⟨⟨rfl, fun _ => ?_⟩, ?_, nofun, ?_⟩
  · exact Event.eachOf_iff.mpr fun e he => (h.each e he).layer
  · rintro _ ⟨⟩
    exact nofun
  · rintro _ _ _ ⟨⟩
    exact ⟨Option.isSome_iff_exists.mpr h.ofEvents?, nofun⟩

end Reads

/-! ### Reading on -/

/-- What has been read so far is as it should be, and the marks are marks in it. -/
structure Progress.Sound (src : Source) (p : Progress) : Prop where
  reads : Reads src p.events.toList
  marks : ∀ d ∈ p.delimiters, IsMark p.events.toList d.place
  sorted : p.delimiters.Pairwise (fun a b => a.place < b.place)

namespace Progress

variable {src : Source} {p : Progress}

theorem Sound.start (src : Source) (memo : Memo) : (Progress.start memo).Sound src :=
  ⟨.nil, nofun, .nil⟩

theorem Sound.append {q : Progress} {es : List Event} (h : p.Sound src) (hes : Reads src es)
    (hq : q.events.toList = p.events.toList ++ es) (hd : q.delimiters = p.delimiters) :
    q.Sound src := by
  refine ⟨by rw [hq]; exact h.reads.append hes, fun d hm => ?_, by rw [hd]; exact h.sorted⟩
  rw [hd] at hm
  rw [hq]
  exact (h.marks d hm).append es

theorem Sound.flush (h : p.Sound src) : p.flush.Sound src := by
  rw [Progress.flush]
  split
  · exact h
  · exact h.append (.atom (k := .text (String.ofList p.pending.reverse)) rfl nofun)
      Array.toList_push rfl

theorem Sound.add {es : List Event} (h : p.Sound src) (hes : Reads src es) :
    (p.add es).Sound src :=
  h.flush.append hes (by simp [Progress.add]) rfl

theorem Sound.of_eq {q : Progress} (h : p.Sound src) (he : q.events = p.events)
    (hd : q.delimiters = p.delimiters) : q.Sound src :=
  h.append .nil (by rw [he, List.append_nil]) hd

theorem Sound.addBreak (h : p.Sound src) : p.addBreak.Sound src := by
  rw [Progress.addBreak]
  split
  · exact Sound.add (h.of_eq rfl rfl) (.atom (k := .hardBreak) rfl nofun)
  · exact Sound.add (h.of_eq rfl rfl) (.atom (k := .softBreak) rfl nofun)
  · exact h.add (.atom (k := .softBreak) rfl nofun)

theorem scan_getElem? {limit pos place i : Nat} {d : Delimiter}
    (h : (Delimiter.scan src pos limit place)[i]? = some d) : d.place = place + i := by
  rw [Delimiter.scan] at h
  split at h
  · cases h
  · simp only [List.getElem?_map, Option.map_eq_some_iff] at h
    obtain ⟨k, hk, rfl⟩ := h
    obtain ⟨hi, rfl⟩ := List.getElem?_eq_some_iff.mp hk
    rw [List.getElem_range]

theorem neutral_texts {α : Type} (f : α → String) (xs : List α) :
    Neutral (xs.map fun x => Event.atom (.text (f x))) := by
  induction xs with
  | nil => exact .nil
  | cons x xs ih => exact (Neutral.leaf _ _ _).append ih

theorem Sound.addDelimiters (h : p.Sound src) (pos limit : Nat) :
    (p.addDelimiters src pos limit).Sound src := by
  have hf := h.flush
  simp only [Progress.addDelimiters]
  generalize hds : Delimiter.scan src pos limit p.flush.events.size = ds
  have hplace : ∀ i d, ds[i]? = some d → d.place = p.flush.events.toList.length + i := by
    intro i d hd
    rw [← hds] at hd
    rw [scan_getElem? hd, Array.length_toList]
  refine ⟨?_, fun d hd => ?_, ?_⟩
  · rw [Array.toList_appendList]
    refine hf.reads.append ⟨neutral_texts _ ds, fun e he => ?_⟩
    obtain ⟨d, _, rfl⟩ := List.mem_map.mp he
    exact .leaf rfl nofun
  · rw [Array.toList_appendList]
    rcases List.mem_append.mp hd with hd | hd
    · exact (hf.marks d hd).append _
    · obtain ⟨i, hi⟩ := List.getElem?_of_mem hd
      rw [hplace i d hi]
      refine ⟨?_, .atom (.text (String.singleton d.mark)), ?_, .leaf _ _ _⟩
      · rw [List.take_length_add_append, ← List.map_take]
        exact hf.reads.neutral.append (neutral_texts _ _)
      · rw [List.getElem?_append_right (Nat.le_add_right _ _), Nat.add_sub_cancel_left,
          List.getElem?_map, hi]
        rfl
  · refine List.pairwise_append.mpr ⟨hf.sorted, ?_, fun a ha b hb => ?_⟩
    · refine List.pairwise_iff_getElem.mpr fun i j hi hj hij => ?_
      rw [hplace i _ (List.getElem?_eq_getElem hi), hplace j _ (List.getElem?_eq_getElem hj)]
      omega
    · obtain ⟨j, hj⟩ := List.getElem?_of_mem hb
      have := (hf.marks a ha).lt_length
      rw [hplace j b hj]
      omega

/-- **Reading to the end** turns marks into emphasis and keeps what is reported as it should be. -/
theorem Sound.finish (h : p.Sound src) : Reads src p.finish.1 := by
  have hf := h.flush
  refine ⟨Delimiter.resolve_neutral hf.reads.neutral hf.marks hf.sorted, fun e he => ?_⟩
  rcases Delimiter.mem_resolve he with he | he
  · exact hf.reads.each e he
  · simp only [List.mem_cons, List.not_mem_nil, or_false] at he
    rcases he with rfl | rfl | rfl | rfl | rfl
    · exact .enter rfl nofun rfl
    · exact .leave _ _
    · exact .enter rfl nofun rfl
    · exact .leave _ _
    · exact .leaf rfl nofun

end Progress

/-! ### Readers -/

/-- The reader reports a text as it should. -/
def Reader.Correct (src : Source) (inner : Reader) : Prop :=
  ∀ {limit pos : Nat} {memo memo' : Memo} {es : List Event},
    inner limit pos memo = .ok (es, memo') → Reads src es

section

variable {inner : Reader} {label : Source → Except SyntaxError (List Event)} {stop : Nat}
  (hinner : inner.Correct s.src) (hlabel : ∀ src es, label src = .ok es → Reads src es)

include hinner hlabel

theorem constructEvents_reads {c : Construct} {es : List Event} (hc : c.Stands s.src pos stop)
    (h : constructEvents s.src inner label pos stop memo c = .ok (es, memo')) :
    Reads s.src es := by
  cases c with
  | plain | lineBreak | delimiters =>
    cases h
    exact .nil
  | hardBreak | escaped | code | math =>
    cases h
    exact .atom rfl nofun
  | link l href title =>
    rw [constructEvents, Except.bind_eq_ok] at h
    obtain ⟨⟨es, memo⟩, hes, h⟩ := h
    cases h
    exact (hinner hes).around rfl nofun rfl
  | image l target title =>
    rw [constructEvents, Except.bind_eq_ok] at h
    obtain ⟨es, hes, h⟩ := h
    cases h
    exact (hlabel _ _ hes).image target title _
  | expression =>
    cases h
    exact .atom rfl fun _ => .expression hc
  | element t =>
    cases h
    exact Reads.nil.around rfl (fun _ => .single hc) rfl
  | pair o c =>
    rw [constructEvents, Except.bind_eq_ok] at h
    obtain ⟨⟨es, memo⟩, hes, h⟩ := h
    cases h
    exact (hinner hes).around rfl (fun _ => .pair hc) rfl
  | fault f => cases h

/-- **Reading on** keeps what has been read as it should be. -/
theorem readFrom_sound {p q : Progress} (hp : p.Sound s.src)
    (h : readFrom s search inner label limit pos p = .ok q) : q.Sound s.src := by
  induction hn : limit - pos using Nat.strongRecOn generalizing pos p with
  | ind n ih =>
  rw [readFrom] at h
  split at h
  · next hlt =>
    generalize hr : recognize s search limit pos p.memo = found at h
    obtain ⟨found, memo⟩ := found
    have hm : Progress.Sound s.src { p with memo } := hp.of_eq rfl rfl
    cases found with
    | none =>
      refine ih (limit - (pos + 1)) (by omega) ?_ h rfl
      exact hm.of_eq rfl rfl
    | some f =>
      have hstands := recognize_stands hr
      obtain ⟨c, stop⟩ := f
      have ih {p : Progress} (hp : p.Sound s.src)
          (h : readFrom s search inner label limit (max stop (pos + 1)) p = .ok q) :
          q.Sound s.src :=
        ih (limit - max stop (pos + 1)) (by omega) hp h rfl
      -- plain text, breaks and marks are added at once, and everything else as a construct
      dsimp only at h
      split at h
      · refine ih ?_ h
        exact hm.of_eq rfl rfl
      · exact ih hm.addBreak h
      · exact ih (hm.addDelimiters pos limit) h
      · rw [Except.bind_eq_ok] at h
        obtain ⟨⟨es, memo'⟩, hes, h⟩ := h
        have hes := constructEvents_reads hinner hlabel hstands hes
        refine ih ?_ h
        exact (hm.add hes).of_eq rfl rfl
  · cases h
    exact hp

end

theorem read_correct {label : Source → Except SyntaxError (List Event)}
    (hlabel : ∀ src es, label src = .ok es → Reads src es) (n : Nat) :
    (read s label n).Correct s.src := by
  induction n with
  | zero =>
    intro limit pos memo memo' es h
    rw [read] at h
    cases h
    exact Progress.Sound.finish ((Progress.Sound.start _ memo).of_eq rfl rfl)
  | succ n ih =>
    intro limit pos memo memo' es h
    rw [read, Except.bind_eq_ok] at h
    obtain ⟨p, hp, h⟩ := h
    have hfinish : p.finish = (es, memo') := Except.ok.inj h
    have := (readFrom_sound ih hlabel (.start _ memo) hp).finish
    rwa [hfinish] at this

/-! ### Joining texts -/

theorem settle?_joinTexts (es : List Event) (open_ : List (NodeType × Option String)) :
    Event.settle? (joinTexts es) open_ = Event.settle? es open_ := by
  fun_induction joinTexts es generalizing open_ with
  | case1 => rfl
  | case2 a l i es b l' i' rest hrest ih =>
    rw [hrest] at ih
    exact ih open_
  | case3 a l i es _ ih => exact ih open_
  | case4 e es _ ih =>
    cases e with
    | enter k l => exact ih _
    | leaf k l i => exact ih _
    | leave t n =>
      cases open_ with
      | nil => rfl
      | cons o open_ =>
        rw [Event.settle?, Event.settle?]
        split
        · exact ih _
        · rfl

theorem isInline_joinTexts {src : Source} {es : List Event} (h : ∀ e ∈ es, e.IsInline src) :
    ∀ e ∈ joinTexts es, e.IsInline src := by
  fun_induction joinTexts es with
  | case1 => exact nofun
  | case2 a l i es b l' i' rest hrest ih =>
    obtain ⟨h, hes⟩ := List.forall_mem_cons.mp h
    rw [hrest] at ih
    refine List.forall_mem_cons.mpr ⟨h.rename rfl rfl nofun, ?_⟩
    exact (List.forall_mem_cons.mp (ih hes)).2
  | case3 a l i es _ ih =>
    obtain ⟨h, hes⟩ := List.forall_mem_cons.mp h
    exact List.forall_mem_cons.mpr ⟨h, ih hes⟩
  | case4 e es _ ih =>
    obtain ⟨h, hes⟩ := List.forall_mem_cons.mp h
    exact List.forall_mem_cons.mpr ⟨h, ih hes⟩

theorem Reads.joinTexts {src : Source} {es : List Event} (h : Reads src es) :
    Reads src (joinTexts es) :=
  ⟨fun open_ => by rw [settle?_joinTexts, h.neutral], isInline_joinTexts h.each⟩

theorem settle?_plainEscape (es : List Event) (open_ : List (NodeType × Option String)) :
    Event.settle? (es.map plainEscape) open_ = Event.settle? es open_ := by
  induction es generalizing open_ with
  | nil => rfl
  | cons e es ih =>
    cases e with
    | enter k l => exact ih _
    | leaf k l i => cases k <;> exact ih _
    | leave t n =>
      cases open_ with
      | nil => rfl
      | cons o open_ =>
        show Event.settle? (.leave t n :: es.map plainEscape) (o :: open_) = _
        rw [Event.settle?, Event.settle?]
        split
        · exact ih _
        · rfl

theorem Reads.joinEscapes {src : Source} {es : List Event} (h : Reads src es) :
    Reads src (joinEscapes es) := by
  refine Reads.joinTexts ⟨fun open_ => by rw [settle?_plainEscape, h.neutral], fun e he => ?_⟩
  obtain ⟨e', he', rfl⟩ := List.mem_map.mp he
  have he' := h.each e' he'
  unfold plainEscape
  split
  · exact he'.rename rfl rfl nofun
  · exact he'

/-- **What is reported of a running text** is a walk, and its code is where it says. -/
theorem events_reads {definitions : List Block.Definition} {src : Source} {es : List Event}
    (h : events definitions src = .ok es) : Reads src es := by
  rw [events, Except.bind_eq_ok] at h
  obtain ⟨⟨es, memo⟩, hes, h⟩ := h
  cases h
  refine Reads.joinTexts (read_correct (s := ⟨src, definitions⟩) (fun content es h => ?_)
    maxDepth hes)
  split at h
  · next hlt => exact events_reads h
  · cases h
    exact .nil
termination_by src.size

end Inline

end MdxProse
