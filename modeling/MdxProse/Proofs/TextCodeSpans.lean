import MdxProse.Proofs.TextLayout
import MdxProse.Proofs.TextPassages

/-!
# The order of code in running text

The reader of running text goes from left to right, and the content of elements and links is read up
to a limit of its own.  Code never reaches beyond that limit, so the code that one reader reports is
spread between where it starts and where it has to end.

* `recognize_covers`: what is recognised at a position covers the text from there on.
* `Lays`: **what every reader keeps to**: the code is spread, and the label of an image is a running
  text of its own.
* `Progress.Lays`: the same for a text that is read only in part; every step keeps it.
* `text_code_laminar`: **of two pieces of code in a running text, one is the content of the other or
  comes before it**, and each covers exactly what it says.
-/

namespace MdxProse.Inline

variable {s : Setting} {search : LabelSearch} {limit pos : Nat} {memo memo' : Memo} {f : Found}
  {src : Source}

/-! ### What a construct covers -/

/-- The construct covers the text between the two offsets: code exactly, and a link or an image more
than its label. -/
def Construct.Covers (pos stop : Nat) : Construct → Prop
  | .element t => t.span = ⟨pos, stop⟩
  | .pair o c => o.span.start = pos ∧ c.span.stop = stop
  | .link l _ _ => l.stop < stop
  | .image l _ _ => pos < l.start
  | _ => True

theorem tag?_covers (h : tag? src pos limit = some f) : f.construct.Covers pos f.stop := by
  rw [tag?, Option.map_eq_some_iff] at h
  obtain ⟨t, ht, rfl⟩ := h
  have hstart := Tag.start_of_scan? ht
  cases hf : t.form with
  | selfClosing =>
    obtain ⟨name, span, form⟩ := t
    exact congrArg (Span.mk · span.stop) hstart
  | closing => trivial
  | opening =>
    dsimp only
    cases Tag.partner? src t limit with
    | none => trivial
    | some c => exact ⟨hstart, rfl⟩

theorem target?_le {href title : String} {close : Nat}
    (h : target? src pos limit = some (href, title, close)) : pos ≤ close := by
  have hskip (p : Nat) := src.le_skipWhile Text.isGap p limit
  have hstart := hskip pos
  simp only [target?] at h
  generalize src.skipWhile Text.isGap pos limit = start at h hstart
  have hgap {after : Nat} (hafter : start ≤ after) :
      pos ≤ src.skipWhile Text.isGap after limit :=
    Nat.le_trans hstart (Nat.le_trans hafter (hskip after))
  have htitle {after : Nat} (hafter : start ≤ after) (n : Nat) :
      pos ≤ src.skipWhile Text.isGap (src.skipWhile Text.isGap after limit + n) limit :=
    Nat.le_trans (Nat.le_trans (hgap hafter) (Nat.le_add_right _ n)) (hskip _)
  repeat' split at h
  all_goals simp only [Option.some.injEq, Prod.mk.injEq, reduceCtorEq] at h
  all_goals obtain ⟨-, -, rfl⟩ := h
  -- with a title or without one, after a safe target, an unsafe one, or none
  · exact htitle (Nat.le_add_right _ _) _
  · exact htitle (Nat.le_refl _) _
  · exact htitle (Nat.le_refl _) _
  · exact hgap (Nat.le_add_right _ _)
  · exact hgap (Nat.le_refl _)
  · exact hgap (Nat.le_refl _)

theorem definition?_lt (hsearch : search.Within s.src limit) {label : Span} {from_ stop : Nat}
    {d : Block.Definition} (hlabel : label.stop ≤ from_)
    (h : (definition? s search label from_ limit memo).1 = some (d, stop)) : label.stop < stop := by
  rw [definition?] at h
  split at h
  · cases h
  · simp only [Option.map_eq_some_iff] at h
    obtain ⟨d', -, hd⟩ := h
    cases hd
    split
    · next second hsecond =>
      split at hsecond
      · have := (hsearch _ _ _ _ hsecond).1
        omega
      · cases hsecond
    · exact Nat.lt_succ_self _

theorem link?_covers (hsearch : search.Within s.src limit)
    (h : (link? s search pos limit memo).1 = some f) : f.construct.Covers pos f.stop := by
  rw [link?] at h
  split at h
  · cases h
  · next labelStop memo' hlabel =>
    have hdefined {from_ : Nat} {memo : Memo} (hfrom : labelStop ≤ from_)
        (h : ((definition? s search ⟨pos + 1, labelStop⟩ from_ limit memo).1.map fun x =>
          (⟨.link ⟨pos + 1, labelStop⟩ x.1.href x.1.title, x.2⟩ : Found)) = some f) :
        f.construct.Covers pos f.stop := by
      obtain ⟨⟨d, stop⟩, hd, rfl⟩ := Option.map_eq_some_iff.mp h
      exact definition?_lt hsearch hfrom hd
    dsimp only at h
    split at h
    · split at h
      · cases h
      · next href title close htarget =>
        have hle := target?_le htarget
        split at h
        · cases h
          show labelStop < close + 1
          omega
        · exact hdefined (by omega) h
    · exact hdefined (Nat.le_succ _) h

theorem image?_covers (h : (image? s search pos limit memo).1 = some f) :
    f.construct.Covers pos f.stop := by
  have hlt : pos < pos + 2 := Nat.lt_add_of_pos_right Nat.two_pos
  simp only [image?] at h
  repeat' split at h
  all_goals first
    | cases h
      done
    | cases h
      exact hlt
    | simp only [Option.map_eq_some_iff] at h
      obtain ⟨_, _, rfl⟩ := h
      exact hlt

/-- **What is recognised at a position covers the text from there on.** -/
theorem recognize_covers (hsearch : search.Within s.src limit)
    (h : (recognize s search limit pos memo).1 = some f) : f.construct.Covers pos f.stop := by
  rw [recognize] at h
  split at h
  · cases h
  · split at h
    · cases h
      trivial
    · simp only [math?] at h
      repeat' split at h
      all_goals cases h
      trivial
    · rw [escape?] at h
      repeat' split at h
      all_goals cases h
      all_goals trivial
    · simp only [code?] at h
      repeat' split at h
      all_goals cases h
      all_goals trivial
    · cases h
      trivial
    · cases h
      trivial
    · exact link?_covers hsearch h
    · exact image?_covers h
    · exact tag?_covers h
    · cases h
      rw [expression]
      split <;> trivial
    · rw [reference?] at h
      split at h
      · cases h
      · simp only [Option.bind_eq_bind, Option.bind_eq_some_iff] at h
        obtain ⟨_, _, _, _, hf⟩ := h
        cases hf
        trivial
    · simp only [plain?] at h
      split at h <;> cases h
      trivial

/-! ### Emphasis and joined texts -/

/-- What is left out may be replaced by something else that is left out. -/
theorem filterMap_set {α β : Type} {g : α → Option β} {xs : List α} {n : Nat} {e : α}
    (he : g e = none) (hx : ∀ x, xs[n]? = some x → g x = none) :
    (xs.set n e).filterMap g = xs.filterMap g := by
  induction xs generalizing n with
  | nil => rfl
  | cons x xs ih =>
    cases n with
    | zero =>
      rw [List.set_cons_zero, List.filterMap_cons_none he, List.filterMap_cons_none (hx x rfl)]
    | succ n =>
      rw [List.set_cons_succ, List.filterMap_cons, List.filterMap_cons, ih hx]

namespace Delimiter

theorem place_of_mem_roles {ps : List Pair} {n : Nat} {role : Role} (h : (n, role) ∈ roles ps) :
    ∃ p ∈ ps, n = p.opener.place ∨ n = p.closer.place := by
  fun_induction roles ps with
  | case1 => cases h
  | case2 p =>
    simp only [roles.single, List.mem_cons, Prod.mk.injEq, List.not_mem_nil, or_false] at h
    exact ⟨p, List.mem_singleton_self p, h.imp And.left And.left⟩
  | case3 p q ps _ ih =>
    simp only [List.mem_cons, Prod.mk.injEq] at h
    rcases h with h | h | h | h | h
    · exact ⟨p, by simp, .inl h.1⟩
    · exact ⟨p, by simp, .inr h.1⟩
    · exact ⟨q, by simp, .inl h.1⟩
    · exact ⟨q, by simp, .inr h.1⟩
    · obtain ⟨r, hr, hn⟩ := ih h
      exact ⟨r, List.mem_cons_of_mem _ (List.mem_cons_of_mem _ hr), hn⟩
  | case4 p q ps _ ih =>
    rcases List.mem_append.mp h with h | h
    · simp only [roles.single, List.mem_cons, Prod.mk.injEq, List.not_mem_nil, or_false] at h
      exact ⟨p, List.mem_cons_self, h.imp And.left And.left⟩
    · obtain ⟨r, hr, hn⟩ := ih h
      exact ⟨r, List.mem_cons_of_mem _ hr, hn⟩

/-- Roles that are no code, at places where there is none, leave the code as it was. -/
theorem filterMap_assign {rs : List (Nat × Role)} {es : List Event}
    (hroles : ∀ r ∈ rs, r.2.event.asBlock? = none)
    (hplaces : ∀ r ∈ rs, ∀ e, es[r.1]? = some e → e.asBlock? = none) :
    (assign rs es).filterMap Event.asBlock? = es.filterMap Event.asBlock? := by
  induction rs generalizing es with
  | nil => rfl
  | cons r rs ih =>
    obtain ⟨hrole, hroles⟩ := List.forall_mem_cons.mp hroles
    obtain ⟨hplace, hplaces⟩ := List.forall_mem_cons.mp hplaces
    have hset : (assign rs (es.set r.1 r.2.event)).filterMap Event.asBlock? =
        (es.set r.1 r.2.event).filterMap Event.asBlock? := by
      apply ih hroles
      intro q hq e he
      rw [List.getElem?_set] at he
      split at he
      · split at he <;> cases he
        exact hrole
      · exact hplaces q hq e he
    exact hset.trans (filterMap_set hrole hplace)

/-- **Emphasis leaves the code as it was**, if no mark is code. -/
theorem filterMap_resolve {ds : List Delimiter} {es : Array Event}
    (hds : ds.Pairwise (fun a b => a.place < b.place))
    (hmarks : ∀ d ∈ ds, ∀ e, es.toList[d.place]? = some e → e.asBlock? = none) :
    (resolve ds es).toList.filterMap Event.asBlock? = es.toList.filterMap Event.asBlock? := by
  rw [toList_resolve]
  obtain ⟨hmem, -⟩ := @pairs_spec ds [] [] .nil hds nofun
  apply filterMap_assign
  · intro r hr
    have hrole := mem_roles hr
    simp only [List.mem_cons, List.not_mem_nil, or_false] at hrole
    rcases hrole with hrole | hrole | hrole | hrole | hrole <;> rw [hrole] <;> rfl
  · intro r hr e he
    obtain ⟨p, hp, hplace⟩ := place_of_mem_roles hr
    obtain ⟨hopener, hcloser, -⟩ := hmem p (List.mem_mergeSort.mp hp)
    rcases hplace with hplace | hplace <;> rw [hplace] at he
    · exact hmarks _ (hopener.resolve_left List.not_mem_nil) e he
    · exact hmarks _ hcloser e he

end Delimiter

theorem filterMap_joinTexts (es : List Event) :
    (joinTexts es).filterMap Event.asBlock? = es.filterMap Event.asBlock? := by
  fun_induction joinTexts es with
  | case1 => rfl
  | case2 a l i es b l' i' rest hrest ih =>
    rw [hrest] at ih
    exact ih
  | case3 a l i es _ ih => exact ih
  | case4 e es _ ih => rw [List.filterMap_cons, List.filterMap_cons, ih]

/-! ### What readers keep to -/

/-- If the event is an image, it holds what is reported of its label: a running text of its own. -/
def Labelled (definitions : List Block.Definition) (e : Event) : Prop :=
  ∀ target title content l inner, e = .leaf (.image target title content) l inner →
    Inline.events definitions (Source.ofString content) = .ok inner

theorem labelled_joinTexts {definitions : List Block.Definition} {es : List Event}
    (h : ∀ e ∈ es, Labelled definitions e) : ∀ e ∈ joinTexts es, Labelled definitions e := by
  fun_induction joinTexts es with
  | case1 => exact h
  | case2 a l i es b l' i' rest hrest ih =>
    obtain ⟨-, hes⟩ := List.forall_mem_cons.mp h
    rw [hrest] at ih
    refine List.forall_mem_cons.mpr ⟨?_, (List.forall_mem_cons.mp (ih hes)).2⟩
    intro target title content l inner heq
    cases heq
  | case3 a l i es _ ih =>
    obtain ⟨h, hes⟩ := List.forall_mem_cons.mp h
    exact List.forall_mem_cons.mpr ⟨h, ih hes⟩
  | case4 e es _ ih =>
    obtain ⟨h, hes⟩ := List.forall_mem_cons.mp h
    exact List.forall_mem_cons.mpr ⟨h, ih hes⟩

/-- **What a reader keeps to** that reads from one offset to the other: the code that it reports is
spread between them, and images hold what their labels do. -/
structure Lays (s : Setting) (lo hi : Nat) (es : List Event) : Prop where
  spread : Spread s.src lo hi es
  labels : ∀ e ∈ es, Labelled s.definitions e

namespace Lays

variable {lo mid hi : Nat} {es es' : List Event}

theorem nil (h : lo ≤ hi) : Lays s lo hi [] :=
  ⟨.nil h, nofun⟩

theorem append (h : Lays s lo mid es) (h' : Lays s mid hi es') : Lays s lo hi (es ++ es') := by
  refine ⟨h.spread.append h'.spread, ?_⟩
  intro e he
  rcases List.mem_append.mp he with he | he
  · exact h.labels e he
  · exact h'.labels e he

theorem widen {lo' hi' : Nat} (h : Lays s lo hi es) (hl : lo' ≤ lo) (hr : hi ≤ hi') :
    Lays s lo' hi' es :=
  ⟨h.spread.widen hl hr, h.labels⟩

theorem atom {k : Kind} (hle : lo ≤ hi) (hk : k.asBlock? = none) (himage : k.isImage = false) :
    Lays s lo hi [.atom k] := by
  refine ⟨.quiet hle ?_, ?_⟩
  · rintro _ he
    rw [List.mem_singleton.mp he, Event.atom, Event.asBlock?, hk]
    rfl
  · rintro _ he target title content l inner heq
    rw [List.mem_singleton.mp he] at heq
    cases heq
    cases himage

theorem texts (hle : lo ≤ hi) (ws : List String) :
    Lays s lo hi (ws.map fun w => .atom (.text w)) := by
  induction ws with
  | nil => exact .nil hle
  | cons w ws ih => exact append (atom (Nat.le_refl lo) rfl rfl) ih

theorem around {k : Kind} {lo' hi' : Nat} (h : Lays s lo hi es)
    (hspread : Spread s.src lo' hi' (Event.around k none es)) :
    Lays s lo' hi' (Event.around k none es) := by
  refine ⟨hspread, ?_⟩
  intro e he
  simp only [Event.around, List.mem_cons, List.mem_append, List.not_mem_nil, or_false] at he
  rcases he with (rfl | he) | rfl
  · intro target title content l inner heq
    cases heq
  · exact h.labels e he
  · intro target title content l inner heq
    cases heq

theorem joinTexts (h : Lays s lo hi es) : Lays s lo hi (joinTexts es) :=
  ⟨h.spread.of_eq (filterMap_joinTexts es), labelled_joinTexts h.labels⟩

end Lays

/-! ### Reading on -/

/-- What has been read so far keeps to it, and no mark is code. -/
structure Progress.Lays (s : Setting) (lo hi : Nat) (p : Progress) : Prop where
  events : Inline.Lays s lo hi p.events.toList
  marks : ∀ d ∈ p.delimiters, ∃ e, p.events.toList[d.place]? = some e ∧ e.asBlock? = none

namespace Progress.Lays

variable {lo hi : Nat} {p q : Progress}

theorem start (h : lo ≤ hi) (memo : Memo) : (Progress.start memo).Lays s lo hi :=
  ⟨.nil h, nofun⟩

theorem append {mid : Nat} {es : List Event} (h : p.Lays s lo mid) (hes : Inline.Lays s mid hi es)
    (hq : q.events.toList = p.events.toList ++ es) (hd : q.delimiters = p.delimiters) :
    q.Lays s lo hi := by
  refine ⟨by rw [hq]; exact h.events.append hes, ?_⟩
  intro d hm
  rw [hd] at hm
  obtain ⟨e, he, hnone⟩ := h.marks d hm
  refine ⟨e, ?_, hnone⟩
  rw [hq, List.getElem?_append_left (List.getElem?_eq_some_iff.mp he).1, he]

theorem of_eq {hi' : Nat} (h : p.Lays s lo hi) (hle : hi ≤ hi') (he : q.events = p.events)
    (hd : q.delimiters = p.delimiters) : q.Lays s lo hi' :=
  h.append (.nil hle) (by rw [he, List.append_nil]) hd

theorem flush (h : p.Lays s lo hi) : p.flush.Lays s lo hi := by
  rw [Progress.flush]
  split
  · exact h
  · exact h.append (.atom (k := .text (String.ofList p.pending.reverse)) (Nat.le_refl hi) rfl rfl)
      Array.toList_push rfl

theorem add {hi' : Nat} {es : List Event} (h : p.Lays s lo hi) (hes : Inline.Lays s hi hi' es) :
    (p.add es).Lays s lo hi' :=
  h.flush.append hes (by simp [Progress.add]) rfl

theorem addBreak (h : p.Lays s lo hi) : p.addBreak.Lays s lo hi := by
  rw [Progress.addBreak]
  split
  · exact add (h.of_eq (Nat.le_refl hi) rfl rfl)
      (.atom (k := .hardBreak) (Nat.le_refl hi) rfl rfl)
  · exact add (h.of_eq (Nat.le_refl hi) rfl rfl)
      (.atom (k := .softBreak) (Nat.le_refl hi) rfl rfl)
  · exact h.add (.atom (k := .softBreak) (Nat.le_refl hi) rfl rfl)

theorem addDelimiters (h : p.Lays s lo hi) (src : Source) (pos limit : Nat) :
    (p.addDelimiters src pos limit).Lays s lo hi := by
  have hf := h.flush
  simp only [Progress.addDelimiters]
  generalize hds : Delimiter.scan src pos limit p.flush.events.size = ds
  have hmap : ds.map (fun d => Event.atom (.text (String.singleton d.mark))) =
      (ds.map fun d => String.singleton d.mark).map fun w => Event.atom (.text w) := by
    rw [List.map_map]
    rfl
  refine ⟨?_, ?_⟩
  · rw [Array.toList_appendList, hmap]
    exact hf.events.append (.texts (Nat.le_refl hi) _)
  · intro d hd
    rw [Array.toList_appendList]
    rcases List.mem_append.mp hd with hd | hd
    · obtain ⟨e, he, hnone⟩ := hf.marks d hd
      refine ⟨e, ?_, hnone⟩
      rw [List.getElem?_append_left (List.getElem?_eq_some_iff.mp he).1, he]
    · obtain ⟨i, hi⟩ := List.getElem?_of_mem hd
      refine ⟨.atom (.text (String.singleton d.mark)), ?_, rfl⟩
      rw [← hds] at hi
      rw [scan_getElem? hi, ← Array.length_toList,
        List.getElem?_append_right (Nat.le_add_right _ _), Nat.add_sub_cancel_left,
        List.getElem?_map, ← hds, hi]
      rfl

/-- **Reading to the end** leaves the code where it is. -/
theorem finish (h : p.Lays s lo hi)
    (hsorted : p.flush.delimiters.Pairwise fun a b => a.place < b.place) :
    Inline.Lays s lo hi p.finish.1 := by
  have hf := h.flush
  refine ⟨hf.events.spread.of_eq (Delimiter.filterMap_resolve hsorted ?_), ?_⟩
  · intro d hd e he
    obtain ⟨e', he', hnone⟩ := hf.marks d hd
    cases he'.symm.trans he
    exact hnone
  · intro e he
    rcases Delimiter.mem_resolve he with he | he
    · exact hf.events.labels e he
    · simp only [List.mem_cons, List.not_mem_nil, or_false] at he
      rcases he with rfl | rfl | rfl | rfl | rfl <;> exact nofun

end Progress.Lays

/-! ### Readers -/

/-- The reader keeps to it, up to every limit. -/
def Reader.Lays (s : Setting) (inner : Reader) : Prop :=
  ∀ {limit pos : Nat} {memo memo' : Memo} {es : List Event}, IsLimit s.src limit → pos ≤ limit →
    inner limit pos memo = .ok (es, memo') → Inline.Lays s pos limit es

section

variable {inner : Reader} {label : Source → Except SyntaxError (List Event)} {stop : Nat}
  (hinner : inner.Lays s) (hlabel : ∀ content es, content.size < s.src.size →
    label content = .ok es → Inline.events s.definitions content = .ok es)
  (hlimit : IsLimit s.src limit)

include hinner hlabel hlimit

/-- **What is read of a construct lies where the construct does.** -/
theorem constructEvents_lays (hpos : pos < limit) {c : Construct} {es : List Event}
    (hstands : c.Stands s.src pos stop) (hwithin : Found.Within s.src limit pos ⟨c, stop⟩)
    (hcovers : c.Covers pos stop)
    (h : constructEvents s.src inner label pos stop memo c = .ok (es, memo')) :
    Lays s pos (min (max stop (pos + 1)) limit) es := by
  have hpast : pos ≤ min (max stop (pos + 1)) limit := by omega
  cases c with
  | plain | lineBreak | delimiters =>
    cases h
    exact .nil hpast
  | hardBreak | escaped | code | math =>
    cases h
    exact .atom hpast rfl rfl
  | link l href title =>
    rw [constructEvents, Except.bind_eq_ok] at h
    obtain ⟨⟨es, memo⟩, hes, h⟩ := h
    cases h
    obtain ⟨hstart, hle, hlt, hend⟩ := hwithin.content l rfl
    have hcovers : l.stop < stop := hcovers
    have hes := hinner hend hle hes
    exact (hes.around (hes.spread.around rfl)).widen (by omega) (by omega)
  | image l target title =>
    rw [constructEvents, Except.bind_eq_ok] at h
    obtain ⟨es, hes, h⟩ := h
    cases h
    have hcovers : pos < l.start := hcovers
    have hsize := hlimit.le_size
    have hes := hlabel _ _ (by rw [Array.size_extract]; omega) hes
    refine ⟨.quiet hpast ?_, ?_⟩
    · rintro _ he
      rw [List.mem_singleton.mp he]
      rfl
    · rintro _ he target' title' content l' inner' heq
      rw [List.mem_singleton.mp he] at heq
      cases heq
      rw [Source.ofString, Source.toString, String.toList_ofList]
      exact hes
  | expression =>
    cases h
    have hle : stop ≤ limit := hwithin.stop_le rfl hlimit
    refine Lays.widen ⟨.expression (s := ⟨pos, stop⟩) hstands, ?_⟩ (Nat.le_refl pos)
      (Nat.le_min.mpr ⟨Nat.le_max_left _ _, hle⟩)
    rintro _ he target title content l inner heq
    rw [List.mem_singleton.mp he] at heq
    cases heq
  | element t =>
    cases h
    have hle : stop ≤ limit := hwithin.stop_le rfl hlimit
    have hstart : t.span.start = pos := congrArg Span.start hcovers
    have hstop : t.span.stop = stop := congrArg Span.stop hcovers
    exact Lays.widen (.around (.nil (Nat.le_refl pos)) (.single hstands)) (by omega) (by omega)
  | pair o c =>
    rw [constructEvents, Except.bind_eq_ok] at h
    obtain ⟨⟨es, memo⟩, hes, h⟩ := h
    cases h
    obtain ⟨-, hinside, -, hend⟩ := hwithin.content _ rfl
    have hle : stop ≤ limit := hwithin.stop_le rfl hlimit
    obtain ⟨hstart, hstop⟩ := hcovers
    have hes := hinner hend hinside hes
    exact (hes.around (.pair hstands hes.spread)).widen (by omega) (by omega)
  | fault f => cases h

/-- **Reading on** keeps the code where it is, up to the position or the limit. -/
theorem readFrom_lays (hsearch : search.Within s.src limit) {lo : Nat} {p q : Progress}
    (hp : p.Lays s lo (min pos limit))
    (h : readFrom s search inner label limit pos p = .ok q) : q.Lays s lo limit := by
  induction hn : limit - pos using Nat.strongRecOn generalizing pos p with
  | ind n ih =>
  rw [readFrom] at h
  split at h
  · next hlt =>
    generalize hr : recognize s search limit pos p.memo = found at h
    obtain ⟨found, memo⟩ := found
    have hpos : min pos limit = pos := Nat.min_eq_left (Nat.le_of_lt hlt)
    have hm : Progress.Lays s lo pos { p with memo } := hp.of_eq (Nat.le_of_eq hpos) rfl rfl
    cases found with
    | none =>
      refine ih (limit - (pos + 1)) (by omega) ?_ h rfl
      exact hm.of_eq (by omega) rfl rfl
    | some f =>
      have hstands := recognize_stands hr
      have hfound : (recognize s search limit pos p.memo).1 = some f := by rw [hr]
      have hwithin := recognize_within hsearch hlt hfound
      have hcovers := recognize_covers hsearch hfound
      obtain ⟨c, stop⟩ := f
      have ih {p : Progress} (hp : p.Lays s lo (min (max stop (pos + 1)) limit))
          (h : readFrom s search inner label limit (max stop (pos + 1)) p = .ok q) :
          q.Lays s lo limit :=
        ih (limit - max stop (pos + 1)) (by omega) hp h rfl
      have hpast : pos ≤ min (max stop (pos + 1)) limit := by omega
      -- plain text, breaks and marks are no code, and everything else is a construct
      dsimp only at h
      split at h
      · refine ih ?_ h
        exact hm.of_eq hpast rfl rfl
      · refine ih ?_ h
        exact hm.addBreak.of_eq hpast rfl rfl
      · refine ih ?_ h
        exact (hm.addDelimiters s.src pos limit).of_eq hpast rfl rfl
      · rw [Except.bind_eq_ok] at h
        obtain ⟨⟨es, memo'⟩, hes, h⟩ := h
        have hes := constructEvents_lays hinner hlabel hlimit hlt hstands hwithin hcovers hes
        refine ih ?_ h
        exact (hm.add hes).of_eq (Nat.le_refl _) rfl rfl
  · next hge =>
    cases h
    rwa [Nat.min_eq_right (Nat.le_of_not_lt hge)] at hp

end

theorem read_lays {label : Source → Except SyntaxError (List Event)}
    (hreads : ∀ content es, label content = .ok es → Reads content es)
    (hlabel : ∀ content es, content.size < s.src.size → label content = .ok es →
      Inline.events s.definitions content = .ok es) (n : Nat) : (read s label n).Lays s := by
  induction n with
  | zero =>
    intro limit pos memo memo' es _ hpos h
    rw [read] at h
    cases h
    have hlays : ((Progress.start memo).addText (s.src.window pos limit)).Lays s pos limit :=
      (Progress.Lays.start hpos memo).of_eq (Nat.le_refl _) rfl rfl
    have hsound : ((Progress.start memo).addText (s.src.window pos limit)).Sound s.src :=
      (Progress.Sound.start s.src memo).of_eq rfl rfl
    exact hlays.finish hsound.flush.sorted
  | succ n ih =>
    intro limit pos memo memo' es hlimit hpos h
    rw [read, Except.bind_eq_ok] at h
    obtain ⟨p, hp, h⟩ := h
    have hfinish : p.finish = (es, memo') := Except.ok.inj h
    have hsound := readFrom_sound (read_correct hreads n) hreads (.start _ memo) hp
    have hstart : (Progress.start memo).Lays s pos (min pos limit) := .start (by omega) memo
    have hlays := readFrom_lays ih hlabel hlimit (labelSearch_within s limit (n + 1)) hstart hp
    have := hlays.finish hsound.flush.sorted
    rwa [hfinish] at this

/-- **The code of a running text is spread in it**, and so is that of the labels of its images. -/
theorem events_lays {definitions : List Block.Definition} {src : Source} {es : List Event}
    (h : Inline.events definitions src = .ok es) : Lays ⟨src, definitions⟩ 0 src.size es := by
  rw [Inline.events, Except.bind_eq_ok] at h
  obtain ⟨⟨es, memo⟩, hes, h⟩ := h
  cases h
  refine Lays.joinTexts (read_lays (s := ⟨src, definitions⟩) (fun content es h => ?_)
    (fun content es hlt h => ?_) maxDepth (.inl rfl) (Nat.zero_le _) hes)
  · split at h
    · exact events_reads h
    · cases h
      exact .nil
  · rwa [dif_pos hlt] at h

end MdxProse.Inline

namespace MdxProse

/-- **Of two pieces of code in a running text, one is the content of the other or comes before
it**, and each covers exactly what it says, in elements and labels of links too.  The path `p` comes
before `q` in the order in which code is reported; the second piece is inside the first one if its
path goes on from there.  The labels of images are running texts of their own. -/
theorem text_code_laminar {definitions : List Block.Definition} {src : Source} {es : List Event}
    (h : Inline.events definitions src = .ok es) : ∃ ns, Node.ofEvents? es = some ns ∧
      (∀ p m, Node.among? ns p = some m → Node.InText ns p → m.kind.isTextCode = true →
        m.kind.Embedded src) ∧
      (∀ p q m n s t, Node.among? ns p = some m → Node.among? ns q = some n →
        Node.InText ns p → Node.InText ns q → p < q →
        m.kind.isTextCode = true → n.kind.isTextCode = true →
        m.kind.span? = some s → n.kind.span? = some t →
        (p <+: q → ∃ o c, m.kind = .textElement o.name ⟨o.span.start, c.span.stop⟩ ∧
          IsPair src o c ∧ o.span.stop ≤ t.start ∧ t.stop ≤ c.span.start) ∧
        (¬ p <+: q → s.stop ≤ t.start)) ∧
      ∀ target title content l inner, Event.leaf (.image target title content) l inner ∈ es →
        Inline.events definitions (Source.ofString content) = .ok inner := by
  have hreads := Inline.events_reads h
  have hlays := Inline.events_lays h
  obtain ⟨ns, hwalk⟩ := Walk.of_settle?
    (fun k l inner he => ((hreads.each _ he).inner k l inner rfl).1) (hreads.neutral [])
  have hlaid := hlays.spread.laid hwalk hreads.each
  refine ⟨ns, hwalk.ofEvents?, fun p m hm hp hcode => hlaid.embedded hm hp hcode, ?_,
    fun target title content l inner he => hlays.labels _ he target title content l inner rfl⟩
  intro p q m n s t hm hn hp hq hpq hcm hcn hs ht
  refine ⟨?_, fun hno => hlaid.code_before hm hn hpq hno hp hq hcm hcn hs ht⟩
  rintro ⟨r, rfl⟩
  refine hlaid.code_inside hm hn ?_ hq hcm hcn ht
  rintro rfl
  rw [List.append_nil] at hpq
  exact List.lt_irrefl p hpq

/-- An element that holds an expression, in the label of a link, and an element after it. -/
theorem text_code_laminar_nested : ∃ es ns l m n o c,
    Inline.events [] (Source.ofString "a [<B>\x7bx\x7d</B>](u) <C/>") = .ok es ∧
      Node.ofEvents? es = some ns ∧ Node.among? ns [1, 0] = some l ∧
      Node.among? ns [1, 0, 0] = some m ∧ Node.among? ns [3] = some n ∧
      m.kind = .textExpression "\x7bx\x7d" ⟨6, 9⟩ ∧ n.kind = .textElement (some "C") ⟨18, 22⟩ ∧
      l.kind = .textElement o.name ⟨o.span.start, c.span.stop⟩ ∧
      IsPair (Source.ofString "a [<B>\x7bx\x7d</B>](u) <C/>") o c ∧
      o.span.stop ≤ 6 ∧ 9 ≤ c.span.start ∧ c.span.stop ≤ 18 := by
  obtain ⟨es, hes, htree⟩ := Inline.exists_ok_of_any
    (x := Inline.events [] (Source.ofString "a [<B>\x7bx\x7d</B>](u) <C/>"))
    (p := fun es => (Node.ofEvents? es).any fun ns =>
      Node.InText ns [1, 0, 0] && Node.InText ns [3] &&
      (Node.among? ns [1, 0]).map Node.kind == some (.textElement (some "B") ⟨3, 13⟩) &&
      (Node.among? ns [1, 0, 0]).map Node.kind == some (.textExpression "\x7bx\x7d" ⟨6, 9⟩) &&
      (Node.among? ns [3]).map Node.kind == some (.textElement (some "C") ⟨18, 22⟩))
    (by decide +kernel)
  obtain ⟨ns, hns, -, hlaminar, -⟩ := text_code_laminar hes
  simp only [hns, Option.any_some, Bool.and_eq_true, decide_eq_true_eq, beq_iff_eq,
    Option.map_eq_some_iff] at htree
  obtain ⟨⟨⟨⟨hin, hin'⟩, l, hl, hkl⟩, m, hm, hkm⟩, n, hn, hkn⟩ := htree
  have hcode {a : Node} {k : Kind} (hk : a.kind = k) (h : k.isTextCode = true) :
      a.kind.isTextCode = true := by rw [hk, h]
  have hspan {a : Node} {k : Kind} (hk : a.kind = k) : a.kind.span? = k.span? := by rw [hk]
  -- the expression is inside the element, and the other element comes after both
  obtain ⟨o, c, hk, hpair, hle⟩ := (hlaminar [1, 0] [1, 0, 0] l m _ _ hl hm (hin.left (q := [0]))
    hin (by decide) (hcode hkl rfl) (hcode hkm rfl) (hspan hkl) (hspan hkm)).1 (by decide)
  have hbefore := (hlaminar [1, 0] [3] l n _ _ hl hn (hin.left (q := [0])) hin' (by decide)
    (hcode hkl rfl) (hcode hkn rfl) (hspan hkl) (hspan hkn)).2 (by decide)
  have hstop : 13 = c.span.stop := congrArg Span.stop (Kind.textElement.inj (hkl.symm.trans hk)).2
  exact ⟨es, ns, l, m, n, o, c, hes, hns, hl, hm, hn, hkm, hkn, hk, hpair, hle.1, hle.2,
    hstop ▸ hbefore⟩

end MdxProse
