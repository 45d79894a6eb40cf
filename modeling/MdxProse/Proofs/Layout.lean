import MdxProse.Block.Container
import MdxProse.Proofs.Nesting
import MdxProse.Proofs.TagLocality

/-!
# Where block code stands

Block code is the code that stands by itself: module statements, expressions and elements that are
blocks.  `Laid src top lo hi ns` says that the block code of the nodes `ns` stands in the source
between the offsets `lo` and `hi`, one piece after the other, the content of an element between its
two tags.  Module statements stand at the top only.

* `Laid.exact`: **the span of a piece of block code covers exactly that piece.**
* `Laid.bounds`: all block code is between the two offsets.
* `Laid.inside`, `Laid.before`: **of two pieces of block code, one is inside the other or comes
  before it.**
* `Walk.tighten`: marking the paragraphs of a list as tight changes nothing.
-/

namespace MdxProse

/-- Is the node code that stands by itself? -/
def Kind.isBlockCode : Kind → Bool
  | .esm .. | .flowExpression .. | .flowElement .. => true
  | _ => false

/-- Where a kind of node stands. -/
inductive Kind.Layer
  | block
  /-- The running text of a block, as a whole. -/
  | running
  | text
  deriving DecidableEq

/-- A kind of node is either a block, or running text, or a part of that. -/
def Kind.layer : Kind → Kind.Layer
  | .inline _ => .running
  | .text _ | .escaped _ | .softBreak | .hardBreak | .emphasis | .strong | .code _ | .math _
  | .link .. | .image .. | .textExpression .. | .textElement .. => .text
  | _ => .block

theorem Kind.isBlockCode_of_layer {k : Kind} (h : k.layer = .text) : k.isBlockCode = false := by
  cases k <;> first | rfl | cases h

/-- Are there nodes below a node of the kind? Below all others there is nothing. -/
def Kind.holdsNodes : Kind → Bool
  | .root | .paragraph _ | .heading _ | .blockquote | .bulletList | .orderedList _ | .listItem
  | .inline _ | .emphasis | .strong | .link .. | .image .. | .flowElement .. | .textElement .. =>
    true
  | _ => false

/-! ### Exact spans -/

/-- A module statement and what follows it, up to the first line without text. -/
structure IsStatement (src : Source) (s : Span) : Prop where
  lt : s.start < s.stop
  le_size : s.stop ≤ src.size
  /-- It starts at the beginning of a line. -/
  start : s.start = 0 ∨ src[s.start - 1]? = some '\n'
  /-- Its lines are those of the rest of the text up to the first one without text. -/
  lines : Text.splitOn '\n' (src.window s.start s.stop) =
    (Text.splitOn '\n' (src.window s.start src.size)).takeWhile fun l => !l.all Text.isSpace

/-- An element of one tag. -/
structure IsSingle (src : Source) (t : Tag) : Prop where
  scan : Tag.scan? src t.span.start src.size = some t
  form : t.form = .selfClosing

/-- The two tags of an element. -/
structure IsPair (src : Source) (o c : Tag) : Prop where
  opener : Tag.scan? src o.span.start src.size = some o
  opening : o.form = .opening
  closer : Tag.scan? src c.span.start src.size = some c
  closing : c.form = .closing
  name : c.name = o.name
  le : o.span.stop ≤ c.span.start

/-- The node is a piece of block code, and its span covers exactly that piece. -/
inductive Kind.Exact (src : Source) : Kind → Prop
  | statement {s : Span} : IsStatement src s → Exact src (.esm (src.cover s) s)
  | expression {s : Span} : Expression.stop? src s.start src.size = some s.stop →
      Exact src (.flowExpression (src.cover s) s)
  | single {t : Tag} : IsSingle src t → Exact src (.flowElement t.name t.span)
  | pair {o c : Tag} : IsPair src o c →
      Exact src (.flowElement o.name ⟨o.span.start, c.span.stop⟩)

/-! ### Layout -/

/-- The block code of the nodes stands between the two offsets, one piece after the other. -/
inductive Laid (src : Source) : (top : Bool) → (lo hi : Nat) → List Node → Prop
  | nil {top : Bool} {lo hi : Nat} : lo ≤ hi → Laid src top lo hi []
  | other {top : Bool} {lo mid hi : Nat} {k : Kind} {l : Option LineRange} {cs ns : List Node} :
      k.isBlockCode = false → Laid src false lo mid cs → Laid src top mid hi ns →
      Laid src top lo hi (.mk k l cs :: ns)
  | statement {lo hi : Nat} {s : Span} {l : Option LineRange} {ns : List Node} :
      lo ≤ s.start → IsStatement src s → Laid src true s.stop hi ns →
      Laid src true lo hi (.mk (.esm (src.cover s) s) l [] :: ns)
  | expression {top : Bool} {lo hi : Nat} {s : Span} {l : Option LineRange} {ns : List Node} :
      lo ≤ s.start → Expression.stop? src s.start src.size = some s.stop →
      Laid src top s.stop hi ns →
      Laid src top lo hi (.mk (.flowExpression (src.cover s) s) l [] :: ns)
  | single {top : Bool} {lo hi : Nat} {t : Tag} {l : Option LineRange} {ns : List Node} :
      lo ≤ t.span.start → IsSingle src t → Laid src top t.span.stop hi ns →
      Laid src top lo hi (.mk (.flowElement t.name t.span) l [] :: ns)
  | pair {top : Bool} {lo hi : Nat} {o c : Tag} {l : Option LineRange} {cs ns : List Node} :
      lo ≤ o.span.start → IsPair src o c → Laid src false o.span.stop c.span.start cs →
      Laid src top c.span.stop hi ns →
      Laid src top lo hi (.mk (.flowElement o.name ⟨o.span.start, c.span.stop⟩) l cs :: ns)

variable {src : Source} {top : Bool} {lo mid hi : Nat} {ns ns' : List Node}

theorem IsSingle.lt {t : Tag} (h : IsSingle src t) : t.span.start < t.span.stop :=
  (Tag.stop_of_scan? h.scan).1

theorem IsPair.opener_lt {o c : Tag} (h : IsPair src o c) : o.span.start < o.span.stop :=
  (Tag.stop_of_scan? h.opener).1

theorem IsPair.closer_lt {o c : Tag} (h : IsPair src o c) : c.span.start < c.span.stop :=
  (Tag.stop_of_scan? h.closer).1

theorem IsSingle.bounds {t : Tag} (h : IsSingle src t) :
    t.span.start < t.span.stop ∧ t.span.stop ≤ src.size :=
  ⟨h.lt, Tag.stop_le_size h.scan⟩

theorem IsPair.bounds {o c : Tag} (h : IsPair src o c) :
    o.span.start < c.span.stop ∧ c.span.stop ≤ src.size := by
  have ho := h.opener_lt
  have hc := h.closer_lt
  have hle := h.le
  exact ⟨by omega, Tag.stop_le_size h.closer⟩

/-- **The span of exact block code is not empty and stays in the text.** -/
theorem Kind.Exact.bounds {k : Kind} {s : Span} (h : k.Exact src) (hs : k.span? = some s) :
    s.start < s.stop ∧ s.stop ≤ src.size := by
  cases h with
  | statement h =>
    cases hs
    exact ⟨h.lt, h.le_size⟩
  | expression h =>
    cases hs
    exact ⟨Expression.lt_of_stop? h, Expression.stop_le_size h⟩
  | single h =>
    cases hs
    exact h.bounds
  | pair h =>
    cases hs
    exact h.bounds

namespace Laid

theorem le (h : Laid src top lo hi ns) : lo ≤ hi := by
  induction h with
  | nil h => exact h
  | other _ _ _ ihc ih => exact Nat.le_trans ihc ih
  | statement hl hs _ ih =>
    have := hs.lt
    omega
  | expression hl hs _ ih =>
    have := Expression.lt_of_stop? hs
    omega
  | single hl hs _ ih =>
    have := hs.lt
    omega
  | pair hl hs _ _ ihc ih =>
    have := hs.opener_lt
    have := hs.closer_lt
    omega

theorem widen_left {lo' : Nat} (h : Laid src top lo hi ns) (hl : lo' ≤ lo) :
    Laid src top lo' hi ns := by
  induction h generalizing lo' with
  | nil h => exact .nil (Nat.le_trans hl h)
  | other hk _ hns ihc _ => exact .other hk (ihc hl) hns
  | statement hs hi hns _ => exact .statement (Nat.le_trans hl hs) hi hns
  | expression hs hi hns _ => exact .expression (Nat.le_trans hl hs) hi hns
  | single hs hi hns _ => exact .single (Nat.le_trans hl hs) hi hns
  | pair hs hi hcs hns _ _ => exact .pair (Nat.le_trans hl hs) hi hcs hns

theorem append (h : Laid src top lo mid ns) (h' : Laid src top mid hi ns') :
    Laid src top lo hi (ns ++ ns') := by
  induction h with
  | nil h => exact h'.widen_left h
  | other hk hcs _ _ ih => exact .other hk hcs (ih h')
  | statement hs hi _ ih => exact .statement hs hi (ih h')
  | expression hs hi _ ih => exact .expression hs hi (ih h')
  | single hs hi _ ih => exact .single hs hi (ih h')
  | pair hs hi hcs _ _ ih => exact .pair hs hi hcs (ih h')

theorem widen {lo' hi' : Nat} (h : Laid src top lo hi ns) (hl : lo' ≤ lo) (hr : hi ≤ hi') :
    Laid src top lo' hi' ns := by
  have := (h.widen_left hl).append (.nil hr)
  rwa [List.append_nil] at this

theorem of_each {top : Bool} {lo hi : Nat} {ns : List Node} (hle : lo ≤ hi)
    (h : ∀ n ∈ ns, n.Each (fun _ => false) (fun k => k.isBlockCode = false)) :
    Laid src top lo hi ns := by
  match ns with
  | [] => exact .nil hle
  | .mk k l cs :: ns =>
    obtain ⟨hk, hcs⟩ := h _ List.mem_cons_self
    exact .other hk (of_each (Nat.le_refl lo) (hcs rfl))
      (of_each hle fun n hn => h n (List.mem_cons_of_mem _ hn))
termination_by sizeOf ns

/-! ### What a layout tells of the nodes at paths -/

theorem split (h : Laid src top lo hi (ns ++ ns')) :
    ∃ mid, Laid src top lo mid ns ∧ Laid src top mid hi ns' := by
  induction ns generalizing lo with
  | nil => exact ⟨lo, .nil (Nat.le_refl lo), h⟩
  | cons n ns ih =>
    cases h with
    | other hk hcs hns =>
      obtain ⟨mid, h₁, h₂⟩ := ih hns
      exact ⟨mid, .other hk hcs h₁, h₂⟩
    | statement hs hi hns =>
      obtain ⟨mid, h₁, h₂⟩ := ih hns
      exact ⟨mid, .statement hs hi h₁, h₂⟩
    | expression hs hi hns =>
      obtain ⟨mid, h₁, h₂⟩ := ih hns
      exact ⟨mid, .expression hs hi h₁, h₂⟩
    | single hs hi hns =>
      obtain ⟨mid, h₁, h₂⟩ := ih hns
      exact ⟨mid, .single hs hi h₁, h₂⟩
    | pair hs hi hcs hns =>
      obtain ⟨mid, h₁, h₂⟩ := ih hns
      exact ⟨mid, .pair hs hi hcs h₁, h₂⟩

theorem split_at (h : Laid src top lo hi ns) {i : Nat} {n : Node} (hn : ns[i]? = some n) :
    ∃ a b, Laid src top lo a (ns.take i) ∧ Laid src top a b [n] ∧
      Laid src top b hi (ns.drop (i + 1)) := by
  obtain ⟨hi', rfl⟩ := List.getElem?_eq_some_iff.mp hn
  rw [← List.take_append_drop i ns, List.drop_eq_getElem_cons hi'] at h
  obtain ⟨a, h₁, h₂⟩ := h.split
  rw [← List.singleton_append] at h₂
  obtain ⟨b, h₂, h₃⟩ := h₂.split
  exact ⟨a, b, h₁, h₂, h₃⟩

theorem children {n : Node} (h : Laid src top lo hi [n]) :
    ∃ a b, lo ≤ a ∧ b ≤ hi ∧ Laid src false a b n.children := by
  cases h with
  | other _ hcs hns => exact ⟨_, _, Nat.le_refl _, hns.le, hcs⟩
  | statement hs hi hns =>
    exact ⟨_, _, Nat.le_trans hs (Nat.le_of_lt hi.lt), hns.le, .nil (Nat.le_refl _)⟩
  | expression hs hi hns =>
    have := Expression.lt_of_stop? hi
    exact ⟨_, _, Nat.le_trans hs (Nat.le_of_lt this), hns.le, .nil (Nat.le_refl _)⟩
  | single hs hi hns =>
    exact ⟨_, _, Nat.le_trans hs (Nat.le_of_lt hi.lt), hns.le, .nil (Nat.le_refl _)⟩
  | pair hs hi hcs hns =>
    have := hi.opener_lt
    have := hi.closer_lt
    have := hns.le
    exact ⟨_, _, by omega, by omega, hcs⟩

/-- **The node at the end of a path is laid out by itself**, and at the top only if it is one of
the nodes themselves. -/
theorem among (h : Laid src top lo hi ns) {p : List Nat} {n : Node}
    (hn : Node.among? ns p = some n) :
    ∃ top' a b, lo ≤ a ∧ b ≤ hi ∧ Laid src top' a b [n] ∧
      (top' = true → top = true ∧ p.length = 1) := by
  induction p generalizing top lo hi ns with
  | nil => cases hn
  | cons i p ih =>
    rw [Node.among?, Option.bind_eq_some_iff] at hn
    obtain ⟨m, hm, hn⟩ := hn
    obtain ⟨a, b, h₁, h₂, h₃⟩ := h.split_at hm
    have hle₁ := h₁.le
    have hle₃ := h₃.le
    cases p with
    | nil =>
      cases hn
      exact ⟨top, a, b, hle₁, hle₃, h₂, fun ht => ⟨ht, rfl⟩⟩
    | cons j p =>
      obtain ⟨a', b', ha, hb, hcs⟩ := h₂.children
      obtain ⟨top', a'', b'', ha', hb', hl, ht⟩ := ih hcs hn
      exact ⟨top', a'', b'', by omega, by omega, hl, fun h => absurd (ht h).1 (by decide)⟩

theorem exact_single {n : Node} (h : Laid src top lo hi [n]) (hb : n.kind.isBlockCode = true) :
    n.kind.Exact src := by
  cases h with
  | other hk _ _ => exact absurd hb (by simp [Node.kind, hk])
  | statement _ hs _ => exact .statement hs
  | expression _ hs _ => exact .expression hs
  | single _ hs _ => exact .single hs
  | pair _ hs _ _ => exact .pair hs

theorem bounds_single {n : Node} {s : Span} (h : Laid src top lo hi [n])
    (hb : n.kind.isBlockCode = true) (hs : n.kind.span? = some s) : lo ≤ s.start ∧ s.stop ≤ hi := by
  cases h with
  | other hk _ _ => exact absurd hb (by simp [Node.kind, hk])
  | statement hl _ hns | expression hl _ hns | single hl _ hns | pair hl _ _ hns =>
    cases hs
    exact ⟨hl, hns.le⟩

/-- **The span of a piece of block code covers exactly that piece.** -/
theorem exact (h : Laid src top lo hi ns) {p : List Nat} {n : Node}
    (hn : Node.among? ns p = some n) (hb : n.kind.isBlockCode = true) : n.kind.Exact src := by
  obtain ⟨_, _, _, _, _, hl, _⟩ := h.among hn
  exact hl.exact_single hb

/-- **All block code is between the two offsets.** -/
theorem bounds (h : Laid src top lo hi ns) {p : List Nat} {n : Node} {s : Span}
    (hn : Node.among? ns p = some n) (hb : n.kind.isBlockCode = true)
    (hs : n.kind.span? = some s) : lo ≤ s.start ∧ s.stop ≤ hi := by
  obtain ⟨_, a, b, ha, hb', hl, _⟩ := h.among hn
  have := hl.bounds_single hb hs
  omega

/-- **Module statements stand at the top only.** -/
theorem top_of_esm (h : Laid src top lo hi ns) {p : List Nat} {n : Node} {c : String} {s : Span}
    (hn : Node.among? ns p = some n) (hk : n.kind = .esm c s) : top = true ∧ p.length = 1 := by
  obtain ⟨top', _, _, _, _, hl, ht⟩ := h.among hn
  cases hl with
  | other hk' _ _ =>
    cases hk
    cases hk'
  | statement => exact ht rfl
  | expression => cases hk
  | single => cases hk
  | pair => cases hk

/-- Block code below a node is the content of an element, between its two tags. -/
theorem inside (h : Laid src top lo hi ns) {p q : List Nat} {m n : Node} {s : Span}
    (hm : Node.among? ns p = some m) (hn : Node.among? m.children q = some n)
    (hbm : m.kind.isBlockCode = true) (hb : n.kind.isBlockCode = true)
    (hs : n.kind.span? = some s) :
    ∃ o c, m.kind = .flowElement o.name ⟨o.span.start, c.span.stop⟩ ∧ IsPair src o c ∧
      o.span.stop ≤ s.start ∧ s.stop ≤ c.span.start := by
  obtain ⟨_, _, _, _, _, hl, _⟩ := h.among hm
  cases hl with
  | other hk _ _ => exact absurd hbm (by simp [Node.kind, hk])
  | statement _ _ _ | expression _ _ _ | single _ _ _ =>
    cases q <;> simp [Node.children, Node.among?] at hn
  | @pair _ _ _ o c _ cs _ _ hi hcs _ => exact ⟨o, c, rfl, hi, hcs.bounds hn hb hs⟩

/-- **Block code that is not below another piece comes after it**, if it is entered later. -/
theorem before (h : Laid src top lo hi ns) {p q : List Nat} {m n : Node} {s t : Span}
    (hm : Node.among? ns p = some m) (hn : Node.among? ns q = some n) (hpq : p < q)
    (hno : ¬ p <+: q) (hbm : m.kind.isBlockCode = true) (hbn : n.kind.isBlockCode = true)
    (hs : m.kind.span? = some s) (ht : n.kind.span? = some t) : s.stop ≤ t.start := by
  induction p generalizing top lo hi ns q with
  | nil => cases hm
  | cons i p ih =>
    cases q with
    | nil => cases hn
    | cons j q =>
      rw [Node.among?, Option.bind_eq_some_iff] at hm hn
      obtain ⟨a, ha, hm⟩ := hm
      obtain ⟨b, hb, hn⟩ := hn
      obtain ⟨x, y, h₁, h₂, h₃⟩ := h.split_at ha
      rcases List.cons_lt_cons_iff.mp hpq with hij | ⟨rfl, hlt⟩
      · have hn' : Node.among? (ns.drop (i + 1)) ((j - (i + 1)) :: q) = some n := by
          rw [Node.among?, List.getElem?_drop, Nat.add_sub_cancel' hij, hb]
          exact hn
        have := h₂.bounds (p := 0 :: p) hm hbm hs
        have := h₃.bounds hn' hbn ht
        omega
      · rw [ha] at hb
        cases hb
        cases p with
        | nil => exact absurd (List.prefix_cons_inj i |>.mpr (List.nil_prefix)) hno
        | cons k p =>
          cases q with
          | nil => exact absurd hlt (List.not_lt_nil _)
          | cons l q =>
            obtain ⟨_, _, _, _, hcs⟩ := h₂.children
            exact ih hcs hm (q := l :: q) hn hlt fun hp => hno ((List.prefix_cons_inj i).mpr hp)

/-- Other nodes of the same layout may take the place of those inside a node and after it. -/
theorem replace {k : Kind} {l l' : Option LineRange} {cs cs' : List Node}
    (h : Laid src top lo hi (.mk k l cs :: ns)) (hnil : cs = [] → cs' = [])
    (hcs : ∀ lo hi, Laid src false lo hi cs → Laid src false lo hi cs')
    (hns : ∀ lo hi, Laid src top lo hi ns → Laid src top lo hi ns') :
    Laid src top lo hi (.mk k l' cs' :: ns') := by
  cases h with
  | other hk h₁ h₂ => exact .other hk (hcs _ _ h₁) (hns _ _ h₂)
  | statement hl hs h₂ =>
    rw [hnil rfl]
    exact .statement hl hs (hns _ _ h₂)
  | expression hl hs h₂ =>
    rw [hnil rfl]
    exact .expression hl hs (hns _ _ h₂)
  | single hl hs h₂ =>
    rw [hnil rfl]
    exact .single hl hs (hns _ _ h₂)
  | pair hl hs h₁ h₂ => exact .pair hl hs (hcs _ _ h₁) (hns _ _ h₂)

end Laid

/-! ### Tight lists -/

/-- What becomes of a node of a tight list that is entered below `depth` others. -/
def Kind.tightened (depth : Nat) : Kind → Kind
  | .paragraph tight => .paragraph (tight || depth = 1)
  | k => k

theorem Kind.layer_tightened (depth : Nat) (k : Kind) : (k.tightened depth).layer = k.layer := by
  cases k <;> rfl

theorem Kind.holdsNodes_tightened (depth : Nat) (k : Kind) :
    (k.tightened depth).holdsNodes = k.holdsNodes := by
  cases k <;> rfl

namespace Block.Items

theorem tighten_enter (depth : Nat) (k : Kind) (l : Option LineRange) (es : List Event) :
    tighten depth (.enter k l :: es) =
      .enter (k.tightened depth) l :: tighten (depth + 1) es := by
  by_cases hd : depth = 1
  · cases k <;> simp [tighten, Kind.tightened, hd]
  · cases k <;> simp [tighten, Kind.tightened, hd]

theorem tighten_leaving (depth : Nat) (k : Kind) (es : List Event) :
    tighten (depth + 1) (Event.leaving k :: es) =
      Event.leaving (k.tightened depth) :: tighten depth es := by
  cases k <;> rfl

end Block.Items

theorem Laid.tightened {k : Kind} {l : Option LineRange} {cs : List Node} (depth : Nat)
    (h : Laid src top lo hi (.mk k l cs :: ns)) :
    Laid src top lo hi (.mk (k.tightened depth) l cs :: ns) := by
  cases k with
  | paragraph tight =>
    cases h with
    | other _ hcs hns => exact .other rfl hcs hns
  | _ => exact h

/-- **Marking the paragraphs of a list as tight changes nothing about the layout.** -/
theorem Walk.tighten {es : List Event} (h : Walk es ns) (depth : Nat) :
    ∃ ns', (∀ rest, Block.Items.tighten depth (es ++ rest) =
        Block.Items.tighten depth es ++ Block.Items.tighten depth rest) ∧
      Walk (Block.Items.tighten depth es) ns' ∧ (ns = [] → ns' = []) ∧
      ∀ top lo hi, Laid src top lo hi ns → Laid src top lo hi ns' := by
  induction h generalizing depth with
  | nil => exact ⟨[], fun _ => rfl, .nil, fun _ => rfl, fun _ _ _ h => h⟩
  | @leaf k l inner es cs ns hi _ ih =>
    obtain ⟨ns', hrest, hwalk, hnil, hlaid⟩ := ih depth
    refine ⟨.mk k l cs :: ns', fun rest => ?_, .leaf hi hwalk, nofun, fun top lo hi h => ?_⟩
    · rw [List.cons_append, Block.Items.tighten, hrest, Block.Items.tighten, List.cons_append]
    · exact h.replace id (fun _ _ h => h) (hlaid top)
  | @around k l inside es cs ns _ _ ihc ih =>
    obtain ⟨cs', hrestc, hwalkc, hnilc, hlaidc⟩ := ihc (depth + 1)
    obtain ⟨ns', hrest, hwalk, -, hlaid⟩ := ih depth
    have heq : ∀ rest, Block.Items.tighten depth (Event.around k l inside ++ rest) =
        Event.around (k.tightened depth) l (Block.Items.tighten (depth + 1) inside) ++
          Block.Items.tighten depth rest := by
      intro rest
      simp only [Event.around, List.cons_append, List.append_assoc, List.nil_append,
        Block.Items.tighten_enter, hrestc, Block.Items.tighten_leaving]
    refine ⟨.mk (k.tightened depth) l cs' :: ns', fun rest => ?_, ?_, nofun, fun top lo hi h => ?_⟩
    · rw [List.append_assoc, heq, heq, hrest, List.append_assoc]
    · rw [heq]
      exact .around hwalkc hwalk
    · exact (h.replace hnilc (hlaidc false) (hlaid top)).tightened depth

end MdxProse
