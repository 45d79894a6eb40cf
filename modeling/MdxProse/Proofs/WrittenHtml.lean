import MdxProse.Proofs.CommentEnds

/-!
# HTML read back

A tree can be told from the text it is written as, if its names are names, none of its texts are
empty or stand next to each other, and its comments end where they should.  `Html.decode?` reads the
tree back: it cuts the text into tokens and puts these together with a stack of open elements.

* `Html.isNormal`: a tree that can be told from its text.
* `Html.unescape_escape`: escaping loses nothing.  `Html.token?_text`, `Html.token?_opening` and so
  on: **each token is read back before everything that may follow it.**
* `Html.tokens?_writeAll`: a written row of trees is cut into its tokens.
* `Html.build?_tokensAll`: the tokens are put together again.
* `written_trees_decoded`: **normal trees are read back, and so no two of them are written alike.**
-/

namespace MdxProse

namespace Html

/-! ### Trees that can be read back -/

/-- A character of a name. -/
def isNameChar (c : Char) : Bool :=
  c.isAlphanum || c == '-'

/-- A name of a tag or an attribute: a letter, then letters, digits and hyphens. -/
def isName (s : String) : Bool :=
  match s.toList with
  | [] => false
  | c :: r => c.isAlpha && r.all isNameChar

/-- Is the node a text? -/
def isText : Html → Bool
  | .text _ => true
  | _ => false

mutual
/-- Can the node be told from what is written?  Its names are names, its texts are not empty, its
comments do not leak, and elements without a closing tag are empty. -/
def isNormal : Html → Bool
  | .element tag attributes children =>
    isName tag && attributes.all (fun a => isName a.1) && (!isVoid tag || children.isEmpty) &&
      areNormal children
  | .text value => value != ""
  | .comment value => !decide (Leaks value)
/-- Can the nodes be told from what is written?  Besides, no two texts stand next to each other. -/
def areNormal : List Html → Bool
  | [] => true
  | n :: ns => isNormal n && !(n.isText && (ns.head?.any isText)) && areNormal ns
end

/-! ### Tokens -/

/-- A piece of a written tree. -/
inductive Token
  | opening (tag : String) (attributes : List (String × String))
  | closing (tag : String)
  | text (value : String)
  | comment (value : String)
  deriving DecidableEq, Repr

mutual
/-- The tokens of a tree. -/
def tokens : Html → List Token
  | .element tag attributes children =>
    .opening tag attributes :: if isVoid tag then [] else tokensAll children ++ [.closing tag]
  | .text value => [.text value]
  | .comment value => [.comment value]
/-- The tokens of several trees. -/
def tokensAll : List Html → List Token
  | [] => []
  | n :: ns => tokens n ++ tokensAll ns
end

/-- A text without its escapes. -/
def unescape : List Char → List Char
  | '&' :: 'a' :: 'm' :: 'p' :: ';' :: r => '&' :: unescape r
  | '&' :: 'l' :: 't' :: ';' :: r => '<' :: unescape r
  | '&' :: 'g' :: 't' :: ';' :: r => '>' :: unescape r
  | '&' :: 'q' :: 'u' :: 'o' :: 't' :: ';' :: r => '"' :: unescape r
  | c :: r => c :: unescape r
  | [] => []

/-- The attributes of an opening tag, and what follows its bracket. -/
def attributes? (w : List Char) : Option (List (String × String) × List Char) :=
  match w with
  | '>' :: r => some ([], r)
  | ' ' :: w =>
    match _h : w.dropWhile isNameChar with
    | '=' :: '"' :: v =>
      match _h' : v.dropWhile (· != '"') with
      | [] => none
      | _ :: r =>
        (attributes? r).map fun (as, r') =>
          ((String.ofList (w.takeWhile isNameChar),
            String.ofList (unescape (v.takeWhile (· != '"')))) :: as, r')
    | _ => none
  | _ => none
termination_by w.length
decreasing_by
  have hw := (List.dropWhile_suffix (l := w) isNameChar).length_le
  have hv := (List.dropWhile_suffix (l := v) (· != '"')).length_le
  rw [_h] at hw
  rw [_h'] at hv
  simp only [List.length_cons] at *
  omega

/-- The token at the start of a text, and what follows it. -/
def token? : List Char → Option (Token × List Char)
  | [] => none
  | '<' :: '!' :: '-' :: '-' :: w =>
    (Text.indexOf? commentEnd w).map fun i => (.comment (String.ofList (w.take i)), w.drop (i + 3))
  | '<' :: '/' :: w =>
    match w.dropWhile isNameChar with
    | '>' :: r => some (.closing (String.ofList (w.takeWhile isNameChar)), r)
    | _ => none
  | '<' :: w =>
    (attributes? (w.dropWhile isNameChar)).map fun (as, r) =>
      (.opening (String.ofList (w.takeWhile isNameChar)) as, r)
  | c :: w => some (.text (String.ofList (unescape (c :: w.takeWhile (· != '<')))),
      w.dropWhile (· != '<'))

theorem length_attributes?_lt {w r : List Char} {as : List (String × String)}
    (h : attributes? w = some (as, r)) : r.length < w.length := by
  fun_induction attributes? w generalizing as with
  | case1 r' =>
    cases h
    exact Nat.lt_succ_self _
  | case2 | case4 | case5 => cases h
  | case3 w v hw _ r' hv ih =>
    obtain ⟨⟨as', r''⟩, hr, he⟩ := Option.map_eq_some_iff.mp h
    cases he
    have := ih hr
    have hwle := (List.dropWhile_suffix (l := w) isNameChar).length_le
    have hvle := (List.dropWhile_suffix (l := v) (· != '"')).length_le
    rw [hw] at hwle
    rw [hv] at hvle
    simp only [List.length_cons] at *
    omega

theorem length_token?_lt {w r : List Char} {t : Token} (h : token? w = some (t, r)) :
    r.length < w.length := by
  unfold token? at h
  split at h
  · cases h
  · next w =>
    obtain ⟨i, -, he⟩ := Option.map_eq_some_iff.mp h
    cases he
    simp only [List.length_drop, List.length_cons]
    omega
  · next w =>
    have hle := (List.dropWhile_suffix (l := w) isNameChar).length_le
    split at h
    · next r' hd =>
      cases h
      rw [hd] at hle
      simp only [List.length_cons] at *
      omega
    · cases h
  · next w _ _ =>
    have hle := (List.dropWhile_suffix (l := w) isNameChar).length_le
    obtain ⟨⟨as, r'⟩, hr, he⟩ := Option.map_eq_some_iff.mp h
    cases he
    have := length_attributes?_lt hr
    rw [List.length_cons]
    omega
  · next c w _ _ _ =>
    cases h
    exact Nat.lt_succ_of_le (List.dropWhile_suffix _).length_le

/-- The tokens of a text. -/
def tokens? (w : List Char) : Option (List Token) :=
  if w.isEmpty then some []
  else
    match _h : token? w with
    | none => none
    | some (t, r) => (tokens? r).map (t :: ·)
termination_by w.length
decreasing_by exact length_token?_lt _h

/-- An element that is open: its tag, its attributes and its earlier siblings, last first. -/
structure Unclosed where
  tag : String
  attributes : List (String × String)
  before : List Html

/-- The trees that the tokens make up, read on from `done`, the nodes so far at this level, last
first, inside the elements `open_`, innermost first. -/
def build? : List Token → List Unclosed → List Html → Option (List Html)
  | [], [], done => some done.reverse
  | [], _ :: _, _ => none
  | .text value :: ts, open_, done => build? ts open_ (.text value :: done)
  | .comment value :: ts, open_, done => build? ts open_ (.comment value :: done)
  | .opening tag as :: ts, open_, done =>
    if isVoid tag then build? ts open_ (.element tag as [] :: done)
    else build? ts (⟨tag, as, done⟩ :: open_) []
  | .closing tag :: ts, o :: open_, done =>
    if o.tag = tag then build? ts open_ (.element o.tag o.attributes done.reverse :: o.before)
    else none
  | .closing _ :: _, [], _ => none

/-- The trees that are written as the text. -/
def decode? (s : String) : Option (List Html) :=
  (tokens? s.toList).bind fun ts => build? ts [] []

/-! ### Escapes -/

theorem span_stops {p : Char → Bool} {u r : List Char} (hu : ∀ c ∈ u, p c = true)
    (hr : ∀ c ∈ r.head?, p c = false) : (u ++ r).takeWhile p = u ∧ (u ++ r).dropWhile p = r := by
  rw [List.takeWhile_append_of_pos hu, List.dropWhile_append_of_pos hu]
  cases r with
  | nil => exact ⟨List.append_nil u, rfl⟩
  | cons c r =>
    have hc : ¬ p c = true := by simp [hr c rfl]
    rw [List.takeWhile_cons_of_neg hc, List.dropWhile_cons_of_neg hc, List.append_nil]
    exact ⟨rfl, rfl⟩

theorem unescape_cons {c : Char} (hc : c ≠ '&') (w : List Char) :
    unescape (c :: w) = c :: unescape w := by
  rw [unescape]
  all_goals exact fun _ h => absurd h hc

/-- **An escaped character is read back**, and it is made of some characters, none of which is a
bracket or a quote. -/
theorem escapeChar_spec (c : Char) : (∀ w, unescape (escapeChar c ++ w) = c :: unescape w) ∧
    escapeChar c ≠ [] ∧ ((escapeChar c).all fun d => d != '<' && d != '"') = true := by
  rw [escapeChar]
  split
  · next h =>
    obtain rfl := beq_iff_eq.mp h
    exact ⟨fun w => rfl, by decide, by decide⟩
  split
  · next h =>
    obtain rfl := beq_iff_eq.mp h
    exact ⟨fun w => rfl, by decide, by decide⟩
  split
  · next h =>
    obtain rfl := beq_iff_eq.mp h
    exact ⟨fun w => rfl, by decide, by decide⟩
  split
  · next h =>
    obtain rfl := beq_iff_eq.mp h
    exact ⟨fun w => rfl, by decide, by decide⟩
  · next hamp hlt _ hquote =>
    refine ⟨unescape_cons (by simpa using hamp), List.cons_ne_nil _ _, ?_⟩
    simpa using And.intro hlt hquote

/-- **Escaping loses nothing.** -/
theorem unescape_escape (v : List Char) : unescape (v.flatMap escapeChar) = v := by
  induction v with
  | nil => rfl
  | cons c v ih => rw [List.flatMap_cons, (escapeChar_spec c).1, ih]

theorem ne_of_mem_escape {v : List Char} {d : Char} (h : d ∈ v.flatMap escapeChar) :
    (d != '<') = true ∧ (d != '"') = true := by
  obtain ⟨c, -, hd⟩ := List.mem_flatMap.mp h
  exact (Bool.and_eq_true _ _).mp (List.all_eq_true.mp (escapeChar_spec c).2.2 d hd)

/-! ### Names -/

theorem exists_of_isName {s : String} (h : isName s = true) : ∃ c r, s.toList = c :: r ∧
    c.isAlpha = true ∧ ∀ d ∈ c :: r, isNameChar d = true := by
  rw [isName] at h
  split at h
  · cases h
  · next c r hs =>
    rw [Bool.and_eq_true, List.all_eq_true] at h
    refine ⟨c, r, hs, h.1, List.forall_mem_cons.mpr ⟨?_, h.2⟩⟩
    rw [isNameChar, Char.isAlphanum, h.1, Bool.true_or, Bool.true_or]

theorem span_name {s : String} (h : isName s = true) {r : List Char}
    (hr : ∀ c ∈ r.head?, isNameChar c = false) :
    String.ofList ((s.toList ++ r).takeWhile isNameChar) = s ∧
      (s.toList ++ r).dropWhile isNameChar = r := by
  obtain ⟨c, u, hs, -, hall⟩ := exists_of_isName h
  obtain ⟨htake, hdrop⟩ := span_stops (hs ▸ hall) hr
  rw [htake, hdrop, String.ofList_toList]
  exact ⟨rfl, rfl⟩

/-! ### Tokens read back -/

theorem attributes?_written (attributes : List (String × String)) (r : List Char)
    (h : attributes.all (fun a => isName a.1) = true) :
    attributes? ((writeAttributes attributes).toList ++ '>' :: r) = some (attributes, r) := by
  induction attributes with
  | nil => rw [writeAttributes, String.toList_empty, List.nil_append, attributes?]
  | cons a rest ih =>
    obtain ⟨name, value⟩ := a
    rw [List.all_cons, Bool.and_eq_true] at h
    have hvalue : ∀ c ∈ value.toList.flatMap escapeChar, (c != '"') = true := fun c hc => by
      simpa using (ne_of_mem_escape hc).2
    obtain ⟨hname, hafter⟩ := span_name h.1 (r := '=' :: '"' :: (value.toList.flatMap escapeChar ++
      '"' :: ((writeAttributes rest).toList ++ '>' :: r))) (by simp [isNameChar])
    obtain ⟨htake, hdrop⟩ := span_stops hvalue (r := '"' :: ((writeAttributes rest).toList ++
      '>' :: r)) (by simp)
    have hwritten : (writeAttributes ((name, value) :: rest)).toList ++ '>' :: r =
        ' ' :: (name.toList ++ '=' :: '"' :: (value.toList.flatMap escapeChar ++
          '"' :: ((writeAttributes rest).toList ++ '>' :: r))) := by
      simp [writeAttributes, escape]
    rw [hwritten, attributes?]
    split
    · next v hv =>
      obtain ⟨-, rfl⟩ := List.cons.inj (List.cons.inj (hv.symm.trans hafter)).2
      split
      · next hnil => cases hnil.symm.trans hdrop
      · next r' hr' =>
        obtain ⟨-, rfl⟩ := List.cons.inj (hr'.symm.trans hdrop)
        rw [ih h.2, hname, htake, unescape_escape, String.ofList_toList]
        rfl
    · next hno => exact absurd hafter (hno _)

/-- **A text is read back** before a bracket and at the end. -/
theorem token?_text {s : String} (hs : s ≠ "") {r : List Char}
    (hr : ∀ c ∈ r.head?, c = '<') :
    token? ((escape s).toList ++ r) = some (.text s, r) := by
  have hplain : ∀ c ∈ s.toList.flatMap escapeChar, (c != '<') = true :=
    fun c hc => (ne_of_mem_escape hc).1
  obtain ⟨htake, hdrop⟩ := span_stops hplain (r := r) fun c hc => by simp [hr c hc]
  have hback := unescape_escape s.toList
  rw [escape, String.toList_ofList]
  cases he : s.toList.flatMap escapeChar with
  | nil =>
    rw [he] at hback
    exact absurd (String.toList_eq_nil_iff.mp hback.symm) hs
  | cons c u =>
    rw [he] at htake hdrop hplain hback
    have hc : c ≠ '<' := by simpa using hplain c List.mem_cons_self
    rw [List.cons_append] at *
    rw [List.takeWhile_cons_of_pos (by simpa using hc), List.cons.injEq] at htake
    rw [List.dropWhile_cons_of_pos (by simpa using hc)] at hdrop
    rw [token?, htake.2, hdrop, hback, String.ofList_toList]
    · exact fun _ h => absurd h hc
    · exact fun _ h => absurd h hc
    · exact hc

/-- **A comment is read back** if it does not leak. -/
theorem token?_comment {s : String} (hs : ¬ Leaks s) (r : List Char) :
    token? ((write (.comment s)).toList ++ r) = some (.comment s, r) := by
  have hwritten : (write (.comment s)).toList ++ r =
      '<' :: '!' :: '-' :: '-' :: (s.toList ++ commentEnd ++ r) := by
    simp [write, commentEnd]
  have hdrop : (s.toList ++ commentEnd ++ r).drop (s.toList.length + 3) = r := by
    rw [show s.toList.length + 3 = (s.toList ++ commentEnd).length by simp [commentEnd],
      List.drop_left]
  rw [hwritten, token?, indexOf?_commentEnd hs r, Option.map_some, hdrop, List.append_assoc,
    List.take_left, String.ofList_toList]

theorem token?_closing {tag : String} (htag : isName tag = true) (r : List Char) :
    token? ('<' :: '/' :: (tag.toList ++ '>' :: r)) = some (.closing tag, r) := by
  obtain ⟨hname, hafter⟩ := span_name htag (r := '>' :: r) (by simp [isNameChar])
  rw [token?, hafter]
  exact congrArg (fun t => some (Token.closing t, r)) hname

theorem token?_opening {tag : String} {attributes : List (String × String)}
    (htag : isName tag = true) (hattributes : attributes.all (fun a => isName a.1) = true)
    (r : List Char) : token? ('<' :: (tag.toList ++ ((writeAttributes attributes).toList ++
      '>' :: r))) = some (.opening tag attributes, r) := by
  have hhead : ∀ c ∈ ((writeAttributes attributes).toList ++ '>' :: r).head?,
      isNameChar c = false := by
    cases attributes <;> simp [writeAttributes, isNameChar]
  obtain ⟨hname, hafter⟩ := span_name htag hhead
  obtain ⟨c, u, hs, hletter, -⟩ := exists_of_isName htag
  rw [hs, List.cons_append] at hname hafter ⊢
  rw [token?, hafter, hname, attributes?_written attributes r hattributes]
  · rfl
  · intro w h
    rw [(List.cons.inj h).1] at hletter
    cases hletter
  · intro w h
    rw [(List.cons.inj h).1] at hletter
    cases hletter

/-! ### Trees read back -/

theorem tokens?_token {w r : List Char} {t : Token} (h : token? w = some (t, r)) :
    tokens? w = (tokens? r).map (t :: ·) := by
  have hlt := length_token?_lt h
  rw [tokens?.eq_def w, if_neg]
  · split
    · next hno => cases hno.symm.trans h
    · next t' r' hsome =>
      cases hsome.symm.trans h
      rfl
  · rw [List.isEmpty_iff]
    rintro rfl
    exact Nat.not_lt_zero _ hlt

theorem areNormal_cons {n : Html} {ns : List Html} (h : areNormal (n :: ns) = true) :
    isNormal n = true ∧ (n.isText = true → ∀ m ∈ ns.head?, m.isText = false) ∧
      areNormal ns = true := by
  rw [areNormal, Bool.and_eq_true, Bool.and_eq_true] at h
  obtain ⟨⟨hn, htext⟩, hns⟩ := h
  refine ⟨hn, fun ht m hm => ?_, hns⟩
  rw [ht, Bool.true_and, Bool.not_eq_true', hm, Option.any_some] at htext
  exact htext

/-- What is written of nodes that do not start with a text starts with a bracket. -/
theorem head?_writeAll {ns : List Html} (hns : ∀ m ∈ ns.head?, m.isText = false) {r : List Char}
    (hr : ∀ c ∈ r.head?, c = '<') : ∀ c ∈ ((writeAll ns).toList ++ r).head?, c = '<' := by
  cases ns with
  | nil => simpa [writeAll] using hr
  | cons m ns =>
    have hm := hns m rfl
    cases m with
    | text value => cases hm
    | comment value => simp [writeAll, write]
    | element tag attributes children =>
      rw [writeAll, write]
      split <;> simp

mutual
theorem tokens?_write : (n : Html) → n.isNormal = true → (r : List Char) →
    (n.isText = true → ∀ c ∈ r.head?, c = '<') →
    tokens? ((write n).toList ++ r) = (tokens? r).map (n.tokens ++ ·)
  | .text value, h, r, hr => by
    rw [isNormal, bne_iff_ne] at h
    rw [write, tokens?_token (token?_text h (hr rfl))]
    rfl
  | .comment value, h, r, _ => by
    rw [isNormal, Bool.not_eq_true', decide_eq_false_iff_not] at h
    rw [tokens?_token (token?_comment h r)]
    rfl
  | .element tag attributes children, h, r, _ => by
    rw [isNormal, Bool.and_eq_true, Bool.and_eq_true, Bool.and_eq_true] at h
    obtain ⟨⟨⟨htag, hattributes⟩, hvoid⟩, hchildren⟩ := h
    rw [write, tokens]
    by_cases hv : isVoid tag = true
    · have hwritten : ("<" ++ tag ++ writeAttributes attributes ++ ">").toList ++ r =
          '<' :: (tag.toList ++ ((writeAttributes attributes).toList ++ '>' :: r)) := by simp
      rw [if_pos hv, if_pos hv, hwritten, tokens?_token (token?_opening htag hattributes r)]
      rfl
    · have hwritten : ("<" ++ tag ++ writeAttributes attributes ++ ">" ++ writeAll children ++
            "</" ++ tag ++ ">").toList ++ r =
          '<' :: (tag.toList ++ ((writeAttributes attributes).toList ++ '>' ::
            ((writeAll children).toList ++ '<' :: '/' :: (tag.toList ++ '>' :: r)))) := by simp
      rw [if_neg hv, if_neg hv, hwritten, tokens?_token (token?_opening htag hattributes _),
        tokens?_writeAll children hchildren _ (by simp), tokens?_token (token?_closing htag r),
        Option.map_map, Option.map_map]
      congr 1
      funext ts
      simp
/-- **A written row of trees is cut into its tokens.** -/
theorem tokens?_writeAll : (ns : List Html) → areNormal ns = true → (r : List Char) →
    (∀ c ∈ r.head?, c = '<') →
    tokens? ((writeAll ns).toList ++ r) = (tokens? r).map (tokensAll ns ++ ·)
  | [], _, r, _ => by
    rw [writeAll, tokensAll, String.toList_empty, List.nil_append]
    simp
  | n :: ns, h, r, hr => by
    obtain ⟨hn, htext, hns⟩ := areNormal_cons h
    rw [writeAll, tokensAll, String.toList_append, List.append_assoc,
      tokens?_write n hn _ fun ht => head?_writeAll (htext ht) hr, tokens?_writeAll ns hns r hr,
      Option.map_map]
    congr 1
    funext ts
    exact (List.append_assoc _ _ _).symm
end

mutual
theorem build?_tokens : (n : Html) → n.isNormal = true → (ts : List Token) →
    (open_ : List Unclosed) → (done : List Html) →
    build? (n.tokens ++ ts) open_ done = build? ts open_ (n :: done)
  | .text value, _, ts, open_, done => by rw [tokens, List.singleton_append, build?]
  | .comment value, _, ts, open_, done => by rw [tokens, List.singleton_append, build?]
  | .element tag attributes children, h, ts, open_, done => by
    rw [isNormal, Bool.and_eq_true, Bool.and_eq_true, Bool.or_eq_true] at h
    obtain ⟨⟨-, hvoid⟩, hchildren⟩ := h
    rw [tokens, List.cons_append, build?]
    by_cases hv : isVoid tag = true
    · obtain rfl : children = [] := by simpa [hv] using hvoid
      rw [if_pos hv, if_pos hv, List.nil_append]
    · rw [if_neg hv, if_neg hv, List.append_assoc, build?_tokensAll children hchildren,
        List.singleton_append, build?, if_pos rfl, List.append_nil, List.reverse_reverse]
/-- **The tokens of a row of trees are put together to the trees.** -/
theorem build?_tokensAll : (ns : List Html) → areNormal ns = true → (ts : List Token) →
    (open_ : List Unclosed) → (done : List Html) →
    build? (tokensAll ns ++ ts) open_ done = build? ts open_ (ns.reverse ++ done)
  | [], _, ts, open_, done => by rw [tokensAll, List.nil_append, List.reverse_nil, List.nil_append]
  | n :: ns, h, ts, open_, done => by
    obtain ⟨hn, -, hns⟩ := areNormal_cons h
    rw [tokensAll, List.append_assoc, build?_tokens n hn, build?_tokensAll ns hns,
      List.reverse_cons, List.append_assoc, List.singleton_append]
end

theorem decode?_writeAll {ns : List Html} (h : areNormal ns = true) :
    decode? (writeAll ns) = some ns := by
  have hnil : tokens? [] = some [] := by
    rw [tokens?]
    rfl
  have htokens := tokens?_writeAll ns h [] (by simp)
  rw [List.append_nil, hnil, Option.map_some, List.append_nil] at htokens
  have hbuild := build?_tokensAll ns h [] [] []
  rw [List.append_nil, List.append_nil, build?, List.reverse_reverse] at hbuild
  rw [decode?, htokens, Option.bind_some, hbuild]

end Html

open Html

/-- **Writing a tree loses nothing.**  The trees of a normal row are read back from what is written
of them, so no other normal row is written alike. -/
theorem written_trees_decoded {ns : List Html} (h : areNormal ns = true) :
    decode? (writeAll ns) = some ns ∧
      ∀ ms, areNormal ms = true → writeAll ms = writeAll ns → ms = ns := by
  refine ⟨decode?_writeAll h, fun ms hms hwritten => ?_⟩
  have hback := decode?_writeAll hms
  rw [hwritten, decode?_writeAll h] at hback
  exact (Option.some.inj hback).symm

/-- A text that looks like markup, a comment that ends in dashes, an element without a closing tag,
and attributes whose values hold quotes and brackets. -/
theorem written_trees_decoded_nested : ∃ ns : List Html, areNormal ns = true ∧
    writeAll ns = "<p id=\"&quot;&gt;\" x-y=\"\">&lt;b&gt; &amp;amp;<br><em></em></p><!-- -- -->" ∧
    decode? (writeAll ns) = some ns := by
  let ns : List Html := [.element "p" [("id", "\">"), ("x-y", "")]
    [.text "<b> &amp;", .element "br" [] [], .element "em" [] []], .comment " -- "]
  have hnormal : areNormal ns = true := by decide +kernel
  exact ⟨ns, hnormal, by decide +kernel, (written_trees_decoded hnormal).1⟩

end MdxProse
