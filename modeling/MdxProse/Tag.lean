import MdxProse.Expression
import MdxProse.Text.Blank
import MdxProse.Text.WordChar

/-! # Tags

A tag is `<` or `</`, a name, attributes and `>` or `/>`. A tag without a name is half of a
fragment and takes no attributes; a closing tag takes none either. The reader works on a window and
answers with the tag's name, its form and what follows it; `Tag.scan?` turns that into offsets.
-/

namespace MdxProse

namespace Name

/-- A character that may start a name or a part of one. -/
def isStart (c : Char) : Bool :=
  c.isAlpha || c == '_' || c == '$'

/-- A character that may continue a name. -/
def isPart (c : Char) : Bool :=
  Text.isWordChar c || c == '$' || c == '-'

/-- What follows one part of a name: a start character and all that continue it. -/
def part? : List Char → Option (List Char)
  | [] => none
  | c :: r => if isStart c then some (r.dropWhile isPart) else none

theorem length_part?_lt {w r : List Char} (h : part? w = some r) : r.length < w.length := by
  match w, h with
  | c :: w, h =>
    simp only [part?] at h
    split at h
    · simp only [Option.some.injEq] at h
      have := (List.dropWhile_suffix (l := w) isPart).length_le
      simp only [← h, List.length_cons]
      omega
    · simp at h

/-- What follows the further parts of a name, each after a dot or a colon. -/
def members : List Char → List Char
  | [] => []
  | c :: r =>
    if c == '.' || c == ':' then
      match _h : part? r with
      | some r' => members r'
      | none => c :: r
    else c :: r
termination_by w => w.length
decreasing_by
  have := length_part?_lt _h
  simp only [List.length_cons]
  omega

theorem length_members_le (w : List Char) : (members w).length ≤ w.length := by
  fun_induction members w with
  | case1 | case3 | case4 => simp
  | case2 _ _ _ _ h ih =>
    have := length_part?_lt h
    simp only [List.length_cons]
    omega

/-- What follows the name of a tag: parts joined by dots or colons, as long as possible. -/
def rest? (w : List Char) : Option (List Char) :=
  (part? w).map members

theorem length_rest?_lt {w r : List Char} (h : rest? w = some r) : r.length < w.length := by
  simp only [rest?, Option.map_eq_some_iff] at h
  obtain ⟨r', h', rfl⟩ := h
  have := length_part?_lt h'
  have := length_members_le r'
  omega

end Name

namespace Attribute

/-- What follows the name of an attribute: one part, or two joined by a colon. -/
def name? (w : List Char) : Option (List Char) :=
  (Name.part? w).map fun r =>
    match r with
    | ':' :: r' => (Name.part? r').getD r
    | _ => r

/-- What follows a character equal to `quote`. -/
def quoted? (quote : Char) : List Char → Option (List Char)
  | [] => none
  | c :: r => if c == quote then some r else quoted? quote r

/-- What follows the value of an attribute: a text in quotes or a braced expression. -/
def value? : List Char → Option (List Char)
  | [] => none
  | c :: r =>
    if c == '"' || c == '\'' then quoted? c r
    else if c == '{' then Expression.rest? 0 (c :: r)
    else none

/-- The end of the attribute value at `pos`, below `limit`. -/
def valueStop? (src : Source) (pos limit : Nat) : Option Nat :=
  let w := src.window pos limit
  (value? w).map fun r => pos + (w.length - r.length)

/-- What follows an attribute without its braces: a name, or a name, `=` and a value, all with gaps
between them. -/
def rest? (w : List Char) : Option (List Char) :=
  match name? w with
  | none => none
  | some r =>
    match r.dropWhile Text.isGap with
    | '=' :: r' => value? (r'.dropWhile Text.isGap)
    | r' => some r'

theorem length_quoted?_lt {q : Char} {w r : List Char} (h : quoted? q w = some r) :
    r.length < w.length := by
  induction w with
  | nil => simp [quoted?] at h
  | cons c w ih =>
    simp only [quoted?] at h
    split at h
    · simp only [Option.some.injEq] at h
      simp [h]
    · have := ih h
      simp only [List.length_cons]
      omega

theorem length_value?_lt {w r : List Char} (h : value? w = some r) : r.length < w.length := by
  match w, h with
  | c :: w, h =>
    simp only [value?] at h
    split at h
    · have := length_quoted?_lt h
      simp only [List.length_cons]
      omega
    · split at h
      · exact Expression.length_rest?_lt h
      · simp at h

theorem length_name?_lt {w r : List Char} (h : name? w = some r) : r.length < w.length := by
  simp only [name?, Option.map_eq_some_iff] at h
  obtain ⟨r', h', rfl⟩ := h
  have hlt := Name.length_part?_lt h'
  split
  · next r'' =>
    cases hp : Name.part? r'' with
    | none => simpa using hlt
    | some r3 =>
      have := Name.length_part?_lt hp
      simp only [List.length_cons] at hlt
      simp only [Option.getD_some]
      omega
  · exact hlt

theorem length_rest?_lt {w r : List Char} (h : rest? w = some r) : r.length < w.length := by
  simp only [rest?] at h
  split at h
  · simp at h
  · next r' hn =>
    have := length_name?_lt hn
    have := (List.dropWhile_suffix (l := r') Text.isGap).length_le
    split at h
    · next r'' hd =>
      have := length_value?_lt h
      have := (List.dropWhile_suffix (l := r'') Text.isGap).length_le
      simp only [hd, List.length_cons] at *
      omega
    · simp only [Option.some.injEq] at h
      rw [← h]
      omega

end Attribute

/-- A tag opens an element, closes one, or is a whole element. -/
inductive TagForm
  | opening
  | closing
  | selfClosing
  deriving DecidableEq, Repr, Inhabited

/-- A tag with its place. Fragments have no name. -/
structure Tag where
  name : Option String
  span : Span
  form : TagForm
  deriving DecidableEq, Repr, Inhabited

namespace Tag

/-- Does the tag open an element that another tag has to close? -/
def isOpening (t : Tag) : Bool :=
  t.form == .opening

/-- Does the tag close an element? -/
def isClosing (t : Tag) : Bool :=
  t.form == .closing

/-- The form of a tag and what follows it, read from after its name. Only the opening tag of a
named element may have attributes (`bare` is false). -/
def tail? (closing bare : Bool) (w : List Char) : Option (TagForm × List Char) :=
  match _h : w.dropWhile Text.isGap with
  | [] => none
  | '>' :: r => some (if closing then .closing else .opening, r)
  | '/' :: r =>
    if closing then none
    else match r.dropWhile Text.isGap with
      | '>' :: r' => some (.selfClosing, r')
      | _ => none
  | c :: r =>
    if closing || bare then none
    else
      match _h' : if c == '{' then Expression.rest? 0 (c :: r) else Attribute.rest? (c :: r) with
      | some r' => tail? closing bare r'
      | none => none
termination_by w.length
decreasing_by
  have hle := (List.dropWhile_suffix (l := w) Text.isGap).length_le
  rw [_h] at hle
  split at _h'
  · have := Expression.length_rest?_lt _h'
    omega
  · have := Attribute.length_rest?_lt _h'
    omega

theorem length_tail?_lt {closing bare : Bool} {w r : List Char} {f : TagForm}
    (h : tail? closing bare w = some (f, r)) : r.length < w.length := by
  fun_induction tail? closing bare w with
  | case1 | case3 | case5 | case6 | case8 => simp at h
  | case2 w r' hd =>
    have hle := (List.dropWhile_suffix (l := w) Text.isGap).length_le
    simp only [Option.some.injEq, Prod.mk.injEq] at h
    simp only [hd, List.length_cons] at hle
    rw [← h.2]
    omega
  | case4 w r' hd _ r'' hd' =>
    have hle := (List.dropWhile_suffix (l := w) Text.isGap).length_le
    have hle' := (List.dropWhile_suffix (l := r') Text.isGap).length_le
    simp only [Option.some.injEq, Prod.mk.injEq] at h
    simp only [hd, hd', List.length_cons] at hle hle'
    rw [← h.2]
    omega
  | case7 w c r' _ _ hd _ _ h' ih =>
    have hle := (List.dropWhile_suffix (l := w) Text.isGap).length_le
    rw [hd] at hle
    have := ih h
    split at h'
    · have := Expression.length_rest?_lt h'
      omega
    · have := Attribute.length_rest?_lt h'
      omega

/-- The name, form and rest of a tag, read from after `<` or `</`. -/
def body? (closing : Bool) (w : List Char) : Option (Option String × TagForm × List Char) :=
  match Name.rest? w with
  | some r =>
    (tail? closing false r).map fun (f, r') =>
      (some (String.ofList (w.take (w.length - r.length))), f, r')
  | none =>
    match w with
    | '>' :: _ => (tail? closing true w).map fun (f, r') => (none, f, r')
    | _ => none

/-- The name, form and rest of the tag at the start of a window. -/
def read? : List Char → Option (Option String × TagForm × List Char)
  | '<' :: '/' :: r => body? true r
  | '<' :: r => body? false r
  | _ => none

theorem length_body?_lt {closing : Bool} {w r : List Char} {n : Option String} {f : TagForm}
    (h : body? closing w = some (n, f, r)) : r.length < w.length := by
  simp only [body?] at h
  split at h
  · next r' hn =>
    simp only [Option.map_eq_some_iff, Prod.mk.injEq, Prod.exists] at h
    obtain ⟨f', r'', ht, _, _, rfl⟩ := h
    have := Name.length_rest?_lt hn
    have := length_tail?_lt ht
    omega
  · split at h
    · simp only [Option.map_eq_some_iff, Prod.mk.injEq, Prod.exists] at h
      obtain ⟨f', r'', ht, _, _, rfl⟩ := h
      exact length_tail?_lt ht
    · simp at h

theorem length_read?_lt {w r : List Char} {n : Option String} {f : TagForm}
    (h : read? w = some (n, f, r)) : r.length < w.length := by
  unfold read? at h
  split at h
  · have := length_body?_lt h
    simp only [List.length_cons]
    omega
  · have := length_body?_lt h
    simp only [List.length_cons]
    omega
  · simp at h

/-- The tag that starts at `pos` and ends at `limit` or before. -/
def scan? (src : Source) (pos limit : Nat) : Option Tag :=
  let w := src.window pos limit
  (read? w).map fun (name, form, r) => ⟨name, ⟨pos, pos + (w.length - r.length)⟩, form⟩

theorem start_of_scan? {src : Source} {pos limit : Nat} {t : Tag}
    (h : scan? src pos limit = some t) : t.span.start = pos := by
  simp only [scan?, Option.map_eq_some_iff] at h
  obtain ⟨_, _, rfl⟩ := h
  rfl

/-- **A tag is not empty and stays below the limit.** -/
theorem stop_of_scan? {src : Source} {pos limit : Nat} {t : Tag}
    (h : scan? src pos limit = some t) : pos < t.span.stop ∧ t.span.stop ≤ limit := by
  simp only [scan?, Option.map_eq_some_iff] at h
  obtain ⟨⟨n, f, r⟩, hr, rfl⟩ := h
  have := length_read?_lt hr
  have := src.length_window_le pos limit
  constructor <;> dsimp only <;> omega

end Tag

end MdxProse
