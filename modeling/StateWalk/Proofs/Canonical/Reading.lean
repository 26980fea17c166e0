import Mathlib.Data.List.Basic
import StateWalk.Canonical.Printer

/-!
# Reading canonical text

Nothing but a tree's text prints as the tree, so what a canonical text stands for can be read off it.

A text is read without building the tree: `skip` leaves out the first value, and what follows is left
(`skip_render`). Numbers and keywords have no end of their own, so this needs something behind them that no
word goes on with. From that a text is read in one way only (`render_append_inj`). The first character tells
the kind of a tree (`kindOf_render`), and a list or an object falls into its parts in one way
(`items_of_render_eq`, `members_of_render_eq`).

Of a float nothing is read but where its text ends.
-/

namespace StateWalk.Canonical

/-! ## Texts -/

/-- What a letter behind a backslash stands for. -/
def standsFor (c : Char) : Char :=
  if c = 'n' then '\n'
  else if c = 'r' then '\r'
  else if c = 't' then '\t'
  else if c = 'b' then '\x08'
  else if c = 'f' then '\x0c'
  else c

/-- The characters of a text, from what is printed between its quotation marks. -/
def unescape : List Char → List Char
  | '\\' :: 'u' :: _ :: _ :: high :: low :: cs =>
    Char.ofNat (16 * Text.hexValue high + Text.hexValue low) :: unescape cs
  | '\\' :: c :: cs => standsFor c :: unescape cs
  | c :: cs => c :: unescape cs
  | [] => []

/-- A character stands for itself, or is written with a backslash and a letter, or with the backslash and its
number. -/
theorem escaped_cases (c : Char) :
    (c ≠ '"' ∧ c ≠ '\\' ∧ escaped c = [c]) ∨
      (∃ letter, letter ≠ 'u' ∧ standsFor letter = c ∧ escaped c = ['\\', letter]) ∨
      (c.toNat < 32 ∧ escaped c = '\\' :: 'u' :: Text.hexDigits 4 c.toNat) := by
  rw [escaped]
  split
  case isTrue mark =>
    obtain rfl | rfl := mark
    · exact .inr (.inl ⟨'"', by decide, by decide, rfl⟩)
    · exact .inr (.inl ⟨'\\', by decide, by decide, rfl⟩)
  case isFalse mark =>
  split
  case isTrue eq => exact .inr (.inl ⟨'n', by decide, eq.symm, rfl⟩)
  split
  case isTrue eq => exact .inr (.inl ⟨'r', by decide, eq.symm, rfl⟩)
  split
  case isTrue eq => exact .inr (.inl ⟨'t', by decide, eq.symm, rfl⟩)
  split
  case isTrue eq => exact .inr (.inl ⟨'b', by decide, eq.symm, rfl⟩)
  split
  case isTrue eq => exact .inr (.inl ⟨'f', by decide, eq.symm, rfl⟩)
  split
  case isTrue control => exact .inr (.inr ⟨control, rfl⟩)
  exact .inl ⟨fun eq => mark (.inl eq), fun eq => mark (.inr eq), rfl⟩

theorem hexDigits_four (n : Nat) : Text.hexDigits 4 n =
    [Nat.digitChar (n / 16 / 16 / 16 % 16), Nat.digitChar (n / 16 / 16 % 16), Nat.digitChar (n / 16 % 16),
      Nat.digitChar (n % 16)] := rfl

theorem hexValue_digits : ∀ n < 32,
    16 * Text.hexValue (Nat.digitChar (n / 16 % 16)) + Text.hexValue (Nat.digitChar (n % 16)) = n := by
  decide

theorem unescape_escaped (c : Char) (cs : List Char) : unescape (escaped c ++ cs) = c :: unescape cs := by
  obtain ⟨-, plain, eq⟩ | ⟨letter, short, rfl, eq⟩ | ⟨control, eq⟩ := escaped_cases c
  · rw [eq, List.singleton_append, unescape]
    all_goals simp [plain]
  · rw [eq, List.cons_append, List.singleton_append, unescape]
    simp [short]
  · rw [eq, hexDigits_four]
    simp only [List.cons_append, List.nil_append]
    rw [unescape, hexValue_digits _ control, Char.ofNat_toNat]

theorem unescape_flatMap (cs : List Char) : unescape (cs.flatMap escaped) = cs := by
  induction cs with
  | nil => rfl
  | cons c cs ih => rw [List.flatMap_cons, unescape_escaped, ih]

theorem renderText_injective : Function.Injective renderText := by
  intro s t eq
  rw [renderText, renderText, List.cons_inj_right] at eq
  have bodies := List.append_cancel_right eq
  have chars := congrArg unescape bodies
  rw [unescape_flatMap, unescape_flatMap] at chars
  exact String.toList_injective chars

/-! ## Numbers -/

theorem repr_inj {m n : Nat} (h : m.repr.toList = n.repr.toList) : m = n := by
  rw [Nat.toList_repr, Nat.toList_repr] at h
  have value := congrArg (Nat.ofDigitChars 10 · 0) h
  simpa only [Nat.ofDigitChars_ten_toDigits] using value

theorem head_repr_ne (n : Nat) : n.repr.toList.head? ≠ some '-' := by
  intro found
  have mem : '-' ∈ Nat.toDigits 10 n := by
    rw [← Nat.toList_repr]
    exact List.mem_of_mem_head? found
  exact absurd (Nat.isDigit_of_mem_toDigits (by decide) (by decide) mem) (by decide)

theorem renderInt_injective : Function.Injective renderInt := by
  intro m n eq
  rw [renderInt, renderInt] at eq
  split at eq <;> split at eq
  · have same := repr_inj (List.tail_eq_of_cons_eq eq)
    omega
  · exact absurd (congrArg List.head? eq.symm) (head_repr_ne n.natAbs)
  · exact absurd (congrArg List.head? eq) (head_repr_ne m.natAbs)
  · have same := repr_inj eq
    omega

/-- A character of a number or a keyword. -/
def isWordChar (c : Char) : Bool := c.isAlphanum || c == '+' || c == '-' || c == '.'

/-- A number or a keyword. -/
def IsWord (cs : List Char) : Prop := cs ≠ [] ∧ ∀ c ∈ cs, isWordChar c = true

theorem isWord_of_all {cs : List Char} (h : cs ≠ [] ∧ cs.all isWordChar = true) : IsWord cs :=
  ⟨h.1, List.all_eq_true.1 h.2⟩

theorem isWord_toDigits (n : Nat) : IsWord (Nat.toDigits 10 n) := by
  refine ⟨Nat.toDigits_ne_nil, fun c mem => ?_⟩
  have digit : c.isDigit = true := Nat.isDigit_of_mem_toDigits (by decide) (by decide) mem
  simp [isWordChar, Char.isAlphanum, digit]

theorem IsWord.cons {c : Char} {cs : List Char} (h : isWordChar c = true) (hs : ∀ c ∈ cs, isWordChar c = true) :
    IsWord (c :: cs) :=
  ⟨List.cons_ne_nil c cs, List.forall_mem_cons.2 ⟨h, hs⟩⟩

theorem isWord_renderInt (n : Int) : IsWord (renderInt n) := by
  have digits : IsWord n.natAbs.repr.toList := by
    rw [Nat.toList_repr]
    exact isWord_toDigits _
  rw [renderInt]
  split
  · exact .cons (by decide) digits.2
  · exact digits

theorem isWordChar_of_mem_replicate {n : Nat} : ∀ c ∈ List.replicate n '0', isWordChar c = true := by
  intro c mem
  rw [List.eq_of_mem_replicate mem]
  decide

theorem isWord_exponent (l : Layout) (e : Int) : IsWord (l.exponent e) := by
  have sign : isWordChar (if e < 0 then '-' else '+') = true := by
    split <;> decide
  refine .cons (by decide) (List.forall_mem_cons.2 ⟨sign, ?_⟩)
  exact List.forall_mem_append.2 ⟨isWordChar_of_mem_replicate, (isWord_toDigits _).2⟩

theorem isWord_positional {ds : List Char} (h : IsWord ds) (e : Int) :
    IsWord (if e < 0 then '0' :: '.' :: (List.replicate (-e - 1).toNat '0' ++ ds)
      else if ds.length ≤ e.toNat + 1 then ds ++ List.replicate (e.toNat + 1 - ds.length) '0' ++ ['.', '0']
      else ds.take (e.toNat + 1) ++ '.' :: ds.drop (e.toNat + 1)) := by
  split
  · have fraction := List.forall_mem_append.2 ⟨isWordChar_of_mem_replicate (n := (-e - 1).toNat), h.2⟩
    exact .cons (by decide) (List.forall_mem_cons.2 ⟨by decide, fraction⟩)
  split
  · have whole := List.forall_mem_append.2
      ⟨h.2, isWordChar_of_mem_replicate (n := e.toNat + 1 - ds.length)⟩
    exact ⟨by simp, List.forall_mem_append.2 ⟨whole, List.all_eq_true.1 rfl⟩⟩
  · have before : ∀ c ∈ ds.take (e.toNat + 1), isWordChar c = true :=
      fun c mem => h.2 c (List.mem_of_mem_take mem)
    have behind : ∀ c ∈ ds.drop (e.toNat + 1), isWordChar c = true :=
      fun c mem => h.2 c (List.mem_of_mem_drop mem)
    exact ⟨by simp, List.forall_mem_append.2 ⟨before, List.forall_mem_cons.2 ⟨by decide, behind⟩⟩⟩

theorem isWord_digits (l : Layout) {ds : List Char} (h : IsWord ds) (e : Int) : IsWord (l.digits ds e) := by
  rw [Layout.digits.eq_def]
  split
  · exact isWord_positional h e
  · cases ds with
    | nil => exact absurd rfl h.1
    | cons d rest =>
      obtain ⟨first, others⟩ := List.forall_mem_cons.1 h.2
      cases rest with
      | nil => exact .cons first (isWord_exponent l e).2
      | cons d' rest =>
        have behind := List.forall_mem_append.2 ⟨others, (isWord_exponent l e).2⟩
        exact .cons first (List.forall_mem_cons.2 ⟨by decide, behind⟩)

theorem isWord_write (x : Binary64) : IsWord (x.write Layout.keys) := by
  have magnitude : IsWord (x.writeMagnitude Layout.keys) := by
    rw [Binary64.writeMagnitude]
    split
    · exact isWord_of_all (by decide)
    · exact isWord_of_all (by decide)
    · split
      · exact isWord_digits _ (isWord_of_all (by decide)) _
      · exact isWord_digits _ (isWord_toDigits _) _
  rw [Binary64.write]
  split
  · exact .cons (by decide) magnitude.2
  · exact magnitude

/-! ## What is left -/

/-- What is left of a text behind the end of its innermost open value: a text, if `quoted`, in that many
brackets. -/
def leave : (quoted : Bool) → (depth : Nat) → List Char → List Char
  | _, _, [] => []
  | true, depth, c :: cs =>
    if c = '\\' then
      match cs with
      | [] => []
      | _ :: cs => leave true depth cs
    else if c = '"' then if depth = 0 then cs else leave false depth cs
    else leave true depth cs
  | false, depth, c :: cs =>
    if c = '"' then leave true depth cs
    else if c = '[' ∨ c = '\x7b' then leave false (depth + 1) cs
    else if c = ']' ∨ c = '\x7d' then if depth ≤ 1 then cs else leave false (depth - 1) cs
    else leave false depth cs

theorem leave_escape (depth : Nat) (c : Char) (cs : List Char) :
    leave true depth ('\\' :: c :: cs) = leave true depth cs := rfl

theorem leave_end (depth : Nat) (cs : List Char) :
    leave true depth ('"' :: cs) = if depth = 0 then cs else leave false depth cs := by
  cases cs <;> rfl

theorem leave_quotation (depth : Nat) (cs : List Char) : leave false depth ('"' :: cs) = leave true depth cs :=
  rfl

/-- What is left of a text that begins with a value behind this value. -/
def skip : List Char → List Char
  | [] => []
  | c :: cs => if isWordChar c then (c :: cs).dropWhile isWordChar else leave false 0 (c :: cs)

theorem leave_true_cons {c : Char} (mark : c ≠ '"') (plain : c ≠ '\\') (depth : Nat) (cs : List Char) :
    leave true depth (c :: cs) = leave true depth cs := by
  cases cs <;> exact (if_neg plain).trans (if_neg mark)

theorem digitChar_ne : ∀ n < 16, Nat.digitChar n ≠ '"' ∧ Nat.digitChar n ≠ '\\' := by
  decide

theorem leave_escaped (depth : Nat) (c : Char) (cs : List Char) :
    leave true depth (escaped c ++ cs) = leave true depth cs := by
  obtain ⟨mark, plain, eq⟩ | ⟨letter, short, rfl, eq⟩ | ⟨control, eq⟩ := escaped_cases c
  · rw [eq, List.singleton_append, leave_true_cons mark plain]
  · rw [eq, List.cons_append, List.singleton_append, leave_escape]
  · have digit (n : Nat) := digitChar_ne (n % 16) (Nat.mod_lt n (by decide))
    rw [eq, hexDigits_four]
    simp only [List.cons_append, List.nil_append]
    rw [leave_escape, leave_true_cons (digit _).1 (digit _).2, leave_true_cons (digit _).1 (digit _).2,
      leave_true_cons (digit _).1 (digit _).2, leave_true_cons (digit _).1 (digit _).2]

theorem leave_text (depth : Nat) (s : String) (cs : List Char) :
    leave false depth (renderText s ++ cs) = if depth = 0 then cs else leave false depth cs := by
  have body : ∀ chars : List Char, leave true depth (chars.flatMap escaped ++ '"' :: cs) =
      if depth = 0 then cs else leave false depth cs := by
    intro chars
    induction chars with
    | nil => rw [List.flatMap_nil, List.nil_append, leave_end]
    | cons c chars ih => rw [List.flatMap_cons, List.append_assoc, leave_escaped, ih]
  rw [renderText, List.cons_append, leave_quotation, List.append_assoc, List.singleton_append, body]

/-- A character that neither opens nor closes anything. -/
def isInert (c : Char) : Bool := isWordChar c || c == ',' || c == ':'

theorem leave_inert {c : Char} (inert : isInert c = true) (depth : Nat) (cs : List Char) :
    leave false depth (c :: cs) = leave false depth cs := by
  have mark : c ≠ '"' := by
    rintro rfl
    cases inert
  have opens : ¬ (c = '[' ∨ c = '\x7b') := by
    rintro (rfl | rfl) <;> cases inert
  have closes : ¬ (c = ']' ∨ c = '\x7d') := by
    rintro (rfl | rfl) <;> cases inert
  exact (if_neg mark).trans ((if_neg opens).trans (if_neg closes))

theorem leave_word {word : List Char} (inert : ∀ c ∈ word, isWordChar c = true) (depth : Nat)
    (cs : List Char) : leave false depth (word ++ cs) = leave false depth cs := by
  induction word with
  | nil => rfl
  | cons c word ih =>
    rw [List.forall_mem_cons] at inert
    rw [List.cons_append, leave_inert (by simp [isInert, inert.1]), ih inert.2]

/-- What holds of scalars, and of arrays and objects if it holds of what they hold, holds of every tree. -/
theorem induction {motive : Canonical → Prop} (null : motive null) (bool : ∀ b, motive (bool b))
    (int : ∀ n, motive (int n)) (float : ∀ x, motive (float x)) (text : ∀ s, motive (text s))
    (array : ∀ items, (∀ c ∈ items, motive c) → motive (array items))
    (object : ∀ members, (∀ m ∈ members, motive m.2) → motive (object members)) (c : Canonical) : motive c := by
  have all := @Canonical.rec motive (fun items => ∀ c ∈ items, motive c)
    (fun members => ∀ m ∈ members, motive m.2) (fun m => motive m.2) null bool int float text array object
    (List.forall_mem_nil _) (fun _ _ first others => List.forall_mem_cons.2 ⟨first, others⟩)
    (List.forall_mem_nil _) (fun _ _ first others => List.forall_mem_cons.2 ⟨first, others⟩)
    (fun _ _ value => value)
  exact all c

/-- A list of items inside brackets is left behind if every item is. -/
theorem leave_intercalate {items : List (List Char)} {depth : Nat}
    (each : ∀ item ∈ items, ∀ cs, leave false depth (item ++ cs) = leave false depth cs) (cs : List Char) :
    leave false depth (List.intercalate [','] items ++ cs) = leave false depth cs := by
  induction items with
  | nil => rfl
  | cons item items ih =>
    rw [List.forall_mem_cons] at each
    cases items with
    | nil => rw [List.intercalate_singleton, each.1]
    | cons item' items =>
      rw [List.intercalate_cons_cons, List.append_assoc, List.append_assoc, each.1, List.singleton_append,
        leave_inert (by decide), ih each.2]

theorem leave_bracketed {opening closing : Char} (opens : opening = '[' ∨ opening = '\x7b')
    (closes : closing = ']' ∨ closing = '\x7d') {items : List (List Char)} {depth : Nat}
    (each : ∀ item ∈ items, ∀ cs, leave false (depth + 1) (item ++ cs) = leave false (depth + 1) cs)
    (cs : List Char) :
    leave false depth (opening :: (List.intercalate [','] items ++ [closing]) ++ cs) =
      if depth = 0 then cs else leave false depth cs := by
  have opened (rest) : leave false depth (opening :: rest) = leave false (depth + 1) rest := by
    obtain rfl | rfl := opens <;> rfl
  have closed : leave false (depth + 1) (closing :: cs) = if depth = 0 then cs else leave false depth cs := by
    cases depth <;> obtain rfl | rfl := closes <;> rfl
  rw [List.cons_append, opened, List.append_assoc, leave_intercalate each, List.singleton_append, closed]

/-- The printed members of an object. -/
theorem leave_member {depth : Nat} (positive : depth ≠ 0) {member : String × List Char}
    (value : ∀ cs, leave false depth (member.2 ++ cs) = leave false depth cs) (cs : List Char) :
    leave false depth (renderMember member ++ cs) = leave false depth cs := by
  rw [renderMember, List.append_assoc, leave_text, if_neg positive, List.cons_append, leave_inert (by decide),
    value]

/-- Numbers and keywords; they have no end of their own. -/
def isWord : Canonical → Bool
  | null | bool _ | int _ | float _ => true
  | _ => false

theorem isWord_render {c : Canonical} (h : c.isWord = true) : IsWord c.render := by
  cases c with
  | null => exact isWord_of_all (by decide)
  | bool b => cases b <;> exact isWord_of_all (by decide)
  | int n => exact isWord_renderInt n
  | float x => exact isWord_write x
  | text | array | object => cases h

/-- A printed tree is left behind, also inside brackets; outside of them one with an end of its own is all
that there is to leave. -/
theorem leave_render (c : Canonical) (depth : Nat) (cs : List Char) :
    leave false depth (c.render ++ cs) = if depth = 0 ∧ ¬ c.isWord then cs else leave false depth cs := by
  induction c using Canonical.induction generalizing depth cs with
  | null | bool | int | float => simpa [isWord] using leave_word (isWord_render rfl).2 depth cs
  | text s =>
    rw [render, leave_text]
    simp [isWord]
  | array items ih =>
    have each : ∀ item ∈ renderAll items, ∀ cs,
        leave false (depth + 1) (item ++ cs) = leave false (depth + 1) cs := by
      rw [renderAll_eq_map, List.forall_mem_map]
      intro c mem cs
      simpa using ih c mem (depth + 1) cs
    rw [render, leave_bracketed (.inl rfl) (.inl rfl) each]
    simp [isWord]
  | object members ih =>
    have each : ∀ item ∈ (sortByName (renderMembers members)).map renderMember, ∀ cs,
        leave false (depth + 1) (item ++ cs) = leave false (depth + 1) cs := by
      rw [List.forall_mem_map]
      intro printed mem cs
      rw [(sortByName_perm _).mem_iff, renderMembers_eq_map] at mem
      obtain ⟨m, listed, rfl⟩ := List.mem_map.1 mem
      refine leave_member (Nat.succ_ne_zero depth) (fun cs => ?_) cs
      simpa using ih m listed (depth + 1) cs
    rw [render, leave_bracketed (.inr rfl) (.inr rfl) each]
    simp [isWord]

/-- A word ends before this text. -/
def EndsWord (cs : List Char) : Prop := ∀ c ∈ cs.head?, isWordChar c = false

theorem skip_render (c : Canonical) {cs : List Char} (ends : EndsWord cs) : skip (c.render ++ cs) = cs := by
  have first : ∀ c : Canonical, c.isWord = false → ∃ d ds, c.render = d :: ds ∧ isWordChar d = false := by
    intro c other
    cases c with
    | null | bool | int | float => cases other
    | text | array | object => exact ⟨_, _, rfl, by decide⟩
  cases word : c.isWord with
  | true =>
    obtain ⟨nonempty, chars⟩ := isWord_render word
    have left : (c.render ++ cs).dropWhile isWordChar = cs := by
      rw [List.dropWhile_append_of_pos chars]
      cases cs with
      | nil => rfl
      | cons d cs => rw [List.dropWhile_cons_of_neg (by simp [ends d rfl])]
    obtain ⟨d, ds, eq⟩ := List.exists_cons_of_ne_nil nonempty
    rw [eq] at chars left ⊢
    rw [List.cons_append, skip, if_pos (chars d List.mem_cons_self)]
    exact left
  | false =>
    obtain ⟨d, ds, eq, other⟩ := first c word
    have left := leave_render c 0 cs
    rw [eq, List.cons_append] at left ⊢
    rw [skip, if_neg (by simp [other]), left]
    simp [word]

/-- **Canonical text is read in one way only.** If two printed trees are followed by something that no word
goes on with, and all in all the same is written, then the two print alike and the same follows. -/
theorem render_append_inj {c d : Canonical} {cs ds : List Char} (ends : EndsWord cs) (ends' : EndsWord ds)
    (eq : c.render ++ cs = d.render ++ ds) : c.render = d.render ∧ cs = ds := by
  have rest : cs = ds := by
    rw [← skip_render c ends, eq, skip_render d ends']
  subst rest
  exact ⟨List.append_cancel_right eq, rfl⟩

/-! ## Kinds -/

/-- What a canonical text stands for. -/
inductive Kind where
  | null
  | truth
  | falsehood
  | number
  | text
  | array
  | object
  deriving DecidableEq

def kind : Canonical → Kind
  | null => .null
  | bool b => if b then .truth else .falsehood
  | int _ | float _ => .number
  | text _ => .text
  | array _ => .array
  | object _ => .object

/-- The kind by the first character. -/
def kindOf : List Char → Kind
  | 'n' :: _ => .null
  | 't' :: _ => .truth
  | 'f' :: _ => .falsehood
  | '"' :: _ => .text
  | '[' :: _ => .array
  | '\x7b' :: _ => .object
  | _ => .number

theorem kindOf_renderInt (n : Int) : kindOf (renderInt n) = .number := by
  have digits : ∀ c ∈ Nat.toDigits 10 n.natAbs, c.isDigit = true :=
    fun c mem => Nat.isDigit_of_mem_toDigits (by decide) (by decide) mem
  rw [renderInt, Nat.toList_repr]
  split
  · rfl
  · obtain ⟨d, ds, eq⟩ := List.exists_cons_of_ne_nil (Nat.toDigits_ne_nil (b := 10) (n := n.natAbs))
    have digit := digits d (eq ▸ List.mem_cons_self)
    rw [eq, kindOf]
    all_goals
      intro _ eq
      cases List.head_eq_of_cons_eq eq
      cases digit

theorem kindOf_render {c : Canonical} (exact : ∀ x, c ≠ float x) : kindOf c.render = c.kind := by
  cases c with
  | null => rfl
  | bool b => cases b <;> rfl
  | int n => exact kindOf_renderInt n
  | float x => exact absurd rfl (exact x)
  | text s => rfl
  | array items => rfl
  | object members => rfl

/-! ## Lists of items -/

/-- The text can be told from what follows it, by `after`, and from the end of a list. -/
structure Readable (after : List Char → List Char) (closing : Char) (item : List Char) : Prop where
  after : ∀ cs, EndsWord cs → after (item ++ cs) = cs
  first : ∃ c cs, item = c :: cs ∧ c ≠ closing

/-- What follows the first item of a list. -/
def followed (closing : Char) (items : List (List Char)) : List Char :=
  if items = [] then [closing] else ',' :: (List.intercalate [','] items ++ [closing])

theorem intercalate_cons_append (closing : Char) (item : List Char) (items : List (List Char)) :
    List.intercalate [','] (item :: items) ++ [closing] = item ++ followed closing items := by
  cases items with
  | nil => rw [List.intercalate_singleton, followed, if_pos rfl]
  | cons item' items => simp [List.intercalate_cons_cons, followed]

theorem intercalate_inj {after : List Char → List Char} {closing : Char}
    (closes : isWordChar closing = false ∧ closing ≠ ',') {items items' : List (List Char)}
    (readable : ∀ item ∈ items, Readable after closing item)
    (readable' : ∀ item ∈ items', Readable after closing item)
    (eq : List.intercalate [','] items ++ [closing] = List.intercalate [','] items' ++ [closing]) :
    items = items' := by
  have ends (items) : EndsWord (followed closing items) := by
    intro c first
    rw [followed] at first
    split at first <;> cases first
    · exact closes.1
    · decide
  have nonempty {item items} (h : Readable after closing item) :
      List.intercalate [','] (item :: items) ++ [closing] ≠ [closing] := by
    obtain ⟨c, cs, rfl, other⟩ := h.first
    rw [intercalate_cons_append, List.cons_append]
    exact fun eq => other (List.head_eq_of_cons_eq eq)
  induction items generalizing items' with
  | nil =>
    cases items' with
    | nil => rfl
    | cons item' items' => exact absurd eq.symm (nonempty (readable' item' List.mem_cons_self))
  | cons item items ih =>
    cases items' with
    | nil => exact absurd eq (nonempty (readable item List.mem_cons_self))
    | cons item' items' =>
      rw [List.forall_mem_cons] at readable readable'
      rw [intercalate_cons_append, intercalate_cons_append] at eq
      have rest : followed closing items = followed closing items' := by
        rw [← readable.1.after _ (ends items), eq, readable'.1.after _ (ends items')]
      rw [rest] at eq
      have first : item = item' := List.append_cancel_right eq
      have others : items = items' := by
        rw [followed, followed] at rest
        split at rest <;> split at rest
        · simp_all
        · exact absurd (List.head_eq_of_cons_eq rest) closes.2
        · exact absurd (List.head_eq_of_cons_eq rest).symm closes.2
        · exact ih readable.2 readable'.2 (List.tail_eq_of_cons_eq rest)
      rw [first, others]

theorem readable_render (c : Canonical) : Readable skip ']' c.render where
  after _ ends := skip_render c ends
  first := by
    cases word : c.isWord with
    | true =>
      obtain ⟨nonempty, chars⟩ := isWord_render word
      obtain ⟨d, ds, eq⟩ := List.exists_cons_of_ne_nil nonempty
      refine ⟨d, ds, eq, ?_⟩
      rintro rfl
      cases chars ']' (eq ▸ List.mem_cons_self)
    | false =>
      cases c with
      | null | bool | int | float => cases word
      | text | array | object => exact ⟨_, _, rfl, by decide⟩

/-- What follows a printed member is what follows its value, behind the name and the colon. -/
theorem readable_member (name : String) (c : Canonical) :
    Readable (fun cs => skip (skip cs).tail) '\x7d' (renderMember (name, c.render)) where
  after cs ends := by
    have colon : EndsWord (':' :: (c.render ++ cs)) := by
      rintro c ⟨⟩
      decide
    have name : skip (renderText name ++ ':' :: (c.render ++ cs)) = ':' :: (c.render ++ cs) :=
      skip_render (text name) colon
    simp only [renderMember, List.append_assoc, List.cons_append, name, List.tail_cons, skip_render c ends]
  first := ⟨_, _, rfl, by decide⟩

theorem renderMember_injective : Function.Injective renderMember := by
  rintro ⟨name, value⟩ ⟨name', value'⟩ eq
  have ends (cs : List Char) : EndsWord (':' :: cs) := by
    rintro c ⟨⟩
    decide
  obtain ⟨names, values⟩ := render_append_inj (c := text name) (d := text name') (ends value) (ends value') eq
  rw [renderText_injective names, List.tail_eq_of_cons_eq values]

/-- Arrays that print alike have items that do. -/
theorem items_of_render_eq {cs ds : List Canonical} (eq : (array cs).render = (array ds).render) :
    cs.map render = ds.map render := by
  have readable (cs : List Canonical) : ∀ item ∈ cs.map render, Readable skip ']' item :=
    List.forall_mem_map.2 fun c _ => readable_render c
  rw [render, render, renderAll_eq_map, renderAll_eq_map] at eq
  exact intercalate_inj (by decide) (readable cs) (readable ds) (List.tail_eq_of_cons_eq eq)

/-- Objects that print alike have members that do, in the order of their names. -/
theorem members_of_render_eq {ms ns : List (String × Canonical)}
    (eq : (object ms).render = (object ns).render) :
    sortByName (ms.map fun m => (m.1, m.2.render)) = sortByName (ns.map fun m => (m.1, m.2.render)) := by
  have readable (ms : List (String × Canonical)) :
      ∀ item ∈ (sortByName (ms.map fun m => (m.1, m.2.render))).map renderMember,
        Readable (fun cs => skip (skip cs).tail) '\x7d' item := by
    refine List.forall_mem_map.2 fun printed mem => ?_
    obtain ⟨m, -, rfl⟩ := List.mem_map.1 ((sortByName_perm _).mem_iff.1 mem)
    exact readable_member m.1 m.2
  rw [render, render, renderMembers_eq_map, renderMembers_eq_map] at eq
  have printed := intercalate_inj (by decide) (readable ms) (readable ns) (List.tail_eq_of_cons_eq eq)
  exact List.map_injective_iff.2 renderMember_injective printed

end StateWalk.Canonical
