import NativeInterface.Json.Reader
import NativeInterface.Json.Writer
import NativeInterface.Proofs.Spelling

/-!
# Reading back what was written

Both written forms of a value are read as that value, whatever blanks stand in front.
-/

namespace NativeInterface.Json
open Text (Shorter Rest)

variable {α : Type} {blanks first last rest : List Char} {c : Char} {n : Nat} {j : Json}
  {gap : String}

/-- What was read and the text behind it, without the proof that it is shorter. -/
def outcome {p : List Char → Prop} (r : Option (α × { r : List Char // p r })) :
    Option (α × List Char) :=
  r.map fun (a, r) => (a, r.val)

theorem outcome_eq_some {p : List Char → Prop} {r : Option (α × { r : List Char // p r })} {a : α}
    (h : outcome r = some (a, rest)) : ∃ hrest, r = some (a, ⟨rest, hrest⟩) := by
  obtain ⟨⟨a', rest', hrest⟩, hr, heq⟩ := Option.map_eq_some_iff.mp h
  cases heq
  exact ⟨hrest, hr⟩

/-- Characters that are skipped. -/
abbrev Blank (cs : List Char) : Prop := ∀ b ∈ cs, isSpace b

theorem next_blanks (hblanks : Blank blanks) (hc : isSpace c = false) (rest : List Char) :
    outcome (next (blanks ++ c :: rest)) = some (c, rest) := by
  induction blanks with
  | nil =>
    rw [List.nil_append, next, if_neg (by simp [hc])]
    rfl
  | cons b blanks ih =>
    obtain ⟨hb, hblanks⟩ := List.forall_mem_cons.mp hblanks
    obtain ⟨h, hnext⟩ := outcome_eq_some (ih hblanks)
    rw [List.cons_append, next, if_pos hb, hnext]
    rfl

/-! ## Strings -/

theorem hexDigit?_digitChar : ∀ d < 16, Text.hexDigit? (Nat.digitChar d) = some d := by decide

theorem toList_hex_four : ∀ n < 32,
    (Text.hex 4 n).toList = ['0', '0', Nat.digitChar (n / 16), Nat.digitChar (n % 16)] := by
  decide +kernel

theorem unicodeEscape_hex (hn : n < 32) (rest : List Char) :
    outcome (unicodeEscape ((Text.hex 4 n).toList ++ rest)) = some (Char.ofNat n, rest) := by
  have hhigh := hexDigit?_digitChar (n / 16) (by omega)
  have hlow := hexDigit?_digitChar (n % 16) (by omega)
  have hzero : Text.hexDigit? '0' = some 0 := by decide
  have hvalue : ((0 * 16 + 0) * 16 + n / 16) * 16 + n % 16 = n := by omega
  rw [toList_hex_four n hn, unicodeEscape]
  simp only [List.cons_append, List.nil_append, hex4, hzero, hhigh, hlow, Option.bind_eq_bind,
    Option.bind_some, hvalue]
  rw [if_neg (by omega), if_neg (by omega)]
  rfl

/-- A character is written as itself, or as an escape that stands for it. -/
theorem escapedChar_cases (c : Char) :
    (escapedChar c = [c] ∧ c ≠ '"' ∧ c ≠ '\\' ∧ 0x20 ≤ c.toNat) ∨
      ∃ tail, escapedChar c = '\\' :: tail ∧
        ∀ rest, outcome (escape (tail ++ rest)) = some (c, rest) := by
  have letter (d : Char) (hd : d ≠ 'u') (h : escaped? d = some c) :
      ∃ tail, '\\' :: [d] = '\\' :: tail ∧
        ∀ rest, outcome (escape (tail ++ rest)) = some (c, rest) := by
    refine ⟨[d], rfl, fun rest => ?_⟩
    rw [List.singleton_append, escape, if_neg hd, h]
    rfl
  fun_cases escapedChar c with
  | case1 h => exact .inr (letter '"' (by decide) (by subst h; rfl))
  | case2 _ h => exact .inr (letter '\\' (by decide) (by subst h; rfl))
  | case3 _ _ h => exact .inr (letter 'b' (by decide) (by subst h; rfl))
  | case4 _ _ _ h => exact .inr (letter 'f' (by decide) (by subst h; rfl))
  | case5 _ _ _ _ h => exact .inr (letter 'n' (by decide) (by subst h; rfl))
  | case6 _ _ _ _ _ h => exact .inr (letter 'r' (by decide) (by subst h; rfl))
  | case7 _ _ _ _ _ _ h => exact .inr (letter 't' (by decide) (by subst h; rfl))
  | case8 _ _ _ _ _ _ _ hcontrol =>
    refine .inr ⟨'u' :: (Text.hex 4 c.toNat).toList, rfl, fun rest => ?_⟩
    obtain ⟨h, hread⟩ := outcome_eq_some (unicodeEscape_hex hcontrol rest)
    rw [List.cons_append, escape, if_pos rfl, hread, Char.ofNat_toNat]
    rfl
  | case9 hquote hback _ _ _ _ _ hplain =>
    exact .inl ⟨rfl, hquote, hback, Nat.le_of_not_lt hplain⟩

theorem stringBody_escaped (s rest : List Char) :
    outcome (stringBody (s.flatMap escapedChar ++ '"' :: rest)) = some (s, rest) := by
  induction s with
  | nil =>
    rw [List.flatMap_nil, List.nil_append, stringBody]
    rfl
  | cons c s ih =>
    obtain ⟨h, hread⟩ := outcome_eq_some ih
    rw [List.flatMap_cons, List.append_assoc]
    rcases escapedChar_cases c with ⟨heq, hquote, hback, hplain⟩ | ⟨tail, heq, htail⟩
    · rw [heq, List.singleton_append, stringBody, if_neg (Nat.not_lt.mpr hplain), hread]
      · rfl
      · exact hquote
      · exact hback
    · obtain ⟨h', hescape⟩ := outcome_eq_some (htail (s.flatMap escapedChar ++ '"' :: rest))
      rw [heq, List.cons_append, stringBody, hescape]
      simp only [Option.bind_eq_bind, Option.bind_some, hread]
      rfl

/-! ## Numbers -/

/-- The character goes on with a number. -/
def continuesNumber (c : Char) : Bool := c.isDigit || c = '.' || c = 'e' || c = 'E'

/-- No number goes on with this text. -/
def endsNumber (rest : List Char) : Bool := rest.head?.all (!continuesNumber ·)

theorem toDigits_eq_cons_zero {ds : List Char} (h : Nat.toDigits 10 n = '0' :: ds) : n = 0 := by
  induction n using Nat.strongRecOn generalizing ds with
  | ind n ih =>
    rw [Nat.toDigits_eq_if (by decide)] at h
    split at h
    · exact Nat.digitChar_eq_zero.mp (List.cons.inj h).1
    · rename_i hn
      obtain ⟨d, ds', hds⟩ := List.exists_cons_of_ne_nil (@Nat.toDigits_ne_nil (n / 10) 10)
      rw [hds, List.cons_append] at h
      have hzero := ih (n / 10) (by omega) (hds.trans (by rw [(List.cons.inj h).1]))
      omega

theorem fraction_of_ends (h : endsNumber rest) : fraction rest = some [] := by
  unfold fraction
  split
  · simp [endsNumber, continuesNumber] at h
  · rfl

theorem exponent_of_ends (h : endsNumber rest) : exponent rest = some [] := by
  cases rest with
  | nil => rfl
  | cons c rest =>
    simp only [endsNumber, continuesNumber, List.head?_cons, Option.all_some] at h
    rw [exponent, if_neg (by simp_all)]

/-- The digits of a number are its whole part. -/
theorem numberText_digits {sign : List Char} (hsign : sign = [] ∨ sign = ['-']) (n : Nat)
    (hrest : endsNumber rest) :
    numberText (sign ++ (Nat.toDigits 10 n ++ rest)) = some (sign, Nat.toDigits 10 n, []) := by
  have hdigit : ∀ c ∈ Nat.toDigits 10 n, c.isDigit := fun c hc =>
    Nat.isDigit_of_mem_toDigits (by decide) (by decide) hc
  have hstop : ∀ c ∈ rest.head?, c.isDigit = false := by
    intro c hc
    cases rest with
    | nil => cases hc
    | cons c' rest =>
      obtain rfl := Option.some.inj hc
      simp_all [endsNumber, continuesNumber]
  obtain ⟨d, ds, hds⟩ := List.exists_cons_of_ne_nil (@Nat.toDigits_ne_nil n 10)
  have hwhole : wholePart (Nat.toDigits 10 n ++ rest) = Nat.toDigits 10 n := by
    unfold wholePart
    split
    · rename_i rest' heq
      rw [hds, List.cons_append] at heq
      obtain rfl := (List.cons.inj heq).1
      rw [toDigits_eq_cons_zero hds, Nat.toDigits_zero]
    · exact (Lexeme.takeWhile_of_head hdigit hstop).1
  have hd : d ≠ '-' := by
    rintro rfl
    exact absurd (hdigit '-' (hds ▸ List.mem_cons_self)) (by decide)
  have htake : ((sign ++ (Nat.toDigits 10 n ++ rest)).take 1).filter (· = '-') = sign := by
    rcases hsign with rfl | rfl
    · simp [hds, hd]
    · rfl
  unfold numberText
  simp only [htake, List.drop_left, hwhole]
  rw [if_neg (by simp)]
  simp only [fraction_of_ends hrest, Option.bind_eq_bind, Option.bind_some, List.length_nil,
    List.drop_zero, exponent_of_ends hrest, List.append_nil]

/-- An integer, wherever the text goes on in a way that ends it. -/
theorem number_digits {sign cs : List Char} (hsign : sign = [] ∨ sign = ['-'])
    (hn : sign = [] ∨ n ≠ 0) (hrest : endsNumber rest)
    (hcs : c :: cs = sign ++ (Nat.toDigits 10 n ++ rest)) :
    outcome (number c cs) = some (int (if sign.isEmpty then n else -n), rest) := by
  unfold number
  rw [hcs]
  simp only [numberText_digits hsign n hrest, Lexeme.readDecimal_toDigits, Option.bind_eq_bind,
    Option.bind_some]
  rw [if_pos ⟨rfl, hn.imp_left (by rintro rfl; rfl)⟩]
  have hpos := Nat.length_toDigits_pos (b := 10) (n := n)
  have hdrop : cs.drop (sign.length + (Nat.toDigits 10 n).length - 1) = rest := by
    rw [← List.drop_succ_cons (a := c), hcs, ← List.append_assoc]
    exact List.drop_left' (by rw [List.length_append]; omega)
  simp only [outcome, Option.map_some, List.length_nil, Nat.add_zero, hdrop]

/-! ## Values -/

/-- The reader takes the text for `a`, whatever blanks stand in front of it and however the text
goes on, as long as that ends a number. -/
def Takes (read : Reader α) (text : List Char) (a : α) : Prop :=
  ∀ blanks rest, Blank blanks → endsNumber rest →
    outcome (read (blanks ++ (text ++ rest))) = some (a, rest)

/-- What starts with no bracket or brace is a scalar, at every level. -/
theorem takes_scalar {text : List Char} (hc : isSpace c = false) (hbracket : c ≠ '[')
    (hbrace : c ≠ '\x7b')
    (h : ∀ rest, endsNumber rest → outcome (scalar c (text ++ rest)) = some (j, rest)) :
    Takes (value n) (c :: text) j := by
  intro blanks rest hblanks hrest
  obtain ⟨hlt, hnext⟩ := outcome_eq_some (next_blanks hblanks hc (text ++ rest))
  obtain ⟨hle, hscalar⟩ := outcome_eq_some (h rest hrest)
  cases n with
  | zero =>
    rw [List.cons_append, value, hnext]
    simp only [Option.bind_eq_bind, Option.bind_some, hbracket, hbrace, hscalar]
    rfl
  | succ n =>
    rw [List.cons_append, value, hnext]
    simp only [Option.bind_eq_bind, Option.bind_some, hbracket, hbrace, hscalar]
    rfl

theorem takes_null : Takes (value n) "null".toList null :=
  takes_scalar (c := 'n') (by decide) (by decide) (by decide) fun rest _ => rfl

theorem takes_true : Takes (value n) "true".toList (bool true) :=
  takes_scalar (c := 't') (by decide) (by decide) (by decide) fun rest _ => rfl

theorem takes_false : Takes (value n) "false".toList (bool false) :=
  takes_scalar (c := 'f') (by decide) (by decide) (by decide) fun rest _ => rfl

theorem takes_str (s : String) : Takes (value n) (escaped s).toList (str s) := by
  rw [escaped, String.toList_ofList, List.cons_append]
  refine takes_scalar (by decide) (by decide) (by decide) fun rest _ => ?_
  obtain ⟨h, hread⟩ := outcome_eq_some (stringBody_escaped s.toList rest)
  rw [List.append_assoc, List.singleton_append, scalar, if_pos rfl, hread]
  exact congrArg (fun s => some (str s, rest)) String.ofList_toList

/-- What starts with a digit or a minus sign is a number. -/
theorem takes_number {text : List Char} (hc : c.isDigit ∨ c = '-')
    (h : ∀ rest, endsNumber rest → outcome (number c (text ++ rest)) = some (j, rest)) :
    Takes (value n) (c :: text) j := by
  have hne (d : Char) (hd : d.isDigit = false ∧ d ≠ '-') : c ≠ d := by
    rintro rfl
    rcases hc with hc | hc
    · exact Bool.false_ne_true (hd.1.symm.trans hc)
    · exact hd.2 hc
  have hspace : isSpace c = false := by
    simp only [isSpace, Bool.or_eq_false_iff, decide_eq_false_iff_not]
    exact ⟨⟨⟨hne ' ' (by decide), hne '\t' (by decide)⟩, hne '\n' (by decide)⟩,
      hne '\r' (by decide)⟩
  refine takes_scalar hspace (hne _ (by decide)) (hne _ (by decide)) fun rest hrest => ?_
  rw [scalar, if_neg (hne _ (by decide)), if_neg (hne _ (by decide)), if_neg (hne _ (by decide)),
    if_neg (hne _ (by decide))]
  exact h rest hrest

theorem takes_int (i : Int) : Takes (value n) (Text.signedDecimal i).toList (int i) := by
  cases i with
  | ofNat k =>
    obtain ⟨d, ds, hds⟩ := List.exists_cons_of_ne_nil (@Nat.toDigits_ne_nil k 10)
    have hd : d ∈ Nat.toDigits 10 k := hds ▸ List.mem_cons_self
    rw [Text.signedDecimal, Text.decimal, String.toList_ofList, hds]
    refine takes_number (.inl (Nat.isDigit_of_mem_toDigits (by decide) (by decide) hd)) ?_
    intro rest hrest
    exact number_digits (.inl rfl) (.inl rfl) hrest (by rw [hds]; rfl)
  | negSucc k =>
    have htext : (Text.signedDecimal (.negSucc k)).toList = '-' :: Nat.toDigits 10 (k + 1) := by
      simp [Text.signedDecimal, Text.decimal]
    rw [htext]
    refine takes_number (.inr rfl) fun rest hrest => ?_
    exact number_digits (.inr rfl) (.inr (Nat.succ_ne_zero k)) hrest rfl

/-! ## Arrays and objects -/

theorem endsNumber_blanks (hblanks : Blank blanks) (hrest : endsNumber rest) :
    endsNumber (blanks ++ rest) := by
  cases blanks with
  | nil => exact hrest
  | cons b blanks =>
    have hb := hblanks b List.mem_cons_self
    simp only [isSpace, Bool.or_eq_true, decide_eq_true_eq] at hb
    rcases hb with ((rfl | rfl) | rfl) | rfl <;> rfl

/-- Items joined by commas, each with blanks behind its comma, and blanks in front of the closing
mark. -/
theorem items_join {close : Char} {item : Reader α} {text : α → String}
    (hgap : Blank gap.toList) (hclose : isSpace close = false ∧ close ≠ ',')
    {xs : List α} (hne : xs ≠ []) (h : ∀ x ∈ xs, Takes item (text x).toList x)
    (hlast : Blank last) (hends : endsNumber (close :: rest)) (hblanks : Blank blanks) :
    outcome (items close item (blanks ++ ((Text.join ("," ++ gap) (xs.map text)).toList ++
      (last ++ close :: rest)))) = some (xs, rest) := by
  induction xs generalizing blanks with
  | nil => exact absurd rfl hne
  | cons x xs ih =>
    rw [List.forall_mem_cons] at h
    cases xs with
    | nil =>
      obtain ⟨_, hitem⟩ := outcome_eq_some
        (h.1 blanks (last ++ close :: rest) hblanks (endsNumber_blanks hlast hends))
      obtain ⟨_, hnext⟩ := outcome_eq_some (next_blanks hlast hclose.1 rest)
      rw [List.map_singleton, Text.join, items, hitem]
      simp only [Option.bind_eq_bind, Option.bind_some, hnext, hclose.2]
      rfl
    | cons y ys =>
      let tail := gap.toList ++ ((Text.join ("," ++ gap) ((y :: ys).map text)).toList ++
        (last ++ close :: rest))
      have hjoin : (Text.join ("," ++ gap) ((x :: y :: ys).map text)).toList ++
          (last ++ close :: rest) = (text x).toList ++ ',' :: tail := by
        simp [Text.join, tail]
      obtain ⟨_, hitem⟩ := outcome_eq_some (h.1 blanks (',' :: tail) hblanks rfl)
      have hnext : next (',' :: tail) = some (',', ⟨tail, Nat.lt_succ_self _⟩) := rfl
      obtain ⟨_, htail⟩ := outcome_eq_some (ih (by simp) h.2 hgap)
      rw [hjoin, items, hitem]
      simp only [Option.bind_eq_bind, Option.bind_some, hnext, if_true, tail, htail]
      rfl

/-- No value starts with a closing bracket. -/
theorem next_of_value {cs : List Char} {p : Json × Shorter cs} (h : value n cs = some p) :
    ∃ c r, next cs = some (c, r) ∧ c ≠ ']' := by
  cases n <;>
  · rw [value] at h
    obtain ⟨⟨c, r⟩, hnext, h⟩ := Option.bind_eq_some_iff.mp h
    refine ⟨c, r, hnext, ?_⟩
    rintro rfl
    cases h

theorem next_of_member {read : Reader Json} {cs : List Char} {p : (String × Json) × Shorter cs}
    (h : member read cs = some p) : ∃ c r, next cs = some (c, r) ∧ c ≠ '\x7d' := by
  rw [member] at h
  obtain ⟨⟨c, r⟩, hnext, h⟩ := Option.bind_eq_some_iff.mp h
  refine ⟨c, r, hnext, ?_⟩
  rintro rfl
  cases h

/-- Whatever stands between an opening and a closing mark. -/
theorem group_join {close : Char} {item : Reader α} {text : α → String}
    (hitem : ∀ cs p, item cs = some p → ∃ c r, next cs = some (c, r) ∧ c ≠ close)
    (hgap : Blank gap.toList) (hclose : isSpace close = false ∧ close ≠ ',')
    {xs : List α} (h : ∀ x ∈ xs, Takes item (text x).toList x) (hlast : Blank last)
    (hends : endsNumber (close :: rest)) (hblanks : Blank blanks) :
    outcome (group close item (blanks ++ ((Text.join ("," ++ gap) (xs.map text)).toList ++
      (last ++ close :: rest)))) = some (xs, rest) := by
  by_cases hne : xs = []
  · subst hne
    have hall : Blank (blanks ++ last) := by
      intro b hb
      exact (List.mem_append.mp hb).elim (hblanks b) (hlast b)
    have hnext := next_blanks hall hclose.1 rest
    rw [List.append_assoc] at hnext
    obtain ⟨_, hnext⟩ := outcome_eq_some hnext
    rw [group, List.map_nil, Text.join, String.toList_empty, List.nil_append, hnext]
    simp only [Option.bind_eq_bind, Option.bind_some, if_true]
    rfl
  · have hitems := items_join hgap hclose hne h hlast hends hblanks
    obtain ⟨_, hread⟩ := outcome_eq_some hitems
    rw [items] at hread
    obtain ⟨p, hp, -⟩ := Option.bind_eq_some_iff.mp hread
    obtain ⟨c, r, hnext, hc⟩ := hitem _ p hp
    rw [group, hnext]
    simp only [Option.bind_eq_bind, Option.bind_some, hc]
    exact hitems

theorem takes_member {read : Reader Json} {name : String} {text gap : String}
    (hgap : Blank gap.toList) (h : Takes read text.toList j) :
    Takes (member read) (escaped name ++ (":" ++ gap) ++ text).toList (name, j) := by
  intro blanks rest hblanks hrest
  obtain ⟨tail, htail⟩ : ∃ tail, tail = gap.toList ++ (text.toList ++ rest) := ⟨_, rfl⟩
  have htext : (escaped name ++ (":" ++ gap) ++ text).toList ++ rest =
      '"' :: (name.toList.flatMap escapedChar ++ '"' :: ':' :: tail) := by
    simp [escaped, htail]
  have hvalue := h gap.toList rest hgap hrest
  rw [← htail] at hvalue
  obtain ⟨_, hvalue⟩ := outcome_eq_some hvalue
  obtain ⟨_, hquote⟩ := outcome_eq_some (next_blanks (c := '"') hblanks rfl
    (name.toList.flatMap escapedChar ++ '"' :: ':' :: tail))
  obtain ⟨_, hname⟩ := outcome_eq_some (stringBody_escaped name.toList (':' :: tail))
  have hcolon : next (':' :: tail) = some (':', ⟨tail, Nat.lt_succ_self _⟩) := rfl
  rw [htext, member, hquote]
  simp only [Option.bind_eq_bind, Option.bind_some, if_true, hname, hcolon, hvalue,
    String.ofList_toList]
  rfl

/-- An array or an object, with blanks behind its opening mark, behind each comma and in front of
its closing mark. -/
theorem takes_bracket {start close : Char} {item : Reader α} {make : List α → Json}
    (hread : ∀ cs r, next cs = some (start, r) →
      value (n + 1) cs = (group close item r).map fun (xs, t) => (make xs, r.within t))
    (hitem : ∀ cs p, item cs = some p → ∃ c r, next cs = some (c, r) ∧ c ≠ close)
    (hstart : isSpace start = false) (hclose : isSpace close = false ∧ close ≠ ',')
    (hends : continuesNumber close = false) {text : α → String} (hgap : Blank gap.toList)
    (hfirst : Blank first) (hlast : Blank last) {xs : List α}
    (h : ∀ x ∈ xs, Takes item (text x).toList x) :
    Takes (value (n + 1)) (start :: (first ++
      ((Text.join ("," ++ gap) (xs.map text)).toList ++ (last ++ [close])))) (make xs) := by
  intro blanks rest hblanks hrest
  have hends : endsNumber (close :: rest) := by
    simp [endsNumber, hends]
  obtain ⟨_, hgroup⟩ := outcome_eq_some
    (group_join hitem hgap hclose h hlast hends hfirst)
  obtain ⟨_, hnext⟩ := outcome_eq_some (next_blanks hblanks hstart (first ++
    ((Text.join ("," ++ gap) (xs.map text)).toList ++ (last ++ close :: rest))))
  rw [List.cons_append, List.append_assoc, List.append_assoc, List.append_assoc,
    List.singleton_append, hread _ _ hnext, hgroup]
  rfl

theorem takes_arr {js : List Json} {text : Json → String} (hgap : Blank gap.toList)
    (hfirst : Blank first) (hlast : Blank last)
    (h : ∀ j ∈ js, Takes (value n) (text j).toList j) :
    Takes (value (n + 1)) ('[' :: (first ++
      ((Text.join ("," ++ gap) (js.map text)).toList ++ (last ++ [']'])))) (arr js) := by
  refine takes_bracket (fun cs r hnext => ?_) (fun cs p => next_of_value) rfl (by decide) rfl
    hgap hfirst hlast h
  rw [value, hnext]
  rfl

theorem takes_obj {fields : List (String × Json)} {text : Json → String} {gap colon : String}
    (hgap : Blank gap.toList) (hcolon : Blank colon.toList) (hfirst : Blank first)
    (hlast : Blank last)
    (h : ∀ m ∈ fields, Takes (value n) (text m.2).toList m.2) :
    Takes (value (n + 1)) ('\x7b' :: (first ++ ((Text.join ("," ++ gap) (fields.map fun m =>
      escaped m.1 ++ (":" ++ colon) ++ text m.2)).toList ++ (last ++ ['\x7d'])))) (obj fields) := by
  have hmembers : ∀ m ∈ fields, Takes (member (value n))
      (escaped m.1 ++ (":" ++ colon) ++ text m.2).toList m :=
    fun m hm => takes_member hcolon (h m hm)
  refine takes_bracket (fun cs r hnext => ?_) (fun cs p => next_of_member) rfl (by decide) rfl
    hgap hfirst hlast hmembers
  rw [value, hnext]
  rfl

/-! ## Written values -/

/-- The value holds no number but integers, and at most so many levels of arrays and objects. -/
inductive Plain : Nat → Json → Prop where
  | null {n : Nat} : Plain n null
  | bool {n : Nat} {b : Bool} : Plain n (bool b)
  | int {n : Nat} {i : Int} : Plain n (int i)
  | str {n : Nat} {s : String} : Plain n (str s)
  | arr {n : Nat} {js : List Json} : (∀ j ∈ js, Plain n j) → Plain (n + 1) (arr js)
  | obj {n : Nat} {fields : List (String × Json)} :
    (∀ m ∈ fields, Plain n m.2) → Plain (n + 1) (obj fields)

theorem compacts_eq_map (js : List Json) : compacts js = js.map compact := by
  induction js with
  | nil => rfl
  | cons j js ih => rw [compacts, ih, List.map_cons]

theorem compactFields_eq_map (fields : List (String × Json)) :
    compactFields fields = fields.map fun m => escaped m.1 ++ (":" ++ "") ++ m.2.compact := by
  induction fields with
  | nil => rfl
  | cons m fields ih => rw [compactFields, ih, List.map_cons, String.append_empty]

theorem takes_compact (h : Plain n j) : Takes (value n) j.compact.toList j := by
  induction h with
  | null =>
    rw [compact]
    exact takes_null
  | @bool n b =>
    cases b with
    | true =>
      rw [compact]
      exact takes_true
    | false =>
      rw [compact]
      exact takes_false
  | int =>
    rw [compact]
    exact takes_int _
  | str =>
    rw [compact]
    exact takes_str _
  | @arr n js _ ih =>
    have htext : (arr js).compact.toList = '[' :: ([] ++
        ((Text.join ("," ++ "") (js.map compact)).toList ++ ([] ++ [']']))) := by
      simp [compact, compacts_eq_map]
    rw [htext]
    exact takes_arr (by simp [Blank]) (by simp [Blank]) (by simp [Blank]) ih
  | @obj n fields _ ih =>
    have htext : (obj fields).compact.toList = '\x7b' :: ([] ++ ((Text.join ("," ++ "")
        (fields.map fun m => escaped m.1 ++ (":" ++ "") ++ m.2.compact)).toList ++
        ([] ++ ['\x7d']))) := by
      simp [compact, compactFields_eq_map]
    rw [htext]
    exact takes_obj (by simp [Blank]) (by simp [Blank]) (by simp [Blank]) (by simp [Blank]) ih

theorem prettiesAt_eq_map (level : Nat) (js : List Json) :
    prettiesAt level js = js.map (prettyAt level) := by
  induction js with
  | nil => rfl
  | cons j js ih => rw [prettiesAt, ih, List.map_cons]

theorem prettyFieldsAt_eq_map (level : Nat) (fields : List (String × Json)) :
    prettyFieldsAt level fields =
      fields.map fun m => escaped m.1 ++ (":" ++ " ") ++ prettyAt level m.2 := by
  induction fields with
  | nil => rfl
  | cons m fields ih => rw [prettyFieldsAt, ih, List.map_cons]; rfl

theorem isSpace_newLine (level : Nat) : Blank (newLine level).toList := by
  intro b hb
  have hb : b = '\n' ∨ b ∈ List.replicate (2 * level) ' ' := by
    simpa [newLine] using hb
  rcases hb with rfl | hb
  · rfl
  · obtain rfl := (List.mem_replicate.mp hb).2
    rfl

/-- Spread out or not, only blanks are added to what compact parts would have between them. -/
theorem toList_spread (level : Nat) (left right : String) (parts : List String) :
    ∃ (gap : String) (first last : List Char), Blank gap.toList ∧ Blank first ∧ Blank last ∧
      (spread level left right parts).toList = left.toList ++ (first ++
        ((Text.join ("," ++ gap) parts).toList ++ (last ++ right.toList))) := by
  by_cases hparts : parts = []
  · subst hparts
    exact ⟨"", [], [], by simp [Blank], by simp [Blank], by simp [Blank],
      by simp [spread, Text.join]⟩
  · exact ⟨newLine (level + 1), (newLine (level + 1)).toList, (newLine level).toList,
      isSpace_newLine _, isSpace_newLine _, isSpace_newLine _, by simp [spread, hparts]⟩

theorem takes_prettyAt (h : Plain n j) (level : Nat) :
    Takes (value n) (prettyAt level j).toList j := by
  induction h generalizing level with
  | null =>
    rw [prettyAt]
    exact takes_null
  | @bool n b =>
    cases b with
    | true =>
      rw [prettyAt]
      exact takes_true
    | false =>
      rw [prettyAt]
      exact takes_false
  | int =>
    rw [prettyAt]
    exact takes_int _
  | str =>
    rw [prettyAt]
    exact takes_str _
  | @arr n js _ ih =>
    obtain ⟨gap, first, last, hgap, hfirst, hlast, htext⟩ :=
      toList_spread level "[" "]" (prettiesAt (level + 1) js)
    rw [prettyAt, htext, prettiesAt_eq_map]
    exact takes_arr hgap hfirst hlast fun j hj => ih j hj (level + 1)
  | @obj n fields _ ih =>
    obtain ⟨gap, first, last, hgap, hfirst, hlast, htext⟩ :=
      toList_spread level "\x7b" "\x7d" (prettyFieldsAt (level + 1) fields)
    rw [prettyAt, htext, prettyFieldsAt_eq_map]
    exact takes_obj hgap (by simp [Blank, isSpace]) hfirst hlast fun m hm => ih m hm (level + 1)

/-- A text is read as the value that its reader takes it for; blanks may follow. -/
theorem read?_of_takes {text : String} (h : Takes (value maxNesting) text.toList j) (last : String)
    (hlast : Blank last.toList) : read? (text ++ last) = some j := by
  have hends : endsNumber (last.toList ++ []) := endsNumber_blanks hlast rfl
  rw [List.append_nil] at hends
  have hread := h [] last.toList (by simp [Blank]) hends
  rw [List.nil_append, ← String.toList_append] at hread
  obtain ⟨_, hread⟩ := outcome_eq_some hread
  rw [read?, hread]
  simp only [Option.bind_eq_bind, Option.bind_some]
  exact if_pos (List.all_eq_true.mpr hlast)

end NativeInterface.Json
