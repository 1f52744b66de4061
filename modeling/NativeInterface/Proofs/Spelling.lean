import NativeInterface.Token.Lexer

/-!
# Token texts

A token found without a fault is spelled in one of a few ways (`Token.Kind.Spelled`). The text of a
token spelled so is read as that token again, in front of any text that could not go on with it
(`Lexeme.scan_text`). For strings, spelled means that the value can be written back: it holds
nothing but ASCII that shows, line feeds and tabs.
-/

namespace NativeInterface
open Token (Kind)

/-- ASCII that shows, a line feed or a tab. -/
def Text.isPlain (c : Char) : Bool := c = '\n' || c = '\t' || (' ' ≤ c && c ≤ '~')

namespace Lexeme

/-- Word characters, then at most one mark. -/
def IsNameTail (cs : List Char) : Prop :=
  ∃ word mark, (∀ c ∈ word, isWord c) ∧ (mark = [] ∨ mark = ['?'] ∨ mark = ['!']) ∧
    cs = word ++ mark

/-- A name whose first character is as asked. -/
def IsNameFrom (starts : Char → Bool) (name : String) : Prop :=
  ∃ c tail, starts c ∧ IsNameTail tail ∧ name = String.ofList (c :: tail)

end Lexeme

namespace Token.Kind
open Lexeme

/-- A string, if it is one, holds plain characters only. -/
def isPlain : Kind → Bool
  | string value => value.toList.all Text.isPlain
  | _ => true

/-- A token whose text is read as that token. -/
def Spelled : Kind → Prop
  | identifier name | key name => IsNameFrom startsIdentifier name
  | atom name => IsNameFrom startsAtom name
  | segment name => ∃ c tail, c.isUpper ∧ (∀ d ∈ tail, isWord d) ∧ name = String.ofList (c :: tail)
  | integer value => ∃ n : Nat, n ≤ maxInteger ∧ value = n
  | string value => value.toList.all Text.isPlain
  | newline | eof => False
  | _ => True

/-- Names and numbers go on as long as their characters do. -/
def goesOn : Kind → Bool
  | identifier _ | segment _ | atom _ | key _ | integer _ => true
  | _ => false

end Token.Kind

namespace Lexeme
variable {tail rest : List Char} {c : Char}

/-- No name or number goes on with this text. -/
def endsName : List Char → Bool
  | [] => true
  | c :: _ => !isWord c && c ≠ '?' && c ≠ '!'

/-- No name or number goes on with this text, and no key ends with it. -/
def ends (cs : List Char) : Bool := endsName cs && cs.head? ≠ some ':'

/-! ## Names -/

theorem isNameTail_nameTail (cs : List Char) : IsNameTail (nameTail cs) := by
  refine ⟨cs.takeWhile isWord, _, List.all_eq_true.mp List.all_takeWhile, ?_, rfl⟩
  cases cs.dropWhile isWord with
  | nil => exact .inl rfl
  | cons c rest =>
    by_cases hq : c = '?'
    · exact .inr (.inl (by simp [hq]))
    · by_cases hx : c = '!'
      · exact .inr (.inr (by simp [hx]))
      · exact .inl (by simp [hq, hx])

theorem takeWhile_of_head {p : Char → Bool} {word rest : List Char} (hword : ∀ c ∈ word, p c)
    (hrest : ∀ c ∈ rest.head?, p c = false) :
    (word ++ rest).takeWhile p = word ∧ (word ++ rest).dropWhile p = rest := by
  rw [List.takeWhile_append_of_pos hword, List.dropWhile_append_of_pos hword]
  cases rest with
  | nil => simp
  | cons c rest => simp [hrest c rfl]

theorem isWord_of_endsName {rest : List Char} (h : endsName rest) :
    ∀ c ∈ rest.head?, isWord c = false := by
  cases rest with
  | nil => simp
  | cons c rest =>
    rintro d ⟨⟩
    simp only [endsName, Bool.and_eq_true, Bool.not_eq_true'] at h
    exact h.1.1

theorem nameTail_word {word rest : List Char} (hword : ∀ c ∈ word, isWord c)
    (hrest : ∀ c ∈ rest.head?, isWord c = false) :
    nameTail (word ++ rest) = word ++ rest.head?.toList.filter fun c => c = '?' || c = '!' := by
  obtain ⟨htake, hdrop⟩ := takeWhile_of_head hword hrest
  rw [nameTail, htake, hdrop]

theorem nameTail_append (h : IsNameTail tail) (hrest : endsName rest) :
    nameTail (tail ++ rest) = tail := by
  obtain ⟨word, mark, hword, hmark, rfl⟩ := h
  rw [List.append_assoc]
  rcases hmark with rfl | rfl | rfl
  · rw [List.nil_append, nameTail_word hword (isWord_of_endsName hrest)]
    cases rest with
    | nil => rfl
    | cons c rest =>
      simp only [endsName, Bool.and_eq_true, decide_eq_true_eq] at hrest
      simp [hrest.1.2, hrest.2]
  · exact nameTail_word hword (by rintro c ⟨⟩; rfl)
  · exact nameTail_word hword (by rintro c ⟨⟩; rfl)

/-! ## What a first character decides -/

section
variable {c : Char} {cs : List Char}

theorem isWord_eq : isWord c = (c.isUpper || c.isLower || c.isDigit || c = '_') := rfl

theorem isUpper_iff_toNat : c.isUpper ↔ 65 ≤ c.toNat ∧ c.toNat ≤ 90 := decide_eq_true_iff

theorem isLower_iff_toNat : c.isLower ↔ 97 ≤ c.toNat ∧ c.toNat ≤ 122 :=
  (Bool.and_eq_true_iff).trans (and_congr decide_eq_true_iff decide_eq_true_iff)

theorem not_blank_of_isWord (hc : isWord c) : isSpace c = false ∧ c ≠ '#' ∧ c ≠ '\n' := by
  refine ⟨?_, (by rintro rfl; cases hc), (by rintro rfl; cases hc)⟩
  rw [Bool.eq_false_iff]
  intro hspace
  simp only [isSpace, Bool.or_eq_true, decide_eq_true_eq] at hspace
  rcases hspace with (rfl | rfl) | rfl <;> cases hc

/-- Neither a capital letter nor a digit starts an identifier. -/
theorem startsIdentifier_eq_false (hc : c.toNat ≤ 90) : startsIdentifier c = false := by
  rw [Bool.eq_false_iff]
  intro hstarts
  simp only [startsIdentifier, Bool.or_eq_true, decide_eq_true_eq, isLower_iff_toNat] at hstarts
  rcases hstarts with hlower | rfl
  · omega
  · exact absurd hc (by decide)

theorem scan_identifier (hc : startsIdentifier c) : scan c cs = nameOrKey c cs := by
  have hword : isWord c := by
    simp only [startsIdentifier, Bool.or_eq_true] at hc
    rcases hc with hc | hc <;> simp [isWord_eq, hc]
  obtain ⟨hspace, hhash, hfeed⟩ := not_blank_of_isWord hword
  simp [scan, hspace, hhash, hfeed, hc]

theorem scan_upper (hc : c.isUpper) :
    scan c cs =
      (.token (.segment (String.ofList (c :: cs.takeWhile isWord))) none, cs.takeWhile isWord) := by
  have hword : isWord c := by simp [isWord_eq, hc]
  obtain ⟨hspace, hhash, hfeed⟩ := not_blank_of_isWord hword
  have hlower := startsIdentifier_eq_false (isUpper_iff_toNat.mp hc).2
  simp [scan, hspace, hhash, hfeed, hlower, hc]

theorem scan_digit (hc : c.isDigit) :
    scan c cs =
      (integer (c :: cs.takeWhile isDigitOrSeparator), cs.takeWhile isDigitOrSeparator) := by
  have hword : isWord c := by simp [isWord_eq, hc]
  obtain ⟨hspace, hhash, hfeed⟩ := not_blank_of_isWord hword
  have hdigit : c.toNat ≤ 57 := (Char.isDigit_iff_toNat.mp hc).2
  have hlower := startsIdentifier_eq_false (Nat.le_trans hdigit (by decide))
  have hupper : c.isUpper = false := by
    rw [Bool.eq_false_iff]
    intro hupper
    have := (isUpper_iff_toNat.mp hupper).1
    omega
  simp [scan, hspace, hhash, hfeed, hlower, hupper, hc]

theorem scan_quote :
    scan '"' cs =
      (.token (.string (String.ofList (literal cs).value))
        (if (literal cs).closed then none else some .unterminatedString), (literal cs).text) :=
  rfl

end

theorem nameOrKey_of_ends (h : IsNameTail tail) (hrest : ends rest) :
    nameOrKey c (tail ++ rest) = (.token (.identifier (String.ofList (c :: tail))) none, tail) := by
  rw [ends, Bool.and_eq_true] at hrest
  rw [nameOrKey, nameTail_append h hrest.1, List.drop_left]
  cases rest with
  | nil => rfl
  | cons d rest =>
    have hd : d ≠ ':' := by simpa using hrest.2
    simp [hd]

theorem nameOrKey_of_colon (h : IsNameTail tail) (hrest : ends rest) :
    nameOrKey c (tail ++ ':' :: rest) =
      (.token (.key (String.ofList (c :: tail))) none, tail ++ [':']) := by
  rw [ends, Bool.and_eq_true, decide_eq_true_eq] at hrest
  rw [nameOrKey, nameTail_append h rfl, List.drop_left]
  simp [hrest.2]

/-! ## Numbers -/

theorem foldlM_digits {cs : List Char} (hcs : ∀ c ∈ cs, c.isDigit) (n : Nat) :
    cs.foldlM (fun n c => if c.isDigit then some (n * 10 + (c.toNat - '0'.toNat)) else none) n =
      some (Nat.ofDigitChars 10 cs n) := by
  induction cs generalizing n with
  | nil => simp
  | cons c cs ih =>
    rw [List.forall_mem_cons] at hcs
    rw [List.foldlM_cons, if_pos hcs.1, Nat.ofDigitChars_cons, Nat.mul_comm]
    exact ih hcs.2 _

theorem readDecimal_toDigits (n : Nat) : Text.readDecimal (Nat.toDigits 10 n) = some n := by
  have hdigits : ∀ c ∈ Nat.toDigits 10 n, c.isDigit := fun c hc =>
    Nat.isDigit_of_mem_toDigits (by decide) (by decide) hc
  rw [Text.readDecimal, if_neg (by simp), foldlM_digits hdigits, Nat.ofDigitChars_ten_toDigits]

theorem integer_toDigits {n : Nat} (hn : n ≤ maxInteger) :
    integer (Nat.toDigits 10 n) = .token (.integer n) none := by
  have hfilter : (Nat.toDigits 10 n).filter (· ≠ '_') = Nat.toDigits 10 n := by
    rw [List.filter_eq_self]
    intro c hc
    have hne : c ≠ '_' := by
      rintro rfl
      exact Nat.underscore_not_in_toDigits hc
    simpa using hne
  rw [integer, hfilter, readDecimal_toDigits]
  simp [hn]

/-! ## Strings -/

/-- A character of a string value is written with a backslash in front, or as itself. -/
theorem quotedChar_cases (h : Text.isPlain c) :
    (∃ d, Text.quotedChar c = ['\\', d] ∧ unescape d = c) ∨
      Text.quotedChar c = [c] ∧ c ≠ '\\' ∧ c ≠ '\n' ∧ c ≠ '"' := by
  by_cases htab : c = '\t'
  · exact .inl ⟨'t', by rw [htab]; rfl, by rw [htab]; rfl⟩
  by_cases hfeed : c = '\n'
  · exact .inl ⟨'n', by rw [hfeed]; rfl, by rw [hfeed]; rfl⟩
  by_cases hquote : c = '"'
  · exact .inl ⟨'"', by rw [hquote]; rfl, by rw [hquote]; rfl⟩
  by_cases hback : c = '\\'
  · exact .inl ⟨'\\', by rw [hback]; rfl, by rw [hback]; rfl⟩
  refine .inr ⟨?_, hback, hfeed, hquote⟩
  have hnull : c ≠ '\x00' := by rintro rfl; cases h
  have hreturn : c ≠ '\r' := by rintro rfl; cases h
  have hshows : Text.isPrintable c := by
    simp [Text.isPlain, htab, hfeed, Char.le_def, UInt32.le_iff_toNat_le] at h
    rw [Text.isPrintable, if_pos (by omega)]
    simpa using h.1
  simp [Text.quotedChar, htab, hfeed, hquote, hback, hnull, hreturn, hshows]

theorem literal_quoted {value : List Char} (h : ∀ c ∈ value, Text.isPlain c) (rest : List Char) :
    literal (value.flatMap Text.quotedChar ++ '"' :: rest) =
      ⟨value, value.flatMap Text.quotedChar ++ ['"'], true⟩ := by
  induction value with
  | nil => rfl
  | cons c value ih =>
    rw [List.forall_mem_cons] at h
    rw [List.flatMap_cons]
    rcases quotedChar_cases h.1 with ⟨d, hquoted, hunescape⟩ | ⟨hquoted, hback, hfeed, hquote⟩
    · simp [hquoted, literal, ih h.2, hunescape]
    · simp [hquoted, literal, ih h.2, hback, hfeed, hquote]

/-! ## Tokens -/

/-- The text of a token is read as that token. -/
theorem scan_text {k : Kind} (hk : k.Spelled) {rest : List Char} (hrest : k.goesOn → ends rest) :
    ∃ c tail, k.text.toList = c :: tail ∧ scan c (tail ++ rest) = (.token k none, tail) := by
  cases k with
  | identifier name =>
    obtain ⟨c, tail, hc, htail, rfl⟩ := hk
    refine ⟨c, tail, String.toList_ofList, ?_⟩
    rw [scan_identifier hc, nameOrKey_of_ends htail (hrest rfl)]
  | key name =>
    obtain ⟨c, tail, hc, htail, rfl⟩ := hk
    refine ⟨c, tail ++ [':'], by simp [Kind.text], ?_⟩
    rw [scan_identifier hc, List.append_assoc, List.singleton_append,
      nameOrKey_of_colon htail (hrest rfl)]
  | segment name =>
    obtain ⟨c, tail, hc, htail, rfl⟩ := hk
    have hname : endsName rest := (Bool.and_eq_true_iff.mp (hrest rfl)).1
    refine ⟨c, tail, String.toList_ofList, ?_⟩
    rw [scan_upper hc, (takeWhile_of_head htail (isWord_of_endsName hname)).1]
  | atom name =>
    obtain ⟨c, tail, hc, htail, rfl⟩ := hk
    have hname : endsName rest := (Bool.and_eq_true_iff.mp (hrest rfl)).1
    have hcolon : c ≠ ':' := by rintro rfl; cases hc
    refine ⟨':', c :: tail, by simp [Kind.text], ?_⟩
    change colon (c :: (tail ++ rest)) = _
    simp [colon, hcolon, hc, nameTail_append htail hname]
  | integer value =>
    obtain ⟨n, hn, rfl⟩ := hk
    have hname : endsName rest := (Bool.and_eq_true_iff.mp (hrest rfl)).1
    have hdigits : ∀ c ∈ Nat.toDigits 10 n, c.isDigit := fun c hc =>
      Nat.isDigit_of_mem_toDigits (by decide) (by decide) hc
    have hread := integer_toDigits hn
    obtain ⟨c, tail, htext⟩ := List.exists_cons_of_ne_nil (@Nat.toDigits_ne_nil n 10)
    rw [htext, List.forall_mem_cons] at hdigits
    rw [htext] at hread
    refine ⟨c, tail, String.toList_ofList.trans htext, ?_⟩
    have hstop : ∀ d ∈ rest.head?, isDigitOrSeparator d = false := by
      intro d hd
      have hword := isWord_of_endsName hname d hd
      simp only [isWord_eq, Bool.or_eq_false_iff] at hword
      simp [isDigitOrSeparator, hword.1.2, hword.2]
    have htail : ∀ d ∈ tail, isDigitOrSeparator d := fun d hd => by
      simp [isDigitOrSeparator, hdigits.2 d hd]
    rw [scan_digit hdigits.1, (takeWhile_of_head htail hstop).1, hread]
  | string value =>
    refine ⟨'"', value.toList.flatMap Text.quotedChar ++ ['"'], String.toList_ofList, ?_⟩
    rw [List.append_assoc, List.singleton_append, scan_quote,
      literal_quoted (List.all_eq_true.mp hk)]
    simp
  | newline | eof => cases hk
  | _ => exact ⟨_, _, rfl, rfl⟩

section
variable {c : Char} {cs : List Char} {k : Kind}

theorem spelled_of_nameOrKey (hc : startsIdentifier c)
    (h : (nameOrKey c cs).1 = .token k none) : k.Spelled := by
  have hname : IsNameFrom startsIdentifier (String.ofList (c :: nameTail cs)) :=
    ⟨c, _, hc, isNameTail_nameTail cs, rfl⟩
  unfold nameOrKey at h
  dsimp only at h
  split at h
  · split at h
    · cases h
      exact hname
    · cases h
      exact hname
  · cases h
    exact hname

theorem spelled_of_integer (h : integer cs = .token k none) : k.Spelled := by
  unfold integer at h
  dsimp only at h
  split at h
  · split at h
    · rename_i n _ hn
      cases h
      exact ⟨n, hn, rfl⟩
    · cases h
  · cases h

theorem spelled_of_colon (h : (colon cs).1 = .token k none) : k.Spelled := by
  unfold colon at h
  split at h
  · rename_i d rest
    split at h
    · cases h
      trivial
    · split at h
      · rename_i hd
        cases h
        exact ⟨d, _, hd, isNameTail_nameTail rest, rfl⟩
      · cases h
  · cases h

theorem spelled_of_punctuation (h : punctuation? c = some k) : k.Spelled := by
  unfold punctuation? at h
  split at h
  all_goals cases h
  all_goals trivial

/-- A token found without a fault is spelled as its kind is, up to the characters of a string. -/
theorem spelled_of_scan (h : (scan c cs).1 = .token k none) (hplain : k.isPlain) : k.Spelled := by
  revert h
  fun_cases scan c cs with
  | case1 | case2 | case3 | case10 =>
    intro h
    cases h
  | case4 _ _ _ hlower => exact fun h => spelled_of_nameOrKey hlower h
  | case5 _ _ _ _ hupper =>
    intro h
    cases h
    exact ⟨c, _, hupper, List.all_eq_true.mp List.all_takeWhile, rfl⟩
  | case6 => exact fun h => spelled_of_integer h
  | case7 =>
    intro h
    injection h with hk
    subst hk
    exact hplain
  | case8 => exact fun h => spelled_of_colon h
  | case9 _ _ _ _ _ _ _ _ kind hkind =>
    intro h
    cases h
    exact spelled_of_punctuation hkind

end

theorem mem_all {cs : List Char} {l : Lexeme} (h : l ∈ all cs) :
    ∃ c rest, l.reading = (scan c rest).1 := by
  fun_induction all cs with
  | case1 => cases h
  | case2 c cs found ih =>
    rcases List.mem_cons.mp h with rfl | h
    · exact ⟨c, cs, rfl⟩
    · exact ih h

end Lexeme

end NativeInterface
